import CassandraDriver.Detail.WireRefinement

/-!
# What a connection makes of its bytes

Library `Detail`. Whole runs of a `Wire`: they are runs of the `Connection` it implements, so
that what holds in all runs of that holds down to the bytes; and while nothing times out, every
call that gets a message gets what the server answered to the request of that call.
-/

namespace CassandraDriver.Detail
open CassandraDriver.Lib CassandraDriver.Io CassandraDriver.Protocol

variable {lz4 : Option Lz4Api} {memory : List UInt8 → Nat → UInt8} {order order' : List Sent}
  {w w' : Wire} {c : Connection}

/-- The message is what `ReadFrame` makes of the server's answer to the request of the call. -/
def OwnAnswer (lz4 : Option Lz4Api) (order : List Sent) (served : List Served) (i : Nat)
    (m : RequestMessage) (r : Received) : Prop :=
  ∃ (k : Nat) (s : Sent) (v : Served) (response : V4.Response), order[k]? = some s ∧ s.call = i ∧
    s.message = m ∧ served[k]? = some v ∧ v.answer = some response ∧
    r = Reply.received lz4 ⟨Int16.ofNat s.stream, response⟩

/-- A call has popped a message, or is over with what `CheckError` made of one. -/
def WirePhase.Got (p : WirePhase) (m : RequestMessage) (r : Received) : Prop :=
  (∃ id, p = .inFlight m id (.popped r)) ∨ p = .checked m (checkReceived r)

/-- A call that is past its `Pop` with a message. -/
def WirePhase.isPast : WirePhase → Bool
  | idle => false
  | inFlight _ _ .popping => false
  | inFlight _ _ (.popped _) => true
  | inFlight _ _ .popFailed => false
  | inFlight _ _ .unwinding => false
  | checked _ _ => true
  | threw _ => false

/-- Every call that is past its `Pop` with a message has got the answer to its own request. -/
def OwnAnswers (lz4 : Option Lz4Api) (order : List Sent) (w : Wire) : Prop :=
  ∀ i, (w.calls i).isPast = true → ∃ m r, (w.calls i).Got m r ∧ OwnAnswer lz4 order w.served i m r

private theorem OwnAnswer.mono {served served' : List Served} {i : Nat} {m : RequestMessage}
    {r : Received} (h : OwnAnswer lz4 order served i m r)
    (hext : Extends order served order' served') : OwnAnswer lz4 order' served' i m r := by
  obtain ⟨k, s, v, response, hk, hi, hm, hv, ha, hr⟩ := h
  obtain ⟨v', hv', ha'⟩ := hext.answers k v response hv ha
  exact ⟨k, s, v', response, hext.order k s hk, hi, hm, hv', ha', hr⟩

private theorem OwnAnswers.mono (h : OwnAnswers lz4 order w)
    (hext : Extends order w.served order' w'.served)
    (hcalls : ∀ i, (w'.calls i).isPast = true → w'.calls i = w.calls i) :
    OwnAnswers lz4 order' w' := by
  intro i hi
  have he := hcalls i hi
  rw [he] at hi ⊢
  obtain ⟨m, r, hgot, hown⟩ := h i hi
  exact ⟨m, r, hgot, hown.mono hext⟩

private theorem OwnAnswers.setCall (h : OwnAnswers lz4 order w) {i : Nat} {p : WirePhase}
    (hcalls : w'.calls = Function.update w.calls i p) (hserved : w'.served = w.served)
    (hp : p.isPast = false) : OwnAnswers lz4 order w' := by
  refine h.mono (hserved ▸ extends_refl) fun j hj ↦ ?_
  have hne : j ≠ i := by
    rintro rfl
    rw [hcalls, Function.update_self, hp] at hj
    cases hj
  rw [hcalls, Function.update_of_ne hne]

private theorem OwnAnswers.got (h : OwnAnswers lz4 order w) {i : Nat} {p : WirePhase}
    {m : RequestMessage} {r : Received} (hcalls : w'.calls = Function.update w.calls i p)
    (hserved : w'.served = w.served) (hgot : p.Got m r)
    (hown : OwnAnswer lz4 order w.served i m r) : OwnAnswers lz4 order w' := by
  intro j hj
  rw [hserved]
  by_cases hji : j = i
  · subst hji
    rw [hcalls, Function.update_self]
    exact ⟨m, r, hgot, hown⟩
  · rw [hcalls, Function.update_of_ne hji] at hj ⊢
    exact h j hj

/-- What a call pops is the answer to its own request. -/
theorem OwnAnswer.popped (h : Implements lz4 order w c) (hexact : c.Exact) {i id : Nat}
    {m : RequestMessage} {r : Received} (hi : w.calls i = .inFlight m id .popping)
    (hq : w.queues id = some r) : OwnAnswer lz4 order w.served i m r := by
  obtain ⟨stage', hc, hstage⟩ := (hi ▸ h.client.calls i).of_inFlight
  obtain rfl := hstage.of_popping
  obtain ⟨f, hf, reply, ⟨k, s, v, hk, hv, ha, hstream, rfl, -⟩, rfl⟩ :=
    queue_of_some (hq ▸ h.client.queues id)
  have hcall : s.call = i := Option.some.inj (hexact.popped hc hf).2.1
  have hmessage := h.sending.own s (List.mem_of_getElem? hk)
  rw [hcall, hi] at hmessage
  have hm : m = s.message := Option.some.inj hmessage
  exact ⟨k, s, v, reply.response, hk, hcall, hm.symm, hv, ha, by rw [← hstream]⟩

/-- A timely step keeps answers with their calls. -/
theorem OwnAnswers.step (h : OwnAnswers lz4 order w) (himplements : Implements lz4 order w c)
    (hexact : c.Exact) {e : WireEvent} (ht : Wire.Transition lz4 memory w e w')
    (hext : Extends order w.served order' w'.served) : OwnAnswers lz4 order' w' := by
  -- The calls move with the requests and answers that were there before the step.
  have hbefore : OwnAnswers lz4 order { w' with served := w.served } := by
    cases ht with
    | acquire hi hid => exact h.setCall rfl rfl rfl
    | exhausted hi => exact h.setCall rfl rfl rfl
    | pop hi hq => exact h.got rfl rfl (.inl ⟨_, rfl⟩) (.popped himplements hexact hi hq)
    | popFails hi => exact h.setCall rfl rfl rfl
    | waitThrows hi hs => exact h.setCall rfl rfl rfl
    | @checked i m id r hsent hi =>
      obtain ⟨m', r', hgot, hown⟩ := h i (by rw [hi]; rfl)
      rw [hi] at hgot
      rcases hgot with ⟨id', he⟩ | he
      · cases he
        exact h.got rfl rfl (.inr rfl) hown
      · cases he
    | timedOut hsent hi => exact h.setCall rfl rfl rfl
    | unwound hsent hi => exact h.setCall rfl rfl rfl
    | _ => exact h
  exact hbefore.mono hext (fun _ _ ↦ rfl)

private theorem simulates_step (h : Implements lz4 order w c) {e : WireEvent}
    (hok : w.Spoken lz4 e) (ht : Wire.Transition lz4 memory w e w') :
    ∃ c', Reaches Connection.step (fun _ e ↦ Connection.Honest e) c c' ∧
      ∃ order', Implements lz4 order' w' c' := by
  obtain ⟨order', c', -, hI', hmatched⟩ := h.step hok ht
  cases hmatched with
  | stutter _ he =>
    subst he
    exact ⟨c', .init, order', hI'⟩
  | step hstep' hstands htimely => exact ⟨c', .single hstands.honest hstep', order', hI'⟩

private theorem Sent.getElem?_call {k : Nat} {s : Sent} (hk : order[k]? = some s) :
    (order.map Sent.call)[k]? = some s.call := by
  rw [List.getElem?_map, hk]
  rfl

/-- What the server has read is the request of a call. -/
theorem Implements.served_call (h : Implements lz4 order w c) {k : Nat} {v : Served}
    (hv : w.served[k]? = some v) : ∃ i m, (order.map Sent.call)[k]? = some i ∧
      (w.calls i).message = some m ∧ v.request = m.toRequest := by
  have hk : k < order.length :=
    Nat.lt_of_lt_of_le (List.getElem?_eq_some_iff.mp hv).1 h.serving.count
  have hs := List.getElem?_eq_getElem hk
  exact ⟨_, _, Sent.getElem?_call hs, h.sending.own _ (List.getElem_mem hk),
    (h.serving.own k _ v hs hv).2⟩

/-- A call that ended with what `CheckError` made of a message got the answer to its request. -/
theorem OwnAnswers.checked (h : OwnAnswers lz4 order w) (himplements : Implements lz4 order w c)
    {i : Nat} {m : RequestMessage} {outcome : Except CallError Received}
    (hi : w.calls i = .checked m outcome) : ∃ (k : Nat) (v : Served) (response : V4.Response)
      (received : Received), (order.map Sent.call)[k]? = some i ∧ w.served[k]? = some v ∧
      v.request = m.toRequest ∧ v.answer = some response ∧
      received.message = response.toMessage ∧ outcome = checkReceived received := by
  obtain ⟨m', r, hgot, k, s, v, response, hk, hsi, hsm, hv, ha, hr⟩ := h i (by rw [hi]; rfl)
  rw [hi] at hgot
  rcases hgot with ⟨id, he⟩ | he
  · cases he
  · cases he
    refine ⟨k, v, response, r, hsi ▸ Sent.getElem?_call hk, hv, ?_, ha, ?_, rfl⟩
    · rw [← hsm]
      exact (himplements.serving.own k s v hk hv).2
    · rw [hr]
      rfl

/-- While a request that is out has not been read, the server finds one to read. -/
theorem Implements.unread (h : Implements lz4 order w c) (hlt : w.served.length < order.length) :
    (V4.requestFrame lz4).run (w.sender.bytes.drop w.read) ≠ none := by
  obtain ⟨tail, hdrop, -, -⟩ := h.sending.bytes_drop h.serving
  have hm := h.sending.carried _ (List.getElem_mem hlt)
  rw [hdrop, List.drop_eq_getElem_cons hlt, List.flatMap_cons, List.append_assoc, Sent.frame,
    RequestMessage.requestFrame_consumes hm]
  exact Option.some_ne_none _

namespace Wire

/-- Requests and answers of a few bytes that can be laid out, and no timeout. -/
def plain (w : Wire) : WireEvent → Bool
  | .start i =>
    match w.calls i with
    | .inFlight .options _ _ => true
    | .inFlight (.prepare text) _ _ => text.length ≤ 255
    | _ => false
  | .lock i => decide (w.sender.LocksIntact (.lock i))
  | .answer _ .void => true
  | .answer _ (.error _ message details) => message.length ≤ 255 && details.length ≤ 255
  | .answer .. => false
  | .popFails _ => false
  | .pushFails => false
  | .cancel => false
  | _ => true

private theorem carried_prepare {text : List UInt8} (h : text.length ≤ 255) :
    (RequestMessage.prepare text).Carried none := by
  have hlength : (RequestMessage.prepare text).encodeBody.length = 4 + text.length := by
    change (LenType.int.encode text.length ++ text).length = _
    rw [List.length_append]
    rfl
  exact ⟨trivial, by rw [hlength]; omega, by simp⟩

private theorem carried_error {code : Int32} {message details : List UInt8}
    (hm : message.length ≤ 255) (hd : details.length ≤ 255) :
    Reply.Carried none (.error code message details) := by
  have hlength : (V4.Response.error code message details).encode.length =
      4 + (2 + message.length + details.length) := by
    simp only [V4.Response.encode, encodeString, LenType.encode, List.length_append,
      length_toBE, LenType.integral, IntegralType.width]
  exact ⟨Nat.le_trans hm (by decide), by rw [hlength]; omega, by simp⟩

/-- Such a run is one that the results on runs are about. -/
theorem spoken_of_plain {e : WireEvent} (h : w.plain e = true) :
    w.Spoken none e ∧ w.InTime e := by
  cases e with
  | start i =>
    refine ⟨fun m id stage hi ↦ ?_, trivial⟩
    rw [plain, hi] at h
    cases m with
    | options => exact ⟨trivial, by decide, by simp⟩
    | prepare text => exact carried_prepare (of_decide_eq_true h)
    | startup m => cases h
    | query level text params => cases h
    | execute level text params => cases h
    | batch queries level => cases h
  | lock i =>
    have hlock : w.sender.LocksIntact (.lock i) := of_decide_eq_true h
    exact ⟨hlock, trivial⟩
  | answer k response =>
    refine ⟨?_, trivial⟩
    cases response with
    | void => exact ⟨trivial, by decide, by simp⟩
    | error code message details =>
      obtain ⟨hm, hd⟩ := Bool.and_eq_true_iff.mp h
      exact carried_error (of_decide_eq_true hm) (of_decide_eq_true hd)
    | ready => cases h
    | authenticate a => cases h
    | supported options => cases h
    | result r => cases h
    | schemaChange c => cases h
  | popFails i => cases h
  | pushFails => cases h
  | cancel => cases h
  | _ => exact ⟨trivial, trivial⟩

/-- Two calls at once, the first of which is sent in two parts, answered in the other order, the
second with an error. -/
def crossedRun : List WireEvent :=
  [.acquire 0 .options 0, .acquire 1 (.prepare (utf8 "USE k")) 1, .start 1, .start 0, .lock 0,
   .write 4, .write 5, .finish, .lock 1, .serve, .write 18, .finish, .serve,
   .answer 1 (.error 0x2200 [110, 111] []), .answer 0 .void, .readFrame, .push, .readFrame, .push,
   .pop 0, .pop 1, .leave 0, .leave 1]

/-- The first call has returned the Void result and the second has thrown the error. -/
def crossedEnd (w : Wire) : Bool :=
  (match w.calls 0 with
    | .checked .options (.ok ⟨_, .result 1 .void⟩) => true
    | _ => false) &&
  match w.calls 1 with
    | .checked (.prepare _) (.error (.frameError code message)) =>
      code == 0x2200 && message == [110, 111]
    | _ => false

private theorem exists_crossedRun : ∃ w, Reaches (step none fun _ _ ↦ 0)
    (fun w e ↦ w.Spoken none e ∧ w.InTime e) init w ∧ crossedEnd w = true := by
  obtain ⟨w, hw, hend⟩ := Reaches.exists_of_runIf (step none fun _ _ ↦ 0)
    (fun w e ↦ w.plain e = true) init crossedRun (fun w ↦ crossedEnd w = true) (by decide +kernel)
  exact ⟨w, hw.mono (fun _ _ h ↦ spoken_of_plain h), hend⟩

private theorem exists_run (h : Reaches (step lz4 memory) (fun w e ↦ w.Spoken lz4 e) init w) :
    ∃ c, Reaches Connection.step (fun _ e ↦ Connection.Honest e) Connection.init c ∧
      ∃ order, Implements lz4 order w c := by
  refine h.simulate (R := fun w c ↦ ∃ order, Implements lz4 order w c) ⟨[], implements_init lz4⟩ ?_
  rintro w c e w' ⟨order, hI⟩ hok hstep
  exact simulates_step hI hok (transition_of_step hstep)

/-- Every run of the bytes, in which requests and answers can be laid out and the mutex is taken
only behind whole requests, is a run of the connection they implement with a server that only
answers. -/
theorem exists_implements (h : Reaches (step lz4 memory) (fun w e ↦ w.Spoken lz4 e) init w) :
    ∃ c order, Reaches Connection.step (fun _ e ↦ Connection.Honest e) Connection.init c ∧
      Implements lz4 order w c := by
  obtain ⟨c, hc, order, himplements⟩ := exists_run h
  exact ⟨c, order, hc, himplements⟩

/-- The crossed run of the bytes implements one of messages. -/
theorem exists_implements_crossed : ∃ w c order, crossedEnd w = true ∧
    Reaches Connection.step (fun _ e ↦ Connection.Honest e) Connection.init c ∧
    Implements none order w c := by
  obtain ⟨w, hw, hend⟩ := exists_crossedRun
  obtain ⟨c, order, hc, hI⟩ := exists_implements (hw.mono (fun _ _ h ↦ h.1))
  exact ⟨w, c, order, hend, hc, hI⟩

/-- What is out in full on the socket are the frames of requests of different calls, each as its
call meant it, whatever times out; the server has read the first of them, in the order of their
bytes and each as it was meant, and it finds another to read exactly while it has not read them
all. -/
theorem served_requests (h : Reaches (step lz4 memory) (fun w e ↦ w.Spoken lz4 e) init w) :
    ∃ order : List Sent, (order.map Sent.call).Nodup ∧
      (w.sender.segments.filter (fun g ↦ decide g.Complete)).map Segment.buffer =
        order.map (Sent.frame lz4) ∧
      (∀ s ∈ order, (w.calls s.call).message = some s.message) ∧
      w.served.length ≤ order.length ∧
      (∀ (k : Nat) (s : Sent) (v : Served), order[k]? = some s → w.served[k]? = some v →
        v.stream = (Int16.ofNat s.stream).toInt ∧ v.request = s.message.toRequest) ∧
      ((V4.requestFrame lz4).run (w.sender.bytes.drop w.read) = none ↔
        w.served.length = order.length) := by
  obtain ⟨c, -, order, hI⟩ := exists_run h
  refine ⟨order, hI.sending.nodup, hI.sending.out, hI.sending.own, hI.serving.count,
    hI.serving.own, ?_⟩
  constructor
  · intro hrun
    by_contra hne
    exact hI.unread (Nat.lt_of_le_of_ne hI.serving.count hne) hrun
  · intro he
    obtain ⟨tail, hdrop, -, hnone⟩ := hI.sending.bytes_drop hI.serving
    rw [hdrop, he, List.drop_length, List.flatMap_nil, List.nil_append]
    exact hnone

/-- The server has read both requests. -/
theorem served_requests_crossed : ∃ w, ∃ order : List Sent, crossedEnd w = true ∧
    (order.map Sent.call).Nodup ∧
    (w.sender.segments.filter (fun g ↦ decide g.Complete)).map Segment.buffer =
      order.map (Sent.frame none) ∧
    ((V4.requestFrame none).run (w.sender.bytes.drop w.read) = none ↔
      w.served.length = order.length) := by
  obtain ⟨w, hw, hend⟩ := exists_crossedRun
  obtain ⟨order, hnodup, hout, -, -, -, hread⟩ := served_requests (hw.mono (fun _ _ h ↦ h.1))
  exact ⟨w, order, hend, hnodup, hout, hread⟩

private theorem exists_timely_run
    (h : Reaches (step lz4 memory) (fun w e ↦ w.Spoken lz4 e ∧ w.InTime e) init w) :
    ∃ c, Reaches Connection.step (fun c e ↦ c.Timely e) Connection.init c ∧
      ∃ order, Implements lz4 order w c ∧ c.Exact ∧ OwnAnswers lz4 order w := by
  refine h.simulate (R := fun w c ↦ ∃ order, Implements lz4 order w c ∧ c.Exact ∧
    OwnAnswers lz4 order w) ⟨[], implements_init lz4, Connection.exact_init,
      fun _ hi ↦ (by cases hi)⟩ ?_
  rintro w c e w' ⟨order, hI, hexact, hown⟩ hok hstep
  have ht := transition_of_step hstep
  obtain ⟨order', c', hext, hI', hmatched⟩ := hI.step hok.1 ht
  have hown' := hown.step hI hexact ht hext
  cases hmatched with
  | stutter _ he =>
    subst he
    exact ⟨c', .init, order', hI', hexact, hown'⟩
  | step hstep' _ htimely =>
    exact ⟨c', .single (htimely hok.2) hstep', order', hI',
      hexact.step (htimely hok.2) (Connection.transition_of_step hstep'), hown'⟩

/-- In a run in which nothing times out, the requests that the server has read are those of
different calls, each the request of its call, and every call that ended with what `CheckError`
made of a message got the message of the server's answer to its own request. -/
theorem own_answers (h : Reaches (step lz4 memory) (fun w e ↦ w.Spoken lz4 e ∧ w.InTime e)
      init w) :
    ∃ calls : List Nat, calls.Nodup ∧
      (∀ (k : Nat) (v : Served), w.served[k]? = some v → ∃ i m, calls[k]? = some i ∧
        (w.calls i).message = some m ∧ v.request = m.toRequest) ∧
      ∀ i m outcome, w.calls i = .checked m outcome → ∃ (k : Nat) (v : Served)
        (response : V4.Response) (received : Received), calls[k]? = some i ∧
        w.served[k]? = some v ∧ v.request = m.toRequest ∧ v.answer = some response ∧
        received.message = response.toMessage ∧ outcome = checkReceived received := by
  obtain ⟨c, -, order, hI, -, hown⟩ := exists_timely_run h
  refine ⟨order.map Sent.call, hI.sending.nodup, ?_, ?_⟩
  · exact fun k v hv ↦ hI.served_call hv
  · exact fun i m outcome hi ↦ hown.checked hI hi

/-- Both calls have ended with their own answers. -/
theorem own_answers_crossed : ∃ w, ∃ calls : List Nat, crossedEnd w = true ∧ calls.Nodup ∧
    ∀ i m outcome, w.calls i = .checked m outcome → ∃ (k : Nat) (v : Served)
      (response : V4.Response) (received : Received), calls[k]? = some i ∧
      w.served[k]? = some v ∧ v.request = m.toRequest ∧ v.answer = some response ∧
      received.message = response.toMessage ∧ outcome = checkReceived received := by
  obtain ⟨w, hw, hend⟩ := exists_crossedRun
  obtain ⟨calls, hnodup, -, hown⟩ := own_answers hw
  exact ⟨w, calls, hend, hnodup, hown⟩

end Wire
end CassandraDriver.Detail
