import CassandraDriver.Detail.ConnectionInvariants

/-!
# Demultiplexing while nothing times out

Library `Detail`. As long as no `Pop` fails, a request or its answer is in one place until the
call that sent it pops the answer: at the server, on the wire, in the receiver's hands or in
the queue of the call's stream. So a queue is empty whenever the receiver pushes to it, and
nothing is left behind by a call that is over.
-/

namespace CassandraDriver.Detail
open CassandraDriver.Lib

namespace Connection

variable {c d : Connection}

/-- No `Pop` fails. -/
def NoTimeout : Event → Prop
  | .popFails _ => False
  | _ => True

instance : DecidablePred NoTimeout
  | .popFails _ => .isFalse id
  | .acquire .. | .exhausted _ | .send _ | .sendFails _ | .pop _ | .unsolicited _ | .waitThrows _
  | .leave _ | .answer .. | .readFrame | .readFails | .push | .pushFails | .cancel =>
    .isTrue trivial

/-- `Push` into a queue that has room neither waits nor fails, so that it can only be given up,
at its deadline or by a cancellation, while the queue is full. -/
def PushGivesUpFull (c : Connection) (e : Event) : Prop :=
  e = .pushFails ∨ e = .cancel → ∀ f ∈ c.receiver.frames, c.queues f.index ≠ none

instance (c : Connection) (e : Event) : Decidable (c.PushGivesUpFull e) :=
  inferInstanceAs (Decidable (_ → ∀ f ∈ c.receiver.frames, _))

/-- The server only answers, no `Pop` fails, and `Push` behaves as the queue promises. -/
structure Timely (c : Connection) (e : Event) : Prop where
  honest : Honest e
  noTimeout : NoTimeout e
  push : c.PushGivesUpFull e

instance (c : Connection) (e : Event) : Decidable (c.Timely e) :=
  decidable_of_iff (Honest e ∧ NoTimeout e ∧ c.PushGivesUpFull e)
    ⟨fun h ↦ ⟨h.1, h.2.1, h.2.2⟩, fun h ↦ ⟨h.1, h.2, h.3⟩⟩

/-- The call that sent the request waits in `Pop` for the answer. -/
def Awaited (c : Connection) (r : Request) : Prop :=
  c.calls r.call = .inFlight r.stream true .popping

/-- The calls whose request is at the server or whose answer is on its way to a queue. -/
def inTransit (c : Connection) : List Nat :=
  c.server.map Request.call ++ (c.wire ++ c.receiver.frames).filterMap ResponseFrame.request

/-- Each request is under way once, and its call waits for it. -/
structure Exact (c : Connection) : Prop where
  shared : c.StreamsShared
  unsent : ∀ i id stage, c.calls i = .inFlight id false stage → stage = .popping
  server : ∀ r ∈ c.server, c.Awaited r
  frames : ∀ f ∈ c.wire ++ c.receiver.frames, ∃ r raises, f = answerFrame r raises ∧ c.Awaited r
  transit : c.inTransit.Nodup
  queues : ∀ id f, c.queues id = some f →
    ∃ i raises, f = answerFrame ⟨i, id⟩ raises ∧ c.Awaited ⟨i, id⟩ ∧ i ∉ c.inTransit

/-- At first nothing is under way. -/
theorem exact_init : init.Exact where
  shared := streamsShared_init
  unsent := by simp [init]
  server := by simp [init]
  frames := by simp [init, Receiver.frames]
  transit := by simp [inTransit, init, Receiver.frames]
  queues := by simp [init]

namespace Exact

private theorem awaited_of_inTransit (h : c.Exact) {i : Nat} (hi : i ∈ c.inTransit) :
    ∃ id, c.calls i = .inFlight id true .popping := by
  rcases List.mem_append.mp hi with hi | hi
  · obtain ⟨r, hr, rfl⟩ := List.mem_map.mp hi
    exact ⟨r.stream, h.server r hr⟩
  · obtain ⟨f, hf, hreq⟩ := List.mem_filterMap.mp hi
    obtain ⟨r, raises, rfl, hr⟩ := h.frames f hf
    cases hreq
    exact ⟨r.stream, hr⟩

/-- A frame in the receiver's hands finds its queue empty. -/
theorem queue_empty (h : c.Exact) {f : ResponseFrame} (hr : c.receiver = .pushing f) :
    c.queues f.index = none := by
  have hmem : f ∈ c.wire ++ c.receiver.frames := by simp [hr, Receiver.frames]
  obtain ⟨r, raises, rfl, hawaited⟩ := h.frames f hmem
  have hlt := h.shared.held_lt r.call r.stream ⟨_, _, hawaited⟩
  have hindex : (answerFrame r raises).index = r.stream := by
    rw [ResponseFrame.index, answerFrame_stream r raises hlt, Int.toNat_natCast]
  rw [hindex]
  cases hq : c.queues r.stream with
  | none => rfl
  | some g =>
    obtain ⟨i, raises', -, hi, hnot⟩ := h.queues r.stream g hq
    have hcall : i = r.call := h.shared.holder_unique _ _ _ ⟨_, _, hi⟩ ⟨_, _, hawaited⟩
    have htransit : r.call ∈ c.inTransit :=
      List.mem_append.mpr (.inr (List.mem_filterMap.mpr ⟨_, hmem, rfl⟩))
    exact absurd (hcall ▸ htransit) hnot

/-- The stream of a frame under way is one of the client's. -/
theorem frame_stream (h : c.Exact) {f : ResponseFrame} (hf : f ∈ c.wire ++ c.receiver.frames) :
    0 ≤ f.stream.toInt ∧ f.index < StreamPool.kMaxStreams := by
  obtain ⟨r, raises, rfl, hr⟩ := h.frames f hf
  have hlt := h.shared.held_lt r.call r.stream ⟨_, _, hr⟩
  rw [ResponseFrame.index, answerFrame_stream r raises hlt, Int.toNat_natCast]
  exact ⟨Int.natCast_nonneg _, hlt⟩

/-- A call that nothing under way belongs to moves on. -/
theorem setCall (h : c.Exact) (hs : d.StreamsShared) {i : Nat} {p : Phase}
    (hi : ∀ id, c.calls i ≠ .inFlight id true .popping)
    (hp : ∀ id stage, p = .inFlight id false stage → stage = .popping)
    (hcalls : d.calls = Function.update c.calls i p) (hserver : d.server = c.server)
    (hwire : d.wire = c.wire) (hrecv : d.receiver = c.receiver) (hqueues : d.queues = c.queues) :
    d.Exact := by
  have hawaited : ∀ r, c.Awaited r → d.Awaited r := by
    intro r hr
    have hne : r.call ≠ i := by
      rintro rfl
      exact hi r.stream hr
    rw [Awaited, hcalls, Function.update_of_ne hne]
    exact hr
  have htransit : d.inTransit = c.inTransit := by
    rw [inTransit, inTransit, hserver, hwire, hrecv]
  refine ⟨hs, ?_, ?_, ?_, htransit ▸ h.transit, ?_⟩
  · intro j id stage hj
    rw [hcalls] at hj
    by_cases hji : j = i
    · subst hji
      rw [Function.update_self] at hj
      exact hp id stage hj
    · rw [Function.update_of_ne hji] at hj
      exact h.unsent j id stage hj
  · intro r hr
    exact hawaited r (h.server r (hserver ▸ hr))
  · intro f hf
    rw [hwire, hrecv] at hf
    obtain ⟨r, raises, he, hr⟩ := h.frames f hf
    exact ⟨r, raises, he, hawaited r hr⟩
  · intro id f hf
    rw [hqueues] at hf
    obtain ⟨i, raises, he, hr, hnot⟩ := h.queues id f hf
    exact ⟨i, raises, he, hawaited _ hr, htransit ▸ hnot⟩

/-- A request of a call that waits and has nothing under way reaches the server. -/
theorem send (h : c.Exact) {r : Request} (hr : c.Awaited r) (htransit : r.call ∉ c.inTransit)
    (hqueue : c.queues r.stream = none) : { c with server := c.server ++ [r] }.Exact := by
  have hperm : List.Perm { c with server := c.server ++ [r] }.inTransit
      (r.call :: c.inTransit) := by
    simp only [inTransit, List.map_append, List.map_cons, List.map_nil, List.append_assoc,
      List.singleton_append]
    exact List.perm_middle
  have hqueues : ∀ id f, c.queues id = some f → ∃ i raises, f = answerFrame ⟨i, id⟩ raises ∧
      c.Awaited ⟨i, id⟩ ∧ i ∉ { c with server := c.server ++ [r] }.inTransit := by
    intro id f hf
    obtain ⟨i, raises, he, hi, hnot⟩ := h.queues id f hf
    refine ⟨i, raises, he, hi, fun hm ↦ ?_⟩
    rcases List.mem_cons.mp (hperm.mem_iff.mp hm) with rfl | hm
    · -- The call holds one stream only, and the queue of that is empty.
      have hid : id = r.stream := by
        have hcall := hi.symm.trans hr
        injection hcall
      rw [hid, hqueue] at hf
      cases hf
    · exact hnot hm
  refine ⟨h.shared.congr rfl (fun _ _ ↦ Iff.rfl), h.unsent, ?_, h.frames, ?_, hqueues⟩
  · intro q hq
    rcases List.mem_append.mp hq with hq | hq
    · exact h.server q hq
    · rw [List.mem_singleton] at hq
      exact hq ▸ hr
  · exact hperm.nodup_iff.mpr (List.nodup_cons.mpr ⟨htransit, h.transit⟩)

/-- A request turns into its answer, or a frame comes nearer. -/
theorem relay (h : c.Exact) (hcalls : d.calls = c.calls) (hpool : d.streamPool = c.streamPool)
    (hqueues : d.queues = c.queues) (hserver : ∀ r ∈ d.server, r ∈ c.server)
    (hframes : ∀ f ∈ d.wire ++ d.receiver.frames, f ∈ c.wire ++ c.receiver.frames ∨
      ∃ r ∈ c.server, ∃ raises, f = answerFrame r raises)
    (htransit : d.inTransit.Perm c.inTransit) : d.Exact := by
  have hawaited : ∀ r, c.Awaited r → d.Awaited r := by
    intro r hr
    rwa [Awaited, hcalls]
  refine ⟨h.shared.congr hpool (by simp [Holds, hcalls]), hcalls ▸ h.unsent,
    fun r hr ↦ hawaited r (h.server r (hserver r hr)), ?_, htransit.nodup_iff.mpr h.transit, ?_⟩
  · intro f hf
    rcases hframes f hf with hf | ⟨r, hr, raises, he⟩
    · obtain ⟨r, raises, he, hr⟩ := h.frames f hf
      exact ⟨r, raises, he, hawaited r hr⟩
    · exact ⟨r, raises, he, hawaited r (h.server r hr)⟩
  · intro id f hf
    rw [hqueues] at hf
    obtain ⟨i, raises, he, hr, hnot⟩ := h.queues id f hf
    exact ⟨i, raises, he, hawaited _ hr, fun hm ↦ hnot (htransit.mem_iff.mp hm)⟩

/-- What a call pops is the answer to its own request, and nothing else of it is under way. -/
theorem popped (h : c.Exact) {i id : Nat} {sent : Bool} {f : ResponseFrame}
    (hi : c.calls i = .inFlight id sent .popping) (hq : c.queues id = some f) :
    sent = true ∧ f.request = some i ∧ i ∉ c.inTransit := by
  obtain ⟨j, raises, rfl, hj, hnot⟩ := h.queues id f hq
  have hji : j = i := h.shared.holder_unique j i id ⟨_, _, hj⟩ ⟨_, _, hi⟩
  subst hji
  have hphase := hi.symm.trans hj
  injection hphase with _ hsent
  exact ⟨hsent, rfl, hnot⟩

/-- A call pops its answer. -/
theorem pop (h : c.Exact) (hs : d.StreamsShared) {i id : Nat} {sent : Bool} {f : ResponseFrame}
    (hi : c.calls i = .inFlight id sent .popping) (hq : c.queues id = some f)
    (hd : d = { c.setCall i (.inFlight id sent (.popped f)) with
      queues := Function.update c.queues id none }) : d.Exact := by
  obtain ⟨rfl, -, hnot⟩ := h.popped hi hq
  have htransit : d.inTransit = c.inTransit := by
    rw [hd]
    rfl
  have hcalls : ∀ j, j ≠ i → d.calls j = c.calls j := by
    intro j hj
    rw [hd]
    exact Function.update_of_ne hj ..
  have hmem : ∀ r, c.Awaited r → r.call ∈ c.inTransit → d.Awaited r := by
    intro r hr hm
    have hne : r.call ≠ i := fun he ↦ hnot (he ▸ hm)
    rwa [Awaited, hcalls r.call hne]
  refine ⟨hs, ?_, ?_, ?_, htransit ▸ h.transit, ?_⟩
  · intro j k stage hj
    by_cases hji : j = i
    · subst hji
      rw [hd] at hj
      simp [Connection.setCall] at hj
    · rw [hcalls j hji] at hj
      exact h.unsent j k stage hj
  · intro r hr
    have hr' : r ∈ c.server := by rwa [hd] at hr
    exact hmem r (h.server r hr')
      (List.mem_append.mpr (.inl (List.mem_map.mpr ⟨r, hr', rfl⟩)))
  · intro g hg
    have hg' : g ∈ c.wire ++ c.receiver.frames := by rwa [hd] at hg
    obtain ⟨r, raises, rfl, hr⟩ := h.frames g hg'
    exact ⟨r, raises, rfl, hmem r hr
      (List.mem_append.mpr (.inr (List.mem_filterMap.mpr ⟨_, hg', rfl⟩)))⟩
  · intro k g hg
    have hk : k ≠ id := by
      rintro rfl
      rw [hd] at hg
      simp at hg
    have hg' : c.queues k = some g := by
      rw [hd] at hg
      simpa [Function.update_of_ne hk] using hg
    obtain ⟨j, raises, rfl, hj, hjnot⟩ := h.queues k g hg'
    have hji : j ≠ i := by
      rintro rfl
      have hphase := hi.symm.trans hj
      injection hphase with hid
      exact hk hid.symm
    exact ⟨j, raises, rfl, by rwa [Awaited, hcalls j hji], htransit ▸ hjnot⟩

/-- The receiver puts a frame into the queue of its stream. -/
theorem push (h : c.Exact) {f : ResponseFrame} (hr : c.receiver = .pushing f)
    (hd : d = { c with
      queues := Function.update c.queues f.index (some f), receiver := .reading }) : d.Exact := by
  have hf : f ∈ c.wire ++ c.receiver.frames := by simp [hr, Receiver.frames]
  obtain ⟨r, raises, rfl, hawaited⟩ := h.frames f hf
  have hindex : (answerFrame r raises).index = r.stream := by
    have hlt := h.shared.held_lt r.call r.stream ⟨_, _, hawaited⟩
    rw [ResponseFrame.index, answerFrame_stream r raises hlt, Int.toNat_natCast]
  have hperm : c.inTransit.Perm (r.call :: d.inTransit) := by
    have hone : (answerFrame r raises).request = some r.call := rfl
    rw [hd]
    simp only [inTransit, hr, Receiver.frames, List.filterMap_append, List.filterMap_cons, hone,
      List.filterMap_nil, List.append_nil, ← List.append_assoc]
    exact List.perm_append_singleton _ _
  have hnodup := List.nodup_cons.mp (hperm.nodup_iff.mp h.transit)
  have hcalls : d.calls = c.calls := by rw [hd]
  have hkept : ∀ q, c.Awaited q → d.Awaited q := fun q hq ↦ by rwa [Awaited, hcalls]
  refine ⟨h.shared.congr (by rw [hd]) (by simp [Holds, hcalls]), hcalls ▸ h.unsent, ?_, ?_,
    hnodup.2, ?_⟩
  · intro q hq
    exact hkept q (h.server q (by rwa [hd] at hq))
  · intro g hg
    obtain ⟨q, raises', he, hq⟩ := h.frames g (by
      rw [hd] at hg
      simp only [Receiver.frames, List.append_nil] at hg
      exact List.mem_append.mpr (.inl hg))
    exact ⟨q, raises', he, hkept q hq⟩
  · intro k g hg
    by_cases hk : k = r.stream
    · subst hk
      have hg' : answerFrame r raises = g := by
        rw [hd, hindex] at hg
        simpa using hg
      subst hg'
      exact ⟨r.call, raises, rfl, hkept r hawaited, hnodup.1⟩
    · have hg' : c.queues k = some g := by
        rw [hd, hindex] at hg
        simpa [Function.update_of_ne hk] using hg
      obtain ⟨j, raises', he, hj, hjnot⟩ := h.queues k g hg'
      refine ⟨j, raises', he, hkept _ hj, fun hm ↦ ?_⟩
      exact hjnot (hperm.mem_iff.mpr (List.mem_cons_of_mem _ hm))

/-- The server answers a request. -/
theorem answer (h : c.Exact) {r : Request} (hr : r ∈ c.server) (raises : Bool) :
    Exact { c with server := c.server.erase r, wire := c.wire ++ [answerFrame r raises] } := by
  refine h.relay rfl rfl rfl (fun q hq ↦ List.mem_of_mem_erase hq) ?_ ?_
  · intro f hf
    simp only [List.mem_append, List.mem_singleton] at hf ⊢
    rcases hf with (hf | rfl) | hf
    · exact .inl (.inl hf)
    · exact .inr ⟨r, hr, raises, rfl⟩
    · exact .inl (.inr hf)
  · have hframes : List.Perm ((c.wire ++ [answerFrame r raises] ++ c.receiver.frames).filterMap
        ResponseFrame.request)
        (r.call :: (c.wire ++ c.receiver.frames).filterMap ResponseFrame.request) := by
      rw [List.append_assoc, List.singleton_append]
      exact List.Perm.filterMap _ List.perm_middle
    have herase := (List.perm_cons_erase hr).map Request.call
    exact (hframes.append_left _).trans
      (List.perm_middle.trans ((herase.append_right _).symm))

/-- The receiver ends with nothing in its hands. -/
theorem stop (h : c.Exact) {reason : ExitReason} {broken : Bool} (hr : c.receiver = .reading) :
    Exact { c with receiver := .exited reason, broken := broken } := by
  refine h.relay rfl rfl rfl (fun q hq ↦ hq) (fun g hg ↦ .inl ?_) ?_
  · simpa [hr, Receiver.frames] using hg
  · simp [inTransit, hr, Receiver.frames]

/-- A stream that no call holds has an empty queue. -/
theorem queue_of_not_held (h : c.Exact) {id : Nat} (hid : ∀ i, ¬ c.Holds i id) :
    c.queues id = none := by
  cases hq : c.queues id with
  | none => rfl
  | some f =>
    obtain ⟨i, -, -, hi, -⟩ := h.queues id f hq
    exact absurd ⟨_, _, hi⟩ (hid i)

/-- Every timely step keeps each request under way once. -/
theorem step {e : Event} (h : c.Exact) (hok : c.Timely e) (ht : Transition c e d) : d.Exact := by
  have hs := h.shared.step ht
  cases ht with
  | acquire hi hid =>
    exact h.setCall hs (by simp [hi]) (by simp) rfl rfl rfl rfl rfl
  | exhausted hi => exact h.setCall hs (by simp [hi]) (by simp) rfl rfl rfl rfl rfl
  | @send i id stage hi =>
    obtain rfl := h.unsent i id stage hi
    have hnot : i ∉ c.inTransit := by
      intro hm
      obtain ⟨k, hk⟩ := h.awaited_of_inTransit hm
      rw [hi] at hk
      cases hk
    have hqueue : c.queues id = none := by
      cases hq : c.queues id with
      | none => rfl
      | some f => exact absurd (h.popped hi hq).1 (by simp)
    have hmoved : (c.setCall i (.inFlight id true .popping)).Exact :=
      h.setCall (h.shared.congr rfl (holds_congr hi rfl)) (by simp [hi]) (by simp)
        rfl rfl rfl rfl rfl
    exact hmoved.send (r := ⟨i, id⟩) (Function.update_self ..) hnot hqueue
  | sendFails hi =>
    refine h.setCall hs (by simp [hi]) (fun id stage hp ↦ ?_) rfl rfl rfl rfl rfl
    cases hp
  | pop hi hq => exact h.pop hs hi hq rfl
  | popFails hi => exact absurd hok.noTimeout id
  | @waitThrows i id sent stage hi hst =>
    have hsent : sent = true := by
      cases sent with
      | true => rfl
      | false =>
        obtain rfl := h.unsent i id stage hi
        simp at hst
    subst hsent
    refine h.setCall hs (fun k hk ↦ ?_) (by simp) rfl rfl rfl rfl rfl
    rw [hi] at hk
    cases hk
    simp at hst
  | @checked i id f hi =>
    refine h.setCall hs (by simp [hi]) (fun k stage hp ↦ ?_) rfl rfl rfl rfl rfl
    split at hp <;> cases hp
  | timedOut hi => exact h.setCall hs (by simp [hi]) (by simp) rfl rfl rfl rfl rfl
  | unwound hi => exact h.setCall hs (by simp [hi]) (by simp) rfl rfl rfl rfl rfl
  | answer hr => exact h.answer hr _
  | unsolicited => exact absurd hok.honest id
  | @skip f wire hr hw hf =>
    have hmem : f ∈ c.wire ++ c.receiver.frames := by simp [hw]
    exact absurd (h.frame_stream hmem).1 (by omega)
  | @outOfRange f wire hr hw h0 hf =>
    have hmem : f ∈ c.wire ++ c.receiver.frames := by simp [hw]
    exact absurd (h.frame_stream hmem).2 (by omega)
  | @readFrame f wire hr hw h0 hf =>
    refine h.relay rfl rfl rfl (fun q hq ↦ hq) (fun g hg ↦ .inl ?_) ?_
    · simp only [Receiver.frames, List.mem_append, hw, List.mem_cons] at hg ⊢
      tauto
    · simp only [inTransit, hr, hw, Receiver.frames, List.append_nil]
      exact (List.Perm.filterMap _ (List.perm_append_singleton f wire)).append_left _
  | readFails hr => exact h.stop hr
  | push hr hq => exact h.push hr rfl
  | @pushFails f hr =>
    exact absurd (h.queue_empty hr) (hok.push (.inl rfl) f (by simp [hr, Receiver.frames]))
  | cancel hr =>
    cases hrecv : c.receiver with
    | reading => exact h.stop hrecv
    | pushing f =>
      exact absurd (h.queue_empty hrecv) (hok.push (.inr rfl) f (by simp [hrecv, Receiver.frames]))
    | exited reason => exact absurd hrecv (hr reason)

end Exact

/-- The call and the frame of a `Pop` that succeeds. -/
def popObserved (c : Connection) : Event → List (Nat × ResponseFrame)
  | .pop i =>
    match c.calls i with
    | .inFlight id _ .popping => (c.queues id).toList.map (fun f ↦ (i, f))
    | _ => []
  | _ => []

private theorem popObserved_cases (c : Connection) (e : Event) : c.popObserved e = [] ∨
    ∃ i id sent f, e = .pop i ∧ c.popObserved e = [(i, f)] ∧
      c.calls i = .inFlight id sent .popping ∧ c.queues id = some f := by
  unfold popObserved
  split
  · next i =>
    split
    · next id sent hi =>
      cases hq : c.queues id with
      | none => exact .inl rfl
      | some f => exact .inr ⟨i, id, sent, f, rfl, rfl, hi, hq⟩
    · exact .inl rfl
  · exact .inl rfl

/-- The call is past its `Pop`. -/
def PastPop (c : Connection) (i : Nat) : Prop :=
  c.calls i ≠ .idle ∧ ∀ id sent, c.calls i ≠ .inFlight id sent .popping

private theorem PastPop.update {i j : Nat} {p : Phase} (h : c.PastPop j)
    (hcalls : d.calls = Function.update c.calls i p)
    (hp : j = i → p ≠ .idle ∧ ∀ id sent, p ≠ .inFlight id sent .popping) : d.PastPop j := by
  rw [PastPop, hcalls]
  by_cases hji : j = i
  · subst hji
    rw [Function.update_self]
    exact hp rfl
  · rw [Function.update_of_ne hji]
    exact h

private theorem pastPop_of_pop {i : Nat} (ht : Transition c (.pop i) d) : d.PastPop i := by
  cases ht with
  | pop hi hq => simp [PastPop, Connection.setCall]

/-- No step takes a call back before its `Pop`. -/
theorem PastPop.step {e : Event} {j : Nat} (h : c.PastPop j) (ht : Transition c e d) :
    d.PastPop j := by
  cases ht with
  | acquire hi hid => exact h.update rfl (fun hj ↦ absurd (hj ▸ hi) h.1)
  | exhausted hi => exact h.update rfl (fun _ ↦ by simp)
  | @send i id stage hi =>
    refine h.update rfl (fun hj ↦ ⟨by simp, fun k sent hp ↦ ?_⟩)
    cases hp
    exact h.2 _ _ (hj ▸ hi)
  | @sendFails i id stage hi =>
    refine h.update rfl (fun hj ↦ ⟨by simp, fun k sent hp ↦ ?_⟩)
    cases hp
    exact h.2 _ _ (hj ▸ hi)
  | pop hi hq => exact h.update rfl (fun _ ↦ by simp)
  | popFails hi => exact h.update rfl (fun _ ↦ by simp)
  | waitThrows hi hst => exact h.update rfl (fun _ ↦ by simp)
  | @checked i id f hi =>
    refine h.update rfl (fun _ ↦ ?_)
    split <;> simp
  | timedOut hi => exact h.update rfl (fun _ ↦ by simp)
  | unwound hi => exact h.update rfl (fun _ ↦ by simp)
  | answer hr => exact h
  | unsolicited => exact h
  | skip hr hw hf => exact h
  | outOfRange hr hw h0 hf => exact h
  | readFrame hr hw h0 hf => exact h
  | readFails hr => exact h
  | push hr hq => exact h
  | pushFails hr => exact h
  | cancel hr => exact h

/-- Every `Pop` so far gave its call the answer to its request, and no call had two. -/
structure PoppedOnce (s : Connection × List (Nat × ResponseFrame)) : Prop where
  exact : s.1.Exact
  own : ∀ p ∈ s.2, p.2.request = some p.1
  past : ∀ p ∈ s.2, s.1.PastPop p.1
  once : (s.2.map Prod.fst).Nodup

private theorem poppedOnce_nil (h : c.Exact) : PoppedOnce (c, []) where
  exact := h
  own := by simp
  past := by simp
  once := List.nodup_nil

/-- A timely step of the connection with the history of its pops. -/
theorem PoppedOnce.step {s s' : Connection × List (Nat × ResponseFrame)} {e : Event}
    (h : PoppedOnce s) (hok : s.1.Timely e)
    (hstep : recording Connection.step popObserved s e = some s') : PoppedOnce s' := by
  obtain ⟨hc, hlog⟩ := recording_eq_some hstep
  have ht := transition_of_step hc
  rcases s.1.popObserved_cases e with hnone | ⟨i, id, sent, f, rfl, hone, hi, hq⟩
  · rw [hnone, List.nil_append] at hlog
    refine ⟨h.exact.step hok ht, hlog ▸ h.own, ?_, hlog ▸ h.once⟩
    intro p hp
    exact (h.past p (hlog ▸ hp)).step ht
  · rw [hone, List.singleton_append] at hlog
    have hfresh : ∀ p ∈ s.2, p.1 ≠ i := by
      rintro p hp rfl
      exact (h.past p hp).2 _ _ hi
    refine ⟨h.exact.step hok ht, ?_, ?_, ?_⟩
    · rw [hlog]
      intro p hp
      rcases List.mem_cons.mp hp with rfl | hp
      · exact (h.exact.popped hi hq).2.1
      · exact h.own p hp
    · rw [hlog]
      intro p hp
      rcases List.mem_cons.mp hp with rfl | hp
      · exact pastPop_of_pop ht
      · exact (h.past p hp).step ht
    · rw [hlog, List.map_cons]
      refine List.nodup_cons.mpr ⟨fun hm ↦ ?_, h.once⟩
      obtain ⟨p, hp, he⟩ := List.mem_map.mp hm
      exact hfresh p hp he

/-- The frame answers a request and is on its way to the queue of a call, or in it. -/
def UnderWay (c : Connection) (f : ResponseFrame) : Prop :=
  f ∈ c.wire ∨ f ∈ c.receiver.frames ∨ ∃ id, c.queues id = some f

/-- A timely step leaves an answer under way, or its own call pops it. -/
theorem UnderWay.step {e : Event} {f : ResponseFrame} (h : c.UnderWay f) (hexact : c.Exact)
    (hok : c.Timely e) (ht : Transition c e d) :
    d.UnderWay f ∨ ∃ i id, e = .pop i ∧ f.request = some i ∧
      d.calls i = .inFlight id true (.popped f) := by
  cases ht with
  | @pop i id sent g hi hq =>
    rcases h with hf | hf | ⟨k, hf⟩
    · exact .inl (.inl hf)
    · exact .inl (.inr (.inl hf))
    · by_cases hk : k = id
      · subst hk
        rw [hq] at hf
        cases hf
        obtain ⟨rfl, hown, -⟩ := hexact.popped hi hq
        exact .inr ⟨i, k, rfl, hown, Function.update_self ..⟩
      · exact .inl (.inr (.inr ⟨k, (Function.update_of_ne hk ..).trans hf⟩))
  | answer hr =>
    rcases h with hf | hf
    · exact .inl (.inl (List.mem_append.mpr (.inl hf)))
    · exact .inl (.inr hf)
  | unsolicited => exact absurd hok.honest id
  | @skip g wire hr hw hg =>
    exact absurd (hexact.frame_stream (f := g) (by simp [hw])).1 (by omega)
  | @outOfRange g wire hr hw h0 hg =>
    exact absurd (hexact.frame_stream (f := g) (by simp [hw])).2 (by omega)
  | @readFrame g wire hr hw h0 hg =>
    rcases h with hf | hf | hf
    · rw [hw] at hf
      rcases List.mem_cons.mp hf with rfl | hf
      · exact .inl (.inr (.inl (by simp [Receiver.frames])))
      · exact .inl (.inl hf)
    · simp [hr, Receiver.frames] at hf
    · exact .inl (.inr (.inr hf))
  | readFails hr =>
    rcases h with hf | hf | hf
    · exact .inl (.inl hf)
    · simp [hr, Receiver.frames] at hf
    · exact .inl (.inr (.inr hf))
  | @push g hr hq =>
    rcases h with hf | hf | ⟨k, hf⟩
    · exact .inl (.inl hf)
    · obtain rfl : f = g := by simpa [hr, Receiver.frames] using hf
      exact .inl (.inr (.inr ⟨f.index, Function.update_self ..⟩))
    · have hk : k ≠ g.index := by
        rintro rfl
        rw [hq] at hf
        cases hf
      exact .inl (.inr (.inr ⟨k, (Function.update_of_ne hk ..).trans hf⟩))
  | @pushFails g hr =>
    exact absurd (hexact.queue_empty hr) (hok.push (.inl rfl) g (by simp [hr, Receiver.frames]))
  | cancel hr =>
    cases hrecv : c.receiver with
    | reading =>
      rcases h with hf | hf | hf
      · exact .inl (.inl hf)
      · simp [hrecv, Receiver.frames] at hf
      · exact .inl (.inr (.inr hf))
    | pushing g =>
      exact absurd (hexact.queue_empty hrecv)
        (hok.push (.inr rfl) g (by simp [hrecv, Receiver.frames]))
    | exited reason => exact absurd hrecv (hr reason)
  | acquire hi hid => exact .inl h
  | exhausted hi => exact .inl h
  | send hi => exact .inl h
  | sendFails hi => exact .inl h
  | popFails hi => exact .inl h
  | waitThrows hi hst => exact .inl h
  | checked hi => exact .inl h
  | timedOut hi => exact .inl h
  | unwound hi => exact .inl h

/-- When no call is in flight, every queue is empty and every stream id is in the pool. -/
theorem Exact.idle (h : c.Exact) (hidle : ∀ i id, ¬ c.Holds i id) :
    (∀ id, c.queues id = none) ∧ c.streamPool.queue.Perm (List.range StreamPool.kMaxStreams) := by
  refine ⟨fun id ↦ h.queue_of_not_held (fun i ↦ hidle i id), ?_⟩
  refine (List.perm_ext_iff_of_nodup h.shared.nodup List.nodup_range).mpr (fun id ↦ ?_)
  rw [List.mem_range]
  constructor
  · exact h.shared.free_lt id
  · intro hid
    rcases h.shared.covered id hid with hfree | ⟨i, hi⟩
    · exact hfree
    · exact absurd hi (hidle i id)

/-- Demultiplexing is exact in every run in which no `Pop` fails: the receiver finds the queue
of its frame empty, every answer is popped at most once and by the call that sent the request,
no answer is dropped on its way, and when no call is in flight all queues are empty and all
stream ids free. -/
theorem demultiplexing_exact {pops : List (Nat × ResponseFrame)}
    (h : Reaches (recording Connection.step popObserved) (fun s e ↦ s.1.Timely e) (init, [])
      (c, pops)) :
    (∀ f, c.receiver = .pushing f → c.queues f.index = none) ∧
    ((∀ p ∈ pops, p.2.request = some p.1) ∧ (pops.map (fun p ↦ p.2.request)).Nodup) ∧
    (∀ e d f, c.Timely e → c.step e = some d → c.UnderWay f → d.UnderWay f ∨
      ∃ i id, e = .pop i ∧ f.request = some i ∧ d.calls i = .inFlight id true (.popped f)) ∧
    ((∀ i id, ¬ c.Holds i id) → (∀ id, c.queues id = none) ∧
      c.streamPool.queue.Perm (List.range StreamPool.kMaxStreams)) := by
  have hpopped : PoppedOnce (c, pops) := by
    refine h.invariant (poppedOnce_nil exact_init) ?_
    intro s e s' hs hok hstep
    exact hs.step hok hstep
  refine ⟨fun f ↦ hpopped.exact.queue_empty, ⟨hpopped.own, ?_⟩, ?_, hpopped.exact.idle⟩
  · have hmap : pops.map (fun p ↦ p.2.request) = (pops.map Prod.fst).map some := by
      rw [List.map_map]
      exact List.map_congr_left hpopped.own
    rw [hmap]
    exact hpopped.once.map (Option.some_injective _)
  · intro e d f hok hstep hf
    exact hf.step hpopped.exact hok (transition_of_step hstep)

/-- Two calls at once, answered in the other order. -/
def crossedRun : List Event :=
  [.acquire 0 0, .acquire 1 1, .send 0, .send 1, .answer ⟨1, 1⟩ false, .answer ⟨0, 0⟩ true,
   .readFrame, .push, .readFrame, .push, .pop 0, .pop 1, .leave 1, .leave 0]

/-- Two calls that are answered in the other order pop one answer each. -/
theorem demultiplexing_exact_crossedRun : ∃ c pops,
    Reaches (recording Connection.step popObserved) (fun s e ↦ s.1.Timely e) (init, [])
      (c, pops) ∧ pops.length = 2 ∧ (pops.map (fun p ↦ p.2.request)).Nodup := by
  obtain ⟨⟨c, pops⟩, hs, hlength⟩ := Reaches.exists_of_runIf
    (recording Connection.step popObserved) (fun s e ↦ s.1.Timely e) (init, []) crossedRun
    (fun s ↦ s.2.length = 2) (by decide +kernel)
  have hexact := demultiplexing_exact hs
  exact ⟨c, pops, hs, hlength, hexact.2.1.2⟩

end Connection
end CassandraDriver.Detail
