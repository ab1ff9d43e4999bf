import CassandraDriver.Detail.WireProgress

/-!
# The connection drains, down to its bytes

Library `Detail`. Between two steps of the connection that drain, the send tasks and the server
take only so many steps that it does not see. So all runs of a `Wire` without new calls come to
their end, and there everything that was asked has been answered.
-/

namespace CassandraDriver.Detail
open CassandraDriver.Lib CassandraDriver.Protocol

variable {lz4 : Option Lz4Api} {memory : List UInt8 → Nat → UInt8} {order order' : List Sent}
  {w w' : Wire} {c c' : Connection}

/-- How often a send task has to get on before it can write. -/
def SendPhase.toBegin : SendPhase → Nat
  | .idle => 2
  | .locking _ => 1
  | .sending => 0
  | .over => 0

namespace Wire

section
open Classical

/-- How many streams are held by a call whose send task has a property. -/
noncomputable def tasks (w : Wire) (φ : SendPhase → Prop) : Nat :=
  ((Finset.range StreamPool.kMaxStreams).filter (fun id ↦ ∃ i m stage,
    w.calls i = .inFlight m id stage ∧ φ (w.sender.calls i))).card

/-- The send task of one call moves on. -/
theorem tasks_move (h : Client lz4 order w c) (hs : c.StreamsShared) (φ : SendPhase → Prop)
    {i id : Nat} {m : RequestMessage} {stage : WireStage} {p : SendPhase} {s : Sender}
    (hi : w.calls i = .inFlight m id stage)
    (hsender : s.calls = Function.update w.sender.calls i p) :
    { w with sender := s }.tasks φ + (if φ (w.sender.calls i) then 1 else 0) =
      w.tasks φ + if φ p then 1 else 0 := by
  have hholds : ∀ j k m' stage', w.calls j = .inFlight m' k stage' → c.Holds j k := by
    intro j k m' stage' hj
    obtain ⟨stage₁, hc, -⟩ := (hj ▸ h.calls j).of_inFlight
    exact ⟨_, _, hc⟩
  have hid := hs.held_lt i id (hholds i id m stage hi)
  have hunique : ∀ j m' stage', w.calls j = .inFlight m' id stage' → j = i :=
    fun j m' stage' hj ↦ hs.holder_unique j i id (hholds j id m' stage' hj) (hholds i id m stage hi)
  have hone : ∀ q : Nat → SendPhase, (∃ j m' stage', w.calls j = .inFlight m' id stage' ∧ φ (q j)) ↔
      φ (q i) := by
    intro q
    constructor
    · rintro ⟨j, m', stage', hj, hφ⟩
      rwa [hunique j m' stage' hj] at hφ
    · exact fun hφ ↦ ⟨i, m, stage, hi, hφ⟩
  have hrest : ∀ k, k ≠ id →
      ((∃ j m' stage', w.calls j = .inFlight m' k stage' ∧ φ (s.calls j)) ↔
        ∃ j m' stage', w.calls j = .inFlight m' k stage' ∧ φ (w.sender.calls j)) := by
    intro k hk
    rw [hsender]
    apply exists_congr
    intro j
    by_cases hji : j = i
    · subst hji
      simp [hi, Ne.symm hk]
    · rw [Function.update_of_ne hji]
  have hcard := Connection.card_filter_add hid hrest
  simp only [hone, hsender, Function.update_self] at hcard
  simpa only [tasks, hsender] using hcard

end

/-- How many requests are out in full. -/
def whole (w : Wire) : Nat := (w.sender.segments.filter (fun g ↦ decide g.Complete)).length

/-- More bytes of a request, but not its last, put no request out in full. -/
theorem whole_write {n i : Nat} {g : Segment} (hh : w.sender.holder = some (i, g)) (hn : 0 < n)
    (hlt : g.written + n < g.buffer.length) :
    whole { w with sender := { w.sender with holder := some (i, ⟨g.buffer, g.written + n⟩) } } =
      w.whole := by
  have hbefore : ¬ g.Complete := fun he ↦ by rw [Segment.Complete] at he; omega
  have hafter : ¬ Segment.Complete ⟨g.buffer, g.written + n⟩ := Nat.ne_of_lt hlt
  have hpos : g.written + n ≠ 0 := by omega
  simp only [whole, Sender.segments, hh, if_neg hpos, List.filter_append, List.filter_singleton,
    hafter]
  split
  · simp
  · simp [hbefore]

/-- How often send tasks have to get on before they can write, and the server to read. -/
noncomputable def unbegun (w : Wire) : Nat :=
  2 * w.tasks (· = .idle) + w.tasks (fun p ↦ ∃ buffer, p = .locking buffer) +
    (w.whole - w.served.length)

/-- What is left to do for the one who has the mutex. -/
def unwritten (w : Wire) : Nat :=
  match w.sender.holder with
  | some (_, g) => g.buffer.length - g.written + 1
  | none => 0

/-- What is left to do between two steps of the connection. -/
def Lower : Nat × Nat → Nat × Nat → Prop := Prod.Lex (· < ·) (· < ·)

end Wire

namespace Prompt

/-- The requests that are out in full are those that the server reads. -/
theorem served_le_whole (h : Prompt lz4 order w c) : w.served.length ≤ w.whole := by
  have hout := congrArg List.length h.implements.sending.out
  rw [List.length_map, List.length_map] at hout
  rw [Wire.whole, hout]
  exact h.implements.serving.count

/-- A send task moves on, and no request gets out in full. -/
theorem unbegun_move (h : Prompt lz4 order w c) {i id : Nat} {m : RequestMessage}
    {stage : WireStage} {p : SendPhase} {s : Sender} (hi : w.calls i = .inFlight m id stage)
    (hcalls : s.calls = Function.update w.sender.calls i p)
    (hwhole : { w with sender := s }.whole = w.whole) :
    { w with sender := s }.unbegun + (w.sender.calls i).toBegin = w.unbegun + p.toBegin := by
  have hidle := Wire.tasks_move h.implements.client h.flowing.exact.shared (· = .idle) hi hcalls
  have hlocking := Wire.tasks_move h.implements.client h.flowing.exact.shared
    (fun p ↦ ∃ buffer, p = .locking buffer) hi hcalls
  simp only [Wire.unbegun, hwhole]
  cases hq : w.sender.calls i <;> cases p <;>
    simp [hq, SendPhase.toBegin] at hidle hlocking ⊢ <;> omega

private theorem unbegun_lt (h : Prompt lz4 order w c) {i id : Nat} {m : RequestMessage}
    {stage : WireStage} {p : SendPhase} {s : Sender} (hi : w.calls i = .inFlight m id stage)
    (hcalls : s.calls = Function.update w.sender.calls i p)
    (hwhole : { w with sender := s }.whole = w.whole)
    (hless : p.toBegin < (w.sender.calls i).toBegin) :
    { w with sender := s }.unbegun < w.unbegun := by
  have hmove := h.unbegun_move hi hcalls hwhole
  omega

/-- A step that the connection does not see leaves less to do. -/
theorem lower_of_quiet (h : Prompt lz4 order w c) (h' : Prompt lz4 order' w' c) {e : WireEvent}
    (hquiet : w.Quiet e) (ht : Wire.Transition lz4 memory w e w') :
    Wire.Lower (w'.unbegun, w'.unwritten) (w.unbegun, w.unwritten) := by
  cases ht with
  | @start i m id stage s hi hs =>
    refine Prod.Lex.left _ _ ?_
    cases Sender.transition_of_step hs with
    | start hidle hm => exact h.unbegun_lt hi rfl rfl (by simp [hidle, SendPhase.toBegin])
    | startFails hidle hm => exact h.unbegun_lt hi rfl rfl (by simp [hidle, SendPhase.toBegin])
  | @lock i s hs =>
    refine Prod.Lex.left _ _ ?_
    cases Sender.transition_of_step hs with
    | @lock _ buffer hlocks hh =>
      obtain ⟨m, id, stage, hi, -⟩ := h.implements.sending.locking i buffer hlocks
      refine h.unbegun_lt hi rfl ?_ (by simp [hlocks, SendPhase.toBegin])
      simp [Wire.whole, Sender.segments, hh]
  | @write n s hs =>
    obtain ⟨i, g, hh, hlt⟩ := hquiet
    cases Sender.transition_of_step hs with
    | @write _ i' g' hh' hn hle =>
      rw [hh] at hh'
      cases hh'
      have hwhole := Wire.whole_write hh hn hlt
      have hsame : Wire.unbegun { w with sender := { w.sender with
          holder := some (i, ⟨g.buffer, g.written + n⟩) } } = w.unbegun := by
        simp only [Wire.unbegun, hwhole]
        rfl
      rw [hsame]
      refine Prod.Lex.right _ ?_
      simp only [Wire.unwritten, hh]
      omega
  | finish hs =>
    cases Sender.transition_of_step hs with
    | @finish i g hh hg =>
      obtain ⟨hsending, ⟨m, id, stage, hi, -⟩, -⟩ := h.implements.sending.holder i g hh
      have hmove := h.unbegun_move (p := .over)
        (s := ⟨Function.update w.sender.calls i .over, none, w.sender.segments⟩) hi rfl rfl
      simp only [hsending, SendPhase.toBegin, Nat.add_zero] at hmove
      rw [hmove]
      refine Prod.Lex.right _ ?_
      simp only [Wire.unwritten, hh]
      omega
  | @serve p rest hp =>
    refine Prod.Lex.left _ _ ?_
    have hcount := h'.served_le_whole
    simp only [List.length_append, List.length_singleton] at hcount
    have hwhole : Wire.whole { w with
        read := w.sender.bytes.length - rest.length
        served := w.served ++ [⟨p.1, p.2, none⟩] } = w.whole := rfl
    rw [hwhole] at hcount
    change _ + (w.whole - (w.served ++ [_]).length) < _ + (w.whole - w.served.length)
    rw [List.length_append, List.length_singleton]
    exact Nat.add_lt_add_left (by omega) _
  | _ => exact hquiet.elim

/-- The receiver lives at both levels. -/
theorem live_iff (h : Prompt lz4 order w c) : (∀ reason, c.receiver ≠ .exited reason) ↔
    ∀ reason, w.receiver ≠ .exited reason :=
  forall_congr' fun reason ↦ not_congr (h.implements.client.receiver.exited_iff reason)

end Prompt

namespace Wire

/-- The call waits in `Pop`, has popped a message, or is over with what `CheckError` made of
one. -/
def Ends (w : Wire) (i : Nat) (m : RequestMessage) : Prop :=
  (∃ id, w.calls i = .inFlight m id .popping) ∨ ∃ r, (w.calls i).Got m r

/-- A step that drains takes no call off its way. -/
theorem Ends.step {e : WireEvent} {i : Nat} {m : RequestMessage} (h : w.Ends i m)
    (hdrains : Drains lz4 e) (ht : Transition lz4 memory w e w') : w'.Ends i m := by
  have hupdate : ∀ {j : Nat} {p : WirePhase}, w'.calls = Function.update w.calls j p →
      (i = j → (∃ id, p = .inFlight m id .popping) ∨ ∃ r, p.Got m r) → w'.Ends i m := by
    intro j p hcalls hown
    rw [Ends, hcalls]
    by_cases hij : i = j
    · rw [hij, Function.update_self]
      exact hown hij
    · rw [Function.update_of_ne hij]
      exact h
  -- What a call in flight can be that is still on its way.
  have hstage : ∀ {m' : RequestMessage} {id : Nat} {stage : WireStage},
      w.calls i = .inFlight m' id stage →
      m' = m ∧ (stage = .popping ∨ ∃ r, stage = .popped r) := by
    intro m' id stage hi
    rcases h with ⟨id', hi'⟩ | ⟨r, ⟨id', hi'⟩ | hi'⟩
    · rw [hi] at hi'
      cases hi'
      exact ⟨rfl, .inl rfl⟩
    · rw [hi] at hi'
      cases hi'
      exact ⟨rfl, .inr ⟨r, rfl⟩⟩
    · rw [hi] at hi'
      cases hi'
  cases ht with
  | pop hi hq =>
    refine hupdate rfl ?_
    rintro rfl
    obtain ⟨rfl, -⟩ := hstage hi
    exact .inr ⟨_, .inl ⟨_, rfl⟩⟩
  | checked hsent hi =>
    refine hupdate rfl ?_
    rintro rfl
    obtain ⟨rfl, -⟩ := hstage hi
    exact .inr ⟨_, .inr rfl⟩
  | timedOut hsent hi =>
    refine hupdate rfl ?_
    rintro rfl
    obtain ⟨-, hs | ⟨r, hs⟩⟩ := hstage hi <;> cases hs
  | unwound hsent hi =>
    refine hupdate rfl ?_
    rintro rfl
    obtain ⟨-, hs | ⟨r, hs⟩⟩ := hstage hi <;> cases hs
  | acquire | exhausted | popFails | waitThrows => exact hdrains.elim
  | _ => exact h

/-- Nothing is left of the calls, and the ones that `b` waited for have their answers. -/
structure Drained (b w : Wire) : Prop where
  calls : ∀ i m id stage, w.calls i ≠ .inFlight m id stage
  pool : w.streamPool.queue.Perm (List.range StreamPool.kMaxStreams)
  queues : ∀ id, w.queues id = none
  mutex : w.sender.holder = none
  incoming : w.incoming = []
  served : w.served.length = w.whole
  answered : ∀ v ∈ w.served, v.answer ≠ none
  own : ∃ calls : List Nat, calls.Nodup ∧ ∀ i m id, b.calls i = .inFlight m id .popping →
    ∃ (k : Nat) (v : Served) (response : V4.Response) (received : Received),
      calls[k]? = some i ∧ w.served[k]? = some v ∧ v.request = m.toRequest ∧
      v.answer = some response ∧ received.message = response.toMessage ∧
      w.calls i = .checked m (checkReceived received)

/-- Where no step that drains is possible, the connection is drained. -/
theorem drained_of_stuck {b : Wire} (h : Prompt lz4 order w c)
    (hlive : ∀ reason, w.receiver ≠ .exited reason)
    (hends : ∀ i m id, b.calls i = .inFlight m id .popping → w.Ends i m)
    {response : V4.Response} (hresponse : Reply.Carried lz4 response)
    (hstuck : ∀ e, Drains lz4 e → w.step lz4 memory e = none) : b.Drained w := by
  have hdraining : c.Draining c :=
    ⟨h.flowing, h.live_iff.mpr hlive, fun i id sent hi ↦ .inl ⟨sent, hi⟩⟩
  obtain ⟨hidle, hserver, hwire⟩ := hdraining.over fun e hdrains ↦ by
    cases hstep : c.step e with
    | none => rfl
    | some c' =>
      obtain ⟨e', hdrains', hsome⟩ := h.exists_of_drains memory hresponse hdrains
        (Connection.transition_of_step hstep)
      rw [hstuck e' hdrains'] at hsome
      cases hsome
  obtain ⟨hqueues, hpool⟩ := h.flowing.exact.idle hidle
  have hI := h.implements
  have hcalls : ∀ i m id stage, w.calls i ≠ .inFlight m id stage := by
    intro i m id stage hi
    obtain ⟨stage', hc, -⟩ := (hi ▸ hI.client.calls i).of_inFlight
    exact hidle i id ⟨_, _, hc⟩
  have hall : ∀ (k : Nat) (s : Sent), order[k]? = some s →
      ∃ v, w.served[k]? = some v ∧ v.answer ≠ none := by
    intro k s hk
    by_contra hnone
    have hmem := hI.serving.unanswered k s hk fun v hv ↦ by
      by_contra hanswer
      exact hnone ⟨v, hv, hanswer⟩
    rw [hserver] at hmem
    cases hmem
  have hwhole : order.length = w.whole := by
    have hout := congrArg List.length hI.sending.out
    rw [List.length_map, List.length_map] at hout
    exact hout.symm
  refine ⟨hcalls, ?_, ?_, ?_, ?_, ?_, ?_, ?_⟩
  · rw [← hI.client.pool]
    exact hpool
  · exact fun id ↦ queue_to_none (hqueues id ▸ hI.client.queues id)
  · cases hholder : w.sender.holder with
    | none => rfl
    | some p =>
      obtain ⟨-, ⟨m, id, stage, hi, -⟩, -⟩ := hI.sending.holder p.1 p.2 hholder
      exact absurd hi (hcalls p.1 m id stage)
  · obtain ⟨replies, hbytes, hreplies⟩ := hI.incoming
    rw [hwire, List.forall₂_nil_left_iff] at hreplies
    rw [hbytes, hreplies, List.flatMap_nil]
  · rw [← hwhole]
    refine Nat.le_antisymm hI.serving.count (Nat.not_lt.mp fun hlt ↦ ?_)
    obtain ⟨v, hv, -⟩ := hall w.served.length _ (List.getElem?_eq_getElem hlt)
    rw [List.getElem?_eq_none (Nat.le_refl _)] at hv
    cases hv
  · intro v hv
    obtain ⟨k, hk, rfl⟩ := List.getElem_of_mem hv
    have hlt := Nat.lt_of_lt_of_le hk hI.serving.count
    obtain ⟨v, hv, hanswer⟩ := hall k _ (List.getElem?_eq_getElem hlt)
    rw [List.getElem?_eq_getElem hk] at hv
    cases hv
    exact hanswer
  · refine ⟨order.map Sent.call, hI.sending.nodup, fun i m id hi ↦ ?_⟩
    rcases hends i m id hi with ⟨id', hi'⟩ | ⟨r, ⟨id', hi'⟩ | hi'⟩
    · exact absurd hi' (hcalls i m id' _)
    · exact absurd hi' (hcalls i m id' _)
    · obtain ⟨k, v, response, received, hk, hv, hrequest, ha, hm, ho⟩ := h.own.checked hI hi'
      exact ⟨k, v, response, received, hk, hv, hrequest, ha, hm, hi'.trans (congrArg _ ho)⟩

/-- What is left to do on the way from `b` to its end: steps of the connection, and between two
of them steps of its bytes. -/
def LeftToDo (lz4 : Option Lz4Api) (b w : Wire) (left : Nat × Nat × Nat) : Prop :=
  ∃ order c, Prompt lz4 order w c ∧ (∀ reason, w.receiver ≠ .exited reason) ∧
    (∀ i m id, b.calls i = .inFlight m id .popping → w.Ends i m) ∧
    left = (c.stepsLeft, (w.unbegun, w.unwritten))

/-- From every state of an undisturbed run whose receiver lives, the send tasks, the server, the
receiver and the callers come to an end under every schedule, byte by byte, as long as no new call
begins; and they end with every request read and answered, nothing on the socket in either
direction, all streams back in the pool, and each call that waited for a response over with the
server's answer to its own request. -/
theorem drains_bytes (h : Reaches (step lz4 memory) (fun w e ↦ w.Undisturbed lz4 e) init w)
    (hlive : ∀ reason, w.receiver ≠ .exited reason) {response : V4.Response}
    (hresponse : Reply.Carried lz4 response) :
    Inevitable (step lz4 memory) (fun _ e ↦ Drains lz4 e) w.Drained w := by
  obtain ⟨order, c, hprompt⟩ : ∃ order c, Prompt lz4 order w c := by
    refine h.invariant (P := fun w ↦ ∃ order c, Prompt lz4 order w c) ⟨[], _, prompt_init⟩ ?_
    rintro w e w' ⟨order, c, hprompt⟩ hok hstep
    obtain ⟨order', c', hprompt', -⟩ := hprompt.step hok (transition_of_step hstep)
    exact ⟨order', c', hprompt'⟩
  have hwf : WellFounded (Prod.Lex (· < ·) Lower) :=
    Nat.lt_wfRel.wf.prod_lex (Nat.lt_wfRel.wf.prod_lex Nat.lt_wfRel.wf)
  refine inevitable_of_wf (R := LeftToDo lz4 w) hwf ?_ ?_
    ⟨order, c, hprompt, hlive, fun i m id hi ↦ .inl ⟨id, hi⟩, rfl⟩
  · rintro w' t ⟨order, c, hprompt, hlive, hends, -⟩ hstuck
    exact drained_of_stuck hprompt hlive hends hresponse hstuck
  · rintro w' t e w'' ⟨order, c, hprompt, hlive, hends, rfl⟩ hdrains hstep
    have ht := transition_of_step hstep
    obtain ⟨order', c', hprompt', hmatched⟩ := hprompt.step (undisturbed_of_drains hdrains) ht
    have hends' := fun i m id hi ↦ (hends i m id hi).step hdrains ht
    cases hmatched with
    | stutter hquiet he =>
      subst he
      refine ⟨_, ⟨order', c', hprompt', ?_, hends', rfl⟩, Prod.Lex.right _ ?_⟩
      · exact hprompt'.live_iff.mp (hprompt.live_iff.mpr hlive)
      · exact hprompt.lower_of_quiet hprompt' hquiet ht
    | step hstep' hstands htimely =>
      have hdrains' : Connection.Drains _ := hstands.to_drains hdrains
      have ht' := Connection.transition_of_step hstep'
      have hexact := hprompt.flowing.exact
      refine ⟨_, ⟨order', c', hprompt', ?_, hends', rfl⟩, Prod.Lex.left _ _ ?_⟩
      · exact hprompt'.live_iff.mp
          (hexact.live_of_drains (hprompt.live_iff.mpr hlive) hdrains' ht')
      · have hcloser := (hexact.conveys (Connection.undisturbed_of_drains hdrains') ht').closer
          hdrains'
        omega

/-- Two OPTIONS calls, one of which has the mutex and four bytes on the socket. -/
def midway : List WireEvent :=
  [.acquire 0 .options 0, .acquire 1 .options 1, .start 1, .start 0, .lock 0, .write 4]

/-- The events of such a run. -/
def isMidway : WireEvent → Bool
  | .acquire _ .options _ | .start _ | .lock _ | .write _ => true
  | _ => false

/-- Every schedule drains from the middle of a frame. -/
theorem drains_bytes_midway : ∃ w, (w.sender.holder.isSome && w.sender.bytes.length == 4) = true ∧
    Inevitable (step none fun _ _ ↦ 0) (fun _ e ↦ Drains none e) w.Drained w := by
  obtain ⟨w, hw, hmidway⟩ := Reaches.exists_of_runIf (step none fun _ _ ↦ 0)
    (fun _ e ↦ isMidway e = true) init midway
    (fun w ↦ (w.sender.holder.isSome && w.sender.bytes.length == 4) = true) (by decide +kernel)
  have hreading : w.receiver = .reading := by
    refine hw.invariant (P := fun w ↦ w.receiver = .reading) rfl ?_
    intro w e w' hreading hok hstep
    cases transition_of_step hstep <;> first | exact hreading | cases hok
  refine ⟨w, hmidway, ?_⟩
  have hvoid : Reply.Carried none .void := ⟨trivial, by decide, by simp⟩
  refine drains_bytes (hw.mono ?_) ?_ hvoid
  · intro w e h
    cases e with
    | acquire i m id =>
      cases m with
      | options => exact ⟨trivial, by decide, by simp⟩
      | _ => cases h
    | start | lock | write => trivial
    | _ => cases h
  · intro reason he
    rw [hreading] at he
    cases he

end Wire

end CassandraDriver.Detail
