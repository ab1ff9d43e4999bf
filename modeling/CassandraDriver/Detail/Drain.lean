import Mathlib.Data.Finset.Card
import Mathlib.Data.Finset.Range
import Mathlib.Tactic.Common
import CassandraDriver.Detail.Demultiplex

/-!
# The connection drains

Library `Detail`. A call that is in flight stands at one of six places: its request is not yet
sent, at the server, answered on the wire, in the receiver's hands, in the queue of its stream,
or popped. Every step of the send tasks, the server, the receiver and the callers takes one call
one place on, and as long as a call is in flight such a step is possible: the calls of
`ExecuteMessageAsync`, `src/detail/connection_impl.cpp:175`, come to their end under every
schedule, each with its own answer.
-/

namespace CassandraDriver.Detail
open CassandraDriver.Lib

/-- The call is in flight with this stream and has a property. -/
def Phase.Shows (p : Phase) (φ : Bool → Stage → Prop) (id : Nat) : Prop :=
  ∃ sent stage, p = .inFlight id sent stage ∧ φ sent stage

private theorem Phase.shows_inFlight (φ : Bool → Stage → Prop) (id : Nat) (sent : Bool)
    (stage : Stage) (k : Nat) :
    (Phase.inFlight id sent stage).Shows φ k ↔ k = id ∧ φ sent stage := by
  constructor
  · rintro ⟨sent', stage', hphase, hφ⟩
    cases hphase
    exact ⟨rfl, hφ⟩
  · rintro ⟨rfl, hφ⟩
    exact ⟨sent, stage, rfl, hφ⟩

namespace Connection

variable {c d : Connection}

/-- Every send task that ends has put its request on the socket. -/
def Sends : Event → Prop
  | .sendFails _ => False
  | _ => True

instance : DecidablePred Sends
  | .sendFails _ => .isFalse id
  | .acquire .. | .exhausted _ | .send _ | .pop _ | .popFails _ | .unsolicited _ | .waitThrows _
  | .leave _ | .answer .. | .readFrame | .readFails | .push | .pushFails | .cancel =>
    .isTrue trivial

/-- A timely step in which no send task fails. -/
def Undisturbed (c : Connection) (e : Event) : Prop := c.Timely e ∧ Sends e

instance (c : Connection) (e : Event) : Decidable (c.Undisturbed e) :=
  inferInstanceAs (Decidable (_ ∧ _))

/-- A step of the parties that starts no call and fails nothing. -/
def Drains : Event → Prop
  | .send _ | .answer .. | .readFrame | .push | .pop _ | .leave _ => True
  | _ => False

instance : DecidablePred Drains
  | .send _ | .answer .. | .readFrame | .push | .pop _ | .leave _ => .isTrue trivial
  | .acquire .. | .exhausted _ | .sendFails _ | .popFails _ | .unsolicited _ | .waitThrows _
  | .readFails | .pushFails | .cancel => .isFalse id

/-- A step that drains disturbs nothing. -/
theorem undisturbed_of_drains {e : Event} (h : Drains e) : c.Undisturbed e := by
  cases e with
  | send | answer | readFrame | push | pop | leave =>
    refine ⟨⟨trivial, trivial, ?_⟩, trivial⟩
    rintro (he | he) <;> cases he
  | _ => exact h.elim

/-- How many ids have a property when it changes for one of them. -/
theorem card_filter_add {n id : Nat} {P Q : Nat → Prop} [DecidablePred P] [DecidablePred Q]
    (hid : id < n) (h : ∀ k, k ≠ id → (Q k ↔ P k)) :
    ((Finset.range n).filter Q).card + (if P id then 1 else 0) =
      ((Finset.range n).filter P).card + if Q id then 1 else 0 := by
  have herase : ((Finset.range n).filter Q).erase id = ((Finset.range n).filter P).erase id := by
    ext k
    simp only [Finset.mem_erase, Finset.mem_filter]
    by_cases hk : k = id
    · simp [hk]
    · simp [hk, h k hk]
  have hcard : ∀ (R : Nat → Prop) [DecidablePred R], ((Finset.range n).filter R).card =
      (((Finset.range n).filter R).erase id).card + if R id then 1 else 0 := by
    intro R _
    by_cases hR : R id
    · rw [if_pos hR, Finset.card_erase_add_one]
      simp [hid, hR]
    · rw [if_neg hR, Finset.erase_eq_of_notMem]
      · rfl
      · simp [hR]
  rw [hcard Q, hcard P, herase]
  omega

section
open Classical

/-- How many streams are held by a call with a property. -/
noncomputable def holders (c : Connection) (φ : Bool → Stage → Prop) : Nat :=
  ((Finset.range StreamPool.kMaxStreams).filter (fun id ↦ ∃ i, (c.calls i).Shows φ id)).card

/-- How many queues have a frame. -/
noncomputable def queued (c : Connection) : Nat :=
  ((Finset.range StreamPool.kMaxStreams).filter (fun id ↦ c.queues id ≠ none)).card

/-- The request of the call is not sent. -/
def IsUnsent (sent : Bool) (_ : Stage) : Prop := sent = false

/-- The call is past its `Pop`, and nothing but its end is left. -/
def IsEnding (sent : Bool) (stage : Stage) : Prop := sent = true ∧ stage ≠ .popping

/-- One call moves, and no other call holds its stream. -/
theorem holders_setCall (φ : Bool → Stage → Prop) {i id : Nat} {p : Phase}
    (hid : id < StreamPool.kMaxStreams) (hfree : ∀ j, j ≠ i → ¬ c.Holds j id)
    (hi : ∀ k, k ≠ id → ¬ (c.calls i).Shows φ k) (hp : ∀ k, k ≠ id → ¬ p.Shows φ k)
    (hcalls : d.calls = Function.update c.calls i p) :
    d.holders φ + (if (c.calls i).Shows φ id then 1 else 0) =
      c.holders φ + if p.Shows φ id then 1 else 0 := by
  have hother : ∀ j, j ≠ i → d.calls j = c.calls j := by
    intro j hj
    rw [hcalls, Function.update_of_ne hj]
  have hself : d.calls i = p := by rw [hcalls, Function.update_self]
  have hbefore : (∃ j, (c.calls j).Shows φ id) ↔ (c.calls i).Shows φ id := by
    constructor
    · rintro ⟨j, hj⟩
      by_cases hji : j = i
      · exact hji ▸ hj
      · obtain ⟨sent, stage, hphase, -⟩ := hj
        exact absurd ⟨sent, stage, hphase⟩ (hfree j hji)
    · exact fun h ↦ ⟨i, h⟩
  have hafter : (∃ j, (d.calls j).Shows φ id) ↔ p.Shows φ id := by
    constructor
    · rintro ⟨j, hj⟩
      by_cases hji : j = i
      · rw [hji, hself] at hj
        exact hj
      · rw [hother j hji] at hj
        obtain ⟨sent, stage, hphase, -⟩ := hj
        exact absurd ⟨sent, stage, hphase⟩ (hfree j hji)
    · intro h
      exact ⟨i, hself.symm ▸ h⟩
  have hrest : ∀ k, k ≠ id → ((∃ j, (d.calls j).Shows φ k) ↔ ∃ j, (c.calls j).Shows φ k) := by
    intro k hk
    apply exists_congr
    intro j
    by_cases hji : j = i
    · rw [hji, hself]
      exact iff_of_false (hp k hk) (hi k hk)
    · rw [hother j hji]
  have hcard := card_filter_add hid hrest
  simp only [hbefore, hafter] at hcard
  exact hcard

/-- A call that holds a stream moves on with it. -/
theorem holders_moveOn (h : c.StreamsShared) (φ : Bool → Stage → Prop) {i id : Nat}
    {sent sent' : Bool} {stage stage' : Stage} (hi : c.calls i = .inFlight id sent stage)
    (hcalls : d.calls = Function.update c.calls i (.inFlight id sent' stage')) :
    d.holders φ + (if φ sent stage then 1 else 0) =
      c.holders φ + if φ sent' stage' then 1 else 0 := by
  have hholds : c.Holds i id := ⟨sent, stage, hi⟩
  have hset := holders_setCall φ (h.held_lt i id hholds)
    (fun j hj hother ↦ hj (h.holder_unique j i id hother hholds))
    (fun k hk hshows ↦ hk ((Phase.shows_inFlight ..).mp (hi ▸ hshows)).1)
    (fun k hk hshows ↦ hk ((Phase.shows_inFlight ..).mp hshows).1) hcalls
  simpa [hi, Phase.shows_inFlight] using hset

/-- A call that holds a stream ends. -/
theorem holders_leave (h : c.StreamsShared) (φ : Bool → Stage → Prop) {i id : Nat}
    {sent : Bool} {stage : Stage} {p : Phase} (hi : c.calls i = .inFlight id sent stage)
    (hp : ∀ k, ¬ p.Shows φ k) (hcalls : d.calls = Function.update c.calls i p) :
    d.holders φ + (if φ sent stage then 1 else 0) = c.holders φ := by
  have hholds : c.Holds i id := ⟨sent, stage, hi⟩
  have hset := holders_setCall φ (h.held_lt i id hholds)
    (fun j hj hother ↦ hj (h.holder_unique j i id hother hholds))
    (fun k hk hshows ↦ hk ((Phase.shows_inFlight ..).mp (hi ▸ hshows)).1)
    (fun k _ ↦ hp k) hcalls
  simpa [hi, Phase.shows_inFlight, hp] using hset

/-- A call takes a stream. -/
theorem holders_acquire (h : c.StreamsShared) (φ : Bool → Stage → Prop) {i id : Nat}
    (hi : c.calls i = .idle) (hid : id ∈ c.streamPool.queue)
    (hcalls : d.calls = Function.update c.calls i (.inFlight id false .popping)) :
    d.holders φ = c.holders φ + if φ false .popping then 1 else 0 := by
  have hset := holders_setCall φ (h.free_lt id hid)
    (fun j _ hother ↦ h.held_not_free j id hother hid) (by simp [hi, Phase.Shows])
    (fun k hk hshows ↦ hk ((Phase.shows_inFlight ..).mp hshows).1) hcalls
  simpa [hi, Phase.Shows] using hset

/-- A call without a stream stays without one. -/
theorem holders_idle (φ : Bool → Stage → Prop) {i : Nat} {p : Phase}
    (hi : ∀ k, ¬ (c.calls i).Shows φ k) (hp : ∀ k, ¬ p.Shows φ k)
    (hcalls : d.calls = Function.update c.calls i p) : d.holders φ = c.holders φ := by
  have hshows : ∀ k, (∃ j, (d.calls j).Shows φ k) ↔ ∃ j, (c.calls j).Shows φ k := by
    intro k
    apply exists_congr
    intro j
    by_cases hji : j = i
    · rw [hcalls, hji, Function.update_self]
      exact iff_of_false (hp k) (hi k)
    · rw [hcalls, Function.update_of_ne hji]
  simp only [holders, hshows]

private theorem holders_congr (φ : Bool → Stage → Prop) (hcalls : d.calls = c.calls) :
    d.holders φ = c.holders φ := by
  rw [holders, holders, hcalls]

private theorem queued_congr (hqueues : d.queues = c.queues) : d.queued = c.queued := by
  rw [queued, queued, hqueues]

private theorem exists_holder {φ : Bool → Stage → Prop} (h : 0 < c.holders φ) :
    ∃ i id sent stage, c.calls i = .inFlight id sent stage ∧ φ sent stage := by
  obtain ⟨id, hid⟩ := Finset.card_pos.mp h
  obtain ⟨i, sent, stage, hi, hφ⟩ := (Finset.mem_filter.mp hid).2
  exact ⟨i, id, sent, stage, hi, hφ⟩

private theorem exists_queued (h : 0 < c.queued) : ∃ id f, c.queues id = some f := by
  obtain ⟨id, hid⟩ := Finset.card_pos.mp h
  exact ⟨id, Option.ne_none_iff_exists'.mp (Finset.mem_filter.mp hid).2⟩

/-- A queue gets a frame or loses it. -/
theorem queued_update {id : Nat} {f : Option ResponseFrame} (hid : id < StreamPool.kMaxStreams)
    (hqueues : d.queues = Function.update c.queues id f) :
    d.queued + (if c.queues id ≠ none then 1 else 0) = c.queued + if f ≠ none then 1 else 0 := by
  have hrest : ∀ k, k ≠ id → (d.queues k ≠ none ↔ c.queues k ≠ none) := by
    intro k hk
    rw [hqueues, Function.update_of_ne hk]
  have hself : d.queues id = f := by rw [hqueues, Function.update_self]
  have hcard := card_filter_add hid hrest
  simp only [hself] at hcard
  exact hcard

end

/-- How many calls are in flight, place by place. -/
noncomputable def underWay (c : Connection) : Nat :=
  c.holders IsUnsent + c.server.length + c.wire.length + c.receiver.frames.length + c.queued +
    c.holders IsEnding

/-- How many steps the calls in flight are from their end. -/
noncomputable def stepsLeft (c : Connection) : Nat :=
  6 * c.holders IsUnsent + 5 * c.server.length + 4 * c.wire.length +
    3 * c.receiver.frames.length + 2 * c.queued + c.holders IsEnding

/-- A step keeps the number of stream ids, free or with a call that is under way, and a step that
drains takes one call one place on. -/
structure Conveys (c : Connection) (e : Event) (d : Connection) : Prop where
  balance : d.streamPool.queue.length + d.underWay = c.streamPool.queue.length + c.underWay
  closer : Drains e → d.stepsLeft + 1 = c.stepsLeft

/-- A call past its `Pop` gives its stream back. -/
theorem conveys_leave (h : c.StreamsShared) {i id : Nat} {stage : Stage} {p : Phase} {b : Bool}
    (hi : c.calls i = .inFlight id true stage) (hstage : stage ≠ .popping)
    (hp : ∀ φ k, ¬ p.Shows φ k) (hd : d = { c.leave i id p with broken := b }) :
    c.Conveys (.leave i) d := by
  have hcalls : d.calls = Function.update c.calls i p := by
    rw [hd]
    rfl
  have hunsent := holders_leave h IsUnsent hi (hp _) hcalls
  have hending := holders_leave h IsEnding hi (hp _) hcalls
  have hqueued : d.queued = c.queued := queued_congr (by rw [hd]; rfl)
  have hpool : d.streamPool.queue.length = c.streamPool.queue.length + 1 := by
    rw [hd]
    exact congrArg List.length (release_queue h ⟨_, _, hi⟩)
  have hserver : d.server = c.server := by
    rw [hd]
    rfl
  have hwire : d.wire = c.wire := by
    rw [hd]
    rfl
  have hrecv : d.receiver = c.receiver := by
    rw [hd]
    rfl
  simp [IsUnsent, IsEnding, hstage] at hunsent hending
  constructor
  · simp only [underWay, hserver, hwire, hrecv]
    omega
  · intro _
    simp only [stepsLeft, hserver, hwire, hrecv]
    omega

/-- No call goes from one place to another. -/
theorem conveys_still {e : Event} (hnot : ¬ Drains e)
    (hpool : d.streamPool.queue.length = c.streamPool.queue.length)
    (hunsent : d.holders IsUnsent = c.holders IsUnsent) (hserver : d.server = c.server)
    (hwire : d.wire = c.wire) (hhands : d.receiver.frames = c.receiver.frames)
    (hqueues : d.queues = c.queues) (hending : d.holders IsEnding = c.holders IsEnding) :
    c.Conveys e d where
  balance := by
    simp only [underWay, hpool, hunsent, hserver, hwire, hhands, queued_congr hqueues, hending]
  closer h := absurd h hnot

/-- Each step takes at most one call one place on, from the pool over the places back into the
pool. -/
theorem Exact.conveys {e : Event} (h : c.Exact) (hok : c.Undisturbed e) (ht : Transition c e d) :
    c.Conveys e d := by
  obtain ⟨d', hd⟩ : ∃ d', d = d' := ⟨d, rfl⟩
  rw [hd] at ht
  have hcalls := congrArg Connection.calls hd
  have hqueues := congrArg Connection.queues hd
  have hpool := congrArg (fun c ↦ c.streamPool.queue.length) hd
  have hserver := congrArg (fun c ↦ c.server.length) hd
  have hwire := congrArg (fun c ↦ c.wire.length) hd
  have hhands := congrArg (fun c ↦ c.receiver.frames.length) hd
  -- The calls, or the queues, of a step that leaves them alone.
  have hstill : d.calls = c.calls →
      d.holders IsUnsent = c.holders IsUnsent ∧ d.holders IsEnding = c.holders IsEnding :=
    fun he ↦ ⟨holders_congr IsUnsent he, holders_congr IsEnding he⟩
  have hsame : d.queues = c.queues → d.queued = c.queued := queued_congr
  cases ht with
  | @acquire i id hi hid =>
    have hunsent := holders_acquire h.shared IsUnsent hi hid hcalls
    have hending := holders_acquire h.shared IsEnding hi hid hcalls
    have hqueued := hsame hqueues
    have herase := List.length_erase_of_mem hid
    have hpos := List.length_pos_of_mem hid
    simp [IsUnsent, IsEnding, Connection.setCall] at hunsent hending hpool hserver hwire hhands
    refine ⟨?_, fun hdrains ↦ hdrains.elim⟩
    simp only [underWay]
    omega
  | @exhausted i hi =>
    have hnone : ∀ φ k, ¬ (c.calls i).Shows φ k := by simp [hi, Phase.Shows]
    have hsame : ∀ φ, d.holders φ = c.holders φ :=
      fun φ ↦ holders_idle φ (hnone φ) (by simp [Phase.Shows]) hcalls
    subst hd
    exact conveys_still not_false rfl (hsame _) rfl rfl rfl rfl (hsame _)
  | @send i id stage hi =>
    obtain rfl := h.unsent i id stage hi
    have hunsent := holders_moveOn h.shared IsUnsent hi hcalls
    have hending := holders_moveOn h.shared IsEnding hi hcalls
    have hqueued := hsame hqueues
    simp [IsUnsent, IsEnding, Connection.setCall] at hunsent hending hpool hserver hwire hhands
    refine ⟨?_, fun _ ↦ ?_⟩ <;> simp only [underWay, stepsLeft] <;> omega
  | sendFails hi => exact hok.2.elim
  | @pop i id sent f hi hq =>
    obtain ⟨rfl, -, -⟩ := h.popped hi hq
    have hunsent := holders_moveOn h.shared IsUnsent hi hcalls
    have hending := holders_moveOn h.shared IsEnding hi hcalls
    have hqueued := queued_update (h.shared.held_lt i id ⟨_, _, hi⟩) hqueues
    simp [IsUnsent, IsEnding, Connection.setCall, hq]
      at hunsent hending hqueued hpool hserver hwire hhands
    refine ⟨?_, fun _ ↦ ?_⟩ <;> simp only [underWay, stepsLeft] <;> omega
  | popFails hi => exact hok.1.noTimeout.elim
  | @waitThrows i id sent stage hi hst =>
    have hpast : stage ≠ .popping := by
      rintro rfl
      simp at hst
    have hsent : sent = true := by
      cases sent with
      | true => rfl
      | false => exact absurd (h.unsent i id stage hi) hpast
    have hunsent := holders_moveOn h.shared IsUnsent hi hcalls
    have hending := holders_moveOn h.shared IsEnding hi hcalls
    simp [IsUnsent, IsEnding, hsent, hpast] at hunsent hending
    subst hd
    exact conveys_still not_false rfl hunsent rfl rfl rfl rfl hending
  | @checked i id f hi =>
    refine conveys_leave h.shared hi (by simp) (fun φ k ↦ ?_) hd
    split <;> simp [Phase.Shows]
  | timedOut hi => exact conveys_leave h.shared hi (by simp) (by simp [Phase.Shows]) hd
  | unwound hi => exact conveys_leave h.shared hi (by simp) (by simp [Phase.Shows]) hd
  | @answer r raises hr =>
    obtain ⟨hunsent, hending⟩ := hstill hcalls
    have hqueued := hsame hqueues
    have herase := List.length_erase_of_mem hr
    have hpos := List.length_pos_of_mem hr
    simp at hpool hserver hwire hhands
    refine ⟨?_, fun _ ↦ ?_⟩ <;> simp only [underWay, stepsLeft] <;> omega
  | unsolicited => exact hok.1.honest.elim
  | @skip f wire hr hw hf => exact absurd (h.frame_stream (f := f) (by simp [hw])).1 (by omega)
  | @outOfRange f wire hr hw h0 hf =>
    exact absurd (h.frame_stream (f := f) (by simp [hw])).2 (by omega)
  | readFrame hr hw h0 hf =>
    obtain ⟨hunsent, hending⟩ := hstill hcalls
    have hqueued := hsame hqueues
    have hnone : c.receiver.frames.length = 0 := by rw [hr, Receiver.frames, List.length_nil]
    have hone : d.receiver.frames.length = 1 := hhands
    simp at hpool hserver hwire
    refine ⟨?_, fun _ ↦ ?_⟩ <;> simp only [underWay, stepsLeft, hw, List.length_cons] <;> omega
  | readFails hr =>
    obtain ⟨hunsent, hending⟩ := hstill hcalls
    subst hd
    exact conveys_still not_false rfl hunsent rfl rfl (by rw [hr]; rfl) rfl hending
  | @push f hr hq =>
    obtain ⟨hunsent, hending⟩ := hstill hcalls
    have hindex := (h.frame_stream (f := f) (by simp [hr, Receiver.frames])).2
    have hqueued := queued_update hindex hqueues
    have hone : c.receiver.frames.length = 1 := by rw [hr, Receiver.frames, List.length_singleton]
    have hnone : d.receiver.frames.length = 0 := hhands
    simp [hq] at hqueued hpool hserver hwire
    refine ⟨?_, fun _ ↦ ?_⟩ <;> simp only [underWay, stepsLeft] <;> omega
  | @pushFails f hr =>
    exact absurd (h.queue_empty hr) (hok.1.push (.inl rfl) f (by simp [hr, Receiver.frames]))
  | cancel hr =>
    obtain ⟨hunsent, hending⟩ := hstill hcalls
    subst hd
    cases hrecv : c.receiver with
    | reading => exact conveys_still not_false rfl hunsent rfl rfl (by rw [hrecv]; rfl) rfl hending
    | pushing f =>
      exact absurd (h.queue_empty hrecv)
        (hok.1.push (.inr rfl) f (by simp [hrecv, Receiver.frames]))
    | exited reason => exact absurd hrecv (hr reason)

/-- Each request is under way once, and each stream id is free or with a call under way. -/
structure Flowing (c : Connection) : Prop where
  exact : c.Exact
  balance : c.streamPool.queue.length + c.underWay = StreamPool.kMaxStreams

/-- At first all stream ids are free. -/
theorem flowing_init : init.Flowing where
  exact := exact_init
  balance := by
    have hholders : ∀ φ, init.holders φ = 0 := by
      intro φ
      simp [holders, Connection.init, Phase.Shows]
    have hqueued : init.queued = 0 := by simp [queued, Connection.init]
    simp only [underWay, hholders, hqueued]
    simp [Connection.init, StreamPool.init, Receiver.frames]

/-- Every undisturbed step keeps the requests under way once. -/
theorem Flowing.step {e : Event} (h : c.Flowing) (hok : c.Undisturbed e)
    (ht : Transition c e d) : d.Flowing where
  exact := h.exact.step hok.1 ht
  balance := (h.exact.conveys hok ht).balance.trans h.balance

/-- As long as a call is under way and the receiver lives, a step that drains is possible. -/
theorem Exact.exists_drains (h : c.Exact) (hlive : ∀ reason, c.receiver ≠ .exited reason)
    (hpos : 0 < c.underWay) : ∃ e, Drains e ∧ (c.step e).isSome := by
  cases hrecv : c.receiver with
  | exited reason => exact absurd hrecv (hlive reason)
  | pushing f =>
    have hempty := h.queue_empty hrecv
    exact ⟨.push, trivial, by simp [Connection.step, hrecv, hempty]⟩
  | reading =>
    cases hwire : c.wire with
    | cons f wire =>
      obtain ⟨h0, hindex⟩ := h.frame_stream (f := f) (by simp [hwire])
      refine ⟨.readFrame, trivial, ?_⟩
      simp only [Connection.step, hrecv, hwire]
      rw [if_neg (by omega), if_neg (by omega)]
      rfl
    | nil =>
      cases hserver : c.server with
      | cons r rest => exact ⟨.answer r false, trivial, by simp [Connection.step, hserver]⟩
      | nil =>
        -- Nothing is on its way to a queue, so that the callers have the next step.
        have hcalls : 0 < c.holders IsUnsent ∨ 0 < c.queued ∨ 0 < c.holders IsEnding := by
          simp only [underWay, hserver, hwire, hrecv, Receiver.frames, List.length_nil] at hpos
          omega
        rcases hcalls with hunsent | hqueued | hending
        · obtain ⟨i, id, sent, stage, hi, rfl⟩ := exists_holder hunsent
          exact ⟨.send i, trivial, by simp [Connection.step, hi]⟩
        · obtain ⟨id, f, hf⟩ := exists_queued hqueued
          obtain ⟨i, raises, -, hi, -⟩ := h.queues id f hf
          simp only [Awaited] at hi
          exact ⟨.pop i, trivial, by simp [Connection.step, hi, hf]⟩
        · obtain ⟨i, id, sent, stage, hi, rfl, hstage⟩ := exists_holder hending
          refine ⟨.leave i, trivial, ?_⟩
          cases stage with
          | popping => exact absurd rfl hstage
          | popped f => simp [Connection.step, hi]
          | popFailed => simp [Connection.step, hi]
          | unwinding => simp [Connection.step, hi]

/-- A step that drains does not end the receiver. -/
theorem Exact.live_of_drains {e : Event} (h : c.Exact)
    (hlive : ∀ reason, c.receiver ≠ .exited reason) (hdrains : Drains e)
    (ht : Transition c e d) : ∀ reason, d.receiver ≠ .exited reason := by
  cases ht with
  | @outOfRange f wire hr hw h0 hf =>
    exact absurd (h.frame_stream (f := f) (by simp [hw])).2 (by omega)
  | readFrame hr hw h0 hf => simp
  | push hr hq => simp
  | skip hr hw hf => exact hlive
  | send hi => exact hlive
  | pop hi hq => exact hlive
  | checked hi => exact hlive
  | timedOut hi => exact hlive
  | unwound hi => exact hlive
  | answer hr => exact hlive
  | _ => exact hdrains.elim

/-- The call waits in `Pop`, or has the answer to its request, or has ended with it. -/
def Ends (c : Connection) (i id : Nat) : Prop :=
  (∃ sent, c.calls i = .inFlight id sent .popping) ∨
    ∃ raises, c.calls i = .inFlight id true (.popped (answerFrame ⟨i, id⟩ raises)) ∨
      c.calls i = if raises then .threw else .returned (answerFrame ⟨i, id⟩ raises)

/-- A call moves, and another one stays where it is. -/
theorem Ends.update {i j id : Nat} {p : Phase} (h : c.Ends i id)
    (hcalls : d.calls = Function.update c.calls j p) (hown : i = j → d.Ends i id) :
    d.Ends i id := by
  by_cases hij : i = j
  · exact hown hij
  · rw [Ends, hcalls, Function.update_of_ne hij]
    exact h

/-- As long as the call is in flight, it waits or has the answer. -/
theorem Ends.inFlight {i id k : Nat} {sent : Bool} {stage : Stage} (h : c.Ends i id)
    (hi : c.calls i = .inFlight k sent stage) : k = id ∧ (stage = .popping ∨
      sent = true ∧ ∃ raises, stage = .popped (answerFrame ⟨i, id⟩ raises)) := by
  rcases h with ⟨sent', hcall⟩ | ⟨raises, hcall | hcall⟩
  · rw [hi] at hcall
    cases hcall
    exact ⟨rfl, .inl rfl⟩
  · rw [hi] at hcall
    cases hcall
    exact ⟨rfl, .inr ⟨rfl, raises, rfl⟩⟩
  · rw [hi] at hcall
    split at hcall <;> cases hcall

private theorem Ends.step {e : Event} {i id : Nat} (h : c.Ends i id) (hexact : c.Exact)
    (hdrains : Drains e) (ht : Transition c e d) : d.Ends i id := by
  cases ht with
  | @send j k stage hi =>
    refine h.update rfl ?_
    rintro rfl
    obtain ⟨rfl, rfl | ⟨hsent, -⟩⟩ := h.inFlight hi
    · exact .inl ⟨true, Function.update_self ..⟩
    · cases hsent
  | @pop j k sent f hi hq =>
    refine h.update rfl ?_
    rintro rfl
    obtain ⟨rfl, -⟩ := h.inFlight hi
    obtain ⟨rfl, -, -⟩ := hexact.popped hi hq
    obtain ⟨j, raises, rfl, hj, -⟩ := hexact.queues _ f hq
    obtain rfl := hexact.shared.holder_unique j i _ ⟨_, _, hj⟩ ⟨_, _, hi⟩
    exact .inr ⟨raises, .inl (Function.update_self ..)⟩
  | @checked j k f hi =>
    refine h.update rfl ?_
    rintro rfl
    obtain ⟨rfl, hstage | ⟨-, raises, hstage⟩⟩ := h.inFlight hi
    · cases hstage
    · cases hstage
      exact .inr ⟨raises, .inr (Function.update_self ..)⟩
  | @timedOut j k hi =>
    refine h.update rfl ?_
    rintro rfl
    obtain ⟨-, hstage | ⟨-, raises, hstage⟩⟩ := h.inFlight hi <;> cases hstage
  | @unwound j k hi =>
    refine h.update rfl ?_
    rintro rfl
    obtain ⟨-, hstage | ⟨-, raises, hstage⟩⟩ := h.inFlight hi <;> cases hstage
  | answer hr => exact h
  | skip hr hw hf => exact h
  | outOfRange hr hw h0 hf => exact h
  | readFrame hr hw h0 hf => exact h
  | push hr hq => exact h
  | _ => exact hdrains.elim

/-- Each request is under way once, the receiver lives, and the calls that waited in `Pop` when
the drain began come to their own answers. -/
structure Draining (c d : Connection) : Prop where
  flowing : d.Flowing
  live : ∀ reason, d.receiver ≠ .exited reason
  ends : ∀ i id sent, c.calls i = .inFlight id sent .popping → d.Ends i id

private theorem Draining.step {b : Connection} {e : Event} (h : b.Draining c) (hdrains : Drains e)
    (ht : Transition c e d) : b.Draining d where
  flowing := h.flowing.step (undisturbed_of_drains hdrains) ht
  live := h.flowing.exact.live_of_drains h.live hdrains ht
  ends i id sent hi := (h.ends i id sent hi).step h.flowing.exact hdrains ht

/-- What is counted is at most the streams that are not in the pool. -/
theorem Flowing.stepsLeft_le (h : c.Flowing) :
    c.stepsLeft ≤ 6 * c.streamPool.getUsedStreams := by
  have hbalance := h.balance
  simp only [underWay] at hbalance
  simp only [stepsLeft, StreamPool.getUsedStreams]
  omega

/-- When no step that drains is possible, no call is in flight and nothing is left behind. -/
theorem Draining.over {b : Connection} (h : b.Draining c)
    (hstuck : ∀ e, Drains e → c.step e = none) :
    (∀ i id, ¬ c.Holds i id) ∧ c.server = [] ∧ c.wire = [] := by
  have hnone : c.underWay = 0 := by
    by_contra hpos
    obtain ⟨e, hdrains, hstep⟩ :=
      h.flowing.exact.exists_drains h.live (Nat.pos_of_ne_zero hpos)
    rw [hstuck e hdrains] at hstep
    cases hstep
  have hfull := h.flowing.balance
  rw [hnone, Nat.add_zero] at hfull
  simp only [underWay] at hnone
  refine ⟨?_, List.length_eq_zero_iff.mp (by omega), List.length_eq_zero_iff.mp (by omega)⟩
  intro i id hi
  -- A full pool drops what is released, but this stream would fit in.
  have hrelease := release_queue h.flowing.exact.shared hi
  rw [StreamPool.release, if_neg (by omega)] at hrelease
  exact absurd (congrArg List.length hrelease) (by simp)

/-- The connection drains: from every state of an undisturbed run whose receiver lives, the send
tasks, the server, the receiver and the callers can take at most six steps for each stream in
use, in whatever order, as long as no new call begins; and when none of them can take a step any
more, every stream is back in the pool, the queues, the server and the wire are empty, and each
call that waited for a response has ended with the answer to its own request. -/
theorem drains (h : Reaches Connection.step Undisturbed init c)
    (hlive : ∀ reason, c.receiver ≠ .exited reason) {es : List Event}
    (hrun : runIf Connection.step (fun _ e ↦ Drains e) c es = some d) :
    es.length ≤ 6 * c.streamPool.getUsedStreams ∧
    ((∀ e, Drains e → d.step e = none) →
      d.streamPool.queue.Perm (List.range StreamPool.kMaxStreams) ∧ (∀ id, d.queues id = none) ∧
      d.server = [] ∧ d.wire = [] ∧
      ∀ i id sent, c.calls i = .inFlight id sent .popping → ∃ raises : Bool,
        d.calls i = if raises then .threw else .returned (answerFrame ⟨i, id⟩ raises)) := by
  have hflowing : c.Flowing :=
    h.invariant flowing_init (fun s e s' hs hok hstep ↦ hs.step hok (transition_of_step hstep))
  have hbegin : c.Draining c := ⟨hflowing, hlive, fun i id sent hi ↦ .inl ⟨sent, hi⟩⟩
  have hlower : ∀ s e s', c.Draining s → Drains e → s.step e = some s' →
      c.Draining s' ∧ s'.stepsLeft < s.stepsLeft := by
    intro s e s' hs hdrains hstep
    have ht := transition_of_step hstep
    have hcloser := (hs.flowing.exact.conveys (undisturbed_of_drains hdrains) ht).closer hdrains
    exact ⟨hs.step hdrains ht, by omega⟩
  obtain ⟨hend, hlength⟩ := length_add_le_of_runIf hlower hbegin hrun
  have hbound := hflowing.stepsLeft_le
  refine ⟨by omega, fun hstuck ↦ ?_⟩
  obtain ⟨hidle, hserver, hwire⟩ := hend.over hstuck
  obtain ⟨hqueues, hpool⟩ := hend.flowing.exact.idle hidle
  refine ⟨hpool, hqueues, hserver, hwire, ?_⟩
  intro i id sent hi
  rcases hend.ends i id sent hi with ⟨sent', hcall⟩ | ⟨raises, hcall | hcall⟩
  · exact absurd ⟨_, _, hcall⟩ (hidle i id)
  · exact absurd ⟨_, _, hcall⟩ (hidle i id)
  · exact ⟨raises, hcall⟩

/-- Two calls, one of which has sent its request and the other has its answer on the wire. -/
def twoUnderWay : List Event :=
  [.acquire 0 0, .acquire 1 1, .send 1, .answer ⟨1, 1⟩ true, .send 0]

/-- With two calls under way, twelve steps are enough. -/
theorem drains_twoUnderWay : ∃ c, Reaches Connection.step Undisturbed init c ∧
    ∀ es d, runIf Connection.step (fun _ e ↦ Drains e) c es = some d → es.length ≤ 12 := by
  obtain ⟨c, hc, hused, hrecv⟩ := Reaches.exists_of_runIf Connection.step Undisturbed init
    twoUnderWay (fun c ↦ c.streamPool.getUsedStreams = 2 ∧ c.receiver = .reading)
    (by decide +kernel)
  refine ⟨c, hc, fun es d hrun ↦ ?_⟩
  have hlength := (drains hc (by simp [hrecv]) hrun).1
  rwa [hused] at hlength

end Connection
end CassandraDriver.Detail
