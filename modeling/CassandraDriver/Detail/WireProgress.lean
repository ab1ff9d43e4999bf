import CassandraDriver.Detail.Drain
import CassandraDriver.Detail.WireAnswers

/-!
# The bytes of a connection do not come to a stand

Library `Detail`. Runs of a `Wire` in which no `SendAll` stops part-way and nothing times out:
whenever a step of the connection behind it that drains is possible, one of the parties can take
a step at its bytes. A request that is not out has a send task that can get on, one that is out
can be read and answered, and an answer can be read as soon as it is at the front.
-/

namespace CassandraDriver.Detail
open CassandraDriver.Lib CassandraDriver.Protocol

variable {lz4 : Option Lz4Api} {memory : List UInt8 → Nat → UInt8} {order order' : List Sent}
  {w w' : Wire} {c c' : Connection}

section
variable {delivers : ResponseFrame → Received → Prop}

private theorem PhaseMatches.to_inFlight {sent sent' : Bool} {p : WirePhase} {id : Nat}
    {stage' : Stage} (h : PhaseMatches delivers sent p (.inFlight id sent' stage')) :
    sent = sent' ∧ ∃ m stage, p = .inFlight m id stage ∧ StageMatches delivers stage stage' := by
  cases h with
  | inFlight h => exact ⟨rfl, _, _, rfl, h⟩

private theorem ReceiverMatches.to_reading {r : WireReceiver}
    (h : ReceiverMatches delivers r .reading) :
    r = .reading := by
  cases h
  rfl

private theorem ReceiverMatches.to_pushing {r : WireReceiver} {f : ResponseFrame}
    (h : ReceiverMatches delivers r (.pushing f)) : ∃ m, r = .pushing m ∧ delivers f m := by
  cases h with
  | pushing h => exact ⟨_, rfl, h⟩

private theorem queue_to_some {q : Option Received} {f : ResponseFrame}
    (h : Option.Rel delivers (some f) q) : ∃ m, q = some m ∧ delivers f m := by
  cases h with
  | some h => exact ⟨_, rfl, h⟩

/-- Where no frame is queued there is no message. -/
theorem queue_to_none {q : Option Received} (h : Option.Rel delivers none q) : q = none := by
  cases h
  rfl

end

/-- `ReadFrame` does not wait for a complete frame. -/
theorem frameArrived_complete {compressor : Option Compressor} {frame : List UInt8} {r : Received}
    (h : CompleteFrame compressor memory frame r) (rest : List UInt8) :
    frameArrived (frame ++ rest) = true := by
  obtain ⟨body, cls, rfl, hlength, hcls, -⟩ := h
  have hsize : ((r.header.encode ++ body) ++ rest).length =
      FrameHeader.kHeaderSize + body.length + rest.length := by
    rw [List.length_append, List.length_append, FrameHeader.length_encode]
  have hne : (r.header.encode ++ body) ++ rest ≠ [] := by
    intro he
    have hzero := congrArg List.length he
    rw [hsize, FrameHeader.kHeaderSize, List.length_nil] at hzero
    omega
  obtain ⟨header, he, hread⟩ := readHeader_ok _ hne
  rw [List.append_assoc, headerBuffer_encode] at he
  obtain rfl := FrameHeader.encode_injective he
  have hbody : bodyLength r.header = body.length := by
    rw [bodyLength, hlength, Int.toNat_natCast]
  unfold frameArrived
  simp only [hread, hcls, hbody, hsize, Bool.and_eq_true, decide_eq_true_eq]
  omega

namespace Wire

/-- Requests and answers can be laid out, no `SendAll` stops part-way, no `Pop` fails, and `Push`
is given up only while the queue is full. -/
def Undisturbed (lz4 : Option Lz4Api) (w : Wire) : WireEvent → Prop
  | .acquire _ m _ => m.Carried lz4
  | .answer _ response => Reply.Carried lz4 response
  | .stop | .popFails _ => False
  | .pushFails | .cancel => ∀ r ∈ w.receiver.received, w.queues r.index ≠ none
  | _ => True

/-- A step of the parties that starts no call and fails nothing. -/
def Drains (lz4 : Option Lz4Api) : WireEvent → Prop
  | .start _ | .lock _ | .write _ | .finish | .serve => True
  | .readFrame | .push | .pop _ | .leave _ => True
  | .answer _ response => Reply.Carried lz4 response
  | _ => False

/-- A step that drains disturbs nothing. -/
theorem undisturbed_of_drains {e : WireEvent} (h : Drains lz4 e) : w.Undisturbed lz4 e := by
  cases e with
  | answer k response => exact h
  | start | lock | write | finish | serve | readFrame | push | pop | leave => exact trivial
  | _ => exact h.elim

end Wire

/-- A step of the bytes that drains stands for one that drains. -/
theorem Stands.to_drains {e : WireEvent} {e' : Event} (h : Stands e e')
    (hdrains : Wire.Drains lz4 e) : Connection.Drains e' := by
  cases h with
  | write | pop | leave | answer | readFrame | push => trivial
  | _ => exact hdrains.elim

/-- Everything out is a whole request, and who is in `SendAll` has the mutex. -/
structure Sender.Whole (s : Sender) : Prop where
  log : ∀ g ∈ s.log, g.Complete
  holding : ∀ i, s.calls i = .sending → ∃ g, s.holder = some (i, g)

private theorem Sender.Whole.step {compressor : Option Compressor} {s t : Sender} {e : SendEvent}
    (h : s.Whole) (ht : Sender.Transition compressor s e t) (he : e ≠ .stop) : t.Whole := by
  have hother : ∀ {i j : Nat} {p : SendPhase}, Function.update s.calls i p j = .sending →
      p ≠ .sending → j ≠ i ∧ s.calls j = .sending := by
    intro i j p hj hp
    by_cases hji : j = i
    · rw [hji, Function.update_self] at hj
      exact absurd hj hp
    · rw [Function.update_of_ne hji] at hj
      exact ⟨hji, hj⟩
  cases ht with
  | start hi hm => exact ⟨h.log, fun j hj ↦ h.holding j (hother hj (by simp)).2⟩
  | startFails hi hm => exact ⟨h.log, fun j hj ↦ h.holding j (hother hj (by simp)).2⟩
  | @lock i buffer hi hh =>
    refine ⟨h.log, fun j hj ↦ ?_⟩
    by_cases hji : j = i
    · subst hji
      exact ⟨_, rfl⟩
    · obtain ⟨g, hg⟩ := h.holding j ((Function.update_of_ne hji ..).symm.trans hj)
      rw [hh] at hg
      cases hg
  | @write n i g hh hn hle =>
    refine ⟨h.log, fun j hj ↦ ?_⟩
    obtain ⟨g', hg'⟩ := h.holding j hj
    rw [hh] at hg'
    cases hg'
    exact ⟨_, rfl⟩
  | @finish i g hh hg =>
    constructor
    · intro g' hg'
      simp only [Sender.segments, hh] at hg'
      split at hg'
      · exact h.log g' hg'
      · rcases List.mem_append.mp hg' with hg' | hg'
        · exact h.log g' hg'
        · rwa [List.mem_singleton.mp hg']
    · intro j hj
      obtain ⟨hji, hj⟩ := hother hj (by simp)
      obtain ⟨g', hg'⟩ := h.holding j hj
      rw [hh] at hg'
      cases hg'
      exact absurd rfl hji
  | stop hh hg => exact absurd rfl he

/-- A call in flight has been so before the step, or has just got its stream. -/
theorem Wire.Transition.inFlight {e : WireEvent} (ht : Wire.Transition lz4 memory w e w')
    {i id : Nat} {m : RequestMessage} {stage : WireStage}
    (hi : w'.calls i = .inFlight m id stage) :
    (∃ stage', w.calls i = .inFlight m id stage') ∨ e = .acquire i m id := by
  have hstay : ∀ {j k : Nat} {m' : RequestMessage} {s s' : WireStage},
      w.calls j = .inFlight m' k s →
      Function.update w.calls j (.inFlight m' k s') i = .inFlight m id stage →
      ∃ stage', w.calls i = .inFlight m id stage' := by
    intro j k m' s s' hj he
    by_cases hij : i = j
    · rw [hij, Function.update_self] at he
      cases he
      exact ⟨s, hij ▸ hj⟩
    · rw [Function.update_of_ne hij] at he
      exact ⟨stage, he⟩
  have hends : ∀ {j : Nat} {p : WirePhase}, (∀ m id stage, p ≠ .inFlight m id stage) →
      Function.update w.calls j p i = .inFlight m id stage →
      ∃ stage', w.calls i = .inFlight m id stage' := by
    intro j p hp he
    by_cases hij : i = j
    · rw [hij, Function.update_self] at he
      exact absurd he (hp m id stage)
    · rw [Function.update_of_ne hij] at he
      exact ⟨stage, he⟩
  cases ht with
  | @acquire j m' k hj hid =>
    by_cases hij : i = j
    · subst hij
      have he := (Function.update_self ..).symm.trans hi
      cases he
      exact .inr rfl
    · exact .inl ⟨stage, (Function.update_of_ne hij ..).symm.trans hi⟩
  | pop hj hq => exact .inl (hstay hj hi)
  | popFails hj => exact .inl (hstay hj hi)
  | waitThrows hj hs => exact .inl (hstay hj hi)
  | exhausted hj => exact .inl (hends (by simp) hi)
  | checked hsent hj => exact .inl (hends (by simp) hi)
  | timedOut hsent hj => exact .inl (hends (by simp) hi)
  | unwound hsent hj => exact .inl (hends (by simp) hi)
  | _ => exact .inl ⟨stage, hi⟩

/-- In an undisturbed run the bytes implement a connection in which each stream id is free or
with a call under way, and every call that has a message has its own. -/
structure Prompt (lz4 : Option Lz4Api) (order : List Sent) (w : Wire) (c : Connection) : Prop where
  implements : Implements lz4 order w c
  flowing : c.Flowing
  own : OwnAnswers lz4 order w
  whole : w.sender.Whole
  carried : ∀ i m id stage, w.calls i = .inFlight m id stage → m.Carried lz4

/-- At first nothing is under way. -/
theorem prompt_init : Prompt lz4 [] Wire.init Connection.init where
  implements := implements_init lz4
  flowing := Connection.flowing_init
  own _ h := by cases h
  whole := ⟨fun _ h ↦ (by cases h), fun _ h ↦ (by cases h)⟩
  carried _ _ _ _ h := by cases h

namespace Prompt

private theorem spoken (h : Prompt lz4 order w c) {e : WireEvent} (hok : w.Undisturbed lz4 e) :
    w.Spoken lz4 e ∧ w.InTime e := by
  cases e with
  | start i => exact ⟨fun m id stage hi ↦ h.carried i m id stage hi, trivial⟩
  | lock i => exact ⟨h.whole.log, trivial⟩
  | answer k response => exact ⟨hok, trivial⟩
  | popFails i => exact hok.elim
  | pushFails => exact ⟨trivial, hok⟩
  | cancel => exact ⟨trivial, hok⟩
  | _ => exact ⟨trivial, trivial⟩

/-- An undisturbed step of the bytes, and the step of the connection behind it. -/
theorem step (h : Prompt lz4 order w c) {e : WireEvent} (hok : w.Undisturbed lz4 e)
    (ht : Wire.Transition lz4 memory w e w') :
    ∃ order' c', Prompt lz4 order' w' c' ∧ Matched w e c c' := by
  obtain ⟨hspoken, hintime⟩ := h.spoken hok
  obtain ⟨order', c', hext, hI, hmatched⟩ := h.implements.step hspoken ht
  have hflowing : c'.Flowing := by
    cases hmatched with
    | stutter _ he => exact he ▸ h.flowing
    | step hstep hstands htimely =>
      refine h.flowing.step ⟨htimely hintime, ?_⟩ (Connection.transition_of_step hstep)
      cases hstands with
      | stop => exact hok.elim
      | _ => trivial
  have hwhole : w'.sender.Whole := by
    cases id ht with
    | start hi hs => exact h.whole.step (Sender.transition_of_step hs) (by simp)
    | lock hs => exact h.whole.step (Sender.transition_of_step hs) (by simp)
    | write hs => exact h.whole.step (Sender.transition_of_step hs) (by simp)
    | finish hs => exact h.whole.step (Sender.transition_of_step hs) (by simp)
    | stop hs => exact hok.elim
    | _ => exact h.whole
  refine ⟨order', c', ⟨hI, hflowing, h.own.step h.implements h.flowing.exact ht hext, hwhole, ?_⟩,
    hmatched⟩
  intro i m id stage hi
  rcases ht.inFlight hi with ⟨stage', hi'⟩ | rfl
  · exact h.carried i m id stage' hi'
  · exact hok

/-- Who is in `SendAll` writes what is left, or is done. -/
theorem exists_write (h : Prompt lz4 order w c) {i : Nat} {g : Segment}
    (hh : w.sender.holder = some (i, g)) :
    ∃ e, Wire.Drains lz4 e ∧ (w.step lz4 memory e).isSome := by
  obtain ⟨-, -, hle, -⟩ := h.implements.sending.holder i g hh
  by_cases hg : g.written = g.buffer.length
  · exact ⟨.finish, trivial, by simp [Wire.step, Wire.send, Sender.step, hh, hg]⟩
  · refine ⟨.write (g.buffer.length - g.written), trivial, ?_⟩
    have hn : 0 < g.buffer.length - g.written ∧
        g.written + (g.buffer.length - g.written) ≤ g.buffer.length := by omega
    simp only [Wire.step, Wire.send, Sender.step, hh, if_pos hn]
    rfl

/-- A call whose request is not out gets on with it, or somebody else is in `SendAll`. -/
theorem exists_send (h : Prompt lz4 order w c) {i id : Nat} {m : RequestMessage}
    {stage : WireStage} (hi : w.calls i = .inFlight m id stage)
    (hover : w.sender.calls i ≠ .over) :
    ∃ e, Wire.Drains lz4 e ∧ (w.step lz4 memory e).isSome := by
  cases hsender : w.sender.calls i with
  | idle =>
    refine ⟨.start i, trivial, ?_⟩
    simp only [Wire.step, Wire.send, Sender.step, hi, hsender, Option.isSome_map]
    split <;> rfl
  | locking buffer =>
    cases hholder : w.sender.holder with
    | none =>
      exact ⟨.lock i, trivial, by simp [Wire.step, Wire.send, Sender.step, hsender, hholder]⟩
    | some p => exact h.exists_write hholder
  | sending =>
    obtain ⟨g, hg⟩ := h.whole.holding i hsender
    exact h.exists_write hg
  | _ => exact absurd hsender hover

/-- Whenever a step of the connection that drains is possible, so is a step of the bytes. -/
theorem exists_of_drains (h : Prompt lz4 order w c) (memory : List UInt8 → Nat → UInt8)
    {response : V4.Response} (hresponse : Reply.Carried lz4 response) {e : Event}
    (hdrains : Connection.Drains e) (ht : Connection.Transition c e c') :
    ∃ e', Wire.Drains lz4 e' ∧ (w.step lz4 memory e').isSome := by
  have hclient := h.implements.client
  have hreads : ∀ f fs, c.receiver = .reading → c.wire = f :: fs →
      ∃ e', Wire.Drains lz4 e' ∧ (w.step lz4 memory e').isSome := by
    intro f fs hr hw
    have hreceiver := (hr ▸ hclient.receiver).to_reading
    obtain ⟨replies, hbytes, hall⟩ := h.implements.incoming
    rw [hw] at hall
    obtain ⟨r, rs, ⟨-, -, -, -, -, -, -, -, hcarried⟩, -, rfl⟩ := List.forall₂_cons_left_iff.mp hall
    have harrived : frameArrived w.incoming = true := by
      have hframe : CompleteFrame (lz4.map Lz4Api.compressor) memory (r.encode lz4)
          (r.received lz4) := r.completeFrame hcarried
      rw [hbytes, List.flatMap_cons]
      exact frameArrived_complete hframe _
    refine ⟨.readFrame, trivial, ?_⟩
    simp only [Wire.step, hreceiver, harrived, if_true]
    split
    · rfl
    · split
      · rfl
      · split <;> rfl
  have hleaves : ∀ i id stage, c.calls i = .inFlight id true stage → stage ≠ .popping →
      ∃ e', Wire.Drains lz4 e' ∧ (w.step lz4 memory e').isSome := by
    intro i id stage hi hstage
    obtain ⟨hsent, m, stage', hwire, hmatches⟩ := (hi ▸ hclient.calls i).to_inFlight
    rcases Sender.sent_iff.mp hsent with hover | ⟨g, hg, -⟩
    · refine ⟨.leave i, trivial, ?_⟩
      cases hmatches with
      | popping => exact absurd rfl hstage
      | popped hd => simp [Wire.step, hover, hwire]
      | popFailed => simp [Wire.step, hover, hwire]
      | unwinding => simp [Wire.step, hover, hwire]
    · exact h.exists_write hg
  cases ht with
  | @send i id stage hi =>
    obtain ⟨hsent, m, stage', hwire, -⟩ := (hi ▸ hclient.calls i).to_inFlight
    refine h.exists_send hwire fun hover ↦ ?_
    rw [Sender.sent_iff.mpr (.inl hover)] at hsent
    cases hsent
  | @pop i id sent f hi hq =>
    obtain ⟨-, m, stage', hwire, hmatches⟩ := (hi ▸ hclient.calls i).to_inFlight
    obtain ⟨r, hr, -⟩ := queue_to_some (hq ▸ hclient.queues id)
    cases hmatches with
    | popping => exact ⟨.pop i, trivial, by simp [Wire.step, hwire, hr]⟩
  | checked hi => exact hleaves _ _ _ hi (by simp)
  | timedOut hi => exact hleaves _ _ _ hi (by simp)
  | unwound hi => exact hleaves _ _ _ hi (by simp)
  | @answer r raises hr =>
    obtain ⟨k, s, hk, -, hopen⟩ := h.implements.serving.asked r hr
    cases hv : w.served[k]? with
    | some v =>
      obtain ⟨stream, request, answer⟩ := v
      obtain rfl : answer = none := hopen _ hv
      exact ⟨.answer k response, hresponse, by simp [Wire.step, hv]⟩
    | none =>
      have hlt : w.served.length < order.length :=
        Nat.lt_of_le_of_lt (List.getElem?_eq_none_iff.mp hv) (List.getElem?_eq_some_iff.mp hk).1
      obtain ⟨⟨p, rest⟩, hp⟩ := Option.ne_none_iff_exists'.mp (h.implements.unread hlt)
      exact ⟨.serve, trivial, by simp [Wire.step, hp]⟩
  | skip hr hw hf => exact hreads _ _ hr hw
  | outOfRange hr hw h0 hf => exact hreads _ _ hr hw
  | readFrame hr hw h0 hf => exact hreads _ _ hr hw
  | @push f hr hq =>
    obtain ⟨m, hreceiver, hd⟩ := (hr ▸ hclient.receiver).to_pushing
    have hempty : w.queues m.index = none := by
      rw [hd.index]
      exact queue_to_none (hq ▸ hclient.queues f.index)
    exact ⟨.push, trivial, by simp [Wire.step, hreceiver, hempty]⟩
  | _ => exact hdrains.elim

end Prompt

end CassandraDriver.Detail
