import CassandraDriver.Detail.WireRelation

/-!
# The sending side of a connection with its bytes

Library `Detail`. What each step of `SendMessage`, `src/detail/connection_impl.cpp:307–319`,
does to the requests that are out in full, while the mutex is taken only behind whole requests
and every request can be serialized. A request is out with its last byte; the bytes behind the
requests that are out are a part of one more.
-/

namespace CassandraDriver.Detail
open CassandraDriver.Lib CassandraDriver.Protocol

namespace Sender

/-- The steps of the sending side with their guards. -/
inductive Transition (compressor : Option Compressor) (s : Sender) : SendEvent → Sender → Prop
  | start {i m stream buffer} (hi : s.calls i = .idle)
      (hm : (m.serialize stream compressor).run [] = .ok ((), buffer)) :
      Transition compressor s (.start i m stream)
        { s with calls := Function.update s.calls i (.locking buffer) }
  | startFails {i m stream e} (hi : s.calls i = .idle)
      (hm : (m.serialize stream compressor).run [] = .error e) :
      Transition compressor s (.start i m stream)
        { s with calls := Function.update s.calls i .over }
  | lock {i buffer} (hi : s.calls i = .locking buffer) (hh : s.holder = none) :
      Transition compressor s (.lock i)
        { s with calls := Function.update s.calls i .sending, holder := some (i, ⟨buffer, 0⟩) }
  | write {n i g} (hh : s.holder = some (i, g)) (hn : 0 < n)
      (hle : g.written + n ≤ g.buffer.length) :
      Transition compressor s (.write n) { s with holder := some (i, ⟨g.buffer, g.written + n⟩) }
  | finish {i g} (hh : s.holder = some (i, g)) (hg : g.Complete) :
      Transition compressor s .finish ⟨Function.update s.calls i .over, none, s.segments⟩
  | stop {i g} (hh : s.holder = some (i, g)) (hg : g.written < g.buffer.length) :
      Transition compressor s .stop ⟨Function.update s.calls i .over, none, s.segments⟩

variable {compressor : Option Compressor} {s t : Sender}

/-- A step is one of the transitions. -/
theorem transition_of_step {e : SendEvent} (h : s.step compressor e = some t) :
    Transition compressor s e t := by
  cases e with
  | start i m stream =>
    simp only [step] at h
    split at h
    · next hi =>
      split at h
      · next hm =>
        cases h
        exact .start hi hm
      · next hm =>
        cases h
        exact .startFails hi hm
    · cases h
  | lock i =>
    simp only [step] at h
    split at h
    · next hi hh =>
      cases h
      exact .lock hi hh
    · cases h
  | write n =>
    simp only [step] at h
    split at h
    · next hh =>
      split at h
      · next hn =>
        cases h
        exact .write hh hn.1 hn.2
      · cases h
    · cases h
  | finish =>
    simp only [step] at h
    split at h
    · next hh =>
      split at h
      · next hg =>
        cases h
        exact .finish hh hg
      · cases h
    · cases h
  | stop =>
    simp only [step] at h
    split at h
    · next hh =>
      split at h
      · next hg =>
        cases h
        exact .stop hh hg
      · cases h
    · cases h

section
variable {calls calls' : Nat → SendPhase} {i : Nat} {p : SendPhase}
  (hcalls : calls' = Function.update calls i p)
include hcalls

private theorem update_ne_over (hp : p ≠ .over) : calls' i ≠ .over := by
  rw [hcalls, Function.update_self]
  exact hp

/-- A call that has not begun to send is not the one that moves on. -/
theorem idle_of_update (hi : calls i ≠ .idle) {j : Nat} (hj : calls j = .idle) :
    calls' j = .idle := by
  have hne : j ≠ i := by
    rintro rfl
    exact hi hj
  rw [hcalls, Function.update_of_ne hne]
  exact hj

/-- A call that waits for the mutex did so before, or moves on to that. -/
theorem locking_of_update {j : Nat} {buffer : List UInt8} (hj : calls' j = .locking buffer) :
    (j = i ∧ p = .locking buffer) ∨ calls j = .locking buffer := by
  rw [hcalls] at hj
  by_cases hji : j = i
  · subst hji
    rw [Function.update_self] at hj
    exact .inl ⟨rfl, hj⟩
  · rw [Function.update_of_ne hji] at hj
    exact .inr hj

end

/-- A call whose own state and whose hold of the mutex stay is out as before. -/
theorem sent_congr {i : Nat} (hcalls : t.calls i = s.calls i)
    (hholder : ∀ g, t.holder = some (i, g) ↔ s.holder = some (i, g)) : t.sent i = s.sent i := by
  rw [Bool.eq_iff_iff, sent_iff, sent_iff, hcalls]
  simp only [hholder]

/-- A call that neither is over nor holds the mutex has not sent its request. -/
theorem sent_eq_false {i : Nat} (hcalls : s.calls i ≠ .over)
    (hholder : ∀ g, s.holder = some (i, g) → ¬ g.Complete) : s.sent i = false := by
  rw [Bool.eq_false_iff, Ne, sent_iff]
  rintro (hover | ⟨g, hg, hcomplete⟩)
  · exact hcalls hover
  · exact hholder g hg hcomplete

/-- Bytes of the call that holds the mutex concern no other call. -/
theorem sent_of_ne {i j : Nat} {g g' : Segment} (hh : s.holder = some (i, g)) (hj : j ≠ i) :
    Sender.sent { s with holder := some (i, g') } j = s.sent j := by
  refine sent_congr rfl fun f ↦ ?_
  rw [hh]
  constructor
  · intro hf
    cases hf
    exact absurd rfl hj
  · intro hf
    cases hf
    exact absurd rfl hj

/-- The bytes of a call that has put some out are the last on the socket. -/
theorem segments_of_pos {i : Nat} {g : Segment} (hg : 0 < g.written) :
    Sender.segments { s with holder := some (i, g) } = s.log ++ [g] := by
  simp only [segments]
  exact if_neg (Nat.ne_of_gt hg)

end Sender

variable {lz4 : Option Lz4Api} {order : List Sent} {w : Wire} {s : Sender}

namespace Sending

/-- The call that holds the mutex has sent its request when its buffer is out. -/
theorem sent_holder (h : Sending lz4 order w) {i : Nat} {g : Segment}
    (hh : w.sender.holder = some (i, g)) : w.sender.sent i = true ↔ g.Complete := by
  rw [Sender.sent_iff, (h.holder i g hh).1, hh]
  constructor
  · rintro (hover | ⟨g', he, hg⟩)
    · cases hover
    · cases he
      exact hg
  · exact fun hg ↦ .inr ⟨g, rfl, hg⟩

/-- The call that holds the mutex and has bytes left has not sent its request. -/
theorem sent_unwritten (h : Sending lz4 order w) {i : Nat} {g : Segment}
    (hh : w.sender.holder = some (i, g)) (hg : g.written < g.buffer.length) :
    w.sender.sent i = false := by
  rw [Bool.eq_false_iff, Ne, h.sent_holder hh]
  exact Nat.ne_of_lt hg

/-- While a call is in `SendAll`, the finished calls left whole requests. -/
theorem log_complete (h : Sending lz4 order w) {i : Nat} {g : Segment}
    (hh : w.sender.holder = some (i, g)) :
    w.sender.log.filter (fun g ↦ decide g.Complete) = w.sender.log :=
  List.filter_eq_self.mpr fun g' hg' ↦ decide_eq_true ((h.holder i g hh).2.2.2 g' hg')

/-- A call that has not begun to send has sent nothing. -/
theorem sent_idle (h : Sending lz4 order w) {i : Nat} (hi : w.sender.calls i = .idle) :
    w.sender.sent i = false := by
  refine Sender.sent_eq_false (by rw [hi]; simp) fun g hg ↦ ?_
  rw [(h.holder i g hg).1] at hi
  cases hi

/-- A step that leaves what is on the socket keeps the requests that are out. -/
theorem congr (h : Sending lz4 order w) (hsegments : s.segments = w.sender.segments)
    (hidle : ∀ i, w.calls i = .idle → s.calls i = .idle)
    (hlocking : ∀ i buffer, s.calls i = .locking buffer → w.Owes lz4 i buffer)
    (hholder : ∀ i g, s.holder = some (i, g) → s.calls i = .sending ∧ w.Owes lz4 i g.buffer ∧
      g.written ≤ g.buffer.length ∧ ∀ g' ∈ s.log, g'.Complete)
    (hsent : ∀ i, w.sender.sent i = true → s.sent i = true) :
    Sending lz4 order { w with sender := s } where
  idle := hidle
  locking := hlocking
  holder := hholder
  out := by
    rw [hsegments]
    exact h.out
  front := by
    rw [hsegments]
    exact h.front
  unfinished := by
    rw [hsegments]
    exact h.unfinished
  sent := fun q hq ↦ hsent q.call (h.sent q hq)
  nodup := h.nodup
  carried := h.carried
  own := h.own

/-- The send task serializes its request. -/
theorem start (h : Sending lz4 order w) {i : Nat} {m : RequestMessage} {id : Nat}
    {stage : WireStage} (hi : w.calls i = .inFlight m id stage) (hm : m.Carried lz4)
    (ht : Sender.Transition (lz4.map Lz4Api.compressor) w.sender
      (.start i m (Int16.ofNat id)) s) :
    Sending lz4 order { w with sender := s } ∧ ∀ j, s.sent j = w.sender.sent j := by
  have hserialize := RequestMessage.serialize_wireFrame hm (Int16.ofNat id)
  cases ht with
  | startFails hidle he =>
    rw [hserialize] at he
    cases he
  | @start _ _ _ buffer hidle hb =>
    rw [hserialize] at hb
    cases hb
    have hne : ∀ j g, w.sender.holder = some (j, g) → j ≠ i := by
      rintro j g hg rfl
      rw [(h.holder j g hg).1] at hidle
      cases hidle
    have hsent : ∀ j, Sender.sent { w.sender with
        calls := Function.update w.sender.calls i
          (.locking (m.wireFrame lz4 (Int16.ofNat id))) } j = w.sender.sent j := by
      intro j
      by_cases hj : j = i
      · subst hj
        rw [h.sent_idle hidle]
        exact Sender.sent_eq_false (Sender.update_ne_over rfl (by simp))
          (fun g hg ↦ absurd rfl (hne j g hg))
      · exact Sender.sent_congr (Function.update_of_ne hj ..) (fun g ↦ Iff.rfl)
    refine ⟨h.congr rfl ?_ ?_ ?_ (fun j hj ↦ (hsent j).trans hj), hsent⟩
    · intro j hj
      have hne : j ≠ i := by
        rintro rfl
        rw [hi] at hj
        cases hj
      exact (Function.update_of_ne hne ..).trans (h.idle j hj)
    · intro j buffer hj
      rcases Sender.locking_of_update rfl hj with ⟨rfl, hb⟩ | hj
      · cases hb
        exact ⟨m, id, stage, hi, hm, rfl⟩
      · exact h.locking j buffer hj
    · intro j g hg
      obtain ⟨hsending, hrest⟩ := h.holder j g hg
      exact ⟨(Function.update_of_ne (hne j g hg) ..).trans hsending, hrest⟩

/-- A call takes the mutex. -/
theorem lock (h : Sending lz4 order w) {i : Nat} (hok : w.sender.LocksIntact (.lock i))
    (ht : Sender.Transition (lz4.map Lz4Api.compressor) w.sender (.lock i) s) :
    Sending lz4 order { w with sender := s } ∧ ∀ j, s.sent j = w.sender.sent j := by
  cases ht with
  | @lock _ buffer hi hh =>
    have howes := h.locking i buffer hi
    have hpos : 0 < buffer.length := by
      obtain ⟨m, id, -, -, -, rfl⟩ := howes
      exact Nat.lt_of_lt_of_le (by decide) (m.kHeaderSize_le_wireFrame lz4 _)
    have hsent : ∀ j, Sender.sent ⟨Function.update w.sender.calls i .sending,
        some (i, ⟨buffer, 0⟩), w.sender.log⟩ j = w.sender.sent j := by
      intro j
      by_cases hj : j = i
      · subst hj
        have hbefore : w.sender.sent j = false :=
          Sender.sent_eq_false (by rw [hi]; simp) (fun g hg ↦ by rw [hh] at hg; cases hg)
        rw [hbefore]
        refine Sender.sent_eq_false (Sender.update_ne_over rfl (by simp)) fun g hg ↦ ?_
        cases hg
        exact Nat.ne_of_lt hpos
      · refine Sender.sent_congr (Function.update_of_ne hj ..) fun g ↦ ?_
        rw [hh]
        constructor
        · intro hg
          cases hg
          exact absurd rfl hj
        · intro hg
          cases hg
    refine ⟨h.congr ?_ ?_ ?_ ?_ (fun j hj ↦ (hsent j).trans hj), hsent⟩
    · simp only [Sender.segments, hh, if_true]
    · exact fun j hj ↦ Sender.idle_of_update rfl (by rw [hi]; simp) (h.idle j hj)
    · intro j b hj
      rcases Sender.locking_of_update rfl hj with ⟨-, hb⟩ | hj
      · cases hb
      · exact h.locking j b hj
    · intro j g hg
      cases hg
      exact ⟨Function.update_self .., howes, Nat.zero_le _, hok⟩

/-- `SendAll` returns or gives up; its bytes stay. -/
theorem settle (h : Sending lz4 order w) {i : Nat} {g : Segment}
    (hh : w.sender.holder = some (i, g)) :
    Sending lz4 order { w with
      sender := ⟨Function.update w.sender.calls i .over, none, w.sender.segments⟩ } ∧
    ∀ j, Sender.sent ⟨Function.update w.sender.calls i .over, none, w.sender.segments⟩ j =
      if j = i then true else w.sender.sent j := by
  have hsent : ∀ j, Sender.sent ⟨Function.update w.sender.calls i .over, none,
      w.sender.segments⟩ j = if j = i then true else w.sender.sent j := by
    intro j
    split
    · next hj =>
      subst hj
      exact Sender.sent_iff.mpr (.inl (Function.update_self ..))
    · next hj =>
      refine Sender.sent_congr (Function.update_of_ne hj ..) fun g' ↦ ?_
      rw [hh]
      constructor
      · intro hg
        cases hg
      · intro hg
        cases hg
        exact absurd rfl hj
  have hsending := (h.holder i g hh).1
  refine ⟨h.congr rfl ?_ ?_ (fun j g' hg ↦ by cases hg) ?_, hsent⟩
  · exact fun j hj ↦ Sender.idle_of_update rfl (by rw [hsending]; simp) (h.idle j hj)
  · intro j b hj
    rcases Sender.locking_of_update rfl hj with ⟨-, hb⟩ | hj
    · cases hb
    · exact h.locking j b hj
  · intro j hj
    rw [hsent]
    split
    · rfl
    · exact hj

/-- What finished calls have left on the socket are the requests that are out, as long as a
call is in `SendAll` and has not put out all of its own. -/
theorem log_out (h : Sending lz4 order w) {i : Nat} {g : Segment}
    (hh : w.sender.holder = some (i, g)) (hg : g.written < g.buffer.length) :
    w.sender.log.map Segment.buffer = order.map (Sent.frame lz4) := by
  have hnot : ¬ g.Complete := Nat.ne_of_lt hg
  have hall := h.log_complete hh
  have hout := h.out
  rw [Sender.segments, hh] at hout
  simp only at hout
  split at hout
  · rwa [hall] at hout
  · rwa [List.filter_append, hall, List.filter_cons_of_neg (by simp [hnot]), List.filter_nil,
      List.append_nil] at hout

/-- `SendAll` puts out more bytes, but not the last. -/
theorem write (h : Sending lz4 order w) {n i : Nat} {g : Segment}
    (hh : w.sender.holder = some (i, g)) (hn : 0 < n) (hlt : g.written + n < g.buffer.length) :
    Sending lz4 order { w with
      sender := { w.sender with holder := some (i, ⟨g.buffer, g.written + n⟩) } } ∧
    ∀ j, Sender.sent { w.sender with holder := some (i, ⟨g.buffer, g.written + n⟩) } j =
      w.sender.sent j := by
  obtain ⟨hsending, howes, -, hlog⟩ := h.holder i g hh
  have hnot : ¬ Segment.Complete ⟨g.buffer, g.written + n⟩ := Nat.ne_of_lt hlt
  have hsent : ∀ j, Sender.sent { w.sender with
      holder := some (i, ⟨g.buffer, g.written + n⟩) } j = w.sender.sent j := by
    intro j
    by_cases hj : j = i
    · subst hj
      rw [h.sent_unwritten hh (by omega)]
      refine Sender.sent_eq_false (by rw [hsending]; simp) fun g' hg' ↦ ?_
      cases hg'
      exact hnot
    · exact Sender.sent_of_ne hh hj
  have hsegments : Sender.segments { w.sender with
      holder := some (i, ⟨g.buffer, g.written + n⟩) } =
        w.sender.log ++ [⟨g.buffer, g.written + n⟩] :=
    Sender.segments_of_pos (Nat.add_pos_right _ hn)
  have hout := h.log_out hh (by omega)
  refine ⟨⟨h.idle, h.locking, ?_, ?_, ?_, ?_, ?_, h.nodup, h.carried, h.own⟩, hsent⟩
  · intro j g' hg'
    cases hg'
    exact ⟨hsending, howes, Nat.le_of_lt hlt, hlog⟩
  · rw [hsegments, List.filter_append, h.log_complete hh,
      List.filter_cons_of_neg (by simp [hnot]), List.filter_nil, List.append_nil]
    exact hout
  · rw [hsegments, List.dropLast_concat]
    exact hlog
  · rw [hsegments]
    intro g' hg' hng
    rcases List.mem_append.mp hg' with hg' | hg'
    · exact absurd (hlog g' hg') hng
    · rw [List.mem_singleton] at hg'
      subst hg'
      obtain ⟨m, id, -, -, hm, hb⟩ := howes
      exact ⟨m, Int16.ofNat id, hm, hb, hlt⟩
  · intro q hq
    rw [hsent]
    exact h.sent q hq

/-- `SendAll` puts out the last bytes: the request is out. -/
theorem writeLast (h : Sending lz4 order w) {n i : Nat} {g : Segment}
    (hh : w.sender.holder = some (i, g)) (hn : 0 < n) (he : g.written + n = g.buffer.length) :
    ∃ m id stage, w.calls i = .inFlight m id stage ∧
      Sending lz4 (order ++ [⟨i, m, id⟩]) { w with
        sender := { w.sender with holder := some (i, ⟨g.buffer, g.written + n⟩) } } ∧
      w.sender.sent i = false ∧
      ∀ j, Sender.sent { w.sender with holder := some (i, ⟨g.buffer, g.written + n⟩) } j =
        if j = i then true else w.sender.sent j := by
  obtain ⟨hsending, howes, -, hlog⟩ := h.holder i g hh
  obtain ⟨m, id, stage, hi, hm, hb⟩ := howes
  have hcomplete : Segment.Complete ⟨g.buffer, g.written + n⟩ := he
  have hbefore := h.sent_unwritten hh (by omega)
  have hsent : ∀ j, Sender.sent { w.sender with
      holder := some (i, ⟨g.buffer, g.written + n⟩) } j =
        if j = i then true else w.sender.sent j := by
    intro j
    split
    · next hj =>
      subst hj
      exact Sender.sent_iff.mpr (.inr ⟨_, rfl, hcomplete⟩)
    · next hj => exact Sender.sent_of_ne hh hj
  have hsegments : Sender.segments { w.sender with
      holder := some (i, ⟨g.buffer, g.written + n⟩) } =
        w.sender.log ++ [⟨g.buffer, g.written + n⟩] :=
    Sender.segments_of_pos (Nat.add_pos_right _ hn)
  have hmono : ∀ j, w.sender.sent j = true → Sender.sent { w.sender with
      holder := some (i, ⟨g.buffer, g.written + n⟩) } j = true := by
    intro j hj
    rw [hsent]
    split
    · rfl
    · exact hj
  refine ⟨m, id, stage, hi, ⟨h.idle, h.locking, ?_, ?_, ?_, ?_, ?_, ?_, ?_, ?_⟩, hbefore, hsent⟩
  · intro j g' hg'
    cases hg'
    exact ⟨hsending, ⟨m, id, stage, hi, hm, hb⟩, Nat.le_of_eq he, hlog⟩
  · rw [hsegments, List.filter_append, h.log_complete hh,
      List.filter_cons_of_pos (by simp [hcomplete]), List.filter_nil, List.map_append,
      h.log_out hh (by omega), List.map_append]
    exact congrArg (order.map (Sent.frame lz4) ++ [·]) hb
  · rw [hsegments, List.dropLast_concat]
    exact hlog
  · rw [hsegments]
    intro g' hg' hng
    rcases List.mem_append.mp hg' with hg' | hg'
    · exact absurd (hlog g' hg') hng
    · rw [List.mem_singleton] at hg'
      exact absurd (hg' ▸ hcomplete) hng
  · intro q hq
    rcases List.mem_append.mp hq with hq | hq
    · exact hmono q.call (h.sent q hq)
    · rw [List.mem_singleton] at hq
      rw [hq, hsent]
      exact if_pos rfl
  · rw [List.map_append]
    refine List.Nodup.append h.nodup (List.nodup_singleton _) ?_
    intro j hj hji
    obtain ⟨q, hq, rfl⟩ := List.mem_map.mp hj
    have hq' := h.sent q hq
    rw [List.map_cons, List.map_nil, List.mem_singleton] at hji
    rw [hji, hbefore] at hq'
    cases hq'
  · intro q hq
    rcases List.mem_append.mp hq with hq | hq
    · exact h.carried q hq
    · rw [List.mem_singleton] at hq
      exact hq ▸ hm
  · intro q hq
    rcases List.mem_append.mp hq with hq | hq
    · exact h.own q hq
    · rw [List.mem_singleton] at hq
      subst hq
      rw [show w.calls i = .inFlight m id stage from hi]
      rfl

end Sending
end CassandraDriver.Detail
