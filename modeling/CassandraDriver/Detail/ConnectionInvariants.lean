import CassandraDriver.Detail.Connection

/-!
# Invariants of one connection

Library `Detail`. What holds in every state that a connection and its callers can reach:
the stream ids are shared out without loss or repetition, and, under the conditions
stated with each result, answers reach the calls that asked and a dead receiver is seen.
-/

namespace CassandraDriver.Detail
open CassandraDriver.Lib

namespace Connection

/-- The call has a live `StreamGuard` with this id. -/
def Holds (c : Connection) (i id : Nat) : Prop := ∃ sent stage, c.calls i = .inFlight id sent stage

/-- The ids in the pool and those held by calls are the ids below `kMaxStreams`, none twice. -/
structure StreamsShared (c : Connection) : Prop where
  nodup : c.streamPool.queue.Nodup
  free_lt : ∀ id ∈ c.streamPool.queue, id < StreamPool.kMaxStreams
  held_lt : ∀ i id, c.Holds i id → id < StreamPool.kMaxStreams
  held_not_free : ∀ i id, c.Holds i id → id ∉ c.streamPool.queue
  holder_unique : ∀ i j id, c.Holds i id → c.Holds j id → i = j
  covered : ∀ id < StreamPool.kMaxStreams, id ∈ c.streamPool.queue ∨ ∃ i, c.Holds i id

private theorem not_holds_init (i id : Nat) : ¬ init.Holds i id := by
  rintro ⟨sent, stage, h⟩
  cases h

/-- At first all stream ids are in the pool. -/
theorem streamsShared_init : StreamsShared init := by
  have hq : init.streamPool.queue = List.range StreamPool.kMaxStreams := by
    simp only [init, StreamPool.init]
  refine ⟨?_, ?_, ?_, ?_, ?_, ?_⟩
  · rw [hq]
    exact List.nodup_range
  · rw [hq]
    exact fun id h ↦ List.mem_range.mp h
  · exact fun i id h ↦ absurd h (not_holds_init i id)
  · exact fun i id h ↦ absurd h (not_holds_init i id)
  · exact fun i j id h ↦ absurd h (not_holds_init i id)
  · rw [hq]
    exact fun id h ↦ .inl (List.mem_range.mpr h)

/-- The holders after one call has moved. -/
theorem holds_update {c : Connection} {i j id : Nat} {p : Phase} {d : Connection}
    (hd : d.calls = Function.update c.calls i p) :
    d.Holds j id ↔ (j = i ∧ ∃ sent stage, p = .inFlight id sent stage) ∨
      (j ≠ i ∧ c.Holds j id) := by
  unfold Holds
  rw [hd]
  by_cases hj : j = i
  · subst hj
    simp
  · simp [hj]

/-- A step that changes neither the holders nor the pool keeps the ids shared out. -/
theorem StreamsShared.congr {c d : Connection} (h : c.StreamsShared)
    (hp : d.streamPool = c.streamPool) (hh : ∀ i id, d.Holds i id ↔ c.Holds i id) :
    d.StreamsShared where
  nodup := hp ▸ h.nodup
  free_lt := hp ▸ h.free_lt
  held_lt i id hi := h.held_lt i id ((hh i id).mp hi)
  held_not_free i id hi := hp ▸ h.held_not_free i id ((hh i id).mp hi)
  holder_unique i j id hi hj := h.holder_unique i j id ((hh i id).mp hi) ((hh j id).mp hj)
  covered id hid := by
    rw [hp]
    simpa only [hh] using h.covered id hid

/-- A call that moves on with the same id leaves the holders as they are. -/
theorem holds_congr {c d : Connection} {i id : Nat} {sent sent' : Bool} {stage stage' : Stage}
    (hi : c.calls i = .inFlight id sent stage)
    (hd : d.calls = Function.update c.calls i (.inFlight id sent' stage')) (j k : Nat) :
    d.Holds j k ↔ c.Holds j k := by
  rw [holds_update hd]
  by_cases hj : j = i
  · subst hj
    simp [Holds, hi]
  · simp [hj]

private theorem pool_length_lt {c : Connection} (h : c.StreamsShared) {i id : Nat}
    (hi : c.Holds i id) : c.streamPool.queue.length < StreamPool.kMaxStreams := by
  have hn : (id :: c.streamPool.queue).Nodup :=
    List.nodup_cons.mpr ⟨h.held_not_free i id hi, h.nodup⟩
  have hs : id :: c.streamPool.queue ⊆ List.range StreamPool.kMaxStreams := by
    intro k hk
    rcases List.mem_cons.mp hk with rfl | hk
    · exact List.mem_range.mpr (h.held_lt i _ hi)
    · exact List.mem_range.mpr (h.free_lt k hk)
  have hl := (List.Nodup.subperm hn hs).length_le
  rw [List.length_cons, List.length_range] at hl
  omega

/-- The pool has room for an id that a call gives back. -/
theorem release_queue {c : Connection} (h : c.StreamsShared) {i id : Nat} (hi : c.Holds i id) :
    (c.streamPool.release id).queue = id :: c.streamPool.queue := by
  rw [StreamPool.release, if_pos (pool_length_lt h hi)]

/-- Taking an id from the pool keeps the ids shared out. -/
theorem StreamsShared.acquire {c d : Connection} (h : c.StreamsShared) {i id : Nat}
    (hi : c.calls i = .idle) (hid : id ∈ c.streamPool.queue)
    (hp : d.streamPool = ⟨c.streamPool.queue.erase id⟩)
    (hc : d.calls = Function.update c.calls i (.inFlight id false .popping)) :
    d.StreamsShared := by
  have hh : ∀ j k, d.Holds j k ↔ (j = i ∧ k = id) ∨ (j ≠ i ∧ c.Holds j k) := by
    intro j k
    rw [holds_update hc]
    simp [eq_comm]
  have hm : ∀ k, k ∈ d.streamPool.queue ↔ k ≠ id ∧ k ∈ c.streamPool.queue := by
    intro k
    rw [hp]
    exact h.nodup.mem_erase_iff
  have hnot : ∀ j, ¬ c.Holds j id := fun j hj ↦ h.held_not_free j id hj hid
  refine ⟨by rw [hp]; exact h.nodup.erase id, fun k hk ↦ h.free_lt k ((hm k).mp hk).2,
    ?_, ?_, ?_, ?_⟩
  · intro j k hj
    rcases (hh j k).mp hj with ⟨-, rfl⟩ | ⟨-, hj⟩
    · exact h.free_lt _ hid
    · exact h.held_lt j k hj
  · intro j k hj hk
    rcases (hh j k).mp hj with ⟨-, rfl⟩ | ⟨-, hj⟩
    · exact ((hm _).mp hk).1 rfl
    · exact h.held_not_free j k hj ((hm k).mp hk).2
  · intro j₁ j₂ k h₁ h₂
    rcases (hh j₁ k).mp h₁ with ⟨rfl, rfl⟩ | ⟨-, h₁⟩
    · rcases (hh j₂ _).mp h₂ with ⟨rfl, -⟩ | ⟨-, h₂⟩
      · rfl
      · exact absurd h₂ (hnot j₂)
    · rcases (hh j₂ k).mp h₂ with ⟨rfl, rfl⟩ | ⟨-, h₂⟩
      · exact absurd h₁ (hnot j₁)
      · exact h.holder_unique j₁ j₂ k h₁ h₂
  · intro k hk
    by_cases hki : k = id
    · exact .inr ⟨i, (hh i k).mpr (.inl ⟨rfl, hki⟩)⟩
    · rcases h.covered k hk with hk | ⟨j, hj⟩
      · exact .inl ((hm k).mpr ⟨hki, hk⟩)
      · refine .inr ⟨j, (hh j k).mpr (.inr ⟨?_, hj⟩)⟩
        rintro rfl
        obtain ⟨sent, stage, hj⟩ := hj
        rw [hi] at hj
        cases hj

/-- Giving an id back keeps the ids shared out. -/
theorem StreamsShared.release {c d : Connection} (h : c.StreamsShared) {i id : Nat}
    (hi : c.Holds i id) {p : Phase} (hp : ∀ k sent stage, p ≠ .inFlight k sent stage)
    (hq : d.streamPool = c.streamPool.release id)
    (hc : d.calls = Function.update c.calls i p) : d.StreamsShared := by
  have hh : ∀ j k, d.Holds j k ↔ j ≠ i ∧ c.Holds j k := by
    intro j k
    rw [holds_update hc]
    simp [hp]
  have hqueue : d.streamPool.queue = id :: c.streamPool.queue := by rw [hq, release_queue h hi]
  have hfree := h.held_not_free i id hi
  refine ⟨?_, ?_, fun j k hj ↦ h.held_lt j k ((hh j k).mp hj).2, ?_, ?_, ?_⟩
  · rw [hqueue]
    exact List.nodup_cons.mpr ⟨hfree, h.nodup⟩
  · intro k hk
    rw [hqueue] at hk
    rcases List.mem_cons.mp hk with rfl | hk
    · exact h.held_lt i _ hi
    · exact h.free_lt k hk
  · intro j k hj hk
    obtain ⟨hji, hj⟩ := (hh j k).mp hj
    rw [hqueue] at hk
    rcases List.mem_cons.mp hk with rfl | hk
    · exact hji (h.holder_unique j i _ hj hi)
    · exact h.held_not_free j k hj hk
  · intro j₁ j₂ k h₁ h₂
    exact h.holder_unique j₁ j₂ k ((hh j₁ k).mp h₁).2 ((hh j₂ k).mp h₂).2
  · intro k hk
    rw [hqueue]
    rcases h.covered k hk with hk | ⟨j, hj⟩
    · exact .inl (List.mem_cons_of_mem _ hk)
    · by_cases hji : j = i
      · subst hji
        obtain ⟨s₁, t₁, h₁⟩ := hi
        obtain ⟨s₂, t₂, h₂⟩ := hj
        rw [h₁] at h₂
        cases h₂
        exact .inl List.mem_cons_self
      · exact .inr ⟨j, (hh j k).mpr ⟨hji, hj⟩⟩

/-- What a step does to the stream ids: a call takes one, a call gives its one back, or
neither the pool nor the holders change. -/
inductive StreamMove (c : Connection) : Event → Connection → Prop
  | taken {i id : Nat} {d : Connection} (hi : c.calls i = .idle) (hid : id ∈ c.streamPool.queue)
      (hp : d.streamPool = ⟨c.streamPool.queue.erase id⟩)
      (hc : d.calls = Function.update c.calls i (.inFlight id false .popping)) :
      StreamMove c (.acquire i id) d
  | given {i id : Nat} {p : Phase} {d : Connection} (hi : c.Holds i id)
      (hphase : ∀ k sent stage, p ≠ .inFlight k sent stage)
      (hp : d.streamPool = c.streamPool.release id)
      (hc : d.calls = Function.update c.calls i p) : StreamMove c (.leave i) d
  | kept {e : Event} {d : Connection} (hacquire : ∀ i id, e ≠ .acquire i id)
      (hleave : ∀ i, e ≠ .leave i) (hp : d.streamPool = c.streamPool)
      (hh : ∀ i id, d.Holds i id ↔ c.Holds i id) : StreamMove c e d

/-- Every step does one of these to the stream ids. -/
theorem streamMove_of_transition {c d : Connection} {e : Event} (ht : Transition c e d) :
    StreamMove c e d := by
  cases ht with
  | acquire hi hid => exact .taken hi hid rfl rfl
  | @exhausted i hi =>
    refine .kept (by simp) (by simp) rfl (fun j k ↦ ?_)
    rw [holds_update rfl]
    by_cases hj : j = i
    · subst hj
      simp [Holds, hi]
    · simp [hj]
  | send hi => exact .kept (by simp) (by simp) rfl (holds_congr hi rfl)
  | sendFails hi => exact .kept (by simp) (by simp) rfl (holds_congr hi rfl)
  | pop hi hq => exact .kept (by simp) (by simp) rfl (holds_congr hi rfl)
  | popFails hi => exact .kept (by simp) (by simp) rfl (holds_congr hi rfl)
  | waitThrows hi hs => exact .kept (by simp) (by simp) rfl (holds_congr hi rfl)
  | @checked i id f hi =>
    refine .given ⟨_, _, hi⟩ (fun k sent stage ↦ ?_) rfl rfl
    split
    · simp
    · simp
  | timedOut hi => exact .given ⟨_, _, hi⟩ (by simp) rfl rfl
  | unwound hi => exact .given ⟨_, _, hi⟩ (by simp) rfl rfl
  | answer hr => exact .kept (by simp) (by simp) rfl (fun _ _ ↦ Iff.rfl)
  | unsolicited => exact .kept (by simp) (by simp) rfl (fun _ _ ↦ Iff.rfl)
  | skip hr hw hf => exact .kept (by simp) (by simp) rfl (fun _ _ ↦ Iff.rfl)
  | outOfRange hr hw h0 hf => exact .kept (by simp) (by simp) rfl (fun _ _ ↦ Iff.rfl)
  | readFrame hr hw h0 hf => exact .kept (by simp) (by simp) rfl (fun _ _ ↦ Iff.rfl)
  | readFails hr => exact .kept (by simp) (by simp) rfl (fun _ _ ↦ Iff.rfl)
  | push hr hq => exact .kept (by simp) (by simp) rfl (fun _ _ ↦ Iff.rfl)
  | pushFails hr => exact .kept (by simp) (by simp) rfl (fun _ _ ↦ Iff.rfl)
  | cancel hr => exact .kept (by simp) (by simp) rfl (fun _ _ ↦ Iff.rfl)

/-- Every step keeps the ids shared out. -/
theorem StreamsShared.step {c d : Connection} {e : Event} (h : c.StreamsShared)
    (ht : Transition c e d) : d.StreamsShared := by
  cases streamMove_of_transition ht with
  | taken hi hid hp hc => exact h.acquire hi hid hp hc
  | given hi hphase hp hc => exact h.release hi hphase hp hc
  | kept hacquire hleave hp hh => exact h.congr hp hh

/-- The server sends nothing but answers. -/
def Honest : Event → Prop
  | .unsolicited _ => False
  | _ => True

instance : DecidablePred Honest
  | .unsolicited _ => .isFalse id
  | .acquire .. | .exhausted _ | .send _ | .sendFails _ | .pop _ | .popFails _ | .waitThrows _
  | .leave _ | .answer .. | .readFrame | .readFails | .push | .pushFails | .cancel =>
    .isTrue trivial

/-- Nothing of an earlier request on this stream is left: none at the server, no answer on
the wire, in the receiver's hands or in the queue. -/
def Quiet (c : Connection) (id : Nat) : Prop :=
  (∀ r ∈ c.server, r.stream ≠ id) ∧ (∀ f ∈ c.wire, f.stream.toInt ≠ id) ∧
    (∀ f ∈ c.receiver.frames, f.stream.toInt ≠ id) ∧ c.queues id = none

/-- A stream id is taken only when the stream is quiet. -/
def FreshStream (c : Connection) : Event → Prop
  | .acquire _ id => c.Quiet id
  | _ => True

instance (c : Connection) (id : Nat) : Decidable (c.Quiet id) :=
  inferInstanceAs (Decidable (_ ∧ _))

instance (c : Connection) : (e : Event) → Decidable (c.FreshStream e)
  | .acquire _ id => inferInstanceAs (Decidable (c.Quiet id))
  | .unsolicited _ | .exhausted _ | .send _ | .sendFails _ | .pop _ | .popFails _ | .waitThrows _
  | .leave _ | .answer .. | .readFrame | .readFails | .push | .pushFails | .cancel =>
    .isTrue trivial

/-- Whoever holds the request's stream sent the request. -/
def Owned (c : Connection) (r : Request) : Prop :=
  r.stream < StreamPool.kMaxStreams ∧ ∀ i, c.Holds i r.stream → i = r.call

/-- The frame answers a request that is owned. -/
def Answers (c : Connection) (f : ResponseFrame) : Prop :=
  ∃ r raises, f = answerFrame r raises ∧ c.Owned r

/-- Requests and answers under way belong to the holders of their streams, and what a call
has popped or returned answers it. -/
structure Matching (c : Connection) : Prop where
  shared : c.StreamsShared
  server : ∀ r ∈ c.server, c.Owned r
  wire : ∀ f ∈ c.wire, c.Answers f
  receiver : ∀ f ∈ c.receiver.frames, c.Answers f
  queues : ∀ id f, c.queues id = some f → f.index = id ∧ c.Answers f
  popped : ∀ i id sent f, c.calls i = .inFlight id sent (.popped f) → f.request = some i
  returned : ∀ i f, c.calls i = .returned f → f.request = some i

private theorem matching_init : Matching init where
  shared := streamsShared_init
  server := by simp [init]
  wire := by simp [init]
  receiver := by simp [init, Receiver.frames]
  queues := by simp [init]
  popped := by simp [init]
  returned := by simp [init]

private theorem Owned.mono {c d : Connection} {r : Request} (h : c.Owned r)
    (hh : ∀ i, d.Holds i r.stream → c.Holds i r.stream) : d.Owned r :=
  ⟨h.1, fun i hi ↦ h.2 i (hh i hi)⟩

private theorem Answers.mono {c d : Connection} {f : ResponseFrame} (h : c.Answers f)
    (hh : ∀ i id, d.Holds i id → c.Holds i id) : d.Answers f := by
  obtain ⟨r, raises, hf, hr⟩ := h
  exact ⟨r, raises, hf, hr.mono (fun i ↦ hh i _)⟩

/-- The stream id survives the trip through its 16-bit field. -/
theorem answerFrame_stream (r : Request) (raises : Bool) (h : r.stream < StreamPool.kMaxStreams) :
    (answerFrame r raises).stream.toInt = r.stream := by
  have h' : r.stream < 2 ^ 15 := Nat.lt_of_lt_of_le h (by decide)
  change (BitVec.ofNat 16 r.stream).toInt = r.stream
  rw [BitVec.toInt_eq_toNat_of_lt (by rw [BitVec.toNat_ofNat]; omega), BitVec.toNat_ofNat,
    Nat.mod_eq_of_lt (by omega)]

/-- What is popped from the queue of a stream answers the call that holds the stream. -/
theorem Matching.pop {c : Connection} (h : c.Matching) {i id : Nat} {f : ResponseFrame}
    (hi : c.Holds i id) (hq : c.queues id = some f) : f.request = some i := by
  obtain ⟨hidx, r, raises, rfl, hr⟩ := h.queues id f hq
  rw [ResponseFrame.index, answerFrame_stream r raises hr.1, Int.toNat_natCast] at hidx
  rw [hr.2 i (hidx ▸ hi)]
  rfl

/-- A step that adds no holder keeps the matching when everything under way was under way
before, moved one place on, or is owned. -/
theorem Matching.advance {c d : Connection} (h : c.Matching) (hs : d.StreamsShared)
    (hh : ∀ i id, d.Holds i id → c.Holds i id)
    (hserver : ∀ r ∈ d.server, r ∈ c.server ∨ d.Owned r)
    (hwire : ∀ f ∈ d.wire, f ∈ c.wire ∨ d.Answers f)
    (hrecv : ∀ f ∈ d.receiver.frames, f ∈ c.receiver.frames ∨ f ∈ c.wire)
    (hq : ∀ id f, d.queues id = some f →
      c.queues id = some f ∨ (f.index = id ∧ f ∈ c.receiver.frames))
    (hp : ∀ i id sent f, d.calls i = .inFlight id sent (.popped f) →
      (∃ sent', c.calls i = .inFlight id sent' (.popped f)) ∨ (c.Holds i id ∧ c.queues id = some f))
    (hr : ∀ i f, d.calls i = .returned f →
      c.calls i = .returned f ∨ ∃ id sent, c.calls i = .inFlight id sent (.popped f)) :
    d.Matching where
  shared := hs
  server r hm := by
    rcases hserver r hm with hm | hm
    · exact (h.server r hm).mono (fun i ↦ hh i _)
    · exact hm
  wire f hm := by
    rcases hwire f hm with hm | hm
    · exact (h.wire f hm).mono hh
    · exact hm
  receiver f hm := by
    rcases hrecv f hm with hm | hm
    · exact (h.receiver f hm).mono hh
    · exact (h.wire f hm).mono hh
  queues id f hf := by
    rcases hq id f hf with hf | ⟨hidx, hf⟩
    · exact ⟨(h.queues id f hf).1, (h.queues id f hf).2.mono hh⟩
    · exact ⟨hidx, (h.receiver f hf).mono hh⟩
  popped i id sent f hc := by
    rcases hp i id sent f hc with ⟨sent', hc⟩ | ⟨hi, hf⟩
    · exact h.popped i id sent' f hc
    · exact h.pop hi hf
  returned i f hc := by
    rcases hr i f hc with hc | ⟨id, sent, hc⟩
    · exact h.returned i f hc
    · exact h.popped i id sent f hc

/-- Taking a quiet stream keeps the matching: nothing under way belongs to it. -/
theorem Matching.acquire {c d : Connection} (h : c.Matching) {i id : Nat}
    (hquiet : c.Quiet id) (hs : d.StreamsShared)
    (hc : d.calls = Function.update c.calls i (.inFlight id false .popping))
    (hserver : d.server = c.server) (hwire : d.wire = c.wire) (hrecv : d.receiver = c.receiver)
    (hq : d.queues = c.queues) : d.Matching := by
  obtain ⟨hsv, hw, hrc, hqid⟩ := hquiet
  have hheld : ∀ j k, d.Holds j k → k ≠ id → c.Holds j k := by
    intro j k hj hk
    rcases (holds_update hc).mp hj with ⟨-, sent, stage, hp⟩ | ⟨-, hj⟩
    · cases hp
      exact absurd rfl hk
    · exact hj
  have howned : ∀ r, c.Owned r → r.stream ≠ id → d.Owned r :=
    fun r hr hne ↦ hr.mono (fun j hj ↦ hheld j _ hj hne)
  have hans : ∀ f, c.Answers f → f.stream.toInt ≠ id → d.Answers f := by
    rintro f ⟨r, raises, rfl, hr⟩ hne
    rw [answerFrame_stream r raises hr.1] at hne
    exact ⟨r, raises, rfl, howned r hr (by omega)⟩
  refine ⟨hs, ?_, ?_, ?_, ?_, ?_, ?_⟩
  · intro r hr
    rw [hserver] at hr
    exact howned r (h.server r hr) (hsv r hr)
  · intro f hf
    rw [hwire] at hf
    exact hans f (h.wire f hf) (hw f hf)
  · intro f hf
    rw [hrecv] at hf
    exact hans f (h.receiver f hf) (hrc f hf)
  · intro k f hf
    rw [hq] at hf
    obtain ⟨hidx, ha⟩ := h.queues k f hf
    refine ⟨hidx, hans f ha ?_⟩
    intro he
    have hk : k = id := by
      rw [← hidx, ResponseFrame.index, he, Int.toNat_natCast]
    rw [hk, hqid] at hf
    cases hf
  · intro j k sent f hj
    rw [hc] at hj
    by_cases hji : j = i
    · subst hji
      simp at hj
    · rw [Function.update_of_ne hji] at hj
      exact h.popped j k sent f hj
  · intro j f hj
    rw [hc] at hj
    by_cases hji : j = i
    · subst hji
      simp at hj
    · rw [Function.update_of_ne hji] at hj
      exact h.returned j f hj

private theorem calls_update {c d : Connection} {i : Nat} {p : Phase}
    (hd : d.calls = Function.update c.calls i p) (j : Nat) :
    (j = i ∧ d.calls j = p) ∨ (j ≠ i ∧ d.calls j = c.calls j) := by
  rw [hd]
  by_cases hj : j = i
  · subst hj
    exact .inl ⟨rfl, Function.update_self ..⟩
  · exact .inr ⟨hj, Function.update_of_ne hj ..⟩

/-- One call moves on, from its own stage or with the frame at the head of its queue. -/
theorem Matching.move {c d : Connection} (h : c.Matching) {i : Nat} {p : Phase}
    (hs : d.StreamsShared) (hc : d.calls = Function.update c.calls i p)
    (hhold : ∀ id sent stage, p = .inFlight id sent stage → c.Holds i id)
    (hpop : ∀ id sent f, p = .inFlight id sent (.popped f) →
      (∃ sent', c.calls i = .inFlight id sent' (.popped f)) ∨ (c.Holds i id ∧ c.queues id = some f))
    (hret : ∀ f, p = .returned f → ∃ id sent, c.calls i = .inFlight id sent (.popped f))
    (hserver : ∀ r ∈ d.server, r ∈ c.server ∨ d.Owned r) (hwire : d.wire = c.wire)
    (hrecv : d.receiver = c.receiver)
    (hq : ∀ id f, d.queues id = some f → c.queues id = some f) : d.Matching := by
  refine h.advance hs ?_ hserver (fun f hf ↦ .inl (hwire ▸ hf)) (fun f hf ↦ .inl (hrecv ▸ hf))
    (fun id f hf ↦ .inl (hq id f hf)) ?_ ?_
  · intro j id hj
    rcases (holds_update hc).mp hj with ⟨rfl, sent, stage, hp⟩ | ⟨-, hj⟩
    · exact hhold id sent stage hp
    · exact hj
  · intro j id sent f hj
    rcases calls_update hc j with ⟨rfl, hp⟩ | ⟨-, hp⟩
    · exact hpop id sent f (hp ▸ hj)
    · exact .inl ⟨sent, hp ▸ hj⟩
  · intro j f hj
    rcases calls_update hc j with ⟨rfl, hp⟩ | ⟨-, hp⟩
    · exact .inr (hret f (hp ▸ hj))
    · exact .inl (hp ▸ hj)

/-- One call moves on and keeps its stream id. -/
theorem Matching.moveOn {c d : Connection} (h : c.Matching) {i id : Nat} {sent sent' : Bool}
    {stage stage' : Stage} (hi : c.calls i = .inFlight id sent stage) (hs : d.StreamsShared)
    (hc : d.calls = Function.update c.calls i (.inFlight id sent' stage'))
    (hpop : ∀ f, stage' = .popped f → stage = .popped f ∨ c.queues id = some f)
    (hserver : ∀ r ∈ d.server, r ∈ c.server ∨ d.Owned r) (hwire : d.wire = c.wire)
    (hrecv : d.receiver = c.receiver)
    (hq : ∀ id f, d.queues id = some f → c.queues id = some f) : d.Matching := by
  refine h.move hs hc ?_ ?_ (by simp) hserver hwire hrecv hq
  · intro k sent stage hp
    cases hp
    exact ⟨_, _, hi⟩
  · intro k sent f hp
    cases hp
    rcases hpop f rfl with rfl | hqueue
    · exact .inl ⟨_, hi⟩
    · exact .inr ⟨⟨_, _, hi⟩, hqueue⟩

/-- The server or the receiver moves a frame on; the calls stay as they are. -/
theorem Matching.receive {c d : Connection} (h : c.Matching) (hs : d.StreamsShared)
    (hc : d.calls = c.calls) (hserver : ∀ r ∈ d.server, r ∈ c.server)
    (hwire : ∀ f ∈ d.wire, f ∈ c.wire ∨ c.Answers f)
    (hrecv : ∀ f ∈ d.receiver.frames, f ∈ c.receiver.frames ∨ f ∈ c.wire)
    (hq : ∀ id f, d.queues id = some f →
      c.queues id = some f ∨ (f.index = id ∧ f ∈ c.receiver.frames)) : d.Matching := by
  have hh : ∀ i id, d.Holds i id → c.Holds i id := by
    intro i id hi
    rwa [Holds, hc] at hi
  refine h.advance hs hh (fun r hr ↦ .inl (hserver r hr)) ?_ hrecv hq
    (fun i id sent f hf ↦ .inl ⟨sent, hc ▸ hf⟩) (fun i f hf ↦ .inl (hc ▸ hf))
  intro f hf
  rcases hwire f hf with hf | hf
  · exact .inl hf
  · exact .inr (hf.mono hh)

private theorem Matching.update_queue {c : Connection} {id : Nat} (k : Nat) (f : ResponseFrame)
    (h : Function.update c.queues id none k = some f) : c.queues k = some f := by
  by_cases hk : k = id
  · subst hk
    simp at h
  · rwa [Function.update_of_ne hk] at h

/-- Every step that takes only quiet streams and whose peer only answers keeps the matching. -/
theorem Matching.step {c d : Connection} {e : Event} (h : c.Matching) (hhonest : Honest e)
    (hfresh : c.FreshStream e) (ht : Transition c e d) : d.Matching := by
  have hs := h.shared.step ht
  cases ht with
  | acquire hi hid => exact h.acquire hfresh hs rfl rfl rfl rfl rfl
  | exhausted hi =>
    exact h.move hs rfl (by simp) (by simp) (by simp) (fun r hr ↦ .inl hr) rfl rfl
      (fun _ _ hf ↦ hf)
  | @send i id stage hi =>
    have hown : c.Owned ⟨i, id⟩ :=
      ⟨h.shared.held_lt i id ⟨_, _, hi⟩,
        fun j hj ↦ h.shared.holder_unique j i id hj ⟨_, _, hi⟩⟩
    refine h.moveOn hi hs rfl (fun _ hf ↦ .inl hf) (fun r hr ↦ ?_) rfl rfl (fun _ _ hf ↦ hf)
    rcases List.mem_append.mp hr with hr | hr
    · exact .inl hr
    · rw [List.mem_singleton] at hr
      subst hr
      exact .inr (hown.mono (fun j ↦ ((holds_congr hi rfl) j id).mp))
  | sendFails hi =>
    exact h.moveOn hi hs rfl (fun _ hf ↦ .inl hf) (fun r hr ↦ .inl hr) rfl rfl (fun _ _ hf ↦ hf)
  | pop hi hq =>
    refine h.moveOn hi hs rfl (fun f hf ↦ .inr ?_) (fun r hr ↦ .inl hr) rfl rfl
      Matching.update_queue
    cases hf
    exact hq
  | popFails hi =>
    exact h.moveOn hi hs rfl (by simp) (fun r hr ↦ .inl hr) rfl rfl (fun _ _ hf ↦ hf)
  | waitThrows hi hst =>
    exact h.moveOn hi hs rfl (by simp) (fun r hr ↦ .inl hr) rfl rfl (fun _ _ hf ↦ hf)
  | @checked i id f hi =>
    refine h.move hs rfl ?_ ?_ ?_ (fun r hr ↦ .inl hr) rfl rfl (fun _ _ hf ↦ hf)
    · intro k sent stage hp
      split at hp <;> cases hp
    · intro k sent g hp
      split at hp <;> cases hp
    · intro g hp
      split at hp
      · cases hp
      · cases hp
        exact ⟨id, true, hi⟩
  | timedOut hi =>
    exact h.move hs rfl (by simp) (by simp) (by simp) (fun r hr ↦ .inl hr) rfl rfl
      (fun _ _ hf ↦ hf)
  | unwound hi =>
    exact h.move hs rfl (by simp) (by simp) (by simp) (fun r hr ↦ .inl hr) rfl rfl
      (fun _ _ hf ↦ hf)
  | @answer r raises hr =>
    refine h.receive hs rfl (fun q hq ↦ List.mem_of_mem_erase hq) ?_ (fun f hf ↦ .inl hf)
      (fun _ _ hf ↦ .inl hf)
    intro f hf
    rcases List.mem_append.mp hf with hf | hf
    · exact .inl hf
    · rw [List.mem_singleton] at hf
      exact .inr ⟨r, raises, hf, h.server r hr⟩
  | unsolicited => exact absurd hhonest id
  | skip hr hw hf =>
    exact h.receive hs rfl (fun _ hq ↦ hq) (fun f hf ↦ .inl (hw ▸ List.mem_cons_of_mem _ hf))
      (fun f hf ↦ .inl hf) (fun _ _ hf ↦ .inl hf)
  | outOfRange hr hw h0 hf =>
    exact h.receive hs rfl (fun _ hq ↦ hq) (fun f hf ↦ .inl (hw ▸ List.mem_cons_of_mem _ hf))
      (by simp [Receiver.frames]) (fun _ _ hf ↦ .inl hf)
  | readFrame hr hw h0 hf =>
    exact h.receive hs rfl (fun _ hq ↦ hq) (fun f hf ↦ .inl (hw ▸ List.mem_cons_of_mem _ hf))
      (by simp [Receiver.frames, hw]) (fun _ _ hf ↦ .inl hf)
  | readFails hr =>
    exact h.receive hs rfl (fun _ hq ↦ hq) (fun f hf ↦ .inl hf) (by simp [Receiver.frames])
      (fun _ _ hf ↦ .inl hf)
  | @push f hr hq =>
    refine h.receive hs rfl (fun _ hq ↦ hq) (fun f hf ↦ .inl hf) (by simp [Receiver.frames]) ?_
    intro k g hg
    change Function.update c.queues f.index (some f) k = some g at hg
    by_cases hk : k = f.index
    · subst hk
      rw [Function.update_self] at hg
      cases hg
      exact .inr ⟨rfl, by simp [hr, Receiver.frames]⟩
    · rw [Function.update_of_ne hk] at hg
      exact .inl hg
  | pushFails hr =>
    exact h.receive hs rfl (fun _ hq ↦ hq) (fun f hf ↦ .inl hf) (by simp [Receiver.frames])
      (fun _ _ hf ↦ .inl hf)
  | cancel hr =>
    exact h.receive hs rfl (fun _ hq ↦ hq) (fun f hf ↦ .inl hf) (by simp [Receiver.frames])
      (fun _ _ hf ↦ .inl hf)

/-- In every run in which streams are taken only when quiet, a call that returns a response
returns the server's answer to the very request it sent. -/
theorem returned_answers {c : Connection}
    (h : Reaches step (fun c e ↦ Honest e ∧ c.FreshStream e) init c) (i : Nat)
    (f : ResponseFrame) (hr : c.calls i = .returned f) : f.request = some i := by
  have hm : c.Matching := h.invariant matching_init
    (fun c e d hc hok hstep ↦ hc.step hok.1 hok.2 (transition_of_step hstep))
  exact hm.returned i f hr

/-- Two calls on stream 0, the first answered before the second begins. -/
def answeredRun : List Event :=
  [.acquire 0 0, .send 0, .answer ⟨0, 0⟩ false, .readFrame, .push, .pop 0, .leave 0,
   .acquire 1 0, .send 1, .answer ⟨1, 0⟩ false, .readFrame, .push, .pop 1, .leave 1]

/-- The second call on stream 0 returns its own answer. -/
theorem returned_answers_answeredRun :
    ∃ c f, Reaches step (fun c e ↦ Honest e ∧ c.FreshStream e) init c ∧
      c.calls 1 = .returned f ∧ f.request = some 1 := by
  obtain ⟨c, hc, hr⟩ := Reaches.exists_of_runIf step (fun c e ↦ Honest e ∧ c.FreshStream e)
    init answeredRun (fun c ↦ c.calls 1 = .returned ⟨0, some 1, false⟩) (by decide +kernel)
  exact ⟨c, _, hc, hr, returned_answers hc 1 _ hr⟩

/-- The first call gives up, its stream goes to the second, and then its answer arrives. -/
def lateAnswerRun : List Event :=
  [.acquire 0 0, .send 0, .popFails 0, .leave 0, .acquire 1 0, .send 1, .answer ⟨0, 0⟩ false,
   .readFrame, .push, .pop 1, .leave 1]

/-- On a stream that is not quiet the second call returns the answer to the first. -/
theorem lateAnswer_mismatched :
    ¬ ∀ c, Reaches step (fun _ e ↦ Honest e) init c →
      ∀ i f, c.calls i = .returned f → f.request = some i := by
  intro h
  obtain ⟨c, hc, hr⟩ := Reaches.exists_of_runIf step (fun _ e ↦ Honest e) init lateAnswerRun
    (fun c ↦ c.calls 1 = .returned ⟨0, some 0, false⟩) (by decide +kernel)
  exact absurd (h c hc 1 _ hr) (by decide)

/-- A receiver that left its loop uncancelled has marked the connection broken. -/
def ReceiverSeen (c : Connection) : Prop :=
  ∀ reason, c.receiver = .exited reason → reason ≠ .cancelled → c.broken = true

/-- The frame about to be read has no stream id at or above `kMaxStreams`, and no push of a
frame into its queue fails. -/
def Delivers (c : Connection) : Event → Prop
  | .readFrame => ∀ f ∈ c.wire.head?, f.stream.toInt < StreamPool.kMaxStreams
  | .pushFails => False
  | _ => True

instance (c : Connection) : (e : Event) → Decidable (c.Delivers e)
  | .readFrame =>
    inferInstanceAs (Decidable (∀ f ∈ c.wire.head?, f.stream.toInt < StreamPool.kMaxStreams))
  | .pushFails => .isFalse id
  | .acquire .. | .unsolicited _ | .exhausted _ | .send _ | .sendFails _ | .pop _ | .popFails _
  | .waitThrows _ | .leave _ | .answer .. | .readFails | .push | .cancel => .isTrue trivial

/-- Steps that leave the receiver alone and unmark nothing keep it seen. -/
theorem ReceiverSeen.congr {c d : Connection} (h : c.ReceiverSeen)
    (hr : d.receiver = c.receiver) (hb : c.broken = true → d.broken = true) :
    d.ReceiverSeen := by
  intro reason he hn
  rw [hr] at he
  exact hb (h reason he hn)

/-- A step that delivers keeps a dead receiver seen. -/
theorem ReceiverSeen.step {c d : Connection} {e : Event} (h : c.ReceiverSeen)
    (hok : c.Delivers e) (ht : Transition c e d) : d.ReceiverSeen := by
  cases ht with
  | acquire hi hid => exact h.congr rfl id
  | exhausted hi => exact h.congr rfl id
  | send hi => exact h.congr rfl id
  | sendFails hi => exact h.congr rfl id
  | pop hi hq => exact h.congr rfl id
  | popFails hi => exact h.congr rfl id
  | waitThrows hi hs => exact h.congr rfl id
  | checked hi => exact h.congr rfl id
  | timedOut hi => exact h.congr rfl (fun _ ↦ rfl)
  | unwound hi => exact h.congr rfl id
  | answer hr => exact h.congr rfl id
  | unsolicited => exact h.congr rfl id
  | skip hr hw hf => exact h.congr rfl id
  | @outOfRange f wire hr hw h0 hf =>
    have hlt := hok f (by rw [hw]; rfl)
    rw [ResponseFrame.index] at hf
    omega
  | readFrame hr hw h0 hf => exact fun reason he ↦ by cases he
  | readFails hr => exact fun _ _ _ ↦ rfl
  | push hr hq => exact fun reason he ↦ by cases he
  | pushFails hr => exact absurd hok id
  | cancel hr =>
    intro reason he hn
    cases he
    exact absurd rfl hn

/-- In every run in which each frame is delivered, a receiver that has exited uncancelled
left the connection broken. -/
theorem exited_broken {c : Connection} (h : Reaches step Delivers init c) : c.ReceiverSeen :=
  h.invariant (fun reason he ↦ by cases he)
    (fun _ _ _ hc hok hstep ↦ hc.step hok (transition_of_step hstep))

/-- A frame for a stream that no call can hold. -/
def foreignFrame : ResponseFrame := ⟨1024, none, false⟩

/-- A read that fails is seen. -/
theorem exited_broken_readFails :
    ∃ c, Reaches step Delivers init c ∧ c.receiver = .exited .readError ∧ c.broken = true := by
  obtain ⟨c, hc, hr⟩ := Reaches.exists_of_runIf step Delivers init
    [.unsolicited ⟨-1, none, false⟩, .readFrame, .readFails]
    (fun c ↦ c.receiver = .exited .readError) (by decide +kernel)
  exact ⟨c, hc, hr, exited_broken hc _ hr (by decide)⟩

/-- A frame for a stream that no call can hold ends the receiver unseen. -/
theorem foreignFrame_unseen :
    ¬ ∀ c, Reaches step (fun _ _ ↦ True) init c → c.ReceiverSeen := by
  intro h
  obtain ⟨c, hc, hr, hb⟩ := Reaches.exists_of_runIf step (fun _ _ ↦ True) init
    [.unsolicited foreignFrame, .readFrame]
    (fun c ↦ c.receiver = .exited .streamOutOfRange ∧ c.broken = false) (by decide +kernel)
  exact absurd (h c hc _ hr (by decide)) (by rw [hb]; decide)

end Connection
end CassandraDriver.Detail
