import CassandraDriver.Detail.ConnectionInvariants

/-!
# Stream ids with the types of the code

Library `Detail`. Models `src/detail/stream_pool.{hpp,cpp}` once more, with its machine
types: the queue holds `int`, a guard holds `int16_t`, and the number of used streams is a
difference of `size_t`. The pool runs beside a connection, whose calls construct a guard
when they enter `ExecuteMessageAsync` and destroy it on whichever path they leave, so every
interleaving of the connection's runs is one here.
-/

namespace CassandraDriver.Detail
open CassandraDriver.Lib

/-- The queue of a `StreamPool`, the live guards with the calls they stand in, and the ids
that `Release` could not push. -/
structure Streams where
  queue : List Int32
  guards : List (Nat × Int16)
  unreleased : List Int16
  deriving DecidableEq, Repr

namespace Streams

/-- `PushNoblock` into a queue of capacity `kMaxStreams`, which has no order. -/
def pushNoblock (queue : List Int32) (item : Int32) : Bool × List Int32 :=
  if queue.length < StreamPool.kMaxStreams then (true, item :: queue) else (false, queue)

/-- The queue after the first `n` rounds of the constructor's loop, `stream_pool.hpp:22`. -/
def fill (n : Nat) : List Int32 :=
  (List.range n).foldl (fun queue i ↦ (pushNoblock queue (Int16.ofNat i).toInt32).2) []

/-- `StreamPool::StreamPool`, `stream_pool.hpp:18`. -/
def init : Streams := ⟨fill StreamPool.kMaxStreams, [], []⟩

/-- `StreamGuard::StreamGuard` when `Pop` yields this item, `stream_pool.hpp:49`: `Acquire`
narrows it to `int16_t`. -/
def construct (s : Streams) (call : Nat) (item : Int32) : Option Streams :=
  if item ∈ s.queue then
    some { s with queue := s.queue.erase item, guards := (call, item.toInt16) :: s.guards }
  else none

/-- `StreamPool::Release`, `stream_pool.cpp:17`; a failed push is only logged. -/
def release (s : Streams) (id : Int16) : Streams :=
  if (pushNoblock s.queue id.toInt32).1 then
    { s with queue := (pushNoblock s.queue id.toInt32).2 }
  else { s with unreleased := id :: s.unreleased }

/-- `StreamGuard::~StreamGuard` of the guard in this call, `stream_pool.hpp:55`. -/
def destroy (s : Streams) (call : Nat) : Streams :=
  match s.guards.find? (fun guard ↦ guard.1 == call) with
  | none => s
  | some guard => { s.release guard.2 with guards := s.guards.erase guard }

/-- `GetRemainingStreams`, `stream_pool.hpp:30`. -/
def getRemainingStreams (s : Streams) : UInt64 := UInt64.ofNat s.queue.length

/-- `GetUsedStreams`, `stream_pool.hpp:33`, a difference of `size_t`. -/
def getUsedStreams (s : Streams) : UInt64 :=
  UInt64.ofNat StreamPool.kMaxStreams - s.getRemainingStreams

/-- The ids of the live guards. -/
def held (s : Streams) : List Int16 := s.guards.map Prod.snd

/-- Every id as an item of the queue. -/
def allItems : List Int32 := (List.range StreamPool.kMaxStreams).map Int32.ofNat

/-- The ids of the guards and those in the queue are all ids, each once, and every release
has pushed its id. -/
structure Conserved (s : Streams) : Prop where
  perm : (s.held.map Int16.toInt32 ++ s.queue).Perm allItems
  released : s.unreleased = []

/-- Both integer types hold every id. -/
theorem toInt32_ofNat {n : Nat} (hn : n < StreamPool.kMaxStreams) :
    (Int16.ofNat n).toInt32 = Int32.ofNat n := by
  apply Int16.toInt32_ofNat'
  change (n : Int) ≤ 32767
  change n < 1024 at hn
  omega

/-- The narrowing of an id keeps its value. -/
theorem toInt32_toInt16 {item : Int32} (h : item ∈ allItems) : item.toInt16.toInt32 = item := by
  obtain ⟨n, hn, rfl⟩ := List.mem_map.mp h
  rw [Int32.toInt16_ofNat', toInt32_ofNat (List.mem_range.mp hn)]

private theorem length_allItems : allItems.length = StreamPool.kMaxStreams := by
  rw [allItems, List.length_map, List.length_range]

/-- The values of the items are the ids. -/
theorem toInt_allItems :
    allItems.map Int32.toInt = (List.range StreamPool.kMaxStreams).map Int.ofNat := by
  rw [allItems, List.map_map]
  apply List.map_congr_left
  intro n hn
  have hlt : n < 1024 := List.mem_range.mp hn
  exact Int32.toInt_ofNat_of_lt (by omega)

private theorem fill_perm {n : Nat} (hn : n ≤ StreamPool.kMaxStreams) :
    (fill n).Perm ((List.range n).map Int32.ofNat) := by
  induction n with
  | zero => exact .refl _
  | succ n ih =>
    have hfill := ih (by omega)
    have hroom : (fill n).length < StreamPool.kMaxStreams := by
      rw [hfill.length_eq, List.length_map, List.length_range]
      omega
    have hnext : fill (n + 1) = Int32.ofNat n :: fill n := by
      rw [fill, List.range_succ, List.foldl_append, List.foldl_cons, List.foldl_nil]
      change (pushNoblock (fill n) _).2 = _
      rw [pushNoblock, if_pos hroom, toInt32_ofNat (by omega)]
    rw [hnext, List.range_succ, List.map_append, List.map_singleton]
    exact (hfill.cons _).trans (List.perm_append_singleton _ _).symm

private theorem queue_init : init.queue = fill StreamPool.kMaxStreams := by simp only [init]

/-- The constructor pushes every id. -/
theorem queue_init_perm : init.queue.Perm allItems := by
  rw [queue_init, allItems]
  exact fill_perm (Nat.le_refl StreamPool.kMaxStreams)

private theorem guards_init : init.guards = [] := by rw [init]

private theorem conserved_init : Conserved init where
  perm := by
    rw [held, guards_init, List.map_nil, List.map_nil, List.nil_append]
    exact queue_init_perm
  released := by rw [init]

namespace Conserved

variable {s : Streams}

private theorem length_eq (h : s.Conserved) :
    s.guards.length + s.queue.length = StreamPool.kMaxStreams := by
  have hlength := h.perm.length_eq
  rwa [List.length_append, List.length_map, held, List.length_map, length_allItems] at hlength

/-- A guard that is constructed moves an id from the queue to the guards. -/
theorem construct (h : s.Conserved) {s' : Streams} {call : Nat} {item : Int32}
    (hs : s.construct call item = some s') : s'.Conserved := by
  obtain ⟨hitem, rfl⟩ := Option.ite_some_none_eq_some.mp hs
  refine ⟨?_, h.released⟩
  have hexact : item.toInt16.toInt32 = item :=
    toInt32_toInt16 (h.perm.subset (List.mem_append_right _ hitem))
  change ((item.toInt16.toInt32 :: s.held.map Int16.toInt32) ++ s.queue.erase item).Perm _
  rw [hexact]
  have hmove : (item :: s.held.map Int16.toInt32 ++ s.queue.erase item).Perm
      (s.held.map Int16.toInt32 ++ s.queue) :=
    List.perm_middle.symm.trans ((List.perm_cons_erase hitem).symm.append_left _)
  exact hmove.trans h.perm

/-- While a guard lives the queue has room for its id. -/
theorem pushNoblock_eq (h : s.Conserved) {guard : Nat × Int16} (hguard : guard ∈ s.guards) :
    pushNoblock s.queue guard.2.toInt32 = (true, guard.2.toInt32 :: s.queue) := by
  have hroom : s.queue.length < StreamPool.kMaxStreams := by
    have hlength := h.length_eq
    have hpos := List.length_pos_of_mem hguard
    omega
  rw [pushNoblock, if_pos hroom]

/-- What the destructor of a live guard does. -/
theorem destroy_eq (h : s.Conserved) {guard : Nat × Int16} {call : Nat}
    (hfind : s.guards.find? (fun guard ↦ guard.1 == call) = some guard) :
    s.destroy call =
      { s with queue := guard.2.toInt32 :: s.queue, guards := s.guards.erase guard } := by
  have hpush := h.pushNoblock_eq (List.mem_of_find?_eq_some hfind)
  rw [destroy, hfind]
  simp only [release, hpush, if_true]

/-- A guard that is destroyed gives its id back to the queue. -/
theorem destroy (h : s.Conserved) (call : Nat) : (s.destroy call).Conserved := by
  cases hfind : s.guards.find? (fun guard ↦ guard.1 == call) with
  | none =>
    rw [Streams.destroy, hfind]
    exact h
  | some guard =>
    rw [h.destroy_eq hfind]
    refine ⟨?_, h.released⟩
    have hguards := List.perm_cons_erase (List.mem_of_find?_eq_some hfind)
    have hheld : (s.held.map Int16.toInt32).Perm
        (guard.2.toInt32 :: ((s.guards.erase guard).map Prod.snd).map Int16.toInt32) :=
      (hguards.map Prod.snd).map Int16.toInt32
    have hmove := List.perm_middle.trans (hheld.symm.append_right s.queue)
    exact hmove.trans h.perm

/-- The values of the ids, held and queued. -/
theorem ids_perm (h : s.Conserved) :
    (s.held.map Int16.toInt ++ s.queue.map Int32.toInt).Perm
      ((List.range StreamPool.kMaxStreams).map Int.ofNat) := by
  have hheld : s.held.map Int16.toInt = (s.held.map Int16.toInt32).map Int32.toInt := by
    simp
  rw [hheld, ← List.map_append, ← toInt_allItems]
  exact h.perm.map Int32.toInt

private theorem held_nodup (h : s.Conserved) : s.held.Nodup := by
  have hall := h.ids_perm.nodup_iff.mpr (List.nodup_range.map Int.ofNat_injective)
  exact List.Nodup.of_map Int16.toInt (List.nodup_append.mp hall).1

private theorem held_range (h : s.Conserved) (id : Int16) (hid : id ∈ s.held) :
    0 ≤ id.toInt ∧ id.toInt < StreamPool.kMaxStreams := by
  have hmem : id.toInt ∈ (List.range StreamPool.kMaxStreams).map Int.ofNat :=
    h.ids_perm.subset (List.mem_append_left _ (List.mem_map_of_mem hid))
  obtain ⟨n, hn, hvalue⟩ := List.mem_map.mp hmem
  have hlt := List.mem_range.mp hn
  change (n : Int) = _ at hvalue
  omega

/-- The difference of `size_t` does not wrap. -/
theorem used_eq (h : s.Conserved) : s.getUsedStreams.toNat = s.guards.length := by
  have hlength := h.length_eq
  change _ = 1024 at hlength
  have hremaining : s.getRemainingStreams.toNat = s.queue.length := by
    rw [getRemainingStreams, UInt64.toNat_ofNat_of_lt']
    change s.queue.length < 18446744073709551616
    omega
  have htotal : (UInt64.ofNat StreamPool.kMaxStreams).toNat = 1024 := rfl
  have hle : s.getRemainingStreams ≤ UInt64.ofNat StreamPool.kMaxStreams := by
    rw [UInt64.le_iff_toNat_le, hremaining, htotal]
    omega
  rw [getUsedStreams, UInt64.toNat_sub_of_le _ _ hle, hremaining, htotal]
  omega

end Conserved

end Streams

/-- A connection together with its `StreamPool` and the guards of its calls. -/
structure Guarded where
  connection : Connection
  streams : Streams

namespace Guarded

/-- After `StartReceiverLoop`. -/
def init : Guarded := ⟨.init, .init⟩

/-- One step of the connection with what its calls do to the pool, `connection_impl.cpp:180`:
a call that gets an id has constructed a guard, a call that leaves destroys it. A
constructor that throws leaves no guard. -/
def step (g : Guarded) (e : Event) : Option Guarded :=
  match g.connection.step e, e with
  | none, _ => none
  | some connection, .acquire i id =>
    (g.streams.construct i (Int32.ofNat id)).map (fun streams ↦ ⟨connection, streams⟩)
  | some connection, .leave i => some ⟨connection, g.streams.destroy i⟩
  | some connection, _ => some ⟨connection, g.streams⟩

/-- The guards are those of the calls in flight, with the ids that these hold, and the
queue is the pool of the connection. -/
structure Mirrors (g : Guarded) : Prop where
  queue : g.streams.queue.Perm (g.connection.streamPool.queue.map Int32.ofNat)
  guards : ∀ i id, (i, id) ∈ g.streams.guards ↔
    ∃ stream, g.connection.Holds i stream ∧ id = Int16.ofNat stream
  calls : (g.streams.guards.map Prod.fst).Nodup

/-- What holds of a connection and its stream ids in every state reached. -/
structure Inv (g : Guarded) : Prop where
  shared : g.connection.StreamsShared
  conserved : g.streams.Conserved
  mirrors : g.Mirrors

private theorem streams_init : init.streams = Streams.init := by rw [init]

private theorem connection_init : init.connection = Connection.init := by rw [init]

private theorem inv_init : Inv init := by
  have hqueue : Connection.init.streamPool.queue = List.range StreamPool.kMaxStreams := by
    simp only [Connection.init, StreamPool.init]
  refine ⟨?_, ?_, ?_, fun i id ↦ ?_, ?_⟩
  · rw [connection_init]
    exact Connection.streamsShared_init
  · rw [streams_init]
    exact Streams.conserved_init
  · rw [streams_init, connection_init, hqueue]
    exact Streams.queue_init_perm
  · rw [streams_init, connection_init, Streams.guards_init]
    simp only [List.not_mem_nil, false_iff]
    rintro ⟨stream, ⟨sent, stage, h⟩, -⟩
    cases h
  · rw [streams_init, Streams.guards_init]
    exact List.nodup_nil

/-- What a step does to the connection and to the pool. -/
theorem step_cases {g g' : Guarded} {e : Event} (h : g.step e = some g') :
    g.connection.step e = some g'.connection ∧
      ((∃ i id, e = .acquire i id ∧
          g.streams.construct i (Int32.ofNat id) = some g'.streams) ∨
        (∃ i, e = .leave i ∧ g'.streams = g.streams.destroy i) ∨
        ((∀ i id, e ≠ .acquire i id) ∧ (∀ i, e ≠ .leave i) ∧ g'.streams = g.streams)) := by
  unfold step at h
  split at h
  · cases h
  · next connection i id hc =>
    obtain ⟨streams, hs, rfl⟩ := Option.map_eq_some_iff.mp h
    exact ⟨hc, .inl ⟨i, id, rfl, hs⟩⟩
  · next connection i hc =>
    cases h
    exact ⟨hc, .inr (.inl ⟨i, rfl, rfl⟩)⟩
  · next connection hacquire hleave hc =>
    cases h
    exact ⟨hc, .inr (.inr ⟨hacquire, hleave, rfl⟩)⟩

namespace Mirrors

variable {g : Guarded}

/-- The guard of a call is found under its name. -/
theorem find_guard (h : g.Mirrors) {i stream : Nat} (hi : g.connection.Holds i stream) :
    g.streams.guards.find? (fun guard ↦ guard.1 == i) = some (i, Int16.ofNat stream) := by
  have hmem : (i, Int16.ofNat stream) ∈ g.streams.guards :=
    (h.guards i _).mpr ⟨stream, hi, rfl⟩
  cases hfind : g.streams.guards.find? (fun guard ↦ guard.1 == i) with
  | none => exact absurd (List.find?_eq_none.mp hfind _ hmem) (by simp)
  | some guard =>
    have hcall : guard.1 = i := by simpa using List.find?_some hfind
    have hsame := List.inj_on_of_nodup_map h.calls (List.mem_of_find?_eq_some hfind) hmem hcall
    rw [hsame]

/-- An id that the connection's pool offers is in the queue. -/
theorem mem_queue (h : g.Mirrors) {id : Nat} (hid : id ∈ g.connection.streamPool.queue) :
    Int32.ofNat id ∈ g.streams.queue :=
  h.queue.mem_iff.mpr (List.mem_map_of_mem hid)

/-- The live guards are those of the calls in flight. -/
theorem mem_calls (h : g.Mirrors) (i : Nat) :
    i ∈ g.streams.guards.map Prod.fst ↔ ∃ stream, g.connection.Holds i stream := by
  rw [List.mem_map]
  constructor
  · rintro ⟨⟨j, id⟩, hmem, rfl⟩
    obtain ⟨stream, hj, -⟩ := (h.guards j id).mp hmem
    exact ⟨stream, hj⟩
  · rintro ⟨stream, hi⟩
    exact ⟨_, (h.guards i _).mpr ⟨stream, hi, rfl⟩, rfl⟩

private theorem taken (h : g.Mirrors) {g' : Guarded} {i id : Nat}
    (hi : g.connection.calls i = .idle) (hid : id ∈ g.connection.streamPool.queue)
    (hp : g'.connection.streamPool = ⟨g.connection.streamPool.queue.erase id⟩)
    (hc : g'.connection.calls = Function.update g.connection.calls i (.inFlight id false .popping))
    (hs : g.streams.construct i (Int32.ofNat id) = some g'.streams) : g'.Mirrors := by
  obtain ⟨-, hs⟩ := Option.ite_some_none_eq_some.mp hs
  have hfree : ∀ k, (i, k) ∉ g.streams.guards := by
    intro k hk
    obtain ⟨stream, ⟨sent, stage, hi'⟩, -⟩ := (h.guards i k).mp hk
    rw [hi] at hi'
    cases hi'
  refine ⟨?_, fun j k ↦ ?_, ?_⟩
  · rw [← hs, hp]
    have hpool := (List.perm_cons_erase hid).map Int32.ofNat
    have herase := (h.queue.trans hpool).erase (Int32.ofNat id)
    rwa [List.map_cons, List.erase_cons_head] at herase
  · rw [← hs, Int32.toInt16_ofNat']
    simp only [List.mem_cons, Prod.mk.injEq, h.guards, Connection.holds_update hc]
    constructor
    · rintro (⟨rfl, rfl⟩ | ⟨stream, hj, rfl⟩)
      · exact ⟨id, .inl ⟨rfl, false, .popping, rfl⟩, rfl⟩
      · refine ⟨stream, .inr ⟨?_, hj⟩, rfl⟩
        rintro rfl
        exact hfree _ ((h.guards j _).mpr ⟨stream, hj, rfl⟩)
    · rintro ⟨stream, ⟨rfl, sent, stage, hphase⟩ | ⟨-, hj⟩, rfl⟩
      · cases hphase
        exact .inl ⟨rfl, rfl⟩
      · exact .inr ⟨stream, hj, rfl⟩
  · rw [← hs, List.map_cons, List.nodup_cons]
    refine ⟨?_, h.calls⟩
    rw [List.mem_map]
    rintro ⟨⟨j, k⟩, hm, rfl⟩
    exact hfree k hm

private theorem given (h : g.Mirrors) (hshared : g.connection.StreamsShared)
    (hconserved : g.streams.Conserved) {g' : Guarded} {i id : Nat} {p : Phase}
    (hi : g.connection.Holds i id) (hphase : ∀ k sent stage, p ≠ .inFlight k sent stage)
    (hp : g'.connection.streamPool = g.connection.streamPool.release id)
    (hc : g'.connection.calls = Function.update g.connection.calls i p)
    (hs : g'.streams = g.streams.destroy i) : g'.Mirrors := by
  have hfind := h.find_guard hi
  have hguards : g.streams.guards.Nodup := List.Nodup.of_map Prod.fst h.calls
  rw [hconserved.destroy_eq hfind, Streams.toInt32_ofNat (hshared.held_lt i id hi)] at hs
  refine ⟨?_, fun j k ↦ ?_, ?_⟩
  · rw [hs, hp, Connection.release_queue hshared hi]
    exact h.queue.cons _
  · rw [hs]
    simp only [hguards.mem_erase_iff, h.guards, Connection.holds_update hc, ne_eq, Prod.mk.injEq,
      not_and]
    constructor
    · rintro ⟨hne, stream, hj, rfl⟩
      refine ⟨stream, .inr ⟨?_, hj⟩, rfl⟩
      rintro rfl
      obtain ⟨sent, stage, hi⟩ := hi
      obtain ⟨sent', stage', hj⟩ := hj
      rw [hi] at hj
      cases hj
      exact hne rfl rfl
    · rintro ⟨stream, ⟨-, sent, stage, hinFlight⟩ | ⟨hji, hj⟩, rfl⟩
      · exact absurd hinFlight (hphase stream sent stage)
      · exact ⟨fun h ↦ absurd h hji, stream, hj, rfl⟩
  · rw [hs]
    exact (List.erase_sublist.map Prod.fst).nodup h.calls

end Mirrors

/-- Every step of the connection and its pool keeps the invariant. -/
theorem Inv.step {g g' : Guarded} {e : Event} (h : g.Inv) (hstep : g.step e = some g') :
    g'.Inv := by
  obtain ⟨hc, hpool⟩ := step_cases hstep
  have ht := Connection.transition_of_step hc
  have hshared := h.shared.step ht
  cases Connection.streamMove_of_transition ht with
  | @taken i id _ hi hid hp hcalls =>
    rcases hpool with ⟨j, k, he, hs⟩ | ⟨j, he, -⟩ | ⟨hacquire, -, -⟩
    · cases he
      exact ⟨hshared, h.conserved.construct hs, h.mirrors.taken hi hid hp hcalls hs⟩
    · cases he
    · exact absurd rfl (hacquire i id)
  | @given i id p _ hi hphase hp hcalls =>
    rcases hpool with ⟨j, k, he, -⟩ | ⟨j, he, hs⟩ | ⟨-, hleave, -⟩
    · cases he
    · cases he
      refine ⟨hshared, ?_, h.mirrors.given h.shared h.conserved hi hphase hp hcalls hs⟩
      rw [hs]
      exact h.conserved.destroy i
    · exact absurd rfl (hleave i)
  | kept hacquire hleave hp hh =>
    rcases hpool with ⟨j, k, he, -⟩ | ⟨j, he, -⟩ | ⟨-, -, hs⟩
    · exact absurd he (hacquire j k)
    · exact absurd he (hleave j)
    · refine ⟨hshared, hs ▸ h.conserved, ?_, fun i id ↦ ?_, hs ▸ h.mirrors.calls⟩
      · rw [hs, hp]
        exact h.mirrors.queue
      · rw [hs, h.mirrors.guards]
        simp only [hh]

/-- The pool never keeps the connection from a step. -/
theorem Inv.step_of_connection {g : Guarded} {e : Event} {c : Connection} (h : g.Inv)
    (hc : g.connection.step e = some c) : ∃ streams, g.step e = some ⟨c, streams⟩ := by
  cases e with
  | acquire i id =>
    cases Connection.streamMove_of_transition (Connection.transition_of_step hc) with
    | taken hi hid hp hcalls =>
      have hmem := h.mirrors.mem_queue hid
      have hs : ∃ streams, g.streams.construct i (Int32.ofNat id) = some streams :=
        ⟨_, if_pos hmem⟩
      obtain ⟨streams, hs⟩ := hs
      exact ⟨streams, by simp only [Guarded.step, hc, hs, Option.map_some]⟩
    | kept hacquire hleave hp hh => exact absurd rfl (hacquire i id)
  | leave i => exact ⟨g.streams.destroy i, by simp only [Guarded.step, hc]⟩
  | _ => exact ⟨g.streams, by simp only [Guarded.step, hc]⟩

private theorem inv_of_reaches {g : Guarded} (h : Reaches step (fun _ _ ↦ True) init g) : g.Inv :=
  h.invariant inv_init (fun _ _ _ hg _ hstep ↦ hg.step hstep)

/-- Every run of the connection is a run with its pool. -/
theorem exists_of_connection {c : Connection}
    (h : Reaches Connection.step (fun _ _ ↦ True) Connection.init c) :
    ∃ g, Reaches step (fun _ _ ↦ True) init g ∧ g.connection = c := by
  induction h with
  | init => exact ⟨init, .init, connection_init⟩
  | step _ _ hstep ih =>
    obtain ⟨g, hg, rfl⟩ := ih
    obtain ⟨streams, hs⟩ := (inv_of_reaches hg).step_of_connection hstep
    exact ⟨_, hg.step trivial hs, rfl⟩

/-- Whatever the calls of a connection do, the ids of the live guards differ from each other
and lie in range, they and the ids in the queue are all ids without repetition, no release
has failed or can fail, and the used streams are the live guards, which are those of the
calls in flight. The pool takes part in every run of the connection. -/
theorem streams_conserved {g : Guarded} (h : Reaches step (fun _ _ ↦ True) init g) :
    (g.streams.held.Nodup ∧ ∀ id ∈ g.streams.held, 0 ≤ id.toInt ∧ id.toInt < 1024) ∧
    (g.streams.held.map Int16.toInt ++ g.streams.queue.map Int32.toInt).Perm
      ((List.range 1024).map Int.ofNat) ∧
    (g.streams.unreleased = [] ∧ ∀ id ∈ g.streams.held,
      (Streams.pushNoblock g.streams.queue id.toInt32).1 = true) ∧
    (g.streams.queue.length ≤ 1024 ∧
      g.streams.getUsedStreams.toNat = g.streams.guards.length) ∧
    ((g.streams.guards.map Prod.fst).Nodup ∧
      ∀ i, i ∈ g.streams.guards.map Prod.fst ↔ ∃ stream, g.connection.Holds i stream) ∧
    ∀ e c, g.connection.step e = some c → ∃ streams, g.step e = some ⟨c, streams⟩ := by
  have hinv := inv_of_reaches h
  refine ⟨⟨hinv.conserved.held_nodup, hinv.conserved.held_range⟩, hinv.conserved.ids_perm,
    ⟨hinv.conserved.released, ?_⟩, ⟨?_, hinv.conserved.used_eq⟩, ⟨hinv.mirrors.calls, ?_⟩, ?_⟩
  · intro id hid
    obtain ⟨guard, hguard, rfl⟩ := List.mem_map.mp hid
    rw [hinv.conserved.pushNoblock_eq hguard]
  · have hlength := hinv.conserved.length_eq
    change _ = 1024 at hlength
    omega
  · exact hinv.mirrors.mem_calls
  · intro e c hc
    exact hinv.step_of_connection hc

/-- A call that times out, one that finds no id in time, and one that still waits. -/
def mixedRun : List Event :=
  [.acquire 0 5, .acquire 2 0, .exhausted 1, .sendFails 0, .send 2, .popFails 0, .leave 0]

/-- One call has thrown, another waits, and no id is lost. -/
theorem streams_conserved_mixedRun :
    ∃ g, Reaches step (fun _ _ ↦ True) init g ∧ g.connection.calls 0 = .threw ∧
      2 ∈ g.streams.guards.map Prod.fst ∧ 0 < g.streams.getUsedStreams.toNat ∧
      g.streams.unreleased = [] := by
  obtain ⟨c, hc, hthrew, hwaits⟩ := Reaches.exists_of_runIf Connection.step (fun _ _ ↦ True)
    Connection.init mixedRun
    (fun c ↦ c.calls 0 = .threw ∧ c.calls 2 = .inFlight 0 true .popping) (by decide +kernel)
  obtain ⟨g, hg, rfl⟩ := exists_of_connection hc
  obtain ⟨-, -, hreleased, hused, hguards, -⟩ := streams_conserved hg
  have hlive := (hguards.2 2).mpr ⟨0, true, .popping, hwaits⟩
  refine ⟨g, hg, hthrew, hlive, ?_, hreleased.1⟩
  rw [hused.2, ← List.length_map Prod.fst]
  exact List.length_pos_of_mem hlive

end Guarded
end CassandraDriver.Detail
