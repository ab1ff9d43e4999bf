import Mathlib.Data.List.Nodup
import CassandraDriver.Detail.Pool
import CassandraDriver.Lib.FirstMin

/-!
# `Acquire` in one piece

Library `Detail`. Models `ConnectionPool::Acquire` (`src/detail/connection_pool.cpp:266`) as a
function of the vector, while the connections stay as they are: the loop that erases from the
vector it iterates over, with what it deletes, and the loop that selects. The steps of the
pool under its lock get from the state behind `Lock` to what the function computes.
-/

namespace CassandraDriver.Detail
open CassandraDriver.Lib

/-- What `Acquire` leaves in the vector, what it has deleted, in this order, and what it
returns. -/
structure Acquisition where
  vector : List Nat
  deleted : List Nat
  returned : Option Nat
  deriving DecidableEq, Repr

namespace ConnectionPool

/-- The first loop, `connection_pool.cpp:274–286`, from the iterator `it` on: `erase` moves what
follows to the place of the erased pointer, where the iterator stays. -/
def sweepFrom (conns : Nat → PoolConnection) (vector deleted : List Nat) (it : Nat) :
    List Nat × List Nat :=
  if h : it < vector.length then
    if (conns vector[it]).broken then
      sweepFrom conns (vector.eraseIdx it) (deleted ++ [vector[it]]) it
    else if (conns vector[it]).expired && (conns vector[it]).isIdle then
      sweepFrom conns (vector.eraseIdx it) (deleted ++ [vector[it]]) it
    else sweepFrom conns vector deleted (it + 1)
  else (vector, deleted)
termination_by vector.length - it
decreasing_by
  · rw [List.length_eraseIdx_of_lt h]
    omega
  · rw [List.length_eraseIdx_of_lt h]
    omega
  · omega

/-- `ConnectionPool::Acquire`. -/
def acquire (conns : Nat → PoolConnection) (deadlineReached : Bool) (vector : List Nat) :
    Acquisition :=
  if deadlineReached then ⟨vector, [], none⟩
  else
    let (swept, deleted) := sweepFrom conns vector [] 0
    ⟨swept, deleted, swept.foldl (Pool.lessLoaded conns) none⟩

section Loops
variable (conns : Nat → PoolConnection)

/-- Neither broken nor both expired and idle. -/
def survivors (vector : List Nat) : List Nat := vector.filter (fun c ↦ !(conns c).isDoomed)

/-- Broken, or expired and idle. -/
def doomed (vector : List Nat) : List Nat := vector.filter (fun c ↦ (conns c).isDoomed)

/-- The connections that may get new requests. -/
def eligible (vector : List Nat) : List Nat := vector.filter (fun c ↦ !(conns c).expired)

/-- One round of the first loop, at the pointer behind those that it has kept. -/
theorem sweepFrom_cons (kept rest deleted : List Nat) (c : Nat) :
    sweepFrom conns (kept ++ c :: rest) deleted kept.length =
      if (conns c).isDoomed then sweepFrom conns (kept ++ rest) (deleted ++ [c]) kept.length
      else sweepFrom conns (kept ++ c :: rest) deleted (kept.length + 1) := by
  have hat : ∀ h : kept.length < (kept ++ c :: rest).length,
      (kept ++ c :: rest)[kept.length] = c := by simp
  rw [sweepFrom, dif_pos (by simp), hat, Pool.eraseIdx_at]
  cases hbroken : (conns c).broken with
  | true => simp [PoolConnection.isDoomed, hbroken]
  | false => simp [PoolConnection.isDoomed, hbroken]

/-- The loop keeps the survivors of what it has not passed yet and deletes the others. -/
theorem sweepFrom_append (kept rest deleted : List Nat) :
    sweepFrom conns (kept ++ rest) deleted kept.length =
      (kept ++ survivors conns rest, deleted ++ doomed conns rest) := by
  induction rest generalizing kept deleted with
  | nil =>
    rw [sweepFrom, dif_neg (by simp)]
    simp [survivors, doomed]
  | cons c rest ih =>
    rw [sweepFrom_cons]
    cases hdoomed : (conns c).isDoomed with
    | true =>
      rw [if_pos rfl, ih]
      simp [survivors, doomed, hdoomed]
    | false =>
      have hpassed : kept ++ c :: rest = (kept ++ [c]) ++ rest := by simp
      have hlength : kept.length + 1 = (kept ++ [c]).length := by simp
      rw [if_neg Bool.false_ne_true, hpassed, hlength, ih]
      simp [survivors, doomed, hdoomed]

/-- The selection loop finds the first minimum of the eligible connections. -/
theorem foldl_lessLoaded (vector : List Nat) :
    vector.foldl (Pool.lessLoaded conns) none =
      firstMin (fun c ↦ (conns c).usedStreams) (eligible conns vector) := by
  rw [firstMin, eligible, List.foldl_filter]
  apply List.foldl_ext
  intro best c _
  cases hexpired : (conns c).expired with
  | true => simp [Pool.lessLoaded, hexpired]
  | false =>
    simp only [Pool.lessLoaded, hexpired, Bool.false_eq_true, if_false, Bool.not_false, if_true]
    cases best with
    | none => rfl
    | some b => rfl

/-- `Acquire` before its deadline. -/
theorem acquire_eq (vector : List Nat) :
    acquire conns false vector = ⟨survivors conns vector, doomed conns vector,
      firstMin (fun c ↦ (conns c).usedStreams) (eligible conns (survivors conns vector))⟩ := by
  have hswept := sweepFrom_append conns [] vector []
  simp only [List.nil_append, List.length_nil] at hswept
  simp only [acquire, Bool.false_eq_true, if_false, hswept, foldl_lessLoaded]

end Loops

/-- Before its deadline `Acquire` leaves in the vector those that are neither broken nor both
expired and idle, in their order, has deleted each of the others once, and returns the first
of the least loaded that have not expired, or null if all have. -/
theorem acquire_correct (conns : Nat → PoolConnection) (vector : List Nat) :
    ((acquire conns false vector).vector = vector.filter (fun c ↦
        !((conns c).broken || ((conns c).expired && (conns c).isIdle)))) ∧
    ((acquire conns false vector).deleted = vector.filter (fun c ↦
        (conns c).broken || ((conns c).expired && (conns c).isIdle)) ∧
      (vector.Nodup → ∀ c ∈ vector, c ∉ (acquire conns false vector).vector →
        (acquire conns false vector).deleted.count c = 1)) ∧
    ((acquire conns false vector).returned = none ↔
      ∀ c ∈ (acquire conns false vector).vector, (conns c).expired = true) ∧
    ∀ c, (acquire conns false vector).returned = some c →
      ∃ before after, eligible conns (acquire conns false vector).vector = before ++ c :: after ∧
        (∀ d ∈ before, (conns c).usedStreams < (conns d).usedStreams) ∧
        ∀ d ∈ after, (conns c).usedStreams ≤ (conns d).usedStreams := by
  rw [acquire_eq]
  refine ⟨rfl, ⟨rfl, fun hnodup c hc hgone ↦ ?_⟩, ?_, fun c hc ↦ firstMin_split hc⟩
  · have hdoomed : c ∈ doomed conns vector := by
      simp only [survivors, List.mem_filter, hc, true_and, Bool.not_eq_true', Bool.not_eq_false]
        at hgone
      exact List.mem_filter.mpr ⟨hc, hgone⟩
    exact List.count_eq_one_of_mem (hnodup.filter _) hdoomed
  · rw [firstMin_eq_none_iff, eligible, List.filter_eq_nil_iff]
    simp only [Bool.not_eq_true', Bool.not_eq_false]

/-- The steps of this call under the lock. -/
def ofAcquire (i : Nat) (e : PoolEvent) : Prop := e = .acquire i ∨ e = .sweep ∨ e = .select

/-- The connections after some have been deleted. -/
def afterDeletes (conns : Nat → PoolConnection) (deleted : List Nat) (c : Nat) : PoolConnection :=
  if c ∈ deleted then { conns c with destroyed := true } else conns c

/-- The pool while a call holds the lock. -/
def acquiring (p : Pool) (deleted vector : List Nat) (locked : LockedSection) : Pool :=
  { p with conns := afterDeletes p.conns deleted, vector := vector, locked := locked }

section Steps
variable {p : Pool} {i : Nat}

/-- Deleting a connection changes nothing that the loops ask. -/
theorem isDoomed_afterDeletes (conns : Nat → PoolConnection) (deleted : List Nat) (c : Nat) :
    (afterDeletes conns deleted c).isDoomed = (conns c).isDoomed := by
  unfold afterDeletes
  split <;> rfl

private theorem lessLoaded_afterDeletes (conns : Nat → PoolConnection) (deleted : List Nat) :
    Pool.lessLoaded (afterDeletes conns deleted) = Pool.lessLoaded conns := by
  have hexpired : ∀ c, (afterDeletes conns deleted c).expired = (conns c).expired := by
    intro c
    unfold afterDeletes
    split <;> rfl
  have hused : ∀ c, (afterDeletes conns deleted c).usedStreams = (conns c).usedStreams := by
    intro c
    unfold afterDeletes
    split <;> rfl
  funext best c
  simp only [Pool.lessLoaded, hexpired, hused]

private theorem acquiring_dropAt (deleted kept rest : List Nat) (c : Nat)
    (locked : LockedSection) :
    (acquiring p deleted (kept ++ c :: rest) locked).dropAt kept.length c =
      acquiring p (deleted ++ [c]) (kept ++ rest) locked := by
  have hconns : Function.update (afterDeletes p.conns deleted) c
      { afterDeletes p.conns deleted c with destroyed := true } =
      afterDeletes p.conns (deleted ++ [c]) := by
    funext d
    by_cases hd : d = c
    · subst hd
      simp only [Function.update_self, afterDeletes, List.mem_append, List.mem_singleton, or_true,
        if_true]
      split <;> rfl
    · simp only [Function.update_of_ne hd, afterDeletes, List.mem_append, List.mem_singleton, hd,
        or_false]
  simp only [Pool.dropAt, Pool.destroy, Pool.setConn, acquiring, Pool.eraseIdx_at, hconns]

/-- The steps of the first loop. -/
theorem sweep_reaches {q : Pool} (kept rest deleted : List Nat)
    (h : Reaches Pool.step (fun _ e ↦ ofAcquire i e) q
      (acquiring p deleted (kept ++ rest) (.sweeping i kept.length))) :
    Reaches Pool.step (fun _ e ↦ ofAcquire i e) q
      (acquiring p (deleted ++ doomed p.conns rest) (kept ++ survivors p.conns rest)
        (.selecting i 0 none)) := by
  induction rest generalizing kept deleted with
  | nil =>
    apply h.step (.inr (.inl rfl))
    simp [Pool.step, acquiring, Pool.sweep, doomed, survivors]
  | cons c rest ih =>
    cases hdoomed : (p.conns c).isDoomed with
    | true =>
      have hnext : Reaches Pool.step (fun _ e ↦ ofAcquire i e) q
          (acquiring p (deleted ++ [c]) (kept ++ rest) (.sweeping i kept.length)) := by
        apply h.step (.inr (.inl rfl))
        rw [← acquiring_dropAt]
        simp [Pool.step, acquiring, Pool.sweep, isDoomed_afterDeletes, hdoomed]
      have hrest := ih kept (deleted ++ [c]) hnext
      simpa [doomed, survivors, hdoomed] using hrest
    | false =>
      have hnext : Reaches Pool.step (fun _ e ↦ ofAcquire i e) q
          (acquiring p deleted ((kept ++ [c]) ++ rest) (.sweeping i (kept ++ [c]).length)) := by
        apply h.step (.inr (.inl rfl))
        simp [Pool.step, acquiring, Pool.sweep, isDoomed_afterDeletes, hdoomed]
      have hrest := ih (kept ++ [c]) deleted hnext
      simpa [doomed, survivors, hdoomed] using hrest

/-- The steps of the second loop, and the return. -/
theorem select_reaches {q : Pool} (passed rest deleted : List Nat) (best : Option Nat)
    (h : Reaches Pool.step (fun _ e ↦ ofAcquire i e) q
      (acquiring p deleted (passed ++ rest) (.selecting i passed.length best))) :
    Reaches Pool.step (fun _ e ↦ ofAcquire i e) q
      ((acquiring p deleted (passed ++ rest) .free).setCall i
        (.ofAcquired (rest.foldl (Pool.lessLoaded p.conns) best))) := by
  induction rest generalizing passed best with
  | nil =>
    apply h.step (.inr (.inr rfl))
    simp [Pool.step, acquiring, Pool.select]
  | cons c rest ih =>
    have hnext : Reaches Pool.step (fun _ e ↦ ofAcquire i e) q
        (acquiring p deleted ((passed ++ [c]) ++ rest)
          (.selecting i (passed ++ [c]).length (Pool.lessLoaded p.conns best c))) := by
      apply h.step (.inr (.inr rfl))
      simp [Pool.step, acquiring, Pool.select, lessLoaded_afterDeletes]
    have hrest := ih (passed ++ [c]) _ hnext
    simpa using hrest

/-- A call that may enter `Acquire` gets, by steps of its own, to the vector and the result that
the function computes, with the deleted connections destroyed. -/
theorem acquire_reaches (hcall : p.calls i = .idle) (hready : p.Ready) (hfree : p.locked = .free) :
    Reaches Pool.step (fun _ e ↦ ofAcquire i e) p
      ((acquiring p (acquire p.conns false p.vector).deleted
        (acquire p.conns false p.vector).vector .free).setCall i
          (.ofAcquired (acquire p.conns false p.vector).returned)) := by
  have hlocked : Reaches Pool.step (fun _ e ↦ ofAcquire i e) p
      (acquiring p [] ([] ++ p.vector) (.sweeping i ([] : List Nat).length)) := by
    have hnone : afterDeletes p.conns [] = p.conns := by
      funext c
      simp [afterDeletes]
    apply Reaches.init.step (.inl rfl)
    simp [Pool.step, hcall, hready, hfree, acquiring, hnone]
  have hswept := sweep_reaches [] p.vector [] hlocked
  have hselected := select_reaches [] _ _ none hswept
  rw [foldl_lessLoaded] at hselected
  rw [acquire_eq]
  exact hselected

end Steps

end ConnectionPool
end CassandraDriver.Detail
