import CassandraDriver.Detail.Pool
import CassandraDriver.Detail.PreparedCache

/-!
# One pass of `Maintain`

Library `Detail`. Models `ConnectionPool::Maintain` (`src/detail/connection_pool.cpp:401`) as a
function, with `AcquireImmediate`, `Release` and `Push`, when nothing else uses the pool and its
own task is not cancelled. The pass takes connections from the front of the vector and pushes
them to its back. What it does to them is its history, newest first.
-/

namespace CassandraDriver.Detail
open CassandraDriver.Lib

/-! ### The connections of the pass -/

/-- A connection of the vector. -/
structure Pooled where
  name : Nat
  state : PoolConnection
  deriving DecidableEq, Repr

namespace Pooled

/-- Neither broken nor expired. -/
def isUsable (c : Pooled) : Bool := !c.state.broken && !c.state.expired

def isIdle (c : Pooled) : Bool := c.state.isIdle

/-- `MarkBroken`, when it is called. -/
def brokenIf (c : Pooled) (breaks : Bool) : Pooled :=
  { c with state := { c.state with broken := c.state.broken || breaks } }

@[simp]
private theorem brokenIf_name (c : Pooled) (breaks : Bool) :
    (c.brokenIf breaks).name = c.name := rfl

@[simp]
private theorem brokenIf_false (c : Pooled) : c.brokenIf false = c := by
  simp [brokenIf]

/-- What `Release` does not delete. -/
theorem isDoomed_brokenIf {c : Pooled} (h : c.isUsable = true) (breaks : Bool) :
    (c.brokenIf breaks).state.isDoomed = breaks := by
  simp only [isUsable, Bool.and_eq_true, Bool.not_eq_true'] at h
  simp [brokenIf, PoolConnection.isDoomed, h.1, h.2]

end Pooled

/-! ### The ping -/

/-- The exception is an `exceptions::RuntimeError`: the classes of `CheckError` and
`ConnectionError` are, what else the calls throw is not. -/
def CallError.isRuntimeError : CallError → Bool
  | frameError .. => true
  | timeout => true
  | other _ => false

/-- The exception is an `exceptions::Unprepared`. -/
def CallError.isUnprepared : CallError → Bool
  | frameError code _ => code == kUnprepared
  | timeout => false
  | other _ => false

/-- How the calls of one ping end: what `Prepare` returns or throws, what `ExecutePrepared`
throws, and whether the connection is marked broken meanwhile. -/
structure Ping where
  prepare : Except CallError StatementId
  execute : Option CallError
  breaks : Bool

/-- The ping, `connection_pool.cpp:451–476`: the map behind it and what it throws. -/
def ping (cache : Statement → Option StatementId) (p : Ping) :
    (Statement → Option StatementId) × Option CallError :=
  match cache kPing with
  | none =>
    match p.prepare with
    | .error e => (cache, some e)
    | .ok id => (Function.update cache kPing (some id), p.execute)
  | some _ =>
    match p.execute with
    | none => (cache, none)
    | some e => if e.isUnprepared then (fun _ ↦ none, none) else (cache, some e)

/-- The ping throws what `Maintain` does not catch. -/
def pingEscapes (cache : Statement → Option StatementId) (p : Ping) : Bool :=
  (ping cache p).2.any (fun e ↦ !e.isRuntimeError)

/-- Both calls return or throw an `exceptions::RuntimeError`. -/
def Ping.Caught (p : Ping) : Prop :=
  (∀ e, p.prepare = .error e → e.isRuntimeError = true) ∧
    ∀ e, p.execute = some e → e.isRuntimeError = true

private theorem Ping.Caught.not_escapes {p : Ping} (h : p.Caught)
    (cache : Statement → Option StatementId) : pingEscapes cache p = false := by
  obtain ⟨hprepare, hexecute⟩ := h
  have hthrown : p.execute.any (fun e ↦ !e.isRuntimeError) = false := by
    cases hx : p.execute with
    | none => rfl
    | some e => simp [hexecute e hx]
  unfold pingEscapes ping
  split
  · split
    · next e he => simp [hprepare e he]
    · exact hthrown
  · split
    · rfl
    · next e he =>
      split
      · rfl
      · simp [hexecute e he]

/-! ### The pass -/

/-- What happens to a connection in a pass: it is deleted, it is closed, with what is left in the
vector, or it has been pinged. -/
inductive PassEvent
  | deleted (conn : Pooled)
  | closed (conn : Pooled) (left : List Pooled)
  | pinged (conn : Pooled)
  deriving DecidableEq, Repr

/-- The vector and the map of prepared statements, and what the pass has done. -/
structure Pass where
  vector : List Pooled
  cache : Statement → Option StatementId
  events : List PassEvent

/-- What `AcquireImmediate` returns, what is left in the vector and what it has deleted. -/
structure Acquired where
  found : Option Pooled
  left : List Pooled
  deleted : List Pooled
  deriving DecidableEq, Repr

/-- `ConnectionPool::AcquireImmediate`, `connection_pool.cpp:491`. -/
def acquireImmediate : List Pooled → Acquired
  | [] => ⟨none, [], []⟩
  | c :: rest =>
    if c.state.expired then
      if c.isIdle then
        { acquireImmediate rest with deleted := c :: (acquireImmediate rest).deleted }
      else { acquireImmediate rest with left := c :: (acquireImmediate rest).left }
    else if c.state.broken then
      { acquireImmediate rest with deleted := c :: (acquireImmediate rest).deleted }
    else ⟨some c, rest, []⟩

namespace Pass

/-- The pass after its call of `AcquireImmediate`. -/
def acquired (s : Pass) : Pass :=
  { s with
    vector := (acquireImmediate s.vector).left
    events := (acquireImmediate s.vector).deleted.reverse.map .deleted ++ s.events }

/-- `DeleteConnection`. -/
def delete (s : Pass) (c : Pooled) : Pass := { s with events := .deleted c :: s.events }

/-- `ConnectionPool::Push`, `connection_pool.cpp:214`. -/
def push (s : Pass) (c : Pooled) : Pass :=
  if c.state.isDoomed then s.delete c else { s with vector := s.vector ++ [c] }

/-- `ConnectionPool::Release`, `connection_pool.cpp:391`. -/
def release (s : Pass) (c : Pooled) : Pass :=
  if c.state.isDoomed then s.delete c else s.push c

/-- `Close` of a connection that is not in the vector any more. -/
def close (s : Pass) (c : Pooled) : Pass := { s with events := .closed c s.vector :: s.events }

/-- The connection is pinged and released. -/
def pingAndRelease (s : Pass) (c : Pooled) (p : Ping) : Pass :=
  { s with
    cache := (ping s.cache p).1
    events := .pinged (c.brokenIf p.breaks) :: s.events }.release (c.brokenIf p.breaks)

end Pass

/-- `kIdleDropLimit`, `connection_pool.cpp:387`. -/
def kIdleDropLimit : Nat := 1

/-- The loop of `Maintain`, `connection_pool.cpp:423–488`, with `pool_size` and `drop_left`, and
the pings of its rounds. -/
def maintainLoop (minSize : Nat) : Nat → Nat → (Nat → Ping) → Pass → Pass
  | 0, _, _, s => s
  | poolSize + 1, dropLeft, pings, s =>
    match (acquireImmediate s.vector).found with
    | none => s.acquired
    | some c =>
      if poolSize + 1 > minSize ∧ dropLeft > 0 ∧ c.isIdle = true then
        maintainLoop minSize poolSize (dropLeft - 1) (fun i ↦ pings (i + 1)) (s.acquired.close c)
      else if pingEscapes s.cache (pings 0) then s.acquired.pingAndRelease c (pings 0)
      else
        maintainLoop minSize poolSize dropLeft (fun i ↦ pings (i + 1))
          (s.acquired.pingAndRelease c (pings 0))

/-- `ConnectionPool::Maintain`, `connection_pool.cpp:401`. Nothing changes `_wait_count`, which
is 0. -/
def maintain (minSize : Nat) (pings : Nat → Ping) (vector : List Pooled)
    (cache : Statement → Option StatementId) : Pass :=
  maintainLoop minSize vector.length kIdleDropLimit pings ⟨vector, cache, []⟩

/-! ### What a round does to the usable connections -/

/-- The connections of the vector that a round can take, in order. -/
def Pass.usable (s : Pass) : List Pooled := s.vector.filter Pooled.isUsable

/-- `AcquireImmediate` returns the first usable connection, and the others stay. -/
theorem acquireImmediate_usable (vector : List Pooled) :
    (acquireImmediate vector).found = (vector.filter Pooled.isUsable).head? ∧
    (acquireImmediate vector).left.filter Pooled.isUsable =
      (vector.filter Pooled.isUsable).tail := by
  induction vector with
  | nil => exact ⟨rfl, rfl⟩
  | cons c rest ih =>
    obtain ⟨hfound, hleft⟩ := ih
    unfold acquireImmediate
    split
    · next hexpired =>
      have husable : ¬ c.isUsable = true := by simp [Pooled.isUsable, hexpired]
      rw [List.filter_cons_of_neg husable]
      split
      · exact ⟨hfound, hleft⟩
      · refine ⟨hfound, ?_⟩
        rw [List.filter_cons_of_neg husable]
        exact hleft
    · next hexpired =>
      split
      · next hbroken =>
        have husable : ¬ c.isUsable = true := by simp [Pooled.isUsable, hbroken]
        rw [List.filter_cons_of_neg husable]
        exact ⟨hfound, hleft⟩
      · next hbroken =>
        have husable : c.isUsable = true := by simp [Pooled.isUsable, hbroken, hexpired]
        rw [List.filter_cons_of_pos husable]
        exact ⟨rfl, rfl⟩

/-- What a round finds, when there is a usable connection. -/
theorem Pass.found_of_usable {s : Pass} {c : Pooled} {rest : List Pooled}
    (h : s.usable = c :: rest) : (acquireImmediate s.vector).found = some c ∧
      c.isUsable = true ∧ s.acquired.usable = rest := by
  obtain ⟨hfound, hleft⟩ := acquireImmediate_usable s.vector
  have hmem : c ∈ s.vector.filter Pooled.isUsable := by
    change c ∈ s.usable
    rw [h]
    exact List.mem_cons_self
  refine ⟨?_, (List.mem_filter.mp hmem).2, ?_⟩
  · rw [hfound]
    exact congrArg List.head? h
  · exact hleft.trans (congrArg List.tail h)

/-- A connection that is pinged goes to the back, unless it is deleted then. -/
theorem Pass.vector_pingAndRelease (s : Pass) (c : Pooled) (p : Ping) :
    (s.pingAndRelease c p).vector =
      s.vector ++ if (c.brokenIf p.breaks).state.isDoomed then [] else [c.brokenIf p.breaks] := by
  unfold pingAndRelease release push
  split
  · exact (List.append_nil _).symm
  · rfl

/-- A usable connection is deleted only if its ping breaks it. -/
theorem Pass.vector_pingAndRelease_of_usable {s : Pass} {c : Pooled} (h : c.isUsable = true)
    (p : Ping) : (s.pingAndRelease c p).vector = s.vector ++ if p.breaks then [] else [c] := by
  rw [vector_pingAndRelease, Pooled.isDoomed_brokenIf h]
  cases p.breaks with
  | true => rfl
  | false => simp

private theorem Pass.usable_pingAndRelease {s : Pass} {c : Pooled} (h : c.isUsable = true)
    (p : Ping) : (s.pingAndRelease c p).usable = s.usable ++ if p.breaks then [] else [c] := by
  unfold usable
  rw [vector_pingAndRelease_of_usable h, List.filter_append]
  cases p.breaks with
  | true => rfl
  | false => simp [h]

private theorem Pass.cache_pingAndRelease (s : Pass) (c : Pooled) (p : Ping) :
    (s.pingAndRelease c p).cache = (ping s.cache p).1 := by
  unfold pingAndRelease release push
  split
  · rfl
  · rfl

/-! ### The rounds of the loop -/

section Rounds

variable {minSize poolSize dropLeft : Nat} {pings : Nat → Ping} {s : Pass} {c : Pooled}
  {rest : List Pooled}

/-- No usable connection is left: the loop breaks. -/
theorem maintainLoop_of_nil (h : s.usable = []) :
    maintainLoop minSize (poolSize + 1) dropLeft pings s = s.acquired := by
  have hfound : (acquireImmediate s.vector).found = none := by
    rw [(acquireImmediate_usable s.vector).1]
    exact congrArg List.head? h
  simp only [maintainLoop, hfound]

/-- The round closes the connection that it takes. -/
theorem maintainLoop_of_closes (h : s.usable = c :: rest)
    (hcloses : poolSize + 1 > minSize ∧ dropLeft > 0 ∧ c.isIdle = true) :
    maintainLoop minSize (poolSize + 1) dropLeft pings s =
      maintainLoop minSize poolSize (dropLeft - 1) (fun i ↦ pings (i + 1))
        (s.acquired.close c) := by
  simp only [maintainLoop, (Pass.found_of_usable h).1]
  rw [if_pos hcloses]

/-- The round pings the connection that it takes. -/
theorem maintainLoop_of_pings (pings : Nat → Ping) (h : s.usable = c :: rest)
    (hpings : ¬ (poolSize + 1 > minSize ∧ dropLeft > 0 ∧ c.isIdle = true)) :
    maintainLoop minSize (poolSize + 1) dropLeft pings s =
      if pingEscapes s.cache (pings 0) then s.acquired.pingAndRelease c (pings 0)
      else maintainLoop minSize poolSize dropLeft (fun i ↦ pings (i + 1))
        (s.acquired.pingAndRelease c (pings 0)) := by
  simp only [maintainLoop, (Pass.found_of_usable h).1]
  rw [if_neg hpings]

end Rounds

/-! ### Idle connections that are dropped -/

/-- Whatever the pass has closed, enough usable connections were left then. -/
def Spared (minSize : Nat) (events : List PassEvent) : Prop :=
  ∀ c left, .closed c left ∈ events → minSize ≤ left.countP Pooled.isUsable

/-- A ping among the first ones ends the pass. -/
def escapesWithin (cache : Statement → Option StatementId) (pings : Nat → Ping) : Nat → Bool
  | 0 => false
  | k + 1 => pingEscapes cache (pings 0) ||
      escapesWithin (ping cache (pings 0)).1 (fun i ↦ pings (i + 1)) k

/-- How many of the first pings break their connection. -/
def brokenWithin (pings : Nat → Ping) : Nat → Nat
  | 0 => 0
  | k + 1 => (pings 0).breaks.toNat + brokenWithin (fun i ↦ pings (i + 1)) k

/-- What a pass with `poolSize` rounds needs to spare enough connections: when it gets to close
the first idle one of those it has not seen, there are still enough usable ones beside it. -/
def Spares (minSize poolSize : Nat) (pings : Nat → Ping) (cache : Statement → Option StatementId)
    (pending : List Pooled) (usable : Nat) : Prop :=
  pending.findIdx Pooled.isIdle < pending.length →
  escapesWithin cache pings (pending.findIdx Pooled.isIdle) = false →
  minSize < poolSize - pending.findIdx Pooled.isIdle →
  minSize + brokenWithin pings (pending.findIdx Pooled.isIdle) < usable

section Spares

variable {minSize poolSize usable : Nat} {pings : Nat → Ping}
  {cache : Statement → Option StatementId} {c : Pooled} {pending : List Pooled}

private theorem spares_nil (minSize poolSize : Nat) (pings : Nat → Ping)
    (cache : Statement → Option StatementId) (usable : Nat) :
    Spares minSize poolSize pings cache [] usable := by
  intro hidle
  cases hidle

private theorem spares_cons_idle (h : c.isIdle = true) :
    Spares minSize poolSize pings cache (c :: pending) usable ↔
      (minSize < poolSize → minSize < usable) := by
  simp [Spares, List.findIdx_cons, h, escapesWithin, brokenWithin]

private theorem spares_cons_busy (h : c.isIdle = false) :
    Spares minSize (poolSize + 1) pings cache (c :: pending) (usable + 1) ↔
      (pingEscapes cache (pings 0) = false →
        Spares minSize poolSize (fun i ↦ pings (i + 1)) (ping cache (pings 0)).1 pending
          (usable + (!(pings 0).breaks).toNat)) := by
  have hbroken : ∀ later, minSize + ((pings 0).breaks.toNat + later) < usable + 1 ↔
      minSize + later < usable + (!(pings 0).breaks).toNat := by
    intro later
    cases (pings 0).breaks with
    | true =>
      simp only [Bool.toNat_true, Bool.not_true, Bool.toNat_false]
      omega
    | false =>
      simp only [Bool.toNat_true, Bool.not_false, Bool.toNat_false]
      omega
  simp only [Spares, List.findIdx_cons, h, escapesWithin, brokenWithin, cond_false,
    List.length_cons, Bool.or_eq_false_iff, Nat.add_lt_add_iff_right, Nat.add_sub_add_right,
    hbroken]
  constructor
  · intro hspares hescapes hlt hlater hrounds
    exact hspares hlt ⟨hescapes, hlater⟩ hrounds
  · intro hspares hlt hescapes hrounds
    exact hspares hescapes.1 hlt hescapes.2 hrounds

end Spares

private theorem forall_busy_append {seen : List Pooled} {c : Pooled} {breaks : Bool}
    (hseen : ∀ d ∈ seen, d.isIdle = false) (hc : c.isIdle = false) :
    ∀ d ∈ seen ++ if breaks then [] else [c], d.isIdle = false := by
  intro d hd
  rcases List.mem_append.mp hd with hd | hd
  · exact hseen d hd
  · cases breaks with
    | true => cases hd
    | false =>
      obtain rfl := List.mem_singleton.mp hd
      exact hc

section Spared

variable {minSize poolSize dropLeft : Nat} {pings : Nat → Ping} {s : Pass} {c : Pooled}

private theorem spared_acquired : Spared minSize s.acquired.events ↔ Spared minSize s.events := by
  simp [Spared, Pass.acquired]

private theorem spared_close : Spared minSize (s.close c).events ↔
    minSize ≤ s.usable.length ∧ Spared minSize s.events := by
  simp only [Spared, Pass.close, List.mem_cons, PassEvent.closed.injEq]
  rw [Pass.usable, ← List.countP_eq_length_filter]
  constructor
  · intro h
    exact ⟨h c s.vector (.inl ⟨rfl, rfl⟩), fun d left hd ↦ h d left (.inr hd)⟩
  · rintro ⟨hleft, h⟩ d left (⟨rfl, rfl⟩ | hd)
    · exact hleft
    · exact h d left hd

private theorem spared_pingAndRelease (p : Ping) :
    Spared minSize (s.pingAndRelease c p).events ↔ Spared minSize s.events := by
  unfold Pass.pingAndRelease Pass.release Pass.push
  split
  · simp [Spared, Pass.delete]
  · simp [Spared]

/-- A pass closes nothing when it may not drop, or has few rounds left. -/
theorem spared_maintainLoop_of_done (h : dropLeft = 0 ∨ poolSize ≤ minSize) :
    Spared minSize (maintainLoop minSize poolSize dropLeft pings s).events ↔
      Spared minSize s.events := by
  induction poolSize generalizing pings s with
  | zero => exact Iff.rfl
  | succ poolSize ih =>
    cases husable : s.usable with
    | nil =>
      rw [maintainLoop_of_nil husable]
      exact spared_acquired
    | cons c rest =>
      rw [maintainLoop_of_pings pings husable (by omega)]
      split
      · exact (spared_pingAndRelease _).trans spared_acquired
      · rw [ih (by omega)]
        exact (spared_pingAndRelease _).trans spared_acquired

private theorem spared_busy_round {rest : List Pooled} (hc : s.usable = c :: rest)
    (hidle : c.isIdle = false) {P : Prop}
    (hlater : Spared minSize (maintainLoop minSize poolSize dropLeft (fun i ↦ pings (i + 1))
        (s.acquired.pingAndRelease c (pings 0))).events ↔
      Spared minSize (s.acquired.pingAndRelease c (pings 0)).events ∧ P) :
    Spared minSize (maintainLoop minSize (poolSize + 1) dropLeft pings s).events ↔
      Spared minSize s.events ∧ (pingEscapes s.cache (pings 0) = false → P) := by
  have hsame : Spared minSize (s.acquired.pingAndRelease c (pings 0)).events ↔
      Spared minSize s.events := (spared_pingAndRelease (pings 0)).trans spared_acquired
  rw [maintainLoop_of_pings pings hc (by simp [hidle])]
  split
  · next hescapes => simp [hsame, hescapes]
  · next hescapes =>
    rw [hlater, hsame]
    simp [hescapes]

private theorem spared_idle_round {rest : List Pooled} (hc : s.usable = c :: rest)
    (hidle : c.isIdle = true) :
    Spared minSize (maintainLoop minSize (poolSize + 1) 1 pings s).events ↔
      Spared minSize s.events ∧ (minSize < poolSize + 1 → minSize ≤ rest.length) := by
  by_cases hrounds : minSize < poolSize + 1
  · have hleft : s.acquired.usable = rest := (Pass.found_of_usable hc).2.2
    rw [maintainLoop_of_closes hc ⟨hrounds, Nat.one_pos, hidle⟩,
      spared_maintainLoop_of_done (.inl rfl), spared_close, hleft, spared_acquired, and_comm]
    exact and_congr_right fun _ ↦ (imp_iff_right hrounds).symm
  · rw [spared_maintainLoop_of_done (.inr (by omega))]
    exact (and_iff_left fun h ↦ absurd h hrounds).symm

/-- The loop spares enough connections exactly when `Spares` says so; those that it has seen
are busy. -/
theorem spared_maintainLoop_iff (minSize poolSize : Nat) (pings : Nat → Ping)
    {pending seen : List Pooled} (husable : s.usable = pending ++ seen)
    (hseen : ∀ c ∈ seen, c.isIdle = false) :
    Spared minSize (maintainLoop minSize poolSize 1 pings s).events ↔
      Spared minSize s.events ∧
        Spares minSize poolSize pings s.cache pending (pending.length + seen.length) := by
  induction poolSize generalizing pings s pending seen with
  | zero =>
    have hspares : Spares minSize 0 pings s.cache pending (pending.length + seen.length) := by
      intro _ _ hrounds
      omega
    exact (and_iff_left hspares).symm
  | succ poolSize ih =>
    cases pending with
    | nil =>
      rw [and_iff_left (spares_nil _ _ _ _ _)]
      cases seen with
      | nil =>
        rw [maintainLoop_of_nil husable]
        exact spared_acquired
      | cons c seen =>
        -- The first round is over, and only busy connections are left.
        obtain ⟨-, hcusable, hrest⟩ := Pass.found_of_usable husable
        have hidle := hseen c List.mem_cons_self
        have hafter : (s.acquired.pingAndRelease c (pings 0)).usable =
            [] ++ (seen ++ if (pings 0).breaks then [] else [c]) := by
          rw [Pass.usable_pingAndRelease hcusable, hrest]
          rfl
        have hlater := ih (fun i ↦ pings (i + 1)) hafter
          (forall_busy_append (fun d hd ↦ hseen d (List.mem_cons_of_mem _ hd)) hidle)
        refine (spared_busy_round husable hidle hlater).trans (and_iff_left fun _ ↦ ?_)
        exact spares_nil _ _ _ _ _
    | cons c pending =>
      rw [List.cons_append] at husable
      obtain ⟨-, hcusable, hrest⟩ := Pass.found_of_usable husable
      cases hidle : c.isIdle with
      | true =>
        rw [spared_idle_round husable hidle, spares_cons_idle hidle, List.length_append,
          List.length_cons]
        apply and_congr_right
        intro _
        apply imp_congr_right
        omega
      | false =>
        have hafter : (s.acquired.pingAndRelease c (pings 0)).usable =
            pending ++ (seen ++ if (pings 0).breaks then [] else [c]) := by
          rw [Pass.usable_pingAndRelease hcusable, hrest, List.append_assoc]
        have hlater := ih (fun i ↦ pings (i + 1)) hafter (forall_busy_append hseen hidle)
        rw [spared_busy_round husable hidle hlater, List.length_cons, Nat.add_right_comm,
          spares_cons_busy hidle, Pass.cache_pingAndRelease]
        have hcount : pending.length + seen.length + (!(pings 0).breaks).toNat =
            pending.length + (seen ++ if (pings 0).breaks then [] else [c]).length := by
          rw [List.length_append, Nat.add_assoc]
          cases (pings 0).breaks with
          | true => rfl
          | false => rfl
        rw [hcount]
        rfl

/-- A pass of `Maintain` leaves `min_size` usable connections whenever it closes one, exactly when
there are still that many beside the first idle one as the pass comes to it. -/
theorem spared_maintain_iff (minSize : Nat) (pings : Nat → Ping) (vector : List Pooled)
    (cache : Statement → Option StatementId) :
    Spared minSize (maintain minSize pings vector cache).events ↔
      Spares minSize vector.length pings cache (vector.filter Pooled.isUsable)
        (vector.countP Pooled.isUsable) := by
  have hstart : Spared minSize [] := by
    intro c left hmem
    cases hmem
  have husable : (Pass.mk vector cache []).usable = vector.filter Pooled.isUsable ++ [] :=
    (List.append_nil _).symm
  have hloop := spared_maintainLoop_iff minSize vector.length pings husable
    (fun c hc ↦ by cases hc)
  rw [List.countP_eq_length_filter]
  exact hloop.trans (and_iff_right hstart)


end Spared

/-- A broken connection in front counts in `pool_size` when the only usable one, which is idle,
is closed. -/
theorem last_usable_dropped : ¬ Spared 1 (maintain 1 (fun _ ↦ ⟨.ok [], none, false⟩)
    [⟨0, { PoolConnection.fresh with broken := true }⟩, ⟨1, .fresh⟩] (fun _ ↦ none)).events := by
  intro h
  exact absurd (h ⟨1, .fresh⟩ [] (by decide +kernel)) (by decide)

/-! ### A pass without broken connections -/

/-- What the pass has closed. -/
def closedConns (events : List PassEvent) : List Pooled :=
  events.filterMap fun
    | .closed c _ => some c
    | _ => none

/-- What the pass has pinged, the last first. -/
def pingedNames (events : List PassEvent) : List Nat :=
  events.filterMap fun
    | .pinged c => some c.name
    | _ => none

/-- What a ping of the pass has left broken. -/
def brokenNames (events : List PassEvent) : List Nat :=
  events.filterMap fun
    | .pinged c => if c.state.broken then some c.name else none
    | _ => none

/-- The connections that a pass leaves. -/
def survivors (events : List PassEvent) (vector : List Pooled) : List Pooled :=
  vector.filter fun c ↦ c ∉ closedConns events ∧ c.name ∉ brokenNames events

/-- What a pass has done when `pending` was all that it had not seen, and it may still drop
`dropLeft` connections. -/
structure Rotated (minSize dropLeft : Nat) (pending : List Pooled) (events : List PassEvent) :
    Prop where
  drops : (closedConns events).length ≤ dropLeft
  closed : ∀ c ∈ closedConns events, c ∈ pending ∧ c.isIdle = true ∧ minSize < pending.length
  pinged : (pingedNames events).reverse =
    (pending.filter fun c ↦ c ∉ closedConns events).map Pooled.name
  broken : ∀ name ∈ brokenNames events, name ∈ pending.map Pooled.name

section Rotated

variable {minSize dropLeft : Nat} {pending : List Pooled} {events : List PassEvent} {c : Pooled}

private theorem ne_of_name (hc : c.name ∉ pending.map Pooled.name) {d : Pooled}
    (hd : d ∈ pending) : d ≠ c := by
  rintro rfl
  exact hc (List.mem_map_of_mem hd)

private theorem survivors_cons {first : List PassEvent}
    (hclosed : ∀ d ∈ pending, d ∈ closedConns (events ++ first) ↔ d ∈ closedConns events)
    (hbroken : ∀ d ∈ pending,
      d.name ∈ brokenNames (events ++ first) ↔ d.name ∈ brokenNames events) :
    survivors (events ++ first) (c :: pending) =
      survivors (events ++ first) [c] ++ survivors events pending := by
  have hpending : survivors (events ++ first) pending = survivors events pending := by
    apply List.filter_congr
    intro d hd
    simp only [hclosed d hd, hbroken d hd]
  rw [← hpending]
  exact List.filter_append [c] pending

section Closed

variable {left : List Pooled}

private theorem closedConns_closed :
    closedConns (events ++ [.closed c left]) = closedConns events ++ [c] := by
  simp [closedConns]

private theorem brokenNames_closed :
    brokenNames (events ++ [.closed c left]) = brokenNames events := by
  simp [brokenNames]

private theorem mem_closedConns_closed (hc : c.name ∉ pending.map Pooled.name) {d : Pooled}
    (hd : d ∈ pending) :
    d ∈ closedConns (events ++ [.closed c left]) ↔ d ∈ closedConns events := by
  rw [closedConns_closed, List.mem_append, List.mem_singleton]
  exact or_iff_left (ne_of_name hc hd)

private theorem Rotated.cons_closed (h : Rotated minSize (dropLeft - 1) pending events)
    (hc : c.name ∉ pending.map Pooled.name) (hdrop : 0 < dropLeft) (hidle : c.isIdle = true)
    (hsize : minSize < (c :: pending).length) :
    Rotated minSize dropLeft (c :: pending) (events ++ [.closed c left]) := by
  constructor
  case drops =>
    have hdrops := h.drops
    rw [closedConns_closed, List.length_append, List.length_singleton]
    omega
  case closed =>
    intro d hd
    rw [closedConns_closed, List.mem_append, List.mem_singleton] at hd
    rcases hd with hd | rfl
    · obtain ⟨hmem, hd, hlarge⟩ := h.closed d hd
      exact ⟨List.mem_cons_of_mem _ hmem, hd, Nat.lt_succ_of_lt hlarge⟩
    · exact ⟨List.mem_cons_self, hidle, hsize⟩
  case pinged =>
    have hpinged : pingedNames (events ++ [.closed c left]) = pingedNames events := by
      simp [pingedNames]
    have hfront : c ∈ closedConns (events ++ [.closed c left]) := by simp [closedConns_closed]
    rw [hpinged, h.pinged, List.filter_cons_of_neg (by simpa using hfront)]
    apply congrArg
    apply List.filter_congr
    intro d hd
    simp only [mem_closedConns_closed hc hd]
  case broken =>
    intro name hname
    rw [brokenNames_closed] at hname
    exact List.mem_cons_of_mem _ (h.broken name hname)

private theorem survivors_closed (hc : c.name ∉ pending.map Pooled.name) :
    survivors (events ++ [.closed c left]) (c :: pending) = survivors events pending := by
  have hfront : survivors (events ++ [.closed c left]) [c] = [] := by
    simp [survivors, closedConns_closed]
  rw [survivors_cons (fun d hd ↦ mem_closedConns_closed hc hd)
    (fun d _ ↦ by rw [brokenNames_closed]), hfront, List.nil_append]

end Closed

section Pinged

variable {breaks : Bool}

/-- What a ping and the release behind it add to the history. -/
private def pingEvents (c : Pooled) (breaks : Bool) : List PassEvent :=
  (if breaks then [.deleted (c.brokenIf breaks)] else []) ++ [.pinged (c.brokenIf breaks)]

private theorem closedConns_pinged :
    closedConns (events ++ pingEvents c breaks) = closedConns events := by
  cases breaks with
  | true => simp [closedConns, pingEvents]
  | false => simp [closedConns, pingEvents]

private theorem pingedNames_pinged :
    pingedNames (events ++ pingEvents c breaks) = pingedNames events ++ [c.name] := by
  cases breaks with
  | true => simp [pingedNames, pingEvents]
  | false => simp [pingedNames, pingEvents]

private theorem brokenNames_pinged (husable : c.isUsable = true) :
    brokenNames (events ++ pingEvents c breaks) =
      brokenNames events ++ if breaks then [c.name] else [] := by
  simp only [Pooled.isUsable, Bool.and_eq_true, Bool.not_eq_true'] at husable
  cases breaks with
  | true => simp [brokenNames, pingEvents, Pooled.brokenIf]
  | false => simp [brokenNames, pingEvents, husable.1]

private theorem Rotated.notMem_closed (h : Rotated minSize dropLeft pending events)
    (hc : c.name ∉ pending.map Pooled.name) : c ∉ closedConns events := fun hmem ↦
  ne_of_name hc (h.closed c hmem).1 rfl

private theorem Rotated.cons_pinged (h : Rotated minSize dropLeft pending events)
    (hc : c.name ∉ pending.map Pooled.name) (husable : c.isUsable = true) :
    Rotated minSize dropLeft (c :: pending) (events ++ pingEvents c breaks) := by
  constructor
  case drops =>
    rw [closedConns_pinged]
    exact h.drops
  case closed =>
    intro d hd
    rw [closedConns_pinged] at hd
    obtain ⟨hmem, hd, hlarge⟩ := h.closed d hd
    exact ⟨List.mem_cons_of_mem _ hmem, hd, Nat.lt_succ_of_lt hlarge⟩
  case pinged =>
    rw [closedConns_pinged, pingedNames_pinged, List.reverse_concat, h.pinged,
      List.filter_cons_of_pos (by simpa using h.notMem_closed hc), List.map_cons]
  case broken =>
    intro name hname
    rw [brokenNames_pinged husable, List.mem_append] at hname
    rcases hname with hname | hname
    · exact List.mem_cons_of_mem _ (h.broken name hname)
    · cases breaks with
      | true =>
        obtain rfl := List.mem_singleton.mp hname
        exact List.mem_cons_self
      | false => cases hname

private theorem Rotated.survivors_pinged (h : Rotated minSize dropLeft pending events)
    (hc : c.name ∉ pending.map Pooled.name) (husable : c.isUsable = true) :
    survivors (events ++ pingEvents c breaks) (c :: pending) =
      (if breaks then [] else [c]) ++ survivors events pending := by
  have hothers : ∀ d ∈ pending, d.name ∈ brokenNames (events ++ pingEvents c breaks) ↔
      d.name ∈ brokenNames events := by
    intro d hd
    have hne : d.name ≠ c.name := fun heq ↦ hc (heq ▸ List.mem_map_of_mem hd)
    rw [brokenNames_pinged husable]
    cases breaks with
    | true => simp [hne]
    | false => simp
  have hfront : survivors (events ++ pingEvents c breaks) [c] = if breaks then [] else [c] := by
    have hcbroken : c.name ∉ brokenNames events := fun hmem ↦ hc (h.broken c.name hmem)
    unfold survivors
    rw [closedConns_pinged, brokenNames_pinged husable]
    cases breaks with
    | true => simp
    | false => simp [h.notMem_closed hc, hcbroken]
  rw [survivors_cons (fun d _ ↦ by rw [closedConns_pinged]) hothers, hfront]

end Pinged

end Rotated

private theorem acquired_of_cons {s : Pass} {c : Pooled} {rest : List Pooled}
    (hvector : s.vector = c :: rest) (hc : c.isUsable = true) :
    s.acquired.vector = rest ∧ s.acquired.events = s.events := by
  simp only [Pooled.isUsable, Bool.and_eq_true, Bool.not_eq_true'] at hc
  have hacquired : acquireImmediate (c :: rest) = ⟨some c, rest, []⟩ := by
    simp [acquireImmediate, hc.1, hc.2]
  simp [Pass.acquired, hvector, hacquired]

private theorem pingAndRelease_events {s : Pass} {c : Pooled} (hc : c.isUsable = true)
    (p : Ping) : (s.pingAndRelease c p).events = pingEvents c p.breaks ++ s.events := by
  unfold Pass.pingAndRelease Pass.release Pass.push
  rw [Pooled.isDoomed_brokenIf hc]
  cases p.breaks with
  | true => rfl
  | false => rfl

/-- The loop visits what it has not seen, in order, and leaves behind what it has seen those of
them that survive. -/
theorem rotated_maintainLoop (minSize dropLeft : Nat) {pings : Nat → Ping} {s : Pass}
    {pending seen : List Pooled} (hvector : s.vector = pending ++ seen)
    (husable : ∀ c ∈ pending, c.isUsable = true) (hnames : (pending.map Pooled.name).Nodup)
    (hcaught : ∀ i, (pings i).Caught) :
    ∃ events, (maintainLoop minSize pending.length dropLeft pings s).events =
        events ++ s.events ∧ Rotated minSize dropLeft pending events ∧
      (maintainLoop minSize pending.length dropLeft pings s).vector =
        seen ++ survivors events pending := by
  induction pending generalizing dropLeft pings s seen with
  | nil =>
    refine ⟨[], rfl, ⟨?_, ?_, rfl, ?_⟩, ?_⟩
    · exact Nat.zero_le _
    · simp [closedConns]
    · simp [brokenNames]
    · simpa [maintainLoop, survivors] using hvector
  | cons c pending ih =>
    have hc := husable c List.mem_cons_self
    rw [List.map_cons, List.nodup_cons] at hnames
    rw [List.cons_append] at hvector
    obtain ⟨hvector', hevents'⟩ := acquired_of_cons hvector hc
    have hfront : s.usable = c :: (pending ++ seen).filter Pooled.isUsable := by
      rw [Pass.usable, hvector]
      exact List.filter_cons_of_pos hc
    by_cases hcloses : pending.length + 1 > minSize ∧ dropLeft > 0 ∧ c.isIdle = true
    · have hnext : (s.acquired.close c).vector = pending ++ seen := hvector'
      obtain ⟨events, hevents, hrotated, hafter⟩ := ih (dropLeft - 1) hnext
        (fun d hd ↦ husable d (List.mem_cons_of_mem _ hd)) hnames.2 (fun i ↦ hcaught (i + 1))
      refine ⟨events ++ [.closed c s.acquired.vector], ?_,
        hrotated.cons_closed hnames.1 hcloses.2.1 hcloses.2.2 hcloses.1, ?_⟩
      · rw [List.length_cons, maintainLoop_of_closes hfront hcloses, hevents, Pass.close, hevents']
        simp
      · rw [List.length_cons, maintainLoop_of_closes hfront hcloses, hafter,
          survivors_closed hnames.1]
    · have hnext : (s.acquired.pingAndRelease c (pings 0)).vector =
          pending ++ (seen ++ if (pings 0).breaks then [] else [c]) := by
        rw [Pass.vector_pingAndRelease_of_usable hc, hvector', List.append_assoc]
      obtain ⟨events, hevents, hrotated, hafter⟩ := ih dropLeft hnext
        (fun d hd ↦ husable d (List.mem_cons_of_mem _ hd)) hnames.2 (fun i ↦ hcaught (i + 1))
      have hround := (maintainLoop_of_pings pings hfront hcloses).trans
        (if_neg (by simp [(hcaught 0).not_escapes]))
      refine ⟨events ++ pingEvents c (pings 0).breaks, ?_,
        hrotated.cons_pinged hnames.1 hc, ?_⟩
      · rw [List.length_cons, hround, hevents, pingAndRelease_events hc, hevents',
          ← List.append_assoc]
      · rw [List.length_cons, hround, hafter, hrotated.survivors_pinged hnames.1 hc,
          List.append_assoc]

/-- A pass over distinct connections none of which is broken or expired closes one at most, an
idle one and only if there are more than `min_size`, pings every other exactly once, in order,
and leaves those that are neither closed nor broken in their order. -/
theorem maintain_rotates (minSize : Nat) (pings : Nat → Ping) (vector : List Pooled)
    (cache : Statement → Option StatementId) (hnames : (vector.map Pooled.name).Nodup)
    (husable : ∀ c ∈ vector, c.isUsable = true) (hcaught : ∀ i, (pings i).Caught) {r : Pass}
    (hr : maintain minSize pings vector cache = r) :
    (closedConns r.events).length ≤ 1 ∧
    (∀ c ∈ closedConns r.events, c ∈ vector ∧ c.isIdle = true ∧ minSize < vector.length) ∧
    (pingedNames r.events).reverse =
      (vector.filter fun c ↦ c ∉ closedConns r.events).map Pooled.name ∧
    r.vector = vector.filter fun c ↦
      c ∉ closedConns r.events ∧ c.name ∉ brokenNames r.events := by
  subst hr
  have hstart : (Pass.mk vector cache []).vector = vector ++ [] := (List.append_nil vector).symm
  obtain ⟨events, hevents, hrotated, hvector⟩ :=
    rotated_maintainLoop minSize kIdleDropLimit hstart husable hnames hcaught
  have hall : (maintain minSize pings vector cache).events = events :=
    hevents.trans (List.append_nil events)
  rw [hall]
  exact ⟨hrotated.drops, hrotated.closed, hrotated.pinged, hvector⟩

/-- A busy connection between two idle ones. -/
def threeConns : List Pooled :=
  [⟨0, { PoolConnection.fresh with usedStreams := 1 }⟩, ⟨1, .fresh⟩, ⟨2, .fresh⟩]

/-- The first ping times out and breaks its connection; the node has forgotten the statement
when it gets the next. -/
def timedOutThenUnprepared (i : Nat) : Ping :=
  if i = 0 then ⟨.ok [7], some .timeout, true⟩
  else ⟨.ok [7], some (.frameError kUnprepared []), false⟩

private theorem timedOutThenUnprepared_caught (i : Nat) : (timedOutThenUnprepared i).Caught := by
  unfold timedOutThenUnprepared
  split
  · constructor
    · intro e he
      cases he
    · intro e he
      cases he
      rfl
  · constructor
    · intro e he
      cases he
    · intro e he
      cases he
      rfl

/-- The first of three connections breaks, the second is closed and the third is kept. -/
theorem maintain_rotates_three : ∃ r, maintain 1 timedOutThenUnprepared threeConns
      (fun _ ↦ none) = r ∧
    closedConns r.events = [⟨1, .fresh⟩] ∧ (pingedNames r.events).reverse = [0, 2] ∧
    r.vector = [⟨2, .fresh⟩] ∧
    r.vector = threeConns.filter fun c ↦
      c ∉ closedConns r.events ∧ c.name ∉ brokenNames r.events := by
  refine ⟨_, rfl, by decide +kernel, by decide +kernel, by decide +kernel, ?_⟩
  exact (maintain_rotates 1 timedOutThenUnprepared threeConns (fun _ ↦ none) (by decide)
    (by decide) timedOutThenUnprepared_caught rfl).2.2.2

end CassandraDriver.Detail
