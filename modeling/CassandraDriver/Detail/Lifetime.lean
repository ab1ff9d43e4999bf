import CassandraDriver.Detail.Acquire
import CassandraDriver.Detail.MaintainSteps

/-!
# The lifetime of connections

Library `Detail`. The pool with a clock: `IsExpired` of `src/detail/connection_impl.hpp:44` and
the operations of `src/detail/connection_pool.cpp` that test it, each in one piece: the flags and
the streams of the connections stay as they are during one of them. The constructor of
`ConnectionImpl` copies the settings and leaves `_expires_at` empty, and nothing else assigns to
it.
-/

namespace CassandraDriver.Detail
open CassandraDriver.Lib

/-- A connection with the time at which it was established. -/
structure TimedConnection where
  established : Nat
  expiresAt : Option Nat
  broken : Bool
  usedStreams : Nat
  deriving DecidableEq, Repr

namespace TimedConnection

/-- `ConnectionImpl::ConnectionImpl`, `src/detail/connection_impl.cpp:127`, and the handshake. -/
def connect (_maxTtl now : Nat) : TimedConnection := ⟨now, none, false, 0⟩

/-- `IsExpired`. -/
def isExpired (now : Nat) (c : TimedConnection) : Bool := c.expiresAt.any (fun at' ↦ at' < now)

/-- What the pool asks of a connection. -/
def seen (now : Nat) (c : TimedConnection) : PoolConnection :=
  ⟨c.broken, c.isExpired now, c.usedStreams, false⟩

end TimedConnection

/-- The pool: `max_ttl`, the clock, the connections, the vector, and the connections that a
connect task or `Maintain` has out of it. -/
structure TimedPool where
  maxTtl : Nat
  now : Nat
  conns : Nat → TimedConnection
  created : Nat
  vector : List Nat
  out : List Nat

/-- What can happen next. -/
inductive TimedEvent
  | tick (seconds : Nat)
  /-- A handshake succeeds. -/
  | connect
  /-- `Push`, also from `Release`. -/
  | push (conn : Nat)
  /-- `Maintain` closes the connection it has. -/
  | close (conn : Nat)
  | markBroken (conn : Nat)
  | useStream (conn : Nat) (taken : Bool)
  | acquire
  | acquireImmediate
  deriving DecidableEq, Repr

namespace TimedPool

/-- A new pool. -/
def init (maxTtl : Nat) : TimedPool := ⟨maxTtl, 0, fun _ ↦ .connect maxTtl 0, 0, [], []⟩

/-- The connections as they are seen now. -/
def seen (p : TimedPool) (c : Nat) : PoolConnection := (p.conns c).seen p.now

/-- A connection changes. -/
def setConn (p : TimedPool) (c : Nat) (conn : TimedConnection) : TimedPool :=
  { p with conns := Function.update p.conns c conn }

/-- The vector after the first loop of `Acquire`, `src/detail/connection_pool.cpp:274–286`. -/
def swept (p : TimedPool) : List Nat := p.vector.filter (fun c ↦ !(p.seen c).isDoomed)

/-- What `Acquire` returns, where every caller passes no deadline: the second loop,
`connection_pool.cpp:291–296`. -/
def acquired (p : TimedPool) : Option Nat := p.swept.foldl (Pool.lessLoaded p.seen) none

/-- The loop of `AcquireImmediate`, `connection_pool.cpp:495–513`, on the rest of the vector:
what stays in it and what is returned. -/
def scan (p : TimedPool) : List Nat → List Nat × Option Nat
  | [] => ([], none)
  | c :: cs =>
    if (p.seen c).expired then
      if (p.seen c).isIdle then p.scan cs else (c :: (p.scan cs).1, (p.scan cs).2)
    else if (p.seen c).broken then p.scan cs
    else (cs, some c)

/-- `Acquire` here is the function that the steps of the pool under its lock compute, on the
connections as they are seen now. -/
theorem acquire_seen (p : TimedPool) :
    ConnectionPool.acquire p.seen false p.vector =
      ⟨p.swept, ConnectionPool.doomed p.seen p.vector, p.acquired⟩ := by
  rw [ConnectionPool.acquire_eq, ← ConnectionPool.foldl_lessLoaded]
  rfl

/-- `AcquireImmediate` here is the function that the steps of a pass compute. -/
theorem acquireImmediate_seen (p : TimedPool) (cs : List Nat) :
    (acquireImmediate (pooled p.seen cs)).left = pooled p.seen (p.scan cs).1 ∧
      (acquireImmediate (pooled p.seen cs)).found = (p.scan cs).2.map (fun c ↦ ⟨c, p.seen c⟩) := by
  induction cs with
  | nil => exact ⟨rfl, rfl⟩
  | cons c cs ih =>
    obtain ⟨hleft, hfound⟩ := ih
    have hcons : pooled p.seen (c :: cs) = ⟨c, p.seen c⟩ :: pooled p.seen cs := rfl
    have hidle : Pooled.isIdle ⟨c, p.seen c⟩ = (p.seen c).isIdle := rfl
    rw [hcons, acquireImmediate, scan]
    simp only [hidle]
    split
    · split
      · exact ⟨hleft, hfound⟩
      · exact ⟨congrArg (⟨c, p.seen c⟩ :: ·) hleft, hfound⟩
    · split
      · exact ⟨hleft, hfound⟩
      · exact ⟨rfl, rfl⟩

/-- One step. -/
def step (p : TimedPool) : TimedEvent → Option TimedPool
  | .tick seconds => some { p with now := p.now + seconds }
  | .connect => some { p.setConn p.created (.connect p.maxTtl p.now) with
      created := p.created + 1
      out := p.created :: p.out }
  | .push c =>
    if c ∈ p.out then
      some { p with
        vector := if (p.seen c).isDoomed then p.vector else p.vector ++ [c]
        out := p.out.erase c }
    else none
  | .close c => if c ∈ p.out then some { p with out := p.out.erase c } else none
  | .markBroken c => some (p.setConn c { p.conns c with broken := true })
  | .useStream c taken => some (p.setConn c { p.conns c with
      usedStreams := if taken then (p.conns c).usedStreams + 1 else (p.conns c).usedStreams - 1 })
  | .acquire => some { p with vector := p.swept }
  | .acquireImmediate => some { p with
      vector := (p.scan p.vector).1
      out := (p.scan p.vector).2.toList ++ p.out }

/-- The connection was established more than `max_ttl` ago. -/
def Old (p : TimedPool) (c : Nat) : Prop := (p.conns c).established + p.maxTtl < p.now

/-- What the lifetime limit asks of a step: `Acquire` and `AcquireImmediate` return no old
connection, and `Acquire` leaves no old idle one in the vector. -/
def Respects (p : TimedPool) : TimedEvent → Prop
  | .acquire => (∀ c, p.acquired = some c → ¬ p.Old c) ∧
      ∀ c ∈ p.vector, p.Old c → (p.seen c).isIdle = true → c ∉ p.swept
  | .acquireImmediate => ∀ c, (p.scan p.vector).2 = some c → ¬ p.Old c
  | _ => True

/-- The connections in the vector that are not broken. -/
def usable (p : TimedPool) : List Nat := p.vector.filter (fun c ↦ !(p.conns c).broken)

/-- When it does so: at `Acquire`, every old connection that is not broken is busy and a younger
one is ahead of it, by used streams and then by position; at `AcquireImmediate`, a younger one
stands before it. -/
def YoungAhead (p : TimedPool) : TimedEvent → Prop
  | .acquire => ∀ c ∈ p.usable, p.Old c → (p.seen c).isIdle = false ∧
      ∃ d ∈ p.usable, ¬ p.Old d ∧ Ahead (fun c ↦ (p.conns c).usedStreams) p.usable d c
  | .acquireImmediate => ∀ c ∈ p.usable, p.Old c →
      ∃ d ∈ p.usable, ¬ p.Old d ∧ p.usable.idxOf d < p.usable.idxOf c
  | _ => True

/-- No connection has a time at which it expires. -/
def Unlimited (p : TimedPool) : Prop := ∀ c, (p.conns c).expiresAt = none

namespace Unlimited

variable {p q : TimedPool}

private theorem init (maxTtl : Nat) : Unlimited (init maxTtl) := fun _ ↦ rfl

private theorem setConn (h : Unlimited p) {c : Nat} {conn : TimedConnection}
    (hconn : conn.expiresAt = none) : Unlimited (p.setConn c conn) := by
  intro d
  change (Function.update p.conns c conn d).expiresAt = none
  rw [Function.update_apply]
  split
  · exact hconn
  · exact h d

/-- Nothing assigns to `_expires_at`. -/
theorem step (h : Unlimited p) {e : TimedEvent} (hstep : p.step e = some q) : Unlimited q := by
  cases e with
  | tick seconds =>
    cases hstep
    exact h
  | connect =>
    cases hstep
    exact h.setConn rfl
  | push c =>
    simp only [TimedPool.step] at hstep
    split at hstep
    · cases hstep
      exact h
    · cases hstep
  | close c =>
    simp only [TimedPool.step] at hstep
    split at hstep
    · cases hstep
      exact h
    · cases hstep
  | markBroken c =>
    cases hstep
    exact h.setConn (h c)
  | useStream c taken =>
    cases hstep
    exact h.setConn (h c)
  | acquire =>
    cases hstep
    exact h
  | acquireImmediate =>
    cases hstep
    exact h

private theorem expired (h : Unlimited p) (c : Nat) : (p.seen c).expired = false := by
  change (p.conns c).expiresAt.any _ = false
  rw [h c]
  rfl

private theorem swept (h : Unlimited p) : p.swept = p.usable := by
  refine List.filter_congr (fun c _ ↦ ?_)
  simp only [PoolConnection.isDoomed, h.expired c, Bool.false_and, Bool.or_false]
  rfl

private theorem lessLoaded (h : Unlimited p) :
    Pool.lessLoaded p.seen = pick (fun c ↦ (p.conns c).usedStreams) := by
  funext best c
  simp only [Pool.lessLoaded, h.expired c, Bool.false_eq_true, if_false]
  cases best with
  | none => rfl
  | some b => rfl

/-- `Acquire` returns the least loaded connection that is not broken. -/
theorem acquired (h : Unlimited p) :
    p.acquired = firstMin (fun c ↦ (p.conns c).usedStreams) p.usable := by
  rw [TimedPool.acquired, h.swept, h.lessLoaded]
  rfl

/-- `AcquireImmediate` returns the first connection that is not broken. -/
theorem scan (h : Unlimited p) (cs : List Nat) :
    (p.scan cs).2 = (cs.filter (fun c ↦ !(p.conns c).broken)).head? := by
  induction cs with
  | nil => rfl
  | cons c cs ih =>
    have hseen : (p.seen c).broken = (p.conns c).broken := rfl
    simp only [TimedPool.scan, h.expired c, hseen, List.filter_cons]
    cases hbroken : (p.conns c).broken with
    | true => simpa using ih
    | false => simp

/-- `Acquire` respects the limit exactly when a young connection is ahead of every old one. -/
theorem acquire_iff (h : Unlimited p) : p.Respects .acquire ↔ p.YoungAhead .acquire := by
  simp only [Respects, YoungAhead, h.acquired, h.swept]
  constructor
  · rintro ⟨hreturned, hremoved⟩ c hc hold
    have hvector : c ∈ p.vector := (List.mem_filter.mp hc).1
    have hbusy : (p.seen c).isIdle = false := by
      by_contra hidle
      exact hremoved c hvector hold (Bool.not_eq_false _ ▸ hidle) hc
    refine ⟨hbusy, ?_⟩
    rcases firstMin_spec (fun c ↦ (p.conns c).usedStreams) p.usable with
      ⟨-, hnil⟩ | ⟨d, hd, hsome, hleast⟩
    · rw [hnil] at hc
      cases hc
    · have hyoung := hreturned d hsome
      have hne : d ≠ c := by
        rintro rfl
        exact hyoung hold
      exact ⟨d, hd, hyoung, ahead_of_ne hd hne (hleast c hc)⟩
  · intro hcond
    constructor
    · intro c hsome hold
      rcases firstMin_spec (fun c ↦ (p.conns c).usedStreams) p.usable with
        ⟨hnone, -⟩ | ⟨d, hd, hmin, hleast⟩
      · rw [hnone] at hsome
        cases hsome
      · rw [hmin] at hsome
        cases hsome
        obtain ⟨-, b, hb, -, hahead⟩ := hcond c hd hold
        exact hleast b hb hahead
    · intro c _ hold hidle hc
      rw [(hcond c hc hold).1] at hidle
      cases hidle

/-- So does `AcquireImmediate`, by position. -/
theorem acquireImmediate_iff (h : Unlimited p) :
    p.Respects .acquireImmediate ↔ p.YoungAhead .acquireImmediate := by
  simp only [Respects, YoungAhead, h.scan]
  change (∀ c, p.usable.head? = some c → ¬ p.Old c) ↔ _
  cases husable : p.usable with
  | nil => simp
  | cons d ds =>
    constructor
    · intro hreturned c hc hold
      have hyoung := hreturned d rfl
      have hne : d ≠ c := by
        rintro rfl
        exact hyoung hold
      refine ⟨d, List.mem_cons_self, hyoung, ?_⟩
      simp [hne]
    · intro hcond c hhead hold
      cases hhead
      obtain ⟨b, -, -, hlt⟩ := hcond d List.mem_cons_self hold
      simp at hlt

end Unlimited

/-- The lifetime limit is respected along a run exactly when, at each `Acquire` and
`AcquireImmediate` of it, a young connection is ahead of every old one that is not broken. -/
theorem lifetime_respected_iff (maxTtl : Nat) (run : List TimedEvent) :
    Along step Respects (init maxTtl) run ↔ Along step YoungAhead (init maxTtl) run := by
  refine along_congr (I := Unlimited) (fun p e q h hstep ↦ h.step hstep) ?_ (.init maxTtl) run
  intro p e q h hstep
  cases e with
  | acquire => exact h.acquire_iff
  | acquireImmediate => exact h.acquireImmediate_iff
  | tick seconds => exact Iff.rfl
  | connect => exact Iff.rfl
  | push c => exact Iff.rfl
  | close c => exact Iff.rfl
  | markBroken c => exact Iff.rfl
  | useStream c taken => exact Iff.rfl

/-- A limit of ten, and an `Acquire` eleven after the only connection was established. -/
theorem old_connection_acquired :
    ¬ Along step Respects (init 10) [.connect, .push 0, .tick 11, .acquire] := by
  rintro ⟨-, -, -, ⟨hreturned, -⟩, -⟩
  exact hreturned 0 (by decide) (by unfold Old; decide)

end TimedPool
end CassandraDriver.Detail
