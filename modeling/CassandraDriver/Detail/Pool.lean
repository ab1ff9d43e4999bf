import Mathlib.Logic.Function.Basic
import CassandraDriver.Io.BufferIO
import CassandraDriver.Lib.Lts

/-!
# The connection pool

Library `Detail`. Models `src/detail/connection_pool.cpp`: `Init` with its connects,
`Acquire`, `AcquireImmediate`, `Push` and `Release`, the loop of `Maintain`, and the calls
of `Execute` and `BatchExecute` that use what `Acquire` hands out. Connections are numbered
as they are created. Breaking a connection and taking its streams need no lock, so each
round of a loop under the pool's lock is a step of its own, and so is each test that is
made outside it. Nothing in the repository sets `_expires_at` or changes `_wait_count`, and
`TryCreateConnectionAsync` is never called, so connections do not expire, `Maintain` always
runs, and only `Init` connects.
-/

namespace CassandraDriver.Detail
open CassandraDriver.Lib

/-- What the pool asks of a connection, `src/detail/connection_impl.hpp:44–53`, and whether
it has been closed or deleted. -/
structure PoolConnection where
  broken : Bool
  expired : Bool
  usedStreams : Nat
  destroyed : Bool
  deriving DecidableEq, Repr

namespace PoolConnection

/-- A connection after `Connection::Connect`. -/
def fresh : PoolConnection := ⟨false, false, 0, false⟩

/-- `IsIdle`. -/
def isIdle (c : PoolConnection) : Bool := c.usedStreams == 0

/-- The test of `Acquire`, `src/detail/connection_pool.cpp:276–284`, of `Push` and of
`Release`, after which the connection is deleted: broken, or expired and idle. -/
def isDoomed (c : PoolConnection) : Bool := c.broken || (c.expired && c.isIdle)

end PoolConnection

/-- `PoolSettings` as far as the pool's logic reads it, and the `InitMode`. -/
structure PoolSettings where
  minSize : Nat
  maxSize : Nat
  async : Bool
  deriving DecidableEq, Repr

/-- Where a connection stands on its way into the vector: before the tests of `Release`,
before those of `Push`, or before `push_back`. -/
inductive PutStage
  | release
  | push
  | pushBack
  deriving DecidableEq, Repr

/-- A connect task of `Init`: in `Connection::Connect`, in `Push`, or over. -/
inductive ConnectPhase
  | connecting
  | putting (conn : Nat) (stage : PutStage)
  | ended
  deriving DecidableEq, Repr

/-- The connection that a connect task has not pushed yet. -/
def ConnectPhase.conn? : ConnectPhase → Option Nat
  | connecting => none
  | putting c _ => some c
  | ended => none

/-- A call of `Execute` or `BatchExecute`: before or in `Acquire`, with the connection that
it returned and whether a stream is taken on it, having used a null pointer, or over. -/
inductive CallPhase
  | idle
  | holding (conn : Nat) (streaming : Bool)
  | dereferencedNull
  | over
  deriving DecidableEq, Repr

/-- What `Execute` makes of the pointer it gets: nothing on its way to `conn->` can fail. -/
def CallPhase.ofAcquired : Option Nat → CallPhase
  | some c => .holding c false
  | none => .dereferencedNull

/-- `Maintain`, `connection_pool.cpp:401`, with `pool_size` and `drop_left`: between passes,
at the head of its loop or in `AcquireImmediate`, before the idle test, before `Close`,
pinging, or in `Release` after a ping that ends the pass or not. -/
inductive MaintainPhase
  | sleeping
  | looking (poolSize dropLeft : Nat)
  | testing (conn poolSize dropLeft : Nat)
  | closing (conn poolSize dropLeft : Nat)
  | pinging (conn : Nat) (streaming : Bool) (poolSize dropLeft : Nat)
  | releasing (conn : Nat) (stage : PutStage) (aborts : Bool) (poolSize dropLeft : Nat)
  deriving DecidableEq, Repr

/-- The connection that `Maintain` has taken out of the vector. -/
def MaintainPhase.conn? : MaintainPhase → Option Nat
  | sleeping => none
  | looking .. => none
  | testing c .. => some c
  | closing c .. => some c
  | pinging c .. => some c
  | releasing c .. => some c

/-- The end of one round of the loop of `Maintain`. -/
def MaintainPhase.next (aborts : Bool) (poolSize dropLeft : Nat) : MaintainPhase :=
  if aborts then .sleeping else .looking (poolSize - 1) dropLeft

/-- Between two connections a pass has none. -/
@[simp]
theorem MaintainPhase.conn?_next (aborts : Bool) (poolSize dropLeft : Nat) :
    (next aborts poolSize dropLeft).conn? = none := by
  cases aborts <;> rfl

/-- The section that holds the lock of `_connections`, with the position of its loop: the
sweep or the selection of an `Acquire`, or an `AcquireImmediate`. -/
inductive LockedSection
  | free
  | sweeping (call it : Nat)
  | selecting (call it : Nat) (best : Option Nat)
  | scanning (it : Nat)
  deriving DecidableEq, Repr

/-- The pool with its callers. -/
structure Pool where
  settings : PoolSettings
  conns : Nat → PoolConnection
  created : Nat
  vector : List Nat
  locked : LockedSection
  connects : Nat → ConnectPhase
  calls : Nat → CallPhase
  maintain : MaintainPhase

namespace Pool

/-- The pool when `Init` has started its `min_size` connects. -/
def started (settings : PoolSettings) : Pool where
  settings := settings
  conns := fun _ ↦ .fresh
  created := 0
  vector := []
  locked := .free
  connects := fun t ↦ if t < settings.minSize then .connecting else .ended
  calls := fun _ ↦ .idle
  maintain := .sleeping

/-- `ConnectionPool::Init`, `connection_pool.cpp:101`. -/
def init (settings : PoolSettings) : Except Io.Exception Pool :=
  if settings.minSize > settings.maxSize then
    .error (.error "Cassandra pool max size is less than requested initial size")
  else .ok (started settings)

/-- What `Init` returns, when it does not throw. -/
theorem init_eq_ok {settings : PoolSettings} {p : Pool} (h : init settings = .ok p) :
    p = started settings := by
  unfold init at h
  split at h
  · cases h
  · cases h
    rfl

/-- `Init` has returned: at once when asynchronous, else after all its connects. -/
def Ready (p : Pool) : Prop :=
  p.settings.async = true ∨ ∀ t < p.settings.minSize, p.connects t = .ended

instance (p : Pool) : Decidable p.Ready := inferInstanceAs (Decidable (_ ∨ _))

/-- A connection changes. -/
def setConn (p : Pool) (c : Nat) (s : PoolConnection) : Pool :=
  { p with conns := Function.update p.conns c s }

/-- `DeleteConnection`, `connection_pool.cpp:518`, or `Close`. -/
def destroy (p : Pool) (c : Nat) : Pool := p.setConn c { p.conns c with destroyed := true }

/-- `MarkBroken`. -/
def markBroken (p : Pool) (c : Nat) : Pool := p.setConn c { p.conns c with broken := true }

/-- A stream of a connection is taken or given back. -/
def useStream (p : Pool) (c : Nat) (taken : Bool) : Pool :=
  p.setConn c { p.conns c with
    usedStreams := if taken then (p.conns c).usedStreams + 1 else (p.conns c).usedStreams - 1 }

/-- A call moves on. -/
def setCall (p : Pool) (i : Nat) (phase : CallPhase) : Pool :=
  { p with calls := Function.update p.calls i phase }

/-- A connect task moves on. -/
def setConnect (p : Pool) (t : Nat) (phase : ConnectPhase) : Pool :=
  { p with connects := Function.update p.connects t phase }

/-- The connection at a position is deleted and its pointer erased. -/
def dropAt (p : Pool) (it c : Nat) : Pool :=
  { p.destroy c with vector := p.vector.eraseIdx it }

/-- The connections, of which one changes. -/
@[simp]
theorem setConn_conns (p : Pool) (c : Nat) (s : PoolConnection) :
    (p.setConn c s).conns = Function.update p.conns c s := rfl

/-- The calls, of which one moves on. -/
@[simp]
theorem setCall_calls (p : Pool) (i : Nat) (phase : CallPhase) :
    (p.setCall i phase).calls = Function.update p.calls i phase := rfl

/-- The attempts to connect, of which one moves on. -/
@[simp]
theorem setConnect_connects (p : Pool) (t : Nat) (phase : ConnectPhase) :
    (p.setConnect t phase).connects = Function.update p.connects t phase := rfl

/-- `erase` behind the pointers that a loop has passed. -/
theorem eraseIdx_at (passed rest : List Nat) (c : Nat) :
    (passed ++ c :: rest).eraseIdx passed.length = passed ++ rest := by
  rw [List.eraseIdx_append_of_length_le (Nat.le_refl _), Nat.sub_self]
  rfl

/-- One round of the first loop of `Acquire`, `connection_pool.cpp:274–286`, or its end. -/
def sweep (p : Pool) (i it : Nat) : Pool :=
  match p.vector[it]? with
  | some c =>
    if (p.conns c).isDoomed then p.dropAt it c
    else { p with locked := .sweeping i (it + 1) }
  | none => { p with locked := .selecting i 0 none }

/-- The body of the selection loop of `Acquire`, `connection_pool.cpp:292–297`. -/
def lessLoaded (conns : Nat → PoolConnection) (best : Option Nat) (c : Nat) : Option Nat :=
  if (conns c).expired then best
  else match best with
    | none => some c
    | some b => if (conns c).usedStreams < (conns b).usedStreams then some c else some b

/-- One round of the selection loop, or its end and the return of `Acquire`. -/
def select (p : Pool) (i it : Nat) (best : Option Nat) : Pool :=
  match p.vector[it]? with
  | some c => { p with locked := .selecting i (it + 1) (lessLoaded p.conns best c) }
  | none => { p with locked := .free }.setCall i (.ofAcquired best)

/-- One round of the loop of `AcquireImmediate`, `connection_pool.cpp:487–505`, or its end. -/
def scan (p : Pool) (it n drops : Nat) : Pool :=
  match p.vector[it]? with
  | some c =>
    if (p.conns c).expired then
      if (p.conns c).isIdle then p.dropAt it c else { p with locked := .scanning (it + 1) }
    else if (p.conns c).broken then p.dropAt it c
    else { p with
      vector := p.vector.eraseIdx it
      locked := .free
      maintain := .testing c n drops }
  | none => { p with locked := .free, maintain := .sleeping }

/-- One stage of `Release`, `connection_pool.cpp:391`, and `Push`, line 214, and the stage
that comes next: both make the same tests, and `push_back` waits for the lock. -/
def put (p : Pool) (c : Nat) : PutStage → Option (Pool × Option PutStage)
  | .release => some (if (p.conns c).isDoomed then (p.destroy c, none) else (p, some .push))
  | .push => some (if (p.conns c).isDoomed then (p.destroy c, none) else (p, some .pushBack))
  | .pushBack =>
    if p.locked = .free then some ({ p with vector := p.vector ++ [c] }, none) else none

end Pool

/-- What can happen next. -/
inductive PoolEvent
  /-- `Connection::Connect` of a connect task ends, with a connection or not. -/
  | connect (task : Nat) (succeeds : Bool)
  | push (task : Nat)
  /-- A connection is marked broken, by its receiver or by a call that times out. -/
  | markBroken (conn : Nat)
  /-- `Execute` or `BatchExecute` enters `Acquire` and locks. -/
  | acquire (call : Nat)
  | sweep
  | select
  | takeStream (call : Nat)
  | giveStream (call : Nat)
  /-- The call returns or throws. -/
  | finish (call : Nat)
  | maintain
  | acquireImmediate
  | scan
  | idleTest
  | close (aborts : Bool)
  | pingTakeStream
  | pingGiveStream
  /-- The ping is over, with an exception that ends the pass or not. -/
  | pinged (aborts : Bool)
  | release
  | maintainEnds
  deriving DecidableEq, Repr

namespace Pool

/-- One step. -/
def step (p : Pool) : PoolEvent → Option Pool
  | .connect t succeeds =>
    match p.connects t with
    | .connecting =>
      if succeeds then
        some ({ p with created := p.created + 1 }.setConnect t (.putting p.created .push))
      else some (p.setConnect t .ended)
    | _ => none
  | .push t =>
    match p.connects t with
    | .putting c stage =>
      (p.put c stage).map (fun (q, next) ↦ q.setConnect t (next.elim .ended (.putting c)))
    | _ => none
  | .markBroken c => if c < p.created then some (p.markBroken c) else none
  | .acquire i =>
    match p.calls i with
    | .idle =>
      if p.Ready ∧ p.locked = .free then some { p with locked := .sweeping i 0 } else none
    | _ => none
  | .sweep =>
    match p.locked with
    | .sweeping i it => some (p.sweep i it)
    | _ => none
  | .select =>
    match p.locked with
    | .selecting i it best => some (p.select i it best)
    | _ => none
  | .takeStream i =>
    match p.calls i with
    | .holding c false => some ((p.useStream c true).setCall i (.holding c true))
    | _ => none
  | .giveStream i =>
    match p.calls i with
    | .holding c true => some ((p.useStream c false).setCall i (.holding c false))
    | _ => none
  | .finish i =>
    match p.calls i with
    | .holding _ false => some (p.setCall i .over)
    | _ => none
  | .maintain =>
    match p.maintain with
    | .sleeping =>
      if p.Ready ∧ p.locked = .free then
        some { p with maintain := .looking p.vector.length 1 }
      else none
    | _ => none
  | .acquireImmediate =>
    match p.maintain with
    | .looking (_ + 1) _ =>
      if p.locked = .free then some { p with locked := .scanning 0 } else none
    | _ => none
  | .scan =>
    match p.locked, p.maintain with
    | .scanning it, .looking n drops => some (p.scan it n drops)
    | _, _ => none
  | .idleTest =>
    match p.maintain with
    | .testing c n drops =>
      if n > p.settings.minSize ∧ drops > 0 ∧ (p.conns c).isIdle then
        some { p with maintain := .closing c n (drops - 1) }
      else some { p with maintain := .pinging c false n drops }
    | _ => none
  | .close aborts =>
    match p.maintain with
    | .closing c n drops =>
      some { p.destroy c with maintain := MaintainPhase.next aborts n drops }
    | _ => none
  | .pingTakeStream =>
    match p.maintain with
    | .pinging c false n drops =>
      some { p.useStream c true with maintain := .pinging c true n drops }
    | _ => none
  | .pingGiveStream =>
    match p.maintain with
    | .pinging c true n drops =>
      some { p.useStream c false with maintain := .pinging c false n drops }
    | _ => none
  | .pinged aborts =>
    match p.maintain with
    | .pinging c false n drops =>
      some { p with maintain := .releasing c .release aborts n drops }
    | _ => none
  | .release =>
    match p.maintain with
    | .releasing c stage aborts n drops =>
      (p.put c stage).map (fun (q, next) ↦ { q with
        maintain := next.elim (MaintainPhase.next aborts n drops)
          (fun stage ↦ .releasing c stage aborts n drops) })
    | _ => none
  | .maintainEnds =>
    match p.maintain with
    | .looking 0 _ => some { p with maintain := .sleeping }
    | _ => none

/-- What a stage of `Release` and `Push` does. -/
theorem put_cases {p q : Pool} {c : Nat} {stage : PutStage} {next : Option PutStage}
    (h : p.put c stage = some (q, next)) :
    (∃ stage', next = some stage' ∧ stage ≠ .pushBack ∧ (p.conns c).isDoomed = false ∧ q = p) ∨
    (next = none ∧ stage ≠ .pushBack ∧ (p.conns c).isDoomed = true ∧ q = p.destroy c) ∨
    (next = none ∧ stage = .pushBack ∧ p.locked = .free ∧
      q = { p with vector := p.vector ++ [c] }) := by
  cases stage with
  | release =>
    simp only [put] at h
    split at h
    · next hdoom =>
      cases h
      exact .inr (.inl ⟨rfl, by simp, hdoom, rfl⟩)
    · next hdoom =>
      cases h
      exact .inl ⟨_, rfl, by simp, Bool.not_eq_true _ ▸ hdoom, rfl⟩
  | push =>
    simp only [put] at h
    split at h
    · next hdoom =>
      cases h
      exact .inr (.inl ⟨rfl, by simp, hdoom, rfl⟩)
    · next hdoom =>
      cases h
      exact .inl ⟨_, rfl, by simp, Bool.not_eq_true _ ▸ hdoom, rfl⟩
  | pushBack =>
    simp only [put] at h
    split at h
    · next hl =>
      cases h
      exact .inr (.inr ⟨rfl, rfl, hl, rfl⟩)
    · cases h

/-- The steps of the pool, one constructor for each kind. -/
inductive Transition (p : Pool) : PoolEvent → Pool → Prop
  | connects {t} (ht : p.connects t = .connecting) : Transition p (.connect t true)
      ({ p with created := p.created + 1 }.setConnect t (.putting p.created .push))
  | connectFails {t} (ht : p.connects t = .connecting) :
      Transition p (.connect t false) (p.setConnect t .ended)
  | push {t c stage q next} (ht : p.connects t = .putting c stage)
      (hput : p.put c stage = some (q, next)) :
      Transition p (.push t) (q.setConnect t (next.elim .ended (.putting c)))
  | markBroken {c} (hc : c < p.created) : Transition p (.markBroken c) (p.markBroken c)
  | acquire {i} (hi : p.calls i = .idle) (hready : p.Ready) (hl : p.locked = .free) :
      Transition p (.acquire i) { p with locked := .sweeping i 0 }
  | sweep {i it} (hl : p.locked = .sweeping i it) : Transition p .sweep (p.sweep i it)
  | select {i it best} (hl : p.locked = .selecting i it best) :
      Transition p .select (p.select i it best)
  | takeStream {i c} (hi : p.calls i = .holding c false) :
      Transition p (.takeStream i) ((p.useStream c true).setCall i (.holding c true))
  | giveStream {i c} (hi : p.calls i = .holding c true) :
      Transition p (.giveStream i) ((p.useStream c false).setCall i (.holding c false))
  | finish {i c} (hi : p.calls i = .holding c false) :
      Transition p (.finish i) (p.setCall i .over)
  | maintain (hm : p.maintain = .sleeping) (hready : p.Ready) (hl : p.locked = .free) :
      Transition p .maintain { p with maintain := .looking p.vector.length 1 }
  | acquireImmediate {n drops} (hm : p.maintain = .looking (n + 1) drops)
      (hl : p.locked = .free) : Transition p .acquireImmediate { p with locked := .scanning 0 }
  | scan {it n drops} (hl : p.locked = .scanning it) (hm : p.maintain = .looking n drops) :
      Transition p .scan (p.scan it n drops)
  | closes {c n drops} (hm : p.maintain = .testing c n drops) (hn : n > p.settings.minSize)
      (hdrops : drops > 0) (hidle : (p.conns c).isIdle = true) :
      Transition p .idleTest { p with maintain := .closing c n (drops - 1) }
  | pings {c n drops} (hm : p.maintain = .testing c n drops) :
      Transition p .idleTest { p with maintain := .pinging c false n drops }
  | close {c n drops aborts} (hm : p.maintain = .closing c n drops) :
      Transition p (.close aborts)
        { p.destroy c with maintain := MaintainPhase.next aborts n drops }
  | pingTakeStream {c n drops} (hm : p.maintain = .pinging c false n drops) :
      Transition p .pingTakeStream
        { p.useStream c true with maintain := .pinging c true n drops }
  | pingGiveStream {c n drops} (hm : p.maintain = .pinging c true n drops) :
      Transition p .pingGiveStream
        { p.useStream c false with maintain := .pinging c false n drops }
  | pinged {c n drops aborts} (hm : p.maintain = .pinging c false n drops) :
      Transition p (.pinged aborts)
        { p with maintain := .releasing c .release aborts n drops }
  | release {c stage aborts n drops q next} (hm : p.maintain = .releasing c stage aborts n drops)
      (hput : p.put c stage = some (q, next)) : Transition p .release { q with
        maintain := next.elim (MaintainPhase.next aborts n drops)
          (fun stage ↦ .releasing c stage aborts n drops) }
  | maintainEnds {drops} (hm : p.maintain = .looking 0 drops) :
      Transition p .maintainEnds { p with maintain := .sleeping }

/-- Every step is one of them. -/
theorem transition_of_step {p q : Pool} {e : PoolEvent} (h : p.step e = some q) :
    Transition p e q := by
  cases e with
  | connect t succeeds =>
    simp only [step] at h
    split at h
    · next ht =>
      cases succeeds with
      | true =>
        cases h
        exact .connects ht
      | false =>
        cases h
        exact .connectFails ht
    · cases h
  | push t =>
    simp only [step] at h
    split at h
    · next ht =>
      obtain ⟨⟨q', next⟩, hput, rfl⟩ := Option.map_eq_some_iff.mp h
      exact .push ht hput
    · cases h
  | markBroken c =>
    simp only [step] at h
    obtain ⟨hc, rfl⟩ := Option.ite_some_none_eq_some.mp h
    exact .markBroken hc
  | acquire i =>
    simp only [step] at h
    split at h
    · next hi =>
      obtain ⟨hr, rfl⟩ := Option.ite_some_none_eq_some.mp h
      exact .acquire hi hr.1 hr.2
    · cases h
  | sweep =>
    simp only [step] at h
    split at h
    · next hl =>
      cases h
      exact .sweep hl
    · cases h
  | select =>
    simp only [step] at h
    split at h
    · next hl =>
      cases h
      exact .select hl
    · cases h
  | takeStream i =>
    simp only [step] at h
    split at h
    · next hi =>
      cases h
      exact .takeStream hi
    · cases h
  | giveStream i =>
    simp only [step] at h
    split at h
    · next hi =>
      cases h
      exact .giveStream hi
    · cases h
  | finish i =>
    simp only [step] at h
    split at h
    · next hi =>
      cases h
      exact .finish hi
    · cases h
  | maintain =>
    simp only [step] at h
    split at h
    · next hm =>
      obtain ⟨hr, rfl⟩ := Option.ite_some_none_eq_some.mp h
      exact .maintain hm hr.1 hr.2
    · cases h
  | acquireImmediate =>
    simp only [step] at h
    split at h
    · next hm =>
      obtain ⟨hl, rfl⟩ := Option.ite_some_none_eq_some.mp h
      exact .acquireImmediate hm hl
    · cases h
  | scan =>
    simp only [step] at h
    split at h
    · next hl hm =>
      cases h
      exact .scan hl hm
    · cases h
  | idleTest =>
    simp only [step] at h
    split at h
    · next hm =>
      split at h
      · next hd =>
        cases h
        exact .closes hm hd.1 hd.2.1 hd.2.2
      · cases h
        exact .pings hm
    · cases h
  | close aborts =>
    simp only [step] at h
    split at h
    · next hm =>
      cases h
      exact .close hm
    · cases h
  | pingTakeStream =>
    simp only [step] at h
    split at h
    · next hm =>
      cases h
      exact .pingTakeStream hm
    · cases h
  | pingGiveStream =>
    simp only [step] at h
    split at h
    · next hm =>
      cases h
      exact .pingGiveStream hm
    · cases h
  | pinged aborts =>
    simp only [step] at h
    split at h
    · next hm =>
      cases h
      exact .pinged hm
    · cases h
  | release =>
    simp only [step] at h
    split at h
    · next hm =>
      obtain ⟨⟨q', next⟩, hput, rfl⟩ := Option.map_eq_some_iff.mp h
      exact .release hm hput
    · cases h
  | maintainEnds =>
    simp only [step] at h
    split at h
    · next hm =>
      cases h
      exact .maintainEnds hm
    · cases h

end Pool
end CassandraDriver.Detail
