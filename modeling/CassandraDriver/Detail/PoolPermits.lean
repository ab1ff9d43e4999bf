import CassandraDriver.Detail.Pool
import CassandraDriver.Lib.Ledger

/-!
# Size permits

Library `Detail`. Models where the locks of `_size_semaphore` and `_connecting_semaphore` go:
through `Init`, `TryCreateConnectionAsync`, `Connect` and `DoConnect` of
`src/detail/connection_pool.cpp`, `Connection::Connect` of `src/detail/connection.cpp`, and the
constructor, destructor and `Close` of `ConnectionImpl`, `src/detail/connection_impl.cpp`. Every
stage of a connect may throw; a lock whose owner goes away is released.
-/

namespace CassandraDriver.Detail
open CassandraDriver.Lib

/-- The largest `std::size_t`. -/
def sizeMax : Nat := 2 ^ 64 - 1

/-- `kUnlimitedConnecting`, `src/detail/connection_pool.cpp:45`. -/
def kUnlimitedConnecting : Nat := sizeMax

/-- `PoolSettings` with the limit on connecting; all three numbers are `std::size_t`. -/
structure LimitSettings extends PoolSettings where
  connectingLimit : Nat
  minSize_le : minSize ≤ sizeMax
  maxSize_le : maxSize ≤ sizeMax
  connectingLimit_le : connectingLimit ≤ sizeMax

namespace LimitSettings

/-- The capacity of `_size_semaphore`, `connection_pool.cpp:69–72`. -/
def sizeCapacity (settings : LimitSettings) : Nat :=
  if settings.connectingLimit ≠ 0 then settings.connectingLimit else kUnlimitedConnecting

/-- The capacity of `_connecting_semaphore`, `connection_pool.cpp:73`. -/
def connectingCapacity (_ : LimitSettings) : Nat := kUnlimitedConnecting

end LimitSettings

/-- `Connection::Connect` behind the construction of its `ConnectionImpl`: resolving, in
`TcpConnect` with addresses left, and in the two exchanges of `CqlHandshake`. -/
inductive BuildStage
  | resolving
  | tcp (addresses : Nat)
  | options
  | startup
  deriving DecidableEq, Repr

/-- A connect task: not started, waiting for a permit, at the start of `DoConnect`, with the
lock of `_connecting_semaphore` but no `ConnectionImpl` yet, building one, in `Push`, or over. -/
inductive AttemptPhase
  | spawned (permit : Option Nat)
  | waiting
  | entered (permit : Option Nat)
  | connecting (permit : Nat)
  | building (conn : Nat) (stage : BuildStage)
  | pushing (conn : Nat)
  | ended (success : Bool)
  deriving DecidableEq, Repr

namespace AttemptPhase

/-- The permit in the hands of the task itself. -/
def permit? : AttemptPhase → Option Nat
  | spawned permit => permit
  | waiting => none
  | entered permit => permit
  | connecting permit => some permit
  | building .. => none
  | pushing _ => none
  | ended _ => none

/-- An attempt that is over has no permit. -/
@[simp]
theorem permit?_ended (success : Bool) : (ended success).permit? = none := rfl

/-- The task holds a lock of `_connecting_semaphore`. -/
def inProgress : AttemptPhase → Bool
  | connecting _ => true
  | building .. => true
  | pushing _ => true
  | _ => false

/-- The task is over. -/
def isEnded : AttemptPhase → Bool
  | ended _ => true
  | _ => false

end AttemptPhase

/-- Whose a `ConnectionImpl` is: its connect task's, the pool's, or nobody's. -/
inductive ConnectionPlace
  | building | pooled | out
  deriving DecidableEq, Repr

/-- `ConnectionImpl` with its `_pool_size_lock`, and whether `Close` has been called on it. -/
structure PermitConnection where
  permit : Option Nat
  place : ConnectionPlace
  closed : Bool
  destroyed : Bool
  deriving DecidableEq, Repr

/-- The task that `ConnectionImpl::Close` starts, with the lock that it was given. -/
structure CloseTask where
  permit : Option Nat
  finished : Bool
  deriving DecidableEq, Repr

/-- The semaphore's count and everything that can have a permit; permits are numbered. -/
structure PermitPool where
  settings : LimitSettings
  used : Nat
  issued : Nat
  attempts : List AttemptPhase
  connections : List PermitConnection
  closeTasks : List CloseTask

/-- What can happen next. -/
inductive PermitEvent
  /-- A round of the loop of `Init`. -/
  | spawn
  /-- `TryCreateConnectionAsync`, with few recent errors and few pending connects or not. -/
  | tryCreate (fewErrors fewPending : Bool)
  /-- A task is cancelled before it has started. -/
  | cancel (task : Nat)
  | start (task : Nat)
  | lockSize (task : Nat)
  | sizeTimeout (task : Nat) (cancelled : Bool)
  | leave (task : Nat)
  | lockConnecting (task : Nat)
  | connectingTimeout (task : Nat) (cancelled : Bool)
  | allocationFails (task : Nat)
  | construct (task : Nat)
  | resolve (task addresses : Nat)
  | tcp (task : Nat) (connects : Bool)
  | options (task : Nat) (succeeds : Bool)
  | startup (task : Nat) (succeeds : Bool)
  /-- `Push`; it may find the connection broken. -/
  | push (task : Nat) (broken : Bool)
  /-- A connection of the pool is deleted. -/
  | drop (conn : Nat)
  /-- `Maintain` closes a connection of the pool. -/
  | close (conn : Nat)
  /-- A closed connection is deleted. -/
  | destroy (conn : Nat)
  | closeEnds (task : Nat)
  deriving DecidableEq, Repr

namespace PermitPool

/-- The pool before the loop of `Init`. -/
def empty (settings : LimitSettings) : PermitPool := ⟨settings, 0, 0, [], [], []⟩

/-- `ConnectionPool::Init` up to its loop, `connection_pool.cpp:101–110`. -/
def init (settings : LimitSettings) : Except Io.Exception PermitPool :=
  if settings.minSize > settings.maxSize then
    .error (.error "Cassandra pool max size is less than requested initial size")
  else .ok (empty settings)

/-- What `Init` starts with, when it does not throw. -/
theorem init_eq_ok {settings : LimitSettings} {s : PermitPool} (h : init settings = .ok s) :
    s = empty settings := by
  unfold init at h
  split at h
  · cases h
  · cases h
    rfl

/-- The loop of `Init` is over and, unless asynchronous, all its connects are. -/
def Ready (s : PermitPool) : Prop :=
  s.settings.minSize ≤ s.attempts.length ∧
    (s.settings.async = true ∨ ∀ a ∈ s.attempts.take s.settings.minSize, a.isEnded = true)

instance (s : PermitPool) : Decidable s.Ready := inferInstanceAs (Decidable (_ ∧ _))

/-- A permit is to be had. -/
def SizeFree (s : PermitPool) : Prop := s.used < s.settings.sizeCapacity

instance (s : PermitPool) : Decidable s.SizeFree := inferInstanceAs (Decidable (_ < _))

/-- The locks of `_connecting_semaphore` that are held. -/
def connectingUsed (s : PermitPool) : Nat := s.attempts.countP AttemptPhase.inProgress

/-- A task moves on. -/
def setAttempt (s : PermitPool) (i : Nat) (phase : AttemptPhase) : PermitPool :=
  { s with attempts := s.attempts.set i phase }

/-- A permit is taken. -/
def take (s : PermitPool) : PermitPool := { s with used := s.used + 1, issued := s.issued + 1 }

/-- `~SemaphoreLock`. -/
def release (s : PermitPool) (permit : Option Nat) : PermitPool :=
  { s with used := s.used - permit.toList.length }

/-- `Connect` with a lock from `std::try_to_lock`. -/
def connect (s : PermitPool) : PermitPool :=
  if s.SizeFree then { s.take with attempts := s.attempts ++ [.spawned (some s.issued)] }
  else { s with attempts := s.attempts ++ [.spawned none] }

/-- `ConnectionImpl::Close`, `src/detail/connection_impl.cpp:155`: its lock, if it still has
one, goes to the new task. -/
def closeImpl (s : PermitPool) (c : Nat) (conn : PermitConnection) (destroys : Bool) :
    PermitPool :=
  { s with
    connections := s.connections.set c ⟨none, .out, true, destroys⟩
    closeTasks := s.closeTasks ++ [⟨conn.permit, false⟩] }

/-- An exception leaves `Connection::Connect`, and with it goes the connection it was building. -/
def buildFails (s : PermitPool) (i c : Nat) : Option PermitPool :=
  s.connections[c]?.map (fun conn ↦ (s.closeImpl c conn true).setAttempt i (.ended false))

/-- The constructor of `ConnectionImpl` takes the lock over. -/
def beginBuild (s : PermitPool) (i permit : Nat) : PermitPool :=
  { s with
    connections := s.connections ++ [⟨some permit, .building, false, false⟩]
    attempts := s.attempts.set i (.building s.connections.length .resolving) }

/-- `Push` of a sound connection and the end of its task. -/
def store (s : PermitPool) (i c : Nat) (conn : PermitConnection) : PermitPool :=
  { s with
    connections := s.connections.set c { conn with place := .pooled }
    attempts := s.attempts.set i (.ended true) }

/-- One step. -/
def step (s : PermitPool) : PermitEvent → Option PermitPool
  | .spawn => if s.attempts.length < s.settings.minSize then some s.connect else none
  | .tryCreate fewErrors fewPending =>
    if s.Ready then
      some (if fewErrors = true ∧ (s.SizeFree ∨ fewPending = true) then s.connect else s)
    else none
  | .cancel i =>
    match s.attempts[i]? with
    | some (.spawned permit) => some ((s.release permit).setAttempt i (.ended false))
    | _ => none
  | .start i =>
    match s.attempts[i]? with
    | some (.spawned (some permit)) => some (s.setAttempt i (.entered (some permit)))
    | some (.spawned none) => some (s.setAttempt i .waiting)
    | _ => none
  | .lockSize i =>
    match s.attempts[i]? with
    | some .waiting =>
      if s.SizeFree then some (s.take.setAttempt i (.entered (some s.issued))) else none
    | _ => none
  | .sizeTimeout i cancelled =>
    match s.attempts[i]? with
    | some .waiting =>
      if cancelled = true ∨ ¬ s.SizeFree then some (s.setAttempt i (.entered none)) else none
    | _ => none
  | .leave i =>
    match s.attempts[i]? with
    | some (.entered none) => some (s.setAttempt i (.ended false))
    | _ => none
  | .lockConnecting i =>
    match s.attempts[i]? with
    | some (.entered (some permit)) =>
      if s.connectingUsed < s.settings.connectingCapacity then
        some (s.setAttempt i (.connecting permit))
      else none
    | _ => none
  | .connectingTimeout i cancelled =>
    match s.attempts[i]? with
    | some (.entered (some permit)) =>
      if cancelled = true ∨ ¬ s.connectingUsed < s.settings.connectingCapacity then
        some ((s.release (some permit)).setAttempt i (.ended false))
      else none
    | _ => none
  | .allocationFails i =>
    match s.attempts[i]? with
    | some (.connecting permit) => some ((s.release (some permit)).setAttempt i (.ended false))
    | _ => none
  | .construct i =>
    match s.attempts[i]? with
    | some (.connecting permit) =>
      some (s.beginBuild i permit)
    | _ => none
  | .resolve i addresses =>
    match s.attempts[i]? with
    | some (.building c .resolving) =>
      if addresses = 0 then s.buildFails i c
      else some (s.setAttempt i (.building c (.tcp addresses)))
    | _ => none
  | .tcp i connects =>
    match s.attempts[i]? with
    | some (.building c (.tcp addresses)) =>
      if connects = true then some (s.setAttempt i (.building c .options))
      else if addresses ≤ 1 then s.buildFails i c
      else some (s.setAttempt i (.building c (.tcp (addresses - 1))))
    | _ => none
  | .options i succeeds =>
    match s.attempts[i]? with
    | some (.building c .options) =>
      if succeeds = true then some (s.setAttempt i (.building c .startup)) else s.buildFails i c
    | _ => none
  | .startup i succeeds =>
    match s.attempts[i]? with
    | some (.building c .startup) =>
      if succeeds = true then some (s.setAttempt i (.pushing c)) else s.buildFails i c
    | _ => none
  | .push i broken =>
    match s.attempts[i]? with
    | some (.pushing c) =>
      s.connections[c]?.map (fun conn ↦
        if broken = true then (s.closeImpl c conn true).setAttempt i (.ended true)
        else s.store i c conn)
    | _ => none
  | .drop c =>
    match s.connections[c]? with
    | some conn => if conn.place = .pooled then some (s.closeImpl c conn true) else none
    | none => none
  | .close c =>
    match s.connections[c]? with
    | some conn => if conn.place = .pooled then some (s.closeImpl c conn false) else none
    | none => none
  | .destroy c =>
    match s.connections[c]? with
    | some conn =>
      if conn.closed = true ∧ conn.destroyed = false then some (s.closeImpl c conn true) else none
    | none => none
  | .closeEnds k =>
    match s.closeTasks[k]? with
    | some task =>
      if task.finished = false then
        some { s.release task.permit with closeTasks := s.closeTasks.set k ⟨none, true⟩ }
      else none
    | none => none

/-- A task goes from one phase to the next and keeps what it has. -/
inductive Moves (s : PermitPool) (i : Nat) : PermitEvent → AttemptPhase → AttemptPhase → Prop
  | start {permit} : Moves s i (.start i) (.spawned (some permit)) (.entered (some permit))
  | wait : Moves s i (.start i) (.spawned none) .waiting
  | timeout {cancelled} (h : cancelled = true ∨ ¬ s.SizeFree) :
      Moves s i (.sizeTimeout i cancelled) .waiting (.entered none)
  | leave : Moves s i (.leave i) (.entered none) (.ended false)
  | lockConnecting {permit} (h : s.connectingUsed < s.settings.connectingCapacity) :
      Moves s i (.lockConnecting i) (.entered (some permit)) (.connecting permit)
  | resolve {c addresses} (h : addresses ≠ 0) :
      Moves s i (.resolve i addresses) (.building c .resolving) (.building c (.tcp addresses))
  | tcp {c addresses} :
      Moves s i (.tcp i true) (.building c (.tcp addresses)) (.building c .options)
  | nextAddress {c addresses} (h : 1 < addresses) : Moves s i (.tcp i false)
      (.building c (.tcp addresses)) (.building c (.tcp (addresses - 1)))
  | options {c} : Moves s i (.options i true) (.building c .options) (.building c .startup)
  | startup {c} : Moves s i (.startup i true) (.building c .startup) (.pushing c)

/-- A task ends and its permit is released. -/
inductive GivesUp (s : PermitPool) (i : Nat) : PermitEvent → AttemptPhase → Prop
  | cancel {permit} : GivesUp s i (.cancel i) (.spawned permit)
  | connectingTimeout {permit cancelled}
      (h : cancelled = true ∨ ¬ s.connectingUsed < s.settings.connectingCapacity) :
      GivesUp s i (.connectingTimeout i cancelled) (.entered (some permit))
  | allocationFails {permit} : GivesUp s i (.allocationFails i) (.connecting permit)

/-- A stage of `Connection::Connect` throws. -/
inductive Throws (i : Nat) : PermitEvent → BuildStage → Prop
  | resolve : Throws i (.resolve i 0) .resolving
  | tcp {addresses} (h : addresses ≤ 1) : Throws i (.tcp i false) (.tcp addresses)
  | options : Throws i (.options i false) .options
  | startup : Throws i (.startup i false) .startup

/-- `Close` is called on a connection that no task is building, or it is deleted. -/
inductive Closes (c : Nat) : PermitEvent → PermitConnection → Bool → Prop
  | drop {conn} (h : conn.place = .pooled) : Closes c (.drop c) conn true
  | close {conn} (h : conn.place = .pooled) : Closes c (.close c) conn false
  | destroy {conn} (h : conn.closed = true ∧ conn.destroyed = false) :
      Closes c (.destroy c) conn true

/-- The steps, one constructor for each way in which permits move. -/
inductive Transition (s : PermitPool) : PermitEvent → PermitPool → Prop
  | spawn (h : s.attempts.length < s.settings.minSize) : Transition s .spawn s.connect
  | tryCreate {fewErrors fewPending} (h : s.Ready) :
      Transition s (.tryCreate fewErrors fewPending) s.connect
  | tooMany {fewErrors fewPending} (h : s.Ready) :
      Transition s (.tryCreate fewErrors fewPending) s
  | moves {e i a b} (hi : s.attempts[i]? = some a) (h : Moves s i e a b) :
      Transition s e (s.setAttempt i b)
  | lockSize {i} (hi : s.attempts[i]? = some .waiting) (h : s.SizeFree) :
      Transition s (.lockSize i) (s.take.setAttempt i (.entered (some s.issued)))
  | givesUp {e i a} (hi : s.attempts[i]? = some a) (h : GivesUp s i e a) :
      Transition s e ((s.release a.permit?).setAttempt i (.ended false))
  | construct {i permit} (hi : s.attempts[i]? = some (.connecting permit)) :
      Transition s (.construct i) (s.beginBuild i permit)
  | throws {e i c stage conn} (hi : s.attempts[i]? = some (.building c stage))
      (hc : s.connections[c]? = some conn) (h : Throws i e stage) :
      Transition s e ((s.closeImpl c conn true).setAttempt i (.ended false))
  | store {i c conn} (hi : s.attempts[i]? = some (.pushing c))
      (hc : s.connections[c]? = some conn) : Transition s (.push i false) (s.store i c conn)
  | pushBroken {i c conn} (hi : s.attempts[i]? = some (.pushing c))
      (hc : s.connections[c]? = some conn) :
      Transition s (.push i true) ((s.closeImpl c conn true).setAttempt i (.ended true))
  | closes {e c conn destroys} (hc : s.connections[c]? = some conn)
      (h : Closes c e conn destroys) : Transition s e (s.closeImpl c conn destroys)
  | closeEnds {k task} (hk : s.closeTasks[k]? = some task) (h : task.finished = false) :
      Transition s (.closeEnds k)
        { s.release task.permit with closeTasks := s.closeTasks.set k ⟨none, true⟩ }

private theorem transition_of_buildFails {s q : PermitPool} {e : PermitEvent} {i c : Nat}
    {stage : BuildStage} (hi : s.attempts[i]? = some (.building c stage))
    (hthrows : Throws i e stage) (h : s.buildFails i c = some q) : Transition s e q := by
  obtain ⟨conn, hc, rfl⟩ := Option.map_eq_some_iff.mp h
  exact .throws hi hc hthrows

/-- Every step is one of them. -/
theorem transition_of_step {s q : PermitPool} {e : PermitEvent} (h : s.step e = some q) :
    Transition s e q := by
  cases e with
  | spawn =>
    simp only [step] at h
    obtain ⟨hlength, rfl⟩ := Option.ite_some_none_eq_some.mp h
    exact .spawn hlength
  | tryCreate fewErrors fewPending =>
    simp only [step] at h
    obtain ⟨hready, rfl⟩ := Option.ite_some_none_eq_some.mp h
    split
    · exact .tryCreate hready
    · exact .tooMany hready
  | cancel i =>
    simp only [step] at h
    split at h
    · next hi =>
      cases h
      exact .givesUp hi .cancel
    · cases h
  | start i =>
    simp only [step] at h
    split at h
    · next hi =>
      cases h
      exact .moves hi .start
    · next hi =>
      cases h
      exact .moves hi .wait
    · cases h
  | lockSize i =>
    simp only [step] at h
    split at h
    · next hi =>
      obtain ⟨hfree, rfl⟩ := Option.ite_some_none_eq_some.mp h
      exact .lockSize hi hfree
    · cases h
  | sizeTimeout i cancelled =>
    simp only [step] at h
    split at h
    · next hi =>
      obtain ⟨hfull, rfl⟩ := Option.ite_some_none_eq_some.mp h
      exact .moves hi (.timeout hfull)
    · cases h
  | leave i =>
    simp only [step] at h
    split at h
    · next hi =>
      cases h
      exact .moves hi .leave
    · cases h
  | lockConnecting i =>
    simp only [step] at h
    split at h
    · next hi =>
      obtain ⟨hfree, rfl⟩ := Option.ite_some_none_eq_some.mp h
      exact .moves hi (.lockConnecting hfree)
    · cases h
  | connectingTimeout i cancelled =>
    simp only [step] at h
    split at h
    · next hi =>
      obtain ⟨hfull, rfl⟩ := Option.ite_some_none_eq_some.mp h
      exact .givesUp hi (.connectingTimeout hfull)
    · cases h
  | allocationFails i =>
    simp only [step] at h
    split at h
    · next hi =>
      cases h
      exact .givesUp hi .allocationFails
    · cases h
  | construct i =>
    simp only [step] at h
    split at h
    · next hi =>
      cases h
      exact .construct hi
    · cases h
  | resolve i addresses =>
    simp only [step] at h
    split at h
    · next hi =>
      split at h
      · next hnone =>
        subst hnone
        exact transition_of_buildFails hi .resolve h
      · next hsome =>
        cases h
        exact .moves hi (.resolve hsome)
    · cases h
  | tcp i connects =>
    simp only [step] at h
    split at h
    · next hi =>
      split at h
      · next hconnects =>
        subst hconnects
        cases h
        exact .moves hi .tcp
      · next hfails =>
        rw [Bool.not_eq_true] at hfails
        subst hfails
        split at h
        · next hlast => exact transition_of_buildFails hi (.tcp hlast) h
        · next hmore =>
          cases h
          exact .moves hi (.nextAddress (by omega))
    · cases h
  | options i succeeds =>
    cases succeeds with
    | true =>
      simp only [step] at h
      split at h
      · next hi =>
        cases h
        exact .moves hi .options
      · cases h
    | false =>
      simp only [step] at h
      split at h
      · next hi => exact transition_of_buildFails hi .options h
      · cases h
  | startup i succeeds =>
    cases succeeds with
    | true =>
      simp only [step] at h
      split at h
      · next hi =>
        cases h
        exact .moves hi .startup
      · cases h
    | false =>
      simp only [step] at h
      split at h
      · next hi => exact transition_of_buildFails hi .startup h
      · cases h
  | push i broken =>
    simp only [step] at h
    split at h
    · next hi =>
      obtain ⟨conn, hc, rfl⟩ := Option.map_eq_some_iff.mp h
      cases broken with
      | true => exact .pushBroken hi hc
      | false => exact .store hi hc
    · cases h
  | drop c =>
    simp only [step] at h
    split at h
    · next hc =>
      obtain ⟨hplace, rfl⟩ := Option.ite_some_none_eq_some.mp h
      exact .closes hc (.drop hplace)
    · cases h
  | close c =>
    simp only [step] at h
    split at h
    · next hc =>
      obtain ⟨hplace, rfl⟩ := Option.ite_some_none_eq_some.mp h
      exact .closes hc (.close hplace)
    · cases h
  | destroy c =>
    simp only [step] at h
    split at h
    · next hc =>
      obtain ⟨hclosed, rfl⟩ := Option.ite_some_none_eq_some.mp h
      exact .closes hc (.destroy hclosed)
    · cases h
  | closeEnds k =>
    simp only [step] at h
    split at h
    · next hk =>
      obtain ⟨hfinished, rfl⟩ := Option.ite_some_none_eq_some.mp h
      exact .closeEnds hk hfinished
    · cases h

end PermitPool
end CassandraDriver.Detail
