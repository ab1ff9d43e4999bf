import CassandraDriver.Detail.ReceiverTask
import CassandraDriver.Lib.Ledger

/-!
# Descriptors of a connection

Library `Detail`. Models `ConnectionImpl::TcpConnect` (`src/detail/connection_impl.cpp:255`) and
follows the descriptors that it opens through `Close` and `~ConnectionImpl` (lines 153–173).
The destructor of a `Socket` closes a descriptor that it still has; `Socket::Release` gives it
away. A close task comes to `Release` unless it is cancelled while it waits for the receiver.
Descriptors are numbered in the order in which they are opened, and the history of what
happens to them has the newest entry first.
-/

namespace CassandraDriver.Detail
open CassandraDriver.Lib

/-- What happens to a descriptor. -/
inductive SocketEvent
  | opened (fd : Nat)
  | closed (fd : Nat)
  | released (fd : Nat)
  deriving DecidableEq, Repr

/-- How one round of the loop of `TcpConnect` ends. -/
inductive Attempt
  /-- The constructor of `Socket` throws an `IoException`. -/
  | socketThrows
  /-- `SetOption` throws an `IoException`. -/
  | setOptionThrows
  /-- `Connect` throws an `IoException`. -/
  | connectThrows
  /-- Something that is no `IoException` leaves the round, once there is a socket. -/
  | aborts
  | connects
  deriving DecidableEq, Repr

/-- The round is the last one. -/
def Attempt.endsLoop : Attempt → Bool
  | .aborts => true
  | .connects => true
  | _ => false

/-- `ConnectionImpl::TcpConnect`, `connection_impl.cpp:255`: one round for each address, with the
number of the next descriptor and the history so far. A round that throws destroys its local
socket; the result is the descriptor in `_socket`, and without one the call throws. -/
def tcpConnect : List Attempt → Nat → List SocketEvent → List SocketEvent × Option Nat
  | [], _, history => (history, none)
  | .socketThrows :: rest, next, history => tcpConnect rest next history
  | .setOptionThrows :: rest, next, history =>
    tcpConnect rest (next + 1) (.closed next :: .opened next :: history)
  | .connectThrows :: rest, next, history =>
    tcpConnect rest (next + 1) (.closed next :: .opened next :: history)
  | .aborts :: _, next, history => (.closed next :: .opened next :: history, none)
  | .connects :: _, next, history => (.opened next :: history, some next)

/-- The connection when `TcpConnect` has returned or thrown; in the second case nothing but its
end is left. -/
def afterTcpConnect : Option Nat → ConnectionLife
  | some _ => .init
  | none => { ConnectionLife.init with owner := .holding, socket := false }

/-- What a close task does to the descriptor when it goes on: behind its wait it releases the
socket that was moved into it, and unwinding it destroys that socket. -/
def ClosingTask.socketEvents (fd : Option Nat) (t : ClosingTask) : List SocketEvent :=
  match t.point with
  | .releasing => if t.socket then fd.toList.map .released else []
  | .unwinding => if t.socket then fd.toList.map .closed else []
  | _ => []

/-- What a step does to the descriptor of the connection. The destructor of the object closes what
is left in `_socket`. -/
def socketEvents (fd : Option Nat) (l : ConnectionLife) : ClosingEvent → List SocketEvent
  | .runClose i =>
    match l.closeTasks[i]? with
    | some t => t.socketEvents fd
    | none => []
  | .destructed => if l.socket then fd.toList.map .closed else []
  | _ => []

/-- The step does not cancel the close task that has the socket in its wait. -/
def WaitsOut (l : ConnectionLife) (e : ClosingEvent) : Prop :=
  ∀ i, e = .interrupt i → ∀ t ∈ l.closeTasks[i]?, t.socket = false

/-- The life of a connection with the history of its descriptors, after attempts to connect. -/
def lifeAfter (addresses : List Attempt) (run : List ClosingEvent) :
    Option (ConnectionLife × List SocketEvent) :=
  runIf (recording ConnectionLife.step (socketEvents (tcpConnect addresses 0 []).2))
    (fun _ _ ↦ True)
    (afterTcpConnect (tcpConnect addresses 0 []).2, (tcpConnect addresses 0 []).1) run

/-- Every descriptor that was opened has been closed exactly once. -/
def ClosedOnce (history : List SocketEvent) : Prop :=
  ∀ fd, .opened fd ∈ history → history.count (.closed fd) = 1

/-- No descriptor from `next` on has been used. -/
private def Unused (next : Nat) (history : List SocketEvent) : Prop :=
  ∀ fd, next ≤ fd → .opened fd ∉ history ∧ .closed fd ∉ history

private theorem Unused.opened {next : Nat} {history : List SocketEvent} (h : Unused next history) :
    Unused (next + 1) (.opened next :: history) := by
  intro fd hfd
  obtain ⟨hopened, hclosed⟩ := h fd (by omega)
  refine ⟨?_, ?_⟩
  · rw [List.mem_cons, not_or, SocketEvent.opened.injEq]
    exact ⟨by omega, hopened⟩
  · rw [List.mem_cons, not_or]
    exact ⟨SocketEvent.noConfusion, hclosed⟩

private theorem Unused.openedClosed {next : Nat} {history : List SocketEvent}
    (h : Unused next history) : Unused (next + 1) (.closed next :: .opened next :: history) := by
  intro fd hfd
  obtain ⟨hopened, hclosed⟩ := h.opened fd hfd
  refine ⟨?_, ?_⟩
  · rw [List.mem_cons, not_or]
    exact ⟨SocketEvent.noConfusion, hopened⟩
  · rw [List.mem_cons, not_or, SocketEvent.closed.injEq]
    exact ⟨by omega, hclosed⟩

/-- Every descriptor but `kept` that was opened has been closed once, and `kept` is open. -/
def ClosedBut (kept : Option Nat) (history : List SocketEvent) : Prop :=
  ∀ fd, .opened fd ∈ history → history.count (.closed fd) = if kept = some fd then 0 else 1

private theorem ClosedBut.openedClosed {next : Nat} {history : List SocketEvent}
    (h : ClosedBut none history) (hunused : Unused next history) :
    ClosedBut none (.closed next :: .opened next :: history) := by
  intro fd hfd
  have hnext := List.count_eq_zero.mpr (hunused next le_rfl).2
  simp only [List.mem_cons, SocketEvent.opened.injEq, reduceCtorEq, false_or] at hfd
  simp only [List.count_cons, beq_iff_eq, SocketEvent.closed.injEq, reduceCtorEq, if_false]
  by_cases heq : next = fd
  · subst heq
    rw [hnext, if_pos rfl]
  · have hold : history.count (.closed fd) = 1 := h fd (hfd.resolve_left (Ne.symm heq))
    rw [if_neg heq, hold]

private theorem ClosedBut.opened {next : Nat} {history : List SocketEvent}
    (h : ClosedBut none history) (hunused : Unused next history) :
    ClosedBut (some next) (.opened next :: history) := by
  intro fd hfd
  have hnext := List.count_eq_zero.mpr (hunused next le_rfl).2
  simp only [List.mem_cons, SocketEvent.opened.injEq] at hfd
  rw [List.count_cons_of_ne SocketEvent.noConfusion]
  by_cases heq : next = fd
  · subst heq
    rw [hnext, if_pos rfl]
  · have hold : history.count (.closed fd) = 1 := h fd (hfd.resolve_left (Ne.symm heq))
    rw [hold, if_neg (fun hsome ↦ heq (Option.some.inj hsome))]

private theorem closedBut_tcpConnect (addresses : List Attempt) {next : Nat}
    {history : List SocketEvent} (h : ClosedBut none history) (hunused : Unused next history) :
    ClosedBut (tcpConnect addresses next history).2 (tcpConnect addresses next history).1 := by
  induction addresses generalizing next history with
  | nil => exact h
  | cons attempt rest ih =>
    cases attempt with
    | socketThrows => exact ih h hunused
    | setOptionThrows => exact ih (h.openedClosed hunused) hunused.openedClosed
    | connectThrows => exact ih (h.openedClosed hunused) hunused.openedClosed
    | aborts => exact h.openedClosed hunused
    | connects => exact h.opened hunused

private theorem closedBut_start (addresses : List Attempt) :
    ClosedBut (tcpConnect addresses 0 []).2 (tcpConnect addresses 0 []).1 := by
  refine closedBut_tcpConnect addresses ?_ ?_
  · intro fd hfd
    cases hfd
  · intro fd _
    exact ⟨List.not_mem_nil, List.not_mem_nil⟩

private theorem kept_of_tcpConnect (addresses : List Attempt) {next fd : Nat}
    {history : List SocketEvent} (hreleased : ∀ fd, .released fd ∉ history)
    (h : (tcpConnect addresses next history).2 = some fd) :
    .opened fd ∈ (tcpConnect addresses next history).1 ∧
      .released fd ∉ (tcpConnect addresses next history).1 := by
  induction addresses generalizing next history with
  | nil => cases h
  | cons attempt rest ih =>
    have hclosed : ∀ fd, .released fd ∉ SocketEvent.closed next :: .opened next :: history := by
      simpa using hreleased
    cases attempt with
    | socketThrows => exact ih hreleased h
    | setOptionThrows => exact ih hclosed h
    | connectThrows => exact ih hclosed h
    | aborts => cases h
    | connects =>
      cases h
      exact ⟨List.mem_cons_self, by simpa [tcpConnect] using hreleased fd⟩

private theorem tcpConnect_eq_none_iff (addresses : List Attempt) (next : Nat)
    (history : List SocketEvent) : (tcpConnect addresses next history).2 = none ↔
      addresses.find? Attempt.endsLoop ≠ some .connects := by
  induction addresses generalizing next history with
  | nil => simp [tcpConnect]
  | cons attempt rest ih =>
    cases attempt with
    | socketThrows => exact ih _ _
    | setOptionThrows => exact ih _ _
    | connectThrows => exact ih _ _
    | aborts => simp [tcpConnect, Attempt.endsLoop]
    | connects => simp [tcpConnect, Attempt.endsLoop]

/-- Where the descriptor of the connection is, and what the steps have not changed in the
history. -/
structure Accounted (fd : Option Nat) (history : List SocketEvent)
    (s : ConnectionLife × List SocketEvent) : Prop where
  emptied : s.1.owner = .destructing ∨ s.1.owner = .gone → s.1.socket = false
  finished : ∀ t ∈ s.1.closeTasks, t.point = .finished → t.socket = false
  opened : ∀ d, .opened d ∈ s.2 ↔ .opened d ∈ history
  closed : ∀ d, fd ≠ some d → s.2.count (.closed d) = history.count (.closed d)
  once : ∀ d, fd = some d → s.1.socket.toNat + s.1.closeTasks.countP (·.socket) +
    (s.2.count (.released d) + s.2.count (.closed d)) = 1

private theorem socketEvents_runClose {fd : Option Nat} {l : ConnectionLife} {i : Nat}
    {t : ClosingTask} (ht : l.closeTasks[i]? = some t) :
    socketEvents fd l (.runClose i) = t.socketEvents fd := by
  simp only [socketEvents, ht]

private theorem socketEvents_of_waits {fd : Option Nat} {t : ClosingTask} {p q : Prop}
    (hpoint : t.point = .created ∧ p ∨ t.point = .waiting ∧ q) : t.socketEvents fd = [] := by
  rcases hpoint with ⟨hpoint, -⟩ | ⟨hpoint, -⟩
  · simp only [ClosingTask.socketEvents, hpoint]
  · simp only [ClosingTask.socketEvents, hpoint]

private theorem socketEvents_of_socket {fd : Option Nat} {t : ClosingTask}
    (hsocket : t.socket = false) : t.socketEvents fd = [] := by
  unfold ClosingTask.socketEvents
  rw [hsocket]
  split
  · rfl
  · rfl
  · rfl

namespace Accounted

variable {fd : Option Nat} {history log : List SocketEvent} {l l' : ConnectionLife}

private theorem silent (h : Accounted fd history (l, log))
    (hemptied : l'.owner = .destructing ∨ l'.owner = .gone → l'.socket = false)
    (hfinished : ∀ t ∈ l'.closeTasks, t.point = .finished → t.socket = false)
    (hplaces : l'.socket.toNat + l'.closeTasks.countP (·.socket) =
      l.socket.toNat + l.closeTasks.countP (·.socket)) :
    Accounted fd history (l', log) where
  emptied := hemptied
  finished := hfinished
  opened := h.opened
  closed := h.closed
  once d hd := (congrArg
    (· + (log.count (.released d) + log.count (.closed d))) hplaces).trans (h.once d hd)

private theorem closeImpl (h : Accounted fd history (l, log)) (owner : OwnerPoint) :
    Accounted fd history ({ l.closeImpl with owner := owner }, log) := by
  refine h.silent (fun _ ↦ rfl) ?_ ?_
  · intro t ht hpoint
    rcases List.mem_cons.mp ht with rfl | ht
    · cases hpoint
    · exact h.finished t ht hpoint
  · change 0 + (ClosingTask.mk l.socket l.receiverTask .created :: l.closeTasks).countP _ = _
    rw [List.countP_cons]
    cases l.socket with
    | true => simp [Nat.add_comm]
    | false => simp

private theorem set (h : Accounted fd history (l, log)) {i : Nat} {t : ClosingTask}
    {point : ClosePoint} {cancelled : Bool} (ht : l.closeTasks[i]? = some t)
    (hnext : point ≠ .finished) : Accounted fd history
      ({ l with
          cancelRequested := cancelled
          closeTasks := l.closeTasks.set i { t with point := point } }, log) := by
  refine h.silent h.emptied ?_ ?_
  · intro u hu hfinished
    rcases List.mem_or_eq_of_mem_set hu with hu | rfl
    · exact h.finished u hu hfinished
    · exact absurd hfinished hnext
  · have hcount := countP_set_add (·.socket) ht { t with point := point }
    simp only at hcount ⊢
    omega

private theorem disposed (h : Accounted fd history (l, log)) {i : Nat} {t : ClosingTask}
    (ht : l.closeTasks[i]? = some t) (hpoint : t.point = .releasing ∨ t.point = .unwinding) :
    Accounted fd history
      ({ l with closeTasks := l.closeTasks.set i { t with socket := false, point := .finished } },
        socketEvents fd l (.runClose i) ++ log) := by
  have hfinished : ∀ u ∈ l.closeTasks.set i { t with socket := false, point := .finished },
      u.point = .finished → u.socket = false := by
    intro u hu hpast
    rcases List.mem_or_eq_of_mem_set hu with hu | rfl
    · exact h.finished u hu hpast
    · rfl
  have hcount := countP_set_add (·.socket) ht { t with socket := false, point := .finished }
  rw [socketEvents_runClose ht]
  cases hsocket : t.socket with
  | false =>
    rw [socketEvents_of_socket hsocket]
    refine h.silent h.emptied hfinished ?_
    rw [hsocket] at hcount
    simpa using hcount
  | true =>
    rw [hsocket] at hcount
    simp only [if_true, Bool.false_eq_true, if_false] at hcount
    -- the history gets one entry: the descriptor is released, or it is closed
    have hevents : t.socketEvents fd = fd.toList.map .released ∨
        t.socketEvents fd = fd.toList.map .closed := by
      rcases hpoint with hpoint | hpoint
      · exact .inl (by simp [ClosingTask.socketEvents, hsocket, hpoint])
      · exact .inr (by simp [ClosingTask.socketEvents, hsocket, hpoint])
    cases fd with
    | none =>
      have hnone : t.socketEvents none = [] := by simpa using hevents
      rw [hnone]
      exact ⟨h.emptied, hfinished, h.opened, h.closed, fun d hd ↦ by cases hd⟩
    | some fd =>
      refine ⟨h.emptied, hfinished, ?_, ?_, ?_⟩
      · intro d
        rcases hevents with hevents | hevents
        · simpa [hevents] using h.opened d
        · simpa [hevents] using h.opened d
      · intro d hd
        have hne : fd ≠ d := fun he ↦ hd (congrArg some he)
        rcases hevents with hevents | hevents
        · simpa [hevents] using h.closed d hd
        · simpa [hevents, hne] using h.closed d hd
      · rintro d hd
        cases hd
        have honce := h.once fd rfl
        rcases hevents with hevents | hevents
        · simp [hevents] at honce ⊢
          omega
        · simp [hevents] at honce ⊢
          omega

private theorem step (h : Accounted fd history (l, log)) {e : ClosingEvent}
    (hstep : l.step e = some l') :
    Accounted fd history (l', socketEvents fd l e ++ log) := by
  cases ConnectionLife.transition_of_step hstep with
  | startReceiverLoop _ => exact h.silent (by simp) h.finished rfl
  | connectFails _ => exact h.silent (by simp) h.finished rfl
  | close _ => exact h.closeImpl .closing
  | closeReturns _ _ => exact h.silent (by simp) h.finished rfl
  | destruct _ => exact h.closeImpl .destructing
  | destructed howner =>
    -- The destructor finds no socket: `Close` has moved it out.
    have hsocket := h.emptied (.inl howner)
    have hevents : socketEvents fd l .destructed = [] := if_neg (by simpa using hsocket)
    rw [hevents]
    exact h.silent (fun _ ↦ hsocket) h.finished rfl
  | requestCancel ht hpoint hloop =>
    rw [socketEvents_runClose ht, socketEvents_of_waits (q := False) (.inl ⟨hpoint, hloop⟩)]
    exact h.set ht ClosePoint.noConfusion
  | waited ht hpoint =>
    rw [socketEvents_runClose ht, socketEvents_of_waits hpoint]
    exact h.set ht ClosePoint.noConfusion
  | released ht hpoint => exact h.disposed ht (.inl hpoint)
  | interrupted ht hpoint => exact h.set ht ClosePoint.noConfusion
  | dropped ht hpoint _ => exact h.disposed ht (.inr hpoint)
  | loop _ => exact h.silent h.emptied h.finished rfl

/-- At the end of the connection its descriptor has been released or closed, once. -/
theorem disposed_once (h : Accounted fd history (l, log)) (hgone : l.owner = .gone)
    (htasks : ∀ t ∈ l.closeTasks, t.point = .finished) {d : Nat} (hd : fd = some d) :
    log.count (.released d) + log.count (.closed d) = 1 := by
  have hsocket : l.socket = false := h.emptied (.inr hgone)
  have hnone : l.closeTasks.countP (·.socket) = 0 := by
    rw [List.countP_eq_zero]
    intro t ht
    rw [h.finished t ht (htasks t ht)]
    exact Bool.noConfusion
  have honce := h.once d hd
  simp only [hsocket, hnone, Bool.toNat_false] at honce
  omega

end Accounted

/-- The descriptor `fd` can still be released only: no task that has the socket unwinds. -/
structure ToRelease (fd : Nat) (s : ConnectionLife × List SocketEvent) : Prop where
  unwinding : ∀ t ∈ s.1.closeTasks, t.point = .unwinding → t.socket = false
  closed : s.2.count (.closed fd) = 0

/-- The descriptor `fd` can still be closed only: the task that has the socket unwinds. -/
structure ToClose (fd : Nat) (s : ConnectionLife × List SocketEvent) : Prop where
  moved : s.1.socket = false
  unwinding : ∀ t ∈ s.1.closeTasks, t.socket = true → t.point = .unwinding
  released : s.2.count (.released fd) = 0

private theorem forall_mem_set {P : ClosingTask → Prop} {ts : List ClosingTask} {i : Nat}
    {t' : ClosingTask} (hts : ∀ t ∈ ts, P t) (ht' : P t') : ∀ t ∈ ts.set i t', P t := by
  intro t ht
  rcases List.mem_or_eq_of_mem_set ht with ht | rfl
  · exact hts t ht
  · exact ht'

section
variable {fd : Nat} {history log : List SocketEvent} {l l' : ConnectionLife} {e : ClosingEvent}

/-- As long as the wait of the task that has the socket is not cut short, the descriptor stays to
be released. -/
theorem ToRelease.step (h : ToRelease fd (l, log))
    (haccounted : Accounted (some fd) history (l, log)) (hwaits : WaitsOut l e)
    (hstep : l.step e = some l') : ToRelease fd (l', socketEvents (some fd) l e ++ log) := by
  cases ConnectionLife.transition_of_step hstep with
  | startReceiverLoop _ => exact ⟨h.unwinding, h.closed⟩
  | connectFails _ => exact ⟨h.unwinding, h.closed⟩
  | close _ => exact ⟨List.forall_mem_cons.mpr ⟨ClosePoint.noConfusion, h.unwinding⟩, h.closed⟩
  | closeReturns _ _ => exact ⟨h.unwinding, h.closed⟩
  | destruct _ => exact ⟨List.forall_mem_cons.mpr ⟨ClosePoint.noConfusion, h.unwinding⟩, h.closed⟩
  | destructed howner =>
    have hsocket := haccounted.emptied (.inl howner)
    have hevents : socketEvents (some fd) l .destructed = [] := if_neg (by simpa using hsocket)
    rw [hevents]
    exact ⟨h.unwinding, h.closed⟩
  | requestCancel ht hpoint hloop =>
    rw [socketEvents_runClose ht, socketEvents_of_waits (q := False) (.inl ⟨hpoint, hloop⟩)]
    exact ⟨forall_mem_set h.unwinding ClosePoint.noConfusion, h.closed⟩
  | waited ht hpoint =>
    rw [socketEvents_runClose ht, socketEvents_of_waits hpoint]
    exact ⟨forall_mem_set h.unwinding ClosePoint.noConfusion, h.closed⟩
  | @released i t ht hpoint =>
    rw [socketEvents_runClose ht]
    refine ⟨forall_mem_set h.unwinding (fun _ ↦ rfl), ?_⟩
    have hclosed : log.count (.closed fd) = 0 := h.closed
    cases hsocket : t.socket with
    | true => simp [ClosingTask.socketEvents, hpoint, hsocket, hclosed]
    | false => simp [ClosingTask.socketEvents, hpoint, hsocket, hclosed]
  | @interrupted i t ht _ =>
    exact ⟨forall_mem_set h.unwinding (fun _ ↦ hwaits i rfl t ht), h.closed⟩
  | @dropped i t ht hpoint _ =>
    rw [socketEvents_runClose ht,
      socketEvents_of_socket (h.unwinding t (List.mem_of_getElem? ht) hpoint)]
    exact ⟨forall_mem_set h.unwinding (fun _ ↦ rfl), h.closed⟩
  | loop _ => exact ⟨h.unwinding, h.closed⟩

/-- Once the task that has the socket unwinds, the descriptor stays to be closed. -/
theorem ToClose.step (h : ToClose fd (l, log)) (hstep : l.step e = some l') :
    ToClose fd (l', socketEvents (some fd) l e ++ log) := by
  have hmoved : l.socket = false := h.moved
  have hnew : l.socket = true → ClosePoint.created = ClosePoint.unwinding := by
    rw [hmoved]
    exact Bool.noConfusion
  -- a task at another point has no socket
  have hnone {i : Nat} {t : ClosingTask} (ht : l.closeTasks[i]? = some t)
      (hpoint : t.point ≠ .unwinding) : t.socket ≠ true :=
    fun hsocket ↦ hpoint (h.unwinding t (List.mem_of_getElem? ht) hsocket)
  cases ConnectionLife.transition_of_step hstep with
  | startReceiverLoop _ => exact ⟨h.moved, h.unwinding, h.released⟩
  | connectFails _ => exact ⟨h.moved, h.unwinding, h.released⟩
  | close _ => exact ⟨rfl, List.forall_mem_cons.mpr ⟨hnew, h.unwinding⟩, h.released⟩
  | closeReturns _ _ => exact ⟨h.moved, h.unwinding, h.released⟩
  | destruct _ => exact ⟨rfl, List.forall_mem_cons.mpr ⟨hnew, h.unwinding⟩, h.released⟩
  | destructed _ =>
    have hevents : socketEvents (some fd) l .destructed = [] := if_neg (by simpa using hmoved)
    rw [hevents]
    exact ⟨h.moved, h.unwinding, h.released⟩
  | requestCancel ht hpoint hloop =>
    have hsocket := hnone ht (by simp [hpoint])
    rw [socketEvents_runClose ht, socketEvents_of_waits (q := False) (.inl ⟨hpoint, hloop⟩)]
    exact ⟨h.moved, forall_mem_set h.unwinding (fun hs ↦ absurd hs hsocket), h.released⟩
  | waited ht hpoint =>
    have hsocket := hnone ht (by rcases hpoint with ⟨hp, -⟩ | ⟨hp, -⟩ <;> simp [hp])
    rw [socketEvents_runClose ht, socketEvents_of_waits hpoint]
    exact ⟨h.moved, forall_mem_set h.unwinding (fun hs ↦ absurd hs hsocket), h.released⟩
  | released ht hpoint =>
    have hsocket := hnone ht (by simp [hpoint])
    rw [socketEvents_runClose ht, socketEvents_of_socket (Bool.eq_false_iff.mpr hsocket)]
    exact ⟨h.moved, forall_mem_set h.unwinding Bool.noConfusion, h.released⟩
  | interrupted ht hpoint =>
    exact ⟨h.moved, forall_mem_set h.unwinding (fun _ ↦ rfl), h.released⟩
  | @dropped i t ht hpoint _ =>
    rw [socketEvents_runClose ht]
    refine ⟨h.moved, forall_mem_set h.unwinding Bool.noConfusion, ?_⟩
    have hreleased : log.count (.released fd) = 0 := h.released
    cases hsocket : t.socket with
    | true => simp [ClosingTask.socketEvents, hpoint, hsocket, hreleased]
    | false => simp [ClosingTask.socketEvents, hpoint, hsocket, hreleased]
  | loop _ => exact ⟨h.moved, h.unwinding, h.released⟩

/-- When the wait of the task that has the socket is cut short, that task unwinds. -/
theorem Accounted.toClose (h : Accounted (some fd) history (l, log)) (hcut : ¬ WaitsOut l e)
    (hstep : l.step e = some l') : ToClose fd (l', socketEvents (some fd) l e ++ log) := by
  simp only [WaitsOut, not_forall, Bool.not_eq_false] at hcut
  obtain ⟨i, rfl, t, ht, hsocket⟩ := hcut
  have honce := h.once fd rfl
  have hcount := countP_set_add (·.socket) ht { t with socket := false }
  simp only [hsocket, if_true, Bool.false_eq_true, if_false] at honce hcount
  have hmoved : l.socket = false := by
    cases hs : l.socket with
    | true => simp only [hs, Bool.toNat_true] at honce; omega
    | false => rfl
  have hzero : (l.closeTasks.set i { t with socket := false }).countP (·.socket) = 0 := by omega
  have hothers := List.countP_eq_zero.mp hzero
  cases ConnectionLife.transition_of_step hstep with
  | @interrupted _ t' ht' _ =>
    cases ht.symm.trans ht'
    refine ⟨hmoved, ?_, by change log.count _ = 0; omega⟩
    intro u hu husocket
    obtain ⟨j, hj, rfl⟩ := List.getElem_of_mem hu
    by_cases hij : i = j
    · subst hij
      rw [List.getElem_set_self]
    · refine absurd husocket (hothers _ (List.mem_of_getElem? (i := j) ?_))
      rw [List.getElem?_set_ne hij, ← List.getElem?_set_ne hij, List.getElem?_eq_getElem hj]

end

private theorem accounted_init (addresses : List Attempt) :
    Accounted (tcpConnect addresses 0 []).2 (tcpConnect addresses 0 []).1
      (afterTcpConnect (tcpConnect addresses 0 []).2, (tcpConnect addresses 0 []).1) := by
  refine ⟨?_, ?_, fun _ ↦ Iff.rfl, fun _ _ ↦ rfl, ?_⟩
  · cases (tcpConnect addresses 0 []).2 with
    | none => exact fun _ ↦ rfl
    | some _ => simp [afterTcpConnect, ConnectionLife.init]
  · cases (tcpConnect addresses 0 []).2 with
    | none => simp [afterTcpConnect, ConnectionLife.init]
    | some _ => simp [afterTcpConnect, ConnectionLife.init]
  · intro fd hfd
    obtain ⟨hopened, hreleased⟩ := kept_of_tcpConnect addresses (fun _ ↦ List.not_mem_nil) hfd
    have hclosed := closedBut_start addresses fd hopened
    rw [hfd, if_pos rfl] at hclosed
    rw [List.count_eq_zero.mpr hreleased, hclosed, hfd]
    rfl

private theorem accounted_of_lifeAfter {addresses : List Attempt} {run : List ClosingEvent}
    {s : ConnectionLife × List SocketEvent} (hrun : lifeAfter addresses run = some s) :
    Accounted (tcpConnect addresses 0 []).2 (tcpConnect addresses 0 []).1 s := by
  refine (Reaches.of_runIf .init hrun).invariant (accounted_init addresses) ?_
  intro s e s' h _ hstep
  obtain ⟨hstep, hlog⟩ := recording_eq_some hstep
  have hafter : Accounted _ _ (s'.1, socketEvents _ s.1 e ++ s.2) := h.step hstep
  rw [← hlog] at hafter
  exact hafter

/-- The descriptor that `TcpConnect` keeps is to be released, as long as the wait of the close task
that has it is not cut short, and to be closed from then on. -/
theorem toRelease_or_toClose {addresses : List Attempt} {run : List ClosingEvent}
    {s : ConnectionLife × List SocketEvent} (hrun : lifeAfter addresses run = some s) {fd : Nat}
    (hfd : (tcpConnect addresses 0 []).2 = some fd) :
    Along ConnectionLife.step WaitsOut (afterTcpConnect (tcpConnect addresses 0 []).2) run ∧
        ToRelease fd s ∨
      ¬ Along ConnectionLife.step WaitsOut (afterTcpConnect (tcpConnect addresses 0 []).2) run ∧
        ToClose fd s := by
  have hinit : Accounted (some fd) _ _ := hfd ▸ accounted_init addresses
  have hclosed := closedBut_start addresses fd
    (kept_of_tcpConnect addresses (fun _ ↦ List.not_mem_nil) hfd).1
  rw [hfd, if_pos rfl] at hclosed
  unfold lifeAfter at hrun
  rw [hfd] at hrun ⊢
  have hor := along_or_of_runIf (P := fun s e ↦ WaitsOut s.1 e)
    (A := fun s ↦ Accounted (some fd) (tcpConnect addresses 0 []).1 s ∧ ToRelease fd s)
    (B := ToClose fd) ?_ ?_ ?_ ⟨hinit, ⟨by simp [afterTcpConnect, ConnectionLife.init], hclosed⟩⟩
    hrun
  · rw [along_recording] at hor
    exact hor.imp_left (And.imp_right And.right)
  · rintro s e s' ⟨haccounted, h⟩ hwaits hstep
    obtain ⟨l', hl, rfl⟩ := Option.map_eq_some_iff.mp hstep
    exact ⟨haccounted.step hl, h.step haccounted hwaits hl⟩
  · rintro s e s' ⟨haccounted, -⟩ hcut hstep
    obtain ⟨l', hl, rfl⟩ := Option.map_eq_some_iff.mp hstep
    exact haccounted.toClose hcut hl
  · intro s e s' h hstep
    obtain ⟨l', hl, rfl⟩ := Option.map_eq_some_iff.mp hstep
    exact h.step hl

/-- When the connection is destroyed and its close tasks have finished, every descriptor opened
for it has been closed exactly once, if and only if `TcpConnect` has connected to no address or
the close task that had the socket was cancelled in its wait for the receiver. -/
theorem closedOnce_iff (addresses : List Attempt) (run : List ClosingEvent)
    {s : ConnectionLife × List SocketEvent} (hrun : lifeAfter addresses run = some s)
    (hgone : s.1.owner = .gone) (htasks : ∀ t ∈ s.1.closeTasks, t.point = .finished) :
    ClosedOnce s.2 ↔ addresses.find? Attempt.endsLoop ≠ some .connects ∨
      ¬ Along ConnectionLife.step WaitsOut
        (afterTcpConnect (tcpConnect addresses 0 []).2) run := by
  rw [← tcpConnect_eq_none_iff addresses 0 []]
  have h := accounted_of_lifeAfter hrun
  have hbut := closedBut_start addresses
  cases hkept : (tcpConnect addresses 0 []).2 with
  | none =>
    rw [hkept] at h hbut
    refine ⟨fun _ ↦ .inl rfl, fun _ fd hfd ↦ ?_⟩
    exact (h.closed fd (by simp)).trans (hbut fd ((h.opened fd).mp hfd))
  | some fd =>
    have hor := toRelease_or_toClose hrun hkept
    rw [hkept] at h hbut hor
    have hopened := (kept_of_tcpConnect addresses (fun _ ↦ List.not_mem_nil) hkept).1
    have honce := h.disposed_once hgone htasks rfl
    simp only [reduceCtorEq, false_or]
    rcases hor with ⟨halong, hrelease⟩ | ⟨halong, hclose⟩
    · refine ⟨fun hall ↦ ?_, fun hcut ↦ absurd halong hcut⟩
      have hclosed := hrelease.closed
      rw [hall fd ((h.opened fd).mpr hopened)] at hclosed
      cases hclosed
    · refine ⟨fun _ ↦ halong, fun _ d hd ↦ ?_⟩
      have hreleased := hclose.released
      by_cases hne : fd = d
      · subst hne
        omega
      · have hold := hbut d ((h.opened d).mp hd)
        have hsome : some fd ≠ some d := fun he ↦ hne (Option.some.inj he)
        rw [if_neg hsome] at hold
        exact (h.closed d hsome).trans hold

/-- Three addresses, none of which connects: `TcpConnect` throws. -/
def refused : List Attempt := [.connectThrows, .socketThrows, .setOptionThrows]

/-- The receiver runs when the object is destroyed, and the close task is cancelled as it waits for
it. -/
def connectedCancelled : List ClosingEvent :=
  [.startReceiverLoop, .loop .shouldCancel, .destruct, .runClose 0, .destructed, .interrupt 0,
    .loop .readThrows, .loop .markBroken, .loop .leave, .runClose 0]

-- Then the destructor of the socket closes the descriptor.
example : (lifeAfter [.connects] connectedCancelled).map Prod.snd = some [.closed 0, .opened 0] :=
  rfl

/-- No address connects, and both sockets that were opened are closed. -/
theorem closedOnce_refused :
    lifeAfter refused [.destruct, .runClose 0, .destructed, .runClose 0] =
      some (⟨.gone, false, false, false, .notStarted, false, [⟨false, false, .finished⟩]⟩,
        [.closed 1, .opened 1, .closed 0, .opened 0]) ∧
    ClosedOnce [.closed 1, .opened 1, .closed 0, .opened 0] :=
  ⟨by decide +kernel,
    (closedOnce_iff refused [.destruct, .runClose 0, .destructed, .runClose 0] rfl rfl
      (by decide)).mpr (.inl (by decide))⟩

/-- The connection is made at once, closed by `Connection::Close` and destroyed. -/
def connectedClosed : List ClosingEvent :=
  [.startReceiverLoop, .loop .shouldCancel, .close, .runClose 0, .loop .readThrows,
    .loop .markBroken, .loop .leave, .runClose 0, .runClose 0, .closeReturns, .destruct,
    .runClose 0, .runClose 0, .destructed]

/-- Its descriptor is released and never closed. -/
theorem connected_leaks : ∃ s, lifeAfter [.connects] connectedClosed = some s ∧
    s.1.owner = .gone ∧ (∀ t ∈ s.1.closeTasks, t.point = .finished) ∧
    s.2 = [.released 0, .opened 0] ∧ ¬ ClosedOnce s.2 := by
  refine ⟨_, rfl, rfl, by decide, by decide, fun hall ↦ ?_⟩
  exact absurd (hall 0 (by decide)) (by decide)

end CassandraDriver.Detail
