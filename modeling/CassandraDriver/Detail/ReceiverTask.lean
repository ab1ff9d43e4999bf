import CassandraDriver.Detail.Connection

/-!
# The receiver task and the end of its connection

Library `Detail`. Models the tasks around the end of a `ConnectionImpl`,
`src/detail/connection_impl.cpp`: `StartReceiverLoop` (line 215), `ReceiverLoop` (line 388) cut
where it suspends or touches the object, the tasks that `Close` makes (line 155), `~ConnectionImpl`
(line 153), and `Connection::Close` of `src/detail/connection.cpp:170`. One owner makes, closes and
destroys the connection; every other order of steps is free.
-/

namespace CassandraDriver.Detail
open CassandraDriver.Lib

/-- Where `ReceiverLoop` stands. -/
inductive LoopPoint
  | notStarted
  /-- At the condition of the loop. -/
  | checking
  | readingHeader
  | readingBody
  /-- `ReadFrame` threw. -/
  | failed
  | pushing (stream : Int16)
  /-- Behind the loop, before the log line that reads `_broken`. -/
  | leaving
  | finished
  deriving DecidableEq, Repr

/-- No step of the loop is left. -/
def LoopPoint.AtRest (point : LoopPoint) : Prop := point = .notStarted ∨ point = .finished

instance (point : LoopPoint) : Decidable point.AtRest := inferInstanceAs (Decidable (_ ∨ _))

/-- Where the loop goes with a frame, `connection_impl.cpp:406–419`. -/
def LoopPoint.dispatch (stream : Int16) : LoopPoint :=
  if stream.toInt < 0 then .checking
  else if StreamPool.kMaxStreams ≤ stream.toInt.toNat then .leaving
  else .pushing stream

/-- The steps of `ReceiverLoop`. -/
inductive LoopEvent
  | shouldCancel
  | readHeader
  | readBody (stream : Int16)
  | readThrows
  | markBroken
  | push
  | pushFails
  /-- The log line behind the loop. -/
  | leave
  deriving DecidableEq, Repr

/-- The step of `ReceiverLoop`. -/
def LoopPoint.step (cancelRequested : Bool) : LoopPoint → LoopEvent → Option LoopPoint
  | .checking, .shouldCancel => some (if cancelRequested then .leaving else .readingHeader)
  | .readingHeader, .readHeader => some .readingBody
  | .readingHeader, .readThrows => some .failed
  | .readingBody, .readBody stream => some (.dispatch stream)
  | .readingBody, .readThrows => some .failed
  | .failed, .markBroken => some .leaving
  | .pushing _, .push => some .checking
  | .pushing _, .pushFails => some .leaving
  | .leaving, .leave => some .finished
  | _, _ => none

/-- The steps that use the object: reads of `_socket`, `MarkBroken`, pushes to
`_received_message_producer_map`, and `IsBroken` in the log line. -/
def LoopEvent.usesObject : LoopEvent → Bool
  | .shouldCancel => false
  | _ => true

/-- Where a close task stands: before its first line, in `reader_loop.Wait()`, behind it, or
done. A task that is cancelled in `Wait` leaves it by an exception, which skips `Release`; it is
unwinding then: the destructor of `reader_loop` waits for the receiver, and that of `socket`
closes the descriptor. -/
inductive ClosePoint
  | created | waiting | releasing | unwinding | finished
  deriving DecidableEq, Repr

/-- A task made by `ConnectionImpl::Close`, with what it has moved out of the object. -/
structure ClosingTask where
  socket : Bool
  readerLoop : Bool
  point : ClosePoint
  deriving DecidableEq, Repr

/-- The owner: in `AsyncConnect`, between calls, in `Connection::Close`, in `~ConnectionImpl`
past `Detach`, or past the destructor. -/
inductive OwnerPoint
  | connecting | holding | closing | destructing | gone
  deriving DecidableEq, Repr

/-- A connection with its receiver and its close tasks, the newest first. -/
structure ConnectionLife where
  owner : OwnerPoint
  socket : Bool
  receiverTask : Bool
  broken : Bool
  receiver : LoopPoint
  cancelRequested : Bool
  closeTasks : List ClosingTask
  deriving DecidableEq, Repr

/-- What can happen next. -/
inductive ClosingEvent
  | startReceiverLoop
  /-- `AsyncConnect` throws before `StartReceiverLoop`. -/
  | connectFails
  | close
  /-- `Connection::Close` returns, or throws when its own wait is cancelled: the destructor of
  the `Task` has waited for it then. -/
  | closeReturns
  | destruct
  /-- `~ConnectionImpl` finishes. -/
  | destructed
  /-- A close task goes on. -/
  | runClose (task : Nat)
  /-- A close task is cancelled in `Wait`, by `CancelAndWait` of the task storage or by the
  destructor of its `Task`. -/
  | interrupt (task : Nat)
  /-- The receiver goes on. -/
  | loop (event : LoopEvent)
  deriving DecidableEq, Repr

namespace ConnectionLife

/-- After the constructor and `TcpConnect`. -/
def init : ConnectionLife := ⟨.connecting, true, false, false, .notStarted, false, []⟩

/-- `ConnectionImpl::Close`: the socket and the receiver task move to a new task. -/
def closeImpl (l : ConnectionLife) : ConnectionLife :=
  { l with
    socket := false
    receiverTask := false
    closeTasks := ⟨l.socket, l.receiverTask, .created⟩ :: l.closeTasks }

/-- The next step of a close task that is not cancelled in it, `connection_impl.cpp:164–170`. -/
def advance (l : ConnectionLife) (t : ClosingTask) : Option (ClosingTask × ConnectionLife) :=
  match t.point with
  | .created =>
    if t.readerLoop then some ({ t with point := .waiting }, { l with cancelRequested := true })
    else some ({ t with point := .releasing }, l)
  | .waiting => if l.receiver = .finished then some ({ t with point := .releasing }, l) else none
  | .releasing => some ({ t with socket := false, point := .finished }, l)
  | .unwinding =>
    if l.receiver = .finished then some ({ t with socket := false, point := .finished }, l)
    else none
  | .finished => none

/-- One step. -/
def step (l : ConnectionLife) : ClosingEvent → Option ConnectionLife
  | .startReceiverLoop =>
    if l.owner = .connecting then
      some { l with owner := .holding, receiverTask := true, receiver := .checking }
    else none
  | .connectFails =>
    if l.owner = .connecting then some { l with owner := .holding } else none
  | .close => if l.owner = .holding then some { l.closeImpl with owner := .closing } else none
  | .closeReturns =>
    if l.owner = .closing ∧ l.closeTasks.head?.all (fun t ↦ t.point = .finished) = true then
      some { l with owner := .holding }
    else none
  | .destruct =>
    if l.owner = .holding then some { l.closeImpl with owner := .destructing } else none
  | .destructed => if l.owner = .destructing then some { l with owner := .gone } else none
  | .runClose i =>
    match l.closeTasks[i]? with
    | some t => (l.advance t).map (fun r ↦ { r.2 with closeTasks := l.closeTasks.set i r.1 })
    | none => none
  | .interrupt i =>
    match l.closeTasks[i]? with
    | some t =>
      if t.point = .waiting ∧ l.receiver ≠ .finished then
        some { l with closeTasks := l.closeTasks.set i { t with point := .unwinding } }
      else none
    | none => none
  | .loop e =>
    (l.receiver.step l.cancelRequested e).map (fun point ↦
      { l with receiver := point, broken := l.broken || e = .markBroken })

/-- The step is no use of the object after its destructor. -/
def NoLateUse (l : ConnectionLife) (e : ClosingEvent) : Prop :=
  l.owner = .gone → ∀ event, e = .loop event → event.usesObject = false

/-- The steps with their guards. -/
inductive Transition (l : ConnectionLife) : ClosingEvent → ConnectionLife → Prop
  | startReceiverLoop (howner : l.owner = .connecting) : Transition l .startReceiverLoop
      { l with owner := .holding, receiverTask := true, receiver := .checking }
  | connectFails (howner : l.owner = .connecting) :
      Transition l .connectFails { l with owner := .holding }
  | close (howner : l.owner = .holding) : Transition l .close { l.closeImpl with owner := .closing }
  | closeReturns (howner : l.owner = .closing)
      (htask : l.closeTasks.head?.all (fun t ↦ t.point = .finished) = true) :
      Transition l .closeReturns { l with owner := .holding }
  | destruct (howner : l.owner = .holding) :
      Transition l .destruct { l.closeImpl with owner := .destructing }
  | destructed (howner : l.owner = .destructing) :
      Transition l .destructed { l with owner := .gone }
  | requestCancel {i t} (ht : l.closeTasks[i]? = some t) (hpoint : t.point = .created)
      (hloop : t.readerLoop = true) : Transition l (.runClose i)
      { l with
        cancelRequested := true
        closeTasks := l.closeTasks.set i { t with point := .waiting } }
  | waited {i t} (ht : l.closeTasks[i]? = some t)
      (hpoint : t.point = .created ∧ t.readerLoop = false ∨
        t.point = .waiting ∧ l.receiver = .finished) :
      Transition l (.runClose i)
        { l with closeTasks := l.closeTasks.set i { t with point := .releasing } }
  | released {i t} (ht : l.closeTasks[i]? = some t) (hpoint : t.point = .releasing) :
      Transition l (.runClose i)
        { l with closeTasks := l.closeTasks.set i { t with socket := false, point := .finished } }
  | interrupted {i t} (ht : l.closeTasks[i]? = some t) (hpoint : t.point = .waiting) :
      Transition l (.interrupt i)
        { l with closeTasks := l.closeTasks.set i { t with point := .unwinding } }
  | dropped {i t} (ht : l.closeTasks[i]? = some t) (hpoint : t.point = .unwinding)
      (hreceiver : l.receiver = .finished) : Transition l (.runClose i)
        { l with closeTasks := l.closeTasks.set i { t with socket := false, point := .finished } }
  | loop {event point} (hpoint : l.receiver.step l.cancelRequested event = some point) :
      Transition l (.loop event)
        { l with receiver := point, broken := l.broken || event = .markBroken }

variable {l l' : ConnectionLife} {e : ClosingEvent}

private theorem transition_of_runClose {i : Nat} (h : l.step (.runClose i) = some l') :
    Transition l (.runClose i) l' := by
  simp only [step] at h
  split at h
  · next t ht =>
    obtain ⟨r, hr, rfl⟩ := Option.map_eq_some_iff.mp h
    unfold advance at hr
    split at hr
    · next hpoint =>
      split at hr
      · next hloop =>
        cases hr
        exact .requestCancel ht hpoint hloop
      · next hloop =>
        cases hr
        exact .waited ht (.inl ⟨hpoint, Bool.not_eq_true _ ▸ hloop⟩)
    · next hpoint =>
      obtain ⟨hreceiver, rfl⟩ := Option.ite_some_none_eq_some.mp hr
      exact .waited ht (.inr ⟨hpoint, hreceiver⟩)
    · next hpoint =>
      cases hr
      exact .released ht hpoint
    · next hpoint =>
      obtain ⟨hreceiver, rfl⟩ := Option.ite_some_none_eq_some.mp hr
      exact .dropped ht hpoint hreceiver
    · cases hr
  · cases h

/-- Every step is one of them. -/
theorem transition_of_step (h : l.step e = some l') : Transition l e l' := by
  cases e with
  | startReceiverLoop =>
    obtain ⟨howner, rfl⟩ := Option.ite_some_none_eq_some.mp h
    exact .startReceiverLoop howner
  | connectFails =>
    obtain ⟨howner, rfl⟩ := Option.ite_some_none_eq_some.mp h
    exact .connectFails howner
  | close =>
    obtain ⟨howner, rfl⟩ := Option.ite_some_none_eq_some.mp h
    exact .close howner
  | closeReturns =>
    simp only [step] at h
    obtain ⟨hguard, rfl⟩ := Option.ite_some_none_eq_some.mp h
    exact .closeReturns hguard.1 hguard.2
  | destruct =>
    obtain ⟨howner, rfl⟩ := Option.ite_some_none_eq_some.mp h
    exact .destruct howner
  | destructed =>
    obtain ⟨howner, rfl⟩ := Option.ite_some_none_eq_some.mp h
    exact .destructed howner
  | runClose i => exact transition_of_runClose h
  | interrupt i =>
    simp only [step] at h
    split at h
    · next t ht =>
      obtain ⟨hguard, rfl⟩ := Option.ite_some_none_eq_some.mp h
      exact .interrupted ht hguard.1
    · cases h
  | loop event =>
    obtain ⟨point, hpoint, rfl⟩ := Option.map_eq_some_iff.mp h
    exact .loop hpoint

/-- A loop at rest takes no step. -/
theorem step_of_atRest {point : LoopPoint} (h : point.AtRest) (cancelRequested : Bool)
    (event : LoopEvent) : point.step cancelRequested event = none := by
  rcases h with rfl | rfl
  · rfl
  · rfl

/-- The receiver is at rest and will not be started. -/
def Quiet (l : ConnectionLife) : Prop := l.receiver.AtRest ∧ l.owner ≠ .connecting

private theorem Quiet.step (h : Quiet l) (hstep : l.step e = some l') : Quiet l' := by
  obtain ⟨hrest, howner⟩ := h
  cases transition_of_step hstep with
  | startReceiverLoop hconnecting => exact absurd hconnecting howner
  | connectFails hconnecting => exact absurd hconnecting howner
  | close _ => exact ⟨hrest, OwnerPoint.noConfusion⟩
  | closeReturns _ _ => exact ⟨hrest, OwnerPoint.noConfusion⟩
  | destruct _ => exact ⟨hrest, OwnerPoint.noConfusion⟩
  | destructed _ => exact ⟨hrest, OwnerPoint.noConfusion⟩
  | requestCancel _ _ _ => exact ⟨hrest, howner⟩
  | waited _ _ => exact ⟨hrest, howner⟩
  | released _ _ => exact ⟨hrest, howner⟩
  | interrupted _ _ => exact ⟨hrest, howner⟩
  | dropped _ _ _ => exact ⟨hrest, howner⟩
  | loop hpoint =>
    rw [step_of_atRest hrest] at hpoint
    cases hpoint

/-- Then nothing uses the object. -/
theorem Quiet.along (h : Quiet l) (es : List ClosingEvent) :
    Along ConnectionLife.step NoLateUse l es := by
  refine along_of_invariant (I := Quiet) (fun l e l' h hstep ↦ h.step hstep) ?_ h es
  rintro l e l' ⟨hrest, -⟩ hstep - event rfl
  rw [ConnectionLife.step, step_of_atRest hrest] at hstep
  cases hstep

/-- Who has the receiver task, and what the close tasks that have it have waited for. -/
structure Handed (l : ConnectionLife) : Prop where
  connecting : l.owner = .connecting → l.closeTasks = []
  moved : l.closeTasks ≠ [] → l.receiverTask = false
  held : l.receiver = .notStarted ∨ l.receiverTask = true ∨ ∃ t ∈ l.closeTasks, t.readerLoop = true
  waited : ∀ t ∈ l.closeTasks, t.readerLoop = true → t.point = .releasing ∨ t.point = .finished →
    l.receiver = .finished
  returned : l.owner = .holding → ∀ t ∈ l.closeTasks, t.point = .finished
  closing : l.owner = .closing → ∀ t ∈ l.closeTasks.tail, t.point = .finished

namespace Handed

private theorem of_nil (hnil : l.closeTasks = [])
    (hheld : l.receiver = .notStarted ∨ l.receiverTask = true) : Handed l where
  connecting _ := hnil
  moved hne := absurd hnil hne
  held := hheld.imp_right .inl
  waited t ht := by
    rw [hnil] at ht
    cases ht
  returned _ t ht := by
    rw [hnil] at ht
    cases ht
  closing _ t ht := by
    rw [hnil] at ht
    cases ht

private theorem init : Handed init := .of_nil rfl (.inl rfl)

private theorem closeImpl (h : Handed l) (howner : l.owner = .holding) {owner : OwnerPoint}
    (hconnecting : owner ≠ .connecting) (hholding : owner ≠ .holding) :
    Handed { l.closeImpl with owner := owner } where
  connecting howner := absurd howner hconnecting
  moved _ := rfl
  held := by
    rcases h.held with hreceiver | htask | ⟨t, ht, hloop⟩
    · exact .inl hreceiver
    · exact .inr (.inr ⟨_, List.mem_cons_self, htask⟩)
    · exact .inr (.inr ⟨t, List.mem_cons_of_mem _ ht, hloop⟩)
  waited t ht hloop hpoint := by
    rcases List.mem_cons.mp ht with rfl | ht
    · rcases hpoint with hpoint | hpoint
      · cases hpoint
      · cases hpoint
    · exact h.waited t ht hloop hpoint
  returned howner := absurd howner hholding
  closing _ := h.returned howner

private theorem set (h : Handed l) {i : Nat} {t t' : ClosingTask} {cancelled : Bool}
    (ht : l.closeTasks[i]? = some t) (hpoint : t.point ≠ .finished)
    (hloop : t'.readerLoop = t.readerLoop)
    (hwaited : t'.readerLoop = true → t'.point = .releasing ∨ t'.point = .finished →
      l.receiver = .finished) :
    Handed { l with cancelRequested := cancelled, closeTasks := l.closeTasks.set i t' } := by
  have hmem : t ∈ l.closeTasks := List.mem_of_getElem? ht
  have hne : l.closeTasks ≠ [] := List.ne_nil_of_mem hmem
  have hlt : i < l.closeTasks.length := (List.getElem?_eq_some_iff.mp ht).1
  constructor
  case connecting => exact fun howner ↦ absurd (h.connecting howner) hne
  case moved => exact fun _ ↦ h.moved hne
  case held =>
    rcases h.held with hreceiver | htask | ⟨u, hu, hreader⟩
    · exact .inl hreceiver
    · exact .inr (.inl htask)
    · refine .inr (.inr ?_)
      obtain ⟨j, hj, rfl⟩ := List.getElem_of_mem hu
      by_cases hij : i = j
      · subst hij
        refine ⟨t', List.mem_set hlt t', ?_⟩
        rw [hloop, ← hreader, (List.getElem?_eq_some_iff.mp ht).2]
      · have hstays := (List.getElem?_set_ne (a := t') hij).trans (List.getElem?_eq_getElem hj)
        exact ⟨_, List.mem_of_getElem? hstays, hreader⟩
  case waited =>
    intro u hu hreader hpast
    rcases List.mem_or_eq_of_mem_set hu with hu | rfl
    · exact h.waited u hu hreader hpast
    · exact hwaited hreader hpast
  case returned => exact fun howner ↦ absurd (h.returned howner t hmem) hpoint
  case closing =>
    intro howner
    -- The task that moves is the newest: the others have finished.
    cases i with
    | zero =>
      have htail : (l.closeTasks.set 0 t').tail = l.closeTasks.tail := by
        cases l.closeTasks with
        | nil => rfl
        | cons u us => rfl
      change ∀ u ∈ (l.closeTasks.set 0 t').tail, u.point = .finished
      rw [htail]
      exact h.closing howner
    | succ j =>
      refine absurd (h.closing howner t (List.mem_of_getElem? (i := j) ?_)) hpoint
      rw [List.getElem?_tail, ht]

private theorem loop (h : Handed l) {event : LoopEvent} {point : LoopPoint} {broken : Bool}
    (hpoint : l.receiver.step l.cancelRequested event = some point) :
    Handed { l with receiver := point, broken := broken } := by
  have hbusy : ¬ l.receiver.AtRest := by
    intro hrest
    rw [step_of_atRest hrest] at hpoint
    cases hpoint
  refine { h with held := ?_, waited := ?_ }
  · exact .inr (h.held.resolve_left (fun hreceiver ↦ hbusy (.inl hreceiver)))
  · intro t ht hreader hpast
    exact absurd (.inr (h.waited t ht hreader hpast)) hbusy

private theorem closeReturns (h : Handed l) (howner : l.owner = .closing)
    (htask : l.closeTasks.head?.all (fun t ↦ t.point = .finished) = true) :
    Handed { l with owner := .holding } := by
  refine { h with connecting := ?_, returned := fun _ ↦ ?_, closing := ?_ }
  · exact OwnerPoint.noConfusion
  · have htail := h.closing howner
    change ∀ t ∈ l.closeTasks, t.point = .finished
    cases htasks : l.closeTasks with
    | nil => exact fun t ht ↦ by cases ht
    | cons u us =>
      rw [htasks] at htask htail
      have hhead : u.point = .finished := of_decide_eq_true htask
      intro t ht
      rcases List.mem_cons.mp ht with rfl | ht
      · exact hhead
      · exact htail t ht
  · exact OwnerPoint.noConfusion

private theorem step (h : Handed l) (hstep : l.step e = some l') : Handed l' := by
  cases transition_of_step hstep with
  | startReceiverLoop howner => exact .of_nil (h.connecting howner) (.inr rfl)
  | connectFails howner =>
    refine .of_nil (h.connecting howner) (h.held.imp_right ?_)
    rintro (htask | ⟨t, ht, -⟩)
    · exact htask
    · rw [h.connecting howner] at ht
      cases ht
  | close howner => exact h.closeImpl howner OwnerPoint.noConfusion OwnerPoint.noConfusion
  | closeReturns howner htask => exact h.closeReturns howner htask
  | destruct howner => exact h.closeImpl howner OwnerPoint.noConfusion OwnerPoint.noConfusion
  | destructed howner =>
    refine { h with connecting := ?_, returned := ?_, closing := ?_ }
    · exact OwnerPoint.noConfusion
    · exact OwnerPoint.noConfusion
    · exact OwnerPoint.noConfusion
  | requestCancel ht hpoint hloop =>
    refine h.set ht (by rw [hpoint]; exact ClosePoint.noConfusion) rfl ?_
    rintro - (hpast | hpast)
    · cases hpast
    · cases hpast
  | waited ht hpoint =>
    refine h.set ht ?_ rfl ?_
    · rcases hpoint with ⟨hpoint, -⟩ | ⟨hpoint, -⟩
      · rw [hpoint]
        exact ClosePoint.noConfusion
      · rw [hpoint]
        exact ClosePoint.noConfusion
    · intro hreader _
      rcases hpoint with ⟨-, hnone⟩ | ⟨-, hfinished⟩
      · exact absurd (hnone.symm.trans hreader) Bool.noConfusion
      · exact hfinished
  | released ht hpoint =>
    refine h.set ht (by rw [hpoint]; exact ClosePoint.noConfusion) rfl ?_
    intro hreader _
    exact h.waited _ (List.mem_of_getElem? ht) hreader (.inl hpoint)
  | interrupted ht hpoint =>
    refine h.set ht (by rw [hpoint]; exact ClosePoint.noConfusion) rfl ?_
    rintro - (hpast | hpast)
    · cases hpast
    · cases hpast
  | dropped ht hpoint hreceiver =>
    -- the destructor of `reader_loop` has waited for the receiver
    exact h.set ht (by rw [hpoint]; exact ClosePoint.noConfusion) rfl (fun _ _ ↦ hreceiver)
  | loop hpoint => exact h.loop hpoint

end Handed

/-- Once `Connection::Close` has returned, the receiver is at rest. -/
theorem atRest_of_closed {ok : ConnectionLife → ClosingEvent → Prop} (h : Reaches step ok init l)
    (howner : l.owner = .holding) (hclosed : l.closeTasks ≠ []) : l.receiver.AtRest := by
  have hhanded : Handed l := h.invariant .init (fun l e l' h _ hstep ↦ h.step hstep)
  rcases hhanded.held with hreceiver | htask | ⟨t, ht, hloop⟩
  · exact .inl hreceiver
  · rw [hhanded.moved hclosed] at htask
    cases htask
  · exact .inr (hhanded.waited t ht hloop (.inr (hhanded.returned howner t ht)))

/-- A loop past its condition can use the object next. -/
theorem exists_use {point : LoopPoint} (h : ¬ point.AtRest) (hchecking : point ≠ .checking)
    (cancelRequested : Bool) :
    ∃ event q, event.usesObject = true ∧ point.step cancelRequested event = some q := by
  cases point with
  | notStarted => exact absurd (.inl rfl) h
  | checking => exact absurd rfl hchecking
  | readingHeader => exact ⟨.readThrows, .failed, rfl, rfl⟩
  | readingBody => exact ⟨.readThrows, .failed, rfl, rfl⟩
  | failed => exact ⟨.markBroken, .leaving, rfl, rfl⟩
  | pushing stream => exact ⟨.pushFails, .leaving, rfl, rfl⟩
  | leaving => exact ⟨.leave, .finished, rfl, rfl⟩
  | finished => exact absurd (.inr rfl) h

/-- Past the destructor, a loop that is not at rest can come to use the object. -/
theorem exists_late_use (howner : l.owner = .gone) (h : ¬ l.receiver.AtRest) :
    ∃ after, ¬ Along step NoLateUse l after := by
  by_cases hchecking : l.receiver = .checking
  · -- `ShouldCancel` lies before the next use, whatever it says.
    have hnext : ∃ q, l.receiver.step l.cancelRequested .shouldCancel = some q ∧
        ¬ q.AtRest ∧ q ≠ .checking := by
      rw [hchecking]
      refine ⟨_, rfl, ?_⟩
      cases l.cancelRequested with
      | true => decide
      | false => decide
    obtain ⟨q, hq, hrest, hne⟩ := hnext
    obtain ⟨event, r, huses, hr⟩ := exists_use hrest hne l.cancelRequested
    refine ⟨[.loop .shouldCancel, .loop event], fun halong ↦ ?_⟩
    simp only [Along, step, hq, hr, Option.map_some] at halong
    rw [halong.2.1 howner event rfl] at huses
    cases huses
  · obtain ⟨event, r, huses, hr⟩ := exists_use h hchecking l.cancelRequested
    refine ⟨[.loop event], fun halong ↦ ?_⟩
    simp only [Along, step, hr, Option.map_some] at halong
    rw [halong.1 howner event rfl] at huses
    cases huses

/-- A connection that is gone stays so. -/
theorem gone_step (h : l.owner = .gone) (hstep : l.step e = some l') : l'.owner = .gone := by
  cases transition_of_step hstep with
  | startReceiverLoop howner => exact OwnerPoint.noConfusion (howner.symm.trans h)
  | connectFails howner => exact OwnerPoint.noConfusion (howner.symm.trans h)
  | close howner => exact OwnerPoint.noConfusion (howner.symm.trans h)
  | closeReturns howner _ => exact OwnerPoint.noConfusion (howner.symm.trans h)
  | destruct howner => exact OwnerPoint.noConfusion (howner.symm.trans h)
  | destructed howner => exact OwnerPoint.noConfusion (howner.symm.trans h)
  | requestCancel _ _ _ => exact h
  | waited _ _ => exact h
  | released _ _ => exact h
  | interrupted _ _ => exact h
  | dropped _ _ _ => exact h
  | loop _ => exact h

/-- The object is used after its destructor in no run, however the tasks are scheduled, exactly
when the receiver is at rest as the destructor is entered. -/
theorem no_late_use_iff (before : List ClosingEvent) {l : ConnectionLife}
    (hrun : runIf step (fun _ _ ↦ True) init before = some l) (howner : l.owner = .holding) :
    (∀ after, Along step NoLateUse init (before ++ .destruct :: after)) ↔ l.receiver.AtRest := by
  have hbefore : Along step NoLateUse init before := by
    refine (along_of_not_yet (I := fun l ↦ l.owner = .gone) (fun l e l' ↦ gone_step) ?_ hrun ?_).2
    · intro l e hlive hgone
      exact absurd hgone hlive
    · rw [howner]
      exact OwnerPoint.noConfusion
  constructor
  · intro hall
    by_contra hrest
    obtain ⟨after, hlate⟩ := exists_late_use
      (l := { l.closeImpl with owner := .gone }) rfl hrest
    have halong := ((along_append hrun).mp (hall (.destructed :: after))).2
    simp only [Along, step, if_pos howner, if_true] at halong
    exact hlate halong.2.2
  · intro hrest after
    refine (along_append hrun).mpr ⟨hbefore, ?_⟩
    exact Quiet.along ⟨hrest, by rw [howner]; exact OwnerPoint.noConfusion⟩ _

/-- The receiver is in `ReadFrame`, and `Connection::Close` returns before the destructor. -/
def closedFirst : List ClosingEvent :=
  [.startReceiverLoop, .loop .shouldCancel, .close, .runClose 0, .loop .readThrows,
    .loop .markBroken, .loop .leave, .runClose 0, .runClose 0, .closeReturns]

/-- After `Close` the destructor is safe, whatever follows. -/
theorem no_late_use_closedFirst :
    runIf step (fun _ _ ↦ True) init closedFirst =
      some ⟨.holding, false, false, true, .finished, true, [⟨false, true, .finished⟩]⟩ ∧
    ∀ after, Along step NoLateUse init (closedFirst ++ .destruct :: after) :=
  ⟨by decide +kernel, (no_late_use_iff closedFirst rfl rfl).mpr (.inr rfl)⟩

/-- The destructor is entered while the receiver is in `ReadFrame`, and finishes; then the close
task cancels the receiver, which marks the connection broken. -/
theorem receiver_outlives : ¬ Along step NoLateUse init
    [.startReceiverLoop, .loop .shouldCancel, .destruct, .destructed, .runClose 0,
      .loop .readThrows, .loop .markBroken] := by
  rintro ⟨-, -, -, -, -, hread, -⟩
  exact Bool.noConfusion (hread rfl .readThrows rfl)

end ConnectionLife
end CassandraDriver.Detail
