import Mathlib.Data.List.Nodup
import Mathlib.Logic.Function.Basic
import CassandraDriver.Lib.Lts
import CassandraDriver.Protocol.Frame

/-!
# One connection: stream ids, calls and the receiver

Library `Detail`. Models `src/detail/stream_pool.{hpp,cpp}` and the established part of
`src/detail/connection_impl.cpp`: `ExecuteMessageAsync` (line 175) by any number of
callers, `ReceiverLoop` (line 388) and `MarkBroken`, together with the server they talk
to. Every event is one step between two suspension points of the code, so the runs are
the interleavings. A call that fails at some point has an event for it: a deadline or a
cancellation may strike whenever the code waits.
-/

namespace CassandraDriver.Detail
open CassandraDriver.Lib

/-- `StreamPool`, `src/detail/stream_pool.hpp:11`: the ids in its queue. The queue is not
first-in first-out, so a consumer may get any of them. -/
structure StreamPool where
  queue : List Nat
  deriving DecidableEq, Repr

namespace StreamPool

/-- `StreamPool::kMaxStreams`. -/
def kMaxStreams : Nat := 1024

/-- The constructor, `stream_pool.hpp:18`. -/
def init : StreamPool := ⟨List.range kMaxStreams⟩

/-- `Acquire` when it pops this id, `src/detail/stream_pool.cpp:7`. -/
def acquire (p : StreamPool) (id : Nat) : Option StreamPool :=
  if id ∈ p.queue then some ⟨p.queue.erase id⟩ else none

/-- `Release`, `stream_pool.cpp:17`: a full queue drops the id. -/
def release (p : StreamPool) (id : Nat) : StreamPool :=
  if p.queue.length < kMaxStreams then ⟨id :: p.queue⟩ else p

/-- `GetUsedStreams`, `stream_pool.hpp:33`. -/
def getUsedStreams (p : StreamPool) : Nat := kMaxStreams - p.queue.length

end StreamPool

/-- A request the server has received, named by the call that sent it. -/
structure Request where
  call : Nat
  stream : Nat
  deriving DecidableEq, Repr

/-- A response frame as the receiver hands it on: its stream id, the request it answers if
it answers one, and whether `CheckError` throws on it. -/
structure ResponseFrame where
  stream : Int16
  request : Option Nat
  raises : Bool
  deriving DecidableEq, Repr

/-- The queue a frame belongs to. -/
def ResponseFrame.index (f : ResponseFrame) : Nat := f.stream.toInt.toNat

/-- Where a call that holds a stream id stands, `connection_impl.cpp:191–202`: in `Pop`, after
a `Pop` that returned a frame or failed, or leaving by an exception of `task.Wait`. -/
inductive Stage
  | popping
  | popped (frame : ResponseFrame)
  | popFailed
  | unwinding
  deriving DecidableEq, Repr

/-- A call of `ExecuteMessageAsync`. `sent` says that its send task has finished. -/
inductive Phase
  | idle
  | inFlight (stream : Nat) (sent : Bool) (stage : Stage)
  | returned (frame : ResponseFrame)
  | threw
  deriving DecidableEq, Repr

/-- Why `ReceiverLoop` left its loop. -/
inductive ExitReason
  | cancelled | readError | streamOutOfRange | pushFailed
  deriving DecidableEq, Repr

/-- `ReceiverLoop`: in `ReadFrame`, in `Push`, or gone. -/
inductive Receiver
  | reading
  | pushing (frame : ResponseFrame)
  | exited (reason : ExitReason)
  deriving DecidableEq, Repr

/-- The frame in the receiver's hands. -/
def Receiver.frames : Receiver → List ResponseFrame
  | pushing f => [f]
  | reading => []
  | exited _ => []

/-- A connection and its server. `server` holds the requests received and not answered,
`wire` the frames on their way back in order. -/
structure Connection where
  streamPool : StreamPool
  calls : Nat → Phase
  queues : Nat → Option ResponseFrame
  server : List Request
  wire : List ResponseFrame
  receiver : Receiver
  broken : Bool

/-- What can happen next. -/
inductive Event
  /-- `StreamGuard` gets an id, and the send task is started. -/
  | acquire (call id : Nat)
  /-- `StreamGuard` throws. -/
  | exhausted (call : Nat)
  /-- The send task puts the whole request on the socket. -/
  | send (call : Nat)
  /-- The send task ends otherwise; the server sees no request. -/
  | sendFails (call : Nat)
  | pop (call : Nat)
  | popFails (call : Nat)
  /-- `task.Wait` throws because the caller is cancelled. -/
  | waitThrows (call : Nat)
  /-- The send task is over and the call ends. -/
  | leave (call : Nat)
  | answer (request : Request) (raises : Bool)
  /-- The peer sends a frame that answers nothing. -/
  | unsolicited (frame : ResponseFrame)
  | readFrame
  | readFails
  | push
  | pushFails
  /-- The receiver task is cancelled. -/
  | cancel
  deriving DecidableEq, Repr

namespace Connection

/-- After `StartReceiverLoop`. -/
def init : Connection where
  streamPool := .init
  calls _ := .idle
  queues _ := none
  server := []
  wire := []
  receiver := .reading
  broken := false

/-- A call moves on. -/
def setCall (c : Connection) (i : Nat) (p : Phase) : Connection :=
  { c with calls := Function.update c.calls i p }

/-- The end of `ExecuteMessageAsync` and the destructor of its `StreamGuard`. -/
def leave (c : Connection) (i stream : Nat) (p : Phase) : Connection :=
  { c with calls := Function.update c.calls i p, streamPool := c.streamPool.release stream }

/-- The answer to a request: the frame carries the request's stream id. -/
def answerFrame (r : Request) (raises : Bool) : ResponseFrame :=
  ⟨Int16.ofNat r.stream, some r.call, raises⟩

/-- One step. -/
def step (c : Connection) : Event → Option Connection
  | .acquire i id =>
    match c.calls i, c.streamPool.acquire id with
    | .idle, some pool => some { c.setCall i (.inFlight id false .popping) with streamPool := pool }
    | _, _ => none
  | .exhausted i =>
    match c.calls i with
    | .idle => some (c.setCall i .threw)
    | _ => none
  | .send i =>
    match c.calls i with
    | .inFlight id false stage =>
      some { c.setCall i (.inFlight id true stage) with server := c.server ++ [⟨i, id⟩] }
    | _ => none
  | .sendFails i =>
    match c.calls i with
    | .inFlight id false stage => some (c.setCall i (.inFlight id true stage))
    | _ => none
  | .pop i =>
    match c.calls i with
    | .inFlight id sent .popping =>
      match c.queues id with
      | some f => some { c.setCall i (.inFlight id sent (.popped f)) with
          queues := Function.update c.queues id none }
      | none => none
    | _ => none
  | .popFails i =>
    match c.calls i with
    | .inFlight id sent .popping => some (c.setCall i (.inFlight id sent .popFailed))
    | _ => none
  | .waitThrows i =>
    match c.calls i with
    | .inFlight id sent (.popped _) => some (c.setCall i (.inFlight id sent .unwinding))
    | .inFlight id sent .popFailed => some (c.setCall i (.inFlight id sent .unwinding))
    | _ => none
  | .leave i =>
    match c.calls i with
    | .inFlight id true (.popped f) =>
      some (c.leave i id (if f.raises then .threw else .returned f))
    | .inFlight id true .popFailed => some { c.leave i id .threw with broken := true }
    | .inFlight id true .unwinding => some (c.leave i id .threw)
    | _ => none
  | .answer r raises =>
    if r ∈ c.server then
      some { c with server := c.server.erase r, wire := c.wire ++ [answerFrame r raises] }
    else none
  | .unsolicited f => some { c with wire := c.wire ++ [f] }
  | .readFrame =>
    match c.receiver, c.wire with
    | .reading, f :: wire =>
      if f.stream.toInt < 0 then some { c with wire := wire }
      else if StreamPool.kMaxStreams ≤ f.index then
        some { c with wire := wire, receiver := .exited .streamOutOfRange }
      else some { c with wire := wire, receiver := .pushing f }
    | _, _ => none
  | .readFails =>
    match c.receiver with
    | .reading => some { c with receiver := .exited .readError, broken := true }
    | _ => none
  | .push =>
    match c.receiver with
    | .pushing f =>
      match c.queues f.index with
      | none => some { c with
          queues := Function.update c.queues f.index (some f), receiver := .reading }
      | some _ => none
    | _ => none
  | .pushFails =>
    match c.receiver with
    | .pushing _ => some { c with receiver := .exited .pushFailed }
    | _ => none
  | .cancel =>
    match c.receiver with
    | .exited _ => none
    | _ => some { c with receiver := .exited .cancelled }

/-- The steps with their guards, one constructor for each way an event can go. -/
inductive Transition (c : Connection) : Event → Connection → Prop
  | acquire {i id} (hi : c.calls i = .idle) (hid : id ∈ c.streamPool.queue) :
      Transition c (.acquire i id) { c.setCall i (.inFlight id false .popping) with
        streamPool := ⟨c.streamPool.queue.erase id⟩ }
  | exhausted {i} (hi : c.calls i = .idle) : Transition c (.exhausted i) (c.setCall i .threw)
  | send {i id stage} (hi : c.calls i = .inFlight id false stage) :
      Transition c (.send i) { c.setCall i (.inFlight id true stage) with
        server := c.server ++ [⟨i, id⟩] }
  | sendFails {i id stage} (hi : c.calls i = .inFlight id false stage) :
      Transition c (.sendFails i) (c.setCall i (.inFlight id true stage))
  | pop {i id sent f} (hi : c.calls i = .inFlight id sent .popping) (hq : c.queues id = some f) :
      Transition c (.pop i) { c.setCall i (.inFlight id sent (.popped f)) with
        queues := Function.update c.queues id none }
  | popFails {i id sent} (hi : c.calls i = .inFlight id sent .popping) :
      Transition c (.popFails i) (c.setCall i (.inFlight id sent .popFailed))
  | waitThrows {i id sent stage} (hi : c.calls i = .inFlight id sent stage)
      (hs : stage = .popFailed ∨ ∃ f, stage = .popped f) :
      Transition c (.waitThrows i) (c.setCall i (.inFlight id sent .unwinding))
  | checked {i id f} (hi : c.calls i = .inFlight id true (.popped f)) :
      Transition c (.leave i) (c.leave i id (if f.raises then .threw else .returned f))
  | timedOut {i id} (hi : c.calls i = .inFlight id true .popFailed) :
      Transition c (.leave i) { c.leave i id .threw with broken := true }
  | unwound {i id} (hi : c.calls i = .inFlight id true .unwinding) :
      Transition c (.leave i) (c.leave i id .threw)
  | answer {r raises} (hr : r ∈ c.server) :
      Transition c (.answer r raises)
        { c with server := c.server.erase r, wire := c.wire ++ [answerFrame r raises] }
  | unsolicited {f} : Transition c (.unsolicited f) { c with wire := c.wire ++ [f] }
  | skip {f wire} (hr : c.receiver = .reading) (hw : c.wire = f :: wire)
      (hf : f.stream.toInt < 0) : Transition c .readFrame { c with wire := wire }
  | outOfRange {f wire} (hr : c.receiver = .reading) (hw : c.wire = f :: wire)
      (h0 : 0 ≤ f.stream.toInt) (hf : StreamPool.kMaxStreams ≤ f.index) :
      Transition c .readFrame
        { c with wire := wire, receiver := .exited .streamOutOfRange }
  | readFrame {f wire} (hr : c.receiver = .reading) (hw : c.wire = f :: wire)
      (h0 : 0 ≤ f.stream.toInt) (hf : f.index < StreamPool.kMaxStreams) :
      Transition c .readFrame { c with wire := wire, receiver := .pushing f }
  | readFails (hr : c.receiver = .reading) :
      Transition c .readFails { c with receiver := .exited .readError, broken := true }
  | push {f} (hr : c.receiver = .pushing f) (hq : c.queues f.index = none) :
      Transition c .push { c with
        queues := Function.update c.queues f.index (some f), receiver := .reading }
  | pushFails {f} (hr : c.receiver = .pushing f) :
      Transition c .pushFails { c with receiver := .exited .pushFailed }
  | cancel (hr : ∀ reason, c.receiver ≠ .exited reason) :
      Transition c .cancel { c with receiver := .exited .cancelled }

/-- A step is one of the transitions. -/
theorem transition_of_step {c c' : Connection} {e : Event} (h : c.step e = some c') :
    Transition c e c' := by
  cases e with
  | acquire i id =>
    simp only [step, StreamPool.acquire] at h
    split at h
    · next hi hp =>
      obtain ⟨hid, rfl⟩ := Option.ite_some_none_eq_some.mp hp
      cases h
      exact .acquire hi hid
    · cases h
  | exhausted i =>
    simp only [step] at h
    split at h
    · next hi =>
      cases h
      exact .exhausted hi
    · cases h
  | send i =>
    simp only [step] at h
    split at h
    · next hi =>
      cases h
      exact .send hi
    · cases h
  | sendFails i =>
    simp only [step] at h
    split at h
    · next hi =>
      cases h
      exact .sendFails hi
    · cases h
  | pop i =>
    simp only [step] at h
    split at h
    · next hi =>
      split at h
      · next hq =>
        cases h
        exact .pop hi hq
      · cases h
    · cases h
  | popFails i =>
    simp only [step] at h
    split at h
    · next hi =>
      cases h
      exact .popFails hi
    · cases h
  | waitThrows i =>
    simp only [step] at h
    split at h
    · next f hi =>
      cases h
      exact .waitThrows hi (.inr ⟨_, rfl⟩)
    · next hi =>
      cases h
      exact .waitThrows hi (.inl rfl)
    · cases h
  | leave i =>
    simp only [step] at h
    split at h
    · next hi =>
      cases h
      exact .checked hi
    · next hi =>
      cases h
      exact .timedOut hi
    · next hi =>
      cases h
      exact .unwound hi
    · cases h
  | answer r raises =>
    simp only [step] at h
    obtain ⟨hr, rfl⟩ := Option.ite_some_none_eq_some.mp h
    exact .answer hr
  | unsolicited f =>
    cases h
    exact .unsolicited
  | readFrame =>
    simp only [step] at h
    split at h
    · next f wire hr hw =>
      split at h
      · next hf =>
        cases h
        exact .skip hr hw hf
      · next h0 =>
        split at h
        · next hf =>
          cases h
          exact .outOfRange hr hw (by omega) hf
        · next hf =>
          cases h
          exact .readFrame hr hw (by omega) (by omega)
    · cases h
  | readFails =>
    simp only [step] at h
    split at h
    · next hr =>
      cases h
      exact .readFails hr
    · cases h
  | push =>
    simp only [step] at h
    split at h
    · next f hr =>
      split at h
      · next hq =>
        cases h
        exact .push hr hq
      · cases h
    · cases h
  | pushFails =>
    simp only [step] at h
    split at h
    · next f hr =>
      cases h
      exact .pushFails hr
    · cases h
  | cancel =>
    simp only [step] at h
    split at h
    · cases h
    · next hr =>
      cases h
      exact .cancel hr

end Connection
end CassandraDriver.Detail
