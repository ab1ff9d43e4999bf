import CassandraDriver.Detail.Demultiplex
import CassandraDriver.Detail.RequestStream
import CassandraDriver.Detail.Sender

/-!
# One connection, down to its bytes

Library `Detail`. Models the established part of `src/detail/connection_impl.cpp` with the
bytes between client and server: `ExecuteMessageAsync` (line 175) by any number of callers,
each with a request of its own, `SendMessage` (line 307), which may stop part-way, `ReadFrame`
(line 348) and `ReceiverLoop` (line 388). The server is one of the native protocol: it reads
request frames from the bytes it gets, and answers each request at most once, in any order,
on the stream the request came on.
-/

namespace CassandraDriver.Detail
open CassandraDriver.Lib CassandraDriver.Protocol

/-- Where a call that holds a stream id stands, `connection_impl.cpp:191–202`. -/
inductive WireStage
  | popping
  | popped (received : Received)
  | popFailed
  | unwinding

/-- The end of `ExecuteMessageAsync` with a message, `connection_impl.cpp:202–204`. -/
def checkReceived (received : Received) : Except CallError Received := do
  checkError received.message
  return received

/-- A call of `ExecuteMessageAsync` with its request: under way, over with what `CheckError`
made of a message, or over by another exception. -/
inductive WirePhase
  | idle
  | inFlight (message : RequestMessage) (stream : Nat) (stage : WireStage)
  | checked (message : RequestMessage) (outcome : Except CallError Received)
  | threw (message : RequestMessage)

/-- The request of a call. -/
def WirePhase.message : WirePhase → Option RequestMessage
  | idle => none
  | inFlight m _ _ => some m
  | checked m _ => some m
  | threw m => some m

/-- `ReceiverLoop`: in `ReadFrame`, in `Push`, or gone. -/
inductive WireReceiver
  | reading
  | pushing (received : Received)
  | exited (reason : ExitReason)

/-- The message in the receiver's hands. -/
def WireReceiver.received : WireReceiver → List Received
  | pushing r => [r]
  | reading => []
  | exited _ => []

/-- The queue a message belongs to. -/
def Received.index (r : Received) : Nat := r.header.stream.toInt.toNat

/-- A request that the server has read, and its answer once there is one. -/
structure Served where
  stream : Int
  request : V4.Request
  answer : Option V4.Response

/-- A connection, the bytes on its socket and the server at the other end. `read` is how many
of the client's bytes the server has read, `served` what it found in them, in order, and
`incoming` what the server has sent and the receiver has not read. -/
structure Wire where
  streamPool : StreamPool
  calls : Nat → WirePhase
  sender : Sender
  queues : Nat → Option Received
  receiver : WireReceiver
  broken : Bool
  read : Nat
  served : List Served
  incoming : List UInt8

/-- What can happen next. -/
inductive WireEvent
  /-- `StreamGuard` gets an id for a request. -/
  | acquire (call : Nat) (message : RequestMessage) (id : Nat)
  /-- `StreamGuard` throws. -/
  | exhausted (call : Nat) (message : RequestMessage)
  /-- The send task serializes the request. -/
  | start (call : Nat)
  | lock (call : Nat)
  | write (n : Nat)
  | finish
  | stop
  | pop (call : Nat)
  | popFails (call : Nat)
  | waitThrows (call : Nat)
  /-- The send task is over and the call ends. -/
  | leave (call : Nat)
  /-- The server reads a request. -/
  | serve
  /-- The server answers the request with this number. -/
  | answer (number : Nat) (response : V4.Response)
  | readFrame
  | readFails
  | push
  | pushFails
  | cancel

/-- The bytes that `ReadFrame` asks for are there, so that neither `RecvAll` waits. -/
def frameArrived (stream : List UInt8) : Bool :=
  FrameHeader.kHeaderSize ≤ stream.length &&
    match readHeader stream with
    | .error _ => true
    | .ok header =>
      match getResponseMessageFromHeader header with
      | .error _ => true
      | .ok _ => FrameHeader.kHeaderSize + bodyLength header ≤ stream.length

namespace Wire

/-- After `StartReceiverLoop`. -/
def init : Wire where
  streamPool := .init
  calls _ := .idle
  sender := .init
  queues _ := none
  receiver := .reading
  broken := false
  read := 0
  served := []
  incoming := []

/-- A call moves on. -/
def setCall (w : Wire) (i : Nat) (p : WirePhase) : Wire :=
  { w with calls := Function.update w.calls i p }

/-- The end of `ExecuteMessageAsync` and the destructor of its `StreamGuard`. -/
def leave (w : Wire) (i stream : Nat) (p : WirePhase) : Wire :=
  { w with calls := Function.update w.calls i p, streamPool := w.streamPool.release stream }

variable (lz4 : Option Lz4Api) (memory : List UInt8 → Nat → UInt8)

/-- A step of the sending side. -/
def send (w : Wire) (e : SendEvent) : Option Wire :=
  (w.sender.step (lz4.map Lz4Api.compressor) e).map (fun s ↦ { w with sender := s })

/-- One step. -/
def step (w : Wire) : WireEvent → Option Wire
  | .acquire i m id =>
    match w.calls i, w.streamPool.acquire id with
    | .idle, some pool => some { w.setCall i (.inFlight m id .popping) with streamPool := pool }
    | _, _ => none
  | .exhausted i m =>
    match w.calls i with
    | .idle => some (w.setCall i (.threw m))
    | _ => none
  | .start i =>
    match w.calls i with
    | .inFlight m id _ => w.send lz4 (.start i m (Int16.ofNat id))
    | _ => none
  | .lock i => w.send lz4 (.lock i)
  | .write n => w.send lz4 (.write n)
  | .finish => w.send lz4 .finish
  | .stop => w.send lz4 .stop
  | .pop i =>
    match w.calls i with
    | .inFlight m id .popping =>
      match w.queues id with
      | some r => some { w.setCall i (.inFlight m id (.popped r)) with
          queues := Function.update w.queues id none }
      | none => none
    | _ => none
  | .popFails i =>
    match w.calls i with
    | .inFlight m id .popping => some (w.setCall i (.inFlight m id .popFailed))
    | _ => none
  | .waitThrows i =>
    match w.calls i with
    | .inFlight m id (.popped _) => some (w.setCall i (.inFlight m id .unwinding))
    | .inFlight m id .popFailed => some (w.setCall i (.inFlight m id .unwinding))
    | _ => none
  | .leave i =>
    if w.sender.calls i = .over then
      match w.calls i with
      | .inFlight m id (.popped r) => some (w.leave i id (.checked m (checkReceived r)))
      | .inFlight m id .popFailed => some { w.leave i id (.threw m) with broken := true }
      | .inFlight m id .unwinding => some (w.leave i id (.threw m))
      | _ => none
    else none
  | .serve =>
    match (V4.requestFrame lz4).run (w.sender.bytes.drop w.read) with
    | some (p, rest) => some { w with
        read := w.sender.bytes.length - rest.length
        served := w.served ++ [⟨p.1, p.2, none⟩] }
    | none => none
  | .answer k response =>
    match w.served[k]? with
    | some ⟨stream, request, none⟩ => some { w with
        served := w.served.set k ⟨stream, request, some response⟩
        incoming := w.incoming ++ Reply.encode lz4 ⟨Int16.ofInt stream, response⟩ }
    | _ => none
  | .readFrame =>
    match w.receiver with
    | .reading =>
      if frameArrived w.incoming then
        match Detail.readFrame (lz4.map Lz4Api.compressor) memory w.incoming with
        | .error _ => some { w with receiver := .exited .readError, broken := true }
        | .ok (r, rest) =>
          if r.header.stream.toInt < 0 then some { w with incoming := rest }
          else if StreamPool.kMaxStreams ≤ r.index then
            some { w with incoming := rest, receiver := .exited .streamOutOfRange }
          else some { w with incoming := rest, receiver := .pushing r }
      else none
    | _ => none
  | .readFails =>
    match w.receiver with
    | .reading => some { w with receiver := .exited .readError, broken := true }
    | _ => none
  | .push =>
    match w.receiver with
    | .pushing r =>
      match w.queues r.index with
      | none => some { w with
          queues := Function.update w.queues r.index (some r), receiver := .reading }
      | some _ => none
    | _ => none
  | .pushFails =>
    match w.receiver with
    | .pushing _ => some { w with receiver := .exited .pushFailed }
    | _ => none
  | .cancel =>
    match w.receiver with
    | .exited _ => none
    | _ => some { w with receiver := .exited .cancelled }

/-- The steps with their guards, one constructor for each way an event can go. -/
inductive Transition (w : Wire) : WireEvent → Wire → Prop
  | acquire {i m id} (hi : w.calls i = .idle) (hid : id ∈ w.streamPool.queue) :
      Transition w (.acquire i m id) { w.setCall i (.inFlight m id .popping) with
        streamPool := ⟨w.streamPool.queue.erase id⟩ }
  | exhausted {i m} (hi : w.calls i = .idle) :
      Transition w (.exhausted i m) (w.setCall i (.threw m))
  | start {i m id stage s} (hi : w.calls i = .inFlight m id stage)
      (hs : w.sender.step (lz4.map Lz4Api.compressor) (.start i m (Int16.ofNat id)) = some s) :
      Transition w (.start i) { w with sender := s }
  | lock {i s} (hs : w.sender.step (lz4.map Lz4Api.compressor) (.lock i) = some s) :
      Transition w (.lock i) { w with sender := s }
  | write {n s} (hs : w.sender.step (lz4.map Lz4Api.compressor) (.write n) = some s) :
      Transition w (.write n) { w with sender := s }
  | finish {s} (hs : w.sender.step (lz4.map Lz4Api.compressor) .finish = some s) :
      Transition w .finish { w with sender := s }
  | stop {s} (hs : w.sender.step (lz4.map Lz4Api.compressor) .stop = some s) :
      Transition w .stop { w with sender := s }
  | pop {i m id r} (hi : w.calls i = .inFlight m id .popping) (hq : w.queues id = some r) :
      Transition w (.pop i) { w.setCall i (.inFlight m id (.popped r)) with
        queues := Function.update w.queues id none }
  | popFails {i m id} (hi : w.calls i = .inFlight m id .popping) :
      Transition w (.popFails i) (w.setCall i (.inFlight m id .popFailed))
  | waitThrows {i m id stage} (hi : w.calls i = .inFlight m id stage)
      (hs : stage = .popFailed ∨ ∃ r, stage = .popped r) :
      Transition w (.waitThrows i) (w.setCall i (.inFlight m id .unwinding))
  | checked {i m id r} (hsent : w.sender.calls i = .over)
      (hi : w.calls i = .inFlight m id (.popped r)) :
      Transition w (.leave i) (w.leave i id (.checked m (checkReceived r)))
  | timedOut {i m id} (hsent : w.sender.calls i = .over)
      (hi : w.calls i = .inFlight m id .popFailed) :
      Transition w (.leave i) { w.leave i id (.threw m) with broken := true }
  | unwound {i m id} (hsent : w.sender.calls i = .over)
      (hi : w.calls i = .inFlight m id .unwinding) :
      Transition w (.leave i) (w.leave i id (.threw m))
  | serve {p rest} (hp : (V4.requestFrame lz4).run (w.sender.bytes.drop w.read) = some (p, rest)) :
      Transition w .serve { w with
        read := w.sender.bytes.length - rest.length
        served := w.served ++ [⟨p.1, p.2, none⟩] }
  | answer {k stream request response} (hk : w.served[k]? = some ⟨stream, request, none⟩) :
      Transition w (.answer k response) { w with
        served := w.served.set k ⟨stream, request, some response⟩
        incoming := w.incoming ++ Reply.encode lz4 ⟨Int16.ofInt stream, response⟩ }
  | unreadable {e} (hr : w.receiver = .reading) (ha : frameArrived w.incoming = true)
      (hf : Detail.readFrame (lz4.map Lz4Api.compressor) memory w.incoming = .error e) :
      Transition w .readFrame { w with receiver := .exited .readError, broken := true }
  | skip {r rest} (hr : w.receiver = .reading) (ha : frameArrived w.incoming = true)
      (hf : Detail.readFrame (lz4.map Lz4Api.compressor) memory w.incoming = .ok (r, rest))
      (hneg : r.header.stream.toInt < 0) :
      Transition w .readFrame { w with incoming := rest }
  | outOfRange {r rest} (hr : w.receiver = .reading) (ha : frameArrived w.incoming = true)
      (hf : Detail.readFrame (lz4.map Lz4Api.compressor) memory w.incoming = .ok (r, rest))
      (h0 : 0 ≤ r.header.stream.toInt) (hge : StreamPool.kMaxStreams ≤ r.index) :
      Transition w .readFrame
        { w with incoming := rest, receiver := .exited .streamOutOfRange }
  | readFrame {r rest} (hr : w.receiver = .reading) (ha : frameArrived w.incoming = true)
      (hf : Detail.readFrame (lz4.map Lz4Api.compressor) memory w.incoming = .ok (r, rest))
      (h0 : 0 ≤ r.header.stream.toInt) (hlt : r.index < StreamPool.kMaxStreams) :
      Transition w .readFrame { w with incoming := rest, receiver := .pushing r }
  | readFails (hr : w.receiver = .reading) :
      Transition w .readFails { w with receiver := .exited .readError, broken := true }
  | push {r} (hr : w.receiver = .pushing r) (hq : w.queues r.index = none) :
      Transition w .push { w with
        queues := Function.update w.queues r.index (some r), receiver := .reading }
  | pushFails {r} (hr : w.receiver = .pushing r) :
      Transition w .pushFails { w with receiver := .exited .pushFailed }
  | cancel (hr : ∀ reason, w.receiver ≠ .exited reason) :
      Transition w .cancel { w with receiver := .exited .cancelled }

variable {lz4 memory}

private theorem send_eq_some {w w' : Wire} {e : SendEvent} (h : w.send lz4 e = some w') :
    ∃ s, w.sender.step (lz4.map Lz4Api.compressor) e = some s ∧ { w with sender := s } = w' :=
  Option.map_eq_some_iff.mp h

/-- A step is one of the transitions. -/
theorem transition_of_step {w w' : Wire} {e : WireEvent} (h : w.step lz4 memory e = some w') :
    Transition lz4 memory w e w' := by
  cases e with
  | acquire i m id =>
    simp only [step, StreamPool.acquire] at h
    split at h
    · next hi hp =>
      obtain ⟨hid, rfl⟩ := Option.ite_some_none_eq_some.mp hp
      cases h
      exact .acquire hi hid
    · cases h
  | exhausted i m =>
    simp only [step] at h
    split at h
    · next hi =>
      cases h
      exact .exhausted hi
    · cases h
  | start i =>
    simp only [step] at h
    split at h
    · next hi =>
      obtain ⟨s, hs, rfl⟩ := send_eq_some h
      exact .start hi hs
    · cases h
  | lock i =>
    obtain ⟨s, hs, rfl⟩ := send_eq_some h
    exact .lock hs
  | write n =>
    obtain ⟨s, hs, rfl⟩ := send_eq_some h
    exact .write hs
  | finish =>
    obtain ⟨s, hs, rfl⟩ := send_eq_some h
    exact .finish hs
  | stop =>
    obtain ⟨s, hs, rfl⟩ := send_eq_some h
    exact .stop hs
  | pop i =>
    simp only [step] at h
    split at h
    · next hi =>
      split at h
      · next hq =>
        cases h
        exact .pop hi hq
      · cases h
    · cases h
  | popFails i =>
    simp only [step] at h
    split at h
    · next hi =>
      cases h
      exact .popFails hi
    · cases h
  | waitThrows i =>
    simp only [step] at h
    split at h
    · next r hi =>
      cases h
      exact .waitThrows hi (.inr ⟨_, rfl⟩)
    · next hi =>
      cases h
      exact .waitThrows hi (.inl rfl)
    · cases h
  | leave i =>
    simp only [step] at h
    split at h
    · next hsent =>
      split at h
      · next hi =>
        cases h
        exact .checked hsent hi
      · next hi =>
        cases h
        exact .timedOut hsent hi
      · next hi =>
        cases h
        exact .unwound hsent hi
      · cases h
    · cases h
  | serve =>
    simp only [step] at h
    split at h
    · next hp =>
      cases h
      exact .serve hp
    · cases h
  | answer k response =>
    simp only [step] at h
    split at h
    · next hk =>
      cases h
      exact .answer hk
    · cases h
  | readFrame =>
    simp only [step] at h
    split at h
    · next hr =>
      split at h
      · next ha =>
        split at h
        · next hf =>
          cases h
          exact .unreadable hr ha hf
        · next hf =>
          split at h
          · next hneg =>
            cases h
            exact .skip hr ha hf hneg
          · next h0 =>
            split at h
            · next hge =>
              cases h
              exact .outOfRange hr ha hf (by omega) hge
            · next hlt =>
              cases h
              exact .readFrame hr ha hf (by omega) (by omega)
      · cases h
    · cases h
  | readFails =>
    simp only [step] at h
    split at h
    · next hr =>
      cases h
      exact .readFails hr
    · cases h
  | push =>
    simp only [step] at h
    split at h
    · next hr =>
      split at h
      · next hq =>
        cases h
        exact .push hr hq
      · cases h
    · cases h
  | pushFails =>
    simp only [step] at h
    split at h
    · next hr =>
      cases h
      exact .pushFails hr
    · cases h
  | cancel =>
    simp only [step] at h
    split at h
    · cases h
    · next hr =>
      cases h
      exact .cancel hr

end Wire
end CassandraDriver.Detail
