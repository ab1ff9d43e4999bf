import Mathlib.Data.Option.Basic
import CassandraDriver.Detail.Wire
import CassandraDriver.Lib.Simulation

/-!
# How a connection with its bytes stands to one without

Library `Detail`. The relation between a `Wire` and the `Connection` it implements. Behind it
stands the list of the requests that are out in full, in the order of their bytes: the server
reads a front part of it, and what the connection has under way are the answers to its
entries.
-/

namespace CassandraDriver.Detail
open CassandraDriver.Lib CassandraDriver.Protocol

/-- `CheckError` throws on the response. -/
def raises (response : V4.Response) : Bool := !(checkError response.toMessage).isOk

/-- A request that is out in full. -/
structure Sent where
  call : Nat
  message : RequestMessage
  stream : Nat

namespace Sent

/-- Its bytes. -/
def frame (lz4 : Option Lz4Api) (s : Sent) : List UInt8 :=
  s.message.wireFrame lz4 (Int16.ofNat s.stream)

/-- The request without its content. -/
def request (s : Sent) : Request := ⟨s.call, s.stream⟩

end Sent

/-- The request of the call is out in full, or its send task is over. -/
def Sender.sent (s : Sender) (i : Nat) : Bool :=
  decide (s.calls i = .over) || s.holder.any (fun p ↦ decide (p.1 = i ∧ p.2.Complete))

/-- A send task has sent its frame when it is over, or holds the mutex and has only to return. -/
theorem Sender.sent_iff {s : Sender} {i : Nat} :
    s.sent i = true ↔ s.calls i = .over ∨ ∃ g, s.holder = some (i, g) ∧ g.Complete := by
  rw [Sender.sent, Bool.or_eq_true, decide_eq_true_eq]
  refine or_congr Iff.rfl ?_
  cases hh : s.holder with
  | none => simp
  | some p =>
    obtain ⟨j, g⟩ := p
    rw [Option.any_some, decide_eq_true_eq]
    constructor
    · rintro ⟨rfl, hg⟩
      exact ⟨g, rfl, hg⟩
    · rintro ⟨g', h, hg⟩
      cases h
      exact ⟨rfl, hg⟩

section
variable (lz4 : Option Lz4Api)

/-- The frame and the reply answer the same request. -/
def Answered (order : List Sent) (served : List Served) (f : ResponseFrame) (r : Reply) : Prop :=
  ∃ (k : Nat) (s : Sent) (v : Served), order[k]? = some s ∧ served[k]? = some v ∧
    v.answer = some r.response ∧ r.stream = Int16.ofNat s.stream ∧
    f = Connection.answerFrame s.request (raises r.response) ∧ Reply.Carried lz4 r.response

/-- The message is what `ReadFrame` makes of a reply that answers the frame's request. -/
def Delivers (order : List Sent) (served : List Served) (f : ResponseFrame) (m : Received) :
    Prop :=
  ∃ r, Answered lz4 order served f r ∧ m = r.received lz4

/-- Requests are added behind those that are there, and answers stay. -/
structure Extends (order : List Sent) (served : List Served) (order' : List Sent)
    (served' : List Served) : Prop where
  order : ∀ (k : Nat) (s : Sent), order[k]? = some s → order'[k]? = some s
  answers : ∀ (k : Nat) (v : Served) (response : V4.Response), served[k]? = some v →
    v.answer = some response → ∃ v', served'[k]? = some v' ∧ v'.answer = some response

variable {lz4} {order order' : List Sent} {served served' : List Served}

/-- An answer stays one. -/
theorem Answered.mono {f : ResponseFrame} {r : Reply} (h : Answered lz4 order served f r)
    (hext : Extends order served order' served') : Answered lz4 order' served' f r := by
  obtain ⟨k, s, v, hk, hv, ha, hrest⟩ := h
  obtain ⟨v', hv', ha'⟩ := hext.answers k v _ hv ha
  exact ⟨k, s, v', hext.order k s hk, hv', ha', hrest⟩

/-- A message goes on being that of its frame. -/
theorem Delivers.mono {f : ResponseFrame} {m : Received} (h : Delivers lz4 order served f m)
    (hext : Extends order served order' served') : Delivers lz4 order' served' f m := by
  obtain ⟨r, hr, hm⟩ := h
  exact ⟨r, hr.mono hext, hm⟩

/-- The stream id of a message is the one in its frame. -/
theorem Delivers.stream {f : ResponseFrame} {m : Received} (h : Delivers lz4 order served f m) :
    m.header.stream = f.stream := by
  obtain ⟨r, ⟨k, s, v, -, -, -, hstream, rfl, -⟩, rfl⟩ := h
  exact hstream

/-- A message is queued where its frame is. -/
theorem Delivers.index {f : ResponseFrame} {m : Received} (h : Delivers lz4 order served f m) :
    m.index = f.index := by
  rw [Received.index, h.stream]
  rfl

/-- `CheckError` on the message goes as the frame says. -/
theorem Delivers.raises {f : ResponseFrame} {m : Received} (h : Delivers lz4 order served f m) :
    (checkReceived m).isOk = !f.raises := by
  obtain ⟨r, ⟨k, s, v, -, -, -, -, rfl, -⟩, rfl⟩ := h
  change (do checkError r.response.toMessage; return r.received lz4 : Except _ _).isOk =
    !(!(checkError r.response.toMessage).isOk)
  cases checkError r.response.toMessage <;> rfl

end

/-- The stages of a call at the two levels. -/
inductive StageMatches (delivers : ResponseFrame → Received → Prop) : WireStage → Stage → Prop
  | popping : StageMatches delivers .popping .popping
  | popped {f r} (h : delivers f r) : StageMatches delivers (.popped r) (.popped f)
  | popFailed : StageMatches delivers .popFailed .popFailed
  | unwinding : StageMatches delivers .unwinding .unwinding

/-- The phases of a call at the two levels. -/
inductive PhaseMatches (delivers : ResponseFrame → Received → Prop) (sent : Bool) :
    WirePhase → Phase → Prop
  | idle : PhaseMatches delivers sent .idle .idle
  | inFlight {m id stage stage'} (h : StageMatches delivers stage stage') :
      PhaseMatches delivers sent (.inFlight m id stage) (.inFlight id sent stage')
  | returned {m f r} (h : delivers f r) (hraises : f.raises = false) :
      PhaseMatches delivers sent (.checked m (.ok r)) (.returned f)
  | refused {m e} : PhaseMatches delivers sent (.checked m (.error e)) .threw
  | threw {m} : PhaseMatches delivers sent (.threw m) .threw

/-- The receivers at the two levels. -/
inductive ReceiverMatches (delivers : ResponseFrame → Received → Prop) :
    WireReceiver → Receiver → Prop
  | reading : ReceiverMatches delivers .reading .reading
  | pushing {f r} (h : delivers f r) : ReceiverMatches delivers (.pushing r) (.pushing f)
  | exited {reason} : ReceiverMatches delivers (.exited reason) (.exited reason)

section
variable {delivers delivers' : ResponseFrame → Received → Prop}
  (hmono : ∀ f r, delivers f r → delivers' f r)
include hmono

private theorem StageMatches.mono {stage : WireStage} {stage' : Stage}
    (h : StageMatches delivers stage stage') : StageMatches delivers' stage stage' := by
  cases h with
  | popping => exact .popping
  | popped h => exact .popped (hmono _ _ h)
  | popFailed => exact .popFailed
  | unwinding => exact .unwinding

/-- A call goes on matching. -/
theorem PhaseMatches.mono {sent : Bool} {p : WirePhase} {p' : Phase}
    (h : PhaseMatches delivers sent p p') : PhaseMatches delivers' sent p p' := by
  cases h with
  | idle => exact .idle
  | inFlight h => exact .inFlight (h.mono hmono)
  | returned h hraises => exact .returned (hmono _ _ h) hraises
  | refused => exact .refused
  | threw => exact .threw

/-- The receiver goes on matching. -/
theorem ReceiverMatches.mono {r : WireReceiver} {r' : Receiver}
    (h : ReceiverMatches delivers r r') : ReceiverMatches delivers' r r' := by
  cases h with
  | reading => exact .reading
  | pushing h => exact .pushing (hmono _ _ h)
  | exited => exact .exited

end

/-- The buffer is the request of a call under way. -/
def Wire.Owes (lz4 : Option Lz4Api) (w : Wire) (i : Nat) (buffer : List UInt8) : Prop :=
  ∃ m id stage, w.calls i = .inFlight m id stage ∧ m.Carried lz4 ∧
    buffer = m.wireFrame lz4 (Int16.ofNat id)

/-- The part of a request that is out. -/
def Unfinished (lz4 : Option Lz4Api) (g : Segment) : Prop :=
  ∃ (m : RequestMessage) (stream : Int16), m.Carried lz4 ∧
    g.buffer = m.wireFrame lz4 stream ∧ g.written < g.buffer.length

variable (lz4 : Option Lz4Api) (order : List Sent)

/-- The sending side puts out the requests of `order`, and at most one more in part. -/
structure Sending (w : Wire) : Prop where
  idle : ∀ i, w.calls i = .idle → w.sender.calls i = .idle
  locking : ∀ i buffer, w.sender.calls i = .locking buffer → w.Owes lz4 i buffer
  holder : ∀ i g, w.sender.holder = some (i, g) → w.sender.calls i = .sending ∧
    w.Owes lz4 i g.buffer ∧ g.written ≤ g.buffer.length ∧ ∀ g' ∈ w.sender.log, g'.Complete
  out : (w.sender.segments.filter (fun g ↦ decide g.Complete)).map Segment.buffer =
    order.map (Sent.frame lz4)
  front : ∀ g ∈ w.sender.segments.dropLast, g.Complete
  unfinished : ∀ g ∈ w.sender.segments, ¬ g.Complete → Unfinished lz4 g
  sent : ∀ s ∈ order, w.sender.sent s.call = true
  nodup : (order.map Sent.call).Nodup
  carried : ∀ s ∈ order, s.message.Carried lz4
  own : ∀ s ∈ order, (w.calls s.call).message = some s.message

/-- The server has read the first requests of `order`, and the requests that it has not
answered, read or not, are those that `server` holds. -/
structure Serving (w : Wire) (server : List Request) : Prop where
  count : w.served.length ≤ order.length
  read : w.read = ((order.take w.served.length).flatMap (Sent.frame lz4)).length
  own : ∀ (k : Nat) (s : Sent) (v : Served), order[k]? = some s → w.served[k]? = some v →
    v.stream = (Int16.ofNat s.stream).toInt ∧ v.request = s.message.toRequest
  unanswered : ∀ (k : Nat) (s : Sent), order[k]? = some s →
    (∀ v, w.served[k]? = some v → v.answer = none) → s.request ∈ server
  asked : ∀ r ∈ server, ∃ (k : Nat) (s : Sent), order[k]? = some s ∧ s.request = r ∧
    ∀ v, w.served[k]? = some v → v.answer = none
  once : server.Nodup

/-- The bytes on their way to the client are the frames on the wire. -/
def Incoming (w : Wire) (wire : List ResponseFrame) : Prop :=
  ∃ replies, w.incoming = replies.flatMap (Reply.encode lz4) ∧
    List.Forall₂ (Answered lz4 order w.served) wire replies

/-- Calls, queues and receiver at the two levels. -/
structure Client (w : Wire) (c : Connection) : Prop where
  pool : c.streamPool = w.streamPool
  broken : c.broken = w.broken
  calls : ∀ i, PhaseMatches (Delivers lz4 order w.served) (w.sender.sent i) (w.calls i) (c.calls i)
  queues : ∀ id, Option.Rel (Delivers lz4 order w.served) (c.queues id) (w.queues id)
  receiver : ReceiverMatches (Delivers lz4 order w.served) w.receiver c.receiver

/-- A connection with its bytes implements one without. -/
structure Implements (w : Wire) (c : Connection) : Prop where
  client : Client lz4 order w c
  sending : Sending lz4 order w
  serving : Serving lz4 order w c.server
  incoming : Incoming lz4 order w c.wire

/-- Nothing is sent at first. -/
theorem implements_init : Implements lz4 [] Wire.init Connection.init where
  client := ⟨rfl, rfl, fun _ ↦ .idle, fun _ ↦ .none, .reading⟩
  sending := {
    idle _ _ := rfl
    locking _ _ h := by cases h
    holder _ _ h := by cases h
    out := rfl
    front _ h := by cases h
    unfinished _ h := by cases h
    sent _ h := by cases h
    nodup := List.nodup_nil
    carried _ h := by cases h
    own _ h := by cases h }
  serving := {
    count := Nat.le_refl 0
    read := rfl
    own _ _ _ h := by cases h
    unanswered _ _ h := by cases h
    asked _ h := by cases h
    once := List.nodup_nil }
  incoming := ⟨[], rfl, .nil⟩

end CassandraDriver.Detail
