import Mathlib.Logic.Function.Basic
import CassandraDriver.Lib.Lts
import CassandraDriver.Protocol.RequestMessage

/-!
# Sending on one connection

Library `Detail`. Models `ConnectionImpl::SendMessage`, `src/detail/connection_impl.cpp:292–319`,
by any number of callers: the request is serialized, the send mutex taken, and `SendAll`
puts bytes on the socket until the buffer is out or it gives up, by an exception or a
short count. Neither marks the connection, and the mutex is released either way. The
bytes on the socket are kept by the `SendAll` that put them there.
-/

namespace CassandraDriver.Detail
open CassandraDriver.Lib CassandraDriver.Protocol

/-- What one `SendAll` has put on the socket: the first bytes of its buffer. -/
structure Segment where
  buffer : List UInt8
  written : Nat
  deriving DecidableEq, Repr

namespace Segment

/-- The bytes on the socket. -/
def bytes (g : Segment) : List UInt8 := g.buffer.take g.written

/-- The whole buffer is out. -/
def Complete (g : Segment) : Prop := g.written = g.buffer.length

instance (g : Segment) : Decidable g.Complete :=
  inferInstanceAs (Decidable (g.written = g.buffer.length))

end Segment

/-- A call of `SendMessage`: before it, waiting for the mutex, in `SendAll`, or over. -/
inductive SendPhase
  | idle
  | locking (buffer : List UInt8)
  | sending
  | over
  deriving DecidableEq, Repr

/-- The sending side of a connection. `holder` is the owner of `_send_mutex` with what its
`SendAll` has written, `log` what finished `SendAll` calls have left on the socket. -/
structure Sender where
  calls : Nat → SendPhase
  holder : Option (Nat × Segment)
  log : List Segment

/-- What can happen next. -/
inductive SendEvent
  /-- `SendMessage` begins with `Serialize`. -/
  | start (call : Nat) (message : RequestMessage) (stream : Int16)
  | lock (call : Nat)
  /-- `SendAll` puts `n` more bytes on the socket. -/
  | write (n : Nat)
  /-- `SendAll` returns with the whole buffer written. -/
  | finish
  /-- `SendAll` throws or returns a short count. -/
  | stop

namespace Sender

/-- Before anything is sent. -/
def init : Sender := ⟨fun _ ↦ .idle, none, []⟩

/-- The segments on the socket, in order: those of finished calls, and that of the call
in `SendAll` once it has put a byte there. -/
def segments (s : Sender) : List Segment :=
  match s.holder with
  | some (_, g) => if g.written = 0 then s.log else s.log ++ [g]
  | none => s.log

/-- The bytes on the socket. -/
def bytes (s : Sender) : List UInt8 := s.segments.flatMap Segment.bytes

variable (compressor : Option Compressor)

/-- One step. -/
def step (s : Sender) : SendEvent → Option Sender
  | .start i m stream =>
    match s.calls i with
    | .idle =>
      match (m.serialize stream compressor).run [] with
      | .ok ((), buffer) => some { s with calls := Function.update s.calls i (.locking buffer) }
      | .error _ => some { s with calls := Function.update s.calls i .over }
    | _ => none
  | .lock i =>
    match s.calls i, s.holder with
    | .locking buffer, none => some { s with
        calls := Function.update s.calls i .sending, holder := some (i, ⟨buffer, 0⟩) }
    | _, _ => none
  | .write n =>
    match s.holder with
    | some (i, g) =>
      if 0 < n ∧ g.written + n ≤ g.buffer.length then
        some { s with holder := some (i, ⟨g.buffer, g.written + n⟩) }
      else none
    | none => none
  | .finish =>
    match s.holder with
    | some (i, g) =>
      if g.written = g.buffer.length then
        some ⟨Function.update s.calls i .over, none, s.segments⟩
      else none
    | none => none
  | .stop =>
    match s.holder with
    | some (i, g) =>
      if g.written < g.buffer.length then
        some ⟨Function.update s.calls i .over, none, s.segments⟩
      else none
    | none => none

/-- A serialized request. -/
def RequestFrame (buffer : List UInt8) : Prop :=
  ∃ (m : RequestMessage) (stream : Int16), (m.serialize stream compressor).run [] = .ok ((), buffer)

/-- The bytes on the socket come from request frames, one behind the other, and every frame
but the last is whole: nothing stands behind an incomplete one. -/
def Framed (s : Sender) : Prop :=
  (∀ g ∈ s.segments.dropLast, g.Complete) ∧ ∀ g ∈ s.segments, RequestFrame compressor g.buffer

/-- The mutex is taken only while no `SendAll` has stopped part-way. -/
def LocksIntact (s : Sender) : SendEvent → Prop
  | .lock _ => ∀ g ∈ s.log, g.Complete
  | _ => True

instance (s : Sender) : (e : SendEvent) → Decidable (s.LocksIntact e)
  | .lock _ => inferInstanceAs (Decidable (∀ g ∈ s.log, g.Complete))
  | .start .. | .write _ | .finish | .stop => .isTrue trivial

/-- The invariant behind `Framed`: only the last finished segment may be incomplete, and
none is while a call is in `SendAll`. -/
structure Intact (s : Sender) : Prop where
  front : ∀ g ∈ s.log.dropLast, g.Complete
  held : ∀ i g, s.holder = some (i, g) → ∀ g' ∈ s.log, g'.Complete
  logged : ∀ g ∈ s.log, RequestFrame compressor g.buffer
  holding : ∀ i g, s.holder = some (i, g) → RequestFrame compressor g.buffer
  locking : ∀ i buffer, s.calls i = .locking buffer → RequestFrame compressor buffer

variable {compressor}

private theorem intact_init : Intact compressor init where
  front := by simp [init]
  held := by simp [init]
  logged := by simp [init]
  holding := by simp [init]
  locking := by simp [init]

private theorem Intact.framed {s : Sender} (h : Intact compressor s) : Framed compressor s := by
  unfold Framed segments
  cases hh : s.holder with
  | none => exact ⟨h.front, h.logged⟩
  | some p =>
    obtain ⟨i, g⟩ := p
    simp only
    split
    · exact ⟨h.front, h.logged⟩
    · rw [List.dropLast_concat]
      refine ⟨h.held i g hh, fun g' hg ↦ ?_⟩
      rcases List.mem_append.mp hg with hg | hg
      · exact h.logged g' hg
      · rw [List.mem_singleton] at hg
        subst hg
        exact h.holding i g' hh

private theorem locking_update {calls : Nat → SendPhase} {i : Nat} {p : SendPhase}
    (h : ∀ j buffer, calls j = .locking buffer → RequestFrame compressor buffer)
    (hp : ∀ buffer, p = .locking buffer → RequestFrame compressor buffer) (j : Nat)
    (buffer : List UInt8) (hj : Function.update calls i p j = .locking buffer) :
    RequestFrame compressor buffer := by
  by_cases hji : j = i
  · subst hji
    rw [Function.update_self] at hj
    exact hp buffer hj
  · rw [Function.update_of_ne hji] at hj
    exact h j buffer hj

/-- When `SendAll` ends, its segment joins the finished ones. -/
theorem Intact.settle {s : Sender} (h : Intact compressor s) (i : Nat) :
    Intact compressor ⟨Function.update s.calls i .over, none, s.segments⟩ := by
  obtain ⟨hc, hr⟩ := h.framed
  exact ⟨hc, by simp, hr, by simp, locking_update h.locking (by simp)⟩

/-- A step that takes the mutex only intact keeps the invariant. -/
theorem Intact.step {s t : Sender} {e : SendEvent} (h : Intact compressor s)
    (hok : s.LocksIntact e) (hs : s.step compressor e = some t) : Intact compressor t := by
  cases e with
  | start i m stream =>
    simp only [Sender.step] at hs
    split at hs
    · split at hs
      · next buffer hser =>
        cases hs
        refine ⟨h.front, h.held, h.logged, h.holding, locking_update h.locking ?_⟩
        intro b hb
        cases hb
        exact ⟨m, stream, hser⟩
      · cases hs
        exact ⟨h.front, h.held, h.logged, h.holding, locking_update h.locking (by simp)⟩
    · cases hs
  | lock i =>
    simp only [Sender.step] at hs
    split at hs
    · next buffer hi hh =>
      cases hs
      refine ⟨h.front, fun _ _ _ ↦ hok, h.logged, ?_, locking_update h.locking (by simp)⟩
      intro j g hg
      cases hg
      exact h.locking i buffer hi
    · cases hs
  | write n =>
    simp only [Sender.step] at hs
    split at hs
    · next i g hh =>
      split at hs
      · cases hs
        refine ⟨h.front, fun _ _ _ ↦ h.held i g hh, h.logged, ?_, h.locking⟩
        intro j g' hg
        cases hg
        exact h.holding i g hh
      · cases hs
    · cases hs
  | finish =>
    simp only [Sender.step] at hs
    split at hs
    · split at hs
      · cases hs
        exact h.settle _
      · cases hs
    · cases hs
  | stop =>
    simp only [Sender.step] at hs
    split at hs
    · split at hs
      · cases hs
        exact h.settle _
      · cases hs
    · cases hs

/-- The outgoing bytes stay framed in every run in which the mutex is taken only while no
`SendAll` has stopped part-way. -/
theorem outgoing_framed {s : Sender} (h : Reaches (step compressor) LocksIntact init s) :
    Framed compressor s :=
  (h.invariant intact_init (fun _ _ _ hs hok hstep ↦ hs.step hok hstep)).framed

/-- Two OPTIONS requests; the first `SendAll` gives up after three bytes. -/
def stoppedRun : List SendEvent :=
  [.start 0 .options 0, .start 1 .options 1, .lock 0, .write 3, .stop]

/-- Three bytes of a frame are still the front of one. -/
theorem outgoing_framed_stoppedRun :
    ∃ s, Reaches (step none) LocksIntact init s ∧ s.bytes = [0x04, 0x00, 0x00] ∧
      Framed none s := by
  obtain ⟨s, hs, hb⟩ := Reaches.exists_of_runIf (step none) LocksIntact init stoppedRun
    (fun s ↦ s.bytes = [0x04, 0x00, 0x00]) (by decide +kernel)
  exact ⟨s, hs, hb, outgoing_framed hs⟩

/-- With the next frame behind them they are not. -/
theorem stoppedRun_continued :
    ¬ ∀ (compressor : Option Compressor) (s : Sender),
      Reaches (step compressor) (fun _ _ ↦ True) init s → Framed compressor s := by
  intro h
  obtain ⟨s, hs, hb⟩ := Reaches.exists_of_runIf (step none) (fun _ _ ↦ True) init
    (stoppedRun ++ [.lock 1, .write 9]) (fun s ↦ ¬ ∀ g ∈ s.segments.dropLast, g.Complete)
    (by decide +kernel)
  exact hb (h none s hs).1

end Sender
end CassandraDriver.Detail
