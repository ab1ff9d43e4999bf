import Mathlib.Data.List.Basic
import Mathlib.Tactic.Common

/-!
# Append-only writers

Library `Lib`. Writers over a growing byte buffer that may fail. `Appends` says that a
writer succeeds on every buffer and adds exactly the given bytes at its end; `Uniform`, that
it does so for some bytes or fails wherever it runs. `resize` and `overwrite` are the two
ways in which a buffer is changed otherwise.
-/

namespace CassandraDriver.Lib

/-- The bytes of one item are among the bytes of all. -/
theorem mem_length_le_flatMap {ι : Type} (enc : ι → List UInt8) (xs : List ι) (x : ι)
    (h : x ∈ xs) : (enc x).length ≤ (xs.flatMap enc).length := by
  obtain ⟨as, bs, rfl⟩ := List.append_of_mem h
  simp only [List.flatMap_append, List.flatMap_cons, List.length_append]
  omega

/-- Writers that thread a byte buffer and may fail with an exception in `ε`. -/
abbrev Writer (ε α : Type) := StateT (List UInt8) (Except ε) α

/-- The writer succeeds on every buffer and adds exactly `bs` at its end. -/
def Appends {ε : Type} (m : Writer ε Unit) (bs : List UInt8) : Prop :=
  ∀ buf, m.run buf = .ok ((), buf ++ bs)

namespace Appends

variable {ε : Type}

/-- Doing nothing appends nothing. -/
theorem pure : Appends (Pure.pure () : Writer ε Unit) [] := by
  intro buf
  rw [List.append_nil]
  rfl

/-- Appending known bytes. -/
theorem modify (bs : List UInt8) : Appends (ε := ε) (modify (· ++ bs)) bs := by
  intro buf
  rfl

/-- Writers compose along concatenation. -/
theorem seq {m n : Writer ε Unit} {bs cs : List UInt8} (hm : Appends m bs)
    (hn : Appends n cs) : Appends (do m; n) (bs ++ cs) := by
  intro buf
  have h : StateT.run (do m; n) buf = (m.run buf >>= fun p ↦ n.run p.2) := rfl
  rw [h, hm buf, ← List.append_assoc]
  exact hn (buf ++ bs)

/-- Writing the elements of a list one after another. -/
theorem forM {ι : Type} {w : ι → Writer ε Unit} {enc : ι → List UInt8} (items : List ι)
    (h : ∀ x ∈ items, Appends (w x) (enc x)) :
    Appends (items.forM w) (items.flatMap enc) := by
  induction items with
  | nil => exact Appends.pure
  | cons x items ih =>
    rw [List.flatMap_cons]
    exact (h x List.mem_cons_self).seq (ih (fun y hy ↦ h y (List.mem_cons_of_mem _ hy)))

end Appends

/-- The writer adds the same bytes to every buffer, or fails on every buffer. -/
def Uniform {ε : Type} (m : Writer ε Unit) : Prop :=
  (∃ bs, Appends m bs) ∨ ∀ buf, ∃ e, m.run buf = .error e

namespace Uniform

variable {ε : Type}

/-- A writer of constant bytes is uniform. -/
theorem of_appends {m : Writer ε Unit} {bs : List UInt8} (h : Appends m bs) : Uniform m :=
  .inl ⟨bs, h⟩

/-- So is one that writes nothing. -/
theorem pure : Uniform (Pure.pure () : Writer ε Unit) := of_appends .pure

/-- Writers that are uniform compose. -/
theorem seq {m n : Writer ε Unit} (hm : Uniform m) (hn : Uniform n) : Uniform (do m; n) := by
  have hrun : ∀ buf, StateT.run (do m; n) buf = (m.run buf >>= fun p ↦ n.run p.2) := fun _ ↦ rfl
  rcases hm with ⟨bs, hm⟩ | hm
  · rcases hn with ⟨cs, hn⟩ | hn
    · exact of_appends (hm.seq hn)
    · refine .inr (fun buf ↦ ?_)
      obtain ⟨e, he⟩ := hn (buf ++ bs)
      exact ⟨e, by rw [hrun, hm buf]; exact he⟩
  · refine .inr (fun buf ↦ ?_)
    obtain ⟨e, he⟩ := hm buf
    exact ⟨e, by rw [hrun, he]; rfl⟩

/-- So is a loop over uniform writers. -/
theorem forM {ι : Type} {w : ι → Writer ε Unit} (items : List ι) (h : ∀ x, Uniform (w x)) :
    Uniform (items.forM w) := by
  induction items with
  | nil => exact pure
  | cons x items ih => exact (h x).seq ih

/-- What a uniform writer leaves in an empty buffer it adds to every buffer. -/
theorem appends {m : Writer ε Unit} {bs : List UInt8} (h : Uniform m)
    (hr : m.run [] = .ok ((), bs)) : Appends m bs := by
  rcases h with ⟨cs, h⟩ | h
  · have hcs := (h []).symm.trans hr
    cases hcs
    exact h
  · obtain ⟨e, he⟩ := h []
    rw [hr] at he
    cases he

end Uniform

/-- The writer fails on every buffer. -/
def Fails {ε : Type} (m : Writer ε Unit) : Prop := ∀ buf, ∃ e, m.run buf = .error e

namespace Fails

variable {ε : Type}

/-- A writer that adds something does not fail. -/
theorem not_of_appends {m : Writer ε Unit} {bs : List UInt8} (h : Appends m bs) : ¬ Fails m := by
  intro hf
  obtain ⟨e, he⟩ := hf []
  rw [h []] at he
  cases he

/-- A sequence of uniform writers fails when one of them does. -/
theorem seq_iff {m n : Writer ε Unit} (hm : Uniform m) (hn : Uniform n) :
    Fails (do m; n) ↔ Fails m ∨ Fails n := by
  have hrun : ∀ buf, StateT.run (do m; n) buf = (m.run buf >>= fun p ↦ n.run p.2) := fun _ ↦ rfl
  constructor
  · intro hf
    rcases hm with ⟨bs, hm⟩ | hm
    · rcases hn with ⟨cs, hn⟩ | hn
      · exact absurd hf (not_of_appends (hm.seq hn))
      · exact .inr hn
    · exact .inl hm
  · rintro (hf | hf) buf
    · obtain ⟨e, he⟩ := hf buf
      exact ⟨e, by rw [hrun, he]; rfl⟩
    · rcases hm with ⟨bs, hm⟩ | hm
      · obtain ⟨e, he⟩ := hf (buf ++ bs)
        exact ⟨e, by rw [hrun, hm buf]; exact he⟩
      · obtain ⟨e, he⟩ := hm buf
        exact ⟨e, by rw [hrun, he]; rfl⟩

/-- Behind a writer that adds something, the rest decides. -/
theorem seq_appends_iff {m n : Writer ε Unit} {bs : List UInt8} (hm : Appends m bs)
    (hn : Uniform n) : Fails (do m; n) ↔ Fails n := by
  rw [seq_iff (.of_appends hm) hn]
  exact or_iff_right (not_of_appends hm)

/-- Writing a list of items fails when writing one of them does. -/
theorem forM_iff {ι : Type} {w : ι → Writer ε Unit} (items : List ι) (h : ∀ x, Uniform (w x)) :
    Fails (items.forM w) ↔ ∃ x ∈ items, Fails (w x) := by
  induction items with
  | nil =>
    refine ⟨fun hf ↦ absurd hf (not_of_appends .pure), ?_⟩
    rintro ⟨x, hx, -⟩
    cases hx
  | cons x items ih =>
    refine (seq_iff (h x) (.forM items h)).trans ?_
    rw [ih]
    simp only [List.mem_cons, exists_eq_or_imp]

end Fails

/-- `resize`: the end is cut off, or zero bytes are added. -/
def resize (n : Nat) (buffer : List UInt8) : List UInt8 :=
  buffer.take n ++ List.replicate (n - buffer.length) 0

/-- A copy into the buffer from a position on. -/
def overwrite (position : Nat) (source buffer : List UInt8) : List UInt8 :=
  buffer.take position ++ source ++ buffer.drop (position + source.length)

/-- Growing adds zero bytes. -/
theorem resize_add (buffer : List UInt8) (n : Nat) :
    resize (buffer.length + n) buffer = buffer ++ List.replicate n 0 := by
  rw [resize, List.take_of_length_le (Nat.le_add_right _ _), Nat.add_sub_cancel_left]

/-- Shrinking cuts off the end. -/
theorem resize_length (front rest : List UInt8) : resize front.length (front ++ rest) = front := by
  rw [resize, List.take_left, List.length_append, Nat.sub_eq_zero_of_le (Nat.le_add_right _ _),
    List.replicate_zero, List.append_nil]

/-- A copy replaces as many bytes as it has. -/
theorem overwrite_append (pre old source post : List UInt8) (h : old.length = source.length) :
    overwrite pre.length source (pre ++ old ++ post) = pre ++ source ++ post := by
  rw [overwrite, ← h, ← List.length_append, List.drop_left, List.append_assoc pre old post,
    List.take_left]

end CassandraDriver.Lib
