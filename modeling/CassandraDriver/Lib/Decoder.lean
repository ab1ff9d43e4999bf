import Mathlib.Data.List.Basic
import Mathlib.Tactic.Common

/-!
# Decoders over byte lists

Library `Lib`. Checked decoders that consume a byte list from the front: the executable
form of a wire grammar. `Consumes` says that a decoder takes exactly the given bytes and
leaves everything behind them.
-/

namespace CassandraDriver.Lib

/-- Decoders that consume from the front or reject. -/
abbrev Decoder (α : Type) := StateT (List UInt8) Option α

namespace Decoder

variable {α β : Type}

/-- Reject the input. -/
def reject : Decoder α := fun _ ↦ none

/-- The next `n` bytes. -/
def take (n : Nat) : Decoder (List UInt8) := fun bs ↦
  if n ≤ bs.length then some (bs.take n, bs.drop n) else none

/-- `n` items one after another. -/
def many (n : Nat) (d : Decoder α) : Decoder (List α) :=
  match n with
  | 0 => pure []
  | n + 1 => do
    let a ← d
    let as ← many n d
    return a :: as

/-- Taking bytes that are there. -/
theorem take_run {n : Nat} {bs : List UInt8} (h : n ≤ bs.length) :
    (take n).run bs = some (bs.take n, bs.drop n) := if_pos h

/-- The decoder turns exactly `bs` into `a` and leaves what follows. -/
def Consumes (d : Decoder α) (bs : List UInt8) (a : α) : Prop :=
  ∀ rest, d.run (bs ++ rest) = some (a, rest)

namespace Consumes

/-- Returning consumes nothing. -/
theorem pure (a : α) : Consumes (Pure.pure a) [] a := fun _ ↦ rfl

/-- Decoders compose along concatenation. -/
theorem bind {d : Decoder α} {f : α → Decoder β} {bs cs : List UInt8} {a : α} {b : β}
    (hd : Consumes d bs a) (hf : Consumes (f a) cs b) : Consumes (d >>= f) (bs ++ cs) b := by
  intro rest
  have h : StateT.run (d >>= f) (bs ++ cs ++ rest) =
      (d.run (bs ++ cs ++ rest) >>= fun p ↦ (f p.1).run p.2) := rfl
  rw [h, List.append_assoc, hd (cs ++ rest)]
  exact hf rest

/-- A continuation that consumes nothing more. -/
theorem bind_nil {d : Decoder α} {f : α → Decoder β} {bs : List UInt8} {a : α} {b : β}
    (hd : Consumes d bs a) (hf : Consumes (f a) [] b) : Consumes (d >>= f) bs b := by
  have h := hd.bind hf
  rwa [List.append_nil] at h

/-- Post-processing the value does not change the bytes consumed. -/
theorem map {d : Decoder α} {bs : List UInt8} {a : α} (f : α → β) (hd : Consumes d bs a) :
    Consumes (d >>= fun x ↦ Pure.pure (f x)) bs (f a) := hd.bind_nil (.pure (f a))

/-- A value that is there consumes nothing. -/
theorem lift (a : α) : Consumes (StateT.lift (some a)) [] a := fun _ ↦ rfl

/-- Exactly as many bytes as asked for. -/
theorem take {n : Nat} (bs : List UInt8) (h : bs.length = n) :
    Consumes (Decoder.take n) bs bs := by
  intro rest
  subst h
  simp [Decoder.take, StateT.run]

/-- Items encoded one after another, each decoded to its value. -/
theorem many {ι : Type} {d : Decoder α} {enc : ι → List UInt8} {val : ι → α} (items : List ι)
    (h : ∀ x ∈ items, Consumes d (enc x) (val x)) :
    Consumes (Decoder.many items.length d) (items.flatMap enc) (items.map val) := by
  induction items with
  | nil => exact Consumes.pure []
  | cons x items ih =>
    rw [List.length_cons, Decoder.many, List.flatMap_cons, List.map_cons]
    exact (h x List.mem_cons_self).bind
      ((ih (fun y hy ↦ h y (List.mem_cons_of_mem _ hy))).map (fun as ↦ val x :: as))

end Consumes

/-- What a decoder makes of its input does not change with what follows. -/
def Steady (d : Decoder α) : Prop :=
  ∀ bs a rest, d.run bs = some (a, rest) → ∀ more, d.run (bs ++ more) = some (a, rest ++ more)

namespace Steady

/-- Returning looks at nothing. -/
theorem pure (a : α) : Steady (Pure.pure a) := by
  intro bs b rest h more
  cases h
  rfl

/-- Rejecting looks at nothing. -/
theorem reject : Steady (Decoder.reject : Decoder α) := by
  intro bs a rest h
  cases h

/-- Taking bytes looks at those bytes only. -/
theorem take (n : Nat) : Steady (Decoder.take n) := by
  intro bs a rest h more
  obtain ⟨hn, he⟩ := Option.ite_some_none_eq_some.mp h
  cases he
  rw [take_run (by rw [List.length_append]; omega), List.take_append_of_le_length hn,
    List.drop_append_of_le_length hn]

/-- Steady decoders compose. -/
theorem bind {d : Decoder α} {f : α → Decoder β} (hd : Steady d) (hf : ∀ a, Steady (f a)) :
    Steady (d >>= f) := by
  intro bs b rest h more
  rw [StateT.run_bind] at h ⊢
  obtain ⟨p, hp, hrest⟩ := Option.bind_eq_some_iff.mp h
  rw [hd bs p.1 p.2 hp more]
  exact hf p.1 p.2 b rest hrest more

/-- A value that may be missing looks at nothing. -/
theorem lift (o : Option α) : Steady (StateT.lift o) := by
  intro bs a rest h more
  obtain ⟨b, rfl, he⟩ := Option.bind_eq_some_iff.mp h
  cases he
  rfl

/-- A choice between steady decoders. -/
theorem ite {c : Prop} [Decidable c] {d e : Decoder α} (hd : Steady d) (he : Steady e) :
    Steady (if c then d else e) := by
  split
  · exact hd
  · exact he

end Steady

/-- The layouts of a steady decoder are free of prefixes: on a part of one it rejects. -/
theorem Consumes.run_part {d : Decoder α} {part more : List UInt8} {a : α}
    (h : Consumes d (part ++ more) a) (hsteady : Steady d) (hmore : more ≠ []) :
    d.run part = none := by
  cases hrun : d.run part with
  | none => rfl
  | some p =>
    have hlong := hsteady part p.1 p.2 hrun more
    have hwhole := h []
    rw [List.append_nil, hlong] at hwhole
    have hrest := (Prod.mk.inj (Option.some.inj hwhole)).2
    exact absurd (List.append_eq_nil_iff.mp hrest).2 hmore

end Decoder
end CassandraDriver.Lib
