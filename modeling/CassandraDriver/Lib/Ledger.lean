import Mathlib.Algebra.GroupWithZero.Nat
import Mathlib.Data.List.Perm.Basic
import Mathlib.Data.List.Nodup
import Mathlib.Data.List.Range
import Mathlib.Data.List.ReduceOption
import Mathlib.Tactic.Common

/-!
# Ledgers

Library `Lib`. Tokens are numbered as they are issued; each stands in a slot until it comes
back. `Balanced` says that every token issued is in exactly one slot or has come back exactly
once, and that no other token is anywhere.
-/

namespace CassandraDriver.Lib

variable {α : Type}

/-- How often a value is taken on a list when one place of the list changes. -/
theorem count_map_set_add {β : Type} [BEq β] (f : α → β) {l : List α} {i : Nat} {a : α}
    (h : l[i]? = some a) (b : α) (x : β) :
    ((l.set i b).map f).count x + (if f a == x then 1 else 0) =
      (l.map f).count x + (if f b == x then 1 else 0) := by
  induction l generalizing i with
  | nil => cases h
  | cons y l ih =>
    cases i with
    | zero =>
      cases h
      simp only [List.set_cons_zero, List.map_cons, List.count_cons]
      omega
    | succ i =>
      have hrest := ih (i := i) (by simpa using h)
      simp only [List.set_cons_succ, List.map_cons, List.count_cons]
      omega

/-- A sum over a list when one place of the list changes. -/
theorem sum_map_set_add (f : α → Nat) {l : List α} {i : Nat} {a : α} (h : l[i]? = some a)
    (b : α) : ((l.set i b).map f).sum + f a = (l.map f).sum + f b := by
  induction l generalizing i with
  | nil => cases h
  | cons y l ih =>
    cases i with
    | zero =>
      cases h
      simp only [List.set_cons_zero, List.map_cons, List.sum_cons]
      omega
    | succ i =>
      have hrest := ih (i := i) (by simpa using h)
      simp only [List.set_cons_succ, List.map_cons, List.sum_cons]
      omega

/-- How many places have a property when one of them changes. -/
theorem countP_set_add (p : α → Bool) {l : List α} {i : Nat} {a : α} (h : l[i]? = some a)
    (b : α) : (l.set i b).countP p + (if p a then 1 else 0) =
      l.countP p + (if p b then 1 else 0) := by
  have hcount := count_map_set_add p h b true
  have hmap : ∀ l : List α, (l.map p).count true = l.countP p := fun l ↦ by
    rw [List.count, List.countP_map]
    exact List.countP_congr (fun x _ ↦ by simp)
  rw [hmap, hmap] at hcount
  simpa using hcount

/-- Every token issued is in one slot or has come back once. -/
def Balanced (slots : List (Option Nat)) (returned : List Nat) (issued : Nat) : Prop :=
  ∀ x, slots.count (some x) + returned.count x = if x < issued then 1 else 0

namespace Balanced

variable {slots slots' : List (Option Nat)} {returned : List Nat} {issued : Nat}

/-- An empty ledger is balanced. -/
theorem nil : Balanced [] [] 0 := by
  intro x
  simp

/-- Tokens only change their slots. -/
theorem move (h : Balanced slots returned issued)
    (hslots : ∀ x, slots'.count (some x) = slots.count (some x)) :
    Balanced slots' returned issued := by
  intro x
  rw [hslots]
  exact h x

/-- The next token is issued. -/
theorem issue (h : Balanced slots returned issued)
    (hslots : ∀ x, slots'.count (some x) = slots.count (some x) + if x = issued then 1 else 0) :
    Balanced slots' returned (issued + 1) := by
  intro x
  have hx := h x
  rw [hslots]
  split at hx <;> split <;> split <;> omega

/-- A token comes back. -/
theorem giveBack (h : Balanced slots returned issued) {token : Nat}
    (hslots : ∀ x, slots'.count (some x) + (if token = x then 1 else 0) = slots.count (some x)) :
    Balanced slots' (token :: returned) issued := by
  intro x
  have hx := h x
  have hs := hslots x
  rw [List.count_cons]
  simp only [beq_iff_eq]
  omega

private theorem count_reduceOption (slots : List (Option Nat)) (x : Nat) :
    slots.reduceOption.count x = slots.count (some x) := by
  induction slots with
  | nil => rfl
  | cons slot slots ih =>
    cases slot with
    | none => simp [List.reduceOption_cons_of_none, ih]
    | some y => simp [List.reduceOption_cons_of_some, List.count_cons, ih]

/-- The tokens in slots and those that came back are all that were issued. -/
theorem total (h : Balanced slots returned issued) :
    slots.countP Option.isSome + returned.length = issued := by
  have hperm : (slots.reduceOption ++ returned).Perm (List.range issued) := by
    rw [List.perm_iff_count]
    intro x
    rw [List.count_append, count_reduceOption, h x, List.count_range]
  have hlength := hperm.length_eq
  rw [List.length_append, List.length_range, List.reduceOption_length_eq] at hlength
  rw [List.countP_eq_length_filter]
  exact hlength

end Balanced
end CassandraDriver.Lib
