import Mathlib.Data.List.Basic
import Mathlib.Data.List.Induction
import Mathlib.Tactic.Common

/-!
# The first minimum of a list

Library `Lib`. A loop that keeps the element with the smallest key so far, the earlier one
among equals. `Ahead` is the order by key and then by position: the loop ends with the element
that nothing is ahead of.
-/

namespace CassandraDriver.Lib

variable {α : Type}

/-- The body of the loop. -/
def pick (key : α → Nat) (best : Option α) (a : α) : Option α :=
  match best with
  | none => some a
  | some b => if key a < key b then some a else some b

/-- The loop. -/
def firstMin (key : α → Nat) (xs : List α) : Option α := xs.foldl (pick key) none

private theorem firstMin_concat (key : α → Nat) (xs : List α) (a : α) :
    firstMin key (xs ++ [a]) = pick key (firstMin key xs) a := by
  simp [firstMin]

/-- The loop finds something unless the list is empty. -/
theorem firstMin_eq_none_iff (key : α → Nat) (xs : List α) : firstMin key xs = none ↔ xs = [] := by
  induction xs using List.reverseRecOn with
  | nil => exact ⟨fun _ ↦ rfl, fun _ ↦ rfl⟩
  | append_singleton xs x ih =>
    rw [firstMin_concat]
    cases firstMin key xs with
    | none => simp [pick]
    | some b =>
      simp only [pick]
      split
      · simp
      · simp

/-- What it finds has a smaller key than everything before it, and no larger one than what
follows. -/
theorem firstMin_split {key : α → Nat} {xs : List α} {b : α} (h : firstMin key xs = some b) :
    ∃ before after, xs = before ++ b :: after ∧ (∀ a ∈ before, key b < key a) ∧
      ∀ a ∈ after, key b ≤ key a := by
  induction xs using List.reverseRecOn generalizing b with
  | nil => cases h
  | append_singleton xs x ih =>
    rw [firstMin_concat] at h
    cases hxs : firstMin key xs with
    | none =>
      rw [hxs] at h
      cases h
      cases (firstMin_eq_none_iff key xs).mp hxs
      exact ⟨[], [], rfl, by simp, by simp⟩
    | some m =>
      obtain ⟨before, after, rfl, hbefore, hafter⟩ := ih hxs
      rw [hxs, pick] at h
      split at h
      · next hless =>
        cases h
        refine ⟨before ++ m :: after, [], rfl, fun a ha ↦ ?_, by simp⟩
        rcases List.mem_append.mp ha with ha | ha
        · exact Nat.lt_trans hless (hbefore a ha)
        · rcases List.mem_cons.mp ha with rfl | ha
          · exact hless
          · exact Nat.lt_of_lt_of_le hless (hafter a ha)
      · next hless =>
        cases h
        refine ⟨before, after ++ [x], by simp, hbefore, fun a ha ↦ ?_⟩
        rcases List.mem_append.mp ha with ha | ha
        · exact hafter a ha
        · cases List.mem_singleton.mp ha
          omega

variable [DecidableEq α]

/-- `a` has a smaller key than `b`, or the same and an earlier position. -/
def Ahead (key : α → Nat) (xs : List α) (a b : α) : Prop :=
  key a < key b ∨ key a = key b ∧ xs.idxOf a < xs.idxOf b

instance (key : α → Nat) (xs : List α) (a b : α) : Decidable (Ahead key xs a b) :=
  inferInstanceAs (Decidable (_ ∨ _))

variable {key : α → Nat} {xs : List α} {a b : α}

/-- Of two elements one is ahead of the other. -/
theorem ahead_of_ne (ha : a ∈ xs) (hne : a ≠ b) (h : ¬ Ahead key xs b a) : Ahead key xs a b := by
  unfold Ahead at h ⊢
  have hidx : xs.idxOf a ≠ xs.idxOf b := fun heq ↦ hne ((List.idxOf_inj ha).mp heq)
  omega

/-- The loop finds something in a list that is not empty, and nothing is ahead of it. -/
theorem firstMin_spec (key : α → Nat) (xs : List α) :
    (firstMin key xs = none ∧ xs = []) ∨
    ∃ b ∈ xs, firstMin key xs = some b ∧ ∀ a ∈ xs, ¬ Ahead key xs a b := by
  cases hxs : firstMin key xs with
  | none => exact .inl ⟨rfl, (firstMin_eq_none_iff key xs).mp hxs⟩
  | some b =>
    obtain ⟨before, after, rfl, hbefore, hafter⟩ := firstMin_split hxs
    refine .inr ⟨b, by simp, rfl, fun a ha hahead ↦ ?_⟩
    have hle : key b ≤ key a := by
      rcases List.mem_append.mp ha with ha | ha
      · exact Nat.le_of_lt (hbefore a ha)
      · rcases List.mem_cons.mp ha with rfl | ha
        · exact Nat.le_refl _
        · exact hafter a ha
    -- What has the same key stands behind, since everything before has a larger one.
    have hlater : a ∉ before → before.length ≤ (before ++ b :: after).idxOf a := by
      intro hmem
      rw [List.idxOf_append_of_notMem hmem]
      omega
    have hat : (before ++ b :: after).idxOf b ≤ before.length := by
      by_cases hmem : b ∈ before
      · rw [List.idxOf_append_of_mem hmem]
        exact Nat.le_of_lt (List.idxOf_lt_length_of_mem hmem)
      · rw [List.idxOf_append_of_notMem hmem, List.idxOf_cons_self]
        omega
    unfold Ahead at hahead
    by_cases hmem : a ∈ before
    · have hlt := hbefore a hmem
      omega
    · have hidx := hlater hmem
      omega

end CassandraDriver.Lib
