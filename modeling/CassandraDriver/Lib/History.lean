import Mathlib.Data.List.Basic
import Mathlib.Tactic.Common

/-!
# Histories

Library `Lib`. A history is a list of observations, newest first. `OpenSince` is the "since"
of temporal properties: something happened and nothing has closed it after that.
-/

namespace CassandraDriver.Lib

variable {ω : Type}

/-- `opened` happened, `since` is all that happened after it, and `closed` is not among that. -/
def OpenSince (history : List ω) (opened closed : ω) (since : List ω) : Prop :=
  closed ∉ since ∧ ∃ earlier, history = since ++ opened :: earlier

namespace OpenSince

variable {history observed since : List ω} {opened closed : ω}

/-- What is open after more has happened was opened by that, or was open before it. -/
theorem of_append (h : OpenSince (observed ++ history) opened closed since) :
    (∃ since', since = observed ++ since' ∧ closed ∉ observed ∧
      OpenSince history opened closed since') ∨
    (opened ∈ observed ∧ ∀ o ∈ since, o ∈ observed) := by
  obtain ⟨hclosed, earlier, heq⟩ := h
  rcases List.append_eq_append_iff.mp heq with ⟨since', rfl, hhistory⟩ | ⟨rest, rfl, hhistory⟩
  · rw [List.mem_append, not_or] at hclosed
    exact .inl ⟨since', rfl, hclosed.1, hclosed.2, earlier, hhistory⟩
  · cases rest with
    | nil => exact .inl ⟨[], by simp, by simpa using hclosed, by simp, earlier, hhistory.symm⟩
    | cons o rest =>
      cases hhistory
      exact .inr ⟨by simp, fun o' ho ↦ List.mem_append_left _ ho⟩

end OpenSince
end CassandraDriver.Lib
