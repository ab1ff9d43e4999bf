import CassandraDriver.Lib.Lts

/-!
# Simulations

Library `Lib`. A forward simulation matches every admitted step of one system by a run of
another, of any length, and keeps a relation between their states. It carries what holds in
all runs of the second over to the first.
-/

namespace CassandraDriver.Lib

variable {σ τ ε δ : Type} {step : σ → ε → Option σ} {ok : σ → ε → Prop} {init s t : σ}

/-- Partial values that are related stay related by a weaker relation. -/
theorem optionRel_mono {α β : Type} {r r' : α → β → Prop} (hmono : ∀ a b, r a b → r' a b)
    {a : Option α} {b : Option β} (h : Option.Rel r a b) : Option.Rel r' a b := by
  cases h with
  | none => exact .none
  | some h => exact .some (hmono _ _ h)

namespace Reaches

/-- A run goes on from where another ended. -/
theorem append (h : Reaches step ok init s) (h' : Reaches step ok s t) :
    Reaches step ok init t := by
  induction h' with
  | init => exact h
  | step _ hok hstep ih => exact .step ih hok hstep

/-- A run of one step. -/
theorem single {e : ε} (hok : ok s e) (hstep : step s e = some t) : Reaches step ok s t :=
  .step .init hok hstep

/-- What a simulation relates to the initial states it relates to the states reached. -/
theorem simulate {step' : τ → δ → Option τ} {ok' : τ → δ → Prop} {init' : τ} {R : σ → τ → Prop}
    (hinit : R init init')
    (hstep : ∀ s u e s', R s u → ok s e → step s e = some s' →
      ∃ u', Reaches step' ok' u u' ∧ R s' u')
    (h : Reaches step ok init s) : ∃ u, Reaches step' ok' init' u ∧ R s u := by
  induction h with
  | init => exact ⟨init', .init, hinit⟩
  | step _ hok hs ih =>
    obtain ⟨u, hu, hR⟩ := ih
    obtain ⟨u', hu', hR'⟩ := hstep _ u _ _ hR hok hs
    exact ⟨u', hu.append hu', hR'⟩

end Reaches
end CassandraDriver.Lib
