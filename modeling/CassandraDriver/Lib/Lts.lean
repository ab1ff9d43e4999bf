import Mathlib.Logic.Basic

/-!
# Transition systems and their runs

Library `Lib`. A system is a partial step function on states and events; `none` means that
the event cannot happen there. `Reaches` collects the states of all runs whose steps meet
a condition, and an invariant of such runs is proved by one induction. `Inevitable` says where
all runs end. `Along` states a condition on the steps of one run. `recording` adds a history to
the states. Concrete runs are evaluated by `runIf`.
-/

namespace CassandraDriver.Lib

variable {σ ε : Type}

/-- States reached from `init` by steps that each meet `ok` in the state before. -/
inductive Reaches (step : σ → ε → Option σ) (ok : σ → ε → Prop) (init : σ) : σ → Prop
  | init : Reaches step ok init init
  | step {s s' : σ} {e : ε} : Reaches step ok init s → ok s e → step s e = some s' →
      Reaches step ok init s'

/-- The state after a list of events, when every step is possible and meets `ok`. -/
def runIf (step : σ → ε → Option σ) (ok : σ → ε → Prop) [∀ s e, Decidable (ok s e)] :
    σ → List ε → Option σ
  | s, [] => some s
  | s, e :: es => if ok s e then (step s e).bind (fun s' ↦ runIf step ok s' es) else none

/-- A condition on the steps of a run, as far as the run is possible. -/
def Along (step : σ → ε → Option σ) (P : σ → ε → Prop) : σ → List ε → Prop
  | _, [] => True
  | s, e :: es => match step s e with
    | none => True
    | some s' => P s e ∧ Along step P s' es

/-- The system with a history variable, newest entry first: `observe` says what a step in a
state adds to it. -/
def recording {ω : Type} (step : σ → ε → Option σ) (observe : σ → ε → List ω)
    (s : σ × List ω) (e : ε) : Option (σ × List ω) :=
  (step s.1 e).map (fun s' ↦ (s', observe s.1 e ++ s.2))

/-- A recorded step is a step, and its observation is recorded. -/
theorem recording_eq_some {ω : Type} {step : σ → ε → Option σ} {observe : σ → ε → List ω}
    {s s' : σ × List ω} {e : ε} (h : recording step observe s e = some s') :
    step s.1 e = some s'.1 ∧ s'.2 = observe s.1 e ++ s.2 := by
  obtain ⟨t, ht, rfl⟩ := Option.map_eq_some_iff.mp h
  exact ⟨ht, rfl⟩

namespace Reaches

variable {step : σ → ε → Option σ} {ok : σ → ε → Prop} {init s s' : σ}

/-- What holds at first and is kept by every admitted step holds in every state reached. -/
theorem invariant {P : σ → Prop} (hi : P init)
    (hs : ∀ s e s', P s → ok s e → step s e = some s' → P s') (h : Reaches step ok init s) :
    P s := by
  induction h with
  | init => exact hi
  | step _ hok hstep ih => exact hs _ _ _ ih hok hstep

/-- Runs under a stronger condition are runs. -/
theorem mono {ok' : σ → ε → Prop} (hok : ∀ s e, ok s e → ok' s e)
    (h : Reaches step ok init s) : Reaches step ok' init s := by
  induction h with
  | init => exact .init
  | step _ ho hstep ih => exact .step ih (hok _ _ ho) hstep

/-- An evaluated run is a run. -/
theorem of_runIf [∀ s e, Decidable (ok s e)] {es : List ε} (h : Reaches step ok init s)
    (hr : runIf step ok s es = some s') : Reaches step ok init s' := by
  induction es generalizing s with
  | nil =>
    cases hr
    exact h
  | cons e es ih =>
    rw [runIf] at hr
    split at hr
    · next ho =>
      obtain ⟨s₁, hs, hr⟩ := Option.bind_eq_some_iff.mp hr
      exact ih (.step h ho hs) hr
    · cases hr

/-- An evaluated run that ends in a state with a property. -/
theorem exists_of_runIf (step : σ → ε → Option σ) (ok : σ → ε → Prop)
    [∀ s e, Decidable (ok s e)] (init : σ) (es : List ε) (p : σ → Prop) [DecidablePred p]
    (hr : (runIf step ok init es).any (fun s ↦ p s) = true) :
    ∃ s, Reaches step ok init s ∧ p s := by
  cases hs : runIf step ok init es with
  | none =>
    rw [hs] at hr
    cases hr
  | some s =>
    rw [hs] at hr
    exact ⟨s, .of_runIf .init hs, of_decide_eq_true hr⟩

end Reaches

/-- Every run of steps that meet `ok` is finite, and where it cannot go on `P` holds. -/
inductive Inevitable (step : σ → ε → Option σ) (ok : σ → ε → Prop) (P : σ → Prop) : σ → Prop
  | intro {s : σ} (hend : (∀ e, ok s e → step s e = none) → P s)
      (hnext : ∀ e s', ok s e → step s e = some s' → Inevitable step ok P s') :
      Inevitable step ok P s

/-- A relation to a well-founded order that every step goes down in, and under which a state
that cannot go on has the property. -/
theorem inevitable_of_wf {τ : Type} {lower : τ → τ → Prop} (hwf : WellFounded lower)
    {step : σ → ε → Option σ} {ok : σ → ε → Prop} {P : σ → Prop} {R : σ → τ → Prop}
    (hend : ∀ s t, R s t → (∀ e, ok s e → step s e = none) → P s)
    (hstep : ∀ s t e s', R s t → ok s e → step s e = some s' → ∃ t', R s' t' ∧ lower t' t)
    {s : σ} {t : τ} (h : R s t) : Inevitable step ok P s := by
  induction t using hwf.induction generalizing s with
  | _ t ih =>
    refine .intro (hend s t h) fun e s' hok hs ↦ ?_
    obtain ⟨t', ht', hlower⟩ := hstep s t e s' h hok hs
    exact ih t' hlower ht'

/-- Two conditions that agree on the steps out of every state that an invariant allows. -/
theorem along_congr {step : σ → ε → Option σ} {P Q : σ → ε → Prop} {I : σ → Prop}
    (hstep : ∀ s e s', I s → step s e = some s' → I s')
    (hPQ : ∀ s e s', I s → step s e = some s' → (P s e ↔ Q s e)) {s : σ} (hs : I s)
    (es : List ε) : Along step P s es ↔ Along step Q s es := by
  induction es generalizing s with
  | nil => exact Iff.rfl
  | cons e es ih =>
    cases he : step s e with
    | none => simp only [Along, he]
    | some s' =>
      simp only [Along, he]
      rw [hPQ s e s' hs he, ih (hstep s e s' hs he)]

/-- A condition that the steps out of every state meet which an invariant allows. -/
theorem along_of_invariant {step : σ → ε → Option σ} {P : σ → ε → Prop} {I : σ → Prop}
    (hstep : ∀ s e s', I s → step s e = some s' → I s')
    (hP : ∀ s e s', I s → step s e = some s' → P s e) {s : σ} (hs : I s) (es : List ε) :
    Along step P s es := by
  induction es generalizing s with
  | nil => trivial
  | cons e es ih =>
    cases he : step s e with
    | none => simp only [Along, he]
    | some s' =>
      simp only [Along, he]
      exact ⟨hP s e s' hs he, ih (hstep s e s' hs he)⟩

/-- A run is no longer than the measure that each of its steps lowers. -/
theorem length_add_le_of_runIf {step : σ → ε → Option σ} {ok : σ → ε → Prop}
    [∀ s e, Decidable (ok s e)] {I : σ → Prop} {left : σ → Nat}
    (hstep : ∀ s e s', I s → ok s e → step s e = some s' → I s' ∧ left s' < left s)
    {s s' : σ} (hs : I s) {es : List ε} (h : runIf step ok s es = some s') :
    I s' ∧ es.length + left s' ≤ left s := by
  induction es generalizing s with
  | nil =>
    cases h
    exact ⟨hs, by simp⟩
  | cons e es ih =>
    rw [runIf] at h
    split at h
    · next hok =>
      obtain ⟨t, ht, h⟩ := Option.bind_eq_some_iff.mp h
      obtain ⟨htI, hlower⟩ := hstep s e t hs hok ht
      obtain ⟨hend, hrest⟩ := ih htI h
      refine ⟨hend, ?_⟩
      rw [List.length_cons]
      omega
    · cases h

/-- A run is cut after a part of it that is possible. -/
theorem along_append {step : σ → ε → Option σ} {P : σ → ε → Prop} {s s' : σ} {es fs : List ε}
    (h : runIf step (fun _ _ ↦ True) s es = some s') :
    Along step P s (es ++ fs) ↔ Along step P s es ∧ Along step P s' fs := by
  induction es generalizing s with
  | nil =>
    cases h
    simp only [List.nil_append, Along, true_and]
  | cons e es ih =>
    rw [runIf, if_pos trivial] at h
    obtain ⟨t, ht, h⟩ := Option.bind_eq_some_iff.mp h
    simp only [List.cons_append, Along, ht]
    rw [ih h, and_assoc]

/-- What lasts once it holds, and does not hold at the end of a run, never held in it. -/
theorem along_of_not_yet {step : σ → ε → Option σ} {P : σ → ε → Prop} {I : σ → Prop}
    (hstep : ∀ s e s', I s → step s e = some s' → I s') (hP : ∀ s e, ¬ I s → P s e)
    {s s' : σ} {es : List ε} (h : runIf step (fun _ _ ↦ True) s es = some s') (hs' : ¬ I s') :
    ¬ I s ∧ Along step P s es := by
  induction es generalizing s with
  | nil =>
    cases h
    exact ⟨hs', trivial⟩
  | cons e es ih =>
    rw [runIf, if_pos trivial] at h
    obtain ⟨t, ht, h⟩ := Option.bind_eq_some_iff.mp h
    obtain ⟨hlater, hrest⟩ := ih h
    have hnow : ¬ I s := fun hs ↦ hlater (hstep s e t hs ht)
    simp only [Along, ht]
    exact ⟨hnow, hP s e hnow, hrest⟩

/-- What holds as long as the steps of a run meet `P`, and what holds from the first step on that
does not. -/
theorem along_or_of_runIf {step : σ → ε → Option σ} {P : σ → ε → Prop} {A B : σ → Prop}
    (hA : ∀ s e s', A s → P s e → step s e = some s' → A s')
    (hturn : ∀ s e s', A s → ¬ P s e → step s e = some s' → B s')
    (hB : ∀ s e s', B s → step s e = some s' → B s') {s s' : σ} (hs : A s) {es : List ε}
    (h : runIf step (fun _ _ ↦ True) s es = some s') :
    Along step P s es ∧ A s' ∨ ¬ Along step P s es ∧ B s' := by
  induction es generalizing s with
  | nil =>
    cases h
    exact .inl ⟨trivial, hs⟩
  | cons e es ih =>
    rw [runIf, if_pos trivial] at h
    obtain ⟨t, ht, hrest⟩ := Option.bind_eq_some_iff.mp h
    simp only [Along, ht]
    by_cases hP : P s e
    · simpa only [hP, true_and] using ih (hA s e t hs hP ht) hrest
    · refine .inr ⟨fun halong ↦ hP halong.1, ?_⟩
      exact (Reaches.of_runIf .init hrest).invariant (hturn s e t hs hP ht)
        (fun s e s' hs _ hstep ↦ hB s e s' hs hstep)

/-- A condition on the steps does not see the history. -/
theorem along_recording {ω : Type} {step : σ → ε → Option σ} {observe : σ → ε → List ω}
    {P : σ → ε → Prop} (s : σ × List ω) (es : List ε) :
    Along (recording step observe) (fun s e ↦ P s.1 e) s es ↔ Along step P s.1 es := by
  induction es generalizing s with
  | nil => exact Iff.rfl
  | cons e es ih =>
    cases he : step s.1 e with
    | none => simp only [Along, recording, he, Option.map_none]
    | some t =>
      simp only [Along, recording, he, Option.map_some]
      exact and_congr_right fun _ ↦ ih _

end CassandraDriver.Lib
