import CassandraDriver.Detail.PoolLive

/-!
# `Acquire` finds a connection

Library `Detail`. A call of `Execute` or `BatchExecute` uses what `Acquire` returns without
looking at it; it is not null in the runs in which `Acquire` has something to give.
-/

namespace CassandraDriver.Detail
open CassandraDriver.Lib

namespace Pool

variable {p : Pool}

/-- The sweep of an `Acquire` is under way and has kept no connection yet. -/
def keptNone (p : Pool) : Bool :=
  match p.locked with
  | .sweeping _ 0 => true
  | _ => false

/-- When a call enters `Acquire` the vector holds a connection that is not broken, and the
last such connection is not marked broken before the sweep has kept one. -/
def FindsUsable (p : Pool) : PoolEvent → Prop
  | .acquire _ => ∃ c ∈ p.vector, (p.conns c).broken = false
  | .markBroken c => p.keptNone = true → ∃ d ∈ p.vector, d ≠ c ∧ (p.conns d).broken = false
  | _ => True

instance (p : Pool) : (e : PoolEvent) → Decidable (p.FindsUsable e)
  | .acquire _ => inferInstanceAs (Decidable (∃ c ∈ p.vector, _))
  | .markBroken _ => inferInstanceAs (Decidable (_ → ∃ d ∈ p.vector, _))
  | .connect .. | .push _ | .sweep | .select | .takeStream _ | .giveStream _ | .finish _
  | .maintain | .acquireImmediate | .scan | .idleTest | .close _ | .pingTakeStream
  | .pingGiveStream | .pinged _ | .release | .maintainEnds => inferInstanceAs (Decidable True)

/-- No call has used a null pointer, and the call in `Acquire` will get a connection: the
sweep has kept one or has a usable one ahead, and the selection has one or has all ahead. -/
structure Supplied (p : Pool) : Prop where
  unexpired : ∀ c, (p.conns c).expired = false
  calls : ∀ i, p.calls i ≠ .dereferencedNull
  sweeping : ∀ i it, p.locked = .sweeping i it → it ≤ p.vector.length ∧
    (it = 0 → ∃ c ∈ p.vector, (p.conns c).broken = false)
  selecting : ∀ i it best, p.locked = .selecting i it best → p.vector ≠ [] ∧
    (best = none → it = 0)

private theorem supplied_started (settings : PoolSettings) : (started settings).Supplied := by
  refine ⟨fun _ ↦ rfl, fun i hi ↦ ?_, fun i it hl ↦ ?_, fun i it best hl ↦ ?_⟩
  · cases hi
  · cases hl
  · cases hl

/-- The pool's tests see the same of every connection, apart from its streams. -/
def SameHealth (p q : Pool) : Prop := ∀ c,
  (q.conns c).broken = (p.conns c).broken ∧ (q.conns c).expired = (p.conns c).expired

private theorem SameHealth.refl (p : Pool) : SameHealth p p := fun _ ↦ ⟨rfl, rfl⟩

private theorem sameHealth_setConn {c : Nat} {s : PoolConnection}
    (hb : s.broken = (p.conns c).broken) (he : s.expired = (p.conns c).expired) :
    SameHealth p (p.setConn c s) := by
  intro d
  by_cases hd : d = c
  · subst hd
    rw [setConn_conns, Function.update_self]
    exact ⟨hb, he⟩
  · rw [setConn_conns, Function.update_of_ne hd]
    exact ⟨rfl, rfl⟩

private theorem sameHealth_put {q : Pool} {c : Nat} {stage : PutStage} {next : Option PutStage}
    (h : p.put c stage = some (q, next)) :
    SameHealth p q ∧ q.calls = p.calls ∧ q.locked = p.locked ∧
      (q.vector = p.vector ∨ p.locked = .free) := by
  rcases put_cases h with ⟨_, -, -, -, rfl⟩ | ⟨-, -, -, rfl⟩ | ⟨-, -, hl, rfl⟩
  · exact ⟨.refl q, rfl, rfl, .inl rfl⟩
  · exact ⟨sameHealth_setConn rfl rfl, rfl, rfl, .inl rfl⟩
  · exact ⟨.refl p, rfl, rfl, .inr hl⟩

private theorem lessLoaded_ne_none {conns : Nat → PoolConnection} {best : Option Nat} {c : Nat}
    (hc : (conns c).expired = false) : lessLoaded conns best c ≠ none := by
  unfold lessLoaded
  rw [hc]
  cases best with
  | none => simp
  | some b =>
    simp only [Bool.false_eq_true, if_false]
    split <;> simp

namespace Supplied

/-- A step outside `Acquire` that breaks nothing. -/
theorem frame (h : p.Supplied) {q : Pool} (hhealth : SameHealth p q)
    (hcalls : ∀ i, q.calls i = .dereferencedNull → p.calls i = .dereferencedNull)
    (hlocked : q.locked = p.locked) (hvector : q.vector = p.vector ∨ p.locked = .free) :
    q.Supplied := by
  refine ⟨fun c ↦ (hhealth c).2.trans (h.unexpired c), fun i hi ↦ h.calls i (hcalls i hi), ?_, ?_⟩
  · intro i it hl
    rw [hlocked] at hl
    rcases hvector with hvector | hfree
    · obtain ⟨hle, hc⟩ := h.sweeping i it hl
      rw [hvector]
      refine ⟨hle, fun hit ↦ ?_⟩
      obtain ⟨c, hm, hb⟩ := hc hit
      exact ⟨c, hm, (hhealth c).1.trans hb⟩
    · rw [hfree] at hl
      cases hl
  · intro i it best hl
    rw [hlocked] at hl
    rcases hvector with hvector | hfree
    · rw [hvector]
      exact h.selecting i it best hl
    · rw [hfree] at hl
      cases hl

/-- A step of `AcquireImmediate`. -/
theorem outside (h : p.Supplied) {q : Pool} (hhealth : SameHealth p q) (hcalls : q.calls = p.calls)
    (hlocked : q.locked = .free ∨ ∃ it, q.locked = .scanning it) : q.Supplied := by
  refine ⟨fun c ↦ (hhealth c).2.trans (h.unexpired c), hcalls ▸ h.calls, ?_, ?_⟩
  · intro i it hl
    rcases hlocked with hf | ⟨k, hf⟩ <;>
    · rw [hf] at hl
      cases hl
  · intro i it best hl
    rcases hlocked with hf | ⟨k, hf⟩ <;>
    · rw [hf] at hl
      cases hl

private theorem setCall (h : p.Supplied) (i : Nat) {phase : CallPhase}
    (hphase : phase ≠ .dereferencedNull) : (p.setCall i phase).Supplied := by
  refine h.frame (.refl p) (fun j hj ↦ ?_) rfl (.inl rfl)
  by_cases hji : j = i
  · subst hji
    rw [setCall_calls, Function.update_self] at hj
    exact absurd hj hphase
  · rw [setCall_calls, Function.update_of_ne hji] at hj
    exact hj

private theorem useStream (h : p.Supplied) (c : Nat) (taken : Bool) :
    (p.useStream c taken).Supplied :=
  h.frame (sameHealth_setConn rfl rfl) (fun _ hi ↦ hi) rfl (.inl rfl)

private theorem markBroken (h : p.Supplied) {c : Nat} (hok : p.FindsUsable (.markBroken c)) :
    (p.markBroken c).Supplied := by
  have hne : ∀ d, d ≠ c → (p.markBroken c).conns d = p.conns d := fun d hd ↦
    Function.update_of_ne hd ..
  refine ⟨fun d ↦ ?_, h.calls, fun i it hl ↦ ⟨(h.sweeping i it hl).1, ?_⟩, h.selecting⟩
  · by_cases hd : d = c
    · subst hd
      rw [Pool.markBroken, setConn_conns, Function.update_self]
      exact h.unexpired d
    · rw [hne d hd]
      exact h.unexpired d
  · rintro rfl
    have hkept : p.keptNone = true := by
      change p.locked = .sweeping i 0 at hl
      simp only [keptNone, hl]
    obtain ⟨d, hm, hd, hb⟩ := hok hkept
    exact ⟨d, hm, by rw [hne d hd]; exact hb⟩

private theorem sweep (h : p.Supplied) {i it : Nat} (hl : p.locked = .sweeping i it) :
    (p.sweep i it).Supplied := by
  obtain ⟨hle, husable⟩ := h.sweeping i it hl
  unfold Pool.sweep
  split
  · next c hc =>
    obtain ⟨hlt, hget⟩ := List.getElem?_eq_some_iff.mp hc
    split
    · next hdoom =>
      have hhealth : SameHealth p (p.dropAt it c) := sameHealth_setConn rfl rfl
      refine ⟨fun d ↦ (hhealth d).2.trans (h.unexpired d), h.calls, fun j k hs ↦ ?_,
        fun j k best hs ↦ ?_⟩
      · obtain ⟨rfl, rfl⟩ : i = j ∧ it = k := by
          have hs' : p.locked = .sweeping j k := hs
          rw [hl] at hs'
          injection hs' with h1 h2
          exact ⟨h1, h2⟩
        change it ≤ (p.vector.eraseIdx it).length ∧ _
        rw [List.length_eraseIdx_of_lt hlt]
        refine ⟨by omega, fun hit ↦ ?_⟩
        -- The usable connection is not the one that is deleted here.
        obtain ⟨d, hm, hb⟩ := husable hit
        refine ⟨d, ?_, (hhealth d).1.trans hb⟩
        change d ∈ p.vector.eraseIdx it
        obtain ⟨k, hk, hdk⟩ := List.mem_iff_getElem.mp hm
        refine List.mem_eraseIdx_iff_getElem.mpr ⟨k, hk, ?_, hdk⟩
        rintro rfl
        have hcd : c = d := hget.symm.trans hdk
        simp [PoolConnection.isDoomed, hcd, hb, h.unexpired d] at hdoom
      · have hs' : p.locked = .selecting j k best := hs
        rw [hl] at hs'
        cases hs'
    · refine ⟨h.unexpired, h.calls, fun j k hs ↦ ?_, by simp⟩
      injection hs with h1 h2
      subst h2
      exact ⟨hlt, by simp⟩
  · next hnone =>
    refine ⟨h.unexpired, h.calls, by simp, fun j k best hs ↦ ?_⟩
    injection hs with h1 h2 h3
    refine ⟨fun hv ↦ ?_, fun _ ↦ h2.symm⟩
    -- Nothing is left ahead of the sweep, so an empty vector would have had nothing usable.
    have hv' : p.vector = [] := hv
    rw [hv', List.length_nil, Nat.le_zero] at hle
    obtain ⟨c, hm, -⟩ := husable hle
    rw [hv'] at hm
    cases hm

private theorem select (h : p.Supplied) {i it : Nat} {best : Option Nat}
    (hl : p.locked = .selecting i it best) : (p.select i it best).Supplied := by
  obtain ⟨hne, hbest⟩ := h.selecting i it best hl
  unfold Pool.select
  split
  · next c hc =>
    refine ⟨h.unexpired, h.calls, by simp, fun j k best' hs ↦ ⟨hne, ?_⟩⟩
    injection hs with h1 h2 h3
    rintro rfl
    exact absurd h3 (lessLoaded_ne_none (h.unexpired c))
  · next hnone =>
    have hfree : { p with locked := .free }.Supplied :=
      h.outside (.refl p) rfl (.inl rfl)
    refine hfree.setCall i (fun hnull ↦ ?_)
    cases best with
    | none =>
      rw [hbest rfl, List.getElem?_eq_none_iff, Nat.le_zero, List.length_eq_zero_iff] at hnone
      exact hne hnone
    | some b => cases hnull

private theorem scan (h : p.Supplied) {it n drops : Nat} (hl : p.locked = .scanning it) :
    (p.scan it n drops).Supplied := by
  have hdrop : ∀ c, (p.dropAt it c).Supplied := fun c ↦
    h.outside (sameHealth_setConn rfl rfl) rfl (.inr ⟨it, hl⟩)
  unfold Pool.scan
  split
  · split
    · split
      · exact hdrop _
      · exact h.outside (.refl p) rfl (.inr ⟨_, rfl⟩)
    · split
      · exact hdrop _
      · exact h.outside (.refl p) rfl (.inl rfl)
  · exact h.outside (.refl p) rfl (.inl rfl)

/-- A step that meets the condition keeps `Acquire` supplied. -/
theorem step (h : p.Supplied) {q : Pool} {e : PoolEvent} (hok : p.FindsUsable e)
    (hstep : p.step e = some q) : q.Supplied := by
  -- What `Maintain` and the connect tasks do with their own state is not looked at.
  have hown : ∀ {q : Pool}, SameHealth p q → q.calls = p.calls → q.locked = p.locked →
      (q.vector = p.vector ∨ p.locked = .free) → q.Supplied := fun hh hc hl hv ↦
    h.frame hh (fun i hi ↦ hc ▸ hi) hl hv
  cases transition_of_step hstep with
  | connects => exact hown (.refl p) rfl rfl (.inl rfl)
  | connectFails => exact hown (.refl p) rfl rfl (.inl rfl)
  | push _ hput =>
    obtain ⟨hh, hc, hl, hv⟩ := sameHealth_put hput
    exact hown hh hc hl hv
  | markBroken => exact h.markBroken hok
  | acquire =>
    refine ⟨h.unexpired, h.calls, fun j k hs ↦ ?_, by simp⟩
    injection hs with _ hk
    exact ⟨hk ▸ Nat.zero_le _, fun _ ↦ hok⟩
  | sweep hl => exact h.sweep hl
  | select hl => exact h.select hl
  | takeStream => exact (h.useStream _ _).setCall _ (by simp)
  | giveStream => exact (h.useStream _ _).setCall _ (by simp)
  | finish => exact h.setCall _ (by simp)
  | maintain => exact hown (.refl p) rfl rfl (.inl rfl)
  | acquireImmediate => exact h.outside (.refl p) rfl (.inr ⟨0, rfl⟩)
  | scan hl => exact h.scan hl
  | closes => exact hown (.refl p) rfl rfl (.inl rfl)
  | pings => exact hown (.refl p) rfl rfl (.inl rfl)
  | close => exact hown (sameHealth_setConn rfl rfl) rfl rfl (.inl rfl)
  | pingTakeStream => exact hown (sameHealth_setConn rfl rfl) rfl rfl (.inl rfl)
  | pingGiveStream => exact hown (sameHealth_setConn rfl rfl) rfl rfl (.inl rfl)
  | pinged => exact hown (.refl p) rfl rfl (.inl rfl)
  | release _ hput =>
    obtain ⟨hh, hc, hl, hv⟩ := sameHealth_put hput
    exact hown hh hc hl hv
  | maintainEnds => exact hown (.refl p) rfl rfl (.inl rfl)

end Supplied

/-- In every run whose steps meet the condition, no call uses a null pointer. -/
theorem never_dereferencedNull {settings : PoolSettings} {p₀ : Pool}
    (hinit : init settings = .ok p₀) (hrun : Reaches step FindsUsable p₀ p) :
    ∀ i, p.calls i ≠ .dereferencedNull := by
  have hsupplied : p.Supplied := by
    refine hrun.invariant ?_ (fun s e s' h hok hstep ↦ h.step hok hstep)
    rw [init_eq_ok hinit]
    exact supplied_started settings
  exact hsupplied.calls

/-- A call finds the only connection while a pass pings it. -/
theorem never_dereferencedNull_pinged : ∃ p,
    Reaches step FindsUsable (started oneConnection) p ∧
    p.maintain = .pinging 0 false 1 1 ∧ p.calls 0 = .holding 0 false ∧
    ∀ i, p.calls i ≠ .dereferencedNull := by
  have hinit : init oneConnection = .ok (started oneConnection) := rfl
  obtain ⟨p, hp, hm, h0⟩ := Reaches.exists_of_runIf step FindsUsable (started oneConnection)
    (connectOne ++ acquireOne 0 ++ [.maintain, .acquireImmediate, .scan, .idleTest])
    (fun p ↦ p.maintain = .pinging 0 false 1 1 ∧ p.calls 0 = .holding 0 false)
    (by decide +kernel)
  exact ⟨p, hp, hm, h0, never_dereferencedNull hinit hp⟩

/-- A call enters `Acquire` while `Maintain` has the only connection out to ping it. -/
theorem pingedPool_null : ¬ ∀ (settings : PoolSettings) (p₀ p : Pool),
    init settings = .ok p₀ → Reaches step (fun _ _ ↦ True) p₀ p →
    ∀ i, p.calls i ≠ .dereferencedNull := by
  intro h
  obtain ⟨p, hp, h0⟩ := Reaches.exists_of_runIf step (fun _ _ ↦ True) (started oneConnection)
    (connectOne ++ [.maintain, .acquireImmediate, .scan, .idleTest, .acquire 0, .sweep, .select])
    (fun p ↦ p.calls 0 = .dereferencedNull) (by decide +kernel)
  exact h oneConnection _ p rfl hp 0 h0

end Pool
end CassandraDriver.Detail
