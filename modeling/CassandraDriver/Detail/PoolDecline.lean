import Mathlib.Data.Finset.Card
import Mathlib.Data.Finset.Range
import CassandraDriver.Detail.PoolOwnership

/-!
# Lost connections are not replaced

Library `Detail`. Only `Init` connects: nothing calls `TryCreateConnectionAsync`,
`src/detail/connection_pool.cpp:233`. So a pool never has more connections than `min_size`, its
passes of `Maintain` never find one to spare, and what it loses is lost for good.
-/

namespace CassandraDriver.Detail
open CassandraDriver.Lib

/-- `pool_size` in a pass of `Maintain`. -/
def MaintainPhase.poolSize? : MaintainPhase → Option Nat
  | sleeping => none
  | looking n _ => some n
  | testing _ n _ => some n
  | closing _ n _ => some n
  | pinging _ _ n _ => some n
  | releasing _ _ _ n _ => some n

/-- The call has no connection and has had none. -/
def CallPhase.isEmpty : CallPhase → Bool
  | idle => true
  | holding _ _ => false
  | dereferencedNull => true
  | .over => false

private theorem CallPhase.isEmpty_iff {phase : CallPhase} :
    phase.isEmpty = true ↔ phase = .idle ∨ phase = .dereferencedNull := by
  cases phase <;> simp [isEmpty]

namespace Pool

variable {p q : Pool}

/-- Connections do not recover, and only broken ones are destroyed. -/
def Ages (p q : Pool) : Prop := ∀ c,
  (q.conns c).expired = (p.conns c).expired ∧
  ((p.conns c).broken = true → (q.conns c).broken = true) ∧
  ((q.conns c).destroyed = true → (p.conns c).destroyed = true ∨ (p.conns c).broken = true)

private theorem Ages.of_eq (h : q.conns = p.conns) : Ages p q := by
  intro c
  rw [h]
  exact ⟨rfl, id, .inl⟩

/-- One connection changes. -/
theorem ages_setConn {c : Nat} {s : PoolConnection} (hexpired : s.expired = (p.conns c).expired)
    (hbroken : (p.conns c).broken = true → s.broken = true)
    (hdestroyed : s.destroyed = true → (p.conns c).destroyed = true ∨ (p.conns c).broken = true) :
    Ages p (p.setConn c s) := by
  intro d
  by_cases hd : d = c
  · subst hd
    rw [setConn_conns, Function.update_self]
    exact ⟨hexpired, hbroken, hdestroyed⟩
  · rw [setConn_conns, Function.update_of_ne hd]
    exact ⟨rfl, id, .inl⟩

private theorem ages_destroy {c : Nat} (hbroken : (p.conns c).broken = true) :
    Ages p (p.destroy c) :=
  ages_setConn rfl id fun _ ↦ .inr hbroken

private theorem ages_useStream (c : Nat) (taken : Bool) : Ages p (p.useStream c taken) :=
  ages_setConn rfl id .inl

/-- The connect tasks of `Init` that have connected or failed. -/
def attempted (p : Pool) : Finset Nat :=
  (Finset.range p.settings.minSize).filter fun t ↦ p.connects t ≠ .connecting

/-- Every connection is one of `Init`'s and is destroyed only when it is broken, no pass of
`Maintain` counts more than `min_size`, and none is about to close a connection. -/
structure Declining (p : Pool) : Prop where
  tasks : ∀ t, p.connects t = .connecting → t < p.settings.minSize
  created : p.created ≤ p.attempted.card
  unexpired : ∀ c, (p.conns c).expired = false
  lost : ∀ c, (p.conns c).destroyed = true → (p.conns c).broken = true
  pass : ∀ n, p.maintain.poolSize? = some n → n ≤ p.settings.minSize
  closing : ∀ c n drops, p.maintain ≠ .closing c n drops
  best : ∀ i it c, p.locked = .selecting i it (some c) → c ∈ p.vector

namespace Declining

private theorem started (settings : PoolSettings) : (started settings).Declining where
  tasks t ht := by
    simp only [Pool.started] at ht
    split at ht
    · assumption
    · cases ht
  created := Nat.zero_le _
  unexpired _ := rfl
  lost _ h := by cases h
  pass _ h := by cases h
  closing _ _ _ h := by cases h
  best _ _ _ h := by cases h

private theorem created_le (h : p.Declining) : p.created ≤ p.settings.minSize := by
  have hcard := Finset.card_filter_le (Finset.range p.settings.minSize) fun t ↦
    p.connects t ≠ .connecting
  rw [Finset.card_range] at hcard
  exact h.created.trans hcard

/-- No task connects in the step. -/
theorem frame (h : p.Declining) (hsettings : q.settings = p.settings)
    (hcreated : q.created = p.created)
    (htasks : ∀ t, q.connects t = .connecting → p.connects t = .connecting) (hages : Ages p q)
    (hpass : ∀ n, q.maintain.poolSize? = some n → n ≤ p.settings.minSize)
    (hclosing : ∀ c n drops, q.maintain ≠ .closing c n drops)
    (hbest : ∀ i it c, q.locked = .selecting i it (some c) → c ∈ q.vector) : q.Declining where
  tasks t ht := hsettings ▸ h.tasks t (htasks t ht)
  created := by
    rw [hcreated]
    refine h.created.trans (Finset.card_le_card fun t ht ↦ ?_)
    rw [attempted, Finset.mem_filter] at ht ⊢
    exact ⟨hsettings ▸ ht.1, fun hq ↦ ht.2 (htasks t hq)⟩
  unexpired c := (hages c).1.trans (h.unexpired c)
  lost c hc := by
    rcases (hages c).2.2 hc with hold | hbroken
    · exact (hages c).2.1 (h.lost c hold)
    · exact (hages c).2.1 hbroken
  pass n hn := hsettings ▸ hpass n hn
  closing := hclosing
  best := hbest

/-- A task connects: one attempt more, and one connection. -/
theorem connects (h : p.Declining) {t : Nat} (ht : p.connects t = .connecting) :
    ({ p with created := p.created + 1 }.setConnect t (.putting p.created .push)).Declining where
  tasks s hs := by
    simp only [setConnect_connects, Function.update_apply] at hs
    split at hs
    · cases hs
    · exact h.tasks s hs
  created := by
    refine Nat.lt_of_le_of_lt h.created (Finset.card_lt_card ?_)
    refine Finset.ssubset_iff_subset_ne.mpr ⟨fun s hs ↦ ?_, fun heq ↦ ?_⟩
    · rw [attempted, Finset.mem_filter] at hs ⊢
      refine ⟨hs.1, ?_⟩
      rw [setConnect_connects, Function.update_apply]
      split
      · simp
      · exact hs.2
    · have hmem : t ∈ ({ p with created := p.created + 1 }.setConnect t
          (.putting p.created .push)).attempted := by
        rw [attempted, Finset.mem_filter]
        refine ⟨Finset.mem_range.mpr (h.tasks t ht), ?_⟩
        rw [setConnect_connects, Function.update_self]
        simp
      rw [← heq, attempted, Finset.mem_filter] at hmem
      exact hmem.2 ht
  unexpired := h.unexpired
  lost := h.lost
  pass := h.pass
  closing := h.closing
  best := h.best

private theorem setConn (h : p.Declining) {c : Nat} {s : PoolConnection}
    (hages : Ages p (p.setConn c s)) : (p.setConn c s).Declining :=
  h.frame rfl rfl (fun _ ht ↦ ht) hages h.pass h.closing h.best

private theorem setCall (h : p.Declining) (i : Nat) (phase : CallPhase) :
    (p.setCall i phase).Declining :=
  h.frame rfl rfl (fun _ ht ↦ ht) (.of_eq rfl) h.pass h.closing h.best

private theorem setLocked (h : p.Declining) (l : LockedSection)
    (hl : ∀ i it c, l = .selecting i it (some c) → c ∈ p.vector) :
    { p with locked := l }.Declining :=
  h.frame rfl rfl (fun _ ht ↦ ht) (.of_eq rfl) h.pass h.closing hl

private theorem setMaintain (h : p.Declining) (m : MaintainPhase)
    (hpass : ∀ n, m.poolSize? = some n → n ≤ p.settings.minSize)
    (hclosing : ∀ c n drops, m ≠ .closing c n drops) : { p with maintain := m }.Declining :=
  h.frame rfl rfl (fun _ ht ↦ ht) (.of_eq rfl) hpass hclosing h.best

private theorem setConnect (h : p.Declining) (t : Nat) {phase : ConnectPhase}
    (hphase : phase ≠ .connecting) : (p.setConnect t phase).Declining := by
  refine h.frame rfl rfl (fun s hs ↦ ?_) (.of_eq rfl) h.pass h.closing h.best
  simp only [setConnect_connects, Function.update_apply] at hs
  split at hs
  · exact absurd hs hphase
  · exact hs

/-- A broken connection of the vector is dropped by a loop that is not choosing one. -/
theorem dropAt (h : p.Declining) {it c : Nat} (hbroken : (p.conns c).broken = true)
    (hl : ∀ i it c, p.locked ≠ .selecting i it (some c)) : (p.dropAt it c).Declining :=
  h.frame rfl rfl (fun _ ht ↦ ht) (ages_destroy hbroken) h.pass h.closing fun i it c hs ↦
    absurd hs (hl i it c)

private theorem broken_of_isDoomed (h : p.Declining) {c : Nat}
    (hdoomed : (p.conns c).isDoomed = true) :
    (p.conns c).broken = true := by
  simpa [PoolConnection.isDoomed, h.unexpired c] using hdoomed

private theorem sweep (h : p.Declining) {i it : Nat} (hl : p.locked = .sweeping i it) :
    (p.sweep i it).Declining := by
  unfold Pool.sweep
  split
  · split
    · next hdoomed => exact h.dropAt (h.broken_of_isDoomed hdoomed) (by simp [hl])
    · exact h.setLocked _ (by simp)
  · exact h.setLocked _ (by simp)

private theorem select (h : p.Declining) {i it : Nat} {best : Option Nat}
    (hl : p.locked = .selecting i it best) : (p.select i it best).Declining := by
  unfold Pool.select
  split
  · next c hc =>
    refine h.setLocked _ (fun j k d hs ↦ ?_)
    injection hs with _ _ hbest
    rcases Live.lessLoaded_mem hbest with rfl | hbest
    · exact List.mem_of_getElem? hc
    · exact h.best i it d (hbest ▸ hl)
  · exact Declining.setCall (h.setLocked .free (by simp)) i _

private theorem scan (h : p.Declining) {it n drops : Nat} (hl : p.locked = .scanning it)
    (hm : p.maintain = .looking n drops) : (p.scan it n drops).Declining := by
  unfold Pool.scan
  split
  · next c hc =>
    rw [if_neg (by simp [h.unexpired c])]
    split
    · next hbroken => exact h.dropAt hbroken (by simp [hl])
    · refine h.frame rfl rfl (fun _ ht ↦ ht) (.of_eq rfl) (fun m hm' ↦ ?_) (by simp) (by simp)
      exact h.pass m (hm ▸ hm')
  · exact h.frame rfl rfl (fun _ ht ↦ ht) (.of_eq rfl) (by simp [MaintainPhase.poolSize?]) (by simp)
      (by simp)

private theorem put (h : p.Declining) {c : Nat} {stage : PutStage} {next : Option PutStage}
    (hput : p.put c stage = some (q, next)) :
    q.Declining ∧ q.settings = p.settings ∧ q.maintain = p.maintain := by
  rcases put_cases hput with ⟨_, -, -, -, rfl⟩ | ⟨-, -, hdoomed, rfl⟩ | ⟨-, -, hl, rfl⟩
  · exact ⟨h, rfl, rfl⟩
  · exact ⟨h.setConn (ages_destroy (h.broken_of_isDoomed hdoomed)), rfl, rfl⟩
  · exact ⟨h.frame rfl rfl (fun _ ht ↦ ht) (.of_eq rfl) h.pass h.closing (by simp [hl]), rfl, rfl⟩

/-- The next round of a pass counts no more than this one. -/
theorem pass_next (aborts : Bool) {n : Nat} (drops : Nat) (hn : n ≤ p.settings.minSize) :
    ∀ m, (MaintainPhase.next aborts n drops).poolSize? = some m → m ≤ p.settings.minSize := by
  intro m hm
  cases aborts with
  | true => cases hm
  | false =>
    cases hm
    omega

/-- Every step of a pool whose vector holds no connection twice. -/
theorem step (h : p.Declining) {e : PoolEvent} (hnodup : p.vector.Nodup)
    (hvector : ∀ c ∈ p.vector, c < p.created) (ht : Transition p e q) : q.Declining := by
  cases ht with
  | connects ht => exact h.connects ht
  | connectFails ht => exact h.setConnect _ (by simp)
  | @push t c stage q next ht hput =>
    refine (h.put hput).1.setConnect t ?_
    cases next <;> simp
  | markBroken hc => exact h.setConn (ages_setConn rfl (fun _ ↦ rfl) .inl)
  | acquire hi hready hl => exact h.setLocked _ (by simp)
  | sweep hl => exact h.sweep hl
  | select hl => exact h.select hl
  | takeStream hi => exact (h.setConn (ages_useStream _ _)).setCall _ _
  | giveStream hi => exact (h.setConn (ages_useStream _ _)).setCall _ _
  | finish hi => exact h.setCall _ _
  | maintain hm hready hl =>
    refine h.setMaintain _ (fun n hn ↦ ?_) (by simp)
    cases hn
    have hlength := (List.subperm_of_subset hnodup fun c hc ↦
      List.mem_range.mpr (hvector c hc)).length_le
    rw [List.length_range] at hlength
    exact hlength.trans h.created_le
  | acquireImmediate hm hl => exact h.setLocked _ (by simp)
  | scan hl hm => exact h.scan hl hm
  | @closes c n drops hm hn hdrops hidle =>
    have hle := h.pass n (by rw [hm]; rfl)
    omega
  | @pings c n drops hm =>
    exact h.setMaintain _ (fun m hm' ↦ h.pass m (hm ▸ hm')) (by simp)
  | close hm => exact absurd hm (h.closing _ _ _)
  | pingTakeStream hm =>
    exact (h.setConn (ages_useStream _ _)).setMaintain _ (fun m hm' ↦ h.pass m (hm ▸ hm')) (by simp)
  | pingGiveStream hm =>
    exact (h.setConn (ages_useStream _ _)).setMaintain _ (fun m hm' ↦ h.pass m (hm ▸ hm')) (by simp)
  | pinged hm => exact h.setMaintain _ (fun m hm' ↦ h.pass m (hm ▸ hm')) (by simp)
  | @release c stage aborts n drops q next hm hput =>
    obtain ⟨hq, hsettings, hmaintain⟩ := h.put hput
    have hle := h.pass n (by rw [hm]; rfl)
    cases next with
    | none =>
      refine hq.setMaintain _ (pass_next aborts drops (hsettings ▸ hle)) ?_
      cases aborts <;> simp [MaintainPhase.next]
    | some stage' =>
      refine hq.setMaintain _ (fun m hm' ↦ ?_) (by simp)
      cases hm'
      exact hsettings ▸ hle
  | maintainEnds hm => exact h.setMaintain _ (by simp [MaintainPhase.poolSize?]) (by simp)

end Declining
/-- No step changes the settings. -/
theorem settings_eq {e : PoolEvent} (ht : Transition p e q) : q.settings = p.settings := by
  have hput {c : Nat} {stage : PutStage} {q' : Pool} {next : Option PutStage}
      (h : p.put c stage = some (q', next)) : q'.settings = p.settings := by
    rcases put_cases h with ⟨_, -, -, -, rfl⟩ | ⟨-, -, -, rfl⟩ | ⟨-, -, -, rfl⟩ <;> rfl
  cases ht with
  | push ht h =>
    have hq := hput h
    exact hq
  | release hm h =>
    have hq := hput h
    exact hq
  | sweep hl =>
    unfold sweep
    split
    · split <;> rfl
    · rfl
  | select hl =>
    unfold select
    split <;> rfl
  | scan hl hm =>
    unfold scan
    split
    · split
      · split <;> rfl
      · split <;> rfl
    · rfl
  | _ => rfl

/-- The pool has lost every connection, and `Init` makes no more. -/
def Exhausted (p : Pool) : Prop :=
  (∀ t < p.settings.minSize, p.connects t ≠ .connecting) ∧
    ∀ c < p.created, (p.conns c).destroyed = true

instance (p : Pool) : Decidable p.Exhausted := inferInstanceAs (Decidable (_ ∧ _))

section
variable {deletions : List Nat} {place : Nat → Place}

private theorem Placed.alive (h : p.Placed deletions place) {c : Nat} (hplace : place c ≠ .unborn)
    (hdeleted : place c ≠ .deleted) : c < p.created ∧ (p.conns c).destroyed = false := by
  refine ⟨Nat.lt_of_not_le fun hle ↦ hplace ((h.unborn c).mpr hle), ?_⟩
  by_contra hc
  exact hdeleted ((h.deleted c).mpr ((h.destroyed c).mp (by simpa using hc)))

/-- Nothing is in the vector or in the hands of a task. -/
theorem Exhausted.empty (hp : p.Exhausted) (h : p.Placed deletions place) :
    p.vector = [] ∧ ∀ a, p.owned a = none := by
  have hnone (c : Nat) (hplace : place c ≠ .unborn) (hdeleted : place c ≠ .deleted) : False := by
    obtain ⟨hlt, halive⟩ := h.alive hplace hdeleted
    rw [hp.2 c hlt] at halive
    cases halive
  constructor
  · refine List.eq_nil_iff_forall_not_mem.mpr fun c hc ↦ ?_
    have hplace := (h.vector c).mpr hc
    exact hnone c (by simp [hplace]) (by simp [hplace])
  · intro a
    cases ha : p.owned a with
    | none => rfl
    | some c =>
      have hplace := (h.held a c).mpr ha
      exact (hnone c (by simp [hplace]) (by simp [hplace])).elim

/-- What was destroyed stays destroyed, and nothing connects. -/
theorem Exhausted.frame (hp : p.Exhausted) (hsettings : q.settings = p.settings)
    (hconnects : q.connects = p.connects) (hcreated : q.created = p.created)
    (hconns : ∀ c, (p.conns c).destroyed = true → (q.conns c).destroyed = true) : q.Exhausted :=
  ⟨fun t ht ↦ hconnects ▸ hp.1 t (hsettings ▸ ht), fun c hc ↦ hconns c (hp.2 c (hcreated ▸ hc))⟩

private theorem Exhausted.setConn (hp : p.Exhausted) {c : Nat} {s : PoolConnection}
    (hs : s.destroyed = (p.conns c).destroyed) : (p.setConn c s).Exhausted := by
  refine hp.frame rfl rfl rfl fun d hd ↦ ?_
  rw [setConn_conns, Function.update_apply]
  split
  · next hdc => rw [hs, ← hdc, hd]
  · exact hd

private theorem Exhausted.useStream (hp : p.Exhausted) (c : Nat) (taken : Bool) :
    (p.useStream c taken).Exhausted := hp.setConn rfl

/-- A step of an exhausted pool leaves it so, and gives no call a connection. -/
theorem Exhausted.step (hp : p.Exhausted) (hplaced : p.Placed deletions place) (h : p.Declining)
    {e : PoolEvent} (ht : Transition p e q) :
    q.Exhausted ∧ ∀ i, (p.calls i).isEmpty = true → (q.calls i).isEmpty = true := by
  obtain ⟨hvector, howned⟩ := hp.empty hplaced
  have hmaintain := howned .maintain
  have hcall {i : Nat} {c : Nat} {s : Bool} {p' : Pool} (hi : p.calls i = .holding c s)
      (hcalls : p'.calls = p.calls) (phase : CallPhase) :
      ∀ j, (p.calls j).isEmpty = true → ((p'.setCall i phase).calls j).isEmpty = true := by
    intro j hj
    rw [setCall_calls, hcalls, Function.update_apply]
    split
    · next hji =>
      rw [hji, hi] at hj
      cases hj
    · exact hj
  cases ht with
  | connects ht => exact absurd ht (hp.1 _ (h.tasks _ ht))
  | connectFails ht => exact absurd ht (hp.1 _ (h.tasks _ ht))
  | @push t c stage q next ht hput =>
    have htask := howned (.connect t)
    rw [owned, ht] at htask
    cases htask
  | markBroken hc => exact ⟨hp.setConn rfl, fun _ hi ↦ hi⟩
  | acquire hi hready hl => exact ⟨hp.frame rfl rfl rfl fun _ hc ↦ hc, fun _ hi ↦ hi⟩
  | sweep hl =>
    unfold Pool.sweep
    rw [hvector]
    exact ⟨hp.frame rfl rfl rfl fun _ hc ↦ hc, fun _ hi ↦ hi⟩
  | @select i it best hl =>
    have hbest : best = none := by
      cases best with
      | none => rfl
      | some c =>
        have hc := h.best i it c hl
        rw [hvector] at hc
        cases hc
    unfold Pool.select
    rw [hvector, hbest]
    refine ⟨hp.frame rfl rfl rfl fun _ hc ↦ hc, fun j hj ↦ ?_⟩
    simp only [List.getElem?_nil, setCall_calls, Function.update_apply]
    split
    · rfl
    · exact hj
  | takeStream hi =>
    exact ⟨(hp.useStream _ _).frame rfl rfl rfl fun _ hc ↦ hc, hcall hi rfl _⟩
  | giveStream hi =>
    exact ⟨(hp.useStream _ _).frame rfl rfl rfl fun _ hc ↦ hc, hcall hi rfl _⟩
  | finish hi => exact ⟨hp.frame rfl rfl rfl fun _ hc ↦ hc, hcall hi rfl _⟩
  | maintain hm hready hl => exact ⟨hp.frame rfl rfl rfl fun _ hc ↦ hc, fun _ hi ↦ hi⟩
  | acquireImmediate hm hl => exact ⟨hp.frame rfl rfl rfl fun _ hc ↦ hc, fun _ hi ↦ hi⟩
  | scan hl hm =>
    unfold Pool.scan
    rw [hvector]
    exact ⟨hp.frame rfl rfl rfl fun _ hc ↦ hc, fun _ hi ↦ hi⟩
  | maintainEnds hm => exact ⟨hp.frame rfl rfl rfl fun _ hc ↦ hc, fun _ hi ↦ hi⟩
  | closes hm hn hdrops hidle =>
    rw [owned_maintain hm] at hmaintain
    cases hmaintain
  | pings hm =>
    rw [owned_maintain hm] at hmaintain
    cases hmaintain
  | close hm =>
    rw [owned_maintain hm] at hmaintain
    cases hmaintain
  | pingTakeStream hm =>
    rw [owned_maintain hm] at hmaintain
    cases hmaintain
  | pingGiveStream hm =>
    rw [owned_maintain hm] at hmaintain
    cases hmaintain
  | pinged hm =>
    rw [owned_maintain hm] at hmaintain
    cases hmaintain
  | release hm hput =>
    rw [owned_maintain hm] at hmaintain
    cases hmaintain

end

/-- What every run keeps: the invariant, and one place for each connection. -/
private def Kept (settings : PoolSettings) (p : Pool) : Prop :=
  p.settings = settings ∧ p.Declining ∧ ∃ deletions place, p.Placed deletions place

private theorem Kept.step {settings : PoolSettings} (h : Kept settings p) {e : PoolEvent}
    (hstep : p.step e = some q) : Kept settings q := by
  obtain ⟨hsettings, hdeclining, deletions, place, hplaced⟩ := h
  have ht := transition_of_step hstep
  have hlife : PoolLife.step ⟨p, .alive⟩ (.run e) = some ⟨q, .alive⟩ := by
    simp [PoolLife.step, hstep]
  obtain ⟨place', hplaced'⟩ := PoolLife.placed_step hplaced hlife
  refine ⟨(settings_eq ht).trans hsettings, hdeclining.step hplaced.nodup (fun c hc ↦ ?_) ht, _, _,
    hplaced'⟩
  have hplace := (hplaced.vector c).mpr hc
  exact (hplaced.alive (by simp [hplace]) (by simp [hplace])).1

/-- In every run of a pool, whatever its connections do, at most `min_size` connections are ever
created, one is closed or deleted only when it is broken, and once all of them are lost no call
gets one any more: a call that acquires dereferences a null pointer. -/
theorem lost_for_good {settings : PoolSettings} {p₀ p q : Pool} (hinit : init settings = .ok p₀)
    (hp : Reaches step (fun _ _ ↦ True) p₀ p) (hq : Reaches step (fun _ _ ↦ True) p q) :
    (p.created ≤ settings.minSize ∧
      ∀ c, (p.conns c).destroyed = true → (p.conns c).broken = true) ∧
    (p.Exhausted → q.Exhausted ∧
      ∀ i, p.calls i = .idle → q.calls i = .idle ∨ q.calls i = .dereferencedNull) := by
  have hkept : Kept settings p := by
    rw [init_eq_ok hinit] at hp
    refine hp.invariant (P := Kept settings) ⟨rfl, .started settings, _, _, .started settings⟩ ?_
    exact fun s e s' hs _ hstep ↦ hs.step hstep
  obtain ⟨hsettings, hdeclining, -⟩ := id hkept
  refine ⟨⟨hsettings ▸ hdeclining.created_le, hdeclining.lost⟩, fun hexhausted ↦ ?_⟩
  have hrun : Kept settings q ∧ q.Exhausted ∧
      ∀ i, (p.calls i).isEmpty = true → (q.calls i).isEmpty = true := by
    refine hq.invariant (P := fun q ↦ Kept settings q ∧ q.Exhausted ∧
      ∀ i, (p.calls i).isEmpty = true → (q.calls i).isEmpty = true)
      ⟨hkept, hexhausted, fun _ hi ↦ hi⟩ ?_
    rintro s e s' ⟨hs, hlost, hcalls⟩ - hstep
    obtain ⟨-, hdeclining', deletions, place, hplaced⟩ := id hs
    obtain ⟨hlost', hcalls'⟩ := hlost.step hplaced hdeclining' (transition_of_step hstep)
    exact ⟨hs.step hstep, hlost', fun i hi ↦ hcalls' i (hcalls i hi)⟩
  exact ⟨hrun.2.1, fun i hi ↦ CallPhase.isEmpty_iff.mp (hrun.2.2 i (by rw [hi]; rfl))⟩

/-- The only connection breaks and is deleted by one call; neither that one nor the next gets a
connection. -/
theorem lost_for_good_oneConnection : ∃ p q : Pool, p.Exhausted ∧ p.calls 1 = .idle ∧
    q.calls 1 ≠ .idle ∧ (q.calls 1 = .idle ∨ q.calls 1 = .dereferencedNull) := by
  have hinit : init oneConnection = .ok (Pool.started oneConnection) := rfl
  obtain ⟨p, hp, hlost, hidle, hrun⟩ := Reaches.exists_of_runIf step (fun _ _ ↦ True)
    (Pool.started oneConnection)
    (connectOne ++ [.markBroken 0, .acquire 0, .sweep, .sweep, .select])
    (fun p ↦ p.Exhausted ∧ p.calls 1 = .idle ∧
      (runIf step (fun _ _ ↦ True) p [.acquire 1, .sweep, .select]).any
        (fun q ↦ q.calls 1 ≠ .idle) = true) (by decide +kernel)
  obtain ⟨q, hq, hnext⟩ := Reaches.exists_of_runIf step (fun _ _ ↦ True) p
    [.acquire 1, .sweep, .select] (fun q ↦ q.calls 1 ≠ .idle) hrun
  exact ⟨p, q, hlost, hidle, hnext, ((lost_for_good hinit hp hq).2 hlost).2 1 hidle⟩

end Pool
end CassandraDriver.Detail
