import Mathlib.Data.List.Nodup
import CassandraDriver.Detail.Pool

/-!
# Connections of the pool stay alive

Library `Detail`. Every connection is in one place, the vector or the hands of one task, and
what a call was given stays alive in the runs in which the pool's tests find it in use.
-/

namespace CassandraDriver.Detail
open CassandraDriver.Lib

/-- The tasks that have a connection to themselves. -/
inductive Owner
  | maintain
  | connect (task : Nat)
  deriving DecidableEq, Repr

namespace Pool

variable {p : Pool}

/-- The connection in the hands of a task. -/
def owned (p : Pool) : Owner → Option Nat
  | .maintain => p.maintain.conn?
  | .connect t => (p.connects t).conn?

/-- A pass owns the connection that its phase names. -/
theorem owned_maintain {m : MaintainPhase} (hm : p.maintain = m) :
    p.owned .maintain = m.conn? := by
  rw [owned, hm]

/-- Some call has the connection from `Acquire` and is not over. -/
def Held (p : Pool) (c : Nat) : Prop := ∃ i streaming, p.calls i = .holding c streaming

/-- The connection is neither in the vector nor in the hands of a task. -/
def Free (p : Pool) (c : Nat) : Prop := c ∉ p.vector ∧ ∀ a, p.owned a ≠ some c

/-- The connection has been created and not destroyed. -/
def Alive (p : Pool) (c : Nat) : Prop := c < p.created ∧ (p.conns c).destroyed = false

/-- No connection is in two places, everything in a place or with a call is alive, the
selection of `Acquire` chooses from the vector, and what is about to be closed is not held. -/
structure Live (p : Pool) : Prop where
  nodup : p.vector.Nodup
  apart : ∀ a c, p.owned a = some c → c ∉ p.vector
  single : ∀ a b c, p.owned a = some c → p.owned b = some c → a = b
  vector : ∀ c ∈ p.vector, p.Alive c
  taken : ∀ a c, p.owned a = some c → p.Alive c
  held : ∀ c, p.Held c → p.Alive c
  uncreated : ∀ c, p.created ≤ c → (p.conns c).destroyed = false
  best : ∀ i it c, p.locked = .selecting i it (some c) → c ∈ p.vector
  closing : ∀ c n drops, p.maintain = .closing c n drops → ¬ p.Held c

private theorem live_started (settings : PoolSettings) : (started settings).Live := by
  have howned : ∀ a c, (started settings).owned a ≠ some c := by
    rintro (_ | t) c hc
    · cases hc
    · simp only [owned, started] at hc
      split at hc <;> cases hc
  refine ⟨List.nodup_nil, ?_, ?_, ?_, ?_, ?_, fun _ _ ↦ rfl, ?_, ?_⟩
  · intro a c hc
    exact absurd hc (howned a c)
  · intro a b c hc
    exact absurd hc (howned a c)
  · intro c hc
    cases hc
  · intro a c hc
    exact absurd hc (howned a c)
  · rintro c ⟨i, streaming, hc⟩
    cases hc
  · intro i it c hc
    cases hc
  · intro c n drops hc
    cases hc

namespace Live

/-- The lock changes hands, or its section goes on. -/
theorem setLocked (h : p.Live) (l : LockedSection)
    (hl : ∀ i it c, l = .selecting i it (some c) → c ∈ p.vector) : { p with locked := l }.Live :=
  { h with best := hl }

/-- A connection is marked broken, or a stream of it is used. -/
theorem setConn (h : p.Live) {c : Nat} {s : PoolConnection} (hc : c < p.created)
    (hs : s.destroyed = (p.conns c).destroyed) : (p.setConn c s).Live := by
  have hd : ∀ d, ((p.setConn c s).conns d).destroyed = (p.conns d).destroyed := by
    intro d
    by_cases hdc : d = c
    · subst hdc
      rw [setConn_conns, Function.update_self, hs]
    · rw [setConn_conns, Function.update_of_ne hdc]
  have ha : ∀ d, p.Alive d → (p.setConn c s).Alive d := fun d hd' ↦ ⟨hd'.1, (hd d).trans hd'.2⟩
  exact { h with
    vector := fun d hv ↦ ha d (h.vector d hv)
    taken := fun a d ht ↦ ha d (h.taken a d ht)
    held := fun d hh ↦ ha d (h.held d hh)
    uncreated := fun d hu ↦ (hd d).trans (h.uncreated d hu) }

/-- A connection that nobody has is destroyed. -/
theorem destroy (h : p.Live) {c : Nat} (hc : c < p.created) (hfree : p.Free c)
    (hheld : ¬ p.Held c) : (p.destroy c).Live := by
  have hne : ∀ d, d ≠ c → (p.destroy c).conns d = p.conns d := fun d hd ↦
    Function.update_of_ne hd ..
  have ha : ∀ d, d ≠ c → p.Alive d → (p.destroy c).Alive d := by
    intro d hd halive
    refine ⟨halive.1, ?_⟩
    rw [hne d hd]
    exact halive.2
  exact { h with
    vector := fun d hv ↦ ha d (fun he ↦ hfree.1 (he ▸ hv)) (h.vector d hv)
    taken := fun a d ht ↦ ha d (fun he ↦ hfree.2 a (he ▸ ht)) (h.taken a d ht)
    held := fun d hh ↦ ha d (fun he ↦ hheld (he ▸ hh)) (h.held d hh)
    uncreated := by
      intro d hu
      have hdc : d ≠ c := by
        rintro rfl
        exact absurd hc (Nat.not_lt.mpr hu)
      rw [hne d hdc]
      exact h.uncreated d hu }

/-- A pointer is erased from the vector outside the selection. -/
theorem eraseIdx (h : p.Live) (it : Nat)
    (hl : ∀ i k c, p.locked ≠ .selecting i k (some c)) :
    { p with vector := p.vector.eraseIdx it }.Live := by
  have hsub : ∀ c ∈ p.vector.eraseIdx it, c ∈ p.vector := fun c hc ↦
    (List.eraseIdx_sublist p.vector it).subset hc
  exact { h with
    nodup := h.nodup.sublist (List.eraseIdx_sublist p.vector it)
    apart := fun a c ht hv ↦ h.apart a c ht (hsub c hv)
    vector := fun c hv ↦ h.vector c (hsub c hv)
    best := fun i k c hb ↦ absurd hb (hl i k c) }

/-- A connection that nobody has joins the vector. -/
theorem pushBack (h : p.Live) {c : Nat} (hfree : p.Free c) (halive : p.Alive c) :
    { p with vector := p.vector ++ [c] }.Live := by
  have hmem : ∀ d, d ∈ p.vector ++ [c] ↔ d ∈ p.vector ∨ d = c := fun d ↦ by simp
  exact { h with
    nodup := List.nodup_append'.mpr
      ⟨h.nodup, List.nodup_singleton c, List.disjoint_singleton.mpr hfree.1⟩
    apart := by
      intro a d ht hv
      rcases (hmem d).mp hv with hv | rfl
      · exact h.apart a d ht hv
      · exact hfree.2 a ht
    vector := by
      intro d hv
      rcases (hmem d).mp hv with hv | rfl
      · exact h.vector d hv
      · exact halive
    best := fun i k d hb ↦ (hmem d).mpr (.inl (h.best i k d hb)) }

/-- A task lets its connection go, or takes one that nobody has. -/
theorem setOwner (h : p.Live) {q : Pool} (a : Owner) (hvector : q.vector = p.vector)
    (hcreated : q.created = p.created) (hconns : q.conns = p.conns)
    (hlocked : q.locked = p.locked) (hcalls : q.calls = p.calls)
    (hother : ∀ b, b ≠ a → q.owned b = p.owned b)
    (hown : ∀ c, q.owned a = some c → p.owned a = some c ∨ p.Free c ∧ p.Alive c)
    (hclosing : ∀ c n drops, q.maintain = .closing c n drops → ¬ q.Held c) : q.Live := by
  have halive : ∀ c, q.Alive c ↔ p.Alive c := by
    intro c
    rw [Alive, Alive, hcreated, hconns]
  have howned : ∀ b c, q.owned b = some c → p.owned b = some c ∨
      b = a ∧ p.Free c ∧ p.Alive c := by
    intro b c hb
    by_cases hba : b = a
    · subst hba
      exact (hown c hb).imp_right (⟨rfl, ·⟩)
    · exact .inl (hother b hba ▸ hb)
  refine ⟨hvector ▸ h.nodup, ?_, ?_, ?_, ?_, ?_, ?_, ?_, hclosing⟩
  · intro b c hb
    rw [hvector]
    rcases howned b c hb with hb | ⟨-, hfree, -⟩
    · exact h.apart b c hb
    · exact hfree.1
  · intro b b' c hb hb'
    rcases howned b c hb with hp | ⟨rfl, hfree, -⟩ <;>
      rcases howned b' c hb' with hp' | ⟨rfl, hfree', -⟩
    · exact h.single b b' c hp hp'
    · exact absurd hp (hfree'.2 b)
    · exact absurd hp' (hfree.2 b')
    · rfl
  · intro c hc
    rw [halive]
    exact h.vector c (hvector ▸ hc)
  · intro b c hb
    rw [halive]
    rcases howned b c hb with hb | ⟨-, -, hc⟩
    · exact h.taken b c hb
    · exact hc
  · rintro c ⟨i, streaming, hc⟩
    rw [halive]
    exact h.held c ⟨i, streaming, hcalls ▸ hc⟩
  · intro c hc
    rw [hconns]
    exact h.uncreated c (hcreated ▸ hc)
  · intro i it c hc
    rw [hvector]
    exact h.best i it c (hlocked ▸ hc)

/-- `Maintain` moves on. -/
theorem setMaintain (h : p.Live) (m : MaintainPhase)
    (hm : ∀ c, m.conn? = some c → p.maintain.conn? = some c ∨ p.Free c ∧ p.Alive c)
    (hclosing : ∀ c n drops, m = .closing c n drops → ¬ p.Held c) :
    { p with maintain := m }.Live := by
  refine h.setOwner .maintain rfl rfl rfl rfl rfl ?_ hm hclosing
  rintro (_ | t) hb
  · exact absurd rfl hb
  · rfl

/-- A connect task moves on. -/
theorem setConnect (h : p.Live) (t : Nat) (phase : ConnectPhase)
    (hphase : ∀ c, phase.conn? = some c →
      (p.connects t).conn? = some c ∨ p.Free c ∧ p.Alive c) : (p.setConnect t phase).Live := by
  refine h.setOwner (.connect t) rfl rfl rfl rfl rfl ?_ ?_ h.closing
  · rintro (_ | t') hb
    · rfl
    · have hne : t' ≠ t := fun he ↦ hb (he ▸ rfl)
      simp only [owned, Pool.setConnect, Function.update_of_ne hne]
  · intro c hc
    simp only [owned, Pool.setConnect, Function.update_self] at hc
    exact hphase c hc

/-- A call moves on. -/
theorem setCall (h : p.Live) (i : Nat) (phase : CallPhase)
    (hphase : ∀ c streaming, phase = .holding c streaming → p.Held c ∨ c ∈ p.vector) :
    (p.setCall i phase).Live := by
  have hheld : ∀ c, (p.setCall i phase).Held c → p.Held c ∨ c ∈ p.vector := by
    rintro c ⟨j, streaming, hj⟩
    by_cases hji : j = i
    · subst hji
      rw [setCall_calls, Function.update_self] at hj
      exact hphase c streaming hj
    · rw [setCall_calls, Function.update_of_ne hji] at hj
      exact .inl ⟨j, streaming, hj⟩
  exact { h with
    held := by
      intro c hc
      rcases hheld c hc with hc | hc
      · exact h.held c hc
      · exact h.vector c hc
    closing := by
      intro c n drops hm hc
      rcases hheld c hc with hc | hc
      · exact h.closing c n drops hm hc
      · have howned : p.owned .maintain = some c := by
          change (p.setCall i phase).maintain.conn? = some c
          rw [hm]
          rfl
        exact h.apart .maintain c howned hc }

/-- What a task lets go of is in no place. -/
theorem free (h : p.Live) {q : Pool} {a : Owner} {c : Nat} (hc : p.owned a = some c)
    (hvector : q.vector = p.vector) (hother : ∀ b, b ≠ a → q.owned b = p.owned b)
    (ha : q.owned a = none) : q.Free c := by
  refine ⟨hvector ▸ h.apart a c hc, fun b hb ↦ ?_⟩
  by_cases hba : b = a
  · subst hba
    rw [ha] at hb
    cases hb
  · rw [hother b hba] at hb
    exact hba (h.single b a c hb hc)

/-- A pointer that is erased is in no place. -/
theorem free_eraseIdx (h : p.Live) {it c : Nat} (hc : p.vector[it]? = some c) :
    { p with vector := p.vector.eraseIdx it }.Free c := by
  obtain ⟨hlt, hget⟩ := List.getElem?_eq_some_iff.mp hc
  refine ⟨fun hm ↦ ?_, fun a ha ↦ h.apart a c ha (List.mem_of_getElem? hc)⟩
  obtain ⟨k, hk, hne, hck⟩ := List.mem_eraseIdx_iff_getElem.mp hm
  exact hne ((h.nodup.getElem_inj_iff).mp (hck.trans hget.symm))

/-- A connection of the vector is deleted. -/
theorem dropAt (h : p.Live) {it c : Nat} (hc : p.vector[it]? = some c)
    (hl : ∀ i k d, p.locked ≠ .selecting i k (some d)) (hheld : ¬ p.Held c) :
    (p.dropAt it c).Live :=
  (h.eraseIdx it hl).destroy (h.vector c (List.mem_of_getElem? hc)).1 (h.free_eraseIdx hc) hheld

private theorem not_held {c : Nat} (hok : p.Held c → (p.conns c).isDoomed = false)
    (hdoom : (p.conns c).isDoomed = true) : ¬ p.Held c := by
  intro hh
  rw [hok hh] at hdoom
  cases hdoom

/-- A round of `Maintain` ends. -/
theorem leave (h : p.Live) (aborts : Bool) (n drops : Nat) :
    { p with maintain := MaintainPhase.next aborts n drops }.Live := by
  refine h.setMaintain _ ?_ ?_
  · simp
  · cases aborts <;> simp [MaintainPhase.next]

private theorem free_leave (h : p.Live) {c : Nat} (hc : p.owned .maintain = some c) (aborts : Bool)
    (n drops : Nat) : { p with maintain := MaintainPhase.next aborts n drops }.Free c := by
  refine h.free hc rfl ?_ ?_
  · rintro (_ | t) hb
    · exact absurd rfl hb
    · rfl
  · exact MaintainPhase.conn?_next aborts n drops

private theorem sweep (h : p.Live) {i it : Nat} (hl : p.locked = .sweeping i it)
    (hok : ∀ c, p.vector[it]? = some c → p.Held c → (p.conns c).isDoomed = false) :
    (p.sweep i it).Live := by
  unfold Pool.sweep
  split
  · next c hc =>
    split
    · next hdoom =>
      refine h.dropAt hc (fun j k d hs ↦ ?_) (not_held (hok c hc) hdoom)
      rw [hl] at hs
      cases hs
    · exact h.setLocked _ (by simp)
  · exact h.setLocked _ (by simp)

/-- The less loaded of two connections is one of them. -/
theorem lessLoaded_mem {conns : Nat → PoolConnection} {best : Option Nat} {c d : Nat}
    (h : lessLoaded conns best c = some d) : d = c ∨ best = some d := by
  unfold lessLoaded at h
  split at h
  · exact .inr h
  · split at h
    · cases h
      exact .inl rfl
    · split at h
      · cases h
        exact .inl rfl
      · exact .inr h

private theorem select (h : p.Live) {i it : Nat} {best : Option Nat}
    (hl : p.locked = .selecting i it best) : (p.select i it best).Live := by
  unfold Pool.select
  split
  · next c hc =>
    refine h.setLocked _ (fun j k d hs ↦ ?_)
    injection hs with _ _ hbest
    rcases lessLoaded_mem hbest with rfl | hbest
    · exact List.mem_of_getElem? hc
    · exact h.best i it d (hbest ▸ hl)
  · refine Live.setCall (h.setLocked .free (by simp)) i _ ?_
    intro c streaming hphase
    cases best with
    | none => cases hphase
    | some b =>
      cases hphase
      exact .inr (h.best i it c hl)

private theorem scan (h : p.Live) {it n drops : Nat} (hl : p.locked = .scanning it)
    (hok : ∀ c, p.vector[it]? = some c → p.Held c → (p.conns c).isDoomed = false) :
    (p.scan it n drops).Live := by
  have hsel : ∀ i k d, p.locked ≠ .selecting i k (some d) := fun i k d hs ↦ by
    rw [hl] at hs
    cases hs
  unfold Pool.scan
  split
  · next c hc =>
    split
    · next hexpired =>
      split
      · next hidle =>
        refine h.dropAt hc hsel (not_held (hok c hc) ?_)
        simp [PoolConnection.isDoomed, hexpired, hidle]
      · exact h.setLocked _ (by simp)
    · split
      · next hbroken =>
        refine h.dropAt hc hsel (not_held (hok c hc) ?_)
        simp [PoolConnection.isDoomed, hbroken]
      · -- The pointer leaves the vector, and `Maintain` has the connection to itself.
        have herased := (h.eraseIdx it hsel).setLocked .free (by simp)
        refine herased.setMaintain (.testing c n drops) ?_ (by simp)
        rintro d ⟨⟩
        exact .inr ⟨h.free_eraseIdx hc, h.vector c (List.mem_of_getElem? hc)⟩
  · have hfree := h.setLocked .free (by simp)
    exact hfree.setMaintain .sleeping (by simp [MaintainPhase.conn?]) (by simp)

/-- A connect succeeds. -/
theorem connected (h : p.Live) (t : Nat) :
    ({ p with created := p.created + 1 }.setConnect t (.putting p.created .push)).Live := by
  have hfree : p.Free p.created := by
    refine ⟨fun hm ↦ Nat.lt_irrefl _ (h.vector _ hm).1, fun a ha ↦ ?_⟩
    exact Nat.lt_irrefl _ (h.taken a _ ha).1
  have halive : ∀ c, p.Alive c → { p with created := p.created + 1 }.Alive c := fun c hc ↦
    ⟨Nat.lt_succ_of_lt hc.1, hc.2⟩
  have hmore : { p with created := p.created + 1 }.Live := { h with
    vector := fun c hc ↦ halive c (h.vector c hc)
    taken := fun a c hc ↦ halive c (h.taken a c hc)
    held := fun c hc ↦ halive c (h.held c hc)
    uncreated := fun c hc ↦ h.uncreated c (Nat.le_of_succ_le hc) }
  refine hmore.setConnect t _ ?_
  rintro c ⟨⟩
  exact .inr ⟨hfree, Nat.lt_succ_self _, h.uncreated _ (Nat.le_refl _)⟩

/-- A call takes or gives back a stream. -/
theorem useStream (h : p.Live) {i c : Nat} {streaming : Bool}
    (hi : p.calls i = .holding c streaming) (taken streaming' : Bool) :
    ((p.useStream c taken).setCall i (.holding c streaming')).Live := by
  have hheld : p.Held c := ⟨i, streaming, hi⟩
  have hused : (p.useStream c taken).Live := h.setConn (h.held c hheld).1 rfl
  refine hused.setCall i _ ?_
  rintro d s ⟨⟩
  exact .inl hheld

/-- A ping takes or gives back a stream. -/
theorem ping (h : p.Live) {c n drops : Nat} {streaming : Bool}
    (hm : p.maintain = .pinging c streaming n drops) (taken streaming' : Bool) :
    { p.useStream c taken with maintain := .pinging c streaming' n drops }.Live := by
  have howned : p.owned .maintain = some c := owned_maintain hm
  have hused : (p.useStream c taken).Live := h.setConn (h.taken _ c howned).1 rfl
  refine hused.setMaintain _ ?_ (by simp)
  rintro d ⟨⟩
  exact .inl howned

/-- A connect task goes on with `Push`. -/
theorem push (h : p.Live) {q : Pool} {t c : Nat} {stage : PutStage} {next : Option PutStage}
    (hc : p.connects t = .putting c stage) (hput : p.put c stage = some (q, next))
    (hok : stage ≠ .pushBack → p.Held c → (p.conns c).isDoomed = false) :
    (q.setConnect t (next.elim .ended (.putting c))).Live := by
  have howned : p.owned (.connect t) = some c := by
    simp only [owned, hc, ConnectPhase.conn?]
  have halive := h.taken _ c howned
  have hended : (p.setConnect t .ended).Live :=
    h.setConnect t .ended (by simp [ConnectPhase.conn?])
  have hfree : (p.setConnect t .ended).Free c := by
    refine h.free howned rfl ?_ ?_
    · rintro (_ | t') hb
      · rfl
      · have hne : t' ≠ t := fun he ↦ hb (he ▸ rfl)
        simp only [owned, setConnect_connects, Function.update_of_ne hne]
    · simp only [owned, setConnect_connects, Function.update_self, ConnectPhase.conn?]
  rcases put_cases hput with
    ⟨stage', rfl, -, -, rfl⟩ | ⟨rfl, hstage, hdoom, rfl⟩ | ⟨rfl, -, -, rfl⟩
  · refine h.setConnect t _ ?_
    rintro d ⟨⟩
    exact .inl (by rw [hc]; rfl)
  · exact hended.destroy halive.1 hfree (not_held (hok hstage) hdoom)
  · exact hended.pushBack hfree halive

/-- `Maintain` goes on with `Release`. -/
theorem release (h : p.Live) {q : Pool} {c n drops : Nat} {aborts : Bool} {stage : PutStage}
    {next : Option PutStage} (hc : p.maintain = .releasing c stage aborts n drops)
    (hput : p.put c stage = some (q, next))
    (hok : stage ≠ .pushBack → p.Held c → (p.conns c).isDoomed = false) :
    { q with
      maintain := next.elim (MaintainPhase.next aborts n drops)
        (fun stage ↦ .releasing c stage aborts n drops) }.Live := by
  have howned : p.owned .maintain = some c := owned_maintain hc
  have halive := h.taken _ c howned
  have hended := h.leave aborts n drops
  have hfree := h.free_leave howned aborts n drops
  rcases put_cases hput with
    ⟨stage', rfl, -, -, rfl⟩ | ⟨rfl, hstage, hdoom, rfl⟩ | ⟨rfl, -, -, rfl⟩
  · refine h.setMaintain _ ?_ (by simp)
    rintro d ⟨⟩
    exact .inl howned
  · exact hended.destroy halive.1 hfree (not_held (hok hstage) hdoom)
  · exact hended.pushBack hfree halive

end Live

/-- The connection that a step puts to the test of `Acquire`, `Push` or `Release`. -/
def tested (p : Pool) : PoolEvent → Option Nat
  | .sweep =>
    match p.locked with
    | .sweeping _ it => p.vector[it]?
    | _ => none
  | .scan =>
    match p.locked with
    | .scanning it => p.vector[it]?
    | _ => none
  | .push t =>
    match p.connects t with
    | .putting c stage => if stage = .pushBack then none else some c
    | _ => none
  | .release =>
    match p.maintain with
    | .releasing c stage .. => if stage = .pushBack then none else some c
    | _ => none
  | _ => none

/-- A connection that a call holds is not broken (nor expired and idle) when it is tested,
and has a stream in use when `Maintain` may drop it for being idle. -/
structure HeldInUse (p : Pool) (e : PoolEvent) : Prop where
  tested : ∀ c, p.tested e = some c → p.Held c → (p.conns c).isDoomed = false
  idleTest : e = .idleTest → ∀ c n drops, p.maintain = .testing c n drops →
    n > p.settings.minSize → drops > 0 → p.Held c → (p.conns c).isIdle = false

/-- A step that meets the condition keeps everything alive. -/
theorem Live.step {q : Pool} {e : PoolEvent} (h : p.Live) (hok : p.HeldInUse e)
    (hstep : p.step e = some q) : q.Live := by
  cases transition_of_step hstep with
  | connects => exact h.connected _
  | connectFails => exact h.setConnect _ .ended (by simp [ConnectPhase.conn?])
  | push ht hput =>
    refine h.push ht hput (fun hstage ↦ hok.tested _ ?_)
    simp only [Pool.tested, ht, hstage, if_false]
  | markBroken hc => exact h.setConn hc rfl
  | acquire => exact h.setLocked _ (by simp)
  | sweep hl =>
    refine h.sweep hl (fun c hc ↦ hok.tested c ?_)
    simp only [Pool.tested, hl, hc]
  | select hl => exact h.select hl
  | takeStream hi => exact h.useStream hi true true
  | giveStream hi => exact h.useStream hi false false
  | finish => exact h.setCall _ .over (by simp)
  | maintain => exact h.setMaintain _ (by simp [MaintainPhase.conn?]) (by simp)
  | acquireImmediate => exact h.setLocked _ (by simp)
  | scan hl =>
    refine h.scan hl (fun c hc ↦ hok.tested c ?_)
    simp only [Pool.tested, hl, hc]
  | closes hm hn hdrops hidle =>
    refine h.setMaintain _ (fun d hd ↦ .inl (hm ▸ hd)) ?_
    rintro d n drops ⟨⟩ hheld
    have hbusy := hok.idleTest rfl _ _ _ hm hn hdrops hheld
    rw [hidle] at hbusy
    cases hbusy
  | pings hm =>
    exact h.setMaintain _ (fun d hd ↦ .inl (hm ▸ hd)) (by simp)
  | close hm =>
    have howned := owned_maintain hm
    exact (h.leave _ _ _).destroy (h.taken _ _ howned).1 (h.free_leave howned _ _ _)
      (h.closing _ _ _ hm)
  | pingTakeStream hm => exact h.ping hm true true
  | pingGiveStream hm => exact h.ping hm false false
  | pinged hm =>
    exact h.setMaintain _ (fun d hd ↦ .inl (hm ▸ hd)) (by simp)
  | release hm hput =>
    refine h.release hm hput (fun hstage ↦ hok.tested _ ?_)
    simp only [Pool.tested, hm, hstage, if_false]
  | maintainEnds => exact h.setMaintain _ (by simp [MaintainPhase.conn?]) (by simp)

/-- In every run whose steps meet the condition, no call ever holds a connection that has
been closed or deleted. -/
theorem held_not_destroyed {settings : PoolSettings} {p₀ : Pool} (hinit : init settings = .ok p₀)
    (hrun : Reaches step HeldInUse p₀ p) :
    ∀ i c streaming, p.calls i = .holding c streaming → (p.conns c).destroyed = false := by
  have hlive : p.Live := by
    refine hrun.invariant ?_ (fun s e s' h hok hstep ↦ h.step hok hstep)
    rw [init_eq_ok hinit]
    exact live_started settings
  intro i c streaming hi
  exact (hlive.held c ⟨i, streaming, hi⟩).2

/-- One connection, made in the background. -/
def oneConnection : PoolSettings := ⟨1, 1, true⟩

/-- A call enters `Acquire` of a pool with one connection and leaves it. -/
def acquireOne (i : Nat) : List PoolEvent := [.acquire i, .sweep, .sweep, .select, .select]

/-- The connect of `Init` succeeds, and `Push` tests and stores the connection. -/
def connectOne : List PoolEvent := [.connect 0 true, .push 0, .push 0]

private def NothingDoomed (p : Pool) (e : PoolEvent) : Prop :=
  e ≠ .idleTest ∧ (p.tested e).all (fun c ↦ !(p.conns c).isDoomed) = true

private instance (p : Pool) (e : PoolEvent) : Decidable (p.NothingDoomed e) :=
  inferInstanceAs (Decidable (_ ∧ _))

private theorem NothingDoomed.heldInUse {e : PoolEvent} (h : p.NothingDoomed e) :
    p.HeldInUse e := by
  refine ⟨fun c hc _ ↦ ?_, fun he ↦ absurd he h.1⟩
  have hall := h.2
  rw [hc] at hall
  simpa using hall

/-- Two calls share a connection, and it lives. -/
theorem held_not_destroyed_twoCalls : ∃ p, Reaches step HeldInUse (started oneConnection) p ∧
    p.calls 1 = .holding 0 true ∧ (p.conns 0).destroyed = false := by
  obtain ⟨p, hp, h1⟩ := Reaches.exists_of_runIf step NothingDoomed (started oneConnection)
    (connectOne ++ acquireOne 0 ++ acquireOne 1 ++ [.takeStream 0, .takeStream 1])
    (fun p ↦ p.calls 1 = .holding 0 true) (by decide +kernel)
  have hinit : init oneConnection = .ok (started oneConnection) := rfl
  have hrun := hp.mono (fun _ _ ↦ NothingDoomed.heldInUse)
  exact ⟨p, hrun, h1, held_not_destroyed hinit hrun 1 0 true h1⟩

/-- Two calls share a connection; the first times out and marks it broken, and a third call
deletes it in its `Acquire` while the second still waits for its answer. -/
theorem sharedConnection_deleted : ¬ ∀ (settings : PoolSettings) (p₀ p : Pool),
    init settings = .ok p₀ → Reaches step (fun _ _ ↦ True) p₀ p →
    ∀ i c streaming, p.calls i = .holding c streaming → (p.conns c).destroyed = false := by
  intro h
  obtain ⟨p, hp, h1, hd⟩ := Reaches.exists_of_runIf step (fun _ _ ↦ True) (started oneConnection)
    (connectOne ++ acquireOne 0 ++ acquireOne 1 ++ [.takeStream 0, .takeStream 1, .markBroken 0,
      .giveStream 0, .finish 0, .acquire 2, .sweep])
    (fun p ↦ p.calls 1 = .holding 0 true ∧ (p.conns 0).destroyed = true) (by decide +kernel)
  rw [h oneConnection _ p rfl hp 1 0 true h1] at hd
  cases hd

end Pool
end CassandraDriver.Detail
