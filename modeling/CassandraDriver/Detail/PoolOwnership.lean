import CassandraDriver.Detail.PoolLive

/-!
# Single ownership of the pool's connections

Library `Detail`. The pool together with its destructor, `src/detail/connection_pool.cpp:249–264`.
An abstract map gives every connection one place, and each step of the pool moves at most the
connections it deletes, pushes or takes; hence no connection is in two places or deleted twice.
Nothing in the repository makes a connection expire, but here it may happen at any time.
-/

namespace CassandraDriver.Detail
open CassandraDriver.Lib

/-- `~ConnectionPool`, `connection_pool.cpp:249`: not begun, or past `_maintain_task.Stop()`,
past `_connect_task_storage.CancelAndWait()`, past the loop of `Clear`. -/
inductive Teardown
  | alive | maintainStopped | connectsStopped | cleared
  deriving DecidableEq, Repr

/-- A pool up to its destruction. -/
structure PoolLife where
  pool : Pool
  teardown : Teardown

/-- What can happen next. -/
inductive LifeEvent
  | run (event : PoolEvent)
  /-- `IsExpired` of a connection turns true. -/
  | expire (conn : Nat)
  | stopMaintain
  | stopConnects
  | clear
  deriving DecidableEq, Repr

/-- The locked loop of `ConnectionPool::Clear`, `connection_pool.cpp:257–261`. -/
def Pool.clear (p : Pool) : Pool := { p.vector.foldl Pool.destroy p with vector := [] }

/-- The calls of `DeleteConnection`, `connection_pool.cpp:518`, that a step makes. -/
def Pool.deletes (p : Pool) : PoolEvent → List Nat
  | .sweep =>
    match p.locked with
    | .sweeping _ it => p.vector[it]?.toList.filter (fun c ↦ (p.conns c).isDoomed)
    | _ => []
  | .scan =>
    match p.locked with
    | .scanning it => p.vector[it]?.toList.filter (fun c ↦
        if (p.conns c).expired then (p.conns c).isIdle else (p.conns c).broken)
    | _ => []
  | .push t =>
    match p.connects t with
    | .putting c stage => if stage ≠ .pushBack ∧ (p.conns c).isDoomed then [c] else []
    | _ => []
  | .release =>
    match p.maintain with
    | .releasing c stage .. => if stage ≠ .pushBack ∧ (p.conns c).isDoomed then [c] else []
    | _ => []
  | .close _ =>
    match p.maintain with
    | .closing c .. => [c]
    | _ => []
  | _ => []

namespace PoolLife

/-- One step. `Stop` waits for a pass of `Maintain` to end and `CancelAndWait` for the connect
tasks; no pass begins after the first, and nothing runs after `Clear`. -/
def step (l : PoolLife) : LifeEvent → Option PoolLife
  | .run e =>
    if l.teardown = .cleared ∨ (l.teardown ≠ .alive ∧ e = .maintain) then none
    else (l.pool.step e).map (fun p ↦ { l with pool := p })
  | .expire c =>
    if c < l.pool.created then
      some { l with pool := l.pool.setConn c { l.pool.conns c with expired := true } }
    else none
  | .stopMaintain =>
    if l.teardown = .alive ∧ l.pool.maintain = .sleeping then
      some { l with teardown := .maintainStopped }
    else none
  | .stopConnects =>
    if l.teardown = .maintainStopped ∧
        ∀ t < l.pool.settings.minSize, l.pool.connects t = .ended then
      some { l with teardown := .connectsStopped }
    else none
  | .clear =>
    if l.teardown = .connectsStopped ∧ l.pool.locked = .free then
      some ⟨l.pool.clear, .cleared⟩
    else none

/-- The calls of `DeleteConnection` in a step. -/
def deletes (l : PoolLife) : LifeEvent → List Nat
  | .run e => l.pool.deletes e
  | .clear => l.pool.vector
  | _ => []

end PoolLife

/-- Where a connection is: not created yet, in the hands of a task, in the vector, deleted. -/
inductive Place
  | unborn
  | held (owner : Owner)
  | vector
  | deleted
  deriving DecidableEq, Repr

namespace Pool

variable {p q : Pool} {deletions : List Nat} {place : Nat → Place}

/-- The pool and the deletions so far agree with a map that gives each connection one place. -/
structure Placed (p : Pool) (deletions : List Nat) (place : Nat → Place) : Prop where
  unborn : ∀ c, place c = .unborn ↔ p.created ≤ c
  held : ∀ a c, place c = .held a ↔ p.owned a = some c
  vector : ∀ c, place c = .vector ↔ c ∈ p.vector
  deleted : ∀ c, place c = .deleted ↔ c ∈ deletions
  nodup : p.vector.Nodup
  once : deletions.Nodup
  destroyed : ∀ c, (p.conns c).destroyed = true ↔ c ∈ deletions

namespace Placed

/-- A step that leaves all places alone. -/
theorem congr (h : Placed p deletions place) (hcreated : q.created = p.created)
    (howned : ∀ a, q.owned a = p.owned a) (hvector : q.vector = p.vector)
    (hconns : ∀ c, (q.conns c).destroyed = (p.conns c).destroyed) :
    Placed q deletions place where
  unborn c := by rw [hcreated]; exact h.unborn c
  held a c := by rw [howned]; exact h.held a c
  vector c := by rw [hvector]; exact h.vector c
  deleted := h.deleted
  nodup := hvector ▸ h.nodup
  once := h.once
  destroyed c := by rw [hconns]; exact h.destroyed c

private theorem owned_congr (hmaintain : q.maintain = p.maintain)
    (hconnects : q.connects = p.connects) (a : Owner) : q.owned a = p.owned a := by
  cases a with
  | maintain => exact congrArg MaintainPhase.conn? hmaintain
  | connect t => exact congrArg ConnectPhase.conn? (congrFun hconnects t)

/-- A step that leaves the tasks and the vector alone. -/
theorem keep (h : Placed p deletions place) (hcreated : q.created = p.created)
    (hmaintain : q.maintain = p.maintain) (hconnects : q.connects = p.connects)
    (hvector : q.vector = p.vector)
    (hconns : ∀ c, (q.conns c).destroyed = (p.conns c).destroyed) :
    Placed q deletions place :=
  h.congr hcreated (owned_congr hmaintain hconnects) hvector hconns

/-- One connection changes its place. -/
theorem move (h : Placed p deletions place) {deletions' : List Nat} {c : Nat} {dest : Place}
    (hcreated : ∀ d, q.created ≤ d ↔ d ≠ c ∧ p.created ≤ d) (hdest : dest ≠ .unborn)
    (howned : ∀ a d, q.owned a = some d ↔ if d = c then dest = .held a else p.owned a = some d)
    (hvector : ∀ d, d ∈ q.vector ↔ if d = c then dest = .vector else d ∈ p.vector)
    (hdeleted : ∀ d, d ∈ deletions' ↔ if d = c then dest = .deleted else d ∈ deletions)
    (hnodup : q.vector.Nodup) (honce : deletions'.Nodup)
    (hdestroyed : ∀ d, (q.conns d).destroyed = true ↔ d ∈ deletions') :
    Placed q deletions' (Function.update place c dest) := by
  refine ⟨?_, ?_, ?_, ?_, hnodup, honce, hdestroyed⟩
  · intro d
    rw [hcreated]
    by_cases hd : d = c
    · subst hd
      simp [hdest]
    · rw [Function.update_of_ne hd, h.unborn]
      simp [hd]
  · intro a d
    rw [howned]
    by_cases hd : d = c
    · subst hd
      simp
    · rw [Function.update_of_ne hd, if_neg hd]
      exact h.held a d
  · intro d
    rw [hvector]
    by_cases hd : d = c
    · subst hd
      simp
    · rw [Function.update_of_ne hd, if_neg hd]
      exact h.vector d
  · intro d
    rw [hdeleted]
    by_cases hd : d = c
    · subst hd
      simp
    · rw [Function.update_of_ne hd, if_neg hd]
      exact h.deleted d

private theorem destroy_iff (h : Placed p deletions place) (c d : Nat) :
    ((p.destroy c).conns d).destroyed = true ↔ d ∈ c :: deletions := by
  rw [List.mem_cons, ← h.destroyed, Pool.destroy, setConn_conns]
  by_cases hd : d = c
  · subst hd
    simp
  · simp [hd]

private theorem created_iff (h : Placed p deletions place) {c : Nat} (hc : place c ≠ .unborn)
    (d : Nat) : p.created ≤ d ↔ d ≠ c ∧ p.created ≤ d := by
  refine ⟨fun hd ↦ ⟨?_, hd⟩, fun hd ↦ hd.2⟩
  rintro rfl
  exact hc ((h.unborn d).mpr hd)

/-- What the tasks have after one of them has let its connection go. -/
theorem owned_release (h : Placed p deletions place) {a : Owner} {c : Nat}
    (hc : p.owned a = some c) (hother : ∀ b, b ≠ a → q.owned b = p.owned b)
    (ha : q.owned a = none) (b : Owner) (d : Nat) :
    q.owned b = some d ↔ d ≠ c ∧ p.owned b = some d := by
  by_cases hb : b = a
  · subst hb
    rw [ha, hc]
    simp [eq_comm]
  · rw [hother b hb]
    refine ⟨fun hd ↦ ⟨?_, hd⟩, fun hd ↦ hd.2⟩
    rintro rfl
    have hplace := ((h.held b d).mpr hd).symm.trans ((h.held a d).mpr hc)
    injection hplace with hba
    exact hb hba

/-- A task deletes the connection in its hands. -/
theorem deleteHeld (h : Placed p deletions place) {a : Owner} {c : Nat} (hc : p.owned a = some c)
    (hother : ∀ b, b ≠ a → q.owned b = p.owned b) (ha : q.owned a = none)
    (hcreated : q.created = p.created) (hvector : q.vector = p.vector)
    (hconns : q.conns = (p.destroy c).conns) :
    Placed q (c :: deletions) (Function.update place c .deleted) := by
  have hplace : place c = .held a := (h.held a c).mpr hc
  have hnot : c ∉ deletions := fun hm ↦ by simp [(h.deleted c).mpr hm] at hplace
  have hout : c ∉ p.vector := fun hm ↦ by simp [(h.vector c).mpr hm] at hplace
  refine h.move ?_ (by simp) ?_ ?_ ?_ (hvector ▸ h.nodup) (List.nodup_cons.mpr ⟨hnot, h.once⟩) ?_
  · intro d
    rw [hcreated]
    exact h.created_iff (by simp [hplace]) d
  · intro b d
    rw [h.owned_release hc hother ha]
    by_cases hd : d = c <;> simp [hd]
  · intro d
    rw [hvector]
    by_cases hd : d = c
    · simp [hd, hout]
    · simp [hd]
  · intro d
    by_cases hd : d = c <;> simp [hd]
  · intro d
    rw [hconns]
    exact h.destroy_iff c d

/-- A task puts the connection in its hands into the vector. -/
theorem store (h : Placed p deletions place) {a : Owner} {c : Nat} (hc : p.owned a = some c)
    (hother : ∀ b, b ≠ a → q.owned b = p.owned b) (ha : q.owned a = none)
    (hcreated : q.created = p.created) (hvector : q.vector = p.vector ++ [c])
    (hconns : q.conns = p.conns) :
    Placed q deletions (Function.update place c .vector) := by
  have hplace : place c = .held a := (h.held a c).mpr hc
  have hnot : c ∉ deletions := fun hm ↦ by simp [(h.deleted c).mpr hm] at hplace
  have hout : c ∉ p.vector := fun hm ↦ by simp [(h.vector c).mpr hm] at hplace
  refine h.move ?_ (by simp) ?_ ?_ ?_ ?_ h.once (hconns ▸ h.destroyed)
  · intro d
    rw [hcreated]
    exact h.created_iff (by simp [hplace]) d
  · intro b d
    rw [h.owned_release hc hother ha]
    by_cases hd : d = c <;> simp [hd]
  · intro d
    rw [hvector]
    by_cases hd : d = c <;> simp [hd]
  · intro d
    by_cases hd : d = c
    · simp [hd, hnot]
    · simp [hd]
  · rw [hvector]
    exact List.nodup_append'.mpr
      ⟨h.nodup, List.nodup_singleton c, List.disjoint_singleton.mpr hout⟩

private theorem mem_eraseIdx (h : Placed p deletions place) {it c : Nat}
    (hc : p.vector[it]? = some c) (d : Nat) : d ∈ p.vector.eraseIdx it ↔ d ≠ c ∧ d ∈ p.vector := by
  obtain ⟨hlt, hget⟩ := List.getElem?_eq_some_iff.mp hc
  rw [← h.nodup.erase_getElem it hlt, hget, h.nodup.mem_erase_iff]

/-- A connection of the vector is deleted. -/
theorem dropAt (h : Placed p deletions place) {it c : Nat} (hc : p.vector[it]? = some c) :
    Placed (p.dropAt it c) (c :: deletions) (Function.update place c .deleted) := by
  have hplace : place c = .vector := (h.vector c).mpr (List.mem_of_getElem? hc)
  have hnot : c ∉ deletions := fun hm ↦ by simp [(h.deleted c).mpr hm] at hplace
  refine h.move (h.created_iff (by simp [hplace])) (by simp) ?_ ?_ ?_
    (h.nodup.sublist (List.eraseIdx_sublist _ it)) (List.nodup_cons.mpr ⟨hnot, h.once⟩)
    (h.destroy_iff c)
  · intro a d
    change p.owned a = some d ↔ _
    by_cases hd : d = c
    · subst hd
      rw [← h.held, hplace]
      simp
    · simp [hd]
  · intro d
    change d ∈ p.vector.eraseIdx it ↔ _
    rw [h.mem_eraseIdx hc]
    by_cases hd : d = c <;> simp [hd]
  · intro d
    by_cases hd : d = c <;> simp [hd]

/-- `AcquireImmediate` takes a connection out of the vector for `Maintain`. -/
theorem take (h : Placed p deletions place) {it c n drops : Nat} (hc : p.vector[it]? = some c)
    (hm : p.owned .maintain = none) :
    Placed { p with
      vector := p.vector.eraseIdx it
      locked := .free
      maintain := .testing c n drops } deletions
      (Function.update place c (.held .maintain)) := by
  have hplace : place c = .vector := (h.vector c).mpr (List.mem_of_getElem? hc)
  have hnot : c ∉ deletions := fun hd ↦ by simp [(h.deleted c).mpr hd] at hplace
  have hconnect : ∀ t, p.owned (.connect t) ≠ some c := fun t ht ↦ by
    simp [(h.held _ c).mpr ht] at hplace
  refine h.move (h.created_iff (by simp [hplace])) (by simp) ?_ ?_ ?_
    (h.nodup.sublist (List.eraseIdx_sublist _ it)) h.once h.destroyed
  · rintro (_ | t) d
    · change some c = some d ↔ _
      by_cases hd : d = c
      · simp [hd]
      · simp [hd, hm, Ne.symm hd]
    · change p.owned (.connect t) = some d ↔ _
      by_cases hd : d = c
      · simp [hd, hconnect t]
      · simp [hd]
  · intro d
    change d ∈ p.vector.eraseIdx it ↔ _
    rw [h.mem_eraseIdx hc]
    by_cases hd : d = c <;> simp [hd]
  · intro d
    by_cases hd : d = c
    · simp [hd, hnot]
    · simp [hd]

private theorem owned_setConnect (p : Pool) (t : Nat) (phase : ConnectPhase) (b : Owner) :
    (p.setConnect t phase).owned b = if b = .connect t then phase.conn? else p.owned b := by
  cases b with
  | maintain => rfl
  | connect t' =>
    by_cases ht : t' = t
    · subst ht
      simp [owned]
    · simp [owned, ht]

/-- A connect succeeds. -/
theorem born (h : Placed p deletions place) {t : Nat} (ht : p.owned (.connect t) = none) :
    Placed ({ p with created := p.created + 1 }.setConnect t (.putting p.created .push)) deletions
      (Function.update place p.created (.held (.connect t))) := by
  have hplace : place p.created = .unborn := (h.unborn _).mpr (Nat.le_refl _)
  have hnot : p.created ∉ deletions := fun hd ↦ by simp [(h.deleted _).mpr hd] at hplace
  have hout : p.created ∉ p.vector := fun hd ↦ by simp [(h.vector _).mpr hd] at hplace
  have hfree : ∀ a, p.owned a ≠ some p.created := fun a ha ↦ by
    simp [(h.held a _).mpr ha] at hplace
  have hsame : ∀ b, { p with created := p.created + 1 }.owned b = p.owned b := fun b ↦ by
    cases b <;> rfl
  refine h.move ?_ (by simp) ?_ ?_ ?_ h.nodup h.once h.destroyed
  · intro d
    change p.created + 1 ≤ d ↔ _
    omega
  · intro b d
    rw [owned_setConnect, hsame]
    by_cases hb : b = .connect t
    · subst hb
      by_cases hd : d = p.created
      · simp [hd, ConnectPhase.conn?]
      · simp [hd, ConnectPhase.conn?, ht, Ne.symm hd]
    · by_cases hd : d = p.created
      · subst hd
        simpa [hb, Ne.symm hb] using hfree b
      · simp [hb, hd]
  · intro d
    change d ∈ p.vector ↔ _
    by_cases hd : d = p.created
    · simp [hd, hout]
    · simp [hd]
  · intro d
    by_cases hd : d = p.created
    · simp [hd, hnot]
    · simp [hd]

private theorem owned_put {c : Nat} {stage : PutStage} {next : Option PutStage}
    (hput : p.put c stage = some (q, next)) (b : Owner) : q.owned b = p.owned b := by
  rcases put_cases hput with ⟨_, -, -, -, rfl⟩ | ⟨-, -, -, rfl⟩ | ⟨-, -, -, rfl⟩
  · rfl
  · cases b <;> rfl
  · cases b <;> rfl

/-- A task goes through a stage of `Release` or `Push` with its connection: it keeps it, deletes
it or puts it into the vector. -/
theorem put (h : Placed p deletions place) {a : Owner} {c : Nat} {stage : PutStage}
    {next : Option PutStage} {r : Pool} (hc : p.owned a = some c)
    (hput : p.put c stage = some (q, next)) (hother : ∀ b, b ≠ a → r.owned b = q.owned b)
    (ha : r.owned a = next.map (fun _ ↦ c)) (hcreated : r.created = q.created)
    (hvector : r.vector = q.vector) (hconns : r.conns = q.conns) :
    ∃ place', Placed r ((if stage ≠ .pushBack ∧ (p.conns c).isDoomed then [c] else []) ++ deletions)
      place' := by
  have hothers : ∀ b, b ≠ a → r.owned b = p.owned b :=
    fun b hb ↦ (hother b hb).trans (owned_put hput b)
  rcases put_cases hput with
    ⟨stage', rfl, -, hdoom, rfl⟩ | ⟨rfl, hstage, hdoom, rfl⟩ | ⟨rfl, rfl, -, rfl⟩
  · rw [if_neg (by simp [hdoom])]
    refine ⟨place, h.congr hcreated (fun b ↦ ?_) hvector (fun _ ↦ by rw [hconns])⟩
    by_cases hb : b = a
    · rw [hb, ha, hc]
      rfl
    · exact hothers b hb
  · rw [if_pos ⟨hstage, hdoom⟩]
    exact ⟨_, h.deleteHeld hc hothers ha hcreated hvector hconns⟩
  · rw [if_neg (by simp)]
    exact ⟨_, h.store hc hothers ha hcreated hvector hconns⟩

private theorem owned_setMaintain (p : Pool) (m : MaintainPhase) (b : Owner) :
    { p with maintain := m }.owned b = if b = .maintain then m.conn? else p.owned b := by
  cases b with
  | maintain => rfl
  | connect t => rfl

private theorem destroyed_setConn (c : Nat) {s : PoolConnection}
    (hs : s.destroyed = (p.conns c).destroyed) (d : Nat) :
    ((p.setConn c s).conns d).destroyed = (p.conns d).destroyed := by
  rw [setConn_conns]
  by_cases hd : d = c
  · subst hd
    simpa using hs
  · simp [hd]

/-- `Maintain` moves on with the connection it has, if any. -/
theorem maintainOnly (h : Placed p deletions place) {m : MaintainPhase}
    (hm : m.conn? = p.maintain.conn?) : Placed { p with maintain := m } deletions place := by
  refine h.congr rfl (fun a ↦ ?_) rfl (fun _ ↦ rfl)
  rw [owned_setMaintain]
  split
  · next ha => rw [ha, hm]; rfl
  · rfl

/-- Every step of the pool keeps each connection in one place. -/
theorem step (h : Placed p deletions place) {e : PoolEvent} (hstep : p.step e = some q) :
    ∃ place', Placed q (p.deletes e ++ deletions) place' := by
  cases transition_of_step hstep with
  | connects ht =>
    exact ⟨_, h.born (by simp [owned, ht, ConnectPhase.conn?])⟩
  | connectFails ht =>
    refine ⟨place, h.congr rfl (fun a ↦ ?_) rfl (fun _ ↦ rfl)⟩
    rw [owned_setConnect]
    split
    · next ha => simp [ha, owned, ht, ConnectPhase.conn?]
    · rfl
  | @push t c stage q next ht hput =>
    have hc : p.owned (.connect t) = some c := by simp [owned, ht, ConnectPhase.conn?]
    simp only [deletes, ht]
    refine h.put hc hput (fun b hb ↦ ?_) ?_ rfl rfl rfl
    · rw [owned_setConnect, if_neg hb]
    · rw [owned_setConnect, if_pos rfl]
      cases next with
      | none => rfl
      | some stage' => rfl
  | @markBroken c hc =>
    exact ⟨place, h.keep rfl rfl rfl rfl (destroyed_setConn c rfl)⟩
  | acquire => exact ⟨place, h.keep rfl rfl rfl rfl (fun _ ↦ rfl)⟩
  | @sweep i it hl =>
    simp only [deletes, Pool.sweep, hl]
    split
    · next c hc =>
      split
      · next hdoom => exact ⟨_, by simpa [hc, hdoom] using h.dropAt hc⟩
      · next hdoom =>
        refine ⟨place, ?_⟩
        simp only [hc, Option.toList_some, List.filter_cons, hdoom]
        exact h.keep rfl rfl rfl rfl (fun _ ↦ rfl)
    · next hc =>
      refine ⟨place, ?_⟩
      rw [hc]
      exact h.keep rfl rfl rfl rfl (fun _ ↦ rfl)
  | select hl =>
    refine ⟨place, ?_⟩
    simp only [Pool.select]
    split
    · exact h.keep rfl rfl rfl rfl (fun _ ↦ rfl)
    · exact h.keep rfl rfl rfl rfl (fun _ ↦ rfl)
  | @takeStream i c hi =>
    exact ⟨place, h.keep rfl rfl rfl rfl (destroyed_setConn c rfl)⟩
  | @giveStream i c hi =>
    exact ⟨place, h.keep rfl rfl rfl rfl (destroyed_setConn c rfl)⟩
  | finish => exact ⟨place, h.keep rfl rfl rfl rfl (fun _ ↦ rfl)⟩
  | maintain hm => exact ⟨place, h.maintainOnly (m := .looking p.vector.length 1) (by rw [hm]; rfl)⟩
  | acquireImmediate => exact ⟨place, h.keep rfl rfl rfl rfl (fun _ ↦ rfl)⟩
  | @scan it n drops hl hm =>
    simp only [deletes, Pool.scan, hl]
    split
    · next c hc =>
      have hnone : p.owned .maintain = none := by simp [owned, hm, MaintainPhase.conn?]
      simp only [hc, Option.toList_some, List.filter_cons, List.filter_nil]
      by_cases hexpired : (p.conns c).expired = true
      · simp only [hexpired, if_true]
        split
        · exact ⟨_, h.dropAt hc⟩
        · exact ⟨place, h.keep rfl rfl rfl rfl (fun _ ↦ rfl)⟩
      · simp only [hexpired]
        by_cases hbroken : (p.conns c).broken = true
        · simp only [hbroken, if_true]
          exact ⟨_, h.dropAt hc⟩
        · simp only [hbroken]
          exact ⟨_, h.take hc hnone⟩
    · next hc =>
      have hlooks := h.maintainOnly (m := .sleeping) (by rw [hm]; rfl)
      rw [hc]
      exact ⟨place, hlooks.keep rfl rfl rfl rfl (fun _ ↦ rfl)⟩
  | closes hm hn hdrops hidle => exact ⟨place, h.maintainOnly (by rw [hm]; rfl)⟩
  | pings hm => exact ⟨place, h.maintainOnly (by rw [hm]; rfl)⟩
  | @close c n drops aborts hm =>
    have hc : p.owned .maintain = some c := by simp [owned, hm, MaintainPhase.conn?]
    simp only [deletes, hm]
    refine ⟨_, h.deleteHeld hc (fun b hb ↦ ?_) ?_ rfl rfl rfl⟩
    · rw [owned_setMaintain, if_neg hb]
      cases b <;> rfl
    · rw [owned_setMaintain, if_pos rfl, MaintainPhase.conn?_next]
  | @pingTakeStream c n drops hm =>
    have hpings := h.maintainOnly (m := .pinging c true n drops) (by rw [hm]; rfl)
    exact ⟨place, hpings.keep rfl rfl rfl rfl (destroyed_setConn c rfl)⟩
  | @pingGiveStream c n drops hm =>
    have hpings := h.maintainOnly (m := .pinging c false n drops) (by rw [hm]; rfl)
    exact ⟨place, hpings.keep rfl rfl rfl rfl (destroyed_setConn c rfl)⟩
  | pinged hm => exact ⟨place, h.maintainOnly (by rw [hm]; rfl)⟩
  | @release c stage aborts n drops q next hm hput =>
    have hc : p.owned .maintain = some c := by simp [owned, hm, MaintainPhase.conn?]
    simp only [deletes, hm]
    refine h.put hc hput (fun b hb ↦ ?_) ?_ rfl rfl rfl
    · rw [owned_setMaintain, if_neg hb]
    · rw [owned_setMaintain, if_pos rfl]
      cases next with
      | none => exact MaintainPhase.conn?_next aborts n drops
      | some stage' => rfl
  | maintainEnds hm => exact ⟨place, h.maintainOnly (by rw [hm]; rfl)⟩

/-- Deleting a list of connections changes nothing else. -/
structure DestroysAll (p q : Pool) (cs : List Nat) : Prop where
  created : q.created = p.created
  maintain : q.maintain = p.maintain
  connects : q.connects = p.connects
  destroyed : ∀ d, (q.conns d).destroyed = true ↔ (p.conns d).destroyed = true ∨ d ∈ cs

private theorem destroyAll (p : Pool) (cs : List Nat) :
    DestroysAll p (cs.foldl Pool.destroy p) cs := by
  induction cs generalizing p with
  | nil => exact ⟨rfl, rfl, rfl, fun d ↦ by simp⟩
  | cons c cs ih =>
    have hrest := ih (p.destroy c)
    refine ⟨hrest.created, hrest.maintain, hrest.connects, fun d ↦ ?_⟩
    rw [List.foldl_cons, hrest.destroyed, Pool.destroy, setConn_conns]
    by_cases hd : d = c
    · subst hd
      simp
    · simp [hd]

/-- The loop of `Clear`: everything in the vector is deleted. -/
theorem clear (h : Placed p deletions place) :
    Placed p.clear (p.vector ++ deletions)
      (fun c ↦ if c ∈ p.vector then .deleted else place c) := by
  have hfold := destroyAll p p.vector
  have hplace : ∀ c, c ∈ p.vector → place c = .vector := fun c ↦ (h.vector c).mpr
  refine ⟨?_, ?_, ?_, ?_, List.nodup_nil, ?_, ?_⟩
  · intro c
    change _ ↔ (p.vector.foldl Pool.destroy p).created ≤ c
    rw [hfold.created, ← h.unborn]
    by_cases hc : c ∈ p.vector
    · simp [hc, hplace c hc]
    · simp [hc]
  · intro a c
    have howned : p.clear.owned a = p.owned a := owned_congr hfold.maintain hfold.connects a
    rw [howned, ← h.held]
    by_cases hc : c ∈ p.vector
    · simp [hc, hplace c hc]
    · simp [hc]
  · intro c
    change _ ↔ c ∈ []
    by_cases hc : c ∈ p.vector
    · simp [hc]
    · simp [hc, h.vector]
  · intro c
    by_cases hc : c ∈ p.vector
    · simp [hc]
    · simp [hc, h.deleted]
  · refine List.nodup_append'.mpr ⟨h.nodup, h.once, fun c hc hd ↦ ?_⟩
    have hboth := (hplace c hc).symm.trans ((h.deleted c).mpr hd)
    cases hboth
  · intro c
    change ((p.vector.foldl Pool.destroy p).conns c).destroyed = true ↔ _
    rw [hfold.destroyed, List.mem_append, h.destroyed, or_comm]

/-- Nothing has been created when `Init` starts its connects. -/
theorem started (settings : PoolSettings) :
    Placed (started settings) [] (fun _ ↦ .unborn) := by
  refine ⟨?_, ?_, ?_, ?_, List.nodup_nil, List.nodup_nil, ?_⟩
  · intro c
    exact iff_of_true rfl (Nat.zero_le c)
  · rintro (_ | t) c
    · simp [owned, Pool.started, MaintainPhase.conn?]
    · simp only [owned, Pool.started]
      split <;> simp [ConnectPhase.conn?]
  · intro c
    simp [Pool.started]
  · intro c
    simp
  · intro c
    simp [Pool.started, PoolConnection.fresh]

end Placed
end Pool

namespace PoolLife

/-- Every step of the pool's life keeps each connection in one place. -/
theorem placed_step {l l' : PoolLife} {e : LifeEvent} {deletions : List Nat} {place : Nat → Place}
    (h : l.pool.Placed deletions place) (hstep : l.step e = some l') :
    ∃ place', l'.pool.Placed (l.deletes e ++ deletions) place' := by
  cases e with
  | run e =>
    simp only [step] at hstep
    split at hstep
    · cases hstep
    · obtain ⟨q, hq, rfl⟩ := Option.map_eq_some_iff.mp hstep
      exact h.step hq
  | expire c =>
    simp only [step] at hstep
    split at hstep
    · cases hstep
      exact ⟨place, h.keep rfl rfl rfl rfl
        (Pool.Placed.destroyed_setConn c rfl)⟩
    · cases hstep
  | stopMaintain =>
    simp only [step] at hstep
    split at hstep
    · cases hstep
      exact ⟨place, h⟩
    · cases hstep
  | stopConnects =>
    simp only [step] at hstep
    split at hstep
    · cases hstep
      exact ⟨place, h⟩
    · cases hstep
  | clear =>
    simp only [step] at hstep
    split at hstep
    · cases hstep
      exact ⟨_, h.clear⟩
    · cases hstep

/-- What it means for a connection to be at a place, with the deletions so far. -/
def At (p : Pool) (deletions : List Nat) (c : Nat) : Place → Prop
  | .unborn => p.created ≤ c
  | .held a => p.owned a = some c
  | .vector => p.vector.count c = 1
  | .deleted => c ∈ deletions

private theorem at_iff {p : Pool} {deletions : List Nat} {place : Nat → Place}
    (h : p.Placed deletions place) (c : Nat) (dest : Place) :
    At p deletions c dest ↔ place c = dest := by
  cases dest with
  | unborn => exact (h.unborn c).symm
  | held a => exact (h.held a c).symm
  | vector =>
    rw [At, h.vector]
    exact ⟨fun hc ↦ List.count_pos_iff.mp (by omega), List.count_eq_one_of_mem h.nodup⟩
  | deleted => exact (h.deleted c).symm

/-- In every run the places are those of some map. -/
theorem exists_placed {settings : PoolSettings} {p₀ : Pool} {l : PoolLife} {deletions : List Nat}
    (hinit : Pool.init settings = .ok p₀)
    (hreach : Reaches (recording step deletes) (fun _ _ ↦ True) (⟨p₀, .alive⟩, [])
      (l, deletions)) :
    ∃ place, l.pool.Placed deletions place := by
  refine hreach.invariant (P := fun s ↦ ∃ place, s.1.pool.Placed s.2 place) ?_ ?_
  · rw [Pool.init_eq_ok hinit]
    exact ⟨_, .started settings⟩
  · rintro s e s' ⟨place, h⟩ - hstep
    obtain ⟨hlife, hdeleted⟩ := recording_eq_some hstep
    rw [hdeleted]
    exact placed_step h hlife

/-- In every run from `Init` to the end of the destructor, every connection created so far is
in exactly one place, the vector holds no pointer twice and no deleted one, and no connection
is deleted twice. -/
theorem single_ownership {settings : PoolSettings} {p₀ : Pool} {l : PoolLife}
    {deletions : List Nat} (hinit : Pool.init settings = .ok p₀)
    (hreach : Reaches (recording step deletes) (fun _ _ ↦ True) (⟨p₀, .alive⟩, [])
      (l, deletions)) :
    (∀ c < l.pool.created, ∃! place, place ≠ .unborn ∧ At l.pool deletions c place) ∧
    (l.pool.vector.Nodup ∧
      ∀ c ∈ l.pool.vector, c ∉ deletions ∧ (l.pool.conns c).destroyed = false) ∧
    deletions.Nodup := by
  obtain ⟨place, h⟩ := exists_placed hinit hreach
  refine ⟨?_, ⟨h.nodup, ?_⟩, h.once⟩
  · intro c hc
    have hborn : place c ≠ .unborn := by
      rw [Ne, h.unborn]
      omega
    refine ⟨place c, ⟨hborn, (at_iff h c _).mpr rfl⟩, ?_⟩
    rintro dest ⟨-, hdest⟩
    exact ((at_iff h c dest).mp hdest).symm
  · intro c hc
    have hplace : place c = .vector := (h.vector c).mpr hc
    have hnot : c ∉ deletions := fun hd ↦ by simp [(h.deleted c).mpr hd] at hplace
    exact ⟨hnot, Bool.eq_false_iff.mpr (fun hd ↦ hnot ((h.destroyed c).mp hd))⟩

/-- Two connects, of which one connection breaks before it is pushed, a ping, and the
destructor. -/
def wholeLife : List LifeEvent :=
  [.run (.connect 1 true), .run (.connect 0 true), .run (.markBroken 0), .run (.push 1),
   .run (.push 0), .run (.push 0), .run .maintain, .run .acquireImmediate, .run .scan,
   .run .idleTest, .run .pingTakeStream, .run .pingGiveStream, .run (.pinged false),
   .run .release, .run .release, .run .release, .run .maintainEnds, .stopMaintain,
   .stopConnects, .clear]

/-- Two connections are deleted, each once. -/
theorem single_ownership_wholeLife : ∃ p₀ l deletions, Pool.init ⟨2, 2, true⟩ = .ok p₀ ∧
    Reaches (recording step deletes) (fun _ _ ↦ True) (⟨p₀, .alive⟩, []) (l, deletions) ∧
    deletions = [1, 0] ∧ deletions.Nodup := by
  obtain ⟨⟨l, deletions⟩, hs, hdeletions⟩ := Reaches.exists_of_runIf (recording step deletes)
    (fun _ _ ↦ True) (⟨Pool.started ⟨2, 2, true⟩, .alive⟩, []) wholeLife
    (fun s ↦ s.2 = [1, 0]) (by decide +kernel)
  have hplaces := single_ownership (rfl : Pool.init ⟨2, 2, true⟩ = .ok _) hs
  exact ⟨_, l, deletions, rfl, hs, hdeletions, hplaces.2.2⟩

end PoolLife
end CassandraDriver.Detail
