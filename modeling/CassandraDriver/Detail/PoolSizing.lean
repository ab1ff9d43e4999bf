import CassandraDriver.Detail.PermitConservation

/-!
# Pool sizing

Library `Detail`. What `max_size` and `connecting_limit` of
`include/cassandra/options.hpp:418–473` are documented to mean, and exactly when the pool does
that: the capacity of `_size_semaphore` is made from `connecting_limit` and nothing reads
`max_size` but the check of `Init`.
-/

namespace CassandraDriver.Detail
open CassandraDriver.Lib

/-- The connection that a task is building or pushing. -/
def AttemptPhase.building? : AttemptPhase → Option Nat
  | building c _ => some c
  | pushing c => some c
  | _ => none

@[simp]
private theorem AttemptPhase.building?_connecting (permit : Nat) :
    (connecting permit).building? = none := rfl

@[simp]
private theorem AttemptPhase.building?_building (c : Nat) (stage : BuildStage) :
    (building c stage).building? = some c := rfl

@[simp]
private theorem AttemptPhase.building?_ended (success : Bool) :
    (ended success).building? = none := rfl

namespace PermitPool

variable {s q : PermitPool}

/-- Connections that hold a size permit. -/
def live (s : PermitPool) : Nat := s.connections.countP (fun c ↦ c.permit.isSome)

/-- Connections in the pool. -/
def pooled (s : PermitPool) : Nat := s.connections.countP (fun c ↦ c.place == .pooled)

/-- An event of a synchronous `Init` in which every handshake succeeds in time: nothing is
cancelled, nothing throws, no connection breaks, and the last address that is left connects. -/
def smooth (s : PermitPool) : PermitEvent → Bool
  | .spawn => true
  | .start _ => true
  | .lockSize _ => true
  | .sizeTimeout _ cancelled => !cancelled
  | .leave _ => true
  | .lockConnecting _ => true
  | .connectingTimeout _ cancelled => !cancelled
  | .construct _ => true
  | .resolve _ addresses => addresses != 0
  | .tcp i connects =>
    connects || match s.attempts[i]? with
      | some (.building _ (.tcp addresses)) => decide (1 < addresses)
      | _ => false
  | .options _ succeeds => succeeds
  | .startup _ succeeds => succeeds
  | .push _ broken => !broken
  | _ => false

end PermitPool

/-- The limits mean what their documentation says: there are never more than `max_size`
connections; `connecting_limit` bounds the connects in progress; a connect is refused only when
there are `max_size` connections; and a synchronous `Init` in which every handshake succeeds
in time comes to an end, with `min_size` connections in the pool. -/
structure LimitSettings.Respected (settings : LimitSettings) : Prop where
  bounded : ∀ s, Reaches PermitPool.step (fun _ _ ↦ True) (.empty settings) s →
    s.live ≤ settings.maxSize
  connecting : settings.connectingLimit ≠ 0 →
    ∀ s, Reaches PermitPool.step (fun _ _ ↦ True) (.empty settings) s →
      s.connectingUsed ≤ settings.connectingLimit
  refused : ∀ s, Reaches PermitPool.step (fun _ _ ↦ True) (.empty settings) s →
    ¬ s.SizeFree → settings.maxSize ≤ s.used
  ends : settings.async = false → ¬ ∃ run : Nat → PermitPool, run 0 = .empty settings ∧
    ∀ n, ∃ e, (run n).smooth e = true ∧ (run n).step e = some (run (n + 1))
  initial : settings.async = false →
    ∀ s, Reaches PermitPool.step (fun s e ↦ s.smooth e = true) (.empty settings) s →
      (∀ e, s.smooth e = true → s.step e = none) → s.Ready ∧ s.pooled = settings.minSize

namespace PermitPool

variable {s q : PermitPool} {settings : LimitSettings}

/-! ### The semaphore is not exceeded -/

private theorem settings_step {e : PermitEvent} (h : s.step e = some q) :
    q.settings = s.settings := by
  cases transition_of_step h with
  | spawn => unfold connect; split <;> rfl
  | tryCreate => unfold connect; split <;> rfl
  | tooMany => rfl
  | moves => rfl
  | lockSize => rfl
  | givesUp => rfl
  | construct => rfl
  | throws => rfl
  | store => rfl
  | pushBroken => rfl
  | closes => rfl
  | closeEnds => rfl

private theorem used_step {e : PermitEvent} (hused : s.used ≤ s.settings.sizeCapacity)
    (h : s.step e = some q) : q.used ≤ s.settings.sizeCapacity := by
  have hconnect : s.connect.used ≤ s.settings.sizeCapacity := by
    unfold connect
    split
    · next hfree => exact hfree
    · exact hused
  cases transition_of_step h with
  | spawn => exact hconnect
  | tryCreate => exact hconnect
  | tooMany => exact hused
  | moves => exact hused
  | lockSize hi hfree => exact hfree
  | givesUp => exact Nat.le_trans (Nat.sub_le _ _) hused
  | construct => exact hused
  | throws => exact hused
  | store => exact hused
  | pushBroken => exact hused
  | closes => exact hused
  | closeEnds => exact Nat.le_trans (Nat.sub_le _ _) hused

/-! ### Connections under construction -/

/-- The connection is under construction. -/
def isBuilding (conns : List PermitConnection) (c : Nat) : Bool :=
  conns[c]?.any (fun conn ↦ conn.place == .building)

private theorem isBuilding_concat (conns : List PermitConnection) (conn : PermitConnection)
    (c : Nat) : isBuilding (conns ++ [conn]) c =
      if c = conns.length then conn.place == .building else isBuilding conns c := by
  simp only [isBuilding, List.getElem?_append]
  rcases Nat.lt_trichotomy c conns.length with hlt | rfl | hgt
  · simp [hlt, Nat.ne_of_lt hlt]
  · simp
  · have hpast : c - conns.length ≠ 0 := by omega
    simp [Nat.not_lt_of_gt hgt, Nat.ne_of_gt hgt, hpast]

private theorem isBuilding_set {conns : List PermitConnection} {c : Nat} {conn : PermitConnection}
    (hc : conns[c]? = some conn) (conn' : PermitConnection) (d : Nat) :
    isBuilding (conns.set c conn') d =
      if d = c then conn'.place == .building else isBuilding conns d := by
  obtain ⟨hlt, -⟩ := List.getElem?_eq_some_iff.mp hc
  by_cases hd : d = c
  · subst hd
    simp [isBuilding, hlt]
  · simp [isBuilding, hd, List.getElem?_set_ne (Ne.symm hd)]

/-- Every connection under construction is that of one task, and no other is any task's; a
connection that is not out has its permit. -/
structure Assigned (s : PermitPool) : Prop where
  task : ∀ c, (s.attempts.map AttemptPhase.building?).count (some c) =
    if isBuilding s.connections c then 1 else 0
  total : s.attempts.countP (fun a ↦ a.building?.isSome) =
    s.connections.countP (fun c ↦ c.place == .building)
  held : ∀ c ∈ s.connections, c.place ≠ .out → c.permit.isSome = true
  closed : ∀ c ∈ s.connections, c.closed = true → c.place = .out

namespace Assigned

private theorem empty : Assigned (empty settings) := by
  refine ⟨fun c ↦ rfl, rfl, ?_, ?_⟩
  · intro c hc
    cases hc
  · intro c hc
    cases hc

/-- The connection of a task is under construction. -/
theorem place_of_building (h : Assigned s) {i c : Nat} {a : AttemptPhase}
    (hi : s.attempts[i]? = some a) (ha : a.building? = some c) :
    isBuilding s.connections c = true := by
  by_contra hnot
  have hcount := h.task c
  rw [if_neg hnot, List.count_eq_zero] at hcount
  exact hcount (List.mem_map.mpr ⟨a, List.mem_of_getElem? hi, ha⟩)

/-- A task moves on with the connection it has. -/
theorem setAttempt (h : Assigned s) {i : Nat} {a b : AttemptPhase}
    (hi : s.attempts[i]? = some a) (hattempts : q.attempts = s.attempts.set i b)
    (hconns : q.connections = s.connections) (hb : b.building? = a.building?) : Assigned q := by
  refine ⟨fun c ↦ ?_, ?_, hconns ▸ h.held, hconns ▸ h.closed⟩
  · have hcount := count_map_set_add AttemptPhase.building? hi b (some c)
    rw [hb] at hcount
    rw [hattempts, hconns]
    exact (Nat.add_right_cancel hcount).trans (h.task c)
  · have hcount := countP_set_add (fun a ↦ a.building?.isSome) hi b
    simp only [hb] at hcount
    rw [hattempts, hconns]
    exact (Nat.add_right_cancel hcount).trans h.total

/-- A connect task is started. -/
theorem connect (h : Assigned s) : Assigned s.connect := by
  unfold PermitPool.connect
  split
  · refine ⟨fun c ↦ ?_, ?_, h.held, h.closed⟩
    · simp only [List.map_append, List.count_append]
      exact h.task c
    · simp only [List.countP_append]
      exact h.total
  · refine ⟨fun c ↦ ?_, ?_, h.held, h.closed⟩
    · simp only [List.map_append, List.count_append]
      exact h.task c
    · simp only [List.countP_append]
      exact h.total

/-- The constructor of `ConnectionImpl`. -/
theorem beginBuild (h : Assigned s) {i permit : Nat}
    (hi : s.attempts[i]? = some (.connecting permit)) : Assigned (s.beginBuild i permit) := by
  refine ⟨fun c ↦ ?_, ?_, ?_, ?_⟩
  · have hcount := count_map_set_add AttemptPhase.building? hi
      (.building s.connections.length .resolving) (some c)
    have htask := h.task c
    have hnew := h.task s.connections.length
    simp only [AttemptPhase.building?_connecting, AttemptPhase.building?_building, beq_iff_eq,
      reduceCtorEq, if_false, Option.some.injEq, Nat.add_zero] at hcount
    simp only [PermitPool.beginBuild, isBuilding_concat, hcount]
    by_cases hc : c = s.connections.length
    · subst hc
      simp [htask, isBuilding]
    · simp [htask, hc, Ne.symm hc]
  · have hcount := countP_set_add (fun a ↦ a.building?.isSome) hi
      (.building s.connections.length .resolving)
    have htotal := h.total
    simp only [AttemptPhase.building?_connecting, AttemptPhase.building?_building,
      Option.isSome_none, Option.isSome_some, if_true, Bool.false_eq_true, if_false,
      Nat.add_zero] at hcount
    simp only [PermitPool.beginBuild, hcount, List.countP_append, List.countP_singleton, htotal]
    rfl
  · intro c hc hplace
    rcases List.mem_append.mp hc with hc | hc
    · exact h.held c hc hplace
    · cases List.mem_singleton.mp hc
      rfl
  · intro c hc hclosed
    rcases List.mem_append.mp hc with hc | hc
    · exact h.closed c hc hclosed
    · cases List.mem_singleton.mp hc
      cases hclosed

/-- A connection leaves its task: it goes to the pool, or it is deleted. -/
theorem finishBuild (h : Assigned s) {i c : Nat} {a : AttemptPhase} {conn conn' : PermitConnection}
    {success : Bool} (hi : s.attempts[i]? = some a) (ha : a.building? = some c)
    (hc : s.connections[c]? = some conn)
    (hattempts : q.attempts = s.attempts.set i (.ended success))
    (hconns : q.connections = s.connections.set c conn') (hplace : conn'.place ≠ .building)
    (hheld : conn'.place ≠ .out → conn'.permit.isSome = true)
    (hclosed : conn'.closed = true → conn'.place = .out) : Assigned q := by
  have hbuilding : conn.place = .building := by
    have hplaceOf := h.place_of_building hi ha
    simpa [isBuilding, hc] using hplaceOf
  refine ⟨fun d ↦ ?_, ?_, ?_, ?_⟩
  · have hcount := count_map_set_add AttemptPhase.building? hi (.ended success) (some d)
    have htask := h.task d
    simp only [ha, AttemptPhase.building?_ended, beq_iff_eq, reduceCtorEq, if_false,
      Option.some.injEq, Nat.add_zero] at hcount
    rw [hattempts, hconns, isBuilding_set hc]
    by_cases hd : d = c
    · subst hd
      rw [h.place_of_building hi ha, if_pos rfl] at htask
      rw [if_pos rfl] at hcount
      rw [if_pos rfl, if_neg (by simpa using hplace)]
      omega
    · rw [if_neg (Ne.symm hd)] at hcount
      rw [if_neg hd]
      omega
  · have hcount := countP_set_add (fun a ↦ a.building?.isSome) hi (.ended success)
    have hplaces := countP_set_add (fun c ↦ c.place == .building) hc conn'
    have htotal := h.total
    rw [hattempts, hconns]
    simp only [ha, Option.isSome_some, if_true, AttemptPhase.building?_ended, Option.isSome_none,
      Bool.false_eq_true, if_false, add_zero] at hcount
    simp only [hbuilding, BEq.rfl, if_true, beq_iff_eq, hplace, if_false, add_zero] at hplaces
    omega
  · intro d hd
    rw [hconns] at hd
    rcases List.mem_or_eq_of_mem_set hd with hd | rfl
    · exact h.held d hd
    · exact hheld
  · intro d hd
    rw [hconns] at hd
    rcases List.mem_or_eq_of_mem_set hd with hd | rfl
    · exact h.closed d hd
    · exact hclosed

/-- `Close` of a connection that is nobody's task's. -/
theorem closeImpl (h : Assigned s) {c : Nat} {conn : PermitConnection} {destroys : Bool}
    (hc : s.connections[c]? = some conn) (hplace : conn.place ≠ .building) :
    Assigned (s.closeImpl c conn destroys) := by
  refine ⟨fun d ↦ ?_, ?_, ?_, ?_⟩
  · simp only [PermitPool.closeImpl, isBuilding_set hc]
    rw [h.task d]
    by_cases hd : d = c
    · subst hd
      simp [isBuilding, hc, hplace]
    · simp [hd]
  · have hplaces := countP_set_add (fun c ↦ c.place == .building) hc ⟨none, .out, true, destroys⟩
    have htotal := h.total
    simp only [PermitPool.closeImpl]
    simp only [beq_iff_eq, hplace, reduceCtorEq, if_false, add_zero] at hplaces
    omega
  · intro d hd
    rcases List.mem_or_eq_of_mem_set hd with hd | rfl
    · exact h.held d hd
    · simp
  · intro d hd
    rcases List.mem_or_eq_of_mem_set hd with hd | rfl
    · exact h.closed d hd
    · simp

/-- Every step keeps connections and tasks together. -/
theorem step (h : Assigned s) {e : PermitEvent} (hstep : s.step e = some q) : Assigned q := by
  cases transition_of_step hstep with
  | spawn => exact h.connect
  | tryCreate => exact h.connect
  | tooMany => exact h
  | moves hi hmoves => cases hmoves <;> exact h.setAttempt hi rfl rfl rfl
  | lockSize hi hfree => exact h.setAttempt hi rfl rfl rfl
  | givesUp hi hgives => cases hgives <;> exact h.setAttempt hi rfl rfl rfl
  | construct hi => exact h.beginBuild hi
  | throws hi hc hthrows => exact h.finishBuild hi rfl hc rfl rfl (by simp) (by simp) (by simp)
  | @store i c conn hi hc =>
    have hmem := List.mem_of_getElem? hc
    have hbuilding : conn.place = .building := by
      have hplaceOf := h.place_of_building hi rfl
      simpa [isBuilding, hc] using hplaceOf
    refine h.finishBuild hi rfl hc rfl rfl (by simp)
      (fun _ ↦ h.held conn hmem (by simp [hbuilding])) (fun hclosed ↦ ?_)
    simp [h.closed conn hmem hclosed] at hbuilding
  | pushBroken hi hc => exact h.finishBuild hi rfl hc rfl rfl (by simp) (by simp) (by simp)
  | @closes e c conn destroys hc hcloses =>
    have hplace : conn.place ≠ .building := by
      cases hcloses with
      | drop hpooled => simp [hpooled]
      | close hpooled => simp [hpooled]
      | destroy hclosed => simp [h.closed conn (List.mem_of_getElem? hc) hclosed.1]
    exact h.closeImpl hc hplace
  | closeEnds => exact ⟨h.task, h.total, h.held, h.closed⟩

end Assigned

/-! ### What holds in every run -/

/-- What is known of every state of a pool with certain settings. -/
structure Kept (settings : LimitSettings) (s : PermitPool) : Prop where
  same : s.settings = settings
  used_le : s.used ≤ settings.sizeCapacity
  assigned : Assigned s
  conserved : ∃ returned, Conserved s returned

private theorem kept_step {e : PermitEvent} (h : Kept settings s) (hstep : s.step e = some q) :
    Kept settings q := by
  obtain ⟨returned, hconserved⟩ := h.conserved
  refine ⟨(settings_step hstep).trans h.same, ?_, h.assigned.step hstep,
    _, hconserved.step hstep⟩
  rw [← h.same]
  exact used_step (by rw [h.same]; exact h.used_le) hstep

private theorem kept_empty (settings : LimitSettings) : Kept settings (empty settings) :=
  ⟨rfl, Nat.zero_le _, .empty, [], .empty settings⟩

private theorem kept_of_reaches {ok : PermitPool → PermitEvent → Prop}
    (h : Reaches step ok (empty settings) s) : Kept settings s :=
  h.invariant (kept_empty settings) (fun _ _ _ hs _ ↦ kept_step hs)

private theorem live_le_used {returned : List Nat} (h : Conserved s returned) :
    s.live ≤ s.used := by
  have htotal := h.balanced.total
  have hused := h.used
  have hlive : (s.connections.map PermitConnection.permit).countP Option.isSome = s.live :=
    List.countP_map
  simp only [slots, List.countP_append, hlive] at htotal
  omega

private theorem countP_inProgress (attempts : List AttemptPhase) :
    attempts.countP AttemptPhase.inProgress ≤
      (attempts.map AttemptPhase.permit?).countP Option.isSome +
        attempts.countP (fun a ↦ a.building?.isSome) := by
  induction attempts with
  | nil => rfl
  | cons a attempts ih =>
    have hhead : (if a.inProgress then 1 else 0) ≤
        (if a.permit?.isSome then 1 else 0) + (if a.building?.isSome then 1 else 0) := by
      cases a <;> simp [AttemptPhase.inProgress, AttemptPhase.permit?, AttemptPhase.building?]
    simp only [List.map_cons, List.countP_cons]
    omega

private theorem connectingUsed_le_used {returned : List Nat} (ha : Assigned s)
    (hc : Conserved s returned) : s.connectingUsed ≤ s.used := by
  have htotal := hc.balanced.total
  have hused := hc.used
  have hprogress := countP_inProgress s.attempts
  have hbuilding : s.connections.countP (fun c ↦ c.place == .building) ≤
      (s.connections.map PermitConnection.permit).countP Option.isSome := by
    rw [List.countP_map]
    refine List.countP_mono_left (fun c hmem hplace ↦ ?_)
    exact ha.held c hmem (by simp [beq_iff_eq.mp hplace])
  rw [ha.total] at hprogress
  simp only [slots, List.countP_append] at htotal
  simp only [connectingUsed]
  omega

/-! ### A synchronous `Init` that succeeds -/

/-- A task that has got its permit, or is over with success. -/
def onTrack : AttemptPhase → Bool
  | .spawned permit => permit.isSome
  | .waiting => false
  | .entered permit => permit.isSome
  | .connecting _ => true
  | .building .. => true
  | .pushing _ => true
  | .ended success => success

/-- During a smooth `Init` every task has its own permit, and the pool has the connections of
those that are over. -/
structure Establishing (s : PermitPool) : Prop where
  length_le : s.attempts.length ≤ s.settings.minSize
  issued : s.issued = s.attempts.length
  used : s.used = s.attempts.length
  track : ∀ a ∈ s.attempts, onTrack a = true
  pooled : s.pooled = s.attempts.countP AttemptPhase.isEnded

namespace Establishing

private theorem empty : Establishing (empty settings) := by
  refine ⟨Nat.zero_le _, rfl, rfl, ?_, rfl⟩
  intro a ha
  cases ha

/-- A task moves on. -/
theorem setAttempt (h : Establishing s) {i : Nat} {a b : AttemptPhase}
    (hi : s.attempts[i]? = some a) (hb : onTrack b = true) (hended : b.isEnded = a.isEnded) :
    Establishing (s.setAttempt i b) := by
  have hlength : (s.attempts.set i b).length = s.attempts.length := List.length_set
  refine ⟨hlength ▸ h.length_le, hlength ▸ h.issued, hlength ▸ h.used, ?_, ?_⟩
  · intro d hd
    rcases List.mem_or_eq_of_mem_set hd with hd | rfl
    · exact h.track d hd
    · exact hb
  · have hcount := countP_set_add AttemptPhase.isEnded hi b
    rw [hended] at hcount
    exact h.pooled.trans (Nat.add_right_cancel hcount).symm

/-- The next task of `Init` finds a permit. -/
theorem connect (h : Establishing s) (hcapacity : s.settings.minSize ≤ s.settings.sizeCapacity)
    (hlength : s.attempts.length < s.settings.minSize) : Establishing s.connect := by
  have hfree : s.SizeFree := by
    unfold SizeFree
    rw [h.used]
    omega
  unfold PermitPool.connect
  rw [if_pos hfree]
  refine ⟨?_, ?_, ?_, ?_, ?_⟩
  · simp only [take, List.length_append, List.length_singleton]
    omega
  · simp only [take, List.length_append, List.length_singleton, h.issued]
  · simp only [take, List.length_append, List.length_singleton, h.used]
  · intro a ha
    rcases List.mem_append.mp ha with ha | ha
    · exact h.track a ha
    · cases List.mem_singleton.mp ha
      rfl
  · simp only [List.countP_append, List.countP_singleton]
    exact h.pooled

/-- A task puts its connection into the pool and ends. -/
theorem store (h : Establishing s) {i c : Nat} {conn : PermitConnection}
    (hi : s.attempts[i]? = some (.pushing c)) (hc : s.connections[c]? = some conn)
    (hbuilding : conn.place = .building) : Establishing (s.store i c conn) := by
  have hlength : (s.attempts.set i (.ended true)).length = s.attempts.length := List.length_set
  refine ⟨hlength ▸ h.length_le, hlength ▸ h.issued, hlength ▸ h.used, ?_, ?_⟩
  · intro d hd
    rcases List.mem_or_eq_of_mem_set hd with hd | rfl
    · exact h.track d hd
    · rfl
  · have hcount := countP_set_add AttemptPhase.isEnded hi (.ended true)
    have hplaces := countP_set_add (fun c ↦ c.place == .pooled) hc { conn with place := .pooled }
    have hpooled := h.pooled
    simp only [PermitPool.pooled, PermitPool.store] at hpooled ⊢
    simp only [AttemptPhase.isEnded, Bool.false_eq_true, if_false, if_true, add_zero] at hcount
    simp only [hbuilding, beq_iff_eq, reduceCtorEq, if_false, BEq.rfl, if_true, add_zero] at hplaces
    omega

/-- There is always a lock of `_connecting_semaphore` for a task that wants one. -/
theorem connectingUsed_lt (h : Establishing s) {i : Nat} {permit : Option Nat}
    (hi : s.attempts[i]? = some (.entered permit)) :
    s.connectingUsed < s.settings.connectingCapacity := by
  have hlt : s.connectingUsed < s.attempts.length := by
    refine Nat.lt_of_le_of_ne List.countP_le_length (fun hall ↦ ?_)
    have hin := List.countP_eq_length.mp hall _ (List.mem_of_getElem? hi)
    cases hin
  have hmin := h.length_le
  have hmax := s.settings.minSize_le
  change s.connectingUsed < sizeMax
  omega

/-- A smooth step of `Init`. -/
theorem step (h : Establishing s) (ha : Assigned s)
    (hcapacity : s.settings.minSize ≤ s.settings.sizeCapacity) {e : PermitEvent}
    (hsmooth : s.smooth e = true) (hstep : s.step e = some q) : Establishing q := by
  cases transition_of_step hstep with
  | spawn hlength => exact h.connect hcapacity hlength
  | tryCreate hready => cases hsmooth
  | tooMany hready => cases hsmooth
  | @moves e i a b hi hmoves =>
    have htrack := h.track a (List.mem_of_getElem? hi)
    cases hmoves with
    | start => exact h.setAttempt hi rfl rfl
    | wait => cases htrack
    | timeout => cases htrack
    | leave => cases htrack
    | lockConnecting => exact h.setAttempt hi rfl rfl
    | resolve => exact h.setAttempt hi rfl rfl
    | tcp => exact h.setAttempt hi rfl rfl
    | nextAddress => exact h.setAttempt hi rfl rfl
    | options => exact h.setAttempt hi rfl rfl
    | startup => exact h.setAttempt hi rfl rfl
  | lockSize hi =>
    have htrack := h.track _ (List.mem_of_getElem? hi)
    cases htrack
  | givesUp hi hgives =>
    cases hgives with
    | cancel => cases hsmooth
    | @connectingTimeout permit cancelled hfull =>
      have hlt := h.connectingUsed_lt hi
      have hcancelled : cancelled = false := by simpa [smooth] using hsmooth
      rcases hfull with hcancel | hfull
      · rw [hcancelled] at hcancel
        cases hcancel
      · exact absurd hlt hfull
    | allocationFails => cases hsmooth
  | @construct i permit hi =>
    have hmoved := h.setAttempt (b := .building s.connections.length .resolving) hi rfl rfl
    refine ⟨hmoved.length_le, hmoved.issued, hmoved.used, hmoved.track, ?_⟩
    have hpooled := hmoved.pooled
    simp only [PermitPool.pooled, PermitPool.beginBuild, List.countP_append] at hpooled ⊢
    exact hpooled
  | throws hi hc hthrows =>
    cases hthrows with
    | resolve => cases hsmooth
    | tcp hlast =>
      simp only [smooth, hi, Bool.false_or, decide_eq_true_eq] at hsmooth
      omega
    | options => cases hsmooth
    | startup => cases hsmooth
  | @store i c conn hi hc =>
    have hbuilding : conn.place = .building := by
      have hplaceOf := ha.place_of_building hi rfl
      simpa [isBuilding, hc] using hplaceOf
    exact h.store hi hc hbuilding
  | pushBroken => cases hsmooth
  | closes hc hcloses => cases hcloses <;> cases hsmooth
  | closeEnds => cases hsmooth

/-- In every smooth run, if there are permits for all tasks of `Init`. -/
theorem of_smooth (hroom : settings.minSize ≤ settings.sizeCapacity)
    (h : Reaches PermitPool.step (fun s e ↦ s.smooth e = true) (PermitPool.empty settings) s) :
    Establishing s := by
  have hboth : Kept settings s ∧ Establishing s := by
    refine h.invariant (P := fun s ↦ Kept settings s ∧ Establishing s)
      ⟨kept_empty settings, .empty⟩ ?_
    rintro s e s' ⟨hkept, hs⟩ hsmooth hstep
    have hcapacity : s.settings.minSize ≤ s.settings.sizeCapacity := by
      rw [hkept.same]
      exact hroom
    exact ⟨kept_step hkept hstep, hs.step hkept.assigned hcapacity hsmooth hstep⟩
  exact hboth.2

/-- Where `Init` can go no further, its tasks have ended. -/
theorem ended_of_stuck (h : Establishing s) (ha : Assigned s)
    (hstuck : ∀ e, s.smooth e = true → s.step e = none) {a : AttemptPhase}
    (hmem : a ∈ s.attempts) : a.isEnded = true := by
  obtain ⟨i, hi⟩ := List.getElem?_of_mem hmem
  have htrack := h.track a hmem
  cases a with
  | spawned permit =>
    cases permit with
    | none => cases htrack
    | some permit =>
      have hstep := hstuck (.start i) rfl
      simp [PermitPool.step, hi] at hstep
  | waiting => cases htrack
  | entered permit =>
    cases permit with
    | none => cases htrack
    | some permit =>
      have hstep := hstuck (.lockConnecting i) rfl
      simp [PermitPool.step, hi, h.connectingUsed_lt hi] at hstep
  | connecting permit =>
    have hstep := hstuck (.construct i) rfl
    simp [PermitPool.step, hi] at hstep
  | building c stage =>
    cases stage with
    | resolving =>
      have hstep := hstuck (.resolve i 1) rfl
      simp [PermitPool.step, hi] at hstep
    | tcp addresses =>
      have hstep := hstuck (.tcp i true) rfl
      simp [PermitPool.step, hi] at hstep
    | options =>
      have hstep := hstuck (.options i true) rfl
      simp [PermitPool.step, hi] at hstep
    | startup =>
      have hstep := hstuck (.startup i true) rfl
      simp [PermitPool.step, hi] at hstep
  | pushing c =>
    have hstep := hstuck (.push i false) rfl
    have hbuilding := ha.place_of_building hi rfl
    simp only [PermitPool.step, hi, Option.map_eq_none_iff] at hstep
    simp [isBuilding, hstep] at hbuilding
  | ended success => rfl

/-- Where `Init` can go no further it has all its connections. -/
theorem finished (h : Establishing s) (ha : Assigned s)
    (hstuck : ∀ e, s.smooth e = true → s.step e = none) :
    s.Ready ∧ s.pooled = s.settings.minSize := by
  have hlength : s.attempts.length = s.settings.minSize := by
    by_contra hne
    have hmin := h.length_le
    have hspawn := hstuck .spawn rfl
    have hfew : s.attempts.length < s.settings.minSize := by omega
    simp only [PermitPool.step, if_pos hfew] at hspawn
    cases hspawn
  have hended : ∀ a ∈ s.attempts, a.isEnded = true := fun a ↦ h.ended_of_stuck ha hstuck
  refine ⟨⟨Nat.le_of_eq hlength.symm, .inr fun a hmem ↦ hended a (List.mem_of_mem_take hmem)⟩, ?_⟩
  rw [h.pooled, List.countP_eq_length.mpr hended, hlength]

end Establishing

/-! ### A smooth `Init` comes to an end -/

/-- How far a task is from its end. -/
def stepsLeft : AttemptPhase → Nat
  | .spawned _ => 9
  | .waiting => 8
  | .entered _ => 7
  | .connecting _ => 6
  | .building _ .resolving => 5
  | .building _ (.tcp _) => 4
  | .building _ .options => 3
  | .building _ .startup => 2
  | .pushing _ => 1
  | .ended _ => 0

/-- The addresses that a task has left to try. -/
def addressesLeft : AttemptPhase → Nat
  | .building _ (.tcp addresses) => addresses
  | _ => 0

/-- What is left to do, in lexicographic order: tasks to start, stages, addresses. -/
def remaining (s : PermitPool) : Nat × Nat × Nat :=
  (s.settings.minSize - s.attempts.length, (s.attempts.map stepsLeft).sum,
    (s.attempts.map addressesLeft).sum)

/-- The order of what is left. -/
def Less : Nat × Nat × Nat → Nat × Nat × Nat → Prop :=
  Prod.Lex (· < ·) (Prod.Lex (· < ·) (· < ·))

private theorem less_wf : WellFounded Less :=
  Nat.lt_wfRel.wf.prod_lex (Nat.lt_wfRel.wf.prod_lex Nat.lt_wfRel.wf)

private theorem less_of_set {i : Nat} {a b : AttemptPhase} (hi : s.attempts[i]? = some a)
    (hattempts : q.attempts = s.attempts.set i b) (hsettings : q.settings = s.settings)
    (hless : stepsLeft b < stepsLeft a ∨
      stepsLeft b = stepsLeft a ∧ addressesLeft b < addressesLeft a) :
    Less q.remaining s.remaining := by
  have hstages := sum_map_set_add stepsLeft hi b
  have haddresses := sum_map_set_add addressesLeft hi b
  simp only [remaining, hattempts, hsettings, List.length_set]
  refine Prod.Lex.right _ ?_
  rcases hless with hless | ⟨heq, hless⟩
  · exact Prod.Lex.left _ _ (by omega)
  · have hsame : ((s.attempts.set i b).map stepsLeft).sum = (s.attempts.map stepsLeft).sum := by
      omega
    rw [hsame]
    exact Prod.Lex.right _ (by omega)

private theorem Moves.closer {i : Nat} {e : PermitEvent} {a b : AttemptPhase}
    (h : Moves s i e a b) : stepsLeft b < stepsLeft a ∨
      stepsLeft b = stepsLeft a ∧ addressesLeft b < addressesLeft a := by
  cases h with
  | nextAddress hmore =>
    refine .inr ⟨rfl, ?_⟩
    simp only [addressesLeft]
    omega
  | start => exact .inl (by simp [stepsLeft])
  | wait => exact .inl (by simp [stepsLeft])
  | timeout => exact .inl (by simp [stepsLeft])
  | leave => exact .inl (by simp [stepsLeft])
  | lockConnecting => exact .inl (by simp [stepsLeft])
  | resolve => exact .inl (by simp [stepsLeft])
  | tcp => exact .inl (by simp [stepsLeft])
  | options => exact .inl (by simp [stepsLeft])
  | startup => exact .inl (by simp [stepsLeft])

/-- Every smooth step leaves less to do. -/
theorem less_step {e : PermitEvent} (hsmooth : s.smooth e = true) (hstep : s.step e = some q) :
    Less q.remaining s.remaining := by
  cases transition_of_step hstep with
  | spawn hlength =>
    refine Prod.Lex.left _ _ ?_
    unfold connect
    split <;> simp [take] <;> omega
  | tryCreate => cases hsmooth
  | tooMany => cases hsmooth
  | moves hi hmoves =>
    exact less_of_set hi rfl rfl hmoves.closer
  | lockSize hi => exact less_of_set hi rfl rfl (.inl (by simp [stepsLeft]))
  | givesUp hi hgives =>
    cases hgives <;> exact less_of_set hi rfl rfl (.inl (by simp [stepsLeft]))
  | construct hi => exact less_of_set hi rfl rfl (.inl (by simp [stepsLeft]))
  | throws hi hc hthrows =>
    cases hthrows <;> exact less_of_set hi rfl rfl (.inl (by simp [stepsLeft]))
  | store hi hc => exact less_of_set hi rfl rfl (.inl (by simp [stepsLeft]))
  | pushBroken hi hc => exact less_of_set hi rfl rfl (.inl (by simp [stepsLeft]))
  | closes hc hcloses => cases hcloses <;> cases hsmooth
  | closeEnds => cases hsmooth

/-- There is no endless smooth run. -/
theorem smooth_ends (run : Nat → PermitPool)
    (hrun : ∀ n, ∃ e, (run n).smooth e = true ∧ (run n).step e = some (run (n + 1))) : False := by
  have hnone : ∀ left n, (run n).remaining = left → False := by
    intro left
    induction left using less_wf.induction with
    | _ left ih =>
      rintro n rfl
      obtain ⟨e, hsmooth, hstep⟩ := hrun n
      exact ih _ (less_step hsmooth hstep) (n + 1) rfl
  exact hnone _ 0 rfl

/-- When all tasks of `Init` are over, nothing more happens in it. -/
theorem stuck_of_ended (hlength : s.settings.minSize ≤ s.attempts.length)
    (hended : ∀ a ∈ s.attempts, a.isEnded = true) (e : PermitEvent)
    (hsmooth : s.smooth e = true) : s.step e = none := by
  cases hstep : s.step e with
  | none => rfl
  | some q =>
    have hover : ∀ {i : Nat} {a : AttemptPhase}, s.attempts[i]? = some a → a.isEnded = true :=
      fun hi ↦ hended _ (List.mem_of_getElem? hi)
    cases transition_of_step hstep with
    | spawn hlt => omega
    | tryCreate => cases hsmooth
    | tooMany => cases hsmooth
    | moves hi hmoves => cases hmoves <;> cases hover hi
    | lockSize hi => cases hover hi
    | givesUp hi hgives => cases hgives <;> cases hover hi
    | construct hi => cases hover hi
    | throws hi => cases hover hi
    | store hi => cases hover hi
    | pushBroken hi => cases hover hi
    | closes hc hcloses => cases hcloses <;> cases hsmooth
    | closeEnds => cases hsmooth

/-! ### How far the pool can grow -/

/-- The pool after `n` successful connects. -/
def established (settings : LimitSettings) (n : Nat) : PermitPool where
  settings := settings
  used := n
  issued := n
  attempts := List.replicate n (.ended true)
  connections := (List.range n).map (fun permit ↦ ⟨some permit, .pooled, false, false⟩)
  closeTasks := []

/-- A task with a permit connects, and nothing else happens. -/
theorem reaches_pooled {init : PermitPool} {attempts : List AttemptPhase}
    {connections : List PermitConnection} {used issued permit : Nat}
    (hidle : attempts.countP AttemptPhase.inProgress = 0)
    (h : Reaches step (fun _ _ ↦ True) init
      ⟨settings, used, issued, attempts ++ [.spawned (some permit)], connections, []⟩) :
    Reaches step (fun _ _ ↦ True) init ⟨settings, used, issued, attempts ++ [.ended true],
      connections ++ [⟨some permit, .pooled, false, false⟩], []⟩ := by
  have hlock : (attempts ++ [AttemptPhase.entered (some permit)]).countP AttemptPhase.inProgress <
      sizeMax := by
    simp [List.countP_append, hidle, AttemptPhase.inProgress, sizeMax]
  have hstart : Reaches step (fun _ _ ↦ True) init
      ⟨settings, used, issued, attempts ++ [.entered (some permit)], connections, []⟩ :=
    h.step (e := .start attempts.length) trivial (by simp [step, setAttempt])
  have hconnecting : Reaches step (fun _ _ ↦ True) init
      ⟨settings, used, issued, attempts ++ [.connecting permit], connections, []⟩ := by
    refine hstart.step (e := .lockConnecting attempts.length) trivial ?_
    have hfree : PermitPool.connectingUsed ⟨settings, used, issued,
        attempts ++ [.entered (some permit)], connections, []⟩ < settings.connectingCapacity :=
      hlock
    simp [step, hfree, setAttempt]
  have hresolving : Reaches step (fun _ _ ↦ True) init ⟨settings, used, issued,
      attempts ++ [.building connections.length .resolving],
      connections ++ [⟨some permit, .building, false, false⟩], []⟩ :=
    hconnecting.step (e := .construct attempts.length) trivial (by simp [step, beginBuild])
  have htcp : Reaches step (fun _ _ ↦ True) init ⟨settings, used, issued,
      attempts ++ [.building connections.length (.tcp 1)],
      connections ++ [⟨some permit, .building, false, false⟩], []⟩ :=
    hresolving.step (e := .resolve attempts.length 1) trivial (by simp [step, setAttempt])
  have hoptions : Reaches step (fun _ _ ↦ True) init ⟨settings, used, issued,
      attempts ++ [.building connections.length .options],
      connections ++ [⟨some permit, .building, false, false⟩], []⟩ :=
    htcp.step (e := .tcp attempts.length true) trivial (by simp [step, setAttempt])
  have hstartup : Reaches step (fun _ _ ↦ True) init ⟨settings, used, issued,
      attempts ++ [.building connections.length .startup],
      connections ++ [⟨some permit, .building, false, false⟩], []⟩ :=
    hoptions.step (e := .options attempts.length true) trivial (by simp [step, setAttempt])
  have hpushing : Reaches step (fun _ _ ↦ True) init ⟨settings, used, issued,
      attempts ++ [.pushing connections.length],
      connections ++ [⟨some permit, .building, false, false⟩], []⟩ :=
    hstartup.step (e := .startup attempts.length true) trivial (by simp [step, setAttempt])
  exact hpushing.step (e := .push attempts.length false) trivial
    (by simp [step, store])

/-- As long as there are permits the pool can grow. -/
theorem reaches_established {n : Nat} (hn : n ≤ settings.sizeCapacity) :
    Reaches step (fun _ _ ↦ True) (empty settings) (established settings n) := by
  induction n with
  | zero => exact .init
  | succ n ih =>
    have hbefore := ih (by omega)
    have hidle :
        (List.replicate n (AttemptPhase.ended true)).countP AttemptPhase.inProgress = 0 := by
      simp [List.countP_replicate, AttemptPhase.inProgress]
    have hconnect : (established settings n).connect = ⟨settings, n + 1, n + 1,
        List.replicate n (.ended true) ++ [.spawned (some n)],
        (established settings n).connections, []⟩ := by
      unfold connect
      rw [if_pos (show (established settings n).SizeFree from hn)]
      rfl
    have hspawned : Reaches step (fun _ _ ↦ True) (empty settings)
        (established settings n).connect := by
      by_cases hmin : n < settings.minSize
      · refine hbefore.step (e := .spawn) trivial ?_
        simp [step, established, hmin]
      · refine hbefore.step (e := .tryCreate true true) trivial ?_
        have hready : (established settings n).Ready := by
          refine ⟨?_, .inr fun a ha ↦ ?_⟩
          · simp only [established, List.length_replicate]
            omega
          · have hended := List.eq_of_mem_replicate (List.mem_of_mem_take ha)
            rw [hended]
            rfl
        simp [step, hready]
    rw [hconnect] at hspawned
    have hpooled := reaches_pooled hidle hspawned
    have hgoal : established settings (n + 1) = ⟨settings, n + 1, n + 1,
        List.replicate n (.ended true) ++ [.ended true],
        (established settings n).connections ++ [⟨some n, .pooled, false, false⟩], []⟩ := by
      simp [established, List.replicate_succ', List.range_succ]
    rw [hgoal]
    exact hpooled

end PermitPool

/-- Pool sizing: the limits mean what they are documented to mean exactly when the capacity made
from `connecting_limit` is `max_size`. -/
theorem limits_respected_iff {settings : LimitSettings} {s₀ : PermitPool}
    (hinit : PermitPool.init settings = .ok s₀) :
    settings.Respected ↔ settings.sizeCapacity = settings.maxSize := by
  constructor
  · intro h
    by_contra hne
    rcases Nat.lt_or_gt_of_ne hne with hlt | hgt
    · have hfull := h.refused _ (PermitPool.reaches_established (Nat.le_refl _))
        (Nat.lt_irrefl settings.sizeCapacity)
      change settings.maxSize ≤ settings.sizeCapacity at hfull
      omega
    · have hlive := h.bounded _ (PermitPool.reaches_established (n := settings.maxSize + 1) hgt)
      have hcount : (PermitPool.established settings (settings.maxSize + 1)).live =
          settings.maxSize + 1 := by
        simp [PermitPool.live, PermitPool.established, List.countP_eq_length.mpr]
      omega
  · intro hcapacity
    have hmin : settings.minSize ≤ settings.maxSize := by
      unfold PermitPool.init at hinit
      split at hinit
      · cases hinit
      · omega
    refine ⟨?_, ?_, ?_, ?_, ?_⟩
    · intro s hs
      have hkept := PermitPool.kept_of_reaches hs
      obtain ⟨returned, hconserved⟩ := hkept.conserved
      calc s.live ≤ s.used := PermitPool.live_le_used hconserved
        _ ≤ settings.sizeCapacity := hkept.used_le
        _ = settings.maxSize := hcapacity
    · intro hlimit s hs
      have hkept := PermitPool.kept_of_reaches hs
      obtain ⟨returned, hconserved⟩ := hkept.conserved
      calc s.connectingUsed ≤ s.used :=
            PermitPool.connectingUsed_le_used hkept.assigned hconserved
        _ ≤ settings.sizeCapacity := hkept.used_le
        _ = settings.connectingLimit := if_pos hlimit
    · intro s hs hfull
      have hkept := PermitPool.kept_of_reaches hs
      unfold PermitPool.SizeFree at hfull
      rw [hkept.same] at hfull
      omega
    · rintro - ⟨run, -, hrun⟩
      exact PermitPool.smooth_ends run hrun
    · intro _ s hs hstuck
      have hkept := PermitPool.kept_of_reaches hs
      have hestablishing := PermitPool.Establishing.of_smooth (by omega) hs
      rw [← hkept.same]
      exact hestablishing.finished hkept.assigned hstuck

private theorem one_le_sizeMax : 1 ≤ sizeMax := by decide

private theorem two_le_sizeMax : 2 ≤ sizeMax := by decide

/-- One connect at a time, for two connections. -/
def oneAtATime : LimitSettings where
  minSize := 2
  maxSize := 2
  async := false
  connectingLimit := 1
  minSize_le := two_le_sizeMax
  maxSize_le := two_le_sizeMax
  connectingLimit_le := one_le_sizeMax

/-- A synchronous `Init` whose first connect succeeds; the permit that the second waits for is
not released in time. -/
def secondTimesOut : List PermitEvent :=
  [.spawn, .spawn, .start 0, .start 1, .lockConnecting 0, .construct 0, .resolve 0 1, .tcp 0 true,
   .options 0 true, .startup 0 true, .push 0 false, .sizeTimeout 1 false, .leave 1]

/-- It ends with one connection instead of two. -/
theorem oneAtATime_not_respected :
    PermitPool.init oneAtATime = .ok (.empty oneAtATime) ∧ ¬ oneAtATime.Respected := by
  refine ⟨rfl, fun h ↦ ?_⟩
  obtain ⟨s, hs, hattempts, hmin, hpooled⟩ := Reaches.exists_of_runIf PermitPool.step
    (fun s e ↦ s.smooth e = true) (.empty oneAtATime) secondTimesOut
    (fun s ↦ s.attempts = [.ended true, .ended false] ∧ s.settings.minSize = 2 ∧ s.pooled = 1)
    (by decide +kernel)
  have hstuck := PermitPool.stuck_of_ended (s := s) (by simp [hattempts, hmin])
    (by simp [hattempts, AttemptPhase.isEnded])
  have htwo : s.pooled = 2 := (h.initial rfl s hs hstuck).2
  omega

/-- As many connects at a time as connections. -/
def allAtOnce : LimitSettings where
  minSize := 1
  maxSize := 2
  async := false
  connectingLimit := 2
  minSize_le := one_le_sizeMax
  maxSize_le := two_le_sizeMax
  connectingLimit_le := two_le_sizeMax

/-- These settings are respected. -/
theorem allAtOnce_respected :
    PermitPool.init allAtOnce = .ok (.empty allAtOnce) ∧ allAtOnce.Respected :=
  ⟨rfl, (limits_respected_iff (rfl : PermitPool.init allAtOnce = .ok _)).mpr rfl⟩

end CassandraDriver.Detail
