import CassandraDriver.Detail.PoolPermits

/-!
# Conservation of size permits

Library `Detail`. Every place that can hold a lock of `_size_semaphore` is a slot of a ledger;
each way in which a step moves permits keeps the ledger balanced.
-/

namespace CassandraDriver.Detail
open CassandraDriver.Lib

namespace PermitPool

variable {s q : PermitPool} {returned : List Nat}

/-- Every place that can have a permit. -/
def slots (s : PermitPool) : List (Option Nat) :=
  s.attempts.map AttemptPhase.permit? ++ s.connections.map PermitConnection.permit ++
    s.closeTasks.map CloseTask.permit

/-- The permits that a step gives back to the semaphore. -/
def returns (s : PermitPool) : PermitEvent → List Nat
  | .cancel i => (s.attempts[i]?.bind AttemptPhase.permit?).toList
  | .connectingTimeout i _ => (s.attempts[i]?.bind AttemptPhase.permit?).toList
  | .allocationFails i => (s.attempts[i]?.bind AttemptPhase.permit?).toList
  | .closeEnds k => (s.closeTasks[k]?.bind CloseTask.permit).toList
  | _ => []

private theorem count_slots (s : PermitPool) (x : Option Nat) :
    s.slots.count x = (s.attempts.map AttemptPhase.permit?).count x +
      (s.connections.map PermitConnection.permit).count x +
      (s.closeTasks.map CloseTask.permit).count x := by
  simp only [slots, List.count_append]

/-- The semaphore's count is right, and so are the marks of closed connections and finished
tasks. -/
structure Conserved (s : PermitPool) (returned : List Nat) : Prop where
  balanced : Balanced s.slots returned s.issued
  used : s.used + returned.length = s.issued
  closed : ∀ c ∈ s.connections, c.closed = c.permit.isNone
  finished : ∀ t ∈ s.closeTasks, t.finished = true → t.permit = none

namespace Conserved

/-- In a new pool every permit is free. -/
theorem empty (settings : LimitSettings) : Conserved (empty settings) [] := by
  refine ⟨.nil, rfl, ?_, ?_⟩
  · intro c hc
    cases hc
  · intro t ht
    cases ht

/-- A task moves on with what it has. -/
theorem setAttempt (h : Conserved s returned) {i : Nat} {a b : AttemptPhase}
    (hi : s.attempts[i]? = some a) (hpermit : b.permit? = a.permit?) :
    Conserved (s.setAttempt i b) returned := by
  refine ⟨h.balanced.move (fun x ↦ ?_), h.used, h.closed, h.finished⟩
  have hcount := count_map_set_add AttemptPhase.permit? hi b (some x)
  rw [hpermit] at hcount
  simp only [count_slots, PermitPool.setAttempt]
  omega

/-- A new permit goes to a new task or to one that has waited for it. -/
theorem issue (h : Conserved s returned) {attempts : List AttemptPhase}
    (hattempts : ∀ x, (attempts.map AttemptPhase.permit?).count (some x) =
      (s.attempts.map AttemptPhase.permit?).count (some x) + if x = s.issued then 1 else 0) :
    Conserved { s.take with attempts := attempts } returned := by
  refine ⟨h.balanced.issue (fun x ↦ ?_), ?_, h.closed, h.finished⟩
  · have hcount := hattempts x
    simp only [count_slots, take]
    omega
  · have hused := h.used
    change s.used + 1 + returned.length = s.issued + 1
    omega

/-- A connect task is started. -/
theorem connect (h : Conserved s returned) : Conserved s.connect returned := by
  unfold PermitPool.connect
  split
  · refine h.issue (fun x ↦ ?_)
    simp only [List.map_append, List.map_cons, List.map_nil, List.count_append,
      AttemptPhase.permit?, List.count_singleton, Option.some_beq_some, beq_iff_eq,
      eq_comm (a := s.issued)]
  · refine ⟨h.balanced.move (fun x ↦ ?_), h.used, h.closed, h.finished⟩
    simp [count_slots, AttemptPhase.permit?]

/-- A slot of a task or of a close task is emptied and the semaphore gets its permit. -/
theorem release (h : Conserved s returned) {permit : Option Nat}
    (hused : q.used = s.used - permit.toList.length) (hissued : q.issued = s.issued)
    (hslots : ∀ x, q.slots.count (some x) + (if permit = some x then 1 else 0) =
      s.slots.count (some x))
    (hclosed : ∀ c ∈ q.connections, c.closed = c.permit.isNone)
    (hfinished : ∀ t ∈ q.closeTasks, t.finished = true → t.permit = none) :
    Conserved q (permit.toList ++ returned) := by
  cases permit with
  | none =>
    refine ⟨?_, ?_, hclosed, hfinished⟩
    · rw [hissued]
      exact h.balanced.move (fun x ↦ by simpa using hslots x)
    · rw [hused, hissued]
      exact h.used
  | some token =>
    have hback : Balanced q.slots (token :: returned) s.issued := by
      refine h.balanced.giveBack (fun x ↦ ?_)
      have hx := hslots x
      simpa using hx
    have hheld : 0 < s.slots.countP Option.isSome := by
      have htoken := hslots token
      rw [if_pos rfl] at htoken
      exact List.countP_pos_iff.mpr ⟨some token, List.count_pos_iff.mp (by omega), rfl⟩
    refine ⟨hissued ▸ hback, ?_, hclosed, hfinished⟩
    have htotal := h.balanced.total
    have hs := h.used
    simp only [Option.toList_some, List.length_singleton] at hused
    simp only [Option.toList_some, List.singleton_append, List.length_cons]
    omega

/-- `ConnectionImpl::Close`. -/
theorem closeImpl (h : Conserved s returned) {c : Nat} {conn : PermitConnection}
    (hc : s.connections[c]? = some conn) (destroys : Bool) :
    Conserved (s.closeImpl c conn destroys) returned := by
  refine ⟨h.balanced.move (fun x ↦ ?_), h.used, ?_, ?_⟩
  · have hcount :=
      count_map_set_add PermitConnection.permit hc ⟨none, .out, true, destroys⟩ (some x)
    simp only [count_slots, PermitPool.closeImpl, List.map_append, List.count_append, List.map_cons,
      List.map_nil, List.count_singleton]
    simp only [Option.none_beq_some, Bool.false_eq_true, if_false, add_zero, beq_iff_eq] at hcount ⊢
    omega
  · intro d hd
    rcases List.mem_or_eq_of_mem_set hd with hd | rfl
    · exact h.closed d hd
    · rfl
  · intro t ht hfinished
    rcases List.mem_append.mp ht with ht | ht
    · exact h.finished t ht hfinished
    · cases List.mem_singleton.mp ht
      cases hfinished

/-- A task ends and gives its permit back. -/
theorem giveUp (h : Conserved s returned) {i : Nat} {a : AttemptPhase}
    (hi : s.attempts[i]? = some a) :
    Conserved ((s.release a.permit?).setAttempt i (.ended false))
      (a.permit?.toList ++ returned) := by
  refine h.release rfl rfl (fun x ↦ ?_) h.closed h.finished
  have hcount := count_map_set_add AttemptPhase.permit? hi (.ended false) (some x)
  simp only [AttemptPhase.permit?_ended, beq_iff_eq, reduceCtorEq, if_false] at hcount
  simp only [count_slots, PermitPool.setAttempt, PermitPool.release]
  omega

/-- The constructor of `ConnectionImpl` moves the permit out of the task. -/
theorem beginBuild (h : Conserved s returned) {i permit : Nat}
    (hi : s.attempts[i]? = some (.connecting permit)) :
    Conserved (s.beginBuild i permit) returned := by
  refine ⟨h.balanced.move (fun x ↦ ?_), h.used, ?_, h.finished⟩
  · have hcount := count_map_set_add AttemptPhase.permit? hi
      (.building s.connections.length .resolving) (some x)
    simp only [AttemptPhase.permit?, beq_iff_eq, reduceCtorEq, if_false] at hcount
    simp only [count_slots, PermitPool.beginBuild, List.map_append, List.count_append,
      List.map_cons, List.map_nil, List.count_singleton, beq_iff_eq]
    omega
  · intro c hc
    rcases List.mem_append.mp hc with hc | hc
    · exact h.closed c hc
    · cases List.mem_singleton.mp hc
      rfl

/-- `Push` changes no permit. -/
theorem store (h : Conserved s returned) {i c : Nat} {conn : PermitConnection}
    (hi : s.attempts[i]? = some (.pushing c)) (hc : s.connections[c]? = some conn) :
    Conserved (s.store i c conn) returned := by
  refine ⟨h.balanced.move (fun x ↦ ?_), h.used, ?_, h.finished⟩
  · have hattempts := count_map_set_add AttemptPhase.permit? hi (.ended true) (some x)
    have hconns := count_map_set_add PermitConnection.permit hc
      { conn with place := .pooled } (some x)
    simp only [AttemptPhase.permit?, beq_iff_eq, reduceCtorEq, if_false] at hattempts
    simp only [beq_iff_eq] at hconns
    simp only [count_slots, PermitPool.store]
    omega
  · intro d hd
    rcases List.mem_or_eq_of_mem_set hd with hd | rfl
    · exact h.closed d hd
    · exact h.closed conn (List.mem_of_getElem? hc)

/-- A close task ends. -/
theorem closeEnds (h : Conserved s returned) {k : Nat} {task : CloseTask}
    (hk : s.closeTasks[k]? = some task) :
    Conserved { s.release task.permit with closeTasks := s.closeTasks.set k ⟨none, true⟩ }
      (task.permit.toList ++ returned) := by
  refine h.release rfl rfl (fun x ↦ ?_) h.closed ?_
  · have hcount := count_map_set_add CloseTask.permit hk ⟨none, true⟩ (some x)
    simp only [beq_iff_eq, reduceCtorEq, if_false] at hcount
    simp only [count_slots, PermitPool.release]
    omega
  · intro t ht hfinished
    rcases List.mem_or_eq_of_mem_set ht with ht | rfl
    · exact h.finished t ht hfinished
    · rfl

/-- Every step conserves the permits. -/
theorem step (h : Conserved s returned) {e : PermitEvent} (hstep : s.step e = some q) :
    Conserved q (s.returns e ++ returned) := by
  cases transition_of_step hstep with
  | spawn hlength => exact h.connect
  | tryCreate hready => exact h.connect
  | tooMany hready => exact h
  | @moves e i a b hi hmoves =>
    cases hmoves <;> exact h.setAttempt hi rfl
  | @lockSize i hi hfree =>
    refine h.issue (fun x ↦ ?_)
    have hcount := count_map_set_add AttemptPhase.permit? hi (.entered (some s.issued)) (some x)
    simp only [AttemptPhase.permit?, beq_iff_eq, reduceCtorEq, if_false,
      Option.some.injEq] at hcount
    simp only [take, eq_comm (a := x)]
    omega
  | @givesUp e i a hi hgives =>
    have hreturned := h.giveUp hi
    cases hgives with
    | cancel => simpa [returns, hi] using hreturned
    | connectingTimeout hfull => simpa [returns, hi] using hreturned
    | allocationFails => simpa [returns, hi] using hreturned
  | construct hi => exact h.beginBuild hi
  | @throws e i c stage conn hi hc hthrows =>
    have hclosed := (h.closeImpl hc true).setAttempt (b := .ended false) hi rfl
    cases hthrows <;> exact hclosed
  | store hi hc => exact h.store hi hc
  | pushBroken hi hc => exact (h.closeImpl hc true).setAttempt hi rfl
  | @closes e c conn destroys hc hcloses =>
    have hclosed := h.closeImpl hc destroys
    cases hcloses <;> exact hclosed
  | @closeEnds k task hk hfinished =>
    have hreturned := h.closeEnds hk
    simpa [returns, hk] using hreturned

end Conserved

/-- Connect tasks that hold a permit. -/
def holdingAttempts (s : PermitPool) : Nat := s.attempts.countP (fun a ↦ a.permit?.isSome)

/-- Connections on which `Close` has not been called. -/
def notClosed (s : PermitPool) : Nat := s.connections.countP (fun c ↦ !c.closed)

/-- Close tasks under way with a permit. -/
def carryingTasks (s : PermitPool) : Nat :=
  s.closeTasks.countP (fun t ↦ !t.finished && t.permit.isSome)

/-- The places that have a certain permit. -/
def holders (s : PermitPool) (permit : Nat) : Nat := s.slots.count (some permit)

/-- Size permits are conserved in every run: those taken from the semaphore are those of the
connect tasks, of the connections that are not closed and of the close tasks under way, and
each permit that was ever taken is in exactly one place or has been returned exactly once. -/
theorem permits_conserved {settings : LimitSettings} {s₀ : PermitPool} {s : PermitPool}
    {returned : List Nat} (hinit : init settings = .ok s₀)
    (hreach : Reaches (recording step returns) (fun _ _ ↦ True) (s₀, []) (s, returned)) :
    s.used = s.holdingAttempts + s.notClosed + s.carryingTasks ∧
    (∀ permit < s.issued, s.holders permit + returned.count permit = 1) ∧
    (∀ permit ∈ returned, permit < s.issued) := by
  have h : Conserved s returned := by
    refine hreach.invariant (P := fun x ↦ Conserved x.1 x.2) ?_ ?_
    · rw [init_eq_ok hinit]
      exact .empty settings
    · intro x e x' hx _ hstep
      obtain ⟨hpool, hreturned⟩ := recording_eq_some hstep
      rw [hreturned]
      exact hx.step hpool
  refine ⟨?_, ?_, ?_⟩
  · have htotal := h.balanced.total
    have hused := h.used
    have hconns : (s.connections.map PermitConnection.permit).countP Option.isSome =
        s.notClosed := by
      rw [List.countP_map]
      refine List.countP_congr (fun c hc ↦ ?_)
      simp [h.closed c hc]
    have htasks : (s.closeTasks.map CloseTask.permit).countP Option.isSome = s.carryingTasks := by
      rw [List.countP_map]
      refine List.countP_congr (fun t ht ↦ ?_)
      by_cases hfinished : t.finished = true
      · simp [hfinished, h.finished t ht hfinished]
      · simp [hfinished]
    have hattempts : (s.attempts.map AttemptPhase.permit?).countP Option.isSome =
        s.holdingAttempts := List.countP_map
    simp only [slots, List.countP_append, hattempts, hconns, htasks] at htotal
    omega
  · intro permit hpermit
    have hone := h.balanced permit
    rwa [if_pos hpermit] at hone
  · intro permit hpermit
    have hcount := List.count_pos_iff.mpr hpermit
    have hone := h.balanced permit
    by_contra hlt
    rw [if_neg hlt] at hone
    omega

/-- The defaults of `options.hpp` on a small scale. -/
def twoOfThree : LimitSettings where
  minSize := 2
  maxSize := 3
  async := true
  connectingLimit := 0
  minSize_le := by decide
  maxSize_le := by decide
  connectingLimit_le := by decide

/-- One connect fails in its handshake; the other connection is closed by `Maintain` and then
deleted. -/
def closedTwice : List PermitEvent :=
  [.spawn, .spawn, .start 0, .start 1, .lockConnecting 0, .lockConnecting 1, .construct 0,
   .construct 1, .resolve 0 2, .resolve 1 1, .tcp 0 false, .tcp 0 true, .tcp 1 true,
   .options 1 true, .startup 1 true, .push 1 false, .options 0 false, .closeEnds 0, .close 1,
   .closeEnds 1, .destroy 1, .closeEnds 2]

/-- A connection that is closed twice returns its permit once. -/
theorem permits_conserved_closedTwice : ∃ s₀ s returned, init twoOfThree = .ok s₀ ∧
    Reaches (recording step returns) (fun _ _ ↦ True) (s₀, []) (s, returned) ∧
    returned = [1, 0] ∧ s.used = 0 ∧ s.holders 1 + returned.count 1 = 1 := by
  obtain ⟨⟨s, returned⟩, hs, hreturned, hused, hissued⟩ := Reaches.exists_of_runIf
    (recording step returns) (fun _ _ ↦ True) (empty twoOfThree, []) closedTwice
    (fun x ↦ x.2 = [1, 0] ∧ x.1.used = 0 ∧ x.1.issued = 2) (by decide +kernel)
  have hconserved := permits_conserved (rfl : init twoOfThree = .ok _) hs
  have htwo : s.issued = 2 := hissued
  exact ⟨_, s, returned, rfl, hs, hreturned, hused, hconserved.2.1 1 (by omega)⟩

end PermitPool
end CassandraDriver.Detail
