import CassandraDriver.Detail.PreparedCache
import CassandraDriver.Lib.History

/-!
# Recovery from Unprepared

Library `Detail`. What happens to an id that the node rejects with Unprepared. Only a ping of
`Maintain` with an id from the map clears the map; `Execute` and `BatchExecute` pass the
exception on, against the comment in `src/detail/connection_pool.cpp:321`.
-/

namespace CassandraDriver.Detail
open CassandraDriver.Lib CassandraDriver.Protocol

/-- What can be seen of the calls: one begins, PREPARE is sent, a call sends an id for a
statement, or has failed with Unprepared for it. -/
inductive Observation
  | begins (call : Nat)
  | prepares (statement : Statement)
  | sends (call : Nat) (statement : Statement) (id : StatementId)
  | rejected (statement : Statement) (id : StatementId)
  deriving DecidableEq, Repr

/-- A call that sends an id did not begin between a failure with that id and the next PREPARE
of its statement. -/
def Recovers (history : List Observation) : Prop :=
  ∀ call s id later earlier since, history = later ++ .sends call s id :: earlier →
    OpenSince earlier (.rejected s id) (.prepares s) since → .begins call ∉ since

/-- What is seen with some more observations. -/
theorem Recovers.append {history observed : List Observation} (h : Recovers history)
    (hobserved : ∀ call s id later earlier since, observed = later ++ .sends call s id :: earlier →
      OpenSince (earlier ++ history) (.rejected s id) (.prepares s) since → .begins call ∉ since) :
    Recovers (observed ++ history) := by
  intro call s id later earlier since heq hopen
  rcases List.append_eq_append_iff.mp heq with ⟨later', rfl, hhistory⟩ | ⟨rest, rfl, hhistory⟩
  · exact h call s id later' earlier since hhistory hopen
  · cases rest with
    | nil => exact h call s id [] earlier since hhistory.symm hopen
    | cons o rest =>
      cases hhistory
      exact hobserved call s id later rest since rfl hopen

/-- Observations without a send add nothing. -/
theorem Recovers.append_silent {history observed : List Observation} (h : Recovers history)
    (hsends : ∀ call s id, .sends call s id ∉ observed) : Recovers (observed ++ history) := by
  refine h.append (fun call s id later earlier since heq ↦ ?_)
  exact absurd (by simp [heq]) (hsends call s id)

namespace PreparedPool

/-- What a step shows. -/
def observe (p : PreparedPool) : PreparedEvent → List Observation
  | .begin .. => [.begins p.begun]
  | .sendPrepare i =>
    match (p.calls i).phase with
    | .missed s .. => [.prepares s]
    | _ => []
  | .send i =>
    match (p.calls i).phase with
    | .collecting [] used => used.map (fun u ↦ .sends i u.statement u.id)
    | _ => []
  | .finish i => (p.rejections i).map (fun u ↦ .rejected u.statement u.id)
  | _ => []

/-- The ids with which a call fails in a step. -/
def rejectedBy (p : PreparedPool) : PreparedEvent → List UsedId
  | .finish i => p.rejections i
  | _ => []

/-- The map is cleared in a step. -/
def invalidatedBy (p : PreparedPool) : PreparedEvent → Bool
  | .finish i => p.invalidates i
  | _ => false

/-- When a call fails with an id that the node has forgotten, it is a ping with an id from the
map, or the map no longer holds this id for the statement; and no call is between its PREPARE
of the statement and its `Put`. -/
def FailsHarmlessly (p : PreparedPool) (e : PreparedEvent) : Prop :=
  ∀ u ∈ p.rejectedBy e,
    (p.invalidatedBy e = true ∨ p.cache u.statement ≠ some u.id) ∧
    ∀ j < p.begun, (p.calls j).phase.preparing? ≠ some u.statement

instance (p : PreparedPool) (e : PreparedEvent) : Decidable (p.FailsHarmlessly e) :=
  inferInstanceAs (Decidable (∀ u ∈ _, _))

/-- An id that was rejected and not prepared since is neither in the map nor on its way there,
and no call that has begun since has it. -/
structure Recovering (p : PreparedPool) (history : List Observation) : Prop where
  recovers : Recovers history
  unborn : ∀ j, p.begun ≤ j → (p.calls j).phase = .over
  cache : ∀ s id since, OpenSince history (.rejected s id) (.prepares s) since →
    p.cache s ≠ some id
  preparing : ∀ s id since, OpenSince history (.rejected s id) (.prepares s) since →
    ∀ j, (p.calls j).phase.preparing? ≠ some s
  used : ∀ s id since, OpenSince history (.rejected s id) (.prepares s) since →
    ∀ j, .begins j ∈ since → ∀ u ∈ (p.calls j).phase.used, ¬ (u.statement = s ∧ u.id = id)

/-- Every rejection of an id of the statement has been followed by a PREPARE of it. -/
def Closed (history : List Observation) (s : Statement) : Prop :=
  ∀ id since, ¬ OpenSince history (.rejected s id) (.prepares s) since

namespace Recovering

variable {p q : PreparedPool} {history observed : List Observation}

private theorem closed_of_preparing (h : Recovering p history) {i : Nat} {s : Statement}
    (hi : (p.calls i).phase.preparing? = some s) : Closed history s :=
  fun id since hopen ↦ h.preparing s id since hopen i hi

/-- The pool changes and nothing is seen of it. -/
theorem change (h : Recovering p history)
    (hunborn : ∀ j, q.begun ≤ j → (q.calls j).phase = .over)
    (hcache : ∀ s id, q.cache s = some id → p.cache s = some id ∨ Closed history s)
    (hpreparing : ∀ j s, (q.calls j).phase.preparing? = some s →
      (p.calls j).phase.preparing? = some s ∨ Closed history s)
    (hused : ∀ j, ∀ u ∈ (q.calls j).phase.used,
      u ∈ (p.calls j).phase.used ∨ p.cache u.statement = some u.id ∨ Closed history u.statement) :
    Recovering q history := by
  refine ⟨h.recovers, hunborn, ?_, ?_, ?_⟩
  · intro s id since hopen hs
    rcases hcache s id hs with hp | hclosed
    · exact h.cache s id since hopen hp
    · exact hclosed id since hopen
  · intro s id since hopen j hj
    rcases hpreparing j s hj with hp | hclosed
    · exact h.preparing s id since hopen j hp
    · exact hclosed id since hopen
  · rintro s id since hopen j hbegins u hu ⟨rfl, rfl⟩
    rcases hused j u hu with hp | hp | hclosed
    · exact h.used _ _ since hopen j hbegins u hp ⟨rfl, rfl⟩
    · exact h.cache _ _ since hopen hp
    · exact hclosed _ since hopen

/-- Something is seen, but no rejection. -/
theorem extend (h : Recovering p history) (hrecovers : Recovers (observed ++ history))
    (hrejected : ∀ s id, .rejected s id ∉ observed)
    (hbegins : ∀ j, .begins j ∈ observed → (p.calls j).phase.used = []) :
    Recovering p (observed ++ history) := by
  have hbefore : ∀ {s id since},
      OpenSince (observed ++ history) (.rejected s id) (.prepares s) since →
      ∃ since', since = observed ++ since' ∧
        OpenSince history (.rejected s id) (.prepares s) since' := by
    intro s id since hopen
    rcases hopen.of_append with ⟨since', rfl, -, hold⟩ | ⟨hnew, -⟩
    · exact ⟨since', rfl, hold⟩
    · exact absurd hnew (hrejected s id)
  refine ⟨hrecovers, h.unborn, ?_, ?_, ?_⟩
  · intro s id since hopen
    obtain ⟨since', -, hold⟩ := hbefore hopen
    exact h.cache s id since' hold
  · intro s id since hopen
    obtain ⟨since', -, hold⟩ := hbefore hopen
    exact h.preparing s id since' hold
  · intro s id since hopen j hj u hu
    obtain ⟨since', rfl, hold⟩ := hbefore hopen
    rcases List.mem_append.mp hj with hj | hj
    · rw [hbegins j hj] at hu
      cases hu
    · exact h.used s id since' hold j hj u hu

/-- A call has failed with ids that are not in the map and not on their way there. -/
theorem reject (h : Recovering p history) {us : List UsedId}
    (hus : ∀ u ∈ us, p.cache u.statement ≠ some u.id ∧
      ∀ j, (p.calls j).phase.preparing? ≠ some u.statement) :
    Recovering p (us.map (fun u ↦ .rejected u.statement u.id) ++ history) := by
  have hmem : ∀ {s id}, Observation.rejected s id ∈ us.map (fun u ↦ .rejected u.statement u.id) →
      p.cache s ≠ some id ∧ ∀ j, (p.calls j).phase.preparing? ≠ some s := by
    intro s id hm
    obtain ⟨u, hu, heq⟩ := List.mem_map.mp hm
    cases heq
    exact hus u hu
  refine ⟨h.recovers.append_silent (by simp), h.unborn, ?_, ?_, ?_⟩
  · intro s id since hopen
    rcases hopen.of_append with ⟨since', -, -, hold⟩ | ⟨hnew, -⟩
    · exact h.cache s id since' hold
    · exact (hmem hnew).1
  · intro s id since hopen
    rcases hopen.of_append with ⟨since', -, -, hold⟩ | ⟨hnew, -⟩
    · exact h.preparing s id since' hold
    · exact (hmem hnew).2
  · intro s id since hopen j hj
    rcases hopen.of_append with ⟨since', rfl, -, hold⟩ | ⟨-, hsince⟩
    · rcases List.mem_append.mp hj with hj | hj
      · simp at hj
      · exact h.used s id since' hold j hj
    · have hbegins := hsince _ hj
      simp at hbegins

/-- A call that is under way moves on with the ids it has. -/
theorem setPhase (h : Recovering p history) {i : Nat} {phase : PreparePhase}
    (hi : (p.calls i).phase ≠ .over)
    (hpreparing : ∀ s, phase.preparing? = some s →
      (p.calls i).phase.preparing? = some s ∨ Closed history s)
    (hused : ∀ u ∈ phase.used, u ∈ (p.calls i).phase.used ∨ p.cache u.statement = some u.id ∨
      Closed history u.statement) : Recovering (p.setPhase i phase) history := by
  refine h.change ?_ (fun s id hs ↦ .inl hs) ?_ ?_
  · intro j hj
    rw [setPhase_phase, if_neg]
    · exact h.unborn j hj
    · rintro rfl
      exact hi (h.unborn j hj)
  · intro j s hj
    rw [setPhase_phase] at hj
    split at hj
    · next heq =>
      subst heq
      exact hpreparing s hj
    · exact .inl hj
  · intro j u hu
    rw [setPhase_phase] at hu
    split at hu
    · next heq =>
      subst heq
      exact hused u hu
    · exact .inl hu

private theorem settle (h : Recovering p history) {i : Nat} {phase : PreparePhase}
    (hi : (p.calls i).phase ≠ .over) (hpreparing : phase.preparing? = none)
    (hused : phase.used = []) : Recovering (p.setPhase i phase) history := by
  refine h.setPhase hi (fun s hs ↦ ?_) (fun u hu ↦ ?_)
  · rw [hpreparing] at hs
    cases hs
  · rw [hused] at hu
    cases hu

private theorem shrink (h : Recovering p history) {cache : Statement → Option StatementId}
    (hcache : ∀ s id, cache s = some id → p.cache s = some id) :
    Recovering { p with cache := cache } history :=
  h.change h.unborn (fun s id hs ↦ .inl (hcache s id hs)) (fun _ _ hs ↦ .inl hs)
    (fun _ _ hu ↦ .inl hu)

/-- What a call may send: nothing that was rejected before it began and not prepared since. -/
theorem send (h : Recovering p history) {i : Nat} {us : List UsedId}
    (hus : ∀ u ∈ us, u ∈ (p.calls i).phase.used) :
    Recovers (us.map (fun u ↦ .sends i u.statement u.id) ++ history) := by
  refine h.recovers.append (fun call s id later earlier since heq hopen hbegins ↦ ?_)
  have hsent : ∀ o ∈ later ++ Observation.sends call s id :: earlier,
      ∃ u ∈ us, Observation.sends i u.statement u.id = o := by
    rw [← heq]
    exact fun o ↦ List.mem_map.mp
  obtain ⟨u, hu, hcall⟩ := hsent (.sends call s id) (by simp)
  cases hcall
  have hearlier : ∀ o ∈ earlier, ∃ u ∈ us, Observation.sends i u.statement u.id = o :=
    fun o ho ↦ hsent o (by simp [ho])
  rcases hopen.of_append with ⟨since', rfl, -, hold⟩ | ⟨hnew, -⟩
  · rcases List.mem_append.mp hbegins with hearly | hbegins
    · obtain ⟨u', -, hnot⟩ := hearlier _ hearly
      cases hnot
    · exact h.used _ _ since' hold i hbegins u (hus u hu) ⟨rfl, rfl⟩
  · obtain ⟨u', -, hnot⟩ := hearlier _ hnew
    cases hnot

/-- A call begins, with no id yet. -/
theorem begin (h : Recovering p history) {call : PreparingCall}
    (hcall : call.phase.preparing? = none ∧ call.phase.used = []) :
    Recovering { p with
      begun := p.begun + 1
      calls := Function.update p.calls p.begun call } ([.begins p.begun] ++ history) := by
  have hcalls : ∀ j, Function.update p.calls p.begun call j =
      if j = p.begun then call else p.calls j := fun j ↦ Function.update_apply ..
  have hpool : Recovering { p with
      begun := p.begun + 1
      calls := Function.update p.calls p.begun call } history := by
    refine h.change ?_ (fun s id hs ↦ .inl hs) ?_ ?_
    · intro j hj
      change p.begun + 1 ≤ j at hj
      simp only [hcalls, if_neg (show j ≠ p.begun by omega)]
      exact h.unborn j (by omega)
    · intro j s hj
      simp only [hcalls] at hj
      split at hj
      · rw [hcall.1] at hj
        cases hj
      · exact .inl hj
    · intro j u hu
      simp only [hcalls] at hu
      split at hu
      · rw [hcall.2] at hu
        cases hu
      · exact .inl hu
  refine hpool.extend (h.recovers.append_silent (by simp)) (by simp) ?_
  intro j hj
  cases List.mem_singleton.mp hj
  simp only [hcalls, if_pos]
  exact hcall.2

/-- Every step whose failures are harmless. -/
theorem step (h : Recovering p history) {e : PreparedEvent} (hok : p.FailsHarmlessly e)
    (hstep : p.step e = some q) : Recovering q (p.observe e ++ history) := by
  cases transition_of_step hstep with
  | @begin caller commandControl statements haccepts =>
    exact h.begin (by split <;> simp [PreparePhase.preparing?, PreparePhase.used])
  | @hit i s todo used id hi hs =>
    refine h.setPhase (by simp [hi]) (by simp [PreparePhase.preparing?]) (fun u hu ↦ ?_)
    rcases List.mem_append.mp hu with hu | hu
    · exact .inl (by rwa [hi])
    · cases List.mem_singleton.mp hu
      exact .inr (.inl hs)
  | miss hi hs =>
    refine h.setPhase (by simp [hi]) (by simp [PreparePhase.preparing?]) (fun u hu ↦ ?_)
    exact .inl (by rwa [hi])
  | @sendPrepare i s todo used hi =>
    have hobserved : p.observe (.sendPrepare i) = [.prepares s] := by simp [observe, hi]
    rw [hobserved]
    have hseen : Recovering p ([.prepares s] ++ history) :=
      h.extend (h.recovers.append_silent (by simp)) (by simp) (by simp)
    refine hseen.setPhase (by simp [hi]) (fun s' hs ↦ .inr ?_) (fun u hu ↦ .inl (by rwa [hi]))
    cases hs
    rintro id since hopen
    rcases hopen.of_append with ⟨since', -, hclosed, -⟩ | ⟨hnew, -⟩
    · simp at hclosed
    · simp at hnew
  | @nodePrepares i s todo used answer hi =>
    have hnode : Recovering { p with known := remember p.known answer } history :=
      ⟨h.recovers, h.unborn, h.cache, h.preparing, h.used⟩
    refine hnode.setPhase (by simp [hi]) (fun s' hs ↦ .inl ?_) (fun u hu ↦ .inl ?_)
    · cases hs
      simp [hi, PreparePhase.preparing?]
    · simp only [hi]
      exact hu
  | @put i s todo used answer id hi hid =>
    have hclosed : Closed history s := h.closed_of_preparing (by rw [hi]; rfl)
    have hput : Recovering (p.putId s id) history := by
      refine h.change h.unborn (fun s' id' hs ↦ ?_) (fun j s' hs ↦ .inl hs) (fun j u hu ↦ .inl hu)
      simp only [putId, Function.update_apply] at hs
      split at hs
      · next heq => exact .inr (heq ▸ hclosed)
      · exact .inl hs
    refine hput.setPhase (by simp [putId, hi]) (by simp [PreparePhase.preparing?]) (fun u hu ↦ ?_)
    rcases List.mem_append.mp hu with hu | hu
    · refine .inl ?_
      simp only [putId, hi]
      exact hu
    · cases List.mem_singleton.mp hu
      exact .inr (.inr hclosed)
  | prepareFails hi he => exact h.settle (by simp [hi]) rfl rfl
  | @send i used hi =>
    have hobserved : p.observe (.send i) = used.map (fun u ↦ .sends i u.statement u.id) := by
      simp [observe, hi]
    rw [hobserved]
    have hseen : Recovering p (used.map (fun u ↦ .sends i u.statement u.id) ++ history) :=
      h.extend (h.send (fun u hu ↦ by rwa [hi])) (by simp) (by simp)
    exact hseen.settle (by simp [hi]) rfl rfl
  | nodeAnswers hi => exact h.settle (by simp [hi]) rfl rfl
  | @finish i used answer forgotten hi =>
    have hcleared : Recovering
        { p with cache := if p.invalidates i then fun _ ↦ none else p.cache } history := by
      refine h.shrink (fun s id hs ↦ ?_)
      split at hs
      · cases hs
      · exact hs
    have hfailed := hcleared.reject (fun u hu ↦ ?_ : ∀ u ∈ p.rejections i, _)
    · exact hfailed.settle (by simp [hi]) rfl rfl
    · obtain ⟨hcache, hpreparing⟩ := hok u hu
      refine ⟨?_, fun j ↦ ?_⟩
      · change (if p.invalidates i then fun _ ↦ none else p.cache) u.statement ≠ _
        split
        · simp
        · next hnot => exact hcache.resolve_left hnot
      · by_cases hj : j < p.begun
        · exact hpreparing j hj
        · simp [h.unborn j (by omega), PreparePhase.preparing?]
  | @evict s =>
    refine h.shrink (fun s' id hs ↦ ?_)
    rw [Function.update_apply] at hs
    split at hs
    · cases hs
    · exact hs
  | forget => exact ⟨h.recovers, h.unborn, h.cache, h.preparing, h.used⟩

end Recovering

/-- Unprepared recovery: in every run whose failures are harmless, a call that begins after a
failure with an id does not send this id again unless PREPARE of the statement was sent
between. -/
theorem unprepared_recovered {cacheEnabled : Bool} {p : PreparedPool} {history : List Observation}
    (h : Reaches (recording step observe) (fun s e ↦ s.1.FailsHarmlessly e)
      (init cacheEnabled, []) (p, history)) : Recovers history := by
  have hrecovering : Recovering p history := by
    refine h.invariant (P := fun s ↦ Recovering s.1 s.2) ?_ ?_
    · refine ⟨?_, fun _ _ ↦ rfl, ?_, ?_, ?_⟩
      · intro call s id later earlier since heq
        simp at heq
      all_goals
        rintro s id since ⟨-, earlier, heq⟩
        simp at heq
    · intro s e s' hs hok hstep
      obtain ⟨hpool, hhistory⟩ := recording_eq_some hstep
      rw [hhistory]
      exact hs.step hok hpool
  exact hrecovering.recovers

/-- The node answers PREPARE with id 7. -/
def preparedAnswer : Answer := some (.result, ⟨preparedBody, fun _ ↦ 0⟩)

/-- A Void result. -/
def voidAnswer : Answer := some (.result, ⟨[0, 0, 0, 1], fun _ ↦ 0⟩)

/-- An ERROR with code 0x2500 and an empty message. -/
def unpreparedAnswer : Answer := some (.error, ⟨[0, 0, 0x25, 0, 0, 0], fun _ ↦ 0⟩)

/-- Call `i` uses a statement for the first time. -/
def firstUse (i : Nat) : List PreparedEvent :=
  [.get i, .sendPrepare i, .nodePrepares i preparedAnswer, .put i, .send i,
   .nodeAnswers i voidAnswer, .finish i]

/-- A ping with a forgotten id, then an `Execute` of the same statement. -/
def pingRejected : List PreparedEvent :=
  [.begin .maintain none [kPing]] ++ firstUse 0 ++
  [.forget [7], .begin .maintain none [kPing], .get 1, .send 1, .nodeAnswers 1 unpreparedAnswer,
   .finish 1, .begin .execute none [kPing]] ++ firstUse 2

/-- The id of the ping is rejected, and a later call sends the new one. -/
theorem unprepared_recovered_pingRejected : ∃ p history,
    Reaches (recording step observe) (fun s e ↦ s.1.FailsHarmlessly e) (init true, [])
      (p, history) ∧ Observation.rejected kPing [7] ∈ history ∧
      Observation.sends 2 kPing [7] ∈ history ∧ Recovers history := by
  obtain ⟨⟨p, history⟩, hs, hrejected, hsends⟩ := Reaches.exists_of_runIf (recording step observe)
    (fun s e ↦ s.1.FailsHarmlessly e) (init true, []) pingRejected
    (fun s ↦ .rejected kPing [7] ∈ s.2 ∧ .sends 2 kPing [7] ∈ s.2) (by decide +kernel)
  exact ⟨p, history, hs, hrejected, hsends, unprepared_recovered hs⟩

/-- Three times `Execute` of one statement, whose id the node forgets after the first. -/
def executeRejected : List PreparedEvent :=
  [.begin .execute none [[115]]] ++ firstUse 0 ++
  [.forget [7], .begin .execute none [[115]], .get 1, .send 1, .nodeAnswers 1 unpreparedAnswer,
   .finish 1, .begin .execute none [[115]], .get 2, .send 2]

/-- The third call sends the rejected id again, and no PREPARE. -/
theorem rejected_id_resent : ∃ p history,
    Reaches (recording step observe) (fun _ _ ↦ True) (init true, []) (p, history) ∧
      ¬ Recovers history := by
  obtain ⟨⟨p, history⟩, hs, hhistory⟩ := Reaches.exists_of_runIf (recording step observe)
    (fun _ _ ↦ True) (init true, []) executeRejected
    (fun s ↦ s.2 = [.sends 2 [115] [7], .begins 2, .rejected [115] [7], .sends 1 [115] [7],
      .begins 1, .sends 0 [115] [7], .prepares [115], .begins 0]) (by decide +kernel)
  refine ⟨p, history, hs, fun hrecovers ↦ ?_⟩
  have hbegins := hrecovers 2 [115] [7] [] _ [.begins 2] hhistory ⟨by simp, _, rfl⟩
  simp at hbegins

end PreparedPool
end CassandraDriver.Detail
