import Mathlib.Logic.Function.Basic
import CassandraDriver.Detail.Prepare
import CassandraDriver.Lib.Lts

/-!
# The cache of prepared statements

Library `Detail`. Models how `Execute`, `BatchExecute` and `Maintain` of
`src/detail/connection_pool.cpp` share `_prepared_statements_map`. All three look a statement
up, prepare and store it when it is not there, and then send the ids; only `Maintain` looks at
the class of a failure. The map may drop an entry and the node may forget an id at any time.
Every answer goes to the call whose message it answers.
-/

namespace CassandraDriver.Detail
open CassandraDriver.Lib CassandraDriver.Protocol

/-- The text of a statement. -/
abbrev Statement := List UInt8

/-- The id that a node gives to a prepared statement. -/
abbrev StatementId := List UInt8

/-- `CommandControl::PreparedStatementsOptionOverride`, `include/cassandra/options.hpp:187`. -/
inductive PreparedStatementsOptionOverride
  | kNoOverride | kEnabled | kDisabled
  deriving DecidableEq, Repr

/-- `CanPrepareStatement`, `src/detail/connection_pool.cpp:30`. -/
def canPrepareStatement (commandControl : Option PreparedStatementsOptionOverride)
    (preparedStatementCacheEnabled : Bool) : Bool :=
  match commandControl with
  | some .kEnabled => true
  | some .kDisabled => false
  | some .kNoOverride => preparedStatementCacheEnabled
  | none => preparedStatementCacheEnabled

/-- The statement of `Maintain`, `connection_pool.cpp:386`. -/
def kPing : Statement := utf8 "SELECT cluster_name FROM system.local"

/-- Who uses the map. -/
inductive Caller
  | execute | batchExecute | maintain
  deriving DecidableEq, Repr

/-- The statements a caller can have: `Execute` has one, `BatchExecute` those of its store. -/
def Caller.Accepts (statements : List Statement) : Caller → Prop
  | execute => statements.length = 1
  | batchExecute => True
  | maintain => statements = [kPing]

instance (statements : List Statement) (caller : Caller) : Decidable (caller.Accepts statements) :=
  match caller with
  | .execute => inferInstanceAs (Decidable (_ = _))
  | .batchExecute => inferInstanceAs (Decidable True)
  | .maintain => inferInstanceAs (Decidable (_ = _))

/-- An id that a call has found or got for a statement, and whether it was in the map. -/
structure UsedId where
  statement : Statement
  id : StatementId
  cached : Bool
  deriving DecidableEq, Repr

/-- A call, with the statements it has not looked up yet and the ids so far: before `Get` or
before it sends the ids, before and after it sends PREPARE, with the answer to that on its way,
after it has sent the ids, and with the answer to these on its way, with those of them that
the node did not know. -/
inductive PreparePhase
  | collecting (todo : List Statement) (used : List UsedId)
  | missed (statement : Statement) (todo : List Statement) (used : List UsedId)
  | preparing (statement : Statement) (todo : List Statement) (used : List UsedId)
  | prepared (statement : Statement) (answer : Answer) (todo : List Statement)
      (used : List UsedId)
  | sent (used : List UsedId)
  | answered (used : List UsedId) (answer : Answer) (forgotten : List UsedId)
  | over

/-- The ids of a call that has not sent them yet. -/
def PreparePhase.used : PreparePhase → List UsedId
  | collecting _ used => used
  | missed _ _ used => used
  | preparing _ _ used => used
  | prepared _ _ _ used => used
  | sent _ => []
  | answered .. => []
  | .over => []

/-- The statement whose PREPARE has been sent and whose id is not in the map yet. -/
def PreparePhase.preparing? : PreparePhase → Option Statement
  | preparing s .. => some s
  | prepared s .. => some s
  | _ => none

/-- A call of the pool. -/
structure PreparingCall where
  caller : Caller
  phase : PreparePhase

/-- The pool's map and its calls, in the order in which they began, and the node. -/
structure PreparedPool where
  cacheEnabled : Bool
  cache : Statement → Option StatementId
  known : StatementId → Bool
  begun : Nat
  calls : Nat → PreparingCall

/-- What can happen next. -/
inductive PreparedEvent
  | begin (caller : Caller) (commandControl : Option PreparedStatementsOptionOverride)
      (statements : List Statement)
  | get (call : Nat)
  | sendPrepare (call : Nat)
  | nodePrepares (call : Nat) (answer : Answer)
  /-- `Prepare` throws, or returns and its id is put into the map. -/
  | put (call : Nat)
  | send (call : Nat)
  | nodeAnswers (call : Nat) (answer : Answer)
  /-- The call returns or throws. -/
  | finish (call : Nat)
  | evict (statement : Statement)
  | forget (id : StatementId)

namespace PreparedPool

/-- A new pool. -/
def init (cacheEnabled : Bool) : PreparedPool where
  cacheEnabled := cacheEnabled
  cache := fun _ ↦ none
  known := fun _ ↦ false
  begun := 0
  calls := fun _ ↦ ⟨.execute, .over⟩

/-- A call moves on. -/
def setPhase (p : PreparedPool) (i : Nat) (phase : PreparePhase) : PreparedPool :=
  { p with calls := Function.update p.calls i ⟨(p.calls i).caller, phase⟩ }

/-- The calls, of which one moves on. -/
theorem setPhase_phase (p : PreparedPool) (i j : Nat) (phase : PreparePhase) :
    ((p.setPhase i phase).calls j).phase = if j = i then phase else (p.calls j).phase := by
  simp only [setPhase, Function.update_apply]
  split <;> rfl

/-- `_prepared_statements_map.Put`. -/
def putId (p : PreparedPool) (s : Statement) (id : StatementId) : PreparedPool :=
  { p with cache := Function.update p.cache s (some id) }

/-- The node remembers what it has prepared. -/
def remember (known : StatementId → Bool) : Answer → StatementId → Bool
  | some (.result, buffer) =>
    match wirePreparedId.run buffer.data with
    | some (id, _) => Function.update known id true
    | none => known
  | _ => known

/-- The ids that the node had forgotten when it answered, if the call fails for that. -/
def rejections (p : PreparedPool) (i : Nat) : List UsedId :=
  match (p.calls i).phase with
  | .answered _ answer forgotten => if throwsUnprepared answer then forgotten else []
  | _ => []

/-- The `catch` of `Maintain`, `connection_pool.cpp:469`: only around a ping with an id from
the map. -/
def invalidates (p : PreparedPool) (i : Nat) : Bool :=
  match (p.calls i).phase with
  | .answered used answer _ =>
    (p.calls i).caller == .maintain && used.all UsedId.cached && throwsUnprepared answer
  | _ => false

/-- One step. -/
def step (p : PreparedPool) : PreparedEvent → Option PreparedPool
  | .begin caller commandControl statements =>
    if caller.Accepts statements then
      some { p with
        begun := p.begun + 1
        calls := Function.update p.calls p.begun ⟨caller,
          if caller = .maintain ∨ canPrepareStatement commandControl p.cacheEnabled then
            .collecting statements []
          else .over⟩ }
    else none
  | .get i =>
    match (p.calls i).phase with
    | .collecting (s :: todo) used =>
      match p.cache s with
      | some id => some (p.setPhase i (.collecting todo (used ++ [⟨s, id, true⟩])))
      | none => some (p.setPhase i (.missed s todo used))
    | _ => none
  | .sendPrepare i =>
    match (p.calls i).phase with
    | .missed s todo used => some (p.setPhase i (.preparing s todo used))
    | _ => none
  | .nodePrepares i answer =>
    match (p.calls i).phase with
    | .preparing s todo used =>
      some ({ p with known := remember p.known answer }.setPhase i (.prepared s answer todo used))
    | _ => none
  | .put i =>
    match (p.calls i).phase with
    | .prepared s answer todo used =>
      match prepare answer with
      | .ok id => some ((p.putId s id).setPhase i (.collecting todo (used ++ [⟨s, id, false⟩])))
      | .error _ => some (p.setPhase i .over)
    | _ => none
  | .send i =>
    match (p.calls i).phase with
    | .collecting [] used => some (p.setPhase i (.sent used))
    | _ => none
  | .nodeAnswers i answer =>
    match (p.calls i).phase with
    | .sent used =>
      if throwsUnprepared answer = true → ∃ u ∈ used, p.known u.id = false then
        some (p.setPhase i (.answered used answer (used.filter (fun u ↦ !p.known u.id))))
      else none
    | _ => none
  | .finish i =>
    match (p.calls i).phase with
    | .answered .. =>
      some ({ p with cache := if p.invalidates i then fun _ ↦ none else p.cache }.setPhase i .over)
    | _ => none
  | .evict s => some { p with cache := Function.update p.cache s none }
  | .forget id => some { p with known := Function.update p.known id false }

/-- The steps, one constructor for each kind. -/
inductive Transition (p : PreparedPool) : PreparedEvent → PreparedPool → Prop
  | begin {caller commandControl statements} (h : caller.Accepts statements) :
      Transition p (.begin caller commandControl statements) { p with
        begun := p.begun + 1
        calls := Function.update p.calls p.begun ⟨caller,
          if caller = .maintain ∨ canPrepareStatement commandControl p.cacheEnabled then
            .collecting statements []
          else .over⟩ }
  | hit {i s todo used id} (hi : (p.calls i).phase = .collecting (s :: todo) used)
      (hs : p.cache s = some id) :
      Transition p (.get i) (p.setPhase i (.collecting todo (used ++ [⟨s, id, true⟩])))
  | miss {i s todo used} (hi : (p.calls i).phase = .collecting (s :: todo) used)
      (hs : p.cache s = none) : Transition p (.get i) (p.setPhase i (.missed s todo used))
  | sendPrepare {i s todo used} (hi : (p.calls i).phase = .missed s todo used) :
      Transition p (.sendPrepare i) (p.setPhase i (.preparing s todo used))
  | nodePrepares {i s todo used answer} (hi : (p.calls i).phase = .preparing s todo used) :
      Transition p (.nodePrepares i answer)
        ({ p with known := remember p.known answer }.setPhase i (.prepared s answer todo used))
  | put {i s todo used answer id} (hi : (p.calls i).phase = .prepared s answer todo used)
      (hid : prepare answer = .ok id) : Transition p (.put i)
        ((p.putId s id).setPhase i (.collecting todo (used ++ [⟨s, id, false⟩])))
  | prepareFails {i s todo used answer e} (hi : (p.calls i).phase = .prepared s answer todo used)
      (he : prepare answer = .error e) : Transition p (.put i) (p.setPhase i .over)
  | send {i used} (hi : (p.calls i).phase = .collecting [] used) :
      Transition p (.send i) (p.setPhase i (.sent used))
  | nodeAnswers {i used answer} (hi : (p.calls i).phase = .sent used) :
      Transition p (.nodeAnswers i answer)
        (p.setPhase i (.answered used answer (used.filter (fun u ↦ !p.known u.id))))
  | finish {i used answer forgotten} (hi : (p.calls i).phase = .answered used answer forgotten) :
      Transition p (.finish i)
        ({ p with cache := if p.invalidates i then fun _ ↦ none else p.cache }.setPhase i .over)
  | evict {s} : Transition p (.evict s) { p with cache := Function.update p.cache s none }
  | forget {id} : Transition p (.forget id) { p with known := Function.update p.known id false }

/-- Every step is one of them. -/
theorem transition_of_step {p q : PreparedPool} {e : PreparedEvent} (h : p.step e = some q) :
    Transition p e q := by
  cases e with
  | begin caller commandControl statements =>
    simp only [step] at h
    obtain ⟨haccepts, rfl⟩ := Option.ite_some_none_eq_some.mp h
    exact .begin haccepts
  | get i =>
    simp only [step] at h
    split at h
    · next hi =>
      split at h
      · next hs =>
        cases h
        exact .hit hi hs
      · next hs =>
        cases h
        exact .miss hi hs
    · cases h
  | sendPrepare i =>
    simp only [step] at h
    split at h
    · next hi =>
      cases h
      exact .sendPrepare hi
    · cases h
  | nodePrepares i answer =>
    simp only [step] at h
    split at h
    · next hi =>
      cases h
      exact .nodePrepares hi
    · cases h
  | put i =>
    simp only [step] at h
    split at h
    · next hi =>
      split at h
      · next hid =>
        cases h
        exact .put hi hid
      · next he =>
        cases h
        exact .prepareFails hi he
    · cases h
  | send i =>
    simp only [step] at h
    split at h
    · next hi =>
      cases h
      exact .send hi
    · cases h
  | nodeAnswers i answer =>
    simp only [step] at h
    split at h
    · next hi =>
      split at h
      · cases h
        exact .nodeAnswers hi
      · cases h
    · cases h
  | finish i =>
    simp only [step] at h
    split at h
    · next hi =>
      cases h
      exact .finish hi
    · cases h
  | evict s =>
    cases h
    exact .evict
  | forget id =>
    cases h
    exact .forget

/-- What the node sends in answer to PREPARE, with the text that was to be prepared. -/
def prepareAnswers (p : PreparedPool) : PreparedEvent →
    List (Statement × ResponseClass × List UInt8)
  | .nodePrepares i (some (cls, buffer)) =>
    match (p.calls i).phase with
    | .preparing s .. => [(s, cls, buffer.data)]
    | _ => []
  | _ => []

/-- What an event answers to PREPARE. -/
def prepareAnswer : PreparedEvent → Answer
  | .nodePrepares _ answer => answer
  | _ => none

/-- No PREPARE is answered with a RESULT of another kind. -/
def PreparesProperly (e : PreparedEvent) : Prop := ¬ OtherResult (prepareAnswer e)

instance (e : PreparedEvent) : Decidable (PreparesProperly e) := inferInstanceAs (Decidable (¬ _))

/-- The id is one that the node sent for the statement. -/
def Genuine (history : List (Statement × ResponseClass × List UInt8)) (s : Statement)
    (id : StatementId) : Prop :=
  ∃ cls body, (s, cls, body) ∈ history ∧ IsPrepared cls body id

/-- Every entry of the map is genuine, and so will be those of the answers on their way. -/
structure Sound (p : PreparedPool) (history : List (Statement × ResponseClass × List UInt8)) :
    Prop where
  cache : ∀ s id, p.cache s = some id → Genuine history s id
  answers : ∀ i s answer todo used, (p.calls i).phase = .prepared s answer todo used →
    ¬ OtherResult answer ∧
      ∀ cls buffer, answer = some (cls, buffer) → (s, cls, buffer.data) ∈ history

namespace Sound

variable {p q : PreparedPool} {history : List (Statement × ResponseClass × List UInt8)}

private theorem setPhase (h : Sound p history) (i : Nat) {phase : PreparePhase}
    (hphase : ∀ s answer todo used, phase ≠ .prepared s answer todo used) :
    Sound (p.setPhase i phase) history := by
  refine ⟨h.cache, fun j s answer todo used hj ↦ ?_⟩
  rw [setPhase_phase] at hj
  split at hj
  · exact absurd hj (hphase s answer todo used)
  · exact h.answers j s answer todo used hj

/-- Every step keeps the map sound. -/
theorem step (h : Sound p history) {e : PreparedEvent} (hok : PreparesProperly e)
    (hstep : p.step e = some q) : Sound q (p.prepareAnswers e ++ history) := by
  cases transition_of_step hstep with
  | @begin caller commandControl statements haccepts =>
    refine ⟨h.cache, fun j s answer todo used hj ↦ ?_⟩
    by_cases hnew : j = p.begun
    · subst hnew
      simp only [Function.update_self] at hj
      split at hj <;> cases hj
    · simp only [Function.update_of_ne hnew] at hj
      exact h.answers j s answer todo used hj
  | hit hi hs => exact h.setPhase _ (by simp)
  | miss hi hs => exact h.setPhase _ (by simp)
  | sendPrepare hi => exact h.setPhase _ (by simp)
  | @nodePrepares i s todo used answer hi =>
    refine ⟨fun s' id hs ↦ ?_, fun j s' answer' todo' used' hj ↦ ?_⟩
    · obtain ⟨cls, body, hmem, hprepared⟩ := h.cache s' id hs
      exact ⟨cls, body, List.mem_append_right _ hmem, hprepared⟩
    · rw [setPhase_phase] at hj
      split at hj
      · cases hj
        refine ⟨hok, fun cls buffer hanswer ↦ List.mem_append_left _ ?_⟩
        subst hanswer
        simp [prepareAnswers, hi]
      · obtain ⟨hother, hmem⟩ := h.answers j s' answer' todo' used' hj
        exact ⟨hother, fun cls buffer hanswer ↦ List.mem_append_right _ (hmem cls buffer hanswer)⟩
  | @put i s todo used answer id hi hid =>
    have hput : Sound (p.putId s id) history := by
      refine ⟨fun s' id' hs ↦ ?_, h.answers⟩
      simp only [putId, Function.update_apply] at hs
      split at hs
      · next heq =>
        subst heq
        cases hs
        obtain ⟨hother, hmem⟩ := h.answers i s' answer todo used hi
        rcases prepare_eq_ok hid with ⟨hbad, -⟩ | ⟨buffer, rfl, hprepared⟩
        · exact absurd hbad hother
        · exact ⟨_, _, hmem _ _ rfl, hprepared⟩
      · exact h.cache s' id' hs
    exact hput.setPhase _ (by simp)
  | prepareFails hi he => exact h.setPhase _ (by simp)
  | send hi => exact h.setPhase _ (by simp)
  | nodeAnswers hi => exact h.setPhase _ (by simp)
  | @finish i used answer forgotten hi =>
    have hcache : Sound { p with cache := if p.invalidates i then fun _ ↦ none else p.cache }
        history := by
      refine ⟨fun s id hs ↦ ?_, h.answers⟩
      simp only at hs
      split at hs
      · cases hs
      · exact h.cache s id hs
    exact hcache.setPhase _ (by simp)
  | @evict s =>
    refine ⟨fun s' id hs ↦ ?_, h.answers⟩
    simp only [Function.update_apply] at hs
    split at hs
    · cases hs
    · exact h.cache s' id hs
  | forget => exact ⟨h.cache, h.answers⟩

end Sound

/-- In every run in which no PREPARE is answered with a RESULT of another kind, every entry of
the map is an id that the node sent in a Prepared result for exactly that text, and an answer
of any other kind makes `Prepare` fail and leaves the map as it was. -/
theorem cache_genuine {cacheEnabled : Bool} {p : PreparedPool}
    {history : List (Statement × ResponseClass × List UInt8)}
    (h : Reaches (recording step prepareAnswers) (fun _ e ↦ PreparesProperly e)
      (init cacheEnabled, []) (p, history)) :
    (∀ s id, p.cache s = some id → Genuine history s id) ∧
    (∀ i s answer todo used q, (p.calls i).phase = .prepared s answer todo used →
      (∀ cls buffer id, answer = some (cls, buffer) → ¬ IsPrepared cls buffer.data id) →
      p.step (.put i) = some q →
      (∃ e, prepare answer = .error e) ∧ q.cache = p.cache ∧ (q.calls i).phase = .over) := by
  have hsound : Sound p history := by
    refine h.invariant (P := fun s ↦ Sound s.1 s.2) ⟨?_, ?_⟩ ?_
    · intro s id hs
      cases hs
    · intro i s answer todo used hi
      cases hi
    · intro s e s' hs hok hstep
      obtain ⟨hpool, hhistory⟩ := recording_eq_some hstep
      rw [hhistory]
      exact hs.step hok hpool
  refine ⟨hsound.cache, ?_⟩
  intro i s answer todo used q hi hkind hstep
  obtain ⟨e, he⟩ := (prepare_fails_iff hkind).mpr (hsound.answers i s answer todo used hi).1
  simp only [step, hi, he] at hstep
  cases hstep
  exact ⟨⟨e, he⟩, rfl, by rw [setPhase_phase, if_pos rfl]⟩

/-- A Prepared result with id 7 and no columns. -/
def preparedBody : List UInt8 := [0, 0, 0, 4, 0, 1, 7, 0, 0, 0, 0, 0, 0, 0, 0, 0, 0, 0, 0]

/-- A first `Execute` of a statement, up to `Put`, and the body that answers its PREPARE. -/
def firstExecute (body : List UInt8) : List PreparedEvent :=
  [.begin .execute none [[115]], .get 0, .sendPrepare 0,
   .nodePrepares 0 (some (.result, ⟨body, fun _ ↦ 0⟩)), .put 0]

/-- The id in the map is the one that the node gave for the text. -/
theorem cache_genuine_firstExecute : ∃ p history,
    Reaches (recording step prepareAnswers) (fun _ e ↦ PreparesProperly e) (init true, [])
      (p, history) ∧ p.cache [115] = some [7] ∧ Genuine history [115] [7] := by
  obtain ⟨⟨p, history⟩, hs, hcache⟩ := Reaches.exists_of_runIf (recording step prepareAnswers)
    (fun _ e ↦ PreparesProperly e) (init true, []) (firstExecute preparedBody)
    (fun s ↦ s.1.cache [115] = some [7]) (by decide +kernel)
  have hgenuine := cache_genuine hs
  exact ⟨p, history, hs, hcache, hgenuine.1 _ _ hcache⟩

/-- A Void result makes an empty id. -/
theorem void_cached : ∃ p history,
    Reaches (recording step prepareAnswers) (fun _ _ ↦ True) (init true, []) (p, history) ∧
      ∃ s id, p.cache s = some id ∧ ¬ Genuine history s id := by
  obtain ⟨⟨p, history⟩, hs, hcache, hhistory⟩ := Reaches.exists_of_runIf
    (recording step prepareAnswers) (fun _ _ ↦ True) (init true, []) (firstExecute [0, 0, 0, 1])
    (fun s ↦ s.1.cache [115] = some [] ∧ s.2 = [([115], .result, [0, 0, 0, 1])])
    (by decide +kernel)
  refine ⟨p, history, hs, [115], [], hcache, ?_⟩
  rintro ⟨cls, body, hmem, -, hid⟩
  rw [show history = _ from hhistory, List.mem_singleton] at hmem
  cases hmem
  revert hid
  decide

end PreparedPool
end CassandraDriver.Detail
