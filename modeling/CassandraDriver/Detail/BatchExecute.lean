import Mathlib.Logic.Function.Basic
import CassandraDriver.Detail.PreparedCache
import CassandraDriver.Protocol.RequestMessage

/-!
# Batches with prepared statements

Library `Detail`. Models `ConnectionPool::BatchExecute` (`src/detail/connection_pool.cpp:341`) up
to the message that it sends, with the map of prepared statements and the calls of `Prepare`.
The map may drop entries after each statement. What the call does on its connection is its
history, newest first.
-/

namespace CassandraDriver.Detail
open CassandraDriver.Protocol

/-- `BatchQuery`, `include/cassandra/batch_query.hpp:58`. -/
structure BatchQuery where
  statement : Statement
  params : List (List UInt8)
  deriving DecidableEq, Repr

/-- `BatchQueryStore`, `batch_query.hpp:287`. -/
structure BatchQueryStore where
  queries : List BatchQuery
  consistencyLevel : Consistency
  deriving DecidableEq, Repr

/-- What the call does on its connection: `Prepare`, with what that returns or throws, and the
message that `BatchExecute` sends. -/
inductive BatchEvent
  | prepare (statement : Statement) (result : Except CallError StatementId)
  | send (message : RequestMessage)

/-- The map of prepared statements, and what the call has done. -/
structure BatchCall where
  cache : Statement → Option StatementId
  events : List BatchEvent

namespace BatchCall

/-- The map drops entries. -/
def evict (c : BatchCall) (evicted : Statement → Bool) : BatchCall :=
  { c with cache := fun s ↦ if evicted s then none else c.cache s }

/-- The statement for a query, `connection_pool.cpp:354–363`, with the node's answer to PREPARE
if that is sent. -/
def prepareStatement (c : BatchCall) (answer : Answer) (q : BatchQuery) :
    Except CallError BatchStatement × BatchCall :=
  match c.cache q.statement with
  | some id => (.ok ⟨.id id, q.params⟩, c)
  | none =>
    match prepare answer with
    | .ok id => (.ok ⟨.id id, q.params⟩, {
        cache := Function.update c.cache q.statement (some id)
        events := .prepare q.statement (.ok id) :: c.events })
    | .error e => (.error e, { c with events := .prepare q.statement (.error e) :: c.events })

/-- The first `std::ranges::transform`, from position `i` on. -/
def prepareStatements (node : Nat → Statement → Answer) (evicted : Nat → Statement → Bool) :
    List BatchQuery → Nat → BatchCall → Except CallError (List BatchStatement) × BatchCall
  | [], _, c => (.ok [], c)
  | q :: rest, i, c =>
    match c.prepareStatement (node i q.statement) q with
    | (.error e, after) => (.error e, after.evict (evicted i))
    | (.ok s, after) =>
      ((prepareStatements node evicted rest (i + 1) (after.evict (evicted i))).1.map (s :: ·),
        (prepareStatements node evicted rest (i + 1) (after.evict (evicted i))).2)

/-- `ConnectionImpl::BatchExecute` sends its message. -/
def sendBatch (c : BatchCall) (statements : List BatchStatement) (level : Consistency) :
    BatchCall :=
  { c with events := .send (.batch statements level) :: c.events }

/-- `ConnectionPool::BatchExecute`, `connection_pool.cpp:341`. -/
def batchExecute (c : BatchCall) (preparedStatementsCacheEnabled : Bool)
    (commandControl : Option PreparedStatementsOptionOverride)
    (node : Nat → Statement → Answer) (evicted : Nat → Statement → Bool)
    (store : BatchQueryStore) : BatchCall :=
  if canPrepareStatement commandControl preparedStatementsCacheEnabled then
    match c.prepareStatements node evicted store.queries 0 with
    | (.error _, after) => after
    | (.ok statements, after) => after.sendBatch statements store.consistencyLevel
  else
    c.sendBatch (store.queries.map fun q ↦ ⟨.string q.statement, q.params⟩)
      store.consistencyLevel

end BatchCall

/-- The node answers PREPARE of a text with the id that it assigns to it, or without a RESULT. -/
def Assigns (assign : Statement → StatementId) (s : Statement) (answer : Answer) : Prop :=
  ∀ buffer, answer = some (.result, buffer) → IsPrepared .result buffer.data (assign s)

/-- Every entry of the map is the id that the node assigns to its text. -/
def CacheCorrect (assign : Statement → StatementId) (cache : Statement → Option StatementId) :
    Prop :=
  ∀ s id, cache s = some id → id = assign s

/-- What `Prepare` returns is the id that the node assigns. -/
theorem eq_assign_of_prepare {assign : Statement → StatementId} {s : Statement} {answer : Answer}
    {id : StatementId} (hnode : Assigns assign s answer) (h : prepare answer = .ok id) :
    id = assign s := by
  obtain ⟨buffer, -, -, rfl, -, -⟩ := (prepare_eq_ok_iff answer id).mp h
  have hassigned := hnode buffer rfl
  rcases prepare_eq_ok h with ⟨hother, -⟩ | ⟨buffer', heq, hprepared⟩
  · exact absurd hother (not_otherResult_of_isPrepared hassigned)
  · cases heq
    exact Option.some.inj (hprepared.2.symm.trans hassigned.2)

section Correct

variable {assign : Statement → StatementId} {cache : Statement → Option StatementId}

private theorem CacheCorrect.update (h : CacheCorrect assign cache) (s : Statement) :
    CacheCorrect assign (Function.update cache s (some (assign s))) := by
  intro t id ht
  rw [Function.update_apply] at ht
  split at ht
  · next heq =>
    cases ht
    rw [heq]
  · exact h t id ht

private theorem CacheCorrect.evict {c : BatchCall} (h : CacheCorrect assign c.cache)
    (evicted : Statement → Bool) : CacheCorrect assign (c.evict evicted).cache := by
  intro s id hs
  simp only [BatchCall.evict] at hs
  split at hs
  · cases hs
  · exact h s id hs

end Correct

/-- The messages of the history that are no PREPARE. -/
def sentMessages (events : List BatchEvent) : List RequestMessage :=
  events.filterMap fun
    | .send message => some message
    | .prepare _ _ => none

/-- A `Prepare` of the history has thrown. -/
def PrepareFailed (events : List BatchEvent) : Prop :=
  ∃ s e, BatchEvent.prepare s (.error e) ∈ events

/-- The statement by the id that the node assigns. -/
def byId (assign : Statement → StatementId) (q : BatchQuery) : BatchStatement :=
  ⟨.id (assign q.statement), q.params⟩

namespace BatchCall

/-- What a part of the call does: it sends no batch, keeps the map correct, and fails exactly
when a `Prepare` has thrown. -/
structure Prepares {α : Type} (assign : Statement → StatementId) (before : BatchCall)
    (result : Except CallError α) (after : BatchCall) (expected : α) : Prop where
  cache : CacheCorrect assign after.cache
  sent : sentMessages after.events = sentMessages before.events
  failed : PrepareFailed after.events ↔ PrepareFailed before.events ∨ ∃ e, result = .error e
  value : ∀ a, result = .ok a → a = expected

variable {assign : Statement → StatementId} {c : BatchCall}

private theorem prepares_statement (hcache : CacheCorrect assign c.cache) {answer : Answer}
    {q : BatchQuery} (hnode : Assigns assign q.statement answer) :
    Prepares assign c (c.prepareStatement answer q).1 (c.prepareStatement answer q).2
      (byId assign q) := by
  unfold prepareStatement
  cases hid : c.cache q.statement with
  | some id =>
    obtain rfl := hcache q.statement id hid
    exact ⟨hcache, rfl, by simp, fun s hs ↦ by cases hs; rfl⟩
  | none =>
    cases hprepare : prepare answer with
    | ok id =>
      obtain rfl := eq_assign_of_prepare hnode hprepare
      refine ⟨hcache.update q.statement, rfl, by simp [PrepareFailed], fun s hs ↦ ?_⟩
      cases hs
      rfl
    | error e =>
      refine ⟨hcache, rfl, ?_, fun s hs ↦ by cases hs⟩
      simp only [PrepareFailed]
      exact ⟨fun _ ↦ .inr ⟨e, rfl⟩, fun _ ↦ ⟨q.statement, e, List.mem_cons_self⟩⟩

/-- Then the other statements are prepared. -/
theorem prepares_statements {node : Nat → Statement → Answer}
    (hnode : ∀ i s, Assigns assign s (node i s)) (evicted : Nat → Statement → Bool)
    (queries : List BatchQuery) (i : Nat) (hcache : CacheCorrect assign c.cache) :
    Prepares assign c (c.prepareStatements node evicted queries i).1
      (c.prepareStatements node evicted queries i).2 (queries.map (byId assign)) := by
  induction queries generalizing i c with
  | nil => exact ⟨hcache, rfl, by simp [prepareStatements], fun l hl ↦ by cases hl; rfl⟩
  | cons q rest ih =>
    have hfirst := prepares_statement hcache (hnode i q.statement)
    unfold prepareStatements
    split
    · next e after heq =>
      rw [heq] at hfirst
      refine ⟨hfirst.cache.evict _, hfirst.sent, hfirst.failed.trans ?_, fun l hl ↦ by cases hl⟩
      simp
    · next s after heq =>
      rw [heq] at hfirst
      have hrest := ih (i + 1) (hfirst.cache.evict (evicted i))
      obtain rfl := hfirst.value s rfl
      have hfailed : PrepareFailed after.events ↔ PrepareFailed c.events := by
        simpa using hfirst.failed
      refine ⟨hrest.cache, hrest.sent.trans hfirst.sent,
        hrest.failed.trans (or_congr hfailed ?_), ?_⟩
      · cases (prepareStatements node evicted rest (i + 1) (after.evict (evicted i))).1 with
        | error e => simp [Except.map]
        | ok l => simp [Except.map]
      · cases hl : (prepareStatements node evicted rest (i + 1) (after.evict (evicted i))).1 with
        | error e => exact fun l hmap ↦ by cases hmap
        | ok l =>
          intro statements hmap
          cases hmap
          rw [hrest.value l hl]
          rfl

end BatchCall

/-- A statement with the text that its id was prepared from in place of the id. -/
noncomputable def withText (assign : Statement → StatementId) (s : BatchStatement) :
    BatchStatement :=
  match s.query with
  | .string _ => s
  | .id id => (Function.partialInv assign id).elim s fun text ↦ ⟨.string text, s.params⟩

/-- A message with texts in place of ids in its batch. -/
noncomputable def withTexts (assign : Statement → StatementId) : RequestMessage → RequestMessage
  | .batch queries level => .batch (queries.map (withText assign)) level
  | message => message

private theorem withText_byId {assign : Statement → StatementId}
    (hassign : Function.Injective assign) (q : BatchQuery) :
    withText assign (byId assign q) = ⟨.string q.statement, q.params⟩ := by
  simp only [withText, byId, Function.partialInv_left hassign]
  rfl

/-- With prepared statements, a batch in which no `Prepare` throws is sent as it is sent without
them, but for ids in place of the texts that they were prepared from; if a `Prepare` throws, no
batch is sent. Either way the map stays correct. -/
theorem batch_by_id_eq_by_text {assign : Statement → StatementId}
    (hassign : Function.Injective assign) {node : Nat → Statement → Answer}
    (hnode : ∀ i s, Assigns assign s (node i s)) (evicted : Nat → Statement → Bool)
    (store : BatchQueryStore) {cache : Statement → Option StatementId}
    (hcache : CacheCorrect assign cache) {enabled disabled : Bool}
    {control control' : Option PreparedStatementsOptionOverride}
    (hon : canPrepareStatement control enabled = true)
    (hoff : canPrepareStatement control' disabled = false) {prepared plain : BatchCall}
    (hprepared : BatchCall.batchExecute ⟨cache, []⟩ enabled control node evicted store = prepared)
    (hplain : BatchCall.batchExecute ⟨cache, []⟩ disabled control' node evicted store = plain) :
    CacheCorrect assign prepared.cache ∧
    (PrepareFailed prepared.events → sentMessages prepared.events = []) ∧
    (¬ PrepareFailed prepared.events →
      (sentMessages prepared.events).map (withTexts assign) = sentMessages plain.events) := by
  have hall := BatchCall.prepares_statements hnode evicted store.queries 0
    (c := ⟨cache, []⟩) hcache
  have hnever : ¬ PrepareFailed [] := by simp [PrepareFailed]
  have htexts : sentMessages plain.events = [.batch
      (store.queries.map fun q ↦ ⟨.string q.statement, q.params⟩) store.consistencyLevel] := by
    rw [← hplain, BatchCall.batchExecute, if_neg (by rw [hoff]; exact Bool.noConfusion)]
    rfl
  rw [BatchCall.batchExecute, if_pos hon] at hprepared
  split at hprepared
  · next e after heq =>
    subst hprepared
    rw [heq] at hall
    have hfailed : PrepareFailed after.events := hall.failed.mpr (.inr ⟨e, rfl⟩)
    exact ⟨hall.cache, fun _ ↦ hall.sent, fun hok ↦ absurd hfailed hok⟩
  · next statements after heq =>
    subst hprepared
    rw [heq] at hall
    obtain rfl := hall.value statements rfl
    have hok : ¬ PrepareFailed after.events := by
      rw [hall.failed]
      simpa using hnever
    have hsent : sentMessages (after.sendBatch (store.queries.map (byId assign))
        store.consistencyLevel).events =
        [.batch (store.queries.map (byId assign)) store.consistencyLevel] := by
      change _ :: sentMessages after.events = _
      rw [hall.sent]
      rfl
    refine ⟨hall.cache, fun hfailed ↦ ?_, fun _ ↦ ?_⟩
    · obtain ⟨s, e, hmem⟩ := hfailed
      rcases List.mem_cons.mp hmem with hmem | hmem
      · cases hmem
      · exact absurd ⟨s, e, hmem⟩ hok
    · rw [hsent, htexts, List.map_singleton, withTexts, List.map_map]
      have hsame : withText assign ∘ byId assign =
          fun q ↦ ⟨.string q.statement, q.params⟩ := funext (withText_byId hassign)
      rw [hsame]

/-- A node that knows one text, whose id is its only letter. -/
def oneTextNode (_ : Nat) (s : Statement) : Answer :=
  if s = [115] then
    some (.result, ⟨[0, 0, 0, 4, 0, 1, 115, 0, 0, 0, 0, 0, 0, 0, 0, 0, 0, 0, 0], fun _ ↦ 0⟩)
  else none

private theorem oneTextNode_assigns (i : Nat) (s : Statement) :
    Assigns id s (oneTextNode i s) := by
  intro buffer hbuffer
  unfold oneTextNode at hbuffer
  split at hbuffer
  · next hs =>
    cases hbuffer
    subst hs
    exact ⟨rfl, by decide⟩
  · cases hbuffer

/-- The text twice, with different parameters. -/
def textTwice : BatchQueryStore := ⟨[⟨[115], [[1]]⟩, ⟨[115], [[2], []]⟩], .localOne⟩

/-- A text that comes twice is prepared twice, as the map loses its id in between. -/
theorem batch_by_id_textTwice : ∃ prepared,
    -- The map loses the id after the first statement, which is then prepared again.
    BatchCall.batchExecute ⟨fun _ ↦ none, []⟩ true none oneTextNode (fun i _ ↦ i = 0) textTwice =
      prepared ∧
    sentMessages prepared.events =
      [.batch [⟨.id [115], [[1]]⟩, ⟨.id [115], [[2], []]⟩] .localOne] ∧
    ¬ PrepareFailed prepared.events ∧
    (sentMessages prepared.events).map (withTexts id) =
      [.batch [⟨.string [115], [[1]]⟩, ⟨.string [115], [[2], []]⟩] .localOne] := by
  have hevents : (BatchCall.batchExecute ⟨fun _ ↦ none, []⟩ true none oneTextNode
      (fun i _ ↦ i = 0) textTwice).events =
      [.send (.batch [⟨.id [115], [[1]]⟩, ⟨.id [115], [[2], []]⟩] .localOne),
        .prepare [115] (.ok [115]), .prepare [115] (.ok [115])] := rfl
  have hok : ¬ PrepareFailed (BatchCall.batchExecute ⟨fun _ ↦ none, []⟩ true none oneTextNode
      (fun i _ ↦ i = 0) textTwice).events := by
    rw [hevents]
    simp [PrepareFailed]
  refine ⟨_, rfl, by rw [hevents]; rfl, hok, ?_⟩
  have hon : canPrepareStatement none true = true := rfl
  have hoff : canPrepareStatement none false = false := rfl
  exact (batch_by_id_eq_by_text Function.injective_id oneTextNode_assigns (fun i _ ↦ i = 0)
    textTwice (fun s id hs ↦ by cases hs) hon hoff rfl rfl).2.2 hok

end CassandraDriver.Detail
