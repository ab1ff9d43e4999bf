import CassandraDriver.Detail.BatchExecute
import CassandraDriver.Detail.ResultSet
import CassandraDriver.Protocol.ResponseFaithful

/-!
# Nodes

Library `Detail`. What a node is to the driver: it compiles texts, runs what it has compiled on
its data, and gives every text it compiles an id, under which the text may be asked for while
the node remembers it. What the driver asks it for is one statement or a batch, by text or by
id; `ConnectionImpl::Execute`, `ExecutePrepared` and `BatchExecute` differ in nothing else.
-/

namespace CassandraDriver.Detail
open CassandraDriver.Lib CassandraDriver.Io CassandraDriver.Protocol

/-- Why a node does not run a statement, as its ERROR says it. -/
structure Refusal where
  code : Int32
  message : List UInt8
  details : List UInt8

/-- The response. -/
def Refusal.response (r : Refusal) : V4.Response := .error r.code r.message r.details

/-- A node of the native protocol. It gives different texts different ids, and what it says can
be laid out. -/
structure Node (δ π : Type) where
  /-- What is to be run for a text. -/
  compile : Statement → Except Refusal π
  run : Consistency → π → List (List UInt8) → δ → V4.Response × δ
  runBatch : Consistency → List (π × List (List UInt8)) → δ → V4.Response × δ
  /-- What a text is prepared as. -/
  describe : Statement → V4.Prepared
  unpreparedMessage : StatementId → List UInt8
  supported : Ty.stringMultiMap.Val
  describe_fits : ∀ s p, compile s = .ok p → (describe s).Fits
  unpreparedMessage_fits : ∀ id, (unpreparedMessage id).length ≤ 65535
  describe_id_inj : ∀ s t p q, compile s = .ok p → compile t = .ok q →
    (describe s).id = (describe t).id → s = t

/-- The data of a node, and the texts it remembers under their ids. -/
structure NodeState (δ : Type) where
  data : δ
  known : StatementId → Option Statement

namespace Node

variable {δ π : Type} (node : Node δ π)

/-- The id of a text. -/
def idOf (s : Statement) : StatementId := (node.describe s).id

/-- The text can be compiled. -/
def Compiles (s : Statement) : Prop := ∃ p, node.compile s = .ok p

/-- The refusal of an id. -/
def unprepared (id : StatementId) : Refusal :=
  ⟨kUnprepared, node.unpreparedMessage id, encodeString id⟩

/-- What is to be run for a statement. -/
def compileStatement (known : StatementId → Option Statement) (s : BatchStatement) :
    Except Refusal (π × List (List UInt8)) :=
  match s.query with
  | .string text => (node.compile text).map (·, s.params)
  | .id id =>
    match known id with
    | none => .error (node.unprepared id)
    | some text => (node.compile text).map (·, s.params)

/-- What is compiled is run, and what is refused changes nothing. -/
def runOr {α : Type} (compiled : Except Refusal α) (run : α → δ → V4.Response × δ) (data : δ) :
    V4.Response × δ :=
  match compiled with
  | .error refusal => (refusal.response, data)
  | .ok p => run p data

/-- A request that runs one statement. -/
def serveStatement (level : Consistency) (s : BatchStatement) (state : NodeState δ) :
    V4.Response × NodeState δ :=
  let after := runOr (node.compileStatement state.known s)
    (fun p ↦ node.run level p.1 p.2) state.data
  (after.1, { state with data := after.2 })

/-- A request that runs a batch: the first statement that is refused decides. -/
def serveBatch (level : Consistency) (queries : List BatchStatement) (state : NodeState δ) :
    V4.Response × NodeState δ :=
  let after := runOr (queries.mapM (node.compileStatement state.known))
    (node.runBatch level) state.data
  (after.1, { state with data := after.2 })

/-- PREPARE: the text is remembered under its id. -/
def servePrepare (text : Statement) (state : NodeState δ) : V4.Response × NodeState δ :=
  match node.compile text with
  | .error refusal => (refusal.response, state)
  | .ok _ => (.result (.prepared (node.describe text)),
      { state with known := Function.update state.known (node.idOf text) (some text) })

/-- The answer to a request. -/
def serve (state : NodeState δ) : RequestMessage → V4.Response × NodeState δ
  | .options => (.supported node.supported, state)
  | .startup _ => (.ready, state)
  | .query level text params => node.serveStatement level ⟨.string text, params⟩ state
  | .prepare text => node.servePrepare text state
  | .execute level id params => node.serveStatement level ⟨.id id, params⟩ state
  | .batch queries level => node.serveBatch level queries state

/-- What the node remembers are texts that it compiles, under their own ids. -/
def Remembers (known : StatementId → Option Statement) : Prop :=
  ∀ id s, known id = some s → node.idOf s = id ∧ node.Compiles s

end Node

/-- What a user asks a pool for: `Execute` or `BatchExecute`. -/
inductive PoolRequest
  | execute (level : Consistency) (query : BatchQuery)
  | batch (store : BatchQueryStore)

/-- A statement by its text. -/
def byText (q : BatchQuery) : BatchStatement := ⟨.string q.statement, q.params⟩

namespace PoolRequest

/-- The statements, in order. -/
def queries : PoolRequest → List BatchQuery
  | execute _ query => [query]
  | batch store => store.queries

/-- The message that is sent without prepared statements. -/
def message : PoolRequest → RequestMessage
  | execute level query => .query level query.statement query.params
  | batch store => .batch (store.queries.map byText) store.consistencyLevel

/-- The message that is sent with prepared statements, once every statement has an id. -/
def messageById : PoolRequest → List StatementId → Option RequestMessage
  | execute level query, [id] => some (.execute level id query.params)
  | execute _ _, _ => none
  | batch store, ids =>
    if ids.length = store.queries.length then
      some (.batch (store.queries.zipWith (fun q id ↦ ⟨.id id, q.params⟩) ids)
        store.consistencyLevel)
    else none

/-- A message by ids takes an id for every statement. -/
theorem messageById_length {request : PoolRequest} {ids : List StatementId} {m : RequestMessage}
    (h : request.messageById ids = some m) : ids.length = request.queries.length := by
  cases request with
  | execute level query =>
    cases ids with
    | nil => cases h
    | cons id rest =>
      cases rest with
      | nil => rfl
      | cons _ _ => cases h
  | batch store =>
    rw [messageById, Option.ite_some_none_eq_some] at h
    exact h.1

end PoolRequest

namespace Node

variable {δ π : Type} (node : Node δ π)

/-- What a request does by its texts. -/
def runText (request : PoolRequest) (data : δ) : V4.Response × δ :=
  match request with
  | .execute level query =>
    runOr ((node.compile query.statement).map (·, query.params))
      (fun p ↦ node.run level p.1 p.2) data
  | .batch store =>
    runOr (store.queries.mapM fun q ↦ (node.compile q.statement).map (·, q.params))
      (node.runBatch store.consistencyLevel) data

/-- What requests do one after the other, with the responses. -/
def runTexts : List PoolRequest → δ → List V4.Response × δ
  | [], data => ([], data)
  | request :: rest, data =>
    ((node.runText request data).1 :: (runTexts rest (node.runText request data).2).1,
      (runTexts rest (node.runText request data).2).2)

variable {node} {request : PoolRequest} {state : NodeState δ} {ids : List StatementId}
  {m : RequestMessage}

/-- The last request runs on the data that the others leave. -/
theorem runTexts_concat (requests : List PoolRequest) (request : PoolRequest) (data : δ) :
    node.runTexts (requests ++ [request]) data =
      ((node.runTexts requests data).1 ++
          [(node.runText request (node.runTexts requests data).2).1],
        (node.runText request (node.runTexts requests data).2).2) := by
  induction requests generalizing data with
  | nil => rfl
  | cons r rest ih =>
    rw [List.cons_append, runTexts, ih]
    rfl

/-- Every request has its response. -/
theorem length_runTexts (requests : List PoolRequest) (data : δ) :
    (node.runTexts requests data).1.length = requests.length := by
  induction requests generalizing data with
  | nil => rfl
  | cons r rest ih => rw [runTexts, List.length_cons, List.length_cons, ih]

/-- The message without prepared statements asks for the texts. -/
theorem serve_message (request : PoolRequest) (state : NodeState δ) :
    node.serve state request.message = ((node.runText request state.data).1,
      { state with data := (node.runText request state.data).2 }) := by
  cases request with
  | execute level query => rfl
  | batch store =>
    simp only [PoolRequest.message, serve, serveBatch, List.mapM_map]
    rfl

/-- An id of a text that compiles is that text to the node, or unknown. -/
theorem known_idOf (h : node.Remembers state.known) {s : Statement} (hs : node.Compiles s) :
    state.known (node.idOf s) = some s ∨ state.known (node.idOf s) = none := by
  cases hknown : state.known (node.idOf s) with
  | none => exact .inr rfl
  | some t =>
    obtain ⟨hid, q, hq⟩ := h _ _ hknown
    obtain ⟨p, hp⟩ := hs
    rw [node.describe_id_inj t s q p hq hp hid]
    exact .inl rfl

/-- A statement by its id is the statement by its text, or refused for its id. -/
theorem compileStatement_byId (h : node.Remembers state.known) {q : BatchQuery}
    (hq : node.Compiles q.statement) :
    node.compileStatement state.known (byId node.idOf q) =
        (node.compile q.statement).map (·, q.params) ∨
      state.known (node.idOf q.statement) = none ∧
        node.compileStatement state.known (byId node.idOf q) =
          .error (node.unprepared (node.idOf q.statement)) := by
  rcases known_idOf h hq with hknown | hknown
  · exact .inl (by simp only [compileStatement, byId, hknown])
  · exact .inr ⟨hknown, by simp only [compileStatement, byId, hknown]⟩

/-- The statements of a batch by their ids are the statements by their texts, or one of them is
refused for its id. -/
theorem mapM_byId (h : node.Remembers state.known) {queries : List BatchQuery}
    (hqueries : ∀ q ∈ queries, node.Compiles q.statement) :
    (queries.map (byId node.idOf)).mapM (node.compileStatement state.known) =
        (queries.mapM fun q ↦ (node.compile q.statement).map (·, q.params)) ∨
      ∃ q ∈ queries, state.known (node.idOf q.statement) = none ∧
        (queries.map (byId node.idOf)).mapM (node.compileStatement state.known) =
          .error (node.unprepared (node.idOf q.statement)) := by
  induction queries with
  | nil => exact .inl rfl
  | cons q rest ih =>
    rw [List.map_cons, List.mapM_cons, List.mapM_cons]
    obtain ⟨p, hp⟩ := hqueries q List.mem_cons_self
    rcases compileStatement_byId h ⟨p, hp⟩ with hone | ⟨hknown, hone⟩
    · rw [hone, hp]
      rcases ih (fun q' hq' ↦ hqueries q' (List.mem_cons_of_mem _ hq')) with hmore |
          ⟨q', hq', hknown, hmore⟩
      · rw [hmore]
        exact .inl rfl
      · rw [hmore]
        exact .inr ⟨q', List.mem_cons_of_mem _ hq', hknown, rfl⟩
    · rw [hone]
      exact .inr ⟨q, List.mem_cons_self, hknown, rfl⟩

/-- The message with the ids that the node gives. -/
def messageByIdOf (node : Node δ π) : PoolRequest → RequestMessage
  | .execute level query => .execute level (node.idOf query.statement) query.params
  | .batch store => .batch (store.queries.map (byId node.idOf)) store.consistencyLevel

/-- With the ids of the node the message is `messageByIdOf`. -/
theorem messageById_eq_some (hm : request.messageById ids = some m)
    (hids : ids = request.queries.map fun q ↦ node.idOf q.statement) :
    m = node.messageByIdOf request := by
  subst hids
  cases request with
  | execute level query =>
    cases hm
    rfl
  | batch store =>
    rw [PoolRequest.messageById, Option.ite_some_none_eq_some] at hm
    obtain ⟨-, rfl⟩ := hm
    rw [messageByIdOf, PoolRequest.queries, List.zipWith_map_right, List.zipWith_self]
    rfl

/-- The message with prepared statements does what the one without them does, or the node has
forgotten an id: then it says so and does nothing. -/
theorem serve_messageByIdOf (h : node.Remembers state.known)
    (hqueries : ∀ q ∈ request.queries, node.Compiles q.statement) :
    node.serve state (node.messageByIdOf request) = node.serve state request.message ∨
      ∃ q ∈ request.queries, state.known (node.idOf q.statement) = none ∧
        node.serve state (node.messageByIdOf request) =
          ((node.unprepared (node.idOf q.statement)).response, state) := by
  cases request with
  | execute level query =>
    change node.serveStatement level (byId node.idOf query) state = _ ∨ ∃ q ∈ [query], _ ∧
      node.serveStatement level (byId node.idOf query) state = _
    rw [serveStatement]
    rcases compileStatement_byId h (hqueries query List.mem_cons_self) with hone | ⟨hknown, hone⟩
    · rw [hone]
      exact .inl rfl
    · rw [hone]
      exact .inr ⟨query, List.mem_cons_self, hknown, rfl⟩
  | batch store =>
    rw [serve_message]
    simp only [messageByIdOf, serve, serveBatch]
    rcases mapM_byId h hqueries with hall | ⟨q, hq, hknown, hall⟩
    · rw [PoolRequest.queries] at hall
      rw [hall]
      exact .inl rfl
    · rw [PoolRequest.queries] at hall
      rw [hall]
      exact .inr ⟨q, hq, hknown, rfl⟩

end Node
end CassandraDriver.Detail
