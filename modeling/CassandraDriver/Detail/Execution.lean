import CassandraDriver.Detail.Node

/-!
# Executing by id and by text

Library `Detail`. The calls of `ConnectionPool::Execute` and `BatchExecute`
(`src/detail/connection_pool.cpp:301`) on one pool with the node that serves their requests: each
looks its statements up, prepares and stores those that are not in the map, and sends their ids,
or sends the texts if it may not prepare. The ping of `Maintain` is such a call, of `kPing` with
prepared statements enabled. Here every answer goes to the call whose message it answers, or to
nobody if that call has given up; `ExecutionStreams` has the stream ids that decide this in the
driver, and `ExecutionMatching` shows when they do.
-/

namespace CassandraDriver.Detail
open CassandraDriver.Lib CassandraDriver.Io CassandraDriver.Protocol

/-- What the driver receives of a response, with what memory holds behind its body. -/
def answerOf (memory : List UInt8 → Nat → UInt8) (r : V4.Response) : Answer :=
  some (r.cls, ⟨r.encode, memory r.encode⟩)

/-- `ConnectionImpl::Execute`, `ExecutePrepared` and `BatchExecute` from their message on,
`src/detail/connection_impl.cpp:448–458`, `475–485` and `514–527`. -/
def executeResult (answer : Answer) : Except CallError ResultSet := do
  match ← executeMessageAsync answer with
  | .result kind payload => (getResultSet kind payload).mapError CallError.other
  | _ => .error (.other (.runtimeError "Unexpected response type"))

section
variable (memory : List UInt8 → Nat → UInt8)

private theorem executeMessageAsync_answerOf {r : V4.Response} (h : r.Fits) :
    executeMessageAsync (answerOf memory r) =
      (checkError r.toMessage).map (fun _ ↦ r.toMessage) := by
  simp only [executeMessageAsync, answerOf, r.doParseBody_encode h]
  cases checkError r.toMessage <;> rfl

/-- `Prepare` returns the id of a Prepared result. -/
theorem prepare_answerOf {p : V4.Prepared} (h : p.Fits) :
    prepare (answerOf memory (.result (.prepared p))) = .ok p.id := by
  simp only [prepare, executeMessageAsync_answerOf memory (r := .result (.prepared p)) h]
  rfl

/-- A node that refuses a statement makes `Prepare` fail as it makes the statement fail. -/
theorem prepare_refusal (r : Refusal) :
    ∃ e, prepare (answerOf memory r.response) = .error e ∧
      executeResult (answerOf memory r.response) = .error e := by
  have hparse : ∀ message, ResponseMessage.doParseBody .error
      ⟨r.response.encode, memory r.response.encode⟩ = .ok message →
      messageClass message = .error := fun message h ↦ messageClass_of_doParseBody h
  change ∃ e, prepare (some (.error, _)) = .error e ∧ executeResult (some (.error, _)) = .error e
  simp only [prepare, executeResult, executeMessageAsync]
  cases hmessage : ResponseMessage.doParseBody .error
      ⟨r.response.encode, memory r.response.encode⟩ with
  | error e => exact ⟨_, rfl, rfl⟩
  | ok message =>
    have hcls := hparse message hmessage
    simp only
    cases hcheck : checkError message with
    | error e => exact ⟨e, rfl, rfl⟩
    | ok u =>
      cases message with
      | result kind payload => cases hcls
      | error code text => exact ⟨_, rfl, rfl⟩
      | ready => cases hcls
      | authentificate challenge => cases hcls
      | support options => cases hcls

/-- What a call with an id that the node has forgotten throws. -/
theorem executeResult_unprepared {δ π : Type} (node : Node δ π) (id : StatementId) :
    executeResult (answerOf memory (node.unprepared id).response) =
      .error (.frameError kUnprepared (node.unpreparedMessage id)) := by
  have hfits : (node.unprepared id).response.Fits := node.unpreparedMessage_fits id
  simp only [executeResult, executeMessageAsync_answerOf memory hfits]
  rfl

end

/-- How a call ends: with what its last `ExecuteMessageAsync` returned or threw, or because the
connection has no stream left, `src/detail/stream_pool.cpp:11`. -/
inductive Outcome
  | result (r : Except CallError ResultSet)
  | exhausted

/-- `ConnectionError("Timeout")`. -/
def Outcome.timedOut : Outcome := .result (.error .timeout)

/-- `Unprepared`, for an id that the node has forgotten. -/
def Outcome.rejected {δ π : Type} (node : Node δ π) (id : StatementId) : Outcome :=
  .result (.error (.frameError kUnprepared (node.unpreparedMessage id)))

/-- What the call makes of the response to its message. -/
def Outcome.of (memory : List UInt8 → Nat → UInt8) (response : V4.Response) : Outcome :=
  .result (executeResult (answerOf memory response))

/-- Where a call stands: it has not sent its text; it has some ids; the next statement is not in
the map; its PREPARE is out; it is answered; the message with the statements is out; it is
answered; the call has returned or thrown. -/
inductive ExecutionPhase
  | plain
  | collecting (ids : List StatementId)
  | missed (ids : List StatementId)
  | preparing (ids : List StatementId)
  | prepared (ids : List StatementId) (response : V4.Response)
  | waiting
  | answered (response : V4.Response)
  | ended (outcome : Outcome)

/-- A call, with its message that is on the way to the node. -/
structure Execution where
  request : PoolRequest
  phase : ExecutionPhase
  pending : Option RequestMessage

/-- A pool and its node. -/
structure Executions (δ : Type) where
  cacheEnabled : Bool
  cache : Statement → Option StatementId
  node : NodeState δ
  calls : Nat → Option Execution

/-- What can happen next. -/
inductive ExecutionEvent
  | begin (call : Nat) (request : PoolRequest)
      (commandControl : Option PreparedStatementsOptionOverride)
  /-- `_prepared_statements_map.Get` of the next statement. -/
  | get (call : Nat)
  /-- `Prepare` throws, or returns and its id is put into the map. -/
  | put (call : Nat)
  /-- `ExecuteMessageAsync` sends the next message. -/
  | send (call : Nat)
  /-- `StreamGuard` throws. -/
  | exhausted (call : Nat)
  /-- The node serves the message of the call, whether the call still waits for the answer or
  not. -/
  | serve (call : Nat)
  /-- `Pop` fails. -/
  | timeout (call : Nat)
  | finish (call : Nat)
  | evict (dropped : Statement → Bool)
  | forget (forgotten : StatementId → Bool)
  /-- The node prepares a text for somebody else. -/
  | prepareElsewhere (text : Statement)

/-- The node forgets an id. -/
def ExecutionEvent.isForget : ExecutionEvent → Bool
  | forget _ => true
  | _ => false

namespace ExecutionPhase

/-- The node has answered what the call waits for; a call that has given up gets nothing. -/
def respond (r : V4.Response) : ExecutionPhase → ExecutionPhase
  | preparing ids => prepared ids r
  | waiting => answered r
  | phase => phase

/-- The outcome, if the call is over. -/
def outcome? : ExecutionPhase → Option Outcome
  | ended outcome => some outcome
  | _ => none

/-- The call is in `ExecuteMessageAsync`. -/
def isAwaiting : ExecutionPhase → Bool
  | preparing _ => true
  | prepared _ _ => true
  | waiting => true
  | answered _ => true
  | _ => false

/-- The next message, for a call that has one to send, and what it waits for then. -/
def next? (request : PoolRequest) : ExecutionPhase → Option (RequestMessage × ExecutionPhase)
  | plain => some (request.message, waiting)
  | collecting ids => (request.messageById ids).map (·, waiting)
  | missed ids => request.queries[ids.length]?.map fun q ↦ (.prepare q.statement, preparing ids)
  | _ => none

end ExecutionPhase

namespace Executions

variable {δ π : Type} {node : Node δ π} {memory : List UInt8 → Nat → UInt8}

/-- A new pool for a node. -/
def init (cacheEnabled : Bool) (data : δ) : Executions δ where
  cacheEnabled := cacheEnabled
  cache := fun _ ↦ none
  node := ⟨data, fun _ ↦ none⟩
  calls := fun _ ↦ none

/-- A call moves on. -/
def setCall (p : Executions δ) (i : Nat) (c : Execution) : Executions δ :=
  { p with calls := Function.update p.calls i (some c) }

variable (node memory) in
/-- One step. -/
def step (p : Executions δ) : ExecutionEvent → Option (Executions δ)
  | .begin i request commandControl =>
    match p.calls i with
    | some _ => none
    | none => some (p.setCall i ⟨request,
        if canPrepareStatement commandControl p.cacheEnabled then .collecting [] else .plain, none⟩)
  | .get i => do
    let c ← p.calls i
    match c.phase with
    | .collecting ids =>
      let q ← c.request.queries[ids.length]?
      match p.cache q.statement with
      | some id => return p.setCall i { c with phase := .collecting (ids ++ [id]) }
      | none => return p.setCall i { c with phase := .missed ids }
    | _ => none
  | .put i => do
    let c ← p.calls i
    match c.phase with
    | .prepared ids response =>
      let q ← c.request.queries[ids.length]?
      match prepare (answerOf memory response) with
      | .ok id =>
        return { p with cache := Function.update p.cache q.statement (some id) }.setCall i
          { c with phase := .collecting (ids ++ [id]) }
      | .error e => return p.setCall i { c with phase := .ended (.result (.error e)) }
    | _ => none
  | .send i => do
    let c ← p.calls i
    let (message, phase) ← c.phase.next? c.request
    return p.setCall i ⟨c.request, phase, some message⟩
  | .exhausted i => do
    let c ← p.calls i
    let _ ← c.phase.next? c.request
    return p.setCall i { c with phase := .ended .exhausted }
  | .serve i => do
    let c ← p.calls i
    let message ← c.pending
    let (response, after) := node.serve p.node message
    return { p with node := after }.setCall i ⟨c.request, c.phase.respond response, none⟩
  | .timeout i => do
    let c ← p.calls i
    if c.phase.isAwaiting then
      return p.setCall i { c with phase := .ended .timedOut }
    else none
  | .finish i => do
    let c ← p.calls i
    match c.phase with
    | .answered response =>
      return p.setCall i { c with phase := .ended (.of memory response) }
    | _ => none
  | .evict dropped => some { p with cache := fun s ↦ if dropped s then none else p.cache s }
  | .forget forgotten => some { p with node :=
      { p.node with known := fun id ↦ if forgotten id then none else p.node.known id } }
  | .prepareElsewhere text => some { p with node := (node.servePrepare text p.node).2 }

variable (node memory) in
/-- The steps, one constructor for each kind. -/
inductive Transition (p : Executions δ) : ExecutionEvent → Executions δ → Prop
  | begin {i request commandControl} (hi : p.calls i = none) :
      Transition p (.begin i request commandControl) (p.setCall i ⟨request,
        if canPrepareStatement commandControl p.cacheEnabled then .collecting [] else .plain, none⟩)
  | hit {i request pending ids q id} (hi : p.calls i = some ⟨request, .collecting ids, pending⟩)
      (hq : request.queries[ids.length]? = some q) (hs : p.cache q.statement = some id) :
      Transition p (.get i) (p.setCall i ⟨request, .collecting (ids ++ [id]), pending⟩)
  | miss {i request pending ids q} (hi : p.calls i = some ⟨request, .collecting ids, pending⟩)
      (hq : request.queries[ids.length]? = some q) :
      Transition p (.get i) (p.setCall i ⟨request, .missed ids, pending⟩)
  | put {i request pending ids response q id}
      (hi : p.calls i = some ⟨request, .prepared ids response, pending⟩)
      (hq : request.queries[ids.length]? = some q)
      (hid : prepare (answerOf memory response) = .ok id) : Transition p (.put i)
        ({ p with cache := Function.update p.cache q.statement (some id) }.setCall i
          ⟨request, .collecting (ids ++ [id]), pending⟩)
  | prepareFails {i request pending ids response e}
      (hi : p.calls i = some ⟨request, .prepared ids response, pending⟩)
      (he : prepare (answerOf memory response) = .error e) :
      Transition p (.put i) (p.setCall i ⟨request, .ended (.result (.error e)), pending⟩)
  | send {i request phase phase' pending message}
      (hi : p.calls i = some ⟨request, phase, pending⟩)
      (hnext : phase.next? request = some (message, phase')) :
      Transition p (.send i) (p.setCall i ⟨request, phase', some message⟩)
  | exhausted {i request phase phase' pending message}
      (hi : p.calls i = some ⟨request, phase, pending⟩)
      (hnext : phase.next? request = some (message, phase')) :
      Transition p (.exhausted i) (p.setCall i ⟨request, .ended .exhausted, pending⟩)
  | serve {i request phase message} (hi : p.calls i = some ⟨request, phase, some message⟩) :
      Transition p (.serve i) ({ p with node := (node.serve p.node message).2 }.setCall i
        ⟨request, phase.respond (node.serve p.node message).1, none⟩)
  | timeout {i request phase pending} (hi : p.calls i = some ⟨request, phase, pending⟩)
      (hawaiting : phase.isAwaiting = true) : Transition p (.timeout i)
        (p.setCall i ⟨request, .ended .timedOut, pending⟩)
  | finish {i request response pending}
      (hi : p.calls i = some ⟨request, .answered response, pending⟩) : Transition p (.finish i)
        (p.setCall i ⟨request, .ended (.of memory response), pending⟩)
  | evict {dropped} : Transition p (.evict dropped)
      { p with cache := fun s ↦ if dropped s then none else p.cache s }
  | forget {forgotten} : Transition p (.forget forgotten) { p with node :=
      { p.node with known := fun id ↦ if forgotten id then none else p.node.known id } }
  | prepareElsewhere {text} : Transition p (.prepareElsewhere text)
      { p with node := (node.servePrepare text p.node).2 }

/-- Every step is one of them. -/
theorem transition_of_step {p p' : Executions δ} {e : ExecutionEvent}
    (h : p.step node memory e = some p') : Transition node memory p e p' := by
  cases e with
  | begin i request commandControl =>
    simp only [step] at h
    split at h
    · cases h
    · next hi =>
      cases h
      exact .begin hi
  | get i =>
    obtain ⟨⟨request, phase, pending⟩, hi, h⟩ := Option.bind_eq_some_iff.mp h
    cases phase with
    | collecting ids =>
      obtain ⟨q, hq, h⟩ := Option.bind_eq_some_iff.mp h
      cases hs : p.cache q.statement with
      | some id =>
        simp only [hs] at h
        cases h
        exact .hit hi hq hs
      | none =>
        simp only [hs] at h
        cases h
        exact .miss hi hq
    | _ => cases h
  | put i =>
    obtain ⟨⟨request, phase, pending⟩, hi, h⟩ := Option.bind_eq_some_iff.mp h
    cases phase with
    | prepared ids response =>
      obtain ⟨q, hq, h⟩ := Option.bind_eq_some_iff.mp h
      cases hid : prepare (answerOf memory response) with
      | ok id =>
        simp only [hid] at h
        cases h
        exact .put hi hq hid
      | error e =>
        simp only [hid] at h
        cases h
        exact .prepareFails hi hid
    | _ => cases h
  | send i =>
    obtain ⟨⟨request, phase, pending⟩, hi, h⟩ := Option.bind_eq_some_iff.mp h
    obtain ⟨⟨message, phase'⟩, hnext, h⟩ := Option.bind_eq_some_iff.mp h
    cases h
    exact .send hi hnext
  | exhausted i =>
    obtain ⟨⟨request, phase, pending⟩, hi, h⟩ := Option.bind_eq_some_iff.mp h
    obtain ⟨⟨message, phase'⟩, hnext, h⟩ := Option.bind_eq_some_iff.mp h
    cases h
    exact .exhausted hi hnext
  | serve i =>
    obtain ⟨⟨request, phase, pending⟩, hi, h⟩ := Option.bind_eq_some_iff.mp h
    obtain ⟨message, hpending, h⟩ := Option.bind_eq_some_iff.mp h
    cases hpending
    cases h
    exact .serve hi
  | timeout i =>
    obtain ⟨⟨request, phase, pending⟩, hi, h⟩ := Option.bind_eq_some_iff.mp h
    obtain ⟨hawaiting, hq⟩ := Option.ite_some_none_eq_some.mp h
    cases hq
    exact .timeout hi hawaiting
  | finish i =>
    obtain ⟨⟨request, phase, pending⟩, hi, h⟩ := Option.bind_eq_some_iff.mp h
    cases phase with
    | answered response =>
      cases h
      exact .finish hi
    | _ => cases h
  | evict dropped =>
    cases h
    exact .evict
  | forget forgotten =>
    cases h
    exact .forget
  | prepareElsewhere text =>
    cases h
    exact .prepareElsewhere

/-- The outcome of a call that is over. -/
def outcome? (p : Executions δ) (i : Nat) : Option Outcome :=
  (p.calls i).bind fun c ↦ c.phase.outcome?

/-- What a call was asked for. -/
def request? (p : Executions δ) (i : Nat) : Option PoolRequest := (p.calls i).map Execution.request

/-- The events of a node that forgets, or does not. -/
def Forgets (forgets : Bool) (e : ExecutionEvent) : Prop := e.isForget = true → forgets = true

end Executions
end CassandraDriver.Detail
