import CassandraDriver.Detail.Execution

/-!
# Executions and their stream ids

Library `Detail`. The calls of `ConnectionPool::Execute` and `BatchExecute`
(`src/detail/connection_pool.cpp:301`) on one pool, from the connection that they have acquired on
and as long as that lives, with the node that serves their requests. `ExecuteMessageAsync`
(`src/detail/connection_impl.cpp:175`) sends each message under a stream id, and takes the first
answer that the connection queues under that id, also if it answers a message of an earlier call
that has given up. Messages and answers are ones that can be laid out.
-/

namespace CassandraDriver.Detail
open CassandraDriver.Lib CassandraDriver.Protocol

/-- A stream id of a connection. -/
structure Slot where
  connection : Nat
  stream : Nat
  deriving DecidableEq, Repr

/-- Where a call stands, with the stream id that its `StreamGuard` holds. -/
inductive StreamPhase
  | plain
  | collecting (ids : List StatementId)
  | missed (ids : List StatementId)
  | preparing (ids : List StatementId) (slot : Slot)
  | waiting (slot : Slot)
  | ended (outcome : Outcome)

namespace StreamPhase

/-- The stream id of a call in `ExecuteMessageAsync`. -/
def slot? : StreamPhase → Option Slot
  | preparing _ slot => some slot
  | waiting slot => some slot
  | _ => none

/-- The outcome, if the call is over. -/
def outcome? : StreamPhase → Option Outcome
  | ended outcome => some outcome
  | _ => none

/-- The next message, for a call that has one to send, and how it waits under a stream id. -/
def next? (request : PoolRequest) : StreamPhase → Option (RequestMessage × (Slot → StreamPhase))
  | plain => some (request.message, waiting)
  | collecting ids => (request.messageById ids).map (·, waiting)
  | missed ids => request.queries[ids.length]?.map fun q ↦ (.prepare q.statement, preparing ids)
  | _ => none

end StreamPhase

/-- A call. -/
structure StreamExecution where
  request : PoolRequest
  phase : StreamPhase

/-- A message that the node has not served yet, named by the call that sent it. -/
structure SentMessage where
  call : Nat
  slot : Slot
  message : RequestMessage

/-- A pool and its node, with what is between them: the call that holds a stream id, the messages
on the way, and under each id the answers that nobody has popped. -/
structure ExecutionStreams (δ : Type) where
  cacheEnabled : Bool
  cache : Statement → Option StatementId
  node : NodeState δ
  calls : Nat → Option StreamExecution
  holder : Slot → Option Nat
  sent : List SentMessage
  answers : Slot → List V4.Response

/-- What can happen next. -/
inductive StreamEvent
  | begin (call : Nat) (request : PoolRequest)
      (commandControl : Option PreparedStatementsOptionOverride)
  /-- `_prepared_statements_map.Get` of the next statement. -/
  | get (call : Nat)
  /-- `StreamGuard` gets the id, and the next message goes out. -/
  | send (call : Nat) (slot : Slot)
  /-- `StreamGuard` throws. -/
  | exhausted (call : Nat)
  /-- The send task of one of the messages fails; the node sees nothing of it. -/
  | sendFails (index : Nat)
  /-- The node serves one of the messages. -/
  | serve (index : Nat)
  /-- `Pop` succeeds in `Prepare`, which throws, or returns and its id is put into the map. -/
  | put (call : Nat)
  /-- `Pop` succeeds in `Execute`, `ExecutePrepared` or `BatchExecute`. -/
  | finish (call : Nat)
  /-- `Pop` fails. -/
  | timeout (call : Nat)
  | evict (dropped : Statement → Bool)
  | forget (forgotten : StatementId → Bool)
  /-- The node prepares a text for somebody else. -/
  | prepareElsewhere (text : Statement)

/-- The node forgets an id. -/
def StreamEvent.isForget : StreamEvent → Bool
  | forget _ => true
  | _ => false

namespace ExecutionStreams

variable {δ π : Type} {node : Node δ π} {memory : List UInt8 → Nat → UInt8}

/-- A new pool for a node. -/
def init (cacheEnabled : Bool) (data : δ) : ExecutionStreams δ where
  cacheEnabled := cacheEnabled
  cache := fun _ ↦ none
  node := ⟨data, fun _ ↦ none⟩
  calls := fun _ ↦ none
  holder := fun _ ↦ none
  sent := []
  answers := fun _ ↦ []

/-- A call moves on. -/
def setCall (p : ExecutionStreams δ) (i : Nat) (request : PoolRequest) (phase : StreamPhase) :
    ExecutionStreams δ :=
  { p with calls := Function.update p.calls i (some ⟨request, phase⟩) }

/-- `~StreamGuard`. -/
def release (p : ExecutionStreams δ) (slot : Slot) : ExecutionStreams δ :=
  { p with holder := Function.update p.holder slot none }

/-- `Pop`, when it returns, and `~StreamGuard`. -/
def pop (p : ExecutionStreams δ) (slot : Slot) : ExecutionStreams δ :=
  { p with
    holder := Function.update p.holder slot none
    answers := Function.update p.answers slot (p.answers slot).tail }

variable (node memory) in
/-- One step. -/
def step (p : ExecutionStreams δ) : StreamEvent → Option (ExecutionStreams δ)
  | .begin i request commandControl =>
    match p.calls i with
    | some _ => none
    | none => some (p.setCall i request
        (if canPrepareStatement commandControl p.cacheEnabled then .collecting [] else .plain))
  | .get i => do
    let c ← p.calls i
    match c.phase with
    | .collecting ids =>
      let q ← c.request.queries[ids.length]?
      match p.cache q.statement with
      | some id => return p.setCall i c.request (.collecting (ids ++ [id]))
      | none => return p.setCall i c.request (.missed ids)
    | _ => none
  | .send i slot => do
    let c ← p.calls i
    let (message, wait) ← c.phase.next? c.request
    match p.holder slot with
    | some _ => none
    | none => return { p.setCall i c.request (wait slot) with
        holder := Function.update p.holder slot (some i)
        sent := p.sent ++ [⟨i, slot, message⟩] }
  | .exhausted i => do
    let c ← p.calls i
    let _ ← c.phase.next? c.request
    return p.setCall i c.request (.ended .exhausted)
  | .sendFails k => do
    let _ ← p.sent[k]?
    return { p with sent := p.sent.eraseIdx k }
  | .serve k => do
    let m ← p.sent[k]?
    let (response, after) := node.serve p.node m.message
    return { p with
      node := after
      sent := p.sent.eraseIdx k
      answers := Function.update p.answers m.slot (p.answers m.slot ++ [response]) }
  | .put i => do
    let c ← p.calls i
    match c.phase with
    | .preparing ids slot =>
      let q ← c.request.queries[ids.length]?
      let response ← (p.answers slot).head?
      match prepare (answerOf memory response) with
      | .ok id =>
        return { p.pop slot with cache := Function.update p.cache q.statement (some id) }.setCall i
          c.request (.collecting (ids ++ [id]))
      | .error e => return (p.pop slot).setCall i c.request (.ended (.result (.error e)))
    | _ => none
  | .finish i => do
    let c ← p.calls i
    match c.phase with
    | .waiting slot =>
      let response ← (p.answers slot).head?
      return (p.pop slot).setCall i c.request (.ended (.of memory response))
    | _ => none
  | .timeout i => do
    let c ← p.calls i
    let slot ← c.phase.slot?
    return (p.release slot).setCall i c.request (.ended .timedOut)
  | .evict dropped => some { p with cache := fun s ↦ if dropped s then none else p.cache s }
  | .forget forgotten => some { p with node :=
      { p.node with known := fun id ↦ if forgotten id then none else p.node.known id } }
  | .prepareElsewhere text => some { p with node := (node.servePrepare text p.node).2 }

variable (node memory) in
/-- The steps, one constructor for each kind. -/
inductive Transition (p : ExecutionStreams δ) : StreamEvent → ExecutionStreams δ → Prop
  | begin {i request commandControl} (hi : p.calls i = none) :
      Transition p (.begin i request commandControl) (p.setCall i request
        (if canPrepareStatement commandControl p.cacheEnabled then .collecting [] else .plain))
  | hit {i request ids q id} (hi : p.calls i = some ⟨request, .collecting ids⟩)
      (hq : request.queries[ids.length]? = some q) (hs : p.cache q.statement = some id) :
      Transition p (.get i) (p.setCall i request (.collecting (ids ++ [id])))
  | miss {i request ids q} (hi : p.calls i = some ⟨request, .collecting ids⟩)
      (hq : request.queries[ids.length]? = some q) (hs : p.cache q.statement = none) :
      Transition p (.get i) (p.setCall i request (.missed ids))
  | send {i slot request phase message wait} (hi : p.calls i = some ⟨request, phase⟩)
      (hnext : phase.next? request = some (message, wait)) (hfree : p.holder slot = none) :
      Transition p (.send i slot) { p.setCall i request (wait slot) with
        holder := Function.update p.holder slot (some i)
        sent := p.sent ++ [⟨i, slot, message⟩] }
  | exhausted {i request phase message wait} (hi : p.calls i = some ⟨request, phase⟩)
      (hnext : phase.next? request = some (message, wait)) :
      Transition p (.exhausted i) (p.setCall i request (.ended .exhausted))
  | sendFails {k m} (hk : p.sent[k]? = some m) :
      Transition p (.sendFails k) { p with sent := p.sent.eraseIdx k }
  | serve {k m} (hk : p.sent[k]? = some m) : Transition p (.serve k) { p with
      node := (node.serve p.node m.message).2
      sent := p.sent.eraseIdx k
      answers := Function.update p.answers m.slot
        (p.answers m.slot ++ [(node.serve p.node m.message).1]) }
  | put {i request ids slot q response id} (hi : p.calls i = some ⟨request, .preparing ids slot⟩)
      (hq : request.queries[ids.length]? = some q) (hpop : (p.answers slot).head? = some response)
      (hid : prepare (answerOf memory response) = .ok id) : Transition p (.put i)
        ({ p.pop slot with cache := Function.update p.cache q.statement (some id) }.setCall i
          request (.collecting (ids ++ [id])))
  | prepareFails {i request ids slot q response e}
      (hi : p.calls i = some ⟨request, .preparing ids slot⟩)
      (hq : request.queries[ids.length]? = some q) (hpop : (p.answers slot).head? = some response)
      (he : prepare (answerOf memory response) = .error e) :
      Transition p (.put i) ((p.pop slot).setCall i request (.ended (.result (.error e))))
  | finish {i request slot response} (hi : p.calls i = some ⟨request, .waiting slot⟩)
      (hpop : (p.answers slot).head? = some response) : Transition p (.finish i)
        ((p.pop slot).setCall i request (.ended (.of memory response)))
  | timeout {i request phase slot} (hi : p.calls i = some ⟨request, phase⟩)
      (hslot : phase.slot? = some slot) : Transition p (.timeout i)
        ((p.release slot).setCall i request (.ended .timedOut))
  | evict {dropped} : Transition p (.evict dropped)
      { p with cache := fun s ↦ if dropped s then none else p.cache s }
  | forget {forgotten} : Transition p (.forget forgotten) { p with node :=
      { p.node with known := fun id ↦ if forgotten id then none else p.node.known id } }
  | prepareElsewhere {text} : Transition p (.prepareElsewhere text)
      { p with node := (node.servePrepare text p.node).2 }

/-- Every step is one of them. -/
theorem transition_of_step {p p' : ExecutionStreams δ} {e : StreamEvent}
    (h : p.step node memory e = some p') : Transition node memory p e p' := by
  cases e with
  | begin i request commandControl =>
    simp only [step] at h
    split at h
    · cases h
    · next hi =>
      cases h
      exact .begin hi
  | get i =>
    obtain ⟨⟨request, phase⟩, hi, h⟩ := Option.bind_eq_some_iff.mp h
    cases phase with
    | collecting ids =>
      obtain ⟨q, hq, h⟩ := Option.bind_eq_some_iff.mp h
      cases hs : p.cache q.statement with
      | some id =>
        simp only [hs] at h
        cases h
        exact .hit hi hq hs
      | none =>
        simp only [hs] at h
        cases h
        exact .miss hi hq hs
    | _ => cases h
  | send i slot =>
    obtain ⟨⟨request, phase⟩, hi, h⟩ := Option.bind_eq_some_iff.mp h
    obtain ⟨⟨message, wait⟩, hnext, h⟩ := Option.bind_eq_some_iff.mp h
    cases hfree : p.holder slot with
    | some j =>
      simp only [hfree] at h
      cases h
    | none =>
      simp only [hfree] at h
      cases h
      exact .send hi hnext hfree
  | exhausted i =>
    obtain ⟨⟨request, phase⟩, hi, h⟩ := Option.bind_eq_some_iff.mp h
    obtain ⟨⟨message, wait⟩, hnext, h⟩ := Option.bind_eq_some_iff.mp h
    cases h
    exact .exhausted hi hnext
  | sendFails k =>
    obtain ⟨m, hk, h⟩ := Option.bind_eq_some_iff.mp h
    cases h
    exact .sendFails hk
  | serve k =>
    obtain ⟨m, hk, h⟩ := Option.bind_eq_some_iff.mp h
    cases h
    exact .serve hk
  | put i =>
    obtain ⟨⟨request, phase⟩, hi, h⟩ := Option.bind_eq_some_iff.mp h
    cases phase with
    | preparing ids slot =>
      obtain ⟨q, hq, h⟩ := Option.bind_eq_some_iff.mp h
      obtain ⟨response, hpop, h⟩ := Option.bind_eq_some_iff.mp h
      cases hid : prepare (answerOf memory response) with
      | ok id =>
        simp only [hid] at h
        cases h
        exact .put hi hq hpop hid
      | error e =>
        simp only [hid] at h
        cases h
        exact .prepareFails hi hq hpop hid
    | _ => cases h
  | finish i =>
    obtain ⟨⟨request, phase⟩, hi, h⟩ := Option.bind_eq_some_iff.mp h
    cases phase with
    | waiting slot =>
      obtain ⟨response, hpop, h⟩ := Option.bind_eq_some_iff.mp h
      cases h
      exact .finish hi hpop
    | _ => cases h
  | timeout i =>
    obtain ⟨⟨request, phase⟩, hi, h⟩ := Option.bind_eq_some_iff.mp h
    obtain ⟨slot, hslot, h⟩ := Option.bind_eq_some_iff.mp h
    cases h
    exact .timeout hi hslot
  | evict dropped =>
    cases h
    exact .evict
  | forget forgotten =>
    cases h
    exact .forget
  | prepareElsewhere text =>
    cases h
    exact .prepareElsewhere

/-- Nothing is out or queued under the stream id that a call is given. -/
def FreshStream (p : ExecutionStreams δ) : StreamEvent → Prop
  | .send _ slot => (∀ m ∈ p.sent, m.slot ≠ slot) ∧ p.answers slot = []
  | _ => True

instance (p : ExecutionStreams δ) : (e : StreamEvent) → Decidable (p.FreshStream e)
  | .send _ slot =>
    inferInstanceAs (Decidable ((∀ m ∈ p.sent, m.slot ≠ slot) ∧ p.answers slot = []))
  | .begin .. | .get _ | .exhausted _ | .sendFails _ | .serve _ | .put _ | .finish _ | .timeout _
  | .evict _ | .forget _ | .prepareElsewhere _ => .isTrue trivial

/-- The events of a node that forgets, or does not. -/
def Forgets (forgets : Bool) (e : StreamEvent) : Prop := e.isForget = true → forgets = true

/-- The outcome of a call that is over. -/
def outcome? (p : ExecutionStreams δ) (i : Nat) : Option Outcome :=
  (p.calls i).bind fun c ↦ c.phase.outcome?

/-- What a call was asked for. -/
def request? (p : ExecutionStreams δ) (i : Nat) : Option PoolRequest :=
  (p.calls i).map StreamExecution.request

end ExecutionStreams
end CassandraDriver.Detail
