import CassandraDriver.Detail.ExecutionMatching
import CassandraDriver.Detail.ExecutionService

/-!
# A pool refines the service

Library `Detail`. Every step of the calls of a pool is a step of the service, or none: a call
takes effect when the node runs its statements, or when the node refuses to prepare one of
them. This holds where answers are matched to calls, and so where messages go out under fresh
stream ids.
-/

namespace CassandraDriver.Detail
open CassandraDriver.Lib CassandraDriver.Protocol

section
variable {δ π : Type} (node : Node δ π) (forgets : Bool) (known : StatementId → Option Statement)

/-- The text compiles, and if the node does not forget, it knows the text by its id. -/
def Usable (s : Statement) : Prop :=
  node.Compiles s ∧ (forgets = false → known (node.idOf s) = some s)

/-- These are the ids of the first statements. -/
structure Collected (request : PoolRequest) (ids : List StatementId) : Prop where
  front : ids = (request.queries.take ids.length).map fun q ↦ node.idOf q.statement
  usable : ∀ q ∈ request.queries.take ids.length, Usable node forgets known q.statement

/-- The message asks for the statements of the request. -/
inductive Asks (request : PoolRequest) : RequestMessage → Prop
  | text : Asks request request.message
  | ids (h : ∀ q ∈ request.queries, Usable node forgets known q.statement) :
      Asks request (node.messageByIdOf request)

/-- Where a call stands at the two levels. -/
inductive Matches (request : PoolRequest) :
    ExecutionPhase → Option RequestMessage → ServicePhase → Prop
  | plain : Matches request .plain none .begun
  | collecting {ids} (h : Collected node forgets known request ids) :
      Matches request (.collecting ids) none .begun
  | missed {ids} (h : Collected node forgets known request ids) :
      Matches request (.missed ids) none .begun
  | preparing {ids q} (h : Collected node forgets known request ids)
      (hq : request.queries[ids.length]? = some q) :
      Matches request (.preparing ids) (some (.prepare q.statement)) .begun
  | prepared {ids q} (h : Collected node forgets known request ids)
      (hq : request.queries[ids.length]? = some q)
      (husable : Usable node forgets known q.statement) :
      Matches request (.prepared ids (.result (.prepared (node.describe q.statement)))) none .begun
  | refused {ids} {r : Refusal} :
      Matches request (.prepared ids r.response) none (.done r.response)
  | waiting {m} (h : Asks node forgets known request m) : Matches request .waiting (some m) .begun
  | answered {r} : Matches request (.answered r) none (.done r)
  | rejected {id} (h : forgets = true) :
      Matches request (.answered (node.unprepared id).response) none .begun
  | ended {o} : Matches request (.ended o) none (.ended o)
  | lost {pending} (h : ∀ m ∈ pending, Asks node forgets known request m ∨ ∃ t, m = .prepare t) :
      Matches request (.ended .timedOut) pending .lost

/-- A call at the two levels. -/
inductive CallMatches : Execution → ServiceCall → Prop
  | mk {request phase pending phase'}
      (h : Matches node forgets known request phase pending phase') :
      CallMatches ⟨request, phase, pending⟩ ⟨request, phase'⟩

/-- A pool with its node refines the service. -/
structure Refines (p : Executions δ) (s : Service δ) : Prop where
  data : s.data = p.node.data
  remembers : node.Remembers p.node.known
  cache : ∀ t id, p.cache t = some id → id = node.idOf t ∧ Usable node forgets p.node.known t
  calls : ∀ i, Option.Rel (CallMatches node forgets p.node.known) (p.calls i) (s.calls i)

end

variable {δ π : Type} {node : Node δ π} {forgets : Bool}
  {known known' : StatementId → Option Statement} {memory : List UInt8 → Nat → UInt8}
  {request : PoolRequest} {ids : List StatementId} {q : BatchQuery}

private theorem collected_nil : Collected node forgets known request [] := by
  refine ⟨rfl, fun q hq ↦ ?_⟩
  cases hq

/-- One more id. -/
theorem Collected.concat (h : Collected node forgets known request ids)
    (hq : request.queries[ids.length]? = some q)
    (husable : Usable node forgets known q.statement) :
    Collected node forgets known request (ids ++ [node.idOf q.statement]) := by
  have htake : request.queries.take (ids ++ [node.idOf q.statement]).length =
      request.queries.take ids.length ++ [q] := by
    rw [List.length_append, List.length_singleton, List.take_add_one, hq]
    rfl
  refine ⟨?_, fun q' hq' ↦ ?_⟩
  · rw [htake, List.map_append, ← h.front]
    rfl
  · rw [htake, List.mem_append, List.mem_singleton] at hq'
    rcases hq' with hq' | rfl
    · exact h.usable q' hq'
    · exact husable

/-- With an id for every statement the message asks for them. -/
theorem Collected.asks (h : Collected node forgets known request ids) {m : RequestMessage}
    (hm : request.messageById ids = some m) : Asks node forgets known request m := by
  have hall : request.queries.take ids.length = request.queries := by
    rw [PoolRequest.messageById_length hm, List.take_length]
  have hids := h.front
  have husable := h.usable
  rw [hall] at hids husable
  rw [Node.messageById_eq_some hm hids]
  exact .ids husable

private theorem mapM_refused {queries : List BatchQuery} {k : Nat} {r : Refusal}
    (hbefore : ∀ q ∈ queries.take k, node.Compiles q.statement) (hq : queries[k]? = some q)
    (hr : node.compile q.statement = .error r) :
    (queries.mapM fun q ↦ (node.compile q.statement).map (·, q.params)) = .error r := by
  induction queries generalizing k with
  | nil => cases hq
  | cons q' rest ih =>
    rw [List.mapM_cons]
    cases k with
    | zero =>
      cases hq
      rw [hr]
      rfl
    | succ k =>
      obtain ⟨p, hp⟩ := hbefore q' List.mem_cons_self
      rw [hp, ih (fun q'' hq'' ↦ hbefore q'' (List.mem_cons_of_mem _ hq'')) hq]
      rfl

/-- A request is refused for the first statement that does not compile. -/
theorem Collected.runText_refused (h : Collected node forgets known request ids)
    (hq : request.queries[ids.length]? = some q) {r : Refusal}
    (hr : node.compile q.statement = .error r) (data : δ) :
    node.runText request data = (r.response, data) := by
  cases request with
  | execute level query =>
    obtain rfl := List.mem_singleton.mp (List.mem_of_getElem? hq)
    rw [Node.runText, hr]
    rfl
  | batch store =>
    have hrefused := mapM_refused (fun q' hq' ↦ (h.usable q' hq').1) hq hr
    rw [PoolRequest.queries] at hrefused
    rw [Node.runText, hrefused]
    rfl

section
variable (hmono : ∀ t, Usable node forgets known t → Usable node forgets known' t)
include hmono

private theorem Collected.mono (h : Collected node forgets known request ids) :
    Collected node forgets known' request ids :=
  ⟨h.front, fun q hq ↦ hmono _ (h.usable q hq)⟩

private theorem Asks.mono {m : RequestMessage} (h : Asks node forgets known request m) :
    Asks node forgets known' request m := by
  cases h with
  | text => exact .text
  | ids h => exact .ids fun q hq ↦ hmono _ (h q hq)

private theorem Matches.mono {phase : ExecutionPhase} {pending : Option RequestMessage}
    {phase' : ServicePhase} (h : Matches node forgets known request phase pending phase') :
    Matches node forgets known' request phase pending phase' := by
  cases h with
  | plain => exact .plain
  | collecting h => exact .collecting (h.mono hmono)
  | missed h => exact .missed (h.mono hmono)
  | preparing h hq => exact .preparing (h.mono hmono) hq
  | prepared h hq husable => exact .prepared (h.mono hmono) hq (hmono _ husable)
  | refused => exact .refused
  | waiting h => exact .waiting (h.mono hmono)
  | answered => exact .answered
  | rejected h => exact .rejected h
  | ended => exact .ended
  | lost h =>
    refine .lost fun m hm ↦ ?_
    rcases h m hm with hasks | hprepare
    · exact .inl (hasks.mono hmono)
    · exact .inr hprepare

private theorem CallMatches.mono {c : Execution} {d : ServiceCall}
    (h : CallMatches node forgets known c d) : CallMatches node forgets known' c d := by
  cases h with
  | mk h => exact .mk (h.mono hmono)

end

/-- What is prepared is usable. -/
theorem usable_update {text : Statement} (hcompiles : node.Compiles text) :
    Usable node forgets (Function.update known (node.idOf text) (some text)) text :=
  ⟨hcompiles, fun _ ↦ Function.update_self ..⟩

/-- A node that remembers one text more has forgotten none. -/
theorem Usable.update {text : Statement} (hcompiles : node.Compiles text) {t : Statement}
    (h : Usable node forgets known t) :
    Usable node forgets (Function.update known (node.idOf text) (some text)) t := by
  by_cases hid : node.idOf t = node.idOf text
  · obtain ⟨p, hp⟩ := h.1
    obtain ⟨p', hp'⟩ := hcompiles
    rw [node.describe_id_inj t text p p' hp hp' hid]
    exact usable_update ⟨p', hp'⟩
  · refine ⟨h.1, fun hf ↦ ?_⟩
    rw [Function.update_of_ne hid]
    exact h.2 hf

private theorem remembers_update {text : Statement} (hcompiles : node.Compiles text)
    (h : node.Remembers known) :
    node.Remembers (Function.update known (node.idOf text) (some text)) := by
  intro id s hs
  rw [Function.update_apply] at hs
  split at hs
  · next hid =>
    cases hs
    exact ⟨hid.symm, hcompiles⟩
  · exact h id s hs

namespace Refines

variable {p : Executions δ} {s : Service δ} {i : Nat} {phase : ExecutionPhase}
  {pending : Option RequestMessage}

/-- A call at both levels. -/
theorem call (h : Refines node forgets p s) (hi : p.calls i = some ⟨request, phase, pending⟩) :
    ∃ phase', s.calls i = some ⟨request, phase'⟩ ∧
      Matches node forgets p.node.known request phase pending phase' := by
  have hcall := h.calls i
  rw [hi] at hcall
  cases hs : s.calls i with
  | none =>
    rw [hs] at hcall
    cases hcall
  | some d =>
    rw [hs] at hcall
    cases hcall with
    | some hm =>
      cases hm with
      | mk hm => exact ⟨_, rfl, hm⟩

/-- A call moves on at both levels. -/
theorem setCall (h : Refines node forgets p s) {phase' : ServicePhase}
    (hm : Matches node forgets p.node.known request phase pending phase') :
    Refines node forgets (p.setCall i ⟨request, phase, pending⟩)
      (s.setCall i ⟨request, phase'⟩) := by
  refine ⟨h.data, h.remembers, h.cache, fun j ↦ ?_⟩
  by_cases hj : j = i
  · subst hj
    simp only [Executions.setCall, Service.setCall, Function.update_self]
    exact .some (.mk hm)
  · simp only [Executions.setCall, Service.setCall, Function.update_of_ne hj]
    exact h.calls j

/-- A call moves on, and the service does not notice. -/
theorem stay (h : Refines node forgets p s) {phase' : ServicePhase}
    (hs : s.calls i = some ⟨request, phase'⟩)
    (hm : Matches node forgets p.node.known request phase pending phase') :
    Refines node forgets (p.setCall i ⟨request, phase, pending⟩) s := by
  have hset := h.setCall (i := i) hm
  rwa [Service.setCall, ← hs, Function.update_eq_self] at hset

/-- The node comes to know other texts. -/
theorem learn (h : Refines node forgets p s) {known : StatementId → Option Statement}
    (hremembers : node.Remembers known)
    (hmono : ∀ t, Usable node forgets p.node.known t → Usable node forgets known t) :
    Refines node forgets { p with node := { p.node with known := known } } s := by
  refine ⟨h.data, hremembers, fun t id ht ↦ ?_, fun j ↦ ?_⟩
  · obtain ⟨hid, husable⟩ := h.cache t id ht
    exact ⟨hid, hmono t husable⟩
  · exact optionRel_mono (fun _ _ hm ↦ hm.mono hmono) (h.calls j)

/-- The map holds one statement more. -/
theorem store (h : Refines node forgets p s) {t : Statement}
    (husable : Usable node forgets p.node.known t) :
    Refines node forgets
      { p with cache := Function.update p.cache t (some (node.idOf t)) } s := by
  refine ⟨h.data, h.remembers, fun t' id ht ↦ ?_, h.calls⟩
  simp only [Function.update_apply] at ht
  split at ht
  · next htext =>
    cases ht
    exact ⟨by rw [htext], htext ▸ husable⟩
  · exact h.cache t' id ht

/-- The data change at both levels. -/
theorem run (h : Refines node forgets p s) (data : δ) :
    Refines node forgets { p with node := { p.node with data := data } }
      { s with data := data } :=
  ⟨rfl, h.remembers, h.cache, h.calls⟩

/-- The node prepares a text. -/
theorem servePrepare (h : Refines node forgets p s) (text : Statement) :
    Refines node forgets { p with node := (node.servePrepare text p.node).2 } s := by
  unfold Node.servePrepare
  cases hcompile : node.compile text with
  | error r => exact h
  | ok c => exact h.learn (remembers_update ⟨c, hcompile⟩ h.remembers) fun _ ht ↦
      ht.update ⟨c, hcompile⟩

end Refines

/-- The next message is sent for a call that has had no effect. -/
theorem Matches.next {phase phase' : ExecutionPhase} {pending : Option RequestMessage}
    {service : ServicePhase} {message : RequestMessage}
    (h : Matches node forgets known request phase pending service)
    (hnext : phase.next? request = some (message, phase')) :
    service = .begun ∧ pending = none ∧
      Matches node forgets known request phase' (some message) .begun := by
  cases h with
  | plain =>
    cases hnext
    exact ⟨rfl, rfl, .waiting .text⟩
  | collecting h =>
    obtain ⟨m, hm, he⟩ := Option.map_eq_some_iff.mp hnext
    cases he
    exact ⟨rfl, rfl, .waiting (h.asks hm)⟩
  | missed h =>
    obtain ⟨q, hq, he⟩ := Option.map_eq_some_iff.mp hnext
    cases he
    exact ⟨rfl, rfl, .preparing h hq⟩
  | _ => cases hnext

/-- What the node does for a message that asks for the statements. -/
theorem Asks.serve {state : NodeState δ} {m : RequestMessage}
    (h : Asks node forgets state.known request m) (hremembers : node.Remembers state.known) :
    node.serve state m = node.serve state request.message ∨
      ∃ id, forgets = true ∧ node.serve state m = ((node.unprepared id).response, state) := by
  cases h with
  | text => exact .inl rfl
  | ids h =>
    rcases Node.serve_messageByIdOf hremembers fun q hq ↦ (h q hq).1 with hsame |
        ⟨q, hq, hunknown, hrefused⟩
    · exact .inl hsame
    · refine .inr ⟨_, ?_, hrefused⟩
      by_contra hforgets
      have hknown := (h q hq).2 (Bool.eq_false_iff.mpr hforgets)
      rw [hunknown] at hknown
      cases hknown

namespace Refines

variable {p p' : Executions δ} {s : Service δ} {i : Nat} {phase : ExecutionPhase}
  {pending : Option RequestMessage} {message : RequestMessage}

private theorem execute (h : Refines node forgets p s) {after : ServicePhase}
    (hstep : s.step node memory (.execute i) = some
      ({ s with data := (node.runText request s.data).2 }.setCall i ⟨request, after⟩))
    (hm : Matches node forgets p.node.known request phase none after) :
    ∃ s', Reaches (Service.step node memory) (fun _ ↦ Service.Shows forgets) s s' ∧
      Refines node forgets ({ p with node := (node.serve p.node request.message).2 }.setCall i
        ⟨request, phase, none⟩) s' := by
  refine ⟨_, .single (fun hreject ↦ by cases hreject) hstep, ?_⟩
  rw [Node.serve_message, ← h.data]
  exact (h.run _).setCall hm

/-- The node serves the message of a call. -/
theorem serve (h : Refines node forgets p s)
    (hi : p.calls i = some ⟨request, phase, some message⟩) :
    ∃ s', Reaches (Service.step node memory) (fun _ ↦ Service.Shows forgets) s s' ∧
      Refines node forgets ({ p with node := (node.serve p.node message).2 }.setCall i
        ⟨request, phase.respond (node.serve p.node message).1, none⟩) s' := by
  obtain ⟨service, hs, hm⟩ := h.call hi
  cases hm with
  | @preparing ids q hcollected hq =>
    have hprepare := h.servePrepare q.statement
    cases hcompile : node.compile q.statement with
    | error r =>
      have hserve : node.serve p.node (.prepare q.statement) = (r.response, p.node) := by
        simp only [Node.serve, Node.servePrepare, hcompile]
      have hstep : s.step node memory (.execute i) =
          some (s.setCall i ⟨request, .done r.response⟩) := by
        simp only [Service.step, hs, Option.bind_eq_bind, Option.bind_some,
          hcollected.runText_refused hq hcompile]
        rfl
      rw [hserve]
      exact ⟨_, .single (fun hreject ↦ by cases hreject) hstep, h.setCall .refused⟩
    | ok c =>
      have hserve : node.serve p.node (.prepare q.statement) =
          (.result (.prepared (node.describe q.statement)),
            (node.servePrepare q.statement p.node).2) := by
        simp only [Node.serve, Node.servePrepare, hcompile]
      rw [hserve]
      refine ⟨s, .init, hprepare.stay hs ?_⟩
      simp only [Node.servePrepare, hcompile]
      exact .prepared (hcollected.mono fun _ ht ↦ ht.update ⟨c, hcompile⟩) hq
        (usable_update ⟨c, hcompile⟩)
  | waiting hasks =>
    rcases hasks.serve h.remembers with hsame | ⟨id, hforgets, hrefused⟩
    · have hresponse : (node.serve p.node request.message).1 =
          (node.runText request s.data).1 := by
        rw [Node.serve_message, h.data]
      rw [hsame, hresponse]
      exact h.execute (by simp only [Service.step, hs]; rfl) .answered
    · rw [hrefused]
      exact ⟨s, .init, h.stay hs (.rejected hforgets)⟩
  | lost hpending =>
    rcases hpending message rfl with hasks | ⟨text, rfl⟩
    · rcases hasks.serve h.remembers with hsame | ⟨id, hforgets, hrefused⟩
      · rw [hsame]
        exact h.execute (by simp only [Service.step, hs]; rfl) .ended
      · rw [hrefused]
        exact ⟨s, .init, h.stay hs (.lost fun _ hm ↦ by cases hm)⟩
    · exact ⟨s, .init, (h.servePrepare text).stay hs (.lost fun _ hm ↦ by cases hm)⟩

/-- `Prepare` returns the id of the statement, which is then in the map. -/
theorem put (h : Refines node forgets p s) {response : V4.Response} {id : StatementId}
    (hi : p.calls i = some ⟨request, .prepared ids response, pending⟩)
    (hq : request.queries[ids.length]? = some q)
    (hid : prepare (answerOf memory response) = .ok id) :
    Refines node forgets
      ({ p with cache := Function.update p.cache q.statement (some id) }.setCall i
        ⟨request, .collecting (ids ++ [id]), pending⟩) s := by
  obtain ⟨service, hs, hm⟩ := h.call hi
  cases hm with
  | @prepared ids q' hcollected hq' husable =>
    rw [hq] at hq'
    cases hq'
    obtain ⟨c, hc⟩ := husable.1
    rw [prepare_answerOf memory (node.describe_fits _ c hc)] at hid
    cases hid
    exact (h.store husable).stay hs (.collecting (hcollected.concat hq husable))
  | @refused ids r =>
    obtain ⟨e, he, -⟩ := prepare_refusal memory r
    rw [he] at hid
    cases hid

/-- `Prepare` throws: the node has refused the statement, and so the request. -/
theorem prepareFails (h : Refines node forgets p s) {response : V4.Response} {e : CallError}
    (hi : p.calls i = some ⟨request, .prepared ids response, pending⟩)
    (he : prepare (answerOf memory response) = .error e) :
    ∃ s', Reaches (Service.step node memory) (fun _ ↦ Service.Shows forgets) s s' ∧
      Refines node forgets (p.setCall i ⟨request, .ended (.result (.error e)), pending⟩) s' := by
  obtain ⟨service, hs, hm⟩ := h.call hi
  cases hm with
  | prepared hcollected hq husable =>
    obtain ⟨c, hc⟩ := husable.1
    rw [prepare_answerOf memory (node.describe_fits _ c hc)] at he
    cases he
  | @refused ids r =>
    obtain ⟨e', he', hexecute⟩ := prepare_refusal memory r
    rw [he'] at he
    cases he
    have hstep : s.step node memory (.finish i) =
        some (s.setCall i ⟨request, .ended (.result (.error e))⟩) := by
      rw [← hexecute]
      simp only [Service.step, hs]
      rfl
    exact ⟨_, .single (fun hreject ↦ by cases hreject) hstep, h.setCall .ended⟩

/-- A call fails its `Pop`. -/
theorem timeout (h : Refines node forgets p s) (hi : p.calls i = some ⟨request, phase, pending⟩)
    (hawaiting : phase.isAwaiting = true) :
    ∃ s', Reaches (Service.step node memory) (fun _ ↦ Service.Shows forgets) s s' ∧
      Refines node forgets (p.setCall i ⟨request, .ended .timedOut, pending⟩) s' := by
  obtain ⟨service, hs, hm⟩ := h.call hi
  have hlost (hbegun : service = .begun)
      (hpending : ∀ m ∈ pending, Asks node forgets p.node.known request m ∨ ∃ t, m = .prepare t) :
      ∃ s', Reaches (Service.step node memory) (fun _ ↦ Service.Shows forgets) s s' ∧
        Refines node forgets (p.setCall i ⟨request, .ended .timedOut, pending⟩) s' := by
    subst hbegun
    have hstep : s.step node memory (.timeout i) = some (s.setCall i ⟨request, .lost⟩) := by
      simp only [Service.step, hs]
      rfl
    exact ⟨_, .single (fun hreject ↦ by cases hreject) hstep, h.setCall (.lost hpending)⟩
  have hover {r : V4.Response} (hdone : service = .done r) (hpending : pending = none) :
      ∃ s', Reaches (Service.step node memory) (fun _ ↦ Service.Shows forgets) s s' ∧
        Refines node forgets (p.setCall i ⟨request, .ended .timedOut, pending⟩) s' := by
    subst hdone hpending
    have hstep : s.step node memory (.timeout i) =
        some (s.setCall i ⟨request, .ended .timedOut⟩) := by
      simp only [Service.step, hs]
      rfl
    exact ⟨_, .single (fun hreject ↦ by cases hreject) hstep, h.setCall .ended⟩
  cases hm with
  | preparing hcollected hq => exact hlost rfl fun m hm ↦ .inr ⟨_, (Option.mem_some.mp hm).symm⟩
  | prepared hcollected hq husable => exact hlost rfl fun _ hm ↦ by cases hm
  | refused => exact hover rfl rfl
  | waiting hasks =>
    refine hlost rfl fun m hm ↦ .inl ?_
    cases hm
    exact hasks
  | answered => exact hover rfl rfl
  | rejected hforgets => exact hlost rfl fun _ hm ↦ by cases hm
  | _ => cases hawaiting

/-- A call returns or throws what its response says. -/
theorem finish (h : Refines node forgets p s) {response : V4.Response}
    (hi : p.calls i = some ⟨request, .answered response, pending⟩) :
    ∃ s', Reaches (Service.step node memory) (fun _ ↦ Service.Shows forgets) s s' ∧
      Refines node forgets (p.setCall i ⟨request, .ended (.of memory response), pending⟩) s' := by
  obtain ⟨service, hs, hm⟩ := h.call hi
  cases hm with
  | answered =>
    have hstep : s.step node memory (.finish i) =
        some (s.setCall i ⟨request, .ended (.of memory response)⟩) := by
      simp only [Service.step, hs]
      rfl
    exact ⟨_, .single (fun hreject ↦ by cases hreject) hstep, h.setCall .ended⟩
  | @rejected id hforgets =>
    have hstep : s.step node memory (.reject i id) =
        some (s.setCall i ⟨request, .ended (.of memory (node.unprepared id).response)⟩) := by
      rw [Outcome.of, executeResult_unprepared]
      simp only [Service.step, hs]
      rfl
    exact ⟨_, .single (fun _ ↦ hforgets) hstep, h.setCall .ended⟩

/-- Every step of the calls is a run of the service. -/
theorem step (h : Refines node forgets p s) {e : ExecutionEvent}
    (hforget : e.isForget = true → forgets = true)
    (ht : Executions.Transition node memory p e p') :
    ∃ s', Reaches (Service.step node memory) (fun _ ↦ Service.Shows forgets) s s' ∧
      Refines node forgets p' s' := by
  cases ht with
  | @begin i request commandControl hi =>
    have hs : s.calls i = none := by
      have hcall := h.calls i
      rw [hi] at hcall
      cases hsi : s.calls i with
      | none => rfl
      | some d =>
        rw [hsi] at hcall
        cases hcall
    have hstep : s.step node memory (.begin i request) =
        some (s.setCall i ⟨request, .begun⟩) := by
      simp only [Service.step, hs]
    refine ⟨_, .single (fun hreject ↦ by cases hreject) hstep, h.setCall ?_⟩
    split
    · exact .collecting collected_nil
    · exact .plain
  | @hit i request pending ids q id hi hq hcached =>
    obtain ⟨service, hs, hm⟩ := h.call hi
    obtain ⟨rfl, husable⟩ := h.cache _ _ hcached
    cases hm with
    | collecting hcollected =>
      exact ⟨s, .init, h.stay hs (.collecting (hcollected.concat hq husable))⟩
  | @miss i request pending ids q hi hq =>
    obtain ⟨service, hs, hm⟩ := h.call hi
    cases hm with
    | collecting hcollected => exact ⟨s, .init, h.stay hs (.missed hcollected)⟩
  | put hi hq hid => exact ⟨s, .init, h.put hi hq hid⟩
  | prepareFails hi he => exact h.prepareFails hi he
  | @send i request phase phase' pending message hi hnext =>
    obtain ⟨service, hs, hm⟩ := h.call hi
    obtain ⟨rfl, -, hm'⟩ := hm.next hnext
    exact ⟨s, .init, h.stay hs hm'⟩
  | @exhausted i request phase phase' pending message hi hnext =>
    obtain ⟨service, hs, hm⟩ := h.call hi
    obtain ⟨rfl, rfl, -⟩ := hm.next hnext
    have hstep : s.step node memory (.exhausted i) =
        some (s.setCall i ⟨request, .ended .exhausted⟩) := by
      simp only [Service.step, hs]
      rfl
    exact ⟨_, .single (fun hreject ↦ by cases hreject) hstep, h.setCall .ended⟩
  | serve hi => exact h.serve hi
  | timeout hi hawaiting => exact h.timeout hi hawaiting
  | finish hi => exact h.finish hi
  | evict =>
    refine ⟨s, .init, h.data, h.remembers, fun t id ht ↦ ?_, h.calls⟩
    simp only at ht
    split at ht
    · cases ht
    · exact h.cache t id ht
  | forget =>
    have hforgets := hforget rfl
    refine ⟨s, .init, h.learn (fun id t ht ↦ ?_) fun t ht ↦ ⟨ht.1, fun hfalse ↦ ?_⟩⟩
    · split at ht
      · cases ht
      · exact h.remembers id t ht
    · rw [hforgets] at hfalse
      cases hfalse
  | prepareElsewhere => exact ⟨s, .init, h.servePrepare _⟩

end Refines
namespace Executions

variable {p : Executions δ} {data : δ} {cacheEnabled : Bool}

end Executions
namespace ExecutionStreams

variable {p : ExecutionStreams δ} {data : δ} {cacheEnabled : Bool}

end ExecutionStreams
end CassandraDriver.Detail
