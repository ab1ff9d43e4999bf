import CassandraDriver.Detail.Execution
import CassandraDriver.Lib.Simulation

/-!
# What the calls of a pool amount to

Library `Detail`. A service that knows no ids: every call takes effect by its texts, at once,
at some moment between its beginning and its end, or, if it has timed out, later or never. The
pool refines it, whatever it may prepare, and whatever the map drops; only ids that the node
forgets show.
-/

namespace CassandraDriver.Detail
open CassandraDriver.Lib CassandraDriver.Protocol

/-- Where a call stands: it has had no effect, it has had its effect, it has timed out without
one, or it is over. -/
inductive ServicePhase
  | begun
  | done (response : V4.Response)
  | lost
  | ended (outcome : Outcome)

/-- A call. -/
structure ServiceCall where
  request : PoolRequest
  phase : ServicePhase

/-- The data of the node and the calls. -/
structure Service (δ : Type) where
  data : δ
  calls : Nat → Option ServiceCall

/-- What can happen next. -/
inductive ServiceEvent
  | begin (call : Nat) (request : PoolRequest)
  /-- The call takes effect. -/
  | execute (call : Nat)
  | finish (call : Nat)
  | timeout (call : Nat)
  /-- The call fails with Unprepared and has no effect. -/
  | reject (call : Nat) (id : StatementId)
  | exhausted (call : Nat)

/-- The outcome of a call, once its user has it. -/
def ServicePhase.outcome? : ServicePhase → Option Outcome
  | lost => some .timedOut
  | ended outcome => some outcome
  | _ => none

/-- A call is rejected for an id. -/
def ServiceEvent.isReject : ServiceEvent → Bool
  | reject .. => true
  | _ => false

namespace Service

variable {δ π : Type} {node : Node δ π} {memory : List UInt8 → Nat → UInt8}

/-- Nothing has been asked for. -/
def init (data : δ) : Service δ := ⟨data, fun _ ↦ none⟩

/-- A call moves on. -/
def setCall (s : Service δ) (i : Nat) (c : ServiceCall) : Service δ :=
  { s with calls := Function.update s.calls i (some c) }

variable (node memory) in
/-- One step. -/
def step (s : Service δ) : ServiceEvent → Option (Service δ)
  | .begin i request =>
    match s.calls i with
    | some _ => none
    | none => some (s.setCall i ⟨request, .begun⟩)
  | .execute i => do
    let c ← s.calls i
    let (response, data) := node.runText c.request s.data
    match c.phase with
    | .begun => return { s with data := data }.setCall i { c with phase := .done response }
    | .lost =>
      return { s with data := data }.setCall i { c with phase := .ended .timedOut }
    | _ => none
  | .finish i => do
    let c ← s.calls i
    match c.phase with
    | .done response =>
      return s.setCall i { c with phase := .ended (.of memory response) }
    | _ => none
  | .timeout i => do
    let c ← s.calls i
    match c.phase with
    | .begun => return s.setCall i { c with phase := .lost }
    | .done _ => return s.setCall i { c with phase := .ended .timedOut }
    | _ => none
  | .reject i id => do
    let c ← s.calls i
    match c.phase with
    | .begun => return s.setCall i { c with phase := .ended (.rejected node id) }
    | _ => none
  | .exhausted i => do
    let c ← s.calls i
    match c.phase with
    | .begun => return s.setCall i { c with phase := .ended .exhausted }
    | _ => none

variable (node memory) in
/-- The steps, one constructor for each kind. -/
inductive Transition (s : Service δ) : ServiceEvent → Service δ → Prop
  | begin {i request} (hi : s.calls i = none) :
      Transition s (.begin i request) (s.setCall i ⟨request, .begun⟩)
  | execute {i request} (hi : s.calls i = some ⟨request, .begun⟩) : Transition s (.execute i)
      ({ s with data := (node.runText request s.data).2 }.setCall i
        ⟨request, .done (node.runText request s.data).1⟩)
  | executeLate {i request} (hi : s.calls i = some ⟨request, .lost⟩) : Transition s (.execute i)
      ({ s with data := (node.runText request s.data).2 }.setCall i ⟨request, .ended .timedOut⟩)
  | finish {i request response} (hi : s.calls i = some ⟨request, .done response⟩) :
      Transition s (.finish i) (s.setCall i ⟨request, .ended (.of memory response)⟩)
  | timeout {i request} (hi : s.calls i = some ⟨request, .begun⟩) :
      Transition s (.timeout i) (s.setCall i ⟨request, .lost⟩)
  | timeoutLate {i request response} (hi : s.calls i = some ⟨request, .done response⟩) :
      Transition s (.timeout i) (s.setCall i ⟨request, .ended .timedOut⟩)
  | reject {i request id} (hi : s.calls i = some ⟨request, .begun⟩) :
      Transition s (.reject i id) (s.setCall i ⟨request, .ended (.rejected node id)⟩)
  | exhausted {i request} (hi : s.calls i = some ⟨request, .begun⟩) :
      Transition s (.exhausted i) (s.setCall i ⟨request, .ended .exhausted⟩)

/-- Every step is one of them. -/
theorem transition_of_step {s s' : Service δ} {e : ServiceEvent}
    (h : s.step node memory e = some s') : Transition node memory s e s' := by
  cases e with
  | begin i request =>
    simp only [step] at h
    split at h
    · cases h
    · next hi =>
      cases h
      exact .begin hi
  | execute i =>
    obtain ⟨⟨request, phase⟩, hi, h⟩ := Option.bind_eq_some_iff.mp h
    cases phase with
    | begun =>
      cases h
      exact .execute hi
    | lost =>
      cases h
      exact .executeLate hi
    | _ => cases h
  | finish i =>
    obtain ⟨⟨request, phase⟩, hi, h⟩ := Option.bind_eq_some_iff.mp h
    cases phase with
    | done response =>
      cases h
      exact .finish hi
    | _ => cases h
  | timeout i =>
    obtain ⟨⟨request, phase⟩, hi, h⟩ := Option.bind_eq_some_iff.mp h
    cases phase with
    | begun =>
      cases h
      exact .timeout hi
    | done response =>
      cases h
      exact .timeoutLate hi
    | _ => cases h
  | reject i id =>
    obtain ⟨⟨request, phase⟩, hi, h⟩ := Option.bind_eq_some_iff.mp h
    cases phase with
    | begun =>
      cases h
      exact .reject hi
    | _ => cases h
  | exhausted i =>
    obtain ⟨⟨request, phase⟩, hi, h⟩ := Option.bind_eq_some_iff.mp h
    cases phase with
    | begun =>
      cases h
      exact .exhausted hi
    | _ => cases h

/-- The outcome of a call that is over for its user. -/
def outcome? (s : Service δ) (i : Nat) : Option Outcome :=
  (s.calls i).bind fun c ↦ c.phase.outcome?

/-- What a call was asked for. -/
def request? (s : Service δ) (i : Nat) : Option PoolRequest :=
  (s.calls i).map ServiceCall.request

section
variable (node memory) (forgets : Bool) (before : δ) (order : List (Nat × PoolRequest))

/-- The response to the call in its place of the order. -/
def Gets (i : Nat) (r : V4.Response) : Prop :=
  ∃ k : Nat, (order.map Prod.fst)[k]? = some i ∧
    (node.runTexts (order.map Prod.snd) before).1[k]? = some r

/-- How a call may end: without having had an effect, if its connection was exhausted or the
node had forgotten an id; with a timeout; or with the response to its texts in its place. -/
inductive Ends (i : Nat) : Outcome → Prop
  | exhausted (h : i ∉ order.map Prod.fst) : Ends i .exhausted
  | rejected {id} (h : i ∉ order.map Prod.fst) (hforgets : forgets = true) :
      Ends i (.rejected node id)
  | timedOut : Ends i .timedOut
  | of {r} (h : Gets node before order i r) : Ends i (.of memory r)

/-- The place of a call in the order. -/
inductive Placed (i : Nat) : ServicePhase → Prop
  | begun (h : i ∉ order.map Prod.fst) : Placed i .begun
  | lost (h : i ∉ order.map Prod.fst) : Placed i .lost
  | done {r} (h : Gets node before order i r) : Placed i (.done r)
  | ended {o} (h : Ends node memory forgets before order i o) : Placed i (.ended o)

/-- The calls that have taken effect have done so one after the other, in this order. -/
structure Ordered (s : Service δ) : Prop where
  nodup : (order.map Prod.fst).Nodup
  data : (node.runTexts (order.map Prod.snd) before).2 = s.data
  requests : ∀ e ∈ order, s.request? e.1 = some e.2
  calls : ∀ i c, s.calls i = some c → Placed node memory forgets before order i c.phase

end

/-- Only a node that forgets makes a call fail with Unprepared. -/
def Shows (forgets : Bool) (e : ServiceEvent) : Prop := e.isReject = true → forgets = true

variable {forgets : Bool} {before : δ} {order : List (Nat × PoolRequest)} {i j : Nat}
  {request : PoolRequest} {s s' : Service δ}

private theorem getElem?_concat {α : Type} {l : List α} {k : Nat} {x : α} (h : l[k]? = some x)
    (y : α) : (l ++ [y])[k]? = some x := by
  rw [List.getElem?_append_left (List.getElem?_eq_some_iff.mp h).1, h]

private theorem Gets.concat {r : V4.Response} (h : Gets node before order i r)
    (e : Nat × PoolRequest) : Gets node before (order ++ [e]) i r := by
  obtain ⟨k, hk, hr⟩ := h
  refine ⟨k, ?_, ?_⟩
  · rw [List.map_append]
    exact getElem?_concat hk _
  · rw [List.map_append, List.map_singleton, Node.runTexts_concat]
    exact getElem?_concat hr _

/-- The last of the order gets its response from the data that the others have left. -/
theorem gets_last (order : List (Nat × PoolRequest)) (before : δ) (i : Nat)
    (request : PoolRequest) : Gets node before (order ++ [(i, request)]) i
      (node.runText request (node.runTexts (order.map Prod.snd) before).2).1 := by
  refine ⟨order.length, ?_, ?_⟩
  · rw [List.map_append, List.map_singleton, List.getElem?_append_right (by simp)]
    simp
  · rw [List.map_append, List.map_singleton, Node.runTexts_concat,
      List.getElem?_append_right (by rw [Node.length_runTexts, List.length_map]),
      Node.length_runTexts, List.length_map, Nat.sub_self]
    rfl

private theorem notMem_concat (h : i ∉ order.map Prod.fst) (hne : i ≠ j) :
    i ∉ (order ++ [(j, request)]).map Prod.fst := by
  rw [List.map_append, List.mem_append, not_or]
  exact ⟨h, fun hmem ↦ hne (List.mem_singleton.mp hmem)⟩

private theorem Ends.concat {o : Outcome} (h : Ends node memory forgets before order i o)
    (hne : i ≠ j) : Ends node memory forgets before (order ++ [(j, request)]) i o := by
  cases h with
  | exhausted h => exact .exhausted (notMem_concat h hne)
  | rejected h hforgets => exact .rejected (notMem_concat h hne) hforgets
  | timedOut => exact .timedOut
  | of h => exact .of (h.concat _)

/-- A call stays in its place while another takes effect. -/
theorem Placed.concat {phase : ServicePhase} (h : Placed node memory forgets before order i phase)
    (hne : i ≠ j) : Placed node memory forgets before (order ++ [(j, request)]) i phase := by
  cases h with
  | begun h => exact .begun (notMem_concat h hne)
  | lost h => exact .lost (notMem_concat h hne)
  | done h => exact .done (h.concat _)
  | ended h => exact .ended (h.concat hne)

namespace Ordered

/-- Every call has its place in the order. -/
theorem placed (h : Ordered node memory forgets before order s) {phase : ServicePhase}
    (hi : s.calls i = some ⟨request, phase⟩) : Placed node memory forgets before order i phase :=
  h.calls i _ hi

/-- A call moves on without an effect. -/
theorem setCall (h : Ordered node memory forgets before order s) {phase phase' : ServicePhase}
    (hi : s.calls i = some ⟨request, phase⟩)
    (hplaced : Placed node memory forgets before order i phase') :
    Ordered node memory forgets before order (s.setCall i ⟨request, phase'⟩) := by
  refine ⟨h.nodup, h.data, fun e he ↦ ?_, fun j c hj ↦ ?_⟩
  · have hrequest := h.requests e he
    simp only [request?, Service.setCall, Function.update_apply] at hrequest ⊢
    split
    · next hei =>
      rw [hei, hi] at hrequest
      exact hrequest
    · exact hrequest
  · simp only [Service.setCall, Function.update_apply] at hj
    split at hj
    · next hji =>
      cases hj
      exact hji ▸ hplaced
    · exact h.calls j c hj

/-- A call takes effect behind the others. -/
theorem execute (h : Ordered node memory forgets before order s) {phase' : ServicePhase}
    (hnew : i ∉ order.map Prod.fst)
    (hplaced : Placed node memory forgets before (order ++ [(i, request)]) i phase') :
    Ordered node memory forgets before (order ++ [(i, request)])
      ({ s with data := (node.runText request s.data).2 }.setCall i ⟨request, phase'⟩) := by
  refine ⟨?_, ?_, fun e he ↦ ?_, fun j c hj ↦ ?_⟩
  · rw [List.map_append]
    refine List.nodup_append.mpr ⟨h.nodup, List.nodup_singleton _, fun a ha b hb hab ↦ hnew ?_⟩
    have hai : a = i := hab.trans (List.mem_singleton.mp hb)
    exact hai ▸ ha
  · rw [List.map_append, List.map_singleton, Node.runTexts_concat, h.data]
    rfl
  · simp only [request?, Service.setCall, Function.update_apply]
    rcases List.mem_append.mp he with he | he
    · have hne : e.1 ≠ i := fun hei ↦ hnew (hei ▸ List.mem_map_of_mem he)
      rw [if_neg hne]
      exact h.requests e he
    · obtain rfl := List.mem_singleton.mp he
      rw [if_pos rfl]
      rfl
  · simp only [Service.setCall, Function.update_apply] at hj
    split at hj
    · next hji =>
      cases hj
      exact hji ▸ hplaced
    · next hji => exact (h.calls j c hj).concat hji

/-- Every step keeps an order. -/
theorem step (h : Ordered node memory forgets before order s) {e : ServiceEvent}
    (hshows : Shows forgets e) (ht : Transition node memory s e s') :
    ∃ order', Ordered node memory forgets before order' s' := by
  cases ht with
  | @begin i request hi =>
    have hnew : i ∉ order.map Prod.fst := by
      intro hmem
      obtain ⟨e, he, rfl⟩ := List.mem_map.mp hmem
      have hrequest := h.requests e he
      rw [request?, hi] at hrequest
      cases hrequest
    refine ⟨order, h.nodup, h.data, fun e he ↦ ?_, fun j c hj ↦ ?_⟩
    · have hne : e.1 ≠ i := fun hei ↦ hnew (hei ▸ List.mem_map_of_mem he)
      simp only [request?, Service.setCall, Function.update_of_ne hne]
      exact h.requests e he
    · simp only [Service.setCall, Function.update_apply] at hj
      split at hj
      · next hji =>
        cases hj
        exact .begun (hji ▸ hnew)
      · exact h.calls j c hj
  | @execute i request hi =>
    cases h.placed hi with
    | begun hnew =>
      have hlast : Gets node before (order ++ [(i, request)]) i _ :=
        gets_last order before i request
      exact ⟨_, h.execute hnew (.done (h.data ▸ hlast))⟩
  | executeLate hi =>
    cases h.placed hi with
    | lost hnew => exact ⟨_, h.execute hnew (.ended .timedOut)⟩
  | finish hi =>
    cases h.placed hi with
    | done hgets => exact ⟨order, h.setCall hi (.ended (.of hgets))⟩
  | timeout hi =>
    cases h.placed hi with
    | begun hnew => exact ⟨order, h.setCall hi (.lost hnew)⟩
  | timeoutLate hi => exact ⟨order, h.setCall hi (.ended .timedOut)⟩
  | reject hi =>
    cases h.placed hi with
    | begun hnew => exact ⟨order, h.setCall hi (.ended (.rejected hnew (hshows rfl)))⟩
  | exhausted hi =>
    cases h.placed hi with
    | begun hnew => exact ⟨order, h.setCall hi (.ended (.exhausted hnew))⟩

end Ordered

end Service
end CassandraDriver.Detail
