import CassandraDriver.Lib.Simulation
import CassandraDriver.Detail.ExecutionStreams

/-!
# Fresh stream ids match the answers

Library `Detail`. If no call is given a stream id under which a message is out or an answer
queued, the messages on the way do not get in each other's way: what a call pops is the answer
to its own message, and a run of `ExecutionStreams` is one of `Executions`.
-/

namespace CassandraDriver.Detail
open CassandraDriver.Lib CassandraDriver.Protocol

namespace StreamPhase

/-- Where the call stands when its answer is matched to it: whether it is there. -/
def matched (answers : Slot → List V4.Response) : StreamPhase → ExecutionPhase
  | plain => .plain
  | collecting ids => .collecting ids
  | missed ids => .missed ids
  | preparing ids slot => (answers slot).head?.elim (.preparing ids) (.prepared ids)
  | waiting slot => (answers slot).head?.elim .waiting .answered
  | ended outcome => .ended outcome

variable {answers answers' : Slot → List V4.Response}

private theorem matched_congr {phase : StreamPhase}
    (h : ∀ slot, phase.slot? = some slot → answers' slot = answers slot) :
    phase.matched answers' = phase.matched answers := by
  cases phase with
  | preparing ids slot => simp only [matched, h slot rfl]
  | waiting slot => simp only [matched, h slot rfl]
  | _ => rfl

private theorem matched_respond {phase : StreamPhase} {slot : Slot} (response : V4.Response)
    (h : phase.slot? = some slot ∨ phase.outcome?.isSome = true) (hslot : answers slot = []) :
    phase.matched (Function.update answers slot (answers slot ++ [response])) =
      (phase.matched answers).respond response := by
  cases phase with
  | preparing ids s =>
    obtain rfl : s = slot := by simpa [slot?, outcome?] using h
    simp [matched, hslot, ExecutionPhase.respond]
  | waiting s =>
    obtain rfl : s = slot := by simpa [slot?, outcome?] using h
    simp [matched, hslot, ExecutionPhase.respond]
  | ended outcome => rfl
  | _ => simp [slot?, outcome?] at h

variable (answers) in
private theorem matched_next? {phase : StreamPhase} {request : PoolRequest}
    {message : RequestMessage} {wait : Slot → StreamPhase}
    (h : phase.next? request = some (message, wait)) :
    ∃ phase', (phase.matched answers).next? request = some (message, phase') ∧
      ∀ slot, answers slot = [] → (wait slot).matched answers = phase' := by
  cases phase with
  | plain =>
    cases h
    exact ⟨.waiting, rfl, fun slot hslot ↦ by simp [matched, hslot]⟩
  | collecting ids =>
    obtain ⟨m, hm, heq⟩ := Option.map_eq_some_iff.mp h
    cases heq
    exact ⟨.waiting, by simp [matched, ExecutionPhase.next?, hm],
      fun slot hslot ↦ by simp [matched, hslot]⟩
  | missed ids =>
    obtain ⟨q, hq, heq⟩ := Option.map_eq_some_iff.mp h
    cases heq
    exact ⟨.preparing ids, by simp [matched, ExecutionPhase.next?, hq],
      fun slot hslot ↦ by simp [matched, hslot]⟩
  | _ => cases h

private theorem matched_isAwaiting {phase : StreamPhase} {slot : Slot}
    (h : phase.slot? = some slot) :
    (phase.matched answers).isAwaiting = true := by
  cases phase with
  | preparing ids s => cases h : (answers s).head? <;> simp [matched, h, ExecutionPhase.isAwaiting]
  | waiting s => cases h : (answers s).head? <;> simp [matched, h, ExecutionPhase.isAwaiting]
  | _ => cases h

end StreamPhase
namespace ExecutionStreams

variable {δ π : Type} {node : Node δ π} {memory : List UInt8 → Nat → UInt8}

/-- The node answers this message and no other under its stream id, and the call that sent it
waits there or is over. -/
structure Owes (p : ExecutionStreams δ) (m : SentMessage) : Prop where
  unanswered : p.answers m.slot = []
  owner : ∀ i, p.holder m.slot = some i → i = m.call
  caller : ∃ c, p.calls m.call = some c ∧
    (c.phase.slot? = some m.slot ∨ c.phase.outcome?.isSome = true)

private theorem Owes.congr {p d : ExecutionStreams δ} {m : SentMessage} (h : p.Owes m)
    (hcalls : d.calls = p.calls) (hholder : d.holder = p.holder)
    (hanswers : d.answers = p.answers) : d.Owes m := by
  refine ⟨?_, ?_, ?_⟩
  · rw [hanswers]
    exact h.unanswered
  · rw [hholder]
    exact h.owner
  · rw [hcalls]
    exact h.caller

/-- A waiting call holds its stream id, and messages on the way do not get in each other's way. -/
structure Quiet (p : ExecutionStreams δ) : Prop where
  held : ∀ i c slot, p.calls i = some c → c.phase.slot? = some slot → p.holder slot = some i
  calls : (p.sent.map SentMessage.call).Nodup
  slots : (p.sent.map SentMessage.slot).Nodup
  owes : ∀ m ∈ p.sent, p.Owes m

namespace Quiet

variable {p d : ExecutionStreams δ} {i : Nat} {request : PoolRequest} {phase : StreamPhase}

private theorem congr (h : p.Quiet) (hcalls : d.calls = p.calls) (hholder : d.holder = p.holder)
    (hsent : d.sent = p.sent) (hanswers : d.answers = p.answers) : d.Quiet := by
  refine ⟨?_, hsent ▸ h.calls, hsent ▸ h.slots, fun m hm ↦ ?_⟩
  · rw [hcalls, hholder]
    exact h.held
  · rw [hsent] at hm
    exact (h.owes m hm).congr hcalls hholder hanswers

private theorem move (h : p.Quiet)
    (hcalls : d.calls = Function.update p.calls i (some ⟨request, phase⟩))
    (hslot : phase.slot? = none)
    (hheld : ∀ slot j, j ≠ i → p.holder slot = some j → d.holder slot = some j)
    (howner : ∀ slot j, d.holder slot = some j → p.holder slot = some j)
    (hsent : d.sent = p.sent) (hanswers : ∀ m ∈ p.sent, d.answers m.slot = p.answers m.slot)
    (hover : ∀ m ∈ p.sent, m.call = i → phase.outcome?.isSome = true) : d.Quiet where
  held j c slot hj hc := by
    rw [hcalls] at hj
    by_cases hji : j = i
    · subst hji
      rw [Function.update_self] at hj
      cases hj
      rw [hslot] at hc
      cases hc
    · rw [Function.update_of_ne hji] at hj
      exact hheld slot j hji (h.held j c slot hj hc)
  calls := hsent ▸ h.calls
  slots := hsent ▸ h.slots
  owes m hm := by
    rw [hsent] at hm
    have howes := h.owes m hm
    refine ⟨(hanswers m hm).trans howes.unanswered,
      fun j hj ↦ howes.owner j (howner _ _ hj), ?_⟩
    rw [hcalls]
    by_cases hmi : m.call = i
    · exact ⟨⟨request, phase⟩, by rw [hmi, Function.update_self], .inr (hover m hm hmi)⟩
    · rw [Function.update_of_ne hmi]
      exact howes.caller

private theorem stay (h : p.Quiet)
    (hcalls : d.calls = Function.update p.calls i (some ⟨request, phase⟩))
    (hslot : phase.slot? = none) (hholder : d.holder = p.holder) (hsent : d.sent = p.sent)
    (hanswers : d.answers = p.answers) (hnone : ∀ m ∈ p.sent, m.call ≠ i) : d.Quiet :=
  h.move hcalls hslot (fun _ _ _ hj ↦ hholder ▸ hj) (fun _ _ hj ↦ hholder ▸ hj) hsent
    (fun _ _ ↦ congrFun hanswers _) fun m hm hmi ↦ absurd hmi (hnone m hm)

private theorem call_ne_of_idle (h : p.Quiet) (hi : p.calls i = none) {m : SentMessage}
    (hm : m ∈ p.sent) : m.call ≠ i := by
  rintro rfl
  obtain ⟨c, hc, -⟩ := (h.owes m hm).caller
  rw [hi] at hc
  cases hc

private theorem call_ne (h : p.Quiet) (hi : p.calls i = some ⟨request, phase⟩)
    (hslot : phase.slot? = none) (houtcome : phase.outcome? = none) {m : SentMessage}
    (hm : m ∈ p.sent) : m.call ≠ i := by
  rintro rfl
  obtain ⟨c, hc, hphase⟩ := (h.owes m hm).caller
  rw [hi] at hc
  cases hc
  simp [hslot, houtcome] at hphase

private theorem ne_of_answered (h : p.Quiet) (hi : p.calls i = some ⟨request, phase⟩) {slot : Slot}
    {response : V4.Response} (hslot : phase.slot? = some slot) (houtcome : phase.outcome? = none)
    (hpop : (p.answers slot).head? = some response) {m : SentMessage} (hm : m ∈ p.sent) :
    m.call ≠ i ∧ m.slot ≠ slot := by
  have howes := h.owes m hm
  have hne : m.slot ≠ slot := by
    rintro rfl
    rw [howes.unanswered] at hpop
    cases hpop
  refine ⟨?_, hne⟩
  rintro rfl
  obtain ⟨c, hc, hphase⟩ := howes.caller
  rw [hi] at hc
  cases hc
  rcases hphase with hphase | hphase
  · exact hne (Option.some.inj (hphase.symm.trans hslot))
  · rw [houtcome] at hphase
    cases hphase

private theorem holder_of_release {slot : Slot} (s : Slot) (j : Nat)
    (hs : Function.update p.holder slot none s = some j) : p.holder s = some j := by
  by_cases hne : s = slot
  · rw [hne, Function.update_self] at hs
    cases hs
  · rwa [Function.update_of_ne hne] at hs

private theorem release_of_holder {slot : Slot} (hholds : p.holder slot = some i) (s : Slot)
    (j : Nat) (hj : j ≠ i) (hs : p.holder s = some j) :
    Function.update p.holder slot none s = some j := by
  have hne : s ≠ slot := by
    rintro rfl
    exact hj (Option.some.inj (hs.symm.trans hholds))
  rwa [Function.update_of_ne hne]

private theorem pop (h : p.Quiet) {slot : Slot} {response : V4.Response} {phase' : StreamPhase}
    (hi : p.calls i = some ⟨request, phase⟩) (hslot : phase.slot? = some slot)
    (houtcome : phase.outcome? = none) (hpop : (p.answers slot).head? = some response)
    (hafter : phase'.slot? = none)
    (hcalls : d.calls = Function.update p.calls i (some ⟨request, phase'⟩))
    (hholder : d.holder = Function.update p.holder slot none) (hsent : d.sent = p.sent)
    (hanswers : d.answers = Function.update p.answers slot (p.answers slot).tail) : d.Quiet := by
  refine h.move hcalls hafter ?_ ?_ hsent (fun m hm ↦ ?_)
    fun m hm hmi ↦ absurd hmi (h.ne_of_answered hi hslot houtcome hpop hm).1
  · rw [hholder]
    exact release_of_holder (h.held i _ slot hi hslot)
  · rw [hholder]
    exact holder_of_release
  · rw [hanswers, Function.update_of_ne (h.ne_of_answered hi hslot houtcome hpop hm).2]

private theorem slot?_eq_none_of_next? {message : RequestMessage} {wait : Slot → StreamPhase}
    (hnext : phase.next? request = some (message, wait)) :
    phase.slot? = none ∧ phase.outcome? = none ∧ ∀ slot, (wait slot).slot? = some slot := by
  cases phase with
  | plain =>
    cases hnext
    exact ⟨rfl, rfl, fun _ ↦ rfl⟩
  | collecting ids =>
    obtain ⟨m, hm, heq⟩ := Option.map_eq_some_iff.mp hnext
    cases heq
    exact ⟨rfl, rfl, fun _ ↦ rfl⟩
  | missed ids =>
    obtain ⟨q, hq, heq⟩ := Option.map_eq_some_iff.mp hnext
    cases heq
    exact ⟨rfl, rfl, fun _ ↦ rfl⟩
  | _ => cases hnext

private theorem send (h : p.Quiet) {slot : Slot} {message : RequestMessage}
    {wait : Slot → StreamPhase}
    (hfresh : p.FreshStream (.send i slot)) (hi : p.calls i = some ⟨request, phase⟩)
    (hnext : phase.next? request = some (message, wait)) (hfree : p.holder slot = none) :
    Quiet { p.setCall i request (wait slot) with
      holder := Function.update p.holder slot (some i)
      sent := p.sent ++ [⟨i, slot, message⟩] } := by
  obtain ⟨hslot, houtcome, hwait⟩ := slot?_eq_none_of_next? hnext
  have hother {m : SentMessage} (hm : m ∈ p.sent) : m.call ≠ i ∧ m.slot ≠ slot :=
    ⟨h.call_ne hi hslot houtcome hm, hfresh.1 m hm⟩
  refine ⟨fun j c s hj hc ↦ ?_, ?_, ?_, fun m hm ↦ ?_⟩
  · change Function.update p.calls i _ j = some c at hj
    change Function.update p.holder slot (some i) s = some j
    by_cases hji : j = i
    · subst hji
      rw [Function.update_self] at hj
      cases hj
      rw [hwait] at hc
      cases hc
      rw [Function.update_self]
    · rw [Function.update_of_ne hji] at hj
      have hs := h.held j c s hj hc
      rwa [Function.update_of_ne]
      rintro rfl
      rw [hfree] at hs
      cases hs
  · rw [List.map_append]
    refine List.Nodup.append h.calls (List.nodup_singleton _) (List.disjoint_singleton.mpr ?_)
    rintro hmem
    obtain ⟨m, hm, hmi⟩ := List.mem_map.mp hmem
    exact (hother hm).1 hmi
  · rw [List.map_append]
    refine List.Nodup.append h.slots (List.nodup_singleton _) (List.disjoint_singleton.mpr ?_)
    rintro hmem
    obtain ⟨m, hm, hmslot⟩ := List.mem_map.mp hmem
    exact (hother hm).2 hmslot
  · rcases List.mem_append.mp hm with hm | hm
    · have howes := h.owes m hm
      refine ⟨howes.unanswered, fun j hj ↦ howes.owner j ?_, ?_⟩
      · change Function.update p.holder slot (some i) m.slot = some j at hj
        rwa [Function.update_of_ne (hother hm).2] at hj
      · change ∃ c, Function.update p.calls i _ m.call = some c ∧ _
        rw [Function.update_of_ne (hother hm).1]
        exact howes.caller
    · cases List.mem_singleton.mp hm
      refine ⟨hfresh.2, fun j hj ↦ ?_, _, Function.update_self .., .inl (hwait _)⟩
      change Function.update p.holder slot (some i) slot = some j at hj
      rw [Function.update_self] at hj
      exact (Option.some.inj hj).symm

private theorem ne_of_mem_eraseIdx {α β : Type} {l : List α} {f : α → β} (h : (l.map f).Nodup)
    {k : Nat} {a b : α} (hk : l[k]? = some a) (hb : b ∈ l.eraseIdx k) : f b ≠ f a := by
  obtain ⟨hlt, rfl⟩ := List.getElem?_eq_some_iff.mp hk
  have hperm := (List.getElem_cons_eraseIdx_perm hlt).map f
  rw [← hperm.nodup_iff, List.map_cons, List.nodup_cons] at h
  exact fun heq ↦ h.1 (heq ▸ List.mem_map_of_mem hb)

private theorem serve (h : p.Quiet) {k : Nat} {m : SentMessage} (hk : p.sent[k]? = some m)
    (node' : NodeState δ) (response : V4.Response) :
    Quiet { p with
      node := node'
      sent := p.sent.eraseIdx k
      answers := Function.update p.answers m.slot (p.answers m.slot ++ [response]) } := by
  refine ⟨h.held, h.calls.sublist ((List.eraseIdx_sublist ..).map _),
    h.slots.sublist ((List.eraseIdx_sublist ..).map _), fun m' hm' ↦ ?_⟩
  have howes := h.owes m' (List.mem_of_mem_eraseIdx hm')
  refine ⟨?_, howes.owner, howes.caller⟩
  change Function.update p.answers m.slot _ m'.slot = []
  rw [Function.update_of_ne (ne_of_mem_eraseIdx h.slots hk hm')]
  exact howes.unanswered

/-- Every step under a fresh stream id keeps the messages on the way apart. -/
theorem step (h : p.Quiet) {e : StreamEvent} (hfresh : p.FreshStream e)
    (ht : Transition node memory p e d) : d.Quiet := by
  cases ht with
  | begin hi =>
    refine h.stay rfl ?_ rfl rfl rfl fun m hm ↦ h.call_ne_of_idle hi hm
    split <;> rfl
  | hit hi => exact h.stay rfl rfl rfl rfl rfl fun m hm ↦ h.call_ne hi rfl rfl hm
  | miss hi => exact h.stay rfl rfl rfl rfl rfl fun m hm ↦ h.call_ne hi rfl rfl hm
  | send hi hnext hfree => exact h.send hfresh hi hnext hfree
  | exhausted hi hnext =>
    obtain ⟨hslot, houtcome, -⟩ := slot?_eq_none_of_next? hnext
    exact h.stay rfl rfl rfl rfl rfl fun m hm ↦ h.call_ne hi hslot houtcome hm
  | sendFails hk =>
    exact ⟨h.held, h.calls.sublist ((List.eraseIdx_sublist ..).map _),
      h.slots.sublist ((List.eraseIdx_sublist ..).map _),
      fun m hm ↦ (h.owes m (List.mem_of_mem_eraseIdx hm)).congr rfl rfl rfl⟩
  | serve hk => exact h.serve hk _ _
  | put hi hq hpop hid => exact h.pop hi rfl rfl hpop rfl rfl rfl rfl rfl
  | prepareFails hi hq hpop he => exact h.pop hi rfl rfl hpop rfl rfl rfl rfl rfl
  | finish hi hpop => exact h.pop hi rfl rfl hpop rfl rfl rfl rfl rfl
  | @timeout i request phase slot hi hslot =>
    exact h.move rfl rfl (release_of_holder (h.held i _ slot hi hslot)) holder_of_release rfl
      (fun _ _ ↦ rfl) fun _ _ _ ↦ rfl
  | evict => exact h.congr rfl rfl rfl rfl
  | forget => exact h.congr rfl rfl rfl rfl
  | prepareElsewhere => exact h.congr rfl rfl rfl rfl

end Quiet

/-- The same pool with every answer matched to its call. -/
structure Matched (p : ExecutionStreams δ) (a : Executions δ) : Prop where
  cacheEnabled : a.cacheEnabled = p.cacheEnabled
  cache : a.cache = p.cache
  node : a.node = p.node
  calls : ∀ i, (a.calls i).map (fun c ↦ (c.request, c.phase)) =
    (p.calls i).map fun c ↦ (c.request, c.phase.matched p.answers)
  pending : ∀ m ∈ p.sent, ∃ c, a.calls m.call = some c ∧ c.pending = some m.message

namespace Matched

variable {p d : ExecutionStreams δ} {a b : Executions δ} {i : Nat} {request : PoolRequest}
  {phase : StreamPhase} {pending : Option RequestMessage} {forgets : Bool}

private theorem call (h : Matched p a) (hi : p.calls i = some ⟨request, phase⟩) :
    ∃ pending, a.calls i = some ⟨request, phase.matched p.answers, pending⟩ := by
  have hcall := h.calls i
  rw [hi] at hcall
  obtain ⟨⟨request', phase', pending⟩, ha, heq⟩ := Option.map_eq_some_iff.mp hcall
  cases heq
  exact ⟨pending, ha⟩

private theorem move (h : Matched p a) (henabled : b.cacheEnabled = d.cacheEnabled)
    (hcache : b.cache = d.cache) (hnode : b.node = d.node)
    (hp : d.calls = Function.update p.calls i (some ⟨request, phase⟩))
    (ha : b.calls = Function.update a.calls i (some ⟨request, phase.matched d.answers, pending⟩))
    (hothers : ∀ j c, j ≠ i → p.calls j = some c →
      c.phase.matched d.answers = c.phase.matched p.answers)
    (hpending : ∀ m ∈ d.sent, m ∈ p.sent ∧ m.call ≠ i ∨
      m.call = i ∧ pending = some m.message) : Matched d b where
  cacheEnabled := henabled
  cache := hcache
  node := hnode
  calls j := by
    rw [hp, ha]
    by_cases hji : j = i
    · rw [hji, Function.update_self, Function.update_self]
      rfl
    · rw [Function.update_of_ne hji, Function.update_of_ne hji, h.calls j]
      cases hj : p.calls j with
      | none => rfl
      | some c => exact congrArg (fun phase ↦ some (c.request, phase)) (hothers j c hji hj).symm
  pending m hm := by
    rw [ha]
    rcases hpending m hm with ⟨hm, hmi⟩ | ⟨hmi, hmessage⟩
    · rw [Function.update_of_ne hmi]
      exact h.pending m hm
    · exact ⟨_, by rw [hmi, Function.update_self], hmessage⟩

private theorem stay (h : Matched p a) {phase' : StreamPhase} (hnone : ∀ m ∈ p.sent, m.call ≠ i) :
    Matched (p.setCall i request phase')
      (a.setCall i ⟨request, phase'.matched p.answers, pending⟩) :=
  h.move h.cacheEnabled h.cache h.node rfl rfl (fun _ _ _ _ ↦ rfl)
    fun m hm ↦ .inl ⟨hm, hnone m hm⟩

private theorem others (hquiet : p.Quiet) {slot : Slot} (hholder : p.holder slot = some i)
    (responses : List V4.Response) (j : Nat) (c : StreamExecution) (hj : j ≠ i)
    (hc : p.calls j = some c) :
    c.phase.matched (Function.update p.answers slot responses) = c.phase.matched p.answers := by
  refine StreamPhase.matched_congr fun s hs ↦ Function.update_of_ne ?_ ..
  rintro rfl
  exact hj (Option.some.inj ((hquiet.held j c s hc hs).symm.trans hholder))

private theorem pop (h : Matched p a) (hquiet : p.Quiet) {slot : Slot} {response : V4.Response}
    {phase' : StreamPhase} {cache' : Statement → Option StatementId}
    (hi : p.calls i = some ⟨request, phase⟩) (hslot : phase.slot? = some slot)
    (houtcome : phase.outcome? = none) (hpop : (p.answers slot).head? = some response)
    (hafter : phase'.slot? = none) :
    Matched ({ p.pop slot with cache := cache' }.setCall i request phase')
      ({ a with cache := cache' }.setCall i ⟨request, phase'.matched p.answers, pending⟩) := by
  have hsame : phase'.matched (Function.update p.answers slot (p.answers slot).tail) =
      phase'.matched p.answers := by
    refine StreamPhase.matched_congr fun s hs ↦ ?_
    rw [hafter] at hs
    cases hs
  have hcalls : Function.update a.calls i (some ⟨request, phase'.matched p.answers, pending⟩) =
      Function.update a.calls i (some ⟨request,
        phase'.matched (Function.update p.answers slot (p.answers slot).tail), pending⟩) := by
    rw [hsame]
  exact h.move h.cacheEnabled rfl h.node rfl hcalls
    (others hquiet (hquiet.held i _ slot hi hslot) _)
    fun m hm ↦ .inl ⟨hm, (hquiet.ne_of_answered hi hslot houtcome hpop hm).1⟩

private theorem single {e : ExecutionEvent} (hforget : e.isForget = false)
    (hstep : a.step node memory e = some b) :
    Reaches (Executions.step node memory) (fun _ ↦ Executions.Forgets forgets) a b :=
  .single (fun h ↦ by rw [hforget] at h; cases h) hstep

private theorem serve (h : Matched p a) (hquiet : p.Quiet) {k : Nat} {m : SentMessage}
    (hk : p.sent[k]? = some m) :
    ∃ b, Reaches (Executions.step node memory) (fun _ ↦ Executions.Forgets forgets) a b ∧
      Matched { p with
        node := (node.serve p.node m.message).2
        sent := p.sent.eraseIdx k
        answers := Function.update p.answers m.slot
          (p.answers m.slot ++ [(node.serve p.node m.message).1]) } b := by
  have hm := List.mem_of_getElem? hk
  have howes := hquiet.owes m hm
  obtain ⟨⟨request, phase⟩, hcall, hphase⟩ := howes.caller
  obtain ⟨pending, ha⟩ := h.call hcall
  obtain ⟨c, hc, hpending⟩ := h.pending m hm
  rw [ha] at hc
  cases hc
  cases hpending
  have hstep : a.step node memory (.serve m.call) =
      some ({ a with node := (node.serve p.node m.message).2 }.setCall m.call
        ⟨request, (phase.matched p.answers).respond (node.serve p.node m.message).1, none⟩) := by
    rw [← h.node]
    simp only [Executions.step, ha]
    rfl
  have hcalls : p.calls = Function.update p.calls m.call (some ⟨request, phase⟩) := by
    rw [← hcall, Function.update_eq_self]
  refine ⟨_, single rfl hstep, h.move h.cacheEnabled h.cache rfl
    hcalls (?_ : _ = Function.update a.calls m.call (some ⟨request, _, none⟩))
    (fun j c' hj hc' ↦ ?_) fun m' hm' ↦ .inl ?_⟩
  · rw [StreamPhase.matched_respond _ hphase howes.unanswered]
    rfl
  · refine StreamPhase.matched_congr fun s hs ↦ Function.update_of_ne ?_ ..
    rintro rfl
    exact hj (howes.owner j (hquiet.held j c' _ hc' hs))
  · exact ⟨List.mem_of_mem_eraseIdx hm', Quiet.ne_of_mem_eraseIdx hquiet.calls hk hm'⟩

private theorem send (h : Matched p a) (hquiet : p.Quiet) {slot : Slot} {message : RequestMessage}
    {wait : Slot → StreamPhase} (hfresh : p.FreshStream (.send i slot))
    (hi : p.calls i = some ⟨request, phase⟩) (hnext : phase.next? request = some (message, wait)) :
    ∃ b, Reaches (Executions.step node memory) (fun _ ↦ Executions.Forgets forgets) a b ∧
      Matched { p.setCall i request (wait slot) with
        holder := Function.update p.holder slot (some i)
        sent := p.sent ++ [⟨i, slot, message⟩] } b := by
  obtain ⟨hslot, houtcome, -⟩ := Quiet.slot?_eq_none_of_next? hnext
  obtain ⟨pending, ha⟩ := h.call hi
  obtain ⟨phase', hnext', hwait⟩ := StreamPhase.matched_next? p.answers hnext
  have hstep : a.step node memory (.send i) =
      some (a.setCall i ⟨request, (wait slot).matched p.answers, some message⟩) := by
    simp only [Executions.step, ha, hnext', hwait slot hfresh.2, Option.bind_some, bind, pure]
  refine ⟨_, single rfl hstep,
    h.move h.cacheEnabled h.cache h.node rfl rfl (fun _ _ _ _ ↦ rfl) fun m hm ↦ ?_⟩
  rcases List.mem_append.mp hm with hm | hm
  · exact .inl ⟨hm, hquiet.call_ne hi hslot houtcome hm⟩
  · cases List.mem_singleton.mp hm
    exact .inr ⟨rfl, rfl⟩

/-- Every step under a fresh stream id is a step of the matched pool. -/
theorem step (h : Matched p a) (hquiet : p.Quiet) {e : StreamEvent} (hfresh : p.FreshStream e)
    (hforget : Forgets forgets e) (ht : Transition node memory p e d) :
    ∃ b, Reaches (Executions.step node memory) (fun _ ↦ Executions.Forgets forgets) a b ∧
      Matched d b := by
  cases ht with
  | @begin i request commandControl hi =>
    have ha : a.calls i = none := by
      have hcall := h.calls i
      rw [hi] at hcall
      exact Option.map_eq_none_iff.mp hcall
    have hstep : a.step node memory (.begin i request commandControl) = some (a.setCall i
        ⟨request, StreamPhase.matched p.answers
          (if canPrepareStatement commandControl p.cacheEnabled then .collecting [] else .plain),
          none⟩) := by
      simp only [Executions.step, ha, h.cacheEnabled]
      split <;> rfl
    exact ⟨_, single rfl hstep, h.stay fun m hm ↦ hquiet.call_ne_of_idle hi hm⟩
  | @hit i request ids q id hi hq hs =>
    obtain ⟨pending, ha⟩ := h.call hi
    have hstep : a.step node memory (.get i) =
        some (a.setCall i ⟨request, .collecting (ids ++ [id]), pending⟩) := by
      simp only [Executions.step, ha, StreamPhase.matched, h.cache, hq, hs, Option.bind_some,
        bind, pure]
    exact ⟨_, single rfl hstep, h.stay fun m hm ↦ hquiet.call_ne hi rfl rfl hm⟩
  | @miss i request ids q hi hq hs =>
    obtain ⟨pending, ha⟩ := h.call hi
    have hstep : a.step node memory (.get i) =
        some (a.setCall i ⟨request, .missed ids, pending⟩) := by
      simp only [Executions.step, ha, StreamPhase.matched, h.cache, hq, hs, Option.bind_some,
        bind, pure]
    exact ⟨_, single rfl hstep, h.stay fun m hm ↦ hquiet.call_ne hi rfl rfl hm⟩
  | send hi hnext hfree => exact h.send hquiet hfresh hi hnext
  | @exhausted i request phase message wait hi hnext =>
    obtain ⟨hslot, houtcome, -⟩ := Quiet.slot?_eq_none_of_next? hnext
    obtain ⟨pending, ha⟩ := h.call hi
    obtain ⟨phase', hnext', -⟩ := StreamPhase.matched_next? p.answers hnext
    have hstep : a.step node memory (.exhausted i) =
        some (a.setCall i ⟨request, .ended .exhausted, pending⟩) := by
      simp only [Executions.step, ha, hnext', Option.bind_some, bind, pure]
    exact ⟨_, single rfl hstep, h.stay fun m hm ↦ hquiet.call_ne hi hslot houtcome hm⟩
  | sendFails hk =>
    exact ⟨a, .init, h.cacheEnabled, h.cache, h.node, h.calls,
      fun m hm ↦ h.pending m (List.mem_of_mem_eraseIdx hm)⟩
  | serve hk => exact h.serve hquiet hk
  | @put i request ids slot q response id hi hq hpop hid =>
    obtain ⟨pending, ha⟩ := h.call hi
    have hstep : a.step node memory (.put i) =
        some ({ a with cache := Function.update p.cache q.statement (some id) }.setCall i
          ⟨request, .collecting (ids ++ [id]), pending⟩) := by
      simp only [Executions.step, ha, StreamPhase.matched, h.cache, hq, hpop, hid,
        Option.elim_some, Option.bind_some, bind, pure]
    exact ⟨_, single rfl hstep, h.pop hquiet hi rfl rfl hpop rfl⟩
  | @prepareFails i request ids slot q response e hi hq hpop he =>
    obtain ⟨pending, ha⟩ := h.call hi
    have hstep : a.step node memory (.put i) =
        some ({ a with cache := p.cache }.setCall i
          ⟨request, .ended (.result (.error e)), pending⟩) := by
      simp only [Executions.step, ha, StreamPhase.matched, hq, hpop, he, ← h.cache,
        Option.elim_some, Option.bind_some, bind, pure]
    exact ⟨_, single rfl hstep, h.pop hquiet hi rfl rfl hpop rfl⟩
  | @finish i request slot response hi hpop =>
    obtain ⟨pending, ha⟩ := h.call hi
    have hstep : a.step node memory (.finish i) =
        some ({ a with cache := p.cache }.setCall i
          ⟨request, .ended (.of memory response), pending⟩) := by
      simp only [Executions.step, ha, StreamPhase.matched, hpop, ← h.cache,
        Option.elim_some, Option.bind_some, bind, pure]
    exact ⟨_, single rfl hstep, h.pop hquiet hi rfl rfl hpop rfl⟩
  | @timeout i request phase slot hi hslot =>
    obtain ⟨pending, ha⟩ := h.call hi
    have hstep : a.step node memory (.timeout i) =
        some (a.setCall i ⟨request, .ended .timedOut, pending⟩) := by
      simp only [Executions.step, ha, StreamPhase.matched_isAwaiting hslot, Option.bind_some,
        bind, pure, if_true]
    refine ⟨_, single rfl hstep, h.move h.cacheEnabled h.cache h.node rfl rfl
      (fun _ _ _ _ ↦ rfl) fun m hm ↦ ?_⟩
    by_cases hmi : m.call = i
    · obtain ⟨c, hc, hpending⟩ := h.pending m hm
      rw [hmi, ha] at hc
      cases hc
      exact .inr ⟨hmi, hpending⟩
    · exact .inl ⟨hm, hmi⟩
  | @evict dropped =>
    refine ⟨_, single (e := .evict dropped) rfl rfl, h.cacheEnabled, ?_, h.node, h.calls, h.pending⟩
    rw [h.cache]
  | @forget forgotten =>
    refine ⟨_, .single (e := .forget forgotten) (fun _ ↦ hforget rfl) rfl, h.cacheEnabled, h.cache,
      ?_, h.calls, h.pending⟩
    rw [h.node]
  | @prepareElsewhere text =>
    refine ⟨_, single (e := .prepareElsewhere text) rfl rfl, h.cacheEnabled, h.cache, ?_, h.calls,
      h.pending⟩
    rw [h.node]

end Matched

variable {p : ExecutionStreams δ} {forgets cacheEnabled : Bool} {data : δ}

end ExecutionStreams
end CassandraDriver.Detail
