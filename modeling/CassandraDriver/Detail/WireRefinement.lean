import CassandraDriver.Detail.WireSimulation

/-!
# Every step of the bytes is a step of the connection

Library `Detail`. The simulation of `Connection` by `Wire`, one lemma for each group of
transitions, and what it says about whole runs.
-/

namespace CassandraDriver.Detail
open CassandraDriver.Lib CassandraDriver.Lib.Decoder CassandraDriver.Protocol

section
variable {delivers : ResponseFrame → Received → Prop}

private theorem PhaseMatches.of_idle {sent : Bool} {p' : Phase}
    (h : PhaseMatches delivers sent .idle p') : p' = .idle := by
  cases h
  rfl

/-- A call under way in the bytes is under way in the messages. -/
theorem PhaseMatches.of_inFlight {sent : Bool} {m : RequestMessage} {id : Nat}
    {stage : WireStage} {p' : Phase} (h : PhaseMatches delivers sent (.inFlight m id stage) p') :
    ∃ stage', p' = .inFlight id sent stage' ∧ StageMatches delivers stage stage' := by
  cases h with
  | inFlight h => exact ⟨_, rfl, h⟩

/-- A call in `Pop` is there at both levels. -/
theorem StageMatches.of_popping {stage' : Stage} (h : StageMatches delivers .popping stage') :
    stage' = .popping := by
  cases h
  rfl

private theorem StageMatches.of_popped {r : Received} {stage' : Stage}
    (h : StageMatches delivers (.popped r) stage') : ∃ f, stage' = .popped f ∧ delivers f r := by
  cases h with
  | popped h => exact ⟨_, rfl, h⟩

private theorem StageMatches.of_popFailed {stage' : Stage}
    (h : StageMatches delivers .popFailed stage') : stage' = .popFailed := by
  cases h
  rfl

private theorem StageMatches.of_unwinding {stage' : Stage}
    (h : StageMatches delivers .unwinding stage') : stage' = .unwinding := by
  cases h
  rfl

private theorem ReceiverMatches.of_reading {r' : Receiver}
    (h : ReceiverMatches delivers .reading r') : r' = .reading := by
  cases h
  rfl

private theorem ReceiverMatches.of_pushing {r : Received} {r' : Receiver}
    (h : ReceiverMatches delivers (.pushing r) r') : ∃ f, r' = .pushing f ∧ delivers f r := by
  cases h with
  | pushing h => exact ⟨_, rfl, h⟩

/-- What the receiver has in its hands at both levels. -/
theorem ReceiverMatches.received {r : WireReceiver} {r' : Receiver}
    (h : ReceiverMatches delivers r r') : List.Forall₂ delivers r'.frames r.received := by
  cases h with
  | reading => exact .nil
  | pushing h => exact .cons h .nil
  | exited => exact .nil

/-- The receiver leaves its loop at both levels, for one reason. -/
theorem ReceiverMatches.exited_iff {r : WireReceiver} {r' : Receiver}
    (h : ReceiverMatches delivers r r') (reason : ExitReason) :
    r' = .exited reason ↔ r = .exited reason := by
  cases h with
  | reading => simp
  | pushing h => simp
  | exited => simp

/-- A queued message has its frame. -/
theorem queue_of_some {q : Option ResponseFrame} {r : Received}
    (h : Option.Rel delivers q (some r)) : ∃ f, q = some f ∧ delivers f r := by
  cases h with
  | some h => exact ⟨_, rfl, h⟩

private theorem queue_of_none {q : Option ResponseFrame} (h : Option.Rel delivers q none) :
    q = none := by
  cases h
  rfl

end

variable {lz4 : Option Lz4Api} {memory : List UInt8 → Nat → UInt8} {order order' : List Sent}
  {w w' : Wire} {c c' : Connection}

private theorem Serving.congr {server : List Request} (h : Serving lz4 order w server)
    (hserved : w'.served = w.served) (hread : w'.read = w.read) :
    Serving lz4 order w' server := by
  refine ⟨hserved ▸ h.count, ?_, hserved ▸ h.own, hserved ▸ h.unanswered, hserved ▸ h.asked,
    h.once⟩
  rw [hread, hserved]
  exact h.read

private theorem Incoming.congr {wire : List ResponseFrame} (h : Incoming lz4 order w wire)
    (hserved : w'.served = w.served) (hincoming : w'.incoming = w.incoming) :
    Incoming lz4 order w' wire := by
  rw [Incoming, hserved, hincoming]
  exact h

private theorem timely {e' : Event} (hhonest : Connection.Honest e')
    (hpop : Connection.NoTimeout e') (hpush : e' ≠ .pushFails) (hcancel : e' ≠ .cancel) :
    c.Timely e' :=
  ⟨hhonest, hpop, fun h ↦ (h.elim hpush hcancel).elim⟩

/-- Where a step of the bytes leads: to a state that implements a connection, which has made the
step that matches. -/
def Advances (lz4 : Option Lz4Api) (order : List Sent) (w : Wire) (e : WireEvent) (c : Connection)
    (w' : Wire) : Prop :=
  ∃ order' c', Extends order w.served order' w'.served ∧ Implements lz4 order' w' c' ∧
    Matched w e c c'

private theorem advances_call (h : Implements lz4 order w c) {e : WireEvent} {e' : Event} {i : Nat}
    {p : WirePhase} {p' : Phase} (hstep : c.step e' = some c')
    (htimely : w.InTime e → c.Timely e') (hstands : Stands e e')
    (hcalls : w'.calls = Function.update w.calls i p)
    (hcalls' : c'.calls = Function.update c.calls i p')
    (hsender : w'.sender = w.sender) (hserved : w'.served = w.served) (hread : w'.read = w.read)
    (hincoming : w'.incoming = w.incoming) (hserver : c'.server = c.server)
    (hwire : c'.wire = c.wire) (hreceiver : w'.receiver = w.receiver)
    (hreceiver' : c'.receiver = c.receiver) (hpool : c'.streamPool = w'.streamPool)
    (hbroken : c'.broken = w'.broken)
    (hp : PhaseMatches (Delivers lz4 order w.served) (w.sender.sent i) p p')
    (hidle : p ≠ .idle)
    (hi : w.sender.calls i = .idle ∨
      (w.sender.calls i = .over ∧ p.message = (w.calls i).message) ∨
      ∃ m id stage stage', w.calls i = .inFlight m id stage ∧ p = .inFlight m id stage')
    (hqueues : ∀ id, Option.Rel (Delivers lz4 order w.served) (c'.queues id) (w'.queues id)) :
    Advances lz4 order w e c w' := by
  have hext : Extends order w.served order w'.served := hserved ▸ extends_refl
  refine ⟨order, c', hext, ⟨?_, ?_, ?_, ?_⟩, .step hstep hstands htimely⟩
  · refine h.client.move hext hcalls hcalls' (fun j _ ↦ by rw [hsender]) ?_ hpool hbroken ?_ ?_
    · rw [hsender, hserved]
      exact hp
    · rw [hserved]
      exact hqueues
    · rw [hserved, hreceiver, hreceiver']
      exact h.client.receiver
  · exact h.sending.setCall hcalls hsender hidle hi
  · rw [hserver]
    exact h.serving.congr hserved hread
  · rw [hwire]
    exact h.incoming.congr hserved hincoming

private theorem advances_acquire (h : Implements lz4 order w c) {i id : Nat} {m : RequestMessage}
    (hi : w.calls i = .idle) (hid : id ∈ w.streamPool.queue) :
    Advances lz4 order w (.acquire i m id) c { w.setCall i (.inFlight m id .popping) with
      streamPool := ⟨w.streamPool.queue.erase id⟩ } := by
  have hidle := h.sending.idle i hi
  have hc : c.calls i = .idle := (hi ▸ h.client.calls i).of_idle
  have hstep : c.step (.acquire i id) = some { c.setCall i (.inFlight id false .popping) with
      streamPool := ⟨w.streamPool.queue.erase id⟩ } := by
    simp only [Connection.step, StreamPool.acquire, hc, h.client.pool, if_pos hid]
  refine advances_call h hstep (fun _ ↦ timely trivial trivial (by simp) (by simp)) .acquire
    rfl rfl rfl rfl rfl rfl rfl rfl rfl rfl rfl h.client.broken ?_ (by simp) (.inl hidle)
    h.client.queues
  rw [h.sending.sent_idle hidle]
  exact .inFlight .popping

private theorem advances_exhausted (h : Implements lz4 order w c) {i : Nat} {m : RequestMessage}
    (hi : w.calls i = .idle) :
    Advances lz4 order w (.exhausted i m) c (w.setCall i (.threw m)) := by
  have hidle := h.sending.idle i hi
  have hc : c.calls i = .idle := (hi ▸ h.client.calls i).of_idle
  have hstep : c.step (.exhausted i) = some (c.setCall i .threw) := by
    simp only [Connection.step, hc]
  exact advances_call h hstep (fun _ ↦ timely trivial trivial (by simp) (by simp)) .exhausted
    rfl rfl rfl rfl rfl rfl rfl rfl rfl rfl h.client.pool h.client.broken .threw (by simp)
    (.inl hidle) h.client.queues

private theorem advances_pop (h : Implements lz4 order w c) {i id : Nat} {m : RequestMessage}
    {r : Received} (hi : w.calls i = .inFlight m id .popping) (hq : w.queues id = some r) :
    Advances lz4 order w (.pop i) c { w.setCall i (.inFlight m id (.popped r)) with
      queues := Function.update w.queues id none } := by
  obtain ⟨stage', hc, hstage⟩ := (hi ▸ h.client.calls i).of_inFlight
  obtain rfl := hstage.of_popping
  obtain ⟨f, hf, hd⟩ := queue_of_some (hq ▸ h.client.queues id)
  have hstep : c.step (.pop i) = some
      { c.setCall i (.inFlight id (w.sender.sent i) (.popped f)) with
        queues := Function.update c.queues id none } := by
    simp only [Connection.step, hc, hf]
  refine advances_call h hstep (fun _ ↦ timely trivial trivial (by simp) (by simp)) .pop
    rfl rfl rfl rfl rfl rfl rfl rfl rfl rfl h.client.pool h.client.broken
    (.inFlight (.popped hd)) (by simp) (.inr (.inr ⟨m, id, _, _, hi, rfl⟩)) fun k ↦ ?_
  by_cases hk : k = id
  · subst hk
    simp only [Function.update_self]
    exact .none
  · simp only [Function.update_of_ne hk]
    exact h.client.queues k

private theorem advances_popFails (h : Implements lz4 order w c) {i id : Nat} {m : RequestMessage}
    (hi : w.calls i = .inFlight m id .popping) :
    Advances lz4 order w (.popFails i) c (w.setCall i (.inFlight m id .popFailed)) := by
  obtain ⟨stage', hc, hstage⟩ := (hi ▸ h.client.calls i).of_inFlight
  obtain rfl := hstage.of_popping
  have hstep : c.step (.popFails i) = some
      (c.setCall i (.inFlight id (w.sender.sent i) .popFailed)) := by
    simp only [Connection.step, hc]
  exact advances_call h hstep (fun ht ↦ ht.elim) .popFails rfl rfl rfl rfl rfl rfl rfl rfl rfl rfl
    h.client.pool h.client.broken (.inFlight .popFailed) (by simp)
    (.inr (.inr ⟨m, id, _, _, hi, rfl⟩)) h.client.queues

private theorem advances_waitThrows (h : Implements lz4 order w c) {i id : Nat} {m : RequestMessage}
    {stage : WireStage} (hi : w.calls i = .inFlight m id stage)
    (hs : stage = .popFailed ∨ ∃ r, stage = .popped r) :
    Advances lz4 order w (.waitThrows i) c (w.setCall i (.inFlight m id .unwinding)) := by
  obtain ⟨stage', hc, hstage⟩ := (hi ▸ h.client.calls i).of_inFlight
  have hstep : c.step (.waitThrows i) = some
      (c.setCall i (.inFlight id (w.sender.sent i) .unwinding)) := by
    rcases hs with rfl | ⟨r, rfl⟩
    · obtain rfl := hstage.of_popFailed
      simp only [Connection.step, hc]
    · obtain ⟨f, rfl, -⟩ := hstage.of_popped
      simp only [Connection.step, hc]
  exact advances_call h hstep (fun _ ↦ timely trivial trivial (by simp) (by simp)) .waitThrows
    rfl rfl rfl rfl rfl rfl rfl rfl rfl rfl h.client.pool h.client.broken (.inFlight .unwinding)
    (by simp) (.inr (.inr ⟨m, id, _, _, hi, rfl⟩)) h.client.queues

private theorem advances_checked (h : Implements lz4 order w c) {i id : Nat} {m : RequestMessage}
    {r : Received} (hsent : w.sender.calls i = .over)
    (hi : w.calls i = .inFlight m id (.popped r)) :
    Advances lz4 order w (.leave i) c (w.leave i id (.checked m (checkReceived r))) := by
  obtain ⟨stage', hc, hstage⟩ := (hi ▸ h.client.calls i).of_inFlight
  obtain ⟨f, rfl, hd⟩ := hstage.of_popped
  rw [Sender.sent_iff.mpr (.inl hsent)] at hc
  have hstep : c.step (.leave i) =
      some (c.leave i id (if f.raises then .threw else .returned f)) := by
    simp only [Connection.step, hc]
  have hraises := hd.raises
  refine advances_call h hstep (fun _ ↦ timely trivial trivial (by simp) (by simp)) .leave
    rfl rfl rfl rfl rfl rfl rfl rfl rfl rfl (congrArg (·.release id) h.client.pool)
    h.client.broken ?_ (by simp) (.inr (.inl ⟨hsent, by rw [hi]; rfl⟩)) h.client.queues
  cases hcheck : checkReceived r with
  | ok r' =>
    have hr : r' = r := by
      unfold checkReceived at hcheck
      cases hce : checkError r.message with
      | ok u =>
        rw [hce] at hcheck
        cases hcheck
        rfl
      | error e =>
        rw [hce] at hcheck
        cases hcheck
    rw [hcheck] at hraises
    have hf : f.raises = false := by simpa [Except.isOk, Except.toBool] using hraises
    rw [hf, hr]
    exact .returned hd hf
  | error e =>
    rw [hcheck] at hraises
    have hf : f.raises = true := by simpa [Except.isOk, Except.toBool] using hraises
    rw [hf]
    exact .refused

private theorem advances_timedOut (h : Implements lz4 order w c) {i id : Nat} {m : RequestMessage}
    (hsent : w.sender.calls i = .over) (hi : w.calls i = .inFlight m id .popFailed) :
    Advances lz4 order w (.leave i) c { w.leave i id (.threw m) with broken := true } := by
  obtain ⟨stage', hc, hstage⟩ := (hi ▸ h.client.calls i).of_inFlight
  obtain rfl := hstage.of_popFailed
  rw [Sender.sent_iff.mpr (.inl hsent)] at hc
  have hstep : c.step (.leave i) = some { c.leave i id .threw with broken := true } := by
    simp only [Connection.step, hc]
  exact advances_call h hstep (fun _ ↦ timely trivial trivial (by simp) (by simp)) .leave
    rfl rfl rfl rfl rfl rfl rfl rfl rfl rfl (congrArg (·.release id) h.client.pool) rfl .threw
    (by simp) (.inr (.inl ⟨hsent, by rw [hi]; rfl⟩)) h.client.queues

private theorem advances_unwound (h : Implements lz4 order w c) {i id : Nat} {m : RequestMessage}
    (hsent : w.sender.calls i = .over) (hi : w.calls i = .inFlight m id .unwinding) :
    Advances lz4 order w (.leave i) c (w.leave i id (.threw m)) := by
  obtain ⟨stage', hc, hstage⟩ := (hi ▸ h.client.calls i).of_inFlight
  obtain rfl := hstage.of_unwinding
  rw [Sender.sent_iff.mpr (.inl hsent)] at hc
  have hstep : c.step (.leave i) = some (c.leave i id .threw) := by
    simp only [Connection.step, hc]
  exact advances_call h hstep (fun _ ↦ timely trivial trivial (by simp) (by simp)) .leave
    rfl rfl rfl rfl rfl rfl rfl rfl rfl rfl (congrArg (·.release id) h.client.pool)
    h.client.broken .threw (by simp) (.inr (.inl ⟨hsent, by rw [hi]; rfl⟩)) h.client.queues

private theorem advances_quiet (h : Implements lz4 order w c) {e : WireEvent} {s : Sender}
    (hquiet : w.Quiet e) (hsending : Sending lz4 order { w with sender := s })
    (hsent : ∀ j, s.sent j = w.sender.sent j) :
    Advances lz4 order w e c { w with sender := s } :=
  ⟨order, c, extends_refl, ⟨h.client.stay extends_refl rfl rfl hsent h.client.pool h.client.broken
    h.client.queues h.client.receiver, hsending, h.serving.congr rfl rfl,
    h.incoming.congr rfl rfl⟩, .stutter hquiet rfl⟩

private theorem sentCall (h : Implements lz4 order w c) {i id : Nat} {m : RequestMessage}
    {stage : WireStage} (hi : w.calls i = .inFlight m id stage) (hnot : w.sender.sent i = false) :
    ∃ stage', c.calls i = .inFlight id false stage' ∧
      PhaseMatches (Delivers lz4 order w.served) true (w.calls i) (.inFlight id true stage') := by
  obtain ⟨stage', hc, hstage⟩ := (hi ▸ h.client.calls i).of_inFlight
  rw [hnot] at hc
  exact ⟨stage', hc, hi ▸ .inFlight hstage⟩

private theorem advances_start (h : Implements lz4 order w c) {i id : Nat} {m : RequestMessage}
    {stage : WireStage} {s : Sender} (hok : w.Spoken lz4 (.start i))
    (hi : w.calls i = .inFlight m id stage)
    (hs : w.sender.step (lz4.map Lz4Api.compressor) (.start i m (Int16.ofNat id)) = some s) :
    Advances lz4 order w (.start i) c { w with sender := s } := by
  obtain ⟨hsending, hsent⟩ := h.sending.start hi (hok m id stage hi) (Sender.transition_of_step hs)
  exact advances_quiet h trivial hsending hsent

private theorem advances_lock (h : Implements lz4 order w c) {i : Nat} {s : Sender}
    (hok : w.Spoken lz4 (.lock i))
    (hs : w.sender.step (lz4.map Lz4Api.compressor) (.lock i) = some s) :
    Advances lz4 order w (.lock i) c { w with sender := s } := by
  obtain ⟨hsending, hsent⟩ := h.sending.lock hok (Sender.transition_of_step hs)
  exact advances_quiet h trivial hsending hsent

private theorem advances_finish (h : Implements lz4 order w c) {s : Sender}
    (hs : w.sender.step (lz4.map Lz4Api.compressor) .finish = some s) :
    Advances lz4 order w .finish c { w with sender := s } := by
  cases Sender.transition_of_step hs with
  | @finish i g hh hg =>
    obtain ⟨hsending, hsent⟩ := h.sending.settle hh
    refine advances_quiet h trivial hsending fun j ↦ ?_
    rw [hsent]
    split
    · next hj =>
      subst hj
      exact ((h.sending.sent_holder hh).mpr hg).symm
    · rfl

/-- `SendAll` gives up: at the other level the send fails. -/
theorem advances_stop (h : Implements lz4 order w c) {s : Sender}
    (hs : w.sender.step (lz4.map Lz4Api.compressor) .stop = some s) :
    Advances lz4 order w .stop c { w with sender := s } := by
  cases Sender.transition_of_step hs with
  | @stop i g hh hg =>
    obtain ⟨hsending, hsent⟩ := h.sending.settle hh
    have hnot : w.sender.sent i = false := by
      rw [Bool.eq_false_iff, Ne, h.sending.sent_holder hh]
      exact Nat.ne_of_lt hg
    obtain ⟨-, ⟨m, id, stage, hi, -⟩, -⟩ := h.sending.holder i g hh
    obtain ⟨stage', hc, hphase⟩ := sentCall h hi hnot
    have hstep : c.step (.sendFails i) = some (c.setCall i (.inFlight id true stage')) := by
      simp only [Connection.step, hc]
    refine ⟨order, c.setCall i (.inFlight id true stage'), extends_refl, ⟨?_, hsending,
      h.serving.congr rfl rfl, h.incoming.congr rfl rfl⟩, .step hstep .stop
      (fun _ ↦ timely trivial trivial (by simp) (by simp))⟩
    refine h.client.move (i := i) extends_refl (Function.update_eq_self i w.calls).symm rfl
      (fun j hj ↦ ?_) ?_ h.client.pool h.client.broken h.client.queues h.client.receiver
    · exact (hsent j).trans (if_neg hj)
    · have hnow := (hsent i).trans (if_pos rfl)
      rw [hnow]
      exact hphase

/-- With the last byte of a request it is at the server. -/
theorem advances_write (h : Implements lz4 order w c) {n : Nat} {s : Sender}
    (hs : w.sender.step (lz4.map Lz4Api.compressor) (.write n) = some s) :
    Advances lz4 order w (.write n) c { w with sender := s } := by
  cases Sender.transition_of_step hs with
  | @write _ i g hh hn hle =>
    rcases Nat.lt_or_eq_of_le hle with hlt | he
    · obtain ⟨hsending, hsent⟩ := h.sending.write hh hn hlt
      exact advances_quiet h ⟨i, g, hh, hlt⟩ hsending hsent
    · obtain ⟨m, id, stage, hi, hsending, hnot, hsent⟩ := h.sending.writeLast hh hn he
      obtain ⟨stage', hc, hphase⟩ := sentCall h hi hnot
      have hstep : c.step (.send i) = some { c.setCall i (.inFlight id true stage') with
          server := c.server ++ [⟨i, id⟩] } := by
        simp only [Connection.step, hc]
      have hext : Extends order w.served (order ++ [⟨i, m, id⟩]) w.served := extends_sent _
      refine ⟨order ++ [⟨i, m, id⟩], { c.setCall i (.inFlight id true stage') with
        server := c.server ++ [⟨i, id⟩] }, hext, ⟨?_, hsending, ?_, ?_⟩, .step hstep .write
        (fun _ ↦ timely trivial trivial (by simp) (by simp))⟩
      · refine h.client.move (i := i) hext (Function.update_eq_self i w.calls).symm rfl
          (fun j hj ↦ (hsent j).trans (if_neg hj)) ?_ h.client.pool h.client.broken
          (h.client.queues_mono hext) (h.client.receiver.mono (fun _ _ hd ↦ hd.mono hext))
        have hnow := (hsent i).trans (if_pos rfl)
        rw [hnow]
        exact hphase.mono (fun _ _ hd ↦ hd.mono hext)
      · refine ⟨?_, ?_, ?_, ?_, ?_, ?_⟩
        · rw [List.length_append]
          exact Nat.le_trans h.serving.count (Nat.le_add_right _ _)
        · rw [List.take_append_of_le_length h.serving.count]
          exact h.serving.read
        · intro k q v hk hv
          have hkl : k < order.length :=
            Nat.lt_of_lt_of_le (List.getElem?_eq_some_iff.mp hv).1 h.serving.count
          rw [List.getElem?_append_left hkl] at hk
          exact h.serving.own k q v hk hv
        · intro k q hk hopen
          rw [List.mem_append]
          by_cases hkl : k < order.length
          · rw [List.getElem?_append_left hkl] at hk
            exact .inl (h.serving.unanswered k q hk hopen)
          · rw [List.getElem?_append_right (by omega), List.getElem?_singleton] at hk
            split at hk
            · cases hk
              exact .inr List.mem_cons_self
            · cases hk
        · intro r hr
          rcases List.mem_append.mp hr with hr | hr
          · obtain ⟨k, q, hk, hq, hopen⟩ := h.serving.asked r hr
            exact ⟨k, q, hext.order k q hk, hq, hopen⟩
          · obtain rfl := List.mem_singleton.mp hr
            refine ⟨order.length, ⟨i, m, id⟩, List.getElem?_concat_length, rfl, fun v hv ↦ ?_⟩
            have hlt : order.length < w.served.length := (List.getElem?_eq_some_iff.mp hv).1
            exact absurd h.serving.count (Nat.not_le.mpr hlt)
        · refine List.nodup_append.mpr ⟨h.serving.once, List.nodup_singleton _, ?_⟩
          intro r hr q hq
          obtain rfl := List.mem_singleton.mp hq
          rintro rfl
          -- A request at the server is out, and this one was not.
          obtain ⟨k, q, hk, hq, -⟩ := h.serving.asked _ hr
          have hout := h.sending.sent q (List.mem_of_getElem? hk)
          have hcall : q.call = i := congrArg Request.call hq
          rw [hcall, hnot] at hout
          cases hout
      · obtain ⟨replies, hbytes, hall⟩ := h.incoming
        exact ⟨replies, hbytes, hall.imp (fun _ _ hd ↦ hd.mono hext)⟩

private theorem advances_serve (h : Implements lz4 order w c) {p : Int × V4.Request}
    {rest : List UInt8}
    (hp : (V4.requestFrame lz4).run (w.sender.bytes.drop w.read) = some (p, rest)) :
    Advances lz4 order w .serve c { w with
      read := w.sender.bytes.length - rest.length
      served := w.served ++ [⟨p.1, p.2, none⟩] } := by
  have hext : Extends order w.served order (w.served ++ [⟨p.1, p.2, none⟩]) := extends_serve _
  refine ⟨order, c, hext, ⟨?_, ?_, h.serving.serve h.sending hp, ?_⟩, .stutter trivial rfl⟩
  · exact h.client.stay hext rfl rfl (fun _ ↦ rfl) h.client.pool h.client.broken
      (h.client.queues_mono hext) (h.client.receiver.mono (fun _ _ hd ↦ hd.mono hext))
  · exact ⟨h.sending.idle, h.sending.locking, h.sending.holder, h.sending.out, h.sending.front,
      h.sending.unfinished, h.sending.sent, h.sending.nodup, h.sending.carried, h.sending.own⟩
  · obtain ⟨replies, hbytes, hall⟩ := h.incoming
    exact ⟨replies, hbytes, hall.imp (fun _ _ hd ↦ hd.mono hext)⟩

private theorem advances_answer (h : Implements lz4 order w c) {k : Nat} {stream : Int}
    {request : V4.Request} {response : V4.Response} (hok : Reply.Carried lz4 response)
    (hk : w.served[k]? = some ⟨stream, request, none⟩) :
    Advances lz4 order w (.answer k response) c { w with
      served := w.served.set k ⟨stream, request, some response⟩
      incoming := w.incoming ++ Reply.encode lz4 ⟨Int16.ofInt stream, response⟩ } := by
  have hlt : k < w.served.length := (List.getElem?_eq_some_iff.mp hk).1
  obtain ⟨s, hs⟩ : ∃ s, order[k]? = some s :=
    ⟨_, List.getElem?_eq_getElem (Nat.lt_of_lt_of_le hlt h.serving.count)⟩
  have hmem : s.request ∈ c.server := by
    refine h.serving.unanswered k s hs fun v hv ↦ ?_
    rw [hk] at hv
    cases hv
    rfl
  have hstream := (h.serving.own k s _ hs hk).1
  simp only at hstream
  have hback : Int16.ofInt stream = Int16.ofNat s.stream := by
    rw [hstream]
    exact Int16.ofInt_toInt _
  have hstep : c.step (.answer s.request (raises response)) = some { c with
      server := c.server.erase s.request
      wire := c.wire ++ [Connection.answerFrame s.request (raises response)] } := by
    simp only [Connection.step, if_pos hmem]
  have hext : Extends order w.served order
      (w.served.set k ⟨stream, request, some response⟩) := extends_answer hk rfl
  have hanswered : Answered lz4 order (w.served.set k ⟨stream, request, some response⟩)
      (Connection.answerFrame s.request (raises response)) ⟨Int16.ofInt stream, response⟩ :=
    ⟨k, s, ⟨stream, request, some response⟩, hs, List.getElem?_set_self hlt, rfl, hback, rfl, hok⟩
  refine ⟨order, { c with
      server := c.server.erase s.request
      wire := c.wire ++ [Connection.answerFrame s.request (raises response)] }, hext,
    ⟨?_, ?_, h.serving.answer h.sending hk hs, ?_⟩, .step hstep .answer
    (fun _ ↦ timely trivial trivial (by simp) (by simp))⟩
  · exact h.client.stay hext rfl rfl (fun _ ↦ rfl) h.client.pool h.client.broken
      (h.client.queues_mono hext) (h.client.receiver.mono (fun _ _ hd ↦ hd.mono hext))
  · exact ⟨h.sending.idle, h.sending.locking, h.sending.holder, h.sending.out, h.sending.front,
      h.sending.unfinished, h.sending.sent, h.sending.nodup, h.sending.carried, h.sending.own⟩
  · obtain ⟨replies, hbytes, hall⟩ := h.incoming
    refine ⟨replies ++ [⟨Int16.ofInt stream, response⟩], ?_, ?_⟩
    · rw [List.flatMap_append, List.flatMap_singleton, ← hbytes]
    · exact List.rel_append (hall.imp (fun _ _ hd ↦ hd.mono hext)) (.cons hanswered .nil)

private theorem readFrame_front (h : Implements lz4 order w c)
    (ha : frameArrived w.incoming = true) : ∃ f r fs rs, c.wire = f :: fs ∧
      Answered lz4 order w.served f r ∧ List.Forall₂ (Answered lz4 order w.served) fs rs ∧
      readFrame (lz4.map Lz4Api.compressor) memory w.incoming =
        .ok (r.received lz4, rs.flatMap (Reply.encode lz4)) := by
  obtain ⟨replies, hbytes, hall⟩ := h.incoming
  cases replies with
  | nil =>
    rw [hbytes] at ha
    cases ha
  | cons r rs =>
    generalize c.wire = wire at hall
    cases hall with
    | @cons f _ fs _ hf hfs =>
      obtain ⟨-, -, -, -, -, -, -, -, hcarried⟩ := id hf
      refine ⟨f, r, fs, rs, rfl, hf, hfs, ?_⟩
      rw [hbytes, List.flatMap_cons]
      exact readFrame_complete (r.completeFrame hcarried) _

private theorem Wire.Owes.congr {i : Nat} {buffer : List UInt8} (h : w.Owes lz4 i buffer)
    (hcalls : w'.calls = w.calls) : w'.Owes lz4 i buffer := by
  obtain ⟨m, id, stage, hi, hrest⟩ := h
  exact ⟨m, id, stage, hcalls ▸ hi, hrest⟩

private theorem advances_receiver (h : Implements lz4 order w c) {e : WireEvent} {e' : Event}
    (hstep : c.step e' = some c') (hstands : Stands e e')
    (htimely : w.InTime e → c.Timely e') (hcalls : w'.calls = w.calls)
    (hcalls' : c'.calls = c.calls) (hsender : w'.sender = w.sender)
    (hserved : w'.served = w.served) (hread : w'.read = w.read) (hserver : c'.server = c.server)
    (hpool : c'.streamPool = c.streamPool) (hpool' : w'.streamPool = w.streamPool)
    (hbroken : c'.broken = w'.broken)
    (hqueues : ∀ id, Option.Rel (Delivers lz4 order w.served) (c'.queues id) (w'.queues id))
    (hreceiver : ReceiverMatches (Delivers lz4 order w.served) w'.receiver c'.receiver)
    (hincoming : Incoming lz4 order w' c'.wire) : Advances lz4 order w e c w' := by
  have hext : Extends order w.served order w'.served := hserved ▸ extends_refl
  refine ⟨order, c', hext, ⟨?_, ?_, ?_, hincoming⟩, .step hstep hstands htimely⟩
  · refine h.client.stay hext hcalls hcalls' (fun j ↦ by rw [hsender]) ?_ hbroken ?_ ?_
    · rw [hpool, hpool']
      exact h.client.pool
    · rw [hserved]
      exact hqueues
    · rw [hserved]
      exact hreceiver
  · refine ⟨?_, ?_, ?_, hsender ▸ h.sending.out, hsender ▸ h.sending.front,
      hsender ▸ h.sending.unfinished, hsender ▸ h.sending.sent, h.sending.nodup,
      h.sending.carried, ?_⟩
    · rw [hcalls, hsender]
      exact h.sending.idle
    · intro i buffer hi
      exact (h.sending.locking i buffer (hsender ▸ hi)).congr hcalls
    · intro i g hg
      obtain ⟨hsending, howes, hrest⟩ := h.sending.holder i g (hsender ▸ hg)
      exact ⟨hsender ▸ hsending, howes.congr hcalls, hsender ▸ hrest⟩
    · rw [hcalls]
      exact h.sending.own
  · rw [hserver]
    exact h.serving.congr hserved hread

/-- `ReadFrame` returns, and what it does with the message goes alike at both levels. -/
theorem advances_readFrame (h : Implements lz4 order w c)
    (ht : Wire.Transition lz4 memory w .readFrame w') : Advances lz4 order w .readFrame c w' := by
  have htimely : w.InTime .readFrame → c.Timely .readFrame :=
    fun _ ↦ timely trivial trivial (by simp) (by simp)
  cases ht with
  | unreadable hr ha hf =>
    obtain ⟨f, r, fs, rs, -, -, -, hok⟩ := readFrame_front h ha
    rw [hok] at hf
    cases hf
  | @skip r rest hr ha hf hneg =>
    obtain ⟨f, reply, fs, rs, hwire, hanswered, hall, hok⟩ := readFrame_front h ha
    rw [hok] at hf
    cases hf
    have hd : Delivers lz4 order w.served f (reply.received lz4) := ⟨reply, hanswered, rfl⟩
    have hreceiver : c.receiver = .reading := (hr ▸ h.client.receiver).of_reading
    have hstep : c.step .readFrame = some { c with wire := fs } := by
      simp only [Connection.step, hreceiver, hwire]
      rw [if_pos (hd.stream ▸ hneg)]
    exact advances_receiver h hstep .readFrame htimely rfl rfl rfl rfl rfl rfl rfl rfl
      h.client.broken h.client.queues h.client.receiver ⟨rs, rfl, hall⟩
  | @outOfRange r rest hr ha hf h0 hge =>
    obtain ⟨f, reply, fs, rs, hwire, hanswered, hall, hok⟩ := readFrame_front h ha
    rw [hok] at hf
    cases hf
    have hd : Delivers lz4 order w.served f (reply.received lz4) := ⟨reply, hanswered, rfl⟩
    have hreceiver : c.receiver = .reading := (hr ▸ h.client.receiver).of_reading
    have hstep : c.step .readFrame =
        some { c with wire := fs, receiver := .exited .streamOutOfRange } := by
      simp only [Connection.step, hreceiver, hwire]
      rw [if_neg (hd.stream ▸ Int.not_lt.mpr h0), if_pos (hd.index ▸ hge)]
    exact advances_receiver h hstep .readFrame htimely rfl rfl rfl rfl rfl rfl rfl rfl
      h.client.broken h.client.queues .exited ⟨rs, rfl, hall⟩
  | @readFrame r rest hr ha hf h0 hlt =>
    obtain ⟨f, reply, fs, rs, hwire, hanswered, hall, hok⟩ := readFrame_front h ha
    rw [hok] at hf
    cases hf
    have hd : Delivers lz4 order w.served f (reply.received lz4) := ⟨reply, hanswered, rfl⟩
    have hreceiver : c.receiver = .reading := (hr ▸ h.client.receiver).of_reading
    have hstep : c.step .readFrame = some { c with wire := fs, receiver := .pushing f } := by
      simp only [Connection.step, hreceiver, hwire]
      rw [if_neg (hd.stream ▸ Int.not_lt.mpr h0), if_neg (hd.index ▸ Nat.not_le.mpr hlt)]
    exact advances_receiver h hstep .readFrame htimely rfl rfl rfl rfl rfl rfl rfl rfl
      h.client.broken h.client.queues (.pushing hd) ⟨rs, rfl, hall⟩

private theorem advances_readFails (h : Implements lz4 order w c) (hr : w.receiver = .reading) :
    Advances lz4 order w .readFails c
      { w with receiver := .exited .readError, broken := true } := by
  have hreceiver : c.receiver = .reading := (hr ▸ h.client.receiver).of_reading
  have hstep : c.step .readFails =
      some { c with receiver := .exited .readError, broken := true } := by
    simp only [Connection.step, hreceiver]
  exact advances_receiver h hstep .readFails (fun _ ↦ timely trivial trivial (by simp) (by simp))
    rfl rfl rfl rfl rfl rfl rfl rfl rfl h.client.queues .exited (h.incoming.congr rfl rfl)

private theorem advances_push (h : Implements lz4 order w c) {r : Received}
    (hr : w.receiver = .pushing r) (hq : w.queues r.index = none) :
    Advances lz4 order w .push c { w with
      queues := Function.update w.queues r.index (some r), receiver := .reading } := by
  obtain ⟨f, hreceiver, hd⟩ := (hr ▸ h.client.receiver).of_pushing
  have hempty : c.queues f.index = none :=
    hd.index ▸ queue_of_none (hq ▸ h.client.queues r.index)
  have hstep : c.step .push = some { c with
      queues := Function.update c.queues f.index (some f), receiver := .reading } := by
    simp only [Connection.step, hreceiver, hempty]
  refine advances_receiver h hstep .push (fun _ ↦ timely trivial trivial (by simp) (by simp))
    rfl rfl rfl rfl rfl rfl rfl rfl h.client.broken (fun id ↦ ?_) .reading
    (h.incoming.congr rfl rfl)
  simp only [← hd.index]
  by_cases hid : id = r.index
  · subst hid
    simp only [Function.update_self]
    exact .some hd
  · simp only [Function.update_of_ne hid]
    exact h.client.queues id

private theorem givesUpFull (h : Implements lz4 order w c) {e' : Event}
    (hfull : ∀ r ∈ w.receiver.received, w.queues r.index ≠ none) : c.PushGivesUpFull e' := by
  intro _ f hf
  obtain ⟨r, hr, hd⟩ : ∃ r ∈ w.receiver.received, Delivers lz4 order w.served f r := by
    have hall := h.client.receiver.received
    generalize c.receiver.frames = fs at hf hall
    generalize w.receiver.received = rs at hall
    induction hall with
    | nil => cases hf
    | @cons f' r' fs rs hd hrest ih =>
      rcases List.mem_cons.mp hf with rfl | hf
      · exact ⟨r', List.mem_cons_self, hd⟩
      · obtain ⟨r, hr, hd'⟩ := ih hf
        exact ⟨r, List.mem_cons_of_mem _ hr, hd'⟩
  intro hnone
  have hq := h.client.queues f.index
  rw [hnone, ← hd.index] at hq
  exact hfull r hr (by
    generalize w.queues r.index = q at hq
    cases hq
    rfl)

private theorem advances_pushFails (h : Implements lz4 order w c) {r : Received}
    (hr : w.receiver = .pushing r) :
    Advances lz4 order w .pushFails c { w with receiver := .exited .pushFailed } := by
  obtain ⟨f, hreceiver, -⟩ := (hr ▸ h.client.receiver).of_pushing
  have hstep : c.step .pushFails = some { c with receiver := .exited .pushFailed } := by
    simp only [Connection.step, hreceiver]
  exact advances_receiver h hstep .pushFails
    (fun ht ↦ ⟨trivial, trivial, givesUpFull h ht⟩)
    rfl rfl rfl rfl rfl rfl rfl rfl h.client.broken h.client.queues .exited
    (h.incoming.congr rfl rfl)

private theorem advances_cancel (h : Implements lz4 order w c)
    (hr : ∀ reason, w.receiver ≠ .exited reason) :
    Advances lz4 order w .cancel c { w with receiver := .exited .cancelled } := by
  have hreceiver : ∀ reason, c.receiver ≠ .exited reason :=
    fun reason he ↦ hr reason ((h.client.receiver.exited_iff reason).mp he)
  have hstep : c.step .cancel = some { c with receiver := .exited .cancelled } := by
    cases hc : c.receiver with
    | reading => simp only [Connection.step, hc]
    | pushing f => simp only [Connection.step, hc]
    | exited reason => exact absurd hc (hreceiver reason)
  exact advances_receiver h hstep .cancel
    (fun ht ↦ ⟨trivial, trivial, givesUpFull h ht⟩)
    rfl rfl rfl rfl rfl rfl rfl rfl h.client.broken h.client.queues .exited
    (h.incoming.congr rfl rfl)

/-- Every step of the bytes is a step of the connection behind them, or none. -/
theorem Implements.step (h : Implements lz4 order w c) {e : WireEvent} (hok : w.Spoken lz4 e)
    (ht : Wire.Transition lz4 memory w e w') : Advances lz4 order w e c w' := by
  cases id ht with
  | acquire hi hid => exact advances_acquire h hi hid
  | exhausted hi => exact advances_exhausted h hi
  | start hi hs => exact advances_start h hok hi hs
  | lock hs => exact advances_lock h hok hs
  | write hs => exact advances_write h hs
  | finish hs => exact advances_finish h hs
  | stop hs => exact advances_stop h hs
  | pop hi hq => exact advances_pop h hi hq
  | popFails hi => exact advances_popFails h hi
  | waitThrows hi hs => exact advances_waitThrows h hi hs
  | checked hsent hi => exact advances_checked h hsent hi
  | timedOut hsent hi => exact advances_timedOut h hsent hi
  | unwound hsent hi => exact advances_unwound h hsent hi
  | serve hp => exact advances_serve h hp
  | answer hk => exact advances_answer h hok hk
  | unreadable hr ha hf => exact advances_readFrame h ht
  | skip hr ha hf hneg => exact advances_readFrame h ht
  | outOfRange hr ha hf h0 hge => exact advances_readFrame h ht
  | readFrame hr ha hf h0 hlt => exact advances_readFrame h ht
  | readFails hr => exact advances_readFails h hr
  | push hr hq => exact advances_push h hr hq
  | pushFails hr => exact advances_pushFails h hr
  | cancel hr => exact advances_cancel h hr

end CassandraDriver.Detail
