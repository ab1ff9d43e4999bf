import CassandraDriver.Detail.WireSender

/-!
# A connection with its bytes implements one without

Library `Detail`. Every step of a `Wire` is a step of the `Connection` behind it, or changes
nothing there, as long as requests and answers can be laid out and the mutex is taken only
behind whole requests. A request is sent with its last byte, and a read of the server takes
exactly one request off the bytes, so that the server never meets a frame it cannot read.
-/

namespace CassandraDriver.Detail
open CassandraDriver.Lib CassandraDriver.Lib.Decoder CassandraDriver.Protocol

namespace Wire

/-- Requests and answers can be laid out, and the mutex is taken only while no `SendAll` has
stopped part-way. -/
def Spoken (lz4 : Option Lz4Api) (w : Wire) : WireEvent → Prop
  | .start i => ∀ m id stage, w.calls i = .inFlight m id stage → m.Carried lz4
  | .lock i => w.sender.LocksIntact (.lock i)
  | .answer _ response => Reply.Carried lz4 response
  | _ => True

/-- No `Pop` fails, and `Push` is given up only while the queue is full. -/
def InTime (w : Wire) : WireEvent → Prop
  | .popFails _ => False
  | .pushFails => ∀ r ∈ w.receiver.received, w.queues r.index ≠ none
  | .cancel => ∀ r ∈ w.receiver.received, w.queues r.index ≠ none
  | _ => True

end Wire

variable {lz4 : Option Lz4Api} {memory : List UInt8 → Nat → UInt8} {order order' : List Sent}
  {w w' : Wire} {c c' : Connection}

/-- A step that the connection does not see: of a send task before the last byte of its request
is out and after it, and of the server when it reads. -/
def Wire.Quiet (w : Wire) : WireEvent → Prop
  | .start _ | .lock _ | .finish | .serve => True
  | .write n => ∃ i g, w.sender.holder = some (i, g) ∧ g.written + n < g.buffer.length
  | _ => False

/-- The events of the connection that an event of the bytes may stand for. With the last byte
of a request it is sent, and a `SendAll` that gives up before fails to send it. -/
inductive Stands : WireEvent → Event → Prop
  | acquire {i m id} : Stands (.acquire i m id) (.acquire i id)
  | exhausted {i m} : Stands (.exhausted i m) (.exhausted i)
  | write {n i} : Stands (.write n) (.send i)
  | stop {i} : Stands .stop (.sendFails i)
  | pop {i} : Stands (.pop i) (.pop i)
  | popFails {i} : Stands (.popFails i) (.popFails i)
  | waitThrows {i} : Stands (.waitThrows i) (.waitThrows i)
  | leave {i} : Stands (.leave i) (.leave i)
  | answer {k response r} : Stands (.answer k response) (.answer r (raises response))
  | readFrame : Stands .readFrame .readFrame
  | readFails : Stands .readFails .readFails
  | push : Stands .push .push
  | pushFails : Stands .pushFails .pushFails
  | cancel : Stands .cancel .cancel

/-- The server of the bytes only answers. -/
theorem Stands.honest {e : WireEvent} {e' : Event} (h : Stands e e') : Connection.Honest e' := by
  cases h <;> trivial

/-- The step of the connection that a step of the bytes stands for, if any. -/
inductive Matched (w : Wire) (e : WireEvent) (c c' : Connection) : Prop
  | stutter (hquiet : w.Quiet e) (h : c' = c)
  | step {e' : Event} (hstep : c.step e' = some c') (hstands : Stands e e')
      (htimely : w.InTime e → c.Timely e')

private theorem bytes_eq (segments : List Segment) (hfront : ∀ g ∈ segments.dropLast, g.Complete) :
    segments.flatMap Segment.bytes =
        ((segments.filter (fun g ↦ decide g.Complete)).map Segment.buffer).flatten ∨
      ∃ g ∈ segments, ¬ g.Complete ∧ segments.flatMap Segment.bytes =
        ((segments.filter (fun g ↦ decide g.Complete)).map Segment.buffer).flatten ++ g.bytes := by
  induction segments with
  | nil => exact .inl rfl
  | cons g gs ih =>
    by_cases hg : g.Complete
    · have hbytes : g.bytes = g.buffer := List.take_of_length_le (Nat.le_of_eq hg.symm)
      have hrest : ∀ g' ∈ gs.dropLast, g'.Complete := by
        intro g' hg'
        cases gs with
        | nil => cases hg'
        | cons h t => exact hfront g' (List.mem_cons_of_mem _ hg')
      rw [List.filter_cons_of_pos (by simp [hg]), List.map_cons, List.flatten_cons,
        List.flatMap_cons, hbytes]
      rcases ih hrest with he | ⟨g', hg', hnot, he⟩
      · exact .inl (congrArg (g.buffer ++ ·) he)
      · refine .inr ⟨g', List.mem_cons_of_mem _ hg', hnot, ?_⟩
        rw [he, List.append_assoc]
    · have hlast : gs = [] := by
        cases gs with
        | nil => rfl
        | cons h t => exact absurd (hfront g List.mem_cons_self) hg
      subst hlast
      refine .inr ⟨g, List.mem_cons_self, hg, ?_⟩
      rw [List.filter_cons_of_neg (by simp [hg]), List.flatMap_singleton]
      rfl

/-- The bytes on the socket are the requests that are out, and a part of another at most, in
which a server does not read a request. -/
theorem Sending.bytes (h : Sending lz4 order w) : ∃ tail,
    w.sender.bytes = order.flatMap (Sent.frame lz4) ++ tail ∧
      (V4.requestFrame lz4).run tail = none := by
  rw [Sender.bytes, List.flatMap_def (f := Sent.frame lz4), ← h.out]
  rcases bytes_eq w.sender.segments h.front with he | ⟨g, hg, hnot, he⟩
  · exact ⟨[], by rw [he, List.append_nil], rfl⟩
  · obtain ⟨m, stream, hm, hb, hlt⟩ := h.unfinished g hg hnot
    refine ⟨g.bytes, he, ?_⟩
    rw [Segment.bytes, hb]
    exact RequestMessage.requestFrame_run_part hm stream (hb ▸ hlt)

/-- Behind what the server has read stand the requests it has not read. -/
theorem Sending.bytes_drop (h : Sending lz4 order w) {server : List Request}
    (hs : Serving lz4 order w server) : ∃ tail,
    w.sender.bytes.drop w.read =
        (order.drop w.served.length).flatMap (Sent.frame lz4) ++ tail ∧
      w.sender.bytes.length = w.read + (w.sender.bytes.drop w.read).length ∧
      (V4.requestFrame lz4).run tail = none := by
  obtain ⟨tail, hbytes, hnone⟩ := h.bytes
  have hsplit : w.sender.bytes = (order.take w.served.length).flatMap (Sent.frame lz4) ++
      ((order.drop w.served.length).flatMap (Sent.frame lz4) ++ tail) := by
    rw [hbytes, ← List.append_assoc, ← List.flatMap_append, List.take_append_drop]
  refine ⟨tail, ?_, ?_, hnone⟩
  · rw [hsplit]
    exact List.drop_left' hs.read.symm
  · have hle : w.read ≤ w.sender.bytes.length := by
      rw [hsplit, List.length_append, hs.read]
      omega
    rw [List.length_drop]
    omega

/-- What the server reads is the next request that is out. -/
theorem Serving.serve {server : List Request} (h : Serving lz4 order w server)
    (hsending : Sending lz4 order w) {p : Int × V4.Request} {rest : List UInt8}
    (hp : (V4.requestFrame lz4).run (w.sender.bytes.drop w.read) = some (p, rest)) :
    Serving lz4 order { w with
      read := w.sender.bytes.length - rest.length
      served := w.served ++ [⟨p.1, p.2, none⟩] } server := by
  obtain ⟨tail, hdrop, hlength, hnone⟩ := hsending.bytes_drop h
  cases hnext : order.drop w.served.length with
  | nil =>
    rw [hdrop, hnext, List.flatMap_nil, List.nil_append, hnone] at hp
    cases hp
  | cons s more =>
    have hs : order[w.served.length]? = some s := by
      have hget : (order.drop w.served.length)[0]? = order[w.served.length + 0]? :=
        List.getElem?_drop
      rw [hnext, Nat.add_zero] at hget
      exact hget.symm
    have hlt : w.served.length < order.length := (List.getElem?_eq_some_iff.mp hs).1
    have hm := hsending.carried s (List.mem_of_getElem? hs)
    have hread := RequestMessage.requestFrame_consumes hm (Int16.ofNat s.stream)
      (more.flatMap (Sent.frame lz4) ++ tail)
    rw [hdrop, hnext, List.flatMap_cons, List.append_assoc] at hp
    rw [Sent.frame, hread] at hp
    cases hp
    refine ⟨?_, ?_, ?_, ?_, ?_, h.once⟩
    · rw [List.length_append]
      exact hlt
    · have hcount : w.sender.bytes.length = w.read + ((s.frame lz4).length +
          (more.flatMap (Sent.frame lz4) ++ tail).length) := by
        rw [hlength, hdrop, hnext, List.flatMap_cons, List.append_assoc, List.length_append]
      have htake : ((order.take (w.served.length + 1)).flatMap (Sent.frame lz4)).length =
          w.read + (s.frame lz4).length := by
        rw [List.take_add_one, hs, h.read, List.flatMap_append, List.length_append,
          Option.toList_some, List.flatMap_singleton]
      have hone : ∀ v : Served, (w.served ++ [v]).length = w.served.length + 1 :=
        fun v ↦ by rw [List.length_append, List.length_singleton]
      change w.sender.bytes.length - (more.flatMap (Sent.frame lz4) ++ tail).length =
        ((order.take (w.served ++ [_]).length).flatMap (Sent.frame lz4)).length
      rw [hone, htake]
      omega
    · intro k q v hk hv
      rcases Nat.lt_trichotomy k w.served.length with hkl | rfl | hkl
      · rw [List.getElem?_append_left hkl] at hv
        exact h.own k q v hk hv
      · rw [List.getElem?_concat_length] at hv
        cases hv
        rw [hs] at hk
        cases hk
        exact ⟨rfl, rfl⟩
      · rw [List.getElem?_eq_none (by rw [List.length_append, List.length_singleton]; omega)] at hv
        cases hv
    · intro k q hk hopen
      refine h.unanswered k q hk fun v hv ↦ ?_
      have hkl : k < w.served.length := (List.getElem?_eq_some_iff.mp hv).1
      exact hopen v (by rw [List.getElem?_append_left hkl]; exact hv)
    · intro r hr
      obtain ⟨k, q, hk, hq, hopen⟩ := h.asked r hr
      refine ⟨k, q, hk, hq, fun v hv ↦ ?_⟩
      by_cases hkl : k < w.served.length
      · rw [List.getElem?_append_left hkl] at hv
        exact hopen v hv
      · rw [List.getElem?_append_right (by omega), List.getElem?_singleton] at hv
        split at hv
        · cases hv
          rfl
        · cases hv

/-- What has been read stays, and answers stay. -/
theorem extends_serve (v : Served) : Extends order w.served order (w.served ++ [v]) where
  order _ _ h := h
  answers k v' response hv ha := by
    have hk := (List.getElem?_eq_some_iff.mp hv).1
    exact ⟨v', by rw [List.getElem?_append_left hk]; exact hv, ha⟩

/-- An answer is an extension. -/
theorem extends_answer {k : Nat} {v v' : Served} (hk : w.served[k]? = some v)
    (hnone : v.answer = none) : Extends order w.served order (w.served.set k v') where
  order _ _ h := h
  answers j u response hj ha := by
    have hne : k ≠ j := by
      rintro rfl
      rw [hk] at hj
      cases hj
      rw [hnone] at ha
      cases ha
    exact ⟨u, by rw [List.getElem?_set_ne hne]; exact hj, ha⟩

/-- So is another request. -/
theorem extends_sent (s : Sent) : Extends order w.served (order ++ [s]) w.served where
  order k q h := by
    have hk := (List.getElem?_eq_some_iff.mp h).1
    rw [List.getElem?_append_left hk]
    exact h
  answers _ v _ hv ha := ⟨v, hv, ha⟩

/-- So is nothing at all. -/
theorem extends_refl : Extends order w.served order w.served := ⟨fun _ _ h ↦ h,
  fun _ v _ hv ha ↦ ⟨v, hv, ha⟩⟩

/-- Two places of the order are requests of different calls. -/
theorem Sending.call_ne (h : Sending lz4 order w) {j k : Nat} {q s : Sent}
    (hj : order[j]? = some q) (hk : order[k]? = some s) (hne : j ≠ k) : q.call ≠ s.call := by
  intro he
  have hmap : ∀ (i : Nat) (s : Sent), order[i]? = some s →
      (order.map Sent.call)[i]? = some s.call := by
    intro i s hi
    rw [List.getElem?_map, hi]
    rfl
  have hlt : j < (order.map Sent.call).length := by
    rw [List.length_map]
    exact (List.getElem?_eq_some_iff.mp hj).1
  exact hne ((List.getElem?_inj hlt h.nodup).mp ((hmap j q hj).trans (he ▸ (hmap k s hk).symm)))

/-- The server answers a request that is open. -/
theorem Serving.answer {server : List Request} (h : Serving lz4 order w server)
    (hsending : Sending lz4 order w) {k : Nat} {stream : Int} {request : V4.Request}
    {response : V4.Response} {s : Sent} {incoming : List UInt8}
    (hk : w.served[k]? = some ⟨stream, request, none⟩) (hs : order[k]? = some s) :
    Serving lz4 order { w with
      served := w.served.set k ⟨stream, request, some response⟩
      incoming := incoming } (server.erase s.request) := by
  have hlt : k < w.served.length := (List.getElem?_eq_some_iff.mp hk).1
  have hlength : (w.served.set k ⟨stream, request, some response⟩).length = w.served.length :=
    List.length_set
  refine ⟨hlength ▸ h.count, ?_, ?_, ?_, ?_, h.once.erase _⟩
  · change w.read = ((order.take (w.served.set k _).length).flatMap _).length
    rw [hlength]
    exact h.read
  · intro j q v hj hv
    by_cases hjk : k = j
    · subst hjk
      rw [List.getElem?_set_self hlt] at hv
      cases hv
      exact h.own k q ⟨stream, request, none⟩ hj hk
    · rw [List.getElem?_set_ne hjk] at hv
      exact h.own j q v hj hv
  · intro j q hj hopen
    have hjk : k ≠ j := by
      rintro rfl
      have hanswer := hopen _ (List.getElem?_set_self hlt)
      cases hanswer
    have hmem := h.unanswered j q hj fun v hv ↦ hopen v (by
      rw [List.getElem?_set_ne hjk]
      exact hv)
    have hne : q.request ≠ s.request :=
      fun he ↦ hsending.call_ne hj hs (Ne.symm hjk) (congrArg Request.call he)
    exact (List.mem_erase_of_ne hne).mpr hmem
  · intro r hr
    obtain ⟨hne, hmem⟩ := h.once.mem_erase_iff.mp hr
    obtain ⟨j, q, hj, rfl, hopen⟩ := h.asked r hmem
    have hjk : k ≠ j := by
      rintro rfl
      rw [hs] at hj
      cases hj
      exact hne rfl
    refine ⟨j, q, hj, rfl, fun v hv ↦ hopen v ?_⟩
    rwa [List.getElem?_set_ne hjk] at hv

/-- One call moves on. -/
theorem Client.move (h : Client lz4 order w c) {i : Nat} {p : WirePhase} {p' : Phase}
    (hext : Extends order w.served order' w'.served)
    (hcalls : w'.calls = Function.update w.calls i p)
    (hcalls' : c'.calls = Function.update c.calls i p')
    (hsent : ∀ j, j ≠ i → w'.sender.sent j = w.sender.sent j)
    (hp : PhaseMatches (Delivers lz4 order' w'.served) (w'.sender.sent i) p p')
    (hpool : c'.streamPool = w'.streamPool) (hbroken : c'.broken = w'.broken)
    (hqueues : ∀ id, Option.Rel (Delivers lz4 order' w'.served) (c'.queues id) (w'.queues id))
    (hreceiver : ReceiverMatches (Delivers lz4 order' w'.served) w'.receiver c'.receiver) :
    Client lz4 order' w' c' where
  pool := hpool
  broken := hbroken
  calls j := by
    rw [hcalls, hcalls']
    by_cases hj : j = i
    · subst hj
      rw [Function.update_self, Function.update_self]
      exact hp
    · rw [Function.update_of_ne hj, Function.update_of_ne hj, hsent j hj]
      exact (h.calls j).mono (fun _ _ hd ↦ hd.mono hext)
  queues := hqueues
  receiver := hreceiver

/-- The queues go on matching. -/
theorem Client.queues_mono (h : Client lz4 order w c)
    (hext : Extends order w.served order' w'.served) (id : Nat) :
    Option.Rel (Delivers lz4 order' w'.served) (c.queues id) (w.queues id) :=
  optionRel_mono (fun _ _ hd ↦ hd.mono hext) (h.queues id)

/-- No call moves, and what the calls see stays or grows. -/
theorem Client.stay (h : Client lz4 order w c) (hext : Extends order w.served order' w'.served)
    (hcalls : w'.calls = w.calls) (hcalls' : c'.calls = c.calls)
    (hsent : ∀ j, w'.sender.sent j = w.sender.sent j) (hpool : c'.streamPool = w'.streamPool)
    (hbroken : c'.broken = w'.broken)
    (hqueues : ∀ id, Option.Rel (Delivers lz4 order' w'.served) (c'.queues id) (w'.queues id))
    (hreceiver : ReceiverMatches (Delivers lz4 order' w'.served) w'.receiver c'.receiver) :
    Client lz4 order' w' c' where
  pool := hpool
  broken := hbroken
  calls j := by
    rw [hcalls, hcalls', hsent]
    exact (h.calls j).mono (fun _ _ hd ↦ hd.mono hext)
  queues := hqueues
  receiver := hreceiver

/-- A call moves on; its send task does not. -/
theorem Sending.setCall (h : Sending lz4 order w) {i : Nat} {p : WirePhase}
    (hcalls : w'.calls = Function.update w.calls i p) (hsender : w'.sender = w.sender)
    (hp : p ≠ .idle)
    (hi : w.sender.calls i = .idle ∨
      (w.sender.calls i = .over ∧ p.message = (w.calls i).message) ∨
      ∃ m id stage stage', w.calls i = .inFlight m id stage ∧ p = .inFlight m id stage') :
    Sending lz4 order w' := by
  have howes : ∀ j buffer, w.sender.calls j ≠ .idle → w.sender.calls j ≠ .over →
      w.Owes lz4 j buffer → w'.Owes lz4 j buffer := by
    rintro j buffer hidle hover ⟨m, id, stage, hj, hrest⟩
    by_cases hji : j = i
    · subst hji
      rcases hi with hi | ⟨hi, -⟩ | ⟨m', id', stage₁, stage', hphase, rfl⟩
      · exact absurd hi hidle
      · exact absurd hi hover
      · rw [hphase] at hj
        cases hj
        exact ⟨m, id, stage', by rw [hcalls, Function.update_self], hrest⟩
    · exact ⟨m, id, stage, by rw [hcalls, Function.update_of_ne hji]; exact hj, hrest⟩
  refine ⟨?_, ?_, ?_, hsender ▸ h.out, hsender ▸ h.front, hsender ▸ h.unfinished,
    hsender ▸ h.sent, h.nodup, h.carried, ?_⟩
  · intro j hj
    rw [hsender]
    rw [hcalls] at hj
    by_cases hji : j = i
    · subst hji
      rw [Function.update_self] at hj
      exact absurd hj hp
    · rw [Function.update_of_ne hji] at hj
      exact h.idle j hj
  · intro j buffer hj
    rw [hsender] at hj
    exact howes j buffer (by rw [hj]; simp) (by rw [hj]; simp) (h.locking j buffer hj)
  · intro j g hg
    rw [hsender] at hg ⊢
    obtain ⟨hsending, ho, hrest⟩ := h.holder j g hg
    exact ⟨hsending, howes j _ (by rw [hsending]; simp) (by rw [hsending]; simp) ho, hrest⟩
  · intro q hq
    have hown := h.own q hq
    by_cases hqi : q.call = i
    · rw [hcalls, hqi, Function.update_self]
      rw [hqi] at hown
      rcases hi with hi | ⟨-, hm⟩ | ⟨m, id, stage, stage', hphase, rfl⟩
      · have hnot := h.sent_idle hi
        rw [← hqi, h.sent q hq] at hnot
        cases hnot
      · exact hm.trans hown
      · rw [hphase] at hown
        exact hown
    · rw [hcalls, Function.update_of_ne hqi]
      exact hown

end CassandraDriver.Detail
