import CassandraDriver.Detail.Handshake
import CassandraDriver.Detail.RequestStream

/-!
# Both ends of the handshake

Library `Detail`. What a server of the native protocol does with the bytes of a handshake, and
that it and `CqlHandshake`, `src/detail/connection_impl.cpp:221`, then agree on the compression
of the connection: neither compresses what the other takes for plain. A server that requires
authentication answers AUTHENTICATE in place of READY, on which the driver throws.
-/

namespace CassandraDriver.Detail
open CassandraDriver.Lib CassandraDriver.Lib.Decoder CassandraDriver.Io CassandraDriver.Protocol

/-- The responses of a server, and the compression protocol it uses behind them. -/
structure Acceptance where
  replies : List Reply
  protocol : Option (List UInt8)

/-- How a server accepts STARTUP: with READY, or with AUTHENTICATE and the class of its
authenticator where it requires authentication. -/
def welcome : Option (List UInt8) → V4.Response
  | none => .ready
  | some authenticator => .authenticate authenticator

/-- What a server answers to STARTUP: it uses the protocol that the client names, if that is one
that it has offered. -/
def acceptStartup (authenticator : Option (List UInt8)) (options : Ty.stringMultiMap.Val)
    (map : List (List UInt8 × List UInt8)) : V4.Response × Option (List UInt8) :=
  match map.lookup (utf8 "COMPRESSION") with
  | none => (welcome authenticator, none)
  | some protocol =>
    if ((optionAt options (utf8 "COMPRESSION")).getD []).contains protocol then
      (welcome authenticator, some protocol)
    else (.error 0x000A (utf8 "unsupported compression") [], none)

/-- What a server makes of the bytes of a handshake: OPTIONS, which it answers with `options`,
and then STARTUP. -/
def acceptHandshake (authenticator : Option (List UInt8)) (options : Ty.stringMultiMap.Val) :
    Decoder Acceptance := do
  let (stream, request) ← V4.requestFrame none
  match request with
  | .options =>
    let (stream', request') ← V4.requestFrame none
    match request' with
    | .startup map =>
      let answer := acceptStartup authenticator options map
      return ⟨[⟨Int16.ofInt stream, .supported options⟩, ⟨Int16.ofInt stream', answer.1⟩], answer.2⟩
    | _ => reject
  | _ => reject

variable {memory : List UInt8 → Nat → UInt8} {options : Ty.stringMultiMap.Val}
  {authenticator : Option (List UInt8)}

/-- The reply to a request of the handshake is read, unless `CheckError` throws for it. -/
theorem executeMessage_reply (memory : List UInt8 → Nat → UInt8) {r : Reply}
    (h : Reply.Carried none r.response) (hcheck : checkError r.response.toMessage = .ok ())
    (rest : List UInt8) :
    executeMessage memory none (r.encode none ++ rest) = .ok (r.received none, rest) :=
  executeMessage_eq_ok_iff.mpr ⟨rfl, readFrame_complete (r.completeFrame h) rest, hcheck⟩

/-- How `CqlHandshake` ends on the answer to an accepted STARTUP. -/
def welcomed (authenticator : Option (List UInt8)) : HandshakeEnd :=
  if authenticator.isSome then .threw (.other (.runtimeError "Unexpected message received"))
  else .returned

private theorem welcome_carried (hfits : ∀ a ∈ authenticator, a.length ≤ 65535) :
    Reply.Carried none (welcome authenticator) := by
  cases authenticator with
  | none => exact ⟨trivial, by decide, by simp⟩
  | some a =>
    have hlength : (V4.Response.authenticate a).encode.length = 2 + a.length := by
      simp only [V4.Response.encode, encodeString, LenType.encode, List.length_append,
        length_toBE, LenType.integral, IntegralType.width]
    have ha : a.length ≤ 65535 := hfits a rfl
    exact ⟨ha, by change (V4.Response.authenticate a).encode.length < _; omega, by simp⟩

/-- The client reads READY and returns, or AUTHENTICATE and throws. -/
theorem startUp_welcome (startupMessage : (c : Option (List UInt8)) →
      { m : StartupMessage // m.compressionProtocol = c }) (protocol : Option (List UInt8))
    (hfits : ∀ a ∈ authenticator, a.length ≤ 65535) (rest : List UInt8) :
    startUp memory startupMessage none protocol
        (Reply.encode none ⟨0, welcome authenticator⟩ ++ rest) =
      ⟨[.options, .startup (startupMessage protocol)], protocol.isSome, authenticator.isSome,
        welcomed authenticator⟩ := by
  have hread := executeMessage_reply memory (r := ⟨0, welcome authenticator⟩)
    (welcome_carried hfits) (by cases authenticator <;> rfl) rest
  rw [startUp, hread]
  cases authenticator with
  | none => rfl
  | some a => rfl

/-- The map of a STARTUP. -/
def startupEntries (m : StartupMessage) : List (List UInt8 × List UInt8) := m.options.1

private theorem startupEntries_perm (m : StartupMessage) : (startupEntries m).Perm
    ((utf8 "CQL_VERSION", utf8 "3.0.0") ::
      (m.compressionProtocol.map fun c ↦ (utf8 "COMPRESSION", c)).toList) := m.built

/-- The protocol that a STARTUP names is the one it was made for. -/
theorem lookup_startup (m : StartupMessage) :
    (startupEntries m).lookup (utf8 "COMPRESSION") = m.compressionProtocol := by
  have hunique : ((startupEntries m).map Prod.fst).Nodup := m.options.2
  have hbuilt := startupEntries_perm m
  cases hprotocol : m.compressionProtocol with
  | none =>
    rw [hprotocol] at hbuilt
    rw [List.lookup_eq_none_iff]
    intro entry hentry
    obtain rfl := List.mem_singleton.mp (hbuilt.mem_iff.mp hentry)
    decide
  | some c => exact (lookup_eq_some_iff_mem hunique _ _).mpr (compression_mem_options hprotocol)

/-- A STARTUP of the driver can be laid out. -/
theorem startup_carried {m : StartupMessage}
    (h : m.compressionProtocol = none ∨ m.compressionProtocol = some kLz4) :
    (RequestMessage.startup m).Carried none := by
  have hencode : (RequestMessage.startup m).encodeBody =
      LenType.short.encode (startupEntries m).length ++
        (startupEntries m).flatMap (fun e ↦ encodeString e.1 ++ encodeString e.2) := rfl
  have hcount : (LenType.short.encode (startupEntries m).length).length = 2 := length_toBE ..
  have hbody := ((startupEntries_perm m).flatMap_right fun e ↦
    encodeString e.1 ++ encodeString e.2).length_eq
  refine ⟨fun c hc ↦ ?_, ?_, by simp⟩
  · rcases h with h | h
    · rw [h] at hc
      cases hc
    · rw [h] at hc
      cases hc
      decide
  · rw [hencode, List.length_append, hcount, hbody]
    rcases h with h | h
    · rw [h]
      decide
    · rw [h]
      decide

/-- What the server makes of the bytes of a handshake. -/
theorem acceptHandshake_consumes (authenticator : Option (List UInt8))
    (options : Ty.stringMultiMap.Val) {m : StartupMessage}
    (h : (RequestMessage.startup m).Carried none) :
    Consumes (acceptHandshake authenticator options)
      (RequestMessage.options.wireFrame none 0 ++ (RequestMessage.startup m).wireFrame none 0)
      ⟨[⟨0, .supported options⟩, ⟨0, (acceptStartup authenticator options (startupEntries m)).1⟩],
        (acceptStartup authenticator options (startupEntries m)).2⟩ := by
  have hoptions : RequestMessage.options.Carried none := ⟨trivial, by decide, by simp⟩
  refine (RequestMessage.requestFrame_consumes hoptions 0).bind ?_
  have hstartup := RequestMessage.requestFrame_consumes h 0
  exact hstartup.bind_nil (.pure _)

/-- The server accepts a STARTUP when what it names is offered, and then uses it. -/
theorem acceptHandshake_run (authenticator : Option (List UInt8)) {m : StartupMessage}
    {list : List (List UInt8)} (hlisted : optionAt options (utf8 "COMPRESSION") = some list)
    (hm : m.compressionProtocol = none ∨ m.compressionProtocol = some kLz4)
    (hoffered : ∀ c ∈ m.compressionProtocol, c ∈ list) :
    (acceptHandshake authenticator options).run
      ([RequestMessage.options, .startup m].flatMap fun m ↦ m.wireFrame none 0) =
        some (⟨[⟨0, .supported options⟩, ⟨0, welcome authenticator⟩], m.compressionProtocol⟩,
          []) := by
  have haccept : acceptStartup authenticator options (startupEntries m) =
      (welcome authenticator, m.compressionProtocol) := by
    rw [acceptStartup, lookup_startup]
    cases hprotocol : m.compressionProtocol with
    | none => rfl
    | some c =>
      simp only [hlisted, Option.getD_some]
      rw [if_pos (List.contains_iff_mem.mpr (hoffered c hprotocol))]
  have hconsumes := acceptHandshake_consumes authenticator options (startup_carried hm) []
  rwa [haccept] at hconsumes

/-- The protocol that the driver names in STARTUP. -/
def namedProtocol (useCompression : Bool) (list : List (List UInt8)) : Option (List UInt8) :=
  if useCompression && list.contains kLz4 then some kLz4 else none

section
variable (startupMessage : (c : Option (List UInt8)) →
  { m : StartupMessage // m.compressionProtocol = c })

/-- The driver on the answers of a server that offers some compression. -/
theorem cqlHandshake_replies (useCompression : Bool)
    (hcarried : Reply.Carried none (.supported options))
    (hfits : ∀ a ∈ authenticator, a.length ≤ 65535) {list : List (List UInt8)}
    (hlisted : optionAt options (utf8 "COMPRESSION") = some list) (rest : List UInt8) :
    cqlHandshake memory startupMessage none none useCompression
        ([⟨0, .supported options⟩, ⟨0, welcome authenticator⟩].flatMap (Reply.encode none) ++
          rest) =
      ⟨[.options, .startup (startupMessage (namedProtocol useCompression list))],
        (namedProtocol useCompression list).isSome, authenticator.isSome,
        welcomed authenticator⟩ := by
  have hreply := executeMessage_reply memory (r := ⟨0, .supported options⟩) hcarried rfl
    (Reply.encode none ⟨0, welcome authenticator⟩ ++ rest)
  rw [List.flatMap_cons, List.flatMap_singleton, List.append_assoc, cqlHandshake, hreply]
  simp only [Reply.received, V4.Response.toMessage, hlisted]
  by_cases huse : useCompression = true ∧ kLz4 ∈ list
  · have hnamed : namedProtocol useCompression list = some kLz4 := by
      simp [namedProtocol, huse]
    rw [if_pos huse, hnamed]
    exact startUp_welcome startupMessage (some kLz4) hfits rest
  · have hnamed : namedProtocol useCompression list = none := by
      simpa [namedProtocol] using huse
    rw [if_neg huse, hnamed]
    exact startUp_welcome startupMessage none hfits rest

/-- A server whose SUPPORTED has a list of compressions and that accepts STARTUP, and the driver:
what the driver has read are the server's answers to what it has sent, and it sets its compressor
exactly when the server compresses from then on, which is when compression was asked for and lz4
is in the list. The driver returns, unless the server requires authentication: then it marks the
connection broken and throws. -/
theorem cqlHandshake_agrees (useCompression : Bool)
    (hcarried : Reply.Carried none (.supported options))
    (hfits : ∀ a ∈ authenticator, a.length ≤ 65535) {list : List (List UInt8)}
    (hlisted : optionAt options (utf8 "COMPRESSION") = some list) (rest : List UInt8) :
    ∃ (replies : List Reply) (handshake : Handshake),
      cqlHandshake memory startupMessage none none useCompression
        (replies.flatMap (Reply.encode none) ++ rest) = handshake ∧
      (authenticator = none → handshake.ending = .returned ∧ handshake.broken = false) ∧
      (authenticator ≠ none → handshake.broken = true ∧ handshake.ending =
        .threw (.other (.runtimeError "Unexpected message received"))) ∧
      (handshake.compressor = true ↔ useCompression = true ∧ kLz4 ∈ list) ∧
      (acceptHandshake authenticator options).run
          (handshake.sent.flatMap fun m ↦ m.wireFrame none 0) =
        some (⟨replies, if handshake.compressor then some kLz4 else none⟩, []) := by
  refine ⟨_, _, cqlHandshake_replies startupMessage useCompression hcarried hfits hlisted rest,
    ?_, ?_, ?_, ?_⟩
  · rintro rfl
    exact ⟨rfl, rfl⟩
  · intro hrequired
    obtain ⟨a, rfl⟩ := Option.ne_none_iff_exists'.mp hrequired
    exact ⟨rfl, rfl⟩
  · simp [namedProtocol]
  · have hm := (startupMessage (namedProtocol useCompression list)).2
    have hrun := acceptHandshake_run authenticator hlisted
      (m := startupMessage (namedProtocol useCompression list)) (by
        rw [hm, namedProtocol]
        split
        · exact .inr rfl
        · exact .inl rfl) (by
        rw [hm, namedProtocol]
        split
        · next huse => simpa using (Bool.and_eq_true_iff.mp huse).2
        · simp)
    rw [hm] at hrun
    refine hrun.trans ?_
    rw [namedProtocol]
    split <;> rfl

end

/-- Options with lz4 among other compressions. -/
def lz4Offered : Ty.stringMultiMap.Val :=
  ⟨[(utf8 "COMPRESSION", [utf8 "snappy", kLz4])], by decide⟩

/-- With lz4 on offer both ends compress. -/
theorem cqlHandshake_agrees_lz4Offered : ∃ replies handshake,
    cqlHandshake (fun _ _ ↦ 0) startupInOrder none none true
      (replies.flatMap (Reply.encode none) ++ [132]) = handshake ∧
    handshake.ending = .returned ∧
    (acceptHandshake none lz4Offered).run (handshake.sent.flatMap fun m ↦ m.wireFrame none 0) =
      some (⟨replies, some kLz4⟩, []) := by
  have hcarried : Reply.Carried none (.supported lz4Offered) :=
    ⟨(by decide : Ty.stringMultiMap.Fits lz4Offered), by decide, by simp⟩
  obtain ⟨replies, handshake, hread, hreturned, -, hcompressor, hrun⟩ :=
    @cqlHandshake_agrees (fun _ _ ↦ 0) lz4Offered none startupInOrder true hcarried
      (fun _ h ↦ by cases h) [utf8 "snappy", kLz4] rfl [132]
  rw [hcompressor.mpr ⟨rfl, by decide⟩] at hrun
  exact ⟨replies, handshake, hread, (hreturned rfl).1, hrun⟩

end CassandraDriver.Detail
