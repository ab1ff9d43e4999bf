import CassandraDriver.Detail.Prepare
import CassandraDriver.Detail.ReadFrame
import CassandraDriver.Protocol.RequestMessage

/-!
# The handshake

Library `Detail`. Models `ConnectionImpl::ExecuteMessage` and `CqlHandshake`,
`src/detail/connection_impl.cpp:206–253`, on a connection that was just made and has no
compressor. The peer's bytes are one list, as in `ReadFrame`: the reply to OPTIONS is the
first frame in it and the reply to STARTUP is read from what is left. A cast to another class
than the message's gives a null pointer, and a member call through it is an ending of its own.
-/

namespace CassandraDriver.Detail
open CassandraDriver.Lib CassandraDriver.Io CassandraDriver.Protocol

/-- `ConnectionImpl::ExecuteMessage`, `connection_impl.cpp:206`, behind `SendMessage`: the
message and the bytes left in the stream. `failure` is what `SendAll` or `RecvAll` throws, if
one of them does. No compressor is passed to `ReadFrame`. -/
def executeMessage (memory : List UInt8 → Nat → UInt8) (failure : Option Exception)
    (stream : List UInt8) : Except CallError (Received × List UInt8) :=
  match failure with
  | some e => .error (.other e)
  | none =>
    match readFrame none memory stream with
    | .error e => .error (.other e)
    | .ok (received, rest) => do
      checkError received.message
      return (received, rest)

/-- The entries of a `StringMultiMap`: names with their lists. -/
def optionEntries (options : Ty.stringMultiMap.Val) : List (List UInt8 × List (List UInt8)) :=
  options.1

/-- `StringMultiMap::at`, without the exception. -/
def optionAt (options : Ty.stringMultiMap.Val) (name : List UInt8) : Option (List (List UInt8)) :=
  (optionEntries options).lookup name

/-- How a call of `CqlHandshake` ends. -/
inductive HandshakeEnd
  | returned
  | threw (e : CallError)
  | dereferencedNull
  deriving DecidableEq, Repr

/-- What `CqlHandshake` leaves behind: the requests it sent, whether `_compressor_ptr` is set,
`_broken`, and how it ended. -/
structure Handshake where
  sent : List RequestMessage
  compressor : Bool
  broken : Bool
  ending : HandshakeEnd

/-- The compression protocol that the driver knows. -/
def kLz4 : List UInt8 := utf8 "lz4"

section
variable (memory : List UInt8 → Nat → UInt8)
variable (startupMessage : (c : Option (List UInt8)) →
  { m : StartupMessage // m.compressionProtocol = c })
variable (optionsFailure startupFailure : Option Exception)

/-- `CqlHandshake` from STARTUP on, `connection_impl.cpp:234–252`. The compressor is set once
a reply has passed `CheckError`, whatever its opcode. -/
def startUp (protocol : Option (List UInt8)) (stream : List UInt8) : Handshake :=
  match executeMessage memory startupFailure stream with
  | .error e => ⟨[.options, .startup (startupMessage protocol)], false, false, .threw e⟩
  | .ok (received, _) =>
    if received.header.opcode ≠ Opcode.ready.code then
      ⟨[.options, .startup (startupMessage protocol)], protocol.isSome, true,
        .threw (.other (.runtimeError "Unexpected message received"))⟩
    else ⟨[.options, .startup (startupMessage protocol)], protocol.isSome, false, .returned⟩

/-- `ConnectionImpl::CqlHandshake`, `connection_impl.cpp:221`. -/
def cqlHandshake (useCompression : Bool) (stream : List UInt8) : Handshake :=
  match executeMessage memory optionsFailure stream with
  | .error e => ⟨[.options], false, false, .threw e⟩
  | .ok (received, rest) =>
    match received.message with
    | .support options =>
      match optionAt options (utf8 "COMPRESSION") with
      | none => ⟨[.options], false, false, .threw (.other (.outOfRange "unordered_map::at"))⟩
      | some compressionOptions =>
        if useCompression ∧ kLz4 ∈ compressionOptions then
          startUp memory startupMessage startupFailure (some kLz4) rest
        else startUp memory startupMessage startupFailure none rest
    | _ => ⟨[.options], false, false, .dereferencedNull⟩

end

/-- The bytes begin a response frame with this opcode. -/
def BeginsReply (opcode : Opcode) (stream : List UInt8) : Prop :=
  stream[0]? = some kResponse ∧ stream[4]? = some opcode.code

/-- The COMPRESSION list of a SUPPORTED reply contains lz4. -/
def OffersLz4 (options : Ty.stringMultiMap.Val) : Prop :=
  ∃ list, (utf8 "COMPRESSION", list) ∈ optionEntries options ∧ kLz4 ∈ list

/-- The replies are SUPPORTED with these options, and READY. -/
structure Agreed (memory : List UInt8 → Nat → UInt8) (stream : List UInt8)
    (options : Ty.stringMultiMap.Val) : Prop where
  supported : BeginsReply .supported stream
  parsed : ∃ header rest, readFrame none memory stream = .ok (⟨header, .support options⟩, rest) ∧
    BeginsReply .ready rest

/-- The call ended without a member call through a null pointer; if it returned, the peer agreed,
and the compressor is set exactly when it was asked for and offered, after a STARTUP with it. -/
structure Handshake.Sound (memory : List UInt8 → Nat → UInt8) (useCompression : Bool)
    (stream : List UInt8) (h : Handshake) : Prop where
  defined : h.ending ≠ .dereferencedNull
  agreed : h.ending = .returned → ∃ options, Agreed memory stream options ∧
    (h.compressor = true ↔ useCompression = true ∧ OffersLz4 options)
  named : h.ending = .returned → h.compressor = true → ∃ m : StartupMessage,
    h.sent = [.options, .startup m] ∧ (utf8 "COMPRESSION", kLz4) ∈ m.options.1

/-- A frame that is read as the reply to OPTIONS, is not SUPPORTED, and is no ERROR with a code
that `CheckError` throws for. -/
def StrayReply (memory : List UInt8 → Nat → UInt8) (optionsFailure : Option Exception)
    (stream : List UInt8) : Prop :=
  optionsFailure = none ∧ ∃ received rest, readFrame none memory stream = .ok (received, rest) ∧
    received.header.opcode ≠ Opcode.supported.code ∧
    ∀ code text, received.message = .error code text → code ∉ errorCodes

/-- With one entry for each key, `lookup` finds the entries. -/
theorem lookup_eq_some_iff_mem {α β : Type} [BEq α] [LawfulBEq α]
    {entries : List (α × β)} (h : (entries.map Prod.fst).Nodup) (key : α) (value : β) :
    entries.lookup key = some value ↔ (key, value) ∈ entries := by
  rw [List.lookup_eq_some_iff]
  constructor
  · rintro ⟨before, after, rfl, -⟩
    exact List.mem_append_right _ List.mem_cons_self
  · intro hmem
    obtain ⟨before, after, rfl⟩ := List.append_of_mem hmem
    refine ⟨before, after, rfl, fun entry hentry ↦ bne_iff_ne.mpr (Ne.symm ?_)⟩
    rw [List.map_append, List.map_cons] at h
    exact (List.nodup_append.mp h).2.2 _ (List.mem_map_of_mem hentry) _ List.mem_cons_self

/-- The names of the options are unique, so the list found under one is the list it has. -/
theorem optionAt_eq_some_iff (options : Ty.stringMultiMap.Val) (name : List UInt8)
    (list : List (List UInt8)) :
    optionAt options name = some list ↔ (name, list) ∈ optionEntries options :=
  have hunique : ((optionEntries options).map Prod.fst).Nodup := options.2
  lookup_eq_some_iff_mem hunique name list

/-- lz4 is offered when it is in the list that `at` returns. -/
theorem offersLz4_iff {options : Ty.stringMultiMap.Val} {list : List (List UInt8)}
    (h : optionAt options (utf8 "COMPRESSION") = some list) :
    OffersLz4 options ↔ kLz4 ∈ list := by
  constructor
  · rintro ⟨list', hmem, hlz4⟩
    rw [(optionAt_eq_some_iff options _ list').mpr hmem] at h
    cases h
    exact hlz4
  · intro hlz4
    exact ⟨list, (optionAt_eq_some_iff options _ list).mp h, hlz4⟩

private theorem checkError_eq_ok_iff (message : ResponseMessage) :
    checkError message = .ok () ↔
      ∀ code text, message = .error code text → code ∉ errorCodes := by
  cases message with
  | error code text =>
    simp only [checkError]
    split
    · next hlisted => simpa using hlisted
    · next hlisted => simpa using hlisted
  | ready => simp [checkError]
  | authentificate challenge => simp [checkError]
  | support options => simp [checkError]
  | result kind payload => simp [checkError]

section
variable {memory : List UInt8 → Nat → UInt8}

/-- An exchange succeeds with the frame that was read, if `CheckError` does not throw for it. -/
theorem executeMessage_eq_ok_iff {failure : Option Exception} {stream rest : List UInt8}
    {received : Received} :
    executeMessage memory failure stream = .ok (received, rest) ↔ failure = none ∧
      readFrame none memory stream = .ok (received, rest) ∧
      checkError received.message = .ok () := by
  cases failure with
  | some e => simp [executeMessage]
  | none =>
    simp only [executeMessage, true_and]
    cases hread : readFrame none memory stream with
    | error e => simp
    | ok read =>
      obtain ⟨received', rest'⟩ := read
      simp only [Except.ok.injEq, Prod.mk.injEq]
      cases hcheck : checkError received'.message with
      | error e =>
        constructor
        · intro h
          cases h
        · rintro ⟨⟨rfl, rfl⟩, hok⟩
          rw [hcheck] at hok
          cases hok
      | ok u =>
        constructor
        · intro h
          cases h
          exact ⟨⟨rfl, rfl⟩, hcheck⟩
        · rintro ⟨⟨rfl, rfl⟩, -⟩
          rfl

/-- The header of a frame that was read is a response's, with the opcode of the message. -/
theorem readFrame_header {stream rest : List UInt8} {received : Received}
    (h : readFrame none memory stream = .ok (received, rest)) :
    received.header.version = kResponse ∧
      received.header.opcode = (opcodeOf (messageClass received.message)).code := by
  obtain ⟨-, -, hbody⟩ := readFrame_eq_ok h
  obtain ⟨cls, hcls, -, -, hparse, -⟩ := readBody_eq_ok hbody
  rw [messageClass_of_doParseBody hparse]
  exact getResponseMessageFromHeader_eq_ok hcls

/-- The opcode of a frame that was read is the one received, unless it is ERROR's, which a cut
header has as well. -/
theorem readFrame_beginsReply {stream rest : List UInt8} {received : Received} {opcode : Opcode}
    (h : readFrame none memory stream = .ok (received, rest))
    (hop : received.header.opcode = opcode.code) (hne : opcode.code ≠ 0) :
    BeginsReply opcode stream := by
  obtain ⟨-, hencode, -⟩ := readFrame_eq_ok h
  obtain ⟨hversion, -⟩ := readFrame_header h
  have hfirst := received.header.encode_version
  have hfifth := received.header.encode_opcode
  rw [hencode, hversion] at hfirst
  rw [hencode, hop] at hfifth
  exact ⟨getElem?_of_headerBuffer hfirst (by decide), getElem?_of_headerBuffer hfifth hne⟩

/-- The frame is SUPPORTED when the cast to `SupportMessage` succeeds, and only then. -/
theorem readFrame_supported_iff {stream rest : List UInt8} {received : Received}
    (h : readFrame none memory stream = .ok (received, rest)) :
    received.header.opcode = Opcode.supported.code ↔
      ∃ options, received.message = .support options := by
  rw [(readFrame_header h).2]
  cases received.message with
  | support options => exact ⟨fun _ ↦ ⟨options, rfl⟩, fun _ ↦ rfl⟩
  | error code text => simp [messageClass, opcodeOf, Opcode.code]
  | ready => simp [messageClass, opcodeOf, Opcode.code]
  | authentificate challenge => simp [messageClass, opcodeOf, Opcode.code]
  | result kind payload => simp [messageClass, opcodeOf, Opcode.code]

end

section
variable (memory : List UInt8 → Nat → UInt8)
variable (startupMessage : (c : Option (List UInt8)) →
  { m : StartupMessage // m.compressionProtocol = c })
variable (optionsFailure startupFailure : Option Exception)

/-- The map of a STARTUP names the protocol it was made for. -/
theorem compression_mem_options {m : StartupMessage} {c : List UInt8}
    (h : m.compressionProtocol = some c) : (utf8 "COMPRESSION", c) ∈ m.options.1 := by
  refine m.built.mem_iff.mpr ?_
  rw [h]
  exact List.mem_cons_of_mem _ List.mem_cons_self

/-- The second exchange returns on READY only. -/
theorem startUp_cases (protocol : Option (List UInt8)) (stream : List UInt8) :
    (∃ e, (startUp memory startupMessage startupFailure protocol stream).ending = .threw e) ∨
    (BeginsReply .ready stream ∧ startUp memory startupMessage startupFailure protocol stream =
      ⟨[.options, .startup (startupMessage protocol)], protocol.isSome, false, .returned⟩) := by
  unfold startUp
  split
  · exact .inl ⟨_, rfl⟩
  · next received rest hexecute =>
    obtain ⟨-, hread, -⟩ := executeMessage_eq_ok_iff.mp hexecute
    split
    · exact .inl ⟨_, rfl⟩
    · next hready =>
      exact .inr ⟨readFrame_beginsReply hread (not_not.mp hready) (by decide), rfl⟩

/-- A stray reply to OPTIONS is taken for SUPPORTED. -/
theorem cqlHandshake_of_stray (useCompression : Bool) {stream : List UInt8}
    (h : StrayReply memory optionsFailure stream) :
    (cqlHandshake memory startupMessage optionsFailure startupFailure useCompression
      stream).ending = .dereferencedNull := by
  obtain ⟨hfailure, received, rest, hread, hop, hcode⟩ := h
  have hexecute := executeMessage_eq_ok_iff.mpr
    ⟨hfailure, hread, (checkError_eq_ok_iff received.message).mpr hcode⟩
  rw [(readFrame_header hread).2] at hop
  obtain ⟨header, message⟩ := received
  cases message with
  | support options => exact absurd rfl hop
  | error code text => simp only [cqlHandshake, hexecute]
  | ready => simp only [cqlHandshake, hexecute]
  | authentificate challenge => simp only [cqlHandshake, hexecute]
  | result kind payload => simp only [cqlHandshake, hexecute]

/-- A call that ends in an exception is sound. -/
theorem Handshake.sound_of_threw {useCompression : Bool} {stream : List UInt8} {h : Handshake}
    {e : CallError} (hthrew : h.ending = .threw e) : h.Sound memory useCompression stream where
  defined := by
    rw [hthrew]
    intro hend
    cases hend
  agreed hend := by
    rw [hthrew] at hend
    cases hend
  named hend := by
    rw [hthrew] at hend
    cases hend

/-- The second exchange, after a SUPPORTED reply that decides the compression. -/
theorem startUp_sound {useCompression : Bool} {protocol : Option (List UInt8)}
    {stream rest : List UInt8} {header : FrameHeader} {options : Ty.stringMultiMap.Val}
    (hread : readFrame none memory stream = .ok (⟨header, .support options⟩, rest))
    (hprotocol : protocol = none ∨ protocol = some kLz4)
    (hasked : protocol.isSome = true ↔ useCompression = true ∧ OffersLz4 options) :
    (startUp memory startupMessage startupFailure protocol rest).Sound memory useCompression
      stream := by
  have hsupported : BeginsReply .supported stream :=
    readFrame_beginsReply hread ((readFrame_supported_iff hread).mpr ⟨options, rfl⟩) (by decide)
  rcases startUp_cases memory startupMessage startupFailure protocol rest with
    ⟨e, hthrew⟩ | ⟨hready, hreturned⟩
  · exact Handshake.sound_of_threw memory hthrew
  · rw [hreturned]
    refine ⟨by simp, fun _ ↦ ⟨options, ⟨hsupported, header, rest, hread, hready⟩, hasked⟩, ?_⟩
    intro _ hsome
    refine ⟨startupMessage protocol, rfl, compression_mem_options ?_⟩
    rw [(startupMessage protocol).2]
    rcases hprotocol with rfl | rfl
    · cases hsome
    · rfl

/-- The handshake does what it is for unless the peer answers OPTIONS with a frame that is
neither SUPPORTED nor an error that `CheckError` knows. -/
theorem cqlHandshake_sound_iff (useCompression : Bool) (stream : List UInt8) :
    (cqlHandshake memory startupMessage optionsFailure startupFailure useCompression
      stream).Sound memory useCompression stream ↔ ¬ StrayReply memory optionsFailure stream := by
  constructor
  · intro hsound hstray
    exact hsound.defined (cqlHandshake_of_stray memory startupMessage optionsFailure
      startupFailure useCompression hstray)
  · intro hstray
    unfold cqlHandshake
    split
    · exact Handshake.sound_of_threw memory rfl
    · next received rest hexecute =>
      obtain ⟨hfailure, hread, hcheck⟩ := executeMessage_eq_ok_iff.mp hexecute
      have hcast : ∃ options, received.message = .support options := by
        by_contra hother
        exact hstray ⟨hfailure, received, rest, hread,
          fun hop ↦ hother ((readFrame_supported_iff hread).mp hop),
          (checkError_eq_ok_iff _).mp hcheck⟩
      obtain ⟨header, message⟩ := received
      obtain ⟨options, rfl⟩ := hcast
      simp only
      split
      · exact Handshake.sound_of_threw memory rfl
      · next list hlist =>
        have hoffers := offersLz4_iff hlist
        split
        · next huse =>
          exact startUp_sound memory startupMessage startupFailure hread (.inr rfl)
            ⟨fun _ ↦ ⟨huse.1, hoffers.mpr huse.2⟩, fun _ ↦ rfl⟩
        · next huse =>
          refine startUp_sound memory startupMessage startupFailure hread (.inl rfl) ⟨?_, ?_⟩
          · intro hsome
            cases hsome
          · exact fun hasked ↦ absurd ⟨hasked.1, hoffers.mp hasked.2⟩ huse

end

/-- A STARTUP with its options in the order the constructor sets them. -/
def startupInOrder (c : Option (List UInt8)) :
    { m : StartupMessage // m.compressionProtocol = c } :=
  ⟨⟨c, ⟨(utf8 "CQL_VERSION", utf8 "3.0.0") ::
    (c.map (fun c ↦ (utf8 "COMPRESSION", c))).toList, by
      cases c with
      | none => exact List.nodup_singleton _
      | some c =>
        change List.Nodup [utf8 "CQL_VERSION", utf8 "COMPRESSION"]
        decide⟩, .refl _⟩, rfl⟩

/-- A READY frame with an empty body. -/
def readyFrame : List UInt8 := [0x84, 0, 0, 0, 0x02, 0, 0, 0, 0]

/-- A SUPPORTED frame whose only option is lz4. -/
def supportedFrame : List UInt8 :=
  [0x84, 0, 0, 0, 0x06, 0, 0, 0, 22, 0, 1, 0, 11] ++ utf8 "COMPRESSION" ++
    [0, 1, 0, 3] ++ utf8 "lz4"

example : (cqlHandshake (fun _ _ ↦ 0) startupInOrder none none true
    (supportedFrame ++ readyFrame)).ending = .returned := by decide +kernel

/-- A peer that answers OPTIONS with READY makes the driver use a null pointer. -/
theorem readyFrame_unsound :
    ¬ ∀ (memory : List UInt8 → Nat → UInt8)
      (startupMessage : (c : Option (List UInt8)) →
        { m : StartupMessage // m.compressionProtocol = c })
      (optionsFailure startupFailure : Option Exception) (useCompression : Bool)
      (stream : List UInt8),
      (cqlHandshake memory startupMessage optionsFailure startupFailure useCompression
        stream).Sound memory useCompression stream := by
  intro h
  have hdefined := (h (fun _ _ ↦ 0) startupInOrder none none true readyFrame).defined
  exact hdefined (by decide +kernel)

end CassandraDriver.Detail
