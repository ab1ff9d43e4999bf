import CassandraDriver.Protocol.ResponseMessage

/-!
# Reading frames from the socket

Library `Detail`. Models `ConnectionImpl::ReadFrame` and `GetResponseMessageFromHeader`,
`src/detail/connection_impl.cpp:321–384`. The peer's bytes are a list that ends where it
closed; `RecvAll` returns fewer bytes than asked only there, and leaves the rest of the
zero-filled buffer as it was. A complete frame is nine header bytes and as many body
bytes as the header says.
-/

namespace CassandraDriver.Detail
open CassandraDriver.Lib CassandraDriver.Io CassandraDriver.Protocol

/-- A message with the header it came under. -/
structure Received where
  header : FrameHeader
  message : ResponseMessage

/-- The response class an opcode selects, `connection_impl.cpp:330–345`. -/
def responseClass (opcode : UInt8) : Option ResponseClass :=
  if opcode = Opcode.supported.code then some .support
  else if opcode = Opcode.ready.code then some .ready
  else if opcode = Opcode.authenticate.code then some .authentificate
  else if opcode = Opcode.error.code then some .error
  else if opcode = Opcode.result.code then some .result
  else none

/-- The operation code of a class of responses. -/
def opcodeOf : ResponseClass → Opcode
  | .error => .error
  | .ready => .ready
  | .authentificate => .authenticate
  | .support => .supported
  | .result => .result

/-- `GetResponseMessageFromHeader`, `connection_impl.cpp:321`. -/
def getResponseMessageFromHeader (header : FrameHeader) : Except Exception ResponseClass :=
  if header.version ≠ kResponse then .error (.runtimeError "Unexpected message direction")
  else match responseClass header.opcode with
    | some cls => .ok cls
    | none => .error (.runtimeError "Unexpected opcode")

/-- The header buffer after `RecvAll`: what came, and zeros behind it. -/
def headerBuffer (stream : List UInt8) : List UInt8 :=
  stream.take FrameHeader.kHeaderSize ++
    List.replicate (FrameHeader.kHeaderSize - (stream.take FrameHeader.kHeaderSize).length) 0

/-- The first part of `ReadFrame`, `connection_impl.cpp:351–361`. A short header is not
noticed unless nothing at all came. -/
def readHeader (stream : List UInt8) : Except Exception FrameHeader :=
  if (stream.take FrameHeader.kHeaderSize).length = 0 then
    .error (.runtimeError "Socket read failed")
  else (Program.run ⟨headerBuffer stream, fun _ ↦ 0⟩ FrameHeader.parse (.at 0)).1

/-- `body_length` of a header whose length is not negative. -/
def bodyLength (header : FrameHeader) : Nat := header.length.toInt.toNat

section
variable (compressor : Option Compressor) (memory : List UInt8 → Nat → UInt8)

/-- The second part of `ReadFrame`, `connection_impl.cpp:362–383`, on what follows the
header: the message and what follows the body. A negative length makes `resize` throw. -/
def readBody (header : FrameHeader) (rest : List UInt8) :
    Except Exception (Received × List UInt8) :=
  match getResponseMessageFromHeader header with
  | .error e => .error e
  | .ok cls =>
    if header.length.toInt < 0 then .error .lengthError
    else if (rest.take (bodyLength header)).length < bodyLength header then
      .error (.runtimeError "Socket read failed")
    else match ResponseMessage.parseBody cls compressor memory (rest.take (bodyLength header)) with
      | .error e => .error e
      | .ok message => .ok (⟨header, message⟩, rest.drop (bodyLength header))

/-- `ConnectionImpl::ReadFrame`, `connection_impl.cpp:348`: the message and the bytes left
in the stream. -/
def readFrame (stream : List UInt8) : Except Exception (Received × List UInt8) := do
  let header ← readHeader stream
  readBody compressor memory header (stream.drop FrameHeader.kHeaderSize)

/-- `n` calls of `ReadFrame`, or fewer when one throws. -/
def readFramesUpTo : Nat → List UInt8 → List Received
  | 0, _ => []
  | n + 1, stream =>
    match readFrame compressor memory stream with
    | .error _ => []
    | .ok (received, rest) => received :: readFramesUpTo n rest

/-- Repeated calls of `ReadFrame` until one throws: each call takes at least one byte, and
with none left it throws. -/
def readFrames (stream : List UInt8) : List Received :=
  readFramesUpTo compressor memory (stream.length + 1) stream

/-- The bytes are one complete response frame, which parses to the message. -/
def CompleteFrame (frame : List UInt8) (received : Received) : Prop :=
  ∃ body cls, frame = received.header.encode ++ body ∧
    received.header.length.toInt = body.length ∧
    getResponseMessageFromHeader received.header = .ok cls ∧
    ResponseMessage.parseBody cls compressor memory body = .ok received.message

/-- The messages read are those of complete frames at the front of the stream, one to one
and in order, and the call after them throws. -/
def AllOrNothing (stream : List UInt8) : Prop :=
  ∃ frames rest, stream = frames.flatten ++ rest ∧
    List.Forall₂ (CompleteFrame compressor memory) frames
      (readFrames compressor memory stream) ∧
    ∃ e, readFrame compressor memory rest = .error e

end

/-- A READY header that the peer cut inside its length field, with zeros where that field
did arrive. -/
def CutReady (tail : List UInt8) : Prop :=
  5 ≤ tail.length ∧ tail.length < FrameHeader.kHeaderSize ∧ tail[0]? = some kResponse ∧
    tail[4]? = some Opcode.ready.code ∧ ∀ b ∈ tail.drop 5, b = 0

instance : DecidablePred CutReady := fun _ ↦ inferInstanceAs (Decidable (_ ∧ _))

@[simp] private theorem length_headerBuffer (stream : List UInt8) :
    (headerBuffer stream).length = FrameHeader.kHeaderSize := by
  simp only [headerBuffer, List.length_append, List.length_replicate, List.length_take]
  omega

/-- A class is selected by its own opcode only. -/
theorem opcode_of_responseClass {opcode : UInt8} {cls : ResponseClass}
    (h : responseClass opcode = some cls) : opcode = (opcodeOf cls).code := by
  unfold responseClass at h
  split at h
  · next ho => cases h; exact ho
  · split at h
    · next ho => cases h; exact ho
    · split at h
      · next ho => cases h; exact ho
      · split at h
        · next ho => cases h; exact ho
        · split at h
          · next ho => cases h; exact ho
          · cases h

/-- The header of a message is a response's, with the opcode of the message's class. -/
theorem getResponseMessageFromHeader_eq_ok {header : FrameHeader} {cls : ResponseClass}
    (h : getResponseMessageFromHeader header = .ok cls) :
    header.version = kResponse ∧ header.opcode = (opcodeOf cls).code := by
  unfold getResponseMessageFromHeader at h
  split at h
  · cases h
  · next hv =>
    split at h
    · next c hc =>
      cases h
      exact ⟨not_not.mp hv, opcode_of_responseClass hc⟩
    · cases h

/-- A byte of the header buffer that is not zero was received. -/
theorem getElem?_of_headerBuffer {stream : List UInt8} {i : Nat} {b : UInt8}
    (h : (headerBuffer stream)[i]? = some b) (hb : b ≠ 0) : stream[i]? = some b := by
  rw [headerBuffer] at h
  by_cases hi : i < (stream.take FrameHeader.kHeaderSize).length
  · rw [List.getElem?_append_left hi, List.getElem?_take] at h
    split at h
    · exact h
    · cases h
  · rw [List.getElem?_append_right (by omega), List.getElem?_replicate] at h
    split at h
    · exact absurd (Option.some.inj h).symm hb
    · cases h

/-- Every nonempty stream yields a header, complete or not. -/
theorem readHeader_ok (stream : List UInt8) (h : stream ≠ []) :
    ∃ header : FrameHeader, header.encode = headerBuffer stream ∧
      readHeader stream = .ok header := by
  obtain ⟨header, he⟩ := FrameHeader.exists_encode _ (length_headerBuffer stream)
  refine ⟨header, he, ?_⟩
  have hl : (stream.take FrameHeader.kHeaderSize).length ≠ 0 := by
    have hp := List.length_pos_iff.mpr h
    rw [List.length_take, FrameHeader.kHeaderSize]
    omega
  have hr := (header.parse_decodes.run_at [] [] (fun _ ↦ 0)).1
  rw [List.append_nil, List.nil_append, he] at hr
  rw [readHeader, if_neg hl]
  exact hr

/-- A complete header is read as it was written. -/
theorem headerBuffer_encode (header : FrameHeader) (rest : List UInt8) :
    headerBuffer (header.encode ++ rest) = header.encode := by
  have ht : (header.encode ++ rest).take FrameHeader.kHeaderSize = header.encode :=
    List.take_left' header.length_encode
  rw [headerBuffer, ht, header.length_encode, Nat.sub_self, List.replicate_zero, List.append_nil]

section
variable {compressor : Option Compressor} {memory : List UInt8 → Nat → UInt8}

/-- A body that is read was there in full. -/
theorem readBody_eq_ok {header : FrameHeader} {rest rest' : List UInt8} {r : Received}
    (h : readBody compressor memory header rest = .ok (r, rest')) :
    ∃ cls, getResponseMessageFromHeader header = .ok cls ∧ 0 ≤ header.length.toInt ∧
      bodyLength header ≤ rest.length ∧
      ResponseMessage.parseBody cls compressor memory (rest.take (bodyLength header)) =
        .ok r.message ∧ r.header = header ∧ rest' = rest.drop (bodyLength header) := by
  unfold readBody at h
  split at h
  · cases h
  · next cls hc =>
    split at h
    · cases h
    · next hn =>
      split at h
      · cases h
      · next hs =>
        rw [List.length_take] at hs
        split at h
        · cases h
        · next message hp =>
          cases h
          exact ⟨cls, hc, by omega, by omega, hp, rfl, rfl⟩

/-- A call that returns has read a header, complete or not, and a body behind it. -/
theorem readFrame_eq_ok {stream rest : List UInt8} {r : Received}
    (h : readFrame compressor memory stream = .ok (r, rest)) :
    stream ≠ [] ∧ r.header.encode = headerBuffer stream ∧
      readBody compressor memory r.header (stream.drop FrameHeader.kHeaderSize) =
        .ok (r, rest) := by
  have hne : stream ≠ [] := by
    rintro rfl
    cases h
  obtain ⟨header, he, hr⟩ := readHeader_ok stream hne
  change (readHeader _ >>= fun header ↦ readBody _ memory header _) = _ at h
  rw [hr] at h
  obtain ⟨-, -, -, -, -, hh, -⟩ := readBody_eq_ok h
  rw [hh]
  exact ⟨hne, he, h⟩

/-- A header that came in full is read as it was written. -/
theorem readFrame_encode (header : FrameHeader) (rest : List UInt8) :
    readFrame compressor memory (header.encode ++ rest) =
      readBody compressor memory header rest := by
  have hne : header.encode ++ rest ≠ [] := by
    intro he
    have hlen := congrArg List.length he
    simp [FrameHeader.kHeaderSize] at hlen
  obtain ⟨header', he, hr⟩ := readHeader_ok _ hne
  rw [headerBuffer_encode] at he
  obtain rfl := FrameHeader.encode_injective he
  have hdrop : (header'.encode ++ rest).drop FrameHeader.kHeaderSize = rest :=
    List.drop_left' header'.length_encode
  change (readHeader _ >>= fun header ↦ readBody compressor memory header _) = _
  rw [hr, hdrop]
  rfl

/-- A body that came in full is parsed, and nothing behind it is touched. -/
theorem readBody_complete {header : FrameHeader} {cls : ResponseClass} {body : List UInt8}
    (hc : getResponseMessageFromHeader header = .ok cls)
    (hl : header.length.toInt = body.length) (rest : List UInt8) :
    readBody compressor memory header (body ++ rest) =
      (ResponseMessage.parseBody cls compressor memory body).map
        (fun message ↦ (⟨header, message⟩, rest)) := by
  have hn : bodyLength header = body.length := by
    rw [bodyLength, hl, Int.toNat_natCast]
  unfold readBody
  rw [hc, hn, List.take_left, List.drop_left]
  simp only [hl, Nat.lt_irrefl, if_false]
  rw [if_neg (by omega)]
  cases ResponseMessage.parseBody cls compressor memory body with
  | error e => rfl
  | ok message => rfl

/-- A complete frame is read, and nothing behind it is touched. -/
theorem readFrame_complete {frame : List UInt8} {r : Received}
    (h : CompleteFrame compressor memory frame r) (rest : List UInt8) :
    readFrame compressor memory (frame ++ rest) = .ok (r, rest) := by
  obtain ⟨body, cls, rfl, hl, hc, hp⟩ := h
  rw [List.append_assoc, readFrame_encode, readBody_complete hc hl, hp]
  rfl

/-- A complete frame is longer than any cut header. -/
theorem kHeaderSize_le_length {frame : List UInt8} {r : Received}
    (h : CompleteFrame compressor memory frame r) : FrameHeader.kHeaderSize ≤ frame.length := by
  obtain ⟨body, cls, rfl, -⟩ := h
  rw [List.length_append, FrameHeader.length_encode]
  omega

end

section
variable (lz4 : Option Lz4) (memory : List UInt8 → Nat → UInt8)

/-- With nothing received for the body, only READY without compression parses. -/
theorem parseBody_nil {cls : ResponseClass} {message : ResponseMessage}
    (h : ResponseMessage.parseBody cls (lz4.map Lz4.compressor) memory [] = .ok message) :
    lz4 = none ∧ cls = .ready ∧ message = .ready := by
  cases lz4 with
  | some z => cases h
  | none =>
    cases cls with
    | ready =>
      cases h
      exact ⟨rfl, rfl, rfl⟩
    | error => cases h
    | authentificate => cases h
    | support => cases h
    | result => cases h

/-- What a short header looks like once the zeros behind it are taken for received. -/
theorem cutReady_iff {stream : List UInt8} {header : FrameHeader}
    (hl : stream.length < FrameHeader.kHeaderSize) (he : header.encode = headerBuffer stream) :
    CutReady stream ↔ stream ≠ [] ∧ header.version = kResponse ∧
      header.opcode = Opcode.ready.code ∧ header.length = 0 := by
  have hb : header.encode =
      stream ++ List.replicate (FrameHeader.kHeaderSize - stream.length) 0 := by
    rw [he, headerBuffer, List.take_of_length_le (by omega)]
  have hv := header.encode_version
  have ho := header.encode_opcode
  have hz := header.encode_drop_eq_zero
  rw [hb] at hv ho hz
  rw [← hz]
  constructor
  · rintro ⟨h5, -, h0, h4, hd⟩
    rw [List.getElem?_append_left (by omega), h0] at hv
    rw [List.getElem?_append_left (by omega), h4] at ho
    refine ⟨List.length_pos_iff.mp (by omega), (Option.some.inj hv).symm,
      (Option.some.inj ho).symm, ?_⟩
    rw [List.drop_append_of_le_length h5, List.eq_replicate_of_mem hd, List.length_drop,
      List.replicate_append_replicate, FrameHeader.kHeaderSize]
    congr 1
    rw [FrameHeader.kHeaderSize] at hl
    omega
  · rintro ⟨hne, hver, hop, hd⟩
    have hpos := List.length_pos_iff.mpr hne
    have h5 : 5 ≤ stream.length := by
      -- Were byte 4 not received, it would read as the opcode of ERROR.
      have hreceived := getElem?_of_headerBuffer (he ▸ header.encode_opcode) (hop ▸ by decide)
      obtain ⟨hlt, -⟩ := List.getElem?_eq_some_iff.mp hreceived
      omega
    rw [List.getElem?_append_left (by omega), hver] at hv
    rw [List.getElem?_append_left (by omega), hop] at ho
    refine ⟨h5, hl, hv, ho, fun b hm ↦ ?_⟩
    rw [List.drop_append_of_le_length h5] at hd
    have hm' : b ∈ List.replicate 4 (0 : UInt8) := hd ▸ List.mem_append_left _ hm
    exact List.eq_of_mem_replicate hm'

/-- A call that returns has taken a complete frame, or an uncompressed READY header that
was cut in its length field and nothing more. -/
theorem readFrame_cases {stream rest : List UInt8} {r : Received}
    (h : readFrame (lz4.map Lz4.compressor) memory stream = .ok (r, rest)) :
    (∃ frame, stream = frame ++ rest ∧
      CompleteFrame (lz4.map Lz4.compressor) memory frame r) ∨
    (lz4 = none ∧ CutReady stream) := by
  obtain ⟨hne, he, hbody⟩ := readFrame_eq_ok h
  obtain ⟨cls, hc, h0, hs, hp, -, hrest⟩ := readBody_eq_ok hbody
  by_cases hl : FrameHeader.kHeaderSize ≤ stream.length
  · left
    have ht : headerBuffer stream = stream.take FrameHeader.kHeaderSize := by
      have hlen : (stream.take FrameHeader.kHeaderSize).length = FrameHeader.kHeaderSize := by
        rw [List.length_take]
        omega
      rw [headerBuffer, hlen, Nat.sub_self, List.replicate_zero, List.append_nil]
    rw [ht] at he
    refine ⟨r.header.encode ++ (stream.drop FrameHeader.kHeaderSize).take (bodyLength r.header),
      ?_, _, cls, rfl, ?_, hc, hp⟩
    · rw [hrest, he, List.append_assoc, List.take_append_drop, List.take_append_drop]
    · rw [List.length_take, Nat.min_eq_left hs, bodyLength]
      omega
  · right
    have hnil : stream.drop FrameHeader.kHeaderSize = [] := List.drop_eq_nil_of_le (by omega)
    rw [hnil, List.take_nil] at hp
    rw [hnil, List.length_nil, bodyLength] at hs
    obtain ⟨hlz, rfl, -⟩ := parseBody_nil lz4 memory hp
    obtain ⟨hv, hop⟩ := getResponseMessageFromHeader_eq_ok hc
    refine ⟨hlz, (cutReady_iff (by omega) he).mpr ⟨hne, hv, hop, ?_⟩⟩
    exact Int32.toInt_inj.mp (by rw [Int32.toInt_zero]; omega)

/-- A cut READY header is taken for a complete frame. -/
theorem readFrame_cutReady {stream : List UInt8} (h : CutReady stream) :
    ∃ r, readFrame none memory stream = .ok (r, []) := by
  have hl := h.2.1
  have hne : stream ≠ [] := List.length_pos_iff.mp (by have := h.1; omega)
  obtain ⟨header, he, hr⟩ := readHeader_ok stream hne
  obtain ⟨-, hv, ho, hz⟩ := (cutReady_iff hl he).mp h
  have hc : getResponseMessageFromHeader header = .ok .ready := by
    rw [getResponseMessageFromHeader, hv, ho]
    rfl
  have hnil : stream.drop FrameHeader.kHeaderSize = [] := List.drop_eq_nil_of_le (by omega)
  refine ⟨⟨header, .ready⟩, ?_⟩
  change (readHeader _ >>= fun header ↦ readBody _ memory header _) = _
  rw [hr, hnil]
  change readBody none memory header [] = _
  rw [readBody, hc, bodyLength, hz]
  rfl

private theorem readFrame_shorter {stream rest : List UInt8} {r : Received}
    (h : readFrame (lz4.map Lz4.compressor) memory stream = .ok (r, rest)) :
    rest.length < stream.length := by
  obtain ⟨hne, -, hbody⟩ := readFrame_eq_ok h
  have hpos := List.length_pos_iff.mpr hne
  obtain ⟨-, -, -, -, -, -, hrest⟩ := readBody_eq_ok hbody
  rw [hrest, List.length_drop, List.length_drop, FrameHeader.kHeaderSize]
  omega

/-- Two ways to take complete frames off a stream agree: the one that stops where no
further frame is read goes at least as far. -/
theorem complete_frames_extend {compressor : Option Compressor} {memory : List UInt8 → Nat → UInt8}
    {frames frames' : List (List UInt8)} {rs rs' : List Received} {rest rest' : List UInt8}
    {e : Exception} (h : List.Forall₂ (CompleteFrame compressor memory) frames rs)
    (h' : List.Forall₂ (CompleteFrame compressor memory) frames' rs')
    (heq : frames.flatten ++ rest = frames'.flatten ++ rest')
    (herr : readFrame compressor memory rest' = .error e) :
    ∃ frames'' rs'', List.Forall₂ (CompleteFrame compressor memory) frames'' rs'' ∧
      rest = frames''.flatten ++ rest' := by
  induction h generalizing frames' rs' with
  | nil => exact ⟨frames', rs', h', heq⟩
  | @cons f r fs rs hf hfs ih =>
    rw [List.flatten_cons, List.append_assoc] at heq
    have hread := readFrame_complete hf (fs.flatten ++ rest)
    rw [heq] at hread
    cases h' with
    | nil =>
      rw [List.flatten_nil, List.nil_append, herr] at hread
      cases hread
    | @cons f' r' fs' rs' hf' hfs' =>
      rw [List.flatten_cons, List.append_assoc] at heq hread
      rw [readFrame_complete hf' _] at hread
      exact ih hfs' (Prod.mk.inj (Except.ok.inj hread)).2.symm

private theorem readFramesUpTo_complete (n : Nat) (stream : List UInt8)
    (hn : stream.length < n)
    (hcut : ∀ frames rs tail, lz4 = none →
      List.Forall₂ (CompleteFrame (lz4.map Lz4.compressor) memory) frames rs →
      stream = frames.flatten ++ tail → ¬ CutReady tail) :
    ∃ frames rest, stream = frames.flatten ++ rest ∧
      List.Forall₂ (CompleteFrame (lz4.map Lz4.compressor) memory) frames
        (readFramesUpTo (lz4.map Lz4.compressor) memory n stream) ∧
      ∃ e, readFrame (lz4.map Lz4.compressor) memory rest = .error e := by
  induction n generalizing stream with
  | zero => omega
  | succ n ih =>
    rw [readFramesUpTo]
    split
    · next e he => exact ⟨[], stream, rfl, .nil, e, he⟩
    · next r rest hr =>
      have hlt := readFrame_shorter lz4 memory hr
      rcases readFrame_cases lz4 memory hr with ⟨frame, rfl, hf⟩ | ⟨hlz, hc⟩
      · obtain ⟨frames, tail, rfl, hfs, herr⟩ := ih rest (by omega)
          (fun frames rs tail hlz hfs hs ↦
            hcut (frame :: frames) (r :: rs) tail hlz (.cons hf hfs) (by
              rw [hs, List.flatten_cons, List.append_assoc]))
        exact ⟨frame :: frames, tail, by rw [List.flatten_cons, List.append_assoc],
          .cons hf hfs, herr⟩
      · exact absurd hc (hcut [] [] stream hlz .nil rfl)

/-- The stream is a run of complete frames that parse, and then a cut READY header. -/
def EndsInCutReady (compressor : Option Compressor) (memory : List UInt8 → Nat → UInt8)
    (stream : List UInt8) : Prop :=
  ∃ frames rs tail, List.Forall₂ (CompleteFrame compressor memory) frames rs ∧
    stream = frames.flatten ++ tail ∧ CutReady tail

/-- Incoming frames are all or nothing, exactly when the stream does not end in a cut READY
header on a connection without compression. -/
theorem allOrNothing_iff (stream : List UInt8) :
    AllOrNothing (lz4.map Lz4.compressor) memory stream ↔
      ¬ (lz4 = none ∧ EndsInCutReady (lz4.map Lz4.compressor) memory stream) := by
  constructor
  · rintro ⟨frames', rest', hs', hfs', e, herr⟩ ⟨rfl, frames, rs, tail, hfs, hs, hcut⟩
    obtain ⟨frames'', rs'', hfs'', ht⟩ :=
      complete_frames_extend hfs hfs' (hs.symm.trans hs') herr
    cases hfs'' with
    | nil =>
      obtain ⟨r, hr⟩ := readFrame_cutReady memory hcut
      rw [ht] at hr
      exact absurd (hr.symm.trans herr) (by simp)
    | cons hf _ =>
      have hl := kHeaderSize_le_length hf
      have hlt := hcut.2.1
      rw [ht, List.flatten_cons, List.length_append, List.length_append] at hlt
      omega
  · intro h
    exact readFramesUpTo_complete lz4 memory _ stream (Nat.lt_succ_self _)
      (fun frames rs tail hlz hfs hs hc ↦ h ⟨hlz, frames, rs, tail, hfs, hs, hc⟩)

/-- The first five bytes of a READY frame, and then the peer closes. -/
def cutReadyStream : List UInt8 := [0x84, 0x00, 0x00, 0x01, 0x02]

/-- The message of a frame that is not there is delivered. -/
theorem cutReadyStream_delivers :
    ¬ ∀ (lz4 : Option Lz4) (memory : List UInt8 → Nat → UInt8) (stream : List UInt8),
      AllOrNothing (lz4.map Lz4.compressor) memory stream := by
  intro h
  obtain ⟨frames, rest, hs, hfs, -⟩ := h none (fun _ _ ↦ 0) cutReadyStream
  cases hfs with
  | cons hf _ =>
    have hl := kHeaderSize_le_length hf
    have hlen := congrArg List.length hs
    rw [List.flatten_cons, List.length_append, List.length_append, cutReadyStream,
      FrameHeader.kHeaderSize] at *
    simp at hlen
    omega

end

end CassandraDriver.Detail
