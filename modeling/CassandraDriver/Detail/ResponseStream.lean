import CassandraDriver.Detail.FrameFlags
import CassandraDriver.Protocol.ResponseFaithful

/-!
# Streams of responses

Library `Detail`. What a server of the native protocol puts on a connection, with or without
compression, and what repeated calls of `ConnectionImpl::ReadFrame`,
`src/detail/connection_impl.cpp:348`, make of it: the bytes of one response are one complete
frame, so that the calls give the responses in order, whatever stands behind them.
-/

namespace CassandraDriver.Detail
open CassandraDriver.Lib CassandraDriver.Io CassandraDriver.Protocol

/-- The flags of a frame on a connection with or without compression. -/
def wireFlags (lz4 : Option Lz4Api) : UInt8 := if lz4.isSome then kCompression else 0

/-- A response on its way: the stream id of the request it answers, and what it says. -/
structure Reply where
  stream : Int16
  response : V4.Response

namespace Reply

/-- The body on the wire. -/
def body (lz4 : Option Lz4Api) (r : Reply) : List UInt8 := wireBody lz4 r.response.encode

/-- The header of the frame. -/
def header (lz4 : Option Lz4Api) (r : Reply) : FrameHeader :=
  ⟨kResponse, wireFlags lz4, r.stream, (opcodeOf r.response.cls).code,
    Int32.ofNat (r.body lz4).length⟩

/-- The frame. -/
def encode (lz4 : Option Lz4Api) (r : Reply) : List UInt8 :=
  responseFrame (wireFlags lz4) r.stream r.response.cls (r.body lz4)

/-- The message that the driver is to make of the frame. -/
def received (lz4 : Option Lz4Api) (r : Reply) : Received :=
  ⟨r.header lz4, r.response.toMessage⟩

/-- The response fits its layout, its body fits the length field, and the compressor of the
connection works on it. -/
structure Carried (lz4 : Option Lz4Api) (response : V4.Response) : Prop where
  fits : response.Fits
  length_lt : response.encode.length < 2 ^ 31
  works : ∀ api ∈ lz4, api.WorksOn response.encode

end Reply

variable {lz4 : Option Lz4Api} {memory : List UInt8 → Nat → UInt8}

/-- A body that the connection compresses is within what the length field holds. -/
theorem length_wireBody_lt {body : List UInt8} (h : body.length < 2 ^ 31)
    (hlz4 : ∀ api ∈ lz4, api.WorksOn body) : (wireBody lz4 body).length < 2 ^ 31 := by
  cases lz4 with
  | none => exact h
  | some api =>
    have hworks := hlz4 api rfl
    exact api.length_encode_lt body (length_le_of_worksOn hworks) hworks

/-- What was compressed on its way is parsed as if it had not been. -/
theorem parseBody_wireBody (cls : ResponseClass) {body : List UInt8} (h : body.length < 2 ^ 31)
    (hlz4 : ∀ api ∈ lz4, api.WorksOn body) :
    ResponseMessage.parseBody cls (lz4.map Lz4Api.compressor) memory (wireBody lz4 body) =
      ResponseMessage.doParseBody cls ⟨body, memory body⟩ := by
  cases lz4 with
  | none => rfl
  | some api =>
    change (api.toLz4.decompress (api.encode body) >>= _) = _
    rw [api.decompress_encode body h (hlz4 api rfl)]
    rfl

/-- The header of every class selects that class. -/
theorem getResponseMessageFromHeader_opcodeOf (flags : UInt8) (stream : Int16)
    (cls : ResponseClass) (length : Int32) :
    getResponseMessageFromHeader ⟨kResponse, flags, stream, (opcodeOf cls).code, length⟩ =
      .ok cls := by
  cases cls <;> rfl

/-- A response that is carried is one complete frame. -/
theorem Reply.completeFrame (r : Reply) (h : Carried lz4 r.response) :
    CompleteFrame (lz4.map Lz4Api.compressor) memory (r.encode lz4) (r.received lz4) := by
  have hbody : (r.body lz4).length < 2 ^ 31 := length_wireBody_lt h.length_lt h.works
  refine ⟨r.body lz4, r.response.cls, rfl, ?_,
    getResponseMessageFromHeader_opcodeOf _ r.stream r.response.cls _, ?_⟩
  · exact LenType.int.toInt_cast _ (Nat.le_sub_one_of_lt hbody)
  · rw [body, parseBody_wireBody _ h.length_lt h.works]
    exact r.response.doParseBody_encode h.fits _

section
variable {compressor : Option Compressor}

/-- A call that returns has taken at least one byte. -/
theorem length_lt_of_readFrame {stream rest : List UInt8} {r : Received}
    (h : readFrame compressor memory stream = .ok (r, rest)) : rest.length < stream.length := by
  obtain ⟨hne, -, hbody⟩ := readFrame_eq_ok h
  obtain ⟨-, -, -, -, -, -, hrest⟩ := readBody_eq_ok hbody
  have hpos := List.length_pos_iff.mpr hne
  rw [hrest, List.length_drop, List.length_drop, FrameHeader.kHeaderSize]
  omega

private theorem readFramesUpTo_eq {n m : Nat} {stream : List UInt8} (hn : stream.length < n)
    (hm : stream.length < m) :
    readFramesUpTo compressor memory n stream = readFramesUpTo compressor memory m stream := by
  induction n generalizing m stream with
  | zero => omega
  | succ n ih =>
    cases m with
    | zero => omega
    | succ m =>
      rw [readFramesUpTo, readFramesUpTo]
      cases hread : readFrame compressor memory stream with
      | error e => rfl
      | ok p =>
        have hlt : p.2.length < stream.length := length_lt_of_readFrame hread
        exact congrArg (p.1 :: ·) (ih (by omega) (by omega))

/-- A complete frame in front is read first, and then what follows. -/
theorem readFrames_append {frame : List UInt8} {r : Received}
    (h : CompleteFrame compressor memory frame r) (rest : List UInt8) :
    readFrames compressor memory (frame ++ rest) = r :: readFrames compressor memory rest := by
  have hlt := length_lt_of_readFrame (readFrame_complete h rest)
  rw [readFrames, readFramesUpTo, readFrame_complete h rest]
  exact congrArg (r :: ·) (readFramesUpTo_eq hlt (Nat.lt_succ_self _))

end

/-- Repeated calls of `ReadFrame` on the responses of a server, one behind the other, give for
each of them, in order, the message it is laid out from under its own stream id, and go on
with what stands behind the last of them. -/
theorem readFrames_replies (replies : List Reply) (h : ∀ r ∈ replies, Reply.Carried lz4 r.response)
    (rest : List UInt8) :
    readFrames (lz4.map Lz4Api.compressor) memory (replies.flatMap (Reply.encode lz4) ++ rest) =
      replies.map (Reply.received lz4) ++
        readFrames (lz4.map Lz4Api.compressor) memory rest := by
  induction replies with
  | nil => rfl
  | cons r replies ih =>
    rw [List.flatMap_cons, List.append_assoc, List.map_cons, List.cons_append,
      readFrames_append (r.completeFrame (h r List.mem_cons_self)),
      ih (fun q hq ↦ h q (List.mem_cons_of_mem _ hq))]

/-- An error and a Void result on a compressed connection, in front of a broken header. -/
theorem readFrames_replies_literal :
    (readFrames (some literalBlocks.compressor) (fun _ _ ↦ 0)
      ([⟨3, .error 0x2200 [110, 111] []⟩, ⟨0, .void⟩].flatMap
        (Reply.encode (some literalBlocks)) ++ [132])).map (fun r ↦ (r.header.stream, r.message)) =
      [(3, .error 0x2200 [110, 111]), (0, .result 1 .void)] := by
  have hcarried : ∀ r ∈ ([⟨3, .error 0x2200 [110, 111] []⟩, ⟨0, .void⟩] : List Reply),
      Reply.Carried (some literalBlocks) r.response := by
    intro r hr
    have hworks : literalBlocks.WorksOn [0, 0, 0x22, 0, 0, 2, 110, 111] ∧
        literalBlocks.WorksOn [0, 0, 0, 1] :=
      ⟨⟨by decide, by decide, by decide⟩, ⟨by decide, by decide, by decide⟩⟩
    rw [List.mem_pair] at hr
    rcases hr with rfl | rfl
    · refine ⟨(by decide : 2 ≤ 65535), by decide, ?_⟩
      rintro api ⟨⟩
      exact hworks.1
    · refine ⟨trivial, by decide, ?_⟩
      rintro api ⟨⟩
      exact hworks.2
  have hread := @readFrames_replies (some literalBlocks) (fun _ _ ↦ 0) _ hcarried [132]
  exact (congrArg (List.map fun r ↦ (r.header.stream, r.message)) hread).trans rfl

end CassandraDriver.Detail
