import CassandraDriver.Detail.ResponseStream

/-!
# Streams of requests

Library `Detail`. The bytes of a request that `SendMessage`,
`src/detail/connection_impl.cpp:307`, puts on the socket, with or without compression, and
what a server of the native protocol reads from them: a frame header, as many bytes as it
says, decompressed when its flag is set, and in them the body of one request and nothing else.
-/

namespace CassandraDriver.Protocol.V4
open CassandraDriver.Lib CassandraDriver.Lib.Decoder CassandraDriver.Detail

/-- What the body of a frame says once it is decompressed, which its flags ask for. -/
def plainBody (lz4 : Option Lz4Api) (flags : Nat) (body : List UInt8) : Option (List UInt8) :=
  if flags.testBit 0 then
    match lz4 with
    | none => none
    | some api => (api.toLz4.decompress body).toOption
  else some body

/-- The request that a body holds, when it holds one and nothing else. -/
def requestBody (lz4 : Option Lz4Api) (h : Header) (body : List UInt8) : Option (Int × Request) :=
  (plainBody lz4 h.flags body).bind fun plain ↦
    match (request h.opcode).run plain with
    | some (r, []) => some (h.stream, r)
    | _ => none

/-- A request frame: its stream id and its request. -/
def requestFrame (lz4 : Option Lz4Api) : Decoder (Int × Request) := do
  let h ← frameHeader
  if h.version ≠ 4 ∨ h.length < 0 then reject
  else
    let body ← Decoder.take h.length.toNat
    StateT.lift (requestBody lz4 h body)

private theorem unsigned_steady (w : Nat) : Steady (unsigned w) :=
  (Steady.take w).bind (fun _ ↦ Steady.pure _)

private theorem signed_steady (w : Nat) : Steady (signed w) :=
  (unsigned_steady w).bind (fun _ ↦ Steady.pure _)

private theorem frameHeader_steady : Steady frameHeader :=
  (unsigned_steady 1).bind fun _ ↦ (unsigned_steady 1).bind fun _ ↦ (signed_steady 2).bind fun _ ↦
    (unsigned_steady 1).bind fun _ ↦ (signed_steady 4).bind fun _ ↦ Steady.pure _

/-- What a server reads in a frame does not change with what follows. -/
theorem requestFrame_steady (lz4 : Option Lz4Api) : Steady (requestFrame lz4) :=
  frameHeader_steady.bind fun _ ↦
    Steady.reject.ite ((Steady.take _).bind fun _ ↦ Steady.lift _)

end CassandraDriver.Protocol.V4

namespace CassandraDriver.Protocol.RequestMessage
open CassandraDriver.Lib CassandraDriver.Lib.Decoder CassandraDriver.Io CassandraDriver.Detail

/-- The header that goes out. -/
def wireHeader (lz4 : Option Lz4Api) (m : RequestMessage) (stream : Int16) : FrameHeader :=
  ⟨kRequest, wireFlags lz4, stream, m.opcode.code, Int32.ofNat (wireBody lz4 m.encodeBody).length⟩

/-- The bytes that go out. -/
def wireFrame (lz4 : Option Lz4Api) (m : RequestMessage) (stream : Int16) : List UInt8 :=
  (m.wireHeader lz4 stream).encode ++ wireBody lz4 m.encodeBody

/-- The request fits its layout, its body fits the length field, and the compressor of the
connection works on it. -/
structure Carried (lz4 : Option Lz4Api) (m : RequestMessage) : Prop where
  sendable : m.Sendable
  length_lt : m.encodeBody.length < 2 ^ 31
  works : ∀ api ∈ lz4, api.WorksOn m.encodeBody

variable {lz4 : Option Lz4Api} {m : RequestMessage}

/-- A frame is longer than its header, or as long. -/
theorem kHeaderSize_le_wireFrame (lz4 : Option Lz4Api) (m : RequestMessage) (stream : Int16) :
    FrameHeader.kHeaderSize ≤ (m.wireFrame lz4 stream).length := by
  rw [wireFrame, List.length_append, FrameHeader.length_encode]
  omega

/-- `Serialize` puts out these bytes. -/
theorem serialize_wireFrame (h : m.Carried lz4) (stream : Int16) :
    (m.serialize stream (lz4.map Lz4Api.compressor)).run [] =
      .ok ((), m.wireFrame lz4 stream) := by
  have hfits := m.fits_of_sendable h.sendable h.length_lt
  cases lz4 with
  | none => exact m.serialize_run stream hfits h.length_lt
  | some api =>
    have hworks := h.works api rfl
    have hbody : m.serializeBody.run [] = .ok ((), m.encodeBody) := m.serializeBody_appends hfits []
    exact serialize_run_of_parts m stream _ _ _
      (serializeParts_compressed api m stream m.encodeBody hbody hworks) rfl
      (api.length_encode_lt _ (length_le_of_worksOn hworks) hworks)

/-- The body comes out as it went in. -/
theorem plainBody_wireBody (h : m.Carried lz4) :
    V4.plainBody lz4 (wireFlags lz4).toNat (wireBody lz4 m.encodeBody) = some m.encodeBody := by
  cases lz4 with
  | none => rfl
  | some api =>
    have hplain := api.decompress_encode m.encodeBody h.length_lt (h.works api rfl)
    have hflag : (wireFlags (some api)).toNat.testBit 0 = true := by
      change kCompression.toNat.testBit 0 = true
      decide
    rw [V4.plainBody, if_pos hflag]
    simp only [wireBody, hplain, Except.toOption]

/-- A server reads exactly the request from its frame. -/
theorem requestFrame_consumes (h : m.Carried lz4) (stream : Int16) :
    Consumes (V4.requestFrame lz4) (m.wireFrame lz4 stream) (stream.toInt, m.toRequest) := by
  have hlt : (wireBody lz4 m.encodeBody).length < 2 ^ 31 := length_wireBody_lt h.length_lt h.works
  have hheader := V4.frameHeader_consumes (m.wireHeader lz4 stream)
    (wireBody lz4 m.encodeBody).length (Nat.le_sub_one_of_lt hlt) rfl
  have hrequest := V4.request_consumes m (m.fits_of_sendable h.sendable h.length_lt) []
  rw [List.append_nil] at hrequest
  have hbody : V4.requestBody lz4 ⟨kRequest.toNat, (wireFlags lz4).toNat, stream.toInt,
      m.opcode.code.toNat, (wireBody lz4 m.encodeBody).length⟩ (wireBody lz4 m.encodeBody) =
        some (stream.toInt, m.toRequest) := by
    rw [V4.requestBody, plainBody_wireBody h, Option.bind_some, hrequest]
  have hversion : ¬ (kRequest.toNat ≠ 4 ∨ ((wireBody lz4 m.encodeBody).length : Int) < 0) := by
    rintro (hne | hneg)
    · exact hne rfl
    · omega
  refine hheader.bind ?_
  change Consumes (if kRequest.toNat ≠ 4 ∨ ((wireBody lz4 m.encodeBody).length : Int) < 0 then
    reject else Decoder.take (wireBody lz4 m.encodeBody).length >>= fun body ↦
      StateT.lift (V4.requestBody lz4 ⟨kRequest.toNat, (wireFlags lz4).toNat, stream.toInt,
        m.opcode.code.toNat, (wireBody lz4 m.encodeBody).length⟩ body)) _ _
  rw [if_neg hversion]
  refine (Consumes.take _ rfl).bind_nil ?_
  rw [hbody]
  exact Consumes.lift _

/-- As long as a frame has not come in full, a server reads no request from it. -/
theorem requestFrame_run_part (h : m.Carried lz4) (stream : Int16) {n : Nat}
    (hn : n < (m.wireFrame lz4 stream).length) :
    (V4.requestFrame lz4).run ((m.wireFrame lz4 stream).take n) = none := by
  have hconsumes := requestFrame_consumes h stream
  rw [← List.take_append_drop n (m.wireFrame lz4 stream)] at hconsumes
  refine hconsumes.run_part (V4.requestFrame_steady lz4) fun hnil ↦ ?_
  have hlength := congrArg List.length hnil
  rw [List.length_drop, List.length_nil] at hlength
  omega

end CassandraDriver.Protocol.RequestMessage
