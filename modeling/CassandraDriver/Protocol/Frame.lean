import CassandraDriver.Io.RoundTrip

/-!
# Frame headers and compressors

Library `Protocol`. Models `include/cassandra/io/protocol/frame.hpp`,
`src/io/protocol/frame.cpp` and `src/io/protocol/lz4_utils.cpp`. A header read from the
wire may hold any opcode byte, so the field stays a byte and `Opcode` names the known
ones. The LZ4 library itself is a parameter.
-/

namespace CassandraDriver.Protocol
open CassandraDriver.Lib CassandraDriver.Io

/-- The bytes of a string literal. -/
def utf8 (s : String) : List UInt8 := s.toUTF8.data.toList

/-- Operation codes, `include/cassandra/io/protocol/frame.hpp:19`. -/
inductive Opcode
  | error | startup | ready | authenticate | credentials | options | supported | query | result
  | prepare | execute | register | event | batch | authChallenge | authResponse | authSuccess
  deriving DecidableEq, Repr

/-- The byte of an operation code. -/
def Opcode.code : Opcode → UInt8
  | error => 0x00
  | startup => 0x01
  | ready => 0x02
  | authenticate => 0x03
  | credentials => 0x04
  | options => 0x05
  | supported => 0x06
  | query => 0x07
  | result => 0x08
  | prepare => 0x09
  | execute => 0x0A
  | register => 0x0B
  | event => 0x0C
  | batch => 0x0D
  | authChallenge => 0x0E
  | authResponse => 0x0F
  | authSuccess => 0x10

/-- `MessageDirection::kRequest` and `kResponse`, `frame.hpp:48`. -/
def kRequest : UInt8 := 0x04

@[inherit_doc kRequest] def kResponse : UInt8 := 0x84

/-- `Flags::kCompression`, `frame.hpp:10`. -/
def kCompression : UInt8 := 0x01

/-- `FrameHeader`, `frame.hpp:79`. -/
structure FrameHeader where
  version : UInt8
  flags : UInt8
  stream : Int16
  opcode : UInt8
  length : Int32
  deriving DecidableEq, Repr

namespace FrameHeader

/-- `kHeaderSize`. -/
def kHeaderSize : Nat := 9

/-- `FrameHeader::Serialize`, `src/io/protocol/frame.cpp:6`. -/
def serialize (h : FrameHeader) : BufferWriter Unit := do
  writeIntBE .byte h.version
  writeIntBE .byte h.flags
  writeIntBE .smallInt h.stream
  writeIntBE .byte h.opcode
  writeIntBE .int h.length

/-- `FrameHeader::UpdateLength`, `src/io/protocol/frame.cpp:16`: bytes 5 to 8 of the
buffer are overwritten. -/
def updateLength (bodyLength : Int32) : BufferWriter Unit :=
  modify (fun buffer ↦
    buffer.take 5 ++ toBE 4 (IntegralType.int.toBits bodyLength) ++ buffer.drop 9)

/-- `FrameHeader::Parse`, `src/io/protocol/frame.cpp:20`. -/
def parse : Reader FrameHeader := do
  let version ← readIntBE .byte
  let flags ← readIntBE .byte
  let stream ← readIntBE .smallInt
  let opcode ← readIntBE .byte
  let length ← readIntBE .int
  return ⟨version, flags, stream, opcode, length⟩

/-- The layout of everything in front of the length field. -/
def encodeFront (h : FrameHeader) : List UInt8 :=
  toBE 1 h.version.toNat ++ (toBE 1 h.flags.toNat ++
    (toBE 2 (IntegralType.smallInt.toBits h.stream) ++ toBE 1 h.opcode.toNat))

/-- The layout of a header. -/
def encode (h : FrameHeader) : List UInt8 :=
  h.encodeFront ++ toBE 4 (IntegralType.int.toBits h.length)

/-- The length field starts at byte 5. -/
@[simp] theorem length_encodeFront (h : FrameHeader) : h.encodeFront.length = 5 := by
  simp [encodeFront]

/-- A header has nine bytes. -/
@[simp] theorem length_encode (h : FrameHeader) : h.encode.length = kHeaderSize := by
  simp [encode, kHeaderSize]

/-- The version is the first byte. -/
theorem encode_version (h : FrameHeader) : h.encode[0]? = some h.version := by
  simp [encode, encodeFront, toBE]

/-- The opcode is the byte in front of the length. -/
theorem encode_opcode (h : FrameHeader) : h.encode[4]? = some h.opcode := by
  simp [encode, encodeFront, toBE]

/-- The length field is the last four bytes. -/
theorem encode_drop (h : FrameHeader) :
    h.encode.drop 5 = toBE 4 (IntegralType.int.toBits h.length) :=
  List.drop_left' h.length_encodeFront

/-- A length field of zero bytes is the length zero, and no other. -/
theorem encode_drop_eq_zero (h : FrameHeader) :
    h.encode.drop 5 = List.replicate 4 0 ↔ h.length = 0 := by
  rw [encode_drop]
  constructor
  · intro he
    have hb := ofBE_toBE 4 _ (IntegralType.int.toBits_lt h.length)
    rw [he] at hb
    have hz : IntegralType.int.toBits h.length = IntegralType.int.toBits (0 : Int32) :=
      hb.symm.trans (by decide)
    exact (IntegralType.int.ofBits_toBits h.length).symm.trans
      ((congrArg IntegralType.int.ofBits hz).trans (IntegralType.int.ofBits_toBits (0 : Int32)))
  · intro hz
    rw [hz]
    decide

/-- Serializing appends the layout. -/
theorem serialize_appends (h : FrameHeader) : Appends h.serialize h.encode := by
  have hs : Appends h.serialize (toBE 1 h.version.toNat ++ (toBE 1 h.flags.toNat ++
      (toBE 2 (IntegralType.smallInt.toBits h.stream) ++ (toBE 1 h.opcode.toNat ++
        toBE 4 (IntegralType.int.toBits h.length))))) :=
    (writeIntBE_appends .byte h.version).seq ((writeIntBE_appends .byte h.flags).seq
      ((writeIntBE_appends .smallInt h.stream).seq ((writeIntBE_appends .byte h.opcode).seq
        (writeIntBE_appends .int h.length))))
  simpa only [encode, encodeFront, List.append_assoc] using hs

/-- Parsing decodes the layout. -/
theorem parse_decodes (h : FrameHeader) : Program.Decodes parse h.encode h := by
  have hp : Program.Decodes parse (toBE 1 h.version.toNat ++ (toBE 1 h.flags.toNat ++
      (toBE 2 (IntegralType.smallInt.toBits h.stream) ++ (toBE 1 h.opcode.toNat ++
        toBE 4 (IntegralType.int.toBits h.length))))) h :=
    .bind (readIntBE_decodes .byte h.version) (.bind (readIntBE_decodes .byte h.flags)
      (.bind (readIntBE_decodes .smallInt h.stream) (.bind (readIntBE_decodes .byte h.opcode)
        ((readIntBE_decodes .int h.length).map
          (fun length ↦ FrameHeader.mk h.version h.flags h.stream h.opcode length)))))
  simpa only [encode, encodeFront, List.append_assoc] using hp

/-- The layout determines the header. -/
theorem encode_injective {h h' : FrameHeader} (he : h.encode = h'.encode) : h = h' := by
  have hd := (h.parse_decodes.run_at [] [] (fun _ ↦ 0)).1
  rw [he] at hd
  have hd' := (h'.parse_decodes.run_at [] [] (fun _ ↦ 0)).1
  exact Except.ok.inj (hd.symm.trans hd')

/-- Any nine bytes are the layout of some header. -/
theorem exists_encode (bs : List UInt8) (h : bs.length = kHeaderSize) :
    ∃ header : FrameHeader, header.encode = bs := by
  match bs, h with
  | [b₀, b₁, b₂, b₃, b₄, b₅, b₆, b₇, b₈], _ =>
    have hs : ofBE [b₂, b₃] < 2 ^ 16 := by simpa using ofBE_lt [b₂, b₃]
    have hl : ofBE [b₅, b₆, b₇, b₈] < 2 ^ 32 := by simpa using ofBE_lt [b₅, b₆, b₇, b₈]
    refine ⟨⟨b₀, b₁, IntegralType.smallInt.ofBits (ofBE [b₂, b₃]), b₄,
      IntegralType.int.ofBits (ofBE [b₅, b₆, b₇, b₈])⟩, ?_⟩
    have ht : IntegralType.smallInt.toBits (IntegralType.smallInt.ofBits (ofBE [b₂, b₃])) =
        ofBE [b₂, b₃] := by
      change (BitVec.ofNat 16 (ofBE [b₂, b₃])).toNat = _
      rw [BitVec.toNat_ofNat, Nat.mod_eq_of_lt hs]
    have hi : IntegralType.int.toBits (IntegralType.int.ofBits (ofBE [b₅, b₆, b₇, b₈])) =
        ofBE [b₅, b₆, b₇, b₈] := by
      change (BitVec.ofNat 32 (ofBE [b₅, b₆, b₇, b₈])).toNat = _
      rw [BitVec.toNat_ofNat, Nat.mod_eq_of_lt hl]
    have h₁ : ∀ b : UInt8, toBE 1 b.toNat = [b] := by
      intro b
      simp [toBE]
    have h₂ : toBE 2 (ofBE [b₂, b₃]) = [b₂, b₃] := toBE_ofBE [b₂, b₃]
    have h₄ : toBE 4 (ofBE [b₅, b₆, b₇, b₈]) = [b₅, b₆, b₇, b₈] := toBE_ofBE [b₅, b₆, b₇, b₈]
    simp only [encode, encodeFront]
    rw [ht, hi, h₁, h₁, h₁, h₂, h₄]
    rfl

/-- Updating the length replaces that field only. -/
theorem updateLength_run (h : FrameHeader) (n : Int32) (body : List UInt8) :
    (updateLength n).run (h.encode ++ body) = .ok ((), { h with length := n }.encode ++ body) := by
  have ht : (h.encode ++ body).take 5 = h.encodeFront := by
    rw [encode, List.append_assoc, List.take_left' (length_encodeFront h)]
  have hd : (h.encode ++ body).drop 9 = body := List.drop_left' (length_encode h)
  change Except.ok ((), (h.encode ++ body).take 5 ++ toBE 4 (IntegralType.int.toBits n) ++
    (h.encode ++ body).drop 9) = _
  rw [ht, hd]
  rfl

end FrameHeader

/-- `Compressor`, `include/cassandra/io/protocol/lz4_utils.hpp:10`: `compress` appends
to an output buffer, `decompress` returns a new one. -/
structure Compressor where
  compress : List UInt8 → BufferWriter Int32
  decompress : List UInt8 → Except Exception (List UInt8)

/-- The two calls into the LZ4 library: `LZ4_compress_default`, which may fail, and
`LZ4_decompress_safe` with the capacity of its output, which returns the bytes written or
a negative code. -/
structure Lz4 where
  compressDefault : List UInt8 → Option (List UInt8)
  decompressSafe : List UInt8 → Nat → Except Int (List UInt8)

namespace Lz4

/-- `Lz4Compressor::Compress`, `src/io/protocol/lz4_utils.cpp:14`. -/
def compress (lz4 : Lz4) (source : List UInt8) : BufferWriter Int32 := do
  match lz4.compressDefault source with
  | none => throw (.error "LZ4 compression failed")
  | some compressed =>
    writeIntBE .int (Int32.ofNat source.length)
    modify (· ++ compressed)
    return Int32.ofNat source.length

/-- The exception of a decompression whose return value is not the announced size. -/
def decompressionFailed (uncompressedSize ret : Int) : Exception :=
  .error ("LZ4 decompression failed, expected: " ++ toString uncompressedSize ++
    ", actual size: " ++ toString ret)

/-- `Lz4Compressor::Decompress`, `lz4_utils.cpp:45`. The size comes from the first four
bytes; a negative one makes `resize` throw. -/
def decompress (lz4 : Lz4) (source : List UInt8) : Except Exception (List UInt8) := do
  let uncompressedSize ← (Program.run ⟨source, fun _ ↦ 0⟩ (readIntBE .int) (.at 0)).1
  let size := Int32.toInt uncompressedSize
  if size < 0 then throw .lengthError
  match lz4.decompressSafe (source.drop 4) size.toNat with
  | .error ret => throw (decompressionFailed size ret)
  | .ok output =>
    if (output.length : Int) ≠ size then throw (decompressionFailed size output.length)
    return output

/-- `Lz4Compressor`, `lz4_utils.hpp:16`. -/
def compressor (lz4 : Lz4) : Compressor := ⟨lz4.compress, lz4.decompress⟩

end Lz4
end CassandraDriver.Protocol
