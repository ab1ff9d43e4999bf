import CassandraDriver.Protocol.RequestFaithful

/-!
# Compressed requests

Library `Protocol`. `Lz4Compressor::Compress` with the offsets and sizes of
`src/io/protocol/lz4_utils.cpp:14–43`, the calls into the LZ4 library being a parameter, and
how a request serialized with it relates to the same request serialized without.
-/

namespace CassandraDriver.Protocol
open CassandraDriver.Lib CassandraDriver.Io

/-- The LZ4 calls with the capacity of their output: what `LZ4_compress_default` writes,
nothing when it fails, and what `LZ4_decompress_safe` writes or its negative code. -/
structure Lz4Api where
  compressDefault : List UInt8 → Nat → List UInt8
  decompressSafe : List UInt8 → Nat → Except Int (List UInt8)

/-- `LZ4_MAX_INPUT_SIZE`. -/
def lz4MaxInputSize : Nat := 0x7E000000

/-- `LZ4_compressBound`. -/
def lz4CompressBound (inputSize : Nat) : Nat :=
  if inputSize > lz4MaxInputSize then 0 else inputSize + inputSize / 255 + 16

namespace Lz4Api

/-- `Lz4Compressor::Compress`, `lz4_utils.cpp:14`: the output grows by the bound and a size
field, the compressed bytes go behind the field, the field is filled, and the rest is cut. -/
def compress (api : Lz4Api) (source : List UInt8) : BufferWriter Int32 := do
  let outputSize := (← get).length
  let compressedSize := lz4CompressBound source.length
  modify (resize (outputSize + compressedSize + 4))
  let compressed := api.compressDefault source compressedSize
  if compressed.length ≤ 0 then throw (.error "LZ4 compression failed")
  modify (overwrite (outputSize + 4) compressed)
  modify (overwrite outputSize
    (toBE 4 (IntegralType.int.toBits (Int32.ofNat source.length))))
  modify (resize (outputSize + 4 + compressed.length))
  return Int32.ofNat source.length

/-- The calls without their capacities. -/
def toLz4 (api : Lz4Api) : Lz4 where
  compressDefault source :=
    match api.compressDefault source (lz4CompressBound source.length) with
    | [] => none
    | b :: bs => some (b :: bs)
  decompressSafe := api.decompressSafe

/-- `Lz4Compressor`, `include/cassandra/io/protocol/lz4_utils.hpp:16`. -/
def compressor (api : Lz4Api) : Compressor := ⟨api.compress, api.toLz4.decompress⟩

/-- What the LZ4 library promises for a source within `LZ4_MAX_INPUT_SIZE`: compression into
`LZ4_compressBound` bytes succeeds, stays within them, and decompression inverts it. -/
structure WorksOn (api : Lz4Api) (source : List UInt8) : Prop where
  succeeds : 0 < (api.compressDefault source (lz4CompressBound source.length)).length
  within : (api.compressDefault source (lz4CompressBound source.length)).length ≤
    lz4CompressBound source.length
  inverts : api.decompressSafe (api.compressDefault source (lz4CompressBound source.length))
    source.length = .ok source

/-- The size field and the compressed bytes. -/
def encode (api : Lz4Api) (source : List UInt8) : List UInt8 :=
  toBE 4 (IntegralType.int.toBits (Int32.ofNat source.length)) ++
    api.compressDefault source (lz4CompressBound source.length)

private theorem placed (buffer field compressed : List UInt8) (bound : Nat)
    (hfield : field.length = 4) (hwithin : compressed.length ≤ bound) :
    resize (buffer.length + 4 + compressed.length) (overwrite buffer.length field
      (overwrite (buffer.length + 4) compressed (resize (buffer.length + bound + 4) buffer))) =
      buffer ++ (field ++ compressed) := by
  -- The grown buffer, cut where the copies go.
  have hgrown : resize (buffer.length + bound + 4) buffer =
      buffer ++ List.replicate 4 0 ++ List.replicate compressed.length 0 ++
        List.replicate (bound - compressed.length) 0 := by
    rw [Nat.add_assoc, resize_add, List.append_assoc, List.append_assoc,
      List.replicate_append_replicate, List.replicate_append_replicate]
    congr 2
    omega
  have hcopied := overwrite_append (buffer ++ List.replicate 4 0)
    (List.replicate compressed.length 0) compressed
    (List.replicate (bound - compressed.length) 0) List.length_replicate
  rw [List.length_append, List.length_replicate, List.append_assoc _ compressed] at hcopied
  have hfilled := overwrite_append buffer (List.replicate 4 0) field
    (compressed ++ List.replicate (bound - compressed.length) 0)
    (by rw [hfield, List.length_replicate])
  have hcut := resize_length (buffer ++ (field ++ compressed))
    (List.replicate (bound - compressed.length) 0)
  rw [List.length_append, List.length_append, hfield, ← Nat.add_assoc] at hcut
  rw [hgrown, hcopied, hfilled]
  simpa only [List.append_assoc] using hcut

/-- `Compress` leaves what was in the output and appends the size field and the compressed
bytes. -/
theorem compress_run (api : Lz4Api) (source buffer : List UInt8) (h : api.WorksOn source) :
    (api.compress source).run buffer =
      .ok (Int32.ofNat source.length, buffer ++ api.encode source) := by
  have hplaced := placed buffer (toBE 4 (IntegralType.int.toBits (Int32.ofNat source.length)))
    _ _ (length_toBE _ _) h.within
  have hne : ¬ (api.compressDefault source (lz4CompressBound source.length)).length ≤ 0 :=
    Nat.not_le.mpr h.succeeds
  rw [encode, ← hplaced]
  simp only [compress, if_neg hne]
  rfl

/-- `Decompress` returns what the library wrote exactly when that is as long as the size field
says. -/
theorem decompress_eq_ok_iff (lz4 : Lz4) (source output : List UInt8) :
    lz4.decompress source = .ok output ↔
      ∃ size : Int32, (Program.run ⟨source, fun _ ↦ 0⟩ (readIntBE .int) (.at 0)).1 = .ok size ∧
        size.toInt = output.length ∧
        lz4.decompressSafe (source.drop 4) output.length = .ok output := by
  unfold Lz4.decompress
  cases (Program.run ⟨source, fun _ ↦ 0⟩ (readIntBE .int) (.at 0)).1 with
  | error e =>
    constructor
    · intro h
      cases h
    · rintro ⟨size, h, -⟩
      cases h
  | ok size =>
    simp only [bind, Except.bind, pure, Except.pure]
    constructor
    · intro h
      split at h
      · cases h
      · next hpos =>
        split at h
        · cases h
        · next out hsafe =>
          split at h
          · cases h
          · next hlength =>
            cases h
            refine ⟨size, rfl, (not_not.mp hlength).symm, ?_⟩
            rwa [← not_not.mp hlength, Int.toNat_natCast] at hsafe
    · rintro ⟨size', hsize, hlength, hsafe⟩
      cases hsize
      rw [hlength, if_neg (by omega), Int.toNat_natCast, hsafe]
      exact if_neg (not_not.mpr rfl)

/-- What was compressed comes back. -/
theorem decompress_encode (api : Lz4Api) (source : List UInt8) (hsize : source.length < 2 ^ 31)
    (h : api.WorksOn source) : api.toLz4.decompress (api.encode source) = .ok source := by
  have hread := ((readIntBE_decodes .int (Int32.ofNat source.length)).run_at []
    (api.compressDefault source (lz4CompressBound source.length)) (fun _ ↦ 0)).1
  have hcast : Int32.toInt (Int32.ofNat source.length) = source.length :=
    LenType.int.toInt_cast source.length (Nat.le_sub_one_of_lt hsize)
  have hdrop : (api.encode source).drop 4 =
      api.compressDefault source (lz4CompressBound source.length) :=
    List.drop_left' (length_toBE _ _)
  rw [List.nil_append] at hread
  refine (decompress_eq_ok_iff api.toLz4 _ source).mpr ⟨_, hread, hcast, ?_⟩
  rw [hdrop]
  exact h.inverts

/-- A decompression that returns gives as many bytes as the size field says. -/
theorem decompress_size (lz4 : Lz4) (source output : List UInt8)
    (h : lz4.decompress source = .ok output) :
    4 ≤ source.length ∧ output.length < 2 ^ 31 ∧ source.take 4 = toBE 4 output.length := by
  obtain ⟨size, hread, hlength, -⟩ := (decompress_eq_ok_iff lz4 source output).mp h
  rw [readIntBE_run .int ⟨source, fun _ ↦ 0⟩] at hread
  split at hread
  · next hfour =>
    cases hread
    have hfield : (source.take 4).length = 4 := List.length_take_of_le hfour
    have hlt : ofBE (source.take 4) < 2 ^ 32 := by
      have hb := ofBE_lt (source.take 4)
      rwa [hfield] at hb
    change (BitVec.ofNat 32 (ofBE (source.take 4))).toInt = output.length at hlength
    rw [BitVec.toInt_eq_toNat_cond, BitVec.toNat_ofNat, Nat.mod_eq_of_lt hlt] at hlength
    have hdeclared : ofBE (source.take 4) = output.length ∧ output.length < 2 ^ 31 := by
      split at hlength
      · omega
      · omega
    have hbytes := toBE_ofBE (source.take 4)
    rw [hfield, hdeclared.1] at hbytes
    exact ⟨hfour, hdeclared.2, hbytes.symm⟩
  · cases hread

/-- Size field and compressed bytes are within what the length field holds. -/
theorem length_encode_lt (api : Lz4Api) (source : List UInt8)
    (hsize : source.length ≤ lz4MaxInputSize) (h : api.WorksOn source) :
    (api.encode source).length < 2 ^ 31 := by
  have hwithin := h.within
  have hbound : lz4CompressBound source.length = source.length + source.length / 255 + 16 := by
    rw [lz4CompressBound, if_neg (by omega)]
  have hmax : lz4MaxInputSize = 0x7E000000 := rfl
  rw [encode, List.length_append, length_toBE]
  omega

end Lz4Api

/-- Query parameters are written uniformly. -/
theorem writeParameters_uniform (level : Consistency) (params : List (List UInt8)) :
    Uniform (writeParameters level params) := by
  unfold writeParameters
  apply (Ty.write_uniform (.integral .short) level.code).seq
  cases params.isEmpty with
  | true => exact (Uniform.of_appends (writeByte_appends 0x02)).seq .pure
  | false =>
    exact (Uniform.of_appends (writeByte_appends 0x03)).seq
      ((Ty.write_uniform (.integral .short) _).seq (.forM params Ty.bytes.write_uniform))

/-- A statement of a batch is written uniformly. -/
theorem writeStatement_uniform (s : BatchStatement) : Uniform (writeStatement s) := by
  have htail : Uniform (do
      writeShort (UInt16.ofNat s.params.length)
      if s.params.isEmpty then return ()
      s.params.forM Ty.bytes.write) := by
    apply (Ty.write_uniform (.integral .short) _).seq
    cases s.params.isEmpty with
    | true => exact .pure
    | false => exact .forM s.params Ty.bytes.write_uniform
  unfold writeStatement
  apply (Uniform.of_appends (writeByte_appends s.kind)).seq
  cases s.query with
  | string text => exact (Ty.longString.write_uniform text).seq htail
  | id i => exact (Ty.shortBytes.write_uniform i).seq htail

namespace RequestMessage

/-- A body never depends on what stands in front of it. -/
theorem serializeBody_uniform (m : RequestMessage) : Uniform m.serializeBody := by
  cases m with
  | options => exact .pure
  | startup m => exact Ty.stringMap.write_uniform m.options
  | query level text params =>
    exact (Ty.longString.write_uniform text).seq (writeParameters_uniform level params)
  | prepare text => exact Ty.longString.write_uniform text
  | execute level i params =>
    exact (Ty.shortBytes.write_uniform i).seq (writeParameters_uniform level params)
  | batch queries level =>
    exact (Uniform.of_appends (writeByte_appends 0)).seq
      ((Ty.write_uniform (.integral .short) _).seq
        ((Uniform.forM queries writeStatement_uniform).seq
          ((Ty.write_uniform (.integral .short) level.code).seq
            (Uniform.of_appends (writeByte_appends 0)))))

/-- Header and compressed body, before the length is known. -/
theorem serializeParts_compressed (api : Lz4Api) (m : RequestMessage) (stream : Int16)
    (body : List UInt8) (hbody : m.serializeBody.run [] = .ok ((), body))
    (hlz4 : api.WorksOn body) :
    (m.serializeParts stream (some api.compressor)).run [] =
      .ok ((), (m.compressedHeader stream).encode ++ api.encode body) := by
  have hrun : (m.serializeParts stream (some api.compressor)).run [] =
      ((m.compressedHeader stream).serialize.run [] >>= fun h ↦
        m.serializeBody.run [] >>= fun b ↦
          (api.compress b.2).run h.2 >>= fun c ↦ .ok ((), c.2)) := by
    cases hb : m.serializeBody.run [] with
    | error e =>
      rw [hb] at hbody
      cases hbody
    | ok b =>
      simp only [serializeParts, hb]
      rfl
  have hheader := (m.compressedHeader stream).serialize_appends []
  rw [hrun, hheader, hbody, List.nil_append]
  change ((api.compress body).run (m.compressedHeader stream).encode >>=
    fun c ↦ .ok ((), c.2)) = _
  rw [api.compress_run body _ hlz4]
  rfl

/-- Compressed sending refines plain sending: only the compression flag, the length field and
the body differ, the length counts the compressed body, which starts with the plain size and
decompresses to the plain body; and no decompression returns another number of bytes than its
input declares. -/
theorem serialize_compressed_refines (api : Lz4Api) (m : RequestMessage) (stream : Int16)
    (body : List UInt8) (hbody : m.serializeBody.run [] = .ok ((), body))
    (hsize : body.length ≤ lz4MaxInputSize) (hlz4 : api.WorksOn body) :
    (∃ header compressed,
      (m.serialize stream none).run [] = .ok ((), FrameHeader.encode header ++ body) ∧
      (m.serialize stream (some api.compressor)).run [] =
        .ok ((), { header with
          flags := header.flags ||| kCompression
          length := Int32.ofNat compressed.length }.encode ++ compressed) ∧
      header.flags &&& kCompression = 0 ∧
      (Int32.ofNat compressed.length).toInt = compressed.length ∧
      compressed.take 4 = toBE 4 body.length ∧
      api.compressor.decompress compressed = .ok body) ∧
    ∀ input output, api.compressor.decompress input = .ok output →
      4 ≤ input.length ∧ output.length < 2 ^ 31 ∧ input.take 4 = toBE 4 output.length := by
  have happends := m.serializeBody_uniform.appends hbody
  have hlt : body.length < 2 ^ 31 := Nat.lt_of_le_of_lt hsize (by decide)
  have hencode := api.length_encode_lt body hsize hlz4
  have hplain : (m.serializeParts stream none).run [] =
      .ok ((), (m.header stream).encode ++ body) :=
    ((m.header stream).serialize_appends.seq happends) []
  have hcompressed := serializeParts_compressed api m stream body hbody hlz4
  have hsent := serialize_run_of_parts m stream none _ body hplain rfl hlt
  have hsent' := serialize_run_of_parts m stream _ _ _ hcompressed rfl hencode
  have hflags : (0 : UInt8) &&& kCompression = 0 := by decide
  have hback := api.decompress_encode body hlt hlz4
  refine ⟨⟨{ m.header stream with length := Int32.ofNat body.length }, api.encode body, hsent,
    hsent', hflags, ?_, ?_, hback⟩, fun input output ↦ Lz4Api.decompress_size _ input output⟩
  · exact LenType.int.toInt_cast _ (Nat.le_sub_one_of_lt hencode)
  · have hbits : IntegralType.int.toBits (Int32.ofNat body.length) = body.length :=
      LenType.int.toBits_cast body.length (Nat.le_sub_one_of_lt hlt)
    rw [Lz4Api.encode, hbits]
    exact List.take_left' (length_toBE _ _)

/-- LZ4 blocks of fewer than 13 bytes: a token with their number, and the bytes as literals. -/
def shortBlocks : Lz4Api where
  compressDefault source capacity :=
    if source.length < 13 ∧ source.length < capacity then
      UInt8.ofNat (16 * source.length) :: source
    else []
  decompressSafe block capacity :=
    if (block.tail.length = (block.headD 0).toNat / 16) ∧ block.tail.length ≤ capacity then
      .ok block.tail
    else .error (-1)

/-- A PREPARE with a body of nine bytes, plain and compressed. -/
theorem serialize_compressed_refines_prepare : ∃ header compressed,
    ((prepare (utf8 "USE k")).serialize 7 none).run [] =
      .ok ((), FrameHeader.encode header ++ ([0, 0, 0, 5] ++ utf8 "USE k")) ∧
    ((prepare (utf8 "USE k")).serialize 7 (some shortBlocks.compressor)).run [] =
      .ok ((), { header with
        flags := header.flags ||| kCompression
        length := Int32.ofNat compressed.length }.encode ++ compressed) ∧
    compressed.take 4 = [0, 0, 0, 9] ∧
    shortBlocks.compressor.decompress compressed = .ok ([0, 0, 0, 5] ++ utf8 "USE k") := by
  obtain ⟨⟨header, compressed, hplain, hsent, -, -, hfield, hback⟩, -⟩ :=
    serialize_compressed_refines shortBlocks (prepare (utf8 "USE k")) 7
      ([0, 0, 0, 5] ++ utf8 "USE k") (by decide) (by decide)
      ⟨by decide, by decide, by decide⟩
  exact ⟨header, compressed, hplain, hsent, hfield, hback⟩

end RequestMessage
end CassandraDriver.Protocol
