import Fluent.Library.LittleEndian

namespace Fluent.WasmIpc

open Fluent.Library

def binaryMagic : UInt8 × UInt8 × UInt8 × UInt8 := (0x47, 0x52, 0x50, 0x48)

def binarySchemaVersion : UInt32 := 1

def maxIpcPayloadSize : ℕ := 64 * 1024 * 1024

inductive IpcError where
  | bufferTooSmall
  | invalidMagic
  | unsupportedVersion
  | unknownPayloadType (v : UInt32)
  | checksumMismatch
  | payloadTooLarge (size : UInt32)
deriving DecidableEq

structure BinaryHeader where
  magic : UInt8 × UInt8 × UInt8 × UInt8
  version : UInt32
  payloadType : UInt32
  payloadSize : UInt32
  checksum : UInt32
deriving DecidableEq

structure BinaryExecutionResult where
  header : BinaryHeader
  success : UInt32
  errorCode : UInt32
  outputOffset : UInt32
  outputLen : UInt32
  providesWordsOffset : UInt32
  providesWordsCount : UInt32
deriving DecidableEq

def resultSize : ℕ := 44

def computeChecksum (data : List UInt8) : UInt32 := data.foldl (fun acc b => acc + b.toUInt32) 0

def BinaryHeader.bytes (h : BinaryHeader) : List UInt8 :=
  [h.magic.1, h.magic.2.1, h.magic.2.2.1, h.magic.2.2.2] ++ toLeBytes h.version ++ toLeBytes h.payloadType ++
    toLeBytes h.payloadSize ++ toLeBytes h.checksum

def encodeResult (result : BinaryExecutionResult) (output : List UInt8) : List UInt8 :=
  result.header.bytes ++ toLeBytes result.success ++ toLeBytes result.errorCode ++ toLeBytes result.outputOffset ++
    toLeBytes result.outputLen ++ toLeBytes result.providesWordsOffset ++ toLeBytes result.providesWordsCount ++ output

variable (buf : List UInt8)

def readMagic : UInt8 × UInt8 × UInt8 × UInt8 :=
  match buf with
  | a :: b :: c :: d :: _ => (a, b, c, d)
  | _ => (0, 0, 0, 0)

def readResult : BinaryExecutionResult where
  header := ⟨readMagic buf, readU32 buf 4, readU32 buf 8, readU32 buf 12, readU32 buf 16⟩
  success := readU32 buf 20
  errorCode := readU32 buf 24
  outputOffset := readU32 buf 28
  outputLen := readU32 buf 32
  providesWordsOffset := readU32 buf 36
  providesWordsCount := readU32 buf 40

def payloadChecksum (payloadSize : ℕ) : UInt32 :=
  if resultSize + payloadSize ≤ buf.length then computeChecksum ((buf.drop resultSize).take payloadSize)
  else computeChecksum (buf.drop resultSize)

def readOutput (offset len : ℕ) : List UInt8 :=
  if offset + len ≤ buf.length then (buf.drop offset).take len else []

def decodeResult : Except IpcError (BinaryExecutionResult × List UInt8) :=
  let result := readResult buf
  if buf.length < resultSize then .error .bufferTooSmall
  else if result.header.magic ≠ binaryMagic then .error .invalidMagic
  else if result.header.version ≠ binarySchemaVersion then .error .unsupportedVersion
  else if maxIpcPayloadSize < result.header.payloadSize.toNat then .error (.payloadTooLarge result.header.payloadSize)
  else if result.header.checksum ≠ 0 ∧ payloadChecksum buf result.header.payloadSize.toNat ≠ result.header.checksum then
    .error .checksumMismatch
  else .ok (result, readOutput buf result.outputOffset.toNat result.outputLen.toNat)

structure Describes (result : BinaryExecutionResult) (output : List UInt8) : Prop where
  magic : result.header.magic = binaryMagic
  version : result.header.version = binarySchemaVersion
  small : output.length ≤ maxIpcPayloadSize
  payloadSize : result.header.payloadSize.toNat = output.length
  outputLen : result.outputLen.toNat = output.length
  outputOffset : result.outputOffset.toNat = resultSize
  checksum : result.header.checksum = 0 ∨ result.header.checksum = computeChecksum output

theorem readResult_encodeResult (result : BinaryExecutionResult) (output : List UInt8) :
    readResult (encodeResult result output) = result := by
  have hread (x : UInt32) : UInt32.ofNat (leValue (leBytes 4 x.toNat)) = x := by
    rw [leValue_leBytes, Nat.mod_eq_of_lt (by exact x.toNat_lt), UInt32.ofNat_toNat]
  simp only [leBytes] at hread
  obtain ⟨⟨magic, version, payloadType, payloadSize, checksum⟩, success, errorCode, outputOffset, outputLen,
    providesWordsOffset, providesWordsCount⟩ := result
  simp only [readResult, readMagic, readU32, wordAt, encodeResult, BinaryHeader.bytes, toLeBytes, leBytes, List.cons_append,
    List.nil_append, List.drop_succ_cons, List.drop_zero, List.take_succ_cons, List.take_zero, hread]

theorem length_encodeResult (result : BinaryExecutionResult) (output : List UInt8) :
    (encodeResult result output).length = resultSize + output.length := by
  simp [encodeResult, BinaryHeader.bytes, toLeBytes, resultSize]
  omega

theorem drop_encodeResult (result : BinaryExecutionResult) (output : List UInt8) :
    (encodeResult result output).drop resultSize = output := rfl

theorem Describes.decode_encode {result : BinaryExecutionResult} {output : List UInt8} (h : Describes result output) :
    decodeResult (encodeResult result output) = .ok (result, output) := by
  have hchecksum : payloadChecksum (encodeResult result output) output.length = computeChecksum output := by
    rw [payloadChecksum, length_encodeResult, if_pos (Nat.le_refl _), drop_encodeResult, List.take_length]
  have hdamaged : ¬(result.header.checksum ≠ 0 ∧ computeChecksum output ≠ result.header.checksum) := by
    rintro ⟨hset, hdiffers⟩
    exact hdiffers (h.checksum.resolve_left hset).symm
  have houtput : readOutput (encodeResult result output) resultSize output.length = output := by
    rw [readOutput, length_encodeResult, if_pos (Nat.le_refl _), drop_encodeResult, List.take_length]
  unfold decodeResult
  dsimp only
  rw [readResult_encodeResult, length_encodeResult, if_neg (by omega), if_neg (not_not.mpr h.magic),
    if_neg (not_not.mpr h.version), h.payloadSize, if_neg (Nat.not_lt.mpr h.small), hchecksum, if_neg hdamaged,
    h.outputOffset, h.outputLen, houtput]

theorem decodeResult_ok {buf output : List UInt8} {result : BinaryExecutionResult}
    (h : decodeResult buf = .ok (result, output)) :
    result = readResult buf ∧ output = readOutput buf result.outputOffset.toNat result.outputLen.toNat := by
  unfold decodeResult at h
  dsimp only at h
  split_ifs at h
  obtain ⟨rfl, rfl⟩ := Prod.mk.inj (Except.ok.inj h)
  exact ⟨rfl, rfl⟩

theorem length_readOutput_iff (offset len : ℕ) :
    (readOutput buf offset len).length = len ↔ offset + len ≤ buf.length ∨ len = 0 := by
  unfold readOutput
  split_ifs with hinside
  · have hlen : ((buf.drop offset).take len).length = len := by
      rw [List.length_take, List.length_drop]
      omega
    exact iff_of_true hlen (.inl hinside)
  · rw [List.length_nil]
    constructor
    · exact fun h => .inr h.symm
    · exact fun h => (h.resolve_left hinside).symm

theorem output_announced_iff (buf : List UInt8) :
    (∀ result output, Describes result output → decodeResult (encodeResult result output) = .ok (result, output)) ∧
      ∀ result output, decodeResult buf = .ok (result, output) →
        (output.length = result.outputLen.toNat ↔
          (readU32 buf 28).toNat + (readU32 buf 32).toNat ≤ buf.length ∨ (readU32 buf 32).toNat = 0) := by
  refine ⟨fun result output h => h.decode_encode, fun result output h => ?_⟩
  obtain ⟨rfl, rfl⟩ := decodeResult_ok h
  exact length_readOutput_iff buf _ _

def frame (offset len : UInt32) : BinaryExecutionResult :=
  ⟨⟨binaryMagic, binarySchemaVersion, 2, 2, 0⟩, 1, 0, offset, len, 0, 0⟩

theorem described_frame_decoded : Describes (frame 44 2) [1, 2] ∧
    decodeResult (encodeResult (frame 44 2) [1, 2]) = .ok (frame 44 2, [1, 2]) := by
  have hframe : Describes (frame 44 2) [1, 2] := by
    constructor <;> decide
  exact ⟨hframe, (output_announced_iff []).1 _ _ hframe⟩

theorem output_range_patched : decodeResult (encodeResult (frame 44 200) [1, 2]) = .ok (frame 44 200, []) ∧
    ([] : List UInt8).length ≠ (frame 44 200).outputLen.toNat := by
  decide +kernel

end Fluent.WasmIpc
