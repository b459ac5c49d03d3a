import SculkProtocol.Encryption.Failure
import SculkProtocol.Utility.ReadOnlyBinaryStream

/-!
# Received batches

`Session::deserializeBatchPackets` takes a received payload through decryption,
decompression and the split into packets. Decryption is where a payload is
authenticated: the checksum at its end has to be the one over the receiver's
counter and the rest.

`decrypt` answers with an empty success to a payload too short for a checksum, and
`deserializeBatchPackets` passes that on as an empty batch unless a compression
header is expected. `accepted_authentic` says that this is the only way past the
checksum: success implies authenticity exactly from the length of a checksum on.
`accepts_unauthenticated` is a payload of one byte.

The compressors are parameters.
-/

namespace SculkProtocol

/-- `compression::zlib::decompress` and `compression::snappy::decompress`. -/
structure Decompressors where
  zlib : Bytes → Except String Bytes
  snappy : Bytes → Except String Bytes

inductive CompressionAlgorithm
  | None
  | Zlib
  | Snappy
  deriving DecidableEq

/-- The enumerator of a signed character: -1, 0 or 1. -/
def CompressionAlgorithm.ofSignedChar (b : UInt8) : Option CompressionAlgorithm :=
  if b = 0xFF then some .None
  else if b = 0 then some .Zlib
  else if b = 1 then some .Snappy
  else none

namespace Session

/-- The loop that splits a payload into packets. -/
def readPackets (s : ReadOnlyBinaryStream) : Except String (List Bytes) :=
  if s.hasDataLeft then
    match _hsize : s.readUnsignedVarInt with
    | (_, .error _) => .error "failed to read batched packet size"
    | (s₁, .ok packetSize) =>
      if packetSize.toNat > s₁.size - s₁.getPosition then
        .error "batched packet size exceeds remaining payload"
      else
        match _hdata : s₁.readBytes packetSize.toNat with
        | (_, .error _) => .error "failed to read batched packet payload"
        | (s₂, .ok packetData) =>
          match readPackets s₂ with
          | .error e => .error e
          | .ok packets => .ok (packetData :: packets)
  else .ok []
termination_by s.left
decreasing_by
  exact Nat.lt_of_le_of_lt (ReadOnlyBinaryStream.readBytes_left ‹_›)
    (ReadOnlyBinaryStream.readUnsignedVarInt_left ‹_›)

/-- The payload behind the compression header, if there is one. -/
def decompress (D : Decompressors) (mCompressionType : Option CompressionAlgorithm)
    (decryptedBuffer : Bytes) : Except String Bytes :=
  match mCompressionType with
  | none => .ok decryptedBuffer
  | some _ =>
    match (ReadOnlyBinaryStream.ofBuffer decryptedBuffer).readSignedCharEnum with
    | (_, .error _) => .error "failed to read compression type from batch packet"
    | (s, .ok type) =>
      let compressedPayload := s.getLeftBufferView
      match CompressionAlgorithm.ofSignedChar type with
      | some .Zlib =>
        match D.zlib compressedPayload with
        | .ok res => .ok res
        | .error _ => .error "zlib decompression failed"
      | some .Snappy =>
        match D.snappy compressedPayload with
        | .ok res => .ok res
        | .error _ => .error "snappy decompression failed"
      | some .None => .ok compressedPayload
      | none => .error "unknown compression type in batch packet"

/-- What `deserializeBatchPackets` reads of a session. -/
structure Inbound where
  mEncryption : Option CryptoManager
  mCompressionType : Option CompressionAlgorithm

/-- The session afterwards, and the packets. -/
def deserializeBatchPackets (E : Evp) (D : Decompressors) (calls : EvpCalls) (session : Inbound)
    (batchedBuffer : Bytes) : Inbound × Except String (List Bytes) :=
  let decrypted :=
    match session.mEncryption with
    | some m =>
      let r := m.decrypt E calls batchedBuffer
      ({ session with mEncryption := some r.1 }, r.2)
    | none => (session, .ok batchedBuffer)
  match decrypted.2 with
  | .error _ => (decrypted.1, .error "Failed to decrypt data")
  | .ok decryptedBuffer =>
    match decompress D session.mCompressionType decryptedBuffer with
    | .error e => (decrypted.1, .error e)
    | .ok decompressedBuffer =>
      (decrypted.1, readPackets (ReadOnlyBinaryStream.ofBuffer decompressedBuffer))

end Session

/-! ### Authenticity -/

namespace CryptoManager

variable (E : Evp)

/-- The input ends in the checksum over the receiver's counter and the payload before
it, as the keystream at the receiver's position decrypts them. -/
def Authentic (m : CryptoManager) (input : Bytes) : Prop :=
  CHECKSUM_SIZE ≤ input.length ∧
    let clear := xorFrom (m.keystream E) m.decryptPosition input
    clear.drop (input.length - CHECKSUM_SIZE) =
      m.checksum E m.mDecryptCounter (clear.take (input.length - CHECKSUM_SIZE))

/-- A payload that has room for a checksum is decrypted only if it is authentic. -/
theorem decrypt_authentic {m : CryptoManager} {calls : EvpCalls} {input out : Bytes}
    (h8 : CHECKSUM_SIZE ≤ input.length) (h : (m.decrypt E calls input).2 = .ok out) :
    m.Authentic E input := by
  rcases decrypt_cases E m calls h8 with ⟨h1, -⟩ | ⟨h1, -⟩ | ⟨p, hp, -, h1⟩
  · exact absurd (h1.symm.trans h) (by simp)
  · exact absurd (h1.symm.trans h) (by simp)
  · have hpos : m.decryptPosition = p := by simp only [decryptPosition, position, hp]; rfl
    dsimp only at h1
    rw [h1] at h
    split at h
    · next hsum =>
      refine ⟨h8, ?_⟩
      rw [hpos]
      exact hsum.symm
    · exact absurd h (by simp)

/-- A payload too short for a checksum is answered with an empty success. -/
theorem decrypt_short (m : CryptoManager) (calls : EvpCalls) {input : Bytes}
    (h : input.length < CHECKSUM_SIZE) : m.decrypt E calls input = (m, .ok []) := by
  by_cases hne : input = []
  · rw [decrypt, if_pos hne]
  · rw [decrypt, if_neg hne, if_pos h]

end CryptoManager

namespace Session

variable (E : Evp) (D : Decompressors)

theorem readPackets_empty : readPackets (ReadOnlyBinaryStream.ofBuffer []) = .ok [] := by
  rw [readPackets]
  rfl

/-- An empty payload has no compression header. -/
theorem decompress_empty (type : CompressionAlgorithm) :
    decompress D (some type) [] = .error "failed to read compression type from batch packet" := rfl

/-- What comes out of a batch went through decryption. -/
theorem deserialize_ok {calls : EvpCalls} {m : CryptoManager}
    {type : Option CompressionAlgorithm} {batch : Bytes} {packets : List Bytes}
    (h : (deserializeBatchPackets E D calls ⟨some m, type⟩ batch).2 = .ok packets) :
    ∃ clear, (m.decrypt E calls batch).2 = .ok clear ∧
      ∃ payload, decompress D type clear = .ok payload := by
  simp only [deserializeBatchPackets] at h
  split at h
  · exact absurd h (by simp)
  · next clear hclear =>
    split at h
    · exact absurd h (by simp)
    · next payload hpayload => exact ⟨clear, hclear, payload, hpayload⟩

/-- A batch too short for a checksum is accepted as an empty one, unless a compression
header is expected. -/
theorem deserialize_short (m : CryptoManager) (calls : EvpCalls) {batch : Bytes}
    (h : batch.length < CryptoManager.CHECKSUM_SIZE) :
    (deserializeBatchPackets E D calls ⟨some m, none⟩ batch).2 = .ok [] := by
  simp only [deserializeBatchPackets, CryptoManager.decrypt_short E m calls h, decompress]
  exact readPackets_empty

/-- **Acceptance and authenticity.** An input of an encrypted session that is accepted is
authentic, exactly when it has room for a checksum: for `decrypt`, and for a batch
unless a compression header is expected in it. -/
theorem accepted_authentic (m : CryptoManager) (type : Option CompressionAlgorithm)
    (input : Bytes) :
    ((∀ calls out, (m.decrypt E calls input).2 = .ok out → m.Authentic E input) ↔
      CryptoManager.CHECKSUM_SIZE ≤ input.length) ∧
    ((∀ calls packets, (deserializeBatchPackets E D calls ⟨some m, type⟩ input).2 = .ok packets →
        m.Authentic E input) ↔
      CryptoManager.CHECKSUM_SIZE ≤ input.length ∨ type ≠ none) := by
  constructor
  · refine ⟨fun h => ?_, fun h8 calls out h => CryptoManager.decrypt_authentic E h8 h⟩
    by_contra hlt
    exact hlt (h .succeed [] (by rw [CryptoManager.decrypt_short E m _ (by omega)])).1
  · refine ⟨fun h => ?_, fun h calls packets hok => ?_⟩
    · by_contra hno
      simp only [not_or, not_not] at hno
      obtain ⟨hlt, rfl⟩ := hno
      exact hlt (h .succeed [] (deserialize_short E D m _ (Nat.lt_of_not_le hlt))).1
    · obtain ⟨clear, hclear, payload, hpayload⟩ := deserialize_ok E D hok
      by_cases h8 : CryptoManager.CHECKSUM_SIZE ≤ input.length
      · exact CryptoManager.decrypt_authentic E h8 hclear
      · -- too short: decryption gives nothing, and the header cannot be read
        obtain ⟨algorithm, rfl⟩ := Option.ne_none_iff_exists'.mp (h.resolve_left h8)
        rw [CryptoManager.decrypt_short E m calls (by omega)] at hclear
        cases hclear
        rw [decompress_empty] at hpayload
        exact absurd hpayload (by simp)

/-- A single byte is accepted, whatever the keystream and the hash are. -/
theorem accepts_unauthenticated :
    ∃ key input : Bytes, key.length = 16 ∧ input = [42] ∧ ∀ E D calls,
      ((CryptoManager.create key).decrypt E calls input).2 = .ok [] ∧
        (deserializeBatchPackets E D calls ⟨some (CryptoManager.create key), none⟩ input).2
          = .ok [] ∧
        ¬ (CryptoManager.create key).Authentic E input :=
  ⟨List.replicate 16 0, [42], rfl, rfl, fun E D calls =>
    ⟨by rw [CryptoManager.decrypt_short E _ calls (by decide)],
      deserialize_short E D _ calls (by decide), fun h => absurd h.1 (by decide)⟩⟩

end Session
end SculkProtocol
