import Mathlib.Algebra.Ring.Int.Defs
import SculkProtocol.Encryption.Delivery
import SculkProtocol.Session.Compression
import SculkProtocol.Utility.BinaryStream

/-!
# Batches there and back

`serializeBatchedPackets` takes a list of packets through framing, compression and
encryption, and `deserializeBatchPackets` goes the other way. Each layer has its own
round trip: `readPackets_write` for the framing, `decompress_compressBatch` for the
compressors and `InStep.delivered` for the encryption. `round_trip_iff` puts them together,
and says for which batches the composition fails: an empty one that Snappy compresses, and
those too large for a layer.
-/

namespace SculkProtocol

/-- The signed character of an enumerator. -/
def CompressionAlgorithm.toSignedChar : CompressionAlgorithm → UInt8
  | .None => 0xFF
  | .Zlib => 0
  | .Snappy => 1

/-- An algorithm comes back from its number. -/
@[simp] theorem CompressionAlgorithm.ofSignedChar_toSignedChar (type : CompressionAlgorithm) :
    CompressionAlgorithm.ofSignedChar type.toSignedChar = some type := by
  cases type <;> rfl

namespace Session

open BinaryStream (writeUnsignedVarInt)

/-- A packet behind its size, which is cast to 32 bits. -/
def writePacket (packet : Bytes) : Bytes :=
  writeUnsignedVarInt (UInt32.ofNat packet.length) ++ packet

/-- The loop that writes the packets of a batch into one buffer. -/
def writePackets (packets : List Bytes) : Bytes := packets.flatMap writePacket

/-- `static_cast<std::size_t>` of a signed 32-bit value -/
def castSize (n : Int32) : ℕ := (n.toInt % 2 ^ 64).toNat

/-- The compression type written in front of a payload. -/
def headerType (type : CompressionAlgorithm) (threshold : Int32) (packetsBuffer : Bytes) :
    CompressionAlgorithm :=
  if packetsBuffer.length ≥ castSize threshold then type else .None

/-- The compression in `serializeBatchedPackets` and `sendBatchedBufferImmediately`. -/
def compressBatch (L : Codecs) (mCompressionType : Option CompressionAlgorithm)
    (mCompressionThreshold : Int32) (packetsBuffer : Bytes) : Bytes :=
  match mCompressionType with
  | none => packetsBuffer
  | some type =>
    let headerType := headerType type mCompressionThreshold packetsBuffer
    headerType.toSignedChar ::
      match headerType with
      | .Zlib => compression.zlib.compress L packetsBuffer
      | .Snappy => compression.snappy.compress L packetsBuffer
      | .None => packetsBuffer

/-- What `serializeBatchedPackets` reads of a session. -/
structure Outbound where
  mEncryption : Option CryptoManager
  mCompressionType : Option CompressionAlgorithm
  mCompressionThreshold : Int32

/-- The encryption in `serializeBatchedPackets` and `sendBatchedBufferImmediately`. -/
def encryptBatch (E : Evp) (calls : EvpCalls) (mEncryption : Option CryptoManager)
    (finalBuffer : Bytes) : Option CryptoManager × Except String Bytes :=
  match mEncryption with
  | some m =>
    let r := m.encrypt E calls finalBuffer
    (some r.1, r.2)
  | none => (none, .ok finalBuffer)

/-- The session afterwards, and the batch. -/
def serializeBatchedPackets (E : Evp) (L : Codecs) (calls : EvpCalls) (session : Outbound)
    (packets : List Bytes) : Outbound × Except String Bytes :=
  let encrypted := encryptBatch E calls session.mEncryption
    (compressBatch L session.mCompressionType session.mCompressionThreshold (writePackets packets))
  ({ session with mEncryption := encrypted.1 },
    match encrypted.2 with
    | .ok finalBuffer => .ok finalBuffer
    | .error _ => .error "Failed to encrypt data")

/-! ### Framing -/

@[simp] theorem writePackets_nil : writePackets [] = [] := rfl

@[simp] theorem writePackets_cons (packet : Bytes) (packets : List Bytes) :
    writePackets (packet :: packets) = writePacket packet ++ writePackets packets := rfl

/-- A varint has a byte. -/
theorem writeUnsignedVarInt_ne_nil (v : UInt32) : writeUnsignedVarInt v ≠ [] := by
  rw [writeUnsignedVarInt, BinaryStream.writeVarIntGroups]
  split <;> simp

/-- Only the empty batch has no bytes. -/
theorem writePackets_ne_nil {packets : List Bytes} (h : packets ≠ []) :
    writePackets packets ≠ [] := by
  cases packets with
  | nil => exact absurd rfl h
  | cons packet packets => simp [writePacket, writeUnsignedVarInt_ne_nil]

section

open ReadOnlyBinaryStream

variable {s : ReadOnlyBinaryStream}

/-- A view with a byte has data left. -/
theorem hasDataLeft_of_view {b : UInt8} {rest : Bytes} (h : s.getLeftBufferView = b :: rest) :
    s.hasDataLeft = true := by
  have hlen := congrArg List.length h
  simp only [getLeftBufferView, List.length_drop, List.length_cons] at hlen
  exact decide_eq_true (by omega)

/-- An empty view has none. -/
theorem not_hasDataLeft_of_view (h : s.getLeftBufferView = []) : s.hasDataLeft = false := by
  have hlen := congrArg List.length h
  simp only [getLeftBufferView, List.length_drop, List.length_nil] at hlen
  exact decide_eq_false (by omega)

/-- What `readPackets` does with the first packet. -/
theorem readPackets_eq (s : ReadOnlyBinaryStream) : readPackets s =
    if s.hasDataLeft then
      match s.readUnsignedVarInt with
      | (_, .error _) => .error "failed to read batched packet size"
      | (s₁, .ok packetSize) =>
        if packetSize.toNat > s₁.size - s₁.getPosition then
          .error "batched packet size exceeds remaining payload"
        else
          match s₁.readBytes packetSize.toNat with
          | (_, .error _) => .error "failed to read batched packet payload"
          | (s₂, .ok packetData) =>
            match readPackets s₂ with
            | .error e => .error e
            | .ok packets => .ok (packetData :: packets)
    else .ok [] := by
  rw [readPackets]
  split
  · split
    · next hread => simp only [hread]
    · next hread =>
      simp only [hread]
      split
      · rfl
      · split
        · next hdata => simp only [hdata]
        · next s₂ packetData hdata =>
          cases hrest : readPackets s₂ with
          | error e => simp only [hdata, hrest]
          | ok packets => simp only [hdata, hrest]
  · rfl

/-- **Framing.** The packets of a batch are read back from its buffer. -/
theorem readPackets_write {packets : List Bytes} (hshort : ∀ p ∈ packets, p.length < 2 ^ 32)
    (hok : s.mHasOverflowed = false) (hview : s.getLeftBufferView = writePackets packets) :
    readPackets s = .ok packets := by
  induction packets generalizing s with
  | nil => rw [readPackets_eq, not_hasDataLeft_of_view hview, if_neg Bool.false_ne_true]
  | cons packet packets ih =>
    have hsize : (UInt32.ofNat packet.length).toNat = packet.length := by
      rw [UInt32.toNat_ofNat', Nat.mod_eq_of_lt (hshort _ List.mem_cons_self)]
    rw [writePackets_cons, writePacket, List.append_assoc] at hview
    have hsome : s.hasDataLeft = true := by
      obtain ⟨b, bytes, hb⟩ := List.exists_cons_of_ne_nil
        (writeUnsignedVarInt_ne_nil (UInt32.ofNat packet.length))
      rw [hb] at hview
      exact hasDataLeft_of_view hview
    have hview₁ := advance_view hview
    have hview₂ := advance_view hview₁
    -- the announced size is there
    have hroom : ¬ packet.length >
      (s.advance (writeUnsignedVarInt (UInt32.ofNat packet.length)).length).size
        - (s.advance (writeUnsignedVarInt (UInt32.ofNat packet.length)).length).getPosition := by
      have hlen := congrArg List.length hview₁
      simp only [getLeftBufferView, List.length_drop, List.length_append] at hlen
      simp only [size, getPosition]
      omega
    have hbytes := readBytes_view (s := s.advance _) hok hview₁
    have hrest := ih (s := (s.advance _).advance _)
      (fun p hp => hshort p (List.mem_cons_of_mem _ hp)) hok hview₂
    rw [readPackets_eq, if_pos hsome, readUnsignedVarInt_write hview]
    simp only [hsize, if_neg hroom, hbytes, hrest]

/-- **No batch is read from fewer bytes than it is written in.** -/
theorem readPackets_length {packets : List Bytes} (h : readPackets s = .ok packets) :
    (writePackets packets).length ≤ s.left := by
  induction packets generalizing s with
  | nil => exact Nat.zero_le _
  | cons packet packets ih =>
    rw [readPackets_eq] at h
    split at h
    · split at h
      · exact absurd h (by simp)
      · next s₁ packetSize hread =>
        split at h
        · exact absurd h (by simp)
        · split at h
          · exact absurd h (by simp)
          · next s₂ packetData hdata =>
            split at h
            · exact absurd h (by simp)
            · next rest hrest =>
              cases h
              -- the size is written in no more bytes than it was read from, and so are the others
              have hsize := readUnsignedVarInt_length hread
              obtain ⟨hlen, hleft⟩ := readBytes_length hdata
              have htail := ih hrest
              have hsame : UInt32.ofNat packet.length = packetSize := by
                rw [hlen, UInt32.ofNat_toNat]
              rw [writePackets_cons, writePacket, hsame, List.length_append, List.length_append]
              omega
    · exact absurd h (by simp)

end

/-! ### Compression -/

/-- The codec a batch goes through. -/
def codec (type : Option CompressionAlgorithm) (threshold : Int32) (packetsBuffer : Bytes) :
    CompressionAlgorithm :=
  match type with
  | some type => headerType type threshold packetsBuffer
  | none => .None

/-- A buffer that its codec gives back. -/
def Compressible (type : Option CompressionAlgorithm) (threshold : Int32) (packetsBuffer : Bytes) :
    Prop :=
  match codec type threshold packetsBuffer with
  | .Zlib => packetsBuffer.length ≤ compression.MAX_DECOMPRESSED_SIZE
  | .Snappy => packetsBuffer ≠ [] ∧ packetsBuffer.length ≤ compression.MAX_DECOMPRESSED_SIZE
  | .None => True

variable {E : Evp} {L : Codecs} {type : Option CompressionAlgorithm} {threshold : Int32}
  {packetsBuffer : Bytes}

open compression (decompressors)

/-- A payload behind its header. -/
theorem decompress_header (D : Decompressors) (type header : CompressionAlgorithm)
    (payload : Bytes) : decompress D (some type) (header.toSignedChar :: payload) =
      match header with
      | .Zlib =>
        match D.zlib payload with
        | .ok res => .ok res
        | .error _ => .error "zlib decompression failed"
      | .Snappy =>
        match D.snappy payload with
        | .ok res => .ok res
        | .error _ => .error "snappy decompression failed"
      | .None => .ok payload := by
  have hread : (ReadOnlyBinaryStream.ofBuffer (header.toSignedChar :: payload)).readSignedCharEnum =
      (⟨false, header.toSignedChar :: payload, 1⟩, .ok header.toSignedChar) := rfl
  have hleft : (⟨false, header.toSignedChar :: payload, 1⟩ : ReadOnlyBinaryStream).getLeftBufferView
      = payload := rfl
  simp only [decompress, hread, hleft, CompressionAlgorithm.ofSignedChar_toSignedChar]
  cases header <;> rfl

/-- **Compression.** A compressible buffer is given back. -/
theorem decompress_compressBatch (hL : L.Lawful) (h : Compressible type threshold packetsBuffer) :
    decompress (decompressors L) type (compressBatch L type threshold packetsBuffer)
      = .ok packetsBuffer := by
  cases type with
  | none => rfl
  | some type =>
    simp only [compressBatch, decompress_header]
    simp only [Compressible, codec] at h
    cases hheader : headerType type threshold packetsBuffer with
    | None => rfl
    | Zlib =>
      rw [hheader] at h
      simp only [decompressors, (compression.zlib.decompress_compress hL h).1]
    | Snappy =>
      rw [hheader] at h
      simp only [decompressors, (compression.snappy.decompress_compress hL h.1 h.2).1]

/-- What comes back of another buffer is shorter. -/
theorem decompress_shorter (hL : L.Lawful) (h : ¬ Compressible type threshold packetsBuffer)
    {out : Bytes} (hout : decompress (decompressors L) type
      (compressBatch L type threshold packetsBuffer) = .ok out) :
    out.length < packetsBuffer.length := by
  cases type with
  | none => exact absurd trivial h
  | some type =>
    simp only [compressBatch, decompress_header] at hout
    simp only [Compressible, codec] at h
    cases hheader : headerType type threshold packetsBuffer with
    -- without compression the buffer comes back as it was
    | None => exact absurd (by rw [hheader]; exact trivial) h
    | Zlib =>
      rw [hheader] at h
      simp only [hheader, decompressors] at hout
      split at hout
      · next res hres =>
        cases hout
        have := compression.zlib.decompress_length L hres
        dsimp only at h
        omega
      · exact absurd hout (by simp)
    | Snappy =>
      rw [hheader] at h
      simp only [hheader, decompressors] at hout
      split at hout
      · next res hres =>
        cases hout
        exact compression.snappy.decompress_shorter hL
          (fun hne => Nat.lt_of_not_le fun hle => h ⟨hne, hle⟩) hres
      · exact absurd hout (by simp)

/-- A compressible buffer that a codec took stays small. -/
theorem compressBatch_length (hL : L.Lawful) (h : Compressible type threshold packetsBuffer)
    (hcodec : codec type threshold packetsBuffer ≠ .None) :
    (compressBatch L type threshold packetsBuffer).length + CryptoManager.CHECKSUM_SIZE <
      2 ^ 31 := by
  have hmax : compression.MAX_DECOMPRESSED_SIZE = 2 ^ 26 := rfl
  have h8 : CryptoManager.CHECKSUM_SIZE = 8 := rfl
  cases type with
  | none => exact absurd rfl hcodec
  | some type =>
    simp only [Compressible, codec] at h hcodec
    simp only [compressBatch, List.length_cons]
    cases hheader : headerType type threshold packetsBuffer with
    | None => exact absurd hheader hcodec
    -- zlib may make it longer, by a bounded part
    | Zlib =>
      rw [hheader] at h
      have hlen := (compression.zlib.decompress_compress hL h).2
      unfold deflateBound at hlen
      dsimp only at h ⊢
      omega
    -- and so may Snappy
    | Snappy =>
      rw [hheader] at h
      have hlen := (compression.snappy.decompress_compress hL h.1 h.2).2
      have := h.2
      unfold maxCompressedLength at hlen
      dsimp only
      omega

/-! ### Encryption -/

/-- Encryption is off on both sides, or the managers are in step. -/
def Matched : Option CryptoManager → Option CryptoManager → Prop
  | none, none => True
  | some s, some r => CryptoManager.InStep s r
  | _, _ => False

/-- The receiver of an encrypting sender decrypts. -/
theorem Matched.inStep {s : CryptoManager} {peer : Option CryptoManager}
    (h : Matched (some s) peer) :
    ∃ r, peer = some r ∧ CryptoManager.InStep s r := by
  cases peer with
  | none => exact absurd h (by simp [Matched])
  | some r => exact ⟨r, rfl, h⟩

/-- What a session makes of a payload once it is decrypted. -/
def readPayload (D : Decompressors) (type : Option CompressionAlgorithm) (decrypted : Bytes) :
    Except String (List Bytes) :=
  match decompress D type decrypted with
  | .error e => .error e
  | .ok decompressedBuffer => readPackets (ReadOnlyBinaryStream.ofBuffer decompressedBuffer)

/-- **Encryption.** A batch whose encryption succeeded is decrypted by a matched session,
and the two are matched again. -/
theorem deserialize_encrypted {D : Decompressors} {s r : Option CryptoManager} (h : Matched s r)
    {calls : EvpCalls} {finalBuffer batch : Bytes}
    (hok : (encryptBatch E calls s finalBuffer).2 = .ok batch) :
    (deserializeBatchPackets E D .succeed ⟨r, type⟩ batch).2 = readPayload D type finalBuffer ∧
      Matched (encryptBatch E calls s finalBuffer).1
        (deserializeBatchPackets E D .succeed ⟨r, type⟩ batch).1.mEncryption ∧
      (deserializeBatchPackets E D .succeed ⟨r, type⟩ batch).1.mCompressionType = type := by
  match s, r, h with
  | none, none, _ =>
    cases hok
    simp only [deserializeBatchPackets, readPayload]
    cases decompress D type finalBuffer <;> exact ⟨rfl, trivial, rfl⟩
  | some s, some r, h =>
    obtain ⟨hdecrypt, hstep⟩ := CryptoManager.InStep.delivered E h hok
    simp only [deserializeBatchPackets, readPayload, hdecrypt]
    cases decompress D type finalBuffer <;> exact ⟨rfl, hstep, rfl⟩

/-! ### The round trip -/

/-- A batch that arrives: its codec gives it back, and if no codec took it, it fits the cipher. -/
def Fits (encrypted : Bool) (type : Option CompressionAlgorithm) (threshold : Int32)
    (packetsBuffer : Bytes) : Prop :=
  Compressible type threshold packetsBuffer ∧
    (encrypted = true → codec type threshold packetsBuffer = .None →
      packetsBuffer.length + type.toList.length + CryptoManager.CHECKSUM_SIZE < 2 ^ 31)

/-- Without a codec a batch is its buffer, behind a header if there is a compression type. -/
theorem compressBatch_none_length (hcodec : codec type threshold packetsBuffer = .None) :
    (compressBatch L type threshold packetsBuffer).length
      = packetsBuffer.length + type.toList.length := by
  cases type with
  | none => rfl
  | some type =>
    simp only [codec] at hcodec
    simp only [compressBatch, hcodec, List.length_cons, Option.toList_some, List.length_nil]

/-- What fits is small enough to be encrypted. -/
theorem Fits.length (hL : L.Lawful) (h : Fits true type threshold packetsBuffer) :
    (compressBatch L type threshold packetsBuffer).length + CryptoManager.CHECKSUM_SIZE <
      2 ^ 31 := by
  by_cases hcodec : codec type threshold packetsBuffer = .None
  · rw [compressBatch_none_length hcodec]
    exact h.2 rfl hcodec
  · exact compressBatch_length hL h.1 hcodec

/-- A batch of packets that is decrypted to what was compressed gives the packets exactly if
it is compressible. -/
theorem readPayload_iff (hL : L.Lawful) {packets : List Bytes}
    (hshort : ∀ p ∈ packets, p.length < 2 ^ 32) :
    readPayload (decompressors L) type (compressBatch L type threshold (writePackets packets))
      = .ok packets ↔ Compressible type threshold (writePackets packets) := by
  constructor
  · intro hread
    by_contra hnot
    unfold readPayload at hread
    split at hread
    · exact absurd hread (by simp)
    · next out hout =>
      -- the packets take at least as many bytes as they were written in
      have hlen := readPackets_length hread
      have hlt := decompress_shorter hL hnot hout
      simp only [ReadOnlyBinaryStream.left, ReadOnlyBinaryStream.ofBuffer] at hlen
      omega
  · intro hcompress
    rw [readPayload, decompress_compressBatch hL hcompress]
    exact readPackets_write hshort rfl rfl

/-- **The round trip.** A receiver with the sender's settings, and with encryption off on
both sides or two managers in step, gets back the packets of a batch exactly if the
batch fits. -/
theorem round_trip_iff (hL : L.Lawful) {session : Outbound} {peer : Option CryptoManager}
    (hmatched : Matched session.mEncryption peer) {packets : List Bytes}
    (hshort : ∀ p ∈ packets, p.length < 2 ^ 32) :
    (∃ batch, (serializeBatchedPackets E L .succeed session packets).2 = .ok batch ∧
      (deserializeBatchPackets E (decompressors L) .succeed
        ⟨peer, session.mCompressionType⟩ batch).2 = .ok packets) ↔
    Fits session.mEncryption.isSome session.mCompressionType session.mCompressionThreshold
      (writePackets packets) := by
  obtain ⟨enc, type, threshold⟩ := session
  dsimp only at hmatched ⊢
  have hserialize : ∀ batch,
      (serializeBatchedPackets E L .succeed ⟨enc, type, threshold⟩ packets).2 = .ok batch ↔
        (encryptBatch E .succeed enc (compressBatch L type threshold (writePackets packets))).2
          = .ok batch := by
    intro batch
    simp only [serializeBatchedPackets]
    split
    · next h => rw [h]
    · next h => rw [h]; simp
  constructor
  · -- what was read back was encrypted, so it was short enough for that
    rintro ⟨batch, hbatch, hread⟩
    rw [hserialize] at hbatch
    rw [(deserialize_encrypted hmatched hbatch).1, readPayload_iff hL hshort] at hread
    refine ⟨hread, fun hsome hcodec => ?_⟩
    obtain ⟨m, rfl⟩ := Option.isSome_iff_exists.mp hsome
    obtain ⟨r, rfl, hstep⟩ := hmatched.inStep
    by_cases hne : compressBatch L type threshold (writePackets packets) = []
    · have hlen := compressBatch_none_length (L := L) hcodec
      rw [hne, List.length_nil] at hlen
      rw [← hlen]
      decide
    · have hfits := (CryptoManager.encrypt_ok E hstep.keyOk hne hbatch).2
      rwa [compressBatch_none_length hcodec] at hfits
  · intro hfits
    obtain ⟨batch, hbatch⟩ : ∃ batch, (encryptBatch E .succeed enc
        (compressBatch L type threshold (writePackets packets))).2 = .ok batch := by
      cases enc with
      | none => exact ⟨_, rfl⟩
      | some m =>
        by_cases hne : compressBatch L type threshold (writePackets packets) = []
        · -- an empty buffer is not encrypted
          exact ⟨[], by rw [hne]; rfl⟩
        · obtain ⟨r, -, hstep⟩ := hmatched.inStep
          obtain ⟨p, hp, -⟩ := hstep.position
          exact ⟨_, congrArg Prod.snd
            (CryptoManager.encrypt_ready E hstep.keyOk hp hne (hfits.length hL))⟩
    refine ⟨batch, (hserialize batch).mpr hbatch, ?_⟩
    rw [(deserialize_encrypted hmatched hbatch).1, readPayload_iff hL hshort]
    exact hfits.1

/-- Snappy writes a short buffer as its length and one literal; a deflate that stores. -/
def literalCodecs : Codecs where
  deflate := some
  inflate := some
  rawCompress b := UInt8.ofNat b.length :: UInt8.ofNat (4 * (b.length - 1)) :: b
  getUncompressedLength
    | _ :: _ :: b => some b.length
    | _ => none
  rawUncompress
    | _ :: _ :: b => some b
    | _ => none

/-- Codecs that change nothing do what is documented. -/
theorem literalCodecs_lawful : literalCodecs.Lawful where
  deflate b _ := ⟨b, rfl, rfl, by unfold deflateBound; omega⟩
  uncompressedLength _ _ := rfl
  uncompress _ _ := rfl
  compressedLength b _ := by
    simp only [literalCodecs, maxCompressedLength, List.length_cons]
    omega
  emptyLength := rfl
  outputLength
    | _ :: _ :: _, _, h => congrArg (fun b => b.map List.length) h

/-- Two packets, one of them empty, through Snappy and encryption. -/
theorem round_trip_iff_snappy :
    ∃ L key, ∀ E, ∃ batch,
      (serializeBatchedPackets E L .succeed ⟨some (.create key), some .Snappy, 0⟩ [[1, 2], []]).2
        = .ok batch ∧
      (deserializeBatchPackets E (decompressors L) .succeed ⟨some (.create key), some .Snappy⟩
        batch).2 = .ok [[1, 2], []] := by
  have hmatched : Matched (some (.create (List.replicate 16 0)))
      (some (.create (List.replicate 16 0))) :=
    CryptoManager.inStep_create (CryptoManager.keyOk_create (Or.inl rfl))
  have hshort : ∀ p ∈ ([[1, 2], []] : List Bytes), p.length < 2 ^ 32 := by decide
  have hbuffer : writePackets [[1, 2], []] ≠ [] ∧
      (writePackets [[1, 2], []]).length ≤ compression.MAX_DECOMPRESSED_SIZE := by decide
  exact ⟨literalCodecs, List.replicate 16 0, fun E =>
    (@round_trip_iff E _ literalCodecs_lawful ⟨_, some .Snappy, 0⟩ _ hmatched _ hshort).mpr
      ⟨hbuffer, fun _ h => absurd h (by decide)⟩⟩

/-- **An empty batch** that Snappy compresses does not come back, whatever the libraries
are. -/
theorem empty_batch_refused :
    ∃ session : Outbound, session = ⟨none, some .Snappy, 0⟩ ∧ ∀ E L,
      (serializeBatchedPackets E L .succeed session []).2 = .ok [1] ∧
      (deserializeBatchPackets E (decompressors L) .succeed ⟨none, some .Snappy⟩ [1]).2
        = .error "snappy decompression failed" :=
  ⟨_, rfl, fun _ _ => ⟨rfl, rfl⟩⟩

end Session
end SculkProtocol
