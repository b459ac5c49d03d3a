import SculkProtocol.Utility.WireCodecs

/-!
# Level chunks

`LevelChunkPacket` has one variable-length integer for three things: how many sub-chunks follow, or
one of two values which say that the client has to ask for them, with a limit or without one. All
negative limits are written as no limit, which is read as -1.

What is read of a packet that was written is `received`, if the packet is `Sendable`. What is read
of any input is sendable, and `received` changes its limit at most (`packets_read_back`).
-/

namespace SculkProtocol

open Decoder BinaryStream ReadOnlyBinaryStream StreamRead

structure ChunkPos where
  mX : Int32
  mZ : Int32

namespace ChunkPos

def write (pos : ChunkPos) : Bytes := writeVarInt pos.mX ++ writeVarInt pos.mZ

def read : Reader ChunkPos := do
  let mX ← StreamRead.reader readVarInt
  let mZ ← StreamRead.reader readVarInt
  pure ⟨mX, mZ⟩

theorem codec : WireCodec True read write (fun _ => True) fun _ => 0 := by
  refine (WireCodec.bind (Q := fun _ => True) (g := mX) codec_readVarInt.reader fun mX _ =>
    WireCodec.bind (g := mZ) codec_readVarInt.reader fun mZ _ =>
    WireCodec.pure fun pos => by cases pos; grind).congr ?_ ?_ ?_
  · simp
  · simp [write]
  · simp

end ChunkPos

structure LevelChunkPacket where
  mPosition : ChunkPos
  mDimensionId : Int32
  mIsChunkInTickRange : Bool
  mSerializedChunk : Bytes
  mSubChunksCount : UInt32
  mClientNeedsToRequestSubchunks : Bool
  mClientRequestSubChunkLimit : Int16
  mCacheBlobs : Option (List UInt64)

namespace LevelChunkPacket

/-- A fresh packet. -/
def new : LevelChunkPacket := ⟨⟨0, 0⟩, 0, false, [], 0, false, 0, none⟩

/-- The mode of the sub-chunks. -/
def writeSubChunks (packet : LevelChunkPacket) : Bytes :=
  if packet.mClientNeedsToRequestSubchunks then
    -- every negative limit is the same value
    if packet.mClientRequestSubChunkLimit < 0 then writeUnsignedVarInt 0xFFFFFFFF
    else writeUnsignedVarInt 0xFFFFFFFE ++ writeSignedShort packet.mClientRequestSubChunkLimit
  else writeUnsignedVarInt packet.mSubChunksCount

def writeBlobs (blobs : List UInt64) : Bytes :=
  writeArray Prefix.unsignedVarInt writeUnsignedInt64 blobs

def write (packet : LevelChunkPacket) : Bytes :=
  packet.mPosition.write ++ writeVarInt packet.mDimensionId ++ packet.writeSubChunks ++
    writeOptional writeBlobs packet.mCacheBlobs ++ writeString packet.mSerializedChunk

/-- With a limit, the number of sub-chunks stays as it is. -/
def readSubChunks (packet : LevelChunkPacket) : Reader LevelChunkPacket := do
  let subChunkCount ← StreamRead.reader readUnsignedVarInt
  if subChunkCount = 0xFFFFFFFE then do
    let limit ← StreamRead.reader readSignedShort
    pure { packet with
      mClientNeedsToRequestSubchunks := true, mClientRequestSubChunkLimit := limit }
  else if subChunkCount = 0xFFFFFFFF then
    pure { packet with
      mClientNeedsToRequestSubchunks := true, mSubChunksCount := 0,
      mClientRequestSubChunkLimit := -1 }
  else
    pure { packet with
      mClientNeedsToRequestSubchunks := false, mSubChunksCount := subChunkCount,
      mClientRequestSubChunkLimit := 0 }

def readBlobs (blobs : List UInt64) : Reader (List UInt64) :=
  readArray Prefix.unsignedVarInt 0 (fun _ => StreamRead.reader readUnsignedInt64) blobs

/-- The packet that is read into `packet`. -/
def read (packet : LevelChunkPacket) : Reader LevelChunkPacket := do
  let mPosition ← ChunkPos.read
  let mDimensionId ← StreamRead.reader readVarInt
  let packet ← readSubChunks { packet with mPosition := mPosition, mDimensionId := mDimensionId }
  let mCacheBlobs ← readOptional [] readBlobs
  let mSerializedChunk ← StreamRead.reader readString
  pure { packet with mCacheBlobs := mCacheBlobs, mSerializedChunk := mSerializedChunk }

/-! ### Packets that are written -/

/-- A count that is not one of the two values, and sizes that their prefixes hold. -/
structure Sendable (packet : LevelChunkPacket) : Prop where
  count : packet.mClientNeedsToRequestSubchunks = false → packet.mSubChunksCount < 0xFFFFFFFE
  blobs : ∀ blobs ∈ packet.mCacheBlobs, blobs.length < 2 ^ 32
  chunk : packet.mSerializedChunk.length < 2 ^ 32

/-- A negative limit is none. -/
def receivedLimit (limit : Int16) : Int16 := if limit < 0 then -1 else limit

/-- The number of sub-chunks, which is not transmitted with a limit. -/
def receivedCount (target packet : LevelChunkPacket) : UInt32 :=
  if packet.mClientNeedsToRequestSubchunks then
    if packet.mClientRequestSubChunkLimit < 0 then 0 else target.mSubChunksCount
  else packet.mSubChunksCount

/-- What is transmitted of a packet, in the one that it is read into. -/
def received (target packet : LevelChunkPacket) : LevelChunkPacket where
  mPosition := packet.mPosition
  mDimensionId := packet.mDimensionId
  mIsChunkInTickRange := target.mIsChunkInTickRange
  mSerializedChunk := packet.mSerializedChunk
  mSubChunksCount := receivedCount target packet
  mClientNeedsToRequestSubchunks := packet.mClientNeedsToRequestSubchunks
  mClientRequestSubChunkLimit :=
    if packet.mClientNeedsToRequestSubchunks then receivedLimit packet.mClientRequestSubChunkLimit
    else 0
  mCacheBlobs := packet.mCacheBlobs

theorem codec_blobs : WireCodec True (readOptional [] readBlobs) (writeOptional writeBlobs)
    (fun blobs => ∀ b ∈ blobs, b.length < 2 ^ 32) fun _ => 0 := by
  have helement : WireCodec True (StreamRead.reader readUnsignedInt64) writeUnsignedInt64
      (fun _ => True) fun _ => 0 :=
    (codec_scalar Scalar.uint64).reader
  refine (codec_readOptional (codec_readUnsignedArray fun _ _ => helement)).congr (fun x => ?_)
    (fun _ _ => rfl)
    fun x _ => ?_
  · simp
  · cases x <;> simp

/-- Each mode is read as it is written, with no other negative limit than -1. -/
theorem accepts_subChunks {packet : LevelChunkPacket}
    (hcount : packet.mClientNeedsToRequestSubchunks = false →
    packet.mSubChunksCount < 0xFFFFFFFE) (target : LevelChunkPacket) :
    Accepts (readSubChunks target) packet.writeSubChunks { target with
      mClientNeedsToRequestSubchunks := (received target packet).mClientNeedsToRequestSubchunks,
      mSubChunksCount := (received target packet).mSubChunksCount,
      mClientRequestSubChunkLimit := (received target packet).mClientRequestSubChunkLimit } := by
  have hsize : ∀ n : UInt32, Accepts (StreamRead.reader readUnsignedVarInt)
      (writeUnsignedVarInt n) n :=
    fun n => accepts_reader (recognises_readUnsignedVarInt.accepts (isVarInt_writeUnsignedVarInt n))
  unfold writeSubChunks received receivedLimit receivedCount
  -- by the mode, which decides what the reader finds after the integer
  cases hrequest : packet.mClientNeedsToRequestSubchunks with
  | true =>
    rw [if_pos rfl, if_pos rfl, if_pos rfl]
    split
    · -- the value for no limit
      refine (hsize 0xFFFFFFFF).bind_nil ?_
      rw [if_neg (by decide), if_pos rfl]
      exact accepts_pure _
    · -- the value for a limit, and the limit
      refine (hsize 0xFFFFFFFE).bind ?_
      rw [if_pos rfl]
      exact (accepts_reader (recognises_scalar Scalar.int16 |>.accepts rfl)).bind_pure
  | false =>
    -- a count, which is neither of the two values
    have hlt := hcount hrequest
    rw [if_neg Bool.false_ne_true, if_neg Bool.false_ne_true, if_neg Bool.false_ne_true]
    refine (hsize _).bind_nil ?_
    rw [if_neg (by rintro heq; rw [heq] at hlt; exact absurd hlt (by decide)),
      if_neg (by rintro heq; rw [heq] at hlt; exact absurd hlt (by decide))]
    exact accepts_pure _

/-- **What is transmitted of a packet arrives.** -/
theorem Sendable.accepts {packet : LevelChunkPacket} (h : packet.Sendable)
    (target : LevelChunkPacket) :
    Accepts (read target) packet.write (received target packet) := by
  have hdimension : Accepts (StreamRead.reader readVarInt) (writeVarInt packet.mDimensionId)
      packet.mDimensionId :=
    accepts_reader (recognises_readVarInt.accepts (isSignedVarInt_write _))
  have hblobs := codec_blobs.accepts h.blobs rfl
  have hchunk := accepts_reader (recognises_readString.accepts (isString_write h.chunk))
  -- `mIsChunkInTickRange` is not transmitted: `received` takes it from the packet that is read into
  rw [write, List.append_assoc, List.append_assoc, List.append_assoc]
  exact (ChunkPos.codec.accepts trivial rfl).bind
    (hdimension.bind ((accepts_subChunks h.count _).bind
    (hblobs.bind hchunk.bind_pure)))

/-! ### Packets that are read -/

/-- What is read into a fresh packet can be sent, and nothing is lost of it but a limit below -1. -/
structure Decoded (packet : LevelChunkPacket) : Prop extends packet.Sendable where
  received_eq : received new packet =
    { packet with mClientRequestSubChunkLimit := receivedLimit packet.mClientRequestSubChunkLimit }

/-- What is read of the mode, into a packet without sub-chunks. -/
structure ReadsMode (target packet : LevelChunkPacket) : Prop where
  others : packet = { target with
    mClientNeedsToRequestSubchunks := packet.mClientNeedsToRequestSubchunks,
    mSubChunksCount := packet.mSubChunksCount,
    mClientRequestSubChunkLimit := packet.mClientRequestSubChunkLimit }
  requested : packet.mClientNeedsToRequestSubchunks = true → packet.mSubChunksCount = 0
  counted : packet.mClientNeedsToRequestSubchunks = false →
    packet.mSubChunksCount < 0xFFFFFFFE ∧ packet.mClientRequestSubChunkLimit = 0

theorem yields_subChunks {target : LevelChunkPacket} (hnew : target.mSubChunksCount = 0) :
    Yields (readSubChunks target) fun (_ : Bytes) packet => ReadsMode target packet := by
  refine ((recognises_reader recognises_readUnsignedVarInt).yields.bind
    (M := fun _ _ packet => ReadsMode target packet) fun _ count _ => ?_).mono ?_
  · split
    · -- a limit was read, and the count is that of the fresh packet
      refine (recognises_reader (recognises_scalar Scalar.int16)).yields.bind_pure.mono
        fun bs packet => ?_
      rintro ⟨limit, -, rfl⟩
      exact ⟨rfl, fun _ => hnew, fun h => absurd h (by simp)⟩
    · next hlimit =>
      split
      · refine (yields_pure _).mono fun bs packet => ?_
        rintro ⟨-, rfl⟩
        exact ⟨rfl, fun _ => rfl, fun h => absurd h (by simp)⟩
      · next hnone =>
        refine (yields_pure _).mono fun bs packet => ?_
        rintro ⟨-, rfl⟩
        refine ⟨rfl, fun h => absurd h (by simp), fun _ => ⟨?_, rfl⟩⟩
        -- neither of the two values is left
        rw [← UInt32.toNat_inj] at hlimit hnone
        rw [UInt32.lt_iff_toNat_lt]
        have hlt := count.toNat_lt
        have hlimit : count.toNat ≠ 4294967294 := hlimit
        have hnone : count.toNat ≠ 4294967295 := hnone
        show count.toNat < 4294967294
        omega
  · rintro bs packet ⟨-, -, -, -, -, h⟩
    exact h

/-- A limit that is not negative stays. -/
theorem received_of_mode {packet : LevelChunkPacket}
    (hrange : packet.mIsChunkInTickRange = false)
    (hrequested : packet.mClientNeedsToRequestSubchunks = true → packet.mSubChunksCount = 0)
    (hcounted : packet.mClientNeedsToRequestSubchunks = false →
      packet.mClientRequestSubChunkLimit = 0) :
    received new packet =
      { packet with mClientRequestSubChunkLimit :=
        receivedLimit packet.mClientRequestSubChunkLimit } := by
  obtain ⟨position, dimension, range, chunk, count, request, limit, blobs⟩ := packet
  simp only at hrange hrequested hcounted
  cases request with
  | true => simp [received, receivedCount, new, hrange, hrequested rfl]
  | false =>
    have hzero : receivedLimit 0 = 0 := by decide
    simp [received, receivedCount, new, hrange, hcounted rfl, hzero]

theorem yields_read : Yields (read new) fun (_ : Bytes) packet => packet.Decoded := by
  refine (ChunkPos.codec.yields.bind fun _ position _ =>
    (recognises_reader recognises_readVarInt).yields.bind fun _ dimension _ =>
      (@yields_subChunks { new with mPosition := position, mDimensionId := dimension } rfl).bind
        fun _ packet _ => codec_blobs.yields.bind fun _ blobs _ =>
          (codec_readString (T := True)).reader.yields.bind_pure).mono fun bs packet => ?_
  rintro ⟨_, _, position, -, -, _, _, dimension, -, -, _, _, packet, -, hmode, _, _, blobs, -,
    ⟨hblobs, -⟩, chunk, ⟨hchunk, -⟩, rfl⟩
  refine ⟨⟨fun h => (hmode.counted h).1, hblobs, hchunk⟩, ?_⟩
  refine received_of_mode ?_ hmode.requested fun h => (hmode.counted h).2
  -- only the fields of the mode are not those of the packet before it
  rw [hmode.others]
  rfl

/-- **Level chunks.** A packet that was read into a fresh one comes back after it is written, but
for a limit below -1, which comes back as -1; and what is transmitted of a packet arrives. -/
theorem packets_read_back :
    (∀ (input : Bytes) (s : ReadOnlyBinaryStream) (packet : LevelChunkPacket),
      read new (ofBuffer input) = (s, .ok packet) → Accepts (read new) packet.write
        { packet with mClientRequestSubChunkLimit :=
          receivedLimit packet.mClientRequestSubChunkLimit }) ∧
    ∀ target packet : LevelChunkPacket, packet.Sendable →
      Accepts (read target) packet.write (received target packet) := by
  refine ⟨fun input s packet hread => ?_, fun target packet h => h.accepts target⟩
  obtain ⟨bs, rest, -, -, hdecoded⟩ := yields_read _ _ _ ⟨rfl, Nat.zero_le _⟩ hread
  rw [← hdecoded.received_eq]
  exact hdecoded.toSendable.accepts new

/-- A packet with a limit, and one with two blobs. -/
theorem packets_read_back_some :
    Accepts (read new) (write ⟨⟨1, -1⟩, 0, true, [7], 9, true, -3, none⟩)
      ⟨⟨1, -1⟩, 0, false, [7], 0, true, -1, none⟩ ∧
      Accepts (read new) (write ⟨⟨0, 0⟩, 1, false, [], 24, false, 5, some [1, 2]⟩)
        ⟨⟨0, 0⟩, 1, false, [], 24, false, 0, some [1, 2]⟩ :=
  ⟨packets_read_back.2 new _ ⟨fun h => absurd h (by decide),
    fun _ h => absurd h (by simp), by decide⟩,
    packets_read_back.2 new _ ⟨fun _ => by decide, fun _ h => by cases h; decide, by decide⟩⟩

/-- The limit -2 is read, written as no limit and read as -1; and of `2 ^ 32` bytes of a chunk none
arrives. -/
theorem limits_and_sizes_lost :
    (¬ ∀ (input : Bytes) (s : ReadOnlyBinaryStream) (packet : LevelChunkPacket),
      read new (ofBuffer input) = (s, .ok packet) → ∃ s', read new (ofBuffer packet.write) =
        (s', .ok packet)) ∧
    ∃ packet : LevelChunkPacket, (packet.mClientNeedsToRequestSubchunks = false →
      packet.mSubChunksCount < 0xFFFFFFFE) ∧
        ¬ Accepts (read new) packet.write (received new packet) := by
  constructor
  · intro h
    have hread : ∃ s,
      read new (ofBuffer [0, 0, 0, 0xFE, 0xFF, 0xFF, 0xFF, 0x0F, 0xFE, 0xFF, 0, 0]) =
        (s, .ok ⟨⟨0, 0⟩, 0, false, [], 0, true, -2, none⟩) := ⟨_, by rfl⟩
    have hagain : ∃ s, read new (ofBuffer (write ⟨⟨0, 0⟩, 0, false, [], 0, true, -2, none⟩)) =
        (s, .ok ⟨⟨0, 0⟩, 0, false, [], 0, true, -1, none⟩) := ⟨_, by rfl⟩
    obtain ⟨s, hs⟩ := hread
    obtain ⟨t, ht⟩ := hagain
    obtain ⟨s', hs'⟩ := h _ s _ hs
    have hsame := congrArg Prod.snd (ht.symm.trans hs')
    have hlimit : (-1 : Int16) = -2 := congrArg mClientRequestSubChunkLimit (Except.ok.inj hsame)
    exact absurd hlimit (by decide)
  · refine ⟨{ new with mSerializedChunk := List.replicate (2 ^ 32) 0 }, fun _ => by decide,
      fun h => ?_⟩
    have hread := h (ofBuffer _) [] ⟨rfl, Nat.zero_le _⟩ (List.append_nil _).symm
    obtain ⟨-, -, -, -, hdecoded⟩ := yields_read _ _ _ ⟨rfl, Nat.zero_le _⟩ hread
    -- a chunk that is read is shorter
    have hlength : (List.replicate (2 ^ 32) (0 : UInt8)).length = 2 ^ 32 := List.length_replicate
    exact Nat.lt_irrefl _ (hlength ▸ hdecoded.chunk)

end LevelChunkPacket
end SculkProtocol
