import SculkProtocol.Utility.WireCodecs

/-!
# Sub-chunks

`SubChunkPacket` answers a request for sub-chunks with a list of entries. What an entry consists of
depends on the packet, whose flag says if the client has a cache, on the result of the entry and on
two bytes that say if a height map follows. What is not transmitted has its default value at the
other end, so a packet comes back exactly if it has it, too, and its sizes fit their prefixes
(`SubChunkPacket.subChunks_read_back_iff`).
-/

namespace SculkProtocol

open Decoder BinaryStream ReadOnlyBinaryStream StreamRead

structure SubChunkPos where
  mX : Int32
  mY : Int32
  mZ : Int32

namespace SubChunkPos

def write (pos : SubChunkPos) : Bytes :=
  writeVarInt pos.mX ++ writeVarInt pos.mY ++ writeVarInt pos.mZ

def read : Reader SubChunkPos := do
  let mX ← StreamRead.reader readVarInt
  let mY ← StreamRead.reader readVarInt
  let mZ ← StreamRead.reader readVarInt
  pure ⟨mX, mY, mZ⟩

theorem codec : WireCodec True read write (fun _ => True) fun _ => 0 := by
  refine (WireCodec.bind (Q := fun _ => True) (g := mX) codec_readVarInt.reader fun _ _ =>
    WireCodec.bind (g := mY) codec_readVarInt.reader fun _ _ =>
    WireCodec.bind (g := mZ) codec_readVarInt.reader fun _ _ =>
    WireCodec.pure fun pos => by cases pos; grind).congr ?_ ?_ ?_
  · simp
  · simp [write]
  · simp

end SubChunkPos

namespace SubChunkPacket

structure SubChunkPosOffset where
  mX : Int8
  mY : Int8
  mZ : Int8

namespace SubChunkPosOffset

def write (offset : SubChunkPosOffset) : Bytes :=
  writeSignedChar offset.mX ++ writeSignedChar offset.mY ++ writeSignedChar offset.mZ

def read : Reader SubChunkPosOffset := do
  let mX ← StreamRead.reader readSignedChar
  let mY ← StreamRead.reader readSignedChar
  let mZ ← StreamRead.reader readSignedChar
  pure ⟨mX, mY, mZ⟩

theorem codec : WireCodec True read write (fun _ => True) fun _ => 0 := by
  refine (WireCodec.bind (Q := fun _ => True) (g := mX) (codec_scalar Scalar.int8).reader fun _ _ =>
    WireCodec.bind (g := mY) (codec_scalar Scalar.int8).reader fun _ _ =>
    WireCodec.bind (g := mZ) (codec_scalar Scalar.int8).reader fun _ _ =>
    WireCodec.pure fun offset => by cases offset; grind).congr ?_ ?_ ?_
  · simp
  · simp [write, writeSignedChar]
  · simp

end SubChunkPosOffset

/-! ### Height maps -/

/-- A `HeightMapDataType` is any byte. -/
def HasData : UInt8 := 1

/-- An array of 16 arrays of 16 signed bytes, which stand one after the other. -/
abbrev Heightmap : Type := Fin 256 → Int8

namespace Heightmap

/-- `writeBytes` of the array -/
def write (map : Heightmap) : Bytes := List.ofFn fun i => (map i).toUInt8

/-- `readBytes` into the array -/
def read : Reader Heightmap := do
  let bytes ← StreamRead.reader fun s => s.readBytes 256
  pure fun i => (bytes.getD i 0).toInt8

/-- A heightmap has 256 bytes. -/
theorem length_write (map : Heightmap) : map.write.length = 256 := List.length_ofFn

theorem codec : WireCodec True read write (fun _ => True) fun _ => 0 where
  accepts {map} _ _ := by
    have hbytes := accepts_reader ((recognises_readBytes 256).accepts ⟨length_write map, rfl⟩)
    have hread :=
      hbytes.bind_pure (g := fun (bytes : Bytes) (i : Fin 256) => (bytes.getD i 0).toInt8)
    -- a byte for a place, so a map is read back whatever its values are
    have hsame : (fun i : Fin 256 => (map.write.getD i 0).toInt8) = map := by
      funext i
      rw [write, List.getD_eq_getElem?_getD, List.getElem?_ofFn, dif_pos i.isLt, Option.getD_some,
        Int8.toInt8_toUInt8]
    rwa [hsame] at hread
  yields := (recognises_reader (recognises_readBytes 256)).yields.bind_pure.mono fun bs map => by
    rintro ⟨_, ⟨hlength, -⟩, -⟩
    exact ⟨trivial, fun _ => Nat.le_of_eq ((length_write map).trans hlength.symm)⟩

end Heightmap

structure HeightmapData where
  mHeightMapType : UInt8
  mSubchunkHeightMap : Heightmap
  mRenderHeightMapType : UInt8
  mRenderHeightMap : Heightmap

namespace HeightmapData

/-- `HeightmapData{}` -/
def new : HeightmapData := ⟨0, fun _ => 0, 0, fun _ => 0⟩

def write (data : HeightmapData) : Bytes :=
  writeByte data.mHeightMapType ++
    (if data.mHeightMapType = HasData then data.mSubchunkHeightMap.write else []) ++
    writeByte data.mRenderHeightMapType ++
    (if data.mRenderHeightMapType = HasData then data.mRenderHeightMap.write else [])

/-- What is read into `data`. -/
def read (data : HeightmapData) : Reader HeightmapData := do
  let mHeightMapType ← StreamRead.reader (readEnum readByte)
  -- the type is read first, and the map only after `HasData`
  let mSubchunkHeightMap ← readIf (mHeightMapType = HasData) Heightmap.read data.mSubchunkHeightMap
  let mRenderHeightMapType ← StreamRead.reader (readEnum readByte)
  let mRenderHeightMap ← readIf (mRenderHeightMapType = HasData) Heightmap.read
    data.mRenderHeightMap
  pure ⟨mHeightMapType, mSubchunkHeightMap, mRenderHeightMapType, mRenderHeightMap⟩

/-- Height maps that are not transmitted are those of `target`. -/
structure Complete (target data : HeightmapData) : Prop where
  subchunk : data.mHeightMapType ≠ HasData → data.mSubchunkHeightMap = target.mSubchunkHeightMap
  render : data.mRenderHeightMapType ≠ HasData → data.mRenderHeightMap = target.mRenderHeightMap

theorem codec (target : HeightmapData) :
    WireCodec True (read target) write (Complete target) fun _ => 0 := by
  refine WireCodec.congr (WireCodec.bind_dependent (Q := fun _ => True) (g := mHeightMapType)
      (codec_readEnum codec_readByte).reader fun _ _ =>
    WireCodec.bind (g := mSubchunkHeightMap) (codec_readIf fun _ => Heightmap.codec) fun _ _ =>
    WireCodec.bind_dependent (g := mRenderHeightMapType)
        (codec_readEnum codec_readByte).reader fun _ _ =>
    WireCodec.bind (g := mRenderHeightMap) (codec_readIf fun _ => Heightmap.codec) fun _ _ =>
    WireCodec.pure fun data => by cases data; grind) ?_ ?_ ?_
  · intro data
    simp only [true_and, and_true, if_true_left]
    exact ⟨fun h => ⟨h.1, h.2⟩, fun h => ⟨h.subchunk, h.render⟩⟩
  · simp [write]
  · simp

end HeightmapData

/-! ### Entries -/

/-- A `SubChunkRequestResult` is any byte. -/
def SuccessAllAir : UInt8 := 6

structure SubChunkPacketData where
  mSubChunkPosOffset : SubChunkPosOffset
  mSerializedSubChunk : Bytes
  mResult : UInt8
  mHeightMapData : HeightmapData
  mBlobId : UInt64

namespace SubChunkPacketData

/-- `SubChunkPacketData{}` -/
def new : SubChunkPacketData := ⟨⟨0, 0, 0⟩, [], 0, HeightmapData.new, 0⟩

/-- The sub-chunk is in the packet. -/
def IsSent (cacheEnabled : Bool) (mResult : UInt8) : Prop :=
  ¬ cacheEnabled ∨ mResult ≠ SuccessAllAir

instance (cacheEnabled : Bool) (mResult : UInt8) : Decidable (IsSent cacheEnabled mResult) :=
  inferInstanceAs (Decidable (_ ∨ _))

def write (cacheEnabled : Bool) (data : SubChunkPacketData) : Bytes :=
  data.mSubChunkPosOffset.write ++ writeByte data.mResult ++
    -- with a cache, a sub-chunk that is all air is left out
    (if IsSent cacheEnabled data.mResult then writeString data.mSerializedSubChunk else []) ++
    data.mHeightMapData.write ++ (if cacheEnabled then writeUnsignedInt64 data.mBlobId else [])

/-- What is read into `data`. A sub-chunk that is not sent is cleared. -/
def read (cacheEnabled : Bool) (data : SubChunkPacketData) : Reader SubChunkPacketData := do
  let mSubChunkPosOffset ← SubChunkPosOffset.read
  let mResult ← StreamRead.reader (readEnum readByte)
  let mSerializedSubChunk ← readIf (IsSent cacheEnabled mResult) (StreamRead.reader readString) []
  let mHeightMapData ← HeightmapData.read data.mHeightMapData
  let mBlobId ← readIf cacheEnabled (StreamRead.reader readUnsignedInt64) data.mBlobId
  pure ⟨mSubChunkPosOffset, mSerializedSubChunk, mResult, mHeightMapData, mBlobId⟩

/-- What is not transmitted has its default value. -/
structure Complete (cacheEnabled : Bool) (data : SubChunkPacketData) : Prop where
  chunk : ¬ IsSent cacheEnabled data.mResult → data.mSerializedSubChunk = []
  heightmaps : HeightmapData.Complete HeightmapData.new data.mHeightMapData
  blob : cacheEnabled = false → data.mBlobId = 0

/-- A sub-chunk that fits its length. -/
structure Fits (cacheEnabled : Bool) (data : SubChunkPacketData) :
    Prop extends Complete cacheEnabled data where
  size : data.mSerializedSubChunk.length < 2 ^ 32

theorem codec (cacheEnabled : Bool) :
    WireCodec True (read cacheEnabled new) (write cacheEnabled) (Fits cacheEnabled) fun _ => 0 := by
  refine WireCodec.congr (WireCodec.bind (Q := fun _ => True) (g := mSubChunkPosOffset)
    SubChunkPosOffset.codec
      fun _ _ =>
    WireCodec.bind_dependent (g := mResult) (codec_readEnum codec_readByte).reader fun _ _ =>
    WireCodec.bind (g := mSerializedSubChunk)
        (codec_readIf fun _ => codec_readString.reader) fun _ _ =>
    WireCodec.bind (g := mHeightMapData) (HeightmapData.codec HeightmapData.new) fun _ _ =>
    WireCodec.bind (g := mBlobId)
        (codec_readIf fun _ => (codec_scalar Scalar.uint64).reader) fun _ _ =>
    WireCodec.pure fun data => by cases data; grind) ?_ ?_ ?_
  · intro data
    simp only [true_and, and_true, if_true_left, Bool.not_eq_true]
    constructor
    · rintro ⟨hchunk, hmaps, hblob⟩
      -- a sub-chunk that is sent has to fit, and one that is not has to be empty, which fits
      by_cases hsent : IsSent cacheEnabled data.mResult
      · rw [if_pos hsent] at hchunk
        exact ⟨⟨fun h => absurd hsent h, hmaps, hblob⟩, hchunk⟩
      · rw [if_neg hsent] at hchunk
        exact ⟨⟨fun _ => hchunk, hmaps, hblob⟩, by rw [hchunk]; exact Nat.two_pow_pos 32⟩
    · rintro ⟨⟨hchunk, hmaps, hblob⟩, hsize⟩
      refine ⟨?_, hmaps, hblob⟩
      split
      · exact hsize
      · next hnot => exact hchunk hnot
  · simp [write, writeUnsignedInt64]
  · simp

end SubChunkPacketData

end SubChunkPacket

open SubChunkPacket

/-- The answer to a request for sub-chunks. -/
structure SubChunkPacket where
  mCacheEnabled : Bool
  mDimensionType : Int32
  mSubChunkData : List SubChunkPacketData
  mCenterPos : SubChunkPos

namespace SubChunkPacket

/-- A fresh packet. -/
def new : SubChunkPacket := ⟨false, 0, [], ⟨0, 0, 0⟩⟩

def write (packet : SubChunkPacket) : Bytes :=
  writeBool packet.mCacheEnabled ++ writeVarInt packet.mDimensionType ++ packet.mCenterPos.write ++
    writeArray Prefix.unsignedInt (SubChunkPacketData.write packet.mCacheEnabled)
      packet.mSubChunkData

/-- The packet that is read into `packet`. -/
def read (packet : SubChunkPacket) : Reader SubChunkPacket := do
  let mCacheEnabled ← StreamRead.reader readBool
  let mDimensionType ← StreamRead.reader readVarInt
  let mCenterPos ← SubChunkPos.read
  let mSubChunkData ← readArray Prefix.unsignedInt SubChunkPacketData.new
    (SubChunkPacketData.read mCacheEnabled)
    packet.mSubChunkData
  pure ⟨mCacheEnabled, mDimensionType, mSubChunkData, mCenterPos⟩

/-- What is not transmitted of the entries has its default value. -/
def Complete (packet : SubChunkPacket) : Prop :=
  ∀ data ∈ packet.mSubChunkData, data.Complete packet.mCacheEnabled

/-- The entries are complete, and they and their sub-chunks fit their lengths. -/
structure Fits (packet : SubChunkPacket) : Prop where
  count : packet.mSubChunkData.length < 2 ^ 32
  entries : ∀ data ∈ packet.mSubChunkData, data.Fits packet.mCacheEnabled

theorem codec : WireCodec True (read new) write Fits fun _ => 0 := by
  have hentries : ∀ cacheEnabled : Bool, WireCodec True
      (readArray Prefix.unsignedInt SubChunkPacketData.new
        (SubChunkPacketData.read cacheEnabled) [])
      (writeArray Prefix.unsignedInt (SubChunkPacketData.write cacheEnabled))
      (fun entries => entries.length < 2 ^ 32 ∧ ∀ data ∈ entries, data.Fits cacheEnabled)
          fun _ => 0 := by
    intro cacheEnabled
    -- a fresh packet has no entries, so every entry is read into a default one
    have hentry : ∀ t, t = SubChunkPacketData.new ∨ t ∈ [] →
      WireCodec True (SubChunkPacketData.read cacheEnabled t)
        (SubChunkPacketData.write cacheEnabled) (SubChunkPacketData.Fits cacheEnabled)
            fun _ => 0 := by
      rintro t (rfl | ht)
      · exact SubChunkPacketData.codec cacheEnabled
      · exact absurd ht List.not_mem_nil
    refine (codec_readArray codec_unsignedInt hentry).congr (fun entries => ?_) (fun _ _ => rfl)
      fun entries _ => ?_
    · constructor
      · exact fun h => ⟨h.1, h.2.2⟩
      · exact fun h => ⟨h.1, Nat.le_trans (Nat.le_of_lt h.1) (by decide), h.2⟩
    · simp
  -- the flag is read before the entries, which depend on it
  refine WireCodec.congr (WireCodec.bind_dependent (Q := fun _ => True) (g := mCacheEnabled)
    codec_readBool.reader
      fun cacheEnabled _ =>
    WireCodec.bind (g := mDimensionType) codec_readVarInt.reader fun _ _ =>
    WireCodec.bind (g := mCenterPos) SubChunkPos.codec fun _ _ =>
    WireCodec.bind (g := mSubChunkData) (hentries cacheEnabled) fun _ _ =>
    WireCodec.pure fun packet => by cases packet; grind) ?_ ?_ ?_
  · intro packet
    simp only [true_and, and_true]
    exact ⟨fun h => ⟨h.1, h.2⟩, fun h => ⟨h.count, h.entries⟩⟩
  · simp [write]
  · simp

/-- **Sub-chunks.** A packet comes back from what is written of it, whatever follows, exactly if
what is not transmitted of it has its default value and its sizes fit. -/
theorem subChunks_read_back_iff (packet : SubChunkPacket) :
    Accepts (read new) packet.write packet ↔ packet.Fits := by
  rw [codec.reads_back_iff]
  exact and_iff_left rfl

/-- Of `2 ^ 32` bytes of a sub-chunk none arrives. -/
theorem subChunks_cut :
    ¬ ∀ packet : SubChunkPacket, packet.Complete → Accepts (read new) packet.write packet := by
  intro h
  let data : SubChunkPacketData :=
    { SubChunkPacketData.new with mSerializedSubChunk := List.replicate (2 ^ 32) 0 }
  -- without a cache everything is sent, so the entry has nothing to complete
  have hcomplete : data.Complete false :=
    ⟨fun hnot => absurd (Or.inl Bool.false_ne_true) hnot, ⟨fun _ => rfl, fun _ => rfl⟩,
      fun _ => rfl⟩
  have hread := h { new with mSubChunkData := [data] } (List.forall_mem_singleton.mpr hcomplete)
  have hfits := codec.reads_back_iff.mp hread
  have hlt : (List.replicate (2 ^ 32) (0 : UInt8)).length < 2 ^ 32 :=
    (hfits.1.entries data List.mem_cons_self).size
  exact absurd hlt (by rw [List.length_replicate]; exact Nat.lt_irrefl _)

end SubChunkPacket
end SculkProtocol
