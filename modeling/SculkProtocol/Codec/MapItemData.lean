import SculkProtocol.Codec.Items

/-!
# Maps

`ClientboundMapItemDataPacket` has a byte of flags that say which parts follow: entries, tracked
actors with decorations, and a texture; the scale follows if there is any of them. A tracked actor
has an id or a position, which depends on its type.

What is not transmitted has its default value at the other end, so a packet comes back exactly if it
has it, too, and its sizes fit their prefixes (`ClientboundMapItemDataPacket.map_read_back_iff`).
-/

namespace SculkProtocol

open Decoder BinaryStream ReadOnlyBinaryStream StreamRead

namespace ClientboundMapItemDataPacket

/-! ### Tracked actors -/

structure MapTrackedActorUniqueId where
  mType : UInt8
  mActorUniqueId : Int64
  mBlockPosition : BlockPos

namespace MapTrackedActorUniqueId

/-- `Type::Entity` -/
def Entity : UInt8 := 0

/-- `Type::BlockEntity` -/
def BlockEntity : UInt8 := 1

def new : MapTrackedActorUniqueId := ⟨0, 0, ⟨0, 0, 0⟩⟩

def write (actor : MapTrackedActorUniqueId) : Bytes :=
  writeSignedInt actor.mType.toUInt32 ++
    (if actor.mType = Entity then writeVarInt64 actor.mActorUniqueId else []) ++
    (if actor.mType = BlockEntity then actor.mBlockPosition.write else [])

/-- What is read into `actor`. -/
def read (actor : MapTrackedActorUniqueId) : Reader MapTrackedActorUniqueId := do
  let mType ← (StreamRead.reader (readEnum readSignedInt)).cast fun value : Int32 =>
    value.toUInt32.toUInt8
  let mActorUniqueId ← readIf (mType = Entity) (StreamRead.reader readVarInt64) actor.mActorUniqueId
  let mBlockPosition ← readIf (mType = BlockEntity) BlockPos.read actor.mBlockPosition
  pure ⟨mType, mActorUniqueId, mBlockPosition⟩

/-- What the type does not call for has its default value. -/
structure Complete (actor : MapTrackedActorUniqueId) : Prop where
  id : actor.mType ≠ Entity → actor.mActorUniqueId = 0
  position : actor.mType ≠ BlockEntity → actor.mBlockPosition = ⟨0, 0, 0⟩

theorem codec : WireCodec True (read new) write Complete fun _ => 0 := by
  refine WireCodec.congr (WireCodec.bind_dependent (Q := fun _ => True)
      (g := mType) codec_signedByteEnum fun _ _ =>
    WireCodec.bind (g := mActorUniqueId)
        (codec_readIf fun _ => codec_readVarInt64.reader) fun _ _ =>
    WireCodec.bind (g := mBlockPosition) (codec_readIf fun _ => BlockPos.codec) fun _ _ =>
    WireCodec.pure fun actor => by cases actor; grind) ?_ ?_ ?_
  · intro actor
    simp only [true_and, and_true, if_true_left]
    exact ⟨fun h => ⟨h.1, h.2⟩, fun h => ⟨h.id, h.position⟩⟩
  · simp [write]
  · simp

end MapTrackedActorUniqueId

/-! ### Decorations -/

structure MapDecoration where
  mType : UInt8
  mRotation : UInt8
  mX : UInt8
  mY : UInt8
  mLabel : Bytes
  mColor : UInt32

namespace MapDecoration

def new : MapDecoration := ⟨0, 0, 0, 0, [], 0⟩

def write (decoration : MapDecoration) : Bytes :=
  writeByte decoration.mType ++ writeByte decoration.mRotation ++ writeByte decoration.mX ++
    writeByte decoration.mY ++
    writeString decoration.mLabel ++ writeUnsignedVarInt decoration.mColor

def read : Reader MapDecoration := do
  let mType ← StreamRead.reader readByte
  let mRotation ← StreamRead.reader readByte
  let mX ← StreamRead.reader readByte
  let mY ← StreamRead.reader readByte
  let mLabel ← StreamRead.reader readString
  let mColor ← StreamRead.reader readUnsignedVarInt
  pure ⟨mType, mRotation, mX, mY, mLabel, mColor⟩

/-- A label that fits its length. -/
def Fits (decoration : MapDecoration) : Prop := decoration.mLabel.length < 2 ^ 32

theorem codec : WireCodec True read write Fits fun _ => 0 := by
  refine WireCodec.congr (WireCodec.bind (Q := fun _ => True) (g := mType)
      codec_readByte.reader fun _ _ =>
    WireCodec.bind (g := mRotation) codec_readByte.reader fun _ _ =>
    WireCodec.bind (g := mX) codec_readByte.reader fun _ _ =>
    WireCodec.bind (g := mY) codec_readByte.reader fun _ _ =>
    WireCodec.bind (g := mLabel) codec_readString.reader fun _ _ =>
    WireCodec.bind (g := mColor) codec_readUnsignedVarInt.reader fun _ _ =>
    WireCodec.pure fun decoration => by cases decoration; grind) ?_ ?_ ?_
  · simp [Fits]
  · simp [write]
  · simp

end MapDecoration

/-! ### The parts that follow -/

def TextureUpdate : UInt8 := (1 : UInt8) <<< 1

def DecorationUpdate : UInt8 := (1 : UInt8) <<< 2

def Creation : UInt8 := (1 : UInt8) <<< 3

def All : UInt8 := TextureUpdate ||| DecorationUpdate ||| Creation

/-- Some of the flags of a mask are set. -/
def HasFlag (flags mask : UInt8) : Prop := flags &&& mask ≠ 0

instance (flags mask : UInt8) : Decidable (HasFlag flags mask) :=
  inferInstanceAs (Decidable (_ ≠ _))

end ClientboundMapItemDataPacket

open ClientboundMapItemDataPacket

structure ClientboundMapItemDataPacket where
  mMapId : Int64
  mTypeFlag : UInt8
  mDimension : UInt8
  mIsLockedMap : Bool
  mMapOrigin : BlockPos
  mMapEntries : List Int64
  mScale : UInt8
  mTrackedActors : List MapTrackedActorUniqueId
  mDecorationList : List MapDecoration
  mTextureWidth : Int32
  mTextureHeight : Int32
  mXTexCoordinate : Int32
  mYTexCoordinate : Int32
  mPixels : List UInt32

namespace ClientboundMapItemDataPacket

/-- A fresh packet. -/
def new : ClientboundMapItemDataPacket where
  mMapId := 0
  mTypeFlag := 0
  mDimension := 0
  mIsLockedMap := false
  mMapOrigin := ⟨0, 0, 0⟩
  mMapEntries := []
  mScale := 0
  mTrackedActors := []
  mDecorationList := []
  mTextureWidth := 0
  mTextureHeight := 0
  mXTexCoordinate := 0
  mYTexCoordinate := 0
  mPixels := []

def write (packet : ClientboundMapItemDataPacket) : Bytes :=
  writeVarInt64 packet.mMapId ++ writeUnsignedVarInt packet.mTypeFlag.toUInt32 ++
    writeByte packet.mDimension ++
    writeBool packet.mIsLockedMap ++ packet.mMapOrigin.write ++
    (if HasFlag packet.mTypeFlag Creation then
      writeArray Prefix.unsignedVarInt writeVarInt64 packet.mMapEntries
      else []) ++
    (if HasFlag packet.mTypeFlag All then writeByte packet.mScale else []) ++
    (if HasFlag packet.mTypeFlag DecorationUpdate then
      writeArray Prefix.unsignedVarInt MapTrackedActorUniqueId.write packet.mTrackedActors ++
        writeArray Prefix.unsignedVarInt MapDecoration.write packet.mDecorationList
      else []) ++
    (if HasFlag packet.mTypeFlag TextureUpdate then
      writeVarInt packet.mTextureWidth ++ writeVarInt packet.mTextureHeight ++
        writeVarInt packet.mXTexCoordinate ++
        writeVarInt packet.mYTexCoordinate ++ writeArray Prefix.unsignedVarInt writeUnsignedVarInt
          packet.mPixels
      else [])

/-- The packet that is read into `packet`. Each part of a texture is read under the flag of the
texture. -/
def read (packet : ClientboundMapItemDataPacket) : Reader ClientboundMapItemDataPacket := do
  let mMapId ← StreamRead.reader readVarInt64
  let mTypeFlag ← (StreamRead.reader (readEnum readUnsignedVarInt)).cast UInt32.toUInt8
  let mDimension ← StreamRead.reader readByte
  let mIsLockedMap ← StreamRead.reader readBool
  let mMapOrigin ← BlockPos.read
  let mMapEntries ← readIf (HasFlag mTypeFlag Creation)
    (readUnsignedArray 0 (fun _ => StreamRead.reader readVarInt64) packet.mMapEntries)
      packet.mMapEntries
  let mScale ← readIf (HasFlag mTypeFlag All) (StreamRead.reader readByte) packet.mScale
  let mTrackedActors ← readIf (HasFlag mTypeFlag DecorationUpdate)
    (readUnsignedArray .new MapTrackedActorUniqueId.read packet.mTrackedActors)
      packet.mTrackedActors
  let mDecorationList ← readIf (HasFlag mTypeFlag DecorationUpdate)
    (readUnsignedArray .new (fun _ => MapDecoration.read) packet.mDecorationList)
      packet.mDecorationList
  let mTextureWidth ← readIf (HasFlag mTypeFlag TextureUpdate) (StreamRead.reader readVarInt)
    packet.mTextureWidth
  let mTextureHeight ← readIf (HasFlag mTypeFlag TextureUpdate) (StreamRead.reader readVarInt)
    packet.mTextureHeight
  let mXTexCoordinate ← readIf (HasFlag mTypeFlag TextureUpdate) (StreamRead.reader readVarInt)
    packet.mXTexCoordinate
  let mYTexCoordinate ← readIf (HasFlag mTypeFlag TextureUpdate) (StreamRead.reader readVarInt)
    packet.mYTexCoordinate
  let mPixels ← readIf (HasFlag mTypeFlag TextureUpdate)
    (readUnsignedArray 0 (fun _ => StreamRead.reader readUnsignedVarInt) packet.mPixels)
      packet.mPixels
  pure ⟨mMapId, mTypeFlag, mDimension, mIsLockedMap, mMapOrigin, mMapEntries, mScale,
    mTrackedActors, mDecorationList,
    mTextureWidth, mTextureHeight, mXTexCoordinate, mYTexCoordinate, mPixels⟩

/-- What the flags do not call for has its default value. -/
structure Complete (packet : ClientboundMapItemDataPacket) : Prop where
  entries : ¬ HasFlag packet.mTypeFlag Creation → packet.mMapEntries = []
  scale : ¬ HasFlag packet.mTypeFlag All → packet.mScale = 0
  decorations : ¬ HasFlag packet.mTypeFlag DecorationUpdate → packet.mTrackedActors = [] ∧
    packet.mDecorationList = []
  texture : ¬ HasFlag packet.mTypeFlag TextureUpdate → packet.mTextureWidth = 0 ∧
    packet.mTextureHeight = 0 ∧
    packet.mXTexCoordinate = 0 ∧ packet.mYTexCoordinate = 0 ∧ packet.mPixels = []

/-- The parts are complete, and they fit their lengths. -/
structure Fits (packet : ClientboundMapItemDataPacket) : Prop extends Complete packet where
  entriesCount : packet.mMapEntries.length < 2 ^ 32
  actorsCount : packet.mTrackedActors.length < 2 ^ 32
  actors : ∀ actor ∈ packet.mTrackedActors, actor.Complete
  decorationsCount : packet.mDecorationList.length < 2 ^ 32
  labels : ∀ decoration ∈ packet.mDecorationList, decoration.Fits
  pixelsCount : packet.mPixels.length < 2 ^ 32

theorem codec : WireCodec True (read new) write Fits fun _ => 0 := by
  refine WireCodec.congr
      (WireCodec.bind (Q := fun _ => True) (g := mMapId) codec_readVarInt64.reader fun _ _ =>
    WireCodec.bind_dependent (g := mTypeFlag) codec_byteEnum fun _ _ =>
    WireCodec.bind (g := mDimension) codec_readByte.reader fun _ _ =>
    WireCodec.bind (g := mIsLockedMap) codec_readBool.reader fun _ _ =>
    WireCodec.bind (g := mMapOrigin) BlockPos.codec fun _ _ =>
    WireCodec.bind (g := mMapEntries)
        (codec_readIf fun _ => codec_newArray codec_readVarInt64.reader) fun _ _ =>
    WireCodec.bind (g := mScale) (codec_readIf fun _ => codec_readByte.reader) fun _ _ =>
    WireCodec.bind (g := mTrackedActors)
        (codec_readIf fun _ => codec_newArray MapTrackedActorUniqueId.codec) fun _ _ =>
    WireCodec.bind (g := mDecorationList)
        (codec_readIf fun _ => codec_newArray MapDecoration.codec) fun _ _ =>
    WireCodec.bind (g := mTextureWidth) (codec_readIf fun _ => codec_readVarInt.reader) fun _ _ =>
    WireCodec.bind (g := mTextureHeight) (codec_readIf fun _ => codec_readVarInt.reader) fun _ _ =>
    WireCodec.bind (g := mXTexCoordinate) (codec_readIf fun _ => codec_readVarInt.reader) fun _ _ =>
    WireCodec.bind (g := mYTexCoordinate) (codec_readIf fun _ => codec_readVarInt.reader) fun _ _ =>
    WireCodec.bind (g := mPixels)
        (codec_readIf fun _ => codec_newArray codec_readUnsignedVarInt.reader) fun _ _ =>
    WireCodec.pure fun packet => by cases packet; grind) ?_ ?_ ?_
  · intro packet
    simp only [true_and, and_true, if_true_left, new, if_fits_iff]
    constructor
    · rintro ⟨⟨hentries, hentriesCount, -⟩, hscale, ⟨hactors, hactorsCount, hactorsFit⟩,
        ⟨hdecorations, hdecorationsCount, hlabels⟩, hwidth, hheight, hx, hy, hpixels,
        hpixelsCount, -⟩
      exact ⟨⟨hentries, hscale, fun h => ⟨hactors h, hdecorations h⟩,
        fun h => ⟨hwidth h, hheight h, hx h, hy h, hpixels h⟩⟩, hentriesCount,
          hactorsCount, hactorsFit,
        hdecorationsCount, hlabels, hpixelsCount⟩
    · rintro ⟨⟨hentries, hscale, hdecorations, htexture⟩, hentriesCount, hactorsCount, hactors,
        hdecorationsCount, hlabels, hpixelsCount⟩
      exact ⟨⟨hentries, hentriesCount, fun _ _ => trivial⟩, hscale,
        ⟨fun h => (hdecorations h).1, hactorsCount, hactors⟩,
        ⟨fun h => (hdecorations h).2, hdecorationsCount, hlabels⟩,
        fun h => (htexture h).1, fun h => (htexture h).2.1, fun h => (htexture h).2.2.1,
        fun h => (htexture h).2.2.2.1, fun h => (htexture h).2.2.2.2, hpixelsCount,
        fun _ _ => trivial⟩
  · intro packet _
    simp only [write, if_append, List.append_assoc, List.append_nil]
  · simp

/-- **Maps.** A packet comes back from what is written of it, whatever follows, exactly if what the
flags and the types do not call for has its default value and the sizes fit. -/
theorem map_read_back_iff (packet : ClientboundMapItemDataPacket) :
    Accepts (read new) packet.write packet ↔ packet.Fits := by
  rw [codec.reads_back_iff]
  exact and_iff_left rfl

end ClientboundMapItemDataPacket
end SculkProtocol
