import SculkProtocol.Codec.Items

/-!
# Players and their skins

`PlayerListPacket` adds or removes players. It adds them in two passes: first the entries, with
their skins, and then whether each skin is trusted; of players that it removes there are only the
ids. The entries that are read are those of the resized list, and what is not transmitted of them
has its default value, so a packet comes back exactly if it has it, too, and its sizes fit
(`PlayerListPacket.players_read_back_iff`).
-/

namespace SculkProtocol

open Decoder BinaryStream ReadOnlyBinaryStream StreamRead

/-- A new list, with an unsigned integer before it. -/
theorem codec_countedArray {α : Type} {value : α} {r : α → Reader α} {w : α → Bytes} {P : α → Prop}
    (h : WireCodec True (r value) w P fun _ => 0) :
    WireCodec True (readArray Prefix.unsignedInt value r []) (writeArray Prefix.unsignedInt w)
      (fun xs => xs.length < 2 ^ 32 ∧ ∀ x ∈ xs, P x) fun _ => 0 := by
  have helements : ∀ t, t = value ∨ t ∈ [] → WireCodec True (r t) w P fun _ => 0 := by
    rintro t (rfl | ht)
    · exact h
    · exact absurd ht List.not_mem_nil
  refine (codec_readArray codec_unsignedInt helements).congr (fun xs => ?_) (fun _ _ => rfl)
    fun xs _ => by simp
  constructor
  · exact fun h => ⟨h.1, h.2.2⟩
  · exact fun h => ⟨h.1, Nat.le_trans (Nat.le_of_lt h.1) (by decide), h.2⟩

/-! ### Skins -/

namespace SerializedSkin

structure Animation where
  mWidth : UInt32
  mHeight : UInt32
  mSkinImageBytes : Bytes
  mAnimationType : UInt8
  mFrameCount : UInt32
  mAnimationExpression : UInt8

namespace Animation

def new : Animation := ⟨0, 0, [], 0, 0, 0⟩

def write (animation : Animation) : Bytes :=
  writeUnsignedInt animation.mWidth ++ writeUnsignedInt animation.mHeight ++
    writeString animation.mSkinImageBytes ++
    writeUnsignedInt animation.mAnimationType.toUInt32 ++ writeFloat animation.mFrameCount ++
    writeUnsignedInt animation.mAnimationExpression.toUInt32

def read : Reader Animation := do
  let mWidth ← StreamRead.reader readUnsignedInt
  let mHeight ← StreamRead.reader readUnsignedInt
  let mSkinImageBytes ← StreamRead.reader readString
  let mAnimationType ← (StreamRead.reader (readEnum readUnsignedInt)).cast UInt32.toUInt8
  let mFrameCount ← StreamRead.reader readFloat
  let mAnimationExpression ← (StreamRead.reader (readEnum readUnsignedInt)).cast UInt32.toUInt8
  pure ⟨mWidth, mHeight, mSkinImageBytes, mAnimationType, mFrameCount, mAnimationExpression⟩

/-- An image that fits its length. -/
def Fits (animation : Animation) : Prop := animation.mSkinImageBytes.length < 2 ^ 32

theorem codec : WireCodec True read write Fits fun _ => 0 := by
  refine WireCodec.congr (WireCodec.bind (Q := fun _ => True) (g := mWidth)
    (codec_scalar Scalar.uint32).reader
      fun _ _ =>
    WireCodec.bind (g := mHeight) (codec_scalar Scalar.uint32).reader fun _ _ =>
    WireCodec.bind (g := mSkinImageBytes) codec_readString.reader fun _ _ =>
    WireCodec.bind (g := mAnimationType) codec_unsignedByteEnum fun _ _ =>
    WireCodec.bind (g := mFrameCount) (codec_scalar Scalar.uint32).reader fun _ _ =>
    WireCodec.bind (g := mAnimationExpression) codec_unsignedByteEnum fun _ _ =>
    WireCodec.pure fun animation => by cases animation; grind) ?_ ?_ ?_
  · simp [Fits]
  · simp [write, writeUnsignedInt, writeFloat]
  · simp

end Animation

structure PersonaPiece where
  mPieceId : Bytes
  mPieceType : Bytes
  mPackId : Bytes
  mIsDefaultPiece : Bool
  mProductId : Bytes

namespace PersonaPiece

def new : PersonaPiece := ⟨[], [], [], false, []⟩

def write (piece : PersonaPiece) : Bytes :=
  writeString piece.mPieceId ++ writeString piece.mPieceType ++ writeString piece.mPackId ++
    writeBool piece.mIsDefaultPiece ++ writeString piece.mProductId

def read : Reader PersonaPiece := do
  let mPieceId ← StreamRead.reader readString
  let mPieceType ← StreamRead.reader readString
  let mPackId ← StreamRead.reader readString
  let mIsDefaultPiece ← StreamRead.reader readBool
  let mProductId ← StreamRead.reader readString
  pure ⟨mPieceId, mPieceType, mPackId, mIsDefaultPiece, mProductId⟩

/-- Strings that fit their lengths. -/
def Fits (piece : PersonaPiece) : Prop :=
  ∀ text ∈ [piece.mPieceId, piece.mPieceType, piece.mPackId, piece.mProductId], text.length < 2 ^ 32

theorem codec : WireCodec True read write Fits fun _ => 0 := by
  refine WireCodec.congr
      (WireCodec.bind (Q := fun _ => True) (g := mPieceId) codec_readString.reader fun _ _ =>
    WireCodec.bind (g := mPieceType) codec_readString.reader fun _ _ =>
    WireCodec.bind (g := mPackId) codec_readString.reader fun _ _ =>
    WireCodec.bind (g := mIsDefaultPiece) codec_readBool.reader fun _ _ =>
    WireCodec.bind (g := mProductId) codec_readString.reader fun _ _ =>
    WireCodec.pure fun piece => by cases piece; grind) ?_ ?_ ?_
  · simp [Fits]
  · simp [write]
  · simp

end PersonaPiece

structure PieceTintColors where
  mPieceType : Bytes
  mPieceTintColors : List Bytes

namespace PieceTintColors

def new : PieceTintColors := ⟨[], []⟩

def write (colors : PieceTintColors) : Bytes :=
  writeString colors.mPieceType ++ writeArray Prefix.unsignedInt writeString colors.mPieceTintColors

/-- What is read into `colors`. -/
def read (colors : PieceTintColors) : Reader PieceTintColors := do
  let mPieceType ← StreamRead.reader readString
  let mPieceTintColors ← readArray Prefix.unsignedInt [] (fun _ => StreamRead.reader readString)
    colors.mPieceTintColors
  pure ⟨mPieceType, mPieceTintColors⟩

structure Fits (colors : PieceTintColors) : Prop where
  type : colors.mPieceType.length < 2 ^ 32
  count : colors.mPieceTintColors.length < 2 ^ 32
  colors : ∀ color ∈ colors.mPieceTintColors, color.length < 2 ^ 32

theorem codec : WireCodec True (read new) write Fits fun _ => 0 := by
  refine WireCodec.congr
      (WireCodec.bind (Q := fun _ => True) (g := mPieceType) codec_readString.reader fun _ _ =>
    WireCodec.bind (g := mPieceTintColors) (codec_countedArray codec_readString.reader) fun _ _ =>
    WireCodec.pure fun colors => by cases colors; grind) ?_ ?_ ?_
  · intro colors
    simp only [true_and, and_true]
    exact ⟨fun h => ⟨h.1, h.2.1, h.2.2⟩, fun h => ⟨h.type, h.count, h.colors⟩⟩
  · simp [write]
  · simp

end PieceTintColors

end SerializedSkin

open SerializedSkin

structure SerializedSkin where
  mId : Bytes
  mPlayFabId : Bytes
  mResourcePatch : Bytes
  mSkinImageWidth : UInt32
  mSkinImageHeight : UInt32
  mSkinImageBytes : Bytes
  mAnimations : List Animation
  mCapeImageWidth : UInt32
  mCapeImageHeight : UInt32
  mCapeImageBytes : Bytes
  mGeometryData : Bytes
  mGeometryDataMinEngineVersion : Bytes
  mAnimationData : Bytes
  mCapeId : Bytes
  mFullId : Bytes
  mArmSize : Bytes
  mSkinColor : Bytes
  mPersonaPieces : List PersonaPiece
  mPieceTintColors : List PieceTintColors
  mIsPremiumSkin : Bool
  mIsPersonaSkin : Bool
  mIsPersonaCapeOnClassicSkin : Bool
  mIsPrimaryUser : Bool
  mOverridesPlayerAppearance : Bool

namespace SerializedSkin

def new : SerializedSkin where
  mId := []
  mPlayFabId := []
  mResourcePatch := []
  mSkinImageWidth := 0
  mSkinImageHeight := 0
  mSkinImageBytes := []
  mAnimations := []
  mCapeImageWidth := 0
  mCapeImageHeight := 0
  mCapeImageBytes := []
  mGeometryData := []
  mGeometryDataMinEngineVersion := []
  mAnimationData := []
  mCapeId := []
  mFullId := []
  mArmSize := []
  mSkinColor := []
  mPersonaPieces := []
  mPieceTintColors := []
  mIsPremiumSkin := false
  mIsPersonaSkin := false
  mIsPersonaCapeOnClassicSkin := false
  mIsPrimaryUser := false
  mOverridesPlayerAppearance := false

def write (skin : SerializedSkin) : Bytes :=
  writeString skin.mId ++ writeString skin.mPlayFabId ++ writeString skin.mResourcePatch ++
    writeUnsignedInt skin.mSkinImageWidth ++ writeUnsignedInt skin.mSkinImageHeight ++
    writeString skin.mSkinImageBytes ++
    writeArray Prefix.unsignedInt Animation.write skin.mAnimations ++
    writeUnsignedInt skin.mCapeImageWidth ++ writeUnsignedInt skin.mCapeImageHeight ++
    writeString skin.mCapeImageBytes ++ writeString skin.mGeometryData ++
    writeString skin.mGeometryDataMinEngineVersion ++ writeString skin.mAnimationData ++
    writeString skin.mCapeId ++
    writeString skin.mFullId ++ writeString skin.mArmSize ++ writeString skin.mSkinColor ++
    writeArray Prefix.unsignedInt PersonaPiece.write skin.mPersonaPieces ++
    writeArray Prefix.unsignedInt PieceTintColors.write skin.mPieceTintColors ++
    writeBool skin.mIsPremiumSkin ++
    writeBool skin.mIsPersonaSkin ++ writeBool skin.mIsPersonaCapeOnClassicSkin ++
    writeBool skin.mIsPrimaryUser ++
    writeBool skin.mOverridesPlayerAppearance

/-- What is read into `skin`. -/
def read (skin : SerializedSkin) : Reader SerializedSkin := do
  let mId ← StreamRead.reader readString
  let mPlayFabId ← StreamRead.reader readString
  let mResourcePatch ← StreamRead.reader readString
  let mSkinImageWidth ← StreamRead.reader readUnsignedInt
  let mSkinImageHeight ← StreamRead.reader readUnsignedInt
  let mSkinImageBytes ← StreamRead.reader readString
  let mAnimations ← readArray Prefix.unsignedInt .new (fun _ => Animation.read) skin.mAnimations
  let mCapeImageWidth ← StreamRead.reader readUnsignedInt
  let mCapeImageHeight ← StreamRead.reader readUnsignedInt
  let mCapeImageBytes ← StreamRead.reader readString
  let mGeometryData ← StreamRead.reader readString
  let mGeometryDataMinEngineVersion ← StreamRead.reader readString
  let mAnimationData ← StreamRead.reader readString
  let mCapeId ← StreamRead.reader readString
  let mFullId ← StreamRead.reader readString
  let mArmSize ← StreamRead.reader readString
  let mSkinColor ← StreamRead.reader readString
  let mPersonaPieces ← readArray Prefix.unsignedInt .new (fun _ => PersonaPiece.read)
    skin.mPersonaPieces
  let mPieceTintColors ← readArray Prefix.unsignedInt .new PieceTintColors.read
    skin.mPieceTintColors
  let mIsPremiumSkin ← StreamRead.reader readBool
  let mIsPersonaSkin ← StreamRead.reader readBool
  let mIsPersonaCapeOnClassicSkin ← StreamRead.reader readBool
  let mIsPrimaryUser ← StreamRead.reader readBool
  let mOverridesPlayerAppearance ← StreamRead.reader readBool
  pure ⟨mId, mPlayFabId, mResourcePatch, mSkinImageWidth, mSkinImageHeight, mSkinImageBytes,
    mAnimations, mCapeImageWidth, mCapeImageHeight, mCapeImageBytes, mGeometryData,
    mGeometryDataMinEngineVersion, mAnimationData,
    mCapeId, mFullId, mArmSize, mSkinColor, mPersonaPieces, mPieceTintColors, mIsPremiumSkin,
    mIsPersonaSkin, mIsPersonaCapeOnClassicSkin, mIsPrimaryUser, mOverridesPlayerAppearance⟩

/-- The strings. -/
def texts (skin : SerializedSkin) : List Bytes :=
  [skin.mId, skin.mPlayFabId, skin.mResourcePatch, skin.mSkinImageBytes, skin.mCapeImageBytes,
    skin.mGeometryData,
    skin.mGeometryDataMinEngineVersion, skin.mAnimationData, skin.mCapeId, skin.mFullId,
    skin.mArmSize, skin.mSkinColor]

/-- Strings and lists that fit their lengths. -/
structure Fits (skin : SerializedSkin) : Prop where
  texts : ∀ text ∈ skin.texts, text.length < 2 ^ 32
  animationsCount : skin.mAnimations.length < 2 ^ 32
  animations : ∀ animation ∈ skin.mAnimations, animation.Fits
  piecesCount : skin.mPersonaPieces.length < 2 ^ 32
  pieces : ∀ piece ∈ skin.mPersonaPieces, piece.Fits
  colorsCount : skin.mPieceTintColors.length < 2 ^ 32
  colors : ∀ colors ∈ skin.mPieceTintColors, colors.Fits

theorem codec : WireCodec True (read new) write Fits fun _ => 0 := by
  refine WireCodec.congr (WireCodec.bind (Q := fun _ => True) (g := mId)
      codec_readString.reader fun _ _ =>
    WireCodec.bind (g := mPlayFabId) codec_readString.reader fun _ _ =>
    WireCodec.bind (g := mResourcePatch) codec_readString.reader fun _ _ =>
    WireCodec.bind (g := mSkinImageWidth) (codec_scalar Scalar.uint32).reader fun _ _ =>
    WireCodec.bind (g := mSkinImageHeight) (codec_scalar Scalar.uint32).reader fun _ _ =>
    WireCodec.bind (g := mSkinImageBytes) codec_readString.reader fun _ _ =>
    WireCodec.bind (g := mAnimations) (codec_countedArray Animation.codec) fun _ _ =>
    WireCodec.bind (g := mCapeImageWidth) (codec_scalar Scalar.uint32).reader fun _ _ =>
    WireCodec.bind (g := mCapeImageHeight) (codec_scalar Scalar.uint32).reader fun _ _ =>
    WireCodec.bind (g := mCapeImageBytes) codec_readString.reader fun _ _ =>
    WireCodec.bind (g := mGeometryData) codec_readString.reader fun _ _ =>
    WireCodec.bind (g := mGeometryDataMinEngineVersion) codec_readString.reader fun _ _ =>
    WireCodec.bind (g := mAnimationData) codec_readString.reader fun _ _ =>
    WireCodec.bind (g := mCapeId) codec_readString.reader fun _ _ =>
    WireCodec.bind (g := mFullId) codec_readString.reader fun _ _ =>
    WireCodec.bind (g := mArmSize) codec_readString.reader fun _ _ =>
    WireCodec.bind (g := mSkinColor) codec_readString.reader fun _ _ =>
    WireCodec.bind (g := mPersonaPieces) (codec_countedArray PersonaPiece.codec) fun _ _ =>
    WireCodec.bind (g := mPieceTintColors) (codec_countedArray PieceTintColors.codec) fun _ _ =>
    WireCodec.bind (g := mIsPremiumSkin) codec_readBool.reader fun _ _ =>
    WireCodec.bind (g := mIsPersonaSkin) codec_readBool.reader fun _ _ =>
    WireCodec.bind (g := mIsPersonaCapeOnClassicSkin) codec_readBool.reader fun _ _ =>
    WireCodec.bind (g := mIsPrimaryUser) codec_readBool.reader fun _ _ =>
    WireCodec.bind (g := mOverridesPlayerAppearance) codec_readBool.reader fun _ _ =>
    WireCodec.pure fun skin => by cases skin; grind) ?_ ?_ ?_
  · intro skin
    have hfits : skin.Fits ↔ (∀ text ∈ skin.texts, text.length < 2 ^ 32) ∧
        (skin.mAnimations.length < 2 ^ 32 ∧ ∀ animation ∈ skin.mAnimations, animation.Fits) ∧
        (skin.mPersonaPieces.length < 2 ^ 32 ∧ ∀ piece ∈ skin.mPersonaPieces, piece.Fits) ∧
        (skin.mPieceTintColors.length < 2 ^ 32 ∧ ∀ colors ∈ skin.mPieceTintColors, colors.Fits) :=
      ⟨fun h => ⟨h.texts, ⟨h.animationsCount, h.animations⟩, ⟨h.piecesCount, h.pieces⟩,
        ⟨h.colorsCount, h.colors⟩⟩,
        fun h => ⟨h.1, h.2.1.1, h.2.1.2, h.2.2.1.1, h.2.2.1.2, h.2.2.2.1, h.2.2.2.2⟩⟩
    rw [hfits]
    simp only [texts, List.forall_mem_cons, List.not_mem_nil, false_imp_iff, implies_true, true_and,
      and_true]
    tauto
  · intro skin _
    unfold write
    simp only [writeUnsignedInt, List.append_assoc, List.append_nil]
  · simp

end SerializedSkin

/-! ### Entries -/

structure PlayerListEntry where
  mUUID : UUID
  mActorUniqueId : Int64
  mPlayerName : Bytes
  mXuid : Bytes
  mPlatformChatId : Bytes
  mBuildPlatform : Int32
  mSerializedSkin : SerializedSkin
  mIsTeacher : Bool
  mIsHost : Bool
  mIsSubClient : Bool
  mColor : Int32
  mSkinTrusted : Bool

namespace PlayerListEntry

def new : PlayerListEntry where
  mUUID := ⟨0, 0⟩
  mActorUniqueId := 0
  mPlayerName := []
  mXuid := []
  mPlatformChatId := []
  mBuildPlatform := 0
  mSerializedSkin := .new
  mIsTeacher := false
  mIsHost := false
  mIsSubClient := false
  mColor := 0
  mSkinTrusted := false

/-- All but whether the skin is trusted. -/
def write (entry : PlayerListEntry) : Bytes :=
  entry.mUUID.write ++ writeVarInt64 entry.mActorUniqueId ++ writeString entry.mPlayerName ++
    writeString entry.mXuid ++
    writeString entry.mPlatformChatId ++ writeSignedInt entry.mBuildPlatform.toUInt32 ++
    entry.mSerializedSkin.write ++
    writeBool entry.mIsTeacher ++ writeBool entry.mIsHost ++ writeBool entry.mIsSubClient ++
    writeSignedInt entry.mColor.toUInt32

/-- What is read into `entry`. -/
def read (entry : PlayerListEntry) : Reader PlayerListEntry := do
  let mUUID ← UUID.read
  let mActorUniqueId ← StreamRead.reader readVarInt64
  let mPlayerName ← StreamRead.reader readString
  let mXuid ← StreamRead.reader readString
  let mPlatformChatId ← StreamRead.reader readString
  let mBuildPlatform ← StreamRead.reader readSignedInt
  let mSerializedSkin ← SerializedSkin.read entry.mSerializedSkin
  let mIsTeacher ← StreamRead.reader readBool
  let mIsHost ← StreamRead.reader readBool
  let mIsSubClient ← StreamRead.reader readBool
  let mColor ← StreamRead.reader readSignedInt
  pure ⟨mUUID, mActorUniqueId, mPlayerName, mXuid, mPlatformChatId, mBuildPlatform, mSerializedSkin,
    mIsTeacher, mIsHost, mIsSubClient, mColor, entry.mSkinTrusted⟩

/-- The second pass of a list that is added. -/
def readSkinTrusted (entry : PlayerListEntry) : Reader PlayerListEntry := do
  let mSkinTrusted ← StreamRead.reader readBool
  pure { entry with mSkinTrusted := mSkinTrusted }

/-- What is read of an entry that is removed. -/
def readUUID (entry : PlayerListEntry) : Reader PlayerListEntry := do
  let mUUID ← UUID.read
  pure { entry with mUUID := mUUID }

/-- Strings that fit their lengths, and a skin that fits. -/
structure Fits (entry : PlayerListEntry) : Prop where
  name : entry.mPlayerName.length < 2 ^ 32
  xuid : entry.mXuid.length < 2 ^ 32
  platformChatId : entry.mPlatformChatId.length < 2 ^ 32
  skin : entry.mSerializedSkin.Fits

/-- What the first pass reads. -/
def untrusted (entry : PlayerListEntry) : PlayerListEntry := { entry with mSkinTrusted := false }

theorem codec :
    WireCodec True (read new) write (fun entry => entry.Fits ∧ entry.mSkinTrusted = false)
      fun _ => 0 := by
  refine WireCodec.congr (WireCodec.bind (Q := fun entry => entry.mSkinTrusted = false)
    (g := mUUID) UUID.codec
      fun _ _ =>
    WireCodec.bind (g := mActorUniqueId) codec_readVarInt64.reader fun _ _ =>
    WireCodec.bind (g := mPlayerName) codec_readString.reader fun _ _ =>
    WireCodec.bind (g := mXuid) codec_readString.reader fun _ _ =>
    WireCodec.bind (g := mPlatformChatId) codec_readString.reader fun _ _ =>
    WireCodec.bind (g := mBuildPlatform) codec_readSignedInt.reader fun _ _ =>
    WireCodec.bind (g := mSerializedSkin) SerializedSkin.codec fun _ _ =>
    WireCodec.bind (g := mIsTeacher) codec_readBool.reader fun _ _ =>
    WireCodec.bind (g := mIsHost) codec_readBool.reader fun _ _ =>
    WireCodec.bind (g := mIsSubClient) codec_readBool.reader fun _ _ =>
    WireCodec.bind (g := mColor) codec_readSignedInt.reader fun _ _ =>
    WireCodec.pure fun entry => by cases entry; grind [new]) ?_ ?_ ?_
  · intro entry
    simp only [true_and, and_true]
    exact ⟨fun h => ⟨⟨h.2.1, h.2.2.1, h.2.2.2.1, h.2.2.2.2⟩, h.1⟩,
      fun h => ⟨h.2, h.1.name, h.1.xuid, h.1.platformChatId, h.1.skin⟩⟩
  · intro entry _
    simp only [write, List.append_assoc, List.append_nil]
  · simp

/-- In the second pass an entry has what the first pass has read. -/
theorem codec_readSkinTrusted {entry : PlayerListEntry} (h : entry.mSkinTrusted = false) :
    WireCodec True entry.readSkinTrusted (fun entry => writeBool entry.mSkinTrusted)
      (fun e => e.untrusted = entry ∧ True) fun _ => 0 := by
  refine codec_readBool.reader.inj (k := fun trusted => { entry with mSkinTrusted := trusted }) ?_
    ?_ fun e => ?_
  · exact fun _ => rfl
  · exact fun _ => rfl
  · cases entry
    cases e
    grind [untrusted]

/-- The id of a player who leaves is read back. -/
theorem codec_readUUID : WireCodec True new.readUUID (fun entry => entry.mUUID.write)
    (fun entry => entry = { new with mUUID := entry.mUUID }) fun _ => 0 := by
  refine UUID.codec.inj (k := fun id => { new with mUUID := id }) ?_ ?_ fun entry => ?_
  · exact fun _ => rfl
  · exact fun _ => rfl
  constructor
  · exact fun h => ⟨entry.mUUID, h, trivial⟩
  · rintro ⟨id, rfl, -⟩
    rfl

end PlayerListEntry

/-! ### Lists -/

structure PlayerListPacket where
  mAction : UInt8
  mPlayerEntryList : List PlayerListEntry

namespace PlayerListPacket

/-- `ActionType::Add`; every other action removes. -/
def Add : UInt8 := 0

/-- A fresh packet. -/
def new : PlayerListPacket := ⟨0, []⟩

def writeEntries (mAction : UInt8) (entries : List PlayerListEntry) : Bytes :=
  if mAction = Add then
    entries.flatMap PlayerListEntry.write ++ entries.flatMap fun entry =>
      writeBool entry.mSkinTrusted
  else entries.flatMap fun entry => entry.mUUID.write

def write (packet : PlayerListPacket) : Bytes :=
  writeByte packet.mAction ++ writeUnsignedVarInt (UInt32.ofNat packet.mPlayerEntryList.length) ++
    writeEntries packet.mAction packet.mPlayerEntryList

def readEntries (mAction : UInt8) (entries : List PlayerListEntry) :
    Reader (List PlayerListEntry) :=
  if mAction = Add then do
    let entries ← each PlayerListEntry.read entries
    each PlayerListEntry.readSkinTrusted entries
  else each PlayerListEntry.readUUID entries

/-- The packet that is read into `packet`. -/
def read (packet : PlayerListPacket) : Reader PlayerListPacket := do
  let mAction ← StreamRead.reader (readEnum readByte)
  let entryCount ← StreamRead.reader readUnsignedVarInt
  let entries ← resize .new entryCount.toNat packet.mPlayerEntryList
  let entries ← readEntries mAction entries
  pure ⟨mAction, entries⟩

/-- An entry that is added fits; of one that is removed everything but the id has its default
value. -/
def EntryFits (mAction : UInt8) (entry : PlayerListEntry) : Prop :=
  if mAction = Add then entry.Fits else entry = { PlayerListEntry.new with mUUID := entry.mUUID }

structure Fits (packet : PlayerListPacket) : Prop where
  count : packet.mPlayerEntryList.length < 2 ^ 32
  entries : ∀ entry ∈ packet.mPlayerEntryList, EntryFits packet.mAction entry

/-- **The entries**, in one pass or two. -/
theorem codec_entries (mAction : UInt8) (n : ℕ) :
    WireCodec True (readEntries mAction (List.replicate n .new)) (writeEntries mAction)
      (fun entries => entries.length = n ∧ ∀ entry ∈ entries, EntryFits mAction entry)
        fun _ => 0 := by
  unfold readEntries
  by_cases hadd : mAction = Add
  · rw [if_pos hadd]
    have hfirst : WireCodec True (each PlayerListEntry.read (List.replicate n .new)) _ _ _ :=
      WireCodec.each fun t ht => by
      obtain rfl := List.eq_of_mem_replicate ht
      exact PlayerListEntry.codec
    refine (WireCodec.bind (Q := fun _ => True) (R := fun _ => True)
      (g := fun entries : List PlayerListEntry => entries.map PlayerListEntry.untrusted) hfirst
      (v := fun entries => entries.flatMap fun entry => writeBool entry.mSkinTrusted)
        (n := fun _ => 0)
      fun as has => ?_).congr (fun entries => ?_) (fun entries _ => ?_) fun entries _ => ?_
    · -- the entries of the first pass are the targets of the second
      refine (WireCodec.each_into (k := PlayerListEntry.untrusted) fun t ht =>
        PlayerListEntry.codec_readSkinTrusted (has.2 t ht).2).congr (fun entries => ?_)
          (fun _ _ => rfl)
        fun entries _ => by simp
      simp only [implies_true, and_true]
    · rw [true_and, and_true, List.length_map, List.length_replicate, List.forall_mem_map]
      simp only [EntryFits, if_pos hadd]
      refine and_congr_right fun _ => forall₂_congr fun entry _ => ?_
      exact ⟨fun h => ⟨h.1.name, h.1.xuid, h.1.platformChatId, h.1.skin⟩,
        fun h => ⟨⟨h.name, h.xuid, h.platformChatId, h.skin⟩, rfl⟩⟩
    · rw [writeEntries, if_pos hadd, List.flatMap_map]
      rfl
    · simp [Function.comp_def]
  · rw [if_neg hadd]
    have honly : WireCodec True (each PlayerListEntry.readUUID (List.replicate n .new)) _ _ _ :=
      WireCodec.each fun t ht => by
      obtain rfl := List.eq_of_mem_replicate ht
      exact PlayerListEntry.codec_readUUID
    refine honly.congr (fun entries => ?_) (fun entries _ => ?_) fun entries _ => by simp
    · rw [List.length_replicate]
      simp only [EntryFits, if_neg hadd]
    · rw [writeEntries, if_neg hadd]

theorem codec : WireCodec True (read new) write Fits fun _ => 0 := by
  -- every 32-bit count is a size
  have hresize : ∀ count : UInt32,
    (resize PlayerListEntry.new count.toNat [] : Reader (List PlayerListEntry)) =
      pure (List.replicate count.toNat .new) := by
    intro count
    have hle : count.toNat ≤ maxSize := Nat.le_trans (Nat.le_of_lt count.toNat_lt) (by decide)
    rw [resize, if_neg (Nat.not_lt.mpr hle), List.take_nil, List.nil_append, List.length_nil,
      Nat.sub_zero]
  have hentries : ∀ (mAction : UInt8) (count : UInt32), WireCodec True
      (do
        let entries ← resize PlayerListEntry.new count.toNat []
        let entries ← readEntries mAction entries
        pure (⟨mAction, entries⟩ : PlayerListPacket))
      (fun packet => writeEntries mAction packet.mPlayerEntryList ++ [])
      (fun packet => (UInt32.ofNat packet.mPlayerEntryList.length = count ∧
        packet.mAction = mAction ∧ True) ∧
        (packet.mPlayerEntryList.length = count.toNat ∧ ∀ entry ∈ packet.mPlayerEntryList,
          EntryFits mAction entry) ∧
          True) fun _ => 0 + 0 := by
    intro mAction count
    rw [hresize]
    refine WireCodec.bind (g := mPlayerEntryList) (codec_entries mAction count.toNat)
        fun entries hentries =>
      WireCodec.pure fun packet => ?_
    have hcount : UInt32.ofNat entries.length = count := by rw [hentries.1, UInt32.ofNat_toNat]
    cases packet
    grind
  refine WireCodec.congr (WireCodec.bind_dependent (Q := fun _ => True) (g := mAction)
      (codec_readEnum codec_readByte).reader fun mAction _ =>
    WireCodec.bind_dependent
      (g := fun packet : PlayerListPacket => UInt32.ofNat packet.mPlayerEntryList.length)
      codec_readUnsignedVarInt.reader fun count _ => hentries mAction count) ?_ ?_ ?_
  · intro packet
    have hcount : packet.mPlayerEntryList.length =
      (UInt32.ofNat packet.mPlayerEntryList.length).toNat ↔
        packet.mPlayerEntryList.length < 2 ^ 32 := by
      rw [UInt32.toNat_ofNat']
      constructor
      · exact fun h => h ▸ Nat.mod_lt _ (Nat.two_pow_pos 32)
      · exact fun h => (Nat.mod_eq_of_lt h).symm
    simp only [true_and, and_true, hcount]
    exact ⟨fun h => ⟨h.1, h.2⟩, fun h => ⟨h.count, h.entries⟩⟩
  · intro packet _
    simp only [write, List.append_assoc, List.append_nil]
  · simp

/-- **Players.** A packet comes back from what is written of it, whatever follows, exactly if it has
less than `2 ^ 32` entries and each of them is added and fits, or is removed and has nothing but its
id. -/
theorem players_read_back_iff (packet : PlayerListPacket) :
    Accepts (read new) packet.write packet ↔ packet.Fits := by
  rw [codec.reads_back_iff]
  exact and_iff_left rfl

end PlayerListPacket
end SculkProtocol
