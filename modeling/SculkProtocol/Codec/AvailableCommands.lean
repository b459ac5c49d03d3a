import SculkProtocol.Codec.EnumNames
import SculkProtocol.Codec.Items

/-!
# Commands, and sizes that are checked

After it has read some sizes, a reader checks them against a bound. The writers do not, so a packet
with a larger size is written and never read. `AvailableCommandsPacket` has such a bound on its
chained subcommands, which are checked after all of them are there, and it writes the permission
level of a command as a name. `commands_read_back_iff` and `bosses_read_back_iff` say which packets
come back.
-/

namespace SculkProtocol

open Decoder BinaryStream ReadOnlyBinaryStream StreamRead

section

variable {T : Prop} {α : Type}

/-- `_SCULK_CHECK_MAX` of what was read. -/
def checkMax (value : String) (size : α → ℕ) (max : ℕ) (d : Reader α) : Reader α := do
  let a ← d
  if size a > max then Decoder.fail (.error (value ++ " out of bounds: too large")) else pure a

/-- What comes back is not above the bound. -/
theorem codec_checkMax {value : String} {size : α → ℕ} {max : ℕ} {d : Reader α} {w : α → Bytes}
    {P : α → Prop}
    {u : α → ℕ} (h : WireCodec T d w P u) :
    WireCodec T (checkMax value size max d) w (fun a => P a ∧ size a ≤ max) u :=
  h.check.congr (fun _ => and_congr_right' Nat.not_lt) (fun _ _ => rfl) fun _ _ => rfl

/-- A new list of strings. -/
theorem codec_texts : WireCodec T (readUnsignedArray [] (fun _ => StreamRead.reader readString) [])
    (writeArray Prefix.unsignedVarInt writeString)
    (fun texts => texts.length < 2 ^ 32 ∧ ∀ text ∈ texts, text.length < 2 ^ 32) fun _ => 0 :=
  codec_newArray codec_readString.reader

/-- A new list of numbers. -/
theorem codec_indexes :
    WireCodec T (readUnsignedArray 0 (fun _ => StreamRead.reader readUnsignedInt) [])
    (writeArray Prefix.unsignedVarInt writeUnsignedInt) (fun indexes => indexes.length < 2 ^ 32)
      fun _ => 0 :=
  (codec_newArray (codec_scalar Scalar.uint32).reader).congr (fun _ => by simp) (fun _ _ => rfl)
    fun _ _ => rfl

end

/-! ### Bosses -/

structure BossEventPacket where
  mTargetActorID : Int64
  mPlayerID : Int64
  mType : UInt8
  mName : Bytes
  mFilteredName : Bytes
  mPercentage : UInt32
  mColor : UInt32
  mOverlay : UInt32

namespace BossEventPacket

/-- A fresh packet. -/
def new : BossEventPacket := ⟨0, 0, 0, [], [], 0, 0, 0⟩

def write (packet : BossEventPacket) : Bytes :=
  writeVarInt64 packet.mTargetActorID ++ writeVarInt64 packet.mPlayerID ++
    writeUnsignedVarInt packet.mType.toUInt32 ++
    writeString packet.mName ++ writeString packet.mFilteredName ++ writeFloat packet.mPercentage ++
    writeUnsignedVarInt packet.mColor ++ writeUnsignedVarInt packet.mOverlay

/-- What is read into a packet: nothing of it stays. -/
def read : Reader BossEventPacket := do
  let mTargetActorID ← StreamRead.reader readVarInt64
  let mPlayerID ← StreamRead.reader readVarInt64
  let mType ← (StreamRead.reader (readEnum readUnsignedVarInt)).cast UInt32.toUInt8
  let mName ← checkMax "mName.size()" List.length 256 (StreamRead.reader readString)
  let mFilteredName ← checkMax "mFilteredName.size()" List.length 256 (StreamRead.reader readString)
  let mPercentage ← StreamRead.reader readFloat
  let mColor ← StreamRead.reader readUnsignedVarInt
  let mOverlay ← StreamRead.reader readUnsignedVarInt
  pure ⟨mTargetActorID, mPlayerID, mType, mName, mFilteredName, mPercentage, mColor, mOverlay⟩

/-- Names of at most 256 bytes. -/
structure Fits (packet : BossEventPacket) : Prop where
  name : packet.mName.length ≤ 256
  filteredName : packet.mFilteredName.length ≤ 256

theorem codec : WireCodec True read write Fits fun _ => 0 := by
  refine WireCodec.congr
      (WireCodec.bind (Q := fun _ => True) (g := mTargetActorID)
          codec_readVarInt64.reader fun _ _ =>
    WireCodec.bind (g := mPlayerID) codec_readVarInt64.reader fun _ _ =>
    WireCodec.bind (g := mType) codec_byteEnum fun _ _ =>
    WireCodec.bind (g := mName) (codec_checkMax codec_readString.reader) fun _ _ =>
    WireCodec.bind (g := mFilteredName) (codec_checkMax codec_readString.reader) fun _ _ =>
    WireCodec.bind (g := mPercentage) (codec_scalar Scalar.uint32).reader fun _ _ =>
    WireCodec.bind (g := mColor) codec_readUnsignedVarInt.reader fun _ _ =>
    WireCodec.bind (g := mOverlay) codec_readUnsignedVarInt.reader fun _ _ =>
    WireCodec.pure fun packet => by cases packet; grind) ?_ ?_ ?_
  · intro packet
    simp only [true_and, and_true]
    constructor
    · rintro ⟨⟨-, hname⟩, -, hfiltered⟩
      exact ⟨hname, hfiltered⟩
    · rintro ⟨hname, hfiltered⟩
      exact ⟨⟨Nat.lt_of_le_of_lt hname (by decide), hname⟩,
        Nat.lt_of_le_of_lt hfiltered (by decide), hfiltered⟩
  · simp [write, writeFloat]
  · simp

/-- **Bosses.** A packet comes back from what is written of it, whatever follows, exactly if neither
name has more than 256 bytes. -/
theorem bosses_read_back_iff (packet : BossEventPacket) :
    Accepts read packet.write packet ↔ packet.Fits :=
  codec.reads_back_iff_of_complete rfl

end BossEventPacket

/-! ### Commands -/

structure CommandEnumData where
  mName : Bytes
  mValues : List UInt32

namespace CommandEnumData

def new : CommandEnumData := ⟨[], []⟩

def write (data : CommandEnumData) : Bytes :=
  writeString data.mName ++ writeArray Prefix.unsignedVarInt writeUnsignedInt data.mValues

/-- What is read into `data`. -/
def read (data : CommandEnumData) : Reader CommandEnumData := do
  let mName ← StreamRead.reader readString
  let mValues ← readUnsignedArray 0 (fun _ => StreamRead.reader readUnsignedInt) data.mValues
  pure ⟨mName, mValues⟩

structure Fits (data : CommandEnumData) : Prop where
  name : data.mName.length < 2 ^ 32
  values : data.mValues.length < 2 ^ 32

theorem codec : WireCodec True (read new) write Fits fun _ => 0 := by
  refine WireCodec.congr (WireCodec.bind (Q := fun _ => True) (g := mName)
      codec_readString.reader fun _ _ =>
    WireCodec.bind (g := mValues) codec_indexes fun _ _ =>
    WireCodec.pure fun data => by cases data; grind) ?_ ?_ ?_
  · intro data
    simp only [true_and, and_true]
    exact ⟨fun h => ⟨h.1, h.2⟩, fun h => ⟨h.name, h.values⟩⟩
  · simp [write]
  · simp

end CommandEnumData

structure CommandChainedSubcommandData where
  mName : Bytes
  mValues : List (UInt32 × UInt32)

namespace CommandChainedSubcommandData

def new : CommandChainedSubcommandData := ⟨[], []⟩

def writeValue (value : UInt32 × UInt32) : Bytes :=
  writeUnsignedVarInt value.1 ++ writeUnsignedVarInt value.2

def readValue : Reader (UInt32 × UInt32) := do
  let first ← StreamRead.reader readUnsignedVarInt
  let second ← StreamRead.reader readUnsignedVarInt
  pure (first, second)

def write (data : CommandChainedSubcommandData) : Bytes :=
  writeString data.mName ++ writeArray Prefix.unsignedVarInt writeValue data.mValues

/-- What is read into `data`. -/
def read (data : CommandChainedSubcommandData) : Reader CommandChainedSubcommandData := do
  let mName ← StreamRead.reader readString
  let mValues ← readUnsignedArray (0, 0) (fun _ => readValue) data.mValues
  pure ⟨mName, mValues⟩

structure Fits (data : CommandChainedSubcommandData) : Prop where
  name : data.mName.length < 2 ^ 32
  values : data.mValues.length < 2 ^ 32

/-- A value is read back. -/
theorem codec_value : WireCodec True readValue writeValue (fun _ => True) fun _ => 0 := by
  refine WireCodec.congr
      (WireCodec.bind (Q := fun _ => True) (g := Prod.fst)
          codec_readUnsignedVarInt.reader fun _ _ =>
    WireCodec.bind (g := Prod.snd) codec_readUnsignedVarInt.reader fun _ _ =>
    WireCodec.pure fun value => by cases value; grind) ?_ ?_ ?_
  · simp
  · simp [writeValue]
  · simp

theorem codec : WireCodec True (read new) write Fits fun _ => 0 := by
  refine WireCodec.congr (WireCodec.bind (Q := fun _ => True) (g := mName)
      codec_readString.reader fun _ _ =>
    WireCodec.bind (g := mValues) (codec_newArray codec_value) fun _ _ =>
    WireCodec.pure fun data => by cases data; grind) ?_ ?_ ?_
  · intro data
    simp only [true_and, and_true, implies_true]
    exact ⟨fun h => ⟨h.1, h.2⟩, fun h => ⟨h.name, h.values⟩⟩
  · simp [write]
  · simp

end CommandChainedSubcommandData

structure CommandParameterData where
  mName : Bytes
  mParseSymbol : UInt32
  mIsOptional : Bool
  mOptions : UInt8

namespace CommandParameterData

def new : CommandParameterData := ⟨[], 0, false, 0⟩

def write (data : CommandParameterData) : Bytes :=
  writeString data.mName ++ writeUnsignedInt data.mParseSymbol ++ writeBool data.mIsOptional ++
  writeByte data.mOptions

def read : Reader CommandParameterData := do
  let mName ← StreamRead.reader readString
  let mParseSymbol ← StreamRead.reader readUnsignedInt
  let mIsOptional ← StreamRead.reader readBool
  let mOptions ← StreamRead.reader readByte
  pure ⟨mName, mParseSymbol, mIsOptional, mOptions⟩

theorem codec : WireCodec True read write (fun data => data.mName.length < 2 ^ 32) fun _ => 0 := by
  refine WireCodec.congr (WireCodec.bind (Q := fun _ => True) (g := mName)
      codec_readString.reader fun _ _ =>
    WireCodec.bind (g := mParseSymbol) (codec_scalar Scalar.uint32).reader fun _ _ =>
    WireCodec.bind (g := mIsOptional) codec_readBool.reader fun _ _ =>
    WireCodec.bind (g := mOptions) codec_readByte.reader fun _ _ =>
    WireCodec.pure fun data => by cases data; grind) ?_ ?_ ?_
  · simp
  · simp [write, writeUnsignedInt]
  · simp

end CommandParameterData

structure CommandOverloadData where
  mIsChaining : Bool
  mParameters : List CommandParameterData

namespace CommandOverloadData

def new : CommandOverloadData := ⟨false, []⟩

def write (data : CommandOverloadData) : Bytes :=
  writeBool data.mIsChaining ++ writeArray Prefix.unsignedVarInt CommandParameterData.write
    data.mParameters

/-- What is read into `data`. -/
def read (data : CommandOverloadData) : Reader CommandOverloadData := do
  let mIsChaining ← StreamRead.reader readBool
  let mParameters ← readUnsignedArray .new (fun _ => CommandParameterData.read) data.mParameters
  pure ⟨mIsChaining, mParameters⟩

structure Fits (data : CommandOverloadData) : Prop where
  count : data.mParameters.length < 2 ^ 32
  names : ∀ parameter ∈ data.mParameters, parameter.mName.length < 2 ^ 32

theorem codec : WireCodec True (read new) write Fits fun _ => 0 := by
  refine WireCodec.congr
      (WireCodec.bind (Q := fun _ => True) (g := mIsChaining) codec_readBool.reader fun _ _ =>
    WireCodec.bind (g := mParameters) (codec_newArray CommandParameterData.codec) fun _ _ =>
    WireCodec.pure fun data => by cases data; grind) ?_ ?_ ?_
  · intro data
    simp only [true_and, and_true]
    exact ⟨fun h => ⟨h.1, h.2⟩, fun h => ⟨h.count, h.names⟩⟩
  · simp [write]
  · simp

end CommandOverloadData

/-- The enumerators of `CommandPermissionLevel` and their values. -/
def commandPermissionLevels : List (Bytes × UInt8) :=
  [(EnumNames.characters "Any", 0), (EnumNames.characters "GameDirectors", 1),
    (EnumNames.characters "Admin", 2),
    (EnumNames.characters "Host", 3), (EnumNames.characters "Owner", 4),
    (EnumNames.characters "Internal", 5)]

def CommandPermissionLevel : EnumNames UInt8 :=
  .ofEntries commandPermissionLevels 0 (by decide) (by decide +kernel) (by decide) (by decide)
    (by decide)

/-- Every level has a name. -/
theorem isNamed_commandPermissionLevel {level : UInt8} :
    CommandPermissionLevel.IsNamed level ↔ level ≤ 5 := by
  have hnames : CommandPermissionLevel.IsNamed level ↔
      level ∈ commandPermissionLevels.map Prod.snd := by
    rw [List.mem_map]
    exact ⟨fun ⟨name, h⟩ => ⟨(name, level), h, rfl⟩,
      fun ⟨entry, h, hlevel⟩ => ⟨entry.1, hlevel ▸ h⟩⟩
  have hall : ∀ n < 256, UInt8.ofNat n ∈ commandPermissionLevels.map Prod.snd ↔
      UInt8.ofNat n ≤ 5 := by decide +kernel
  have hlevel := hall level.toNat level.toNat_lt
  rw [UInt8.ofNat_toNat] at hlevel
  exact hnames.trans hlevel

structure CommandData where
  mName : Bytes
  mDescription : Bytes
  mFlags : UInt16
  mCommandPermissionLevel : UInt8
  mAliasEnum : Int32
  mChainedSubcommandIndexes : List UInt32
  mOverloads : List CommandOverloadData

namespace CommandData

def new : CommandData := ⟨[], [], 0, 0, 0, [], []⟩

def write (data : CommandData) : Bytes :=
  writeString data.mName ++ writeString data.mDescription ++ writeUnsignedShort data.mFlags ++
    CommandPermissionLevel.writeEnumName data.mCommandPermissionLevel ++
    writeSignedInt data.mAliasEnum.toUInt32 ++
    writeArray Prefix.unsignedVarInt writeUnsignedInt data.mChainedSubcommandIndexes ++
    writeArray Prefix.unsignedVarInt CommandOverloadData.write data.mOverloads

/-- What is read into `data`. -/
def read (data : CommandData) : Reader CommandData := do
  let mName ← StreamRead.reader readString
  let mDescription ← StreamRead.reader readString
  let mFlags ← StreamRead.reader readUnsignedShort
  let mCommandPermissionLevel ← StreamRead.reader CommandPermissionLevel.readEnumName
  let mAliasEnum ← StreamRead.reader readSignedInt
  let mChainedSubcommandIndexes ←
    readUnsignedArray 0 (fun _ => StreamRead.reader readUnsignedInt) data.mChainedSubcommandIndexes
  let mOverloads ← readUnsignedArray .new CommandOverloadData.read data.mOverloads
  pure ⟨mName, mDescription, mFlags, mCommandPermissionLevel, mAliasEnum,
    mChainedSubcommandIndexes, mOverloads⟩

structure Fits (data : CommandData) : Prop where
  name : data.mName.length < 2 ^ 32
  description : data.mDescription.length < 2 ^ 32
  level : data.mCommandPermissionLevel ≤ 5
  indexes : data.mChainedSubcommandIndexes.length < 2 ^ 32
  count : data.mOverloads.length < 2 ^ 32
  overloads : ∀ overload ∈ data.mOverloads, overload.Fits

theorem codec : WireCodec True (read new) write Fits fun _ => 0 := by
  refine WireCodec.congr (WireCodec.bind (Q := fun _ => True) (g := mName)
      codec_readString.reader fun _ _ =>
    WireCodec.bind (g := mDescription) codec_readString.reader fun _ _ =>
    WireCodec.bind (g := mFlags) (codec_scalar Scalar.uint16).reader fun _ _ =>
    WireCodec.bind (g := mCommandPermissionLevel) CommandPermissionLevel.codec.reader fun _ _ =>
    WireCodec.bind (g := mAliasEnum) codec_readSignedInt.reader fun _ _ =>
    WireCodec.bind (g := mChainedSubcommandIndexes) codec_indexes fun _ _ =>
    WireCodec.bind (g := mOverloads) (codec_newArray CommandOverloadData.codec) fun _ _ =>
    WireCodec.pure fun data => by cases data; grind) ?_ ?_ ?_
  · intro data
    simp only [true_and, and_true, isNamed_commandPermissionLevel]
    exact ⟨fun ⟨h₁, h₂, h₃, h₄, h₅, h₆⟩ => ⟨h₁, h₂, h₃, h₄, h₅, h₆⟩,
      fun h => ⟨h.name, h.description, h.level, h.indexes, h.count, h.overloads⟩⟩
  · intro data _
    simp only [write, writeUnsignedShort, List.append_assoc, List.append_nil]
  · simp

end CommandData

structure CommandSoftEnumData where
  mName : Bytes
  mValues : List Bytes

namespace CommandSoftEnumData

def new : CommandSoftEnumData := ⟨[], []⟩

def write (data : CommandSoftEnumData) : Bytes :=
  writeString data.mName ++ writeArray Prefix.unsignedVarInt writeString data.mValues

/-- What is read into `data`. -/
def read (data : CommandSoftEnumData) : Reader CommandSoftEnumData := do
  let mName ← StreamRead.reader readString
  let mValues ← readUnsignedArray [] (fun _ => StreamRead.reader readString) data.mValues
  pure ⟨mName, mValues⟩

structure Fits (data : CommandSoftEnumData) : Prop where
  name : data.mName.length < 2 ^ 32
  count : data.mValues.length < 2 ^ 32
  values : ∀ value ∈ data.mValues, value.length < 2 ^ 32

theorem codec : WireCodec True (read new) write Fits fun _ => 0 := by
  refine WireCodec.congr (WireCodec.bind (Q := fun _ => True) (g := mName)
      codec_readString.reader fun _ _ =>
    WireCodec.bind (g := mValues) codec_texts fun _ _ =>
    WireCodec.pure fun data => by cases data; grind) ?_ ?_ ?_
  · intro data
    simp only [true_and, and_true]
    exact ⟨fun h => ⟨h.1, h.2.1, h.2.2⟩, fun h => ⟨h.name, h.count, h.values⟩⟩
  · simp [write]
  · simp

end CommandSoftEnumData

structure CommandConstrainedValueData where
  mEnumValueSymbol : UInt32
  mEnumSymbol : UInt32
  mConstraintIndices : List UInt8

namespace CommandConstrainedValueData

def new : CommandConstrainedValueData := ⟨0, 0, []⟩

def write (data : CommandConstrainedValueData) : Bytes :=
  writeUnsignedInt data.mEnumValueSymbol ++ writeUnsignedInt data.mEnumSymbol ++
    writeArray Prefix.unsignedVarInt writeByte data.mConstraintIndices

/-- What is read into `data`. -/
def read (data : CommandConstrainedValueData) : Reader CommandConstrainedValueData := do
  let mEnumValueSymbol ← StreamRead.reader readUnsignedInt
  let mEnumSymbol ← StreamRead.reader readUnsignedInt
  let mConstraintIndices ← readUnsignedArray 0 (fun _ => StreamRead.reader readByte)
    data.mConstraintIndices
  pure ⟨mEnumValueSymbol, mEnumSymbol, mConstraintIndices⟩

theorem codec :
    WireCodec True (read new) write (fun data => data.mConstraintIndices.length < 2 ^ 32)
      fun _ => 0 := by
  refine WireCodec.congr (WireCodec.bind (Q := fun _ => True) (g := mEnumValueSymbol)
      (codec_scalar Scalar.uint32).reader fun _ _ =>
    WireCodec.bind (g := mEnumSymbol) (codec_scalar Scalar.uint32).reader fun _ _ =>
    WireCodec.bind (g := mConstraintIndices) (codec_newArray codec_readByte.reader) fun _ _ =>
    WireCodec.pure fun data => by cases data; grind) ?_ ?_ ?_
  · simp
  · simp [write, writeUnsignedInt]
  · simp

end CommandConstrainedValueData

structure AvailableCommandsPacket where
  mEnumValues : List Bytes
  mChainedSubcommandsValues : List Bytes
  mPostFixes : List Bytes
  mEnumData : List CommandEnumData
  mChainedSubcommandData : List CommandChainedSubcommandData
  mCommands : List CommandData
  mSoftEnums : List CommandSoftEnumData
  mConstraints : List CommandConstrainedValueData

namespace AvailableCommandsPacket

/-- A fresh packet. -/
def new : AvailableCommandsPacket := ⟨[], [], [], [], [], [], [], []⟩

def write (packet : AvailableCommandsPacket) : Bytes :=
  writeArray Prefix.unsignedVarInt writeString packet.mEnumValues ++
    writeArray Prefix.unsignedVarInt writeString packet.mChainedSubcommandsValues ++
    writeArray Prefix.unsignedVarInt writeString packet.mPostFixes ++
    writeArray Prefix.unsignedVarInt CommandEnumData.write packet.mEnumData ++
    writeArray Prefix.unsignedVarInt CommandChainedSubcommandData.write
      packet.mChainedSubcommandData ++
    writeArray Prefix.unsignedVarInt CommandData.write packet.mCommands ++
    writeArray Prefix.unsignedVarInt CommandSoftEnumData.write packet.mSoftEnums ++
    writeArray Prefix.unsignedVarInt CommandConstrainedValueData.write packet.mConstraints

/-- The packet that is read into `packet`. -/
def read (packet : AvailableCommandsPacket) : Reader AvailableCommandsPacket := do
  let mEnumValues ← readUnsignedArray [] (fun _ => StreamRead.reader readString) packet.mEnumValues
  let mChainedSubcommandsValues ←
    readUnsignedArray [] (fun _ => StreamRead.reader readString) packet.mChainedSubcommandsValues
  let mPostFixes ← readUnsignedArray [] (fun _ => StreamRead.reader readString) packet.mPostFixes
  let mEnumData ← readUnsignedArray .new CommandEnumData.read packet.mEnumData
  -- all of them are there before they are counted
  let mChainedSubcommandData ← checkMax "mChainedSubcommandData.size()" List.length 16
    (readUnsignedArray .new CommandChainedSubcommandData.read packet.mChainedSubcommandData)
  let mCommands ← readUnsignedArray .new CommandData.read packet.mCommands
  let mSoftEnums ← readUnsignedArray .new CommandSoftEnumData.read packet.mSoftEnums
  let mConstraints ← readUnsignedArray .new CommandConstrainedValueData.read packet.mConstraints
  pure ⟨mEnumValues, mChainedSubcommandsValues, mPostFixes, mEnumData, mChainedSubcommandData,
    mCommands, mSoftEnums, mConstraints⟩

/-- At most 16 chained subcommands, levels with a name, and sizes that fit. -/
structure Fits (packet : AvailableCommandsPacket) : Prop where
  enumValues : packet.mEnumValues.length < 2 ^ 32 ∧ ∀ text ∈ packet.mEnumValues,
    text.length < 2 ^ 32
  chainedValues : packet.mChainedSubcommandsValues.length < 2 ^ 32 ∧
    ∀ text ∈ packet.mChainedSubcommandsValues, text.length < 2 ^ 32
  postFixes : packet.mPostFixes.length < 2 ^ 32 ∧ ∀ text ∈ packet.mPostFixes, text.length < 2 ^ 32
  enumData : packet.mEnumData.length < 2 ^ 32 ∧ ∀ data ∈ packet.mEnumData, data.Fits
  chained : packet.mChainedSubcommandData.length ≤ 16 ∧ ∀ data ∈ packet.mChainedSubcommandData,
    data.Fits
  commands : packet.mCommands.length < 2 ^ 32 ∧ ∀ data ∈ packet.mCommands, data.Fits
  softEnums : packet.mSoftEnums.length < 2 ^ 32 ∧ ∀ data ∈ packet.mSoftEnums, data.Fits
  constraints : packet.mConstraints.length < 2 ^ 32 ∧
    ∀ data ∈ packet.mConstraints, data.mConstraintIndices.length < 2 ^ 32

theorem codec : WireCodec True (read new) write Fits fun _ => 0 := by
  refine WireCodec.congr (WireCodec.bind (Q := fun _ => True) (g := mEnumValues)
      codec_texts fun _ _ =>
    WireCodec.bind (g := mChainedSubcommandsValues) codec_texts fun _ _ =>
    WireCodec.bind (g := mPostFixes) codec_texts fun _ _ =>
    WireCodec.bind (g := mEnumData) (codec_newArray CommandEnumData.codec) fun _ _ =>
    WireCodec.bind (g := mChainedSubcommandData)
      (codec_checkMax (codec_newArray CommandChainedSubcommandData.codec)) fun _ _ =>
    WireCodec.bind (g := mCommands) (codec_newArray CommandData.codec) fun _ _ =>
    WireCodec.bind (g := mSoftEnums) (codec_newArray CommandSoftEnumData.codec) fun _ _ =>
    WireCodec.bind (g := mConstraints) (codec_newArray CommandConstrainedValueData.codec) fun _ _ =>
    WireCodec.pure fun packet => by cases packet; grind) ?_ ?_ ?_
  · intro packet
    simp only [true_and, and_true]
    constructor
    · rintro ⟨hvalues, hchainedValues, hpostFixes, hdata, ⟨⟨-, hchained⟩, hmax⟩, hcommands, hsoft,
        hconstraints⟩
      exact ⟨hvalues, hchainedValues, hpostFixes, hdata, ⟨hmax, hchained⟩, hcommands, hsoft,
        hconstraints⟩
    · intro h
      exact ⟨h.enumValues, h.chainedValues, h.postFixes, h.enumData,
        ⟨⟨Nat.lt_of_le_of_lt h.chained.1 (by decide), h.chained.2⟩, h.chained.1⟩, h.commands,
        h.softEnums, h.constraints⟩
  · intro packet _
    simp only [write, List.append_assoc, List.append_nil]
  · simp

/-- **Commands.** A packet comes back from what is written of it, whatever follows, exactly if it
has at most 16 chained subcommands, each command has one of the six levels, and the other sizes fit
their prefixes. -/
theorem commands_read_back_iff (packet : AvailableCommandsPacket) :
    Accepts (read new) packet.write packet ↔ packet.Fits :=
  codec.reads_back_iff_of_complete rfl

end AvailableCommandsPacket
end SculkProtocol
