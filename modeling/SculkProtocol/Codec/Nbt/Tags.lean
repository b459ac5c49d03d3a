import SculkProtocol.Utility.Combinators

/-!
# NBT tags

Trees of tags, how they are serialised and how they are read. A tag id is any byte: `readEnum`
does not check it, and `emplace` leaves the variant as it is for an id that is not listed.

The readers call one another; `fuel` bounds how deep, and how many entries a compound has.
Every entry and every tag with tags in it takes a byte at least, so a number greater than that
of the bytes left is enough (`Payload.accepts`, `Excess.raises`).
-/

namespace SculkProtocol

open Decoder BinaryStream ReadOnlyBinaryStream

/-- `TagType`, by its value. -/
abbrev TagType := UInt8

namespace TagType

@[match_pattern] def endTag : TagType := 0
@[match_pattern] def byteTag : TagType := 1
@[match_pattern] def shortTag : TagType := 2
@[match_pattern] def intTag : TagType := 3
@[match_pattern] def longTag : TagType := 4
@[match_pattern] def floatTag : TagType := 5
@[match_pattern] def doubleTag : TagType := 6
@[match_pattern] def byteArrayTag : TagType := 7
@[match_pattern] def stringTag : TagType := 8
@[match_pattern] def listTag : TagType := 9
@[match_pattern] def compoundTag : TagType := 10
@[match_pattern] def intArrayTag : TagType := 11

/-- The ids of values. -/
def IsDefined (type : TagType) : Prop := 1 ≤ type ∧ type ≤ 11

instance (type : TagType) : Decidable type.IsDefined := inferInstanceAs (Decidable (_ ∧ _))

end TagType

/-- The value of a tag. A `ListTag` has the type that it declares; a `CompoundTag` has its
entries in the order of their keys. -/
inductive TagVariant
  | endTag
  | byteTag (mValue : Int8)
  | shortTag (mValue : Int16)
  | intTag (mValue : Int32)
  | longTag (mValue : Int64)
  | floatTag (bits : UInt32)
  | doubleTag (bits : UInt64)
  | byteArrayTag (mValue : List Int8)
  | stringTag (mValue : Bytes)
  | listTag (mType : TagType) (mValue : List TagVariant)
  | compoundTag (mValue : List (Bytes × TagVariant))
  | intArrayTag (mValue : List Int32)

namespace TagVariant

/-- The index of the alternative. -/
def getType : TagVariant → TagType
  | .endTag => TagType.endTag
  | .byteTag _ => TagType.byteTag
  | .shortTag _ => TagType.shortTag
  | .intTag _ => TagType.intTag
  | .longTag _ => TagType.longTag
  | .floatTag _ => TagType.floatTag
  | .doubleTag _ => TagType.doubleTag
  | .byteArrayTag _ => TagType.byteArrayTag
  | .stringTag _ => TagType.stringTag
  | .listTag _ _ => TagType.listTag
  | .compoundTag _ => TagType.compoundTag
  | .intArrayTag _ => TagType.intArrayTag

/-- The switch has no default. -/
def emplace (v : TagVariant) : TagType → TagVariant
  | TagType.endTag => .endTag
  | TagType.byteTag => .byteTag 0
  | TagType.shortTag => .shortTag 0
  | TagType.intTag => .intTag 0
  | TagType.longTag => .longTag 0
  | TagType.floatTag => .floatTag 0
  | TagType.doubleTag => .doubleTag 0
  | TagType.byteArrayTag => .byteArrayTag []
  | TagType.stringTag => .stringTag []
  | TagType.listTag => .listTag TagType.endTag []
  | TagType.compoundTag => .compoundTag []
  | TagType.intArrayTag => .intArrayTag []
  | _ => v

end TagVariant

/-! ### Writing -/

/-- `ValueArrayTag::serialize` -/
def ValueArrayTag.serialize {α : Type} (write : α → Bytes) (mValue : List α) : Bytes :=
  writeVarInt (Int32.ofNat mValue.length) ++ mValue.flatMap write

mutual

def TagVariant.serialize : TagVariant → Bytes
  | .endTag => []
  | .byteTag v => writeSignedChar v
  | .shortTag v => writeSignedShort v
  | .intTag v => writeVarInt v
  | .longTag v => writeVarInt64 v
  | .floatTag bits => writeFloat bits
  | .doubleTag bits => writeDouble bits
  | .byteArrayTag vs => ValueArrayTag.serialize writeSignedChar vs
  | .stringTag v => writeString v
  | .listTag type vs => writeByte type ++ writeVarInt (Int32.ofNat vs.length) ++
      ListTag.serializeElements vs
  | .compoundTag entries => CompoundTag.serializeEntries entries ++ writeByte 0
  | .intArrayTag vs => ValueArrayTag.serialize writeVarInt vs

def ListTag.serializeElements : List TagVariant → Bytes
  | [] => []
  | v :: vs => v.serialize ++ ListTag.serializeElements vs

/-- A value of the type `End` is left out. -/
def CompoundTag.serializeEntries : List (Bytes × TagVariant) → Bytes
  | [] => []
  | (key, value) :: entries =>
    (if value.getType ≠ TagType.endTag then writeByte value.getType ++ writeString key ++
      value.serialize else []) ++
      CompoundTag.serializeEntries entries

end

/-- The root name is an empty string. -/
def CompoundTag.write (mValue : List (Bytes × TagVariant)) : Bytes :=
  writeByte TagType.compoundTag ++ writeByte 0 ++ (TagVariant.compoundTag mValue).serialize

/-! ### Reading -/

/-- `ValueArrayTag::deserialize` -/
def ValueArrayTag.deserialize {α : Type} (value : α) (read : StreamRead α) (mValue : List α) :
    Reader (List α) := do
  let size ← StreamRead.reader readVarInt
  let mValue ← resize value (sizeCast size) mValue
  each (fun _ => read.reader) mValue

/-- `ListTag::deserialize`, by how an element is read. -/
def ListTag.deserialize (element : TagVariant → Reader TagVariant) (mValue : List TagVariant) :
    Reader (TagType × List TagVariant) := do
  let mType ← StreamRead.reader (readEnum readByte)
  let size ← StreamRead.reader readVarInt
  let mValue ← resize .endTag (sizeCast size) mValue
  let mValue ← each (fun v => element (v.emplace mType)) mValue
  pure (mType, mValue)

mutual

/-- The alternative that is there is read. -/
def TagVariant.deserializeFuel : ℕ → TagVariant → Reader TagVariant
  | 0, _ => fail (.error "")
  | _ + 1, .endTag => pure .endTag
  | _ + 1, .byteTag _ => do
    let v ← StreamRead.reader readSignedChar
    pure (.byteTag v)
  | _ + 1, .shortTag _ => do
    let v ← StreamRead.reader readSignedShort
    pure (.shortTag v)
  | _ + 1, .intTag _ => do
    let v ← StreamRead.reader readVarInt
    pure (.intTag v)
  | _ + 1, .longTag _ => do
    let v ← StreamRead.reader readVarInt64
    pure (.longTag v)
  | _ + 1, .floatTag _ => do
    let bits ← StreamRead.reader readFloat
    pure (.floatTag bits)
  | _ + 1, .doubleTag _ => do
    let bits ← StreamRead.reader readDouble
    pure (.doubleTag bits)
  | _ + 1, .byteArrayTag vs => do
    let vs ← ValueArrayTag.deserialize 0 readSignedChar vs
    pure (.byteArrayTag vs)
  | _ + 1, .stringTag _ => do
    let v ← StreamRead.reader readString
    pure (.stringTag v)
  | fuel + 1, .listTag _ vs => do
    let list ← ListTag.deserialize (fun v => TagVariant.deserializeFuel fuel v) vs
    pure (.listTag list.1 list.2)
  | fuel + 1, .compoundTag entries => do
    let entries ← CompoundTag.deserializeFuel fuel entries
    pure (.compoundTag entries)
  | _ + 1, .intArrayTag vs => do
    let vs ← ValueArrayTag.deserialize 0 readVarInt vs
    pure (.intArrayTag vs)

/-- The loop, with the entries so far. -/
def CompoundTag.deserializeFuel : ℕ → List (Bytes × TagVariant) → Reader (List (Bytes × TagVariant))
  | 0, _ => fail (.error "")
  | fuel + 1, mValue => do
    let tagType ← StreamRead.reader (readEnum readByte)
    if tagType = TagType.endTag then pure mValue
    else do
      let key ← StreamRead.reader readString
      let value ← TagVariant.deserializeFuel fuel (TagVariant.endTag.emplace tagType)
      CompoundTag.deserializeFuel fuel (emplaceEntry key value mValue)

end

def TagVariant.deserialize (v : TagVariant) :
    Reader TagVariant := fun s => v.deserializeFuel (s.left + 1) s

def CompoundTag.deserialize (mValue : List (Bytes × TagVariant)) :
    Reader (List (Bytes × TagVariant)) :=
  fun s => CompoundTag.deserializeFuel (s.left + 1) mValue s

def CompoundTag.read (mValue : List (Bytes × TagVariant)) : Reader (List (Bytes × TagVariant)) := do
  let rootType ← StreamRead.reader (readEnum readByte)
  if rootType ≠ TagType.compoundTag then fail (.error "CompoundTag::read invalid root tag type")
  else do
    let _ ← StreamRead.reader (ignoreBytes 1)
    CompoundTag.deserialize mValue

end SculkProtocol
