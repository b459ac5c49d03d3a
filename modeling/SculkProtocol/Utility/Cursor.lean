import SculkProtocol.Utility.Bitset
import SculkProtocol.Utility.PrefixFunction

/-!
# `ReadOnlyBinaryStream` with `std::size_t`

The same class once more, with positions and sizes of 64 bits that wrap around. A `Cursor` also
records what is done to the buffer: the places that are read of it, and the positions that are set
or that a view is taken from. Nothing else reads the buffer.

Every public member function is here, each as the source has it: those that test for a wrap, those
that subtract, those that look at the flag and those that do not.
-/

namespace SculkProtocol

open Decoder

/-- `std::span<const std::byte>`: its size is a `std::size_t`. -/
structure Span where
  bytes : Bytes
  length_lt : bytes.length < 2 ^ 64

namespace Span

def size (view : Span) : UInt64 := UInt64.ofNat view.bytes.length

theorem toNat_size (view : Span) : view.size.toNat = view.bytes.length :=
  UInt64.toNat_ofNat_of_lt' view.length_lt

end Span

namespace Scalar

def uint8 : Scalar UInt8 where
  size := 1
  toNat := UInt8.toNat
  ofNat := UInt8.ofNat
  toNat_lt v := v.toNat_lt
  toNat_ofNat _ h := UInt8.toNat_ofNat_of_lt' h
  ofNat_toNat _ := UInt8.ofNat_toNat

def int32 : Scalar Int32 where
  size := 4
  toNat v := v.toUInt32.toNat
  ofNat n := (UInt32.ofNat n).toInt32
  toNat_lt v := v.toUInt32.toNat_lt
  toNat_ofNat _ h := UInt32.toNat_ofNat_of_lt' h
  ofNat_toNat v := by rw [UInt32.ofNat_toNat, Int32.toInt32_toUInt32]

end Scalar

structure Cursor where
  mHasOverflowed : Bool
  mBufferView : Span
  mReadPointer : UInt64
  /-- the places of the buffer that were read -/
  accessed : List ℕ
  /-- the positions that were set, and those that a view was taken from -/
  positions : List UInt64

/-- A member function of the stream. -/
abbrev CursorRead (α : Type) := Decoder Cursor Failure α

namespace Cursor

/-- The constructor. -/
def ofBuffer (buffer : Span) : Cursor := ⟨false, buffer, 0, [], []⟩

/-- An assignment to `mReadPointer`. -/
def moveTo (m : Cursor) (pointer : UInt64) : Cursor :=
  { m with mReadPointer := pointer, positions := m.positions ++ [pointer] }

/-- So many bytes are read, from the position on. -/
def access (m : Cursor) (num : ℕ) : Cursor :=
  { m with accessed := m.accessed ++ List.range' m.mReadPointer.toNat num }

/-- The bytes that are read. -/
def bytesAt (m : Cursor) (num : ℕ) : Bytes :=
  (List.range' m.mReadPointer.toNat num).map fun i => m.mBufferView.bytes.getD i 0

/-- `newPointer < mReadPointer || newPointer > mBufferView.size()` -/
def Beyond (m : Cursor) (num : UInt64) : Prop :=
  m.mReadPointer + num < m.mReadPointer ∨ m.mReadPointer + num > m.mBufferView.size

instance (m : Cursor) (num : UInt64) : Decidable (m.Beyond num) :=
  inferInstanceAs (Decidable (_ ∨ _))

def error {α : Type} (message : String) : CursorRead α := fail (.error message)

/-- Set the flag and fail. -/
def overflow {α : Type} (message : String) : CursorRead α := fun m =>
  ({ m with mHasOverflowed := true }, .error (.error message))

/-- An error is returned with a text of its own; an exception passes. -/
def withMessage {α : Type} (message : String) : CursorRead α → CursorRead α :=
  mapError fun
    | .error _ => .error message
    | e => e

/-! ### Positions and views -/

def size : CursorRead UInt64 := fun m => (m, .ok m.mBufferView.size)

def getPosition : CursorRead UInt64 := fun m => (m, .ok m.mReadPointer)

def isOverflowed : CursorRead Bool := fun m => (m, .ok m.mHasOverflowed)

def hasDataLeft : CursorRead Bool := fun m => (m, .ok (m.mReadPointer < m.mBufferView.size))

def view : CursorRead Span := fun m => (m, .ok m.mBufferView)

/-- `subspan` is undefined beyond the end, so the position is recorded. -/
def getLeftBufferView : CursorRead Bytes := fun m =>
  (m.moveTo m.mReadPointer, .ok (m.mBufferView.bytes.drop m.mReadPointer.toNat))

/-- A position beyond the end is cut, and sets the flag. -/
def setPosition (value : UInt64) : CursorRead Unit := fun m =>
  if value > m.mBufferView.size then
    ({ m.moveTo m.mBufferView.size with mHasOverflowed := true }, .ok ())
  else (m.moveTo value, .ok ())

def resetPosition : CursorRead Unit := setPosition 0

/-- The flag does not matter. -/
def ignoreBytes (length : UInt64) : CursorRead Unit := fun m =>
  if m.Beyond length then overflow "ReadOnlyBinaryStream::ignoreBytes overflowed" m
  else (m.moveTo (m.mReadPointer + length), .ok ())

/-! ### Values of a fixed size -/

def read {α : Type} (kind : Scalar α) : CursorRead α := fun m =>
  if m.mHasOverflowed then error "ReadOnlyBinaryStream::read overflowed" m
  else if m.Beyond (UInt64.ofNat kind.size) then overflow "ReadOnlyBinaryStream::read overflowed" m
  else
    ((m.access kind.size).moveTo (m.mReadPointer + UInt64.ofNat kind.size),
      .ok (kind.ofNat (fromLittleEndian (m.bytesAt kind.size))))

def readBytes (num : UInt64) : CursorRead Bytes := fun m =>
  if m.mHasOverflowed then error "ReadOnlyBinaryStream::readBytes overflowed" m
  else if num = 0 then (m, .ok [])
  else if m.Beyond num then overflow "ReadOnlyBinaryStream::readBytes overflowed" m
  else ((m.access num.toNat).moveTo (m.mReadPointer + num), .ok (m.bytesAt num.toNat))

def readByte : CursorRead UInt8 := read Scalar.uint8

def readBool : CursorRead Bool := do
  let b ← readByte
  pure (b ≠ 0)

def readSignedChar : CursorRead Int8 := read Scalar.int8

def readUnsignedShort : CursorRead UInt16 := read Scalar.uint16

def readSignedShort : CursorRead Int16 := read Scalar.int16

def readUnsignedInt : CursorRead UInt32 := read Scalar.uint32

def readSignedInt : CursorRead Int32 := read Scalar.int32

def readUnsignedInt64 : CursorRead UInt64 := read Scalar.uint64

def readSignedInt64 : CursorRead Int64 := read Scalar.int64

def readFloat : CursorRead UInt32 := read Scalar.uint32

def readDouble : CursorRead UInt64 := read Scalar.uint64

def readSignedBigEndianInt : CursorRead Int32 := do
  let value ← withMessage "ReadOnlyBinaryStream::readSignedBigEndianInt failed" readSignedInt
  pure (byteswap value)

/-! ### Variable-length integers -/

/-- `mBufferView[mReadPointer++]` -/
def nextByte (m : Cursor) : Cursor × UInt8 :=
  ((m.access 1).moveTo (m.mReadPointer + 1), m.mBufferView.bytes.getD m.mReadPointer.toNat 0)

/-- The loop, with so many groups left. -/
def readVarIntGroups {V : Type} (kind : ReadOnlyBinaryStream.VarIntKind V) (value : V) :
    ℕ → CursorRead V
  | 0 => overflow kind.message
  | groups + 1 => fun m =>
    let shift := 7 * (kind.groups - 1 - groups)
    if m.mReadPointer ≥ m.mBufferView.size then overflow kind.message m
    else
      let byte := m.nextByte.2
      if shift = 7 * (kind.groups - 1) ∧ byte &&& 0x80 = 0 ∧ byte &&& kind.mask ≠ 0 then
        overflow kind.message m.nextByte.1
      else
        let value := kind.add value byte shift
        if byte &&& 0x80 = 0 then (m.nextByte.1, .ok value)
        else readVarIntGroups kind value groups m.nextByte.1

def readUnsignedVarInt : CursorRead UInt32 := readVarIntGroups ReadOnlyBinaryStream.varInt32 0 5

def readUnsignedVarInt64 : CursorRead UInt64 := readVarIntGroups ReadOnlyBinaryStream.varInt64 0 10

def readVarInt : CursorRead Int32 := do
  let temp ← withMessage "ReadOnlyBinaryStream::readVarInt failed" readUnsignedVarInt
  pure (ReadOnlyBinaryStream.unzigzag temp)

def readVarInt64 : CursorRead Int64 := do
  let temp ← withMessage "ReadOnlyBinaryStream::readVarInt64 failed" readUnsignedVarInt64
  pure (ReadOnlyBinaryStream.unzigzag64 temp)

/-! ### Strings -/

/-- The flag does not matter, and what is left is found by a subtraction. -/
def readRawBytes (length : UInt64) : CursorRead Bytes := fun m =>
  if length = 0 then (m, .ok [])
  else if m.mReadPointer > m.mBufferView.size then
    overflow "ReadOnlyBinaryStream::readRawBytes overflowed" m
  else
    let remaining := m.mBufferView.size - m.mReadPointer
    if length > remaining then overflow "ReadOnlyBinaryStream::readRawBytes overflowed" m
    else ((m.access length.toNat).moveTo (m.mReadPointer + length), .ok (m.bytesAt length.toNat))

def readString : CursorRead Bytes := do
  let length ← withMessage "ReadOnlyBinaryStream::readString failed" readUnsignedVarInt
  readRawBytes length.toUInt64

def readLongString : CursorRead Bytes := do
  let length ← withMessage "ReadOnlyBinaryStream::readLongString overflowed" readSignedInt
  if length < 0 then error "ReadOnlyBinaryStream::readLongString failed: negative length"
  else readRawBytes (UInt64.ofNat length.toInt.toNat)

end Cursor

/-- The function of the stream. -/
def PrefixFunction.read : (f : PrefixFunction) → CursorRead (BitVec f.toPrefix.width)
  | readBool => Decoder.cast BitVec.ofBool Cursor.readBool
  | readByte => Decoder.cast UInt8.toBitVec Cursor.readByte
  | readSignedChar => Decoder.cast Int8.toBitVec Cursor.readSignedChar
  | readUnsignedShort => Decoder.cast UInt16.toBitVec Cursor.readUnsignedShort
  | readSignedShort => Decoder.cast Int16.toBitVec Cursor.readSignedShort
  | readUnsignedInt => Decoder.cast UInt32.toBitVec Cursor.readUnsignedInt
  | readSignedInt => Decoder.cast Int32.toBitVec Cursor.readSignedInt
  | readSignedBigEndianInt => Decoder.cast Int32.toBitVec Cursor.readSignedBigEndianInt
  | readUnsignedInt64 => Decoder.cast UInt64.toBitVec Cursor.readUnsignedInt64
  | readSignedInt64 => Decoder.cast Int64.toBitVec Cursor.readSignedInt64
  | readUnsignedVarInt => Decoder.cast UInt32.toBitVec Cursor.readUnsignedVarInt
  | readUnsignedVarInt64 => Decoder.cast UInt64.toBitVec Cursor.readUnsignedVarInt64
  | readVarInt => Decoder.cast Int32.toBitVec Cursor.readVarInt
  | readVarInt64 => Decoder.cast Int64.toBitVec Cursor.readVarInt64

namespace Cursor

/-! ### Combinators -/

section

variable {α : Type}

/-- `func` reads into an element. -/
def readArray (before : PrefixFunction) (value : α) (func : α → CursorRead α) (outVector : List α) :
    CursorRead (List α) := do
  let length ← withMessage "ReadOnlyBinaryStream::readArray overflowed" before.read
  let count := before.toPrefix.toSize length
  if count > maxSize then fail .lengthError
  else each func (outVector.take count ++ List.replicate (count - outVector.length) value)

section

variable {κ : Type} [LT κ] [DecidableLT κ] [Trans (α := κ) (· < ·) (· < ·) (· < ·)]

/-- The loop of `readMap`, with so many rounds left. -/
def readMapEntries (key : κ) (value : α) (func : κ → α → CursorRead (κ × α)) :
    ℕ → OrderedMap κ α → CursorRead (OrderedMap κ α)
  | 0, outMap => pure outMap
  | rounds + 1, outMap => do
    let e ← func key value
    readMapEntries key value func rounds (outMap.emplace e.1 e.2)

def readMap (before : PrefixFunction) (key : κ) (value : α) (func : κ → α → CursorRead (κ × α)) :
    CursorRead (OrderedMap κ α) := do
  let length ← withMessage "ReadOnlyBinaryStream::readMap overflowed" before.read
  readMapEntries key value func (before.toPrefix.value length).toNat OrderedMap.empty

end

def readOptional (value : α) (func : α → CursorRead α) : CursorRead (Option α) := do
  let hasValue ← withMessage "ReadOnlyBinaryStream::readOptional overflowed" readBool
  if hasValue then do
    let a ← func value
    pure (some a)
  else pure none

/-- The value of the enumerator is not checked. -/
def readEnum (func : CursorRead α) : CursorRead α :=
  withMessage "ReadOnlyBinaryStream::readEnum overflowed" func

/-- `visitor` reads into the alternative, which is new. -/
def readVariant {n : ℕ} [NeZero n] {T : Fin n → Type} (kind : VariantKind n)
    (before : PrefixFunction)
    (value : ∀ i, T i) (visitor : ∀ i, T i → CursorRead (T i)) : CursorRead (Variant T) := do
  let index ← withMessage "ReadOnlyBinaryStream::readVariant overflowed" before.read
  match emplaceVariant value (kind.position index) with
  | .error _ => error "ReadOnlyBinaryStream::readVariant invalid variant index"
  | .ok var => do
    let a ← visitor var.1 var.2
    pure ⟨var.1, a⟩

end

/-! ### Bitsets -/

/-- A byte of a bitset. A failure sets the flag, whatever it was. -/
def readChunk : CursorRead UInt8 := fun m =>
  match readByte m with
  | (m, .ok byte) => (m, .ok byte)
  | (m, .error _) => overflow "ReadOnlyBinaryStream::readBitset overflowed" m

/-- The loop of `readBitset`. -/
def readChunks {N : ℕ} (bitIndex chunkCount : ℕ) (seenSetBit : Bool) (outBitset : Bitset N) :
    CursorRead (Bitset N) :=
  if bitIndex < N then do
    let byte ← readChunk
    if bitIndex + ReadOnlyBinaryStream.bitLength8 byte > N then
      overflow "ReadOnlyBinaryStream::readBitset overflowed"
    else
      let chunkCount := chunkCount + 1
      let payload := byte &&& 0x7F
      let seenSetBit := seenSetBit || payload ≠ 0
      let outBitset := ReadOnlyBinaryStream.setChunk outBitset bitIndex byte
      if byte &&& 0x80 = 0 then
        if !seenSetBit && chunkCount ≠ 1 then overflow "ReadOnlyBinaryStream::readBitset overflowed"
        else if seenSetBit && payload = 0 then
          overflow "ReadOnlyBinaryStream::readBitset overflowed"
        else pure outBitset
      else readChunks (bitIndex + 7) chunkCount seenSetBit outBitset
  else overflow "ReadOnlyBinaryStream::readBitset overflowed"
termination_by N - bitIndex

def readBitset (N : ℕ) : CursorRead (Bitset N) := readChunks 0 0 false fun _ => false

end Cursor
end SculkProtocol
