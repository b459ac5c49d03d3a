import SculkProtocol.Encryption.Keystream

/-!
# `ReadOnlyBinaryStream`

A cursor over a byte buffer with a sticky overflow flag. A read returns the stream
it leaves with its result; an error carries the text the source gives it. Sizes are
natural numbers: a buffer is shorter than `2 ^ 64` bytes, so the wrap the source
tests for does not arise with the lengths read here.

`left` measures what is still to be read. Every successful variable-length read
consumes something (`readUnsignedVarInt_left`) and no read gives bytes back
(`readBytes_left`), which is what loops over a stream terminate by.
-/

namespace SculkProtocol

structure ReadOnlyBinaryStream where
  mHasOverflowed : Bool
  mBufferView : Bytes
  mReadPointer : ℕ

namespace ReadOnlyBinaryStream

/-- A stream at the start of a buffer. -/
def ofBuffer (buffer : Bytes) : ReadOnlyBinaryStream := ⟨false, buffer, 0⟩

variable (s : ReadOnlyBinaryStream)

def size : ℕ := s.mBufferView.length

def getPosition : ℕ := s.mReadPointer

def hasDataLeft : Bool := s.mReadPointer < s.mBufferView.length

def getLeftBufferView : Bytes := s.mBufferView.drop s.mReadPointer

/-- The number of bytes still to be read. -/
def left : ℕ := s.mBufferView.length - s.mReadPointer

/-- Set the flag and fail. -/
def overflow {α : Type} (message : String) : ReadOnlyBinaryStream × Except String α :=
  ({ s with mHasOverflowed := true }, .error message)

/-- `read` of a value of one byte. -/
def readByte : ReadOnlyBinaryStream × Except String UInt8 :=
  if s.mHasOverflowed then s.overflow "ReadOnlyBinaryStream::read overflowed"
  else
    match s.mBufferView[s.mReadPointer]? with
    | some b => ({ s with mReadPointer := s.mReadPointer + 1 }, .ok b)
    | none => s.overflow "ReadOnlyBinaryStream::read overflowed"

/-- `readEnum(.., &ReadOnlyBinaryStream::readSignedChar)`: the byte of the enumerator. -/
def readSignedCharEnum : ReadOnlyBinaryStream × Except String UInt8 :=
  match s.readByte with
  | (s, .ok b) => (s, .ok b)
  | (s, .error _) => (s, .error "ReadOnlyBinaryStream::readEnum overflowed")

def readBytes (num : ℕ) : ReadOnlyBinaryStream × Except String Bytes :=
  if s.mHasOverflowed then (s, .error "ReadOnlyBinaryStream::readBytes overflowed")
  else if num = 0 then (s, .ok [])
  else if s.mReadPointer + num > s.mBufferView.length then
    s.overflow "ReadOnlyBinaryStream::readBytes overflowed"
  else
    ({ s with mReadPointer := s.mReadPointer + num },
      .ok ((s.mBufferView.drop s.mReadPointer).take num))

/-- The loop of `readUnsignedVarInt` with `groups` of its five 7-bit groups left and
`value` read so far. -/
def readVarIntGroups (s : ReadOnlyBinaryStream) (value : UInt32) :
    ℕ → ReadOnlyBinaryStream × Except String UInt32
  | 0 => s.overflow "ReadOnlyBinaryStream::readUnsignedVarInt overflowed"
  | groups + 1 =>
    let shift := 7 * (4 - groups)
    match s.mBufferView[s.mReadPointer]? with
    | none => s.overflow "ReadOnlyBinaryStream::readUnsignedVarInt overflowed"
    | some byte =>
      let s := { s with mReadPointer := s.mReadPointer + 1 }
      if shift = 28 ∧ byte &&& 0x80 = 0 ∧ byte &&& 0x70 ≠ 0 then
        s.overflow "ReadOnlyBinaryStream::readUnsignedVarInt overflowed"
      else
        let value := value ||| ((byte &&& 0x7F).toUInt32 <<< UInt32.ofNat shift)
        if byte &&& 0x80 = 0 then (s, .ok value) else readVarIntGroups s value groups

def readUnsignedVarInt : ReadOnlyBinaryStream × Except String UInt32 := s.readVarIntGroups 0 5

/-- The value of four bytes in little-endian order. -/
def ofLittleEndian (bytes : Bytes) : UInt32 :=
  bytes.foldr (fun b value => (value <<< 8) ||| b.toUInt32) 0

/-- `read` of a signed 32-bit value. -/
def readSignedInt : ReadOnlyBinaryStream × Except String Int32 :=
  if s.mHasOverflowed then s.overflow "ReadOnlyBinaryStream::read overflowed"
  else if s.mReadPointer + 4 > s.mBufferView.length then
    s.overflow "ReadOnlyBinaryStream::read overflowed"
  else
    ({ s with mReadPointer := s.mReadPointer + 4 },
      .ok (ofLittleEndian ((s.mBufferView.drop s.mReadPointer).take 4)).toInt32)

def readRawBytes (length : ℕ) : ReadOnlyBinaryStream × Except String Bytes :=
  if length = 0 then (s, .ok [])
  else if s.mReadPointer > s.mBufferView.length then
    s.overflow "ReadOnlyBinaryStream::readRawBytes overflowed"
  else if length > s.mBufferView.length - s.mReadPointer then
    s.overflow "ReadOnlyBinaryStream::readRawBytes overflowed"
  else
    ({ s with mReadPointer := s.mReadPointer + length },
      .ok ((s.mBufferView.drop s.mReadPointer).take length))

def readLongString : ReadOnlyBinaryStream × Except String Bytes :=
  match s.readSignedInt with
  | (s, .error _) => (s, .error "ReadOnlyBinaryStream::readLongString overflowed")
  | (s, .ok length) =>
    if length < 0 then
      (s, .error "ReadOnlyBinaryStream::readLongString failed: negative length")
    else s.readRawBytes length.toInt.toNat

/-! ### What is left -/

variable {s}

theorem readVarIntGroups_left {value : UInt32} {groups : ℕ} {s' : ReadOnlyBinaryStream}
    {v : UInt32} (h : s.readVarIntGroups value groups = (s', .ok v)) : s'.left < s.left := by
  induction groups generalizing s value with
  | zero => exact absurd (congrArg Prod.snd h) (by simp [readVarIntGroups, overflow])
  | succ groups ih =>
    simp only [readVarIntGroups] at h
    split at h
    · exact absurd (congrArg Prod.snd h) (by simp [overflow])
    · next byte hbyte =>
      have hlt := (List.getElem?_eq_some_iff.mp hbyte).1
      have hnext : ({ s with mReadPointer := s.mReadPointer + 1 } : ReadOnlyBinaryStream).left
          < s.left := by
        simp only [left]
        omega
      split at h
      · exact absurd (congrArg Prod.snd h) (by simp [overflow])
      · split at h
        · cases h; exact hnext
        · exact Nat.lt_trans (ih h) hnext

/-- A variable-length integer takes at least a byte. -/
theorem readUnsignedVarInt_left {s' : ReadOnlyBinaryStream} {v : UInt32}
    (h : s.readUnsignedVarInt = (s', .ok v)) : s'.left < s.left := readVarIntGroups_left h

theorem readBytes_left {num : ℕ} {s' : ReadOnlyBinaryStream} {bytes : Bytes}
    (h : s.readBytes num = (s', .ok bytes)) : s'.left ≤ s.left := by
  unfold readBytes at h
  split at h
  · exact absurd (congrArg Prod.snd h) (by simp)
  · split at h
    · cases h; exact Nat.le_refl _
    · split at h
      · exact absurd (congrArg Prod.snd h) (by simp [overflow])
      · cases h
        simp only [left]
        omega

end ReadOnlyBinaryStream
end SculkProtocol
