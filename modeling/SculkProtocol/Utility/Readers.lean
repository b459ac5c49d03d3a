import SculkProtocol.Utility.VarInt

/-!
# Readers

The functions of `ReadOnlyBinaryStream` as decoders. A function that returns a `Result` may
also be left otherwise: a container that cannot be resized throws, and a product of two signed
integers may be none (`Failure`). Allocating memory is assumed to succeed.

Every reader comes with the language it recognises and what it makes of what was written.
Floating-point values are the bits they are stored in.
-/

namespace SculkProtocol

/-- How a read can go wrong. -/
inductive Failure
  /-- an error in a `Result` -/
  | error (message : String)
  /-- `std::length_error`, thrown by a container -/
  | lengthError
  /-- signed overflow, which is undefined -/
  | signedOverflow
  deriving DecidableEq

/-- The function was not left by returning its `Result`. -/
def Failure.Escapes : Failure → Prop
  | .error _ => False
  | .lengthError | .signedOverflow => True

instance : InputStream ReadOnlyBinaryStream UInt8 where
  usable s := s.mHasOverflowed = false ∧ s.mReadPointer ≤ s.mBufferView.length
  remaining := ReadOnlyBinaryStream.getLeftBufferView
  skip := ReadOnlyBinaryStream.advance
  usable_skip {s n} h hn := by
    obtain ⟨hok, hpointer⟩ := h
    rw [ReadOnlyBinaryStream.getLeftBufferView, List.length_drop] at hn
    refine ⟨hok, ?_⟩
    show s.mReadPointer + n ≤ s.mBufferView.length
    omega
  remaining_skip s n := by
    simp only [ReadOnlyBinaryStream.getLeftBufferView, ReadOnlyBinaryStream.advance, List.drop_drop]
  skip_zero _ := rfl
  skip_skip _ _ _ := ReadOnlyBinaryStream.advance_advance ..

/-- A member function of the stream that returns a `Result`. -/
abbrev StreamRead (α : Type) := Decoder ReadOnlyBinaryStream String α

/-- A reader of the stream. -/
abbrev Reader (α : Type) := Decoder ReadOnlyBinaryStream Failure α

/-- A `Result` that is returned. -/
def StreamRead.reader {α : Type} (d : StreamRead α) : Reader α := fun s =>
  match d s with
  | (s, .ok a) => (s, .ok a)
  | (s, .error message) => (s, .error (.error message))

namespace StreamRead

open Decoder

variable {α : Type} {d : StreamRead α} {L : Bytes → α → Prop} {bs : Bytes} {a : α}

/-- A reader of a stream accepts the same texts in a longer program. -/
theorem accepts_reader (h : Accepts d bs a) : Accepts d.reader bs a := by
  intro s rest hs hrest
  simp only [reader, h s rest hs hrest]

/-- It yields the same values there. -/
theorem yields_reader (h : Yields d L) : Yields d.reader L := by
  intro s s' a hs hd
  obtain ⟨t, x, hx⟩ : ∃ t x, d s = (t, x) := ⟨_, _, rfl⟩
  cases x with
  | ok b =>
    simp only [reader, hx] at hd
    cases hd
    exact h s _ _ hs hx
  | error message =>
    simp only [reader, hx] at hd
    exact absurd (congrArg Prod.snd hd) (by simp)

/-- It recognises the same grammar there. -/
theorem recognises_reader (h : Recognises d L) : Recognises d.reader L where
  yields := yields_reader h.yields
  accepts ha := accepts_reader (h.accepts ha)

/-- A reader of a stream throws nothing. -/
theorem safe_reader (d : StreamRead α) : Safe Failure.Escapes d.reader := by
  intro s e h
  obtain ⟨t, x, hx⟩ : ∃ t x, d s = (t, x) := ⟨_, _, rfl⟩
  cases x with
  | ok a => exact absurd h (by simp [reader, hx])
  | error message =>
    have heq : Failure.error message = e := by simpa [reader, hx] using h
    subst heq
    exact fun h => h

end StreamRead

/-! ### Little-endian values -/

/-- The lowest `size` bytes of a value, lowest first. -/
def littleEndian : ℕ → ℕ → Bytes
  | 0, _ => []
  | size + 1, n => UInt8.ofNat (n % 256) :: littleEndian size (n / 256)

def fromLittleEndian : Bytes → ℕ
  | [] => 0
  | b :: bs => b.toNat + 256 * fromLittleEndian bs

/-- A number has as many bytes as its size. -/
@[simp] theorem littleEndian_length (size n : ℕ) : (littleEndian size n).length = size := by
  induction size generalizing n with
  | zero => rfl
  | succ size ih => rw [littleEndian, List.length_cons, ih]

/-- A number comes back from its bytes. -/
theorem fromLittleEndian_littleEndian {size n : ℕ} (h : n < 256 ^ size) :
    fromLittleEndian (littleEndian size n) = n := by
  induction size generalizing n with
  | zero =>
    rw [Nat.pow_zero, Nat.lt_one_iff] at h
    rw [h]
    rfl
  | succ size ih =>
    have hrest : n / 256 < 256 ^ size := by
      rwa [Nat.div_lt_iff_lt_mul (by decide), ← Nat.pow_succ]
    rw [littleEndian, fromLittleEndian, ih hrest, UInt8.toNat_ofNat']
    omega

/-- Bytes come back from their number. -/
theorem littleEndian_fromLittleEndian (bs : Bytes) :
    littleEndian bs.length (fromLittleEndian bs) = bs := by
  induction bs with
  | nil => rfl
  | cons b bs ih =>
    have hlt := b.toNat_lt
    have hlow : (b.toNat + 256 * fromLittleEndian bs) % 256 = b.toNat := by omega
    have hhigh : (b.toNat + 256 * fromLittleEndian bs) / 256 = fromLittleEndian bs := by omega
    rw [fromLittleEndian, List.length_cons, littleEndian, hlow, hhigh, ih, UInt8.ofNat_toNat]

/-- Bytes are below the number that has one more. -/
theorem fromLittleEndian_lt (bs : Bytes) : fromLittleEndian bs < 256 ^ bs.length := by
  induction bs with
  | nil => exact Nat.one_pos
  | cons b bs ih =>
    have hlt := b.toNat_lt
    rw [fromLittleEndian, List.length_cons, Nat.pow_succ]
    omega

/-- A trivially copyable type: its values are the numbers of so many bytes. -/
structure Scalar (α : Type) where
  size : ℕ
  toNat : α → ℕ
  ofNat : ℕ → α
  toNat_lt (v : α) : toNat v < 256 ^ size
  toNat_ofNat (n : ℕ) : n < 256 ^ size → toNat (ofNat n) = n
  ofNat_toNat (v : α) : ofNat (toNat v) = v

namespace Scalar

def int8 : Scalar Int8 where
  size := 1
  toNat v := v.toUInt8.toNat
  ofNat n := (UInt8.ofNat n).toInt8
  toNat_lt v := v.toUInt8.toNat_lt
  toNat_ofNat _ h := UInt8.toNat_ofNat_of_lt' h
  ofNat_toNat v := by rw [UInt8.ofNat_toNat, Int8.toInt8_toUInt8]

def uint16 : Scalar UInt16 where
  size := 2
  toNat := UInt16.toNat
  ofNat := UInt16.ofNat
  toNat_lt v := v.toNat_lt
  toNat_ofNat _ h := UInt16.toNat_ofNat_of_lt' h
  ofNat_toNat _ := UInt16.ofNat_toNat

def int16 : Scalar Int16 where
  size := 2
  toNat v := v.toUInt16.toNat
  ofNat n := (UInt16.ofNat n).toInt16
  toNat_lt v := v.toUInt16.toNat_lt
  toNat_ofNat _ h := UInt16.toNat_ofNat_of_lt' h
  ofNat_toNat v := by rw [UInt16.ofNat_toNat, Int16.toInt16_toUInt16]

/-- A `std::uint32_t`, and a `float` by its bits. -/
def uint32 : Scalar UInt32 where
  size := 4
  toNat := UInt32.toNat
  ofNat := UInt32.ofNat
  toNat_lt v := v.toNat_lt
  toNat_ofNat _ h := UInt32.toNat_ofNat_of_lt' h
  ofNat_toNat _ := UInt32.ofNat_toNat

/-- A `std::uint64_t`, and a `double` by its bits. -/
def uint64 : Scalar UInt64 where
  size := 8
  toNat := UInt64.toNat
  ofNat := UInt64.ofNat
  toNat_lt v := v.toNat_lt
  toNat_ofNat _ h := UInt64.toNat_ofNat_of_lt' h
  ofNat_toNat _ := UInt64.ofNat_toNat

def int64 : Scalar Int64 where
  size := 8
  toNat v := v.toUInt64.toNat
  ofNat n := (UInt64.ofNat n).toInt64
  toNat_lt v := v.toUInt64.toNat_lt
  toNat_ofNat _ h := UInt64.toNat_ofNat_of_lt' h
  ofNat_toNat v := by rw [UInt64.ofNat_toNat, Int64.toInt64_toUInt64]

/-- `BinaryStream::write` -/
def write {α : Type} (kind : Scalar α) (value : α) : Bytes :=
  littleEndian kind.size (kind.toNat value)

/-- `ReadOnlyBinaryStream::read` -/
def read {α : Type} (kind : Scalar α) : StreamRead α := fun s =>
  if s.mHasOverflowed then s.overflow "ReadOnlyBinaryStream::read overflowed"
  else if s.mReadPointer + kind.size > s.mBufferView.length then
    s.overflow "ReadOnlyBinaryStream::read overflowed"
  else
    (s.advance kind.size,
      .ok (kind.ofNat (fromLittleEndian ((s.mBufferView.drop s.mReadPointer).take kind.size))))

end Scalar

namespace BinaryStream

def writeByte (value : UInt8) : Bytes := [value]

def writeBool (value : Bool) : Bytes := [if value then 1 else 0]

def writeSignedChar (value : Int8) : Bytes := Scalar.int8.write value

def writeUnsignedShort (value : UInt16) : Bytes := Scalar.uint16.write value

def writeSignedShort (value : Int16) : Bytes := Scalar.int16.write value

def writeUnsignedInt (value : UInt32) : Bytes := Scalar.uint32.write value

def writeUnsignedInt64 (value : UInt64) : Bytes := Scalar.uint64.write value

def writeSignedInt64 (value : Int64) : Bytes := Scalar.int64.write value

def writeFloat (bits : UInt32) : Bytes := Scalar.uint32.write bits

def writeDouble (bits : UInt64) : Bytes := Scalar.uint64.write bits

/-- The size is cast to an unsigned 32-bit value. -/
def writeString (value : Bytes) : Bytes := writeUnsignedVarInt (UInt32.ofNat value.length) ++ value

end BinaryStream

namespace ReadOnlyBinaryStream

open Decoder BinaryStream

/-- A byte that is not 0 is taken for true. -/
def readBool : StreamRead Bool := do
  let b ← readByte
  pure (b ≠ 0)

def readSignedChar : StreamRead Int8 := Scalar.int8.read

def readUnsignedShort : StreamRead UInt16 := Scalar.uint16.read

def readSignedShort : StreamRead Int16 := Scalar.int16.read

def readUnsignedInt : StreamRead UInt32 := Scalar.uint32.read

def readUnsignedInt64 : StreamRead UInt64 := Scalar.uint64.read

def readSignedInt64 : StreamRead Int64 := Scalar.int64.read

def readFloat : StreamRead UInt32 := Scalar.uint32.read

def readDouble : StreamRead UInt64 := Scalar.uint64.read

def readString : StreamRead Bytes := do
  let length ← mapError (fun _ => "ReadOnlyBinaryStream::readString failed") readUnsignedVarInt
  fun s => s.readRawBytes length.toNat

/-- The value of the enumerator is not checked. -/
def readEnum {α : Type} (func : StreamRead α) : StreamRead α :=
  mapError (fun _ => "ReadOnlyBinaryStream::readEnum overflowed") func

def ignoreBytes (length : ℕ) : StreamRead Unit := fun s =>
  if s.mReadPointer + length > s.mBufferView.length then
    s.overflow "ReadOnlyBinaryStream::ignoreBytes overflowed"
  else (s.advance length, .ok ())

/-! ### What they recognise -/

/-- A text of the zig-zag form of a value. -/
def IsSignedVarInt (bs : Bytes) (v : Int32) : Prop := ∃ t : UInt32, IsVarInt 16 5 bs t.toNat ∧
    v = unzigzag t

def IsSignedVarInt64 (bs : Bytes) (v : Int64) : Prop := ∃ t : UInt64, IsVarInt 2 10 bs t.toNat ∧
    v = unzigzag64 t

/-- A string after its length. -/
def IsString (bs : Bytes) (v : Bytes) : Prop :=
  ∃ (before : Bytes) (length : UInt32), bs = before ++ v ∧ IsVarInt 16 5 before length.toNat ∧
  v.length = length.toNat

/-- An overflow is no success. -/
theorem overflow_eq_ok {α : Type} {s s' : ReadOnlyBinaryStream} {message : String} {a : α} :
    s.overflow message ≠ (s', .ok a) := by
  intro h
  exact absurd (congrArg Prod.snd h) (by simp [overflow])

/-- What follows the texts that are read has its place in the buffer. -/
theorem view_bound {s : ReadOnlyBinaryStream} {bs rest : Bytes} (hs : InputStream.usable s)
    (h : s.getLeftBufferView = bs ++ rest) : s.mReadPointer + bs.length ≤ s.mBufferView.length := by
  have hpointer : s.mReadPointer ≤ s.mBufferView.length := hs.2
  have hlength := congrArg List.length h
  rw [getLeftBufferView, List.length_drop, List.length_append] at hlength
  omega

/-- The next bytes, if there are so many. -/
theorem view_split {s : ReadOnlyBinaryStream} {n : ℕ}
    (h : s.mReadPointer + n ≤ s.mBufferView.length) :
    s.getLeftBufferView = (s.mBufferView.drop s.mReadPointer).take n ++
      s.mBufferView.drop (s.mReadPointer + n) ∧
      ((s.mBufferView.drop s.mReadPointer).take n).length = n := by
  constructor
  · rw [← List.drop_drop, List.take_append_drop]
    rfl
  · rw [List.length_take, List.length_drop]
    omega

/-- A decoder of so many bytes, which it makes something of. -/
theorem recognises_fixed {α : Type} {d : StreamRead α} (size : ℕ) (value : Bytes → α)
    (message : String)
    (hd : ∀ s : ReadOnlyBinaryStream, InputStream.usable s → d s =
      if s.mReadPointer + size > s.mBufferView.length then s.overflow message
      else (s.advance size, .ok (value ((s.mBufferView.drop s.mReadPointer).take size)))) :
    Recognises d fun bs v => bs.length = size ∧ v = value bs := by
  refine recognises_of_iff fun s hs s' v => ?_
  rw [hd s hs]
  split
  · next hend =>
    -- there are fewer bytes left
    constructor
    · exact fun h => absurd h overflow_eq_ok
    · rintro ⟨bs, rest, hview, -, rfl, -⟩
      exact absurd (view_bound hs hview) (Nat.not_le_of_gt hend)
  · next hend =>
    obtain ⟨hview, hlength⟩ := view_split (Nat.le_of_not_lt hend)
    constructor
    · intro h
      cases h
      exact ⟨_, _, hview, by rw [hlength]; rfl, hlength, rfl⟩
    · rintro ⟨bs, rest, hview', rfl, rfl, rfl⟩
      have hbs := (List.append_inj (hview.symm.trans hview') hlength).1
      rw [hbs]
      rfl

/-- The text of a number is its bytes. -/
theorem recognises_scalar {α : Type} (kind : Scalar α) :
    Recognises kind.read fun bs v => bs = kind.write v := by
  refine (recognises_fixed kind.size (fun bs => kind.ofNat (fromLittleEndian bs))
    "ReadOnlyBinaryStream::read overflowed" fun s hs => ?_).congr fun bs v => ?_
  · rw [Scalar.read, hs.1, if_neg Bool.false_ne_true]
  · constructor
    · rintro ⟨hlength, rfl⟩
      have hlt := fromLittleEndian_lt bs
      rw [hlength] at hlt
      rw [Scalar.write, kind.toNat_ofNat _ hlt, ← hlength, littleEndian_fromLittleEndian]
    · rintro rfl
      refine ⟨littleEndian_length .., ?_⟩
      rw [Scalar.write, fromLittleEndian_littleEndian (kind.toNat_lt v), kind.ofNat_toNat]

/-- The text of a byte is the byte. -/
theorem recognises_readByte : Recognises readByte fun bs v => bs = writeByte v := by
  refine recognises_of_iff fun s hs s' v => ?_
  rw [readByte, hs.1, if_neg Bool.false_ne_true]
  cases hview : s.getLeftBufferView with
  | nil =>
    simp only [getElem?_of_view_nil hview]
    constructor
    · exact fun h => absurd h overflow_eq_ok
    · rintro ⟨bs, rest, hrest, -, rfl⟩
      rw [show InputStream.remaining s = [] from hview] at hrest
      exact absurd hrest (by simp [writeByte])
  | cons b rest =>
    simp only [getElem?_of_view hview]
    constructor
    · intro h
      cases h
      exact ⟨[v], rest, hview, by rw [← hs.1]; rfl, rfl⟩
    · -- the text is one byte, which is the next one
      rintro ⟨bs, rest', hrest, rfl, rfl⟩
      rw [show InputStream.remaining s = b :: rest from hview] at hrest
      cases hrest
      rw [← hs.1]
      rfl

/-- A `bool` is read of any byte. -/
theorem recognises_readBool :
    Recognises readBool fun bs v => ∃ b : UInt8, bs = [b] ∧ v = decide (b ≠ 0) :=
  recognises_readByte.bind_pure

/-- The texts of a varint. -/
theorem recognises_readUnsignedVarInt :
    Recognises readUnsignedVarInt fun bs (v : UInt32) => IsVarInt 16 5 bs v.toNat :=
  recognises_of_iff fun _ _ _ _ => readUnsignedVarInt_iff

/-- The texts of a varint of 64 bits. -/
theorem recognises_readUnsignedVarInt64 :
    Recognises readUnsignedVarInt64 fun bs (v : UInt64) => IsVarInt 2 10 bs v.toNat :=
  recognises_of_iff fun _ _ _ _ => readUnsignedVarInt64_iff

/-- A value that is read and then renamed, with an error of its own. -/
theorem recognises_renamed {α β : Type} {d : StreamRead α} {d' : StreamRead β}
    {L : Bytes → α → Prop} (g : α → β)
    (message : String) (hd : Recognises d L)
    (heq : ∀ s, d' s = match d s with
      | (s, .error _) => (s, .error message)
      | (s, .ok a) => (s, .ok (g a))) :
    Recognises d' fun bs b => ∃ a, L bs a ∧ b = g a := by
  have hall : d' = mapError (fun _ => message) (d >>= fun a => pure (g a)) := by
    funext s
    rw [heq, mapError]
    obtain ⟨t, x, h⟩ : ∃ t x, d s = (t, x) := ⟨_, _, rfl⟩
    cases x with
    | ok a => rw [bind_of_ok h, h]; rfl
    | error e => rw [bind_of_error h, h]
  rw [hall]
  exact hd.bind_pure.mapError

/-- The texts of a signed varint. -/
theorem recognises_readVarInt : Recognises readVarInt IsSignedVarInt := by
  refine recognises_renamed unzigzag "ReadOnlyBinaryStream::readVarInt failed"
    recognises_readUnsignedVarInt ?_
  intro s
  rcases h : s.readUnsignedVarInt with ⟨t, _ | temp⟩ <;> simp only [readVarInt, h]

/-- The texts of a signed varint of 64 bits. -/
theorem recognises_readVarInt64 : Recognises readVarInt64 IsSignedVarInt64 := by
  refine recognises_renamed unzigzag64 "ReadOnlyBinaryStream::readVarInt64 failed"
    recognises_readUnsignedVarInt64 ?_
  intro s
  rcases h : s.readUnsignedVarInt64 with ⟨t, _ | temp⟩ <;> simp only [readVarInt64, h]

/-- Raw bytes are any bytes of their number. -/
theorem recognises_readRawBytes (n : ℕ) :
    Recognises (fun s : ReadOnlyBinaryStream => s.readRawBytes n) fun (bs v : Bytes) => bs.length =
      n ∧ v = bs := by
  refine recognises_fixed n (fun bs => bs) "ReadOnlyBinaryStream::readRawBytes overflowed"
    fun s hs => ?_
  have hpointer : s.mReadPointer ≤ s.mBufferView.length := hs.2
  rw [readRawBytes]
  by_cases hzero : n = 0
  · subst hzero
    rw [if_pos rfl, if_neg (by omega), List.take_zero]
    rfl
  · rw [if_neg hzero, if_neg (by omega)]
    by_cases hend : n > s.mBufferView.length - s.mReadPointer
    · rw [if_pos hend, if_pos (by omega)]
    · rw [if_neg hend, if_neg (by omega)]
      rfl

/-- The texts of a string. -/
theorem recognises_readString : Recognises readString IsString := by
  refine (recognises_readUnsignedVarInt.mapError.bind fun _ length _ =>
    recognises_readRawBytes length.toNat).congr fun bs v => ?_
  constructor
  · rintro ⟨before, _, length, rfl, hlength, hv, rfl⟩
    exact ⟨before, length, rfl, hlength, hv⟩
  · rintro ⟨before, length, rfl, hlength, hv⟩
    exact ⟨before, v, length, rfl, hlength, hv, rfl⟩

/-- An enumeration has the texts of its number. -/
theorem recognises_readEnum {α : Type} {func : StreamRead α} {L : Bytes → α → Prop}
    (h : Recognises func L) :
    Recognises (readEnum func) L := h.mapError

/-- Any bytes are ignored. -/
theorem recognises_ignoreBytes (length : ℕ) :
    Recognises (ignoreBytes length) fun (bs : Bytes) (_ : Unit) => bs.length = length := by
  refine (recognises_fixed length (fun _ => ()) "ReadOnlyBinaryStream::ignoreBytes overflowed"
    fun s _ => rfl).congr fun bs v => ?_
  exact and_iff_left rfl

/-! ### What was written -/

/-- What is written is a text of the number. -/
theorem isSignedVarInt_write (v : Int32) : IsSignedVarInt (writeVarInt v) v := by
  rw [writeVarInt_eq]
  refine ⟨_, isVarInt_writeUnsignedVarInt _, ?_⟩
  rw [← Int32.toBitVec_inj, unzigzag_eq, unzigzagBits_zigzagBits]

/-- So it is for 64 bits. -/
theorem isSignedVarInt64_write (v : Int64) : IsSignedVarInt64 (writeVarInt64 v) v := by
  rw [writeVarInt64_eq]
  refine ⟨_, isVarInt_writeUnsignedVarInt64 _, ?_⟩
  rw [← Int64.toBitVec_inj, unzigzag64_eq, unzigzagBits_zigzagBits]

/-- What is written is a text of the string. -/
theorem isString_write {v : Bytes} (h : v.length < 2 ^ 32) : IsString (writeString v) v :=
  ⟨_, _, rfl, isVarInt_writeUnsignedVarInt _, (UInt32.toNat_ofNat_of_lt' h).symm⟩

/-- A `bool` is written as a byte that is read as it. -/
theorem readBool_write (v : Bool) : ∃ b : UInt8, writeBool v = [b] ∧ v = decide (b ≠ 0) := by
  cases v
  · exact ⟨0, rfl, rfl⟩
  · exact ⟨1, rfl, rfl⟩

end ReadOnlyBinaryStream
end SculkProtocol
