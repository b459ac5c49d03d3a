import SculkProtocol.Decoding.OrderedMap
import SculkProtocol.Utility.Readers

/-!
# The combinators of the streams

`writeArray`, `writeMap`, `writeOptional`, `writeVariant` and what reads them, over any codec of
the elements. A count and an index are cast to the type of the prefix; a reader writes into an
element that is there: the one that a container had, or one with the default value.
-/

namespace SculkProtocol

/-- An integer type, of at most 64 bits. -/
structure Integral where
  width : ℕ
  signed : Bool
  width_pos : 0 < width
  width_le : width ≤ 64

namespace Integral

variable (t : Integral)

def value (v : BitVec t.width) : ℤ := if t.signed then v.toInt else v.toNat

/-- `static_cast` to the type -/
def cast (n : ℤ) : BitVec t.width := BitVec.ofInt t.width n

/-- `static_cast<std::size_t>` -/
def toSize (v : BitVec t.width) : ℕ := (BitVec.ofInt 64 (t.value v)).toNat

/-- The type has the value. -/
def Fits (n : ℕ) : Prop := n < 2 ^ (if t.signed then t.width - 1 else t.width)

variable {t} {n : ℕ}

/-- A length that fits has a size. -/
theorem Fits.lt_size (h : t.Fits n) : n < 2 ^ 64 := by
  have hwidth := t.width_le
  unfold Fits at h
  split at h
  · exact Nat.lt_of_lt_of_le h (Nat.pow_le_pow_right (by decide) (by omega))
  · exact Nat.lt_of_lt_of_le h (Nat.pow_le_pow_right (by decide) hwidth)

/-- Its value is the length. -/
theorem Fits.value_cast (h : t.Fits n) : t.value (t.cast n) = n := by
  have hpos := t.width_pos
  unfold Fits at h
  unfold value cast
  split at h
  · next hsigned =>
    rw [if_pos hsigned, BitVec.ofInt_natCast, BitVec.toInt_eq_toNat_of_lt, BitVec.toNat_ofNat,
      Nat.mod_eq_of_lt]
    · exact Nat.lt_of_lt_of_le h (Nat.pow_le_pow_right (by decide) (by omega))
    · rw [BitVec.toNat_ofNat]
      refine Nat.lt_of_le_of_lt (Nat.mul_le_mul_left 2 (Nat.mod_le ..)) ?_
      have hpow : 2 ^ t.width = 2 * 2 ^ (t.width - 1) := by
        rw [← Nat.pow_succ', Nat.succ_eq_add_one, Nat.sub_add_cancel hpos]
      omega
  · next hsigned =>
    rw [if_neg hsigned, BitVec.ofInt_natCast, BitVec.toNat_ofNat, Nat.mod_eq_of_lt h]

/-- It comes back as a size. -/
theorem Fits.toSize_cast (h : t.Fits n) : t.toSize (t.cast n) = n := by
  rw [toSize, h.value_cast, BitVec.ofInt_natCast, BitVec.toNat_ofNat, Nat.mod_eq_of_lt h.lt_size]

end Integral

/-! ### Prefixes -/

open Decoder BinaryStream ReadOnlyBinaryStream StreamRead

/-- A pair of functions of the streams that write and read an integer. -/
structure Prefix extends Integral where
  write : BitVec width → Bytes
  read : StreamRead (BitVec width)
  read_write (v : BitVec width) : Accepts read (write v) v

namespace Prefix

/-- The functions of an integer type, whose values are bits. -/
def ofCodec {α : Type} (t : Integral) (bits : α → BitVec t.width) (value : BitVec t.width → α)
    (hbits : ∀ v, bits (value v) = v) (write : α → Bytes) (read : StreamRead α)
    (h : ∀ a, Accepts read (write a) a) : Prefix where
  toIntegral := t
  write v := write (value v)
  read := do
    let a ← read
    pure (bits a)
  read_write v := by
    have hread := (h (value v)).bind_pure (g := bits)
    rwa [hbits] at hread

/-- A prefix of a scalar type. -/
def ofScalar {α : Type} (kind : Scalar α) (t : Integral) (bits : α → BitVec t.width)
    (value : BitVec t.width → α) (hbits : ∀ v, bits (value v) = v) : Prefix :=
  ofCodec t bits value hbits kind.write kind.read fun _ => (recognises_scalar kind).accepts rfl

def byte : Prefix :=
  ofCodec ⟨8, false, by decide, by decide⟩ UInt8.toBitVec UInt8.ofBitVec
    (fun _ => rfl) writeByte readByte
    fun _ => recognises_readByte.accepts rfl

def signedChar : Prefix :=
  ofScalar Scalar.int8 ⟨8, true, by decide, by decide⟩ Int8.toBitVec Int8.ofBitVec fun _ => rfl

def unsignedShort : Prefix :=
  ofScalar Scalar.uint16 ⟨16, false, by decide, by decide⟩ UInt16.toBitVec UInt16.ofBitVec
    fun _ => rfl

def signedShort : Prefix :=
  ofScalar Scalar.int16 ⟨16, true, by decide, by decide⟩ Int16.toBitVec Int16.ofBitVec fun _ => rfl

def unsignedInt : Prefix :=
  ofScalar Scalar.uint32 ⟨32, false, by decide, by decide⟩ UInt32.toBitVec UInt32.ofBitVec
    fun _ => rfl

def signedInt : Prefix :=
  ofCodec ⟨32, true, by decide, by decide⟩ Int32.toBitVec Int32.ofBitVec (fun _ => rfl)
    (fun v => writeSignedInt v.toUInt32) readSignedInt fun v s rest hs h =>
      readSignedInt_write hs.1 h

def unsignedInt64 : Prefix :=
  ofScalar Scalar.uint64 ⟨64, false, by decide, by decide⟩ UInt64.toBitVec UInt64.ofBitVec
    fun _ => rfl

def signedInt64 : Prefix :=
  ofScalar Scalar.int64 ⟨64, true, by decide, by decide⟩ Int64.toBitVec Int64.ofBitVec fun _ => rfl

def unsignedVarInt : Prefix :=
  ofCodec ⟨32, false, by decide, by decide⟩ UInt32.toBitVec UInt32.ofBitVec (fun _ => rfl)
    writeUnsignedVarInt readUnsignedVarInt
    fun v => recognises_readUnsignedVarInt.accepts (isVarInt_writeUnsignedVarInt v)

def unsignedVarInt64 : Prefix :=
  ofCodec ⟨64, false, by decide, by decide⟩ UInt64.toBitVec UInt64.ofBitVec (fun _ => rfl)
    writeUnsignedVarInt64 readUnsignedVarInt64
    fun v => recognises_readUnsignedVarInt64.accepts (isVarInt_writeUnsignedVarInt64 v)

def varInt : Prefix :=
  ofCodec ⟨32, true, by decide, by decide⟩ Int32.toBitVec Int32.ofBitVec (fun _ => rfl)
    writeVarInt readVarInt fun v => recognises_readVarInt.accepts (isSignedVarInt_write v)

def varInt64 : Prefix :=
  ofCodec ⟨64, true, by decide, by decide⟩ Int64.toBitVec Int64.ofBitVec (fun _ => rfl)
    writeVarInt64 readVarInt64 fun v => recognises_readVarInt64.accepts (isSignedVarInt64_write v)

end Prefix

/-- A prefix, with the error that the combinator gives. -/
def Prefix.readLength (before : Prefix) (message : String) : Reader (BitVec before.width) :=
  StreamRead.reader (mapError (fun _ => message) before.read)

/-- A length is read back. -/
theorem Prefix.accepts_readLength (before : Prefix) (message : String) (v : BitVec before.width) :
    Accepts (before.readLength message) (before.write v) v :=
    accepts_reader (before.read_write v).mapError

/-! ### Arrays -/

/-- No container has more elements. -/
def maxSize : ℕ := 2 ^ 63 - 1

/-- The elements of a container. -/
abbrev Container (α : Type) : Type := { elements : List α // elements.length ≤ maxSize }

section

variable {α : Type}

/-- `resize`: elements that are there stay, others have the default value. -/
def resize (value : α) (n : ℕ) (array : List α) : Reader (List α) :=
  if n > maxSize then fail .lengthError
  else pure (array.take n ++ List.replicate (n - array.length) value)

def BinaryStream.writeArray (before : Prefix) (func : α → Bytes) (array : List α) : Bytes :=
  before.write (before.cast array.length) ++ array.flatMap func

/-- `func` reads into an element. -/
def ReadOnlyBinaryStream.readArray (before : Prefix) (value : α) (func : α → Reader α)
    (outVector : List α) :
    Reader (List α) := do
  let length ← before.readLength "ReadOnlyBinaryStream::readArray overflowed"
  let outVector ← resize value (before.toSize length) outVector
  each func outVector

variable {value : α} {n : ℕ} {array : List α}

/-- A vector that is not too large is resized. -/
theorem accepts_resize (h : n ≤ maxSize) :
    Accepts (resize value n array) ([] : Bytes)
      (array.take n ++ List.replicate (n - array.length) value) := by
  rw [resize, if_neg (Nat.not_lt.mpr h)]
  exact accepts_pure _

/-- Resizing reads nothing. -/
theorem recognises_resize : Recognises (resize value n array) fun (bs : Bytes) as =>
    n ≤ maxSize ∧ bs = [] ∧ as = array.take n ++ List.replicate (n - array.length) value := by
  unfold resize
  split
  · next h =>
    refine (recognises_fail _).congr fun bs as => ⟨False.elim, ?_⟩
    rintro ⟨hle, -⟩
    exact Nat.not_lt.mpr hle h
  · next h => exact (recognises_pure _).congr fun bs as => (and_iff_right (Nat.le_of_not_lt h)).symm

/-- A container that cannot be resized throws. -/
theorem fails_resize :
    Fails Failure.Escapes (resize value n array) fun bs : Bytes => maxSize < n ∧ bs = [] := by
  unfold resize
  split
  · next h => exact (fails_fail trivial).congr fun bs => (and_iff_right h).symm
  · next h => exact (safe_pure _).fails.congr fun bs => ⟨False.elim, fun h' => h h'.1⟩

/-- The elements are the old ones and copies of the value. -/
theorem mem_resized {t : α} (h : t ∈ array.take n ++ List.replicate (n - array.length) value) :
    t = value ∨ t ∈ array := by
  rcases List.mem_append.mp h with h | h
  · exact .inr (List.mem_of_mem_take h)
  · exact .inl (List.eq_of_mem_replicate h)

/-- A resized vector has its new length. -/
theorem length_resized : (array.take n ++ List.replicate (n - array.length) value).length = n := by
  rw [List.length_append, List.length_take, List.length_replicate]
  omega

variable {before : Prefix} {w : α → Bytes} {r : α → Reader α} {old xs : List α}

/-- The elements are read into new ones and into those that the container had. -/
theorem accepts_readArray (hvalue : ∀ x ∈ xs, Accepts (r value) (w x) x)
    (hold : ∀ t ∈ old, ∀ x ∈ xs, Accepts (r t) (w x) x) (hsize : xs.length ≤ maxSize)
    (hfits : before.Fits xs.length) :
    Accepts (readArray before value r old) (writeArray before w xs) xs := by
  refine (before.accepts_readLength _ _).bind ?_
  rw [hfits.toSize_cast]
  have hresize : Accepts (resize value xs.length old) [] _ := accepts_resize hsize
  have heach : Accepts
    (each r (old.take xs.length ++ List.replicate (xs.length - old.length) value))
      (xs.flatMap w) xs := by
    refine Accepts.each (sequence_flatMap fun x hx t ht => ?_) length_resized
    rcases mem_resized ht with rfl | ht
    · exact hvalue x hx
    · exact hold t ht x hx
  exact hresize.bind heach

end

/-- The size that a signed count is cast to. -/
def sizeCast (n : Int32) : ℕ := Prefix.varInt.toSize n.toBitVec

/-- A count is either a size or too large for every container. -/
theorem sizeCast_cases (n : Int32) :
    (0 ≤ n.toInt ∧ (sizeCast n : ℤ) = n.toInt ∧ sizeCast n ≤ maxSize) ∨
    (n.toInt < 0 ∧ maxSize < sizeCast n) := by
  have hlt := n.toInt_lt
  have hge := n.le_toInt
  have hsize : sizeCast n = (n.toInt % 2 ^ 64).toNat := BitVec.toNat_ofInt ..
  rw [hsize, maxSize]
  rcases Int.lt_or_le n.toInt 0 with h | h
  · right
    omega
  · left
    omega

/-! ### Maps -/

section

variable {κ α : Type} [LT κ]

def BinaryStream.writeMap (before : Prefix) (func : κ → α → Bytes) (map : OrderedMap κ α) : Bytes :=
  before.write (before.cast map.entries.length) ++ map.entries.flatMap fun e => func e.1 e.2

variable [DecidableLT κ] [Trans (α := κ) (· < ·) (· < ·) (· < ·)]

/-- The loop of `readMap`, with so many rounds left. -/
def ReadOnlyBinaryStream.readMapEntries (key : κ) (value : α) (func : κ → α → Reader (κ × α)) :
    ℕ → OrderedMap κ α → Reader (OrderedMap κ α)
  | 0, outMap => pure outMap
  | n + 1, outMap => do
    let e ← func key value
    readMapEntries key value func n (outMap.emplace e.1 e.2)

/-- `func` reads into a key and a value that are new. The counter of the loop has the type of
the prefix, so a negative length means no round. -/
def ReadOnlyBinaryStream.readMap (before : Prefix) (key : κ) (value : α)
    (func : κ → α → Reader (κ × α)) :
    Reader (OrderedMap κ α) := do
  let length ← before.readLength "ReadOnlyBinaryStream::readMap overflowed"
  readMapEntries key value func (before.value length).toNat OrderedMap.empty

variable [Std.Asymm (α := κ) (· < ·)]
variable {key : κ} {value : α} {before : Prefix} {w : κ → α → Bytes} {r : κ → α → Reader (κ × α)}

/-- The loop puts the entries that are left behind those that are there. -/
theorem accepts_readMapEntries {done : OrderedMap κ α} {rest : List (κ × α)}
    (hsorted : SortedEntries (done.entries ++ rest))
    (hr : ∀ e ∈ rest, Accepts (r key value) (w e.1 e.2) e) :
    Accepts (readMapEntries key value r rest.length done) (rest.flatMap fun e => w e.1 e.2)
      ⟨done.entries ++ rest, hsorted⟩ := by
  induction rest generalizing done with
  | nil =>
    have hdone : (⟨done.entries ++ [], hsorted⟩ : OrderedMap κ α) = done :=
      OrderedMap.ext (List.append_nil _)
    rw [hdone]
    exact accepts_pure done
  | cons e rest ih =>
    -- the next entry has a greater key, so it is put at the end
    have hnext : (done.emplace e.1 e.2).entries = done.entries ++ [e] := hsorted.emplaceEntry_next
    have hall : (done.emplace e.1 e.2).entries ++ rest = done.entries ++ e :: rest := by
      rw [hnext, List.append_assoc]
      rfl
    have hrest := ih (hall ▸ hsorted) fun e' he' => hr e' (List.mem_cons_of_mem _ he')
    rw [List.flatMap_cons]
    refine (hr e List.mem_cons_self).bind ?_
    convert hrest using 2
    exact hall.symm

/-- A map is read back if its entries are. -/
theorem accepts_readMap {m : OrderedMap κ α}
    (hr : ∀ e ∈ m.entries, Accepts (r key value) (w e.1 e.2) e)
    (hfits : before.Fits m.entries.length) :
    Accepts (readMap before key value r) (writeMap before w m) m := by
  refine (before.accepts_readLength _ _).bind ?_
  rw [hfits.value_cast, Int.toNat_natCast]
  exact @accepts_readMapEntries _ _ _ _ _ _ key value w r OrderedMap.empty m.entries m.sorted hr

end

/-! ### Optional values -/

section

variable {α : Type}

def BinaryStream.writeOptional (func : α → Bytes) : Option α → Bytes
  | none => writeBool false
  | some a => writeBool true ++ func a

/-- `func` reads into a new value. -/
def ReadOnlyBinaryStream.readOptional (value : α) (func : α → Reader α) : Reader (Option α) := do
  let hasValue ← StreamRead.reader
    (mapError (fun _ => "ReadOnlyBinaryStream::readOptional overflowed") readBool)
  if hasValue then do
    let a ← func value
    pure (some a)
  else pure none

variable {value : α} {w : α → Bytes} {r : α → Reader α}

/-- A `bool` is read back. -/
theorem accepts_readBool (b : Bool) : Accepts readBool (writeBool b) b :=
  recognises_readBool.accepts (readBool_write b)

/-- An optional is read back if its value is. -/
theorem accepts_readOptional {x : Option α} (hr : ∀ a ∈ x, Accepts (r value) (w a) a) :
    Accepts (readOptional value r) (writeOptional w x) x := by
  cases x with
  | none => exact (accepts_reader (accepts_readBool false).mapError).bind_nil (accepts_pure none)
  | some a =>
    refine (accepts_reader (accepts_readBool true).mapError).bind ?_
    rw [if_pos rfl]
    exact (hr a rfl).bind_pure

end

/-! ### Variants -/

/-- A variant with the alternatives `T`: the index of one, and a value of it. -/
abbrev Variant {n : ℕ} (T : Fin n → Type) : Type := Σ i, T i

section

variable {n : ℕ} {T : Fin n → Type}

/-- `emplace_variant_switch<I>`: the alternative at an index, with its default value. -/
def emplaceVariantSwitch (value : ∀ i, T i) (index : ℕ) (i : Fin n) : Except String (Variant T) :=
  if index = i then .ok ⟨i, value i⟩
  else if h : i + 1 < n then emplaceVariantSwitch value index ⟨i + 1, h⟩
  else .error "failed to emplace variant: index out of range"
termination_by n - i

/-- A variant has an alternative. -/
def emplaceVariant [NeZero n] (value : ∀ i, T i) (index : ℕ) : Except String (Variant T) :=
  emplaceVariantSwitch value index 0

/-- An enumeration that lists the alternatives in order, by the type of its values. -/
structure TagEnum (n : ℕ) extends Integral where
  fits (i : Fin n) : toIntegral.Fits i

/-- `std::variant`, or a `TaggedVariant` with its enumeration. -/
inductive VariantKind (n : ℕ)
  | plain
  | tagged (tag : TagEnum n)

/-- `index` or `type` -/
def VariantKind.index : VariantKind n → Fin n → ℤ
  | .plain, i => (i : ℕ)
  | .tagged tag, i => tag.value (tag.cast (i : ℕ))

/-- The index that `emplace_variant` is given: the tag's, by way of `set`. -/
def VariantKind.position {t : Integral} : VariantKind n → BitVec t.width → ℕ
  | .plain, v => t.toSize v
  | .tagged tag, v => tag.toSize (tag.cast (t.value v))

def BinaryStream.writeVariant (kind : VariantKind n) (before : Prefix) (visitor : ∀ i, T i → Bytes)
    (var : Variant T) :
    Bytes :=
  before.write (before.cast (kind.index var.1)) ++ visitor var.1 var.2

/-- `visitor` reads into the alternative, which is new. -/
def ReadOnlyBinaryStream.readVariant [NeZero n] (kind : VariantKind n) (before : Prefix)
    (value : ∀ i, T i)
    (visitor : ∀ i, T i → Reader (T i)) : Reader (Variant T) := do
  let index ← before.readLength "ReadOnlyBinaryStream::readVariant overflowed"
  match emplaceVariant value (kind.position index) with
  | .error _ => fail (.error "ReadOnlyBinaryStream::readVariant invalid variant index")
  | .ok var => do
    let a ← visitor var.1 var.2
    pure ⟨var.1, a⟩

variable {value : ∀ i, T i}

/-- The switch finds an index from where it stands on. -/
theorem emplaceVariantSwitch_eq (index : Fin n) (i : Fin n) (h : i ≤ index) :
    emplaceVariantSwitch value index i = .ok ⟨index, value index⟩ := by
  fun_induction emplaceVariantSwitch value index i with
  | case1 i heq => rw [Fin.ext heq]
  | case2 i hne hnext ih =>
    apply ih
    show (i : ℕ) + 1 ≤ index
    have hle : (i : ℕ) ≤ index := h
    omega
  | case3 i hne hend =>
    have hle : (i : ℕ) ≤ index := h
    have hlt := index.isLt
    omega

/-- Every alternative is made. -/
theorem emplaceVariant_eq [NeZero n] (i : Fin n) : emplaceVariant value i = .ok ⟨i, value i⟩ :=
  emplaceVariantSwitch_eq i 0 (Fin.zero_le _)

variable {before : Prefix} {kind : VariantKind n} {w : ∀ i, T i → Bytes}
  {r : ∀ i, T i → Reader (T i)}

/-- An index comes back through the casts. -/
theorem VariantKind.position_index {i : Fin n} (hfits : before.Fits i) :
    kind.position (t := before.toIntegral) (before.cast (kind.index i)) = i := by
  cases kind with
  | plain => exact hfits.toSize_cast
  | tagged tag =>
    rw [index, position, (tag.fits i).value_cast, hfits.value_cast, (tag.fits i).toSize_cast]

/-- A variant is read back if its alternative is. -/
theorem accepts_readVariant [NeZero n] {var : Variant T}
    (hr : Accepts (r var.1 (value var.1)) (w var.1 var.2) var.2)
    (hfits : before.Fits var.1) :
    Accepts (readVariant kind before value r) (writeVariant kind before w var) var := by
  refine (before.accepts_readLength _ _).bind ?_
  rw [VariantKind.position_index hfits, emplaceVariant_eq]
  exact hr.bind_pure

end

/-! ### The law -/

/-- **The combinators are compositional.** A count or an index has to fit the type of its
prefix; the elements are read back into new ones and, in a container, into those it had. -/
theorem combinators_read_back (before : Prefix) :
    (∀ (α : Type) (value : α) (w : α → Bytes) (r : α → Reader α) (old xs : Container α),
      (∀ t, t = value ∨ t ∈ old.1 → ∀ x ∈ xs.1, Accepts (r t) (w x) x) → before.Fits xs.1.length →
      Accepts (readArray before value r old) (writeArray before w xs) xs.1) ∧
    (∀ (κ α : Type) [LT κ] [DecidableLT κ] [Trans (α := κ) (· < ·) (· < ·) (· < ·)]
      [Std.Asymm (α := κ) (· < ·)]
      (key : κ) (value : α) (w : κ → α → Bytes) (r : κ → α → Reader (κ × α)) (m : OrderedMap κ α),
      (∀ e ∈ m.entries, Accepts (r key value) (w e.1 e.2) e) → before.Fits m.entries.length →
      Accepts (readMap before key value r) (writeMap before w m) m) ∧
    (∀ (α : Type) (value : α) (w : α → Bytes) (r : α → Reader α) (x : Option α),
      (∀ a ∈ x, Accepts (r value) (w a) a) → Accepts (readOptional value r) (writeOptional w x) x) ∧
    (∀ (n : ℕ) [NeZero n] (kind : VariantKind n) (T : Fin n → Type) (value : ∀ i, T i)
      (w : ∀ i, T i → Bytes) (r : ∀ i, T i → Reader (T i)) (var : Variant T),
      Accepts (r var.1 (value var.1)) (w var.1 var.2) var.2 → before.Fits var.1 →
      Accepts (readVariant kind before value r) (writeVariant kind before w var) var) := by
  refine ⟨?_, ?_, ?_, ?_⟩
  · intro α value w r old xs hr hfits
    exact accepts_readArray (hr value (.inl rfl)) (fun t ht => hr t (.inr ht)) xs.2 hfits
  · intro κ α _ _ _ _ key value w r m hr hfits
    exact accepts_readMap hr hfits
  · intro α value w r x hr
    exact accepts_readOptional hr
  · intro n _ kind T value w r var hr hfits
    exact accepts_readVariant hr hfits

/-- Two signed numbers into a container with one, a map, an optional value and the second
alternative of a variant. -/
theorem combinators_read_back_small :
    Accepts (readArray Prefix.varInt 0 (fun _ => StreamRead.reader readVarInt) [7])
      (writeArray Prefix.varInt writeVarInt [1, -5]) [1, -5] ∧
    Accepts (readMap Prefix.byte 0 () fun _ _ => StreamRead.reader readByte >>=
      fun k => pure (k, ()))
      (writeMap Prefix.byte (fun k _ => writeByte k) ⟨[(3, ()), (200, ())], by decide⟩)
      ⟨[(3, ()), (200, ())], by decide⟩ ∧
    Accepts (readOptional 0 fun _ => StreamRead.reader readByte) (writeOptional writeByte (some 9))
      (some 9) ∧
    Accepts
      (readVariant (T := fun _ : Fin 2 => UInt8) .plain Prefix.unsignedVarInt (fun _ => 0)
        fun _ _ => StreamRead.reader readByte)
      (writeVariant (T := fun _ : Fin 2 => UInt8) .plain Prefix.unsignedVarInt
        (fun _ => writeByte) ⟨1, 5⟩)
      ⟨1, 5⟩ := by
  have hbyte : ∀ b, Accepts (StreamRead.reader readByte) (writeByte b) b :=
    fun b => accepts_reader (recognises_readByte.accepts rfl)
  refine ⟨?_, ?_, ?_, ?_⟩
  · refine (combinators_read_back Prefix.varInt).1 Int32 0 writeVarInt
      (fun _ => StreamRead.reader readVarInt)
      ⟨[7], by decide⟩ ⟨[1, -5], by decide⟩ (fun t _ x _ => ?_) ?_
    · exact accepts_reader (recognises_readVarInt.accepts (isSignedVarInt_write x))
    · show 2 < 2 ^ 31
      decide
  · refine (combinators_read_back Prefix.byte).2.1 UInt8 Unit 0 () (fun k _ => writeByte k) _ _
      (fun e _ => (hbyte e.1).bind_pure) ?_
    show 2 < 2 ^ 8
    decide
  · exact (combinators_read_back Prefix.byte).2.2.1 UInt8 0 writeByte _ _ fun a _ => hbyte a
  · refine (combinators_read_back Prefix.unsignedVarInt).2.2.2 2 .plain (fun _ => UInt8) _
      (fun _ => writeByte) _
      ⟨1, 5⟩ (hbyte 5) ?_
    show 1 < 2 ^ 32
    decide

/-! ### Sizes that are cut -/

/-- What is accepted with a text is what is read of a longer one. -/
theorem Decoder.Accepts.eq_of_append {α : Type} {d : Reader α} {bs cs : Bytes} {a b : α}
    (ha : Accepts d bs a)
    (hb : Accepts d (bs ++ cs) b) : a = b := by
  have hread := ha (ofBuffer (bs ++ cs)) cs ⟨rfl, Nat.zero_le _⟩ rfl
  have hread' := hb (ofBuffer (bs ++ cs)) [] ⟨rfl, Nat.zero_le _⟩ (List.append_nil _).symm
  exact Except.ok.inj (congrArg Prod.snd (hread.symm.trans hread'))

/-- A map with every byte for a key. -/
def everyByte : OrderedMap UInt8 Unit where
  entries := (List.range 256).map fun n => (UInt8.ofNat n, ())
  sorted := by
    refine List.pairwise_map.mpr (List.Pairwise.imp_of_mem ?_ List.pairwise_lt_range)
    intro m n hm hn hlt
    rw [UInt8.lt_iff_toNat_lt, UInt8.toNat_ofNat_of_lt' (List.mem_range.mp hm),
      UInt8.toNat_ofNat_of_lt' (List.mem_range.mp hn)]
    exact hlt

/-- 256 entries are counted as none by a byte, and alternative 256 is taken for the first. -/
theorem combinators_cut_sizes :
    (∀ k : UInt8, Accepts (StreamRead.reader readByte >>= fun k => pure (k, ()))
      (writeByte k) (k, ())) ∧
    ¬ Accepts (readMap Prefix.byte 0 () fun _ _ => StreamRead.reader readByte >>=
      fun k => pure (k, ()))
      (writeMap Prefix.byte (fun k _ => writeByte k) everyByte) everyByte ∧
    ¬ Accepts (readVariant (T := fun _ : Fin 257 => Unit) .plain Prefix.byte (fun _ => ())
      fun _ _ => pure ())
      (writeVariant (T := fun _ : Fin 257 => Unit) .plain Prefix.byte (fun _ _ => []) ⟨256, ()⟩)
          ⟨256, ()⟩ := by
  refine ⟨fun k => (accepts_reader (recognises_readByte.accepts rfl)).bind_pure, fun h => ?_,
    fun h => ?_⟩
  · -- the byte is 0, so the loop has no round
    have hnone : Accepts (readMap Prefix.byte 0 () fun _ _ => StreamRead.reader readByte >>=
      fun k => pure (k, ()))
        (Prefix.byte.write 0) OrderedMap.empty :=
      (Prefix.byte.accepts_readLength _ 0).bind_nil (accepts_pure _)
    have hlength : everyByte.entries.length = 256 := by
      rw [everyByte, List.length_map, List.length_range]
    have hcut : Prefix.byte.cast everyByte.entries.length = 0 := by
      rw [hlength]
      rfl
    rw [writeMap, hcut] at h
    have hsame := hnone.eq_of_append h
    have hzero : 0 = everyByte.entries.length := congrArg (fun m => m.entries.length) hsame
    omega
  · have hfirst : Accepts
        (readVariant (T := fun _ : Fin 257 => Unit) .plain Prefix.byte (fun _ => ())
          fun _ _ => pure ())
        (writeVariant (T := fun _ : Fin 257 => Unit) .plain Prefix.byte (fun _ _ => []) ⟨0, ()⟩)
          ⟨0, ()⟩ :=
      accepts_readVariant (accepts_pure ()) (show 0 < 2 ^ 8 by decide)
    have hcut : writeVariant (T := fun _ : Fin 257 => Unit) .plain Prefix.byte
      (fun _ _ => []) ⟨256, ()⟩ =
        writeVariant (T := fun _ : Fin 257 => Unit) .plain Prefix.byte (fun _ _ => []) ⟨0, ()⟩ ++
        [] := rfl
    rw [hcut] at h
    have hsame := hfirst.eq_of_append h
    exact absurd (congrArg Sigma.fst hsame) (by decide)

end SculkProtocol
