import SculkProtocol.Codec.ItemUseTransaction
import SculkProtocol.Codec.Targets
import SculkProtocol.Decoding.Local

/-!
# `InventoryTransactionPacket`

A packet has the slots of a legacy request, a type and the transaction of this type. Its readers
are those of the packet itself; the ones with which other packets read a transaction are the
legacy form (`ItemUseTransaction`).

An index is narrowed before it is compared with the number of alternatives: `readEnum` casts the
type to a byte, `readVariant` casts an index to the enumeration, and an item's id is cast to a
short. `discriminant_in_range_iff` says for which inputs this shows.
-/

namespace SculkProtocol

open Decoder BinaryStream ReadOnlyBinaryStream StreamRead

/-! ### Combinators of local readers -/

/-- What is recognised is read locally. -/
theorem local_reader {α : Type} {d : StreamRead α} {L : Bytes → α → Prop} (h : Recognises d L) :
    Local (StreamRead.reader d) := (recognises_reader h).of_accepted

/-- A length that is a varint is read locally. -/
theorem local_unsignedVarInt : Local Prefix.unsignedVarInt.read :=
  PrefixFunction.recognises .readUnsignedVarInt

section

variable {α : Type} {value : α} {r : α → Reader α}

/-- So is a vector of a given size. -/
theorem local_resize {n : ℕ} {array : List α} : Local (resize value n array) :=
  recognises_resize.of_accepted

/-- An optional is read locally if its value is. -/
theorem local_readOptional (h : Local (r value)) : Local (readOptional value r) :=
  (local_reader recognises_readBool.mapError).bind fun _ => h.bind_pure.ite (local_pure none)

/-- An array is read locally if its elements are. -/
theorem local_readUnsignedArray {old : List α} (h : ∀ t, Local (r t)) :
    Local (readUnsignedArray value r old) :=
  (local_reader local_unsignedVarInt.mapError).bind fun _ => local_resize.bind fun _ =>
    Local.each fun t _ => h t

/-- A variant is read locally if its alternatives are. -/
theorem local_readVariant {n : ℕ} [NeZero n] {T : Fin n → Type} {before : Prefix}
    {kind : VariantKind n}
    {new : ∀ i, T i} {visitor : ∀ i, T i → Reader (T i)} (hbefore : Local before.read)
    (h : ∀ i a, Local (visitor i a)) : Local (readVariant kind before new visitor) := by
  refine (local_reader hbefore.mapError).bind fun index => ?_
  split
  · exact local_fail _
  · exact (h _ _).bind_pure

end

/-! ### Actions -/

namespace InventoryTransactionSource

def read : Reader InventoryTransactionSource := do
  let mType ← StreamRead.reader (readEnum readUnsignedVarInt)
  let unknownFlag1 ← StreamRead.reader readBool
  if unknownFlag1 = false then fail (.error "Expected container id")
  else do
    let mContainerId ← readOptional 0 fun _ => StreamRead.reader readByte
    let unknownFlag2 ← StreamRead.reader readBool
    if unknownFlag2 = false then fail (.error "Expected bit flags")
    else do
      let mBitFlags ← readOptional 0 fun _ => StreamRead.reader readUnsignedVarInt
      pure ⟨mType, mContainerId, mBitFlags⟩

theorem local_read : Local read :=
  (local_reader (recognises_readEnum recognises_readUnsignedVarInt)).bind fun _ =>
    (local_reader recognises_readBool).bind fun _ =>
    (local_fail _).ite <| (local_readOptional (local_reader recognises_readByte)).bind fun _ =>
    (local_reader recognises_readBool).bind fun _ =>
    (local_fail _).ite (local_readOptional (local_reader recognises_readUnsignedVarInt)).bind_pure

end InventoryTransactionSource

namespace NetworkItemStackDescriptor

theorem local_readCereal : Local readCereal := by
  have hnetId : Local NetIdVariant.readCereal := by
    refine local_readVariant local_unsignedVarInt fun i a => ?_
    match i with
    | 0 => exact (local_reader recognises_readVarInt).bind_pure
    | 1 => exact (local_reader recognises_readVarInt).bind_pure
    | 2 => exact (local_reader recognises_readVarInt).bind_pure
  exact (local_reader (recognises_scalar Scalar.int16)).bind fun _ =>
    (local_reader (recognises_scalar Scalar.uint16)).bind fun _ =>
    (local_reader recognises_readUnsignedVarInt).bind fun _ =>
    (local_readOptional hnetId).bind fun _ =>
    (local_reader recognises_readUnsignedVarInt).bind fun _ =>
    (local_reader recognises_readString).bind_pure

end NetworkItemStackDescriptor

namespace InventoryTransactionAction

def read : Reader InventoryTransactionAction := do
  let mSource ← InventoryTransactionSource.read
  let mSlot ← StreamRead.reader readUnsignedVarInt
  let mFromItem ← NetworkItemStackDescriptor.readCereal
  let mToItem ← NetworkItemStackDescriptor.readCereal
  pure ⟨mSource, mSlot, mFromItem, mToItem⟩

theorem local_read : Local read :=
  InventoryTransactionSource.local_read.bind fun _ =>
    (local_reader recognises_readUnsignedVarInt).bind fun _ =>
    NetworkItemStackDescriptor.local_readCereal.bind fun _ =>
    NetworkItemStackDescriptor.local_readCereal.bind_pure

end InventoryTransactionAction

namespace InventoryTransaction

def read (transaction : InventoryTransaction) : Reader InventoryTransaction := do
  let mActions ← readUnsignedArray .new (fun _ => InventoryTransactionAction.read)
    transaction.mActions
  pure ⟨mActions⟩

theorem local_read (transaction : InventoryTransaction) : Local transaction.read :=
  (local_readUnsignedArray fun _ => InventoryTransactionAction.local_read).bind_pure

end InventoryTransaction

/-! ### Transactions -/

theorem Vec3.local_read : Local Vec3.read :=
  have hfloat : Local (StreamRead.reader readFloat) :=
    local_reader (recognises_scalar Scalar.uint32)
  hfloat.bind fun _ => hfloat.bind fun _ => hfloat.bind_pure

theorem BlockPos.local_read : Local BlockPos.read :=
  have hvarInt : Local (StreamRead.reader readVarInt) := local_reader recognises_readVarInt
  hvarInt.bind fun _ => hvarInt.bind fun _ => hvarInt.bind_pure

theorem LegacySetItemSlot.local_read (slot : LegacySetItemSlot) : Local slot.read :=
  (local_reader (recognises_readEnum recognises_readByte)).bind fun _ =>
    (local_readUnsignedArray fun _ => local_reader recognises_readByte).bind_pure

structure NormalTransactionData where
  mTransaction : InventoryTransaction

def NormalTransactionData.read (data : NormalTransactionData) : Reader NormalTransactionData := do
  let mTransaction ← data.mTransaction.read
  pure ⟨mTransaction⟩

structure InventoryMismatchData where
  mTransaction : InventoryTransaction

def InventoryMismatchData.read (data : InventoryMismatchData) : Reader InventoryMismatchData := do
  let mTransaction ← data.mTransaction.read
  pure ⟨mTransaction⟩

namespace ItemUseInventoryTransaction

/-- The enumerations are cast to bytes. -/
def read (use : ItemUseInventoryTransaction) : Reader ItemUseInventoryTransaction := do
  let mTransaction ← use.mTransaction.read
  let mActionType ← (StreamRead.reader (readEnum readVarInt)).cast fun type => type.toUInt32.toUInt8
  let mTriggerType ← (StreamRead.reader (readEnum readUnsignedVarInt)).cast UInt32.toUInt8
  let mPos ← BlockPos.read
  let mFace ← StreamRead.reader readByte
  let mSlot ← StreamRead.reader readVarInt
  let mItem ← NetworkItemStackDescriptor.readCereal
  let mFromPos ← Vec3.read
  let mClickPos ← Vec3.read
  let mTargetBlockId ← StreamRead.reader readUnsignedVarInt
  let mClientPredictedResult ← StreamRead.reader (readEnum readByte)
  let mClientCooldownState ← StreamRead.reader (readEnum readByte)
  pure ⟨mTransaction, mActionType, mTriggerType, mPos, mTargetBlockId, mFace, mSlot, mItem,
    mFromPos, mClickPos, mClientPredictedResult, mClientCooldownState⟩

theorem local_read (use : ItemUseInventoryTransaction) : Local use.read :=
  use.mTransaction.local_read.bind fun _ =>
    (local_reader (recognises_readEnum recognises_readVarInt)).bind_pure.bind fun _ =>
    (local_reader (recognises_readEnum recognises_readUnsignedVarInt)).bind_pure.bind fun _ =>
    BlockPos.local_read.bind fun _ =>
    (local_reader recognises_readByte).bind fun _ =>
    (local_reader recognises_readVarInt).bind fun _ =>
    NetworkItemStackDescriptor.local_readCereal.bind fun _ =>
    Vec3.local_read.bind fun _ => Vec3.local_read.bind fun _ =>
    (local_reader recognises_readUnsignedVarInt).bind fun _ =>
    (local_reader (recognises_readEnum recognises_readByte)).bind fun _ =>
    (local_reader (recognises_readEnum recognises_readByte)).bind_pure

end ItemUseInventoryTransaction

/-- `mActionType` is the value of its enumerator. -/
structure ItemUseOnActorInventoryTransaction where
  mTransaction : InventoryTransaction
  mRuntimeId : UInt64
  mActionType : UInt8
  mSlot : Int32
  mItem : NetworkItemStackDescriptor
  mFromPos : Vec3
  mHitPos : Vec3

namespace ItemUseOnActorInventoryTransaction

def new : ItemUseOnActorInventoryTransaction := ⟨⟨[]⟩, 0, 0, 0, .new, ⟨0, 0, 0⟩, ⟨0, 0, 0⟩⟩

def read (use : ItemUseOnActorInventoryTransaction) :
    Reader ItemUseOnActorInventoryTransaction := do
  let mTransaction ← use.mTransaction.read
  let mRuntimeId ← StreamRead.reader readUnsignedVarInt64
  let mActionType ← (StreamRead.reader (readEnum readUnsignedVarInt)).cast UInt32.toUInt8
  let mSlot ← StreamRead.reader readVarInt
  let mItem ← NetworkItemStackDescriptor.readCereal
  let mFromPos ← Vec3.read
  let mHitPos ← Vec3.read
  pure ⟨mTransaction, mRuntimeId, mActionType, mSlot, mItem, mFromPos, mHitPos⟩

theorem local_read (use : ItemUseOnActorInventoryTransaction) : Local use.read :=
  use.mTransaction.local_read.bind fun _ =>
    (local_reader recognises_readUnsignedVarInt64).bind fun _ =>
    (local_reader (recognises_readEnum recognises_readUnsignedVarInt)).bind_pure.bind fun _ =>
    (local_reader recognises_readVarInt).bind fun _ =>
    NetworkItemStackDescriptor.local_readCereal.bind fun _ =>
    Vec3.local_read.bind fun _ => Vec3.local_read.bind_pure

end ItemUseOnActorInventoryTransaction

/-- `mActionType` is the value of its enumerator. -/
structure ItemReleaseInventoryTransaction where
  mTransaction : InventoryTransaction
  mActionType : Int32
  mSlot : Int32
  mItem : NetworkItemStackDescriptor
  mFromPos : Vec3

namespace ItemReleaseInventoryTransaction

def new : ItemReleaseInventoryTransaction := ⟨⟨[]⟩, 0, 0, .new, ⟨0, 0, 0⟩⟩

def read (release : ItemReleaseInventoryTransaction) : Reader ItemReleaseInventoryTransaction := do
  let mTransaction ← release.mTransaction.read
  let mActionType ← StreamRead.reader (readEnum readVarInt)
  let mSlot ← StreamRead.reader readVarInt
  let mItem ← NetworkItemStackDescriptor.readCereal
  let mFromPos ← Vec3.read
  pure ⟨mTransaction, mActionType, mSlot, mItem, mFromPos⟩

theorem local_read (release : ItemReleaseInventoryTransaction) : Local release.read :=
  release.mTransaction.local_read.bind fun _ =>
    (local_reader (recognises_readEnum recognises_readVarInt)).bind fun _ =>
    (local_reader recognises_readVarInt).bind fun _ =>
    NetworkItemStackDescriptor.local_readCereal.bind fun _ => Vec3.local_read.bind_pure

end ItemReleaseInventoryTransaction

/-! ### The variant of transactions -/

/-- The alternatives of `InventoryTransactionVariant` -/
def InventoryTransactionAlternative : Fin 5 → Type
  | 0 => NormalTransactionData
  | 1 => InventoryMismatchData
  | 2 => ItemUseInventoryTransaction
  | 3 => ItemUseOnActorInventoryTransaction
  | 4 => ItemReleaseInventoryTransaction

namespace InventoryTransactionAlternative

def value : ∀ i, InventoryTransactionAlternative i
  | 0 => (⟨⟨[]⟩⟩ : NormalTransactionData)
  | 1 => (⟨⟨[]⟩⟩ : InventoryMismatchData)
  | 2 => ItemUseInventoryTransaction.new
  | 3 => ItemUseOnActorInventoryTransaction.new
  | 4 => ItemReleaseInventoryTransaction.new

/-- `transaction.read(stream)` of the alternative that is visited. -/
def read : ∀ i, InventoryTransactionAlternative i → Reader (InventoryTransactionAlternative i)
  | 0 => NormalTransactionData.read
  | 1 => InventoryMismatchData.read
  | 2 => ItemUseInventoryTransaction.read
  | 3 => ItemUseOnActorInventoryTransaction.read
  | 4 => ItemReleaseInventoryTransaction.read

theorem local_read : ∀ i a, Local (read i a)
  | 0, (data : NormalTransactionData) => data.mTransaction.local_read.bind_pure
  | 1, (data : InventoryMismatchData) => data.mTransaction.local_read.bind_pure
  | 2, (use : ItemUseInventoryTransaction) => use.local_read
  | 3, (use : ItemUseOnActorInventoryTransaction) => use.local_read
  | 4, (release : ItemReleaseInventoryTransaction) => release.local_read

end InventoryTransactionAlternative

abbrev InventoryTransactionVariant := Variant InventoryTransactionAlternative

/-- The enumeration, of the type `std::uint8_t`. -/
def InventoryTransactionType : TagEnum 5 where
  toIntegral := Prefix.byte.toIntegral
  fits i := Nat.lt_trans i.isLt (by decide)

/-! ### The packet -/

structure InventoryTransactionPacket where
  mLegacyRequestRawId : Int32
  mLegacySetItemSlots : Option (List LegacySetItemSlot)
  mTransaction : InventoryTransactionVariant

namespace InventoryTransactionPacket

/-- What stands before the transaction: a raw id, slots and a type as it is on the wire. -/
structure Header where
  mLegacyRequestRawId : Int32
  mLegacySetItemSlots : Option (List LegacySetItemSlot)
  transactionType : UInt32

def readSlots : Reader (Option (List LegacySetItemSlot)) :=
  readOptional [] fun slots => readUnsignedArray .new LegacySetItemSlot.read slots

def readHeader : Reader Header := do
  let mLegacyRequestRawId ← StreamRead.reader readVarInt
  let mLegacySetItemSlots ← readSlots
  let unknownFlag1 ← StreamRead.reader readBool
  if unknownFlag1 = false then fail (.error "Expected transaction variant")
  else do
    let transactionType ← StreamRead.reader (readEnum readUnsignedVarInt)
    pure ⟨mLegacyRequestRawId, mLegacySetItemSlots, transactionType⟩

/-- The index that `set` takes from a type, which `readEnum` has cast to the enumeration. -/
def Header.position (header : Header) : ℕ :=
  (VariantKind.tagged InventoryTransactionType).position (t := Prefix.unsignedVarInt.toIntegral)
    header.transactionType.toBitVec

def readTransaction (header : Header) : Reader InventoryTransactionPacket :=
  match emplaceVariant InventoryTransactionAlternative.value header.position with
  | .error e => fail (.error e)
  | .ok var => do
    let unknownFlag2 ← StreamRead.reader readBool
    if unknownFlag2 = false then fail (.error "Expected transaction data")
    else do
      let transaction ← InventoryTransactionAlternative.read var.1 var.2
      pure ⟨header.mLegacyRequestRawId, header.mLegacySetItemSlots, ⟨var.1, transaction⟩⟩

def read : Reader InventoryTransactionPacket := do
  let header ← readHeader
  readTransaction header

/-- A header: the raw id, the slots, a flag and the type. -/
def HeaderText (bs : Bytes) (header : Header) : Prop :=
  ∃ (idText slotsText typeText : Bytes) (flag : UInt8),
    bs = idText ++ (slotsText ++ (flag :: typeText)) ∧ flag ≠ 0 ∧
      IsSignedVarInt idText header.mLegacyRequestRawId ∧
      Accepts readSlots slotsText header.mLegacySetItemSlots ∧
      IsVarInt 16 5 typeText header.transactionType.toNat

/-- What follows a header: a flag, and the fields of the alternative that is set. -/
def AfterHeader (header : Header) (bs : Bytes) (packet : InventoryTransactionPacket) : Prop :=
  ∃ (flag : UInt8) (body : Bytes) (i : Fin 5) (transaction : InventoryTransactionAlternative i),
    bs = flag :: body ∧ flag ≠ 0 ∧ header.position = i ∧
      Accepts (InventoryTransactionAlternative.read i (InventoryTransactionAlternative.value i))
        body transaction ∧
      packet = ⟨header.mLegacyRequestRawId, header.mLegacySetItemSlots, ⟨i, transaction⟩⟩

/-- A flag that has to be set. -/
theorem recognises_flag {α : Type} {d : Reader α} {L : Bytes → α → Prop} (e : Failure)
    (h : Recognises d L) :
    Recognises (StreamRead.reader readBool >>= fun flag => if flag = false then fail e else d)
      fun bs a => ∃ (flag : UInt8) (body : Bytes), bs = flag :: body ∧ flag ≠ 0 ∧ L body a := by
  have hafter : ∀ flag : Bool, Recognises (if flag = false then fail e else d)
      fun bs a => flag = true ∧ L bs a := by
    intro flag
    cases flag with
    | false => exact (recognises_fail e).congr fun bs a => by simp
    | true => exact h.congr fun bs a => by simp
  refine ((recognises_reader recognises_readBool).bind fun _ flag _ => hafter flag).congr
    fun bs a => ⟨?_, ?_⟩
  · rintro ⟨_, body, _, rfl, ⟨b, rfl, rfl⟩, hflag, hbody⟩
    exact ⟨b, body, rfl, of_decide_eq_true hflag, hbody⟩
  · rintro ⟨b, body, rfl, hb, hbody⟩
    exact ⟨[b], body, _, rfl, ⟨b, rfl, rfl⟩, decide_eq_true hb, hbody⟩

/-- The texts of a header. -/
theorem recognises_readHeader : Recognises readHeader HeaderText := by
  have hslots : Local readSlots :=
    local_readOptional (local_readUnsignedArray LegacySetItemSlot.local_read)
  refine ((recognises_reader recognises_readVarInt).bind fun _ id _ => Recognises.bind hslots
      fun _ slots _ =>
    recognises_flag _ (recognises_reader
      (recognises_readEnum recognises_readUnsignedVarInt)).bind_pure).congr
        fun bs header => ⟨?_, ?_⟩
  · rintro ⟨idText, _, id, rfl, hid, slotsText, _, slots, rfl, hslots, flag, typeText, rfl, hflag,
      type, htype, rfl⟩
    exact ⟨idText, slotsText, typeText, flag, rfl, hflag, hid, hslots, htype⟩
  · rintro ⟨idText, slotsText, typeText, flag, rfl, hflag, hid, hslots, htype⟩
    exact ⟨idText, _, _, rfl, hid, slotsText, _, _, rfl, hslots, flag, typeText, rfl, hflag,
      _, htype, rfl⟩

/-- The texts behind a header. -/
theorem recognises_readTransaction (header : Header) :
    Recognises (readTransaction header) (AfterHeader header) := by
  unfold readTransaction
  split
  · next e he =>
    refine (recognises_fail _).congr fun bs packet => ⟨False.elim, ?_⟩
    rintro ⟨flag, body, i, transaction, rfl, -, hposition, -⟩
    -- no alternative has this position
    rw [hposition, emplaceVariant_eq] at he
    exact nomatch he
  · next var hvar =>
    obtain ⟨hposition, hvalue⟩ := emplaceVariantSwitch_ok hvar
    refine (recognises_flag _
      (Recognises.bind_pure (InventoryTransactionAlternative.local_read _ _))).congr
      fun bs packet => ⟨?_, ?_⟩
    · rintro ⟨flag, body, rfl, hflag, transaction, htransaction, rfl⟩
      rw [hvalue] at htransaction
      exact ⟨flag, body, var.1, transaction, rfl, hflag, hposition, htransaction, rfl⟩
    · rintro ⟨flag, body, i, transaction, rfl, hflag, hi, htransaction, rfl⟩
      obtain ⟨j, a⟩ := var
      obtain rfl : i = j := Fin.ext (hi.symm.trans hposition)
      change a = InventoryTransactionAlternative.value i at hvalue
      rw [← hvalue] at htransaction
      exact ⟨flag, body, rfl, hflag, transaction, htransaction, rfl⟩

/-- The texts of a transaction are those of its header and of what is behind it. -/
theorem recognises_read : Recognises read (Then HeaderText AfterHeader) :=
  recognises_readHeader.bind fun _ header _ => recognises_readTransaction header

end InventoryTransactionPacket

/-! ### Discriminants -/

/-- The index of one of `n` alternatives. -/
def InRange (n : ℕ) (index : ℤ) : Prop := 0 ≤ index ∧ index < n

/-- The value of a short. -/
def IsShort (id : Int32) : Prop := -32768 ≤ id.toInt ∧ id.toInt < 32768

section

variable {n : ℕ} {t : Integral} {kind : VariantKind n} {v : BitVec t.width}

/-- The casts leave the index of an alternative as it is. -/
theorem VariantKind.position_of_inRange (h : InRange n (t.value v)) :
    (kind.position v : ℤ) = t.value v := by
  obtain ⟨h0, hlt⟩ := h
  obtain ⟨index, hindex⟩ := Int.eq_ofNat_of_zero_le h0
  rw [hindex] at hlt ⊢
  have hlt : index < n := Int.ofNat_lt.mp hlt
  cases kind with
  | plain =>
    obtain ⟨width, hwidth, -, hvalue, -⟩ := t.value_bounds v
    have hpow : 2 ^ width ≤ 2 ^ 64 := Nat.pow_le_pow_right (by decide) hwidth
    rw [hindex] at hvalue
    have hsize : index < 2 ^ 64 := Nat.lt_of_lt_of_le (Int.ofNat_lt.mp hvalue) hpow
    rw [position, Integral.toSize, hindex]
    -- an index that fits is not changed by the cast to `std::size_t`
    exact congrArg Int.ofNat (Nat.mod_eq_of_lt hsize)
  | tagged tag =>
    have hfits := tag.fits ⟨index, hlt⟩
    rw [position, hindex, hfits.toSize_cast]

/-- A position is in range if it is not wrapped, or if there is no such alternative. -/
theorem VariantKind.inRange_iff :
    (kind.position v < n → InRange n (t.value v)) ↔ (kind.position v : ℤ) = t.value v ∨
    n ≤ kind.position v := by
  constructor
  · intro h
    by_cases hlt : kind.position v < n
    · exact .inl (position_of_inRange (h hlt))
    · exact .inr (Nat.le_of_not_lt hlt)
  · rintro (heq | hle) hlt
    · exact ⟨heq ▸ Int.natCast_nonneg _, heq ▸ Int.ofNat_lt.mpr hlt⟩
    · omega

variable {T : Fin n → Type} [NeZero n] {value : ∀ i, T i}

/-- An alternative is made exactly for a position below their number. -/
theorem emplaceVariant_isOk {index : ℕ} : (emplaceVariant value index).isOk = true ↔ index < n := by
  constructor
  · intro h
    cases hvar : emplaceVariant value index with
    | error e =>
      rw [hvar] at h
      exact nomatch h
    | ok var =>
      obtain ⟨rfl, -⟩ := emplaceVariantSwitch_ok hvar
      exact var.1.isLt
  · intro hlt
    rw [emplaceVariant_eq ⟨index, hlt⟩]
    rfl

variable {before : Prefix} {visitor : ∀ i, T i → Reader (T i)} {s s' : ReadOnlyBinaryStream}

omit [NeZero n] in
/-- Reading a length succeeds where reading its number does. -/
theorem Prefix.readLength_eq_ok {message : String} {v : BitVec before.width} :
    before.readLength message s = (s', .ok v) ↔ before.read s = (s', .ok v) := by
  unfold readLength reader mapError
  obtain ⟨t, x, hx⟩ : ∃ t x, before.read s = (t, x) := ⟨_, _, rfl⟩
  rw [hx]
  cases x <;> simp

/-- A variant that is read: an index, and the alternative at its position. -/
theorem readVariant_eq_ok {var : Variant T} :
    readVariant kind before value visitor s = (s', .ok var) ↔
      ∃ t v, before.read s = (t, .ok v) ∧ kind.position v = var.1 ∧
        visitor var.1 (value var.1) t = (s', .ok var.2) := by
  refine Decoder.bind_eq_ok.trans (exists_congr fun t => exists_congr fun v => ?_)
  refine and_congr Prefix.readLength_eq_ok ⟨?_, ?_⟩
  · intro h
    cases hfound : emplaceVariant value (kind.position v) with
    -- an index without an alternative is an error
    | error e =>
      rw [hfound] at h
      exact absurd (congrArg Prod.snd h) (by simp [fail])
    | ok found =>
      rw [hfound] at h
      obtain ⟨hposition, hvalue⟩ := emplaceVariantSwitch_ok hfound
      obtain ⟨t', a, ha, hpure⟩ := Decoder.bind_eq_ok.mp h
      rw [pure_eq] at hpure
      cases hpure
      exact ⟨hposition, hvalue ▸ ha⟩
  · rintro ⟨hposition, ha⟩
    rw [hposition, emplaceVariant_eq]
    exact Decoder.bind_eq_ok.mpr ⟨s', var.2, ha, rfl⟩

end

/-- An item is its id and what the id calls for. -/
theorem NetworkItemStackDescriptor.recognises_read (target : NetworkItemStackDescriptor) :
    Recognises target.read (Then IsSignedVarInt fun id rest item =>
      ∃ p, AfterId id.toInt16 rest p ∧ item = build target p) := by
  refine (fills_read target).congr fun bs item => ⟨?_, ?_⟩
  · rintro ⟨p, ⟨idText, rest, id, rfl, hid, hp⟩, rfl⟩
    exact ⟨idText, rest, id, rfl, hid, p, hp, rfl⟩
  · rintro ⟨idText, rest, id, rfl, hid, p, hp, rfl⟩
    exact ⟨p, ⟨idText, rest, id, rfl, hid, hp⟩, rfl⟩

/-- **Which discriminants are in range.** An index that `set` takes, if it is the one before the
casts or no alternative's; the index of a variant, the type of a packet and the id of an item that
are read, unless one that is out of range is followed by what it is cast to calls for. -/
theorem discriminant_in_range_iff (target : NetworkItemStackDescriptor) (input : Bytes) :
    (∀ {n : ℕ} [NeZero n] {T : Fin n → Type} (kind : VariantKind n) (t : Integral)
      (v : BitVec t.width)
      (value : ∀ i, T i),
      ((emplaceVariant value (kind.position v)).isOk = true → InRange n (t.value v)) ↔
        (kind.position v : ℤ) = t.value v ∨ n ≤ kind.position v) ∧
    (∀ {n : ℕ} [NeZero n] {T : Fin n → Type} (kind : VariantKind n) (before : Prefix) (value : ∀ i,
      T i)
      (visitor : ∀ i, T i → Reader (T i)) (s : ReadOnlyBinaryStream),
      (∀ s' var, readVariant kind before value visitor s = (s', .ok var) →
        ∀ t v, before.read s = (t, .ok v) → InRange n (before.value v)) ↔
      ¬ ∃ t v s' i a, before.read s = (t, .ok v) ∧ ¬ InRange n (before.value v) ∧
        kind.position v = ((i : Fin n) : ℕ) ∧ visitor i (value i) t = (s', .ok a)) ∧
    ((∀ t packet, InventoryTransactionPacket.read (ofBuffer input) = (t, .ok packet) →
        ∀ bs header rest, input = bs ++ rest → InventoryTransactionPacket.HeaderText bs header →
          header.transactionType.toNat < 5) ↔
      ¬ ∃ bs header body packet rest, input = bs ++ (body ++ rest) ∧
        InventoryTransactionPacket.HeaderText bs header ∧ ¬ header.transactionType.toNat < 5 ∧
        InventoryTransactionPacket.AfterHeader header body packet) ∧
    ((∀ t item, target.read (ofBuffer input) = (t, .ok item) →
        ∀ idText id rest, input = idText ++ rest → IsSignedVarInt idText id → IsShort id) ↔
      ¬ ∃ idText id fields item rest, input = idText ++ (fields ++ rest) ∧
        IsSignedVarInt idText id ∧
        ¬ IsShort id ∧ NetworkItemStackDescriptor.AfterId id.toInt16 fields item) := by
  refine ⟨fun kind t v value => ?_, fun kind before value visitor s => ⟨?_, ?_⟩, ?_, ?_⟩
  · rw [emplaceVariant_isOk]
    exact VariantKind.inRange_iff
  · -- the narrowed index finds the fields it calls for, so the variant is read
    rintro h ⟨t, v, s', i, a, hv, hrange, hposition, ha⟩
    exact hrange (h s' ⟨i, a⟩ (readVariant_eq_ok.mpr ⟨t, v, hv, hposition, ha⟩) t v hv)
  · intro h s' var hvar t v hv
    -- the index that was read is the one on the wire
    by_contra hrange
    obtain ⟨t', v', hv', hposition, ha⟩ := readVariant_eq_ok.mp hvar
    cases hv.symm.trans hv'
    exact h ⟨t, v, s', var.1, var.2, hv, hrange, hposition, ha⟩
  · exact InventoryTransactionPacket.recognises_readHeader.first_iff
      InventoryTransactionPacket.recognises_read
      ⟨rfl, Nat.zero_le _⟩ fun header => header.transactionType.toNat < 5
  · refine ((recognises_reader recognises_readVarInt).first_iff target.recognises_read
      (s := ofBuffer input) ⟨rfl, Nat.zero_le _⟩ IsShort).trans (not_congr ⟨?_, ?_⟩)
    · rintro ⟨idText, id, fields, _, rest, hinput, hid, hshort, p, hp, rfl⟩
      exact ⟨idText, id, fields, p, rest, hinput, hid, hshort, hp⟩
    · rintro ⟨idText, id, fields, p, rest, hinput, hid, hshort, hp⟩
      exact ⟨idText, id, fields, _, rest, hinput, hid, hshort, p, hp, rfl⟩

/-- The index 256 is taken for the first alternative, a packet with this type is read, and so is an
item with the id 65536. -/
theorem discriminant_narrowed :
    (emplaceVariant InventoryTransactionAlternative.value
      ((VariantKind.tagged InventoryTransactionType).position
        (t := Prefix.unsignedVarInt.toIntegral) 256)).isOk =
        true ∧
    (InventoryTransactionPacket.read (ofBuffer [0, 0, 1, 128, 2, 1, 0])).2.isOk = true ∧
    InventoryTransactionPacket.HeaderText [0, 0, 1, 128, 2] ⟨0, none, 256⟩ ∧
    (NetworkItemStackDescriptor.new.read (ofBuffer [128, 128, 8])).2.isOk = true ∧
    IsSignedVarInt [128, 128, 8] 65536 := by
  have htype : IsVarInt 16 5 [128, 2] (256 : UInt32).toNat :=
    .more (by decide) (.last (by decide) (by decide))
  have hnone : Accepts InventoryTransactionPacket.readSlots [0] none :=
    accepts_readOptional (x := none) (w := fun _ => []) fun _ h => nomatch h
  refine ⟨by decide +kernel, by decide +kernel, ?_, by decide +kernel, ?_⟩
  · exact ⟨[0], [0], [128, 2], 1, rfl, by decide, ⟨0, .last (by decide) (by decide), by decide⟩,
      hnone, htype⟩
  · exact ⟨131072, .more (by decide) (.more (by decide) (.last (by decide) (by decide))), by decide⟩

end SculkProtocol
