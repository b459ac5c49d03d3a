import SculkProtocol.Codec.Items

/-!
# Item use, in the legacy form

What a player does with an item, as it is sent inside of other packets. The source of an action
has a container or flags by its type; slots are sent only with a raw id that is even and below
-1. Several values are cast when they are read.

`received` is what arrives in a new object, and `Sendable` says of which values it arrives: the
index of a net id is not sent, so only the first kind of net id is sendable.
-/

namespace SculkProtocol

open Decoder BinaryStream ReadOnlyBinaryStream StreamRead

/-! ### Single readers -/

section

variable (v : UInt8) (n : Int32) (u : UInt32)

/-- A byte is accepted as it is written. -/
theorem accepts_byte : Accepts (StreamRead.reader readByte) (writeByte v) v :=
  accepts_reader (recognises_readByte.accepts rfl)

/-- So is a signed varint. -/
theorem accepts_varInt : Accepts (StreamRead.reader readVarInt) (writeVarInt n) n :=
  accepts_reader (recognises_readVarInt.accepts (isSignedVarInt_write n))

/-- So is a varint. -/
theorem accepts_unsignedVarInt :
    Accepts (StreamRead.reader readUnsignedVarInt) (writeUnsignedVarInt u) u :=
  accepts_reader (recognises_readUnsignedVarInt.accepts (isVarInt_writeUnsignedVarInt u))

/-- So is a float. -/
theorem accepts_float : Accepts (StreamRead.reader readFloat) (writeFloat u) u :=
  accepts_reader ((recognises_scalar Scalar.uint32).accepts rfl)

end

/-- An enumeration is accepted as its number is. -/
theorem accepts_enum {α : Type} {func : StreamRead α} {L : Bytes → α → Prop} {bs : Bytes} {a : α}
    (h : Recognises func L) (ha : L bs a) : Accepts (StreamRead.reader (readEnum func)) bs a :=
  accepts_reader ((recognises_readEnum h).accepts ha)

/-- A value that is cast is read back if the casts undo each other. -/
theorem accepts_cast {α γ : Type} {d : Reader α} {bs : Bytes} {a : α} {k : α → γ} {c : γ}
    (h : Accepts d bs a)
    (hk : k a = c) : Accepts (d.cast k) bs c := hk ▸ h.bind_pure

/-- A list of elements that arrive changed. -/
theorem accepts_newArray {α : Type} {value : α} {r : α → Reader α} {w : α → Bytes} {f : α → α}
    {xs : List α}
    (h : ∀ x ∈ xs, Accepts (r value) (w x) (f x)) (hlength : xs.length < 2 ^ 32) :
    Accepts (readUnsignedArray value r []) (writeArray Prefix.unsignedVarInt w xs) (xs.map f) := by
  have hfits : Prefix.unsignedVarInt.Fits xs.length := hlength
  refine (Prefix.unsignedVarInt.accepts_readLength _ _).bind ?_
  rw [hfits.toSize_cast]
  have hresize : Accepts (resize value xs.length []) [] (List.replicate xs.length value) := by
    have hresized :=
      @accepts_resize _ value xs.length [] (Nat.le_trans (Nat.le_of_lt hlength) (by decide))
    simpa using hresized
  refine hresize.bind (show Accepts _ (xs.flatMap w) _ from ?_)
  -- the elements that were made are read into one by one
  clear hresize hfits hlength
  induction xs with
  | nil => exact accepts_pure _
  | cons x xs ih =>
    have hfirst := h x List.mem_cons_self
    have hrest := ih fun y hy => h y (List.mem_cons_of_mem _ hy)
    exact hfirst.bind hrest.bind_pure

/-! ### Vectors -/

/-- Floating-point values are their bits. -/
structure Vec2 where
  mX : UInt32
  mY : UInt32

namespace Vec2

def write (v : Vec2) : Bytes := writeFloat v.mX ++ writeFloat v.mY

def read : Reader Vec2 := do
  let mX ← StreamRead.reader readFloat
  let mY ← StreamRead.reader readFloat
  pure ⟨mX, mY⟩

/-- A pair of floats is accepted as it is written. -/
theorem accepts (v : Vec2) : Accepts read v.write v :=
  (accepts_float _).bind (accepts_float _).bind_pure

end Vec2

structure Vec3 where
  mX : UInt32
  mY : UInt32
  mZ : UInt32

namespace Vec3

def write (v : Vec3) : Bytes := writeFloat v.mX ++ writeFloat v.mY ++ writeFloat v.mZ

def read : Reader Vec3 := do
  let mX ← StreamRead.reader readFloat
  let mY ← StreamRead.reader readFloat
  let mZ ← StreamRead.reader readFloat
  pure ⟨mX, mY, mZ⟩

/-- So are three of them. -/
theorem accepts (v : Vec3) : Accepts read v.write v := by
  rw [write, List.append_assoc]
  exact (accepts_float _).bind ((accepts_float _).bind (accepts_float _).bind_pure)

end Vec3

/-! ### Inventory actions -/

/-- `mType` is the value of its enumerator. -/
structure InventoryTransactionSource where
  mType : UInt32
  mContainerId : Option UInt8
  mBitFlags : Option UInt32

namespace InventoryTransactionSource

def new : InventoryTransactionSource := ⟨0, none, none⟩

/-- `ContainerInventory` or `NonImplementedFeatureTODO` -/
abbrev HasContainer (mType : UInt32) : Prop := mType = 0 ∨ mType = 99999

/-- `WorldInteraction` -/
abbrev HasFlags (mType : UInt32) : Prop := mType = 2

def writeLegacy (source : InventoryTransactionSource) : Bytes :=
  writeUnsignedVarInt source.mType ++
    if HasContainer source.mType then writeVarInt (source.mContainerId.getD 0).toUInt32.toInt32
    else if HasFlags source.mType then writeUnsignedVarInt (source.mBitFlags.getD 0)
    else []

def readLegacy (source : InventoryTransactionSource) : Reader InventoryTransactionSource := do
  let mType ← StreamRead.reader (readEnum readUnsignedVarInt)
  if HasContainer mType then do
    let containerId ← StreamRead.reader readVarInt
    pure { source with mType, mContainerId := some containerId.toUInt32.toUInt8 }
  else if HasFlags mType then do
    let mBitFlags ← StreamRead.reader readUnsignedVarInt
    pure { source with mType, mBitFlags := some mBitFlags }
  else pure { source with mType }

/-- The container and the flags are there exactly where the type has them. -/
structure Sendable (source : InventoryTransactionSource) : Prop where
  container : source.mContainerId.isSome ↔ HasContainer source.mType
  flags : source.mBitFlags.isSome ↔ HasFlags source.mType

/-- A source that may be sent is accepted. -/
theorem accepts {source : InventoryTransactionSource} (h : source.Sendable) :
    Accepts (readLegacy new) source.writeLegacy source := by
  obtain ⟨type, containerId, bitFlags⟩ := source
  obtain ⟨hcontainer, hflags⟩ := h
  refine (accepts_enum recognises_readUnsignedVarInt (isVarInt_writeUnsignedVarInt type)).bind ?_
  simp only at hcontainer hflags ⊢
  by_cases hhas : HasContainer type
  · -- no source has both a container and flags
    have hno : ¬ HasFlags type := by rcases hhas with rfl | rfl <;> decide
    obtain ⟨id, rfl⟩ := Option.isSome_iff_exists.mp (hcontainer.mpr hhas)
    obtain rfl : bitFlags = none := Option.not_isSome_iff_eq_none.mp fun h => hno (hflags.mp h)
    -- a container id is written as a number, and cut to a byte again
    have hcast : id.toUInt32.toInt32.toUInt32.toUInt8 = id := by simp
    rw [if_pos hhas, if_pos hhas]
    have hread := (accepts_varInt id.toUInt32.toInt32).bind_pure
      (g := fun containerId => (⟨type, some containerId.toUInt32.toUInt8,
        none⟩ : InventoryTransactionSource))
    rwa [hcast] at hread
  · obtain rfl : containerId = none :=
      Option.not_isSome_iff_eq_none.mp fun h => hhas (hcontainer.mp h)
    rw [if_neg hhas, if_neg hhas]
    by_cases hflag : HasFlags type
    · obtain ⟨flags, rfl⟩ := Option.isSome_iff_exists.mp (hflags.mpr hflag)
      rw [if_pos hflag, if_pos hflag]
      exact (accepts_unsignedVarInt flags).bind_pure
    · obtain rfl : bitFlags = none := Option.not_isSome_iff_eq_none.mp fun h => hflag (hflags.mp h)
      rw [if_neg hflag, if_neg hflag]
      exact accepts_pure _

end InventoryTransactionSource

structure InventoryTransactionAction where
  mSource : InventoryTransactionSource
  mSlot : UInt32
  mFromItem : NetworkItemStackDescriptor
  mToItem : NetworkItemStackDescriptor

namespace InventoryTransactionAction

def new : InventoryTransactionAction := ⟨.new, 0, .new, .new⟩

def writeLegacy (action : InventoryTransactionAction) : Bytes :=
  action.mSource.writeLegacy ++ writeUnsignedVarInt action.mSlot ++ action.mFromItem.write ++
  action.mToItem.write

def readLegacy (action : InventoryTransactionAction) : Reader InventoryTransactionAction := do
  let mSource ← InventoryTransactionSource.readLegacy action.mSource
  let mSlot ← StreamRead.reader readUnsignedVarInt
  let mFromItem ← NetworkItemStackDescriptor.read action.mFromItem
  let mToItem ← NetworkItemStackDescriptor.read action.mToItem
  pure ⟨mSource, mSlot, mFromItem, mToItem⟩

/-- What arrives in a new object. -/
def received (action : InventoryTransactionAction) : InventoryTransactionAction :=
  { action with mFromItem := action.mFromItem.received, mToItem := action.mToItem.received }

structure Sendable (action : InventoryTransactionAction) : Prop where
  source : action.mSource.Sendable
  fromItem : action.mFromItem.Sendable
  toItem : action.mToItem.Sendable

end InventoryTransactionAction

/-- A stack that may be sent is accepted as it is received. -/
theorem NetworkItemStackDescriptor.accepts_received {item : NetworkItemStackDescriptor}
    (h : item.Sendable) :
    Accepts (read new) item.write item.received := by
  rw [← write_received]
  exact (codec new).accepts h.fits rfl

/-- So is an action. -/
theorem InventoryTransactionAction.accepts_received {action : InventoryTransactionAction}
    (h : action.Sendable) :
    Accepts (readLegacy new) action.writeLegacy action.received := by
  rw [writeLegacy, List.append_assoc, List.append_assoc]
  exact (InventoryTransactionSource.accepts h.source).bind ((accepts_unsignedVarInt _).bind
    ((NetworkItemStackDescriptor.accepts_received h.fromItem).bind
      (NetworkItemStackDescriptor.accepts_received h.toItem).bind_pure))

structure InventoryTransaction where
  mActions : List InventoryTransactionAction

namespace InventoryTransaction

def writeLegacy (transaction : InventoryTransaction) : Bytes :=
  writeArray Prefix.unsignedVarInt InventoryTransactionAction.writeLegacy transaction.mActions

def readLegacy (transaction : InventoryTransaction) : Reader InventoryTransaction := do
  let mActions ← readUnsignedArray .new InventoryTransactionAction.readLegacy transaction.mActions
  pure ⟨mActions⟩

/-- What arrives in a new object. -/
def received (transaction : InventoryTransaction) : InventoryTransaction :=
  ⟨transaction.mActions.map InventoryTransactionAction.received⟩

structure Sendable (transaction : InventoryTransaction) : Prop where
  actions : transaction.mActions.length < 2 ^ 32
  action : ∀ action ∈ transaction.mActions, action.Sendable

/-- So is a transaction. -/
theorem accepts_received {transaction : InventoryTransaction} (h : transaction.Sendable) :
    Accepts (readLegacy ⟨[]⟩) transaction.writeLegacy transaction.received :=
  (accepts_newArray (fun action haction => InventoryTransactionAction.accepts_received
    (h.action action haction))
    h.actions).bind_pure

end InventoryTransaction

/-! ### Item use -/

/-- Enumerations are the values of their enumerators. -/
structure ItemUseInventoryTransaction where
  mTransaction : InventoryTransaction
  mActionType : UInt8
  mTriggerType : UInt8
  mPos : BlockPos
  mTargetBlockId : UInt32
  mFace : UInt8
  mSlot : Int32
  mItem : NetworkItemStackDescriptor
  mFromPos : Vec3
  mClickPos : Vec3
  mClientPredictedResult : UInt8
  mClientCooldownState : UInt8

namespace ItemUseInventoryTransaction

def new : ItemUseInventoryTransaction :=
  ⟨⟨[]⟩, 0, 0, ⟨0, 0, 0⟩, 0, 0, 0, .new, ⟨0, 0, 0⟩, ⟨0, 0, 0⟩, 0, 0⟩

def writeLegacy (use : ItemUseInventoryTransaction) : Bytes :=
  use.mTransaction.writeLegacy ++ writeUnsignedVarInt use.mActionType.toUInt32 ++
    writeUnsignedVarInt use.mTriggerType.toUInt32 ++ use.mPos.write ++
    writeVarInt use.mFace.toUInt32.toInt32 ++ writeVarInt use.mSlot ++ use.mItem.write ++
    use.mFromPos.write ++ use.mClickPos.write ++ writeUnsignedVarInt use.mTargetBlockId ++
    writeByte use.mClientPredictedResult ++ writeByte use.mClientCooldownState

/-- The enumerations and the face are cast to bytes. -/
def readLegacy (use : ItemUseInventoryTransaction) : Reader ItemUseInventoryTransaction := do
  let mTransaction ← InventoryTransaction.readLegacy use.mTransaction
  let mActionType ← (StreamRead.reader (readEnum readUnsignedVarInt)).cast UInt32.toUInt8
  let mTriggerType ← (StreamRead.reader (readEnum readUnsignedVarInt)).cast UInt32.toUInt8
  let mPos ← BlockPos.read
  let mFace ← (StreamRead.reader readVarInt).cast fun face => face.toUInt32.toUInt8
  let mSlot ← StreamRead.reader readVarInt
  let mItem ← NetworkItemStackDescriptor.read use.mItem
  let mFromPos ← Vec3.read
  let mClickPos ← Vec3.read
  let mTargetBlockId ← StreamRead.reader readUnsignedVarInt
  let mClientPredictedResult ← StreamRead.reader (readEnum readByte)
  let mClientCooldownState ← StreamRead.reader (readEnum readByte)
  pure ⟨mTransaction, mActionType, mTriggerType, mPos, mTargetBlockId, mFace, mSlot, mItem,
    mFromPos, mClickPos, mClientPredictedResult, mClientCooldownState⟩

/-- What arrives in a new object. -/
def received (use : ItemUseInventoryTransaction) : ItemUseInventoryTransaction :=
  { use with mTransaction := use.mTransaction.received, mItem := use.mItem.received }

structure Sendable (use : ItemUseInventoryTransaction) : Prop where
  transaction : use.mTransaction.Sendable
  item : use.mItem.Sendable

/-- So is the use of an item. -/
theorem accepts_received {use : ItemUseInventoryTransaction} (h : use.Sendable) :
    Accepts (readLegacy new) use.writeLegacy use.received := by
  have henum : ∀ v : UInt8,
    Accepts ((StreamRead.reader (readEnum readUnsignedVarInt)).cast UInt32.toUInt8)
      (writeUnsignedVarInt v.toUInt32) v := fun v =>
    accepts_cast (accepts_enum recognises_readUnsignedVarInt (isVarInt_writeUnsignedVarInt _))
      (by simp)
  have hbyte : ∀ v : UInt8, Accepts (StreamRead.reader (readEnum readByte)) (writeByte v) v :=
    fun v =>
    accepts_enum recognises_readByte rfl
  have hface : Accepts ((StreamRead.reader readVarInt).cast fun face => face.toUInt32.toUInt8)
      (writeVarInt use.mFace.toUInt32.toInt32) use.mFace :=
        accepts_cast (accepts_varInt _) (by simp)
  have hpos : Accepts BlockPos.read use.mPos.write use.mPos :=
    (BlockPos.codec (T := True)).accepts trivial rfl
  simp only [writeLegacy, List.append_assoc]
  exact (InventoryTransaction.accepts_received h.transaction).bind
    ((henum _).bind ((henum _).bind (hpos.bind
    (hface.bind ((accepts_varInt _).bind ((NetworkItemStackDescriptor.accepts_received h.item).bind
      ((Vec3.accepts _).bind ((Vec3.accepts _).bind ((accepts_unsignedVarInt _).bind
        ((hbyte _).bind (hbyte _).bind_pure))))))))))

end ItemUseInventoryTransaction

/-! ### With the slots of a legacy request -/

/-- `mContainerEnum` is the value of its enumerator. -/
structure LegacySetItemSlot where
  mContainerEnum : UInt8
  mSlots : List UInt8

namespace LegacySetItemSlot

def new : LegacySetItemSlot := ⟨0, []⟩

def write (slot : LegacySetItemSlot) : Bytes :=
  writeByte slot.mContainerEnum ++ writeArray Prefix.unsignedVarInt writeByte slot.mSlots

def read (slot : LegacySetItemSlot) : Reader LegacySetItemSlot := do
  let mContainerEnum ← StreamRead.reader (readEnum readByte)
  let mSlots ← readUnsignedArray 0 (fun _ => StreamRead.reader readByte) slot.mSlots
  pure ⟨mContainerEnum, mSlots⟩

/-- A slot is accepted as it is written. -/
theorem accepts {slot : LegacySetItemSlot} (h : slot.mSlots.length < 2 ^ 32) :
    Accepts (read new) slot.write slot := by
  have hslots :=
    @accepts_newArray _ 0 (fun _ => StreamRead.reader readByte) writeByte id slot.mSlots
    (fun v _ => accepts_byte v) h
  rw [List.map_id] at hslots
  exact (accepts_enum recognises_readByte rfl).bind hslots.bind_pure

end LegacySetItemSlot

structure PackedItemUseLegacyInventoryTransaction where
  mLegacyRequestRawId : Int32
  mLegacySetItemSlots : List LegacySetItemSlot
  mItemUseTransaction : ItemUseInventoryTransaction

namespace PackedItemUseLegacyInventoryTransaction

def new : PackedItemUseLegacyInventoryTransaction := ⟨0, [], .new⟩

/-- Slots are sent with this id. -/
abbrev HasSlots (mLegacyRequestRawId : Int32) : Prop :=
  mLegacyRequestRawId < -1 ∧ mLegacyRequestRawId &&& 1 = 0

def write (packed : PackedItemUseLegacyInventoryTransaction) : Bytes :=
  writeVarInt packed.mLegacyRequestRawId ++
    (if HasSlots packed.mLegacyRequestRawId then
      writeArray Prefix.unsignedVarInt LegacySetItemSlot.write packed.mLegacySetItemSlots
    else []) ++
    packed.mItemUseTransaction.writeLegacy

/-- Without slots the object keeps those it has. -/
def read (packed : PackedItemUseLegacyInventoryTransaction) :
    Reader PackedItemUseLegacyInventoryTransaction := do
  let mLegacyRequestRawId ← StreamRead.reader readVarInt
  let mLegacySetItemSlots ← readIf (HasSlots mLegacyRequestRawId)
    (readUnsignedArray .new LegacySetItemSlot.read packed.mLegacySetItemSlots)
      packed.mLegacySetItemSlots
  let mItemUseTransaction ← ItemUseInventoryTransaction.readLegacy packed.mItemUseTransaction
  pure ⟨mLegacyRequestRawId, mLegacySetItemSlots, mItemUseTransaction⟩

/-- What arrives in a new object. -/
def received (packed : PackedItemUseLegacyInventoryTransaction) :
    PackedItemUseLegacyInventoryTransaction :=
  ⟨packed.mLegacyRequestRawId,
    if HasSlots packed.mLegacyRequestRawId then packed.mLegacySetItemSlots else [],
    packed.mItemUseTransaction.received⟩

structure Sendable (packed : PackedItemUseLegacyInventoryTransaction) : Prop where
  slots : HasSlots packed.mLegacyRequestRawId → packed.mLegacySetItemSlots.length < 2 ^ 32 ∧
    ∀ slot ∈ packed.mLegacySetItemSlots, slot.mSlots.length < 2 ^ 32
  use : packed.mItemUseTransaction.Sendable

/-- A packed use of an item is accepted as it is received. -/
theorem accepts_received {packed : PackedItemUseLegacyInventoryTransaction} (h : packed.Sendable) :
    Accepts (read new) packed.write packed.received := by
  have hslots : HasSlots packed.mLegacyRequestRawId →
    Accepts (readUnsignedArray .new LegacySetItemSlot.read [])
      (writeArray Prefix.unsignedVarInt LegacySetItemSlot.write packed.mLegacySetItemSlots)
      packed.mLegacySetItemSlots := by
    intro hhas
    obtain ⟨hlength, hall⟩ := h.slots hhas
    have hread :=
      accepts_newArray (f := id) (fun slot hslot => LegacySetItemSlot.accepts (hall slot hslot))
        hlength
    rwa [List.map_id] at hread
  rw [write, List.append_assoc]
  exact (accepts_varInt _).bind ((accepts_readIf hslots).bind
    (ItemUseInventoryTransaction.accepts_received h.use).bind_pure)

end PackedItemUseLegacyInventoryTransaction

end SculkProtocol
