import SculkProtocol.Codec.Items

/-!
# Item stack requests

A request is a list of actions, and an action is a type with one of fourteen alternatives. The
writer goes by the alternative and the reader by the type, so the alternative has to be the one
that is read for the type.

`MineBlock` has a net id that is not written when it is 0, but always read: what follows it is
then read from one byte too far on. `reads_back_iff` says which requests come back.
-/

namespace SculkProtocol

open Decoder BinaryStream ReadOnlyBinaryStream StreamRead

variable {T : Prop}

/-! ### Slots -/

/-- `mContainerEnumName` is the value of its enumerator. -/
structure FullContainerName where
  mContainerEnumName : UInt8
  mDynamicId : Option UInt32

namespace FullContainerName

def write (name : FullContainerName) : Bytes :=
  writeByte name.mContainerEnumName ++ writeOptional writeUnsignedInt name.mDynamicId

def read : Reader FullContainerName := do
  let mContainerEnumName ← StreamRead.reader (readEnum readByte)
  let mDynamicId ← readOptional 0 fun _ => StreamRead.reader readUnsignedInt
  pure ⟨mContainerEnumName, mDynamicId⟩

/-- An action is read back but for what it misses. -/
theorem codec : WireCodec T read write (fun _ => True) fun _ => 0 := by
  refine (WireCodec.bind (Q := fun _ => True) (g := mContainerEnumName)
    (codec_readEnum codec_readByte).reader
    fun _ _ =>
      WireCodec.bind (g := mDynamicId) (codec_readOptional (codec_scalar Scalar.uint32).reader)
    fun _ _ => WireCodec.pure fun name => by cases name; grind).congr ?_ ?_ ?_
  · simp
  · intro name _
    rw [List.append_nil]
    rfl
  · intro name _
    cases name.mDynamicId <;> rfl

end FullContainerName

structure ItemStackRequestSlotInfo where
  mFullContainerName : FullContainerName
  mSlot : UInt8
  mNetId : Int32

namespace ItemStackRequestSlotInfo

def new : ItemStackRequestSlotInfo := ⟨⟨0, none⟩, 0, 0⟩

def write (info : ItemStackRequestSlotInfo) : Bytes :=
  info.mFullContainerName.write ++ writeByte info.mSlot ++ writeVarInt info.mNetId

def read : Reader ItemStackRequestSlotInfo := do
  let mFullContainerName ← FullContainerName.read
  let mSlot ← StreamRead.reader readByte
  let mNetId ← StreamRead.reader readVarInt
  pure ⟨mFullContainerName, mSlot, mNetId⟩

/-- So are the data of a request. -/
theorem codec : WireCodec T read write (fun _ => True) fun _ => 0 := by
  refine (WireCodec.bind (Q := fun _ => True) (g := mFullContainerName)
      FullContainerName.codec fun _ _ =>
    WireCodec.bind (g := mSlot) codec_readByte.reader fun _ _ =>
    WireCodec.bind (g := mNetId) codec_readVarInt.reader fun _ _ =>
    WireCodec.pure fun info => by cases info; grind).congr ?_ ?_ ?_
  · simp
  · simp [write]
  · simp

end ItemStackRequestSlotInfo

/-! ### The alternatives of an action -/

structure TransferBase where
  mAmount : UInt8
  mSource : ItemStackRequestSlotInfo
  mDestination : ItemStackRequestSlotInfo

structure Swap where
  mSource : ItemStackRequestSlotInfo
  mDestination : ItemStackRequestSlotInfo

structure Drop where
  mAmount : UInt8
  mSource : ItemStackRequestSlotInfo
  mRandomly : Bool

structure DestroyConsume where
  mAmount : UInt8
  mSource : ItemStackRequestSlotInfo

structure Create where
  mResultsIndex : UInt8

structure BeaconPayment where
  mPrimaryEffectId : Int32
  mSecondaryEffectId : Int32

inductive PreValidationStatus
  | Valid
  | Invalid
  deriving DecidableEq

structure MineBlock where
  mSlot : Int32
  mPredictedDurability : Int32
  mItemStackNetId : Int32
  mPreValidationStatus : PreValidationStatus

structure CraftRecipe where
  mRecipeNetworkIdOrCreativeId : UInt32
  mTimesCrafted : UInt32

structure CraftRecipeAuto where
  mRecipeNetworkId : UInt32
  mNumberOfRequestedCrafts : UInt8
  mTimesCrafted : UInt8
  mIngredients : List RecipeIngredient

structure CraftRecipeOptional where
  mRecipeNetId : UInt32
  mFilteredStringIndex : UInt32

structure CraftGrindStone where
  mItemStackNetId : UInt32
  mTimesCrafted : UInt8
  mRepairCost : Int32

structure CraftLoom where
  mPatternNameId : Bytes
  mTimesCrafted : UInt8

structure CraftResult where
  mCraftResults : List NetworkItemInstanceDescriptor
  mTimesCrafted : UInt8

structure OnlyType

/-- The alternatives of `ItemStackRequestAction::Variant` -/
def ActionAlternative : Fin 14 → Type
  | 0 => TransferBase
  | 1 => Swap
  | 2 => Drop
  | 3 => DestroyConsume
  | 4 => Create
  | 5 => BeaconPayment
  | 6 => MineBlock
  | 7 => CraftRecipe
  | 8 => CraftRecipeAuto
  | 9 => CraftRecipeOptional
  | 10 => CraftGrindStone
  | 11 => CraftLoom
  | 12 => CraftResult
  | 13 => OnlyType

namespace ActionAlternative

/-- The overloads that `ItemStackRequestAction::write` visits the alternatives with. -/
def write : ∀ i, ActionAlternative i → Bytes
  | 0, (data : TransferBase) => writeByte data.mAmount ++ data.mSource.write ++
      data.mDestination.write
  | 1, (data : Swap) => data.mSource.write ++ data.mDestination.write
  | 2, (data : Drop) => writeByte data.mAmount ++ data.mSource.write ++ writeBool data.mRandomly
  | 3, (data : DestroyConsume) => writeByte data.mAmount ++ data.mSource.write
  | 4, (data : Create) => writeByte data.mResultsIndex
  | 5, (data : BeaconPayment) => writeVarInt data.mPrimaryEffectId ++
      writeVarInt data.mSecondaryEffectId
  | 6, (data : MineBlock) =>
    writeVarInt data.mSlot ++ writeVarInt data.mPredictedDurability ++
      if data.mPreValidationStatus = .Valid ∧
        data.mItemStackNetId ≠ 0 then writeVarInt data.mItemStackNetId else []
  | 7, (data : CraftRecipe) =>
    writeUnsignedVarInt data.mRecipeNetworkIdOrCreativeId ++ writeUnsignedVarInt data.mTimesCrafted
  | 8, (data : CraftRecipeAuto) =>
    writeUnsignedVarInt data.mRecipeNetworkId ++ writeByte data.mNumberOfRequestedCrafts ++
      writeByte data.mTimesCrafted ++
      writeArray Prefix.byte RecipeIngredient.write data.mIngredients
  | 9, (data : CraftRecipeOptional) =>
    writeUnsignedVarInt data.mRecipeNetId ++ writeUnsignedInt data.mFilteredStringIndex
  | 10, (data : CraftGrindStone) =>
    writeUnsignedVarInt data.mItemStackNetId ++ writeByte data.mTimesCrafted ++
    writeVarInt data.mRepairCost
  | 11, (data : CraftLoom) => writeString data.mPatternNameId ++ writeByte data.mTimesCrafted
  | 12, (data : CraftResult) =>
    writeArray Prefix.unsignedVarInt NetworkItemInstanceDescriptor.write data.mCraftResults ++
      writeByte data.mTimesCrafted
  | 13, (_ : OnlyType) => []

/-- The cases of `ItemStackRequestAction::read` by the alternative that they make. -/
def read : ∀ i, Reader (ActionAlternative i)
  | 0 => do
    let mAmount ← StreamRead.reader readByte
    let mSource ← ItemStackRequestSlotInfo.read
    let mDestination ← ItemStackRequestSlotInfo.read
    pure (⟨mAmount, mSource, mDestination⟩ : TransferBase)
  | 1 => do
    let mSource ← ItemStackRequestSlotInfo.read
    let mDestination ← ItemStackRequestSlotInfo.read
    pure (⟨mSource, mDestination⟩ : Swap)
  | 2 => do
    let mAmount ← StreamRead.reader readByte
    let mSource ← ItemStackRequestSlotInfo.read
    let mRandomly ← StreamRead.reader readBool
    pure (⟨mAmount, mSource, mRandomly⟩ : Drop)
  | 3 => do
    let mAmount ← StreamRead.reader readByte
    let mSource ← ItemStackRequestSlotInfo.read
    pure (⟨mAmount, mSource⟩ : DestroyConsume)
  | 4 => do
    let mResultsIndex ← StreamRead.reader readByte
    pure (⟨mResultsIndex⟩ : Create)
  | 5 => do
    let mPrimaryEffectId ← StreamRead.reader readVarInt
    let mSecondaryEffectId ← StreamRead.reader readVarInt
    pure (⟨mPrimaryEffectId, mSecondaryEffectId⟩ : BeaconPayment)
  | 6 => do
    let mSlot ← StreamRead.reader readVarInt
    let mPredictedDurability ← StreamRead.reader readVarInt
    -- the net id is read always, and written of a valid block only
    let mItemStackNetId ← StreamRead.reader readVarInt
    let mPreValidationStatus : PreValidationStatus :=
      if mItemStackNetId = 0 then .Invalid else .Valid
    pure (⟨mSlot, mPredictedDurability, mItemStackNetId, mPreValidationStatus⟩ : MineBlock)
  | 7 => do
    let mRecipeNetworkIdOrCreativeId ← StreamRead.reader readUnsignedVarInt
    let mTimesCrafted ← StreamRead.reader readUnsignedVarInt
    pure (⟨mRecipeNetworkIdOrCreativeId, mTimesCrafted⟩ : CraftRecipe)
  | 8 => do
    let mRecipeNetworkId ← StreamRead.reader readUnsignedVarInt
    let mNumberOfRequestedCrafts ← StreamRead.reader readByte
    let mTimesCrafted ← StreamRead.reader readByte
    let mIngredients ← readArray Prefix.byte RecipeIngredient.new
      (fun _ => RecipeIngredient.read) []
    pure (⟨mRecipeNetworkId, mNumberOfRequestedCrafts, mTimesCrafted, mIngredients⟩ :
      CraftRecipeAuto)
  | 9 => do
    let mRecipeNetId ← StreamRead.reader readUnsignedVarInt
    let mFilteredStringIndex ← StreamRead.reader readUnsignedInt
    pure (⟨mRecipeNetId, mFilteredStringIndex⟩ : CraftRecipeOptional)
  | 10 => do
    let mItemStackNetId ← StreamRead.reader readUnsignedVarInt
    let mTimesCrafted ← StreamRead.reader readByte
    let mRepairCost ← StreamRead.reader readVarInt
    pure (⟨mItemStackNetId, mTimesCrafted, mRepairCost⟩ : CraftGrindStone)
  | 11 => do
    let mPatternNameId ← StreamRead.reader readString
    let mTimesCrafted ← StreamRead.reader readByte
    pure (⟨mPatternNameId, mTimesCrafted⟩ : CraftLoom)
  | 12 => do
    let mCraftResults ← readUnsignedArray NetworkItemInstanceDescriptor.new
      NetworkItemInstanceDescriptor.read []
    let mTimesCrafted ← StreamRead.reader readByte
    pure (⟨mCraftResults, mTimesCrafted⟩ : CraftResult)
  | 13 => pure (⟨⟩ : OnlyType)

/-- Sizes that fit, ingredients and items that come back, and the status that goes with the net
id. -/
def Fits : ∀ i, ActionAlternative i → Prop
  | 6, (data : MineBlock) => data.mPreValidationStatus = .Valid ↔ data.mItemStackNetId ≠ 0
  | 8, (data : CraftRecipeAuto) => data.mIngredients.length ≤ 255 ∧
      ∀ ingredient ∈ data.mIngredients, ingredient.Fits
  | 11, (data : CraftLoom) => data.mPatternNameId.length < 2 ^ 32
  | 12, (data : CraftResult) => data.mCraftResults.length < 2 ^ 32 ∧
    ∀ item ∈ data.mCraftResults, NetworkItemInstanceDescriptor.Fits .new item
  | 0, _ | 1, _ | 2, _ | 3, _ | 4, _ | 5, _ | 7, _ | 9, _ | 10, _ | 13, _ => True

/-- The net ids that are read but not written. -/
def missing : ∀ i, ActionAlternative i → ℕ
  | 6, (data : MineBlock) => if data.mItemStackNetId = 0 then 1 else 0
  | 0, _ | 1, _ | 2, _ | 3, _ | 4, _ | 5, _ | 7, _ | 8, _ | 9, _ | 10, _ | 11, _ | 12, _ | 13, _ =>
    0

/-- The action of mining a block is read back but for its net id. -/
theorem codec_mineBlock : WireCodec T (read 6) (write 6) (Fits 6) (missing 6) := by
  refine WireCodec.leaveOut (w := fun data : MineBlock => writeVarInt data.mSlot ++
      (writeVarInt data.mPredictedDurability ++ (writeVarInt data.mItemStackNetId ++ [])))
        (u := fun _ => 0)
    ((WireCodec.bind (Q := Fits 6) (g := MineBlock.mSlot) codec_readVarInt.reader fun _ _ =>
      WireCodec.bind (g := MineBlock.mPredictedDurability) codec_readVarInt.reader fun _ _ =>
      WireCodec.bind (g := MineBlock.mItemStackNetId) codec_readVarInt.reader fun _ _ =>
      WireCodec.pure fun (data : MineBlock) => ?_).congr ?_ (fun _ _ => rfl) fun _ _ => rfl) ?_ ?_
  · obtain ⟨slot, durability, id, status⟩ := data
    simp only [Fits, MineBlock.mk.injEq]
    cases status <;> grind
  · simp
  · -- nothing is missing, so the net id is written
    intro data hdata hzero
    obtain ⟨slot, durability, id, status⟩ := data
    have hid : id ≠ 0 := by
      intro hid
      exact absurd hzero (by rw [missing, if_pos hid]; exact Nat.one_ne_zero)
    have hstatus : status = .Valid := hdata.mpr hid
    simp [write, hid, hstatus]
  · intro data hdata
    obtain ⟨slot, durability, id, status⟩ := data
    -- a net id of 0 is read and not written: the text lacks its byte
    by_cases hid : id = 0
    · subst hid
      have hzero : (writeVarInt 0).length = 1 := rfl
      have habsent : ¬(status = .Valid ∧ (0 : Int32) ≠ 0) := fun h => h.2 rfl
      simp only [write, missing, if_neg habsent, if_true, List.append_nil, List.length_append,
        hzero]
      omega
    · have hstatus : status = .Valid := hdata.mpr hid
      simp [write, missing, hid, hstatus]

/-- So is the packet. -/
theorem codec : ∀ i, WireCodec T (read i) (write i) (Fits i) (missing i)
  | 0 =>
    (WireCodec.bind (Q := fun _ => True) (g := TransferBase.mAmount)
      codec_readByte.reader fun _ _ =>
      WireCodec.bind (g := TransferBase.mSource) ItemStackRequestSlotInfo.codec fun _ _ =>
      WireCodec.bind (g := TransferBase.mDestination) ItemStackRequestSlotInfo.codec fun _ _ =>
      WireCodec.pure fun (data : TransferBase) => by cases data; grind).congr
      (fun _ => by simp [Fits]) (fun _ _ => by simp [write]) fun _ _ => rfl
  | 1 => (WireCodec.bind (Q := fun _ => True) (g := Swap.mSource)
      ItemStackRequestSlotInfo.codec fun _ _ =>
      WireCodec.bind (g := Swap.mDestination) ItemStackRequestSlotInfo.codec fun _ _ =>
      WireCodec.pure fun (data : Swap) => by cases data; grind).congr
      (fun _ => by simp [Fits]) (fun _ _ => by simp [write]) fun _ _ => rfl
  | 2 => (WireCodec.bind (Q := fun _ => True) (g := Drop.mAmount) codec_readByte.reader fun _ _ =>
      WireCodec.bind (g := Drop.mSource) ItemStackRequestSlotInfo.codec fun _ _ =>
      WireCodec.bind (g := Drop.mRandomly) codec_readBool.reader fun _ _ =>
      WireCodec.pure fun (data : Drop) => by cases data; grind).congr
      (fun _ => by simp [Fits]) (fun _ _ => by simp [write]) fun _ _ => rfl
  | 3 => (WireCodec.bind (Q := fun _ => True) (g := DestroyConsume.mAmount)
      codec_readByte.reader fun _ _ =>
      WireCodec.bind (g := DestroyConsume.mSource) ItemStackRequestSlotInfo.codec fun _ _ =>
      WireCodec.pure fun (data : DestroyConsume) => by cases data; grind).congr
      (fun _ => by simp [Fits]) (fun _ _ => by simp [write]) fun _ _ => rfl
  | 4 => (WireCodec.bind_pure (γ := Create) (g := Create.mResultsIndex) codec_readByte.reader
      fun data _ => by cases data; grind)
  | 5 =>
    (WireCodec.bind (Q := fun _ => True) (g := BeaconPayment.mPrimaryEffectId)
      codec_readVarInt.reader
      fun _ _ =>
      WireCodec.bind (g := BeaconPayment.mSecondaryEffectId) codec_readVarInt.reader fun _ _ =>
      WireCodec.pure fun (data : BeaconPayment) => by cases data; grind).congr
      (fun _ => by simp [Fits]) (fun _ _ => by simp [write]) fun _ _ => rfl
  | 6 => codec_mineBlock
  | 7 => (WireCodec.bind (Q := fun _ => True) (g := CraftRecipe.mRecipeNetworkIdOrCreativeId)
      codec_readUnsignedVarInt.reader fun _ _ =>
      WireCodec.bind (g := CraftRecipe.mTimesCrafted) codec_readUnsignedVarInt.reader fun _ _ =>
      WireCodec.pure fun (data : CraftRecipe) => by cases data; grind).congr
      (fun _ => by simp [Fits]) (fun _ _ => by simp [write]) fun _ _ => rfl
  | 8 => (WireCodec.bind (Q := fun _ => True) (g := CraftRecipeAuto.mRecipeNetworkId)
      codec_readUnsignedVarInt.reader fun _ _ =>
      WireCodec.bind (g := CraftRecipeAuto.mNumberOfRequestedCrafts)
          codec_readByte.reader fun _ _ =>
      WireCodec.bind (g := CraftRecipeAuto.mTimesCrafted) codec_readByte.reader fun _ _ =>
      WireCodec.bind (g := CraftRecipeAuto.mIngredients)
        (codec_readArray codec_byte fun _ _ => RecipeIngredient.codec) fun _ _ =>
      WireCodec.pure fun (data : CraftRecipeAuto) => by cases data; grind).congr
      (fun data => by
        have hbyte : Prefix.byte.Fits data.mIngredients.length ↔ data.mIngredients.length < 2 ^ 8 :=
          Iff.rfl
        simp only [Fits, hbyte, maxSize, true_and, and_true]
        constructor
        · rintro ⟨hlength, -, hall⟩
          exact ⟨Nat.le_of_lt_succ hlength, hall⟩
        · rintro ⟨hlength, hall⟩
          exact ⟨Nat.lt_succ_of_le hlength, Nat.le_trans hlength (by decide), hall⟩)
      (fun _ _ => by simp [write]) fun _ _ => by simp [missing]
  | 9 => (WireCodec.bind (Q := fun _ => True) (g := CraftRecipeOptional.mRecipeNetId)
      codec_readUnsignedVarInt.reader fun _ _ =>
      WireCodec.bind (g := CraftRecipeOptional.mFilteredStringIndex)
          (codec_scalar Scalar.uint32).reader fun _ _ =>
      WireCodec.pure fun (data : CraftRecipeOptional) => by cases data; grind).congr
      (fun _ => by simp [Fits]) (fun _ _ => by simp [write, writeUnsignedInt]) fun _ _ => rfl
  | 10 => (WireCodec.bind (Q := fun _ => True) (g := CraftGrindStone.mItemStackNetId)
      codec_readUnsignedVarInt.reader fun _ _ =>
      WireCodec.bind (g := CraftGrindStone.mTimesCrafted) codec_readByte.reader fun _ _ =>
      WireCodec.bind (g := CraftGrindStone.mRepairCost) codec_readVarInt.reader fun _ _ =>
      WireCodec.pure fun (data : CraftGrindStone) => by cases data; grind).congr
      (fun _ => by simp [Fits]) (fun _ _ => by simp [write]) fun _ _ => rfl
  | 11 =>
    (WireCodec.bind (Q := fun _ => True) (g := CraftLoom.mPatternNameId)
        codec_readString.reader fun _ _ =>
      WireCodec.bind (g := CraftLoom.mTimesCrafted) codec_readByte.reader fun _ _ =>
      WireCodec.pure fun (data : CraftLoom) => by cases data; grind).congr
      (fun _ => by simp [Fits]) (fun _ _ => by simp [write]) fun _ _ => rfl
  | 12 => (WireCodec.bind (Q := fun _ => True) (g := CraftResult.mCraftResults)
      (codec_newArray (NetworkItemInstanceDescriptor.codec .new)) fun _ _ =>
      WireCodec.bind (g := CraftResult.mTimesCrafted) codec_readByte.reader fun _ _ =>
      WireCodec.pure fun (data : CraftResult) => by cases data; grind).congr
      (fun _ => by simp [Fits]) (fun _ _ => by simp [write]) fun _ _ => rfl
  | 13 => (WireCodec.pure (γ := OnlyType) (Q := fun _ => True) fun _ => by simp).congr
      (fun _ => by rw [and_true]; rfl) (fun _ _ => rfl) fun _ _ => rfl

/-- An ingredient or an item has only what is written of it, a size fits its prefix, and
`MineBlock` has a net id. -/
def Transmitted : ∀ i, ActionAlternative i → Prop
  | 6, (data : MineBlock) => data.mItemStackNetId ≠ 0
  | 8, (data : CraftRecipeAuto) => ∀ ingredient ∈ data.mIngredients, ingredient.Fits
  | 11, (data : CraftLoom) => data.mPatternNameId.length < 2 ^ 32
  | 12, (data : CraftResult) => data.mCraftResults.length < 2 ^ 32 ∧
    ∀ item ∈ data.mCraftResults, NetworkItemInstanceDescriptor.Fits .new item
  | 0, _ | 1, _ | 2, _ | 3, _ | 4, _ | 5, _ | 7, _ | 9, _ | 10, _ | 13, _ => True

/-- What arrives. -/
def received : ∀ i, ActionAlternative i → ActionAlternative i
  | 8, (data : CraftRecipeAuto) =>
    ({ data with mIngredients := data.mIngredients.map RecipeIngredient.received } :
      CraftRecipeAuto)
  | 12, (data : CraftResult) =>
    ({ data with mCraftResults := data.mCraftResults.map NetworkItemInstanceDescriptor.received } :
      CraftResult)
  | 0, data | 1, data | 2, data | 3, data | 4, data | 5, data | 6, data | 7, data | 9, data
  | 10, data | 11, data
  | 13, data => data

/-- No `MineBlock`, and sizes that fit. -/
def Sendable : ∀ i, ActionAlternative i → Prop
  | 6, _ => False
  | 8, (data : CraftRecipeAuto) =>
    data.mIngredients.length ≤ 255 ∧ ∀ ingredient ∈ data.mIngredients, ingredient.Sendable
  | 11, (data : CraftLoom) => data.mPatternNameId.length < 2 ^ 32
  | 12, (data : CraftResult) => data.mCraftResults.length < 2 ^ 32 ∧ ∀ item ∈ data.mCraftResults,
      item.Sendable
  | 0, _ | 1, _ | 2, _ | 3, _ | 4, _ | 5, _ | 7, _ | 9, _ | 10, _ | 13, _ => True

/-- Data that are received are written as those that were sent. -/
theorem write_received : ∀ i data, write i (received i data) = write i data
  | 8, (data : CraftRecipeAuto) => by
    simp [write, received, writeArray_map RecipeIngredient.write_received]
  | 12, (data : CraftResult) => by
    simp [write, received, writeArray_map NetworkItemInstanceDescriptor.write_received]
  | 0, _ | 1, _ | 2, _ | 3, _ | 4, _ | 5, _ | 6, _ | 7, _ | 9, _ | 10, _ | 11, _ | 13, _ => rfl

/-- What is received of data that may be sent fits, and misses nothing. -/
theorem Sendable.fits :
    ∀ {i data}, Sendable i data → Fits i (received i data) ∧ missing i (received i data) = 0
  | 8, (data : CraftRecipeAuto), h => by
    refine ⟨⟨le_of_eq_of_le (List.length_map RecipeIngredient.received) h.1,
      fun ingredient hingredient => ?_⟩, rfl⟩
    obtain ⟨ingredient, hmem, rfl⟩ := List.mem_map.mp hingredient
    exact (h.2 ingredient hmem).fits
  | 11, (data : CraftLoom), h => ⟨h, rfl⟩
  | 12, (data : CraftResult), h => by
    refine ⟨⟨lt_of_eq_of_lt (List.length_map NetworkItemInstanceDescriptor.received) h.1,
      fun item hitem => ?_⟩, rfl⟩
    obtain ⟨item, hmem, rfl⟩ := List.mem_map.mp hitem
    exact (h.2 item hmem).fits
  | 0, _, _ | 1, _, _ | 2, _, _ | 3, _, _ | 4, _, _ | 5, _, _ | 7, _, _ | 9, _, _ | 10, _, _
  | 13, _, _ =>
    ⟨trivial, rfl⟩

end ActionAlternative

/-! ### Actions -/

/-- `mActionType` is the value of its enumerator. -/
structure ItemStackRequestAction where
  mActionType : UInt8
  mVariant : Variant ActionAlternative

namespace ItemStackRequestAction

def new : ItemStackRequestAction := ⟨0, 0, (⟨0, .new, .new⟩ : TransferBase)⟩

/-- The alternative that is made for a type. -/
def alternative (mActionType : UInt8) : Fin 14 :=
  match mActionType with
  | 0 | 1 => 0 -- Take, Place
  | 2 => 1 -- Swap
  | 3 => 2 -- Drop
  | 4 | 5 => 3 -- Destroy, Consume
  | 6 => 4 -- Create
  | 10 => 5 -- BeaconPayment
  | 11 => 6 -- MineBlock
  | 12 | 14 => 7 -- CraftRecipe, CraftCreative
  | 13 => 8 -- CraftRecipeAuto
  | 15 => 9 -- CraftRecipeOptional
  | 16 => 10 -- CraftGrindStone
  | 17 => 11 -- CraftLoom
  | 19 => 12 -- CraftResults
  | _ => 13

def write (action : ItemStackRequestAction) : Bytes :=
  writeByte action.mActionType ++ ActionAlternative.write action.mVariant.1 action.mVariant.2

def read : Reader ItemStackRequestAction := do
  let mActionType ← StreamRead.reader (readEnum readByte)
  let data ← ActionAlternative.read (alternative mActionType)
  pure ⟨mActionType, alternative mActionType, data⟩

def Fits (action : ItemStackRequestAction) : Prop :=
  action.mVariant.1 = alternative action.mActionType ∧
    ActionAlternative.Fits action.mVariant.1 action.mVariant.2

def missing (action : ItemStackRequestAction) : ℕ :=
  ActionAlternative.missing action.mVariant.1 action.mVariant.2

theorem codec : WireCodec T read write Fits missing := by
  refine (WireCodec.bind (Q := fun _ => True) (g := mActionType) (R := Fits) (n := missing)
    (v := fun action => ActionAlternative.write action.mVariant.1 action.mVariant.2)
    (codec_readEnum codec_readByte).reader fun type _ => ?_).congr ?_ (fun _ _ => rfl) fun _ _ =>
      Nat.zero_add _
  · refine (ActionAlternative.codec (alternative type)).inj
      (k := fun data => (⟨type, alternative type, data⟩ : ItemStackRequestAction)) (fun _ => rfl)
        (fun _ => rfl)
      fun action => ⟨?_, ?_⟩
    · obtain ⟨type', i, data⟩ := action
      -- the alternative has to be that of the type
      rintro ⟨⟨rfl, -⟩, halternative, hfits⟩
      change i = alternative type' at halternative
      subst halternative
      exact ⟨data, rfl, hfits⟩
    · rintro ⟨data, rfl, hfits⟩
      exact ⟨⟨rfl, trivial⟩, rfl, hfits⟩
  · exact fun action => by rw [true_and, true_and]

/-- The alternative is the one of the type, there are at most 255 ingredients, and the status of
`MineBlock` goes with its net id. -/
structure WellFormed (action : ItemStackRequestAction) : Prop where
  alternative : action.mVariant.1 = alternative action.mActionType
  ingredients : ∀ data : CraftRecipeAuto, action.mVariant = ⟨8, data⟩ →
    data.mIngredients.length ≤ 255
  status : ∀ data : MineBlock, action.mVariant = ⟨6, data⟩ →
    (data.mPreValidationStatus = .Valid ↔ data.mItemStackNetId ≠ 0)

def Transmitted (action : ItemStackRequestAction) : Prop :=
  ActionAlternative.Transmitted action.mVariant.1 action.mVariant.2

/-- An action is transmitted exactly if it fits and misses nothing. -/
theorem transmitted_iff {action : ItemStackRequestAction} (h : action.WellFormed) :
    action.Fits ∧ action.missing = 0 ↔ action.Transmitted := by
  obtain ⟨type, i, data⟩ := action
  have halternative : i = alternative type := h.alternative
  rw [Fits, and_iff_right halternative, missing, Transmitted]
  match i, data with
  | 6, (data : MineBlock) =>
    have hstatus := h.status data rfl
    simp only [ActionAlternative.Fits, ActionAlternative.missing, ActionAlternative.Transmitted]
    rw [and_iff_right hstatus]
    exact ite_eq_right_iff.trans (by simp)
  | 8, (data : CraftRecipeAuto) =>
    have hcount := h.ingredients data rfl
    simp [ActionAlternative.Fits, ActionAlternative.missing, ActionAlternative.Transmitted, hcount]
  | 11, (data : CraftLoom) | 12, (data : CraftResult) =>
    simp [ActionAlternative.Fits, ActionAlternative.missing, ActionAlternative.Transmitted]
  | 0, _ | 1, _ | 2, _ | 3, _ | 4, _ | 5, _ | 7, _ | 9, _ | 10, _ | 13, _ =>
    simp [ActionAlternative.Fits, ActionAlternative.missing, ActionAlternative.Transmitted]

/-- What arrives. -/
def received (action : ItemStackRequestAction) : ItemStackRequestAction :=
  ⟨action.mActionType, action.mVariant.1, ActionAlternative.received _ action.mVariant.2⟩

def Sendable (action : ItemStackRequestAction) : Prop :=
  action.mVariant.1 = alternative action.mActionType ∧
    ActionAlternative.Sendable action.mVariant.1 action.mVariant.2

/-- An action that is received is written as the one that was sent. -/
theorem write_received (action : ItemStackRequestAction) :
    action.received.write = action.write := by
  simp only [write, received, ActionAlternative.write_received]

end ItemStackRequestAction

/-! ### Requests -/

structure ItemStackRequestData where
  mClientRequestId : Int32
  mStringsToFilter : List Bytes
  mStringsToFilterOrigin : Int32
  mActions : List ItemStackRequestAction

namespace ItemStackRequestData

def new : ItemStackRequestData := ⟨0, [], 0, []⟩

def write (data : ItemStackRequestData) : Bytes :=
  writeVarInt data.mClientRequestId ++
    writeArray Prefix.unsignedVarInt ItemStackRequestAction.write data.mActions ++
    writeArray Prefix.unsignedVarInt writeString data.mStringsToFilter ++
    writeSignedInt data.mStringsToFilterOrigin.toUInt32

def read (data : ItemStackRequestData) : Reader ItemStackRequestData := do
  let mClientRequestId ← StreamRead.reader readVarInt
  let mActions ← readUnsignedArray .new (fun _ => ItemStackRequestAction.read) data.mActions
  let mStringsToFilter ← readUnsignedArray [] (fun _ => StreamRead.reader readString)
    data.mStringsToFilter
  let mStringsToFilterOrigin ← StreamRead.reader readSignedInt
  pure ⟨mClientRequestId, mStringsToFilter, mStringsToFilterOrigin, mActions⟩

def Fits (data : ItemStackRequestData) : Prop :=
  (data.mActions.length < 2 ^ 32 ∧ ∀ action ∈ data.mActions, action.Fits) ∧
    data.mStringsToFilter.length < 2 ^ 32 ∧ ∀ string ∈ data.mStringsToFilter, string.length < 2 ^ 32

def missing (data : ItemStackRequestData) : ℕ :=
  (data.mActions.map ItemStackRequestAction.missing).sum

theorem codec (target : ItemStackRequestData) : WireCodec T (read target) write Fits missing := by
  refine (WireCodec.bind (Q := fun _ => True) (g := mClientRequestId)
      codec_readVarInt.reader fun _ _ =>
    WireCodec.bind (g := mActions)
        (codec_readUnsignedArray fun _ _ => ItemStackRequestAction.codec) fun _ _ =>
    WireCodec.bind (g := mStringsToFilter)
        (codec_readUnsignedArray fun _ _ => codec_readString.reader) fun _ _ =>
    WireCodec.bind (g := mStringsToFilterOrigin) codec_readSignedInt.reader fun _ _ =>
    WireCodec.pure fun data => by cases data; grind).congr ?_ ?_ ?_
  · simp [Fits]
  · simp [write]
  · simp [missing]

def Transmitted (data : ItemStackRequestData) : Prop :=
  data.mActions.length < 2 ^ 32 ∧ data.mStringsToFilter.length < 2 ^ 32 ∧
    (∀ string ∈ data.mStringsToFilter, string.length < 2 ^ 32) ∧ ∀ action ∈ data.mActions,
    action.Transmitted

/-- A request is transmitted exactly if its actions are. -/
theorem transmitted_iff {data : ItemStackRequestData}
    (h : ∀ action ∈ data.mActions, action.WellFormed) :
    data.Fits ∧ data.missing = 0 ↔ data.Transmitted := by
  have hactions : (∀ action ∈ data.mActions, action.Fits) ∧ data.missing = 0 ↔
      ∀ action ∈ data.mActions, action.Transmitted := by
    rw [missing, List.sum_eq_zero_iff_forall_eq_nat, List.forall_mem_map, ← forall₂_and]
    exact forall₂_congr fun action haction => ItemStackRequestAction.transmitted_iff
      (h action haction)
  rw [Transmitted, ← hactions, Fits]
  tauto

/-- What arrives. -/
def received (data : ItemStackRequestData) : ItemStackRequestData :=
  { data with mActions := data.mActions.map ItemStackRequestAction.received }

structure Sendable (data : ItemStackRequestData) : Prop where
  actions : data.mActions.length < 2 ^ 32
  action : ∀ action ∈ data.mActions, action.Sendable
  strings : data.mStringsToFilter.length < 2 ^ 32
  string : ∀ string ∈ data.mStringsToFilter, string.length < 2 ^ 32

/-- A request that is received is written as the one that was sent. -/
theorem write_received (data : ItemStackRequestData) : data.received.write = data.write := by
  simp only [write, received, writeArray_map ItemStackRequestAction.write_received]

/-- Requests without `MineBlock` arrive. -/
theorem accepts_received (target : ItemStackRequestData) {data : ItemStackRequestData}
    (h : data.Sendable) :
    Accepts (read target) data.write data.received := by
  have hall : ∀ action ∈ data.received.mActions, action.Fits ∧ action.missing = 0 := by
    intro action haction
    obtain ⟨action, hmem, rfl⟩ := List.mem_map.mp haction
    obtain ⟨halternative, hsendable⟩ := h.action action hmem
    exact ⟨⟨halternative, hsendable.fits.1⟩, hsendable.fits.2⟩
  have hmissing : data.received.missing = 0 := by
    rw [missing, List.sum_eq_zero_iff_forall_eq_nat, List.forall_mem_map]
    exact fun action haction => (hall action haction).2
  rw [← write_received]
  refine (codec (T := True) target).accepts ⟨⟨?_, fun action haction => (hall action haction).1⟩,
    ?_⟩ hmissing
  · show (data.mActions.map _).length < 2 ^ 32
    rw [List.length_map]
    exact h.actions
  · exact ⟨h.strings, h.string⟩

end ItemStackRequestData

structure ItemStackRequest where
  mRequests : List ItemStackRequestData

namespace ItemStackRequest

def write (request : ItemStackRequest) : Bytes :=
  writeArray Prefix.unsignedVarInt ItemStackRequestData.write request.mRequests

def read (request : ItemStackRequest) : Reader ItemStackRequest := do
  let mRequests ← readUnsignedArray .new ItemStackRequestData.read request.mRequests
  pure ⟨mRequests⟩

theorem codec (target : ItemStackRequest) :
    WireCodec T (read target) write
      (fun request => request.mRequests.length < 2 ^ 32 ∧ ∀ data ∈ request.mRequests, data.Fits)
      fun request => (request.mRequests.map ItemStackRequestData.missing).sum :=
  (WireCodec.bind_pure (g := mRequests)
    (codec_readUnsignedArray fun target _ => ItemStackRequestData.codec target)
    fun request _ => by cases request; grind)

/-- **Which requests come back.** Those without a `MineBlock` whose net id is 0, whose sizes are
32-bit values and whose ingredients and items have nothing that is not written. -/
theorem requests_read_back_iff (target : ItemStackRequest) {request : ItemStackRequest}
    (h : ∀ data ∈ request.mRequests, ∀ action ∈ data.mActions, action.WellFormed) :
    Accepts (read target) request.write request ↔
      request.mRequests.length < 2 ^ 32 ∧ ∀ data ∈ request.mRequests, data.Transmitted := by
  have hrequests : (∀ data ∈ request.mRequests, data.Fits) ∧
      (request.mRequests.map ItemStackRequestData.missing).sum = 0 ↔
        ∀ data ∈ request.mRequests, data.Transmitted := by
    rw [List.sum_eq_zero_iff_forall_eq_nat, List.forall_mem_map, ← forall₂_and]
    exact forall₂_congr fun data hdata => ItemStackRequestData.transmitted_iff (h data hdata)
  rw [(codec target).reads_back_iff, and_assoc, hrequests]

/-- A request to mine a block with an item, and then to take something. -/
theorem requests_read_back_iff_mine :
    let mine : ItemStackRequestAction := ⟨11, 6, (⟨0, 100, 7, .Valid⟩ : MineBlock)⟩
    let take : ItemStackRequestAction := ⟨0, 0, (⟨1, .new, ⟨⟨28, some 3⟩, 2, -5⟩⟩ : TransferBase)⟩
    let request : ItemStackRequest := ⟨[⟨-1, [[97], []], 2, [mine, take]⟩]⟩
    Accepts (read ⟨[.new, .new]⟩) request.write request := by
  intro mine take request
  refine (@requests_read_back_iff _ request ?_).mpr ⟨by decide, ?_⟩
  · intro data hdata action haction
    obtain rfl := List.mem_singleton.mp hdata
    obtain rfl | rfl : action = mine ∨ action = take := by simpa using haction
    · refine ⟨rfl, fun data hdata => (nomatch hdata), fun data hdata => ?_⟩
      cases hdata
      decide
    · exact ⟨rfl, fun data hdata => (nomatch hdata), fun data hdata => nomatch hdata⟩
  · intro data hdata
    obtain rfl := List.mem_singleton.mp hdata
    refine ⟨by decide, by decide, by decide, fun action haction => ?_⟩
    obtain rfl | rfl : action = mine ∨ action = take := by simpa using haction
    · show (7 : Int32) ≠ 0
      decide
    · trivial

/-- `MineBlock` without a net id does not come back. -/
theorem mineBlock_lost :
    let mine : ItemStackRequestAction := ⟨11, 6, (⟨0, 100, 0, .Invalid⟩ : MineBlock)⟩
    let request : ItemStackRequest := ⟨[⟨1, [], 0, [mine]⟩]⟩
    mine.WellFormed ∧ ¬ Accepts (read ⟨[]⟩) request.write request := by
  intro mine request
  refine ⟨⟨rfl, fun data hdata => (nomatch hdata), fun data hdata => ?_⟩, fun h => ?_⟩
  · cases hdata
    decide
  · exact absurd ((codec ⟨[]⟩).reads_back_iff.mp h).2 (by decide)

end ItemStackRequest

end SculkProtocol
