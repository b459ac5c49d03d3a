import Mathlib.Algebra.Ring.Int.Defs
import SculkProtocol.Codec.Nbt.NegativeCounts

/-!
# Recipes and block actions

Readers whose element counts are signed or computed. An array of block actions has a signed
prefix; a shaped recipe has as many ingredients as its grid has places, which is the product of
two signed integers. The other counts are unsigned 32-bit values, which every container can
be resized to.
-/

namespace SculkProtocol

open Decoder BinaryStream ReadOnlyBinaryStream StreamRead

/-! ### Block actions -/

structure BlockPos where
  mX : Int32
  mY : Int32
  mZ : Int32

def BlockPos.read : Reader BlockPos := do
  let mX ← StreamRead.reader readVarInt
  let mY ← StreamRead.reader readVarInt
  let mZ ← StreamRead.reader readVarInt
  pure ⟨mX, mY, mZ⟩

structure PlayerBlockActionData where
  mActionType : Int8
  mPosition : BlockPos
  mFacing : Int32

/-- The enumerator is cast to a byte. -/
def PlayerBlockActionData.read : Reader PlayerBlockActionData := do
  let mActionType ← StreamRead.reader (readEnum readVarInt)
  let mPosition ← BlockPos.read
  let mFacing ← StreamRead.reader readVarInt
  pure ⟨mActionType.toInt8, mPosition, mFacing⟩

def PlayerBlockActions.read (mActions : List PlayerBlockActionData) :
    Reader (List PlayerBlockActionData) :=
  readArray Prefix.varInt ⟨0, ⟨0, 0, 0⟩, 0⟩ (fun _ => PlayerBlockActionData.read) mActions

/-! ### Parts of recipes -/

structure UUID where
  mMostSignificantBits : UInt64
  mLeastSignificantBits : UInt64

def UUID.read : Reader UUID := do
  let mMostSignificantBits ← StreamRead.reader readUnsignedInt64
  let mLeastSignificantBits ← StreamRead.reader readUnsignedInt64
  pure ⟨mMostSignificantBits, mLeastSignificantBits⟩

structure NetworkItemInstanceDescriptor where
  mId : Int32
  mStackSize : UInt16
  mAux : UInt32
  mBlockRuntimeId : Int32
  mUserData : Bytes

/-- Without an id the other fields stay as they are. -/
def NetworkItemInstanceDescriptor.read (item : NetworkItemInstanceDescriptor) :
    Reader NetworkItemInstanceDescriptor := do
  let mId ← StreamRead.reader readVarInt
  if mId = 0 then pure { item with mId }
  else do
    let mStackSize ← StreamRead.reader readUnsignedShort
    let mAux ← StreamRead.reader readUnsignedVarInt
    let mBlockRuntimeId ← StreamRead.reader readVarInt
    let mUserData ← StreamRead.reader readString
    pure ⟨mId, mStackSize, mAux, mBlockRuntimeId, mUserData⟩

structure InternalItemDescriptor where
  mId : Int16
  mAux : Int16

structure MolangDescriptor where
  mMolangFullName : Bytes
  mMolangVersion : UInt8

structure ItemTagDescriptor where
  mItemTag : Bytes

structure DeferredDescriptor where
  mDeferredFullName : Bytes
  mAux : UInt16

structure ComplexAliasDescriptor where
  mName : Bytes

/-- The alternatives of `RecipeIngredient::DescriptorVariant` -/
def DescriptorAlternative : Fin 6 → Type
  | 0 => Unit
  | 1 => InternalItemDescriptor
  | 2 => MolangDescriptor
  | 3 => ItemTagDescriptor
  | 4 => DeferredDescriptor
  | 5 => ComplexAliasDescriptor

namespace DescriptorAlternative

def value : ∀ i, DescriptorAlternative i
  | 0 => ()
  | 1 => (⟨0, 0⟩ : InternalItemDescriptor)
  | 2 => (⟨[], 0⟩ : MolangDescriptor)
  | 3 => (⟨[]⟩ : ItemTagDescriptor)
  | 4 => (⟨[], 0⟩ : DeferredDescriptor)
  | 5 => (⟨[]⟩ : ComplexAliasDescriptor)

/-- The overloads that `RecipeIngredient::read` visits the alternatives with. -/
def read : ∀ i, DescriptorAlternative i → Reader (DescriptorAlternative i)
  | 0, _ => pure ()
  | 1, (descriptor : InternalItemDescriptor) => do
    let mId ← StreamRead.reader readSignedShort
    -- without an id the aux value stays as it is
    if mId ≠ 0 then do
      let mAux ← StreamRead.reader readSignedShort
      pure (⟨mId, mAux⟩ : InternalItemDescriptor)
    else pure { descriptor with mId }
  | 2, _ => do
    let mMolangFullName ← StreamRead.reader readString
    let mMolangVersion ← StreamRead.reader readByte
    pure (⟨mMolangFullName, mMolangVersion⟩ : MolangDescriptor)
  | 3, _ => do
    let mItemTag ← StreamRead.reader readString
    pure (⟨mItemTag⟩ : ItemTagDescriptor)
  | 4, _ => do
    let mDeferredFullName ← StreamRead.reader readString
    let mAux ← StreamRead.reader readUnsignedShort
    pure (⟨mDeferredFullName, mAux⟩ : DeferredDescriptor)
  | 5, _ => do
    let mName ← StreamRead.reader readString
    pure (⟨mName⟩ : ComplexAliasDescriptor)

end DescriptorAlternative

structure RecipeIngredient where
  mDescriptor : Variant DescriptorAlternative
  mStackSize : Int32

def RecipeIngredient.read : Reader RecipeIngredient := do
  let mDescriptor ← readVariant .plain Prefix.byte DescriptorAlternative.value
    DescriptorAlternative.read
  let mStackSize ← StreamRead.reader readVarInt
  pure ⟨mDescriptor, mStackSize⟩

/-- `readArray` with the prefix that it has by default. -/
def readUnsignedArray {α : Type} (value : α) (func : α → Reader α) (outVector : List α) :
    Reader (List α) :=
  readArray Prefix.unsignedVarInt value func outVector

def RecipeIngredient.new : RecipeIngredient := ⟨⟨0, ()⟩, 0⟩

def NetworkItemInstanceDescriptor.new : NetworkItemInstanceDescriptor := ⟨0, 0, 0, 0, []⟩

/-- `mUnlockingContext` is the value of its enumerator. -/
structure RecipeUnlockingRequirement where
  mUnlockingContext : UInt8
  mUnlockingIngredients : List RecipeIngredient

/-- Only the context `None`, which is 0, has ingredients. -/
def RecipeUnlockingRequirement.read : Reader RecipeUnlockingRequirement := do
  let mUnlockingContext ← StreamRead.reader (readEnum readByte)
  if mUnlockingContext = 0 then do
    let mUnlockingIngredients ← readUnsignedArray RecipeIngredient.new
      (fun _ => RecipeIngredient.read) []
    pure ⟨mUnlockingContext, mUnlockingIngredients⟩
  else pure ⟨mUnlockingContext, []⟩

/-! ### Shaped recipes -/

structure ShapedRecipe where
  mRecipeUniqueId : Bytes
  mGridWidth : Int32
  mGridHeight : Int32
  mIngredientList : List RecipeIngredient
  mProductionList : List NetworkItemInstanceDescriptor
  mRecipeId : UUID
  mRecipeTag : Bytes
  mPriority : Int32
  mAssumeSymmetry : Bool
  mUnlockingRequirement : RecipeUnlockingRequirement
  mNetId : UInt32

/-- The product of two integers, if their type has it. -/
def multiply (x y : Int32) : Reader Int32 :=
  if -(2 ^ 31) ≤ x.toInt * y.toInt ∧ x.toInt * y.toInt < 2 ^ 31 then
    pure (Int32.ofInt (x.toInt * y.toInt))
  else fail .signedOverflow

/-- What `ShapedRecipe::read` does after the ingredients are there. -/
def ShapedRecipe.readRest (mRecipeUniqueId : Bytes) (mGridWidth mGridHeight : Int32)
    (mIngredientList : List RecipeIngredient) : Reader ShapedRecipe := do
  let mIngredientList ← each (fun _ => RecipeIngredient.read) mIngredientList
  let mProductionList ← readUnsignedArray NetworkItemInstanceDescriptor.new
    NetworkItemInstanceDescriptor.read []
  let mRecipeId ← UUID.read
  let mRecipeTag ← StreamRead.reader readString
  let mPriority ← StreamRead.reader readVarInt
  let mAssumeSymmetry ← StreamRead.reader readBool
  let mUnlockingRequirement ← RecipeUnlockingRequirement.read
  let mNetId ← StreamRead.reader readUnsignedVarInt
  pure ⟨mRecipeUniqueId, mGridWidth, mGridHeight, mIngredientList, mProductionList,
    mRecipeId, mRecipeTag, mPriority, mAssumeSymmetry, mUnlockingRequirement, mNetId⟩

def ShapedRecipe.read (mIngredientList : List RecipeIngredient) : Reader ShapedRecipe := do
  let mRecipeUniqueId ← StreamRead.reader readString
  let mGridWidth ← StreamRead.reader readVarInt
  let mGridHeight ← StreamRead.reader readVarInt
  -- a product of two `int`s, which becomes a size: a negative one is huge
  let size ← multiply mGridWidth mGridHeight
  let mIngredientList ← resize RecipeIngredient.new (sizeCast size) mIngredientList
  ShapedRecipe.readRest mRecipeUniqueId mGridWidth mGridHeight mIngredientList

/-! ### Readers that return -/

/-- Resizing to a size that is not too large throws nothing. -/
theorem safe_resize {α : Type} {value : α} {n : ℕ} {array : List α} (h : n ≤ maxSize) :
    Safe Failure.Escapes (resize value n array) := by
  rw [resize, if_neg (Nat.not_lt.mpr h)]
  exact safe_pure _

/-- Every 32-bit count is a size. -/
theorem safe_readUnsignedArray {α : Type} {value : α} {func : α → Reader α}
    (h : ∀ a, Safe Failure.Escapes (func a))
    (outVector : List α) : Safe Failure.Escapes (readUnsignedArray value func outVector) := by
  refine (safe_reader _).bind fun length => (safe_resize ?_).bind fun vs => Safe.each h vs
  have hlt : BitVec.toNat length < 2 ^ 32 := BitVec.isLt _
  show (BitVec.ofInt 64 (BitVec.toNat length)).toNat ≤ maxSize
  rw [BitVec.ofInt_natCast, BitVec.toNat_ofNat, maxSize]
  omega

/-- A variant throws nothing if its alternatives do not. -/
theorem safe_readVariant {n : ℕ} [NeZero n] {T : Fin n → Type} {kind : VariantKind n}
    {before : Prefix}
    {value : ∀ i, T i} {visitor : ∀ i, T i → Reader (T i)}
    (h : ∀ i a, Safe Failure.Escapes (visitor i a)) :
    Safe Failure.Escapes (readVariant kind before value visitor) := by
  refine (safe_reader _).bind fun index => ?_
  split
  · intro s e he
    rw [← Except.error.inj he]
    exact id
  · next var _ => exact (h var.1 var.2).bind fun a => safe_pure (⟨var.1, a⟩ : Variant T)

/-- A block action throws nothing. -/
theorem safe_blockAction : Safe Failure.Escapes PlayerBlockActionData.read := by
  have hposition : Safe Failure.Escapes BlockPos.read :=
    (safe_reader _).bind fun _ => (safe_reader _).bind fun _ =>
      (safe_reader _).bind fun _ => safe_pure _
  exact (safe_reader _).bind fun _ => hposition.bind fun _ =>
    (safe_reader _).bind fun _ => safe_pure _

/-- An item throws nothing. -/
theorem safe_item (item : NetworkItemInstanceDescriptor) :
    Safe Failure.Escapes (NetworkItemInstanceDescriptor.read item) := by
  refine (safe_reader _).bind fun mId => ?_
  split
  · exact safe_pure _
  · exact (safe_reader _).bind fun _ => (safe_reader _).bind fun _ => (safe_reader _).bind fun _ =>
      (safe_reader _).bind fun _ => safe_pure _

/-- An ingredient throws nothing. -/
theorem safe_ingredient : Safe Failure.Escapes RecipeIngredient.read := by
  refine (safe_readVariant fun i a => ?_).bind fun _ => (safe_reader _).bind fun _ => safe_pure _
  match i with
  | 0 => exact safe_pure _
  | 1 =>
    refine (safe_reader _).bind fun mId => ?_
    split
    · exact (safe_reader _).bind fun _ => safe_pure _
    · exact safe_pure _
  | 2 => exact (safe_reader _).bind fun _ => (safe_reader _).bind fun _ => safe_pure _
  | 3 => exact (safe_reader _).bind fun _ => safe_pure _
  | 4 => exact (safe_reader _).bind fun _ => (safe_reader _).bind fun _ => safe_pure _
  | 5 => exact (safe_reader _).bind fun _ => safe_pure _

/-- An unlocking requirement throws nothing. -/
theorem safe_unlockingRequirement : Safe Failure.Escapes RecipeUnlockingRequirement.read := by
  refine (safe_reader _).bind fun context => ?_
  split
  · exact (safe_readUnsignedArray (fun _ => safe_ingredient) []).bind fun _ => safe_pure _
  · exact safe_pure _

/-- What is behind the grid of a recipe throws nothing. -/
theorem safe_readRest (mRecipeUniqueId : Bytes) (mGridWidth mGridHeight : Int32)
    (mIngredientList : List RecipeIngredient) :
    Safe Failure.Escapes
      (ShapedRecipe.readRest mRecipeUniqueId mGridWidth mGridHeight mIngredientList) := by
  have huuid : Safe Failure.Escapes UUID.read :=
    (safe_reader _).bind fun _ => (safe_reader _).bind fun _ => safe_pure _
  exact (Safe.each (fun _ => safe_ingredient) _).bind fun _ =>
      (safe_readUnsignedArray safe_item []).bind fun _ =>
    huuid.bind fun _ => (safe_reader _).bind fun _ => (safe_reader _).bind fun _ =>
        (safe_reader _).bind fun _ =>
      safe_unlockingRequirement.bind fun _ => (safe_reader _).bind fun _ => safe_pure _

/-! ### Readers that throw -/

/-- The array of block actions throws on a negative count. -/
theorem fails_blockActions (mActions : List PlayerBlockActionData) :
    Fails Failure.Escapes (PlayerBlockActions.read mActions) NegativeSize := by
  have hlength : Recognises (Prefix.varInt.readLength "ReadOnlyBinaryStream::readArray overflowed")
      fun bs length =>
      ∃ size, IsSignedVarInt bs size ∧ length = size.toBitVec :=
    recognises_reader recognises_readVarInt.bind_pure.mapError
  refine (Fails.bind_safe hlength (safe_reader _) fun _ length _ =>
    fails_resize.bind_left fun vs => Safe.each (fun _ => safe_blockAction) vs).congr fun bs => ?_
  constructor
  · rintro ⟨bs, _, _, rfl, ⟨size, hsize, rfl⟩, hlt, rfl⟩
    rw [List.append_nil]
    exact ⟨size, hsize, ((sizeCast_cases size).resolve_left fun h => Nat.not_le.mpr hlt h.2.2).1⟩
  · rintro ⟨size, hsize, hneg⟩
    refine ⟨bs, [], _, (List.append_nil bs).symm, ⟨size, hsize, rfl⟩, ?_, rfl⟩
    exact ((sizeCast_cases size).resolve_left fun h => Int.not_le.mpr hneg h.1).2

/-- A grid whose number of places is no 32-bit integer, or a negative one. -/
def BadGrid (bs : Bytes) : Prop :=
  ∃ idText widthText heightText id width height, bs = idText ++ (widthText ++ heightText) ∧
    IsString idText id ∧
    IsSignedVarInt widthText width ∧ IsSignedVarInt heightText height ∧
    ¬ (0 ≤ width.toInt * height.toInt ∧ width.toInt * height.toInt < 2 ^ 31)

/-- The ingredients of a grid. -/
theorem fails_grid {α : Type} (width height : Int32) (mIngredientList : List RecipeIngredient)
    {f : List RecipeIngredient → Reader α} (hf : ∀ vs, Safe Failure.Escapes (f vs)) :
    Fails Failure.Escapes
      (multiply width height >>=
        fun size => resize RecipeIngredient.new (sizeCast size) mIngredientList >>= f)
      fun bs => ¬ (0 ≤ width.toInt * height.toInt ∧ width.toInt * height.toInt < 2 ^ 31) ∧
      bs = [] := by
  unfold multiply
  split
  · next hfits =>
    -- the product is an `int`, so the resize fails if it is negative
    have hsize : (Int32.ofInt (width.toInt * height.toInt)).toInt = width.toInt * height.toInt :=
      Int32.toInt_ofInt_of_le hfits.1 hfits.2
    show Fails _
      (resize RecipeIngredient.new (sizeCast (Int32.ofInt (width.toInt * height.toInt)))
        mIngredientList >>= f) _
    refine ((fails_resize_count _ _ _).bind_left hf).congr fun bs => and_congr_left' ?_
    rw [hsize]
    omega
  · next hfits =>
    -- the product overflows
    refine (Fails.bind (F := fun _ _ => False) (recognises_fail _) (fails_fail trivial)
      fun _ _ h => h.elim).congr fun bs => ?_
    constructor
    · rintro (rfl | ⟨_, _, _, -, h, -⟩)
      · exact ⟨fun h => hfits ⟨by omega, h.2⟩, rfl⟩
      · exact h.elim
    · exact fun h => .inl h.2

/-- A shaped recipe throws on a bad grid. -/
theorem fails_shapedRecipe (mIngredientList : List RecipeIngredient) :
    Fails Failure.Escapes (ShapedRecipe.read mIngredientList) BadGrid := by
  refine (Fails.bind_safe (recognises_reader recognises_readString) (safe_reader _) fun _ id _ =>
    Fails.bind_safe (recognises_reader recognises_readVarInt) (safe_reader _) fun _ width _ =>
      Fails.bind_safe (recognises_reader recognises_readVarInt) (safe_reader _) fun _ height _ =>
        fails_grid width height mIngredientList fun vs => safe_readRest id width height vs).congr
          fun bs => ?_
  constructor
  · rintro ⟨idText, _, id, rfl, hid, widthText, _, width, rfl, hwidth, heightText, _, height, rfl,
      hheight, hbad, rfl⟩
    rw [List.append_nil]
    exact ⟨idText, widthText, heightText, id, width, height, rfl, hid, hwidth, hheight, hbad⟩
  · rintro ⟨idText, widthText, heightText, id, width, height, rfl, hid, hwidth, hheight, hbad⟩
    refine ⟨idText, _, id, rfl, hid, widthText, _, width, rfl, hwidth, heightText, [], height, ?_,
      hheight, hbad, rfl⟩
    exact (List.append_nil _).symm

/-! ### Counts that are let through -/

/-- On this input the reader returns its `Result`. -/
def Returns {α : Type} (d : Reader α) (input : Bytes) : Prop :=
  ∀ e, (d (ofBuffer input)).2 = .error e → ¬ e.Escapes

/-- The input begins with a text of `R`. -/
def BeginsWith (R : Bytes → Prop) (input : Bytes) : Prop := ∃ bs rest, input = bs ++ rest ∧ R bs

/-- A reader returns unless its input begins with such a text. -/
theorem returns_iff {α : Type} {d : Reader α} {R : Bytes → Prop} (h : Fails Failure.Escapes d R)
    (input : Bytes) :
    Returns d input ↔ ¬ BeginsWith R input := by
  constructor
  · rintro hreturns ⟨bs, rest, hinput, hbs⟩
    obtain ⟨e, he, hE⟩ := h.raises hbs (ofBuffer input) rest ⟨rfl, Nat.zero_le _⟩ hinput
    exact hreturns e he hE
  · intro hnot e he hE
    exact hnot (h.blames (ofBuffer input) e ⟨rfl, Nat.zero_le _⟩ he hE)

/-- **A count is not looked at before it is used**: the readers with signed or computed counts
throw exactly on the inputs that begin with a text up to a negative count, or with a grid that
has no number of places. -/
theorem counted_readers_return (input : Bytes) :
    (∀ mActions, Returns (PlayerBlockActions.read mActions) input ↔
      ¬ BeginsWith NegativeSize input) ∧
    (∀ mValue, Returns (ValueArrayTag.deserialize 0 readSignedChar mValue) input ↔
      ¬ BeginsWith NegativeSize input) ∧
    (∀ mValue, Returns (ValueArrayTag.deserialize 0 readVarInt mValue) input ↔
      ¬ BeginsWith NegativeSize input) ∧
    (Returns (ListTag.deserialize TagVariant.deserialize []) input ↔
      ¬ BeginsWith (NegativeCount TagType.listTag) input) ∧
    (∀ type, Returns (TagVariant.endTag.emplace type).deserialize input ↔
      ¬ BeginsWith (NegativeCount type) input) ∧
    ∀ mIngredientList, Returns (ShapedRecipe.read mIngredientList) input ↔
    ¬ BeginsWith BadGrid input :=
  ⟨fun mActions => returns_iff (fails_blockActions mActions) input,
    fun mValue => returns_iff (fails_array 0 readSignedChar mValue) input,
    fun mValue => returns_iff (fails_array 0 readVarInt mValue) input,
    returns_iff fails_list input,
    fun type => returns_iff (fails_deserialize type) input,
    fun mIngredientList => returns_iff (fails_shapedRecipe mIngredientList) input⟩

/-- The count -1, and a grid of -1 by 1. -/
theorem negative_counts_thrown :
    ¬ Returns (PlayerBlockActions.read []) [1] ∧ ¬ Returns (ShapedRecipe.read []) [0, 1, 2] := by
  have hnegative : IsSignedVarInt [1] (-1) := ⟨1, .last (by decide) (by decide), by decide⟩
  have hone : IsSignedVarInt [2] 1 := ⟨2, .last (by decide) (by decide), by decide⟩
  have hempty : IsString [0] [] := ⟨[0], 0, rfl, .last (by decide) (by decide), rfl⟩
  constructor
  · intro h
    obtain ⟨e, he, hE⟩ :=
      (fails_blockActions []).raises ⟨-1, hnegative, by decide⟩ (ofBuffer [1]) []
      ⟨rfl, Nat.zero_le _⟩ rfl
    exact h e he hE
  · intro h
    obtain ⟨e, he, hE⟩ := (fails_shapedRecipe []).raises
      ⟨[0], [1], [2], [], -1, 1, rfl, hempty, hnegative, hone, by decide⟩ (ofBuffer [0, 1, 2]) []
      ⟨rfl, Nat.zero_le _⟩ rfl
    exact h e he hE

end SculkProtocol
