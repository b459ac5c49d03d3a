import SculkProtocol.Codec.Items

/-!
# Crafting data

The packet with all recipes. An entry is one of ten kinds of recipe, by its index; a shaped
recipe has its ingredients without a count, as many as its grid has places, and the ingredients
that unlock a recipe follow only the context `None`.

A recipe is only read into the alternative that `readVariant` has just emplaced, which is new.
`Fits` says which values come back: everything that is not written has its default value, and
sizes are 32-bit values.
-/

namespace SculkProtocol

open Decoder BinaryStream ReadOnlyBinaryStream StreamRead

variable {T : Prop}

/-- Ingredients and items in lists with a count. -/
abbrev writeIngredients (ingredients : List RecipeIngredient) : Bytes :=
  writeArray Prefix.unsignedVarInt RecipeIngredient.write ingredients

abbrev readIngredients : Reader (List RecipeIngredient) :=
  readUnsignedArray RecipeIngredient.new (fun _ => RecipeIngredient.read) []

abbrev writeItems (items : List NetworkItemInstanceDescriptor) : Bytes :=
  writeArray Prefix.unsignedVarInt NetworkItemInstanceDescriptor.write items

abbrev readItems : Reader (List NetworkItemInstanceDescriptor) :=
  readUnsignedArray NetworkItemInstanceDescriptor.new NetworkItemInstanceDescriptor.read []

def IngredientsFit (ingredients : List RecipeIngredient) : Prop :=
  ingredients.length < 2 ^ 32 ∧ ∀ ingredient ∈ ingredients, ingredient.Fits

def ItemsFit (items : List NetworkItemInstanceDescriptor) : Prop :=
  items.length < 2 ^ 32 ∧ ∀ item ∈ items, NetworkItemInstanceDescriptor.Fits .new item

/-- Ingredients are read back. -/
theorem codec_ingredients :
    WireCodec T readIngredients writeIngredients IngredientsFit fun _ => 0 :=
  codec_newArray RecipeIngredient.codec

/-- Items are read back. -/
theorem codec_items : WireCodec T readItems writeItems ItemsFit fun _ => 0 :=
  codec_newArray (NetworkItemInstanceDescriptor.codec .new)

namespace RecipeUnlockingRequirement

def write (requirement : RecipeUnlockingRequirement) : Bytes :=
  writeByte requirement.mUnlockingContext ++
    if requirement.mUnlockingContext = 0 then writeIngredients requirement.mUnlockingIngredients
    else []

/-- Another context than `None` has no ingredients. -/
def Fits (requirement : RecipeUnlockingRequirement) : Prop :=
  if requirement.mUnlockingContext = 0 then IngredientsFit requirement.mUnlockingIngredients
  else requirement.mUnlockingIngredients = []

/-- An unlocking requirement is read back. -/
theorem codec : WireCodec T read write Fits fun _ => 0 := by
  refine (WireCodec.bind (Q := fun _ => True) (g := mUnlockingContext) (R := Fits) (n := fun _ => 0)
    (v := fun requirement => if requirement.mUnlockingContext = 0 then
      writeIngredients requirement.mUnlockingIngredients else [])
    (codec_readEnum codec_readByte).reader fun context _ => ?_).congr ?_ (fun _ _ => rfl)
      fun _ _ => rfl
  · split
    · next hnone =>
      refine codec_ingredients.inj
        (k := fun ingredients => (⟨context, ingredients⟩ : RecipeUnlockingRequirement))
        (fun ingredients => if_pos hnone) (fun _ => rfl) fun requirement => ⟨?_, ?_⟩
      · obtain ⟨context', ingredients⟩ := requirement
        rintro ⟨⟨rfl, -⟩, hfits⟩
        rw [Fits, if_pos hnone] at hfits
        exact ⟨ingredients, rfl, hfits⟩
      · rintro ⟨ingredients, rfl, hfits⟩
        exact ⟨⟨rfl, trivial⟩, by rwa [Fits, if_pos hnone]⟩
    · next hcontext =>
      refine (WireCodec.pure (Q := fun requirement => requirement = ⟨context, []⟩)
        fun _ => Iff.rfl).congr
        (fun requirement => ?_) (fun requirement h => ?_) fun _ _ => rfl
      · constructor
        · rintro ⟨rfl, -⟩
          exact ⟨⟨rfl, trivial⟩, by rw [Fits, if_neg hcontext]⟩
        · obtain ⟨context', ingredients⟩ := requirement
          rintro ⟨⟨rfl, -⟩, hfits⟩
          rw [Fits, if_neg hcontext] at hfits
          exact ⟨congrArg _ hfits, trivial⟩
      · rw [h.1, if_neg hcontext]
  · exact fun requirement => by rw [true_and, true_and]

end RecipeUnlockingRequirement

/-! ### Recipes without a grid -/

structure ShapelessRecipe where
  mRecipeUniqueId : Bytes
  mIngredientList : List RecipeIngredient
  mProductionList : List NetworkItemInstanceDescriptor
  mRecipeId : UUID
  mRecipeTag : Bytes
  mPriority : Int32
  mUnlockingRequirement : RecipeUnlockingRequirement
  mNetId : UInt32

namespace ShapelessRecipe

def write (recipe : ShapelessRecipe) : Bytes :=
  writeString recipe.mRecipeUniqueId ++ writeIngredients recipe.mIngredientList ++
    writeItems recipe.mProductionList ++ recipe.mRecipeId.write ++ writeString recipe.mRecipeTag ++
    writeVarInt recipe.mPriority ++ recipe.mUnlockingRequirement.write ++
    writeUnsignedVarInt recipe.mNetId

def read : Reader ShapelessRecipe := do
  let mRecipeUniqueId ← StreamRead.reader readString
  let mIngredientList ← readIngredients
  let mProductionList ← readItems
  let mRecipeId ← UUID.read
  let mRecipeTag ← StreamRead.reader readString
  let mPriority ← StreamRead.reader readVarInt
  let mUnlockingRequirement ← RecipeUnlockingRequirement.read
  let mNetId ← StreamRead.reader readUnsignedVarInt
  pure ⟨mRecipeUniqueId, mIngredientList, mProductionList, mRecipeId, mRecipeTag, mPriority,
    mUnlockingRequirement, mNetId⟩

def Fits (recipe : ShapelessRecipe) : Prop :=
  recipe.mRecipeUniqueId.length < 2 ^ 32 ∧ IngredientsFit recipe.mIngredientList ∧
    ItemsFit recipe.mProductionList ∧ recipe.mRecipeTag.length < 2 ^ 32 ∧
    recipe.mUnlockingRequirement.Fits

/-- A shapeless recipe is read back. -/
theorem codec : WireCodec T read write Fits fun _ => 0 := by
  refine (WireCodec.bind (Q := fun _ => True) (g := mRecipeUniqueId)
      codec_readString.reader fun _ _ =>
    WireCodec.bind (g := mIngredientList) codec_ingredients fun _ _ =>
    WireCodec.bind (g := mProductionList) codec_items fun _ _ =>
    WireCodec.bind (g := mRecipeId) UUID.codec fun _ _ =>
    WireCodec.bind (g := mRecipeTag) codec_readString.reader fun _ _ =>
    WireCodec.bind (g := mPriority) codec_readVarInt.reader fun _ _ =>
    WireCodec.bind (g := mUnlockingRequirement) RecipeUnlockingRequirement.codec fun _ _ =>
    WireCodec.bind (g := mNetId) codec_readUnsignedVarInt.reader fun _ _ =>
    WireCodec.pure fun recipe => by cases recipe; grind).congr ?_ ?_ ?_
  · simp [Fits]
  · simp [write]
  · simp

end ShapelessRecipe

/-- The fields and the functions are those of `ShapelessRecipe`. -/
structure UserDataShapelessRecipe extends ShapelessRecipe

namespace UserDataShapelessRecipe

def write (recipe : UserDataShapelessRecipe) : Bytes := recipe.toShapelessRecipe.write

def read : Reader UserDataShapelessRecipe := do
  let recipe ← ShapelessRecipe.read
  pure ⟨recipe⟩

end UserDataShapelessRecipe

/-- A shapeless recipe without anything that unlocks it. -/
structure ShapelessChemistryRecipe where
  mRecipeUniqueId : Bytes
  mIngredientList : List RecipeIngredient
  mProductionList : List NetworkItemInstanceDescriptor
  mRecipeId : UUID
  mRecipeTag : Bytes
  mPriority : Int32
  mNetId : UInt32

namespace ShapelessChemistryRecipe

def write (recipe : ShapelessChemistryRecipe) : Bytes :=
  writeString recipe.mRecipeUniqueId ++ writeIngredients recipe.mIngredientList ++
    writeItems recipe.mProductionList ++ recipe.mRecipeId.write ++ writeString recipe.mRecipeTag ++
    writeVarInt recipe.mPriority ++ writeUnsignedVarInt recipe.mNetId

def read : Reader ShapelessChemistryRecipe := do
  let mRecipeUniqueId ← StreamRead.reader readString
  let mIngredientList ← readIngredients
  let mProductionList ← readItems
  let mRecipeId ← UUID.read
  let mRecipeTag ← StreamRead.reader readString
  let mPriority ← StreamRead.reader readVarInt
  let mNetId ← StreamRead.reader readUnsignedVarInt
  pure ⟨mRecipeUniqueId, mIngredientList, mProductionList, mRecipeId, mRecipeTag, mPriority, mNetId⟩

def Fits (recipe : ShapelessChemistryRecipe) : Prop :=
  recipe.mRecipeUniqueId.length < 2 ^ 32 ∧ IngredientsFit recipe.mIngredientList ∧
    ItemsFit recipe.mProductionList ∧ recipe.mRecipeTag.length < 2 ^ 32

/-- So is one of chemistry. -/
theorem codec : WireCodec T read write Fits fun _ => 0 := by
  refine (WireCodec.bind (Q := fun _ => True) (g := mRecipeUniqueId)
      codec_readString.reader fun _ _ =>
    WireCodec.bind (g := mIngredientList) codec_ingredients fun _ _ =>
    WireCodec.bind (g := mProductionList) codec_items fun _ _ =>
    WireCodec.bind (g := mRecipeId) UUID.codec fun _ _ =>
    WireCodec.bind (g := mRecipeTag) codec_readString.reader fun _ _ =>
    WireCodec.bind (g := mPriority) codec_readVarInt.reader fun _ _ =>
    WireCodec.bind (g := mNetId) codec_readUnsignedVarInt.reader fun _ _ =>
    WireCodec.pure fun recipe => by cases recipe; grind).congr ?_ ?_ ?_
  · simp [Fits]
  · simp [write]
  · simp

end ShapelessChemistryRecipe

structure FurnaceRecipe

structure FurnaceAuxRecipe

structure MultiRecipe where
  mMultiRecipe : UUID
  mNetId : UInt32

namespace MultiRecipe

def write (recipe : MultiRecipe) : Bytes :=
  recipe.mMultiRecipe.write ++ writeUnsignedVarInt recipe.mNetId

def read : Reader MultiRecipe := do
  let mMultiRecipe ← UUID.read
  let mNetId ← StreamRead.reader readUnsignedVarInt
  pure ⟨mMultiRecipe, mNetId⟩

/-- A multi recipe is read back. -/
theorem codec : WireCodec T read write (fun _ => True) fun _ => 0 := by
  refine (WireCodec.bind (Q := fun _ => True) (g := mMultiRecipe) UUID.codec fun _ _ =>
    WireCodec.bind (g := mNetId) codec_readUnsignedVarInt.reader fun _ _ =>
    WireCodec.pure fun recipe => by cases recipe; grind).congr ?_ ?_ ?_
  · simp
  · simp [write]
  · simp

end MultiRecipe

structure SmithingTransformRecipe where
  mRecipeUniqueId : Bytes
  mTemplate : RecipeIngredient
  mBase : RecipeIngredient
  mAddition : RecipeIngredient
  mResult : NetworkItemInstanceDescriptor
  mRecipeTag : Bytes
  mNetId : UInt32

namespace SmithingTransformRecipe

def write (recipe : SmithingTransformRecipe) : Bytes :=
  writeString recipe.mRecipeUniqueId ++ recipe.mTemplate.write ++ recipe.mBase.write ++
    recipe.mAddition.write ++
    recipe.mResult.write ++ writeString recipe.mRecipeTag ++ writeUnsignedVarInt recipe.mNetId

def read : Reader SmithingTransformRecipe := do
  let mRecipeUniqueId ← StreamRead.reader readString
  let mTemplate ← RecipeIngredient.read
  let mBase ← RecipeIngredient.read
  let mAddition ← RecipeIngredient.read
  let mResult ← NetworkItemInstanceDescriptor.read .new
  let mRecipeTag ← StreamRead.reader readString
  let mNetId ← StreamRead.reader readUnsignedVarInt
  pure ⟨mRecipeUniqueId, mTemplate, mBase, mAddition, mResult, mRecipeTag, mNetId⟩

def Fits (recipe : SmithingTransformRecipe) : Prop :=
  recipe.mRecipeUniqueId.length < 2 ^ 32 ∧ recipe.mTemplate.Fits ∧ recipe.mBase.Fits ∧
    recipe.mAddition.Fits ∧
    NetworkItemInstanceDescriptor.Fits .new recipe.mResult ∧ recipe.mRecipeTag.length < 2 ^ 32

/-- A transforming recipe is read back. -/
theorem codec : WireCodec T read write Fits fun _ => 0 := by
  refine (WireCodec.bind (Q := fun _ => True) (g := mRecipeUniqueId)
      codec_readString.reader fun _ _ =>
    WireCodec.bind (g := mTemplate) RecipeIngredient.codec fun _ _ =>
    WireCodec.bind (g := mBase) RecipeIngredient.codec fun _ _ =>
    WireCodec.bind (g := mAddition) RecipeIngredient.codec fun _ _ =>
    WireCodec.bind (g := mResult) (NetworkItemInstanceDescriptor.codec .new) fun _ _ =>
    WireCodec.bind (g := mRecipeTag) codec_readString.reader fun _ _ =>
    WireCodec.bind (g := mNetId) codec_readUnsignedVarInt.reader fun _ _ =>
    WireCodec.pure fun recipe => by cases recipe; grind).congr ?_ ?_ ?_
  · simp [Fits]
  · simp [write]
  · simp

end SmithingTransformRecipe

structure SmithingTrimRecipe where
  mRecipeUniqueId : Bytes
  mTemplate : RecipeIngredient
  mBase : RecipeIngredient
  mAddition : RecipeIngredient
  mRecipeTag : Bytes
  mNetId : UInt32

namespace SmithingTrimRecipe

def write (recipe : SmithingTrimRecipe) : Bytes :=
  writeString recipe.mRecipeUniqueId ++ recipe.mTemplate.write ++ recipe.mBase.write ++
    recipe.mAddition.write ++
    writeString recipe.mRecipeTag ++ writeUnsignedVarInt recipe.mNetId

def read : Reader SmithingTrimRecipe := do
  let mRecipeUniqueId ← StreamRead.reader readString
  let mTemplate ← RecipeIngredient.read
  let mBase ← RecipeIngredient.read
  let mAddition ← RecipeIngredient.read
  let mRecipeTag ← StreamRead.reader readString
  let mNetId ← StreamRead.reader readUnsignedVarInt
  pure ⟨mRecipeUniqueId, mTemplate, mBase, mAddition, mRecipeTag, mNetId⟩

def Fits (recipe : SmithingTrimRecipe) : Prop :=
  recipe.mRecipeUniqueId.length < 2 ^ 32 ∧ recipe.mTemplate.Fits ∧ recipe.mBase.Fits ∧
    recipe.mAddition.Fits ∧
    recipe.mRecipeTag.length < 2 ^ 32

/-- A trimming recipe is read back. -/
theorem codec : WireCodec T read write Fits fun _ => 0 := by
  refine (WireCodec.bind (Q := fun _ => True) (g := mRecipeUniqueId)
      codec_readString.reader fun _ _ =>
    WireCodec.bind (g := mTemplate) RecipeIngredient.codec fun _ _ =>
    WireCodec.bind (g := mBase) RecipeIngredient.codec fun _ _ =>
    WireCodec.bind (g := mAddition) RecipeIngredient.codec fun _ _ =>
    WireCodec.bind (g := mRecipeTag) codec_readString.reader fun _ _ =>
    WireCodec.bind (g := mNetId) codec_readUnsignedVarInt.reader fun _ _ =>
    WireCodec.pure fun recipe => by cases recipe; grind).congr ?_ ?_ ?_
  · simp [Fits]
  · simp [write]
  · simp

end SmithingTrimRecipe

/-! ### Recipes with a grid -/

namespace ShapedRecipe

def write (recipe : ShapedRecipe) : Bytes :=
  writeString recipe.mRecipeUniqueId ++ writeVarInt recipe.mGridWidth ++
    writeVarInt recipe.mGridHeight ++
    recipe.mIngredientList.flatMap RecipeIngredient.write ++ writeItems recipe.mProductionList ++
    recipe.mRecipeId.write ++ writeString recipe.mRecipeTag ++ writeVarInt recipe.mPriority ++
    writeBool recipe.mAssumeSymmetry ++ recipe.mUnlockingRequirement.write ++
    writeUnsignedVarInt recipe.mNetId

/-- There are as many ingredients as the grid has places, and the 32-bit product is their number. -/
def GridFits (recipe : ShapedRecipe) : Prop :=
  recipe.mGridWidth.toInt * recipe.mGridHeight.toInt = recipe.mIngredientList.length ∧
    recipe.mIngredientList.length < 2 ^ 31

def Fits (recipe : ShapedRecipe) : Prop :=
  recipe.mRecipeUniqueId.length < 2 ^ 32 ∧ recipe.GridFits ∧
    (∀ ingredient ∈ recipe.mIngredientList, ingredient.Fits) ∧ ItemsFit recipe.mProductionList ∧
    recipe.mRecipeTag.length < 2 ^ 32 ∧ recipe.mUnlockingRequirement.Fits

/-- A grid of a good size has that many new ingredients; of another size none are read. -/
theorem grid_cases {α : Type} (width height : Int32) (f : List RecipeIngredient → Reader α) :
    (∃ count : ℕ, width.toInt * height.toInt = count ∧ count < 2 ^ 31 ∧
      (multiply width height >>= fun size => resize RecipeIngredient.new (sizeCast size) [] >>= f) =
        f (List.replicate count RecipeIngredient.new)) ∨
    ((∀ count : ℕ, width.toInt * height.toInt = count → ¬ count < 2 ^ 31) ∧ ∃ e,
      (multiply width height >>= fun size => resize RecipeIngredient.new (sizeCast size) [] >>= f) =
        fail e) := by
  by_cases hfits : -(2 ^ 31) ≤ width.toInt * height.toInt ∧ width.toInt * height.toInt < 2 ^ 31
  · have hsize : (Int32.ofInt (width.toInt * height.toInt)).toInt = width.toInt * height.toInt :=
      Int32.toInt_ofInt_of_le hfits.1 hfits.2
    rw [multiply, if_pos hfits]
    change _ ∨ _ ∧ ∃ e, (resize RecipeIngredient.new (sizeCast (Int32.ofInt _)) [] >>= f) = _
    -- a negative size is too large for a container
    rcases sizeCast_cases (Int32.ofInt (width.toInt * height.toInt)) with ⟨hnonneg, hcast,
      hmax⟩ | ⟨hneg, hmax⟩
    · rw [hsize] at hnonneg hcast
      refine Or.inl ⟨_, hcast.symm, by omega, ?_⟩
      change (resize RecipeIngredient.new (sizeCast (Int32.ofInt _)) [] >>= f) = _
      rw [resize, if_neg (Nat.not_lt.mpr hmax), List.take_nil, List.nil_append, List.length_nil,
        Nat.sub_zero]
      rfl
    · rw [hsize] at hneg
      refine Or.inr ⟨fun count hcount => by omega, .lengthError, ?_⟩
      rw [resize, if_pos hmax]
      rfl
  · rw [multiply, if_neg hfits]
    exact Or.inr ⟨fun count hcount hlt => hfits (by omega), .signedOverflow, rfl⟩

/-- A shaped recipe is read back. -/
theorem codec : WireCodec T (read []) write Fits fun _ => 0 := by
  refine (WireCodec.bind (Q := fun _ => True) (g := mRecipeUniqueId) codec_readString.reader
      fun id _ =>
    WireCodec.bind (g := mGridWidth) codec_readVarInt.reader fun width _ =>
    WireCodec.bind (g := mGridHeight)
      (R := fun recipe => recipe.GridFits ∧ (∀ ingredient ∈ recipe.mIngredientList,
        ingredient.Fits) ∧
        ItemsFit recipe.mProductionList ∧ True ∧ recipe.mRecipeTag.length < 2 ^ 32 ∧ True ∧ True ∧
        recipe.mUnlockingRequirement.Fits ∧ True ∧ True)
      (v := fun recipe => recipe.mIngredientList.flatMap RecipeIngredient.write ++
        (writeItems recipe.mProductionList ++
          (recipe.mRecipeId.write ++ (writeString recipe.mRecipeTag ++
          (writeVarInt recipe.mPriority ++ (writeBool recipe.mAssumeSymmetry ++
            (recipe.mUnlockingRequirement.write ++ (writeUnsignedVarInt recipe.mNetId ++ []))))))))
      (n := fun _ => 0) codec_readVarInt.reader fun height _ => ?_).congr ?_ ?_ ?_
  · rcases grid_cases width height (readRest id width height) with ⟨count, hcount, hlt,
      heq⟩ | ⟨hbad, e, heq⟩
    · rw [heq]
      -- the elements of the grid, and then the rest
      refine (WireCodec.bind (Q := fun recipe => recipe.mGridHeight = height ∧
        recipe.mGridWidth = width ∧
          recipe.mRecipeUniqueId = id) (g := mIngredientList)
        (WireCodec.each fun t _ => RecipeIngredient.codec) fun _ _ =>
        WireCodec.bind (g := mProductionList) codec_items fun _ _ =>
        WireCodec.bind (g := mRecipeId) UUID.codec fun _ _ =>
        WireCodec.bind (g := mRecipeTag) codec_readString.reader fun _ _ =>
        WireCodec.bind (g := mPriority) codec_readVarInt.reader fun _ _ =>
        WireCodec.bind (g := mAssumeSymmetry) codec_readBool.reader fun _ _ =>
        WireCodec.bind (g := mUnlockingRequirement) RecipeUnlockingRequirement.codec fun _ _ =>
        WireCodec.bind (g := mNetId) codec_readUnsignedVarInt.reader fun _ _ =>
        WireCodec.pure fun recipe => by cases recipe; grind).congr
        (fun recipe => ?_) (fun recipe _ => rfl) fun recipe _ => ?_
      · rw [List.length_replicate, GridFits]
        constructor
        · rintro ⟨⟨rfl, rfl, rfl⟩, ⟨hlength, hall⟩, hrest⟩
          exact ⟨⟨rfl, rfl, rfl, trivial⟩, ⟨hlength ▸ hcount, hlength ▸ hlt⟩, hall, hrest⟩
        · rintro ⟨⟨rfl, rfl, rfl, -⟩, ⟨hlength, -⟩, hall, hrest⟩
          exact ⟨⟨rfl, rfl, rfl⟩, ⟨Int.ofNat_inj.mp (hlength.symm.trans hcount), hall⟩, hrest⟩
      · simp
    · rw [heq]
      refine WireCodec.fail fun recipe => ?_
      rintro ⟨⟨rfl, rfl, rfl, -⟩, ⟨hgrid, hlt⟩, -⟩
      exact hbad _ hgrid hlt
  · simp [Fits]
  · simp [write]
  · simp

end ShapedRecipe

structure ShapedChemistryRecipe where
  mChemistryRecipe : ShapedRecipe

namespace ShapedChemistryRecipe

def write (recipe : ShapedChemistryRecipe) : Bytes := recipe.mChemistryRecipe.write

def read : Reader ShapedChemistryRecipe := do
  let mChemistryRecipe ← ShapedRecipe.read []
  pure ⟨mChemistryRecipe⟩

end ShapedChemistryRecipe

/-! ### Entries -/

/-- The alternatives of `CraftingDataEntry::RecipeVariant` -/
def RecipeAlternative : Fin 10 → Type
  | 0 => ShapelessRecipe
  | 1 => ShapedRecipe
  | 2 => FurnaceRecipe
  | 3 => FurnaceAuxRecipe
  | 4 => MultiRecipe
  | 5 => UserDataShapelessRecipe
  | 6 => ShapelessChemistryRecipe
  | 7 => ShapedChemistryRecipe
  | 8 => SmithingTransformRecipe
  | 9 => SmithingTrimRecipe

namespace RecipeAlternative

def value : ∀ i, RecipeAlternative i
  | 0 => (⟨[], [], [], ⟨0, 0⟩, [], 0, ⟨0, []⟩, 0⟩ : ShapelessRecipe)
  | 1 => (⟨[], 0, 0, [], [], ⟨0, 0⟩, [], 0, false, ⟨0, []⟩, 0⟩ : ShapedRecipe)
  | 2 => (⟨⟩ : FurnaceRecipe)
  | 3 => (⟨⟩ : FurnaceAuxRecipe)
  | 4 => (⟨⟨0, 0⟩, 0⟩ : MultiRecipe)
  | 5 => (⟨⟨[], [], [], ⟨0, 0⟩, [], 0, ⟨0, []⟩, 0⟩⟩ : UserDataShapelessRecipe)
  | 6 => (⟨[], [], [], ⟨0, 0⟩, [], 0, 0⟩ : ShapelessChemistryRecipe)
  | 7 => (⟨⟨[], 0, 0, [], [], ⟨0, 0⟩, [], 0, false, ⟨0, []⟩, 0⟩⟩ : ShapedChemistryRecipe)
  | 8 => (⟨[], .new, .new, .new, .new, [], 0⟩ : SmithingTransformRecipe)
  | 9 => (⟨[], .new, .new, .new, [], 0⟩ : SmithingTrimRecipe)

def write : ∀ i, RecipeAlternative i → Bytes
  | 0, (recipe : ShapelessRecipe) => recipe.write
  | 1, (recipe : ShapedRecipe) => recipe.write
  | 2, (_ : FurnaceRecipe) => []
  | 3, (_ : FurnaceAuxRecipe) => []
  | 4, (recipe : MultiRecipe) => recipe.write
  | 5, (recipe : UserDataShapelessRecipe) => recipe.write
  | 6, (recipe : ShapelessChemistryRecipe) => recipe.write
  | 7, (recipe : ShapedChemistryRecipe) => recipe.write
  | 8, (recipe : SmithingTransformRecipe) => recipe.write
  | 9, (recipe : SmithingTrimRecipe) => recipe.write

/-- The recipe that is read into is new. -/
def read : ∀ i, RecipeAlternative i → Reader (RecipeAlternative i)
  | 0, _ => ShapelessRecipe.read
  | 1, (recipe : ShapedRecipe) => ShapedRecipe.read recipe.mIngredientList
  | 2, (recipe : FurnaceRecipe) => pure recipe
  | 3, (recipe : FurnaceAuxRecipe) => pure recipe
  | 4, _ => MultiRecipe.read
  | 5, _ => UserDataShapelessRecipe.read
  | 6, _ => ShapelessChemistryRecipe.read
  | 7, _ => ShapedChemistryRecipe.read
  | 8, _ => SmithingTransformRecipe.read
  | 9, _ => SmithingTrimRecipe.read

def Fits : ∀ i, RecipeAlternative i → Prop
  | 0, (recipe : ShapelessRecipe) => recipe.Fits
  | 1, (recipe : ShapedRecipe) => recipe.Fits
  | 2, (_ : FurnaceRecipe) => True
  | 3, (_ : FurnaceAuxRecipe) => True
  | 4, (_ : MultiRecipe) => True
  | 5, (recipe : UserDataShapelessRecipe) => recipe.Fits
  | 6, (recipe : ShapelessChemistryRecipe) => recipe.Fits
  | 7, (recipe : ShapedChemistryRecipe) => recipe.mChemistryRecipe.Fits
  | 8, (recipe : SmithingTransformRecipe) => recipe.Fits
  | 9, (recipe : SmithingTrimRecipe) => recipe.Fits

/-- Every alternative is read back. -/
theorem codec : ∀ i, WireCodec T (read i (value i)) (write i) (Fits i) fun _ => 0
  | 0 => ShapelessRecipe.codec
  | 1 => ShapedRecipe.codec
  | 2 => (WireCodec.pure (γ := FurnaceRecipe) (Q := fun _ => True) fun _ => ⟨fun _ => rfl,
      fun _ => trivial⟩).congr
      (fun _ => by rw [and_true]; rfl) (fun _ _ => rfl) fun _ _ => rfl
  | 3 => (WireCodec.pure (γ := FurnaceAuxRecipe) (Q := fun _ => True) fun _ => ⟨fun _ => rfl,
      fun _ => trivial⟩).congr
      (fun _ => by rw [and_true]; rfl) (fun _ _ => rfl) fun _ _ => rfl
  | 4 => MultiRecipe.codec
  | 5 =>
    (WireCodec.bind_pure (γ := UserDataShapelessRecipe)
      (g := UserDataShapelessRecipe.toShapelessRecipe)
      ShapelessRecipe.codec fun recipe _ => by cases recipe; grind)
  | 6 => ShapelessChemistryRecipe.codec
  | 7 =>
    (WireCodec.bind_pure (γ := ShapedChemistryRecipe) (g := ShapedChemistryRecipe.mChemistryRecipe)
      ShapedRecipe.codec fun recipe _ => by cases recipe; grind)
  | 8 => SmithingTransformRecipe.codec
  | 9 => SmithingTrimRecipe.codec

end RecipeAlternative

structure CraftingDataEntry where
  mRecipe : Variant RecipeAlternative

namespace CraftingDataEntry

def new : CraftingDataEntry := ⟨0, RecipeAlternative.value 0⟩

def write (entry : CraftingDataEntry) : Bytes :=
  writeVariant .plain Prefix.varInt RecipeAlternative.write entry.mRecipe

def read : Reader CraftingDataEntry := do
  let mRecipe ← readVariant .plain Prefix.varInt RecipeAlternative.value RecipeAlternative.read
  pure ⟨mRecipe⟩

def Fits (entry : CraftingDataEntry) : Prop :=
  RecipeAlternative.Fits entry.mRecipe.1 entry.mRecipe.2

/-- An entry is read back. -/
theorem codec : WireCodec T read write Fits fun _ => 0 := by
  have hindex : ∀ i : Fin 10, Prefix.varInt.Fits i := fun i => Nat.lt_trans i.isLt (by decide)
  exact (codec_readVariant codec_varInt hindex RecipeAlternative.codec).bind_pure (g := mRecipe)
    fun entry _ => by cases entry; grind

end CraftingDataEntry

structure PotionMixDataEntry where
  mFromPotionId : Int32
  mFromPotionAux : Int32
  mReagentItemId : Int32
  mReagentItemAux : Int32
  mToPotionId : Int32
  mToPotionAux : Int32

namespace PotionMixDataEntry

def new : PotionMixDataEntry := ⟨0, 0, 0, 0, 0, 0⟩

def write (entry : PotionMixDataEntry) : Bytes :=
  writeVarInt entry.mFromPotionId ++ writeVarInt entry.mFromPotionAux ++
    writeVarInt entry.mReagentItemId ++
    writeVarInt entry.mReagentItemAux ++ writeVarInt entry.mToPotionId ++
    writeVarInt entry.mToPotionAux

def read : Reader PotionMixDataEntry := do
  let mFromPotionId ← StreamRead.reader readVarInt
  let mFromPotionAux ← StreamRead.reader readVarInt
  let mReagentItemId ← StreamRead.reader readVarInt
  let mReagentItemAux ← StreamRead.reader readVarInt
  let mToPotionId ← StreamRead.reader readVarInt
  let mToPotionAux ← StreamRead.reader readVarInt
  pure ⟨mFromPotionId, mFromPotionAux, mReagentItemId, mReagentItemAux, mToPotionId, mToPotionAux⟩

/-- A potion mix is read back. -/
theorem codec : WireCodec T read write (fun _ => True) fun _ => 0 := by
  refine (WireCodec.bind (Q := fun _ => True) (g := mFromPotionId)
      codec_readVarInt.reader fun _ _ =>
    WireCodec.bind (g := mFromPotionAux) codec_readVarInt.reader fun _ _ =>
    WireCodec.bind (g := mReagentItemId) codec_readVarInt.reader fun _ _ =>
    WireCodec.bind (g := mReagentItemAux) codec_readVarInt.reader fun _ _ =>
    WireCodec.bind (g := mToPotionId) codec_readVarInt.reader fun _ _ =>
    WireCodec.bind (g := mToPotionAux) codec_readVarInt.reader fun _ _ =>
    WireCodec.pure fun entry => by cases entry; grind).congr ?_ ?_ ?_
  · simp
  · simp [write]
  · simp

end PotionMixDataEntry

structure ContainerMixDataEntry where
  mInputItemId : Int32
  mReagentItemId : Int32
  mToItemId : Int32

namespace ContainerMixDataEntry

def new : ContainerMixDataEntry := ⟨0, 0, 0⟩

def write (entry : ContainerMixDataEntry) : Bytes :=
  writeVarInt entry.mInputItemId ++ writeVarInt entry.mReagentItemId ++ writeVarInt entry.mToItemId

def read : Reader ContainerMixDataEntry := do
  let mInputItemId ← StreamRead.reader readVarInt
  let mReagentItemId ← StreamRead.reader readVarInt
  let mToItemId ← StreamRead.reader readVarInt
  pure ⟨mInputItemId, mReagentItemId, mToItemId⟩

/-- A container mix is read back. -/
theorem codec : WireCodec T read write (fun _ => True) fun _ => 0 := by
  refine (WireCodec.bind (Q := fun _ => True) (g := mInputItemId) codec_readVarInt.reader fun _ _ =>
    WireCodec.bind (g := mReagentItemId) codec_readVarInt.reader fun _ _ =>
    WireCodec.bind (g := mToItemId) codec_readVarInt.reader fun _ _ =>
    WireCodec.pure fun entry => by cases entry; grind).congr ?_ ?_ ?_
  · simp
  · simp [write]
  · simp

end ContainerMixDataEntry

/-- `MaterialReducerDataEntry::ItemInfo` -/
structure ItemInfo where
  mItemId : Int32
  mItemCount : Int32

namespace ItemInfo

def write (info : ItemInfo) : Bytes := writeVarInt info.mItemId ++ writeVarInt info.mItemCount

def read : Reader ItemInfo := do
  let mItemId ← StreamRead.reader readVarInt
  let mItemCount ← StreamRead.reader readVarInt
  pure ⟨mItemId, mItemCount⟩

/-- An item is read back. -/
theorem codec : WireCodec T read write (fun _ => True) fun _ => 0 := by
  refine (WireCodec.bind (Q := fun _ => True) (g := mItemId) codec_readVarInt.reader fun _ _ =>
    WireCodec.bind (g := mItemCount) codec_readVarInt.reader fun _ _ =>
    WireCodec.pure fun info => by cases info; grind).congr ?_ ?_ ?_
  · simp
  · simp [write]
  · simp

end ItemInfo

structure MaterialReducerDataEntry where
  mInput : Int32
  mItems : List ItemInfo

namespace MaterialReducerDataEntry

def new : MaterialReducerDataEntry := ⟨0, []⟩

def write (entry : MaterialReducerDataEntry) : Bytes :=
  writeVarInt entry.mInput ++ writeArray Prefix.unsignedVarInt ItemInfo.write entry.mItems

def read (entry : MaterialReducerDataEntry) : Reader MaterialReducerDataEntry := do
  let mInput ← StreamRead.reader readVarInt
  let mItems ← readUnsignedArray ⟨0, 0⟩ (fun _ => ItemInfo.read) entry.mItems
  pure ⟨mInput, mItems⟩

/-- A material reducer is read back. -/
theorem codec (target : MaterialReducerDataEntry) :
    WireCodec T (read target) write (fun entry => entry.mItems.length < 2 ^ 32) fun _ => 0 := by
  refine (WireCodec.bind (Q := fun _ => True) (g := mInput) codec_readVarInt.reader fun _ _ =>
    WireCodec.bind (g := mItems) (codec_readUnsignedArray fun _ _ => ItemInfo.codec) fun _ _ =>
    WireCodec.pure fun entry => by cases entry; grind).congr ?_ ?_ ?_
  · simp
  · simp [write]
  · simp

end MaterialReducerDataEntry

/-! ### The packet -/

structure CraftingDataPacket where
  mCraftingDataEntries : List CraftingDataEntry
  mPotionMixDataEntries : List PotionMixDataEntry
  mContainerMixDataEntries : List ContainerMixDataEntry
  mMaterialReducerDataEntries : List MaterialReducerDataEntry
  mClearRecipe : Bool

namespace CraftingDataPacket

def new : CraftingDataPacket := ⟨[], [], [], [], false⟩

def write (packet : CraftingDataPacket) : Bytes :=
  writeArray Prefix.unsignedVarInt CraftingDataEntry.write packet.mCraftingDataEntries ++
    writeArray Prefix.unsignedVarInt PotionMixDataEntry.write packet.mPotionMixDataEntries ++
    writeArray Prefix.unsignedVarInt ContainerMixDataEntry.write packet.mContainerMixDataEntries ++
    writeArray Prefix.unsignedVarInt MaterialReducerDataEntry.write
      packet.mMaterialReducerDataEntries ++
    writeBool packet.mClearRecipe

def read (packet : CraftingDataPacket) : Reader CraftingDataPacket := do
  let mCraftingDataEntries ← readUnsignedArray .new (fun _ => CraftingDataEntry.read)
    packet.mCraftingDataEntries
  let mPotionMixDataEntries ← readUnsignedArray .new (fun _ => PotionMixDataEntry.read)
    packet.mPotionMixDataEntries
  let mContainerMixDataEntries ←
    readUnsignedArray .new (fun _ => ContainerMixDataEntry.read) packet.mContainerMixDataEntries
  let mMaterialReducerDataEntries ←
    readUnsignedArray .new MaterialReducerDataEntry.read packet.mMaterialReducerDataEntries
  let mClearRecipe ← StreamRead.reader readBool
  pure ⟨mCraftingDataEntries, mPotionMixDataEntries, mContainerMixDataEntries,
    mMaterialReducerDataEntries, mClearRecipe⟩

def Fits (packet : CraftingDataPacket) : Prop :=
  (packet.mCraftingDataEntries.length < 2 ^ 32 ∧ ∀ entry ∈ packet.mCraftingDataEntries,
    entry.Fits) ∧
    packet.mPotionMixDataEntries.length < 2 ^ 32 ∧ packet.mContainerMixDataEntries.length < 2 ^ 32 ∧
    packet.mMaterialReducerDataEntries.length < 2 ^ 32 ∧
    ∀ entry ∈ packet.mMaterialReducerDataEntries, entry.mItems.length < 2 ^ 32

/-- The packet is read back. -/
theorem codec (target : CraftingDataPacket) : WireCodec T (read target) write Fits fun _ => 0 := by
  refine (WireCodec.bind (Q := fun _ => True) (g := mCraftingDataEntries)
      (codec_readUnsignedArray fun _ _ => CraftingDataEntry.codec) fun _ _ =>
    WireCodec.bind (g := mPotionMixDataEntries)
      (codec_readUnsignedArray fun _ _ => PotionMixDataEntry.codec) fun _ _ =>
    WireCodec.bind (g := mContainerMixDataEntries)
      (codec_readUnsignedArray fun _ _ => ContainerMixDataEntry.codec) fun _ _ =>
    WireCodec.bind (g := mMaterialReducerDataEntries)
      (codec_readUnsignedArray fun target _ => MaterialReducerDataEntry.codec target) fun _ _ =>
    WireCodec.bind (g := mClearRecipe) codec_readBool.reader fun _ _ =>
    WireCodec.pure fun packet => by cases packet; grind).congr ?_ ?_ ?_
  · simp [Fits]
  · simp [write]
  · simp

/-- **Which packets come back**, into whatever packet they are read. -/
theorem packets_read_back_iff (target packet : CraftingDataPacket) :
    Accepts (read target) packet.write packet ↔ packet.Fits :=
  (codec (T := True) target).reads_back_iff_of_complete rfl

/-- A list with `2 ^ 32` elements is counted as empty, and a string of as many bytes as well. -/
theorem packets_cut_sizes :
    let mixes : CraftingDataPacket := ⟨[], List.replicate (2 ^ 32) .new, [], [], false⟩
    let trim : SmithingTrimRecipe := ⟨[], .new, .new, .new, List.replicate (2 ^ 32) 97, 1⟩
    let recipes : CraftingDataPacket := ⟨[⟨9, trim⟩], [], [], [], false⟩
    ¬ Accepts (read new) mixes.write mixes ∧ ¬ Accepts (read new) recipes.write recipes := by
  intro mixes trim recipes
  constructor
  · intro h
    have hfits := ((codec (T := True) new).reads_back_iff_of_complete rfl).mp h
    have hlength : mixes.mPotionMixDataEntries.length = 2 ^ 32 := List.length_replicate
    exact Nat.lt_irrefl _ (hlength ▸ hfits.2.1)
  · intro h
    have hfits := ((codec (T := True) new).reads_back_iff_of_complete rfl).mp h
    have htrim : trim.Fits := hfits.1.2 _ List.mem_cons_self
    have hlength : trim.mRecipeTag.length = 2 ^ 32 := List.length_replicate
    exact Nat.lt_irrefl _ (hlength ▸ htrim.2.2.2.2)

end CraftingDataPacket

end SculkProtocol
