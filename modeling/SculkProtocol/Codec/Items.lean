import SculkProtocol.Codec.Recipes
import SculkProtocol.Utility.WireCodecs

/-!
# Items

What writes the parts of recipes, and `NetworkItemStackDescriptor` with its two encodings. The
fields that follow an id are written and read only if the id is not 0; a reader leaves them as
they are in the object that it reads into.

For each pair of functions `Fits` says which values come back: an item without an id has the
fields of the object it is read into, and a size fits its prefix.
-/

namespace SculkProtocol

open Decoder BinaryStream ReadOnlyBinaryStream StreamRead

variable {T : Prop}

/-- A list of values of which the same is written. -/
theorem writeArray_map {α : Type} {before : Prefix} {w : α → Bytes} {f : α → α}
    (h : ∀ x, w (f x) = w x)
    (xs : List α) : writeArray before w (xs.map f) = writeArray before w xs := by
  simp only [writeArray, List.length_map, List.flatMap_map, h]

/-- A new list, with the prefix that it has by default. -/
theorem codec_newArray {α : Type} {value : α} {r : α → Reader α} {w : α → Bytes} {P : α → Prop}
    (h : WireCodec T (r value) w P fun _ => 0) :
    WireCodec T (readUnsignedArray value r []) (writeArray Prefix.unsignedVarInt w)
      (fun xs => xs.length < 2 ^ 32 ∧ ∀ x ∈ xs, P x) fun _ => 0 := by
  have helements : ∀ t, t = value ∨ t ∈ [] → WireCodec T (r t) w P fun _ => 0 := by
    rintro t (rfl | ht)
    · exact h
    · exact absurd ht List.not_mem_nil
  exact (codec_readUnsignedArray helements).congr (fun _ => Iff.rfl) (fun _ _ => rfl)
    fun xs _ => by simp

/-! ### Parts of recipes -/

def BlockPos.write (pos : BlockPos) : Bytes :=
  writeVarInt pos.mX ++ writeVarInt pos.mY ++ writeVarInt pos.mZ

/-- A position is read back. -/
theorem BlockPos.codec : WireCodec T BlockPos.read BlockPos.write (fun _ => True) fun _ => 0 := by
  refine (WireCodec.bind (Q := fun _ => True) (g := BlockPos.mX) codec_readVarInt.reader fun mX _ =>
    WireCodec.bind (g := BlockPos.mY) codec_readVarInt.reader fun mY _ =>
    WireCodec.bind (g := BlockPos.mZ) codec_readVarInt.reader fun mZ _ =>
    WireCodec.pure fun pos => by cases pos; grind).congr ?_ ?_ ?_
  · simp
  · simp [write]
  · simp

def UUID.write (id : UUID) : Bytes :=
  writeUnsignedInt64 id.mMostSignificantBits ++ writeUnsignedInt64 id.mLeastSignificantBits

/-- A UUID is read back. -/
theorem UUID.codec : WireCodec T UUID.read UUID.write (fun _ => True) fun _ => 0 := by
  refine (WireCodec.bind (Q := fun _ => True) (g := mMostSignificantBits)
    (codec_scalar Scalar.uint64).reader fun _ _ =>
    WireCodec.bind (g := mLeastSignificantBits) (codec_scalar Scalar.uint64).reader fun _ _ =>
    WireCodec.pure fun id => by cases id; grind).congr ?_ ?_ ?_
  · simp
  · simp [write, writeUnsignedInt64]
  · simp

namespace NetworkItemInstanceDescriptor

def write (item : NetworkItemInstanceDescriptor) : Bytes :=
  if item.mId = 0 then writeVarInt 0
  else
    writeVarInt item.mId ++ writeUnsignedShort item.mStackSize ++ writeUnsignedVarInt item.mAux ++
      writeVarInt item.mBlockRuntimeId ++ writeString item.mUserData

/-- The items that are read into `target`. -/
def Fits (target item : NetworkItemInstanceDescriptor) : Prop :=
  if item.mId = 0 then item = { target with mId := 0 } else item.mUserData.length < 2 ^ 32

/-- A descriptor is read back. -/
theorem codec (target : NetworkItemInstanceDescriptor) :
    WireCodec T (read target) write (Fits target) fun _ => 0 := by
  refine (WireCodec.bind (Q := fun _ => True) (g := mId) (R := Fits target) (n := fun _ => 0)
    (v := fun item => if item.mId = 0 then [] else
      writeUnsignedShort item.mStackSize ++ (writeUnsignedVarInt item.mAux ++
        (writeVarInt item.mBlockRuntimeId ++ writeString item.mUserData)))
    codec_readVarInt.reader fun id _ => ?_).congr ?_ ?_ ?_
  · split
    · next hzero =>
      -- id 0: nothing follows, and the other fields keep what the target holds
      refine (WireCodec.pure (Q := fun item => item = { target with mId := id })
        fun _ => Iff.rfl).congr
        (fun item => ?_) (fun item hitem => ?_) fun _ _ => rfl
      · subst hzero
        constructor
        · rintro ⟨rfl, -⟩
          exact ⟨⟨rfl, trivial⟩, by rw [Fits, if_pos rfl]⟩
        · rintro ⟨⟨hid, -⟩, hfits⟩
          rw [Fits, if_pos hid] at hfits
          exact ⟨hfits, trivial⟩
      · rw [hitem.1]
        simp [hzero]
    · next hne =>
      -- every field is written, and comes back whatever the target held
      refine (WireCodec.bind (Q := fun item => item.mId = id) (g := mStackSize)
        (codec_scalar Scalar.uint16).reader fun _ _ =>
        WireCodec.bind (g := mAux) codec_readUnsignedVarInt.reader fun _ _ =>
        WireCodec.bind (g := mBlockRuntimeId) codec_readVarInt.reader fun _ _ =>
        WireCodec.bind (g := mUserData) codec_readString.reader fun _ _ =>
        WireCodec.pure fun item => by cases item; grind).congr
        (fun item => ?_) (fun item hitem => ?_) fun _ _ => rfl
      · constructor
        · rintro ⟨rfl, -, -, -, hsize, -⟩
          exact ⟨⟨rfl, trivial⟩, by rwa [Fits, if_neg hne]⟩
        · rintro ⟨⟨rfl, -⟩, hfits⟩
          rw [Fits, if_neg hne] at hfits
          exact ⟨rfl, trivial, trivial, trivial, hfits, trivial⟩
      · rw [hitem.1, if_neg hne, List.append_nil]
        rfl
  · simp
  · intro item _
    unfold write
    split
    · next hzero => rw [hzero, List.append_nil]
    · simp
  · simp

/-- What arrives in a new object. -/
def received (item : NetworkItemInstanceDescriptor) : NetworkItemInstanceDescriptor :=
  if item.mId = 0 then new else item

def Sendable (item : NetworkItemInstanceDescriptor) : Prop :=
  item.mId ≠ 0 → item.mUserData.length < 2 ^ 32

/-- What is received is written as what was sent. -/
theorem write_received (item : NetworkItemInstanceDescriptor) :
    item.received.write = item.write := by
  unfold received
  split
  · next hzero =>
    rw [write, if_pos (show new.mId = 0 from rfl), write, if_pos hzero]
  · rfl

/-- What is received of a descriptor that may be sent fits. -/
theorem Sendable.fits {item : NetworkItemInstanceDescriptor} (h : item.Sendable) :
    Fits new item.received := by
  unfold received
  split
  · rw [Fits, if_pos (show new.mId = 0 from rfl)]
    rfl
  · next hne =>
    rw [Fits, if_neg hne]
    exact h hne

end NetworkItemInstanceDescriptor

namespace DescriptorAlternative

/-- The overloads that `RecipeIngredient::write` visits the alternatives with. -/
def write : ∀ i, DescriptorAlternative i → Bytes
  | ⟨0, _⟩, _ => []
  | ⟨1, _⟩, (descriptor : InternalItemDescriptor) =>
    writeSignedShort descriptor.mId ++ if descriptor.mId ≠ 0 then writeSignedShort descriptor.mAux
                                       else []
  | ⟨2, _⟩, (descriptor : MolangDescriptor) =>
    writeString descriptor.mMolangFullName ++ writeByte descriptor.mMolangVersion
  | ⟨3, _⟩, (descriptor : ItemTagDescriptor) => writeString descriptor.mItemTag
  | ⟨4, _⟩, (descriptor : DeferredDescriptor) =>
    writeString descriptor.mDeferredFullName ++ writeUnsignedShort descriptor.mAux
  | ⟨5, _⟩, (descriptor : ComplexAliasDescriptor) => writeString descriptor.mName

/-- Without an id there is no `mAux`. -/
def Fits : ∀ i, DescriptorAlternative i → Prop
  | ⟨0, _⟩, _ => True
  | ⟨1, _⟩, (descriptor : InternalItemDescriptor) => descriptor.mId = 0 → descriptor.mAux = 0
  | ⟨2, _⟩, (descriptor : MolangDescriptor) => descriptor.mMolangFullName.length < 2 ^ 32
  | ⟨3, _⟩, (descriptor : ItemTagDescriptor) => descriptor.mItemTag.length < 2 ^ 32
  | ⟨4, _⟩, (descriptor : DeferredDescriptor) => descriptor.mDeferredFullName.length < 2 ^ 32
  | ⟨5, _⟩, (descriptor : ComplexAliasDescriptor) => descriptor.mName.length < 2 ^ 32

/-- The alternative with an id is read back. -/
theorem codec_internal : WireCodec T (read 1 (value 1)) (write 1) (Fits 1) fun _ => 0 := by
  refine (WireCodec.bind (γ := InternalItemDescriptor) (Q := fun _ => True)
    (g := InternalItemDescriptor.mId)
    (R := fun descriptor => descriptor.mId = 0 → descriptor.mAux = 0) (n := fun _ => 0)
    (v := fun descriptor => if descriptor.mId ≠ 0 then writeSignedShort descriptor.mAux else [])
    (codec_scalar Scalar.int16).reader fun id _ => ?_).congr ?_ (fun _ _ => rfl) fun _ _ => rfl
  · -- only an item with an id has an aux value
    split
    · next hne =>
      refine (WireCodec.bind (Q := fun descriptor => descriptor.mId = id)
        (g := InternalItemDescriptor.mAux)
        (codec_scalar Scalar.int16).reader fun _ _ =>
        WireCodec.pure fun descriptor => by cases descriptor; grind).congr
        (fun descriptor => ?_) (fun descriptor h => ?_) fun _ _ => rfl
      · constructor
        · rintro ⟨rfl, -⟩
          exact ⟨⟨rfl, trivial⟩, fun hzero => absurd hzero hne⟩
        · rintro ⟨⟨rfl, -⟩, -⟩
          exact ⟨rfl, trivial, trivial⟩
      · rw [h.1, if_pos hne, List.append_nil]
        rfl
    · next hzero =>
      rw [not_not] at hzero
      refine (WireCodec.pure (Q := fun descriptor => descriptor = ⟨id, 0⟩) fun _ => Iff.rfl).congr
        (fun descriptor => ?_) (fun descriptor h => ?_) fun _ _ => rfl
      · subst hzero
        cases descriptor
        grind
      · rw [h.1]
        simp [hzero]
  · intro descriptor
    show True ∧ True ∧ _ ↔ _
    rw [true_and, true_and]
    rfl

/-- Every alternative is read back. -/
theorem codec : ∀ i, WireCodec T (read i (value i)) (write i) (Fits i) fun _ => 0
  | 0 => (WireCodec.pure (γ := Unit) (Q := fun _ => True) fun _ => by simp).congr
      (fun _ => by rw [and_true]; rfl) (fun _ _ => rfl) fun _ _ => rfl
  | 1 => codec_internal
  | 2 => (WireCodec.bind (γ := MolangDescriptor) (Q := fun _ => True)
      (g := MolangDescriptor.mMolangFullName)
      codec_readString.reader fun _ _ =>
      WireCodec.bind (g := MolangDescriptor.mMolangVersion) codec_readByte.reader fun _ _ =>
      WireCodec.pure fun descriptor => by cases descriptor; grind).congr
      (fun _ => by simp [Fits]) (fun _ _ => by simp [write]) fun _ _ => rfl
  | 3 => (WireCodec.bind_pure (γ := ItemTagDescriptor) (g := ItemTagDescriptor.mItemTag)
      codec_readString.reader
      fun descriptor _ => by cases descriptor; grind)
  | 4 => (WireCodec.bind (γ := DeferredDescriptor) (Q := fun _ => True)
      (g := DeferredDescriptor.mDeferredFullName)
      codec_readString.reader fun _ _ =>
      WireCodec.bind (g := DeferredDescriptor.mAux) (codec_scalar Scalar.uint16).reader fun _ _ =>
      WireCodec.pure fun descriptor => by cases descriptor; grind).congr
      (fun _ => by simp [Fits]) (fun _ _ => by simp [write, writeUnsignedShort]) fun _ _ => rfl
  | 5 => (WireCodec.bind_pure (γ := ComplexAliasDescriptor) (g := ComplexAliasDescriptor.mName)
      codec_readString.reader fun descriptor _ => by cases descriptor; grind)

/-- What arrives in a new object. -/
def receivedInternal (descriptor : InternalItemDescriptor) : InternalItemDescriptor :=
  if descriptor.mId = 0 then ⟨0, 0⟩ else descriptor

def received : ∀ i, DescriptorAlternative i → DescriptorAlternative i
  | ⟨1, _⟩, (descriptor : InternalItemDescriptor) => receivedInternal descriptor
  | ⟨0, _⟩, descriptor | ⟨2, _⟩, descriptor | ⟨3, _⟩, descriptor | ⟨4, _⟩, descriptor
  | ⟨5, _⟩, descriptor => descriptor

def Sendable : ∀ i, DescriptorAlternative i → Prop
  | ⟨0, _⟩, _ | ⟨1, _⟩, _ => True
  | ⟨2, _⟩, (descriptor : MolangDescriptor) => descriptor.mMolangFullName.length < 2 ^ 32
  | ⟨3, _⟩, (descriptor : ItemTagDescriptor) => descriptor.mItemTag.length < 2 ^ 32
  | ⟨4, _⟩, (descriptor : DeferredDescriptor) => descriptor.mDeferredFullName.length < 2 ^ 32
  | ⟨5, _⟩, (descriptor : ComplexAliasDescriptor) => descriptor.mName.length < 2 ^ 32

/-- An alternative that is received is written as the one that was sent. -/
theorem write_received : ∀ i descriptor, write i (received i descriptor) = write i descriptor
  | 0, _ | 2, _ | 3, _ | 4, _ | 5, _ => rfl
  | 1, (descriptor : InternalItemDescriptor) => by
    show write 1 (receivedInternal descriptor) = _
    unfold receivedInternal
    split
    · next hzero => simp [write, hzero]
    · rfl

/-- What is received of an alternative that may be sent fits. -/
theorem Sendable.fits : ∀ {i descriptor}, Sendable i descriptor → Fits i (received i descriptor)
  | 0, _, h | 2, _, h | 3, _, h | 4, _, h | 5, _, h => h
  | 1, (descriptor : InternalItemDescriptor), _ => by
    show Fits 1 (receivedInternal descriptor)
    unfold receivedInternal
    split
    · exact fun _ => rfl
    · next hne => exact fun hzero => absurd hzero hne

end DescriptorAlternative

namespace RecipeIngredient

def write (ingredient : RecipeIngredient) : Bytes :=
  writeVariant .plain Prefix.byte DescriptorAlternative.write ingredient.mDescriptor ++
    writeVarInt ingredient.mStackSize

def Fits (ingredient : RecipeIngredient) : Prop :=
  DescriptorAlternative.Fits ingredient.mDescriptor.1 ingredient.mDescriptor.2

/-- An ingredient is read back. -/
theorem codec : WireCodec T read write Fits fun _ => 0 := by
  refine (WireCodec.bind (Q := fun _ => True) (g := mDescriptor)
    (codec_readVariant codec_byte (fun i => ?_) DescriptorAlternative.codec) fun _ _ =>
    WireCodec.bind (g := mStackSize) codec_readVarInt.reader fun _ _ =>
    WireCodec.pure fun ingredient => by cases ingredient; grind).congr ?_ ?_ ?_
  · exact Nat.lt_trans i.isLt (by decide)
  · simp [Fits]
  · simp [write]
  · simp

/-- What arrives in a new object. -/
def received (ingredient : RecipeIngredient) : RecipeIngredient :=
  ⟨⟨ingredient.mDescriptor.1, DescriptorAlternative.received _ ingredient.mDescriptor.2⟩,
    ingredient.mStackSize⟩

def Sendable (ingredient : RecipeIngredient) : Prop :=
  DescriptorAlternative.Sendable ingredient.mDescriptor.1 ingredient.mDescriptor.2

/-- An ingredient that is received is written as the one that was sent. -/
theorem write_received (ingredient : RecipeIngredient) :
    ingredient.received.write = ingredient.write := by
  simp only [write, writeVariant, received, DescriptorAlternative.write_received]

/-- What is received of an ingredient that may be sent fits. -/
theorem Sendable.fits {ingredient : RecipeIngredient} (h : ingredient.Sendable) :
    ingredient.received.Fits :=
  DescriptorAlternative.Sendable.fits h

end RecipeIngredient

/-! ### Item stacks -/

structure ItemStackNetId where
  mId : Int32
  deriving DecidableEq

structure ItemStackRequestId where
  mId : Int32
  deriving DecidableEq

structure ItemStackLegacyRequestId where
  mId : Int32
  deriving DecidableEq

/-- The alternatives of `NetIdVariant` -/
def NetIdAlternative : Fin 3 → Type
  | 0 => ItemStackNetId
  | 1 => ItemStackRequestId
  | 2 => ItemStackLegacyRequestId

namespace NetIdAlternative

def value : ∀ i, NetIdAlternative i
  | 0 => (⟨0⟩ : ItemStackNetId)
  | 1 => (⟨0⟩ : ItemStackRequestId)
  | 2 => (⟨0⟩ : ItemStackLegacyRequestId)

def write : ∀ i, NetIdAlternative i → Bytes
  | 0, (id : ItemStackNetId) => writeVarInt id.mId
  | 1, (id : ItemStackRequestId) => writeVarInt id.mId
  | 2, (id : ItemStackLegacyRequestId) => writeVarInt id.mId

def read : ∀ i, NetIdAlternative i → Reader (NetIdAlternative i)
  | 0, _ => do
    let mId ← StreamRead.reader readVarInt
    pure (⟨mId⟩ : ItemStackNetId)
  | 1, _ => do
    let mId ← StreamRead.reader readVarInt
    pure (⟨mId⟩ : ItemStackRequestId)
  | 2, _ => do
    let mId ← StreamRead.reader readVarInt
    pure (⟨mId⟩ : ItemStackLegacyRequestId)

/-- Every kind of net id is read back. -/
theorem codec : ∀ i, WireCodec T (read i (value i)) (write i) (fun _ => True) fun _ => 0
  | 0 =>
    (WireCodec.bind_pure (γ := ItemStackNetId) (g := ItemStackNetId.mId) codec_readVarInt.reader
      fun id _ => by cases id; grind)
  | 1 =>
    (WireCodec.bind_pure (γ := ItemStackRequestId) (g := ItemStackRequestId.mId)
      codec_readVarInt.reader
      fun id _ => by cases id; grind)
  | 2 => (WireCodec.bind_pure (γ := ItemStackLegacyRequestId) (g := ItemStackLegacyRequestId.mId)
      codec_readVarInt.reader fun id _ => by cases id; grind)

end NetIdAlternative

abbrev NetIdVariant := Variant NetIdAlternative

namespace NetIdVariant

/-- A variant that is new has its first alternative. -/
def new : NetIdVariant := ⟨0, NetIdAlternative.value 0⟩

/-- A net id of the first kind. -/
def ofNetId (id : Int32) : NetIdVariant := ⟨0, (⟨id⟩ : ItemStackNetId)⟩

/-- `std::visit` with what writes an alternative: its index is not written. -/
def write (var : NetIdVariant) : Bytes := NetIdAlternative.write var.1 var.2

/-- `std::visit` with what reads into the alternative that there is. -/
def read (var : NetIdVariant) : Reader NetIdVariant := do
  let id ← NetIdAlternative.read var.1 var.2
  pure ⟨var.1, id⟩

/-- Only the first alternative comes back. -/
theorem codec : WireCodec T (read new) write (fun var => var.1 = 0) fun _ => 0 := by
  refine (NetIdAlternative.codec 0).inj (k := fun id => (⟨0, id⟩ : NetIdVariant)) (fun _ => rfl)
    (fun _ => rfl)
    fun var => ⟨fun hvar => ?_, ?_⟩
  · obtain ⟨i, id⟩ := var
    subst hvar
    exact ⟨id, rfl, trivial⟩
  · rintro ⟨id, rfl, -⟩
    rfl

/-- The pair of functions with the index. -/
def writeCereal (var : NetIdVariant) : Bytes :=
  writeVariant .plain Prefix.unsignedVarInt NetIdAlternative.write var

def readCereal : Reader NetIdVariant :=
  readVariant .plain Prefix.unsignedVarInt NetIdAlternative.value NetIdAlternative.read

/-- So is one in the Cereal form. -/
theorem codecCereal : WireCodec T readCereal writeCereal (fun _ => True) fun _ => 0 :=
  codec_readVariant codec_unsignedVarInt (fun i => Nat.lt_trans i.isLt (by decide))
    NetIdAlternative.codec

end NetIdVariant

structure NetworkItemStackDescriptor where
  mId : Int16
  mStackSize : UInt16
  mAux : UInt32
  mNetId : Option NetIdVariant
  mBlockRuntimeId : UInt32
  mUserData : Bytes

namespace NetworkItemStackDescriptor

def new : NetworkItemStackDescriptor := ⟨0, 0, 0, none, 0, []⟩

def write (item : NetworkItemStackDescriptor) : Bytes :=
  if item.mId = 0 then writeVarInt 0
  else
    writeVarInt item.mId.toInt32 ++ writeUnsignedShort item.mStackSize ++
      writeUnsignedVarInt item.mAux ++
      writeOptional NetIdVariant.write item.mNetId ++ writeVarInt item.mBlockRuntimeId.toInt32 ++
      writeString item.mUserData

/-- The id is cast to a short. Without an id the other fields stay as they are. -/
def read (item : NetworkItemStackDescriptor) : Reader NetworkItemStackDescriptor := do
  let mId ← (StreamRead.reader readVarInt).cast Int32.toInt16
  if mId = 0 then pure { item with mId }
  else do
    let mStackSize ← StreamRead.reader readUnsignedShort
    let mAux ← StreamRead.reader readUnsignedVarInt
    let mNetId ← readOptional NetIdVariant.new NetIdVariant.read
    let mBlockRuntimeId ← (StreamRead.reader readVarInt).cast Int32.toUInt32
    let mUserData ← StreamRead.reader readString
    pure ⟨mId, mStackSize, mAux, mNetId, mBlockRuntimeId, mUserData⟩

def writeCereal (item : NetworkItemStackDescriptor) : Bytes :=
  writeSignedShort item.mId ++ writeUnsignedShort item.mStackSize ++
    writeUnsignedVarInt item.mAux ++
    writeOptional NetIdVariant.writeCereal item.mNetId ++
    writeUnsignedVarInt item.mBlockRuntimeId ++
    writeString item.mUserData

/-- Every field is read. -/
def readCereal : Reader NetworkItemStackDescriptor := do
  let mId ← StreamRead.reader readSignedShort
  let mStackSize ← StreamRead.reader readUnsignedShort
  let mAux ← StreamRead.reader readUnsignedVarInt
  let mNetId ← readOptional NetIdVariant.new fun _ => NetIdVariant.readCereal
  let mBlockRuntimeId ← StreamRead.reader readUnsignedVarInt
  let mUserData ← StreamRead.reader readString
  pure ⟨mId, mStackSize, mAux, mNetId, mBlockRuntimeId, mUserData⟩

/-- The items that are read into `target`. -/
def Fits (target item : NetworkItemStackDescriptor) : Prop :=
  if item.mId = 0 then item = { target with mId := 0 }
  else item.mUserData.length < 2 ^ 32 ∧ ∀ var ∈ item.mNetId, var.1 = 0

/-- An item stack is read back. -/
theorem codec (target : NetworkItemStackDescriptor) :
    WireCodec False (read target) write (Fits target) fun _ => 0 := by
  -- the casts of the id and of the block's id are undone by the casts of the writer
  have hid : WireCodec False ((StreamRead.reader readVarInt).cast Int32.toInt16)
      (fun id : Int16 => writeVarInt id.toInt32) (fun _ => True) fun _ => 0 :=
    WireCodec.cast (T := True) codec_readVarInt.reader Int16.toInt16_toInt32
  have hblock : WireCodec False ((StreamRead.reader readVarInt).cast Int32.toUInt32)
      (fun id : UInt32 => writeVarInt id.toInt32) (fun _ => True) fun _ => 0 :=
    WireCodec.cast (T := True) codec_readVarInt.reader UInt32.toUInt32_toInt32
  refine (WireCodec.bind (Q := fun _ => True) (g := mId) (R := Fits target) (n := fun _ => 0)
    (v := fun item => if item.mId = 0 then [] else
      writeUnsignedShort item.mStackSize ++ (writeUnsignedVarInt item.mAux ++
        (writeOptional NetIdVariant.write item.mNetId ++
          (writeVarInt item.mBlockRuntimeId.toInt32 ++
          writeString item.mUserData)))) hid fun id _ => ?_).congr ?_ ?_ ?_
  · split
    · next hzero =>
      -- id 0: nothing follows
      refine (WireCodec.pure (Q := fun item => item = { target with mId := id })
        fun _ => Iff.rfl).congr
        (fun item => ?_) (fun item hitem => ?_) fun _ _ => rfl
      · subst hzero
        constructor
        · rintro ⟨rfl, -⟩
          exact ⟨⟨rfl, trivial⟩, by rw [Fits, if_pos rfl]⟩
        · rintro ⟨⟨hid, -⟩, hfits⟩
          rw [Fits, if_pos hid] at hfits
          exact ⟨hfits, trivial⟩
      · rw [hitem.1]
        simp [hzero]
    · next hne =>
      refine (WireCodec.bind (Q := fun item => item.mId = id) (g := mStackSize)
        (codec_scalar Scalar.uint16).reader fun _ _ =>
        WireCodec.bind (g := mAux) codec_readUnsignedVarInt.reader fun _ _ =>
        WireCodec.bind (g := mNetId) (codec_readOptional NetIdVariant.codec) fun _ _ =>
        WireCodec.bind (g := mBlockRuntimeId) hblock fun _ _ =>
        WireCodec.bind (g := mUserData) codec_readString.reader fun _ _ =>
        WireCodec.pure fun item => by cases item; grind).congr
        (fun item => ?_) (fun item hitem => ?_) fun item hitem => ?_
      · constructor
        · rintro ⟨rfl, -, -, hnetId, -, hsize, -⟩
          exact ⟨⟨rfl, trivial⟩, by rw [Fits, if_neg hne]; exact ⟨hsize, hnetId⟩⟩
        · rintro ⟨⟨rfl, -⟩, hfits⟩
          rw [Fits, if_neg hne] at hfits
          exact ⟨rfl, trivial, trivial, hfits.2, trivial, hfits.1, trivial⟩
      · rw [hitem.1, if_neg hne, List.append_nil]
        rfl
      · cases item.mNetId <;> rfl
  · simp
  · intro item _
    unfold write
    split
    · next hzero =>
      rw [hzero, List.append_nil]
      rfl
    · simp
  · simp

/-- What arrives in a new object. -/
def received (item : NetworkItemStackDescriptor) : NetworkItemStackDescriptor :=
  if item.mId = 0 then new else item

/-- Without an id there is nothing else; the index of a net id is not written. -/
def Sendable (item : NetworkItemStackDescriptor) : Prop :=
  item.mId ≠ 0 → item.mUserData.length < 2 ^ 32 ∧ ∀ var ∈ item.mNetId, var.1 = 0

/-- A stack that is received is written as the one that was sent. -/
theorem write_received (item : NetworkItemStackDescriptor) : item.received.write = item.write := by
  unfold received
  split
  · next hzero => rw [write, if_pos (show new.mId = 0 from rfl), write, if_pos hzero]
  · rfl

/-- What is received of a stack that may be sent fits. -/
theorem Sendable.fits {item : NetworkItemStackDescriptor} (h : item.Sendable) :
    Fits new item.received := by
  unfold received
  split
  · rw [Fits, if_pos (show new.mId = 0 from rfl)]
    rfl
  · next hne =>
    rw [Fits, if_neg hne]
    exact h hne

/-- A stack in the Cereal form is read back. -/
theorem codecCereal :
    WireCodec T readCereal writeCereal (fun item => item.mUserData.length < 2 ^ 32) fun _ => 0 := by
  refine (WireCodec.bind (Q := fun _ => True) (g := mId)
      (codec_scalar Scalar.int16).reader fun _ _ =>
    WireCodec.bind (g := mStackSize) (codec_scalar Scalar.uint16).reader fun _ _ =>
    WireCodec.bind (g := mAux) codec_readUnsignedVarInt.reader fun _ _ =>
    WireCodec.bind (g := mNetId) (codec_readOptional NetIdVariant.codecCereal) fun _ _ =>
    WireCodec.bind (g := mBlockRuntimeId) codec_readUnsignedVarInt.reader fun _ _ =>
    WireCodec.bind (g := mUserData) codec_readString.reader fun _ _ =>
    WireCodec.pure fun item => by cases item; grind).congr ?_ ?_ ?_
  · simp
  · simp [writeCereal, writeSignedShort, writeUnsignedShort]
  · intro item _
    cases item.mNetId <;> rfl

/-- **The two encodings.** An item with an id comes back from both of them exactly if its user
data has a 32-bit length and its net id, if there is one, is an `ItemStackNetId`. -/
theorem encodings_agree_iff (target : NetworkItemStackDescriptor)
    {item : NetworkItemStackDescriptor}
    (hid : item.mId ≠ 0) :
    (Accepts (read target) item.write item ∧ Accepts readCereal item.writeCereal item) ↔
      item.mUserData.length < 2 ^ 32 ∧ ∀ var ∈ item.mNetId, var.1 = 0 := by
  rw [(codec target).reads_back_iff_of_complete rfl,
    (codecCereal (T := True)).reads_back_iff_of_complete rfl, Fits, if_neg hid]
  constructor
  · rintro ⟨hfits, -⟩
    exact hfits
  · intro hfits
    exact ⟨hfits, hfits.1⟩

/-- An item with a net id of the first kind. -/
theorem encodings_agree_iff_netId :
    let item : NetworkItemStackDescriptor :=
      ⟨5, 1, 0, some ⟨0, (⟨7⟩ : ItemStackNetId)⟩, 0x80000000, [1, 2]⟩
    Accepts (read new) item.write item ∧ Accepts readCereal item.writeCereal item := by
  intro item
  refine (@encodings_agree_iff new item (by decide)).mpr ⟨by decide, fun var hvar => ?_⟩
  rw [← Option.some.inj hvar]

/-- A net id of the second kind comes back as one of the first kind, but for `readCereal`. -/
theorem requestId_read_as_netId :
    let item : NetworkItemStackDescriptor := ⟨5, 1, 0, some ⟨1, (⟨7⟩ : ItemStackRequestId)⟩, 0, []⟩
    let other : NetworkItemStackDescriptor := ⟨5, 1, 0, some ⟨0, (⟨7⟩ : ItemStackNetId)⟩, 0, []⟩
    Accepts (read new) item.write other ∧ Accepts readCereal item.writeCereal item ∧
      ¬ Accepts (read new) item.write item := by
  intro item other
  refine ⟨?_, (codecCereal (T := True)).accepts (by decide) rfl, fun h => ?_⟩
  · -- the same bytes are written of both
    have hother : Fits new other := by
      rw [Fits, if_neg (by decide)]
      exact ⟨by decide, fun var hvar => by rw [← Option.some.inj hvar]⟩
    exact (codec new).accepts hother rfl
  · have hitem := ((codec new).reads_back_iff_of_complete rfl).mp h
    rw [Fits, if_neg (by decide)] at hitem
    exact absurd (hitem.2 _ rfl) (by decide)

end NetworkItemStackDescriptor

end SculkProtocol
