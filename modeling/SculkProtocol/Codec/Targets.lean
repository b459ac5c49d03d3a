import SculkProtocol.Codec.Items
import SculkProtocol.Codec.Nbt.RoundTrip
import SculkProtocol.Utility.PrefixFunction

/-!
# Reading into an object that is there

`readArray` reads into the elements that a container has. A compound keeps the entries that it
has, since `emplace` does not replace them; an item without an id keeps its other fields. So what
is read depends on the object that it is read into. `same_outcome_iff` says when it does not.
-/

namespace SculkProtocol

open Decoder BinaryStream ReadOnlyBinaryStream StreamRead

/-! ### Arrays -/

section

variable {α π : Type} {value : α} {before : Prefix} {r : α → Reader α} {L : Bytes → π → Prop}
  {build : α → π → α}

/-- So many elements as were counted before them. -/
def ArrayText (before : Prefix) (L : Bytes → π → Prop) (bs : Bytes) (ps : List π) : Prop :=
  ∃ lengthText length body, bs = lengthText ++ body ∧ Accepts before.read lengthText length ∧
    before.toSize length = ps.length ∧ ps.length ≤ maxSize ∧ Sequence L body ps

/-- An element is made of the one that was at its place, or of a new one. -/
def buildArray (value : α) (build : α → π → α) (old : List α) (ps : List π) : List α :=
  ps.mapIdx fun i p => build (old.getD i value) p

/-- A vector that is resized keeps its first elements. -/
theorem getElem?_resized {old : List α} {n i : ℕ} (h : i < n) :
    (old.take n ++ List.replicate (n - old.length) value)[i]? = some (old.getD i value) := by
  rw [List.getElem?_append, List.length_take, List.getD_eq_getElem?_getD]
  by_cases hold : i < old.length
  · rw [if_pos (by omega), List.getElem?_take_of_lt h, List.getElem?_eq_getElem hold]
    rfl
  · rw [if_neg (by omega), List.getElem?_replicate_of_lt (by omega),
      List.getElem?_eq_none (by omega)]
    rfl

/-- What is built on it is built on the old vector. -/
theorem zipWith_resized (old : List α) (ps : List π) :
    List.zipWith build (old.take ps.length ++ List.replicate (ps.length - old.length) value) ps =
      buildArray value build old ps := by
  refine List.ext_getElem? fun i => ?_
  unfold buildArray
  rw [List.getElem?_zipWith', List.getElem?_mapIdx]
  by_cases hi : i < ps.length
  · rw [getElem?_resized hi, List.getElem?_eq_getElem hi]
    rfl
  · rw [List.getElem?_eq_none (l := ps) (Nat.le_of_not_lt hi)]
    exact Option.bind_fun_none _

/-- The array takes the texts of its elements. -/
theorem Decoder.Fills.readArray (hbefore : Recognises before.read (Accepts before.read))
    (h : Fills r L build) :
    Fills (ReadOnlyBinaryStream.readArray before value r) (ArrayText before L)
      (buildArray value build) := by
  intro old
  refine ((recognises_reader hbefore.mapError).bind fun _ length _ =>
    recognises_resize.bind fun _ resized _ => h.each resized).congr fun bs as => ⟨?_, ?_⟩
  · rintro ⟨lengthText, _, length, rfl, hlength, _, body, _, rfl, ⟨hsize, rfl, rfl⟩, ps,
      hps, hbody, rfl⟩
    rw [length_resized] at hps
    rw [← hps] at hsize ⊢
    exact ⟨ps, ⟨lengthText, length, body, rfl, hlength, hps.symm, hsize, hbody⟩,
      zipWith_resized old ps⟩
  · rintro ⟨ps, ⟨lengthText, length, body, rfl, hlength, hps, hsize, hbody⟩, rfl⟩
    refine ⟨lengthText, body, length, rfl, hlength, [], body, _, rfl, ⟨hps ▸ hsize, rfl, rfl⟩, ps,
      ?_, hbody, ?_⟩
    · rw [length_resized, hps]
    · rw [hps, zipWith_resized]

/-- Two targets give the same array exactly if their elements give the same ones. -/
theorem buildArray_eq_iff {old old' : List α} {ps : List π} :
    buildArray value build old ps = buildArray value build old' ps ↔
      ∀ i (h : i < ps.length), build (old.getD i value) ps[i] = build (old'.getD i value) ps[i] :=
  List.mapIdx_eq_mapIdx_iff

end

/-! ### Compound tags -/

namespace EntryText

/-- The value of the first entry with a key. -/
def first (key : Bytes) (entries : List EntryText) : Option TagVariant :=
  (entries.map fun e => (e.key, e.value)).lookup key

variable {entries : List EntryText} {m m' : List (Bytes × TagVariant)} {key : Bytes}

/-- The first entry of a key is this one or one of the others. -/
theorem first_cons {e : EntryText} :
    first key (e :: entries) = (if key == e.key then some e.value else none).or
      (first key entries) := by
  unfold first
  rw [List.map_cons, List.lookup_cons]
  cases key == e.key <;> rfl

/-- The entries of the target stay; for another key the first entry of the text counts. -/
theorem lookup_emplaceAll (h : SortedEntries m) :
    (emplaceAll m entries).lookup key = (m.lookup key).or (first key entries) := by
  induction entries generalizing m with
  | nil => exact (Option.or_none).symm
  | cons e entries ih =>
    show (emplaceAll (emplaceEntry e.key e.value m) entries).lookup key = _
    rw [ih h.emplaceEntry, h.lookup_emplaceEntry, Option.or_assoc, first_cons]

end EntryText

/-- Two values are the same after a default, which one of them may be. -/
theorem or_eq_or_iff {α : Type} {x y z : Option α} :
    x.or z = y.or z ↔ x = y ∨ (x = none ∧ z = y) ∨ (y = none ∧ z = x) := by
  cases x <;> cases y <;> simp [eq_comm]

namespace CompoundTag

/-- `std::map<std::string, TagVariant>` -/
abbrev Map := OrderedMap Bytes TagVariant

/-- What two maps have for a key is the same, or one of them has nothing and the text has for it
what the other has. -/
def Agree (m m' : Map) (entries : List EntryText) : Prop :=
  ∀ key, m.entries.lookup key = m'.entries.lookup key ∨
    (m.entries.lookup key = none ∧ EntryText.first key entries = m'.entries.lookup key) ∨
    (m'.entries.lookup key = none ∧ EntryText.first key entries = m.entries.lookup key)

/-- Two maps end up the same exactly if they agree on the entries. -/
theorem agree_iff {m m' : Map} {entries : List EntryText} :
    EntryText.emplaceAll m.entries entries = EntryText.emplaceAll m'.entries entries ↔
    Agree m m' entries := by
  have hfound : Agree m m' entries ↔ ∀ key, (EntryText.emplaceAll m.entries entries).lookup key =
      (EntryText.emplaceAll m'.entries entries).lookup key := by
    refine forall_congr' fun key => ?_
    rw [EntryText.lookup_emplaceAll m.sorted, EntryText.lookup_emplaceAll m'.sorted, or_eq_or_iff]
  rw [hfound]
  constructor
  · intro h key
    rw [h]
  · exact SortedEntries.eq_of_lookup (emplaceAll_sortedEntries m.sorted)
      (emplaceAll_sortedEntries m'.sorted)

/-- The type of the root, its name, which is a byte, and the entries. -/
def RootText (bs : Bytes) (entries : List EntryText) : Prop :=
  ∃ name rest, bs = writeByte TagType.compoundTag ++ (writeByte name ++ rest) ∧
  EntriesText rest entries

/-- A compound tag fills its target. -/
theorem fills_read : Fills CompoundTag.read RootText EntryText.emplaceAll := by
  intro m
  -- after the type a byte is ignored, and the entries follow
  have hafter : ∀ type : TagType, Recognises
      (if type ≠ TagType.compoundTag then fail (.error "CompoundTag::read invalid root tag type")
      else do
        let _ ← StreamRead.reader (ignoreBytes 1)
        CompoundTag.deserialize m)
      fun bs m' => type = TagType.compoundTag ∧ ∃ entries, (∃ name rest : Bytes, bs = name ++ rest ∧
        (∃ _ : Unit, name.length = 1) ∧ EntriesText rest entries) ∧
            m' = EntryText.emplaceAll m entries := by
    intro type
    by_cases htype : type = TagType.compoundTag
    · rw [if_neg (not_not.mpr htype)]
      exact (fills_deserialize.after (recognises_reader (recognises_ignoreBytes 1)) m).congr
        fun bs m' => (and_iff_right htype).symm
    · rw [if_pos htype]
      exact (recognises_fail _).congr fun bs m' => ⟨False.elim, fun h => htype h.1⟩
  refine (recognises_readTagType.bind fun _ type _ => hafter type).congr fun bs m' => ⟨?_, ?_⟩
  · rintro ⟨_, _, _, rfl, rfl, rfl, entries, ⟨name, rest, rfl, ⟨-, hname⟩, hrest⟩, rfl⟩
    obtain ⟨b, rfl⟩ := List.length_eq_one_iff.mp hname
    exact ⟨entries, ⟨b, rest, rfl, hrest⟩, rfl⟩
  · rintro ⟨entries, ⟨name, rest, rfl, hrest⟩, rfl⟩
    exact ⟨_, _, _, rfl, rfl, rfl, entries, ⟨_, rest, rfl, ⟨(), rfl⟩, hrest⟩, rfl⟩

end CompoundTag

/-! ### Item stacks -/

namespace NetworkItemStackDescriptor

/-- No net id, or one of the first kind. -/
def NetIdText (bs : Bytes) (netId : Option NetIdVariant) : Prop :=
  (bs = [0] ∧ netId = none) ∨
    ∃ hasValue rest id, bs = hasValue :: rest ∧ hasValue ≠ (0 : UInt8) ∧ IsSignedVarInt rest id ∧
      netId = some (.ofNetId id)

/-- The fields after an id. -/
def FieldsText (bs : Bytes) (item : NetworkItemStackDescriptor) : Prop :=
  ∃ auxText netIdText blockText blockRuntimeId userText,
    bs = writeUnsignedShort item.mStackSize ++ (auxText ++ (netIdText ++ (blockText ++ userText))) ∧
      IsVarInt 16 5 auxText item.mAux.toNat ∧ NetIdText netIdText item.mNetId ∧
      IsSignedVarInt blockText blockRuntimeId ∧ item.mBlockRuntimeId = blockRuntimeId.toUInt32 ∧
      IsString userText item.mUserData

/-- What follows an id: nothing, if it is 0. -/
def AfterId (mId : Int16) (bs : Bytes) (item : NetworkItemStackDescriptor) : Prop :=
  item.mId = mId ∧ if mId = 0 then bs = [] ∧ item = new else FieldsText bs item

/-- An item with its id before it. -/
def Text (bs : Bytes) (item : NetworkItemStackDescriptor) : Prop :=
  ∃ idText rest id, bs = idText ++ rest ∧ IsSignedVarInt idText id ∧ AfterId id.toInt16 rest item

/-- Without an id the other fields are those of the target. -/
def build (target item : NetworkItemStackDescriptor) : NetworkItemStackDescriptor :=
  if item.mId = 0 then { target with mId := 0 } else item

/-- The texts of an optional net id. -/
theorem recognises_netId :
    Recognises (readOptional NetIdVariant.new NetIdVariant.read) NetIdText := by
  have hid : Recognises (NetIdVariant.read NetIdVariant.new) fun bs var =>
      ∃ id, IsSignedVarInt bs id ∧ var = .ofNetId id := by
    refine (recognises_reader recognises_readVarInt).bind_pure.bind_pure.congr
      fun bs var => ⟨?_, ?_⟩
    · rintro ⟨_, ⟨id, hid, rfl⟩, rfl⟩
      exact ⟨id, hid, rfl⟩
    · rintro ⟨id, hid, rfl⟩
      exact ⟨_, ⟨id, hid, rfl⟩, rfl⟩
  -- the flag decides whether an id follows
  have hafter : ∀ hasValue : Bool, Recognises
      (if hasValue = true then do
        let a ← NetIdVariant.read NetIdVariant.new
        pure (some a)
      else pure none)
      fun bs netId => (hasValue = true ∧ ∃ id, IsSignedVarInt bs id ∧ netId = some (.ofNetId id)) ∨
        (hasValue = false ∧ bs = [] ∧ netId = none) := by
    intro hasValue
    cases hasValue with
    | false => exact (recognises_pure none).congr fun bs netId => by simp
    | true =>
      refine hid.bind_pure.congr fun bs netId => ⟨?_, ?_⟩
      · rintro ⟨_, ⟨id, hid, rfl⟩, rfl⟩
        exact .inl ⟨rfl, id, hid, rfl⟩
      · rintro (⟨-, id, hid, rfl⟩ | ⟨hfalse, -⟩)
        · exact ⟨_, ⟨id, hid, rfl⟩, rfl⟩
        · exact nomatch hfalse
  refine ((recognises_reader recognises_readBool.mapError).bind fun _ hasValue _ => hafter
    hasValue).congr
    fun bs netId => ⟨?_, ?_⟩
  · rintro ⟨_, rest, _, rfl, ⟨b, rfl, rfl⟩, ⟨hb, id, hid, rfl⟩ | ⟨hb, rfl, rfl⟩⟩
    · exact .inr ⟨b, rest, id, rfl, of_decide_eq_true hb, hid, rfl⟩
    · rw [not_not.mp (of_decide_eq_false hb)]
      exact .inl ⟨rfl, rfl⟩
  · rintro (⟨rfl, rfl⟩ | ⟨b, rest, id, rfl, hb, hid, rfl⟩)
    · exact ⟨[0], [], false, rfl, ⟨0, rfl, rfl⟩, .inr ⟨rfl, rfl, rfl⟩⟩
    · exact ⟨[b], rest, true, rfl, ⟨b, rfl, (decide_eq_true hb).symm⟩, .inl ⟨rfl, id, hid, rfl⟩⟩

/-- An item stack fills its target. -/
theorem fills_read : Fills read Text build := by
  intro target
  -- id 0 leaves the other fields to the target; any other id replaces them
  have hafter : ∀ mId : Int16, Recognises
      (if mId = 0 then pure { target with mId }
      else do
        let mStackSize ← StreamRead.reader readUnsignedShort
        let mAux ← StreamRead.reader readUnsignedVarInt
        let mNetId ← readOptional NetIdVariant.new NetIdVariant.read
        let mBlockRuntimeId ← (StreamRead.reader readVarInt).cast Int32.toUInt32
        let mUserData ← StreamRead.reader readString
        pure ⟨mId, mStackSize, mAux, mNetId, mBlockRuntimeId, mUserData⟩)
      fun rest item => ∃ p, AfterId mId rest p ∧ item = build target p := by
    intro mId
    unfold AfterId
    by_cases hzero : mId = 0
    · subst hzero
      simp only [if_true]
      refine (recognises_pure _).congr fun rest item => ⟨?_, ?_⟩
      · rintro ⟨rfl, rfl⟩
        exact ⟨new, ⟨rfl, rfl, rfl⟩, rfl⟩
      · rintro ⟨_, ⟨-, rfl, rfl⟩, rfl⟩
        exact ⟨rfl, rfl⟩
    · simp only [if_neg hzero]
      refine ((recognises_reader (recognises_scalar Scalar.uint16)).bind fun _ mStackSize _ =>
        (recognises_reader recognises_readUnsignedVarInt).bind fun _ mAux _ =>
        recognises_netId.bind fun _ mNetId _ =>
        ((recognises_reader recognises_readVarInt).bind_pure (g := Int32.toUInt32)).bind
            fun _ mBlockRuntimeId _ =>
        (recognises_reader recognises_readString).bind_pure).congr fun rest item => ⟨?_, ?_⟩
      · rintro ⟨_, _, mStackSize, rfl, rfl, auxText, _, mAux, rfl, haux, netIdText, _, mNetId,
          rfl, hnetId,
          blockText, userText, _, rfl, ⟨blockRuntimeId, hblock, rfl⟩, mUserData, huser, rfl⟩
        refine ⟨⟨mId, mStackSize, mAux, mNetId, blockRuntimeId.toUInt32, mUserData⟩, ⟨rfl, ?_⟩, ?_⟩
        · exact ⟨auxText, netIdText, blockText, blockRuntimeId, userText, rfl, haux, hnetId,
            hblock, rfl, huser⟩
        · exact (if_neg hzero).symm
      · rintro ⟨p, ⟨rfl, auxText, netIdText, blockText, blockRuntimeId, userText, rfl, haux, hnetId,
          hblock, hruntime, huser⟩, rfl⟩
        refine ⟨_, _, p.mStackSize, rfl, rfl, auxText, _, p.mAux, rfl, haux, netIdText, _, p.mNetId,
          rfl, hnetId,
          blockText, userText, _, rfl, ⟨blockRuntimeId, hblock, rfl⟩, p.mUserData, huser, ?_⟩
        rw [build, if_neg hzero, ← hruntime]
  refine ((recognises_reader recognises_readVarInt).bind_pure.bind fun _ mId _ => hafter mId).congr
    fun bs item => ⟨?_, ?_⟩
  · rintro ⟨idText, rest, _, rfl, ⟨id, hid, rfl⟩, p, hp, rfl⟩
    exact ⟨p, ⟨idText, rest, id, rfl, hid, hp⟩, rfl⟩
  · rintro ⟨p, ⟨idText, rest, id, rfl, hid, hp⟩, rfl⟩
    exact ⟨idText, rest, _, rfl, ⟨id, hid, rfl⟩, p, hp, rfl⟩

/-- All fields but the id are the same. -/
def AgreeButId (item item' : NetworkItemStackDescriptor) : Prop :=
  { item with mId := 0 } = { item' with mId := 0 }

/-- Two targets give the same stack exactly if they agree, or an id is read. -/
theorem build_eq_iff {target target' item : NetworkItemStackDescriptor} :
    build target item = build target' item ↔ (item.mId = 0 → AgreeButId target target') := by
  unfold build
  split
  · next hzero => exact ⟨fun h _ => h, fun h => h hzero⟩
  · next hne => exact ⟨fun _ hzero => absurd hzero hne, fun _ => rfl⟩

end NetworkItemStackDescriptor

/-! ### Two targets -/

section

variable {input : Bytes}

/-- When two targets of a compound tag end up the same. -/
theorem compound_outcome_iff {m m' : CompoundTag.Map} :
    SameOutcome (CompoundTag.read m.entries) (CompoundTag.read m'.entries) (ofBuffer input) ↔
      ∀ bs rest entries, input = bs ++ rest → CompoundTag.RootText bs entries →
      CompoundTag.Agree m m' entries := by
  rw [CompoundTag.fills_read.sameOutcome_iff ⟨rfl, Nat.zero_le _⟩]
  simp only [CompoundTag.agree_iff]
  rfl

/-- When two targets of an item stack end up the same. -/
theorem item_outcome_iff {item item' : NetworkItemStackDescriptor} :
    SameOutcome item.read item'.read (ofBuffer input) ↔
      ∀ idText rest id, input = idText ++ rest → IsSignedVarInt idText id → id.toInt16 = 0 →
      item.AgreeButId item' := by
  rw [NetworkItemStackDescriptor.fills_read.sameOutcome_iff ⟨rfl, Nat.zero_le _⟩]
  simp only [NetworkItemStackDescriptor.build_eq_iff]
  constructor
  · intro h idText rest id hinput hid hzero
    -- the id is all of the text
    refine h idText rest .new hinput ⟨idText, [], id, (List.append_nil _).symm, hid,
      hzero.symm, ?_⟩ rfl
    rw [if_pos hzero]
    exact ⟨rfl, rfl⟩
  · rintro h bs rest item hinput ⟨idText, fields, id, rfl, hid, hitem, -⟩ hzero
    exact h idText (fields ++ rest) id (hinput.trans (List.append_assoc ..)) hid
      (hitem.symm.trans hzero)

/-- When two targets of an array of compound tags end up the same. -/
theorem compounds_outcome_iff {f : PrefixFunction} {old old' : List CompoundTag.Map} :
    SameOutcome (readArray f.toPrefix [] CompoundTag.read (old.map OrderedMap.entries))
        (readArray f.toPrefix [] CompoundTag.read (old'.map OrderedMap.entries)) (ofBuffer input) ↔
      ∀ bs rest texts, input = bs ++ rest → ArrayText f.toPrefix CompoundTag.RootText bs texts →
        ∀ i (h : i < texts.length),
          CompoundTag.Agree (old.getD i OrderedMap.empty) (old'.getD i OrderedMap.empty)
            texts[i] := by
  have hgetD : ∀ (maps : List CompoundTag.Map) i,
      (maps.map OrderedMap.entries).getD i [] = (maps.getD i OrderedMap.empty).entries := by
    intro maps i
    rw [List.getD_eq_getElem?_getD, List.getElem?_map, List.getD_eq_getElem?_getD]
    cases maps[i]? with
    | none => rfl
    | some m => rfl
  rw [(CompoundTag.fills_read.readArray f.recognises).sameOutcome_iff ⟨rfl, Nat.zero_le _⟩]
  simp only [buildArray_eq_iff, hgetD, CompoundTag.agree_iff]
  rfl

/-- When two targets of an array of item stacks end up the same. -/
theorem items_outcome_iff {f : PrefixFunction} {old old' : List NetworkItemStackDescriptor} :
    SameOutcome (readArray f.toPrefix .new NetworkItemStackDescriptor.read old)
        (readArray f.toPrefix .new NetworkItemStackDescriptor.read old') (ofBuffer input) ↔
      ∀ bs rest items, input = bs ++ rest →
        ArrayText f.toPrefix NetworkItemStackDescriptor.Text bs items →
        ∀ i (h : i < items.length), items[i].mId = 0 →
        (old.getD i .new).AgreeButId (old'.getD i .new) := by
  rw [(NetworkItemStackDescriptor.fills_read.readArray f.recognises).sameOutcome_iff
    ⟨rfl, Nat.zero_le _⟩]
  simp only [buildArray_eq_iff, NetworkItemStackDescriptor.build_eq_iff]
  rfl

end

/-- **Where the target does not matter.** Two compounds have to agree for the entries that the
input begins with; two items in all fields but the id, if the input begins with an id that is 0
as a short; two arrays in as many elements as the input has, in the same way. -/
theorem same_outcome_iff (input : Bytes) :
    (∀ m m' : CompoundTag.Map,
      SameOutcome (CompoundTag.read m.entries) (CompoundTag.read m'.entries) (ofBuffer input) ↔
        ∀ bs rest entries, input = bs ++ rest → CompoundTag.RootText bs entries →
          CompoundTag.Agree m m' entries) ∧
    (∀ item item' : NetworkItemStackDescriptor, SameOutcome item.read item'.read (ofBuffer input) ↔
      ∀ idText rest id, input = idText ++ rest → IsSignedVarInt idText id → id.toInt16 = 0 →
        item.AgreeButId item') ∧
    (∀ (f : PrefixFunction) (old old' : List CompoundTag.Map),
      SameOutcome (readArray f.toPrefix [] CompoundTag.read (old.map OrderedMap.entries))
          (readArray f.toPrefix [] CompoundTag.read (old'.map OrderedMap.entries))
          (ofBuffer input) ↔
        ∀ bs rest texts, input = bs ++ rest → ArrayText f.toPrefix CompoundTag.RootText bs texts →
          ∀ i (h : i < texts.length),
            CompoundTag.Agree (old.getD i OrderedMap.empty)
              (old'.getD i OrderedMap.empty) texts[i]) ∧
    ∀ (f : PrefixFunction) (old old' : List NetworkItemStackDescriptor),
      SameOutcome (readArray f.toPrefix .new NetworkItemStackDescriptor.read old)
          (readArray f.toPrefix .new NetworkItemStackDescriptor.read old') (ofBuffer input) ↔
        ∀ bs rest items, input = bs ++ rest →
          ArrayText f.toPrefix NetworkItemStackDescriptor.Text bs items →
          ∀ i (h : i < items.length), items[i].mId = 0 →
          (old.getD i .new).AgreeButId (old'.getD i .new) :=
  ⟨fun _ _ => compound_outcome_iff, fun _ _ => item_outcome_iff, fun _ _ _ => compounds_outcome_iff,
    fun _ _ _ => items_outcome_iff⟩

/-- An empty compound and an item without an id, alone and in an array of one, are read into new
objects and into used ones. -/
theorem used_target_differs :
    let used : CompoundTag.Map := ⟨[([97], .byteTag 1)], by decide⟩
    let usedItem : NetworkItemStackDescriptor :=
      { NetworkItemStackDescriptor.new with mStackSize := 64 }
    ¬ SameOutcome (CompoundTag.read []) (CompoundTag.read used.entries) (ofBuffer [10, 0, 0]) ∧
    ¬ SameOutcome NetworkItemStackDescriptor.new.read usedItem.read (ofBuffer [0]) ∧
    ¬ SameOutcome (readArray Prefix.unsignedVarInt [] CompoundTag.read [])
      (readArray Prefix.unsignedVarInt [] CompoundTag.read [used.entries])
        (ofBuffer [1, 10, 0, 0]) ∧
    ¬ SameOutcome (readArray Prefix.unsignedVarInt .new NetworkItemStackDescriptor.read [])
      (readArray Prefix.unsignedVarInt .new NetworkItemStackDescriptor.read [usedItem])
          (ofBuffer [1, 0]) := by
  intro used usedItem
  have hroot : CompoundTag.RootText [10, 0, 0] [] :=
    ⟨0, [0], rfl, fun _ h => absurd h List.not_mem_nil, fun _ h => absurd h List.not_mem_nil, rfl⟩
  -- the tag that the used map holds stays
  have hagree : ¬ CompoundTag.Agree OrderedMap.empty used [] := by
    intro h
    have hfound := h [97]
    simp [used, OrderedMap.empty, EntryText.first] at hfound
  have hid : IsSignedVarInt [0] 0 := ⟨0, .last (by decide) (by decide), by decide⟩
  have hitem : NetworkItemStackDescriptor.Text [0] .new := by
    refine ⟨[0], [], 0, rfl, hid, rfl, ?_⟩
    rw [if_pos (by decide)]
    exact ⟨rfl, rfl⟩
  -- and so does the stack size of the used item
  have hfields : ¬ NetworkItemStackDescriptor.new.AgreeButId usedItem := by
    intro h
    exact absurd (congrArg NetworkItemStackDescriptor.mStackSize h) (by decide)
  have hcount : Accepts Prefix.unsignedVarInt.read [1] 1 := Prefix.unsignedVarInt.read_write 1
  refine ⟨fun h => ?_, fun h => ?_, fun h => ?_, fun h => ?_⟩
  · exact hagree ((@compound_outcome_iff _ OrderedMap.empty used).mp h [10, 0, 0] [] [] rfl hroot)
  · exact hfields (item_outcome_iff.mp h [0] [] 0 rfl hid (by decide))
  · refine hagree ((@compounds_outcome_iff _ .readUnsignedVarInt [] [used]).mp h [1, 10, 0, 0] []
      [[]] rfl ?_ 0
      (by decide))
    exact ⟨[1], 1, _, rfl, hcount, by decide, by decide,
      sequence_cons.mpr ⟨_, [], rfl, hroot, sequence_nil.mpr rfl⟩⟩
  · refine hfields ((@items_outcome_iff _ .readUnsignedVarInt [] [usedItem]).mp h [1, 0] []
      [.new] rfl ?_ 0
      (by decide) rfl)
    exact ⟨[1], 1, _, rfl, hcount, by decide, by decide,
      sequence_cons.mpr ⟨_, [], rfl, hitem, sequence_nil.mpr rfl⟩⟩

end SculkProtocol
