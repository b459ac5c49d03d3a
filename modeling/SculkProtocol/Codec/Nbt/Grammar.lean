import SculkProtocol.Codec.Nbt.Tags

/-!
# The grammar of NBT on the network

`Payload` says which texts are read for a tag id, as which value, and lists the tag ids that
are read on the way: those of entries, and those of the elements of lists that have some. An id
that is not defined has the text of `End`, the empty one; a sentence of the format is a text
whose ids are defined. `deserialize` succeeds exactly where the input begins with such a text
(`recognises_deserialize`).
-/

namespace SculkProtocol

open Decoder BinaryStream ReadOnlyBinaryStream StreamRead

/-- The values of an array after their number. -/
def IsArray {α : Type} (L : Bytes → α → Prop) (bs : Bytes) (vs : List α) : Prop :=
  ∃ before size body, bs = before ++ body ∧ IsSignedVarInt before size ∧ size.toInt = vs.length ∧
  Sequence L body vs

/-- An entry of a compound as it stands in the input. -/
structure EntryText where
  type : TagType
  keyText : Bytes
  key : Bytes
  valueText : Bytes
  value : TagVariant
  ids : List TagType

/-- An element of a list as it stands in the input. -/
structure ElementText where
  text : Bytes
  value : TagVariant
  ids : List TagType

namespace EntryText

def text (e : EntryText) : Bytes := writeByte e.type ++ (e.keyText ++ e.valueText)

/-- The entries of the map after these are emplaced. -/
def emplaceAll (mValue : List (Bytes × TagVariant)) (entries : List EntryText) :
    List (Bytes × TagVariant) :=
  entries.foldl (fun mValue e => emplaceEntry e.key e.value mValue) mValue

end EntryText

/-- The tag ids of a list. -/
def listIds (type : TagType) (elements : List ElementText) : List TagType :=
  match elements with
  | [] => []
  | elements => type :: elements.flatMap ElementText.ids

/-- A text that is read for a tag id, its value, and the ids in it. -/
inductive Payload : TagType → Bytes → TagVariant → List TagType → Prop
  | endTag {type : TagType} (h : ¬ type.IsDefined) : Payload type [] .endTag []
  | byteTag (v : Int8) : Payload TagType.byteTag (writeSignedChar v) (.byteTag v) []
  | shortTag (v : Int16) : Payload TagType.shortTag (writeSignedShort v) (.shortTag v) []
  | intTag {bs : Bytes} {v : Int32} (h : IsSignedVarInt bs v) : Payload TagType.intTag bs
      (.intTag v) []
  | longTag {bs : Bytes} {v : Int64} (h : IsSignedVarInt64 bs v) : Payload TagType.longTag bs
      (.longTag v) []
  | floatTag (bits : UInt32) : Payload TagType.floatTag (writeFloat bits) (.floatTag bits) []
  | doubleTag (bits : UInt64) : Payload TagType.doubleTag (writeDouble bits) (.doubleTag bits) []
  | byteArrayTag {bs : Bytes} {vs : List Int8} (h : IsArray (fun bs v => bs = writeSignedChar v)
      bs vs) :
      Payload TagType.byteArrayTag bs (.byteArrayTag vs) []
  | stringTag {bs v : Bytes} (h : IsString bs v) : Payload TagType.stringTag bs (.stringTag v) []
  | listTag {before : Bytes} {size : Int32} {type : TagType} {elements : List ElementText}
      (hsize : IsSignedVarInt before size) (hlength : size.toInt = elements.length)
      (helements : ∀ e ∈ elements, Payload type e.text e.value e.ids) :
      Payload TagType.listTag (writeByte type ++ (before ++ elements.flatMap ElementText.text))
        (.listTag type (elements.map ElementText.value)) (listIds type elements)
  | compoundTag {entries : List EntryText}
      (hkeys : ∀ e ∈ entries, e.type ≠ TagType.endTag ∧ IsString e.keyText e.key)
      (hvalues : ∀ e ∈ entries, Payload e.type e.valueText e.value e.ids) :
      Payload TagType.compoundTag (entries.flatMap EntryText.text ++ writeByte 0)
        (.compoundTag (EntryText.emplaceAll [] entries)) (entries.flatMap fun e => e.type :: e.ids)
  | intArrayTag {bs : Bytes} {vs : List Int32} (h : IsArray IsSignedVarInt bs vs) :
      Payload TagType.intArrayTag bs (.intArrayTag vs) []

/-! ### The readers of values -/

/-- The text of a tag's type is a byte. -/
theorem recognises_readTagType :
    Recognises (StreamRead.reader (readEnum readByte)) fun bs type => bs = writeByte type :=
  recognises_reader (recognises_readEnum recognises_readByte)

/-- A container with as many elements as were counted. -/
theorem recognises_resize_count {α : Type} (value : α) (size : Int32) :
    Recognises (resize value (sizeCast size) []) fun (bs : Bytes) vs =>
      0 ≤ size.toInt ∧ bs = [] ∧ vs = List.replicate size.toInt.toNat value := by
  refine recognises_resize.congr fun bs vs => ?_
  rcases sizeCast_cases size with ⟨hpos, hsize, hle⟩ | ⟨hneg, hlt⟩
  · have hnat : sizeCast size = size.toInt.toNat := by omega
    rw [List.take_nil, List.nil_append, List.length_nil, Nat.sub_zero, hnat]
    rw [hnat] at hle
    exact and_congr_left' (iff_of_true hle hpos)
  · exact ⟨fun h => absurd h.1 (Nat.not_le.mpr hlt), fun h => absurd h.1 (Int.not_le.mpr hneg)⟩

/-- The texts of an array of numbers. -/
theorem recognises_array {α : Type} {value : α} {read : StreamRead α} {L : Bytes → α → Prop}
    (h : Recognises read L) : Recognises (ValueArrayTag.deserialize value read []) (IsArray L) := by
  refine ((recognises_reader recognises_readVarInt).bind fun _ size _ =>
    (recognises_resize_count value size).bind fun _ vs _ =>
      @Recognises.each _ _ _ _ _ _ _ _ vs fun _ _ => recognises_reader h).congr fun bs vs => ?_
  constructor
  · rintro ⟨before, _, size, rfl, hsize, _, body, _, rfl, ⟨hpos, rfl, rfl⟩, hlength, hs⟩
    rw [List.length_replicate] at hlength
    exact ⟨before, size, body, rfl, hsize, by omega, hs⟩
  · rintro ⟨before, size, body, rfl, hsize, hlength, hs⟩
    refine ⟨before, body, size, rfl, hsize, [], body, _, rfl, ⟨by omega, rfl, rfl⟩, ?_, hs⟩
    rw [List.length_replicate]
    omega

/-! ### What is read is a text -/

/-- The elements of a list, with the type that is declared before them. -/
def ListText (bs : Bytes) (list : TagType × List TagVariant) (elements : List ElementText) : Prop :=
  ∃ before size, bs = writeByte list.1 ++ (before ++ elements.flatMap ElementText.text) ∧
    IsSignedVarInt before size ∧ size.toInt = elements.length ∧
    (∀ e ∈ elements, Payload list.1 e.text e.value e.ids) ∧ list.2 = elements.map ElementText.value

/-- The entries up to the terminator, and the map after them. -/
def CompoundText (mValue : List (Bytes × TagVariant)) (bs : Bytes)
    (mValue' : List (Bytes × TagVariant))
    (entries : List EntryText) : Prop :=
  (∀ e ∈ entries, e.type ≠ TagType.endTag ∧ IsString e.keyText e.key) ∧
    (∀ e ∈ entries, Payload e.type e.valueText e.value e.ids) ∧
    bs = entries.flatMap EntryText.text ++ writeByte 0 ∧
    mValue' = EntryText.emplaceAll mValue entries

/-- The elements of a list, one after the other. -/
theorem sequence_elements {type : TagType} {bs : Bytes} {vs : List TagVariant} :
    Sequence (fun bs v => ∃ ids, Payload type bs v ids) bs vs ↔
      ∃ elements : List ElementText, (∀ e ∈ elements, Payload type e.text e.value e.ids) ∧
        bs = elements.flatMap ElementText.text ∧ vs = elements.map ElementText.value := by
  constructor
  · intro h
    refine h.parts fun bs v hv => ?_
    obtain ⟨ids, hv⟩ := hv
    exact ⟨⟨bs, v, ids⟩, hv, rfl, rfl⟩
  · rintro ⟨elements, helements, rfl, rfl⟩
    exact sequence_map fun e he => ⟨e.ids, helements e he⟩

/-- A list, if its elements are. -/
theorem yields_list {element : TagVariant → Reader TagVariant}
    (h : ∀ type, Yields (element (TagVariant.endTag.emplace type)) fun bs v => ∃ ids,
      Payload type bs v ids) :
    Yields (ListTag.deserialize element []) fun bs list => ∃ elements,
    ListText bs list elements := by
  -- the elements are new ones, which take the type that was read
  have hafter : ∀ (type : TagType) (vs : List TagVariant), (∀ v ∈ vs, v = .endTag) →
      Yields (each (fun v => element (v.emplace type)) vs >>= fun vs => pure (type, vs))
          fun bs list =>
        ∃ vs', (vs'.length = vs.length ∧
          Sequence (fun bs v => ∃ ids, Payload type bs v ids) bs vs') ∧
          list = (type, vs') := by
    intro type vs hvs
    refine (Yields.each fun v hv => ?_).bind_pure
    rw [hvs v hv]
    exact h type
  refine (recognises_readTagType.yields.bind fun _ type _ =>
    (recognises_reader recognises_readVarInt).yields.bind fun _ size _ =>
      (recognises_resize_count TagVariant.endTag size).yields.bind fun _ vs hvs =>
        hafter type vs fun v hv => List.eq_of_mem_replicate (hvs.2.2 ▸ hv)).mono fun bs list => ?_
  rintro ⟨_, _, type, rfl, rfl, before, _, size, rfl, hsize, _, body, _, rfl, ⟨hpos, rfl, rfl⟩, vs,
    ⟨hlength, hs⟩, rfl⟩
  obtain ⟨elements, helements, rfl, rfl⟩ := sequence_elements.mp hs
  rw [List.length_map, List.length_replicate] at hlength
  exact ⟨elements, before, size, rfl, hsize, by omega, helements, rfl⟩

/-- The terminator, or an entry and those that follow it. -/
theorem yields_entries {fuel : ℕ}
    (hvalue : ∀ type, Yields (TagVariant.deserializeFuel fuel (TagVariant.endTag.emplace type))
      fun bs v => ∃ ids, Payload type bs v ids)
    (hentries : ∀ mValue, Yields (CompoundTag.deserializeFuel fuel mValue)
      fun bs mValue' => ∃ entries, CompoundText mValue bs mValue' entries)
    (mValue : List (Bytes × TagVariant)) :
    Yields (CompoundTag.deserializeFuel (fuel + 1) mValue)
      fun bs mValue' => ∃ entries, CompoundText mValue bs mValue' entries := by
  have hafter : ∀ type, Yields
      (if type = TagType.endTag then pure mValue
      else do
        let key ← StreamRead.reader readString
        let value ← TagVariant.deserializeFuel fuel (TagVariant.endTag.emplace type)
        CompoundTag.deserializeFuel fuel (emplaceEntry key value mValue))
      fun bs mValue' => ∃ entries, CompoundText mValue (writeByte type ++ bs) mValue' entries := by
    intro type
    by_cases hend : type = TagType.endTag
    · -- the terminator is the text of no entries
      rw [if_pos hend]
      refine (yields_pure mValue).mono fun bs mValue' => ?_
      rintro ⟨rfl, rfl⟩
      rw [hend]
      exact ⟨[], fun _ h => absurd h List.not_mem_nil,
        fun _ h => absurd h List.not_mem_nil, rfl, rfl⟩
    · rw [if_neg hend]
      refine ((recognises_reader recognises_readString).yields.bind fun _ key _ =>
        (hvalue type).bind fun _ value _ => hentries (emplaceEntry key value mValue)).mono
          fun bs mValue' => ?_
      rintro ⟨keyText, _, key, rfl, hkey, valueText, rest, value, rfl, ⟨ids, hids⟩, entries, hkeys,
        hvalues, rfl, rfl⟩
      -- the entry stands in front of those that are read after it
      refine ⟨⟨type, keyText, key, valueText, value, ids⟩ :: entries, ?_, ?_, ?_, rfl⟩
      · intro e he
        rcases List.mem_cons.mp he with rfl | he
        · exact ⟨hend, hkey⟩
        · exact hkeys e he
      · intro e he
        rcases List.mem_cons.mp he with rfl | he
        · exact hids
        · exact hvalues e he
      · simp only [List.flatMap_cons, EntryText.text, List.append_assoc]
  refine (recognises_readTagType.yields.bind fun _ type _ => hafter type).mono fun bs mValue' => ?_
  rintro ⟨_, bs, type, rfl, rfl, entries, h⟩
  exact ⟨entries, h⟩

/-- A type that is not defined makes an end tag. -/
theorem emplace_undefined {type : TagType} (h : ¬ type.IsDefined) :
    TagVariant.endTag.emplace type = .endTag := by
  unfold TagVariant.emplace
  split
  all_goals first | rfl | exact absurd (by decide) h

/-- The types that are defined. -/
theorem defined_cases {type : TagType} (h : type.IsDefined) :
    type = TagType.byteTag ∨ type = TagType.shortTag ∨ type = TagType.intTag ∨
      type = TagType.longTag ∨
      type = TagType.floatTag ∨ type = TagType.doubleTag ∨ type = TagType.byteArrayTag ∨
      type = TagType.stringTag ∨ type = TagType.listTag ∨ type = TagType.compoundTag ∨
      type = TagType.intArrayTag := by
  have hall : ∀ n < 256, TagType.IsDefined (UInt8.ofNat n) →
      UInt8.ofNat n ∈ [1, 2, 3, 4, 5, 6, 7, 8, 9, 10, 11] := by decide +kernel
  have htype := hall type.toNat type.toNat_lt
  rw [UInt8.ofNat_toNat] at htype
  have hmem := htype h
  simp only [List.mem_cons, List.not_mem_nil, or_false] at hmem
  exact hmem

/-- What is read for a tag id is a text of it. -/
theorem yields_deserializeFuel (fuel : ℕ) :
    (∀ type, Yields (TagVariant.deserializeFuel fuel (TagVariant.endTag.emplace type))
      fun bs v => ∃ ids, Payload type bs v ids) ∧
    ∀ mValue, Yields (CompoundTag.deserializeFuel fuel mValue)
      fun bs mValue' => ∃ entries, CompoundText mValue bs mValue' entries := by
  induction fuel with
  | zero => exact ⟨fun _ => yields_fail, fun _ => yields_fail⟩
  | succ fuel ih =>
    obtain ⟨hvalue, hentries⟩ := ih
    refine ⟨fun type => ?_, yields_entries hvalue hentries⟩
    by_cases hdefined : type.IsDefined
    swap
    · -- an id that is not defined leaves an end tag, which reads nothing
      rw [emplace_undefined hdefined]
      refine (yields_pure TagVariant.endTag).mono fun bs v => ?_
      rintro ⟨rfl, rfl⟩
      exact ⟨[], .endTag hdefined⟩
    -- one case for each defined id, in their order
    rcases defined_cases hdefined with
      rfl | rfl | rfl | rfl | rfl | rfl | rfl | rfl | rfl | rfl | rfl
    · refine (recognises_reader (recognises_scalar Scalar.int8)).yields.bind_pure.mono
        fun bs v => ?_
      rintro ⟨v, rfl, rfl⟩
      exact ⟨[], .byteTag v⟩
    · refine (recognises_reader (recognises_scalar Scalar.int16)).yields.bind_pure.mono
        fun bs v => ?_
      rintro ⟨v, rfl, rfl⟩
      exact ⟨[], .shortTag v⟩
    · refine (recognises_reader recognises_readVarInt).yields.bind_pure.mono fun bs v => ?_
      rintro ⟨v, hv, rfl⟩
      exact ⟨[], .intTag hv⟩
    · refine (recognises_reader recognises_readVarInt64).yields.bind_pure.mono fun bs v => ?_
      rintro ⟨v, hv, rfl⟩
      exact ⟨[], .longTag hv⟩
    · refine (recognises_reader (recognises_scalar Scalar.uint32)).yields.bind_pure.mono
        fun bs v => ?_
      rintro ⟨v, rfl, rfl⟩
      exact ⟨[], .floatTag v⟩
    · refine (recognises_reader (recognises_scalar Scalar.uint64)).yields.bind_pure.mono
        fun bs v => ?_
      rintro ⟨v, rfl, rfl⟩
      exact ⟨[], .doubleTag v⟩
    · refine (recognises_array (recognises_scalar Scalar.int8)).yields.bind_pure.mono fun bs v => ?_
      rintro ⟨v, hv, rfl⟩
      exact ⟨[], .byteArrayTag hv⟩
    · refine (recognises_reader recognises_readString).yields.bind_pure.mono fun bs v => ?_
      rintro ⟨v, hv, rfl⟩
      exact ⟨[], .stringTag hv⟩
    · refine (yields_list hvalue).bind_pure.mono fun bs v => ?_
      rintro ⟨⟨type, _⟩, ⟨elements, before, size, rfl, hsize, hlength, helements, rfl⟩, rfl⟩
      exact ⟨_, .listTag hsize hlength helements⟩
    · refine (hentries []).bind_pure.mono fun bs v => ?_
      rintro ⟨_, ⟨entries, hkeys, hvalues, rfl, rfl⟩, rfl⟩
      exact ⟨_, .compoundTag hkeys hvalues⟩
    · refine (recognises_array recognises_readVarInt).yields.bind_pure.mono fun bs v => ?_
      rintro ⟨v, hv, rfl⟩
      exact ⟨[], .intArrayTag hv⟩

/-! ### Every text is read -/

/-- A part is no longer than the whole. -/
theorem length_le_flatMap {α : Type} {text : α → Bytes} {as : List α} {a : α} (h : a ∈ as) :
    (text a).length ≤ (as.flatMap text).length := by
  induction as with
  | nil => exact absurd h List.not_mem_nil
  | cons b as ih =>
    rw [List.flatMap_cons, List.length_append]
    rcases List.mem_cons.mp h with rfl | h
    · exact Nat.le_add_right ..
    · exact Nat.le_trans (ih h) (Nat.le_add_left ..)

/-- The entries of a compound are read with more fuel than they have bytes. -/
theorem accepts_entries {entries : List EntryText}
    (hkeys : ∀ e ∈ entries, e.type ≠ TagType.endTag ∧ IsString e.keyText e.key)
    (hvalues : ∀ e ∈ entries, ∀ fuel ≥ e.valueText.length,
      Accepts (TagVariant.deserializeFuel (fuel + 1) (TagVariant.endTag.emplace e.type))
        e.valueText e.value)
    (mValue : List (Bytes × TagVariant)) {fuel : ℕ}
    (hfuel : (entries.flatMap EntryText.text).length < fuel) :
    Accepts (CompoundTag.deserializeFuel fuel mValue)
      (entries.flatMap EntryText.text ++ writeByte 0)
      (EntryText.emplaceAll mValue entries) := by
  induction entries generalizing mValue fuel with
  | nil =>
    obtain ⟨fuel, rfl⟩ := Nat.exists_eq_add_of_lt hfuel
    exact (recognises_readTagType.accepts rfl).bind_nil (accepts_pure mValue)
  | cons e entries ih =>
    obtain ⟨hend, hkey⟩ := hkeys e List.mem_cons_self
    rw [List.flatMap_cons, EntryText.text] at hfuel ⊢
    simp only [List.length_append, writeByte, List.length_singleton] at hfuel
    -- the id of the entry takes one of the bytes, so there is fuel for the value and for the rest
    obtain ⟨fuel, rfl⟩ := Nat.exists_eq_add_of_lt (show 1 < fuel by omega)
    have hrest := ih (fun e he => hkeys e (List.mem_cons_of_mem _ he))
      (fun e he => hvalues e (List.mem_cons_of_mem _ he)) (emplaceEntry e.key e.value mValue)
      (show (entries.flatMap EntryText.text).length < 1 + fuel by omega)
    have hvalue := hvalues e List.mem_cons_self fuel (by omega)
    rw [Nat.add_comm] at hvalue
    simp only [List.append_assoc]
    refine (recognises_readTagType.accepts rfl).bind ?_
    rw [if_neg hend]
    exact ((recognises_reader recognises_readString).accepts hkey).bind (hvalue.bind hrest)

/-- A list accepts the texts of its elements. -/
theorem accepts_list {element : TagVariant → Reader TagVariant} {before : Bytes} {size : Int32}
    {type : TagType}
    {elements : List ElementText} (hsize : IsSignedVarInt before size)
    (hlength : size.toInt = elements.length)
    (helements : ∀ e ∈ elements, Accepts (element (TagVariant.endTag.emplace type))
      e.text e.value) :
    Accepts (ListTag.deserialize element [])
      (writeByte type ++ (before ++ elements.flatMap ElementText.text))
      (type, elements.map ElementText.value) := by
  -- a negative count is none here, since it is the length of a list
  have hresize : Accepts (resize TagVariant.endTag (sizeCast size) []) ([] : Bytes)
      (List.replicate size.toInt.toNat TagVariant.endTag) :=
    (recognises_resize_count _ size).accepts ⟨by omega, rfl, rfl⟩
  have heach : Accepts
      (each (fun v : TagVariant => element (v.emplace type))
        (List.replicate size.toInt.toNat .endTag))
      (elements.flatMap ElementText.text) (elements.map ElementText.value) := by
    refine Accepts.each (sequence_map fun e he v hv => ?_) ?_
    · rw [List.eq_of_mem_replicate hv]
      exact helements e he
    · rw [List.length_replicate, List.length_map]
      omega
  exact (recognises_readTagType.accepts rfl).bind
    (((recognises_reader recognises_readVarInt).accepts hsize).bind (hresize.bind heach.bind_pure))

/-- **Every text is read**, with more fuel than it has bytes. -/
theorem Payload.accepts {type : TagType} {bs : Bytes} {v : TagVariant} {ids : List TagType}
    (h : Payload type bs v ids) :
    ∀ fuel ≥ bs.length,
    Accepts (TagVariant.deserializeFuel (fuel + 1) (TagVariant.endTag.emplace type)) bs v := by
  induction h with
  | endTag hnot =>
    intro fuel _
    rw [emplace_undefined hnot]
    exact accepts_pure _
  | byteTag v =>
    exact fun _ _ => ((recognises_reader (recognises_scalar Scalar.int8)).accepts rfl).bind_pure
  | shortTag v =>
    exact fun _ _ => ((recognises_reader (recognises_scalar Scalar.int16)).accepts rfl).bind_pure
  | intTag hv => exact fun _ _ => ((recognises_reader recognises_readVarInt).accepts hv).bind_pure
  | longTag hv =>
    exact fun _ _ => ((recognises_reader recognises_readVarInt64).accepts hv).bind_pure
  | floatTag bits =>
    exact fun _ _ => ((recognises_reader (recognises_scalar Scalar.uint32)).accepts rfl).bind_pure
  | doubleTag bits =>
    exact fun _ _ => ((recognises_reader (recognises_scalar Scalar.uint64)).accepts rfl).bind_pure
  | byteArrayTag hvs =>
    exact fun _ _ => ((recognises_array (recognises_scalar Scalar.int8)).accepts hvs).bind_pure
  | stringTag hv =>
    exact fun _ _ => ((recognises_reader recognises_readString).accepts hv).bind_pure
  -- an element is shorter than its list, so the fuel that is left is enough for it
  | listTag hsize hlength _ ih =>
    intro fuel hfuel
    simp only [List.length_append, writeByte, List.length_singleton] at hfuel
    obtain ⟨fuel, rfl⟩ := Nat.exists_eq_add_of_le' (show 1 ≤ fuel by omega)
    refine (accepts_list hsize hlength fun e he => ih e he fuel ?_).bind_pure
    have htext : e.text.length ≤ _ := length_le_flatMap he
    omega
  | compoundTag hkeys _ ih =>
    intro fuel hfuel
    simp only [List.length_append, writeByte, List.length_singleton] at hfuel
    exact (accepts_entries hkeys ih [] (Nat.lt_of_succ_le hfuel)).bind_pure
  | intArrayTag hvs =>
    exact fun _ _ => ((recognises_array recognises_readVarInt).accepts hvs).bind_pure

end SculkProtocol
