import Mathlib.Algebra.Ring.Nat
import SculkProtocol.Codec.Nbt.NegativeCounts

/-!
# How many tags a text can have

Every entry of a compound and every element of an array takes a byte of the input, and so does every
element of a list whose type has a payload. By induction on the grammar these tags are no more than
the bytes that are read (`tags_le_consumed`).

The elements of a list of the type `End` take none: only the count before them says how many there
are, and nothing compares it with what is left (`endTags_read`).
-/

namespace SculkProtocol

open Decoder BinaryStream ReadOnlyBinaryStream StreamRead

mutual

/-- The tags in a tree at all depths, where an element of a list counts as `element` says. -/
def TagVariant.tagsBy (element : TagVariant → ℕ) : TagVariant → ℕ
  | .byteArrayTag vs => vs.length
  | .intArrayTag vs => vs.length
  | .listTag _ vs => ListTag.tagsBy element vs
  | .compoundTag entries => CompoundTag.tagsBy element entries
  | _ => 0

def ListTag.tagsBy (element : TagVariant → ℕ) : List TagVariant → ℕ
  | [] => 0
  | v :: vs => element v + v.tagsBy element + ListTag.tagsBy element vs

def CompoundTag.tagsBy (element : TagVariant → ℕ) : List (Bytes × TagVariant) → ℕ
  | [] => 0
  | e :: entries => 1 + e.2.tagsBy element + CompoundTag.tagsBy element entries

end

namespace TagVariant

/-- The entries of compounds and the elements of lists and arrays. -/
def tags (v : TagVariant) : ℕ := v.tagsBy fun _ => 1

/-- One, unless the payload is empty. -/
def payloads (v : TagVariant) : ℕ := if v.getType = TagType.endTag then 0 else 1

/-- The tags but for the elements of lists whose payload is empty. -/
def payloadTags (v : TagVariant) : ℕ := v.tagsBy payloads

end TagVariant

/-- An end tag has no tags. -/
theorem TagVariant.tagsBy_endTag (element : TagVariant → ℕ) :
    TagVariant.endTag.tagsBy element = 0 := by
  simp [TagVariant.tagsBy]

/-- Equal tags are counted as often as they are there. -/
theorem ListTag.tagsBy_replicate (element : TagVariant → ℕ) (n : ℕ) :
    ListTag.tagsBy element (List.replicate n .endTag) = n * element .endTag := by
  induction n with
  | zero => simp [ListTag.tagsBy]
  | succ n ih =>
    rw [List.replicate_succ, ListTag.tagsBy, ih, TagVariant.tagsBy_endTag, Nat.add_zero,
      Nat.succ_mul, Nat.add_comm]

/-! ### The tags of a text -/

/-- A signed varint has a byte. -/
theorem length_pos_of_isSignedVarInt {bs : Bytes} {v : Int32} (h : IsSignedVarInt bs v) :
    1 ≤ bs.length := by
  obtain ⟨_, ht, -⟩ := h
  exact ht.length_pos

/-- So has one of 64 bits. -/
theorem length_pos_of_isSignedVarInt64 {bs : Bytes} {v : Int64} (h : IsSignedVarInt64 bs v) :
    1 ≤ bs.length := by
  obtain ⟨_, ht, -⟩ := h
  exact ht.length_pos

/-- The elements of an array take a byte each. -/
theorem IsArray.length_le {α : Type} {L : Bytes → α → Prop} {bs : Bytes} {vs : List α}
    (h : IsArray L bs vs)
    (hL : ∀ bs v, L bs v → 1 ≤ bs.length) : 1 + vs.length ≤ bs.length := by
  obtain ⟨before, size, body, rfl, hsize, -, hbody⟩ := h
  have hpos := length_pos_of_isSignedVarInt hsize
  have hle : vs.length ≤ body.length := by
    clear hsize hpos
    induction vs generalizing body with
    | nil => exact Nat.zero_le _
    | cons v vs ih =>
      obtain ⟨bs₁, bs₂, rfl, hv, hvs⟩ := sequence_cons.mp hbody
      have hone := hL bs₁ v hv
      have hrest := ih bs₂ hvs
      rw [List.length_append, List.length_cons]
      omega
  rw [List.length_append]
  omega

/-- Emplacing an entry adds its tags, or nothing. -/
theorem CompoundTag.tagsBy_emplaceEntry (element : TagVariant → ℕ) (key : Bytes)
    (value : TagVariant)
    (entries : List (Bytes × TagVariant)) :
    CompoundTag.tagsBy element (emplaceEntry key value entries) ≤
      1 + value.tagsBy element + CompoundTag.tagsBy element entries := by
  induction entries with
  | nil => exact Nat.le_refl _
  | cons e es ih =>
    rw [emplaceEntry]
    split
    · exact Nat.le_refl _
    · split
      · rw [CompoundTag.tagsBy, CompoundTag.tagsBy]
        omega
      · exact Nat.le_add_left ..

/-- Entries that take the place of others add no tags. -/
theorem CompoundTag.tagsBy_emplaceAll {element : TagVariant → ℕ} {entries : List EntryText}
    (h : ∀ e ∈ entries, 1 + e.value.tagsBy element ≤ e.text.length)
    (done : List (Bytes × TagVariant)) :
    CompoundTag.tagsBy element (EntryText.emplaceAll done entries) ≤
      CompoundTag.tagsBy element done + (entries.flatMap EntryText.text).length := by
  induction entries generalizing done with
  | nil => exact Nat.le_add_right ..
  | cons e entries ih =>
    have hfirst := h e List.mem_cons_self
    have hstep := CompoundTag.tagsBy_emplaceEntry element e.key e.value done
    have hrest := ih (fun e he => h e (List.mem_cons_of_mem _ he)) (emplaceEntry e.key e.value done)
    rw [List.flatMap_cons, List.length_append]
    show CompoundTag.tagsBy element
      (EntryText.emplaceAll (emplaceEntry e.key e.value done) entries) ≤ _
    omega

/-- The tags of the elements are those of their texts at most. -/
theorem ListTag.tagsBy_elements {element : TagVariant → ℕ} {elements : List ElementText}
    (h : ∀ e ∈ elements, element e.value + e.value.tagsBy element ≤ e.text.length) :
    ListTag.tagsBy element (elements.map ElementText.value) ≤
      (elements.flatMap ElementText.text).length := by
  induction elements with
  | nil => simp [ListTag.tagsBy]
  | cons e elements ih =>
    have hfirst := h e List.mem_cons_self
    have hrest := ih fun e he => h e (List.mem_cons_of_mem _ he)
    rw [List.map_cons, ListTag.tagsBy, List.flatMap_cons, List.length_append]
    omega

/-- A value with a payload has a byte for itself. -/
theorem payloads_le_one (v : TagVariant) : v.payloads ≤ 1 := by
  unfold TagVariant.payloads
  split
  · exact Nat.zero_le 1
  · exact Nat.le_refl 1

/-- **A text has a byte for each tag with a payload in it**, and one for its own. -/
theorem Payload.payloadTags_le {type : TagType} {bs : Bytes} {v : TagVariant} {ids : List TagType}
    (h : Payload type bs v ids) : v.payloads + v.payloadTags ≤ bs.length := by
  -- a value without tags in it needs one byte at most
  have hleaf : ∀ (v : TagVariant) (bs : Bytes), v.payloadTags = 0 → 1 ≤ bs.length →
      v.payloads + v.payloadTags ≤ bs.length := by
    intro v bs hzero hpos
    rw [hzero]
    exact Nat.le_trans (payloads_le_one v) hpos
  induction h with
  | endTag hnot =>
    simp [TagVariant.payloads, TagVariant.getType, TagVariant.payloadTags, TagVariant.tagsBy]
  | byteTag v =>
    exact hleaf _ _ (by simp [TagVariant.payloadTags, TagVariant.tagsBy]) (Nat.le_refl 1)
  | shortTag v =>
    exact hleaf _ _ (by simp [TagVariant.payloadTags, TagVariant.tagsBy]) (Nat.le_add_left 1 1)
  | intTag hv =>
    exact hleaf _ _ (by simp [TagVariant.payloadTags, TagVariant.tagsBy])
      (length_pos_of_isSignedVarInt hv)
  | longTag hv =>
    exact hleaf _ _ (by simp [TagVariant.payloadTags, TagVariant.tagsBy])
      (length_pos_of_isSignedVarInt64 hv)
  | floatTag bits =>
    exact hleaf _ _ (by simp [TagVariant.payloadTags, TagVariant.tagsBy]) (Nat.le_add_left 1 3)
  | doubleTag bits =>
    exact hleaf _ _ (by simp [TagVariant.payloadTags, TagVariant.tagsBy]) (Nat.le_add_left 1 7)
  | stringTag hv =>
    exact hleaf _ _ (by simp [TagVariant.payloadTags, TagVariant.tagsBy])
      (length_pos_of_isString hv)
  | byteArrayTag hvs =>
    rw [TagVariant.payloadTags, TagVariant.tagsBy]
    refine hvs.length_le fun bs v hv => ?_
    rw [hv]
    exact Nat.le_refl 1
  | intArrayTag hvs =>
    rw [TagVariant.payloadTags, TagVariant.tagsBy]
    exact hvs.length_le fun bs v hv => length_pos_of_isSignedVarInt hv
  | listTag hsize hlength helements ih =>
    -- the type of the elements is a byte before them, which is the list's own
    have helements := ListTag.tagsBy_elements ih
    rw [TagVariant.payloadTags, TagVariant.tagsBy, List.length_append, List.length_append]
    exact Nat.add_le_add (Nat.le_refl 1) (Nat.le_trans helements (Nat.le_add_left ..))
  | @compoundTag entries hkeys hvalues ih =>
    have hentry : ∀ e ∈ entries, 1 + e.value.tagsBy TagVariant.payloads ≤ e.text.length := by
      intro e he
      have hvalue : e.value.payloads + e.value.tagsBy TagVariant.payloads ≤ e.valueText.length :=
        ih e he
      -- the tag id pays for an entry without a payload, too
      show _ ≤ ([e.type] ++ (e.keyText ++ e.valueText)).length
      rw [List.length_append, List.length_append, List.length_singleton]
      omega
    -- the byte for the end of the compound is its own
    have hentries := CompoundTag.tagsBy_emplaceAll hentry []
    rw [CompoundTag.tagsBy, Nat.zero_add] at hentries
    rw [TagVariant.payloadTags, TagVariant.tagsBy, List.length_append, Nat.add_comm]
    exact Nat.add_le_add hentries (Nat.le_refl 1)

/-! ### The tags of an input -/

/-- **Tags with a payload are no more than the bytes that are read.** -/
theorem tags_le_consumed {input : Bytes} {s : ReadOnlyBinaryStream} {m : List (Bytes × TagVariant)}
    (h : CompoundTag.deserialize [] (ofBuffer input) = (s, .ok m)) :
    (TagVariant.compoundTag m).payloadTags ≤ s.getPosition := by
  -- what was read is the text of the compound, and its length is the position
  obtain ⟨bs, rest, -, rfl, ids, htext⟩ := deserialize_iff.mp h
  have hle := htext.payloadTags_le
  have hposition : ((ofBuffer input).advance bs.length).getPosition = bs.length := Nat.zero_add _
  rw [hposition]
  exact Nat.le_trans (Nat.le_add_left ..) hle

/-- A value under an empty key. -/
theorem wellFormed_entry {v : TagVariant} (h : v.WellFormed) (htype : v.getType ≠ TagType.endTag) :
    (TagVariant.compoundTag [([], v)]).WellFormed := by
  refine .compoundTag (List.pairwise_singleton _ _) ?_ ?_ ?_
  all_goals
    intro e he
    rw [List.mem_singleton.mp he]
  · exact Nat.two_pow_pos 32
  · exact htype
  · exact h

/-- A list with the elements 5 and 6. -/
theorem tags_le_consumed_bytes : ∃ s, CompoundTag.deserialize [] (ofBuffer [9, 0, 1, 4, 5, 6, 0]) =
      (s, .ok [([], .listTag TagType.byteTag [.byteTag 5, .byteTag 6])]) ∧
    (TagVariant.compoundTag [([], .listTag TagType.byteTag [.byteTag 5, .byteTag 6])]).payloadTags ≤
      s.getPosition := by
  have hlist : (TagVariant.listTag TagType.byteTag [.byteTag 5, .byteTag 6]).WellFormed := by
    refine .listTag (by decide) ?_ ?_
    · simp [TagVariant.getType]
    · simp [TagVariant.WellFormed.byteTag]
  obtain ⟨ids, htext⟩ := (wellFormed_entry hlist (by decide)).payload
  have hinput : (TagVariant.compoundTag
    [([], .listTag TagType.byteTag [.byteTag 5, .byteTag 6])]).serialize =
      [9, 0, 1, 4, 5, 6, 0] := by decide +kernel
  have hread := deserialize_iff.mpr ⟨_, [], (List.append_nil _).symm, rfl, ids, hinput ▸ htext⟩
  exact ⟨_, hread, tags_le_consumed hread⟩

/-! ### Elements of the type `End` -/

/-- So many tags of the type `End`, in a list under an empty key. -/
def endTags (n : ℕ) : List (Bytes × TagVariant) :=
  [([], .listTag TagType.endTag (List.replicate n .endTag))]

/-- A list of end tags has as many tags as it is long. -/
theorem tags_endTags (n : ℕ) : (TagVariant.compoundTag (endTags n)).tags = 1 + n := by
  simp only [TagVariant.tags, endTags, TagVariant.tagsBy, CompoundTag.tagsBy,
    ListTag.tagsBy_replicate, Nat.mul_one, Nat.add_zero]

/-- They take no byte of the text. -/
theorem serialize_endTags (n : ℕ) :
    (TagVariant.compoundTag (endTags n)).serialize = [9, 0, 0] ++ writeVarInt (Int32.ofNat n) ++
    [0] := by
  have hnone : ListTag.serializeElements (List.replicate n .endTag) = [] := by
    induction n with
    | zero => rfl
    | succ n ih => rw [List.replicate_succ, ListTag.serializeElements, ih]; rfl
  simp only [endTags, TagVariant.serialize, CompoundTag.serializeEntries, hnone,
    List.length_replicate, List.append_nil]
  rfl

/-- However many there are, they are read. -/
theorem endTags_read {n : ℕ} (hn : n < 2 ^ 31) {input : Bytes}
    (hinput : input = [9, 0, 0] ++ writeVarInt (Int32.ofNat n) ++ [0]) :
    CompoundTag.deserialize [] (ofBuffer input) =
      ((ofBuffer input).advance input.length, .ok (endTags n)) := by
  -- the list is well formed, so its text is read, which is the input
  have hlist : (TagVariant.listTag TagType.endTag (List.replicate n .endTag)).WellFormed := by
    refine .listTag (by rwa [List.length_replicate]) (fun v hv => ?_) fun v hv => ?_
    · rw [List.eq_of_mem_replicate hv]
      rfl
    · rw [List.eq_of_mem_replicate hv]
      exact .endTag
  have htype : TagType.listTag ≠ TagType.endTag := by decide
  obtain ⟨ids, htext⟩ := (wellFormed_entry hlist htype).payload
  change Payload TagType.compoundTag (TagVariant.compoundTag (endTags n)).serialize _ ids at htext
  rw [serialize_endTags, ← hinput] at htext
  exact deserialize_iff.mpr ⟨input, [], (List.append_nil _).symm, rfl, ids, htext⟩

/-- Eight bytes with more than a million tags. -/
theorem tags_not_bounded :
    ¬ ∀ (input : Bytes) (s : ReadOnlyBinaryStream) (m : List (Bytes × TagVariant)),
    CompoundTag.deserialize [] (ofBuffer input) = (s, .ok m) →
      (TagVariant.compoundTag m).tags ≤ s.getPosition := by
  intro h
  have hinput : ([9, 0, 0, 0x80, 0x80, 0x80, 0x01, 0] : Bytes) =
      [9, 0, 0] ++ writeVarInt (Int32.ofNat (2 ^ 20)) ++ [0] := by decide +kernel
  have hle := h _ _ _ (endTags_read (by decide) hinput)
  rw [tags_endTags] at hle
  exact absurd hle (by decide)

end SculkProtocol
