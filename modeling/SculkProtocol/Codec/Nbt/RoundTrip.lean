import SculkProtocol.Codec.Nbt.Grammar
import SculkProtocol.Decoding.Targets

/-!
# What NBT readers accept

A tree that is well formed is serialised to a text of the grammar (`WellFormed.payload`), so it
is read back (`compound_read_back`). In the other direction, what is read of a text whose tag ids
are defined is well formed (`Payload.wellFormed`). A text with another id is read as well: the id is
taken for an empty value. `readsSentences_iff` says that this is all that goes wrong.
-/

namespace SculkProtocol

open Decoder BinaryStream ReadOnlyBinaryStream StreamRead

/-! ### The readers -/

/-- What is left is as long as its view. -/
theorem left_eq (s : ReadOnlyBinaryStream) : s.left = s.getLeftBufferView.length :=
  (List.length_drop ..).symm

/-- The text of a compound value. -/
theorem Payload.compound_inv {type : TagType} {bs : Bytes} {m : List (Bytes × TagVariant)}
    {ids : List TagType}
    (h : Payload type bs (.compoundTag m) ids) : ∃ entries, CompoundText [] bs m entries := by
  generalize hv : TagVariant.compoundTag m = v at h
  cases h with
  | compoundTag hkeys hvalues =>
    cases hv
    exact ⟨_, hkeys, hvalues, rfl, rfl⟩
  | _ => exact absurd hv (by simp)

/-- A compound tag is a payload. -/
theorem CompoundText.payload {bs : Bytes} {m : List (Bytes × TagVariant)} {entries : List EntryText}
    (h : CompoundText [] bs m entries) : ∃ ids, Payload TagType.compoundTag bs
    (.compoundTag m) ids := by
  obtain ⟨hkeys, hvalues, rfl, rfl⟩ := h
  exact ⟨_, .compoundTag hkeys hvalues⟩

namespace CompoundTag

/-- Entries up to the terminator, whatever the map that they are put into. -/
def EntriesText (bs : Bytes) (entries : List EntryText) : Prop :=
  (∀ e ∈ entries, e.type ≠ TagType.endTag ∧ IsString e.keyText e.key) ∧
    (∀ e ∈ entries, Payload e.type e.valueText e.value e.ids) ∧
    bs = entries.flatMap EntryText.text ++ writeByte 0

/-- The map may have entries: they do not matter for which texts are read. -/
theorem fills_deserialize : Fills CompoundTag.deserialize EntriesText EntryText.emplaceAll := by
  intro m
  constructor
  · intro s s' m' hs h
    obtain ⟨bs, rest, hrest, hs', entries, hkeys, hvalues, htext, hm'⟩ :=
      (yields_deserializeFuel _).2 m s s' m' hs h
    exact ⟨bs, rest, hrest, hs', entries, ⟨hkeys, hvalues, htext⟩, hm'⟩
  · rintro bs _ ⟨entries, ⟨hkeys, hvalues, rfl⟩, rfl⟩ s rest hs hrest
    have hleft : (entries.flatMap EntryText.text).length < s.left + 1 := by
      have hlength := congrArg List.length hrest
      rw [List.length_append, List.length_append] at hlength
      rw [left_eq, show s.getLeftBufferView.length = _ from hlength]
      omega
    exact accepts_entries hkeys (fun e he => (hvalues e he).accepts) m hleft s rest hs hrest

end CompoundTag

/-- `CompoundTag::deserialize` succeeds exactly where the input begins with the text of a
compound. -/
theorem recognises_deserialize : Recognises (CompoundTag.deserialize []) fun bs m =>
    ∃ ids, Payload TagType.compoundTag bs (.compoundTag m) ids := by
  refine (CompoundTag.fills_deserialize []).congr fun bs m => ⟨?_, ?_⟩
  · rintro ⟨entries, ⟨hkeys, hvalues, htext⟩, hm⟩
    exact CompoundText.payload ⟨hkeys, hvalues, htext, hm⟩
  · rintro ⟨ids, h⟩
    obtain ⟨entries, hkeys, hvalues, htext, hm⟩ := h.compound_inv
    exact ⟨entries, ⟨hkeys, hvalues, htext⟩, hm⟩

/-! ### Well-formed trees -/

/-- A tree that can be written: distinct keys, no value without a type, the elements of a list
of its type, and lengths that their prefixes hold. -/
inductive TagVariant.WellFormed : TagVariant → Prop
  | endTag : WellFormed .endTag
  | byteTag (v : Int8) : WellFormed (.byteTag v)
  | shortTag (v : Int16) : WellFormed (.shortTag v)
  | intTag (v : Int32) : WellFormed (.intTag v)
  | longTag (v : Int64) : WellFormed (.longTag v)
  | floatTag (bits : UInt32) : WellFormed (.floatTag bits)
  | doubleTag (bits : UInt64) : WellFormed (.doubleTag bits)
  | byteArrayTag {vs : List Int8} (hlength : vs.length < 2 ^ 31) : WellFormed (.byteArrayTag vs)
  | stringTag {v : Bytes} (hlength : v.length < 2 ^ 32) : WellFormed (.stringTag v)
  | listTag {type : TagType} {vs : List TagVariant} (hlength : vs.length < 2 ^ 31)
      (htypes : ∀ v ∈ vs, v.getType = type) (hvalues : ∀ v ∈ vs, WellFormed v) : WellFormed
        (.listTag type vs)
  | compoundTag {entries : List (Bytes × TagVariant)} (hsorted : SortedEntries entries)
      (hkeys : ∀ e ∈ entries, e.1.length < 2 ^ 32) (htypes : ∀ e ∈ entries,
        e.2.getType ≠ TagType.endTag)
      (hvalues : ∀ e ∈ entries, WellFormed e.2) : WellFormed (.compoundTag entries)
  | intArrayTag {vs : List Int32} (hlength : vs.length < 2 ^ 31) : WellFormed (.intArrayTag vs)

/-- Values are written as an array. -/
theorem isArray_serialize {α : Type} {L : Bytes → α → Prop} {write : α → Bytes} {vs : List α}
    (h : ∀ v ∈ vs, L (write v) v) (hlength : vs.length < 2 ^ 31) :
    IsArray L (ValueArrayTag.serialize write vs) vs :=
  ⟨_, _, _, rfl, isSignedVarInt_write _, Int32.toInt_ofNat_of_lt hlength, sequence_flatMap h⟩

/-- Elements are written one behind the other. -/
theorem serializeElements_eq (vs : List TagVariant) :
    ListTag.serializeElements vs = vs.flatMap TagVariant.serialize := by
  induction vs with
  | nil => rfl
  | cons v vs ih => rw [ListTag.serializeElements, List.flatMap_cons, ih]

/-- The entries of a map as they are written. -/
theorem entries_text {es : List (Bytes × TagVariant)} (hkeys : ∀ e ∈ es, e.1.length < 2 ^ 32)
    (htypes : ∀ e ∈ es, e.2.getType ≠ TagType.endTag)
    (hvalues : ∀ e ∈ es, ∃ ids, Payload e.2.getType e.2.serialize e.2 ids) :
    ∃ entries : List EntryText,
      (∀ e ∈ entries, e.type ≠ TagType.endTag ∧ IsString e.keyText e.key) ∧
      (∀ e ∈ entries, Payload e.type e.valueText e.value e.ids) ∧
      CompoundTag.serializeEntries es = entries.flatMap EntryText.text ∧
      entries.map (fun e => (e.key, e.value)) = es := by
  induction es with
  | nil =>
    exact ⟨[], fun _ h => absurd h List.not_mem_nil, fun _ h => absurd h List.not_mem_nil, rfl, rfl⟩
  | cons e es ih =>
    obtain ⟨key, value⟩ := e
    obtain ⟨entries, hkeys', hvalues', htext, hmap⟩ :=
      ih (fun e he => hkeys e (List.mem_cons_of_mem _ he))
      (fun e he => htypes e (List.mem_cons_of_mem _ he)) fun e he =>
        hvalues e (List.mem_cons_of_mem _ he)
    have htype := htypes _ List.mem_cons_self
    obtain ⟨ids, hids⟩ := hvalues _ List.mem_cons_self
    refine ⟨⟨value.getType, writeString key, key, value.serialize, value, ids⟩ :: entries,
      ?_, ?_, ?_, ?_⟩
    · intro e he
      rcases List.mem_cons.mp he with rfl | he
      · exact ⟨htype, isString_write (hkeys _ List.mem_cons_self)⟩
      · exact hkeys' e he
    · intro e he
      rcases List.mem_cons.mp he with rfl | he
      · exact hids
      · exact hvalues' e he
    · rw [CompoundTag.serializeEntries, if_pos htype, htext, List.flatMap_cons, EntryText.text]
      simp only [List.append_assoc]
    · rw [List.map_cons, hmap]

/-- Entries in their order are emplaced one behind the other. -/
theorem emplaceAll_sorted {entries : List EntryText} {done : List (Bytes × TagVariant)}
    (h : SortedEntries (done ++ entries.map fun e => (e.key, e.value))) :
    EntryText.emplaceAll done entries = done ++ entries.map fun e => (e.key, e.value) := by
  induction entries generalizing done with
  | nil => exact (List.append_nil done).symm
  | cons e entries ih =>
    rw [List.map_cons] at h
    have hnext := h.emplaceEntry_next
    rw [List.append_cons] at h
    show EntryText.emplaceAll (emplaceEntry e.key e.value done) entries = _
    rw [hnext, ih h, List.map_cons]
    exact (List.append_cons ..).symm

/-- **A well-formed tree is written as a text of the grammar.** -/
theorem TagVariant.WellFormed.payload {v : TagVariant} (h : v.WellFormed) :
    ∃ ids, Payload v.getType v.serialize v ids := by
  induction h with
  | endTag => exact ⟨_, .endTag (by decide)⟩
  | byteTag v => exact ⟨_, .byteTag v⟩
  | shortTag v => exact ⟨_, .shortTag v⟩
  | intTag v => exact ⟨_, .intTag (isSignedVarInt_write v)⟩
  | longTag v => exact ⟨_, .longTag (isSignedVarInt64_write v)⟩
  | floatTag bits => exact ⟨_, .floatTag bits⟩
  | doubleTag bits => exact ⟨_, .doubleTag bits⟩
  | byteArrayTag hlength => exact ⟨_, .byteArrayTag (isArray_serialize (fun _ _ => rfl) hlength)⟩
  | stringTag hlength => exact ⟨_, .stringTag (isString_write hlength)⟩
  | @listTag type vs hlength htypes _ ih =>
    -- the elements are of one type, and each is a text of it
    have hs : Sequence (fun bs v => ∃ ids, Payload type bs v ids)
        (vs.flatMap TagVariant.serialize) vs := by
      refine sequence_flatMap fun v hv => ?_
      have hv' := ih v hv
      rwa [htypes v hv] at hv'
    obtain ⟨elements, helements, htext, rfl⟩ := sequence_elements.mp hs
    have hsize : (Int32.ofNat (elements.map ElementText.value).length).toInt = elements.length := by
      rw [Int32.toInt_ofNat_of_lt hlength, List.length_map]
    refine ⟨listIds type elements, ?_⟩
    rw [TagVariant.serialize, serializeElements_eq, htext, List.append_assoc]
    exact .listTag (isSignedVarInt_write _) hsize helements
  | @compoundTag es hsorted hkeys htypes _ ih =>
    obtain ⟨entries, hkeys', hvalues', htext, rfl⟩ := entries_text hkeys htypes ih
    -- the entries are written in the order of their keys, and found in it
    have hall : EntryText.emplaceAll [] entries = entries.map fun e => (e.key, e.value) :=
      emplaceAll_sorted hsorted
    have hpayload := Payload.compoundTag hkeys' hvalues'
    rw [hall] at hpayload
    rw [TagVariant.serialize, htext]
    exact ⟨_, hpayload⟩
  | intArrayTag hlength =>
    exact ⟨_, .intArrayTag (isArray_serialize (fun v _ => isSignedVarInt_write v) hlength)⟩

/-! ### Reading what was written -/

/-- A well-formed tag is read back. -/
theorem accepts_read {entries : List (Bytes × TagVariant)}
    (h : (TagVariant.compoundTag entries).WellFormed) :
    Accepts (CompoundTag.read []) (CompoundTag.write entries) entries := by
  rw [CompoundTag.write, List.append_assoc]
  refine (recognises_readTagType.accepts rfl).bind ?_
  rw [if_neg (by decide)]
  have hname : Accepts (StreamRead.reader (ignoreBytes 1)) (writeByte 0) () :=
    (recognises_reader (recognises_ignoreBytes 1)).accepts rfl
  exact hname.bind (recognises_deserialize.accepts h.payload)

/-- **A tree is read back.** What follows it is left. -/
theorem compound_read_back {entries : List (Bytes × TagVariant)}
    (h : (TagVariant.compoundTag entries).WellFormed)
    (trailing : Bytes) :
    ∃ s, CompoundTag.read [] (ofBuffer (CompoundTag.write entries ++ trailing)) = (s, .ok entries) ∧
      s.getLeftBufferView = trailing := by
  have hread := accepts_read h (ofBuffer (CompoundTag.write entries ++ trailing)) trailing
    ⟨rfl, Nat.zero_le _⟩ rfl
  have hleft : InputStream.remaining (ofBuffer (CompoundTag.write entries ++ trailing)) =
      CompoundTag.write entries ++ trailing := rfl
  exact ⟨_, hread, remaining_of_append hleft⟩

/-- A list of two numbers under a key, before two more bytes. -/
theorem compound_read_back_list : ∃ s,
    CompoundTag.read []
      (ofBuffer (CompoundTag.write [([97], .listTag TagType.byteTag [.byteTag 1, .byteTag (-1)])] ++
      [7, 7])) = (s, .ok [([97], .listTag TagType.byteTag [.byteTag 1, .byteTag (-1)])]) ∧
      s.getLeftBufferView = [7, 7] := by
  refine compound_read_back
    (.compoundTag (by decide) (by simp) (by simp [TagVariant.getType]; decide) ?_) _
  intro e he
  rw [List.mem_singleton.mp he]
  refine .listTag (by decide) ?_ ?_
  · simp [TagVariant.getType]
  · simp [TagVariant.WellFormed.byteTag]

/-! ### What is read of defined ids -/

/-- Entries that are put into a map are sorted. -/
theorem emplaceAll_sortedEntries {entries : List EntryText} {done : List (Bytes × TagVariant)}
    (h : SortedEntries done) : SortedEntries (EntryText.emplaceAll done entries) := by
  induction entries generalizing done with
  | nil => exact h
  | cons e entries ih => exact ih h.emplaceEntry

/-- Every entry was there or was put in. -/
theorem mem_emplaceAll {entries : List EntryText} {done : List (Bytes × TagVariant)}
    {p : Bytes × TagVariant}
    (h : p ∈ EntryText.emplaceAll done entries) : p ∈ done ∨ ∃ e ∈ entries, p =
    (e.key, e.value) := by
  induction entries generalizing done with
  | nil => exact .inl h
  | cons e entries ih =>
    rcases ih h with h | ⟨e', he', hp⟩
    · rcases mem_emplaceEntry h with hp | h
      · exact .inr ⟨e, List.mem_cons_self, hp⟩
      · exact .inl h
    · exact .inr ⟨e', List.mem_cons_of_mem _ he', hp⟩

/-- An array has fewer than `2 ^ 31` elements. -/
theorem IsArray.length_lt {α : Type} {L : Bytes → α → Prop} {bs : Bytes} {vs : List α}
    (h : IsArray L bs vs) :
    vs.length < 2 ^ 31 := by
  obtain ⟨_, size, _, -, -, hlength, -⟩ := h
  have := size.toInt_lt
  omega

/-- A string has fewer than `2 ^ 32` bytes. -/
theorem length_lt_of_isString {bs v : Bytes} (h : IsString bs v) : v.length < 2 ^ 32 := by
  obtain ⟨_, length, -, -, hlength⟩ := h
  rw [hlength]
  exact length.toNat_lt

/-- **What is read of a text whose ids are defined is well formed**, and has the type it was
read for. -/
theorem Payload.wellFormed {type : TagType} {bs : Bytes} {v : TagVariant} {ids : List TagType}
    (h : Payload type bs v ids) (hids : ∀ id ∈ ids, id.IsDefined) :
    v.WellFormed ∧ (type.IsDefined → v.getType = type) := by
  induction h with
  | endTag hnot => exact ⟨.endTag, fun h => absurd h hnot⟩
  | byteTag v => exact ⟨.byteTag v, fun _ => rfl⟩
  | shortTag v => exact ⟨.shortTag v, fun _ => rfl⟩
  | @intTag _ v _ => exact ⟨.intTag v, fun _ => rfl⟩
  | @longTag _ v _ => exact ⟨.longTag v, fun _ => rfl⟩
  | floatTag bits => exact ⟨.floatTag bits, fun _ => rfl⟩
  | doubleTag bits => exact ⟨.doubleTag bits, fun _ => rfl⟩
  | byteArrayTag h => exact ⟨.byteArrayTag h.length_lt, fun _ => rfl⟩
  | stringTag h => exact ⟨.stringTag (length_lt_of_isString h), fun _ => rfl⟩
  | @listTag _ size type elements _ hlength _ ih =>
    -- a list that is not empty has its type among the ids of the text
    have hmem : ∀ e ∈ elements, type ∈ listIds type elements ∧ ∀ id ∈ e.ids,
        id ∈ listIds type elements := by
      intro e he
      cases elements with
      | nil => exact absurd he List.not_mem_nil
      | cons e' elements =>
        exact ⟨List.mem_cons_self,
          fun id hid => List.mem_cons_of_mem _ (List.mem_flatMap.mpr ⟨e, he, hid⟩)⟩
    refine ⟨.listTag ?_ ?_ ?_, fun _ => rfl⟩
    · have hlt := size.toInt_lt
      rw [List.length_map]
      omega
    · intro v hv
      obtain ⟨e, he, rfl⟩ := List.mem_map.mp hv
      obtain ⟨htype, hsub⟩ := hmem e he
      exact (ih e he fun id hid => hids id (hsub id hid)).2 (hids type htype)
    · intro v hv
      obtain ⟨e, he, rfl⟩ := List.mem_map.mp hv
      exact (ih e he fun id hid => hids id ((hmem e he).2 id hid)).1
  | @compoundTag entries hkeys _ ih =>
    have hmem : ∀ e ∈ entries, ∀ id ∈ e.type :: e.ids, id.IsDefined :=
      fun e he id hid => hids id (List.mem_flatMap.mpr ⟨e, he, hid⟩)
    have hvalues : ∀ e ∈ entries, e.value.WellFormed ∧ e.value.getType = e.type := by
      intro e he
      -- the ids of a value are among those of the compound
      obtain ⟨hwf, htype⟩ := ih e he fun id hid => hmem e he id (List.mem_cons_of_mem _ hid)
      exact ⟨hwf, htype (hmem e he _ List.mem_cons_self)⟩
    -- of two entries with one key one is left; either was read from the text
    have hentry : ∀ p ∈ EntryText.emplaceAll [] entries, ∃ e ∈ entries, p = (e.key, e.value) :=
      fun p hp => (mem_emplaceAll hp).resolve_left List.not_mem_nil
    refine ⟨.compoundTag (emplaceAll_sortedEntries List.Pairwise.nil) ?_ ?_ ?_, fun _ => rfl⟩
    · intro p hp
      obtain ⟨e, he, rfl⟩ := hentry p hp
      exact length_lt_of_isString (hkeys e he).2
    · intro p hp
      obtain ⟨e, he, rfl⟩ := hentry p hp
      rw [(hvalues e he).2]
      exact (hkeys e he).1
    · intro p hp
      obtain ⟨e, he, rfl⟩ := hentry p hp
      exact (hvalues e he).1
  | intArrayTag h => exact ⟨.intArrayTag h.length_lt, fun _ => rfl⟩

/-! ### Sentences -/

/-- A text of a compound whose ids are defined. Its lengths are those of what follows them, so
none is negative. -/
def Sentence (bs : Bytes) (m : List (Bytes × TagVariant)) : Prop :=
  ∃ ids, Payload TagType.compoundTag bs (.compoundTag m) ids ∧ ∀ id ∈ ids, id.IsDefined

/-- An input that is read is a sentence as far as it is read, and the tree that it gives is read
back after it is written. An input that begins with a text with an undefined id is refused. -/
def ReadsSentences (input : Bytes) : Prop :=
  (∀ s m, CompoundTag.deserialize [] (ofBuffer input) = (s, .ok m) →
    (∃ bs rest, input = bs ++ rest ∧ s = (ofBuffer input).advance bs.length ∧ Sentence bs m) ∧
    ∃ s', CompoundTag.deserialize [] (ofBuffer (TagVariant.compoundTag m).serialize) =
      (s', .ok m)) ∧
  ∀ bs rest m ids, input = bs ++ rest → Payload TagType.compoundTag bs (.compoundTag m) ids →
    (∃ id ∈ ids, ¬ id.IsDefined) → ∃ e, (CompoundTag.deserialize [] (ofBuffer input)).2 = .error e

/-- Exactly the texts of a compound tag are deserialized. -/
theorem deserialize_iff {input : Bytes} {s : ReadOnlyBinaryStream} {m : List (Bytes × TagVariant)} :
    CompoundTag.deserialize [] (ofBuffer input) = (s, .ok m) ↔ ∃ bs rest, input = bs ++ rest ∧
      s = (ofBuffer input).advance bs.length ∧ ∃ ids,
      Payload TagType.compoundTag bs (.compoundTag m) ids := by
  constructor
  · exact recognises_deserialize.yields _ _ _ ⟨rfl, Nat.zero_le _⟩
  · rintro ⟨bs, rest, hinput, rfl, h⟩
    exact recognises_deserialize.accepts h _ rest ⟨rfl, Nat.zero_le _⟩ hinput

/-- **An undefined id is the only thing that is let through**: the readers do what they should
on an input exactly if the text of a compound that it begins with, if any, has defined ids. -/
theorem readsSentences_iff (input : Bytes) : ReadsSentences input ↔
    ∀ bs rest m ids, input = bs ++ rest → Payload TagType.compoundTag bs (.compoundTag m) ids →
      ∀ id ∈ ids, id.IsDefined := by
  constructor
  · -- a text with an undefined id is read, and would have to be refused
    rintro ⟨-, hrefuses⟩ bs rest m ids hinput h id hid
    by_contra hnot
    obtain ⟨e, he⟩ := hrefuses bs rest m ids hinput h ⟨id, hid, hnot⟩
    have hread := deserialize_iff.mpr ⟨bs, rest, hinput, rfl, ids, h⟩
    rw [hread] at he
    exact absurd he (by simp)
  · intro hdefined
    constructor
    · intro s m hread
      obtain ⟨bs, rest, hinput, hs, ids, h⟩ := deserialize_iff.mp hread
      have hids := hdefined bs rest m ids hinput h
      obtain ⟨ids', h'⟩ := (h.wellFormed hids).1.payload
      exact ⟨⟨bs, rest, hinput, hs, ids, h, hids⟩, _,
        deserialize_iff.mpr ⟨_, [], (List.append_nil _).symm, rfl, ids', h'⟩⟩
    · rintro bs rest m ids hinput h ⟨id, hid, hnot⟩
      exact absurd (hdefined bs rest m ids hinput h id hid) hnot

/-- Id 200 with an empty key, and the terminator. -/
theorem reads_undefined_id : ¬ ReadsSentences [200, 0, 0] := by
  intro h
  have hkey : IsString [0] [] := ⟨[0], 0, rfl, .last (by decide) (by decide), rfl⟩
  have htext : Payload TagType.compoundTag [200, 0, 0] (.compoundTag [([], .endTag)]) [200] := by
    refine @Payload.compoundTag [⟨200, [0], [], [], .endTag, []⟩] ?_ ?_
    · intro e he
      rw [List.mem_singleton.mp he]
      exact ⟨by decide, hkey⟩
    · intro e he
      rw [List.mem_singleton.mp he]
      exact .endTag (by decide)
  obtain ⟨e, he⟩ := h.2 _ [] _ _ rfl htext ⟨200, List.mem_singleton_self _, by decide⟩
  have hread : CompoundTag.deserialize [] (ofBuffer [200, 0, 0]) = (_, .ok _) :=
    deserialize_iff.mpr ⟨_, [], rfl, rfl, _, htext⟩
  rw [hread] at he
  exact absurd he (by simp)

end SculkProtocol
