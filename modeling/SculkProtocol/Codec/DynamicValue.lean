import Mathlib.Algebra.Ring.Nat
import SculkProtocol.Decoding.Recursion
import SculkProtocol.Utility.CombinatorTexts

/-!
# Dynamic values

A `DynamicValue` of the data store is nothing, a scalar, a string, a list of values or a map from
strings to values. It is a variant with a 32-bit index, and its reader calls itself for the elements
of a list and the entries of a map.

Every call comes after an index, which has four bytes, so calls are no deeper than a fourth of the
input. `Text` is the grammar of what is read, with the number of nodes: also those that are dropped
because their key is there already (`recognises_read`). A value whose sizes fit their counts is
written as a text of it (`WellFormed.text`), and a text has four bytes for each node
(`Text.four_mul_nodes`).
-/

namespace SculkProtocol

open Decoder BinaryStream ReadOnlyBinaryStream StreamRead

/-- A map has its entries in the order of their keys. -/
inductive DynamicValue
  | null
  | bool (value : Bool)
  | int64 (value : Int64)
  | double (bits : UInt64)
  | string (value : Bytes)
  | list (value : List DynamicValue)
  | map (value : List (Bytes × DynamicValue))

namespace DynamicValue

/-! ### Writing -/

mutual

/-- The index of the alternative, and the alternative. -/
def write : DynamicValue → Bytes
  | .null => writeUnsignedInt 0
  | .bool value => writeUnsignedInt 1 ++ writeBool value
  | .int64 value => writeUnsignedInt 2 ++ writeSignedInt64 value
  | .double bits => writeUnsignedInt 3 ++ writeDouble bits
  | .string value => writeUnsignedInt 4 ++ writeString value
  | .list value => writeUnsignedInt 5 ++ (writeUnsignedVarInt (UInt32.ofNat value.length) ++
      writeItems value)
  | .map value => writeUnsignedInt 6 ++ (writeUnsignedVarInt (UInt32.ofNat value.length) ++
      writeEntries value)

def writeItems : List DynamicValue → Bytes
  | [] => []
  | item :: items => item.write ++ writeItems items

def writeEntries : List (Bytes × DynamicValue) → Bytes
  | [] => []
  | (key, val) :: entries => writeString key ++ val.write ++ writeEntries entries

end

/-! ### Reading -/

def Alternative : Fin 7 → Type
  | ⟨0, _⟩ => Unit
  | ⟨1, _⟩ => Bool
  | ⟨2, _⟩ => Int64
  | ⟨3, _⟩ => UInt64
  | ⟨4, _⟩ => Bytes
  | ⟨5, _⟩ => List DynamicValue
  | ⟨6, _⟩ => OrderedMap Bytes DynamicValue

/-- The default values. -/
def new : ∀ i, Alternative i
  | ⟨0, _⟩ => ()
  | ⟨1, _⟩ => false
  | ⟨2, _⟩ => (0 : Int64)
  | ⟨3, _⟩ => (0 : UInt64)
  | ⟨4, _⟩ => ([] : Bytes)
  | ⟨5, _⟩ => ([] : List DynamicValue)
  | ⟨6, _⟩ => (OrderedMap.empty : OrderedMap Bytes DynamicValue)

def ofAlternative : ∀ i, Alternative i → DynamicValue
  | ⟨0, _⟩, _ => .null
  | ⟨1, _⟩, (value : Bool) => .bool value
  | ⟨2, _⟩, (value : Int64) => .int64 value
  | ⟨3, _⟩, (bits : UInt64) => .double bits
  | ⟨4, _⟩, (value : Bytes) => .string value
  | ⟨5, _⟩, (value : List DynamicValue) => .list value
  | ⟨6, _⟩, (value : OrderedMap Bytes DynamicValue) => .map value.entries

/-- An entry of a map, by how its value is read. -/
def readEntry (read : Reader DynamicValue) (_ : Bytes) (_ : DynamicValue) :
    Reader (Bytes × DynamicValue) := do
  let key ← StreamRead.reader readString
  let val ← read
  pure (key, val)

def readAlternative (read : Reader DynamicValue) : ∀ i, Alternative i → Reader (Alternative i)
  | ⟨0, _⟩, _ => pure ()
  | ⟨1, _⟩, _ => StreamRead.reader readBool
  | ⟨2, _⟩, _ => StreamRead.reader readSignedInt64
  | ⟨3, _⟩, _ => StreamRead.reader readDouble
  | ⟨4, _⟩, _ => StreamRead.reader readString
  | ⟨5, _⟩, (value : List DynamicValue) => readArray Prefix.unsignedVarInt .null
      (fun _ => read) value
  | ⟨6, _⟩, _ => readMap Prefix.unsignedVarInt [] .null (readEntry read)

/-- The body of `read`, by what it calls for the values in the value. -/
def readBody (read : Reader DynamicValue) : Reader DynamicValue := do
  let mValue ← readVariant .plain Prefix.unsignedInt new (readAlternative read)
  pure (ofAlternative mValue.1 mValue.2)

def read : Reader DynamicValue := recurse readBody 4 (fail (.error ""))

/-! ### Calls -/

section

variable {n : ℕ} {d d' : Reader DynamicValue}

/-- Entries agree where the readers of their values do. -/
theorem agrees_readEntry (h : Agrees n d d') (key : Bytes) (val : DynamicValue) :
    Agrees n (readEntry d key val) (readEntry d' key val) :=
  (recognises_reader recognises_readString).yields.agrees.bind fun _ => h.bind fun _ =>
    agrees_pure _

/-- So do arrays. -/
theorem agrees_readArray (h : Agrees n d d') :
    Agrees n (readArray Prefix.unsignedVarInt .null (fun _ => d) [])
      (readArray Prefix.unsignedVarInt .null (fun _ => d') []) :=
  (Prefix.recognises_readLength recognises_unsignedVarInt _).yields.agrees.bind fun _ =>
    recognises_resize.yields.agrees.bind fun _ => agrees_each fun _ _ => h

/-- So do the entries of an object. -/
theorem agrees_readMapEntries (h : Agrees n d d') (rounds : ℕ)
    (outMap : OrderedMap Bytes DynamicValue) :
    Agrees n (readMapEntries [] .null (readEntry d) rounds outMap)
      (readMapEntries [] .null (readEntry d') rounds outMap) := by
  induction rounds generalizing outMap with
  | zero => exact agrees_pure outMap
  | succ rounds ih => exact (agrees_readEntry h _ _).bind fun e => ih (outMap.emplace e.1 e.2)

/-- So do all alternatives. -/
theorem agrees_readAlternative (h : Agrees n d d') :
    ∀ i, Agrees n (readAlternative d i (new i)) (readAlternative d' i (new i))
  | ⟨0, _⟩ => agrees_pure ()
  | ⟨1, _⟩ => (recognises_reader recognises_readBool).yields.agrees
  | ⟨2, _⟩ => (recognises_reader (recognises_scalar Scalar.int64)).yields.agrees
  | ⟨3, _⟩ => (recognises_reader (recognises_scalar Scalar.uint64)).yields.agrees
  | ⟨4, _⟩ => (recognises_reader recognises_readString).yields.agrees
  | ⟨5, _⟩ => agrees_readArray h
  | ⟨6, _⟩ => (Prefix.recognises_readLength recognises_unsignedVarInt _).yields.agrees.bind fun _ =>
      agrees_readMapEntries h _ _

/-- The index comes before every call. -/
theorem descends_readBody : Descends 4 readBody := by
  intro n d d' h
  have hindex : ∀ bs (v : BitVec 32), bs = Prefix.unsignedInt.write v → 4 ≤ bs.length := by
    rintro _ v rfl
    exact Nat.le_of_eq (littleEndian_length 4 _).symm
  refine Agrees.bind ?_ fun _ => agrees_pure _
  -- after the four bytes of the index the alternative is chosen, and only its reader calls
  refine (Prefix.recognises_readLength recognises_unsignedInt _).yields.agrees_bind hindex
    fun v => ?_
  split
  · exact (recognises_fail _).yields.agrees
  · next var hvar =>
    -- the alternative is read into its default value
    obtain ⟨-, hnew⟩ := emplaceVariantSwitch_ok hvar
    rw [hnew]
    exact (agrees_readAlternative h var.1).bind fun _ => agrees_pure _

end

/-! ### The grammar -/

mutual

/-- The value and those in it. -/
def nodes : DynamicValue → ℕ
  | .list value => 1 + nodesOfItems value
  | .map value => 1 + nodesOfEntries value
  | _ => 1

def nodesOfItems : List DynamicValue → ℕ
  | [] => 0
  | item :: items => item.nodes + nodesOfItems items

def nodesOfEntries : List (Bytes × DynamicValue) → ℕ
  | [] => 0
  | (_, val) :: entries => val.nodes + nodesOfEntries entries

end

/-- An element of a list as it stands in the input. -/
structure Item where
  text : Bytes
  value : DynamicValue
  nodes : ℕ

/-- An entry of a map as it stands in the input. -/
structure Entry where
  keyText : Bytes
  key : Bytes
  valueText : Bytes
  value : DynamicValue
  nodes : ℕ

namespace Entry

def text (entry : Entry) : Bytes := entry.keyText ++ entry.valueText

def pair (entry : Entry) : Bytes × DynamicValue := (entry.key, entry.value)

end Entry

/-- A text, its value and the number of nodes that are decoded for it. -/
inductive Text : Bytes → DynamicValue → ℕ → Prop
  | null : Text (writeUnsignedInt 0 ++ []) .null 1
  | bool (b : UInt8) : Text (writeUnsignedInt 1 ++ [b]) (.bool (decide (b ≠ 0))) 1
  | int64 (value : Int64) : Text (writeUnsignedInt 2 ++ writeSignedInt64 value) (.int64 value) 1
  | double (bits : UInt64) : Text (writeUnsignedInt 3 ++ writeDouble bits) (.double bits) 1
  | string {bs value : Bytes} (h : IsString bs value) : Text (writeUnsignedInt 4 ++ bs)
      (.string value) 1
  -- the count need not be the shortest text of its value
  | list {before : Bytes} {count : UInt32} {items : List Item}
      (hcount : IsVarInt 16 5 before count.toNat)
      (hlength : items.length = count.toNat) (hitems : ∀ i ∈ items, Text i.text i.value i.nodes) :
      Text (writeUnsignedInt 5 ++ (before ++ items.flatMap Item.text))
        (.list (items.map Item.value))
        (1 + (items.map Item.nodes).sum)
  -- keys come in any order, and of those that are equal the first has the value
  | map {before : Bytes} {count : UInt32} {entries : List Entry}
      (hcount : IsVarInt 16 5 before count.toNat)
      (hlength : entries.length = count.toNat) (hkeys : ∀ e ∈ entries, IsString e.keyText e.key)
      (hvalues : ∀ e ∈ entries, Text e.valueText e.value e.nodes) :
      Text (writeUnsignedInt 6 ++ (before ++ entries.flatMap Entry.text))
        (.map (OrderedMap.empty.emplaceAll (entries.map Entry.pair)).entries)
          (1 + (entries.map Entry.nodes).sum)

/-- The texts of an entry, over those of its value. -/
def EntryText (L : Bytes → DynamicValue → Prop) (bs : Bytes) (e : Bytes × DynamicValue) : Prop :=
  ∃ keyText valueText, bs = keyText ++ valueText ∧ IsString keyText e.1 ∧ L valueText e.2

/-- The texts of an alternative, over those of the values in it. -/
def AlternativeText (L : Bytes → DynamicValue → Prop) : ∀ i, Bytes → Alternative i → Prop
  | ⟨0, _⟩, bs, _ => bs = []
  | ⟨1, _⟩, bs, (value : Bool) => ∃ b : UInt8, bs = [b] ∧ value = decide (b ≠ 0)
  | ⟨2, _⟩, bs, (value : Int64) => bs = writeSignedInt64 value
  | ⟨3, _⟩, bs, (bits : UInt64) => bs = writeDouble bits
  | ⟨4, _⟩, bs, (value : Bytes) => IsString bs value
  | ⟨5, _⟩, bs, (value : List DynamicValue) => IsArrayText L bs value
  | ⟨6, _⟩, bs, (value : OrderedMap Bytes DynamicValue) => IsMapText (EntryText L) bs value

/-- The texts of a node, over those of the values in it. -/
def NodeText (L : Bytes → DynamicValue → Prop) (bs : Bytes) (v : DynamicValue) : Prop :=
  ∃ (i : Fin 7) (body : Bytes) (a : Alternative i), bs = writeUnsignedInt (UInt32.ofNat i) ++ body ∧
    AlternativeText L i body a ∧ v = ofAlternative i a

section

variable {r : Reader DynamicValue} {L : Bytes → DynamicValue → Prop}

/-- An entry has the texts of its key and its value. -/
theorem yields_readEntry (h : Yields r L) (key : Bytes) (val : DynamicValue) :
    Yields (readEntry r key val) (EntryText L) := by
  refine ((recognises_reader recognises_readString).yields.bind fun _ _ _ => h.bind_pure).mono
    fun bs e => ?_
  rintro ⟨keyText, valueText, key, rfl, hkey, v, hv, rfl⟩
  exact ⟨keyText, valueText, rfl, hkey, hv⟩

/-- Such texts are accepted. -/
theorem accepts_readEntry {bs : Bytes} {e : Bytes × DynamicValue} (h : EntryText (Accepts r) bs e)
    (key : Bytes) (val : DynamicValue) : Accepts (readEntry r key val) bs e := by
  obtain ⟨keyText, valueText, rfl, hkey, hv⟩ := h
  exact (accepts_reader (recognises_readString.accepts hkey)).bind hv.bind_pure

/-- The alternatives have the texts of their kind. -/
theorem yields_readAlternative (h : Yields r L) :
    ∀ i, Yields (readAlternative r i (new i)) (AlternativeText L i)
  | ⟨0, _⟩ => (yields_pure ()).mono fun _ _ h => h.1
  | ⟨1, _⟩ => (recognises_reader recognises_readBool).yields
  | ⟨2, _⟩ => (recognises_reader (recognises_scalar Scalar.int64)).yields
  | ⟨3, _⟩ => (recognises_reader (recognises_scalar Scalar.uint64)).yields
  | ⟨4, _⟩ => (recognises_reader recognises_readString).yields
  | ⟨5, _⟩ => yields_readArray h
  | ⟨6, _⟩ => yields_readMap (yields_readEntry h [] .null)

/-- Such texts are accepted. -/
theorem accepts_readAlternative : ∀ {i : Fin 7} {bs : Bytes} {a : Alternative i},
    AlternativeText (Accepts r) i bs a → Accepts (readAlternative r i (new i)) bs a
  | ⟨0, _⟩, _, _, h => h ▸ accepts_pure ()
  | ⟨1, _⟩, _, _, h => (recognises_reader recognises_readBool).accepts h
  | ⟨2, _⟩, _, _, h => (recognises_reader (recognises_scalar Scalar.int64)).accepts h
  | ⟨3, _⟩, _, _, h => (recognises_reader (recognises_scalar Scalar.uint64)).accepts h
  | ⟨4, _⟩, _, _, h => (recognises_reader recognises_readString).accepts h
  | ⟨5, _⟩, _, _, h => accepts_arrayText h
  | ⟨6, _⟩, _, _, h => by
    obtain ⟨before, body, count, es, rfl, hbefore, hlength, hs, rfl⟩ := h
    exact accepts_mapText ⟨before, body, count, es, rfl, hbefore, hlength,
      hs.mono fun _ _ he => accepts_readEntry he [] .null, rfl⟩

/-- A value has the texts of one node above its parts. -/
theorem yields_readBody (h : Yields r L) : Yields (readBody r) (NodeText L) := by
  refine (yields_readVariant recognises_unsignedInt (yields_readAlternative h)).bind_pure.mono
    fun bs v => ?_
  rintro ⟨⟨i, a⟩, ⟨_, body, index, rfl, rfl, hindex, ha⟩, rfl⟩
  refine ⟨i, body, a, ?_, ha, rfl⟩
  -- an index below seven is the one of its number, so its text is determined
  have hvalue : index = (UInt32.ofNat i).toBitVec := by
    have hsame : Prefix.unsignedInt.cast (i : ℕ) = index := by
      have hfits : Prefix.unsignedInt.Fits (i : ℕ) := Nat.lt_trans i.isLt (by decide)
      rw [← hindex]
      exact Integral.cast_toSize (hindex ▸ hfits)
    rw [← hsame]
    rfl
  rw [hvalue]
  rfl

/-- Such texts are accepted. -/
theorem accepts_readBody {bs : Bytes} {v : DynamicValue} (h : NodeText (Accepts r) bs v) :
    Accepts (readBody r) bs v := by
  obtain ⟨i, body, a, rfl, ha, rfl⟩ := h
  have hfits : Prefix.unsignedInt.Fits (i : ℕ) := Nat.lt_trans i.isLt (by decide)
  have hvariant :=
    @accepts_readVariant 7 Alternative new Prefix.unsignedInt .plain (fun _ _ => body)
    (readAlternative r) _ ⟨i, a⟩ (accepts_readAlternative ha) hfits
  exact Accepts.bind_pure (g := fun var : Variant Alternative => ofAlternative var.1 var.2) hvariant

end

/-! ### What is read is a text -/

/-- The elements of a list, one after the other. -/
theorem items_of_sequence {bs : Bytes} {vs : List DynamicValue}
    (hs : Sequence (fun bs v => ∃ n, Text bs v n) bs vs) :
    ∃ items : List Item, (∀ i ∈ items, Text i.text i.value i.nodes) ∧ bs = items.flatMap Item.text ∧
      vs = items.map Item.value := by
  refine hs.parts ?_
  rintro bs v ⟨n, hv⟩
  exact ⟨⟨bs, v, n⟩, hv, rfl, rfl⟩

/-- The entries of a map, one after the other. -/
theorem entries_of_sequence {bs : Bytes} {es : List (Bytes × DynamicValue)}
    (hs : Sequence (EntryText fun bs v => ∃ n, Text bs v n) bs es) :
    ∃ entries : List Entry,
      (∀ e ∈ entries, IsString e.keyText e.key ∧ Text e.valueText e.value e.nodes) ∧
      bs = entries.flatMap Entry.text ∧ es = entries.map Entry.pair := by
  refine hs.parts ?_
  rintro _ ⟨key, v⟩ ⟨keyText, valueText, rfl, hkey, n, hv⟩
  exact ⟨⟨keyText, key, valueText, v, n⟩, ⟨hkey, hv⟩, rfl, rfl⟩

/-- A node above texts of values is the text of a value. -/
theorem Text.of_nodeText {bs : Bytes} {v : DynamicValue}
    (h : NodeText (fun bs v => ∃ n, Text bs v n) bs v) :
    ∃ n, Text bs v n := by
  obtain ⟨i, body, a, rfl, ha, rfl⟩ := h
  -- by the alternatives, each of which is one rule of the grammar
  match i, a, ha with
  | ⟨0, _⟩, _, ha =>
    cases ha
    exact ⟨_, .null⟩
  | ⟨1, _⟩, _, ⟨b, hbody, hvalue⟩ =>
    cases hbody
    cases hvalue
    exact ⟨_, .bool b⟩
  | ⟨2, _⟩, (value : Int64), ha =>
    cases ha
    exact ⟨_, .int64 value⟩
  | ⟨3, _⟩, (bits : UInt64), ha =>
    cases ha
    exact ⟨_, .double bits⟩
  | ⟨4, _⟩, _, ha => exact ⟨_, .string ha⟩
  | ⟨5, _⟩, _, ⟨before, elements, count, hbody, hcount, hlength, hs⟩ =>
    cases hbody
    obtain ⟨items, hitems, rfl, hvalue⟩ := items_of_sequence hs
    cases hvalue
    rw [List.length_map] at hlength
    exact ⟨_, .list hcount hlength hitems⟩
  | ⟨6, _⟩, _, ⟨before, body, count, es, hbody, hcount, hlength, hs, hvalue⟩ =>
    cases hbody
    cases hvalue
    obtain ⟨entries, hentries, rfl, rfl⟩ := entries_of_sequence hs
    rw [List.length_map] at hlength
    exact ⟨_, .map hcount hlength (fun e he => (hentries e he).1) fun e he => (hentries e he).2⟩

/-- Every text of a value is accepted. -/
theorem Text.accepts {bs : Bytes} {v : DynamicValue} {n : ℕ} (h : Text bs v n) :
    Accepts read bs v := by
  -- on the derivation: the values in a value are accepted, so the body accepts it, and so does
  -- `read`
  induction h with
  | null =>
    exact descends_readBody.accepts_recurse (by decide) (accepts_readBody ⟨0, _, (), rfl, rfl, rfl⟩)
  | bool b =>
    exact descends_readBody.accepts_recurse (by decide)
      (accepts_readBody ⟨1, _, _, rfl, ⟨b, rfl, rfl⟩, rfl⟩)
  | int64 value =>
    exact descends_readBody.accepts_recurse (by decide)
      (accepts_readBody ⟨2, _, value, rfl, rfl, rfl⟩)
  | double bits =>
    exact descends_readBody.accepts_recurse (by decide)
      (accepts_readBody ⟨3, _, bits, rfl, rfl, rfl⟩)
  | @string bs value h =>
    exact descends_readBody.accepts_recurse (by decide)
      (accepts_readBody ⟨4, bs, value, rfl, h, rfl⟩)
  | @list before count items hcount hlength _ ih =>
    have harray : IsArrayText (Accepts read) (before ++ items.flatMap Item.text)
        (items.map Item.value) :=
      ⟨before, _, count, rfl, hcount, by rwa [List.length_map], sequence_map ih⟩
    exact descends_readBody.accepts_recurse (by decide)
      (accepts_readBody ⟨5, _, _, rfl, harray, rfl⟩)
  | @map before count entries hcount hlength hkeys _ ih =>
    have hmap : IsMapText (EntryText (Accepts read)) (before ++ entries.flatMap Entry.text)
        (OrderedMap.empty.emplaceAll (entries.map Entry.pair)) :=
      ⟨before, _, count, _, rfl, hcount, by rwa [List.length_map],
        sequence_map fun e he => ⟨e.keyText, e.valueText, rfl, hkeys e he, ih e he⟩, rfl⟩
    exact descends_readBody.accepts_recurse (by decide) (accepts_readBody ⟨6, _, _, rfl, hmap, rfl⟩)

/-- `read` succeeds exactly where the input begins with a text. -/
theorem recognises_read : Recognises read fun bs v => ∃ n, Text bs v n where
  yields := yields_recurse yields_fail fun _ hd => (yields_readBody hd).mono fun _ _ h =>
    Text.of_nodeText h
  accepts := by
    rintro bs v ⟨n, h⟩
    exact h.accepts

/-! ### The nodes of a text -/

/-- An entry that is emplaced adds its nodes, or nothing. -/
theorem nodesOfEntries_emplaceEntry (key : Bytes) (val : DynamicValue)
    (entries : List (Bytes × DynamicValue)) :
    nodesOfEntries (emplaceEntry key val entries) ≤ val.nodes + nodesOfEntries entries := by
  induction entries with
  | nil => exact Nat.le_refl _
  | cons e es ih =>
    rw [emplaceEntry]
    split
    · -- before the first larger key
      exact Nat.le_refl _
    · split
      · rw [nodesOfEntries, nodesOfEntries]
        omega
      · -- the key is there already
        exact Nat.le_add_left ..

/-- Entries that take the place of others add no nodes. -/
theorem nodesOfEntries_emplaceAll {entries : List Entry}
    (h : ∀ e ∈ entries, e.value.nodes ≤ e.nodes)
    (m : OrderedMap Bytes DynamicValue) :
    nodesOfEntries (m.emplaceAll (entries.map Entry.pair)).entries ≤
      nodesOfEntries m.entries + (entries.map Entry.nodes).sum := by
  induction entries generalizing m with
  | nil => exact Nat.le_add_right ..
  | cons e entries ih =>
    have hfirst := h e List.mem_cons_self
    have hstep := nodesOfEntries_emplaceEntry e.key e.value m.entries
    have hrest := ih (fun e he => h e (List.mem_cons_of_mem _ he)) (m.emplace e.key e.value)
    rw [List.map_cons, List.map_cons, List.sum_cons]
    -- the map of the hypothesis has the first entry in it
    show nodesOfEntries ((m.emplace e.key e.value).emplaceAll (entries.map Entry.pair)).entries ≤ _
    have hentries : (m.emplace e.key e.value).entries = emplaceEntry e.key e.value m.entries := rfl
    rw [hentries] at hrest
    omega

/-- The nodes of the items are those of their texts at most. -/
theorem nodesOfItems_le {items : List Item} (h : ∀ i ∈ items, i.value.nodes ≤ i.nodes) :
    nodesOfItems (items.map Item.value) ≤ (items.map Item.nodes).sum := by
  induction items with
  | nil => exact Nat.le_refl _
  | cons i items ih =>
    have hfirst := h i List.mem_cons_self
    have hrest := ih fun i hi => h i (List.mem_cons_of_mem _ hi)
    rw [List.map_cons, nodesOfItems, List.map_cons, List.sum_cons]
    omega

/-- No node of the value is missing. -/
theorem Text.nodes_le {bs : Bytes} {v : DynamicValue} {n : ℕ} (h : Text bs v n) : v.nodes ≤ n := by
  induction h with
  | null | bool b | int64 value | double bits | string h => exact Nat.le_refl 1
  | list _ _ _ ih => exact Nat.add_le_add_left (nodesOfItems_le ih) 1
  | map _ _ _ _ ih =>
    have hentries := nodesOfEntries_emplaceAll ih OrderedMap.empty
    rw [show nodesOfEntries (OrderedMap.empty : OrderedMap Bytes DynamicValue).entries = 0 from rfl,
      Nat.zero_add] at hentries
    exact Nat.add_le_add_left hentries 1

/-- Parts that are long enough for their nodes. -/
theorem four_mul_sum_le {π : Type} {text : π → Bytes} {count : π → ℕ} {ps : List π}
    (h : ∀ p ∈ ps, 4 * count p ≤ (text p).length) : 4 * (ps.map count).sum ≤
    (ps.flatMap text).length := by
  induction ps with
  | nil => exact Nat.le_refl _
  | cons p ps ih =>
    have hfirst := h p List.mem_cons_self
    have hrest := ih fun p hp => h p (List.mem_cons_of_mem _ hp)
    rw [List.map_cons, List.sum_cons, List.flatMap_cons, List.length_append]
    omega

/-- **A text has four bytes for each node**, those of its index. -/
theorem Text.four_mul_nodes {bs : Bytes} {v : DynamicValue} {n : ℕ} (h : Text bs v n) :
    4 * n ≤ bs.length := by
  -- the index pays for the node itself, and `body` for those below it
  have hindex : ∀ (index : UInt32) (body : Bytes) (k : ℕ), 4 * k ≤ body.length →
      4 * (1 + k) ≤ (writeUnsignedInt index ++ body).length := by
    intro index body k hk
    have hlength : (writeUnsignedInt index).length = 4 := littleEndian_length 4 _
    rw [List.length_append, hlength]
    omega
  induction h with
  | null | bool b | int64 value | double bits | string h => exact hindex _ _ 0 (Nat.zero_le _)
  | list _ _ _ ih =>
    refine hindex _ _ _ (Nat.le_trans (four_mul_sum_le ih) ?_)
    rw [List.length_append]
    exact Nat.le_add_left ..
  | @map _ _ entries _ _ _ _ ih =>
    refine hindex _ _ _
      (Nat.le_trans (@four_mul_sum_le Entry Entry.text Entry.nodes entries fun e he => ?_) ?_)
    · rw [Entry.text, List.length_append]
      exact Nat.le_trans (ih e he) (Nat.le_add_left ..)
    · rw [List.length_append]
      exact Nat.le_add_left ..

/-! ### What is written -/

/-- Maps in the order of their keys, and sizes that their counts hold. -/
inductive WellFormed : DynamicValue → Prop
  | null : WellFormed .null
  | bool (value : Bool) : WellFormed (.bool value)
  | int64 (value : Int64) : WellFormed (.int64 value)
  | double (bits : UInt64) : WellFormed (.double bits)
  | string {value : Bytes} (hlength : value.length < 2 ^ 32) : WellFormed (.string value)
  | list {value : List DynamicValue} (hlength : value.length < 2 ^ 32)
      (hitems : ∀ v ∈ value, WellFormed v) :
      WellFormed (.list value)
  | map {value : List (Bytes × DynamicValue)} (hsorted : SortedEntries value)
      (hlength : value.length < 2 ^ 32)
      (hkeys : ∀ e ∈ value, e.1.length < 2 ^ 32) (hvalues : ∀ e ∈ value,
        WellFormed e.2) : WellFormed (.map value)

/-- Items are written one behind the other. -/
theorem writeItems_eq (items : List DynamicValue) : writeItems items = items.flatMap write := by
  induction items with
  | nil => rfl
  | cons item items ih => rw [writeItems, ih, List.flatMap_cons]

/-- Entries are written one behind the other. -/
theorem writeEntries_eq (entries : List (Bytes × DynamicValue)) :
    writeEntries entries = entries.flatMap fun e => writeString e.1 ++ e.2.write := by
  induction entries with
  | nil => rfl
  | cons e entries ih => rw [writeEntries, ih, List.flatMap_cons]

/-- **A well-formed value is written as a text of it.** -/
theorem WellFormed.text {v : DynamicValue} (h : v.WellFormed) : ∃ n, Text v.write v n := by
  induction h with
  | null => exact ⟨_, .null⟩
  | bool value => exact Text.of_nodeText ⟨1, _, value, rfl, readBool_write value, rfl⟩
  | int64 value => exact ⟨_, .int64 value⟩
  | double bits => exact ⟨_, .double bits⟩
  | string hlength => exact ⟨_, .string (isString_write hlength)⟩
  | @list value hlength _ ih =>
    rw [write, writeItems_eq]
    refine Text.of_nodeText ⟨5, _, value, rfl, ⟨_, _, UInt32.ofNat value.length, rfl, ?_,
      ?_, ?_⟩, rfl⟩
    · exact isVarInt_writeUnsignedVarInt _
    · exact (UInt32.toNat_ofNat_of_lt' hlength).symm
    · exact sequence_flatMap ih
  | @map value hsorted hlength hkeys _ ih =>
    rw [write, writeEntries_eq]
    refine Text.of_nodeText ⟨6, _, (⟨value, hsorted⟩ : OrderedMap Bytes DynamicValue), rfl,
      ⟨_, _, UInt32.ofNat value.length, value, rfl, ?_, ?_, ?_, ?_⟩, rfl⟩
    · exact isVarInt_writeUnsignedVarInt _
    · exact (UInt32.toNat_ofNat_of_lt' hlength).symm
    · exact sequence_flatMap fun e he => ⟨_, _, rfl, isString_write (hkeys e he), ih e he⟩
    · -- no key is there already
      have hsorted' : SortedEntries ((OrderedMap.empty : OrderedMap Bytes DynamicValue).entries ++
          value) := hsorted
      exact OrderedMap.ext (OrderedMap.entries_emplaceAll hsorted').symm

/-- **Dynamic values.** A well-formed value comes back from what is written of it. On every input,
no call is made that is nested deeper than a fourth of its length; and what is read has taken four
bytes for each node that was decoded, which are those of the value at least. -/
theorem dynamicValues_read_back :
    (∀ v : DynamicValue, v.WellFormed → Accepts read v.write v) ∧
    (∀ input : Bytes, read (ofBuffer input) = readBody read (ofBuffer input) ∧
      ∀ (depth : ℕ) (last : Reader DynamicValue), input.length < depth * 4 →
        readBody^[depth] last (ofBuffer input) = read (ofBuffer input)) ∧
    ∀ (input : Bytes) (s : ReadOnlyBinaryStream) (v : DynamicValue),
      read (ofBuffer input) = (s, .ok v) →
      ∃ n, Text (input.take s.getPosition) v n ∧ v.nodes ≤ n ∧ 4 * n ≤ s.getPosition := by
  have husable : ∀ input : Bytes, InputStream.usable (ofBuffer input) := fun input =>
    ⟨rfl, Nat.zero_le _⟩
  refine ⟨fun v h => ?_, fun input => ⟨?_, fun depth last hdepth => ?_⟩, fun input s v hread => ?_⟩
  · obtain ⟨n, htext⟩ := h.text
    exact htext.accepts
  · exact descends_readBody.recurse_eq (by decide) (husable input)
  · exact descends_readBody.iterate_eq_recurse (by decide) (husable input) hdepth last
  · -- what was taken from the input is the text, and the position is its length
    obtain ⟨bs, rest, hrest, rfl, n, htext⟩ := recognises_read.yields _ s v (husable input) hread
    have hposition : (InputStream.skip (ofBuffer input) bs.length).getPosition = bs.length :=
      Nat.zero_add _
    have htake : input.take bs.length = bs := by
      have hinput : input = bs ++ rest := hrest
      rw [hinput, List.take_left]
    rw [hposition, htake]
    exact ⟨n, htext, htext.nodes_le, htext.four_mul_nodes⟩

/-- A map with a list of two values. -/
theorem dynamicValues_read_back_nested :
    Accepts read [6, 0, 0, 0, 1, 1, 97, 5, 0, 0, 0, 2, 0, 0, 0, 0, 1, 0, 0, 0, 1]
      (.map [([97], .list [.null, .bool true])]) ∧
    readBody^[6] (fail .lengthError)
      (ofBuffer [6, 0, 0, 0, 1, 1, 97, 5, 0, 0, 0, 2, 0, 0, 0, 0, 1, 0, 0, 0, 1]) =
      read (ofBuffer [6, 0, 0, 0, 1, 1, 97, 5, 0, 0, 0, 2, 0, 0, 0, 0, 1, 0, 0, 0, 1]) := by
  have hwellFormed : WellFormed (.map [([97], .list [.null, .bool true])]) := by
    refine .map (List.pairwise_singleton _ _) (by decide) ?_ ?_
    · simp
    · simp [WellFormed.list, WellFormed.null, WellFormed.bool]
  have hwrite : write (.map [([97], .list [.null, .bool true])]) =
      [6, 0, 0, 0, 1, 1, 97, 5, 0, 0, 0, 2, 0, 0, 0, 0, 1, 0, 0, 0, 1] := by decide +kernel
  exact ⟨hwrite ▸ dynamicValues_read_back.1 _ hwellFormed,
    (dynamicValues_read_back.2.1 _).2 6 (fail .lengthError) (by decide)⟩

/-- Of a string with `2 ^ 32` bytes none is read. -/
theorem strings_cut :
    ¬ Accepts read (write (.string (List.replicate (2 ^ 32) 0)))
      (.string (List.replicate (2 ^ 32) 0)) := by
  intro h
  -- whatever is read as a string has a length of 32 bits
  have hlt : ∀ (bs value : Bytes) (n : ℕ), Text bs (.string value) n → value.length < 2 ^ 32 := by
    rintro bs value n ⟨⟩
    next h =>
    obtain ⟨before, length, -, -, hlength⟩ := h
    exact hlength ▸ length.toNat_lt
  have hread := h (ofBuffer _) [] ⟨rfl, Nat.zero_le _⟩ (List.append_nil _).symm
  obtain ⟨bs, rest, -, -, n, htext⟩ := recognises_read.yields _ _ _ ⟨rfl, Nat.zero_le _⟩ hread
  have hlength : (List.replicate (2 ^ 32) (0 : UInt8)).length = 2 ^ 32 := List.length_replicate
  exact Nat.lt_irrefl _ (hlength ▸ hlt _ _ _ htext)

end DynamicValue
end SculkProtocol
