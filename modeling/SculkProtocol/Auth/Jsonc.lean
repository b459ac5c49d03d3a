import Mathlib.Data.List.Nodup
import SculkProtocol.Auth.Records

/-!
# JSON and the fields of a record

The JSON library is not part of the repository, so it is a parameter (`Jsonc`): what it does
with texts and values, and how its reflection turns values of the program into JSON and
back. `Jsonc.Lawful` is what is assumed of it, for objects that are built by assigning to
each of their keys once.

A record is written and read field by field. A `Field` has its name, its type and how it is
accessed; `readFields` is the sequence of reads of a parser, with the texts of its errors.
`readFields_object` says that a record whose fields were written into an object is read
back from it.
-/

namespace SculkProtocol

/-- The types of the values that go through the reflection. -/
inductive FieldType
  | string
  | int32
  | int64
  | uint64
  | bool
  | authenticationType
  | extraData
  | animatedImages
  | personaPieces
  | pieceTintColors

abbrev FieldType.Value : FieldType → Type
  | .string => Bytes
  | .int32 => Int32
  | .int64 => ℤ
  | .uint64 => UInt64
  | .bool => Bool
  | .authenticationType => AuthenticationType
  | .extraData => Certificate.ExtraData
  | .animatedImages => List ClientProperties.AnimatedImage
  | .personaPieces => List ClientProperties.PersonaPiece
  | .pieceTintColors => List ClientProperties.PieceTintColor

/-- The JSON library with its reflection. -/
structure Jsonc where
  Json : Type
  parse : Bytes → Option Json
  /-- without indentation -/
  dump : Json → Bytes
  /-- an object to whose keys these values were assigned, in this order -/
  object : List (String × Json) → Json
  contains : Json → String → Bool
  /-- `operator[]` of a constant object, with a key it contains -/
  find : Json → String → Json
  isNull : Json → Bool
  array : List Json → Json
  /-- the elements of an array -/
  elements : Json → Option (List Json)
  /-- the JSON value of a `std::string` -/
  string : Bytes → Json
  getString : Json → Option Bytes
  /-- the JSON value of an `int` -/
  integer : ℤ → Json
  serialize : (type : FieldType) → type.Value → Json
  deserialize : (type : FieldType) → Json → Option type.Value
  /-- `serialize` of a `std::optional` -/
  serializeOptional : (type : FieldType) → Option type.Value → Json
  /-- `deserialize` of a `std::optional` -/
  deserializeOptional : (type : FieldType) → Json → Option (Option type.Value)

/-- What is assumed of the library: parsing undoes dumping, also before a line break, and
deserializing undoes serializing. -/
structure Jsonc.Lawful (J : Jsonc) : Prop where
  parse_dump : ∀ json, J.parse (J.dump json) = some json
  parse_dump_newline : ∀ json, J.parse (J.dump json ++ literal "\n") = some json
  parse_nil : J.parse [] = none
  contains_object : ∀ members key, J.contains (J.object members) key = true ↔
    key ∈ members.map Prod.fst
  find_object : ∀ members key value, (members.map Prod.fst).Nodup → (key, value) ∈ members →
    J.find (J.object members) key = value
  elements_array : ∀ values, J.elements (J.array values) = some values
  getString_string : ∀ s, J.getString (J.string s) = some s
  /-- the unsigned chain in its text form -/
  dump_unsigned : J.dump (J.object [("chain", J.array [J.string (literal "..")])]) =
    literal "\x7b\"chain\":[\"..\"]\x7d"
  serialize_string : ∀ s : Bytes, J.serialize .string s = J.string s
  serialize_authenticationType : ∀ type : AuthenticationType,
    J.serialize .authenticationType type = J.integer type.toInt
  deserialize_serialize : ∀ (type : FieldType) (v : type.Value),
    J.deserialize type (J.serialize type v) = some v
  deserializeOptional_serialize : ∀ (type : FieldType) (v : type.Value),
    J.deserializeOptional type (J.serialize type v) = some (some v)
  serializeOptional_some : ∀ (type : FieldType) (v : type.Value),
    J.serializeOptional type (some v) = J.serialize type v
  isNull_serialize : ∀ (type : FieldType) (v : type.Value), J.isNull (J.serialize type v) = false
  isNull_none : ∀ type : FieldType, J.isNull (J.serializeOptional type none) = true

/-- No value is dumped as nothing. -/
theorem Jsonc.Lawful.dump_ne_nil {J : Jsonc} (hJ : J.Lawful) (json : J.Json) :
    J.dump json ≠ [] := by
  intro h
  have hparse := hJ.parse_dump json
  rw [h, hJ.parse_nil] at hparse
  exact absurd hparse (by simp)

/-- How a field is read from a record and assigned. -/
inductive Access (R α : Type)
  | value (get : R → α) (set : R → α → R)
  | optional (get : R → Option α) (set : R → Option α → R)

/-- A field of a record. -/
structure Field (R : Type) where
  /-- as in the source -/
  name : String
  type : FieldType
  access : Access R type.Value
  /-- a parser refuses an object without this key -/
  isRequired : Bool

namespace Field

variable {R : Type}

def required (name : String) (type : FieldType) (get : R → type.Value)
    (set : R → type.Value → R) : Field R := ⟨name, type, .value get set, true⟩

def ifPresent (name : String) (type : FieldType) (get : R → type.Value)
    (set : R → type.Value → R) : Field R := ⟨name, type, .value get set, false⟩

def optional (name : String) (type : FieldType) (get : R → Option type.Value)
    (set : R → Option type.Value → R) : Field R := ⟨name, type, .optional get set, false⟩

variable (J : Jsonc) (f : Field R)

/-- The JSON value of the field, if it has a value. -/
def valueJson (r : R) : Option J.Json :=
  match f.access with
  | .value get _ => some (J.serialize f.type (get r))
  | .optional get _ => (get r).map (J.serialize f.type)

/-- `reflection::jsonc::serialize` of the field -/
def json (r : R) : J.Json :=
  match f.access with
  | .value get _ => J.serialize f.type (get r)
  | .optional get _ => J.serializeOptional f.type (get r)

/-- `reflection::jsonc::deserialize` into the field -/
def read (json : J.Json) (r : R) : Option R :=
  match f.access with
  | .value _ set => (J.deserialize f.type json).map (set r)
  | .optional _ set => (J.deserializeOptional f.type json).map (set r)

end Field

/-- The texts of a parser's errors about a field, and the key of a field. -/
structure FieldTexts where
  missing : String → String
  failed : String → String
  key : String → String

/-- The reads of a parser, in their order. -/
def readFields {R : Type} (J : Jsonc) (texts : FieldTexts) (json : J.Json) :
    List (Field R) → R → Except String R
  | [], r => .ok r
  | f :: fields, r =>
    if J.contains json (texts.key f.name) then
      match f.read J (J.find json (texts.key f.name)) r with
      | some r => readFields J texts json fields r
      | none => .error (texts.failed f.name)
    else if f.isRequired then .error (texts.missing f.name)
    else readFields J texts json fields r

/-- The fields of these names. -/
def namedFields {R : Type} (fields : List (Field R)) (names : List String) : List (Field R) :=
  fields.filter fun f => names.contains f.name

/-- The members of an object; a field without a value is an error. -/
def writeFields {R : Type} (J : Jsonc) (missing key : String → String) :
    List (Field R) → R → Except String (List (String × J.Json))
  | [], _ => .ok []
  | f :: fields, r =>
    match f.valueJson J r with
    | some json => (writeFields J missing key fields r).map ((key f.name, json) :: ·)
    | none => .error (missing f.name)

/-- The members of an object; a field without a value is left out. -/
def writeNonNullFields {R : Type} (J : Jsonc) (fields : List (Field R)) (r : R) :
    List (String × J.Json) :=
  (fields.filter fun f => !J.isNull (f.json J r)).map fun f => (f.name, f.json J r)

/-! ### A record that was written is read back -/

section

variable {R : Type} {J : Jsonc} {texts : FieldTexts} {missing key : String → String}
  {members : List (String × J.Json)} {f : Field R} {fields : List (Field R)} {r : R}

namespace Field

/-- The value of the field is in the object; an absent value is not, and need not be. -/
def Written (f : Field R) (key : String → String) (r : R) (members : List (String × J.Json)) :
    Prop :=
  match f.valueJson J r with
  | some json => (key f.name, json) ∈ members
  | none => f.isRequired = false ∧ key f.name ∉ members.map Prod.fst

/-- The field of `r` is assigned to that of `acc`, if it has a value. -/
def copy (f : Field R) (r acc : R) : R :=
  match f.access with
  | .value get set => set acc (get r)
  | .optional get set =>
    match get r with
    | some v => set acc (some v)
    | none => acc

/-- A field is read back from its value. -/
theorem read_valueJson (hJ : J.Lawful) {json : J.Json} (h : f.valueJson J r = some json) (acc : R) :
    f.read J json acc = some (f.copy r acc) := by
  unfold valueJson at h
  unfold read copy
  split at h
  · cases h
    simp only [hJ.deserialize_serialize, Option.map_some]
  · obtain ⟨v, hv, rfl⟩ := Option.map_eq_some_iff.mp h
    simp only [hv, hJ.deserializeOptional_serialize, Option.map_some]

/-- A field without a value copies nothing. -/
theorem copy_of_none (h : f.valueJson J r = none) (acc : R) : f.copy r acc = acc := by
  unfold valueJson at h
  unfold copy
  split at h
  · exact absurd h (by simp)
  · have hnone := Option.map_eq_none_iff.mp h
    simp only [hnone]

/-- The value of a field is not null. -/
theorem json_of_some (hJ : J.Lawful) {json : J.Json} (h : f.valueJson J r = some json) :
    f.json J r = json ∧ J.isNull json = false := by
  unfold valueJson at h
  unfold Field.json
  split at h
  · cases h
    exact ⟨rfl, hJ.isNull_serialize _ _⟩
  · obtain ⟨v, hv, rfl⟩ := Option.map_eq_some_iff.mp h
    exact ⟨by simp only [hv, hJ.serializeOptional_some], hJ.isNull_serialize _ _⟩

/-- A field without a value is null. -/
theorem isNull_of_none (hJ : J.Lawful) (h : f.valueJson J r = none) :
    J.isNull (f.json J r) = true := by
  unfold valueJson at h
  unfold Field.json
  split at h
  · exact absurd h (by simp)
  · have hnone := Option.map_eq_none_iff.mp h
    simp only [hnone, hJ.isNull_none]

/-- A required field is copied. -/
theorem copy_required {name : String} {type : FieldType} {get : R → type.Value}
    {set : R → type.Value → R} {acc : R} :
    (Field.required name type get set).copy r acc = set acc (get r) := rfl

/-- So is a field that is written if it is there. -/
theorem copy_ifPresent {name : String} {type : FieldType} {get : R → type.Value}
    {set : R → type.Value → R} {acc : R} :
    (Field.ifPresent name type get set).copy r acc = set acc (get r) := rfl

/-- The assignment of an optional field to a record that has none. -/
theorem copy_optional {name : String} {type : FieldType} {get : R → Option type.Value}
    {set : R → Option type.Value → R} {acc : R} (h : set acc none = acc) :
    (Field.optional name type get set).copy r acc = set acc (get r) := by
  simp only [copy, optional]
  split
  · next v hv => rw [hv]
  · next hv => rw [hv, h]

end Field

/-- **Reading an object** that was written from `r` assigns the fields of `r`. -/
theorem readFields_object (hJ : J.Lawful) (hnodup : (members.map Prod.fst).Nodup)
    (hwritten : ∀ f ∈ fields, f.Written texts.key r members) (acc : R) :
    readFields J texts (J.object members) fields acc
      = .ok (fields.foldl (fun acc f => f.copy r acc) acc) := by
  induction fields generalizing acc with
  | nil => rfl
  | cons f fields ih =>
    have hf := hwritten f List.mem_cons_self
    have hrest := ih fun g hg => hwritten g (List.mem_cons_of_mem _ hg)
    rw [List.foldl_cons]
    unfold Field.Written at hf
    split at hf
    · next json hjson =>
      -- the member that was written is found, since no other has its key
      have hcontains : J.contains (J.object members) (texts.key f.name) = true :=
        (hJ.contains_object _ _).mpr (List.mem_map_of_mem (f := Prod.fst) hf)
      have hfind := hJ.find_object _ _ _ hnodup hf
      have hread := Field.read_valueJson hJ hjson acc
      simp only [readFields, hcontains, hfind, hread, if_true, hrest]
    · next hnone =>
      -- a field without a value is not in the object, and is not required
      have hcontains : J.contains (J.object members) (texts.key f.name) = false := by
        rw [Bool.eq_false_iff]
        exact fun h => hf.2 ((hJ.contains_object _ _).mp h)
      simp only [readFields, hcontains, hf.1, Bool.false_eq_true, if_false, hrest,
        Field.copy_of_none hnone acc]

/-- Every field is written under its name. -/
theorem writeFields_ok (h : writeFields J missing key fields r = .ok members) :
    members.map Prod.fst = fields.map (fun f => key f.name) ∧
      ∀ f ∈ fields, ∃ json, f.valueJson J r = some json ∧ (key f.name, json) ∈ members := by
  induction fields generalizing members with
  | nil =>
    cases h
    exact ⟨rfl, fun f hf => absurd hf List.not_mem_nil⟩
  | cons g fields ih =>
    unfold writeFields at h
    split at h
    · next json hjson =>
      -- the member of `g`, before those of the other fields
      cases hrest : writeFields J missing key fields r with
      | error e => exact absurd (hrest ▸ h) (by simp [Except.map])
      | ok rest =>
        rw [hrest] at h
        cases h
        obtain ⟨hkeys, hmem⟩ := ih hrest
        refine ⟨congrArg (key g.name :: ·) hkeys, fun f hf => ?_⟩
        rcases List.mem_cons.mp hf with rfl | hf
        · exact ⟨json, hjson, List.mem_cons_self⟩
        · obtain ⟨json', hjson', hmem'⟩ := hmem f hf
          exact ⟨json', hjson', List.mem_cons_of_mem _ hmem'⟩
    · exact absurd h (by simp)

/-- The fields are written if all of them have values. -/
theorem writeFields_isOk (h : ∀ f ∈ fields, (f.valueJson J r).isSome = true) :
    ∃ members, writeFields J missing key fields r = .ok members := by
  induction fields with
  | nil => exact ⟨[], rfl⟩
  | cons f fields ih =>
    obtain ⟨json, hjson⟩ := Option.isSome_iff_exists.mp (h f List.mem_cons_self)
    obtain ⟨members, hmembers⟩ := ih fun g hg => h g (List.mem_cons_of_mem _ hg)
    exact ⟨(key f.name, json) :: members, by simp only [writeFields, hjson, hmembers, Except.map]⟩

/-- Writing the fields of some names is writing a record that has no values in the others. -/
theorem written_namedFields {names : List String}
    (h : writeFields J missing id (namedFields fields names) r = .ok members)
    (hothers : ∀ f ∈ fields, f.name ∉ names → f.isRequired = false ∧ f.valueJson J r = none)
    (hf : f ∈ fields) : f.Written id r members := by
  obtain ⟨hkeys, hmem⟩ := writeFields_ok h
  unfold Field.Written
  by_cases hname : f.name ∈ names
  · obtain ⟨json, hjson, hmem⟩ := hmem f (List.mem_filter.mpr ⟨hf, by simpa using hname⟩)
    rw [hjson]
    exact hmem
  · obtain ⟨hrequired, hnone⟩ := hothers f hf hname
    rw [hnone]
    refine ⟨hrequired, fun hkey => hname ?_⟩
    rw [hkeys] at hkey
    obtain ⟨g, hg, hgf⟩ := List.mem_map.mp hkey
    have hg' := (List.mem_filter.mp hg).2
    rw [show f.name = g.name from hgf.symm]
    simpa using hg'

/-- Fields that always have a value are all written. -/
theorem written_values (hvalue : ∀ f ∈ fields, (f.valueJson J r).isSome = true)
    (hJ : J.Lawful) (hf : f ∈ fields) :
    f.Written key r (fields.map fun f => (key f.name, f.json J r)) := by
  obtain ⟨json, hjson⟩ := Option.isSome_iff_exists.mp (hvalue f hf)
  unfold Field.Written
  rw [hjson, ← (Field.json_of_some hJ hjson).1]
  exact List.mem_map_of_mem (f := fun f : Field R => (key f.name, f.json J r)) hf

/-- The names that are written are some of the fields, in their order. -/
theorem keys_writeNonNullFields :
    ((writeNonNullFields J fields r).map Prod.fst).Sublist (fields.map Field.name) := by
  rw [writeNonNullFields, List.map_map]
  exact List.Sublist.map _ List.filter_sublist

/-- Every field is written or has no value. -/
theorem written_nonNullFields (hJ : J.Lawful) (hnodup : (fields.map Field.name).Nodup)
    (hrequired : ∀ f ∈ fields, f.isRequired = true → (f.valueJson J r).isSome = true)
    (hf : f ∈ fields) : f.Written id r (writeNonNullFields J fields r) := by
  unfold Field.Written
  cases hjson : f.valueJson J r with
  | some json =>
    obtain ⟨rfl, hnull⟩ := Field.json_of_some hJ hjson
    have hmem : f ∈ fields.filter fun f => !J.isNull (f.json J r) :=
      List.mem_filter.mpr ⟨hf, by simp [hnull]⟩
    exact List.mem_map_of_mem (f := fun f : Field R => (f.name, f.json J r)) hmem
  | none =>
    refine ⟨?_, fun hkey => ?_⟩
    · rw [Bool.eq_false_iff]
      exact fun h => absurd (hrequired f hf h) (by simp [hjson])
    · -- the member of this name is that of the field itself
      rw [writeNonNullFields, List.map_map] at hkey
      obtain ⟨g, hg, hgf⟩ := List.mem_map.mp hkey
      obtain ⟨hg, hnull⟩ := List.mem_filter.mp hg
      have hgf : g = f := List.inj_on_of_nodup_map hnodup hg hf hgf
      subst hgf
      exact absurd hnull (by simp [Field.isNull_of_none hJ hjson])

end

end SculkProtocol
