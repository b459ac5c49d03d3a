import SculkProtocol.Codec.MinecraftPackets

/-!
# Names of enumerators

Some enumerations are written as the names of their values, in lower case, and read without regard
to case. The names come from `magic_enum`, which is a parameter (`EnumNames`): it knows the
enumerators in a range of values, the name of each, and the enumerator that a name stands for. A
value without a name is written as the value 0, so what comes back are the values with one
(`EnumNames.codec`).
-/

namespace SculkProtocol

open Decoder BinaryStream ReadOnlyBinaryStream StreamRead

/-- `std::tolower` of a byte -/
def tolower (c : UInt8) : UInt8 := if 65 ≤ c ∧ c ≤ 90 then c + 32 else c

/-- Letters, digits and the underscore. -/
def IsIdentifierChar (c : UInt8) : Prop := 65 ≤ c ∧ c ≤ 90 ∨ 97 ≤ c ∧ c ≤ 122 ∨ 48 ≤ c ∧
    c ≤ 57 ∨ c = 95

instance (c : UInt8) : Decidable (IsIdentifierChar c) := inferInstanceAs (Decidable (_ ∨ _ ∨ _ ∨ _))

theorem tolower_tolower (c : UInt8) : tolower (tolower c) = tolower c := by
  have hall : ∀ n < 256, tolower (tolower (UInt8.ofNat n)) = tolower (UInt8.ofNat n) := by
    decide +kernel
  have hc := hall c.toNat c.toNat_lt
  rwa [UInt8.ofNat_toNat] at hc

theorem map_tolower_idem (name : Bytes) : (name.map tolower).map tolower = name.map tolower := by
  rw [List.map_map]
  exact List.map_congr_left fun c _ => tolower_tolower c

/-- What `magic_enum` knows of an enumeration. -/
structure EnumNames (T : Type) where
  /-- `magic_enum::enum_entries` -/
  entries : List (Bytes × T)
  /-- `T{}` -/
  default : T
  /-- `magic_enum::enum_name`, which is empty for a value that has no name -/
  enum_name : T → Bytes
  /-- `magic_enum::enum_cast` of a name, with `magic_enum::case_insensitive` -/
  enum_cast : Bytes → Option T
  name_ne {entry} : entry ∈ entries → entry.1 ≠ []
  identifier {entry} : entry ∈ entries → ∀ c ∈ entry.1, IsIdentifierChar c
  size {entry} : entry ∈ entries → entry.1.length < 2 ^ 32
  enum_name_of_mem {name value} : (name, value) ∈ entries → enum_name value = name
  enum_name_of_unnamed {value} : (∀ name, (name, value) ∉ entries) → enum_name value = []
  enum_cast_eq_some {name value} : enum_cast name = some value ↔
    ∃ n, (n, value) ∈ entries ∧ name.map tolower = n.map tolower

namespace EnumNames

/-- The characters of a name. -/
def characters (name : String) : Bytes := name.toList.map fun c => c.toNat.toUInt8

variable {T : Type} (enum : EnumNames T)

def writeEnumName (value : T) : Bytes :=
  let name := if enum.enum_name value = [] then enum.enum_name enum.default
              else enum.enum_name value
  writeString (name.map tolower)

def readEnumName : StreamRead T := do
  let enumName ← Decoder.mapError (fun _ => "ReadOnlyBinaryStream::readString overflowed")
    readString
  match enum.enum_cast enumName with
  | none => Decoder.fail "ReadOnlyBinaryStream::readEnumName received an invalid enum name"
  | some value => pure value

/-- The value has a name. -/
def IsNamed (value : T) : Prop := ∃ name, (name, value) ∈ enum.entries

/-! ### The library on an enumeration -/

/-- What is found by a key that no two have. -/
theorem find?_of_nodup {κ : Type} [DecidableEq κ] {entries : List (Bytes × T)} (key : Bytes × T → κ)
    (hnodup : (entries.map key).Nodup) {entry : Bytes × T} (h : entry ∈ entries) :
    entries.find? (fun e => key e = key entry) = some entry := by
  induction entries with
  | nil => exact absurd h List.not_mem_nil
  | cons first entries ih =>
    obtain ⟨hfirst, hrest⟩ := List.nodup_cons.mp hnodup
    rcases List.mem_cons.mp h with rfl | h
    · exact List.find?_cons_of_pos (decide_eq_true rfl)
    · have hne : ¬ key first = key entry := fun hsame => hfirst (hsame ▸ List.mem_map_of_mem h)
      rw [List.find?_cons_of_neg (by rwa [decide_eq_true_eq])]
      exact ih hrest h

/-- The names of an enumeration whose enumerators differ in more than the case of their names. -/
def ofEntries [DecidableEq T] (entries : List (Bytes × T)) (default : T)
    (name_ne : ∀ entry ∈ entries, entry.1 ≠ [])
    (identifier : ∀ entry ∈ entries, ∀ c ∈ entry.1, IsIdentifierChar c)
    (size : ∀ entry ∈ entries, entry.1.length < 2 ^ 32)
    (names : (entries.map fun entry => entry.1.map tolower).Nodup)
    (values : (entries.map Prod.snd).Nodup) : EnumNames T where
  entries := entries
  default := default
  enum_name value := ((entries.find? fun entry => entry.2 = value).map Prod.fst).getD []
  enum_cast name :=
    (entries.find? fun entry => entry.1.map tolower = name.map tolower).map Prod.snd
  name_ne h := name_ne _ h
  identifier h := identifier _ h
  size h := size _ h
  enum_name_of_mem {name value} h := by
    have hfound := find?_of_nodup Prod.snd values h
    simp only at hfound
    rw [hfound]
    rfl
  enum_name_of_unnamed {value} h := by
    have hnone : entries.find? (fun entry => entry.2 = value) = none := by
      refine List.find?_eq_none.mpr fun entry hentry hvalue => h entry.1 ?_
      rwa [← of_decide_eq_true hvalue]
    rw [hnone]
    rfl
  enum_cast_eq_some {name value} := by
    rw [Option.map_eq_some_iff]
    constructor
    · rintro ⟨⟨n, value⟩, hfound, rfl⟩
      have hsame := List.find?_some hfound
      exact ⟨n, List.mem_of_find?_eq_some hfound, (of_decide_eq_true hsame).symm⟩
    · rintro ⟨n, hmem, hsame⟩
      have hfound := find?_of_nodup (fun entry : Bytes × T => entry.1.map tolower) names hmem
      rw [hsame]
      exact ⟨_, hfound, rfl⟩

/-- The enumerators determine what is found. -/
theorem eq_of_entries {enum enum' : EnumNames T} (hentries : enum.entries = enum'.entries)
    (hdefault : enum.default = enum'.default) : enum = enum' := by
  have hname : enum.enum_name = enum'.enum_name := by
    funext value
    by_cases hnamed : enum.IsNamed value
    · obtain ⟨name, hmem⟩ := hnamed
      rw [enum.enum_name_of_mem hmem, enum'.enum_name_of_mem (hentries ▸ hmem)]
    · have hnone : ∀ name, (name, value) ∉ enum.entries := fun name h => hnamed ⟨name, h⟩
      rw [enum.enum_name_of_unnamed hnone, enum'.enum_name_of_unnamed (hentries ▸ hnone)]
  have hcast : enum.enum_cast = enum'.enum_cast := by
    funext name
    refine Option.ext fun value => ?_
    rw [enum.enum_cast_eq_some, enum'.enum_cast_eq_some, hentries]
  cases enum
  cases enum'
  simp only at hentries hdefault hname hcast
  subst hentries hdefault hname hcast
  rfl

variable {enum} {name : Bytes} {value : T}

/-- A name as it is written. -/
theorem writeEnumName_of_mem (h : (name, value) ∈ enum.entries) :
    enum.writeEnumName value = writeString (name.map tolower) := by
  rw [writeEnumName, enum.enum_name_of_mem h, if_neg (enum.name_ne h)]

/-- **Names.** The values with a name come back, and no others are read. -/
theorem codec : WireCodec True enum.readEnumName enum.writeEnumName enum.IsNamed fun _ => 0 := by
  have hstring : WireCodec True
    (Decoder.mapError (fun _ => "ReadOnlyBinaryStream::readString overflowed") readString)
      writeString _ _ := codec_readString.mapError
  constructor
  · rintro value ⟨name, hmem⟩ -
    have hsize : (name.map tolower).length < 2 ^ 32 := by
      rw [List.length_map]
      exact enum.size hmem
    have hcast : enum.enum_cast (name.map tolower) = some value :=
      enum.enum_cast_eq_some.mpr ⟨name, hmem, map_tolower_idem name⟩
    rw [writeEnumName_of_mem hmem]
    refine (hstring.accepts hsize rfl).bind_nil ?_
    rw [hcast]
    exact accepts_pure value
  · refine (hstring.yields.bind (M := fun name bs value => bs = [] ∧
      enum.enum_cast name = some value)
      fun _ name _ => ?_).mono fun bs value => ?_
    · split
      · exact yields_fail
      · next found hfound =>
        refine (yields_pure found).mono fun bs value => ?_
        rintro ⟨rfl, rfl⟩
        exact ⟨rfl, hfound⟩
    · rintro ⟨text, rest, name, rfl, ⟨-, hlength⟩, rfl, hcast⟩
      obtain ⟨n, hmem, hsame⟩ := enum.enum_cast_eq_some.mp hcast
      refine ⟨⟨n, hmem⟩, fun hT => ?_⟩
      -- a name is as long in any case
      have hlengths : (writeString (n.map tolower)).length = (writeString name).length := by
        rw [← hsame, writeString, writeString, List.length_append, List.length_append,
          List.length_map]
      rw [writeEnumName_of_mem hmem, hlengths, List.append_nil]
      exact hlength hT

end EnumNames
end SculkProtocol
