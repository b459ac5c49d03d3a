import SculkProtocol.Auth.ConnectionRequest
import SculkProtocol.Utility.Positional

/-!
# The text of an `Identity`

The text is five groups of hexadecimal digits, which `parseHex` reads and `hexDigits` writes
(`parseHex_eq`, `hexDigits_eq`); the numbers of the groups are packed into the two words of
the identity and taken out of them again (`pack_inj`, `pack_parts`). Hence every identity is
read from its text, and every text of this form is written again, in lower case.
-/

namespace SculkProtocol
namespace Identity

open Positional StringView

/-! ### Hexadecimal digits -/

/-- The digit of a number below 16. -/
def hexDigit (d : ℕ) : UInt8 := HEX_DIGITS.getD d 0

/-- `A` to `F` in lower case. -/
def toLower (c : UInt8) : UInt8 := if 65 ≤ c ∧ c ≤ 90 then c + 32 else c

/-- A digit is written as one that has its value. -/
theorem hexDigit_spec : ∀ d < 16, isAsciiHexDigit (hexDigit d) = true ∧
    (hexValue (hexDigit d)).toNat = d := by
  decide

/-- The value of a digit is written as its lower-case form. -/
theorem hexValue_spec {c : UInt8} (h : isAsciiHexDigit c = true) :
    (hexValue c).toNat < 16 ∧ hexDigit (hexValue c).toNat = toLower c := by
  -- there are 256 characters: all are tried
  have hall : ∀ n < 256, isAsciiHexDigit (UInt8.ofNat n) = true →
      (hexValue (UInt8.ofNat n)).toNat < 16 ∧
        hexDigit (hexValue (UInt8.ofNat n)).toNat = toLower (UInt8.ofNat n) := by decide +kernel
  have hof := hall c.toNat c.toNat_lt
  rw [UInt8.ofNat_toNat] at hof
  exact hof h

/-- The number of some hexadecimal digits. -/
def hexNumber (value : Bytes) : ℕ := ofDigits 16 (value.map fun c => (hexValue c).toNat)

/-- One digit more is the next place. -/
theorem hexNumber_concat (value : Bytes) (c : UInt8) :
    hexNumber (value ++ [c]) = 16 * hexNumber value + (hexValue c).toNat := by
  rw [hexNumber, List.map_append, List.map_singleton, ofDigits_concat, hexNumber]

/-- So many digits have a number below that power of 16. -/
theorem hexNumber_lt {value : Bytes} (h : ∀ c ∈ value, isAsciiHexDigit c = true) :
    hexNumber value < 16 ^ value.length := by
  have hlt := @ofDigits_lt 16 (value.map fun c => (hexValue c).toNat) fun d hd => by
    obtain ⟨c, hc, rfl⟩ := List.mem_map.mp hd
    exact (hexValue_spec (h c hc)).1
  rwa [List.length_map] at hlt

/-- The accumulator of `parseHex` does not overflow in sixteen digits. -/
theorem parseHex_foldl {value : Bytes} (h : ∀ c ∈ value, isAsciiHexDigit c = true)
    (hlength : value.length ≤ 16) :
    (value.foldl (fun (out : UInt64) c => (out <<< 4) ||| (hexValue c).toUInt64) 0).toNat =
      hexNumber value := by
  induction value using List.reverseRecOn with
  | nil => rfl
  | append_singleton value c ih =>
    have hvalue : ∀ c ∈ value, isAsciiHexDigit c = true :=
      fun c hc => h c (List.mem_append_left _ hc)
    obtain ⟨hd, -⟩ := hexValue_spec (h c (by simp))
    rw [List.length_append, List.length_singleton] at hlength
    have hlt := hexNumber_lt hvalue
    -- at most fifteen digits stand before the last one, so the shift drops nothing
    have hbound : 16 ^ value.length ≤ 16 ^ 15 := Nat.pow_le_pow_right (by decide) (by omega)
    have hfits : hexNumber value <<< 4 < 2 ^ 64 := by
      rw [Nat.shiftLeft_eq]
      omega
    rw [List.foldl_append, List.foldl_cons, List.foldl_nil, UInt64.toNat_or, UInt64.toNat_shiftLeft,
      ih hvalue (by omega), UInt8.toNat_toUInt64, hexNumber_concat]
    rw [show (4 : UInt64).toNat % 64 = 4 from rfl, Nat.mod_eq_of_lt hfits,
      ← Nat.shiftLeft_add_eq_or_of_lt hd, Nat.shiftLeft_eq]
    omega

/-- A text is parsed if all its characters are digits, as their number. -/
theorem parseHex_eq {value : Bytes} (hlength : value.length ≤ 16) {out : UInt64} :
    parseHex value = some out ↔
      (∀ c ∈ value, isAsciiHexDigit c = true) ∧ out.toNat = hexNumber value := by
  unfold parseHex
  constructor
  · intro h
    split at h
    · next hall =>
      cases h
      have hdigits := List.all_eq_true.mp hall
      exact ⟨hdigits, parseHex_foldl hdigits hlength⟩
    · exact absurd h (by simp)
  · rintro ⟨hdigits, hout⟩
    rw [if_pos (List.all_eq_true.mpr hdigits), Option.some_inj, ← UInt64.toNat_inj, hout]
    exact parseHex_foldl hdigits hlength

/-- What is parsed is below that power of 16. -/
theorem parseHex_lt {value : Bytes} {width : ℕ} (hlength : value.length = width)
    (hwidth : width ≤ 16)
    {out : UInt64} (h : parseHex value = some out) : out.toNat < 16 ^ width := by
  subst hlength
  obtain ⟨hdigits, hout⟩ := (parseHex_eq hwidth).mp h
  rw [hout]
  exact hexNumber_lt hdigits

/-- A part is written as its digits. -/
theorem hexDigits_eq (part : UInt64) {width : ℕ} (hwidth : width ≤ 16) :
    hexDigits part width = (digits 16 part.toNat width).map hexDigit := by
  rw [hexDigits, digits, List.map_map]
  refine List.map_congr_left fun i hi => ?_
  have hlt := List.mem_range.mp hi
  have hshift : (UInt64.ofNat (4 * (width - 1 - i))).toNat % 64 = 4 * (width - 1 - i) := by
    rw [UInt64.toNat_ofNat']
    omega
  rw [Function.comp_apply, hexDigit, UInt64.toNat_and, UInt64.toNat_shiftRight, hshift,
    Nat.shiftRight_eq_div_pow, show (0x0F : UInt64).toNat = 2 ^ 4 - 1 from rfl,
    Nat.and_two_pow_sub_one_eq_mod, Nat.pow_mul]

/-- A written group is read back. -/
theorem parseHex_hexDigits {part : UInt64} {width : ℕ} (hwidth : width ≤ 16)
    (hpart : part.toNat < 16 ^ width) :
    parseHex (hexDigits part width) = some part := by
  have hdigit : ∀ d ∈ digits 16 part.toNat width, d < 16 := fun d hd => by
    obtain ⟨i, -, rfl⟩ := List.mem_map.mp hd
    exact Nat.mod_lt _ (by decide)
  rw [hexDigits_eq part hwidth, parseHex_eq (by simpa using hwidth)]
  constructor
  · intro c hc
    obtain ⟨d, hd, rfl⟩ := List.mem_map.mp hc
    exact (hexDigit_spec d (hdigit d hd)).1
  · have hread : (digits 16 part.toNat width).map (fun d => (hexValue (hexDigit d)).toNat) =
        digits 16 part.toNat width :=
      (List.map_congr_left fun d hd => (hexDigit_spec d (hdigit d hd)).2).trans (List.map_id _)
    rw [hexNumber, List.map_map]
    exact (Nat.mod_eq_of_lt hpart).symm.trans
      ((ofDigits_digits _ _).symm.trans (congrArg (ofDigits 16) hread.symm))

/-- A read group is written again, in lower case. -/
theorem hexDigits_parseHex {value : Bytes} {width : ℕ} (hlength : value.length = width)
    (hwidth : width ≤ 16)
    {out : UInt64} (h : parseHex value = some out) : hexDigits out width = value.map toLower := by
  subst hlength
  obtain ⟨hdigits, hout⟩ := (parseHex_eq hwidth).mp h
  have hwritten := @digits_ofDigits 16 (value.map fun c => (hexValue c).toNat) fun d hd => by
    obtain ⟨c, hc, rfl⟩ := List.mem_map.mp hd
    exact (hexValue_spec (hdigits c hc)).1
  rw [List.length_map] at hwritten
  rw [hexDigits_eq out hwidth, hout, hexNumber, hwritten, List.map_map]
  exact List.map_congr_left fun c hc => (hexValue_spec (hdigits c hc)).2

/-! ### The words of an identity -/

/-- The words of the five groups. -/
def pack (group1 group2 group3 group4 group5 : UInt64) : Identity :=
  ⟨(group1 <<< 32) ||| (group2 <<< 16) ||| group3, (group4 <<< 48) ||| group5⟩

/-- A shift by enough places makes room for another part. -/
theorem toNat_or_shiftLeft {x y : UInt64} {k : ℕ} (hk : k < 64) (hx : x.toNat * 2 ^ k < 2 ^ 64)
    (hy : y.toNat < 2 ^ k) : ((x <<< UInt64.ofNat k) ||| y).toNat = x.toNat * 2 ^ k + y.toNat := by
  have hshift : (UInt64.ofNat k).toNat % 64 = k := by
    rw [UInt64.toNat_ofNat']
    omega
  rw [UInt64.toNat_or, UInt64.toNat_shiftLeft, hshift, Nat.shiftLeft_eq, Nat.mod_eq_of_lt hx,
    ← Nat.shiftLeft_eq, ← Nat.shiftLeft_add_eq_or_of_lt hy, Nat.shiftLeft_eq]

/-- A shift and a mask cut out a part. -/
theorem toNat_mask (x : UInt64) {k m : ℕ} (hk : k < 64) (hm : m < 64) :
    ((x >>> UInt64.ofNat k) &&& UInt64.ofNat (2 ^ m - 1)).toNat = x.toNat / 2 ^ k % 2 ^ m := by
  have hshift : (UInt64.ofNat k).toNat % 64 = k := by
    rw [UInt64.toNat_ofNat']
    omega
  have hmask : (UInt64.ofNat (2 ^ m - 1)).toNat = 2 ^ m - 1 := by
    have hlt : 2 ^ m < 2 ^ 64 := Nat.pow_lt_pow_right (by decide) hm
    rw [UInt64.toNat_ofNat']
    omega
  rw [UInt64.toNat_and, UInt64.toNat_shiftRight, hshift, hmask, Nat.shiftRight_eq_div_pow,
    Nat.and_two_pow_sub_one_eq_mod]

/-- An identity is its two numbers. -/
theorem eq_of_toNat {identity identity' : Identity}
    (hhigh : identity.mHighBits.toNat = identity'.mHighBits.toNat)
    (hlow : identity.mLowBits.toNat = identity'.mLowBits.toNat) : identity = identity' :=
  congrArg₂ Identity.mk (UInt64.toNat_inj.mp hhigh) (UInt64.toNat_inj.mp hlow)

/-- The words are those of the groups, side by side. -/
theorem pack_toNat {group1 group2 group3 group4 group5 : UInt64} (h1 : group1.toNat < 2 ^ 32)
    (h2 : group2.toNat < 2 ^ 16) (h3 : group3.toNat < 2 ^ 16) (h4 : group4.toNat < 2 ^ 16)
    (h5 : group5.toNat < 2 ^ 48) :
    (pack group1 group2 group3 group4 group5).mHighBits.toNat =
      group1.toNat * 2 ^ 32 + (group2.toNat * 2 ^ 16 + group3.toNat) ∧
    (pack group1 group2 group3 group4 group5).mLowBits.toNat =
      group4.toNat * 2 ^ 48 + group5.toNat := by
  have hlow : ((group2 <<< 16) ||| group3).toNat = group2.toNat * 2 ^ 16 + group3.toNat :=
    toNat_or_shiftLeft (k := 16) (by decide) (by omega) h3
  constructor
  · change ((group1 <<< 32) ||| (group2 <<< 16) ||| group3).toNat = _
    -- the lower two groups are one number below `2 ^ 32`
    rw [UInt64.or_assoc, ← hlow]
    exact toNat_or_shiftLeft (k := 32) (by decide) (by omega) (by rw [hlow]; omega)
  · exact toNat_or_shiftLeft (k := 48) (by decide) (by omega) h5

/-- The numbers of the five groups. -/
theorem groups_toNat (identity : Identity) :
    ((identity.mHighBits >>> 32) &&& 0xFFFFFFFF).toNat =
      identity.mHighBits.toNat / 2 ^ 32 % 2 ^ 32 ∧
    ((identity.mHighBits >>> 16) &&& 0xFFFF).toNat = identity.mHighBits.toNat / 2 ^ 16 % 2 ^ 16 ∧
    (identity.mHighBits &&& 0xFFFF).toNat = identity.mHighBits.toNat % 2 ^ 16 ∧
    ((identity.mLowBits >>> 48) &&& 0xFFFF).toNat = identity.mLowBits.toNat / 2 ^ 48 % 2 ^ 16 ∧
    (identity.mLowBits &&& 0x0000FFFFFFFFFFFF).toNat = identity.mLowBits.toNat % 2 ^ 48 := by
  refine ⟨toNat_mask _ (k := 32) (m := 32) (by decide) (by decide),
    toNat_mask _ (k := 16) (m := 16) (by decide) (by decide), ?_,
    toNat_mask _ (k := 48) (m := 16) (by decide) (by decide), ?_⟩
  · rw [UInt64.toNat_and, show (0xFFFF : UInt64).toNat = 2 ^ 16 - 1 from rfl,
      Nat.and_two_pow_sub_one_eq_mod]
  · rw [UInt64.toNat_and, show (0x0000FFFFFFFFFFFF : UInt64).toNat = 2 ^ 48 - 1 from rfl,
      Nat.and_two_pow_sub_one_eq_mod]

/-! ### Groups and dashes -/

/-- Five groups with dashes between them. -/
def uuidText (group1 group2 group3 group4 group5 : Bytes) : Bytes :=
  group1 ++ dash :: (group2 ++ dash :: (group3 ++ dash :: (group4 ++ dash :: group5)))

/-- A text of the form 8-4-4-4-12, in hexadecimal digits. -/
def IsUuid (str : Bytes) : Prop := ∃ group1 group2 group3 group4 group5 : Bytes,
  str = uuidText group1 group2 group3 group4 group5 ∧
  group1.length = 8 ∧ group2.length = 4 ∧ group3.length = 4 ∧ group4.length = 4 ∧
  group5.length = 12 ∧
  ∀ group ∈ [group1, group2, group3, group4, group5], ∀ c ∈ group, isAsciiHexDigit c = true

section Groups

variable {group1 group2 group3 group4 group5 : Bytes} (h1 : group1.length = 8)
  (h2 : group2.length = 4)
  (h3 : group3.length = 4) (h4 : group4.length = 4) (h5 : group5.length = 12)

include h1 h2 h3 h4 h5 in
/-- The text has 36 characters, four of them dashes in their places. -/
theorem uuidText_dashes : (uuidText group1 group2 group3 group4 group5).length = 36 ∧
    (uuidText group1 group2 group3 group4 group5)[8]? = some dash ∧
    (uuidText group1 group2 group3 group4 group5)[13]? = some dash ∧
    (uuidText group1 group2 group3 group4 group5)[18]? = some dash ∧
    (uuidText group1 group2 group3 group4 group5)[23]? = some dash := by
  refine ⟨by simp [uuidText, h1, h2, h3, h4, h5], ?_⟩
  simp [uuidText, List.getElem?_append, h1, h2, h3, h4]

include h1 h2 h3 h4 h5 in
/-- The groups are found in their places. -/
theorem uuidText_groups : substr (uuidText group1 group2 group3 group4 group5) 0 8 = group1 ∧
    substr (uuidText group1 group2 group3 group4 group5) 9 4 = group2 ∧
    substr (uuidText group1 group2 group3 group4 group5) 14 4 = group3 ∧
    substr (uuidText group1 group2 group3 group4 group5) 19 4 = group4 ∧
    substr (uuidText group1 group2 group3 group4 group5) 24 12 = group5 := by
  have hlast : group5.take 12 = group5 := List.take_of_length_le h5.le
  simp [uuidText, substr, List.drop_append, h1, h2, h3, h4, List.drop_eq_nil_of_le, hlast]

end Groups

/-- A string with dashes at these places is the text of what stands between them. -/
theorem eq_uuidText {str : Bytes} (hlength : str.length = 36) (h8 : str[8]? = some dash)
    (h13 : str[13]? = some dash) (h18 : str[18]? = some dash) (h23 : str[23]? = some dash) :
    str = uuidText (substr str 0 8) (substr str 9 4) (substr str 14 4) (substr str 19 4)
      (substr str 24 12) := by
  -- what stands before a dash, the dash and the rest
  have hsplit : ∀ pos count : ℕ, str[pos + count]? = some dash →
      str.drop pos = substr str pos count ++ dash :: str.drop (pos + count + 1) := by
    intro pos count hdash
    obtain ⟨hlt, hget⟩ := List.getElem?_eq_some_iff.mp hdash
    have hrest := List.drop_eq_getElem_cons hlt
    rw [hget] at hrest
    rw [substr, ← hrest, ← List.drop_drop, List.take_append_drop]
  have hlast : str.drop 24 = substr str 24 12 := by
    rw [substr, List.take_of_length_le (by rw [List.length_drop]; omega)]
  rw [uuidText, ← hlast, ← hsplit 19 4 h23, ← hsplit 14 4 h18, ← hsplit 9 4 h13, ← hsplit 0 8 h8,
    List.drop_zero]

/-- **Parsing.** What is read is the text of five groups, and its identity that of their numbers. -/
theorem parseIdentityString_eq {str : Bytes} {identity : Identity} :
    parseIdentityString str = some identity ↔
      ∃ group1 group2 group3 group4 group5 : Bytes, ∃ part1 part2 part3 part4 part5 : UInt64,
        str = uuidText group1 group2 group3 group4 group5 ∧
        (group1.length = 8 ∧ group2.length = 4 ∧ group3.length = 4 ∧ group4.length = 4 ∧
          group5.length = 12) ∧
        (parseHex group1 = some part1 ∧ parseHex group2 = some part2 ∧
          parseHex group3 = some part3 ∧
          parseHex group4 = some part4 ∧ parseHex group5 = some part5) ∧
        identity = pack part1 part2 part3 part4 part5 := by
  constructor
  · intro h
    unfold parseIdentityString at h
    split at h
    · exact absurd h (by simp)
    · next hlength =>
      split at h
      · exact absurd h (by simp)
      · next hdashes =>
        simp only [not_or, not_not] at hlength hdashes
        obtain ⟨h8, h13, h18, h23⟩ := hdashes
        simp only [Option.bind_eq_bind, Option.bind_eq_some_iff] at h
        obtain ⟨part1, hp1, part2, hp2, part3, hp3, part4, hp4, part5, hp5, h⟩ := h
        split at h
        · exact absurd h (by simp)
        · cases h
          exact ⟨_, _, _, _, _, part1, part2, part3, part4, part5,
            eq_uuidText hlength h8 h13 h18 h23, by simp [substr, hlength],
            ⟨hp1, hp2, hp3, hp4, hp5⟩, rfl⟩
  · rintro ⟨group1, group2, group3, group4, group5, part1, part2, part3, part4, part5, rfl,
      ⟨h1, h2, h3, h4, h5⟩, ⟨hp1, hp2, hp3, hp4, hp5⟩, rfl⟩
    obtain ⟨hlength, h8, h13, h18, h23⟩ := uuidText_dashes h1 h2 h3 h4 h5
    obtain ⟨hg1, hg2, hg3, hg4, hg5⟩ := uuidText_groups h1 h2 h3 h4 h5
    have hlt2 := parseHex_lt h2 (by decide) hp2
    have hlt3 := parseHex_lt h3 (by decide) hp3
    have hlt4 := parseHex_lt h4 (by decide) hp4
    have hlt5 := parseHex_lt h5 (by decide) hp5
    -- the bounds that are checked hold of as many digits as a group has
    have hbounds : ¬ (part2 > 0xFFFF ∨ part3 > 0xFFFF ∨ part4 > 0xFFFF ∨
        part5 > 0x0000FFFFFFFFFFFF) := by
      simp only [gt_iff_lt, UInt64.lt_iff_toNat_lt, UInt64.reduceToNat]
      omega
    rw [parseIdentityString, if_neg (by simp [hlength]), if_neg (by simp [h8, h13, h18, h23])]
    simp only [hg1, hg2, hg3, hg4, hg5, hp1, hp2, hp3, hp4, hp5, Option.bind_eq_bind,
      Option.bind_some, if_neg hbounds]
    rfl

/-! ### The results -/

/-- Every identity is read from its text. -/
theorem parseIdentityString_toString (identity : Identity) :
    parseIdentityString identity.toString = some identity := by
  obtain ⟨hn1, hn2, hn3, hn4, hn5⟩ := groups_toNat identity
  have hhigh := identity.mHighBits.toNat_lt
  have hlow := identity.mLowBits.toNat_lt
  refine parseIdentityString_eq.mpr ⟨_, _, _, _, _, _, _, _, _, _, rfl, by simp [hexDigits],
    ⟨parseHex_hexDigits (by decide) ?_, parseHex_hexDigits (by decide) ?_,
      parseHex_hexDigits (by decide) ?_,
      parseHex_hexDigits (by decide) ?_, parseHex_hexDigits (by decide) ?_⟩, ?_⟩
  · omega
  · omega
  · omega
  · omega
  · omega
  · obtain ⟨hp1, hp2⟩ := pack_toNat (by rw [hn1]; omega) (by rw [hn2]; omega) (by rw [hn3]; omega)
      (by rw [hn4]; omega) (by rw [hn5]; omega)
    rw [hn1, hn2, hn3] at hp1
    rw [hn4, hn5] at hp2
    exact eq_of_toNat (by rw [hp1]; omega) (by rw [hp2]; omega)

/-- A text that is read is written again in lower case. -/
theorem toString_of_parse {str : Bytes} {identity : Identity}
    (h : parseIdentityString str = some identity) :
    identity.toString = str.map toLower := by
  obtain ⟨group1, group2, group3, group4, group5, part1, part2, part3, part4, part5, rfl,
    ⟨h1, h2, h3, h4, h5⟩, ⟨hp1, hp2, hp3, hp4, hp5⟩, rfl⟩ := parseIdentityString_eq.mp h
  have hlt1 := parseHex_lt h1 (by decide) hp1
  have hlt2 := parseHex_lt h2 (by decide) hp2
  have hlt3 := parseHex_lt h3 (by decide) hp3
  have hlt4 := parseHex_lt h4 (by decide) hp4
  have hlt5 := parseHex_lt h5 (by decide) hp5
  obtain ⟨hhigh, hlow⟩ := pack_toNat hlt1 hlt2 hlt3 hlt4 hlt5
  obtain ⟨hn1, hn2, hn3, hn4, hn5⟩ := groups_toNat (pack part1 part2 part3 part4 part5)
  rw [hhigh] at hn1 hn2 hn3
  rw [hlow] at hn4 hn5
  -- each shift and mask takes out the group that was packed there
  have heq1 := UInt64.toNat_inj.mp (hn1.trans (show _ = part1.toNat by omega))
  have heq2 := UInt64.toNat_inj.mp (hn2.trans (show _ = part2.toNat by omega))
  have heq3 := UInt64.toNat_inj.mp (hn3.trans (show _ = part3.toNat by omega))
  have heq4 := UInt64.toNat_inj.mp (hn4.trans (show _ = part4.toNat by omega))
  have heq5 := UInt64.toNat_inj.mp (hn5.trans (show _ = part5.toNat by omega))
  rw [toString, heq1, heq2, heq3, heq4, heq5, hexDigits_parseHex h1 (by decide) hp1,
    hexDigits_parseHex h2 (by decide) hp2, hexDigits_parseHex h3 (by decide) hp3,
    hexDigits_parseHex h4 (by decide) hp4, hexDigits_parseHex h5 (by decide) hp5]
  simp only [uuidText, List.map_append, List.map_cons, show toLower dash = dash from rfl]

/-- A text is valid exactly if it is parsed. -/
theorem validateString_isOk {str : Bytes} :
    (validateString str).isOk = true ↔ (parseIdentityString str).isSome = true := by
  refine ⟨fromString_isSome, fun h => ?_⟩
  rw [validateString, if_pos h]
  rfl

/-- A text is valid if it has the form of a UUID. -/
theorem validateString_iff {str : Bytes} : (validateString str).isOk = true ↔ IsUuid str := by
  rw [validateString_isOk, Option.isSome_iff_exists]
  constructor
  · rintro ⟨identity, h⟩
    obtain ⟨group1, group2, group3, group4, group5, part1, part2, part3, part4, part5, hstr,
      ⟨h1, h2, h3, h4, h5⟩, ⟨hp1, hp2, hp3, hp4, hp5⟩, -⟩ := parseIdentityString_eq.mp h
    refine ⟨group1, group2, group3, group4, group5, hstr, h1, h2, h3, h4, h5, ?_⟩
    simp only [List.forall_mem_cons]
    exact ⟨((parseHex_eq (by omega)).mp hp1).1, ((parseHex_eq (by omega)).mp hp2).1,
      ((parseHex_eq (by omega)).mp hp3).1, ((parseHex_eq (by omega)).mp hp4).1,
      ((parseHex_eq (by omega)).mp hp5).1, by simp⟩
  · rintro ⟨group1, group2, group3, group4, group5, hstr, h1, h2, h3, h4, h5, hdigits⟩
    -- digits are all that a group needs
    have hparse : ∀ group ∈ [group1, group2, group3, group4, group5], ∃ part,
        parseHex group = some part :=
      fun group hgroup => by
        rw [parseHex, if_pos (List.all_eq_true.mpr (hdigits group hgroup))]
        exact ⟨_, rfl⟩
    simp only [List.forall_mem_cons] at hparse
    obtain ⟨⟨part1, hp1⟩, ⟨part2, hp2⟩, ⟨part3, hp3⟩, ⟨part4, hp4⟩, ⟨part5, hp5⟩, -⟩ := hparse
    exact ⟨_, parseIdentityString_eq.mpr ⟨group1, group2, group3, group4, group5, part1, part2,
      part3, part4, part5, hstr, ⟨h1, h2, h3, h4, h5⟩, ⟨hp1, hp2, hp3, hp4, hp5⟩, rfl⟩⟩

/-- **The text of an identity.** Every identity has a valid text and is read from it; the valid
texts are those of the form of a UUID, and each is, in lower case, the text of the identity that is
read from it. Where MD5 does not fail, a request's identity is computed, unless its XUID cannot
be. -/
theorem identity_text (md5 : Bytes → Option Bytes) (hmd5 : ∀ s, (md5 s).isSome = true) :
    (∀ identity : Identity, (validateString identity.toString).isOk = true ∧
      fromString identity.toString = some identity) ∧
    (∀ str : Bytes, (validateString str).isOk = true ↔ IsUuid str) ∧
    (∀ (str : Bytes) (identity : Identity), fromString str = some identity →
      identity.toString = str.map toLower) ∧
    ∀ request : ConnectionRequest, (request.getIdentity md5).isSome =
      request.getXboxLiveID.isSome := by
  refine ⟨fun identity => ?_, fun str => validateString_iff, fun str identity => toString_of_parse,
    fun request => ?_⟩
  · have hread := parseIdentityString_toString identity
    exact ⟨validateString_isOk.mpr (by rw [hread]; rfl), hread⟩
  · -- without an XUID the properties are asked, and what is not valid there is the default
    have hproperties : ∀ selfSignedId : Bytes,
        (if (validateString selfSignedId).isOk = true then fromString selfSignedId
         else some {}).isSome = true := by
      intro selfSignedId
      split
      · next hvalid => exact fromString_isSome hvalid
      · rfl
    unfold ConnectionRequest.getIdentity
    cases hid : request.getXboxLiveID with
    | none => rfl
    | some xuid =>
      cases xuid with
      | none => exact hproperties _
      | some xuid =>
        simp only [Option.bind_eq_bind, Option.bind_some, Option.isSome_some]
        split
        · next hxuid => rw [fromXuid_isSome hxuid, hmd5]
        · exact hproperties _

/-- MD5, on the text of one XUID. -/
def onlineDigest (input : Bytes) : Option Bytes :=
  if input = literal "pocket-auth-1-xuid:2535412345678901" then
    some [111, 144, 39, 27, 249, 224, 157, 89, 112, 87, 20, 7, 107, 52, 219, 99]
  else some (List.replicate 16 0)

/-- A login with this XUID. -/
def onlineRequest : ConnectionRequest where
  mLoginToken :=
    { mRawHeader := literal "e30"
      mHeader := { alg := literal "RS256" }
      mPayload := { xid := literal "2535412345678901" } }

/-- The digest is always there. -/
theorem onlineDigest_isSome (input : Bytes) : (onlineDigest input).isSome = true := by
  unfold onlineDigest
  split <;> rfl

/-- The identity of this login is computed. -/
theorem identity_text_online :
    onlineRequest.getXboxLiveID = some (some (literal "2535412345678901")) ∧
    (onlineRequest.getIdentity onlineDigest).isSome = true := by
  have hxuid : onlineRequest.getXboxLiveID = some (some (literal "2535412345678901")) := by
    decide +kernel
  refine ⟨hxuid, ?_⟩
  rw [(identity_text onlineDigest onlineDigest_isSome).2.2.2 onlineRequest, hxuid]
  rfl

end Identity
end SculkProtocol
