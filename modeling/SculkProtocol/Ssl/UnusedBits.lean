import Mathlib.Data.List.DropRight
import SculkProtocol.Ssl.Base64Url

/-!
# What `base64url::decodeChecked` ignores

The last character of an encoding has bits that no byte takes: four after two characters
of a group, two after three. `encode` writes them as zeros, `decode` drops them, and
`decodeChecked` does not look at them; nor does it ask for as much padding as would fill
the last group. So what was decoded is encoded as the same characters without padding,
and with these bits cleared (`encode_decode`).

A single character in the last group stands for no byte, and is dropped.
-/

namespace SculkProtocol
namespace base64url

open detail

/-! ### Padding -/

/-- The characters before the padding. -/
def unpadded (str : Bytes) : Bytes := str.rdropWhile (· == 61)

/-- Padding is taken off. -/
theorem unpadded_append {u : Bytes} (hu : 61 ∉ u) (p : ℕ) :
    unpadded (u ++ List.replicate p 61) = u := by
  induction p with
  | zero =>
    rw [List.replicate_zero, List.append_nil, unpadded, List.rdropWhile_eq_self_iff]
    intro hne hlast
    exact hu (beq_iff_eq.mp hlast ▸ List.getLast_mem hne)
  | succ p ih =>
    rw [List.replicate_succ', ← List.append_assoc, unpadded, List.rdropWhile_concat_pos _ _ _ rfl]
    exact ih

/-- Valid padding is two characters at most, at the end. -/
theorem hasValidPadding_inv {str : Bytes} (h : hasValidPadding str = true) :
    ∃ p ≤ 2, 61 ∉ unpadded str ∧ str = unpadded str ++ List.replicate p 61 := by
  suffices h : ∃ u, ∃ p ≤ 2, 61 ∉ u ∧ str = u ++ List.replicate p 61 by
    obtain ⟨u, p, hp, hu, rfl⟩ := h
    exact ⟨p, hp, by rw [unpadded_append hu]; exact ⟨hu, rfl⟩⟩
  unfold hasValidPadding at h
  split at h
  · next hnone =>
    -- there is no padding
    refine ⟨str, 0, Nat.zero_le _, fun hmem => ?_, by simp⟩
    exact absurd (List.findIdx?_eq_none_iff.mp hnone 61 hmem) (by decide)
  · next k hk =>
    -- from the first padding character on there are no others
    obtain ⟨hpads, hcount⟩ := Bool.and_eq_true_iff.mp h
    obtain ⟨hlt, -, hbefore⟩ := List.findIdx?_eq_some_iff_getElem.mp hk
    refine ⟨str.take k, str.length - k, of_decide_eq_true hcount, fun hmem => ?_, ?_⟩
    · obtain ⟨i, hi, hget⟩ := List.mem_take_iff_getElem.mp hmem
      exact absurd (hbefore i (by omega)) (by simp [hget])
    · have hdrop : str.drop k = List.replicate (str.length - k) 61 := by
        rw [List.eq_replicate_iff]
        exact ⟨List.length_drop, fun ch hch => by simpa using List.all_eq_true.mp hpads ch hch⟩
      rw [← hdrop, List.take_append_drop]

/-- Text without padding has none at its end. -/
theorem takeWhile_reverse_of_not_mem {u : Bytes} (hu : 61 ∉ u) :
    u.reverse.takeWhile (· == 61) = [] := by
  rw [List.takeWhile_eq_nil_iff]
  intro hpos hfirst
  exact hu (List.mem_reverse.mp (beq_iff_eq.mp hfirst ▸ List.getElem_mem hpos))

/-- The padding counts for nothing. -/
theorem getDecodeLength_append {u : Bytes} (hu : 61 ∉ u) (p : ℕ) :
    getDecodeLength (u ++ List.replicate p 61) = getDecodeLength u := by
  have hpads : ∀ q, ((u ++ List.replicate q 61).reverse.takeWhile (· == 61)).length = q := by
    intro q
    rw [List.reverse_append, List.reverse_replicate, List.takeWhile_append_of_pos (by simp),
      takeWhile_reverse_of_not_mem hu, List.append_nil, List.length_replicate]
  have hzero := hpads 0
  rw [List.replicate_zero, List.append_nil] at hzero
  simp only [getDecodeLength, hpads, hzero, List.length_append, List.length_replicate,
    Nat.add_sub_cancel, Nat.sub_zero]

/-- A padding character is read as zeros, as one that is missing. -/
theorem decodeGroups_append (u : Bytes) {p : ℕ} (hp : p ≤ 2) :
    ∃ zeros, decodeGroups (u ++ List.replicate p 61) = decodeGroups u ++ zeros := by
  induction u using decodeGroups.induct with
  | case1 => exact ⟨_, rfl⟩
  | case2 c1 =>
    obtain rfl | rfl | rfl : p = 0 ∨ p = 1 ∨ p = 2 := by omega
    all_goals exact ⟨[], rfl⟩
  | case3 c1 c2 =>
    obtain rfl | rfl | rfl : p = 0 ∨ p = 1 ∨ p = 2 := by omega
    all_goals exact ⟨[], rfl⟩
  | case4 c1 c2 c3 =>
    obtain rfl | rfl | rfl : p = 0 ∨ p = 1 ∨ p = 2 := by omega
    · exact ⟨[], rfl⟩
    · exact ⟨[], rfl⟩
    · -- the second padding character begins a group of its own
      exact ⟨decodeData 0 0 0 0, rfl⟩
  | case5 c1 c2 c3 c4 str ih =>
    obtain ⟨zeros, hzeros⟩ := ih
    refine ⟨zeros, ?_⟩
    simp only [List.cons_append, decodeGroups, hzeros, List.append_assoc]

/-- Three bytes are decoded for four characters. -/
theorem decodeGroups_length (u : Bytes) : (decodeGroups u).length = (u.length + 3) / 4 * 3 := by
  induction u using decodeGroups.induct with
  | case1 => rfl
  | case2 | case3 | case4 => simp [decodeGroups, decodeData]
  | case5 c1 c2 c3 c4 str ih =>
    simp only [decodeGroups, decodeData, List.length_append, ih, List.length_cons, List.length_nil]
    omega

/-- The length of what is decoded, without padding. -/
theorem getDecodeLength_of_not_mem {u : Bytes} (hu : 61 ∉ u) :
    getDecodeLength u = u.length / 4 * 3 + (u.length % 4 - 1) := by
  rw [getDecodeLength, takeWhile_reverse_of_not_mem hu, List.length_nil, Nat.sub_zero]
  omega

/-- Padded or not, the same bytes are decoded. -/
theorem decode_append {u : Bytes} (hu : 61 ∉ u) {p : ℕ} (hp : p ≤ 2) :
    decode (u ++ List.replicate p 61) = decode u := by
  obtain ⟨zeros, hzeros⟩ := decodeGroups_append u hp
  rw [decode, decode, getDecodeLength_append hu, hzeros, List.take_append_of_le_length]
  rw [decodeGroups_length, getDecodeLength_of_not_mem hu]
  omega

/-! ### The bits of the last character -/

/-- The characters, with the bits of the last one cleared that no byte takes. -/
def clearUnused : Bytes → Bytes
  | [] => []
  | [c1] => [c1]
  | [c1, c2] => [c1, encodeLookup (decodeLookup c2 / 16 * 16)]
  | [c1, c2, c3] => [c1, c2, encodeLookup (decodeLookup c3 / 4 * 4)]
  | c1 :: c2 :: c3 :: c4 :: str => c1 :: c2 :: c3 :: c4 :: clearUnused str

/-- A character of the alphabet that is no padding. -/
def IsSextet (ch : UInt8) : Prop := isEncodedChar ch = true ∧ ch ≠ 61

/-- A number comes back as its character. -/
theorem lookup_decodeLookup {ch : UInt8} (h : IsSextet ch) :
    decodeLookup ch < 64 ∧ encodeLookup (decodeLookup ch) = ch := by
  have hall : ∀ n < 256, isEncodedChar (UInt8.ofNat n) = true → UInt8.ofNat n ≠ 61 →
      decodeLookup (UInt8.ofNat n) < 64 ∧
        encodeLookup (decodeLookup (UInt8.ofNat n)) = UInt8.ofNat n := by decide +kernel
  have hch : UInt8.ofNat ch.toNat = ch := UInt8.ofNat_toNat
  have hof := hall ch.toNat ch.toNat_lt
  rw [hch] at hof
  exact hof h.1 h.2

/-- A character of the alphabet is its number. -/
theorem nextChar_of_isSextet {ch : UInt8} (h : IsSextet ch) : nextChar ch = decodeLookup ch :=
  if_neg h.2

/-- The bytes of four characters, and the characters that `encode` writes for them. -/
theorem decodeData_inv {c1 c2 c3 c4 : ℕ} (h1 : c1 < 64) (h2 : c2 < 64) (h3 : c3 < 64)
    (h4 : c4 < 64) :
    ∃ a b c : UInt8, decodeData c1 c2 c3 c4 = [a, b, c] ∧ a.toNat / 4 = c1 ∧
      a.toNat % 4 * 16 + b.toNat / 16 = c2 ∧ b.toNat % 16 * 4 + c.toNat / 64 = c3 ∧
      c.toNat % 64 = c4 ∧
      a.toNat % 4 * 16 = c2 / 16 * 16 ∧ b.toNat % 16 * 4 = c3 / 4 * 4 := by
  refine ⟨_, _, _, rfl, ?_⟩
  simp only [UInt8.toNat_ofNat', or_groups h2 h3 h4, Nat.shiftRight_eq_div_pow]
  omega

/-- What is decoded is encoded as the same characters, with the unused bits cleared. -/
theorem encodeGroups_take {u : Bytes} (hu : ∀ ch ∈ u, IsSextet ch) (hlength : u.length % 4 ≠ 1) :
    encodeGroups ((decodeGroups u).take (u.length / 4 * 3 + (u.length % 4 - 1))) =
      clearUnused u := by
  induction u using decodeGroups.induct with
  | case1 => rfl
  | case2 c1 => exact absurd rfl hlength
  | case3 c1 c2 =>
    simp only [List.forall_mem_cons] at hu
    obtain ⟨h1, hc1⟩ := lookup_decodeLookup hu.1
    obtain ⟨h2, -⟩ := lookup_decodeLookup hu.2.1
    obtain ⟨a, b, c, hdata, ha, -, -, -, hclear, -⟩ :=
      decodeData_inv h1 h2 (show 0 < 64 by decide) (show 0 < 64 by decide)
    rw [decodeGroups, nextChar_of_isSextet hu.1, nextChar_of_isSextet hu.2.1, hdata]
    simp only [List.length_cons, List.length_nil, Nat.reduceAdd, Nat.reduceDiv, Nat.reduceMod,
      Nat.reduceMul, Nat.reduceSub, List.take_succ_cons, List.take_zero, encodeGroups, clearUnused,
      ha, hc1, hclear]
  | case4 c1 c2 c3 =>
    simp only [List.forall_mem_cons] at hu
    obtain ⟨h1, hc1⟩ := lookup_decodeLookup hu.1
    obtain ⟨h2, hc2⟩ := lookup_decodeLookup hu.2.1
    obtain ⟨h3, -⟩ := lookup_decodeLookup hu.2.2.1
    obtain ⟨a, b, c, hdata, ha, hb, -, -, -, hclear⟩ :=
      decodeData_inv h1 h2 h3 (show 0 < 64 by decide)
    rw [decodeGroups, nextChar_of_isSextet hu.1, nextChar_of_isSextet hu.2.1,
      nextChar_of_isSextet hu.2.2.1, hdata]
    simp only [List.length_cons, List.length_nil, Nat.reduceAdd, Nat.reduceDiv, Nat.reduceMod,
      Nat.reduceMul, Nat.reduceSub, List.take_succ_cons, List.take_zero, encodeGroups, clearUnused,
      ha, hb, hc1, hc2, hclear]
  | case5 c1 c2 c3 c4 str ih =>
    simp only [List.forall_mem_cons] at hu
    obtain ⟨hu1, hu2, hu3, hu4, hu⟩ := hu
    obtain ⟨h1, hc1⟩ := lookup_decodeLookup hu1
    obtain ⟨h2, hc2⟩ := lookup_decodeLookup hu2
    obtain ⟨h3, hc3⟩ := lookup_decodeLookup hu3
    obtain ⟨h4, hc4⟩ := lookup_decodeLookup hu4
    obtain ⟨a, b, c, hdata, ha, hb, hc, hd, -⟩ := decodeData_inv h1 h2 h3 h4
    -- a whole group, and the rest
    have hcount : (c1 :: c2 :: c3 :: c4 :: str).length / 4 * 3 +
        ((c1 :: c2 :: c3 :: c4 :: str).length % 4 - 1) =
          str.length / 4 * 3 + (str.length % 4 - 1) + 3 := by
      simp only [List.length_cons]
      omega
    have hrest : str.length % 4 ≠ 1 := by
      simp only [List.length_cons] at hlength
      omega
    rw [hcount, decodeGroups, nextChar_of_isSextet hu1, nextChar_of_isSextet hu2,
      nextChar_of_isSextet hu3, nextChar_of_isSextet hu4, hdata]
    simp only [List.cons_append, List.nil_append, List.take_succ_cons, encodeGroups, clearUnused,
      ha, hb, hc, hd, hc1, hc2, hc3, hc4, ih hu hrest]

/-! ### The result -/

/-- What `decodeChecked` has checked. -/
theorem decodeChecked_inv {str decoded : Bytes} (h : decodeChecked str = .ok decoded) :
    (∀ ch ∈ unpadded str, IsSextet ch) ∧ (∃ p ≤ 2, str = unpadded str ++ List.replicate p 61) ∧
      decoded = decode (unpadded str) := by
  simp only [decodeChecked, failIf_bind_eq_ok] at h
  obtain ⟨-, hpadding, -, hchars, hok⟩ := h
  obtain ⟨p, hp, hnone, hstr⟩ := hasValidPadding_inv (by simpa using hpadding)
  refine ⟨fun ch hch => ⟨?_, ?_⟩, ⟨p, hp, hstr⟩, ?_⟩
  · have hall : str.all isEncodedChar = true := by simpa using hchars
    exact List.all_eq_true.mp hall ch ((List.rdropWhile_prefix _ _).mem hch)
  · rintro rfl
    exact hnone hch
  · cases hok
    rw [← decode_append hnone hp, ← hstr]

/-- **Unused bits.** What was decoded from `str` is encoded as its characters before the padding,
with the unused bits of the last one cleared. So two strings that `decodeChecked` accepts give the
same bytes if and only if they differ in these bits and in the padding only. -/
theorem encode_decodeChecked {str decoded : Bytes} (h : decodeChecked str = .ok decoded)
    (hlength : (unpadded str).length % 4 ≠ 1) :
    (∃ p ≤ 2, str = unpadded str ++ List.replicate p 61) ∧
    encode decoded = clearUnused (unpadded str) ∧
    ∀ str' decoded', decodeChecked str' = .ok decoded' → (unpadded str').length % 4 ≠ 1 →
      (decoded = decoded' ↔ clearUnused (unpadded str) = clearUnused (unpadded str')) := by
  have hencode : ∀ {str decoded}, decodeChecked str = .ok decoded → (unpadded str).length % 4 ≠ 1 →
      encode decoded = clearUnused (unpadded str) := by
    intro str decoded h hlength
    obtain ⟨hchars, -, rfl⟩ := decodeChecked_inv h
    have hnone : 61 ∉ unpadded str := fun hmem => (hchars 61 hmem).2 rfl
    rw [decode, encode_groups, getDecodeLength_of_not_mem hnone, encodeGroups_take hchars hlength]
  refine ⟨(decodeChecked_inv h).2.1, hencode h hlength, fun str' decoded' h' hlength' => ?_⟩
  -- decoding undoes encoding, so equal texts of the bytes are equal bytes
  rw [← hencode h hlength, ← hencode h' hlength']
  constructor
  · rintro rfl
    rfl
  · intro heq
    rw [← decode_encode decoded, heq, decode_encode]

/-- Four bits of the second character are not used. -/
theorem encode_decodeChecked_two : encode [0] = clearUnused (unpadded (literal "AB=")) :=
  (@encode_decodeChecked (literal "AB=") _ (by decide) (by decide)).2.1

/-- Bits that are not used may be set, and the padding need not fill a group. -/
theorem decodeChecked_not_strict :
    (¬ ∀ str decoded, decodeChecked str = .ok decoded → unpadded str = encode decoded) ∧
    ¬ ∀ str decoded, decodeChecked str = .ok decoded → unpadded str ≠ str → str.length % 4 = 0 := by
  refine ⟨fun hclaim => ?_, fun hclaim => ?_⟩
  · exact absurd (hclaim (literal "AB") [0] (by decide)) (by decide)
  · exact absurd (hclaim (literal "AA=") [0] (by decide) (by decide)) (by decide)

end base64url
end SculkProtocol
