import Mathlib.Algebra.Ring.Nat
import SculkProtocol.Utility.Result

/-!
# `base64url`

`encode` writes six bits per character, without padding; `decodeChecked` accepts at most two
padding characters at the end. Both are translated from their loops. `encode_groups` and
`decode_groups` read the loops three bytes and four characters at a time, and from them
`decodeChecked_encode` says that every nonempty string is decoded from its encoding.
-/

namespace SculkProtocol
namespace base64url

namespace detail

def encodeLookup (c : ℕ) : UInt8 :=
  (literal "ABCDEFGHIJKLMNOPQRSTUVWXYZabcdefghijklmnopqrstuvwxyz0123456789-_").getD c 0

def decodeLookup (c : UInt8) : ℕ :=
  if 65 ≤ c ∧ c ≤ 90 then c.toNat - 65
  else if 97 ≤ c ∧ c ≤ 122 then c.toNat - 71
  else if 48 ≤ c ∧ c ≤ 57 then c.toNat + 4
  else if c = 45 then 62
  else if c = 95 then 63
  else 64

def isEncodedChar (c : UInt8) : Bool :=
  decide (65 ≤ c ∧ c ≤ 90 ∨ 97 ≤ c ∧ c ≤ 122 ∨ 48 ≤ c ∧ c ≤ 57) || c == 45 || c == 95 || c == 61

def hasValidPadding (s : Bytes) : Bool :=
  match s.findIdx? (· == 61) with
  | none => true
  | some firstPadding =>
    (s.drop firstPadding).all (· == 61) && decide (s.length - firstPadding ≤ 2)

end detail

open detail

def getDecodeLength (s : Bytes) : ℕ :=
  let inputSize := s.length - (s.reverse.takeWhile (· == 61)).length
  -- `inputSize` is rounded up to a multiple of four
  let count := (4 - inputSize % 4) % 4
  6 * (inputSize + count) / 8 - count

/-- The loop of `encode`, with the bits collected so far in `i` and `bits` of them not yet
written; the source's `j` is `bits - 6`. After a byte there are one or two characters to
write. -/
def encodeFrom (i : UInt32) (bits : ℕ) : Bytes → Bytes
  | [] =>
    if bits > 0 then [encodeLookup (((i <<< 8) >>> UInt32.ofNat (bits + 2)) &&& 0x3F).toNat] else []
  | c :: str =>
    let i := (i <<< 8) + c.toUInt32
    let first := encodeLookup ((i >>> UInt32.ofNat (bits + 2)) &&& 0x3F).toNat
    if bits < 4 then first :: encodeFrom i (bits + 2) str
    else
      first :: encodeLookup ((i >>> UInt32.ofNat (bits - 4)) &&& 0x3F).toNat ::
        encodeFrom i (bits - 4) str

def encode (str : Bytes) : Bytes := encodeFrom 0 0 str

/-- `next_char`, for a character that is there. -/
def nextChar (ch : UInt8) : ℕ := if ch = 61 then 0 else decodeLookup ch

/-- The three bytes of four characters. -/
def decodeData (c1 c2 c3 c4 : ℕ) : Bytes :=
  let data := (c1 <<< 18) ||| (c2 <<< 12) ||| (c3 <<< 6) ||| c4
  [UInt8.ofNat (data >>> 16), UInt8.ofNat (data >>> 8), UInt8.ofNat data]

/-- The loop of `decode`; a missing character counts as 0. -/
def decodeGroups : Bytes → Bytes
  | [] => []
  | [c1] => decodeData (nextChar c1) 0 0 0
  | [c1, c2] => decodeData (nextChar c1) (nextChar c2) 0 0
  | [c1, c2, c3] => decodeData (nextChar c1) (nextChar c2) (nextChar c3) 0
  | c1 :: c2 :: c3 :: c4 :: str =>
    decodeData (nextChar c1) (nextChar c2) (nextChar c3) (nextChar c4) ++ decodeGroups str

def decode (str : Bytes) : Bytes := (decodeGroups str).take (getDecodeLength str)

def decodeChecked (str : Bytes) : Except String Bytes := do
  failIf (str = []) "Base64Url input is empty"
  failIf (hasValidPadding str = false) "Base64Url input has invalid padding"
  failIf (str.length % 4 = 1) "Base64Url input length is invalid"
  failIf (str.all isEncodedChar = false) "Base64Url input contains invalid characters"
  .ok (decode str)

/-- The overload with a length: `getDecodeLength` has to give it. -/
def decodeCheckedOfLength (str : Bytes) (expectedDecodedLength : ℕ) : Except String Bytes := do
  failIf (str = []) "Base64Url input is empty"
  failIf (hasValidPadding str = false) "Base64Url input has invalid padding"
  failIf (str.length % 4 = 1) "Base64Url input length is invalid"
  failIf (getDecodeLength str ≠ expectedDecodedLength)
    "Base64Url decoded length does not match expected length"
  failIf (str.all isEncodedChar = false) "Base64Url input contains invalid characters"
  .ok (decode str)

/-! ### The alphabet -/

/-- A written character is read back; it is no padding and no dot. -/
theorem lookup_spec : ∀ c < 64, decodeLookup (encodeLookup c) = c ∧
    isEncodedChar (encodeLookup c) = true ∧ encodeLookup c ≠ 61 ∧ encodeLookup c ≠ 46 := by
  decide +kernel

/-! ### Three bytes at a time -/

/-- `encode`, three bytes at a time. -/
def encodeGroups : Bytes → Bytes
  | [] => []
  | [a] => [encodeLookup (a.toNat / 4), encodeLookup (a.toNat % 4 * 16)]
  | [a, b] =>
    [encodeLookup (a.toNat / 4), encodeLookup (a.toNat % 4 * 16 + b.toNat / 16),
      encodeLookup (b.toNat % 16 * 4)]
  | a :: b :: c :: str =>
    encodeLookup (a.toNat / 4) :: encodeLookup (a.toNat % 4 * 16 + b.toNat / 16) ::
      encodeLookup (b.toNat % 16 * 4 + c.toNat / 64) :: encodeLookup (c.toNat % 64) ::
        encodeGroups str

/-- Six bits of the collected ones. -/
theorem toNat_sextet (i : UInt32) {k : ℕ} (hk : k < 32) :
    ((i >>> UInt32.ofNat k) &&& 0x3F).toNat = i.toNat / 2 ^ k % 64 := by
  have hshift : (UInt32.ofNat k).toNat % 32 = k := by
    rw [UInt32.toNat_ofNat']
    omega
  rw [UInt32.toNat_and, UInt32.toNat_shiftRight, hshift, Nat.shiftRight_eq_div_pow,
    show (0x3F : UInt32).toNat = 2 ^ 6 - 1 from rfl, Nat.and_two_pow_sub_one_eq_mod]

/-- A shift by eight bits, as a number. -/
theorem toNat_shiftLeft_eight (i : UInt32) : (i <<< 8).toNat = i.toNat * 256 % 2 ^ 32 := by
  rw [UInt32.toNat_shiftLeft, Nat.shiftLeft_eq]
  rfl

/-- One more byte is collected. -/
theorem toNat_collect (i : UInt32) (c : UInt8) :
    ((i <<< 8) + c.toUInt32).toNat = (i.toNat * 256 + c.toNat) % 2 ^ 32 := by
  rw [UInt32.toNat_add, toNat_shiftLeft_eight, UInt8.toNat_toUInt32]
  omega

/-- What is written after the bytes `a`, `b` and `c`, whatever the earlier bits `n` were. -/
theorem sextets (n : ℕ) {a b c : ℕ} (ha : a < 256) (hb : b < 256) (hc : c < 256) :
    let x := (n * 256 + a) % 2 ^ 32
    let y := (x * 256 + b) % 2 ^ 32
    let z := (y * 256 + c) % 2 ^ 32
    x / 2 ^ 2 % 64 = a / 4 ∧ x * 256 % 2 ^ 32 / 2 ^ 4 % 64 = a % 4 * 16 ∧
      y / 2 ^ 4 % 64 = a % 4 * 16 + b / 16 ∧ y * 256 % 2 ^ 32 / 2 ^ 6 % 64 = b % 16 * 4 ∧
      z / 2 ^ 6 % 64 = b % 16 * 4 + c / 64 ∧ z / 2 ^ 0 % 64 = c % 64 := by
  refine ⟨?_, ?_, ?_, ?_, ?_, ?_⟩ <;> omega

/-- The source encodes groups. -/
theorem encodeFrom_groups (i : UInt32) (str : Bytes) : encodeFrom i 0 str = encodeGroups str := by
  induction str using encodeGroups.induct generalizing i with
  | case1 => rfl
  | case2 a =>
    obtain ⟨h₁, h₂, -⟩ := sextets i.toNat a.toNat_lt a.toNat_lt a.toNat_lt
    simp (disch := omega) only [encodeFrom, encodeGroups, toNat_sextet, toNat_collect,
      toNat_shiftLeft_eight, Nat.reduceAdd, Nat.reduceLT, if_true, gt_iff_lt, h₁, h₂]
  | case3 a b =>
    obtain ⟨h₁, -, h₃, h₄, -⟩ := sextets i.toNat a.toNat_lt b.toNat_lt b.toNat_lt
    simp (disch := omega) only [encodeFrom, encodeGroups, toNat_sextet, toNat_collect,
      toNat_shiftLeft_eight, Nat.reduceAdd, Nat.reduceLT, if_true, gt_iff_lt, h₁, h₃, h₄]
  | case4 a b c str ih =>
    obtain ⟨h₁, -, h₃, -, h₅, h₆⟩ := sextets i.toNat a.toNat_lt b.toNat_lt c.toNat_lt
    simp (disch := omega) only [encodeFrom, encodeGroups, toNat_sextet, toNat_collect,
      Nat.reduceAdd, Nat.reduceLT, Nat.reduceSub, if_true, if_false, ih, h₁, h₃, h₅, h₆]

/-- `encode` writes groups of three bytes. -/
theorem encode_groups (str : Bytes) : encode str = encodeGroups str := encodeFrom_groups 0 str

/-! ### What is written -/

/-- What is encoded are characters of the alphabet. -/
theorem encodeGroups_chars (str : Bytes) :
    ∀ ch ∈ encodeGroups str, ∃ c < 64, ch = encodeLookup c := by
  induction str using encodeGroups.induct with
  | case1 => exact fun _ h => absurd h List.not_mem_nil
  | case2 a =>
    have ha := a.toNat_lt
    simp only [encodeGroups, List.forall_mem_cons]
    exact ⟨⟨_, by omega, rfl⟩, ⟨_, by omega, rfl⟩, fun _ h => absurd h List.not_mem_nil⟩
  | case3 a b =>
    have ha := a.toNat_lt
    have hb := b.toNat_lt
    simp only [encodeGroups, List.forall_mem_cons]
    exact ⟨⟨_, by omega, rfl⟩, ⟨_, by omega, rfl⟩, ⟨_, by omega, rfl⟩,
      fun _ h => absurd h List.not_mem_nil⟩
  | case4 a b c str ih =>
    have ha := a.toNat_lt
    have hb := b.toNat_lt
    have hc := c.toNat_lt
    simp only [encodeGroups, List.forall_mem_cons]
    exact ⟨⟨_, by omega, rfl⟩, ⟨_, by omega, rfl⟩, ⟨_, by omega, rfl⟩, ⟨_, by omega, rfl⟩, ih⟩

/-- A written character is one of the alphabet: no padding and no dot. -/
theorem mem_encode {str : Bytes} {ch : UInt8} (h : ch ∈ encode str) :
    isEncodedChar ch = true ∧ ch ≠ 61 ∧ ch ≠ 46 := by
  rw [encode_groups] at h
  obtain ⟨c, hc, rfl⟩ := encodeGroups_chars str ch h
  exact (lookup_spec c hc).2

/-- Every character of an encoding has six bits. -/
theorem encodeGroups_length (str : Bytes) :
    (encodeGroups str).length = (str.length * 8 + 5) / 6 := by
  induction str using encodeGroups.induct with
  | case1 => rfl
  | case2 a => simp [encodeGroups]
  | case3 a b => simp [encodeGroups]
  | case4 a b c str ih =>
    simp only [encodeGroups, List.length_cons, ih]
    omega

/-- Six bits a character. -/
theorem encode_length (str : Bytes) : (encode str).length = (str.length * 8 + 5) / 6 := by
  rw [encode_groups, encodeGroups_length]

/-- Something is encoded as something. -/
theorem encode_ne_nil {str : Bytes} (h : str ≠ []) : encode str ≠ [] := by
  have hpos := List.length_pos_iff.mpr h
  apply List.ne_nil_of_length_pos
  rw [encode_length]
  omega

/-! ### What is read back -/

/-- Bits above those that are set are added. -/
theorem shiftLeft_or {x y k : ℕ} (h : y < 2 ^ k) : x <<< k ||| y = x * 2 ^ k + y := by
  rw [← Nat.shiftLeft_add_eq_or_of_lt h, Nat.shiftLeft_eq]

/-- Four groups of six bits. -/
theorem or_groups {c1 c2 c3 c4 : ℕ} (h2 : c2 < 64) (h3 : c3 < 64) (h4 : c4 < 64) :
    (c1 <<< 18) ||| (c2 <<< 12) ||| (c3 <<< 6) ||| c4
      = c1 * 2 ^ 18 + c2 * 2 ^ 12 + c3 * 2 ^ 6 + c4 := by
  have hc2 : c2 <<< 12 = c2 * 2 ^ 12 := Nat.shiftLeft_eq _ _
  have hc3 : c3 <<< 6 = c3 * 2 ^ 6 := Nat.shiftLeft_eq _ _
  calc (c1 <<< 18) ||| (c2 <<< 12) ||| (c3 <<< 6) ||| c4
      = (c1 * 2 ^ 6 + c2) <<< 12 ||| (c3 <<< 6) ||| c4 := by
        rw [shiftLeft_or (by omega), hc2, Nat.shiftLeft_eq]
        congr 2
        omega
    _ = ((c1 * 2 ^ 6 + c2) * 2 ^ 6 + c3) <<< 6 ||| c4 := by
        rw [shiftLeft_or (by omega), hc3, Nat.shiftLeft_eq]
        congr 1
        omega
    _ = c1 * 2 ^ 18 + c2 * 2 ^ 12 + c3 * 2 ^ 6 + c4 := by
        rw [shiftLeft_or (by omega)]
        omega

/-- The three bytes of four written characters. -/
theorem decodeData_spec (a b c : UInt8) :
    decodeData (a.toNat / 4) (a.toNat % 4 * 16 + b.toNat / 16) (b.toNat % 16 * 4 + c.toNat / 64)
      (c.toNat % 64) = [a, b, c] := by
  have ha := a.toNat_lt
  have hb := b.toNat_lt
  have hc := c.toNat_lt
  simp only [decodeData]
  rw [or_groups (by omega) (by omega) (by omega)]
  generalize hdata : a.toNat / 4 * 2 ^ 18 + (a.toNat % 4 * 16 + b.toNat / 16) * 2 ^ 12
    + (b.toNat % 16 * 4 + c.toNat / 64) * 2 ^ 6 + c.toNat % 64 = data
  have hsum : data = a.toNat * 65536 + b.toNat * 256 + c.toNat := by omega
  have hbyte : ∀ (x : UInt8) (n : ℕ), n % 256 = x.toNat → UInt8.ofNat n = x := by
    intro x n hn
    apply UInt8.toNat_inj.mp
    rwa [UInt8.toNat_ofNat']
  rw [hbyte a (data >>> 16) (by rw [Nat.shiftRight_eq_div_pow]; omega),
    hbyte b (data >>> 8) (by rw [Nat.shiftRight_eq_div_pow]; omega), hbyte c data (by omega)]

/-- A character comes back as its number. -/
theorem nextChar_encodeLookup {c : ℕ} (hc : c < 64) : nextChar (encodeLookup c) = c := by
  obtain ⟨hread, -, hpad, -⟩ := lookup_spec c hc
  rw [nextChar, if_neg hpad, hread]

/-- What was written in groups is read back in groups; a last group may be padded by zeros. -/
theorem decodeGroups_encodeGroups (str : Bytes) :
    ∃ zeros, decodeGroups (encodeGroups str) = str ++ zeros := by
  induction str using encodeGroups.induct with
  | case1 => exact ⟨[], rfl⟩
  | case2 a =>
    have ha := a.toNat_lt
    have hdata := decodeData_spec a 0 0
    simp only [UInt8.toNat_zero, Nat.zero_div, Nat.zero_mod, Nat.zero_mul, Nat.add_zero] at hdata
    -- a last group of one byte has two characters; the decoder fills it up
    refine ⟨[0, 0], ?_⟩
    rw [encodeGroups, decodeGroups, nextChar_encodeLookup (by omega),
      nextChar_encodeLookup (by omega), hdata]
    rfl
  | case3 a b =>
    have ha := a.toNat_lt
    have hb := b.toNat_lt
    have hdata := decodeData_spec a b 0
    simp only [UInt8.toNat_zero, Nat.zero_div, Nat.zero_mod, Nat.add_zero] at hdata
    -- a last group of two bytes has three
    refine ⟨[0], ?_⟩
    rw [encodeGroups, decodeGroups, nextChar_encodeLookup (by omega),
      nextChar_encodeLookup (by omega), nextChar_encodeLookup (by omega), hdata]
    rfl
  | case4 a b c str ih =>
    have ha := a.toNat_lt
    have hb := b.toNat_lt
    have hc := c.toNat_lt
    -- a whole group is exact, so the zeros are those of the rest
    obtain ⟨zeros, hzeros⟩ := ih
    refine ⟨zeros, ?_⟩
    rw [encodeGroups, decodeGroups, nextChar_encodeLookup (by omega),
      nextChar_encodeLookup (by omega), nextChar_encodeLookup (by omega),
      nextChar_encodeLookup (by omega), decodeData_spec, hzeros]
    rfl

/-- An encoding has no padding, which is valid. -/
theorem hasValidPadding_encode (str : Bytes) : hasValidPadding (encode str) = true := by
  have hnone : (encode str).findIdx? (· == 61) = none := by
    rw [List.findIdx?_eq_none_iff]
    intro ch hch
    simpa using (mem_encode hch).2.1
  rw [hasValidPadding, hnone]

/-- There is no padding to be subtracted. -/
theorem getDecodeLength_encode (str : Bytes) : getDecodeLength (encode str) = str.length := by
  have hnone : (encode str).reverse.takeWhile (· == 61) = [] := by
    cases hrev : (encode str).reverse with
    | nil => rfl
    | cons ch chars =>
      have hch : ch ∈ encode str := List.mem_reverse.mp (hrev ▸ List.mem_cons_self)
      rw [List.takeWhile_cons_of_neg]
      simpa using (mem_encode hch).2.1
  simp only [getDecodeLength, hnone, List.length_nil, Nat.sub_zero, encode_length]
  omega

/-- What was encoded is decoded. -/
theorem decode_encode (str : Bytes) : decode (encode str) = str := by
  obtain ⟨zeros, hzeros⟩ := decodeGroups_encodeGroups str
  rw [decode, getDecodeLength_encode, encode_groups, hzeros, List.take_left' rfl]

/-- **Round trip.** What was encoded is accepted and decoded. -/
theorem decodeChecked_encode {str : Bytes} (h : str ≠ []) :
    decodeChecked (encode str) = .ok str := by
  have hlength : ¬ (encode str).length % 4 = 1 := by
    rw [encode_length]
    omega
  have hchars : (encode str).all isEncodedChar = true :=
    List.all_eq_true.mpr fun ch hch => (mem_encode hch).1
  simp only [decodeChecked, failIf_bind_eq_ok, decode_encode, hasValidPadding_encode, hchars]
  exact ⟨encode_ne_nil h, by simp, hlength, by simp, trivial⟩

/-- The overload accepts what the other one does, where it has the length. -/
theorem decodeCheckedOfLength_eq_ok {str decoded : Bytes} {n : ℕ} :
    decodeCheckedOfLength str n = .ok decoded ↔
      decodeChecked str = .ok decoded ∧ getDecodeLength str = n := by
  simp only [decodeCheckedOfLength, decodeChecked, failIf_bind_eq_ok, not_not]
  constructor
  · rintro ⟨hne, hpadding, hlength, hn, hchars, hok⟩
    exact ⟨⟨hne, hpadding, hlength, hchars, hok⟩, hn⟩
  · rintro ⟨⟨hne, hpadding, hlength, hchars, hok⟩, hn⟩
    exact ⟨hne, hpadding, hlength, hn, hchars, hok⟩

/-- **Round trip**, for both overloads. -/
theorem decodeChecked_encode_length {str : Bytes} (h : str ≠ []) :
    decodeChecked (encode str) = .ok str ∧
      decodeCheckedOfLength (encode str) str.length = .ok str := by
  have hok := decodeChecked_encode h
  exact ⟨hok, decodeCheckedOfLength_eq_ok.mpr ⟨hok, getDecodeLength_encode str⟩⟩

/-- Two bytes take three characters. -/
theorem decodeChecked_encode_length_two :
    decodeChecked (encode [0xFF, 0xFE]) = .ok [0xFF, 0xFE] ∧
      decodeCheckedOfLength (encode [0xFF, 0xFE]) 2 = .ok [0xFF, 0xFE] :=
  decodeChecked_encode_length (by decide)

/-- What is accepted has no dot. -/
theorem decodeChecked_no_dot {str decoded : Bytes} (h : decodeChecked str = .ok decoded) :
    46 ∉ str := by
  simp only [decodeChecked, failIf_bind_eq_ok] at h
  obtain ⟨-, -, -, hchars, -⟩ := h
  intro hdot
  have hall : str.all isEncodedChar = true := by simpa using hchars
  exact absurd (List.all_eq_true.mp hall 46 hdot) (by decide)

/-- What is accepted is not empty. -/
theorem decodeChecked_ne_nil {str decoded : Bytes} (h : decodeChecked str = .ok decoded) :
    str ≠ [] := by
  simp only [decodeChecked, failIf_bind_eq_ok] at h
  exact h.1

end base64url
end SculkProtocol
