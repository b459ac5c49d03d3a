import SculkProtocol.Encryption.LockStep
import SculkProtocol.Ssl.UnusedBits

/-!
# Salts

The salt of a handshake token is text: OpenSSL writes it in Base64, with padding, and reads it back
in whole blocks. The padding is read as zeros, so `base64Decode` takes one byte off what was read
for each padding character. That a salt comes back is `base64Decode_base64Encode`.

OpenSSL's block functions are parameters (`EvpBlocks`). Their sizes are `int`s, so nothing is
assumed of a text of `2 ^ 31` characters.
-/

namespace SculkProtocol

/-- `EVP_EncodeBlock` and `EVP_DecodeBlock` of some bytes and their size; `none` is a negative
answer. -/
structure EvpBlocks where
  EVP_EncodeBlock : Bytes → ℤ → Option Bytes
  EVP_DecodeBlock : Bytes → ℤ → Option Bytes

namespace EvpBlocks

/-- `'='` -/
def pad : UInt8 := 61

/-- `std::isspace` -/
def isspace (ch : UInt8) : Bool := decide (9 ≤ ch ∧ ch ≤ 13) || ch == 32

/-- The padding characters behind so many bytes. -/
def padding (size : ℕ) : ℕ := (3 - size % 3) % 3

/-- The text of so many bytes has a size that is an `int`. -/
def Fits (size : ℕ) : Prop := 4 * ((size + 2) / 3) < 2 ^ 31

/-- What is documented of the block functions, given the size of the bytes or of the text. -/
structure Lawful (B : EvpBlocks) : Prop where
  /-- four characters for every three bytes, and padding instead of the bytes that are missing -/
  encode (data : Bytes) : Fits data.length →
    ∃ chars, B.EVP_EncodeBlock data data.length =
      some (chars ++ List.replicate (padding data.length) pad) ∧
      chars.length + padding data.length = 4 * ((data.length + 2) / 3) ∧
      ∀ ch ∈ chars, ch ≠ pad ∧ isspace ch = false
  /-- three bytes for every four characters -/
  decode_encode (data text : Bytes) : Fits data.length →
    B.EVP_EncodeBlock data data.length = some text →
    ∃ zeros, B.EVP_DecodeBlock text text.length = some (data ++ zeros) ∧
    zeros.length = padding data.length

end EvpBlocks

open EvpBlocks

variable (B : EvpBlocks)

/-- A size cast to `int` may be negative, or the answer may be. -/
def base64Encode (data : Bytes) : Bytes :=
  if data = [] then [] else (B.EVP_EncodeBlock data (staticCastInt data.length)).getD []

/-- What is decoded; `none` if more bytes are copied than the buffer has. The subtractions are those
of `std::size_t`. -/
def base64Decode (data : Bytes) : Option Bytes :=
  if data = [] then some []
  else
    let compact := data.filter fun ch => !isspace ch
    if compact = [] ∨ compact.length % 4 ≠ 0 then some []
    else
      match B.EVP_DecodeBlock compact (staticCastInt compact.length) with
      | none => some []
      | some written =>
        let decodedBuffer := written ++ List.replicate (compact.length / 4 * 3 - written.length) 0
        let removed :=
          if compact.getLast? = some pad then
            if compact.length > 1 ∧ compact[compact.length - 2]? = some pad then 2 else 1
          else 0
        let decodedSize := (written.length + 2 ^ 64 - removed) % 2 ^ 64
        if decodedSize ≤ decodedBuffer.length then some (decodedBuffer.take decodedSize) else none

variable {B} {data salt text : Bytes}

/-! ### A salt comes back -/

/-- A difference that does not wrap. -/
theorem wrapping_sub {n removed : ℕ} (hle : removed ≤ n) (hlt : n < 2 ^ 64) :
    (n + 2 ^ 64 - removed) % 2 ^ 64 = n - removed := by
  rw [show n + 2 ^ 64 - removed = n - removed + 2 ^ 64 by omega, Nat.add_mod_right,
    Nat.mod_eq_of_lt (by omega)]

/-- There are two padding characters at most. -/
theorem padding_le (size : ℕ) : padding size ≤ 2 := by
  unfold padding
  omega

/-- What was written has no whitespace to leave out. -/
theorem filter_encoded {chars : Bytes} {n : ℕ}
    (hchars : ∀ ch ∈ chars, ch ≠ pad ∧ isspace ch = false) :
    (chars ++ List.replicate n pad).filter (fun ch => !isspace ch) = chars ++
      List.replicate n pad := by
  refine List.filter_eq_self.mpr fun ch hch => ?_
  rcases List.mem_append.mp hch with hmem | hmem
  · rw [(hchars ch hmem).2]
    rfl
  · rw [List.eq_of_mem_replicate hmem]
    rfl

/-- The padding characters at the end are counted. -/
theorem removed_encoded {chars : Bytes} {n : ℕ} (hn : n ≤ 2)
    (hchars : ∀ ch ∈ chars, ch ≠ pad ∧ isspace ch = false)
    (hne : 2 ≤ chars.length) :
    (if (chars ++ List.replicate n pad).getLast? = some pad then
      if (chars ++ List.replicate n pad).length > 1 ∧
        (chars ++ List.replicate n pad)[(chars ++ List.replicate n pad).length - 2]? =
          some pad then 2 else 1
      else 0) = n := by
  -- the code looks at the last two characters, which are padding or the last of `chars`
  obtain ⟨init, a, b, rfl⟩ : ∃ init a b, chars = init ++ [a, b] := by
    refine ⟨chars.take (chars.length - 2), chars[chars.length - 2], chars[chars.length - 1], ?_⟩
    conv_lhs => rw [← List.take_append_drop (chars.length - 2) chars]
    rw [List.drop_eq_getElem_cons (by omega), List.drop_eq_getElem_cons (by omega),
      List.drop_eq_nil_of_le (by omega)]
    congr 4
    omega
  have ha : a ≠ pad := (hchars a (by simp)).1
  have hb : b ≠ pad := (hchars b (by simp)).1
  have hget : ∀ (rest : Bytes), (init ++ rest)[init.length]? = rest.head? := fun rest => by
    rw [List.getElem?_append_right (Nat.le_refl _), Nat.sub_self, List.head?_eq_getElem?]
  obtain rfl | rfl | rfl : n = 0 ∨ n = 1 ∨ n = 2 := by omega
  · simp [hb]
  · have hlast : (init ++ [a, b] ++ List.replicate 1 pad).length - 2 =
        (init ++ [a]).length := by simp
    have hbefore : (init ++ [a, b] ++ List.replicate 1 pad)[(init ++ [a]).length]? = some b := by
      rw [show init ++ [a, b] ++ List.replicate 1 pad = (init ++ [a]) ++ [b, pad] by simp,
        List.getElem?_append_right (Nat.le_refl _), Nat.sub_self]
      rfl
    rw [hlast, hbefore]
    simp [hb]
  · simp [List.replicate]

/-- **A salt comes back** from its text. -/
theorem base64Decode_base64Encode (hB : B.Lawful) (hsize : Fits salt.length) :
    base64Decode B (base64Encode B salt) = some salt := by
  by_cases hnil : salt = []
  · subst hnil
    rfl
  · have hlt : 4 * ((salt.length + 2) / 3) < 2 ^ 31 := hsize
    obtain ⟨chars, hwritten, hlength, hchars⟩ := hB.encode salt hsize
    have hpos : 0 < salt.length := List.length_pos_iff.mpr hnil
    have hpadding := padding_le salt.length
    have htextLength : (chars ++ List.replicate (padding salt.length) pad).length =
        4 * ((salt.length + 2) / 3) := by
      rw [List.length_append, List.length_replicate, hlength]
    have hcast : ∀ n : ℕ, n < 2 ^ 31 → staticCastInt n = n :=
      fun n hn => CryptoManager.staticCastInt_of_lt hn
    -- the padding is decoded to zeros, and their number is what is taken off
    obtain ⟨zeros, hdecoded, hzeros⟩ := hB.decode_encode salt _ hsize hwritten
    have hencode : base64Encode B salt = chars ++ List.replicate (padding salt.length) pad := by
      rw [base64Encode, if_neg hnil, hcast _ (by omega), hwritten]
      rfl
    have hne : chars ++ List.replicate (padding salt.length) pad ≠ [] := by
      apply List.ne_nil_of_length_pos
      omega
    have hremoved := removed_encoded hpadding hchars (by omega)
    rw [hencode, base64Decode, if_neg hne]
    dsimp only
    -- no whitespace to filter, and whole groups
    rw [filter_encoded hchars, if_neg (by rintro (h | h); exacts [hne h, h (by omega)]),
      hcast _ (by omega), hdecoded]
    dsimp only
    have hblock : padding salt.length = (3 - salt.length % 3) % 3 := rfl
    rw [hremoved, List.length_append, hzeros, wrapping_sub (by omega) (by omega),
      Nat.add_sub_cancel, if_pos, List.append_assoc, List.take_left' rfl]
    rw [List.length_append, List.length_append]
    omega

/-! ### Blocks -/

namespace standardBlocks

open base64url base64url.detail

/-- A character of the URL alphabet in the standard one. -/
def toStandard (ch : UInt8) : UInt8 := if ch = 45 then 43 else if ch = 95 then 47 else ch

def ofStandard (ch : UInt8) : UInt8 := if ch = 43 then 45 else if ch = 47 then 95 else ch

def isStandard (ch : UInt8) : Bool := isEncodedChar (ofStandard ch) && ch != 45 && ch != 95

def encodeBlock (data : Bytes) : Bytes :=
  (encode data).map toStandard ++ List.replicate (padding data.length) pad

def decodeBlock (text : Bytes) : Option Bytes :=
  if text.length % 4 ≠ 0 ∨ text.all isStandard = false then none
  else some (decodeGroups (text.map ofStandard))

/-- A character of an encoding survives the change of the alphabet. -/
theorem standard_spec : ∀ c < 64, ofStandard (toStandard (encodeLookup c)) = encodeLookup c ∧
    isStandard (toStandard (encodeLookup c)) = true ∧ toStandard (encodeLookup c) ≠ pad ∧
    isspace (toStandard (encodeLookup c)) = false := by decide +kernel

/-- The characters of an encoding are standard. -/
theorem mem_toStandard {ch : UInt8} (h : ch ∈ encode data) : ofStandard (toStandard ch) = ch ∧
    isStandard (toStandard ch) = true ∧ toStandard ch ≠ pad ∧ isspace (toStandard ch) = false := by
  rw [encode_groups] at h
  obtain ⟨c, hc, rfl⟩ := encodeGroups_chars data ch h
  exact standard_spec c hc

/-- A block has four characters for three bytes. -/
theorem encodeBlock_length (data : Bytes) :
    (encodeBlock data).length = 4 * ((data.length + 2) / 3) := by
  rw [encodeBlock, List.length_append, List.length_map, encode_length, List.length_replicate,
    padding]
  omega

/-- In the other alphabet, a block is an encoding with padding. -/
theorem ofStandard_encodeBlock (data : Bytes) :
    (encodeBlock data).map ofStandard = encode data ++ List.replicate (padding data.length) 61 := by
  have hpad : ofStandard pad = 61 := by decide
  rw [encodeBlock, List.map_append, List.map_map, List.map_replicate, hpad]
  congr 1
  conv_rhs => rw [← List.map_id (encode data)]
  exact List.map_congr_left fun ch hch => (mem_toStandard hch).1

/-- A block is decoded with zeros for its padding. -/
theorem decodeBlock_encodeBlock (data : Bytes) :
    ∃ zeros, decodeBlock (encodeBlock data) = some (data ++ zeros) ∧
    zeros.length = padding data.length := by
  have hall : (encodeBlock data).all isStandard = true := by
    rw [List.all_eq_true]
    intro ch hch
    rcases List.mem_append.mp hch with hmem | hmem
    · obtain ⟨c, hc, rfl⟩ := List.mem_map.mp hmem
      exact (mem_toStandard hc).2.1
    · rw [List.eq_of_mem_replicate hmem]
      decide
  have hlength := encodeBlock_length data
  -- zeros come from the last group of the bytes, and from the padding characters
  obtain ⟨zeros, hzeros⟩ := decodeGroups_encodeGroups data
  obtain ⟨more, hmore⟩ := decodeGroups_append (encode data) (padding_le data.length)
  have hdecoded : decodeGroups ((encodeBlock data).map ofStandard) = data ++ (zeros ++ more) := by
    rw [ofStandard_encodeBlock, hmore, encode_groups, hzeros, List.append_assoc]
  refine ⟨zeros ++ more, ?_, ?_⟩
  · rw [decodeBlock, if_neg, hdecoded]
    rintro (h | h)
    · exact h (by omega)
    · exact absurd (hall.symm.trans h) (by decide)
  · have hdecodedLength := congrArg List.length hdecoded
    have hblock : padding data.length = (3 - data.length % 3) % 3 := rfl
    rw [decodeGroups_length, List.length_map, List.length_append] at hdecodedLength
    omega

end standardBlocks

/-- Base64 as OpenSSL writes it; a size that is not that of the bytes has no answer. -/
def standardBlocks : EvpBlocks where
  EVP_EncodeBlock data size :=
    if size = data.length then some (standardBlocks.encodeBlock data) else none
  EVP_DecodeBlock text size := if size = text.length then standardBlocks.decodeBlock text else none

/-- These blocks do what is documented. -/
theorem standardBlocks_lawful : standardBlocks.Lawful where
  encode data _ := by
    refine ⟨(base64url.encode data).map standardBlocks.toStandard, ?_, ?_, ?_⟩
    · exact if_pos rfl
    · have hlength := standardBlocks.encodeBlock_length data
      rwa [standardBlocks.encodeBlock, List.length_append, List.length_replicate] at hlength
    · intro ch hch
      obtain ⟨c, hc, rfl⟩ := List.mem_map.mp hch
      exact (standardBlocks.mem_toStandard hc).2.2
  decode_encode data text _ h := by
    have htext : standardBlocks.encodeBlock data = text :=
      Option.some.inj ((if_pos rfl).symm.trans h)
    obtain ⟨zeros, hdecoded, hzeros⟩ := standardBlocks.decodeBlock_encodeBlock data
    exact ⟨zeros, (if_pos rfl).trans (htext ▸ hdecoded), hzeros⟩

end SculkProtocol
