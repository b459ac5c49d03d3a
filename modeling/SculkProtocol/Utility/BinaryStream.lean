import Mathlib.Algebra.Ring.Nat
import SculkProtocol.Utility.ReadOnlyBinaryStream

/-!
# `BinaryStream`

The writer appends to a buffer, so a write is the bytes it appends. A variable-length
integer is written in groups of seven bits, lowest first; `readUnsignedVarInt_write` says
that the reader gets it back from any position of a buffer, and `readUnsignedVarInt_length`
that it never reads the integer from fewer bytes.
-/

namespace SculkProtocol
namespace BinaryStream

/-- The loop of `writeUnsignedVarInt`, for a value of at most so many 7-bit groups. -/
def writeVarIntGroups : ℕ → UInt32 → Bytes
  | 0, _ => []
  | groups + 1, uvalue =>
    let nextByte := (uvalue &&& 0x7F).toUInt8
    let uvalue := uvalue >>> 7
    if uvalue ≠ 0 then (nextByte ||| 0x80) :: writeVarIntGroups groups uvalue else [nextByte]

/-- A value of 32 bits has at most five groups. -/
def writeUnsignedVarInt (uvalue : UInt32) : Bytes := writeVarIntGroups 5 uvalue

/-- `write` of a signed 32-bit value, in little-endian order. -/
def writeSignedInt (value : UInt32) : Bytes :=
  (List.range 4).map fun i => ((value >>> (UInt32.ofNat i * 8)) &&& 0xff).toUInt8

/-- The size is cast to a signed 32-bit value. -/
def writeLongString (value : Bytes) : Bytes := writeSignedInt (UInt32.ofNat value.length) ++ value

/-! ### Groups of seven bits -/

/-- A shift by seven bits divides. -/
theorem toNat_shiftRight_seven (v : UInt32) : (v >>> 7).toNat = v.toNat / 128 := by
  rw [UInt32.toNat_shiftRight]
  simp [Nat.shiftRight_eq_div_pow]

/-- Nothing is left of a number below 128. -/
theorem shiftRight_seven_eq_zero {v : UInt32} : v >>> 7 = 0 ↔ v.toNat < 128 := by
  rw [← UInt32.toNat_inj, toNat_shiftRight_seven, UInt32.toNat_zero]
  omega

/-- The low group as a byte. -/
theorem lowGroup (v : UInt32) : (v &&& 0x7F).toUInt8 = UInt8.ofNat (v.toNat % 128) := by
  apply UInt8.toNat_inj.mp
  have h127 : (0x7F : UInt32).toNat = 2 ^ 7 - 1 := rfl
  rw [UInt32.toNat_toUInt8, UInt32.toNat_and, h127, Nat.and_two_pow_sub_one_eq_mod,
    UInt8.toNat_ofNat']

/-- The lowest group is a remainder. -/
theorem lowGroup_toUInt32 (v : UInt32) : v &&& 0x7F = UInt32.ofNat (v.toNat % 128) := by
  apply UInt32.toNat_inj.mp
  have h127 : (0x7F : UInt32).toNat = 2 ^ 7 - 1 := rfl
  rw [UInt32.toNat_and, h127, Nat.and_two_pow_sub_one_eq_mod, UInt32.toNat_ofNat']
  omega

/-- The bits of a byte that carries a group, with and without the continuation bit. -/
theorem groupByte : ∀ n < 128,
    UInt8.ofNat n &&& 0x80 = 0 ∧ (UInt8.ofNat n ||| 0x80) &&& 0x80 ≠ 0 ∧
      (UInt8.ofNat n &&& 0x7F).toUInt32 = UInt32.ofNat n ∧
      ((UInt8.ofNat n ||| 0x80) &&& 0x7F).toUInt32 = UInt32.ofNat n ∧
      (n < 16 → UInt8.ofNat n &&& 0x70 = 0) := by
  decide +kernel

/-- A value is its low group and the rest. -/
theorem or_groups (v : UInt32) {shift : ℕ} (hshift : shift + 7 < 32) :
    (v &&& 0x7F) <<< UInt32.ofNat shift ||| (v >>> 7) <<< UInt32.ofNat (shift + 7)
      = v <<< UInt32.ofNat shift := by
  have hmod {n : ℕ} (hn : n < 32) : ((UInt32.ofNat n).toBitVec % 32).toNat = n := by
    rw [BitVec.toNat_umod, UInt32.toNat_toBitVec, UInt32.toNat_ofNat',
      show (32 : BitVec 32).toNat = 32 from rfl]
    omega
  have hseven : ((7#32 : BitVec 32) % 32).toNat = 7 := rfl
  apply UInt32.toBitVec_inj.mp
  refine BitVec.eq_of_getLsbD_eq fun i hi => ?_
  have h127 : (127#32).getLsbD (i - shift) = decide (i - shift < 7) := by
    have hbit : Nat.testBit 127 (i - shift) = decide (i - shift < 7) :=
      Nat.testBit_two_pow_sub_one 7 _
    rw [BitVec.getLsbD_ofNat, hbit, Bool.and_eq_right_iff_imp]
    intro h
    have := of_decide_eq_true h
    exact decide_eq_true (by omega)
  simp only [UInt32.toBitVec_or, UInt32.toBitVec_shiftLeft, UInt32.toBitVec_and,
    UInt32.toBitVec_shiftRight, UInt32.toBitVec_ofNat, BitVec.getLsbD_or, BitVec.getLsbD_and,
    BitVec.shiftLeft_eq', BitVec.ushiftRight_eq', BitVec.getLsbD_shiftLeft,
    BitVec.getLsbD_ushiftRight, hmod (show shift < 32 by omega), hmod hshift, hseven, h127]
  -- a bit below the shift is clear; the next seven are the low group's, the others the rest's
  rcases Nat.lt_trichotomy i shift with hlt | rfl | hgt
  · simp [hlt, show i < shift + 7 by omega]
  · simp
  · by_cases hgroup : i < shift + 7
    · simp [hi, hgroup, show ¬ i < shift by omega, show i - shift < 7 by omega]
    · simp [hi, hgroup, show ¬ i < shift by omega, show ¬ i - shift < 7 by omega,
        show 7 + (i - (shift + 7)) = i - shift by omega]

end BinaryStream

namespace ReadOnlyBinaryStream

open BinaryStream

variable {s s' : ReadOnlyBinaryStream}

/-- The stream after `n` more bytes. -/
def advance (s : ReadOnlyBinaryStream) (n : ℕ) : ReadOnlyBinaryStream :=
  { s with mReadPointer := s.mReadPointer + n }

@[simp] theorem advance_advance (m n : ℕ) : (s.advance m).advance n = s.advance (m + n) := by
  simp only [advance, Nat.add_assoc]

/-- The first byte of the view is the one at the position. -/
theorem getElem?_of_view {b : UInt8} {rest : Bytes} (h : s.getLeftBufferView = b :: rest) :
    s.mBufferView[s.mReadPointer]? = some b := by
  have h0 : (s.mBufferView.drop s.mReadPointer)[0]? = some b := by
    rw [show s.mBufferView.drop s.mReadPointer = b :: rest from h]
    rfl
  rwa [List.getElem?_drop, Nat.add_zero] at h0

/-- What is left after a part of it was read. -/
theorem advance_view {bytes rest : Bytes} (h : s.getLeftBufferView = bytes ++ rest) :
    (s.advance bytes.length).getLeftBufferView = rest := by
  have hdrop : (s.mBufferView.drop s.mReadPointer).drop bytes.length = rest := by
    rw [show s.mBufferView.drop s.mReadPointer = bytes ++ rest from h, List.drop_left' rfl]
  rwa [List.drop_drop] at hdrop

/-- The next byte of a variable-length integer that is not refused. -/
theorem readVarIntGroups_byte {groups : ℕ} {value : UInt32} {b : UInt8} {rest : Bytes}
    (hview : s.getLeftBufferView = b :: rest)
    (hfits : ¬ (7 * (4 - groups) = 28 ∧ b &&& 0x80 = 0 ∧ b &&& 0x70 ≠ 0)) :
    s.readVarIntGroups value (groups + 1) =
      (let value := value ||| ((b &&& 0x7F).toUInt32 <<< UInt32.ofNat (7 * (4 - groups)))
       if b &&& 0x80 = 0 then (s.advance 1, .ok value)
       else (s.advance 1).readVarIntGroups value groups) := by
  rw [readVarIntGroups]
  simp only [getElem?_of_view hview, if_neg hfits]
  rfl

/-- The groups of a value are read back into the bits above those read so far. -/
theorem readVarIntGroups_write {groups : ℕ} (hgroups : groups < 5) {v value : UInt32} {rest : Bytes}
    (hv : v.toNat < 2 ^ (7 * groups + 4))
    (hview : s.getLeftBufferView = writeVarIntGroups (groups + 1) v ++ rest) :
    s.readVarIntGroups value (groups + 1) =
      (s.advance (writeVarIntGroups (groups + 1) v).length,
        .ok (value ||| v <<< UInt32.ofNat (7 * (4 - groups)))) := by
  have hlow : v.toNat % 128 < 128 := Nat.mod_lt _ (by decide)
  obtain ⟨hclear, hset, hgroup, hgroup', hsmall⟩ := groupByte _ hlow
  induction groups generalizing s v value with
  | zero =>
    have hzero : v >>> 7 = 0 := shiftRight_seven_eq_zero.mpr (by omega)
    have hval : v &&& 0x7F = v := by
      rw [lowGroup_toUInt32, Nat.mod_eq_of_lt (by omega)]
      exact UInt32.toNat_inj.mp (by rw [UInt32.toNat_ofNat']; omega)
    simp only [writeVarIntGroups, hzero, ne_eq, not_true_eq_false, if_false, lowGroup] at hview ⊢
    rw [readVarIntGroups_byte hview fun h => h.2.2 (hsmall (by omega)), if_pos hclear, hgroup,
      ← lowGroup_toUInt32, hval]
    rfl
  | succ groups ih =>
    have hfits : ¬ 7 * (4 - (groups + 1)) = 28 := by omega
    by_cases hzero : v >>> 7 = 0
    · -- the last group
      have hval : v &&& 0x7F = v := by
        have := shiftRight_seven_eq_zero.mp hzero
        rw [lowGroup_toUInt32, Nat.mod_eq_of_lt this]
        exact UInt32.toNat_inj.mp (by rw [UInt32.toNat_ofNat']; omega)
      simp only [writeVarIntGroups, hzero, ne_eq, not_true_eq_false, if_false, lowGroup] at hview ⊢
      rw [readVarIntGroups_byte hview fun h => hfits h.1, if_pos hclear, hgroup,
        ← lowGroup_toUInt32, hval]
      rfl
    · -- one group, and then those of the shifted number
      have hwrite : writeVarIntGroups (groups + 2) v =
          (UInt8.ofNat (v.toNat % 128) ||| 0x80) :: writeVarIntGroups (groups + 1) (v >>> 7) := by
        rw [writeVarIntGroups, ← lowGroup, if_pos hzero]
      have hrest : (v >>> 7).toNat < 2 ^ (7 * groups + 4) := by
        have hpow : 2 ^ (7 * (groups + 1) + 4) = 2 ^ (7 * groups + 4) * 128 := by
          rw [show 7 * (groups + 1) + 4 = 7 * groups + 4 + 7 by omega, Nat.pow_add]
        rwa [toNat_shiftRight_seven, Nat.div_lt_iff_lt_mul (by decide), ← hpow]
      have hnext := Nat.mod_lt (v >>> 7).toNat (show 0 < 128 by decide)
      obtain ⟨hclear', hset', hgroup₁, hgroup₂, hsmall'⟩ := groupByte _ hnext
      rw [hwrite] at hview ⊢
      have hview' : (s.advance 1).getLeftBufferView
          = writeVarIntGroups (groups + 1) (v >>> 7) ++ rest := by
        rw [List.cons_append, ← List.singleton_append] at hview
        exact advance_view hview
      rw [readVarIntGroups_byte hview fun h => hfits h.1, if_neg hset, hgroup',
        ih (by omega) hrest hview' hnext hclear' hset' hgroup₁ hgroup₂ hsmall',
        ← lowGroup_toUInt32, UInt32.or_assoc]
      have hshift : 7 * (4 - groups) = 7 * (4 - (groups + 1)) + 7 := by omega
      rw [hshift, or_groups v (by omega)]
      rw [advance_advance, List.length_cons, Nat.add_comm 1]

/-- **A written integer is read back.** -/
theorem readUnsignedVarInt_write {v : UInt32} {rest : Bytes}
    (hview : s.getLeftBufferView = writeUnsignedVarInt v ++ rest) :
    s.readUnsignedVarInt = (s.advance (writeUnsignedVarInt v).length, .ok v) := by
  have hgroups : 4 < 5 := by decide
  have hread : s.readVarIntGroups 0 5 = _ := readVarIntGroups_write hgroups v.toNat_lt hview
  simpa [readUnsignedVarInt, writeUnsignedVarInt] using hread

/-- Bytes are read from what is left. -/
theorem readBytes_view {bytes rest : Bytes} (hok : s.mHasOverflowed = false)
    (hview : s.getLeftBufferView = bytes ++ rest) :
    s.readBytes bytes.length = (s.advance bytes.length, .ok bytes) := by
  have hlen : s.mBufferView.length - s.mReadPointer = bytes.length + rest.length := by
    rw [← List.length_drop, ← List.length_append]
    exact congrArg List.length hview
  unfold readBytes
  rw [hok, if_neg Bool.false_ne_true]
  by_cases h0 : bytes.length = 0
  · rw [if_pos h0, h0, List.length_eq_zero_iff.mp h0]
    rfl
  · rw [if_neg h0, if_neg (by omega),
      show s.mBufferView.drop s.mReadPointer = bytes ++ rest from hview, List.take_left' rfl,
      advance, hok]

/-! ### Long strings -/

/-- One more byte below the others. -/
theorem toNat_shift_or (x : UInt32) (b : UInt8) :
    ((x <<< 8) ||| b.toUInt32).toNat = x.toNat * 256 % 2 ^ 32 + b.toNat := by
  have hb := b.toNat_lt
  have hshift : (x <<< 8).toNat = (x.toNat % 2 ^ 24) <<< 8 := by
    rw [UInt32.toNat_shiftLeft, Nat.shiftLeft_eq, Nat.shiftLeft_eq,
      show (8 : UInt32).toNat % 32 = 8 from rfl]
    omega
  rw [UInt32.toNat_or, UInt8.toNat_toUInt32, hshift,
    ← Nat.shiftLeft_add_eq_or_of_lt hb, Nat.shiftLeft_eq]
  omega

/-- The bytes of a value. -/
theorem toNat_byte (v : UInt32) {i : ℕ} (hi : i < 4) :
    ((v >>> (UInt32.ofNat i * 8)) &&& 0xff).toUInt8.toNat = v.toNat / 2 ^ (8 * i) % 256 := by
  have hshift : (UInt32.ofNat i * 8).toNat % 32 = 8 * i := by
    rw [UInt32.toNat_mul, UInt32.toNat_ofNat', show (8 : UInt32).toNat = 8 from rfl]
    omega
  rw [UInt32.toNat_toUInt8, UInt32.toNat_and, UInt32.toNat_shiftRight, hshift,
    Nat.shiftRight_eq_div_pow, show (0xff : UInt32).toNat = 2 ^ 8 - 1 from rfl,
    Nat.and_two_pow_sub_one_eq_mod]
  omega

/-- Four bytes in little-endian order are read back. -/
theorem ofLittleEndian_writeSignedInt (v : UInt32) : ofLittleEndian (writeSignedInt v) = v := by
  have hv := v.toNat_lt
  have hrange : List.range 4 = [0, 1, 2, 3] := rfl
  apply UInt32.toNat_inj.mp
  rw [writeSignedInt, hrange]
  simp (disch := omega) only [List.map_cons, List.map_nil, ofLittleEndian, List.foldr_cons,
    List.foldr_nil, toNat_shift_or, toNat_byte, UInt32.toNat_zero]
  omega

/-- An `int` has four bytes. -/
theorem writeSignedInt_length (v : UInt32) : (writeSignedInt v).length = 4 := rfl

/-- A written size is read back. -/
theorem readSignedInt_write {v : UInt32} {rest : Bytes} (hok : s.mHasOverflowed = false)
    (hview : s.getLeftBufferView = writeSignedInt v ++ rest) :
    s.readSignedInt = (s.advance 4, .ok v.toInt32) := by
  have hlen : s.mBufferView.length - s.mReadPointer = 4 + rest.length := by
    rw [← List.length_drop, ← writeSignedInt_length v, ← List.length_append]
    exact congrArg List.length hview
  have htake : (s.mBufferView.drop s.mReadPointer).take 4 = writeSignedInt v := by
    rw [show s.mBufferView.drop s.mReadPointer = writeSignedInt v ++ rest from hview]
    exact List.take_left' (writeSignedInt_length v)
  rw [readSignedInt, if_neg (by simp [hok]), if_neg (by omega), htake,
    ofLittleEndian_writeSignedInt]
  rfl

/-- Bytes that are there are read. -/
theorem readRawBytes_view {bytes rest : Bytes} (hview : s.getLeftBufferView = bytes ++ rest) :
    s.readRawBytes bytes.length = (s.advance bytes.length, .ok bytes) := by
  have hlen : s.mBufferView.length - s.mReadPointer = bytes.length + rest.length := by
    rw [← List.length_drop, ← List.length_append]
    exact congrArg List.length hview
  unfold readRawBytes
  by_cases h0 : bytes.length = 0
  · rw [if_pos h0, h0, List.length_eq_zero_iff.mp h0]
    rfl
  · rw [if_neg h0, if_neg (by omega), if_neg (by omega),
      show s.mBufferView.drop s.mReadPointer = bytes ++ rest from hview, List.take_left' rfl]
    rfl

/-- **A written string is read back** if its size is that of a positive 32-bit value. -/
theorem readLongString_write {value rest : Bytes} (hlt : value.length < 2 ^ 31)
    (hok : s.mHasOverflowed = false) (hview : s.getLeftBufferView = writeLongString value ++ rest) :
    s.readLongString = (s.advance (writeLongString value).length, .ok value) := by
  have hsize : (UInt32.ofNat value.length).toInt32.toInt = value.length := by
    rw [UInt32.toInt32_ofNat', Int32.toInt_ofNat_of_lt hlt]
  have hnonneg : ¬ (UInt32.ofNat value.length).toInt32 < 0 := by
    rw [Int32.lt_iff_toInt_lt, hsize]
    exact Int.not_lt.mpr (Int.natCast_nonneg _)
  rw [writeLongString, List.append_assoc] at hview
  have hrest : (s.advance 4).getLeftBufferView = value ++ rest := advance_view hview
  rw [readLongString, readSignedInt_write hok hview]
  simp only [if_neg hnonneg, hsize, Int.toNat_natCast]
  rw [readRawBytes_view hrest, advance_advance, writeLongString, List.length_append,
    writeSignedInt_length]

/-- Two written strings are read back one after the other. -/
theorem readLongString_two {first second : Bytes} (hfirst : first.length < 2 ^ 31)
    (hsecond : second.length < 2 ^ 31) :
    ∃ s₁ s₂ : ReadOnlyBinaryStream,
      (ofBuffer (writeLongString first ++ writeLongString second)).readLongString =
      (s₁, .ok first) ∧
        s₁.readLongString = (s₂, .ok second) := by
  have hview : (ofBuffer (writeLongString first ++ writeLongString second)).getLeftBufferView
      = writeLongString first ++ writeLongString second := rfl
  have hnext := (advance_view hview).trans (List.append_nil _).symm
  exact ⟨_, _, readLongString_write hfirst rfl hview, readLongString_write hsecond rfl hnext⟩

/-- What is read is shorter than `2 ^ 31`. -/
theorem readLongString_lt {value : Bytes} (h : s.readLongString = (s', .ok value)) :
    value.length < 2 ^ 31 := by
  unfold readLongString at h
  split at h
  · exact absurd (congrArg Prod.snd h) (by simp)
  · next s₁ length hlength =>
    split at h
    · exact absurd (congrArg Prod.snd h) (by simp)
    · -- the length is a signed number, so it has 31 bits
      have hlt := length.toInt_lt
      unfold readRawBytes at h
      split at h
      · cases h
        exact Nat.two_pow_pos _
      · split at h
        · exact absurd (congrArg Prod.snd h) (by simp [overflow])
        · split at h
          · exact absurd (congrArg Prod.snd h) (by simp [overflow])
          · cases h
            rw [List.length_take]
            omega

/-! ### How much a read takes -/

/-- A value of at most `k` groups is written in at most `k` bytes. -/
theorem writeVarIntGroups_length {groups k : ℕ} {v : UInt32} (hk : 1 ≤ k)
    (hv : v.toNat < 2 ^ (7 * k)) : (writeVarIntGroups groups v).length ≤ k := by
  induction groups generalizing k v with
  | zero => exact Nat.zero_le _
  | succ groups ih =>
    simp only [writeVarIntGroups]
    split
    · next hmore =>
      -- another group, so the value has more than seven bits
      have hbig : ¬ v.toNat < 128 := fun h => hmore (shiftRight_seven_eq_zero.mpr h)
      obtain ⟨j, rfl⟩ : ∃ j, k = j + 2 := by
        refine ⟨k - 2, ?_⟩
        by_contra hne
        rw [show k = 1 by omega] at hv
        omega
      have hrest : (v >>> 7).toNat < 2 ^ (7 * (j + 1)) := by
        rw [toNat_shiftRight_seven, Nat.div_lt_iff_lt_mul (by decide)]
        rwa [show 7 * (j + 2) = 7 * (j + 1) + 7 by omega, Nat.pow_add] at hv
      have := ih (by omega) hrest
      simp only [List.length_cons]
      omega
    · simpa using hk

/-- What was read fits the groups it took. -/
theorem readVarIntGroups_bound {groups : ℕ} (hgroups : groups ≤ 5) {value v : UInt32}
    (hvalue : value.toNat < 2 ^ (7 * (5 - groups)))
    (h : s.readVarIntGroups value groups = (s', .ok v)) :
    ∃ k, 1 ≤ k ∧ s'.left + k ≤ s.left ∧ v.toNat < 2 ^ (7 * (5 - groups + k)) := by
  induction groups generalizing s value with
  | zero => exact absurd (congrArg Prod.snd h) (by simp [readVarIntGroups, overflow])
  | succ groups ih =>
    simp only [readVarIntGroups] at h
    split at h
    · exact absurd (congrArg Prod.snd h) (by simp [overflow])
    · next byte hbyte =>
      have hlt := (List.getElem?_eq_some_iff.mp hbyte).1
      have hnext : ({ s with mReadPointer := s.mReadPointer + 1 } : ReadOnlyBinaryStream).left + 1
          ≤ s.left := by
        simp only [left]
        omega
      -- the group lands above the bits that are there already
      have hmore : (value ||| (byte &&& 0x7F).toUInt32 <<< UInt32.ofNat (7 * (4 - groups))).toNat
          < 2 ^ (7 * (5 - groups)) := by
        have hgroup : (byte &&& 0x7F).toNat < 2 ^ 7 := by
          rw [UInt8.toNat_and]
          exact Nat.and_lt_two_pow _ (by decide)
        have hpow : 2 ^ (7 * (5 - groups)) = 2 ^ (7 * (4 - groups)) * 2 ^ 7 := by
          rw [← Nat.pow_add]
          congr 1
          omega
        rw [UInt32.toNat_or]
        refine Nat.or_lt_two_pow
          (Nat.lt_of_lt_of_le hvalue (Nat.pow_le_pow_right (by decide) (by omega))) ?_
        rw [UInt32.toNat_shiftLeft, UInt8.toNat_toUInt32, Nat.shiftLeft_eq]
        refine Nat.lt_of_le_of_lt (Nat.mod_le _ _) ?_
        have hshift : (UInt32.ofNat (7 * (4 - groups))).toNat % 32 = 7 * (4 - groups) := by
          rw [UInt32.toNat_ofNat']
          omega
        rw [hshift, hpow, Nat.mul_comm]
        exact Nat.mul_lt_mul_of_pos_left hgroup (Nat.two_pow_pos _)
      split at h
      · exact absurd (congrArg Prod.snd h) (by simp [overflow])
      · split at h
        · cases h
          -- the last group of the number
          refine ⟨1, Nat.le_refl _, hnext, ?_⟩
          rwa [show 5 - (groups + 1) + 1 = 5 - groups by omega]
        · -- the groups after it, and this one
          obtain ⟨k, hk, hleft, hv⟩ := ih (by omega) hmore h
          refine ⟨k + 1, by omega, by omega, ?_⟩
          rwa [show 5 - (groups + 1) + (k + 1) = 5 - groups + k by omega]

/-- **No integer is read from fewer bytes than it is written in.** -/
theorem readUnsignedVarInt_length {v : UInt32} (h : s.readUnsignedVarInt = (s', .ok v)) :
    s'.left + (writeUnsignedVarInt v).length ≤ s.left := by
  obtain ⟨k, hk, hleft, hv⟩ := readVarIntGroups_bound (by decide) (by decide) h
  have hwrite : (writeVarIntGroups 5 v).length ≤ k :=
    writeVarIntGroups_length hk (by simpa using hv)
  rw [writeUnsignedVarInt]
  omega

/-- As many bytes are read as are asked for. -/
theorem readBytes_length {num : ℕ} {bytes : Bytes} (h : s.readBytes num = (s', .ok bytes)) :
    bytes.length = num ∧ s'.left + num ≤ s.left := by
  unfold readBytes at h
  split at h
  · exact absurd (congrArg Prod.snd h) (by simp)
  · split at h
    · next h0 => cases h; exact ⟨h0.symm, by omega⟩
    · split at h
      · exact absurd (congrArg Prod.snd h) (by simp [overflow])
      · cases h
        simp only [left, List.length_take, List.length_drop]
        omega

end ReadOnlyBinaryStream
end SculkProtocol
