import Mathlib.Data.Fintype.Basic
import Mathlib.Data.Nat.Size
import SculkProtocol.Utility.Readers

/-!
# Bitsets

A bitset is written in chunks of seven bits, lowest first, up to the one with its highest bit;
every chunk but the last has the eighth bit set. What is written is read back
(`accepts_readBitset`), into a bitset of at least one bit.
-/

namespace SculkProtocol

open Decoder

/-- `std::bitset<N>` -/
abbrev Bitset (N : ℕ) := Fin N → Bool

variable {N : ℕ}

/-- A bit, if the bitset has it. -/
def Bitset.test (bitset : Bitset N) (i : ℕ) : Bool := if h : i < N then bitset ⟨i, h⟩ else false

namespace BinaryStream

/-- The seven bits from `bitIndex` on. -/
def chunk (bitset : Bitset N) (bitIndex : ℕ) : UInt8 :=
  (List.range 7).foldl (fun byte i => if bitset.test (bitIndex + i) then byte |||
    (1 <<< UInt8.ofNat i) else byte) 0

/-- The loop of `writeBitset`. -/
def writeChunks (bitset : Bitset N) (bitIndex : ℕ) : Bytes :=
  if h : ∃ k : Fin N, bitIndex + 7 ≤ k ∧ bitset k = true then
    (chunk bitset bitIndex ||| 0x80) :: writeChunks bitset (bitIndex + 7)
  else [chunk bitset bitIndex]
termination_by N - bitIndex
decreasing_by
  obtain ⟨k, hk, -⟩ := h
  exact Nat.sub_lt_sub_left (Nat.lt_of_le_of_lt (Nat.le_of_add_right_le hk) k.isLt)
    (Nat.lt_add_of_pos_right (by decide))

def writeBitset (bitset : Bitset N) : Bytes :=
  if ∀ k, bitset k = false then writeByte 0 else writeChunks bitset 0

end BinaryStream

/-- Set the flag and fail. -/
def StreamRead.overflow {α : Type} (message : String) : StreamRead α := fun s => s.overflow message

namespace ReadOnlyBinaryStream

/-- A failure sets the flag, whatever it was. -/
def overflowing {α : Type} (message : String) (d : StreamRead α) : StreamRead α := fun s =>
  match d s with
  | (s, .ok a) => (s, .ok a)
  | (s, .error _) => s.overflow message

/-- The number of bits that a value needs. -/
def bitLength8 (value : UInt8) : ℕ := Nat.size value.toNat

/-- The seven bits of a byte, as far as the bitset has them. -/
def setChunk (outBitset : Bitset N) (bitIndex : ℕ) (byte : UInt8) : Bitset N := fun k =>
  if bitIndex ≤ k ∧ k < bitIndex + 7 then byte &&& (1 <<< UInt8.ofNat (k - bitIndex)) ≠ 0
  else outBitset k

/-- The loop of `readBitset`. -/
def readChunks (bitIndex chunkCount : ℕ) (seenSetBit : Bool) (outBitset : Bitset N) :
    StreamRead (Bitset N) :=
  if h : bitIndex < N then do
    let byte ← overflowing "ReadOnlyBinaryStream::readBitset overflowed" readByte
    -- the continuation bit is one of the bits that have to fit
    if bitIndex + bitLength8 byte > N then
      StreamRead.overflow "ReadOnlyBinaryStream::readBitset overflowed"
    else
      let chunkCount := chunkCount + 1
      let payload := byte &&& 0x7F
      let seenSetBit := seenSetBit || payload ≠ 0
      let outBitset := setChunk outBitset bitIndex byte
      if byte &&& 0x80 = 0 then
        -- an empty bitset is a single chunk, and the last chunk of any other is not 0
        if !seenSetBit && chunkCount ≠ 1 then
          StreamRead.overflow "ReadOnlyBinaryStream::readBitset overflowed"
        else if seenSetBit && payload = 0 then
          StreamRead.overflow "ReadOnlyBinaryStream::readBitset overflowed"
        else pure outBitset
      else readChunks (bitIndex + 7) chunkCount seenSetBit outBitset
  else StreamRead.overflow "ReadOnlyBinaryStream::readBitset overflowed"
termination_by N - bitIndex

def readBitset : StreamRead (Bitset N) := readChunks 0 0 false fun _ => false

end ReadOnlyBinaryStream

/-! ### Chunks -/

open BinaryStream ReadOnlyBinaryStream

/-- Seven bits put together. -/
def packBits (b₀ b₁ b₂ b₃ b₄ b₅ b₆ : Bool) : UInt8 :=
  ([(b₀, 0), (b₁, 1), (b₂, 2), (b₃, 3), (b₄, 4), (b₅, 5), (b₆, 6)] : List (Bool × ℕ)).foldl
    (fun byte b => if b.1 then byte ||| (1 <<< UInt8.ofNat b.2) else byte) 0

/-- The bits are found again, with and without the eighth bit. -/
theorem packBits_bits :
    ∀ b₀ b₁ b₂ b₃ b₄ b₅ b₆ : Bool, ∀ high : UInt8, high = 0 ∨ high = 0x80 → ∀ i : Fin 7,
    decide ((packBits b₀ b₁ b₂ b₃ b₄ b₅ b₆ ||| high) &&& (1 <<< UInt8.ofNat i) ≠ 0) =
      [b₀, b₁, b₂, b₃, b₄, b₅, b₆].get i := by
  have hbits : ∀ b₀ b₁ b₂ b₃ b₄ b₅ b₆ last : Bool, ∀ i : Fin 7,
      decide ((packBits b₀ b₁ b₂ b₃ b₄ b₅ b₆ ||| (if last then 0x80 else 0 : UInt8)) &&&
        (1 <<< UInt8.ofNat i) ≠ 0) =
        [b₀, b₁, b₂, b₃, b₄, b₅, b₆].get i := by
    decide +kernel
  rintro b₀ b₁ b₂ b₃ b₄ b₅ b₆ _ (rfl | rfl)
  · exact hbits b₀ b₁ b₂ b₃ b₄ b₅ b₆ false
  · exact hbits b₀ b₁ b₂ b₃ b₄ b₅ b₆ true

/-- Seven bits leave the highest one free. -/
theorem packBits_high : ∀ b₀ b₁ b₂ b₃ b₄ b₅ b₆ : Bool, packBits b₀ b₁ b₂ b₃ b₄ b₅ b₆ &&& 0x80 = 0 ∧
    (packBits b₀ b₁ b₂ b₃ b₄ b₅ b₆ ||| 0x80) &&& 0x80 ≠ 0 ∧
    packBits b₀ b₁ b₂ b₃ b₄ b₅ b₆ &&& 0x7F = packBits b₀ b₁ b₂ b₃ b₄ b₅ b₆ := by
  decide +kernel

/-- A chunk without its upper bits is small. -/
theorem packBits_lt : ∀ b₀ b₁ b₂ b₃ b₄ b₅ b₆ : Bool, ∀ n : Fin 8,
    (∀ i : Fin 7, (n : ℕ) ≤ i → [b₀, b₁, b₂, b₃, b₄, b₅, b₆].get i = false) →
      (packBits b₀ b₁ b₂ b₃ b₄ b₅ b₆).toNat < 2 ^ (n : ℕ) := by
  decide +kernel

section

variable {bitset : Bitset N} {bitIndex : ℕ}

/-- A chunk is the next seven bits. -/
theorem chunk_eq :
    chunk bitset bitIndex = packBits (bitset.test bitIndex) (bitset.test (bitIndex + 1))
    (bitset.test (bitIndex + 2)) (bitset.test (bitIndex + 3)) (bitset.test (bitIndex + 4))
    (bitset.test (bitIndex + 5)) (bitset.test (bitIndex + 6)) := rfl

/-- Each of them is found by its index. -/
theorem get_tests (i : Fin 7) :
    [bitset.test bitIndex, bitset.test (bitIndex + 1), bitset.test (bitIndex + 2),
    bitset.test (bitIndex + 3), bitset.test (bitIndex + 4), bitset.test (bitIndex + 5),
    bitset.test (bitIndex + 6)].get i = bitset.test (bitIndex + i) :=
  match i with
  | 0 | 1 | 2 | 3 | 4 | 5 | 6 => rfl

/-- What a chunk sets are the bits that it was made of. -/
theorem setChunk_chunk {high : UInt8} (hhigh : high = 0 ∨ high = 0x80) (outBitset : Bitset N)
    (k : Fin N) :
    setChunk outBitset bitIndex (chunk bitset bitIndex ||| high) k =
      if bitIndex ≤ k ∧ k < bitIndex + 7 then bitset k else outBitset k := by
  unfold setChunk
  split
  · next hk =>
    have hbit : (k : ℕ) - bitIndex < 7 := by omega
    have hbits :=
      packBits_bits (bitset.test bitIndex) (bitset.test (bitIndex + 1)) (bitset.test (bitIndex + 2))
      (bitset.test (bitIndex + 3)) (bitset.test (bitIndex + 4)) (bitset.test (bitIndex + 5))
      (bitset.test (bitIndex + 6)) high hhigh ⟨k - bitIndex, hbit⟩
    rw [get_tests, ← chunk_eq] at hbits
    refine hbits.trans ?_
    have hindex : bitIndex + (k - bitIndex) = k := by omega
    simp only [hindex, Bitset.test, dif_pos k.isLt]
  · rfl

/-- A chunk has no bits that the bitset does not have. -/
theorem chunk_lt {n : ℕ} (hn : n ≤ 7)
    (h : ∀ i, n ≤ i → i < 7 → bitset.test (bitIndex + i) = false) :
    (chunk bitset bitIndex).toNat < 2 ^ n := by
  rw [chunk_eq]
  refine packBits_lt _ _ _ _ _ _ _ ⟨n, Nat.lt_succ_of_le hn⟩ fun i hi => ?_
  rw [get_tests]
  exact h i hi i.isLt

/-- There are no bits beyond the last one. -/
theorem test_of_le {i : ℕ} (h : N ≤ i) : bitset.test i = false := dif_neg (Nat.not_lt.mpr h)

/-- A chunk with a bit is not 0. -/
theorem chunk_ne_zero {k : Fin N} (hk : bitIndex ≤ k ∧ k < bitIndex + 7) (hset : bitset k = true) :
    chunk bitset bitIndex ≠ 0 := by
  intro hzero
  have hbit := @setChunk_chunk N bitset bitIndex 0 (.inl rfl) (fun _ => false) k
  rw [if_pos hk, hset, hzero, setChunk, if_pos hk] at hbit
  simp at hbit

/-- A chunk has no bit beyond the last one. -/
theorem bitLength8_chunk : bitIndex + bitLength8 (chunk bitset bitIndex) ≤ N ∨ N < bitIndex := by
  rcases Nat.lt_or_ge N bitIndex with h | h
  · exact Or.inr h
  · have hlength : Nat.size (chunk bitset bitIndex).toNat ≤ min 7 (N - bitIndex) := by
      rw [Nat.size_le]
      exact chunk_lt (Nat.min_le_left ..) fun i hi hlt => test_of_le (by omega)
    left
    show bitIndex + Nat.size _ ≤ N
    omega

end

/-! ### Round trip -/

open StreamRead

/-- A byte is accepted whatever the error is called. -/
theorem accepts_overflowing_readByte (message : String) (byte : UInt8) :
    Accepts (overflowing message readByte) [byte] byte := by
  have hread : Accepts readByte [byte] byte := recognises_readByte.accepts rfl
  intro s rest hs hrest
  simp only [overflowing, hread s rest hs hrest]

/-- A round of the loop, once its byte is read. -/
theorem accepts_readChunks_step {bitIndex chunkCount : ℕ} {seenSetBit : Bool}
    {outBitset bitset : Bitset N}
    {byte : UInt8} {bs : Bytes} (hlt : bitIndex < N) (hfits : bitIndex + bitLength8 byte ≤ N)
    (h : let payload := byte &&& 0x7F
      let seenSetBit := seenSetBit || payload ≠ 0
      let outBitset := setChunk outBitset bitIndex byte
      if byte &&& 0x80 = 0 then
        (seenSetBit || chunkCount = 0) ∧ (seenSetBit → payload ≠ 0) ∧ bs = [] ∧ outBitset = bitset
      else Accepts (readChunks (bitIndex + 7) (chunkCount + 1) seenSetBit outBitset) bs bitset) :
    Accepts (readChunks bitIndex chunkCount seenSetBit outBitset) (byte :: bs) bitset := by
  unfold readChunks
  refine (dif_pos hlt).symm ▸ (accepts_overflowing_readByte _ byte).bind ?_
  rw [if_neg (Nat.not_lt.mpr hfits)]
  split at h
  · next hclear =>
    -- the last chunk: neither check of the reader fails
    obtain ⟨hseen, hpayload, rfl, rfl⟩ := h
    simp only [if_pos hclear]
    have hfirst : ¬ (!(seenSetBit || byte &&& 0x7F ≠ 0) && chunkCount + 1 ≠ 1) := by
      simp_all
      grind
    have hlast : ¬ ((seenSetBit || byte &&& 0x7F ≠ 0) && byte &&& 0x7F = 0) := by simp_all
    rw [if_neg hfirst, if_neg hlast]
    exact accepts_pure _
  · next hcontinued =>
    simp only [if_neg hcontinued]
    exact h

/-- The chunks from one place on, which some bit is not before. -/
theorem accepts_readChunks {bitset : Bitset N} {bitIndex chunkCount : ℕ} {seenSetBit : Bool}
    {outBitset : Bitset N}
    (hmore : ∃ k : Fin N, bitIndex ≤ k ∧ bitset k = true)
    (hout : ∀ k : Fin N, outBitset k = if (k : ℕ) < bitIndex then bitset k else false) :
    Accepts (readChunks bitIndex chunkCount seenSetBit outBitset) (writeChunks bitset bitIndex)
      bitset := by
  obtain ⟨k, hk, hset⟩ := hmore
  have hlt : bitIndex < N := Nat.lt_of_le_of_lt hk k.isLt
  fun_induction writeChunks bitset bitIndex generalizing chunkCount seenSetBit outBitset k with
  | case1 bitIndex hhigher ih =>
    obtain ⟨k', hk', hset'⟩ := hhigher
    -- a chunk that is followed by another one fits with its continuation bit, since `k'` comes
    -- behind it
    have hlength : bitLength8 (chunk bitset bitIndex ||| 0x80) ≤ 8 :=
      Nat.size_le.mpr (UInt8.toNat_lt _)
    have hlt' := k'.isLt
    have hcontinued : ¬ (chunk bitset bitIndex ||| 0x80) &&& 0x80 = 0 := by
      rw [chunk_eq]
      exact (packBits_high ..).2.1
    refine accepts_readChunks_step hlt (by omega) ?_
    simp only [if_neg hcontinued]
    refine ih (fun k => ?_) k' hk' hset' (Nat.lt_of_le_of_lt hk' hlt')
    rw [setChunk_chunk (Or.inr rfl), hout]
    grind
  | case2 bitIndex hlast =>
    have hbits : (k : ℕ) < bitIndex + 7 := Nat.lt_of_not_le fun h => hlast ⟨k, h, hset⟩
    obtain ⟨hclear, -, hpayload⟩ : chunk bitset bitIndex &&& 0x80 = 0 ∧ _ ∧
        chunk bitset bitIndex &&& 0x7F = chunk bitset bitIndex := by
      rw [chunk_eq]
      exact packBits_high ..
    have hsome : chunk bitset bitIndex ≠ 0 := chunk_ne_zero ⟨hk, hbits⟩ hset
    have hresult : setChunk outBitset bitIndex (chunk bitset bitIndex) = bitset := by
      funext k
      have hzero : chunk bitset bitIndex ||| 0 = chunk bitset bitIndex := UInt8.or_zero
      rw [← hzero, setChunk_chunk (Or.inl rfl), hout]
      split
      · rfl
      · split
        · rfl
        · -- no bit is set behind the last chunk
          have hno : bitset k ≠ true := fun h => hlast ⟨k, by omega, h⟩
          exact (Bool.eq_false_iff.mpr hno).symm
    refine accepts_readChunks_step hlt
      (bitLength8_chunk.resolve_right (Nat.not_lt.mpr (Nat.le_of_lt hlt))) ?_
    simp [hclear, hpayload, hsome, hresult]

/-- **A written bitset is read back.** -/
theorem accepts_readBitset (hN : 0 < N) (bitset : Bitset N) :
    Accepts readBitset (writeBitset bitset) bitset := by
  unfold writeBitset readBitset
  split
  · next hnone =>
    have hsize : bitLength8 0 = 0 := Nat.size_zero
    have hresult : setChunk (fun _ => false) 0 0 = bitset := by
      funext k
      rw [hnone k]
      simp [setChunk]
    exact accepts_readChunks_step hN (by simp [hsize]) (by simp [hresult])
  · next hsome =>
    obtain ⟨k, hk⟩ : ∃ k, bitset k = true := by simpa using hsome
    exact accepts_readChunks ⟨k, Nat.zero_le _, hk⟩ fun k => rfl

end SculkProtocol
