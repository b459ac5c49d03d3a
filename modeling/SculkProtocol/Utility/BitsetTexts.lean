import SculkProtocol.Utility.CursorStream

/-!
# The texts of bitsets

A bitset of at least one bit has one text, which is the one that is written of it:
`recognises_readBitset` says that nothing else is read. A chunk that is read holds no bit that the
bitset does not have (`chunk_setChunk`), and a last chunk of zeros is refused unless it is the only
one.
-/

namespace SculkProtocol

open Decoder BinaryStream ReadOnlyBinaryStream

variable {N : ℕ}

/-! ### Chunks -/

/-- What holds of 256 numbers holds of every byte. -/
theorem forall_byte {P : UInt8 → Prop} (h : ∀ n < 256, P (UInt8.ofNat n)) (byte : UInt8) :
    P byte := by
  have hbyte := h byte.toNat byte.toNat_lt
  rwa [UInt8.ofNat_toNat] at hbyte

/-- A byte is its payload, with the eighth bit or without it. -/
theorem payload_cases (byte : UInt8) :
    (byte &&& 0x80 = 0 ∧ byte &&& 0x7F = byte) ∨
    (byte &&& 0x80 ≠ 0 ∧ (byte &&& 0x7F) ||| 0x80 = byte) := by
  revert byte
  exact forall_byte (by decide +kernel)

/-- The seven bits of a byte, put together again. -/
theorem packBits_of_bits (byte : UInt8) :
    packBits (byte &&& (1 <<< UInt8.ofNat 0) ≠ 0) (byte &&& (1 <<< UInt8.ofNat 1) ≠ 0)
      (byte &&& (1 <<< UInt8.ofNat 2) ≠ 0) (byte &&& (1 <<< UInt8.ofNat 3) ≠ 0)
      (byte &&& (1 <<< UInt8.ofNat 4) ≠ 0) (byte &&& (1 <<< UInt8.ofNat 5) ≠ 0)
      (byte &&& (1 <<< UInt8.ofNat 6) ≠ 0) = byte &&& 0x7F := by
  revert byte
  exact forall_byte (by decide +kernel)

/-- A byte has no bit from its length on. -/
theorem bit_eq_zero {byte : UInt8} {i : ℕ} (hi : i < 7) (h : bitLength8 byte ≤ i) :
    byte &&& (1 <<< UInt8.ofNat i) = 0 := by
  have hall : ∀ n < 256, ∀ i < 7, n < 2 ^ i → UInt8.ofNat n &&& (1 <<< UInt8.ofNat i) = 0 := by
    decide +kernel
  have hbyte := hall byte.toNat byte.toNat_lt i hi (Nat.size_le.mp h)
  rwa [UInt8.ofNat_toNat] at hbyte

/-- A payload that is not 0 has a bit. -/
theorem exists_bit (byte : UInt8) :
    byte &&& 0x7F ≠ 0 → ∃ i < 7, byte &&& (1 <<< UInt8.ofNat i) ≠ 0 := by
  revert byte
  exact forall_byte (by decide +kernel)

section

variable {bitset outBitset : Bitset N} {bitIndex : ℕ} {byte : UInt8}

/-- The bits of a chunk that was read are those of its byte. -/
theorem test_setChunk (hfits : bitIndex + bitLength8 byte ≤ N) {i : ℕ} (hi : i < 7)
    (hbits : ∀ k : Fin N, bitIndex ≤ k → (k : ℕ) < bitIndex + 7 →
      bitset k = setChunk outBitset bitIndex byte k) :
    bitset.test (bitIndex + i) = decide (byte &&& (1 <<< UInt8.ofNat i) ≠ 0) := by
  by_cases hN : bitIndex + i < N
  · rw [Bitset.test, dif_pos hN, hbits ⟨_, hN⟩ (Nat.le_add_right ..) (Nat.add_lt_add_left hi _),
      setChunk, if_pos ⟨Nat.le_add_right .., Nat.add_lt_add_left hi _⟩, Nat.add_sub_cancel_left]
  · -- the byte is shorter than that
    rw [Bitset.test, dif_neg hN, bit_eq_zero hi (by omega)]
    rfl

/-- Bits that are set are found in their chunk. -/
theorem chunk_setChunk (hfits : bitIndex + bitLength8 byte ≤ N)
    (hbits : ∀ k : Fin N, bitIndex ≤ k → (k : ℕ) < bitIndex + 7 →
      bitset k = setChunk outBitset bitIndex byte k) :
    chunk bitset bitIndex = byte &&& 0x7F := by
  have hfirst := test_setChunk hfits (i := 0) (by decide) hbits
  rw [Nat.add_zero] at hfirst
  rw [chunk_eq, hfirst, test_setChunk hfits (by decide) hbits,
    test_setChunk hfits (by decide) hbits, test_setChunk hfits (by decide) hbits,
    test_setChunk hfits (by decide) hbits, test_setChunk hfits (by decide) hbits,
    test_setChunk hfits (by decide) hbits]
  exact packBits_of_bits byte

end

/-! ### The loop -/

/-- An overflow yields nothing. -/
theorem yields_overflow {α : Type} {L : Bytes → α → Prop} (message : String) :
    Yields (StreamRead.overflow message : StreamRead α) L :=
  fun _ _ _ _ h => absurd h overflow_eq_ok

/-- A byte has one text, whatever the error is called. -/
theorem yields_overflowing_readByte (message : String) :
    Yields (overflowing message readByte) fun bs byte => bs = [byte] := by
  intro s s' byte hs h
  unfold overflowing at h
  split at h
  · next t b hread =>
    cases h
    exact recognises_readByte.yields s s' byte hs hread
  · exact absurd h overflow_eq_ok

/-- What the loop reads from one place on: the chunks of a bitset that has a bit there, or, in the
first round, a single chunk of zeros. -/
def IsChunks (bitIndex chunkCount : ℕ) (seenSetBit : Bool) (outBitset : Bitset N) (bs : Bytes)
    (bitset : Bitset N) : Prop :=
  (∀ k : Fin N, (k : ℕ) < bitIndex → bitset k = outBitset k) ∧
  (((∃ k : Fin N, bitIndex ≤ k ∧ bitset k = true) ∧ bs = writeChunks bitset bitIndex) ∨
    (chunkCount = 0 ∧ seenSetBit = false ∧ bs = [0] ∧ ∀ k : Fin N, bitIndex ≤ k → bitset k = false))

section

variable {bitIndex chunkCount : ℕ} {seenSetBit : Bool} {outBitset bitset : Bitset N} {byte : UInt8}

/-- A chunk without the eighth bit is the last one. -/
theorem isChunks_last (hfits : bitIndex + bitLength8 byte ≤ N) (hclear : byte &&& 0x80 = 0)
    (hout : ∀ k : Fin N, bitIndex ≤ k → outBitset k = false)
    (hfirst : ¬ (!(seenSetBit || decide (byte &&& 0x7F ≠ 0)) && decide (chunkCount + 1 ≠ 1)) = true)
    (hlast : ¬ ((seenSetBit || decide (byte &&& 0x7F ≠ 0)) && decide (byte &&& 0x7F = 0)) = true) :
    IsChunks bitIndex chunkCount seenSetBit outBitset [byte]
      (setChunk outBitset bitIndex byte) := by
  have hbyte : byte &&& 0x7F = byte :=
    (payload_cases byte).elim And.right fun h => absurd hclear h.1
  -- the loop has set no bit from here on
  have hbehind : ∀ k : Fin N, bitIndex + 7 ≤ k → setChunk outBitset bitIndex byte k = false := by
    intro k hk
    rw [setChunk, if_neg (by omega)]
    exact hout k (by omega)
  refine ⟨fun k hk => by rw [setChunk, if_neg (by omega)], ?_⟩
  -- a last chunk of zeros is the only one, as `hfirst` and `hlast` leave no other
  by_cases hpayload : byte &&& 0x7F = 0
  · have hzero : byte = 0 := hbyte.symm.trans hpayload
    have hseen : seenSetBit = false := by simpa [hpayload] using hlast
    have hcount : chunkCount = 0 := by simpa [hpayload, hseen] using hfirst
    refine .inr ⟨hcount, hseen, by rw [hzero], fun k hk => ?_⟩
    by_cases hin : (k : ℕ) < bitIndex + 7
    · rw [setChunk, if_pos ⟨hk, hin⟩, hzero]
      simp
    · exact hbehind k (Nat.le_of_not_lt hin)
  · -- a bit of the payload is one of the bitset, behind which the writer stops
    obtain ⟨i, hi, hbit⟩ := exists_bit byte hpayload
    have hN : bitIndex + i < N := by
      by_contra hN
      exact hbit (bit_eq_zero hi (by omega))
    refine .inl ⟨⟨⟨bitIndex + i, hN⟩, Nat.le_add_right .., ?_⟩, ?_⟩
    · rw [setChunk, if_pos ⟨Nat.le_add_right .., Nat.add_lt_add_left hi _⟩, Nat.add_sub_cancel_left]
      exact decide_eq_true hbit
    · have hno : ¬ ∃ k : Fin N, bitIndex + 7 ≤ k ∧ setChunk outBitset bitIndex byte k = true := by
        rintro ⟨k, hk, hset⟩
        rw [hbehind k hk] at hset
        exact Bool.false_ne_true hset
      rw [writeChunks, dif_neg hno, chunk_setChunk hfits fun _ _ _ => rfl, hbyte]

/-- A chunk with the eighth bit is followed by others, with a bit behind it. -/
theorem isChunks_more {bs : Bytes} (hfits : bitIndex + bitLength8 byte ≤ N)
    (hset : byte &&& 0x80 ≠ 0) {seen : Bool}
    (h : IsChunks (bitIndex + 7) (chunkCount + 1) seen (setChunk outBitset bitIndex byte)
      bs bitset) :
    IsChunks bitIndex chunkCount seenSetBit outBitset (byte :: bs) bitset := by
  have hbyte : (byte &&& 0x7F) ||| 0x80 = byte :=
    (payload_cases byte).elim (fun h => absurd h.1 hset) And.right
  obtain ⟨hsame, ⟨⟨k, hk, hbit⟩, rfl⟩ | ⟨hcount, -⟩⟩ := h
  · refine ⟨fun k hk => ?_, .inl ⟨⟨k, by omega, hbit⟩, ?_⟩⟩
    · rw [hsame k (by omega), setChunk, if_neg (by omega)]
    · -- the rounds that follow do not change this chunk
      rw [writeChunks.eq_1 bitset bitIndex, dif_pos ⟨k, hk, hbit⟩,
        chunk_setChunk hfits fun k _ hk => hsame k hk, hbyte]
  · -- a single chunk of zeros is read in the first round only
    exact absurd hcount (Nat.succ_ne_zero chunkCount)

/-- Chunks have their texts one behind the other. -/
theorem yields_readChunks (hout : ∀ k : Fin N, bitIndex ≤ k → outBitset k = false) :
    Yields (readChunks bitIndex chunkCount seenSetBit outBitset)
      (IsChunks bitIndex chunkCount seenSetBit outBitset) := by
  -- with the loop: `hout` says that it has set no bit from its place on
  fun_induction readChunks bitIndex chunkCount seenSetBit outBitset with
  | case1 bitIndex chunkCount seenSetBit outBitset hlt ih =>
    refine ((yields_overflowing_readByte _).bind (M := fun byte bs bitset =>
      IsChunks bitIndex chunkCount seenSetBit outBitset (byte :: bs) bitset)
        fun _ byte _ => ?_).mono ?_
    · split
      · -- a bit that the bitset does not have
        exact yields_overflow _
      · next hfits =>
        rw [Nat.not_lt] at hfits
        dsimp only
        split
        · next hclear =>
          split
          · exact yields_overflow _
          · next hfirst =>
            split
            · exact yields_overflow _
            · next hlast =>
              refine (yields_pure _).mono fun bs bitset => ?_
              rintro ⟨rfl, rfl⟩
              exact isChunks_last hfits hclear hout hfirst hlast
        · next hset =>
          refine (ih byte fun k hk => ?_).mono fun bs bitset h => isChunks_more hfits hset h
          rw [setChunk, if_neg (by omega)]
          exact hout k (by omega)
    · rintro bs bitset ⟨_, bs₂, byte, rfl, rfl, h⟩
      exact h
  | case2 => exact yields_overflow _

end

/-- **A bitset has one text.** -/
theorem recognises_readBitset (hN : 0 < N) :
    Recognises readBitset fun bs (bitset : Bitset N) => bs = writeBitset bitset where
  yields := by
    refine (yields_readChunks fun _ _ => rfl).mono fun bs bitset => ?_
    rintro ⟨-, ⟨⟨k, -, hbit⟩, rfl⟩ | ⟨-, -, rfl, hnone⟩⟩
    · have hsome : ¬ ∀ k, bitset k = false := fun h => Bool.false_ne_true ((h k).symm.trans hbit)
      rw [writeBitset, if_neg hsome]
    · rw [writeBitset, if_pos fun k => hnone k (Nat.zero_le _)]
      rfl
  accepts := by
    rintro _ bitset rfl
    exact accepts_readBitset hN bitset

/-! ### Bits that are written -/

section

variable {bitset : Bitset N} {i j : ℕ}

/-- The bits of a chunk are those of the bitset. -/
theorem lt_of_bit_chunk {bitIndex : ℕ} {high : UInt8} (hhigh : high = 0 ∨ high = 0x80) (hi : i < 7)
    (hbit : (chunk bitset bitIndex ||| high) &&& (1 <<< UInt8.ofNat i) ≠ 0) : bitIndex + i < N := by
  -- the eighth bit is not of the bitset
  have hbits :=
    packBits_bits (bitset.test bitIndex) (bitset.test (bitIndex + 1)) (bitset.test (bitIndex + 2))
    (bitset.test (bitIndex + 3)) (bitset.test (bitIndex + 4)) (bitset.test (bitIndex + 5))
    (bitset.test (bitIndex + 6)) high hhigh ⟨i, hi⟩
  rw [get_tests, ← chunk_eq, decide_eq_true hbit] at hbits
  by_contra hN
  rw [test_of_le (Nat.le_of_not_lt hN)] at hbits
  exact Bool.false_ne_true hbits.symm

/-- No bit that is written is beyond the last one. -/
theorem lt_of_bit_writeChunks {bitIndex : ℕ} (hi : i < 7)
    (hbit : (writeChunks bitset bitIndex).getD j 0 &&& (1 <<< UInt8.ofNat i) ≠ 0) :
    bitIndex + 7 * j + i < N := by
  fun_induction writeChunks bitset bitIndex generalizing j with
  | case1 bitIndex hmore ih =>
    cases j with
    | zero => exact lt_of_bit_chunk (.inr rfl) hi hbit
    | succ j =>
      have hrest := ih hbit
      omega
  | case2 bitIndex hlast =>
    cases j with
    -- the last chunk has no eighth bit
    | zero =>
      rw [← UInt8.or_zero (a := chunk bitset bitIndex)] at hbit
      exact lt_of_bit_chunk (.inl rfl) hi hbit
    | succ j =>
      -- there is no such byte
      exact absurd (UInt8.zero_and) hbit

/-- Of the bits that are written, only those of the bitset are set. -/
theorem lt_of_bit_writeBitset (hi : i < 7)
    (hbit : (writeBitset bitset).getD j 0 &&& (1 <<< UInt8.ofNat i) ≠ 0) : 7 * j + i < N := by
  unfold writeBitset at hbit
  split at hbit
  · cases j with
    | zero => exact absurd UInt8.zero_and hbit
    | succ j => exact absurd UInt8.zero_and hbit
  · have hlt := lt_of_bit_writeChunks hi hbit
    omega

end

/-- **Bitsets.** `readBitset` is the inverse of `writeBitset`: what is written of a bitset, whatever
follows, is read back; and where a bitset is read, the bytes that are consumed are those that are
written of it, and in these no bit is set that the bitset does not have. -/
theorem bitset_read_back (hN : 0 < N) :
    Cursor.ReadsBack writeBitset (Cursor.readBitset N) ∧
    ∀ (m : Cursor) (bitset : Bitset N), m.Ready → (Cursor.readBitset N m).2 = .ok bitset →
      ∃ consumed, m.left = consumed ++ (Cursor.readBitset N m).1.left ∧
        consumed = writeBitset bitset ∧
        ∀ j i, i < 7 → consumed.getD j 0 &&& (1 <<< UInt8.ofNat i) ≠ 0 → 7 * j + i < N := by
  have hread := recognises_readBitset hN
  refine ⟨Cursor.readsBack_of_accepts (Cursor.follows_readBitset N)
    fun bitset => hread.accepts rfl, ?_⟩
  intro m bitset hm hok
  obtain ⟨consumed, hleft, rfl⟩ :=
    ((Cursor.follows_readBitset N).ok_iff (StreamRead.recognises_reader hread) hm.2
      hm.usable).mp hok
  exact ⟨_, hleft, rfl, fun j i hi hbit => lt_of_bit_writeBitset hi hbit⟩

/-- A bitset of eight bits takes two chunks. -/
theorem bitset_read_back_eight :
    let m := Cursor.ofBuffer ⟨[0x80, 0x01, 0x05], by decide⟩
    (Cursor.readBitset 8 m).2 = .ok (fun k => decide (k = 7)) ∧ (Cursor.readBitset 8 m).1.left =
        [0x05] := by
  have htext : writeBitset (fun k : Fin 8 => decide (k = 7)) = [0x80, 0x01] := by
    rw [writeBitset, if_neg (by decide), writeChunks, dif_pos (by decide), writeChunks,
      dif_neg (by decide)]
    decide
  refine (bitset_read_back (by decide)).1 _ _ [0x05] (Cursor.ofBuffer_ready _) ?_
  rw [htext]
  rfl

end SculkProtocol
