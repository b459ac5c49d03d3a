import Mathlib.Algebra.Ring.Nat
import SculkProtocol.Utility.CursorStream

/-!
# The texts of variable-length integers

The readers of unsigned values accept the base-128 texts that have no more groups than the width
has room for, and whose value the width can hold; a text need not be the shortest of its value. On
everything else they fail, within the buffer. The texts that the writers make are among them, so
what is written is read back, with the sign for the signed ones (`varInts_read_back`).
-/

namespace SculkProtocol

open Decoder BinaryStream

/-- The value of groups of seven bits, lowest first. -/
def base128 : Bytes → ℕ
  | [] => 0
  | b :: bs => b.toNat % 128 + 128 * base128 bs

/-- Groups of which only the last has its top bit clear. -/
def IsGroups (bs : Bytes) : Prop :=
  ∃ first last, bs = first ++ [last] ∧ (∀ b ∈ first, b &&& 0x80 ≠ 0) ∧ last &&& 0x80 = 0

/-- The last group is below 128. -/
theorem isGroups_singleton {b : UInt8} : IsGroups [b] ↔ b.toNat < 128 := by
  rw [← ReadOnlyBinaryStream.continuation_iff]
  constructor
  · rintro ⟨first, last, heq, -, hlast⟩
    obtain ⟨rfl, hb⟩ := (List.append_inj' heq rfl : [] = first ∧ [b] = [last])
    cases hb
    exact hlast
  · intro hb
    exact ⟨[], b, rfl, fun c hc => absurd hc List.not_mem_nil, hb⟩

/-- All others have the continuation bit. -/
theorem isGroups_cons {b c : UInt8} {bs : Bytes} :
    IsGroups (b :: c :: bs) ↔ 128 ≤ b.toNat ∧ IsGroups (c :: bs) := by
  rw [← Nat.not_lt, ← ReadOnlyBinaryStream.continuation_iff]
  constructor
  · rintro ⟨first, last, heq, hfirst, hlast⟩
    cases first with
    | nil => cases heq
    | cons a first =>
      obtain ⟨rfl, hrest⟩ := List.cons.inj heq
      exact ⟨hfirst b List.mem_cons_self, first, last, hrest,
        fun d hd => hfirst d (List.mem_cons_of_mem _ hd), hlast⟩
  · rintro ⟨hb, first, last, heq, hfirst, hlast⟩
    refine ⟨b :: first, last, by rw [heq]; rfl, fun d hd => ?_, hlast⟩
    rcases List.mem_cons.mp hd with rfl | hd
    · exact hb
    · exact hfirst d hd

/-- There is a group. -/
theorem isGroups_nil : ¬ IsGroups [] := by
  rintro ⟨first, last, heq, -⟩
  exact absurd heq.symm (by simp)

/-- At most so many groups, with a value of at most so many bits. -/
structure IsVarIntText (groups bits : ℕ) (bs : Bytes) : Prop where
  isGroups : IsGroups bs
  length_le : bs.length ≤ groups
  value_lt : base128 bs < 2 ^ bits

section

variable {top groups n : ℕ} {b c : UInt8} {bs : Bytes}

/-- A single group is bounded by `top` if there may be no other. -/
theorem isVarInt_singleton : IsVarInt top (groups + 1) [b] n ↔
    b.toNat < 128 ∧ (groups = 0 → b.toNat < top) ∧ n = b.toNat := by
  constructor
  · intro h
    cases h with
    | last hb htop => exact ⟨hb, htop, rfl⟩
    | more hb h => exact absurd h.length_pos (Nat.lt_irrefl 0)
  · rintro ⟨hb, htop, rfl⟩
    exact .last hb htop

/-- A varint is its first group below the others. -/
theorem isVarInt_cons : IsVarInt top (groups + 1) (b :: c :: bs) n ↔
    128 ≤ b.toNat ∧ ∃ v, IsVarInt top groups (c :: bs) v ∧ n = b.toNat - 128 + 128 * v := by
  constructor
  · intro h
    cases h with
    | more hb h => exact ⟨hb, _, h, rfl⟩
  · rintro ⟨hb, v, h, rfl⟩
    exact .more hb h

/-- The bound on the last group of all is one on the value. -/
theorem isVarInt_iff (hpos : 0 < top) :
    IsVarInt top (groups + 1) bs n ↔
      IsGroups bs ∧ bs.length ≤ groups + 1 ∧ base128 bs < 2 ^ (7 * groups) * top ∧
      n = base128 bs := by
  -- by the length of the text, where the bound on the rest is that on the value divided by 128
  induction bs generalizing groups n with
  | nil =>
    constructor
    · intro h
      exact absurd h.length_pos (Nat.lt_irrefl 0)
    · rintro ⟨h, -⟩
      exact absurd h isGroups_nil
  | cons b bs ih =>
    cases bs with
    | nil =>
      have hlength : [b].length ≤ groups + 1 := Nat.le_add_left 1 groups
      rw [isVarInt_singleton, isGroups_singleton]
      refine and_congr_right fun hb => ?_
      have hbase : base128 [b] = b.toNat := by
        rw [base128, base128, Nat.mul_zero, Nat.add_zero, Nat.mod_eq_of_lt hb]
      rw [hbase, and_iff_right hlength]
      refine and_congr_left fun _ => ?_
      cases groups with
      | zero => simp only [true_imp_iff, Nat.mul_zero, Nat.pow_zero, Nat.one_mul]
      | succ groups =>
        -- a group in an earlier place is below every bound
        have hbound : 128 ≤ 2 ^ (7 * (groups + 1)) * top := by
          rw [Nat.mul_succ, Nat.pow_add, Nat.mul_right_comm]
          exact Nat.le_mul_of_pos_left _ (Nat.mul_pos (Nat.two_pow_pos _) hpos)
        exact iff_of_true (fun h => absurd h (Nat.succ_ne_zero _)) (Nat.lt_of_lt_of_le hb hbound)
    | cons c bs =>
      rw [isVarInt_cons, isGroups_cons, and_assoc]
      refine and_congr_right fun hb => ?_
      have hlt := b.toNat_lt
      have hmod : b.toNat % 128 = b.toNat - 128 := by omega
      cases groups with
      | zero =>
        -- no group is left for the rest
        refine iff_of_false ?_ ?_
        · rintro ⟨v, h, -⟩
          cases h
        · rintro ⟨-, hlength, -⟩
          exact absurd hlength (by simp)
      | succ groups =>
        have hpow : 2 ^ (7 * (groups + 1)) * top = 128 * (2 ^ (7 * groups) * top) := by
          rw [Nat.mul_succ, Nat.pow_add, Nat.mul_comm (2 ^ (7 * groups)), Nat.mul_assoc]
        rw [base128, hmod, hpow]
        constructor
        · rintro ⟨v, h, rfl⟩
          obtain ⟨hgroups, hlength, hvalue, rfl⟩ := ih.mp h
          exact ⟨hgroups, Nat.succ_le_succ hlength, by omega, rfl⟩
        · rintro ⟨hgroups, hlength, hvalue, rfl⟩
          exact ⟨_, ih.mpr ⟨hgroups, Nat.le_of_succ_le_succ hlength, by omega, rfl⟩, rfl⟩

end

/-- The varints of a width are its texts, each with its value. -/
theorem isVarInt_iff_text {top groups bits n : ℕ} {bs : Bytes} (hpos : 0 < top)
    (hbits : 2 ^ (7 * groups) * top = 2 ^ bits) :
    IsVarInt top (groups + 1) bs n ↔ IsVarIntText (groups + 1) bits bs ∧ n = base128 bs := by
  rw [isVarInt_iff hpos, hbits]
  constructor
  · rintro ⟨hgroups, hlength, hvalue, hn⟩
    exact ⟨⟨hgroups, hlength, hvalue⟩, hn⟩
  · rintro ⟨⟨hgroups, hlength, hvalue⟩, hn⟩
    exact ⟨hgroups, hlength, hvalue, hn⟩

/-- The texts of 32 bits are five groups of that value at most. -/
theorem isVarInt32_iff {bs : Bytes} {v : UInt32} :
    IsVarInt 16 5 bs v.toNat ↔ IsVarIntText 5 32 bs ∧ v.toNat = base128 bs :=
  isVarInt_iff_text (by decide) (by decide)

/-- The texts of 64 bits are ten groups of that value at most. -/
theorem isVarInt64_iff {bs : Bytes} {v : UInt64} :
    IsVarInt 2 10 bs v.toNat ↔ IsVarIntText 10 64 bs ∧ v.toNat = base128 bs :=
  isVarInt_iff_text (by decide) (by decide)

/-! ### The readers of the cursor -/

namespace Cursor

/-- The texts of so many groups and bits are read; nothing else is, and no place beyond the
buffer. -/
structure ReadsTexts {V : Type} (groups bits : ℕ) (toNat : V → ℕ) (read : CursorRead V) : Prop where
  accepts {m : Cursor} {bs rest : Bytes} : m.Ready → m.left = bs ++ rest →
    IsVarIntText groups bits bs →
    ∃ v, (read m).2 = .ok v ∧ toNat v = base128 bs ∧ (read m).1.left = rest
  refuses {m : Cursor} : m.Ready →
    (∀ bs rest, m.left = bs ++ rest → ¬ IsVarIntText groups bits bs) →
    ∃ message, (read m).2 = .error (.error message)
  within {m : Cursor} : m.Within → (read m).1.Within

section

variable {V : Type} {groups bits : ℕ} {toNat : V → ℕ} {read : CursorRead V} {d : StreamRead V}

/-- A decoder of the stream fails with an error. -/
theorem error_of_follows (h : Follows read (StreamRead.reader d)) {m : Cursor} (hm : m.Within)
    (hfails : ∀ v, (read m).2 ≠ .ok v) : ∃ message, (read m).2 = .error (.error message) := by
  obtain ⟨m', x, hx⟩ : ∃ m' x, read m = (m', x) := ⟨_, _, rfl⟩
  have hreader := (h.eq_of hm hx).2
  rw [hx] at hfails ⊢
  cases x with
  | ok v => exact absurd rfl (hfails v)
  | error e =>
    obtain ⟨message, -, rfl⟩ := reader_eq_error.mp hreader
    exact ⟨message, rfl⟩

/-- What is recognised in the stream is read of the cursor. -/
theorem readsTexts_of_recognises (h : Follows read (StreamRead.reader d))
    (hd : Recognises d fun bs v => IsVarIntText groups bits bs ∧ toNat v = base128 bs)
    (htotal : ∀ n < 2 ^ bits, ∃ v, toNat v = n) : ReadsTexts groups bits toNat read where
  accepts {m bs rest} hm hleft htext := by
    obtain ⟨v, hv⟩ := htotal _ htext.value_lt
    obtain ⟨hread, hrest⟩ :=
      h.reads (StreamRead.accepts_reader (hd.accepts ⟨htext, hv⟩)) hm.2 hm.usable hleft
    exact ⟨v, hread, hv, hrest⟩
  refuses {m} hm hnone := by
    refine error_of_follows h hm.2 fun v hv => ?_
    obtain ⟨bs, hleft, htext, -⟩ :=
      (h.ok_iff (StreamRead.recognises_reader hd) hm.2 hm.usable).mp hv
    exact hnone bs _ hleft htext
  within := h.keeps

end

open ReadOnlyBinaryStream in
/-- **Variable-length integers.** What is written of a value, whatever follows, is read back, in all
four forms; and the unsigned readers accept just the texts of at most five or ten groups, the last
of which alone has its top bit clear, with a value of 32 or 64 bits, and stay within the buffer. -/
theorem varInts_read_back :
    (ReadsBack writeUnsignedVarInt Cursor.readUnsignedVarInt ∧
      ReadsBack writeVarInt Cursor.readVarInt ∧
      ReadsBack writeUnsignedVarInt64 Cursor.readUnsignedVarInt64 ∧
      ReadsBack writeVarInt64 Cursor.readVarInt64) ∧
    ReadsTexts 5 32 UInt32.toNat Cursor.readUnsignedVarInt ∧
    ReadsTexts 10 64 UInt64.toNat Cursor.readUnsignedVarInt64 := by
  refine ⟨⟨?_, ?_, ?_, ?_⟩, ?_, ?_⟩
  · exact readsBack_of_accepts follows_readUnsignedVarInt fun v =>
      recognises_readUnsignedVarInt.accepts (isVarInt_writeUnsignedVarInt v)
  · exact readsBack_of_accepts follows_readVarInt fun v =>
      recognises_readVarInt.accepts (isSignedVarInt_write v)
  · exact readsBack_of_accepts follows_readUnsignedVarInt64 fun v =>
      recognises_readUnsignedVarInt64.accepts (isVarInt_writeUnsignedVarInt64 v)
  · exact readsBack_of_accepts follows_readVarInt64 fun v =>
      recognises_readVarInt64.accepts (isSignedVarInt64_write v)
  · refine readsTexts_of_recognises follows_readUnsignedVarInt
      (recognises_readUnsignedVarInt.congr fun bs v => isVarInt32_iff) fun n hn => ?_
    exact ⟨UInt32.ofNat n, UInt32.toNat_ofNat_of_lt' hn⟩
  · refine readsTexts_of_recognises follows_readUnsignedVarInt64
      (recognises_readUnsignedVarInt64.congr fun bs v => isVarInt64_iff) fun n hn => ?_
    exact ⟨UInt64.ofNat n, UInt64.toNat_ofNat_of_lt' hn⟩

end Cursor
end SculkProtocol
