import SculkProtocol.Decoding.Decoder
import SculkProtocol.Utility.BinaryStream

/-!
# Variable-length integers

An unsigned value is written in groups of seven bits, lowest first. The readers accept more
than what is written: a value may have groups of zeros at its end, as long as there are no
more groups than a value of its width can have. `IsVarInt` is the set of the texts that are
accepted, with their values (`readUnsignedVarInt_iff`, `readUnsignedVarInt64_iff`).

A signed value is mapped to an unsigned one whose lowest bit is the sign.
-/

namespace SculkProtocol

/-- A text of at most `groups` groups of seven bits. Every byte but the last has the
continuation bit; in the last place of all a group is less than `top`. -/
inductive IsVarInt (top : ℕ) : ℕ → Bytes → ℕ → Prop
  | last {groups : ℕ} {b : UInt8} (hb : b.toNat < 128) (htop : groups = 0 → b.toNat < top) :
      IsVarInt top (groups + 1) [b] b.toNat
  | more {groups : ℕ} {b : UInt8} {bs : Bytes} {v : ℕ} (hb : 128 ≤ b.toNat)
      (h : IsVarInt top groups bs v) :
      IsVarInt top (groups + 1) (b :: bs) (b.toNat - 128 + 128 * v)

/-- A varint has a byte. -/
theorem IsVarInt.length_pos {top groups n : ℕ} {bs : Bytes} (h : IsVarInt top groups bs n) :
    0 < bs.length := by
  cases h <;> exact Nat.succ_pos _

/-- The groups of a value, at most so many. -/
def varIntGroups : ℕ → ℕ → Bytes
  | 0, _ => []
  | groups + 1, n =>
    if n / 128 = 0 then [UInt8.ofNat (n % 128)]
    else UInt8.ofNat (n % 128 + 128) :: varIntGroups groups (n / 128)

/-- The groups of a number are a text of it. -/
theorem isVarInt_groups {top groups n : ℕ} (htop : top ≤ 128) (h : n < 2 ^ (7 * groups) * top) :
    IsVarInt top (groups + 1) (varIntGroups (groups + 1) n) n := by
  induction groups generalizing n with
  | zero =>
    -- the last group that may come
    rw [Nat.mul_zero, Nat.pow_zero, Nat.one_mul] at h
    have hbyte : (UInt8.ofNat (n % 128)).toNat = n := by
      rw [UInt8.toNat_ofNat']
      omega
    have hlast := @IsVarInt.last top 0 (UInt8.ofNat (n % 128)) (by omega) fun _ => by omega
    rw [varIntGroups, if_pos (by omega)]
    rwa [hbyte] at hlast
  | succ groups ih =>
    rw [varIntGroups]
    split
    · next hzero =>
      -- nothing is left: the group ends the number
      have hbyte : (UInt8.ofNat (n % 128)).toNat = n := by
        rw [UInt8.toNat_ofNat']
        omega
      have hlast := @IsVarInt.last top (groups + 1) (UInt8.ofNat (n % 128)) (by omega)
        fun h => absurd h (Nat.succ_ne_zero _)
      rwa [hbyte] at hlast
    · have hbyte : (UInt8.ofNat (n % 128 + 128)).toNat = n % 128 + 128 := by
        rw [UInt8.toNat_ofNat']
        omega
      -- what is left fits in one group less
      have hrest : n / 128 < 2 ^ (7 * groups) * top := by
        rw [Nat.div_lt_iff_lt_mul (by decide)]
        calc n < 2 ^ (7 * (groups + 1)) * top := h
          _ = 2 ^ (7 * groups) * top * 128 := by
            rw [Nat.mul_succ, Nat.pow_add, Nat.mul_assoc, Nat.mul_comm (2 ^ 7), ← Nat.mul_assoc]
      have hmore := @IsVarInt.more top _ (UInt8.ofNat (n % 128 + 128)) _ _ (by omega) (ih hrest)
      have hvalue : n % 128 + 128 - 128 + 128 * (n / 128) = n := by omega
      rwa [hbyte, hvalue] at hmore

/-! ### Signed values -/

/-- A signed value with its sign in the lowest bit. -/
def zigzagBits {w : ℕ} (x : BitVec w) : BitVec w := if x.msb then ((~~~x) <<< 1) ||| 1 else x <<< 1

def unzigzagBits {w : ℕ} (t : BitVec w) : BitVec w := if t &&& 1 ≠ 0 then ~~~(t >>> 1) else t >>> 1

/-- Bits above those that are set are added. -/
theorem or_mul_two_pow {value shift : ℕ} (h : value < 2 ^ shift) (x : ℕ) :
    value ||| x * 2 ^ shift = value + x * 2 ^ shift := by
  rw [← Nat.shiftLeft_eq, Nat.or_comm, ← Nat.shiftLeft_add_eq_or_of_lt h, Nat.add_comm]

section

variable {w : ℕ}

/-- A value without its top bit, and with a bit below it. -/
theorem toNat_shiftLeft_or {x : BitVec (w + 1)} (h : x.msb = false) :
    (x <<< 1).toNat = 2 * x.toNat ∧ ((x <<< 1) ||| 1).toNat = 2 * x.toNat + 1 := by
  have hlt : x.toNat < 2 ^ w := by
    rw [BitVec.msb_eq_decide] at h
    simpa using h
  have hshift : (x <<< 1).toNat = 2 * x.toNat := by
    rw [BitVec.toNat_shiftLeft, Nat.shiftLeft_eq, Nat.mod_eq_of_lt] <;> rw [Nat.pow_succ] <;> omega
  have hone : (1 : BitVec (w + 1)).toNat = 1 := by simp
  have hor := or_mul_two_pow (show 1 < 2 ^ 1 by decide) x.toNat
  rw [Nat.pow_one, Nat.mul_comm] at hor
  refine ⟨hshift, ?_⟩
  rw [BitVec.toNat_or, hshift, hone, Nat.or_comm, hor, Nat.add_comm]

/-- The lowest bit says whether a number is odd. -/
theorem sign_bit {t : BitVec (w + 1)} : t &&& 1 ≠ 0 ↔ t.toNat % 2 = 1 := by
  have hone : (1 : BitVec (w + 1)).toNat = 2 ^ 1 - 1 := by simp
  rw [ne_eq, ← BitVec.toNat_inj, BitVec.toNat_and, hone, Nat.and_two_pow_sub_one_eq_mod]
  simp

/-- A shift by one halves. -/
theorem shiftRight_one {t x : BitVec w} (h : t.toNat / 2 = x.toNat) : t >>> 1 = x := by
  apply BitVec.eq_of_toNat_eq
  rw [BitVec.toNat_ushiftRight, Nat.shiftRight_eq_div_pow, Nat.pow_one, h]

/-- A number comes back from its zigzag form. -/
theorem unzigzagBits_zigzagBits (x : BitVec (w + 1)) : unzigzagBits (zigzagBits x) = x := by
  unfold zigzagBits
  cases hsign : x.msb with
  | false =>
    obtain ⟨heven, -⟩ := toNat_shiftLeft_or hsign
    rw [if_neg Bool.false_ne_true, unzigzagBits, if_neg, shiftRight_one]
    · omega
    · rw [sign_bit]
      omega
  -- the complement of a negative value has no sign
  | true =>
    have hnot : (~~~x).msb = false := by
      rw [BitVec.msb_not, hsign]
      simp
    obtain ⟨-, hodd⟩ := toNat_shiftLeft_or hnot
    rw [if_pos rfl, unzigzagBits, if_pos, shiftRight_one, BitVec.not_not]
    · omega
    · rw [sign_bit]
      omega

end

/-! ### Writing -/

namespace BinaryStream

/-- The loop of `writeUnsignedVarInt64`. -/
def writeVarInt64Groups : ℕ → UInt64 → Bytes
  | 0, _ => []
  | groups + 1, uvalue =>
    let nextByte := (uvalue &&& 0x7F).toUInt8
    let uvalue := uvalue >>> 7
    if uvalue ≠ 0 then (nextByte ||| 0x80) :: writeVarInt64Groups groups uvalue else [nextByte]

/-- A value of 64 bits has at most ten groups. -/
def writeUnsignedVarInt64 (uvalue : UInt64) : Bytes := writeVarInt64Groups 10 uvalue

def writeVarInt (value : Int32) : Bytes :=
  if 0 ≤ value then writeUnsignedVarInt (value.toUInt32 <<< 1)
  else writeUnsignedVarInt (((~~~value).toUInt32 <<< 1) ||| 1)

def writeVarInt64 (value : Int64) : Bytes :=
  if 0 ≤ value then writeUnsignedVarInt64 (value.toUInt64 <<< 1)
  else writeUnsignedVarInt64 (((~~~value).toUInt64 <<< 1) ||| 1)

/-- The continuation bit adds 128. -/
theorem ofNat_or_continuation : ∀ n < 128, UInt8.ofNat n ||| 0x80 = UInt8.ofNat (n + 128) := by
  decide +kernel

/-- The groups that are written are those of the value. -/
theorem writeVarIntGroups_eq (groups : ℕ) (v : UInt32) :
    writeVarIntGroups groups v = varIntGroups groups v.toNat := by
  induction groups generalizing v with
  | zero => rfl
  | succ groups ih =>
    rw [writeVarIntGroups, varIntGroups, lowGroup,
      ofNat_or_continuation _ (Nat.mod_lt _ (by decide)), ih, toNat_shiftRight_seven, ite_not]
    simp only [← UInt32.toNat_inj, toNat_shiftRight_seven, UInt32.toNat_zero]

/-- What is written of a number is its groups. -/
theorem writeVarInt64Groups_eq (groups : ℕ) (v : UInt64) :
    writeVarInt64Groups groups v = varIntGroups groups v.toNat := by
  have hshift : ∀ v : UInt64, (v >>> 7).toNat = v.toNat / 128 := by
    intro v
    rw [UInt64.toNat_shiftRight]
    simp [Nat.shiftRight_eq_div_pow]
  have hlow : ∀ v : UInt64, (v &&& 0x7F).toUInt8 = UInt8.ofNat (v.toNat % 128) := by
    intro v
    apply UInt8.toNat_inj.mp
    have h127 : (0x7F : UInt64).toNat = 2 ^ 7 - 1 := rfl
    rw [UInt64.toNat_toUInt8, UInt64.toNat_and, h127, Nat.and_two_pow_sub_one_eq_mod,
      UInt8.toNat_ofNat']
  induction groups generalizing v with
  | zero => rfl
  | succ groups ih =>
    rw [writeVarInt64Groups, varIntGroups, hlow, ofNat_or_continuation _ (Nat.mod_lt _ (by decide)),
      ih, hshift, ite_not]
    simp only [← UInt64.toNat_inj, hshift, UInt64.toNat_zero]

/-- What is written of a number is a text of it. -/
theorem isVarInt_writeUnsignedVarInt (v : UInt32) :
    IsVarInt 16 5 (writeUnsignedVarInt v) v.toNat := by
  rw [writeUnsignedVarInt, writeVarIntGroups_eq]
  exact isVarInt_groups (by decide) v.toNat_lt

/-- So it is for 64 bits. -/
theorem isVarInt_writeUnsignedVarInt64 (v : UInt64) :
    IsVarInt 2 10 (writeUnsignedVarInt64 v) v.toNat := by
  rw [writeUnsignedVarInt64, writeVarInt64Groups_eq]
  exact isVarInt_groups (by decide) v.toNat_lt

/-- A signed number is written in its zigzag form. -/
theorem writeVarInt_eq (value : Int32) :
    writeVarInt value = writeUnsignedVarInt ⟨zigzagBits value.toBitVec⟩ := by
  have hle : 0 ≤ value ↔ 0 ≤ value.toBitVec.toInt := Int32.le_iff_toInt_le
  unfold writeVarInt zigzagBits
  split
  · next h =>
    have hsign : value.toBitVec.msb = false := by
      rw [BitVec.msb_eq_toInt, decide_eq_false (Int.not_lt.mpr (hle.mp h))]
    rw [hsign, if_neg Bool.false_ne_true]
    rfl
  · next h =>
    have hsign : value.toBitVec.msb = true := by
      rw [BitVec.msb_eq_toInt, decide_eq_true (Int.not_le.mp (hle.not.mp h))]
    rw [hsign, if_pos rfl]
    rfl

/-- So it is for 64 bits. -/
theorem writeVarInt64_eq (value : Int64) :
    writeVarInt64 value = writeUnsignedVarInt64 ⟨zigzagBits value.toBitVec⟩ := by
  have hle : 0 ≤ value ↔ 0 ≤ value.toBitVec.toInt := Int64.le_iff_toInt_le
  unfold writeVarInt64 zigzagBits
  split
  · next h =>
    have hsign : value.toBitVec.msb = false := by
      rw [BitVec.msb_eq_toInt, decide_eq_false (Int.not_lt.mpr (hle.mp h))]
    rw [hsign, if_neg Bool.false_ne_true]
    rfl
  · next h =>
    have hsign : value.toBitVec.msb = true := by
      rw [BitVec.msb_eq_toInt, decide_eq_true (Int.not_le.mp (hle.not.mp h))]
    rw [hsign, if_pos rfl]
    rfl

end BinaryStream

/-! ### Reading -/

namespace ReadOnlyBinaryStream

/-- What the readers of unsigned values differ in. -/
structure VarIntKind (V : Type) where
  /-- how many groups a value has at most -/
  groups : ℕ
  /-- the bits that the last group of these has no place for -/
  mask : UInt8
  message : String
  zero : V
  /-- `value |= (byte & 0x7F) << shift` -/
  add : V → UInt8 → ℕ → V

/-- The loop of a reader, with so many groups left and `value` read so far. -/
def VarIntKind.read {V : Type} (kind : VarIntKind V) (s : ReadOnlyBinaryStream) (value : V) :
    ℕ → ReadOnlyBinaryStream × Except String V
  | 0 => s.overflow kind.message
  | groups + 1 =>
    let shift := 7 * (kind.groups - 1 - groups)
    match s.mBufferView[s.mReadPointer]? with
    | none => s.overflow kind.message
    | some byte =>
      let s := { s with mReadPointer := s.mReadPointer + 1 }
      -- the place of the last group has fewer than seven bits left
      if shift = 7 * (kind.groups - 1) ∧ byte &&& 0x80 = 0 ∧ byte &&& kind.mask ≠ 0 then
        s.overflow kind.message
      else
        let value := kind.add value byte shift
        if byte &&& 0x80 = 0 then (s, .ok value) else kind.read s value groups

def varInt32 : VarIntKind UInt32 where
  groups := 5
  mask := 0x70
  message := "ReadOnlyBinaryStream::readUnsignedVarInt overflowed"
  zero := 0
  add value byte shift := value ||| ((byte &&& 0x7F).toUInt32 <<< UInt32.ofNat shift)

def varInt64 : VarIntKind UInt64 where
  groups := 10
  mask := 0x7E
  message := "ReadOnlyBinaryStream::readUnsignedVarInt64 overflowed"
  zero := 0
  add value byte shift := value ||| ((byte &&& 0x7F).toUInt64 <<< UInt64.ofNat shift)

variable (s : ReadOnlyBinaryStream)

def readUnsignedVarInt64 : ReadOnlyBinaryStream × Except String UInt64 := varInt64.read s 0 10

/-- `(temp & 1) ? ~(temp >> 1) : (temp >> 1)` -/
def unzigzag (temp : UInt32) : Int32 :=
  (if temp &&& 1 ≠ 0 then ~~~(temp >>> 1) else temp >>> 1).toInt32

def unzigzag64 (temp : UInt64) : Int64 :=
  (if temp &&& 1 ≠ 0 then ~~~(temp >>> 1) else temp >>> 1).toInt64

def readVarInt : ReadOnlyBinaryStream × Except String Int32 :=
  match s.readUnsignedVarInt with
  | (s, .error _) => (s, .error "ReadOnlyBinaryStream::readVarInt failed")
  | (s, .ok temp) => (s, .ok (unzigzag temp))

def readVarInt64 : ReadOnlyBinaryStream × Except String Int64 :=
  match s.readUnsignedVarInt64 with
  | (s, .error _) => (s, .error "ReadOnlyBinaryStream::readVarInt64 failed")
  | (s, .ok temp) => (s, .ok (unzigzag64 temp))

/-! ### What is read -/

/-- What the loop needs of a kind of values: the groups do not overlap, and the last one is
small enough for the width. -/
structure VarIntKind.Lawful {V : Type} (kind : VarIntKind V) (toNat : V → ℕ) (bits top : ℕ) :
    Prop where
  top_le : top ≤ 128
  width : 2 ^ bits = 2 ^ (7 * (kind.groups - 1)) * top
  mask (b : UInt8) : b.toNat < 128 → (b &&& kind.mask = 0 ↔ b.toNat < top)
  inj (v w : V) : toNat v = toNat w → v = w
  add (value : V) (b : UInt8) (shift : ℕ) : toNat value < 2 ^ shift →
    b.toNat % 128 * 2 ^ shift < 2 ^ bits →
    toNat (kind.add value b shift) = toNat value + b.toNat % 128 * 2 ^ shift

/-- The last byte of a varint is below 128. -/
theorem continuation_iff (b : UInt8) : b &&& 0x80 = 0 ↔ b.toNat < 128 := by
  have h : ∀ n < 256, UInt8.ofNat n &&& 0x80 = 0 ↔ n < 128 := by decide +kernel
  have hb := h b.toNat b.toNat_lt
  rwa [UInt8.ofNat_toNat] at hb

/-- At the end there is no byte. -/
theorem getElem?_of_view_nil {s : ReadOnlyBinaryStream} (h : s.getLeftBufferView = []) :
    s.mBufferView[s.mReadPointer]? = none :=
  List.getElem?_eq_none (List.drop_eq_nil_iff.mp h)

section

variable {V : Type} {kind : VarIntKind V} {toNat : V → ℕ} {bits top : ℕ}
  {s s' : ReadOnlyBinaryStream} {v : V}

/-- Behind a byte is the rest. -/
theorem advance_one_view {b : UInt8} {rest : Bytes} (h : s.getLeftBufferView = b :: rest) :
    (s.advance 1).getLeftBufferView = rest := by
  have h' : s.getLeftBufferView = [b] ++ rest := h
  exact advance_view h'

/-- One round of the loop. -/
theorem VarIntKind.read_byte {groups : ℕ} {value : V} {b : UInt8} {rest : Bytes}
    (h : s.getLeftBufferView = b :: rest) :
    kind.read s value (groups + 1) =
      if 7 * (kind.groups - 1 - groups) = 7 * (kind.groups - 1) ∧ b &&& 0x80 = 0 ∧
      b &&& kind.mask ≠ 0 then
        (s.advance 1).overflow kind.message
      else if b &&& 0x80 = 0 then
        (s.advance 1, .ok (kind.add value b (7 * (kind.groups - 1 - groups))))
      else kind.read (s.advance 1) (kind.add value b (7 * (kind.groups - 1 - groups))) groups := by
  rw [VarIntKind.read]
  simp only [getElem?_of_view h]
  rfl

variable {groups : ℕ} {value : V} {b : UInt8} {rest bs : Bytes} {n : ℕ}

/-- A byte without the continuation bit ends the value. -/
theorem VarIntKind.Lawful.read_last (hkind : kind.Lawful toNat bits top)
    (hgroups : groups + 1 ≤ kind.groups)
    (h : s.getLeftBufferView = b :: rest) (hb : b.toNat < 128) (htop : groups = 0 → b.toNat < top) :
    kind.read s value (groups + 1)
      = (s.advance 1, .ok (kind.add value b (7 * (kind.groups - (groups + 1))))) := by
  have hshift : kind.groups - 1 - groups = kind.groups - (groups + 1) := by omega
  rw [VarIntKind.read_byte h, if_neg, if_pos ((continuation_iff b).mpr hb), hshift]
  rintro ⟨hlast, -, hmask⟩
  exact hmask ((hkind.mask b hb).mpr (htop (by omega)))

/-- In the last place of all it is refused if it is too large. -/
theorem VarIntKind.Lawful.read_refused (hkind : kind.Lawful toNat bits top)
    (h : s.getLeftBufferView = b :: rest) (hb : b.toNat < 128) (htop : ¬ b.toNat < top) :
    kind.read s value 1 = (s.advance 1).overflow kind.message := by
  rw [VarIntKind.read_byte h, if_pos]
  exact ⟨rfl, (continuation_iff b).mpr hb, fun hmask => htop ((hkind.mask b hb).mp hmask)⟩

/-- A byte with the continuation bit adds its group. -/
theorem VarIntKind.read_more (h : s.getLeftBufferView = b :: rest) (hb : 128 ≤ b.toNat) :
    kind.read s value (groups + 1)
      = kind.read (s.advance 1) (kind.add value b (7 * (kind.groups - (groups + 1)))) groups := by
  have hshift : kind.groups - 1 - groups = kind.groups - (groups + 1) := by omega
  have hmore : ¬ b &&& 0x80 = 0 := fun h => Nat.not_lt.mpr hb ((continuation_iff b).mp h)
  rw [VarIntKind.read_byte h, if_neg fun h => hmore h.2.1, if_neg hmore, hshift]

/-- A group has its place in a value, in the last place of all if it is small enough. -/
theorem VarIntKind.Lawful.fits (hkind : kind.Lawful toNat bits top)
    (hgroups : groups + 1 ≤ kind.groups)
    (hn : n < 128) (htop : groups = 0 → n < top) :
    n * 2 ^ (7 * (kind.groups - (groups + 1))) < 2 ^ bits := by
  have hpos : 0 < top := by
    have hwidth := hkind.width
    rcases Nat.eq_zero_or_pos top with h | h
    · rw [h, Nat.mul_zero] at hwidth
      exact absurd hwidth (Nat.ne_of_gt (Nat.two_pow_pos bits))
    · exact h
  rw [hkind.width]
  cases groups with
  -- the last group is one of the `top` that the width has place for
  | zero =>
    rw [Nat.mul_comm]
    exact Nat.mul_lt_mul_of_pos_left (htop rfl) (Nat.two_pow_pos _)
  -- any other group lies below the last one
  | succ groups =>
    have h128 : 128 ≤ 2 ^ (7 * (groups + 1)) := by
      rw [Nat.mul_succ, Nat.pow_add]
      exact Nat.le_mul_of_pos_left _ (Nat.two_pow_pos _)
    calc n * 2 ^ (7 * (kind.groups - (groups + 1 + 1)))
        < 2 ^ (7 * (groups + 1)) * 2 ^ (7 * (kind.groups - (groups + 1 + 1))) :=
          Nat.mul_lt_mul_of_pos_right (Nat.lt_of_lt_of_le hn h128) (Nat.two_pow_pos _)
      _ = 2 ^ (7 * (kind.groups - 1)) := by
          rw [← Nat.pow_add]
          congr 1
          omega
      _ ≤ 2 ^ (7 * (kind.groups - 1)) * top := Nat.le_mul_of_pos_right _ hpos

/-- The value after a group that is followed by others. -/
theorem VarIntKind.Lawful.add_more (hkind : kind.Lawful toNat bits top)
    (hgroups : groups + 2 ≤ kind.groups)
    (hvalue : toNat value < 2 ^ (7 * (kind.groups - (groups + 2))))
    (hb : 128 ≤ b.toNat) :
    toNat (kind.add value b (7 * (kind.groups - (groups + 2))))
        = toNat value + (b.toNat - 128) * 2 ^ (7 * (kind.groups - (groups + 2))) ∧
      toNat (kind.add value b (7 * (kind.groups - (groups + 2)))) <
        2 ^ (7 * (kind.groups - (groups + 1))) ∧
      2 ^ (7 * (kind.groups - (groups + 1))) = 128 * 2 ^ (7 * (kind.groups - (groups + 2))) := by
  have hlt := b.toNat_lt
  have hmod : b.toNat % 128 = b.toNat - 128 := by omega
  have hpow : 2 ^ (7 * (kind.groups - (groups + 1))) =
      128 * 2 ^ (7 * (kind.groups - (groups + 2))) := by
    rw [show 7 * (kind.groups - (groups + 1)) = 7 + 7 * (kind.groups - (groups + 2)) by omega,
      Nat.pow_add]
  have hfits := hkind.fits hgroups (Nat.mod_lt b.toNat (by decide : 128 > 0))
    fun h => absurd h (Nat.succ_ne_zero _)
  have hadd := hkind.add value b _ hvalue hfits
  rw [hmod] at hadd
  refine ⟨hadd, ?_, hpow⟩
  rw [hadd, hpow]
  -- a group of ones is the greatest
  have hgroup : (b.toNat - 128) * 2 ^ (7 * (kind.groups - (groups + 2)))
      ≤ 127 * 2 ^ (7 * (kind.groups - (groups + 2))) := Nat.mul_le_mul_right _ (by omega)
  omega

/-- Every text is read. -/
theorem VarIntKind.Lawful.read_complete (hkind : kind.Lawful toNat bits top)
    (hn : IsVarInt top groups bs n)
    (hgroups : groups ≤ kind.groups) (hvalue : toNat value < 2 ^ (7 * (kind.groups - groups)))
    (hview : s.getLeftBufferView = bs ++ rest) :
    ∃ v, kind.read s value groups = (s.advance bs.length, .ok v) ∧
      toNat v = toNat value + n * 2 ^ (7 * (kind.groups - groups)) := by
  induction hn generalizing s value with
  | @last groups b hb htop =>
    have hadd := hkind.add value b _ hvalue
      (hkind.fits hgroups (Nat.mod_lt _ (by decide)) fun h => by
        rw [Nat.mod_eq_of_lt hb]
        exact htop h)
    rw [Nat.mod_eq_of_lt hb] at hadd
    exact ⟨_, hkind.read_last hgroups hview hb htop, hadd⟩
  -- the value so far has one group more, and the text one less
  | @more groups b bs n hb h ih =>
    cases groups with
    | zero => cases h
    | succ groups =>
      obtain ⟨hadd, hlt, hpow⟩ := hkind.add_more hgroups hvalue hb
      have hrest := advance_one_view hview
      obtain ⟨v, hread, hv⟩ := ih (Nat.le_of_succ_le hgroups) hlt hrest
      refine ⟨v, ?_, ?_⟩
      · rw [VarIntKind.read_more hview hb, hread, advance_advance, List.length_cons, Nat.add_comm 1]
      · rw [hv, hadd, hpow, Nat.add_mul, Nat.mul_assoc 128, Nat.mul_left_comm 128 n, Nat.add_assoc]

/-- What is read is a text. -/
theorem VarIntKind.Lawful.read_sound (hkind : kind.Lawful toNat bits top)
    (hgroups : groups ≤ kind.groups)
    (hvalue : toNat value < 2 ^ (7 * (kind.groups - groups)))
    (h : kind.read s value groups = (s', .ok v)) :
    ∃ bs rest n, s.getLeftBufferView = bs ++ rest ∧ IsVarInt top groups bs n := by
  induction groups generalizing s value with
  | zero => exact absurd (congrArg Prod.snd h) (by simp [VarIntKind.read, overflow])
  | succ groups ih =>
    cases hview : s.getLeftBufferView with
    | nil =>
      rw [VarIntKind.read] at h
      simp only [getElem?_of_view_nil hview] at h
      exact absurd (congrArg Prod.snd h) (by simp [overflow])
    | cons b rest =>
      rcases Nat.lt_or_ge b.toNat 128 with hb | hb
      · by_cases htop : groups = 0 → b.toNat < top
        · exact ⟨[b], rest, _, rfl, .last hb htop⟩
        · -- the last group that may come has bits beyond the width
          obtain ⟨h0, hlarge⟩ := Classical.not_imp.mp htop
          subst h0
          rw [hkind.read_refused hview hb hlarge] at h
          exact absurd (congrArg Prod.snd h) (by simp [overflow])
      · -- one more group
        rw [VarIntKind.read_more hview hb] at h
        cases groups with
        | zero => exact absurd (congrArg Prod.snd h) (by simp [VarIntKind.read, overflow])
        | succ groups =>
          have hrest := advance_one_view hview
          obtain ⟨bs, rest', n, hbs, hn⟩ :=
            ih (Nat.le_of_succ_le hgroups) (hkind.add_more hgroups hvalue hb).2.1 h
          exact ⟨b :: bs, rest', _, by rw [← hrest, hbs]; rfl, .more hb hn⟩

/-- **The texts a reader accepts.** -/
theorem VarIntKind.Lawful.read_iff (hkind : kind.Lawful toNat bits top)
    (hzero : toNat kind.zero = 0) :
    kind.read s kind.zero kind.groups = (s', .ok v) ↔
      ∃ bs rest, s.getLeftBufferView = bs ++ rest ∧ s' = s.advance bs.length ∧
        IsVarInt top kind.groups bs (toNat v) := by
  have hvalue : toNat kind.zero < 2 ^ (7 * (kind.groups - kind.groups)) := by
    rw [hzero]
    exact Nat.two_pow_pos _
  have hall : ∀ n, toNat kind.zero + n * 2 ^ (7 * (kind.groups - kind.groups)) = n := by
    intro n
    rw [hzero, Nat.sub_self, Nat.mul_zero, Nat.pow_zero, Nat.mul_one, Nat.zero_add]
  constructor
  · intro h
    obtain ⟨bs, rest, n, hview, hn⟩ := hkind.read_sound (Nat.le_refl _) hvalue h
    obtain ⟨w, hread, hw⟩ := hkind.read_complete hn (Nat.le_refl _) hvalue hview
    rw [hall] at hw
    cases hread.symm.trans h
    exact ⟨bs, rest, hview, rfl, hw ▸ hn⟩
  · rintro ⟨bs, rest, hview, rfl, hn⟩
    obtain ⟨w, hread, hw⟩ := hkind.read_complete hn (Nat.le_refl _) hvalue hview
    rw [hall] at hw
    rw [hread, hkind.inj w v hw]

/-- The group of a byte is its seven lowest bits. -/
theorem and_toNat_mod (b : UInt8) : (b &&& 0x7F).toNat = b.toNat % 128 := by
  have h127 : (0x7F : UInt8).toNat = 2 ^ 7 - 1 := rfl
  rw [UInt8.toNat_and, h127, Nat.and_two_pow_sub_one_eq_mod]

/-- A shift that keeps a group inside the width is less than it. -/
theorem lt_of_group_fits {x shift bits : ℕ} (hx : x ≠ 0) (h : x * 2 ^ shift < 2 ^ bits) :
    shift < bits := by
  have hle : 2 ^ shift ≤ x * 2 ^ shift := Nat.le_mul_of_pos_left _ (Nat.pos_of_ne_zero hx)
  exact (Nat.pow_lt_pow_iff_right (by decide)).mp (Nat.lt_of_le_of_lt hle h)

/-- The 32-bit reader does arithmetic. -/
theorem varInt32_lawful : varInt32.Lawful UInt32.toNat 32 16 where
  top_le := by decide
  width := rfl
  mask b hb := by
    have h : ∀ n < 128, UInt8.ofNat n &&& 0x70 = 0 ↔ n < 16 := by decide +kernel
    have hb' := h b.toNat hb
    rwa [UInt8.ofNat_toNat] at hb'
  inj _ _ := UInt32.toNat_inj.mp
  add value b shift hvalue hfits := by
    by_cases hx : b.toNat % 128 = 0
    · have hzero : (b &&& 0x7F).toUInt32 = 0 := by
        apply UInt32.toNat_inj.mp
        rw [UInt8.toNat_toUInt32, and_toNat_mod, hx]
        rfl
      simp only [varInt32, hzero, hx, UInt32.zero_shiftLeft, UInt32.or_zero, Nat.zero_mul,
        Nat.add_zero]
    · -- a group with a bit fits, so it is shifted by less than the width
      have hshift := lt_of_group_fits hx hfits
      have hmod : (UInt32.ofNat shift).toNat % 32 = shift := by
        rw [UInt32.toNat_ofNat']
        omega
      rw [varInt32, UInt32.toNat_or, UInt32.toNat_shiftLeft, UInt8.toNat_toUInt32, and_toNat_mod,
        hmod, Nat.shiftLeft_eq, Nat.mod_eq_of_lt hfits, or_mul_two_pow hvalue]

/-- So does the 64-bit reader. -/
theorem varInt64_lawful : varInt64.Lawful UInt64.toNat 64 2 where
  top_le := by decide
  width := rfl
  mask b hb := by
    have h : ∀ n < 128, UInt8.ofNat n &&& 0x7E = 0 ↔ n < 2 := by decide +kernel
    have hb' := h b.toNat hb
    rwa [UInt8.ofNat_toNat] at hb'
  inj _ _ := UInt64.toNat_inj.mp
  add value b shift hvalue hfits := by
    by_cases hx : b.toNat % 128 = 0
    · have hzero : (b &&& 0x7F).toUInt64 = 0 := by
        apply UInt64.toNat_inj.mp
        rw [UInt8.toNat_toUInt64, and_toNat_mod, hx]
        rfl
      simp only [varInt64, hzero, hx, UInt64.zero_shiftLeft, UInt64.or_zero, Nat.zero_mul,
        Nat.add_zero]
    · -- a group with a bit fits, so it is shifted by less than the width
      have hshift := lt_of_group_fits hx hfits
      have hmod : (UInt64.ofNat shift).toNat % 64 = shift := by
        rw [UInt64.toNat_ofNat']
        omega
      rw [varInt64, UInt64.toNat_or, UInt64.toNat_shiftLeft, UInt8.toNat_toUInt64, and_toNat_mod,
        hmod, Nat.shiftLeft_eq, Nat.mod_eq_of_lt hfits, or_mul_two_pow hvalue]

/-- The loop of `readUnsignedVarInt` is that of `varInt32`. -/
theorem readVarIntGroups_eq (value : UInt32) (groups : ℕ) :
    s.readVarIntGroups value groups = varInt32.read s value groups := by
  induction groups generalizing s value with
  | zero => rfl
  | succ groups ih =>
    simp only [readVarIntGroups, VarIntKind.read, ih]
    rfl

/-- The 32-bit reader reads exactly the texts of a varint. -/
theorem readUnsignedVarInt_iff {v : UInt32} : s.readUnsignedVarInt = (s', .ok v) ↔
    ∃ bs rest, s.getLeftBufferView = bs ++ rest ∧ s' = s.advance bs.length ∧
    IsVarInt 16 5 bs v.toNat := by
  rw [readUnsignedVarInt, readVarIntGroups_eq]
  exact varInt32_lawful.read_iff rfl

/-- The 64-bit reader reads exactly the texts of a varint. -/
theorem readUnsignedVarInt64_iff {v : UInt64} : s.readUnsignedVarInt64 = (s', .ok v) ↔
    ∃ bs rest, s.getLeftBufferView = bs ++ rest ∧ s' = s.advance bs.length ∧
    IsVarInt 2 10 bs v.toNat :=
  varInt64_lawful.read_iff rfl

/-- The source undoes the zigzag form. -/
theorem unzigzag_eq (temp : UInt32) : (unzigzag temp).toBitVec = unzigzagBits temp.toBitVec := by
  have hbit : temp &&& 1 ≠ 0 ↔ temp.toBitVec &&& 1 ≠ 0 := by
    rw [ne_eq, ne_eq, ← UInt32.toBitVec_inj]
    rfl
  unfold unzigzag unzigzagBits
  by_cases h : temp &&& 1 ≠ 0
  · rw [if_pos h, if_pos (hbit.mp h)]
    rfl
  · rw [if_neg h, if_neg fun h' => h (hbit.mpr h')]
    rfl

/-- So it does for 64 bits. -/
theorem unzigzag64_eq (temp : UInt64) :
    (unzigzag64 temp).toBitVec = unzigzagBits temp.toBitVec := by
  have hbit : temp &&& 1 ≠ 0 ↔ temp.toBitVec &&& 1 ≠ 0 := by
    rw [ne_eq, ne_eq, ← UInt64.toBitVec_inj]
    rfl
  unfold unzigzag64 unzigzagBits
  by_cases h : temp &&& 1 ≠ 0
  · rw [if_pos h, if_pos (hbit.mp h)]
    rfl
  · rw [if_neg h, if_neg fun h' => h (hbit.mpr h')]
    rfl

end

end ReadOnlyBinaryStream
end SculkProtocol
