import SculkProtocol.Decoding.WireCodec
import SculkProtocol.Utility.Combinators

/-!
# The wire codecs of the streams

The functions of `ReadOnlyBinaryStream` and `BinaryStream` in pairs. A value that both have is
written in the shortest way that it can be read from, so these codecs count; a string and a
list come back if their size fits its prefix.
-/

namespace SculkProtocol

open Decoder BinaryStream ReadOnlyBinaryStream StreamRead

/-! ### Lengths of variable-length integers -/

/-- No text of a value is shorter than its groups. -/
theorem IsVarInt.groups_length {top groups n : ℕ} {bs : Bytes} (h : IsVarInt top groups bs n) :
    (varIntGroups groups n).length ≤ bs.length := by
  induction h with
  | @last groups b hb htop =>
    rw [varIntGroups, if_pos (by omega)]
    exact Nat.le_refl 1
  | @more groups b bs v hb h ih =>
    have hvalue : (b.toNat - 128 + 128 * v) / 128 = v := by
      have hlt := b.toNat_lt
      omega
    rw [varIntGroups]
    split
    · exact Nat.le_add_left 1 _
    · rw [hvalue]
      exact Nat.succ_le_succ ih

/-- What is written is no longer than any other text of the number. -/
theorem writeUnsignedVarInt_le {v : UInt32} {bs : Bytes} (h : IsVarInt 16 5 bs v.toNat) :
    (writeUnsignedVarInt v).length ≤ bs.length := by
  rw [writeUnsignedVarInt, writeVarIntGroups_eq]
  exact h.groups_length

/-- So it is for 64 bits. -/
theorem writeUnsignedVarInt64_le {v : UInt64} {bs : Bytes} (h : IsVarInt 2 10 bs v.toNat) :
    (writeUnsignedVarInt64 v).length ≤ bs.length := by
  rw [writeUnsignedVarInt64, writeVarInt64Groups_eq]
  exact h.groups_length

/-- A smaller value has no more groups. -/
theorem varIntGroups_length_mono (groups : ℕ) {m n : ℕ} (h : m ≤ n) :
    (varIntGroups groups m).length ≤ (varIntGroups groups n).length := by
  induction groups generalizing m n with
  | zero => exact Nat.le_refl _
  | succ groups ih =>
    rw [varIntGroups, varIntGroups]
    split
    · split
      · exact Nat.le_refl 1
      · exact Nat.le_add_left 1 _
    · next hm =>
      have hle : m / 128 ≤ n / 128 := Nat.div_le_div_right h
      rw [if_neg fun hn : n / 128 = 0 => hm (Nat.eq_zero_of_le_zero (hn ▸ hle))]
      exact Nat.succ_le_succ (ih hle)

/-- Greater numbers have no shorter texts. -/
theorem writeUnsignedVarInt_length_mono {m n : UInt32} (h : m.toNat ≤ n.toNat) :
    (writeUnsignedVarInt m).length ≤ (writeUnsignedVarInt n).length := by
  rw [writeUnsignedVarInt, writeUnsignedVarInt, writeVarIntGroups_eq, writeVarIntGroups_eq]
  exact varIntGroups_length_mono 5 h

/-- The zig-zag form of what a text stands for is the text's value. -/
theorem zigzagBits_unzigzagBits {w : ℕ} (t : BitVec (w + 1)) : zigzagBits (unzigzagBits t) = t := by
  have hhalf : (t >>> 1).toNat = t.toNat / 2 := by
    rw [BitVec.toNat_ushiftRight, Nat.shiftRight_eq_div_pow, Nat.pow_one]
  have hsign : (t >>> 1).msb = false := by
    rw [BitVec.msb_eq_decide, hhalf, decide_eq_false_iff_not, Nat.not_le]
    have hlt : t.toNat < 2 ^ (w + 1) := t.isLt
    rw [Nat.pow_succ] at hlt
    show t.toNat / 2 < 2 ^ w
    omega
  obtain ⟨heven, hodd⟩ := toNat_shiftLeft_or hsign
  unfold unzigzagBits
  by_cases hbit : t &&& 1 ≠ 0
  · -- an odd value is that of a negative number
    have hmsb : (~~~(t >>> 1)).msb = true := by
      rw [BitVec.msb_not, hsign]
      simp
    rw [if_pos hbit, zigzagBits, if_pos hmsb, BitVec.not_not]
    apply BitVec.eq_of_toNat_eq
    have hparity := sign_bit.mp hbit
    omega
  · rw [if_neg hbit, zigzagBits, hsign, if_neg Bool.false_ne_true]
    apply BitVec.eq_of_toNat_eq
    have hparity := mt sign_bit.mpr hbit
    omega

/-- So it is for signed numbers. -/
theorem writeVarInt_le {v : Int32} {bs : Bytes} (h : IsSignedVarInt bs v) :
    (writeVarInt v).length ≤ bs.length := by
  obtain ⟨t, ht, rfl⟩ := h
  have hzigzag : (⟨zigzagBits (unzigzag t).toBitVec⟩ : UInt32) = t := by
    rw [unzigzag_eq, zigzagBits_unzigzagBits]
  rw [writeVarInt_eq, hzigzag]
  exact writeUnsignedVarInt_le ht

/-- So it is for signed numbers of 64 bits. -/
theorem writeVarInt64_le {v : Int64} {bs : Bytes} (h : IsSignedVarInt64 bs v) :
    (writeVarInt64 v).length ≤ bs.length := by
  obtain ⟨t, ht, rfl⟩ := h
  have hzigzag : (⟨zigzagBits (unzigzag64 t).toBitVec⟩ : UInt64) = t := by
    rw [unzigzag64_eq, zigzagBits_unzigzagBits]
  rw [writeVarInt64_eq, hzigzag]
  exact writeUnsignedVarInt64_le ht

/-! ### Single values -/

section

variable {T : Prop} {α : Type}

/-- A reader of a stream is a codec in a longer program too. -/
theorem WireCodec.reader {d : StreamRead α} {w : α → Bytes} {P : α → Prop} {u : α → ℕ}
    (h : WireCodec T d w P u) : WireCodec T d.reader w P u where
  accepts ha hu := accepts_reader (h.accepts ha hu)
  yields := yields_reader h.yields

/-- A function of the stream whose every value comes back. -/
abbrev StreamCodec (T : Prop) (d : StreamRead α) (w : α → Bytes) : Prop :=
  WireCodec T d w (fun _ => True) fun _ => 0

/-- A byte is read back. -/
theorem codec_readByte : StreamCodec T readByte writeByte :=
  .of_recognises recognises_readByte (fun _ _ => rfl) fun _ _ h =>
    ⟨trivial, fun _ => h ▸ Nat.le_refl _⟩

/-- A `bool` is read back. -/
theorem codec_readBool : StreamCodec T readBool writeBool := by
  refine .of_recognises recognises_readBool (fun v _ => readBool_write v) ?_
  rintro _ v ⟨b, rfl, -⟩
  exact ⟨trivial, fun _ => Nat.le_refl 1⟩

/-- A number of any kind is read back. -/
theorem codec_scalar (kind : Scalar α) : StreamCodec T kind.read kind.write :=
  .of_recognises (recognises_scalar kind) (fun _ _ => rfl)
    fun _ _ h => ⟨trivial, fun _ => h ▸ Nat.le_refl _⟩

/-- The texts of an `int` have four bytes. -/
theorem recognises_readSignedInt :
    Recognises readSignedInt fun bs v => bs.length = 4 ∧ v = (ofLittleEndian bs).toInt32 := by
  refine recognises_fixed 4 (fun bs => (ofLittleEndian bs).toInt32)
    "ReadOnlyBinaryStream::read overflowed" fun s hs => ?_
  rw [readSignedInt, if_neg (Bool.eq_false_iff.mp hs.1)]
  rfl

/-- An `int` is read back. -/
theorem codec_readSignedInt : StreamCodec T readSignedInt fun v => writeSignedInt v.toUInt32 where
  accepts _ _ _ _ hs hrest := readSignedInt_write hs.1 hrest
  yields := recognises_readSignedInt.yields.mono fun _ _ h =>
    ⟨trivial, fun _ => Nat.le_of_eq h.1.symm⟩

/-- A varint is read back. -/
theorem codec_readUnsignedVarInt : StreamCodec T readUnsignedVarInt writeUnsignedVarInt :=
  .of_recognises recognises_readUnsignedVarInt (fun v _ => isVarInt_writeUnsignedVarInt v)
    fun _ _ h => ⟨trivial, fun _ => writeUnsignedVarInt_le h⟩

/-- A signed varint is read back. -/
theorem codec_readVarInt : StreamCodec T readVarInt writeVarInt :=
  .of_recognises recognises_readVarInt (fun v _ => isSignedVarInt_write v)
    fun _ _ h => ⟨trivial, fun _ => writeVarInt_le h⟩

/-- A signed varint of 64 bits is read back. -/
theorem codec_readVarInt64 : StreamCodec T readVarInt64 writeVarInt64 :=
  .of_recognises recognises_readVarInt64 (fun v _ => isSignedVarInt64_write v)
    fun _ _ h => ⟨trivial, fun _ => writeVarInt64_le h⟩

/-- So many bytes come back. -/
theorem recognises_readBytes (num : ℕ) :
    Recognises (fun s : ReadOnlyBinaryStream => s.readBytes num) fun (bs v : Bytes) => bs.length =
      num ∧ v = bs := by
  refine recognises_fixed num (fun bs => bs) "ReadOnlyBinaryStream::readBytes overflowed"
    fun s hs => ?_
  have hpointer : s.mReadPointer ≤ s.mBufferView.length := hs.2
  rw [ReadOnlyBinaryStream.readBytes, if_neg (Bool.eq_false_iff.mp hs.1)]
  by_cases hzero : num = 0
  · subst hzero
    rw [if_pos rfl, if_neg (by omega), List.take_zero]
    rfl
  · rw [if_neg hzero]
    rfl

/-- A string comes back if its length is a 32-bit value. -/
theorem codec_readString :
    WireCodec T readString writeString (fun v => v.length < 2 ^ 32) fun _ => 0 := by
  refine .of_recognises recognises_readString (fun v hv => isString_write hv) ?_
  rintro _ v ⟨before, length, rfl, hbefore, hv⟩
  have hlength : UInt32.ofNat v.length = length := by rw [hv, UInt32.ofNat_toNat]
  refine ⟨hv ▸ length.toNat_lt, fun _ => ?_⟩
  rw [writeString, hlength, List.length_append, List.length_append]
  exact Nat.add_le_add_right (writeUnsignedVarInt_le hbefore) _

/-- `readEnum` and `writeEnum` are those of the value. -/
theorem codec_readEnum {d : StreamRead α} {w : α → Bytes} {P : α → Prop} {u : α → ℕ}
    (h : WireCodec T d w P u) : WireCodec T (readEnum d) w P u := h.mapError

end

/-- An enumeration that is a byte, as a variable-length integer. -/
theorem codec_byteEnum {T : Prop} :
    WireCodec T ((StreamRead.reader (readEnum readUnsignedVarInt)).cast UInt32.toUInt8)
    (fun c => writeUnsignedVarInt c.toUInt32) (fun _ => True) fun _ => 0 := by
  refine (codec_readEnum codec_readUnsignedVarInt).reader.cast_of_le (g := UInt8.toUInt32)
    (fun c => UInt8.toUInt8_toUInt32 c) fun n => writeUnsignedVarInt_length_mono ?_
  rw [UInt8.toNat_toUInt32, UInt32.toNat_toUInt8]
  exact Nat.mod_le _ _

/-- A signed integer is written as the unsigned one with its bits. -/
theorem writeSignedInt_eq (value : UInt32) : writeSignedInt value = writeUnsignedInt value := by
  have hbyte : ∀ i : ℕ, i < 4 → ((value >>> (UInt32.ofNat i * 8)) &&& 0xff).toUInt8 =
      UInt8.ofNat (value.toNat / 256 ^ i % 256) := by
    intro i hi
    apply UInt8.toNat_inj.mp
    have hshift : (UInt32.ofNat i * 8).toNat = 8 * i := by
      rw [UInt32.toNat_mul, UInt32.toNat_ofNat', Nat.mod_eq_of_lt (by omega : i < 2 ^ 32)]
      show i * 8 % 2 ^ 32 = 8 * i
      omega
    have hmask : ∀ n : ℕ, n &&& 255 = n % 256 := fun n => Nat.and_two_pow_sub_one_eq_mod n 8
    rw [UInt32.toNat_toUInt8, UInt32.toNat_and, UInt32.toNat_shiftRight, hshift,
      Nat.mod_eq_of_lt (by omega : 8 * i < 32), Nat.shiftRight_eq_div_pow, UInt8.toNat_ofNat']
    show (value.toNat / 2 ^ (8 * i) &&& 255) % 256 = _
    rw [hmask, Nat.pow_mul]
  have hwritten : writeSignedInt value = (List.range 4).map fun i =>
      UInt8.ofNat (value.toNat / 256 ^ i % 256) :=
    List.map_congr_left fun i hi => hbyte i (List.mem_range.mp hi)
  have hbytes : writeUnsignedInt value = littleEndian 4 value.toNat := rfl
  have hplaces : List.range 4 = [0, 1, 2, 3] := rfl
  rw [hwritten, hbytes, hplaces]
  simp only [List.map_cons, List.map_nil, littleEndian, Nat.div_div_eq_div_mul, Nat.pow_zero,
    Nat.div_one]
  rfl

/-- The same as a signed integer. -/
theorem codec_signedByteEnum {T : Prop} : WireCodec T
    ((StreamRead.reader (readEnum readSignedInt)).cast fun value : Int32 => value.toUInt32.toUInt8)
    (fun c => writeSignedInt c.toUInt32) (fun _ => True) fun _ => 0 :=
  (codec_readEnum codec_readSignedInt).reader.cast_of_le (g := fun c : UInt8 => c.toUInt32.toInt32)
    (fun c => UInt8.toUInt8_toUInt32 c)
    fun _ => Nat.le_refl 4

/-- The same as an unsigned integer. -/
theorem codec_unsignedByteEnum {T : Prop} : WireCodec T
    ((StreamRead.reader (readEnum readUnsignedInt)).cast UInt32.toUInt8)
    (fun c => writeUnsignedInt c.toUInt32)
    (fun _ => True) fun _ => 0 :=
  (codec_readEnum (codec_scalar Scalar.uint32)).reader.cast_of_le (g := UInt8.toUInt32)
    (fun c => UInt8.toUInt8_toUInt32 c)
    fun _ => Nat.le_of_eq ((littleEndian_length _ _).trans (littleEndian_length _ _).symm)

/-! ### Prefixes -/

namespace Integral

variable {t : Integral} {v : BitVec t.width}

/-- A value is cast to itself. -/
theorem cast_value : t.cast (t.value v) = v := by
  unfold cast value
  split
  · exact BitVec.ofInt_toInt
  · rw [BitVec.ofInt_natCast, BitVec.ofNat_toNat, BitVec.setWidth_eq]

/-- The type has the values of `n` bits and, if it is signed, negative ones. -/
theorem value_bounds (v : BitVec t.width) : ∃ n ≤ 64, (∀ m, t.Fits m ↔ m < 2 ^ n) ∧
    t.value v < ((2 ^ n : ℕ) : ℤ) ∧ (0 ≤ t.value v ∨ n ≤ 63 ∧ -((2 ^ 63 : ℕ) : ℤ) ≤ t.value v) := by
  have hwidth := t.width_le
  unfold Fits value
  cases t.signed with
  | false =>
    refine ⟨t.width, hwidth, fun m => Iff.rfl, ?_, Or.inl ?_⟩
    · exact Int.ofNat_lt.mpr v.isLt
    · exact Int.natCast_nonneg _
  | true =>
    have hpow : 2 ^ (t.width - 1) ≤ 2 ^ 63 := Nat.pow_le_pow_right (by decide) (by omega)
    have hlt : v.toInt < ((2 ^ (t.width - 1) : ℕ) : ℤ) := by
      rw [Int.natCast_pow]
      exact BitVec.toInt_lt
    have hge : -((2 ^ (t.width - 1) : ℕ) : ℤ) ≤ v.toInt := by
      rw [Int.natCast_pow]
      exact BitVec.le_toInt v
    have hcast : ((2 ^ (t.width - 1) : ℕ) : ℤ) ≤ ((2 ^ 63 : ℕ) : ℤ) := Int.ofNat_le.mpr hpow
    exact ⟨t.width - 1, by omega, fun m => Iff.rfl, hlt, Or.inr ⟨by omega, by omega⟩⟩

/-- The size of a value is the value or, if this is negative, no size of a container. -/
theorem toSize_cases (v : BitVec t.width) :
    (t.Fits (t.toSize v) ∧ t.cast (t.toSize v) = v) ∨
    (¬ t.Fits (t.toSize v) ∧ maxSize < t.toSize v) := by
  have hsize : t.toSize v = (t.value v % 2 ^ 64).toNat := BitVec.toNat_ofInt ..
  obtain ⟨n, hn, hfits, hlt, hsign⟩ := value_bounds v
  rcases Int.lt_or_le (t.value v) 0 with hneg | hnonneg
  · obtain ⟨hn', hge⟩ := hsign.resolve_left (Int.not_le.mpr hneg)
    -- a negative value is sign-extended
    have hlarge : 2 ^ 63 ≤ t.toSize v := by
      rw [hsize]
      omega
    refine Or.inr ⟨fun h => ?_, Nat.lt_of_lt_of_le (by decide) hlarge⟩
    have hpow : 2 ^ n ≤ 2 ^ 63 := Nat.pow_le_pow_right (by decide) hn'
    exact Nat.not_lt.mpr (Nat.le_trans hpow hlarge) ((hfits _).mp h)
  · have hpow : 2 ^ n ≤ 2 ^ 64 := Nat.pow_le_pow_right (by decide) hn
    have hcast : ((2 ^ n : ℕ) : ℤ) ≤ ((2 ^ 64 : ℕ) : ℤ) := Int.ofNat_le.mpr hpow
    have heq : (t.toSize v : ℤ) = t.value v := by
      rw [hsize]
      omega
    refine Or.inl ⟨(hfits _).mpr (Int.ofNat_lt.mp (heq ▸ hlt)), ?_⟩
    rw [heq, cast_value]

/-- A size that is not too large fits. -/
theorem fits_toSize (h : t.toSize v ≤ maxSize) : t.Fits (t.toSize v) :=
  ((toSize_cases v).resolve_right fun h' => Nat.not_le.mpr h'.2 h).1

/-- A size that fits is cast back. -/
theorem cast_toSize (h : t.Fits (t.toSize v)) : t.cast (t.toSize v) = v :=
  ((toSize_cases v).resolve_right fun h' => h'.1 h).2

end Integral

/-- The values of a prefix come back. -/
def Prefix.Codec (T : Prop) (before : Prefix) : Prop := StreamCodec T before.read before.write

/-- A length is read back where its prefix is. -/
theorem Prefix.Codec.readLength {T : Prop} {before : Prefix} (h : before.Codec T)
    (message : String) :
    WireCodec T (before.readLength message) before.write (fun _ => True) fun _ => 0 :=
  (WireCodec.mapError h).reader

/-- A prefix of the functions of an integer type. -/
theorem codec_ofCodec {T : Prop} {α : Type} {t : Integral} {bits : α → BitVec t.width}
    {value : BitVec t.width → α} {hbits : ∀ v, bits (value v) = v} {write : α → Bytes}
    {read : StreamRead α}
    {h : ∀ a, Accepts read (write a) a} (hvalue : ∀ a, value (bits a) = a)
    (hcodec : StreamCodec T read write) :
    (Prefix.ofCodec t bits value hbits write read h).Codec T :=
  (WireCodec.bind_pure (g := value) (k := bits) hcodec fun c a =>
    ⟨fun heq => heq ▸ (hbits c).symm, fun heq => heq ▸ hvalue a⟩)

/-- A length of one byte is read back. -/
theorem codec_byte {T : Prop} : Prefix.byte.Codec T := codec_ofCodec (fun _ => rfl) codec_readByte

/-- So is one of four bytes. -/
theorem codec_unsignedInt {T : Prop} : Prefix.unsignedInt.Codec T :=
  WireCodec.bind_pure (g := UInt32.ofBitVec) (k := UInt32.toBitVec) (codec_scalar Scalar.uint32)
    fun _ _ => ⟨fun heq => heq ▸ rfl, fun heq => heq ▸ rfl⟩

/-- So is a varint. -/
theorem codec_unsignedVarInt {T : Prop} : Prefix.unsignedVarInt.Codec T :=
  codec_ofCodec (fun _ => rfl) codec_readUnsignedVarInt

/-- So is a signed varint. -/
theorem codec_varInt {T : Prop} : Prefix.varInt.Codec T :=
  codec_ofCodec (fun _ => rfl) codec_readVarInt

/-! ### Combinators -/

/-- The switch finds the alternative at the index. -/
theorem emplaceVariantSwitch_ok {n : ℕ} {A : Fin n → Type} {new : ∀ i, A i} {index : ℕ} {i : Fin n}
    {var : Variant A} (h : emplaceVariantSwitch new index i = .ok var) :
    index = var.1 ∧ var.2 = new var.1 := by
  fun_induction emplaceVariantSwitch new index i with
  | case1 i heq =>
    cases h
    exact ⟨heq, rfl⟩
  | case2 i hne hnext ih => exact ih h
  | case3 i hne hend => cases h

section

variable {T : Prop} {α : Type} {before : Prefix} {value : α} {w : α → Bytes} {r : α → Reader α}
  {P : α → Prop}
  {u : α → ℕ} {old : List α}

/-- A list comes back if its elements do and its size fits the prefix. -/
theorem codec_readArray (hbefore : before.Codec T)
    (h : ∀ t, t = value ∨ t ∈ old → WireCodec T (r t) w P u) :
    WireCodec T (readArray before value r old) (writeArray before w)
      (fun xs => before.Fits xs.length ∧ xs.length ≤ maxSize ∧ ∀ x ∈ xs, P x) fun xs =>
      (xs.map u).sum := by
  refine (WireCodec.bind (Q := fun _ => True) (g := fun xs : List α => before.cast xs.length)
    (R := fun xs => before.Fits xs.length ∧ xs.length ≤ maxSize ∧ ∀ x ∈ xs, P x)
    (hbefore.readLength _) fun length _ => ?_).congr ?_ (fun _ _ => rfl) fun xs _ => Nat.zero_add _
  · unfold resize
    split
    · next hlarge =>
      -- no list of this size can be written
      refine WireCodec.fail fun xs => ?_
      rintro ⟨⟨hlength, -⟩, hfits, hsize, -⟩
      rw [← hlength, hfits.toSize_cast] at hlarge
      exact Nat.not_le.mpr hlarge hsize
    · next hsize =>
      refine (WireCodec.each fun t ht => h t (mem_resized ht)).congr (fun xs => ?_) (fun _ _ => rfl)
        fun _ _ => rfl
      rw [length_resized, and_true]
      have hfits := Integral.fits_toSize (Nat.le_of_not_lt hsize)
      constructor
      · rintro ⟨hlength, hxs⟩
        rw [hlength]
        exact ⟨Integral.cast_toSize hfits, hfits, Nat.le_of_not_lt hsize, hxs⟩
      · rintro ⟨hlength, hxsFits, -, hxs⟩
        exact ⟨by rw [← hlength, hxsFits.toSize_cast], hxs⟩
  · exact fun xs => by rw [true_and, true_and]

/-- The same for the prefix that `readArray` has by default. -/
theorem codec_readUnsignedArray (h : ∀ t, t = value ∨ t ∈ old → WireCodec T (r t) w P u) :
    WireCodec T (readArray Prefix.unsignedVarInt value r old) (writeArray Prefix.unsignedVarInt w)
      (fun xs => xs.length < 2 ^ 32 ∧ ∀ x ∈ xs, P x) fun xs => (xs.map u).sum :=
  (codec_readArray codec_unsignedVarInt h).congr
    (fun xs => ⟨fun ⟨hfits, _, hxs⟩ => ⟨hfits, hxs⟩,
      fun ⟨hfits, hxs⟩ => ⟨hfits, Nat.le_trans (Nat.le_of_lt hfits) (by decide), hxs⟩⟩)
    (fun _ _ => rfl) fun _ _ => rfl

/-- An optional value comes back if it does. -/
theorem codec_readOptional (h : WireCodec T (r value) w P u) :
    WireCodec T (readOptional value r) (writeOptional w) (fun x => ∀ a ∈ x, P a) fun x =>
      x.elim 0 u := by
  refine (WireCodec.bind (Q := fun _ => True) (g := Option.isSome)
    (v := fun x : Option α => x.elim [] w)
    (R := fun x => ∀ a ∈ x, P a) (n := fun x => x.elim 0 u) (codec_readBool.mapError).reader
    fun hasValue _ => ?_).congr ?_ (fun x _ => ?_) fun x _ => Nat.zero_add _
  · cases hasValue with
    | false =>
      refine (WireCodec.pure (Q := fun x : Option α => x = none) (c := none) fun x => Iff.rfl).congr
        (fun x => ?_) (fun x hx => ?_) fun x hx => ?_
      · cases x <;> simp
      · rw [hx.1]
        rfl
      · rw [hx.1]
        rfl
    | true =>
      refine WireCodec.inj (k := some) h (fun a => rfl) (fun a => rfl) fun x => ?_
      cases x <;> simp
  · exact fun x => by rw [true_and, true_and]
  · cases x <;> rfl

variable {n : ℕ} [NeZero n] {A : Fin n → Type} {new : ∀ i, A i} {wv : ∀ i, A i → Bytes}
  {rv : ∀ i, A i → Reader (A i)}
  {Pv : ∀ i, A i → Prop} {uv : ∀ i, A i → ℕ}

/-- An alternative comes back if it does. -/
theorem codec_readVariant (hbefore : before.Codec T) (hfits : ∀ i : Fin n, before.Fits i)
    (h : ∀ i, WireCodec T (rv i (new i)) (wv i) (Pv i) (uv i)) :
    WireCodec T (readVariant .plain before new rv) (writeVariant .plain before wv)
      (fun var => Pv var.1 var.2) fun var => uv var.1 var.2 := by
  refine (WireCodec.bind (Q := fun _ => True) (g := fun var : Variant A => before.cast (var.1 : ℕ))
    (R := fun var => Pv var.1 var.2) (n := fun var => uv var.1 var.2) (hbefore.readLength _)
    fun index _ => ?_).congr ?_ (fun _ _ => rfl) fun var _ => Nat.zero_add _
  · split
    · next e he =>
      refine WireCodec.fail fun var => ?_
      rintro ⟨⟨rfl, -⟩, -⟩
      rw [VariantKind.position, (hfits var.1).toSize_cast, emplaceVariant_eq] at he
      cases he
    · next var hvar =>
      -- the index is that of the alternative that was found
      obtain ⟨hindex, hvalue⟩ := emplaceVariantSwitch_ok hvar
      change before.toSize index = var.1 at hindex
      rw [hvalue]
      refine WireCodec.inj (k := fun a => (⟨var.1, a⟩ : Variant A)) (h var.1) (fun _ => rfl)
        (fun _ => rfl)
        fun c => ⟨?_, ?_⟩
      · rintro ⟨⟨heq, -⟩, hP⟩
        have hsame : c.1 = var.1 := by
          rw [← heq, (hfits c.1).toSize_cast] at hindex
          exact Fin.ext hindex
        obtain ⟨i, a⟩ := c
        subst hsame
        exact ⟨a, rfl, hP⟩
      · rintro ⟨a, rfl, hP⟩
        refine ⟨⟨?_, trivial⟩, hP⟩
        rw [← hindex]
        exact Integral.cast_toSize (hindex ▸ hfits var.1)
  · exact fun x => by rw [true_and, true_and]

end

/-! ### Parts under a condition -/

/-- A part that is read under a condition, and else stays as it is. -/
def readIf {α : Type} (condition : Prop) [Decidable condition] (d : Reader α) (old : α) :
    Reader α :=
  if condition then d else pure old

/-- A field that is read on a condition accepts its text on that condition. -/
theorem accepts_readIf {α : Type} {condition : Prop} [Decidable condition] {d : Reader α}
    {old a : α} {bs : Bytes}
    (h : condition → Accepts d bs a) :
    Accepts (readIf condition d old) (if condition then bs else []) (if condition then a
                                                                     else old) := by
  unfold readIf
  split
  · next hcondition => exact h hcondition
  · exact accepts_pure old

/-- A field that is written on a condition is read back. -/
theorem codec_readIf {T : Prop} {α : Type} {condition : Prop} [Decidable condition]
    {d : Reader α} {old : α}
    {w : α → Bytes} {P : α → Prop} {u : α → ℕ} (h : condition → WireCodec T d w P u) :
    WireCodec T (readIf condition d old) (fun a => if condition then w a else [])
      (fun a => if condition then P a else a = old) fun a => if condition then u a else 0 := by
  unfold readIf
  by_cases hcondition : condition
  · simp only [if_pos hcondition]
    exact h hcondition
  · simp only [if_neg hcondition]
    refine (WireCodec.pure (Q := fun a => a = old) fun _ => Iff.rfl).congr (fun a => ?_)
      (fun _ _ => rfl) fun _ _ => rfl
    rw [and_true]

/-- A part that has its default value unless it is transmitted, and then fits. -/
theorem if_text_iff {condition : Prop} [Decidable condition] {text : Bytes} :
    (if condition then text.length < 2 ^ 32 else text = []) ↔ (¬ condition → text = []) ∧
    text.length < 2 ^ 32 := by
  split
  · next h => exact ⟨fun hsize => ⟨fun hnot => absurd h hnot, hsize⟩, And.right⟩
  · next h =>
    constructor
    · rintro rfl
      exact ⟨fun _ => rfl, Nat.two_pow_pos 32⟩
    · exact fun htext => htext.1 h

/-- A list that is not transmitted is empty, and an empty one fits. -/
theorem if_fits_iff {α : Type} {condition : Prop} [Decidable condition] {xs : List α}
    {P : α → Prop} :
    (if condition then xs.length < 2 ^ 32 ∧ ∀ x ∈ xs, P x else xs = []) ↔
      (¬ condition → xs = []) ∧ xs.length < 2 ^ 32 ∧ ∀ x ∈ xs, P x := by
  split
  · next h => exact ⟨fun hxs => ⟨fun hnot => absurd h hnot, hxs⟩, And.right⟩
  · next h =>
    constructor
    · rintro rfl
      exact ⟨fun _ => rfl, Nat.two_pow_pos 32, fun _ hx => absurd hx List.not_mem_nil⟩
    · exact fun hxs => hxs.1 h

/-- Each part of what is written under a condition is written under it. -/
theorem if_append {condition : Prop} [Decidable condition] {xs ys : Bytes} :
    (if condition then xs ++ ys else []) = (if condition then xs else []) ++ if condition then ys
                                                                             else [] := by
  split
  · rfl
  · rfl

/-! ### Which values come back -/

section

variable {T : Prop} {α : Type} {d : Reader α} {w : α → Bytes} {P : α → Prop} {u : α → ℕ} {a : α}

/-- The values that are read from what is written of them. -/
theorem WireCodec.reads_back_iff (h : WireCodec True d w P u) : Accepts d (w a) a ↔ P a ∧ u a = 0 :=
  h.accepts_iff (s := ofBuffer (w a)) ⟨rfl, Nat.zero_le _⟩ rfl

/-- Where nothing is left unread, a value is read back exactly if it fits. -/
theorem WireCodec.reads_back_iff_of_complete (h : WireCodec T d w P u) (hu : u a = 0) :
    Accepts d (w a) a ↔ P a :=
  h.accepts_iff_of_complete hu (s := ofBuffer (w a)) ⟨rfl, Nat.zero_le _⟩ rfl

end

end SculkProtocol
