import SculkProtocol.Decoding.Transitions
import SculkProtocol.Utility.Cursor

/-!
# What the member functions do to a cursor

The tests of the source are brought to one form: what does not fit is found, whether a sum is
looked at for a wrap (`beyond_iff`) or what is left is found by a subtraction (`readRawBytes_eq`).
So a read takes three kinds of steps: it sets the flag, it reads so many bytes and passes them, or
it passes them alone. A relation that holds of these holds of every read (`ReadSteps`).
-/

namespace SculkProtocol

open Decoder

namespace Cursor

variable {m m' : Cursor} {num : UInt64}

/-- The test for a wrap finds exactly what does not fit. -/
theorem beyond_iff :
    m.Beyond num ↔ m.mBufferView.bytes.length < m.mReadPointer.toNat + num.toNat := by
  have hsize := m.mBufferView.toNat_size
  have hlt := m.mBufferView.length_lt
  have hpointer := m.mReadPointer.toNat_lt
  have hnum := num.toNat_lt
  rw [Beyond, UInt64.lt_iff_toNat_lt, gt_iff_lt, UInt64.lt_iff_toNat_lt, UInt64.toNat_add, hsize]
  omega

/-- What fits does not wrap. -/
theorem toNat_add_of_fits (h : m.mReadPointer.toNat + num.toNat ≤ m.mBufferView.bytes.length) :
    (m.mReadPointer + num).toNat = m.mReadPointer.toNat + num.toNat := by
  have hlt := m.mBufferView.length_lt
  rw [UInt64.toNat_add, Nat.mod_eq_of_lt (Nat.lt_of_le_of_lt h hlt)]

/-- So many bytes are read and passed. -/
def forward (m : Cursor) (num : UInt64) : Cursor :=
  (m.access num.toNat).moveTo (m.mReadPointer + num)

section

variable {α : Type}

/-- What the reads of so many bytes have in common, without the arithmetic of `std::size_t`. -/
def takeBytes (num : UInt64) (message : String) (value : Bytes → α) : CursorRead α := fun m =>
  if m.mBufferView.bytes.length < m.mReadPointer.toNat + num.toNat then overflow message m
  else (m.forward num, .ok (value (m.bytesAt num.toNat)))

/-- A number is read by taking its bytes. -/
theorem read_eq {kind : Scalar α} (hsize : kind.size ≤ 8) : read kind m =
    if m.mHasOverflowed then error "ReadOnlyBinaryStream::read overflowed" m
    else takeBytes (UInt64.ofNat kind.size) "ReadOnlyBinaryStream::read overflowed"
      (fun bs => kind.ofNat (fromLittleEndian bs)) m := by
  have hnat : (UInt64.ofNat kind.size).toNat = kind.size :=
    UInt64.toNat_ofNat_of_lt' (Nat.lt_of_le_of_lt hsize (by decide))
  simp only [read, takeBytes, forward, beyond_iff, hnat]

/-- A block is read by taking its bytes, none for a length of 0. -/
theorem readBytes_eq : readBytes num m =
    if m.mHasOverflowed then error "ReadOnlyBinaryStream::readBytes overflowed" m
    else if num = 0 then (m, .ok [])
    else takeBytes num "ReadOnlyBinaryStream::readBytes overflowed" id m := by
  simp only [readBytes, takeBytes, forward, beyond_iff, id]

/-- What the subtraction finds is what does not fit, too. -/
theorem readRawBytes_eq {length : UInt64} : readRawBytes length m =
    if length = 0 then (m, .ok [])
    else takeBytes length "ReadOnlyBinaryStream::readRawBytes overflowed" id m := by
  have hsize := m.mBufferView.toNat_size
  unfold readRawBytes takeBytes
  congr 1
  by_cases hpointer : m.mReadPointer > m.mBufferView.size
  · rw [if_pos hpointer, if_pos]
    rw [gt_iff_lt, UInt64.lt_iff_toNat_lt, hsize] at hpointer
    exact Nat.lt_of_lt_of_le hpointer (Nat.le_add_right ..)
  · have hle : m.mReadPointer ≤ m.mBufferView.size := UInt64.not_lt.mp hpointer
    -- the pointer is within the buffer, so the subtraction does not wrap
    have hiff : length > m.mBufferView.size - m.mReadPointer ↔
        m.mBufferView.bytes.length < m.mReadPointer.toNat + length.toNat := by
      rw [gt_iff_lt, UInt64.lt_iff_toNat_lt, UInt64.toNat_sub_of_le _ _ hle, hsize]
      rw [UInt64.le_iff_toNat_le, hsize] at hle
      omega
    rw [if_neg hpointer]
    simp only [hiff]
    rfl

/-- Ignoring bytes is moving over them, if they are there. -/
theorem ignoreBytes_eq {length : UInt64} : ignoreBytes length m =
    if m.mBufferView.bytes.length < m.mReadPointer.toNat + length.toNat then
      overflow "ReadOnlyBinaryStream::ignoreBytes overflowed" m
    else (m.moveTo (m.mReadPointer + length), .ok ()) := by
  simp only [ignoreBytes, beyond_iff]

end

/-! ### Steps -/

/-- A relation that holds of the steps that reads are made of. -/
structure ReadSteps (R : Cursor → Cursor → Prop) : Prop extends StepRelation R where
  flagged (m : Cursor) : R m { m with mHasOverflowed := true }
  forwarded {m : Cursor} {num : UInt64} (h : m.mReadPointer.toNat + num.toNat ≤
    m.mBufferView.bytes.length) :
    R m (m.forward num)
  skipped {m : Cursor} {num : UInt64} (h : m.mReadPointer.toNat + num.toNat ≤
    m.mBufferView.bytes.length) :
    R m (m.moveTo (m.mReadPointer + num))

section

variable {R : Cursor → Cursor → Prop} {α V : Type}

/-- An overflow is a step of a reader. -/
theorem ReadSteps.always_overflow (hR : ReadSteps R) (message : String) :
    Always R (overflow message : CursorRead α) :=
  fun m => hR.flagged m

/-- Taking bytes is a step of a reader. -/
theorem ReadSteps.always_takeBytes (hR : ReadSteps R) (message : String) (value : Bytes → α) :
    Always R (takeBytes num message value) := by
  intro m
  unfold takeBytes
  split
  · exact hR.always_overflow message m
  · next hfits => exact hR.forwarded (Nat.le_of_not_lt hfits)

/-- So is reading a number. -/
theorem ReadSteps.always_read (hR : ReadSteps R) {kind : Scalar α} (hsize : kind.size ≤ 8) :
    Always R (read kind) := by
  intro m
  rw [read_eq hsize]
  split
  · exact hR.refl m
  · exact hR.always_takeBytes _ _ m

/-- So is reading a block. -/
theorem ReadSteps.always_readBytes (hR : ReadSteps R) : Always R (readBytes num) := by
  intro m
  rw [readBytes_eq]
  split
  · exact hR.refl m
  · split
    · exact hR.refl m
    · exact hR.always_takeBytes _ _ m

/-- So is reading raw bytes. -/
theorem ReadSteps.always_readRawBytes (hR : ReadSteps R) (length : UInt64) :
    Always R (readRawBytes length) := by
  intro m
  rw [readRawBytes_eq]
  split
  · exact hR.refl m
  · exact hR.always_takeBytes _ _ m

/-- So is ignoring bytes. -/
theorem ReadSteps.always_ignoreBytes (hR : ReadSteps R) (length : UInt64) :
    Always R (ignoreBytes length) := by
  intro m
  rw [ignoreBytes_eq]
  split
  · exact hR.always_overflow _ m
  · next hfits => exact hR.skipped (Nat.le_of_not_lt hfits)

/-- A varint is read group by group. -/
theorem readVarIntGroups_succ (kind : ReadOnlyBinaryStream.VarIntKind V) (value : V) (groups : ℕ)
    (m : Cursor) :
    readVarIntGroups kind value (groups + 1) m =
      if m.mReadPointer ≥ m.mBufferView.size then overflow kind.message m
      else if 7 * (kind.groups - 1 - groups) = 7 * (kind.groups - 1) ∧ m.nextByte.2 &&& 0x80 = 0 ∧
          m.nextByte.2 &&& kind.mask ≠ 0 then overflow kind.message (m.forward 1)
      else if m.nextByte.2 &&& 0x80 = 0 then
        (m.forward 1, .ok (kind.add value m.nextByte.2 (7 * (kind.groups - 1 - groups))))
      else
        readVarIntGroups kind (kind.add value m.nextByte.2 (7 * (kind.groups - 1 - groups))) groups
          (m.forward 1) :=
  rfl

/-- A round of the loop: there is no byte, or the byte is refused, ends the value, or leaves the
rest to the groups that follow. -/
theorem readVarIntGroups_cases (kind : ReadOnlyBinaryStream.VarIntKind V) (value : V) (groups : ℕ)
    (m : Cursor) :
    (m.mBufferView.bytes.length ≤ m.mReadPointer.toNat ∧
      readVarIntGroups kind value (groups + 1) m = overflow kind.message m) ∨
    (m.mReadPointer.toNat + 1 ≤ m.mBufferView.bytes.length ∧
      (readVarIntGroups kind value (groups + 1) m = overflow kind.message (m.forward 1) ∨
        (∃ v, readVarIntGroups kind value (groups + 1) m = (m.forward 1, .ok v)) ∨
        ∃ value', readVarIntGroups kind value (groups + 1) m = readVarIntGroups kind value' groups
          (m.forward 1))) := by
  rw [readVarIntGroups_succ]
  by_cases hend : m.mReadPointer ≥ m.mBufferView.size
  · rw [if_pos hend]
    rw [ge_iff_le, UInt64.le_iff_toNat_le, Span.toNat_size] at hend
    exact .inl ⟨hend, rfl⟩
  · rw [if_neg hend]
    rw [ge_iff_le, UInt64.not_le, UInt64.lt_iff_toNat_lt, Span.toNat_size] at hend
    refine .inr ⟨hend, ?_⟩
    split
    · exact .inl rfl
    · split
      · exact .inr (.inl ⟨_, rfl⟩)
      · exact .inr (.inr ⟨_, rfl⟩)

theorem ReadSteps.always_readVarIntGroups (hR : ReadSteps R)
    (kind : ReadOnlyBinaryStream.VarIntKind V) (value : V)
    (groups : ℕ) :
    Always R (readVarIntGroups kind value groups) := by
  induction groups generalizing value with
  | zero => exact hR.always_overflow _
  | succ groups ih =>
    intro m
    obtain ⟨-, h⟩ | ⟨hfits, h | ⟨v, h⟩ | ⟨value', h⟩⟩ := readVarIntGroups_cases kind value groups m
    · rw [h]
      exact hR.always_overflow _ m
    all_goals
      have hstep : R m (m.forward 1) := hR.forwarded hfits
      rw [h]
    · exact hR.trans hstep (hR.always_overflow _ _)
    · exact hstep
    · exact hR.trans hstep (ih value' _)

theorem ReadSteps.always_readUnsignedVarInt (hR : ReadSteps R) : Always R readUnsignedVarInt :=
  hR.always_readVarIntGroups _ _ _

theorem ReadSteps.always_readUnsignedVarInt64 (hR : ReadSteps R) : Always R readUnsignedVarInt64 :=
  hR.always_readVarIntGroups _ _ _

theorem ReadSteps.always_readVarInt (hR : ReadSteps R) : Always R readVarInt :=
  hR.bind hR.always_readUnsignedVarInt.mapError fun _ => hR.pure _

theorem ReadSteps.always_readVarInt64 (hR : ReadSteps R) : Always R readVarInt64 :=
  hR.bind hR.always_readUnsignedVarInt64.mapError fun _ => hR.pure _

theorem ReadSteps.always_readByte (hR : ReadSteps R) : Always R readByte :=
  hR.always_read (by decide)

theorem ReadSteps.always_readBool (hR : ReadSteps R) : Always R readBool :=
  hR.bind hR.always_readByte fun _ => hR.pure _

theorem ReadSteps.always_readSignedInt (hR : ReadSteps R) : Always R readSignedInt :=
  hR.always_read (by decide)

theorem ReadSteps.always_readSignedBigEndianInt (hR : ReadSteps R) :
    Always R readSignedBigEndianInt :=
  hR.bind hR.always_readSignedInt.mapError fun _ => hR.pure _

/-- A string is read in steps of a reader. -/
theorem ReadSteps.always_readString (hR : ReadSteps R) : Always R readString :=
  hR.bind hR.always_readUnsignedVarInt.mapError fun _ => hR.always_readRawBytes _

/-- So is a long string. -/
theorem ReadSteps.always_readLongString (hR : ReadSteps R) : Always R readLongString := by
  refine hR.bind hR.always_readSignedInt.mapError fun length => ?_
  split
  · exact hR.fail _
  · exact hR.always_readRawBytes _

/-- So is a length in front of something. -/
theorem ReadSteps.always_function (hR : ReadSteps R) (f : PrefixFunction) : Always R f.read := by
  cases f with
  | readBool => exact hR.bind hR.always_readBool fun _ => hR.pure _
  | readSignedBigEndianInt => exact hR.bind hR.always_readSignedBigEndianInt fun _ => hR.pure _
  | readUnsignedVarInt => exact hR.bind hR.always_readUnsignedVarInt fun _ => hR.pure _
  | readUnsignedVarInt64 => exact hR.bind hR.always_readUnsignedVarInt64 fun _ => hR.pure _
  | readVarInt => exact hR.bind hR.always_readVarInt fun _ => hR.pure _
  | readVarInt64 => exact hR.bind hR.always_readVarInt64 fun _ => hR.pure _
  | _ => exact hR.bind (hR.always_read (by decide)) fun _ => hR.pure _

/-! ### Combinators -/

/-- The elements after their number. -/
theorem ReadSteps.always_elements (hR : ReadSteps R) (value : α) {func : α → CursorRead α}
    (outVector : List α)
    (h : ∀ a, Always R (func a)) (count : ℕ) :
    Always R (if count > maxSize then fail .lengthError
      else
        each func (outVector.take count ++ List.replicate (count - outVector.length) value)) := by
  split
  · exact hR.fail _
  · exact hR.each h _

/-- An array is read in such steps if its elements are. -/
theorem ReadSteps.always_readArray (hR : ReadSteps R) (before : PrefixFunction) (value : α)
    {func : α → CursorRead α}
    (outVector : List α) (h : ∀ a, Always R (func a)) :
    Always R (readArray before value func outVector) :=
  hR.bind (hR.always_function before).mapError fun _ => hR.always_elements value outVector h _

section

variable {κ : Type} [LT κ] [DecidableLT κ] [Trans (α := κ) (· < ·) (· < ·) (· < ·)]

/-- The entries of a map are read in such steps if each of them is. -/
theorem ReadSteps.always_readMapEntries (hR : ReadSteps R) (key : κ) (value : α)
    {func : κ → α → CursorRead (κ × α)}
    (h : ∀ k a, Always R (func k a)) (rounds : ℕ) (outMap : OrderedMap κ α) :
    Always R (readMapEntries key value func rounds outMap) := by
  induction rounds generalizing outMap with
  | zero => exact hR.pure outMap
  | succ rounds ih => exact hR.bind (h key value) fun e => ih _

/-- So is the map. -/
theorem ReadSteps.always_readMap (hR : ReadSteps R) (before : PrefixFunction) (key : κ) (value : α)
    {func : κ → α → CursorRead (κ × α)} (h : ∀ k a, Always R (func k a)) :
    Always R (readMap before key value func) :=
  hR.bind (hR.always_function before).mapError fun _ => hR.always_readMapEntries key value h _ _

end

/-- An optional is read in such steps if its value is. -/
theorem ReadSteps.always_readOptional (hR : ReadSteps R) (value : α) {func : α → CursorRead α}
    (h : ∀ a, Always R (func a)) :
    Always R (readOptional value func) := by
  refine hR.bind hR.always_readBool.mapError fun hasValue => ?_
  split
  · exact hR.bind (h value) fun a => hR.pure _
  · exact hR.pure _

section

variable {n : ℕ} [NeZero n] {T : Fin n → Type}

/-- The alternative after its index. -/
theorem ReadSteps.always_alternative (hR : ReadSteps R) (value : ∀ i, T i)
    {visitor : ∀ i, T i → CursorRead (T i)}
    (h : ∀ i a, Always R (visitor i a)) (index : ℕ) :
    Always R (match emplaceVariant value index with
      | .error _ => error "ReadOnlyBinaryStream::readVariant invalid variant index"
      | .ok var => do
        let a ← visitor var.1 var.2
        pure (⟨var.1, a⟩ : Variant T)) := by
  split
  · exact hR.fail _
  · exact hR.bind (h _ _) fun a => hR.pure _

/-- A variant is read in such steps if its alternatives are. -/
theorem ReadSteps.always_readVariant (hR : ReadSteps R) (kind : VariantKind n)
    (before : PrefixFunction)
    (value : ∀ i, T i) {visitor : ∀ i, T i → CursorRead (T i)} (h : ∀ i a, Always R (visitor i a)) :
    Always R (readVariant kind before value visitor) :=
  hR.bind (hR.always_function before).mapError fun _ => hR.always_alternative value h _

end

/-- A chunk of a bitset is read in such steps. -/
theorem ReadSteps.always_readChunk (hR : ReadSteps R) : Always R readChunk := by
  intro m
  have hbyte := hR.always_readByte m
  unfold readChunk
  split
  · next h =>
    rw [h] at hbyte
    exact hbyte
  · next h =>
    rw [h] at hbyte
    exact hR.trans hbyte (hR.always_overflow _ _)

/-- So are all its chunks. -/
theorem ReadSteps.always_readChunks (hR : ReadSteps R) {N : ℕ} (bitIndex chunkCount : ℕ)
    (seenSetBit : Bool)
    (outBitset : Bitset N) :
    Always R (readChunks bitIndex chunkCount seenSetBit outBitset) := by
  fun_induction readChunks bitIndex chunkCount seenSetBit outBitset with
  | case1 bitIndex chunkCount seenSetBit outBitset hlt ih =>
    refine hR.bind hR.always_readChunk fun byte => ?_
    show Always R (if _ then _ else if _ then if _ then _ else if _ then _ else _ else _)
    split
    · exact hR.always_overflow _
    · split
      · split
        · exact hR.always_overflow _
        · split
          · exact hR.always_overflow _
          · exact hR.pure _
      · exact ih byte
  | case2 => exact hR.always_overflow _

end

end Cursor
end SculkProtocol
