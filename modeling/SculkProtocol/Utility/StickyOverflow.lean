import SculkProtocol.Utility.CursorBounds

/-!
# Reading after an overflow

With the flag set, what reads a value of a fixed size fails and changes nothing, and so does what
begins with such a read. The readers of variable-length integers, `readRawBytes` and `ignoreBytes`
do not look at the flag: they fail only if there is nothing left for them (`Operation.Blocked`).
-/

namespace SculkProtocol

open Decoder

namespace Cursor

variable {m : Cursor}

/-- The position does not go back. -/
def Advances (m m' : Cursor) : Prop := m.mReadPointer.toNat ≤ m'.mReadPointer.toNat

/-- Advancing steps compose. -/
theorem advances : ReadSteps Advances where
  refl _ := Nat.le_refl _
  trans := Nat.le_trans
  flagged _ := Nat.le_refl _
  forwarded h := by
    rw [Advances, forward, moveTo, toNat_add_of_fits h]
    exact Nat.le_add_right ..
  skipped h := by
    rw [Advances, moveTo, toNat_add_of_fits h]
    exact Nat.le_add_right ..

/-! ### Operations -/

/-- Nothing is left. -/
def AtEnd (m : Cursor) : Prop := m.mBufferView.bytes.length ≤ m.mReadPointer.toNat

end Cursor

open Cursor

/-- The function reads a variable-length integer. -/
def PrefixFunction.isVarInt : PrefixFunction → Bool
  | readUnsignedVarInt | readUnsignedVarInt64 | readVarInt | readVarInt64 => true
  | _ => false

def PrefixFunction.Blocked (f : PrefixFunction) (m : Cursor) : Prop := f.isVarInt = true → m.AtEnd

/-- A read operation that asks for one byte at least. -/
inductive Operation
  | readInteger (f : PrefixFunction)
  | readFloat
  | readDouble
  | readBytes (num : UInt64) (hnum : num ≠ 0)
  | readString
  | readLongString
  | readRawBytes (length : UInt64) (hlength : length ≠ 0)
  | ignoreBytes (length : UInt64) (hlength : length ≠ 0)
  | readArray {α : Type} (before : PrefixFunction) (value : α) (func : α → CursorRead α)
      (outVector : List α)
  | readMap {κ α : Type} [LT κ] [DecidableLT κ] [Trans (α := κ) (· < ·) (· < ·) (· < ·)]
      (before : PrefixFunction)
      (key : κ) (value : α) (func : κ → α → CursorRead (κ × α))
  | readOptional {α : Type} (value : α) (func : α → CursorRead α)
  | readBitset (N : ℕ) (hN : 0 < N)
  | readEnum (f : PrefixFunction)
  | readVariant {n : ℕ} [NeZero n] {T : Fin n → Type} (kind : VariantKind n)
      (before : PrefixFunction)
      (value : ∀ i, T i) (visitor : ∀ i, T i → CursorRead (T i))

namespace Operation

def Result : Operation → Type
  | readInteger f | readEnum f => BitVec f.toPrefix.width
  | readFloat => UInt32
  | readDouble => UInt64
  | readBytes _ _ | readString | readLongString | readRawBytes _ _ => Bytes
  | ignoreBytes _ _ => Unit
  | @readArray α _ _ _ _ => List α
  | @readMap κ α _ _ _ _ _ _ _ => OrderedMap κ α
  | @readOptional α _ _ => Option α
  | readBitset N _ => Bitset N
  | @readVariant _ _ T _ _ _ _ => Variant T

def run : (op : Operation) → CursorRead op.Result
  | readInteger f => f.read
  | readFloat => Cursor.readFloat
  | readDouble => Cursor.readDouble
  | readBytes num _ => Cursor.readBytes num
  | readString => Cursor.readString
  | readLongString => Cursor.readLongString
  | readRawBytes length _ => Cursor.readRawBytes length
  | ignoreBytes length _ => Cursor.ignoreBytes length
  | readArray before value func outVector => Cursor.readArray before value func outVector
  | readMap before key value func => Cursor.readMap before key value func
  | readOptional value func => Cursor.readOptional value func
  | readBitset N _ => Cursor.readBitset N
  | readEnum f => Cursor.readEnum f.read
  | readVariant kind before value visitor => Cursor.readVariant kind before value visitor

/-- There is nothing left for an operation that does not look at the flag. -/
def Blocked (m : Cursor) : Operation → Prop
  | readInteger f | readEnum f => f.Blocked m
  | readArray before _ _ _ | readMap before _ _ _ | readVariant _ before _ _ => before.Blocked m
  | readString => m.AtEnd
  | readRawBytes length _ | ignoreBytes length _ =>
    m.mBufferView.bytes.length < m.mReadPointer.toNat + length.toNat
  | readFloat | readDouble | readBytes _ _ | readLongString | readOptional _ _ | readBitset _ _ =>
    True

/-- The functions that a combinator takes do not go back. -/
def Forward : Operation → Prop
  | readArray _ _ func _ | readOptional _ func => ∀ a, Always Advances (func a)
  | readMap _ _ _ func => ∀ k a, Always Advances (func k a)
  | readVariant _ _ _ visitor => ∀ i a, Always Advances (visitor i a)
  | _ => True

end Operation

/-! ### Refused reads -/

namespace Cursor

variable {α γ V : Type} {d : CursorRead α} {f : α → CursorRead γ} {num : UInt64}

/-- A read fails and changes nothing. -/
def Stuck (d : CursorRead α) (m : Cursor) : Prop := ∃ e, d m = (m, .error e)

/-- A read that is stuck refuses its text. -/
theorem Stuck.refuses (h : Stuck d m) : Refuses d m := by
  obtain ⟨e, h⟩ := h
  rw [Refuses, h]
  exact ⟨⟨e, rfl⟩, rfl⟩

/-- What begins stuck is stuck. -/
theorem Stuck.bind (h : Stuck d m) : Stuck (d >>= f) m := by
  obtain ⟨e, h⟩ := h
  exact ⟨e, bind_of_error h⟩

/-- Renaming errors frees nothing. -/
theorem Stuck.mapError {g : Failure → Failure} (h : Stuck d m) : Stuck (d.mapError g) m := by
  obtain ⟨e, h⟩ := h
  exact ⟨g e, by simp only [Decoder.mapError, h]⟩

/-- The flag is set already. -/
theorem stuck_overflow (hflag : m.mHasOverflowed = true) (message : String) :
    Stuck (overflow message : CursorRead α) m := by
  refine ⟨.error message, ?_⟩
  rw [overflow, ← hflag]

/-- Taking too many bytes is stuck after an overflow. -/
theorem stuck_takeBytes (hflag : m.mHasOverflowed = true) {message : String} {value : Bytes → α}
    (h : m.mBufferView.bytes.length < m.mReadPointer.toNat + num.toNat) :
    Stuck (takeBytes num message value) m := by
  rw [Stuck, takeBytes, if_pos h]
  exact stuck_overflow hflag message

/-- Reading a number is stuck after an overflow. -/
theorem stuck_read {kind : Scalar α} (hflag : m.mHasOverflowed = true) : Stuck (read kind) m := by
  rw [Stuck, read, if_pos hflag]
  exact ⟨_, rfl⟩

/-- So is reading a block. -/
theorem stuck_readBytes (hflag : m.mHasOverflowed = true) : Stuck (readBytes num) m := by
  rw [Stuck, readBytes, if_pos hflag]
  exact ⟨_, rfl⟩

/-- Reading raw bytes is stuck if there are too few. -/
theorem stuck_readRawBytes (hflag : m.mHasOverflowed = true) (hnum : num ≠ 0)
    (h : m.mBufferView.bytes.length < m.mReadPointer.toNat + num.toNat) :
    Stuck (readRawBytes num) m := by
  rw [Stuck, readRawBytes_eq, if_neg hnum]
  exact stuck_takeBytes hflag h

/-- So is ignoring bytes. -/
theorem stuck_ignoreBytes (hflag : m.mHasOverflowed = true)
    (h : m.mBufferView.bytes.length < m.mReadPointer.toNat + num.toNat) :
    Stuck (ignoreBytes num) m := by
  rw [Stuck, ignoreBytes_eq, if_pos h]
  exact stuck_overflow hflag _

/-- The loop fails before its first byte. -/
theorem stuck_readVarIntGroups (hflag : m.mHasOverflowed = true) (hend : m.AtEnd)
    (kind : ReadOnlyBinaryStream.VarIntKind V) (value : V) (groups : ℕ) :
    Stuck (readVarIntGroups kind value groups) m := by
  cases groups with
  | zero => exact stuck_overflow hflag _
  | succ groups =>
    obtain ⟨-, h⟩ | ⟨hfits, -⟩ := readVarIntGroups_cases kind value groups m
    · rw [Stuck, h]
      exact stuck_overflow hflag _
    · exact absurd hfits (Nat.not_lt.mpr hend)

/-- So is a length that is blocked. -/
theorem stuck_function (hflag : m.mHasOverflowed = true) {f : PrefixFunction} (hf : f.Blocked m) :
    Stuck f.read m := by
  cases f with
  | readUnsignedVarInt | readUnsignedVarInt64 =>
    exact (stuck_readVarIntGroups hflag (hf rfl) _ _ _).bind
  | readVarInt | readVarInt64 =>
    exact (stuck_readVarIntGroups hflag (hf rfl) _ _ _).mapError.bind.bind
  | readBool => exact (stuck_read hflag).bind.bind
  | readSignedBigEndianInt => exact (stuck_read hflag).mapError.bind.bind
  | _ => exact (stuck_read hflag).bind

/-- A chunk of a bitset is stuck after an overflow. -/
theorem stuck_readChunk (hflag : m.mHasOverflowed = true) : Stuck readChunk m := by
  obtain ⟨e, h⟩ : Stuck readByte m := stuck_read hflag
  rw [Stuck, readChunk]
  simp only [h]
  exact stuck_overflow hflag _

/-- So is a bitset that has bits. -/
theorem stuck_readBitset (hflag : m.mHasOverflowed = true) {N : ℕ} (hN : 0 < N) :
    Stuck (readBitset N) m := by
  rw [readBitset, readChunks, if_pos hN]
  exact (stuck_readChunk hflag).bind

/-! ### Reads that are not refused -/

/-- A read moves the position, whether it succeeds or not. -/
def Passes (d : CursorRead α) (m : Cursor) : Prop :=
  m.mReadPointer.toNat < (d m).1.mReadPointer.toNat

/-- What passes refuses nothing. -/
theorem Passes.not_refuses (h : Passes d m) : ¬ Refuses d m := by
  rintro ⟨-, hpointer⟩
  rw [Passes, hpointer] at h
  exact Nat.lt_irrefl _ h

/-- What begins by passing passes. -/
theorem Passes.bind (h : Passes d m) (hf : ∀ a, Always Advances (f a)) : Passes (d >>= f) m := by
  obtain ⟨m', x, hd⟩ : ∃ m' x, d m = (m', x) := ⟨_, _, rfl⟩
  rw [Passes, hd] at h
  cases x with
  | ok a =>
    rw [Passes, bind_of_ok hd]
    exact Nat.lt_of_lt_of_le h (hf a m')
  | error e =>
    rw [Passes, bind_of_error hd]
    exact h

/-- Renaming errors stops nothing. -/
theorem Passes.mapError {g : Failure → Failure} (h : Passes d m) : Passes (d.mapError g) m := by
  obtain ⟨m', x, hd⟩ : ∃ m' x, d m = (m', x) := ⟨_, _, rfl⟩
  rw [Passes, hd] at h
  cases x with
  | ok a => simpa only [Passes, Decoder.mapError, hd] using h
  | error e => simpa only [Passes, Decoder.mapError, hd] using h

/-- The loop passes its first byte. -/
theorem passes_readVarIntGroups (hdata : ¬ m.AtEnd) (kind : ReadOnlyBinaryStream.VarIntKind V)
    (value : V)
    (groups : ℕ) : Passes (readVarIntGroups kind value (groups + 1)) m := by
  obtain ⟨hend, -⟩ | ⟨hfits, h | ⟨v, h⟩ | ⟨value', h⟩⟩ := readVarIntGroups_cases kind value groups m
  · exact absurd hend hdata
  all_goals
    have hstep : (m.forward 1).mReadPointer.toNat = m.mReadPointer.toNat + 1 :=
      (decodes_forward hfits).1
    have hpass : m.mReadPointer.toNat < (m.forward 1).mReadPointer.toNat :=
      hstep ▸ Nat.lt_succ_self _
    rw [Passes, h]
  · exact hpass
  · exact hpass
  · exact Nat.lt_of_lt_of_le hpass (advances.always_readVarIntGroups kind value' groups _)

/-- A length that is a varint passes, unless the cursor is at its end. -/
theorem passes_function {f : PrefixFunction} (hf : f.isVarInt = true) (hdata : ¬ m.AtEnd) :
    Passes f.read m := by
  have hpure : ∀ {β : Type} (b : β), Always Advances (pure b : CursorRead β) := advances.pure
  cases f with
  | readUnsignedVarInt | readUnsignedVarInt64 =>
    exact (passes_readVarIntGroups hdata _ _ _).bind fun _ => hpure _
  | readVarInt | readVarInt64 =>
    exact ((passes_readVarIntGroups hdata _ _ _).mapError.bind fun _ => hpure _).bind
      fun _ => hpure _
  | _ => exact nomatch hf

/-- Only what is blocked is refused by a function that does not look at the flag. -/
theorem blocked_function {f : PrefixFunction} (h : f.isVarInt = true → ¬ m.AtEnd → False) :
    f.Blocked m :=
  fun hf => not_not.mp (h hf)

/-- What fits would be read. -/
theorem beyond_of_refuses_readRawBytes (hnum : num ≠ 0) (h : Refuses (readRawBytes num) m) :
    m.mBufferView.bytes.length < m.mReadPointer.toNat + num.toNat := by
  by_contra hfits
  obtain ⟨⟨e, he⟩, -⟩ := h
  rw [readRawBytes_eq, if_neg hnum, takeBytes, if_neg hfits] at he
  cases he

/-- Ignoring bytes is refused only if there are too few. -/
theorem beyond_of_refuses_ignoreBytes (h : Refuses (ignoreBytes num) m) :
    m.mBufferView.bytes.length < m.mReadPointer.toNat + num.toNat := by
  by_contra hfits
  obtain ⟨⟨e, he⟩, -⟩ := h
  rw [ignoreBytes_eq, if_neg hfits] at he
  cases he

end Cursor

/-- An operation that is blocked after an overflow fails and changes nothing, whatever functions
it was given. -/
theorem Operation.stuck {m : Cursor} (hflag : m.mHasOverflowed = true) {op : Operation}
    (h : op.Blocked m) :
    Stuck op.run m := by
  cases op with
  | readInteger f => exact stuck_function hflag h
  | readFloat | readDouble => exact stuck_read hflag
  | readBytes num hnum => exact stuck_readBytes hflag
  | readString => exact (stuck_readVarIntGroups hflag h _ _ _).mapError.bind
  | readLongString => exact (Stuck.mapError (stuck_read hflag)).bind
  | readRawBytes length hlength => exact stuck_readRawBytes hflag hlength h
  | ignoreBytes length hlength => exact stuck_ignoreBytes hflag h
  | readArray before value func outVector => exact (stuck_function hflag h).mapError.bind
  | readMap before key value func => exact (stuck_function hflag h).mapError.bind
  | readOptional value func => exact (stuck_read hflag).bind.mapError.bind
  | readBitset N hN => exact stuck_readBitset hflag hN
  | readEnum f => exact (stuck_function hflag h).mapError
  | readVariant kind before value visitor => exact (stuck_function hflag h).mapError.bind

/-- Only a blocked operation fails and leaves the position. -/
theorem Operation.blocked {m : Cursor} {op : Operation} (hforward : op.Forward)
    (h : Refuses op.run m) :
    op.Blocked m := by
  -- a length or an index that is read moves the position, and nothing behind it moves it back
  cases op with
  | readInteger f => exact blocked_function fun hf hdata => (passes_function hf hdata).not_refuses h
  | readFloat | readDouble | readBytes _ _ | readLongString | readOptional _ _ | readBitset _ _ =>
    exact trivial
  | readString =>
    by_contra hdata
    exact ((passes_readVarIntGroups hdata _ _ _).mapError.bind fun length =>
      advances.always_readRawBytes _).not_refuses h
  | readRawBytes length hlength => exact beyond_of_refuses_readRawBytes hlength h
  | ignoreBytes length hlength => exact beyond_of_refuses_ignoreBytes h
  | readArray before value func outVector =>
    exact blocked_function fun hf hdata => ((passes_function hf hdata).mapError.bind fun length =>
      advances.always_elements value outVector hforward _).not_refuses h
  | readMap before key value func =>
    exact blocked_function fun hf hdata => ((passes_function hf hdata).mapError.bind fun length =>
      advances.always_readMapEntries key value hforward _ _).not_refuses h
  | readEnum f =>
    exact blocked_function fun hf hdata => (passes_function hf hdata).mapError.not_refuses h
  | readVariant kind before value visitor =>
    exact blocked_function fun hf hdata => ((passes_function hf hdata).mapError.bind fun index =>
      advances.always_alternative value hforward _).not_refuses h

/-! ### Every run -/

/-- One operation after the other, from where the one before has left the stream: every one of
them fails and leaves the position. -/
def Operation.AllRefused : List Operation → Cursor → Prop
  | [], _ => True
  | op :: ops, m => Refuses op.run m ∧ AllRefused ops (op.run m).1

/-- **After an overflow.** If every operation is blocked, every one of them is refused. Where the
functions that combinators take do not go back there is no other way. -/
theorem stays_overflowed {m : Cursor} (hflag : m.mHasOverflowed = true) (ops : List Operation) :
    ((∀ op ∈ ops, op.Blocked m) → Operation.AllRefused ops m) ∧
    ((∀ op ∈ ops, op.Forward) → (Operation.AllRefused ops m ↔ ∀ op ∈ ops, op.Blocked m)) := by
  -- a blocked operation leaves the stream as it is, so the next one starts from the same
  have hnext : ∀ {op : Operation}, op.Blocked m → (op.run m).1 = m := by
    intro op hblocked
    obtain ⟨e, h⟩ := Operation.stuck hflag hblocked
    rw [h]
  have hrefused : ∀ ops : List Operation, (∀ op ∈ ops, op.Blocked m) →
      Operation.AllRefused ops m := by
    intro ops
    induction ops with
    | nil => exact fun _ => trivial
    | cons op ops ih =>
      intro h
      obtain ⟨hblocked, hrest⟩ := List.forall_mem_cons.mp h
      refine ⟨(Operation.stuck hflag hblocked).refuses, ?_⟩
      rw [hnext hblocked]
      exact ih hrest
  refine ⟨hrefused ops, fun hforward => ⟨fun h => ?_, hrefused ops⟩⟩
  induction ops with
  | nil => exact fun op hop => absurd hop List.not_mem_nil
  | cons op ops ih =>
    obtain ⟨hop, hops⟩ := List.forall_mem_cons.mp hforward
    obtain ⟨hrefuses, hrest⟩ := h
    have hblocked := Operation.blocked hop hrefuses
    rw [hnext hblocked] at hrest
    exact List.forall_mem_cons.mpr ⟨hblocked, ih hops hrest⟩

/-- Three bytes are left, and no more than this is asked of the functions that do not look at
the flag. -/
theorem stays_overflowed_short : Operation.AllRefused
    [.readInteger .readUnsignedShort, .readRawBytes 4 (by decide),
      .readArray .readByte 0 (fun _ => readByte) [],
      .readOptional () fun _ => resetPosition] ⟨true, ⟨[1, 2, 3], by decide⟩, 0, [], []⟩ := by
  refine (stays_overflowed rfl _).1 fun op hop => ?_
  simp only [List.mem_cons, List.not_mem_nil, or_false] at hop
  obtain rfl | rfl | rfl | rfl := hop
  · exact fun h => nomatch h
  · show 3 < 0 + 4
    decide
  · exact fun h => nomatch h
  · exact trivial

/-- A number of four bytes overflows, and the byte that there is is read after that. -/
theorem reads_after_overflow :
    let m := (readUnsignedInt (ofBuffer ⟨[7], by decide⟩)).1
    m.mHasOverflowed = true ∧ (readUnsignedVarInt m).2 = .ok 7 ∧ (readRawBytes 1 m).2 = .ok [7] ∧
      (ignoreBytes 1 m).2 = .ok () ∧
          ¬ Operation.AllRefused [.readInteger .readUnsignedVarInt] m := by
  intro m
  have hbyte : m.nextByte.2 = 7 := rfl
  refine ⟨rfl, ?_, ?_, ?_, ?_⟩
  · rw [readUnsignedVarInt, readVarIntGroups_succ, if_neg (by decide), if_neg (by decide),
      if_pos (by decide), hbyte]
    rfl
  · rw [readRawBytes_eq, if_neg (by decide), takeBytes, if_neg (by decide)]
    rfl
  · rw [ignoreBytes_eq, if_neg (by decide)]
  · rintro ⟨hrefuses, -⟩
    have hdata : ¬ m.AtEnd := Nat.not_succ_le_zero 0
    exact (passes_function rfl hdata).not_refuses hrefuses

end SculkProtocol
