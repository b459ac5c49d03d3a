import SculkProtocol.Decoding.Refinement
import SculkProtocol.Utility.CursorBounds

/-!
# A cursor as a stream

`stream` forgets what is recorded of a cursor, and its positions are natural numbers. As long as a
cursor is within its buffer the two do the same (`Follows`): no sum of positions wraps, and a byte
that is read is there. So what the functions of the stream recognise is what those of the cursor do,
and after each of them the cursor is within its buffer still.
-/

namespace SculkProtocol

open Decoder

/-- What the reads of so many bytes have in common. -/
def ReadOnlyBinaryStream.takeBytes {α : Type} (num : ℕ) (message : String) (value : Bytes → α) :
    StreamRead α :=
  fun s =>
    if s.mBufferView.length < s.mReadPointer + num then s.overflow message
    else (s.advance num, .ok (value ((s.mBufferView.drop s.mReadPointer).take num)))

namespace Cursor

def stream (m : Cursor) : ReadOnlyBinaryStream :=
  ⟨m.mHasOverflowed, m.mBufferView.bytes, m.mReadPointer.toNat⟩

/-- The bytes that are still to be read. -/
def left (m : Cursor) : Bytes := m.mBufferView.bytes.drop m.mReadPointer.toNat

/-- Nothing has been refused. -/
def Ready (m : Cursor) : Prop := m.mHasOverflowed = false ∧ m.Within

/-- A function of the cursor does what one of the stream does. -/
abbrev Follows {α : Type} (d : CursorRead α) (d' : Reader α) : Prop := Refines Within stream d d'

variable {m : Cursor} {num : UInt64}

/-- A cursor that has just been made is ready. -/
theorem ofBuffer_ready (buffer : Span) : (ofBuffer buffer).Ready := ⟨rfl, ofBuffer_within buffer⟩

/-- The position is at most the end. -/
theorem Within.pointer_le (h : m.Within) : m.mReadPointer.toNat ≤ m.mBufferView.bytes.length := by
  have hpointer := h.pointer
  rwa [UInt64.le_iff_toNat_le, Span.toNat_size] at hpointer

/-- The stream of a ready cursor is usable. -/
theorem Ready.usable (h : m.Ready) : InputStream.usable m.stream := ⟨h.1, h.2.pointer_le⟩

/-! ### Bytes -/

/-- The bytes that are read are those of the buffer. -/
theorem bytesAt_eq {n : ℕ} (h : m.mReadPointer.toNat + n ≤ m.mBufferView.bytes.length) :
    m.bytesAt n = m.left.take n := by
  have hlength : (m.left.take n).length = n := by
    rw [List.length_take, left, List.length_drop]
    omega
  apply List.ext_getElem
  · rw [bytesAt_length, hlength]
  · intro i hi hi'
    have hlt : i < n := by rwa [bytesAt_length] at hi
    simp only [bytesAt, left, List.getElem_map, List.getElem_range', List.getElem_take,
      List.getElem_drop, Nat.one_mul]
    rw [List.getD_eq_getElem?_getD, List.getElem?_eq_getElem (by omega), Option.getD_some]

/-- Moving a cursor over bytes that are there moves its stream. -/
theorem stream_forward (h : m.mReadPointer.toNat + num.toNat ≤ m.mBufferView.bytes.length) :
    (m.forward num).stream = m.stream.advance num.toNat := by
  show ReadOnlyBinaryStream.mk _ _ (m.mReadPointer + num).toNat = _
  rw [toNat_add_of_fits h]
  rfl

section

variable {α : Type}

/-- An overflow of a cursor is one of its stream. -/
theorem follows_overflow (message : String) :
    Follows (overflow message : CursorRead α)
      (StreamRead.reader (StreamRead.overflow message)) where
  keeps hm := (keeps_readSteps.always_overflow (α := α) message _).2 hm
  simulates _ := rfl

/-- Taking bytes of a cursor is taking them of its stream. -/
theorem follows_takeBytes (message : String) (value : Bytes → α) :
    Follows (takeBytes num message value)
      (StreamRead.reader (ReadOnlyBinaryStream.takeBytes num.toNat message value)) where
  keeps hm := (keeps_readSteps.always_takeBytes message value _).2 hm
  simulates {m} hm := by
    simp only [takeBytes, StreamRead.reader, ReadOnlyBinaryStream.takeBytes]
    -- the test of the cursor is the one of the stream, so both refuse or both read
    by_cases hend : m.mBufferView.bytes.length < m.mReadPointer.toNat + num.toNat
    · rw [if_pos (show m.stream.mBufferView.length < m.stream.mReadPointer + num.toNat from hend),
        if_pos hend]
      rfl
    · have hfits := Nat.le_of_not_lt hend
      rw [if_neg (show ¬ m.stream.mBufferView.length < m.stream.mReadPointer + num.toNat from hend),
        if_neg hend, stream_forward hfits, bytesAt_eq hfits]
      rfl

/-- A function that looks at the flag first. -/
theorem Follows.unless_flagged {d : CursorRead α} {d' : StreamRead α} {message : String}
    (h : Follows d (StreamRead.reader d')) :
    Follows (fun m => if m.mHasOverflowed then error message m else d m)
      (StreamRead.reader fun s => if s.mHasOverflowed then s.overflow message else d' s) where
  keeps {m} hm := by
    show (if _ then _ else _ : Cursor × Except Failure α).1.Within
    split
    · exact hm
    · exact h.keeps hm
  simulates {m} hm := by
    show StreamRead.reader _ _ = (stream (if _ then _ else _ : Cursor × Except Failure α).1, _)
    by_cases hflag : m.mHasOverflowed = true
    · -- the flag is set again
      have hstream : ({ m.stream with mHasOverflowed := true } : ReadOnlyBinaryStream) =
          m.stream := by
        rw [← show m.stream.mHasOverflowed = true from hflag]
      simp only [StreamRead.reader, show m.stream.mHasOverflowed = true from hflag, hflag, if_true,
        ReadOnlyBinaryStream.overflow, hstream, error, fail]
    · have hsame := h.simulates hm
      simp only [StreamRead.reader, show m.stream.mHasOverflowed = m.mHasOverflowed from rfl,
        if_neg hflag]
      exact hsame

/-- A function that reads nothing if there is nothing to read. -/
theorem follows_unless_zero {d : CursorRead Bytes} {d' : StreamRead Bytes}
    (h : Follows d (StreamRead.reader d')) :
    Follows (fun m => if num = 0 then (m, .ok []) else d m)
      (StreamRead.reader fun s => if num.toNat = 0 then (s, .ok []) else d' s) := by
  by_cases hzero : num = 0
  · subst hzero
    simp only [if_true]
    exact refines_pure []
  · have hpos : num.toNat ≠ 0 := fun h => hzero (UInt64.toNat_inj.mp h)
    simp only [if_neg hzero, if_neg hpos]
    exact h

/-- So is reading a number. -/
theorem follows_read {kind : Scalar α} (hsize : kind.size ≤ 8) :
    Follows (read kind) (StreamRead.reader kind.read) := by
  have hnat : (UInt64.ofNat kind.size).toNat = kind.size :=
    UInt64.toNat_ofNat_of_lt' (Nat.lt_of_le_of_lt hsize (by decide))
  refine (@follows_takeBytes (UInt64.ofNat kind.size) _ "ReadOnlyBinaryStream::read overflowed"
    fun bs => kind.ofNat (fromLittleEndian bs)).unless_flagged.congr (fun m _ => read_eq hsize)
      fun m _ => ?_
  simp only [StreamRead.reader, Scalar.read, ReadOnlyBinaryStream.takeBytes, hnat, gt_iff_lt]

/-- So is reading a block. -/
theorem follows_readBytes :
    Follows (readBytes num) (StreamRead.reader fun s => s.readBytes num.toNat) := by
  refine (follows_unless_zero (@follows_takeBytes num _ "ReadOnlyBinaryStream::readBytes overflowed"
    id)).unless_flagged.congr (fun m _ => readBytes_eq) fun m _ => ?_
  simp only [StreamRead.reader, ReadOnlyBinaryStream.readBytes, ReadOnlyBinaryStream.takeBytes,
    gt_iff_lt]
  by_cases hflag : m.stream.mHasOverflowed = true
  · -- the flag is set again
    have hset : ({ m.stream with mHasOverflowed := true } : ReadOnlyBinaryStream) = m.stream := by
      rw [← hflag]
    simp only [if_pos hflag, ReadOnlyBinaryStream.overflow, hset]
  · simp only [if_neg hflag]
    rfl

/-! ### Parts put together -/

/-- A reader of a stream has the same successes in a longer program. -/
theorem reader_eq_ok {d : StreamRead α} {s s' : ReadOnlyBinaryStream} {a : α} :
    StreamRead.reader d s = (s', .ok a) ↔ d s = (s', .ok a) := by
  obtain ⟨t, x, h⟩ : ∃ t x, d s = (t, x) := ⟨_, _, rfl⟩
  cases x with
  | ok b => simp [StreamRead.reader, h]
  | error message => simp [StreamRead.reader, h]

/-- Its errors are those with a message. -/
theorem reader_eq_error {d : StreamRead α} {s s' : ReadOnlyBinaryStream} {e : Failure} :
    StreamRead.reader d s = (s', .error e) ↔ ∃ message, d s = (s', .error message) ∧
    e = .error message := by
  obtain ⟨t, x, h⟩ : ∃ t x, d s = (t, x) := ⟨_, _, rfl⟩
  cases x with
  | ok b => simp [StreamRead.reader, h]
  | error message =>
    simp only [StreamRead.reader, h, Prod.mk.injEq, Except.error.injEq]
    constructor
    · rintro ⟨rfl, rfl⟩
      exact ⟨message, ⟨rfl, rfl⟩, rfl⟩
    · rintro ⟨_, ⟨rfl, rfl⟩, rfl⟩
      exact ⟨rfl, rfl⟩

/-- Two readers in a longer program are their composition there. -/
theorem reader_bind {γ : Type} (d : StreamRead α) (f : α → StreamRead γ) :
    StreamRead.reader (d >>= f) = StreamRead.reader d >>= fun a => StreamRead.reader (f a) := by
  funext s
  obtain ⟨t, x, h⟩ : ∃ t x, d s = (t, x) := ⟨_, _, rfl⟩
  cases x with
  | ok a =>
    rw [bind_of_ok (reader_eq_ok.mpr h)]
    simp only [StreamRead.reader, bind_of_ok h]
  | error e =>
    rw [bind_of_error (reader_eq_error.mpr ⟨e, h, rfl⟩)]
    simp only [StreamRead.reader, bind_of_error h]

/-- Two reads follow those of the stream. -/
theorem follows_bind {γ : Type} {d : CursorRead α} {d' : StreamRead α} {f : α → CursorRead γ}
    {f' : α → StreamRead γ}
    (hd : Follows d (StreamRead.reader d')) (hf : ∀ a, Follows (f a) (StreamRead.reader (f' a))) :
    Follows (d >>= f) (StreamRead.reader (d' >>= f')) := by
  rw [reader_bind]
  exact hd.bind hf

/-- A new message is that of the stream too. -/
theorem follows_withMessage {d : CursorRead α} {d' : StreamRead α} (message : String)
    (h : Follows d (StreamRead.reader d')) :
    Follows (withMessage message d) (StreamRead.reader (mapError (fun _ => message) d')) := by
  -- both fail with `message`, whatever the error of `d'` was
  refine h.mapError.congr (fun m _ => rfl) fun m _ => ?_
  obtain ⟨t, x, hx⟩ : ∃ t x, d' m.stream = (t, x) := ⟨_, _, rfl⟩
  cases x with
  | ok a => simp only [StreamRead.reader, Decoder.mapError, hx]
  | error e => simp only [StreamRead.reader, Decoder.mapError, hx]

/-- A result that is renamed, with an error of its own. -/
theorem follows_renamed {γ : Type} {d : CursorRead α} {d' : StreamRead α}
    {r : StreamRead γ} {k : α → γ}
    {message : String} (h : Follows d (StreamRead.reader d'))
    (hr : ∀ s, r s = match d' s with
      | (s, .error _) => (s, .error message)
      | (s, .ok a) => (s, .ok (k a))) :
    Follows (withMessage message d >>= fun a => pure (k a)) (StreamRead.reader r) := by
  have hall : r = mapError (fun _ => message) d' >>= fun a => pure (k a) := by
    funext s
    rw [hr]
    obtain ⟨t, x, hx⟩ : ∃ t x, d' s = (t, x) := ⟨_, _, rfl⟩
    cases x with
    | ok a =>
      rw [bind_of_ok (mapError_of_ok hx), hx]
      rfl
    | error e => rw [bind_of_error (mapError_of_error hx), hx]
  rw [hall]
  exact follows_bind (follows_withMessage message h) fun a => refines_pure (k a)

/-! ### Round trips -/

/-- What is written of a value, whatever follows it, is read as the value, and what follows is
left. -/
def ReadsBack {V : Type} (write : V → Bytes) (read : CursorRead V) : Prop :=
  ∀ (m : Cursor) (v : V) (suffix : Bytes), m.Ready → m.left = write v ++ suffix →
    (read m).2 = .ok v ∧ (read m).1.left = suffix

/-- What is written is read back if a decoder of the stream accepts it. -/
theorem readsBack_of_accepts {write : α → Bytes} {d : CursorRead α} {d' : StreamRead α}
    (h : Follows d (StreamRead.reader d')) (hd : ∀ v, Accepts d' (write v) v) :
    ReadsBack write d := by
  intro m v suffix hm hleft
  exact h.reads (StreamRead.accepts_reader (hd v)) hm.2 hm.usable hleft

/-! ### Variable-length integers -/

/-- The groups of a varint follow those of the stream. -/
theorem follows_readVarIntGroups {V : Type} (kind : ReadOnlyBinaryStream.VarIntKind V) (value : V)
    (groups : ℕ) :
    Follows (readVarIntGroups kind value groups)
      (StreamRead.reader fun s => kind.read s value groups) := by
  -- on the groups that are left, for every value that was read so far
  induction groups generalizing value with
  | zero => exact follows_overflow kind.message
  | succ groups ih =>
    have hR := keeps_readSteps
    refine ⟨fun {m} hm => (hR.always_readVarIntGroups kind value (groups + 1) m).2 hm,
      fun {m} hm => ?_⟩
    rw [readVarIntGroups_succ]
    by_cases hend : m.mReadPointer ≥ m.mBufferView.size
    · -- the buffer ends within the integer
      rw [if_pos hend]
      rw [ge_iff_le, UInt64.le_iff_toNat_le, Span.toNat_size] at hend
      have hnone : m.stream.mBufferView[m.stream.mReadPointer]? = none := List.getElem?_eq_none hend
      simp only [StreamRead.reader, ReadOnlyBinaryStream.VarIntKind.read, hnone]
      rfl
    · rw [if_neg hend]
      rw [ge_iff_le, UInt64.not_le, UInt64.lt_iff_toNat_lt, Span.toNat_size] at hend
      have hsome : m.stream.mBufferView[m.stream.mReadPointer]? = some m.nextByte.2 := by
        show m.mBufferView.bytes[m.mReadPointer.toNat]? =
          some (m.mBufferView.bytes.getD m.mReadPointer.toNat 0)
        rw [List.getD_eq_getElem?_getD, List.getElem?_eq_getElem hend, Option.getD_some]
      have hstep : (m.forward 1).stream =
          { m.stream with mReadPointer := m.stream.mReadPointer + 1 } :=
        stream_forward hend
      have hrest := (ih (kind.add value m.nextByte.2 (7 * (kind.groups - 1 - groups)))).simulates
        ((@keeps_forward m 1 hend).2 hm)
      rw [hstep] at hrest
      simp only [StreamRead.reader, ReadOnlyBinaryStream.VarIntKind.read, hsome] at hrest ⊢
      -- the last group that the width allows may have bits that it has no room for
      by_cases hrefused : 7 * (kind.groups - 1 - groups) = 7 * (kind.groups - 1) ∧
          m.nextByte.2 &&& 0x80 = 0 ∧
          m.nextByte.2 &&& kind.mask ≠ 0
      · simp only [if_pos hrefused, ← hstep]
        rfl
      · simp only [if_neg hrefused]
        by_cases hlast : m.nextByte.2 &&& 0x80 = 0
        · simp only [if_pos hlast, ← hstep]
        · simp only [if_neg hlast]
          exact hrest

/-- A varint is read as from the stream. -/
theorem follows_readUnsignedVarInt :
    Follows readUnsignedVarInt (StreamRead.reader ReadOnlyBinaryStream.readUnsignedVarInt) := by
  refine (follows_readVarIntGroups ReadOnlyBinaryStream.varInt32 0 5).congr (fun m _ => rfl)
    fun m _ => ?_
  simp only [StreamRead.reader, ReadOnlyBinaryStream.readUnsignedVarInt,
    ReadOnlyBinaryStream.readVarIntGroups_eq]

/-- So is one of 64 bits. -/
theorem follows_readUnsignedVarInt64 :
    Follows readUnsignedVarInt64 (StreamRead.reader ReadOnlyBinaryStream.readUnsignedVarInt64) :=
  follows_readVarIntGroups ReadOnlyBinaryStream.varInt64 0 10

/-- So is a signed varint. -/
theorem follows_readVarInt :
    Follows readVarInt (StreamRead.reader ReadOnlyBinaryStream.readVarInt) := by
  refine follows_renamed follows_readUnsignedVarInt fun s => ?_
  rcases h : s.readUnsignedVarInt with ⟨t, _ | temp⟩ <;>
    simp only [ReadOnlyBinaryStream.readVarInt, h]

/-- So is a signed one of 64 bits. -/
theorem follows_readVarInt64 :
    Follows readVarInt64 (StreamRead.reader ReadOnlyBinaryStream.readVarInt64) := by
  refine follows_renamed follows_readUnsignedVarInt64 fun s => ?_
  rcases h : s.readUnsignedVarInt64 with ⟨t, _ | temp⟩ <;>
    simp only [ReadOnlyBinaryStream.readVarInt64, h]

/-! ### Bitsets -/

/-- A byte is the value of one byte. -/
theorem read_uint8 (s : ReadOnlyBinaryStream) : Scalar.uint8.read s = s.readByte := by
  rw [Scalar.read, ReadOnlyBinaryStream.readByte, show Scalar.uint8.size = 1 from rfl]
  simp only [gt_iff_lt]
  by_cases hflag : s.mHasOverflowed = true
  · rw [if_pos hflag, if_pos hflag]
  · rw [if_neg hflag, if_neg hflag]
    by_cases hend : s.mBufferView.length < s.mReadPointer + 1
    · rw [if_pos hend, List.getElem?_eq_none (Nat.le_of_lt_succ hend)]
    · have hlt : s.mReadPointer < s.mBufferView.length :=
        Nat.lt_of_not_le fun h => hend (Nat.lt_succ_of_le h)
      have hbyte : fromLittleEndian [s.mBufferView[s.mReadPointer]] =
          s.mBufferView[s.mReadPointer].toNat := by
        rw [fromLittleEndian, fromLittleEndian, Nat.mul_zero, Nat.add_zero]
      rw [if_neg hend, List.getElem?_eq_getElem hlt, List.drop_eq_getElem_cons hlt]
      show (s.advance 1,
        Except.ok (UInt8.ofNat (fromLittleEndian [s.mBufferView[s.mReadPointer]]))) = _
      rw [hbyte, UInt8.ofNat_toNat]
      rfl

/-- A byte is read as from the stream. -/
theorem follows_readByte : Follows readByte (StreamRead.reader ReadOnlyBinaryStream.readByte) := by
  refine (@follows_read _ Scalar.uint8 (by decide)).congr (fun m _ => rfl) fun m _ => ?_
  simp only [StreamRead.reader, read_uint8]

/-- A chunk of a bitset is read as from the stream. -/
theorem follows_readChunk : Follows readChunk
    (StreamRead.reader
      (ReadOnlyBinaryStream.overflowing "ReadOnlyBinaryStream::readBitset overflowed"
      ReadOnlyBinaryStream.readByte)) where
  keeps hm := (keeps_readSteps.always_readChunk _).2 hm
  simulates {m} hm := by
    obtain ⟨m', x, hx⟩ : ∃ m' x, readByte m = (m', x) := ⟨_, _, rfl⟩
    obtain ⟨-, hstream⟩ := follows_readByte.eq_of hm hx
    obtain ⟨t, y, hy⟩ : ∃ t y, m.stream.readByte = (t, y) := ⟨_, _, rfl⟩
    simp only [StreamRead.reader, ReadOnlyBinaryStream.overflowing, readChunk, hx, hy] at hstream ⊢
    cases y with
    | ok b =>
      cases hstream
      rfl
    | error e =>
      cases hstream
      rfl

/-- So are all its chunks. -/
theorem follows_readChunks {N : ℕ} (bitIndex chunkCount : ℕ) (seenSetBit : Bool)
    (outBitset : Bitset N) :
    Follows (readChunks bitIndex chunkCount seenSetBit outBitset)
      (StreamRead.reader
        (ReadOnlyBinaryStream.readChunks bitIndex chunkCount seenSetBit outBitset)) := by
  fun_induction readChunks bitIndex chunkCount seenSetBit outBitset with
  | case1 bitIndex chunkCount seenSetBit outBitset hlt ih =>
    rw [ReadOnlyBinaryStream.readChunks, dif_pos hlt]
    refine follows_bind follows_readChunk fun byte => ?_
    split
    · -- a bit that the bitset does not have
      exact follows_overflow _
    · dsimp only
      split
      · -- the last chunk, of which one of zeros is refused
        split
        · exact follows_overflow _
        · split
          · exact follows_overflow _
          · exact refines_pure _
      · exact ih byte
  | case2 bitIndex chunkCount seenSetBit outBitset hend =>
    rw [ReadOnlyBinaryStream.readChunks, dif_neg hend]
    exact follows_overflow _

/-- So is the bitset. -/
theorem follows_readBitset (N : ℕ) :
    Follows (readBitset N)
      (StreamRead.reader (ReadOnlyBinaryStream.readBitset : StreamRead (Bitset N))) :=
  follows_readChunks 0 0 false _

end

end Cursor
end SculkProtocol
