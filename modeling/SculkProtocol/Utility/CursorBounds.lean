import SculkProtocol.Utility.CursorSteps

/-!
# The stream stays in its buffer

`Keeps` holds of the steps that reads are made of and of `setPosition`, so it holds of every
program (`Program.keeps`). `Counts` says of a function that decodes something itself how many bytes
it passes.
-/

namespace SculkProtocol

open Decoder

namespace Cursor

variable {m m' : Cursor} {num : UInt64}

/-- Every position is in the buffer or at its end, and every place that was read is in it. -/
structure Within (m : Cursor) : Prop where
  pointer : m.mReadPointer ≤ m.mBufferView.size
  positions : ∀ p ∈ m.positions, p ≤ m.mBufferView.size
  accessed : ∀ i ∈ m.accessed, i < m.mBufferView.bytes.length

/-- The buffer is the same, and the stream is within it if it was. -/
def Keeps (m m' : Cursor) : Prop := m'.mBufferView = m.mBufferView ∧ (m.Within → m'.Within)

/-- Steps that keep the buffer compose. -/
theorem keeps : StepRelation Keeps where
  refl _ := ⟨rfl, id⟩
  trans h h' := ⟨h'.1.trans h.1, fun hm => h'.2 (h.2 hm)⟩

/-- The bytes from one position to the next have been read, one after the other. -/
def Decodes (n : ℕ) (m m' : Cursor) : Prop :=
  m'.mReadPointer.toNat = m.mReadPointer.toNat + n ∧
    m'.accessed = m.accessed ++ List.range' m.mReadPointer.toNat n

/-- Reading nothing moves by nothing. -/
theorem decodes_zero : Decodes 0 m m := ⟨rfl, (List.append_nil _).symm⟩

/-- What is read one after the other is added up. -/
theorem Decodes.add {m'' : Cursor} {n n' : ℕ} (h : Decodes n m m') (h' : Decodes n' m' m'') :
    Decodes (n + n') m m'' := by
  refine ⟨?_, ?_⟩
  · rw [h'.1, h.1, Nat.add_assoc]
  · rw [h'.2, h.2, h.1, List.append_assoc, List.range'_append_1]

/-! ### Steps -/

/-- A position in the buffer keeps it. -/
theorem keeps_moveTo {pointer : UInt64} (h : pointer ≤ m.mBufferView.size) :
    Keeps m (m.moveTo pointer) := by
  refine ⟨rfl, fun hm => ⟨h, ?_, hm.accessed⟩⟩
  intro p hp
  rcases List.mem_append.mp hp with hp | hp
  · exact hm.positions p hp
  · rw [List.mem_singleton.mp hp]
    exact h

/-- Bytes of the buffer may be looked at. -/
theorem keeps_access {n : ℕ} (h : m.mReadPointer.toNat + n ≤ m.mBufferView.bytes.length) :
    Keeps m (m.access n) := by
  refine ⟨rfl, fun hm => ⟨hm.pointer, hm.positions, fun i hi => ?_⟩⟩
  rcases List.mem_append.mp (show i ∈ m.accessed ++ _ from hi) with hi | hi
  · exact hm.accessed i hi
  · have hrange := (List.mem_range'_1.mp hi).2
    exact Nat.lt_of_lt_of_le hrange h

/-- What fits into the buffer has a position in it, without a wrap. -/
theorem le_size_of_fits (h : m.mReadPointer.toNat + num.toNat ≤ m.mBufferView.bytes.length) :
    m.mReadPointer + num ≤ m.mBufferView.size := by
  rwa [UInt64.le_iff_toNat_le, toNat_add_of_fits h, Span.toNat_size]

/-- Moving over bytes that are there keeps the buffer. -/
theorem keeps_forward (h : m.mReadPointer.toNat + num.toNat ≤ m.mBufferView.bytes.length) :
    Keeps m (m.forward num) :=
  keeps.trans (keeps_access h) (@keeps_moveTo (m.access num.toNat) _ (le_size_of_fits h))

/-- Moving over bytes counts them. -/
theorem decodes_forward (h : m.mReadPointer.toNat + num.toNat ≤ m.mBufferView.bytes.length) :
    Decodes num.toNat m (m.forward num) := ⟨toNat_add_of_fits h, rfl⟩

/-- The steps of the readers keep the buffer. -/
theorem keeps_readSteps : ReadSteps Keeps where
  refl := keeps.refl
  trans := keeps.trans
  flagged _ := ⟨rfl, fun h => ⟨h.pointer, h.positions, h.accessed⟩⟩
  forwarded := keeps_forward
  skipped h := keeps_moveTo (le_size_of_fits h)

/-- A position is taken up to the end of the buffer. -/
theorem keeps_setPosition (value : UInt64) : Always Keeps (setPosition value) := by
  intro m
  unfold setPosition
  split
  · -- the position is the end
    have hend : Keeps m (m.moveTo m.mBufferView.size) := keeps_moveTo (UInt64.le_refl _)
    exact keeps.trans hend ⟨rfl, fun h => ⟨h.pointer, h.positions, h.accessed⟩⟩
  · next hvalue => exact keeps_moveTo (UInt64.not_lt.mp hvalue)

/-- The view of what is left is one of the buffer. -/
theorem keeps_getLeftBufferView : Always Keeps getLeftBufferView := by
  intro m
  refine ⟨rfl, fun hm => ?_⟩
  exact (keeps_moveTo hm.pointer).2 hm

/-! ### Programs -/

/-- What can be made of the public member functions: one after the other, where what was read may
decide how it goes on; after a failure; and inside of the functions that the combinators take. -/
inductive Program : {α : Type} → CursorRead α → Prop
  | pure {α : Type} (a : α) : Program (pure a)
  | bind {α γ : Type} {d : CursorRead α} {f : α → CursorRead γ} (hd : Program d)
      (hf : ∀ a, Program (f a)) :
      Program (d >>= f)
  | fail {α : Type} (e : Failure) : Program (fail e : CursorRead α)
  | attempt {α : Type} {d : CursorRead α} (hd : Program d) :
      Program (d.attempt : CursorRead (Except Failure α))
  | size : Program size
  | getPosition : Program getPosition
  | setPosition (value : UInt64) : Program (setPosition value)
  | resetPosition : Program resetPosition
  | ignoreBytes (length : UInt64) : Program (ignoreBytes length)
  | getLeftBufferView : Program getLeftBufferView
  | isOverflowed : Program isOverflowed
  | hasDataLeft : Program hasDataLeft
  | view : Program view
  | readBytes (num : UInt64) : Program (readBytes num)
  | readBool : Program readBool
  | readByte : Program readByte
  | readSignedChar : Program readSignedChar
  | readUnsignedShort : Program readUnsignedShort
  | readUnsignedInt : Program readUnsignedInt
  | readUnsignedInt64 : Program readUnsignedInt64
  | readDouble : Program readDouble
  | readFloat : Program readFloat
  | readSignedInt : Program readSignedInt
  | readSignedInt64 : Program readSignedInt64
  | readSignedShort : Program readSignedShort
  | readUnsignedVarInt : Program readUnsignedVarInt
  | readUnsignedVarInt64 : Program readUnsignedVarInt64
  | readVarInt : Program readVarInt
  | readVarInt64 : Program readVarInt64
  | readSignedBigEndianInt : Program readSignedBigEndianInt
  | readString : Program readString
  | readLongString : Program readLongString
  | readRawBytes (length : UInt64) : Program (readRawBytes length)
  | readArray {α : Type} (before : PrefixFunction) (value : α) {func : α → CursorRead α}
      (outVector : List α)
      (hfunc : ∀ a, Program (func a)) : Program (readArray before value func outVector)
  | readMap {κ α : Type} [LT κ] [DecidableLT κ] [Trans (α := κ) (· < ·) (· < ·) (· < ·)]
      (before : PrefixFunction)
      (key : κ) (value : α) {func : κ → α → CursorRead (κ × α)} (hfunc : ∀ k a,
        Program (func k a)) :
      Program (readMap before key value func)
  | readOptional {α : Type} (value : α) {func : α → CursorRead α} (hfunc : ∀ a, Program (func a)) :
      Program (readOptional value func)
  | readBitset (N : ℕ) : Program (readBitset N)
  | readEnum {α : Type} {func : CursorRead α} (hfunc : Program func) : Program (readEnum func)
  | readVariant {n : ℕ} [NeZero n] {T : Fin n → Type} (kind : VariantKind n)
      (before : PrefixFunction)
      (value : ∀ i, T i) {visitor : ∀ i, T i → CursorRead (T i)} (hvisitor : ∀ i a,
        Program (visitor i a)) :
      Program (readVariant kind before value visitor)

/-- **Every program stays within the buffer.** -/
theorem Program.keeps {α : Type} {d : CursorRead α} (h : Program d) : Always Keeps d := by
  have hR := keeps_readSteps
  -- the position of a cursor is moved by the primitives only; a combinator keeps what its parts
  -- keep
  induction h with
  | pure a => exact hR.pure a
  | bind _ _ ihd ihf => exact hR.bind ihd ihf
  | fail e => exact hR.fail e
  | attempt _ ih => exact ih.attempt
  | size | getPosition | isOverflowed | hasDataLeft | view => exact fun m => hR.refl m
  | setPosition value => exact keeps_setPosition value
  | resetPosition => exact keeps_setPosition 0
  | ignoreBytes length => exact hR.always_ignoreBytes length
  | getLeftBufferView => exact keeps_getLeftBufferView
  | readBytes num => exact hR.always_readBytes
  | readBool => exact hR.always_readBool
  | readByte | readSignedChar | readUnsignedShort | readUnsignedInt | readUnsignedInt64
  | readDouble | readFloat
  | readSignedInt | readSignedInt64 | readSignedShort => exact hR.always_read (by decide)
  | readUnsignedVarInt => exact hR.always_readUnsignedVarInt
  | readUnsignedVarInt64 => exact hR.always_readUnsignedVarInt64
  | readVarInt => exact hR.always_readVarInt
  | readVarInt64 => exact hR.always_readVarInt64
  | readSignedBigEndianInt => exact hR.always_readSignedBigEndianInt
  | readString => exact hR.always_readString
  | readLongString => exact hR.always_readLongString
  | readRawBytes length => exact hR.always_readRawBytes length
  | readArray before value outVector _ ih => exact hR.always_readArray before value outVector ih
  | readMap before key value _ ih => exact hR.always_readMap before key value ih
  | readOptional value _ ih => exact hR.always_readOptional value ih
  | readBitset N => exact hR.always_readChunks 0 0 false _
  | readEnum _ ih => exact ih.mapError
  | readVariant kind before value _ ih => exact hR.always_readVariant kind before value ih

/-! ### What a primitive decodes -/

/-- Where it succeeds, the position advances by the bytes that were read, and `count` says how
many these are. -/
def Counts {α : Type} (d : CursorRead α) (count : α → ℕ → Prop) : Prop :=
  Ensures d fun m a m' => ∃ n, count a n ∧ Decodes n m m'

section

variable {α γ V : Type} {d : CursorRead α} {f : α → CursorRead γ} {count : α → ℕ → Prop} {n : ℕ}

/-- As many bytes are looked at as are asked for. -/
theorem bytesAt_length (m : Cursor) (n : ℕ) : (m.bytesAt n).length = n := by
  rw [bytesAt, List.length_map, List.length_range']

/-- An error is no success. -/
theorem error_ne_ok {message : String} {a : α} : error message m ≠ (m', .ok a) :=
  fun h => absurd (congrArg Prod.snd h) (by simp [error, fail])

/-- An overflow is no success. -/
theorem overflow_ne_ok {message : String} {a : α} : overflow message m ≠ (m', .ok a) :=
  fun h => absurd (congrArg Prod.snd h) (by simp [overflow])

/-- What counts its bytes does so for any weaker count. -/
theorem Counts.mono {count' : α → ℕ → Prop} (h : Counts d count)
    (hcount : ∀ a n, count a n → count' a n) :
    Counts d count' :=
  Ensures.mono h fun _ a _ ⟨n, hn, hd⟩ => ⟨n, hcount a n hn, hd⟩

/-- Two reads count their bytes together. -/
theorem Counts.bind {count' : α → γ → ℕ → Prop} (hd : Counts d count)
    (hf : ∀ a, Counts (f a) (count' a)) :
    Counts (d >>= f) fun c n => ∃ a n₁ n₂, count a n₁ ∧ count' a c n₂ ∧ n = n₁ + n₂ := by
  refine Ensures.bind hd hf ?_
  rintro m a m' c m'' ⟨n₁, h₁, hd₁⟩ ⟨n₂, h₂, hd₂⟩
  exact ⟨n₁ + n₂, ⟨a, n₁, n₂, h₁, h₂, rfl⟩, hd₁.add hd₂⟩

/-- A value that is made something else of. -/
theorem Counts.map {k : α → γ} {p : ℕ → Prop} (hd : Counts d fun _ => p) :
    Counts (d >>= fun a => pure (k a)) fun _ => p :=
  Ensures.bind_pure hd fun _ _ _ h => h

/-- Taking bytes counts as many as are taken. -/
theorem counts_takeBytes (num : UInt64) (message : String) (value : Bytes → α) :
    Counts (takeBytes num message value) fun a n => n = num.toNat ∧ ∃ bs, bs.length = n ∧
    a = value bs := by
  intro m m' a h
  unfold takeBytes at h
  split at h
  · exact absurd h overflow_ne_ok
  · next hfits =>
    cases h
    exact ⟨num.toNat, ⟨rfl, _, bytesAt_length m _, rfl⟩, decodes_forward (Nat.le_of_not_lt hfits)⟩

/-- A number has the bytes of its kind. -/
theorem counts_read {kind : Scalar α} (hsize : kind.size ≤ 8) (hn : kind.size = n) :
    Counts (read kind) fun _ k => k = n := by
  have hnat : (UInt64.ofNat kind.size).toNat = kind.size :=
    UInt64.toNat_ofNat_of_lt' (Nat.lt_of_le_of_lt hsize (by decide))
  intro m m' a h
  rw [read_eq hsize] at h
  split at h
  · exact absurd h error_ne_ok
  · obtain ⟨k, ⟨hk, -⟩, hd⟩ := counts_takeBytes _ _ _ m m' a h
    exact ⟨k, by rw [hk, hnat, hn], hd⟩

/-- A byte is one byte. -/
theorem counts_readByte : Counts readByte fun _ n => n = 1 :=
  counts_read (by decide) rfl

/-- An `int` has four bytes. -/
theorem counts_readSignedInt : Counts readSignedInt fun _ n => n = 4 :=
  counts_read (by decide) rfl

/-- A block of bytes has its length. -/
theorem counts_readBytes (num : UInt64) :
    Counts (readBytes num) fun bs n => n = num.toNat ∧ bs.length = n := by
  intro m m' bs h
  rw [readBytes_eq] at h
  split at h
  · exact absurd h error_ne_ok
  · split at h
    · next hzero =>
      cases h
      exact ⟨0, ⟨by rw [hzero]; rfl, rfl⟩, decodes_zero⟩
    · obtain ⟨n, ⟨hn, _, hlength, rfl⟩, hd⟩ := counts_takeBytes num _ _ m m' bs h
      exact ⟨n, ⟨hn, hlength⟩, hd⟩

/-- Raw bytes have their length. -/
theorem counts_readRawBytes (length : UInt64) :
    Counts (readRawBytes length) fun bs n => n = length.toNat ∧ bs.length = n := by
  intro m m' bs h
  rw [readRawBytes_eq] at h
  split at h
  · next hzero =>
    cases h
    exact ⟨0, ⟨by rw [hzero]; rfl, rfl⟩, decodes_zero⟩
  · obtain ⟨n, ⟨hn, _, hlength, rfl⟩, hd⟩ := counts_takeBytes length _ _ m m' bs h
    exact ⟨n, ⟨hn, hlength⟩, hd⟩

/-- A varint has one byte at least, and one for each group at most. -/
theorem counts_readVarIntGroups (kind : ReadOnlyBinaryStream.VarIntKind V) (value : V)
    (groups : ℕ) :
    Counts (readVarIntGroups kind value groups) fun _ n => 0 < n ∧ n ≤ groups := by
  induction groups generalizing value with
  | zero => exact fun m m' v h => absurd h overflow_ne_ok
  | succ groups ih =>
    intro m m' v h
    obtain ⟨-, heq⟩ | ⟨hfits, heq | ⟨v', heq⟩ | ⟨value', heq⟩⟩ :=
      readVarIntGroups_cases kind value groups m
    · exact absurd (heq ▸ h) overflow_ne_ok
    all_goals
      have hstep : Decodes 1 m (m.forward 1) := decodes_forward hfits
      rw [heq] at h
    · exact absurd h overflow_ne_ok
    · cases h
      exact ⟨1, ⟨Nat.one_pos, Nat.le_add_left 1 groups⟩, hstep⟩
    · obtain ⟨n, ⟨-, hn⟩, hrest⟩ := ih value' _ m' v h
      exact ⟨1 + n, ⟨by omega, by omega⟩, hstep.add hrest⟩

/-- A string has its bytes and one to five of its length. -/
theorem counts_readString : Counts readString fun v n => v.length < n ∧ n ≤ v.length + 5 := by
  refine (Counts.bind (Ensures.mapError (counts_readVarIntGroups _ _ _)) fun length =>
    counts_readRawBytes _).mono fun v n => ?_
  rintro ⟨_, n₁, n₂, ⟨hpos, hle⟩, ⟨-, hlength⟩, rfl⟩
  omega

/-- A long string has its bytes and four of its length. -/
theorem counts_readLongString : Counts readLongString fun v n => n = v.length + 4 := by
  have hafter : ∀ length : Int32, Counts
      (if length < 0 then error "ReadOnlyBinaryStream::readLongString failed: negative length"
      else readRawBytes (UInt64.ofNat length.toInt.toNat)) fun v n => v.length = n := by
    intro length
    split
    · exact ensures_fail
    · exact (counts_readRawBytes _).mono fun _ _ h => h.2
  refine (Counts.bind (Ensures.mapError counts_readSignedInt) hafter).mono fun v n => ?_
  rintro ⟨_, n₁, n₂, rfl, hlength, rfl⟩
  show 4 + n₂ = v.length + 4
  omega

/-- A chunk of a bitset is one byte. -/
theorem counts_readChunk : Counts readChunk fun _ n => n = 1 := by
  intro m m' byte h
  unfold readChunk at h
  split at h
  · next hbyte =>
    cases h
    exact counts_readByte m _ _ hbyte
  · exact absurd h overflow_ne_ok

/-- As many bytes as groups of seven bits that there are, at most. -/
theorem counts_readChunks {N : ℕ} (bitIndex chunkCount : ℕ) (seenSetBit : Bool)
    (outBitset : Bitset N) :
    Counts (readChunks bitIndex chunkCount seenSetBit outBitset) fun _ n => 0 < n ∧
    bitIndex + 7 * (n - 1) < N := by
  fun_induction readChunks bitIndex chunkCount seenSetBit outBitset with
  | case1 bitIndex chunkCount seenSetBit outBitset hlt ih =>
    -- what follows the first byte reads none, or begins below the end of the bitset
    have hafter : ∀ byte : UInt8, Counts
        (if bitIndex + ReadOnlyBinaryStream.bitLength8 byte > N then
          overflow "ReadOnlyBinaryStream::readBitset overflowed"
        else if byte &&& 0x80 = 0 then
          if !(seenSetBit || decide (byte &&& 0x7F ≠ 0)) && decide (chunkCount + 1 ≠ 1) then
            overflow "ReadOnlyBinaryStream::readBitset overflowed"
          else if (seenSetBit || decide (byte &&& 0x7F ≠ 0)) && decide (byte &&& 0x7F = 0) then
            overflow "ReadOnlyBinaryStream::readBitset overflowed"
          else pure (ReadOnlyBinaryStream.setChunk outBitset bitIndex byte)
        else readChunks (bitIndex + 7) (chunkCount + 1) (seenSetBit || decide (byte &&& 0x7F ≠ 0))
          (ReadOnlyBinaryStream.setChunk outBitset bitIndex byte))
        fun _ n => n = 0 ∨ bitIndex + 7 * n < N := by
      intro byte
      split
      · exact fun m m' c h => absurd h overflow_ne_ok
      · split
        · split
          · exact fun m m' c h => absurd h overflow_ne_ok
          · split
            · exact fun m m' c h => absurd h overflow_ne_ok
            · exact ensures_pure fun m => ⟨0, .inl rfl, decodes_zero⟩
        · exact (ih byte).mono fun _ n hn => .inr (by omega)
    refine (Counts.bind counts_readChunk hafter).mono fun c n => ?_
    rintro ⟨_, _, n₂, rfl, hn, rfl⟩
    omega
  | case2 => exact fun m m' c h => absurd h overflow_ne_ok

end

/-- The functions that decode something themselves, with how many bytes. -/
inductive Primitive : {α : Type} → CursorRead α → (α → ℕ → Prop) → Prop
  | readBytes (num : UInt64) : Primitive (readBytes num) fun bs n => n = num.toNat ∧ bs.length = n
  | readBool : Primitive readBool fun _ n => n = 1
  | readByte : Primitive readByte fun _ n => n = 1
  | readSignedChar : Primitive readSignedChar fun _ n => n = 1
  | readUnsignedShort : Primitive readUnsignedShort fun _ n => n = 2
  | readUnsignedInt : Primitive readUnsignedInt fun _ n => n = 4
  | readUnsignedInt64 : Primitive readUnsignedInt64 fun _ n => n = 8
  | readDouble : Primitive readDouble fun _ n => n = 8
  | readFloat : Primitive readFloat fun _ n => n = 4
  | readSignedInt : Primitive readSignedInt fun _ n => n = 4
  | readSignedInt64 : Primitive readSignedInt64 fun _ n => n = 8
  | readSignedShort : Primitive readSignedShort fun _ n => n = 2
  | readUnsignedVarInt : Primitive readUnsignedVarInt fun _ n => 0 < n ∧ n ≤ 5
  | readUnsignedVarInt64 : Primitive readUnsignedVarInt64 fun _ n => 0 < n ∧ n ≤ 10
  | readVarInt : Primitive readVarInt fun _ n => 0 < n ∧ n ≤ 5
  | readVarInt64 : Primitive readVarInt64 fun _ n => 0 < n ∧ n ≤ 10
  | readSignedBigEndianInt : Primitive readSignedBigEndianInt fun _ n => n = 4
  | readString : Primitive readString fun v n => v.length < n ∧ n ≤ v.length + 5
  | readLongString : Primitive readLongString fun v n => n = v.length + 4
  | readRawBytes (length : UInt64) : Primitive (readRawBytes length) fun bs n => n = length.toNat ∧
      bs.length = n
  | readBitset (N : ℕ) : Primitive (readBitset N) fun _ n => 0 < n ∧ 7 * (n - 1) < N

/-- **A primitive passes what it decodes.** -/
theorem Primitive.counts {α : Type} {d : CursorRead α} {count : α → ℕ → Prop}
    (h : Primitive d count) :
    Counts d count := by
  cases h with
  | readBytes num => exact counts_readBytes num
  | readBool => exact Counts.map counts_readByte
  | readByte | readSignedChar | readUnsignedShort | readUnsignedInt | readUnsignedInt64
  | readDouble | readFloat
  | readSignedInt | readSignedInt64 | readSignedShort => exact counts_read (by decide) rfl
  | readUnsignedVarInt | readUnsignedVarInt64 => exact counts_readVarIntGroups _ _ _
  | readVarInt | readVarInt64 => exact Counts.map (Ensures.mapError (counts_readVarIntGroups _ _ _))
  | readSignedBigEndianInt => exact Counts.map (Ensures.mapError counts_readSignedInt)
  | readString => exact counts_readString
  | readLongString => exact counts_readLongString
  | readRawBytes length => exact counts_readRawBytes length
  | readBitset N =>
    exact (counts_readChunks 0 0 false _).mono fun _ n h => by rwa [Nat.zero_add] at h

/-- A primitive read is a program of one. -/
theorem Primitive.program {α : Type} {d : CursorRead α} {count : α → ℕ → Prop}
    (h : Primitive d count) :
    Program d := by
  cases h with
  | readBytes num => exact .readBytes num
  | readBool => exact .readBool
  | readByte => exact .readByte
  | readSignedChar => exact .readSignedChar
  | readUnsignedShort => exact .readUnsignedShort
  | readUnsignedInt => exact .readUnsignedInt
  | readUnsignedInt64 => exact .readUnsignedInt64
  | readDouble => exact .readDouble
  | readFloat => exact .readFloat
  | readSignedInt => exact .readSignedInt
  | readSignedInt64 => exact .readSignedInt64
  | readSignedShort => exact .readSignedShort
  | readUnsignedVarInt => exact .readUnsignedVarInt
  | readUnsignedVarInt64 => exact .readUnsignedVarInt64
  | readVarInt => exact .readVarInt
  | readVarInt64 => exact .readVarInt64
  | readSignedBigEndianInt => exact .readSignedBigEndianInt
  | readString => exact .readString
  | readLongString => exact .readLongString
  | readRawBytes length => exact .readRawBytes length
  | readBitset N => exact .readBitset N

/-! ### Lengths that do not fit -/

/-- A read fails and leaves the position. -/
def Refuses {α : Type} (d : CursorRead α) (m : Cursor) : Prop :=
  (∃ e, (d m).2 = .error e) ∧ (d m).1.mReadPointer = m.mReadPointer

section

variable {α : Type}

/-- An error refuses its text. -/
theorem refuses_error (message : String) (m : Cursor) : Refuses (error message : CursorRead α) m :=
  ⟨⟨_, rfl⟩, rfl⟩

/-- An overflow refuses its text. -/
theorem refuses_overflow (message : String) (m : Cursor) :
    Refuses (overflow message : CursorRead α) m :=
  ⟨⟨_, rfl⟩, rfl⟩

/-- Taking more bytes than there are is refused. -/
theorem refuses_takeBytes {message : String} {value : Bytes → α}
    (h : m.mBufferView.bytes.length < m.mReadPointer.toNat + num.toNat) :
    Refuses (takeBytes num message value) m := by
  rw [Refuses, takeBytes, if_pos h]
  exact refuses_overflow message m

end

/-- Ignoring more bytes than there are is refused. -/
theorem refuses_ignoreBytes (h : m.mBufferView.bytes.length < m.mReadPointer.toNat + num.toNat) :
    Refuses (ignoreBytes num) m := by
  rw [Refuses, ignoreBytes_eq, if_pos h]
  exact refuses_overflow _ m

/-- Reading more raw bytes than there are is refused. -/
theorem refuses_readRawBytes (hnum : num ≠ 0)
    (h : m.mBufferView.bytes.length < m.mReadPointer.toNat + num.toNat) :
    Refuses (readRawBytes num) m := by
  rw [Refuses, readRawBytes_eq, if_neg hnum]
  exact refuses_takeBytes h

/-- Reading a block is refused after an overflow, or if there are too few bytes. -/
theorem refuses_readBytes (hnum : num ≠ 0)
    (h : m.mHasOverflowed = true ∨ m.mBufferView.bytes.length < m.mReadPointer.toNat + num.toNat) :
    Refuses (readBytes num) m := by
  rw [Refuses, readBytes_eq, if_neg hnum]
  split
  · exact refuses_error _ m
  · next hflag => exact refuses_takeBytes (h.resolve_left hflag)

/-! ### Every run -/

/-- A cursor starts within its buffer. -/
theorem ofBuffer_within (buffer : Span) : (ofBuffer buffer).Within where
  pointer := UInt64.zero_le
  positions _ h := absurd h List.not_mem_nil
  accessed _ h := absurd h List.not_mem_nil

/-- **The stream stays in its buffer.** After any program the position is at most the size of the
buffer, and so was every position that was set or that a view was taken from; every place that was
read is in the buffer. There a primitive that succeeds passes just the bytes that it reads, and so
many of them; and a length that does not fit is refused, however large it is. -/
theorem stays_in_buffer (buffer : Span) {α : Type} {d : CursorRead α} (hd : Program d) :
    let m := (d (ofBuffer buffer)).1
    (m.mBufferView = buffer ∧ m.Within) ∧
    (∀ {γ : Type} {r : CursorRead γ} {count : γ → ℕ → Prop}, Primitive r count → ∀ m' c,
      r m = (m', .ok c) →
      ∃ n, count c n ∧ Decodes n m m' ∧ m.mReadPointer.toNat + n ≤ buffer.bytes.length) ∧
    (∀ length m', ignoreBytes length m = (m', .ok ()) →
      m'.mReadPointer.toNat = m.mReadPointer.toNat + length.toNat ∧ m'.accessed = m.accessed ∧
        m.mReadPointer.toNat + length.toNat ≤ buffer.bytes.length) ∧
    ∀ num : UInt64, buffer.bytes.length < m.mReadPointer.toNat + num.toNat →
      Refuses (readBytes num) m ∧ Refuses (readRawBytes num) m ∧ Refuses (ignoreBytes num) m := by
  intro m
  obtain ⟨hview, hkeep⟩ : Keeps (ofBuffer buffer) m := hd.keeps (ofBuffer buffer)
  have hview : m.mBufferView = buffer := hview
  have hwithin : m.Within := hkeep (ofBuffer_within buffer)
  refine ⟨⟨hview, hwithin⟩, ?_, ?_, ?_⟩
  · intro γ r count hr m' c h
    obtain ⟨n, hcount, hdecodes⟩ := hr.counts m m' c h
    obtain ⟨hview', hkeep'⟩ := hr.program.keeps m
    rw [h] at hview' hkeep'
    -- the position after the read is in the buffer, so the bytes before it are
    have hpointer := (hkeep' hwithin).pointer
    rw [hview', hview, UInt64.le_iff_toNat_le, Span.toNat_size, hdecodes.1] at hpointer
    exact ⟨n, hcount, hdecodes, hpointer⟩
  · intro length m' h
    rw [ignoreBytes_eq] at h
    split at h
    · exact absurd h overflow_ne_ok
    · next hfits =>
      cases h
      rw [Nat.not_lt] at hfits
      exact ⟨toNat_add_of_fits hfits, rfl, hview ▸ hfits⟩
  · intro num hnum
    have hle : m.mReadPointer.toNat ≤ buffer.bytes.length := by
      have hpointer := hwithin.pointer
      rwa [UInt64.le_iff_toNat_le, Span.toNat_size, hview] at hpointer
    -- a length of 0 would fit
    have hne : num ≠ 0 := by
      rintro rfl
      exact absurd hnum (Nat.not_lt.mpr hle)
    rw [← hview] at hnum
    exact ⟨refuses_readBytes hne (.inr hnum), refuses_readRawBytes hne hnum,
      refuses_ignoreBytes hnum⟩

/-- A read that fails, then a position beyond the end, then a length near `2 ^ 64`. -/
theorem stays_in_buffer_short :
    let m :=
      ((attempt readUnsignedInt >>= fun _ => setPosition 7 : CursorRead Unit)
        (ofBuffer ⟨[1, 2], by decide⟩)).1
    m.Within ∧ Refuses (ignoreBytes 0xFFFFFFFFFFFFFFFF) m := by
  intro m
  obtain ⟨⟨-, hwithin⟩, -, -, hrefuses⟩ :=
    stays_in_buffer ⟨[1, 2], by decide⟩ (Program.bind (.attempt .readUnsignedInt)
      fun _ => .setPosition 7)
  exact ⟨hwithin, (hrefuses 0xFFFFFFFFFFFFFFFF (by decide)).2.2⟩

end Cursor
end SculkProtocol
