import SculkProtocol.Session.Batch
import SculkProtocol.Utility.VarIntTexts

/-!
# The grammar of a batch

Without encryption and compression a batch is a sequence of blocks, each a packet after its length.
`recognises_readPacket` is one round of the loop, and `readPackets_iff` the whole of it: the loop
ends with the packets of the blocks exactly if there is nothing else.

`readBatch` is the same loop on a cursor, whose positions are of the machine's size. It does what
the loop on a stream does, and stays within the buffer.
-/

namespace SculkProtocol

namespace Session

open Decoder

/-- A packet after its length. -/
def IsBlock (bs : Bytes) (packet : Bytes) : Prop :=
  ∃ before, bs = before ++ packet ∧ IsVarIntText 5 32 before ∧ base128 before = packet.length

/-- A round once the length is known. -/
def readPacketData (packetSize : UInt32) : StreamRead Bytes := fun s =>
  if packetSize.toNat > s.size - s.getPosition then
    (s, .error "batched packet size exceeds remaining payload")
  else
    match s.readBytes packetSize.toNat with
    | (s, .error _) => (s, .error "failed to read batched packet payload")
    | (s, .ok packetData) => (s, .ok packetData)

/-- What a round of the loop reads. -/
def readPacket : StreamRead Bytes := do
  let packetSize ← mapError (fun _ => "failed to read batched packet size")
    ReadOnlyBinaryStream.readUnsignedVarInt
  readPacketData packetSize

/-- A result that is only converted succeeds as before. -/
theorem map_eq_ok {ε α γ : Type} {f : α → γ} {x : Except ε α} {c : γ} :
    x.map f = .ok c ↔ ∃ a, x = .ok a ∧ c = f a := by
  cases x with
  | ok a =>
    constructor
    · intro h
      cases h
      exact ⟨a, rfl, rfl⟩
    · rintro ⟨_, h, rfl⟩
      cases h
      rfl
  | error e =>
    refine iff_of_false ?_ ?_
    · intro h
      cases h
    · rintro ⟨_, h, -⟩
      cases h

/-- A round, and the rounds after it. -/
theorem readPackets_round (s : ReadOnlyBinaryStream) : readPackets s =
    if s.hasDataLeft then
      match readPacket s with
      | (_, .error e) => .error e
      | (s', .ok packetData) => (readPackets s').map (packetData :: ·)
    else .ok [] := by
  rw [readPackets]
  split
  · split
    · next s₁ message hsize =>
      -- the length was refused
      have hround : readPacket s = (s₁, .error "failed to read batched packet size") :=
        bind_of_error (mapError_of_error hsize)
      rw [hround]
    · next s₁ packetSize hsize =>
      have hround : readPacket s = readPacketData packetSize s₁ := bind_of_ok (mapError_of_ok hsize)
      rw [hround, readPacketData]
      split
      · rfl
      · split
        · next s₂ message hdata => simp only [hdata]
        · next s₂ packetData hdata =>
          simp only [hdata]
          cases readPackets s₂ <;> rfl
  · rfl

/-- The bytes are there if the length is not too large. -/
theorem recognises_readPacketData (packetSize : UInt32) :
    Recognises (readPacketData packetSize) fun bs packet => bs.length = packetSize.toNat ∧
    packet = bs := by
  refine recognises_of_iff fun s hs s' packet => ?_
  have hflag : s.mHasOverflowed = false := hs.1
  have hpointer : s.mReadPointer ≤ s.mBufferView.length := hs.2
  rw [readPacketData, ReadOnlyBinaryStream.size, ReadOnlyBinaryStream.getPosition]
  split
  · next hend =>
    -- more is announced than there is
    constructor
    · exact fun h => absurd (congrArg Prod.snd h) (by simp)
    · rintro ⟨bs, rest, hrest, -, hlength, -⟩
      have hbound := ReadOnlyBinaryStream.view_bound hs hrest
      omega
  · next hend =>
    obtain ⟨hview, hlength⟩ :=
      ReadOnlyBinaryStream.view_split (s := s) (n := packetSize.toNat) (by omega)
    have hread := ReadOnlyBinaryStream.readBytes_view hflag hview
    rw [hlength] at hread
    simp only [hread]
    constructor
    · intro h
      cases h
      exact ⟨_, _, hview, by rw [hlength]; rfl, hlength, rfl⟩
    · rintro ⟨bs, rest, hview', rfl, hbs, rfl⟩
      have hsame := (List.append_inj (hview.symm.trans hview') (hlength.trans hbs.symm)).1
      rw [hsame, hbs]
      rfl

/-- What is read in a round is a block. -/
theorem recognises_readPacket : Recognises readPacket IsBlock := by
  -- the text of the length is determined only up to zeros in its highest groups
  refine (ReadOnlyBinaryStream.recognises_readUnsignedVarInt.mapError.bind fun _ size _ =>
    recognises_readPacketData size).congr fun bs packet => ?_
  constructor
  · rintro ⟨before, _, size, rfl, hbefore, hlength, rfl⟩
    obtain ⟨htext, hvalue⟩ := isVarInt32_iff.mp hbefore
    exact ⟨before, rfl, htext, hvalue.symm.trans hlength.symm⟩
  · rintro ⟨before, rfl, htext, hvalue⟩
    have hsize : (UInt32.ofNat packet.length).toNat = packet.length :=
      UInt32.toNat_ofNat_of_lt' (hvalue ▸ htext.value_lt)
    exact ⟨before, packet, _, rfl, isVarInt32_iff.mpr ⟨htext, hsize.trans hvalue.symm⟩,
      hsize.symm, rfl⟩

/-- A block has a byte. -/
theorem IsBlock.length_pos {bs packet : Bytes} (h : IsBlock bs packet) : 0 < bs.length := by
  obtain ⟨before, rfl, htext, -⟩ := h
  have hne : before ≠ [] := fun h => isGroups_nil (h ▸ htext.isGroups)
  rw [List.length_append]
  exact Nat.add_pos_left (List.length_pos_iff.mpr hne) _

/-- No bytes are no blocks. -/
theorem eq_nil_of_sequence {packets : List Bytes} (h : Sequence IsBlock [] packets) :
    packets = [] := by
  cases packets with
  | nil => rfl
  | cons packet packets =>
    obtain ⟨bs₁, bs₂, hnil, hblock, -⟩ := sequence_cons.mp h
    rw [(List.append_eq_nil_iff.mp hnil.symm).1] at hblock
    exact absurd hblock.length_pos (Nat.lt_irrefl 0)

/-- **The packets of a batch are those of its blocks.** -/
theorem readPackets_iff {s : ReadOnlyBinaryStream} {packets : List Bytes}
    (hs : InputStream.usable s) :
    readPackets s = .ok packets ↔ Sequence IsBlock s.getLeftBufferView packets := by
  -- on what is left, of which each round takes a byte at least
  induction hleft : s.left using Nat.strong_induction_on generalizing s packets with
  | _ n ih =>
    rw [readPackets_round]
    by_cases hdata : s.hasDataLeft = true
    · have hne : InputStream.remaining s ≠ [] := by
        intro hnil
        have hend : s.mBufferView.length ≤ s.mReadPointer := List.drop_eq_nil_iff.mp hnil
        exact Nat.not_lt.mpr hend (of_decide_eq_true hdata)
      rw [if_pos hdata]
      obtain ⟨s', x, hx⟩ : ∃ s' x, readPacket s = (s', x) := ⟨_, _, rfl⟩
      rw [hx]
      cases x with
      | error e =>
        -- a batch that begins with no block has none
        refine iff_of_false ?_ (recognises_readPacket.not_sequence_of_error hs hne hx)
        exact fun h => absurd h (by simp)
      | ok packet =>
        obtain ⟨bs, rest, hrest, rfl, hblock⟩ := recognises_readPacket.yields s s' packet hs hx
        have hs' := usable_of_append hs hrest
        have hless : (s.advance bs.length).left < n := by
          have hbound := ReadOnlyBinaryStream.view_bound hs hrest
          have hpos := hblock.length_pos
          rw [← hleft]
          show s.mBufferView.length - (s.mReadPointer + bs.length) <
            s.mBufferView.length - s.mReadPointer
          omega
        have hrec : ∀ packets, readPackets (InputStream.skip s bs.length) = .ok packets ↔ _ :=
          fun packets => ih _ hless hs' rfl
        refine Iff.trans ?_ (recognises_readPacket.sequence_of_ok hs hne hx).symm
        show (readPackets (InputStream.skip s bs.length)).map (packet :: ·) = .ok packets ↔ _
        rw [map_eq_ok]
        constructor
        · rintro ⟨packets', h, rfl⟩
          exact ⟨packets', rfl, (hrec packets').mp h⟩
        · rintro ⟨packets', rfl, hseq⟩
          exact ⟨packets', (hrec packets').mpr hseq, rfl⟩
    · have hend : s.mBufferView.length ≤ s.mReadPointer :=
        Nat.le_of_not_lt fun h => hdata (decide_eq_true h)
      have hnil : s.getLeftBufferView = [] := List.drop_eq_nil_iff.mpr hend
      rw [if_neg hdata, hnil]
      constructor
      · intro h
        cases h
        exact sequence_nil.mpr rfl
      · intro hseq
        rw [eq_nil_of_sequence hseq]

/-! ### The loop on a cursor -/

/-- A round once the length is known. -/
def readBatchedData (packetSize : UInt32) : CursorRead Bytes := do
  let size ← Cursor.size
  let position ← Cursor.getPosition
  if packetSize.toUInt64 > size - position then
    Cursor.error "batched packet size exceeds remaining payload"
  else
    Cursor.withMessage "failed to read batched packet payload"
      (Cursor.readBytes packetSize.toUInt64)

/-- The body of the loop. -/
def readBatchedPacket : CursorRead Bytes := do
  let packetSize ← Cursor.withMessage "failed to read batched packet size" Cursor.readUnsignedVarInt
  readBatchedData packetSize

/-- The data of a packet are read if they are there. -/
theorem readBatchedData_eq (packetSize : UInt32) (m : Cursor) : readBatchedData packetSize m =
    if packetSize.toUInt64 > m.mBufferView.size - m.mReadPointer then
      Cursor.error "batched packet size exceeds remaining payload" m
    else Cursor.withMessage "failed to read batched packet payload"
      (Cursor.readBytes packetSize.toUInt64) m := by
  show (if packetSize.toUInt64 > m.mBufferView.size - m.mReadPointer then _
        else _ : CursorRead Bytes) m = _
  split
  · rfl
  · rfl

/-- The length is followed by as many bytes. -/
theorem counts_readBatchedPacket : Cursor.Counts readBatchedPacket fun _ n => 0 < n := by
  have hdata : ∀ packetSize, Cursor.Counts (readBatchedData packetSize) fun _ _ => True := by
    intro packetSize m m' packetData h
    rw [readBatchedData_eq] at h
    split at h
    · exact absurd h Cursor.error_ne_ok
    · obtain ⟨n, -, hn⟩ :=
        Ensures.mapError (Cursor.counts_readBytes packetSize.toUInt64) m m' packetData h
      exact ⟨n, trivial, hn⟩
  refine (Cursor.Counts.bind (Ensures.mapError (Cursor.counts_readVarIntGroups _ _ _)) hdata).mono
    fun _ n => ?_
  rintro ⟨_, n₁, n₂, ⟨hpos, -⟩, -, rfl⟩
  exact Nat.add_pos_left hpos n₂

/-- Reading a packet keeps the buffer. -/
theorem keeps_readBatchedPacket : Always Cursor.Keeps readBatchedPacket := by
  have hR := Cursor.keeps_readSteps
  refine hR.bind hR.always_readUnsignedVarInt.mapError fun packetSize m => ?_
  rw [readBatchedData_eq]
  split
  · exact hR.refl m
  · exact hR.always_readBytes.mapError m

/-- What is left is found by a subtraction, which does not wrap within the buffer. -/
theorem follows_readBatchedData (packetSize : UInt32) :
    Cursor.Follows (readBatchedData packetSize)
      (StreamRead.reader (readPacketData packetSize)) := by
  have hsize : packetSize.toUInt64.toNat = packetSize.toNat := UInt32.toNat_toUInt64 packetSize
  have hbytes := Cursor.follows_withMessage "failed to read batched packet payload"
    (@Cursor.follows_readBytes packetSize.toUInt64)
  rw [hsize] at hbytes
  constructor
  · intro m hm
    rw [readBatchedData_eq]
    split
    · exact hm
    · exact hbytes.keeps hm
  · intro m hm
    have hpointer := hm.pointer
    -- the position is at most the size, so the difference of the counts is theirs
    have hends : packetSize.toUInt64 > m.mBufferView.size - m.mReadPointer ↔
        packetSize.toNat > m.stream.size - m.stream.getPosition := by
      rw [gt_iff_lt, UInt64.lt_iff_toNat_lt, UInt64.toNat_sub_of_le _ _ hpointer, Span.toNat_size,
        hsize]
      rfl
    have hsame := hbytes.simulates hm
    rw [readBatchedData_eq]
    by_cases hend : packetSize.toNat > m.stream.size - m.stream.getPosition
    · simp only [if_pos (hends.mpr hend), StreamRead.reader, readPacketData, if_pos hend,
        Cursor.error, fail]
    · simp only [if_neg (fun h => hend (hends.mp h)), StreamRead.reader, readPacketData,
        if_neg hend]
      rw [← hsame]
      obtain ⟨t, x, hx⟩ : ∃ t x, m.stream.readBytes packetSize.toNat = (t, x) := ⟨_, _, rfl⟩
      cases x with
      | ok packetData => simp only [StreamRead.reader, Decoder.mapError, hx]
      | error e => simp only [StreamRead.reader, Decoder.mapError, hx]

/-- It follows the reader of a stream. -/
theorem follows_readBatchedPacket :
    Cursor.Follows readBatchedPacket (StreamRead.reader readPacket) :=
  Cursor.follows_bind (Cursor.follows_withMessage _ Cursor.follows_readUnsignedVarInt)
    follows_readBatchedData

/-- The loop. -/
def readBatch (m : Cursor) : Cursor × Except Failure (List Bytes) :=
  if m.mReadPointer < m.mBufferView.size then
    match _hround : readBatchedPacket m with
    | (m', .error e) => (m', .error e)
    | (m', .ok packetData) =>
      match readBatch m' with
      | (m'', .error e) => (m'', .error e)
      | (m'', .ok packets) => (m'', .ok (packetData :: packets))
  else (m, .ok [])
termination_by m.mBufferView.bytes.length - m.mReadPointer.toNat
decreasing_by
  next hdata =>
  obtain ⟨n, hpos, hpointer, -⟩ := counts_readBatchedPacket m m' packetData ‹_›
  have hview : m'.mBufferView = m.mBufferView := by
    have hkeeps := (keeps_readBatchedPacket m).1
    rwa [_hround] at hkeeps
  rw [UInt64.lt_iff_toNat_lt, Span.toNat_size] at hdata
  rw [hview, hpointer]
  omega

/-- The stream of a cursor has data left where the cursor has. -/
theorem hasDataLeft_stream (m : Cursor) :
    m.stream.hasDataLeft = decide (m.mReadPointer < m.mBufferView.size) := by
  refine decide_eq_decide.mpr ?_
  rw [UInt64.lt_iff_toNat_lt, Span.toNat_size]
  rfl

/-- **The loop on a cursor does what the loop on its stream does**, and stays within the buffer. -/
theorem readBatch_follows {m : Cursor} (hm : m.Within) :
    (readBatch m).1.Within ∧ (readBatch m).2 = (readPackets m.stream).mapError Failure.error := by
  fun_induction readBatch m with
  -- a round that failed on the stream fails here, with the same message
  | case1 m hdata m' e hround =>
    obtain ⟨hm', hstream⟩ := follows_readBatchedPacket.eq_of hm hround
    obtain ⟨message, hpacket, rfl⟩ := Cursor.reader_eq_error.mp hstream
    rw [readPackets_round, hasDataLeft_stream, if_pos (decide_eq_true hdata), hpacket]
    exact ⟨hm', rfl⟩
  -- the error of a later round is that of the loop
  | case2 m hdata m' packetData hround m'' e hrest ih =>
    obtain ⟨hm', hstream⟩ := follows_readBatchedPacket.eq_of hm hround
    have hpacket := Cursor.reader_eq_ok.mp hstream
    obtain ⟨hm'', hsame⟩ := ih hm'
    rw [hrest] at hm'' hsame
    rw [readPackets_round, hasDataLeft_stream, if_pos (decide_eq_true hdata), hpacket]
    refine ⟨hm'', ?_⟩
    show _ = Except.mapError Failure.error (Except.map (packetData :: ·) (readPackets m'.stream))
    cases hpackets : readPackets m'.stream with
    | ok packets =>
      rw [hpackets] at hsame
      cases hsame
    | error message =>
      rw [hpackets] at hsame
      cases hsame
      rfl
  | case3 m hdata m' packetData hround m'' packets hrest ih =>
    obtain ⟨hm', hstream⟩ := follows_readBatchedPacket.eq_of hm hround
    have hpacket := Cursor.reader_eq_ok.mp hstream
    obtain ⟨hm'', hsame⟩ := ih hm'
    rw [hrest] at hm'' hsame
    rw [readPackets_round, hasDataLeft_stream, if_pos (decide_eq_true hdata), hpacket]
    refine ⟨hm'', ?_⟩
    show _ = Except.mapError Failure.error (Except.map (packetData :: ·) (readPackets m'.stream))
    cases hpackets : readPackets m'.stream with
    | ok packets' =>
      rw [hpackets] at hsame
      cases hsame
      rfl
    | error message =>
      rw [hpackets] at hsame
      cases hsame
  | case4 m hdata =>
    rw [readPackets_round, hasDataLeft_stream, if_neg (by rwa [decide_eq_true_iff])]
    exact ⟨hm, rfl⟩

/-- **Batches of blocks.** Without encryption and compression a batch is split into the packets of
its blocks, and is an error if it is no sequence of blocks. On every buffer the loop of a cursor
ends with the same result, and within the buffer. -/
theorem deserialize_blocks (E : Evp) (D : Decompressors) (calls : EvpCalls) (bytes : Bytes) :
    (∀ packets, (deserializeBatchPackets E D calls ⟨none, none⟩ bytes).2 = .ok packets ↔
      Sequence IsBlock bytes packets) ∧
    ((¬ ∃ packets, Sequence IsBlock bytes packets) →
      ∃ message, (deserializeBatchPackets E D calls ⟨none, none⟩ bytes).2 = .error message) ∧
    ∀ buffer : Span, buffer.bytes = bytes →
      (readBatch (Cursor.ofBuffer buffer)).1.Within ∧
      (readBatch (Cursor.ofBuffer buffer)).2 =
        (deserializeBatchPackets E D calls ⟨none, none⟩ bytes).2.mapError Failure.error := by
  have hiff : ∀ packets, readPackets (ReadOnlyBinaryStream.ofBuffer bytes) = .ok packets ↔
      Sequence IsBlock bytes packets := fun packets => readPackets_iff ⟨rfl, Nat.zero_le _⟩
  refine ⟨hiff, fun hnone => ?_, ?_⟩
  · -- without a key and an algorithm the buffer is what is split
    show ∃ message, readPackets (ReadOnlyBinaryStream.ofBuffer bytes) = .error message
    cases hread : readPackets (ReadOnlyBinaryStream.ofBuffer bytes) with
    | ok packets => exact absurd ⟨packets, (hiff packets).mp hread⟩ hnone
    | error message => exact ⟨message, rfl⟩
  · rintro buffer rfl
    exact readBatch_follows (Cursor.ofBuffer_within buffer)

end Session
end SculkProtocol
