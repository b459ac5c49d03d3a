import SculkProtocol.Codec.Items

/-!
# Texts and books

A `TextPacket` has a body of one of three kinds, and a type, which is written and read behind the
index of the body: no type is tied to a kind. A `BookEditPacket` has the parts that its action calls
for; the others have their default values at the other end. `texts_read_back_iff` and
`edits_read_back_iff` say which packets come back.
-/

namespace SculkProtocol

open Decoder BinaryStream ReadOnlyBinaryStream StreamRead

/-! ### Texts -/

/-- There are three kinds of bodies. -/
local instance TextPacket.bodies_ne_zero : NeZero 3 := ⟨Nat.succ_ne_zero 2⟩

namespace TextPacket

structure MessageOnly where
  mMessage : Bytes

structure AuthorAndMessage where
  mPlayerName : Bytes
  mMessage : Bytes

structure MessageAndParams where
  mMessage : Bytes
  mParameters : List Bytes

/-- The alternatives of `TextBodyVariant` -/
def TextBody : Fin 3 → Type
  | 0 => MessageOnly
  | 1 => AuthorAndMessage
  | 2 => MessageAndParams

def ofMessage (mMessage : Bytes) : Variant TextBody := ⟨0, (⟨mMessage⟩ : MessageOnly)⟩

/-- A body with the type of the packet, which the visitor writes and reads before it. -/
abbrev TypedBody (i : Fin 3) : Type := UInt8 × TextBody i

namespace TypedBody

def value : ∀ i, TypedBody i
  | 0 => (0, (⟨[]⟩ : MessageOnly))
  | 1 => (0, (⟨[], []⟩ : AuthorAndMessage))
  | 2 => (0, (⟨[], []⟩ : MessageAndParams))

def write : ∀ i, TypedBody i → Bytes
  | 0, (mType, (body : MessageOnly)) => writeByte mType ++ writeString body.mMessage
  | 1, (mType, (body : AuthorAndMessage)) =>
    writeByte mType ++ writeString body.mPlayerName ++ writeString body.mMessage
  | 2, (mType, (body : MessageAndParams)) =>
    writeByte mType ++ writeString body.mMessage ++
    writeArray Prefix.unsignedVarInt writeString body.mParameters

/-- The body that is read into is new. -/
def read : ∀ i, TypedBody i → Reader (TypedBody i)
  | 0, _ => do
    let mType ← StreamRead.reader (readEnum readByte)
    let mMessage ← StreamRead.reader readString
    pure (mType, (⟨mMessage⟩ : MessageOnly))
  | 1, _ => do
    let mType ← StreamRead.reader (readEnum readByte)
    let mPlayerName ← StreamRead.reader readString
    let mMessage ← StreamRead.reader readString
    pure (mType, (⟨mPlayerName, mMessage⟩ : AuthorAndMessage))
  | 2, (_, (body : MessageAndParams)) => do
    let mType ← StreamRead.reader (readEnum readByte)
    let mMessage ← StreamRead.reader readString
    let mParameters ← readUnsignedArray [] (fun _ => StreamRead.reader readString) body.mParameters
    pure (mType, (⟨mMessage, mParameters⟩ : MessageAndParams))

/-- Strings and lists that fit their lengths. -/
def Fits : ∀ i, TypedBody i → Prop
  | 0, (_, (body : MessageOnly)) => body.mMessage.length < 2 ^ 32
  | 1, (_, (body : AuthorAndMessage)) => body.mPlayerName.length < 2 ^ 32 ∧
      body.mMessage.length < 2 ^ 32
  | 2, (_, (body : MessageAndParams)) => body.mMessage.length < 2 ^ 32 ∧
      body.mParameters.length < 2 ^ 32 ∧
    ∀ parameter ∈ body.mParameters, parameter.length < 2 ^ 32

theorem codec : ∀ i, WireCodec True (read i (value i)) (write i) (Fits i) fun _ => 0
  | 0 => by
    refine (WireCodec.bind (γ := UInt8 × MessageOnly) (Q := fun _ => True) (g := Prod.fst)
      (codec_readEnum codec_readByte).reader fun _ _ =>
      WireCodec.bind (g := fun body : UInt8 × MessageOnly => body.2.mMessage)
          codec_readString.reader fun _ _ =>
      WireCodec.pure fun body => ⟨fun h => Prod.ext h.2.1 (congrArg MessageOnly.mk h.1),
        fun h => by rw [h]; exact ⟨rfl, rfl, trivial⟩⟩).congr ?_ ?_ ?_
    · simp [Fits]
    · simp [write]
    · simp
  | 1 => by
    refine (WireCodec.bind (γ := UInt8 × AuthorAndMessage) (Q := fun _ => True) (g := Prod.fst)
      (codec_readEnum codec_readByte).reader fun _ _ =>
      WireCodec.bind (g := fun body : UInt8 × AuthorAndMessage => body.2.mPlayerName)
          codec_readString.reader fun _ _ =>
      WireCodec.bind (g := fun body : UInt8 × AuthorAndMessage => body.2.mMessage)
          codec_readString.reader fun _ _ =>
      WireCodec.pure fun body =>
        ⟨fun h => Prod.ext h.2.2.1 (congrArg₂ AuthorAndMessage.mk h.2.1 h.1),
        fun h => by rw [h]; exact ⟨rfl, rfl, rfl, trivial⟩⟩).congr ?_ ?_ ?_
    · simp [Fits]
    · simp [write]
    · simp
  | 2 => by
    refine (WireCodec.bind (γ := UInt8 × MessageAndParams) (Q := fun _ => True) (g := Prod.fst)
      (codec_readEnum codec_readByte).reader fun _ _ =>
      WireCodec.bind (g := fun body : UInt8 × MessageAndParams => body.2.mMessage)
          codec_readString.reader fun _ _ =>
      WireCodec.bind (g := fun body : UInt8 × MessageAndParams => body.2.mParameters)
        (codec_newArray codec_readString.reader) fun _ _ =>
      WireCodec.pure fun body =>
        ⟨fun h => Prod.ext h.2.2.1 (congrArg₂ MessageAndParams.mk h.2.1 h.1),
        fun h => by rw [h]; exact ⟨rfl, rfl, rfl, trivial⟩⟩).congr ?_ ?_ ?_
    · simp [Fits]
    · simp [write]
    · simp

end TypedBody

end TextPacket

open TextPacket

structure TextPacket where
  mLocalize : Bool
  mType : UInt8
  mBody : Variant TextBody
  mXuid : Bytes
  mPlatformId : Bytes
  mFilteredMessage : Bytes

namespace TextPacket

/-- A fresh packet. -/
def new : TextPacket := ⟨false, 0, ofMessage [], [], [], []⟩

/-- The body with the type before it. -/
def typedBody (packet : TextPacket) : Variant TypedBody :=
  ⟨packet.mBody.1, packet.mType, packet.mBody.2⟩

def write (packet : TextPacket) : Bytes :=
  writeBool packet.mLocalize ++ writeVariant .plain Prefix.unsignedVarInt TypedBody.write
    packet.typedBody ++
    writeString packet.mXuid ++ writeString packet.mPlatformId ++
    writeString packet.mFilteredMessage

/-- What is read into a packet: nothing of it stays. -/
def read : Reader TextPacket := do
  let mLocalize ← StreamRead.reader readBool
  let body ← readVariant .plain Prefix.unsignedVarInt TypedBody.value TypedBody.read
  let mXuid ← StreamRead.reader readString
  let mPlatformId ← StreamRead.reader readString
  let mFilteredMessage ← StreamRead.reader readString
  pure ⟨mLocalize, body.2.1, ⟨body.1, body.2.2⟩, mXuid, mPlatformId, mFilteredMessage⟩

structure Fits (packet : TextPacket) : Prop where
  body : TypedBody.Fits packet.mBody.1 (packet.mType, packet.mBody.2)
  xuid : packet.mXuid.length < 2 ^ 32
  platformId : packet.mPlatformId.length < 2 ^ 32
  filteredMessage : packet.mFilteredMessage.length < 2 ^ 32

theorem codec : WireCodec True read write Fits fun _ => 0 := by
  have hindex : ∀ i : Fin 3, Prefix.unsignedVarInt.Fits i :=
    fun i => Nat.lt_trans i.isLt (by decide)
  refine WireCodec.congr (WireCodec.bind (Q := fun _ => True) (g := mLocalize)
      codec_readBool.reader fun _ _ =>
    WireCodec.bind (g := typedBody)
        (codec_readVariant codec_unsignedVarInt hindex TypedBody.codec) fun _ _ =>
    WireCodec.bind (g := mXuid) codec_readString.reader fun _ _ =>
    WireCodec.bind (g := mPlatformId) codec_readString.reader fun _ _ =>
    WireCodec.bind (g := mFilteredMessage) codec_readString.reader fun _ _ =>
    WireCodec.pure fun packet => ?_) ?_ ?_ ?_
  · obtain ⟨localize, type, body, xuid, platformId, filteredMessage⟩ := packet
    constructor
    · rintro ⟨rfl, rfl, rfl, rfl, rfl, -⟩
      rfl
    · intro h
      cases h
      exact ⟨rfl, rfl, rfl, rfl, rfl, trivial⟩
  · intro packet
    simp only [true_and, and_true]
    exact ⟨fun h => ⟨h.1, h.2.1, h.2.2.1, h.2.2.2⟩,
      fun h => ⟨h.body, h.xuid, h.platformId, h.filteredMessage⟩⟩
  · simp [write]
  · simp

/-- **Texts.** A packet comes back from what is written of it, whatever follows and whatever its
type is, exactly if its strings and the number of its parameters fit. -/
theorem texts_read_back_iff (packet : TextPacket) :
    Accepts read packet.write packet ↔ packet.Fits := by
  rw [codec.reads_back_iff]
  exact and_iff_left rfl

end TextPacket

/-! ### Books -/

structure BookEditPacket where
  mAction : UInt8
  mBookSlot : Int32
  mPageIndexA : Int32
  mPageIndexB : Int32
  mTextA : Bytes
  mTextB : Bytes
  mXuid : Bytes

namespace BookEditPacket

/-- `Action` -/
def ReplacePage : UInt8 := 0
def AddPage : UInt8 := 1
def DeletePage : UInt8 := 2
def SwapPages : UInt8 := 3
def Finalize : UInt8 := 4

/-- A fresh packet. -/
def new : BookEditPacket := ⟨0, 0, 0, 0, [], [], []⟩

/-- The action is on a page with a text. -/
def SetsPage (mAction : UInt8) : Prop := mAction = ReplacePage ∨ mAction = AddPage

instance (mAction : UInt8) : Decidable (SetsPage mAction) := inferInstanceAs (Decidable (_ ∨ _))

/-- What the action calls for. -/
def writeParts (packet : BookEditPacket) : Bytes :=
  if SetsPage packet.mAction then
    writeVarInt packet.mPageIndexA ++ writeString packet.mTextA ++ writeString packet.mTextB
  else if packet.mAction = DeletePage then writeVarInt packet.mPageIndexA
  else if packet.mAction = SwapPages then writeVarInt packet.mPageIndexA ++
    writeVarInt packet.mPageIndexB
  else if packet.mAction = Finalize then
    writeString packet.mTextA ++ writeString packet.mTextB ++ writeString packet.mXuid
  else []

def write (packet : BookEditPacket) : Bytes :=
  writeVarInt packet.mBookSlot ++ writeUnsignedVarInt packet.mAction.toUInt32 ++ packet.writeParts

/-- What the action calls for is read into `packet`, which has the action. -/
def readParts (packet : BookEditPacket) : Reader BookEditPacket :=
  if SetsPage packet.mAction then do
    let mPageIndexA ← StreamRead.reader readVarInt
    let mTextA ← StreamRead.reader readString
    let mTextB ← StreamRead.reader readString
    pure { packet with mPageIndexA := mPageIndexA, mTextA := mTextA, mTextB := mTextB }
  else if packet.mAction = DeletePage then do
    let mPageIndexA ← StreamRead.reader readVarInt
    pure { packet with mPageIndexA := mPageIndexA }
  else if packet.mAction = SwapPages then do
    let mPageIndexA ← StreamRead.reader readVarInt
    let mPageIndexB ← StreamRead.reader readVarInt
    pure { packet with mPageIndexA := mPageIndexA, mPageIndexB := mPageIndexB }
  else if packet.mAction = Finalize then do
    let mTextA ← StreamRead.reader readString
    let mTextB ← StreamRead.reader readString
    let mXuid ← StreamRead.reader readString
    pure { packet with mTextA := mTextA, mTextB := mTextB, mXuid := mXuid }
  else pure packet

/-- The packet that is read into `packet`. -/
def read (packet : BookEditPacket) : Reader BookEditPacket := do
  let mBookSlot ← StreamRead.reader readVarInt
  let mAction ← (StreamRead.reader (readEnum readUnsignedVarInt)).cast UInt32.toUInt8
  readParts { packet with mAction := mAction, mBookSlot := mBookSlot }

/-- An action on a page. -/
def SetsIndex (mAction : UInt8) : Prop := SetsPage mAction ∨ mAction = DeletePage ∨
    mAction = SwapPages

instance (mAction : UInt8) : Decidable (SetsIndex mAction) := inferInstanceAs (Decidable (_ ∨ _))

/-- An action with a text. -/
def SetsText (mAction : UInt8) : Prop := SetsPage mAction ∨ mAction = Finalize

instance (mAction : UInt8) : Decidable (SetsText mAction) := inferInstanceAs (Decidable (_ ∨ _))

/-- What the action does not call for has its default value. -/
structure Complete (packet : BookEditPacket) : Prop where
  pageA : ¬ SetsIndex packet.mAction → packet.mPageIndexA = 0
  pageB : packet.mAction ≠ SwapPages → packet.mPageIndexB = 0
  texts : ¬ SetsText packet.mAction → packet.mTextA = [] ∧ packet.mTextB = []
  xuid : packet.mAction ≠ Finalize → packet.mXuid = []

/-- The parts are complete, and they fit their lengths. -/
structure Fits (packet : BookEditPacket) : Prop extends Complete packet where
  textASize : packet.mTextA.length < 2 ^ 32
  textBSize : packet.mTextB.length < 2 ^ 32
  xuidSize : packet.mXuid.length < 2 ^ 32

/-- Every action has its parts in the same order. -/
theorem readParts_eq (packet : BookEditPacket) : packet.readParts = (do
    let mPageIndexA ← readIf (SetsIndex packet.mAction) (StreamRead.reader readVarInt)
      packet.mPageIndexA
    let mPageIndexB ← readIf (packet.mAction = SwapPages) (StreamRead.reader readVarInt)
      packet.mPageIndexB
    let mTextA ← readIf (SetsText packet.mAction) (StreamRead.reader readString) packet.mTextA
    let mTextB ← readIf (SetsText packet.mAction) (StreamRead.reader readString) packet.mTextB
    let mXuid ← readIf (packet.mAction = Finalize) (StreamRead.reader readString) packet.mXuid
    pure ⟨packet.mAction, packet.mBookSlot, mPageIndexA, mPageIndexB, mTextA, mTextB, mXuid⟩) := by
  obtain ⟨mAction, mBookSlot, mPageIndexA, mPageIndexB, mTextA, mTextB, mXuid⟩ := packet
  by_cases hpage : SetsPage mAction
  · rcases hpage with rfl | rfl
    · rfl
    · rfl
  by_cases hdelete : mAction = DeletePage
  · subst hdelete
    rfl
  by_cases hswap : mAction = SwapPages
  · subst hswap
    rfl
  by_cases hfinalize : mAction = Finalize
  · subst hfinalize
    rfl
  · -- an action that there is not has no parts
    have hindex : ¬ SetsIndex mAction := not_or.mpr ⟨hpage, not_or.mpr ⟨hdelete, hswap⟩⟩
    have htext : ¬ SetsText mAction := not_or.mpr ⟨hpage, hfinalize⟩
    simp only [readParts, readIf, if_neg hpage, if_neg hdelete, if_neg hswap, if_neg hfinalize,
      if_neg hindex, if_neg htext]
    rfl

/-- The same of what is written. -/
theorem writeParts_eq (packet : BookEditPacket) : packet.writeParts =
    (if SetsIndex packet.mAction then writeVarInt packet.mPageIndexA else []) ++
      ((if packet.mAction = SwapPages then writeVarInt packet.mPageIndexB else []) ++
        ((if SetsText packet.mAction then writeString packet.mTextA else []) ++
          ((if SetsText packet.mAction then writeString packet.mTextB else []) ++
            if packet.mAction = Finalize then writeString packet.mXuid else []))) := by
  obtain ⟨mAction, mBookSlot, mPageIndexA, mPageIndexB, mTextA, mTextB, mXuid⟩ := packet
  by_cases hpage : SetsPage mAction
  · rcases hpage with rfl | rfl
    · simp [writeParts, SetsPage, SetsIndex, SetsText, ReplacePage, SwapPages, Finalize]
    · simp [writeParts, SetsPage, SetsIndex, SetsText, ReplacePage, AddPage, SwapPages, Finalize]
  by_cases hdelete : mAction = DeletePage
  · subst hdelete
    simp [writeParts, SetsPage, SetsIndex, SetsText, ReplacePage, AddPage, DeletePage, SwapPages,
      Finalize]
  by_cases hswap : mAction = SwapPages
  · subst hswap
    simp [writeParts, SetsPage, SetsIndex, SetsText, ReplacePage, AddPage, DeletePage, SwapPages,
      Finalize]
  by_cases hfinalize : mAction = Finalize
  · subst hfinalize
    simp [writeParts, SetsPage, SetsIndex, SetsText, ReplacePage, AddPage, DeletePage, SwapPages,
      Finalize]
  · simp [writeParts, hpage, hdelete, hswap, hfinalize, SetsIndex, SetsText]

theorem codec_parts (mBookSlot : Int32) (mAction : UInt8) :
    WireCodec True (readParts { new with mAction := mAction, mBookSlot := mBookSlot }) writeParts
      (fun packet => (packet.mAction = mAction ∧ packet.mBookSlot = mBookSlot ∧ True) ∧ packet.Fits)
        fun _ => 0 := by
  rw [readParts_eq]
  refine WireCodec.congr (WireCodec.bind (g := mPageIndexA)
      (Q := fun packet => packet.mAction = mAction ∧ packet.mBookSlot = mBookSlot)
      (codec_readIf fun _ => codec_readVarInt.reader) fun _ _ =>
    WireCodec.bind (g := mPageIndexB) (codec_readIf fun _ => codec_readVarInt.reader) fun _ _ =>
    WireCodec.bind (g := mTextA) (codec_readIf fun _ => codec_readString.reader) fun _ _ =>
    WireCodec.bind (g := mTextB) (codec_readIf fun _ => codec_readString.reader) fun _ _ =>
    WireCodec.bind (g := mXuid) (codec_readIf fun _ => codec_readString.reader) fun _ _ =>
    WireCodec.pure fun packet => by cases packet; grind) (fun packet => ?_)
      (fun packet hpacket => ?_) ?_
  · simp only [and_true, if_true_left, new, if_text_iff]
    constructor
    · rintro ⟨⟨rfl, rfl⟩, hindex, hpageB, ⟨htextA, hsizeA⟩, ⟨htextB, hsizeB⟩, hxuid, hsize⟩
      exact ⟨⟨rfl, rfl⟩, ⟨hindex, hpageB, fun h => ⟨htextA h, htextB h⟩, hxuid⟩, hsizeA,
        hsizeB, hsize⟩
    · rintro ⟨⟨rfl, rfl⟩, h⟩
      exact ⟨⟨rfl, rfl⟩, h.pageA, h.pageB, ⟨fun hnot => (h.texts hnot).1, h.textASize⟩,
        ⟨fun hnot => (h.texts hnot).2, h.textBSize⟩, h.xuid, h.xuidSize⟩
  · rw [writeParts_eq, List.append_nil, hpacket.1.1]
  · simp

theorem codec : WireCodec True (read new) write Fits fun _ => 0 := by
  refine WireCodec.congr
      (WireCodec.bind (Q := fun _ => True) (g := mBookSlot) codec_readVarInt.reader
          fun mBookSlot _ =>
    WireCodec.bind_dependent (g := mAction) codec_byteEnum fun mAction _ =>
      codec_parts mBookSlot mAction) ?_ ?_ ?_
  · intro packet
    simp only [true_and]
  · intro packet _
    rw [write, List.append_assoc]
  · simp

/-- **Books.** A packet comes back from what is written of it, whatever follows, exactly if what its
action does not call for has its default value and its strings fit. -/
theorem edits_read_back_iff (packet : BookEditPacket) :
    Accepts (read new) packet.write packet ↔ packet.Fits := by
  rw [codec.reads_back_iff]
  exact and_iff_left rfl

end BookEditPacket
end SculkProtocol
