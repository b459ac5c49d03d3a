import SculkProtocol.Codec.Items

/-!
# Scoreboards

The scores of a `SetScorePacket` have an identity only if the packet changes them, and then what
follows the type of the identity depends on it: the id of an actor, or the name of a player who does
not exist. The identities of a `SetScoreboardIdentityPacket` have a player only if the packet
updates them; the reader of these resets the id of the player, the reader of scores leaves what it
does not read as it is.
-/

namespace SculkProtocol

open Decoder BinaryStream ReadOnlyBinaryStream StreamRead

/-! ### Scores -/

namespace SetScorePacket

/-- `PacketType::Change`; a packet of any other type removes. -/
def Change : UInt8 := 0

/-- `IdentityType::Player` or `IdentityType::Entity` -/
def HasActor (mIdentityType : UInt8) : Prop := mIdentityType = 1 ∨ mIdentityType = 2

instance (mIdentityType : UInt8) : Decidable (HasActor mIdentityType) :=
  inferInstanceAs (Decidable (_ ∨ _))

/-- `IdentityType::FakePlayer` -/
def FakePlayer : UInt8 := 3

structure ScoreInfo where
  mScoreboardId : Int64
  mObjectiveName : Bytes
  mScoreValue : Int32
  mIdentityType : UInt8
  mActorUniqueId : Int64
  mFakePlayerName : Bytes

namespace ScoreInfo

def new : ScoreInfo := ⟨0, [], 0, 0, 0, []⟩

def write (type : UInt8) (info : ScoreInfo) : Bytes :=
  writeVarInt64 info.mScoreboardId ++ writeString info.mObjectiveName ++
    writeSignedInt info.mScoreValue.toUInt32 ++
    if type = Change then
      writeByte info.mIdentityType ++
        (if HasActor info.mIdentityType then writeVarInt64 info.mActorUniqueId else []) ++
        (if info.mIdentityType = FakePlayer then writeString info.mFakePlayerName else [])
    else []

/-- What is read into `info`. -/
def read (type : UInt8) (info : ScoreInfo) : Reader ScoreInfo := do
  let mScoreboardId ← StreamRead.reader readVarInt64
  let mObjectiveName ← StreamRead.reader readString
  let mScoreValue ← StreamRead.reader readSignedInt
  if type = Change then do
    let mIdentityType ← StreamRead.reader (readEnum readByte)
    let mActorUniqueId ← readIf (HasActor mIdentityType) (StreamRead.reader readVarInt64)
      info.mActorUniqueId
    let mFakePlayerName ← readIf (mIdentityType = FakePlayer) (StreamRead.reader readString)
      info.mFakePlayerName
    pure ⟨mScoreboardId, mObjectiveName, mScoreValue, mIdentityType, mActorUniqueId,
      mFakePlayerName⟩
  else
    pure ⟨mScoreboardId, mObjectiveName, mScoreValue, info.mIdentityType, info.mActorUniqueId,
      info.mFakePlayerName⟩

/-- What the types do not call for has its default value. -/
structure Complete (type : UInt8) (info : ScoreInfo) : Prop where
  identity : type ≠ Change → info.mIdentityType = 0 ∧ info.mActorUniqueId = 0 ∧
    info.mFakePlayerName = []
  actor : ¬ HasActor info.mIdentityType → info.mActorUniqueId = 0
  name : info.mIdentityType ≠ FakePlayer → info.mFakePlayerName = []

/-- The parts are complete, and they fit their lengths. -/
structure Fits (type : UInt8) (info : ScoreInfo) : Prop extends Complete type info where
  objectiveSize : info.mObjectiveName.length < 2 ^ 32
  nameSize : info.mFakePlayerName.length < 2 ^ 32

theorem codec (type : UInt8) :
    WireCodec True (read type new) (write type) (Fits type) fun _ => 0 := by
  unfold read
  by_cases hchange : type = Change
  · simp only [if_pos hchange]
    refine WireCodec.congr
        (WireCodec.bind (Q := fun _ => True) (g := mScoreboardId)
            codec_readVarInt64.reader fun _ _ =>
      WireCodec.bind (g := mObjectiveName) codec_readString.reader fun _ _ =>
      WireCodec.bind (g := mScoreValue) codec_readSignedInt.reader fun _ _ =>
      WireCodec.bind_dependent (g := mIdentityType)
          (codec_readEnum codec_readByte).reader fun _ _ =>
      WireCodec.bind (g := mActorUniqueId)
          (codec_readIf fun _ => codec_readVarInt64.reader) fun _ _ =>
      WireCodec.bind (g := mFakePlayerName)
          (codec_readIf fun _ => codec_readString.reader) fun _ _ =>
      WireCodec.pure fun info => by cases info; grind) ?_ ?_ ?_
    · intro info
      simp only [true_and, and_true, if_true_left, new, if_text_iff]
      constructor
      · rintro ⟨hobjective, hactor, hname, hnameSize⟩
        exact ⟨⟨fun h => absurd hchange h, hactor, hname⟩, hobjective, hnameSize⟩
      · exact fun h => ⟨h.objectiveSize, h.actor, h.name, h.nameSize⟩
    · intro info _
      simp only [write, if_pos hchange, List.append_assoc, List.append_nil]
    · simp
  · simp only [if_neg hchange]
    -- nothing is known of the identity but its default value
    refine WireCodec.congr (WireCodec.bind (g := mScoreboardId)
      (Q := fun info => info.mIdentityType = 0 ∧ info.mActorUniqueId = 0 ∧
        info.mFakePlayerName = [])
      codec_readVarInt64.reader fun _ _ =>
      WireCodec.bind (g := mObjectiveName) codec_readString.reader fun _ _ =>
      WireCodec.bind (g := mScoreValue) codec_readSignedInt.reader fun _ _ =>
      WireCodec.pure fun info => by cases info; grind [new]) ?_ ?_ ?_
    · intro info
      simp only [true_and, and_true]
      constructor
      · rintro ⟨hidentity, hobjective⟩
        exact ⟨⟨fun _ => hidentity, fun _ => hidentity.2.1, fun _ => hidentity.2.2⟩, hobjective,
          hidentity.2.2 ▸ Nat.two_pow_pos 32⟩
      · exact fun h => ⟨h.identity hchange, h.objectiveSize⟩
    · intro info _
      simp only [write, if_neg hchange, List.append_assoc, List.append_nil]
    · simp

end ScoreInfo

end SetScorePacket

open SetScorePacket

structure SetScorePacket where
  mPacketType : UInt8
  mScoresInfo : List ScoreInfo

namespace SetScorePacket

/-- A fresh packet. -/
def new : SetScorePacket := ⟨0, []⟩

def write (packet : SetScorePacket) : Bytes :=
  writeByte packet.mPacketType ++ writeArray Prefix.unsignedVarInt
    (ScoreInfo.write packet.mPacketType) packet.mScoresInfo

/-- The packet that is read into `packet`. -/
def read (packet : SetScorePacket) : Reader SetScorePacket := do
  let mPacketType ← StreamRead.reader (readEnum readByte)
  let mScoresInfo ← readUnsignedArray .new (ScoreInfo.read mPacketType) packet.mScoresInfo
  pure ⟨mPacketType, mScoresInfo⟩

structure Fits (packet : SetScorePacket) : Prop where
  count : packet.mScoresInfo.length < 2 ^ 32
  scores : ∀ info ∈ packet.mScoresInfo, info.Fits packet.mPacketType

theorem codec : WireCodec True (read new) write Fits fun _ => 0 := by
  refine WireCodec.congr (WireCodec.bind_dependent (Q := fun _ => True) (g := mPacketType)
      (codec_readEnum codec_readByte).reader fun type _ =>
    WireCodec.bind (g := mScoresInfo) (codec_newArray (ScoreInfo.codec type)) fun _ _ =>
    WireCodec.pure fun packet => by cases packet; grind) ?_ ?_ ?_
  · intro packet
    simp only [true_and, and_true]
    exact ⟨fun h => ⟨h.1, h.2⟩, fun h => ⟨h.count, h.scores⟩⟩
  · intro packet _
    simp only [write, List.append_nil]
  · simp

/-- **Scores.** A packet comes back from what is written of it, whatever follows, exactly if what
its type and the types of the identities do not call for has its default value and the sizes fit. -/
theorem scores_read_back_iff (packet : SetScorePacket) :
    Accepts (read new) packet.write packet ↔ packet.Fits := by
  rw [codec.reads_back_iff]
  exact and_iff_left rfl

end SetScorePacket

/-! ### Identities -/

structure SetScoreboardIdentityPacket.ScoreboardIdentity where
  mScoreboardId : Int64
  mPlayerUniqueId : Int64

open SetScoreboardIdentityPacket

structure SetScoreboardIdentityPacket where
  mType : UInt8
  mSetScoreboardIdentities : List ScoreboardIdentity

namespace SetScoreboardIdentityPacket

/-- `Type::Update` -/
def Update : UInt8 := 0

/-- A fresh packet. -/
def new : SetScoreboardIdentityPacket := ⟨0, []⟩

def writeIdentity (mType : UInt8) (data : ScoreboardIdentity) : Bytes :=
  writeVarInt64 data.mScoreboardId ++ if mType = Update then writeVarInt64 data.mPlayerUniqueId
                                      else []

/-- The id of a player that is not read is reset. -/
def readIdentity (mType : UInt8) : Reader ScoreboardIdentity := do
  let mScoreboardId ← StreamRead.reader readVarInt64
  let mPlayerUniqueId ← readIf (mType = Update) (StreamRead.reader readVarInt64) 0
  pure ⟨mScoreboardId, mPlayerUniqueId⟩

def write (packet : SetScoreboardIdentityPacket) : Bytes :=
  writeByte packet.mType ++
    writeArray Prefix.unsignedVarInt (writeIdentity packet.mType) packet.mSetScoreboardIdentities

/-- The packet that is read into `packet`. -/
def read (packet : SetScoreboardIdentityPacket) : Reader SetScoreboardIdentityPacket := do
  let mType ← StreamRead.reader (readEnum readByte)
  let mSetScoreboardIdentities ← readUnsignedArray ⟨0, 0⟩ (fun _ => readIdentity mType)
    packet.mSetScoreboardIdentities
  pure ⟨mType, mSetScoreboardIdentities⟩

structure Fits (packet : SetScoreboardIdentityPacket) : Prop where
  count : packet.mSetScoreboardIdentities.length < 2 ^ 32
  players : packet.mType ≠ Update → ∀ data ∈ packet.mSetScoreboardIdentities,
    data.mPlayerUniqueId = 0

theorem codec_identity (mType : UInt8) : WireCodec True (readIdentity mType) (writeIdentity mType)
    (fun data => mType ≠ Update → data.mPlayerUniqueId = 0) fun _ => 0 := by
  refine WireCodec.congr
    (WireCodec.bind (Q := fun _ => True) (g := ScoreboardIdentity.mScoreboardId)
      codec_readVarInt64.reader fun _ _ =>
    WireCodec.bind (g := ScoreboardIdentity.mPlayerUniqueId)
        (codec_readIf fun _ => codec_readVarInt64.reader) fun _ _ =>
    WireCodec.pure fun data => by cases data; grind) ?_ ?_ ?_
  · intro data
    simp only [true_and, and_true, if_true_left, ne_eq]
  · simp [writeIdentity]
  · simp

theorem codec : WireCodec True (read new) write Fits fun _ => 0 := by
  refine WireCodec.congr (WireCodec.bind_dependent (Q := fun _ => True) (g := mType)
      (codec_readEnum codec_readByte).reader fun type _ =>
    WireCodec.bind (g := mSetScoreboardIdentities) (codec_newArray (codec_identity type)) fun _ _ =>
    WireCodec.pure fun packet => by cases packet; grind) ?_ ?_ ?_
  · intro packet
    simp only [true_and, and_true]
    exact ⟨fun h => ⟨h.1, fun hremove data hdata => h.2 data hdata hremove⟩,
      fun h => ⟨h.count, fun data hdata hremove => h.players hremove data hdata⟩⟩
  · intro packet _
    simp only [write, List.append_nil]
  · simp

end SetScoreboardIdentityPacket
end SculkProtocol
