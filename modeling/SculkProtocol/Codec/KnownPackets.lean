import SculkProtocol.Codec.AvailableCommands
import SculkProtocol.Codec.CraftingData
import SculkProtocol.Codec.EntityOverrides
import SculkProtocol.Codec.ItemStackRequest
import SculkProtocol.Codec.LevelChunk
import SculkProtocol.Codec.MapItemData
import SculkProtocol.Codec.PlayerList
import SculkProtocol.Codec.Scoreboard
import SculkProtocol.Codec.SoundEvents
import SculkProtocol.Codec.SubChunk
import SculkProtocol.Codec.Text

/-!
# Packets of known classes

The classes of which it is known which packets come back, by their ids. The other classes stay a
parameter, and so do the names of the sound events. `known_packets_read_back_iff` says which packets
of these classes come back from what is written of them with their header.
-/

namespace SculkProtocol

/-- A class of packets, with those of them that come back. -/
structure KnownClass where
  packetClass : PacketClass
  Fits : packetClass.Data → Prop
  returns : packetClass.Returns Fits

namespace KnownClass

open MinecraftPackets

def text : KnownClass where
  packetClass := ⟨TextPacket, TextPacket.new, TextPacket.write, fun _ => TextPacket.read⟩
  Fits := TextPacket.Fits
  returns := .of_complete TextPacket.codec

def craftingData : KnownClass where
  packetClass :=
    ⟨CraftingDataPacket, CraftingDataPacket.new, CraftingDataPacket.write, CraftingDataPacket.read⟩
  Fits := CraftingDataPacket.Fits
  returns := .of_complete (CraftingDataPacket.codec (T := True) CraftingDataPacket.new)

/-- A level chunk comes back if it can be sent and nothing of it is lost. -/
def levelChunk : KnownClass where
  packetClass :=
    ⟨LevelChunkPacket, LevelChunkPacket.new, LevelChunkPacket.write, LevelChunkPacket.read⟩
  Fits packet := packet.Sendable ∧ LevelChunkPacket.received LevelChunkPacket.new packet = packet
  returns := .of_received (fun _ h => h.accepts LevelChunkPacket.new)
    (LevelChunkPacket.yields_read.mono fun _ _ h => h.toSendable)

def playerList : KnownClass where
  packetClass :=
    ⟨PlayerListPacket, PlayerListPacket.new, PlayerListPacket.write, PlayerListPacket.read⟩
  Fits := PlayerListPacket.Fits
  returns := .of_complete PlayerListPacket.codec

def clientboundMapItemData : KnownClass where
  packetClass :=
    ⟨ClientboundMapItemDataPacket, ClientboundMapItemDataPacket.new,
      ClientboundMapItemDataPacket.write,
    ClientboundMapItemDataPacket.read⟩
  Fits := ClientboundMapItemDataPacket.Fits
  returns := .of_complete ClientboundMapItemDataPacket.codec

def bossEvent : KnownClass where
  packetClass :=
    ⟨BossEventPacket, BossEventPacket.new, BossEventPacket.write, fun _ => BossEventPacket.read⟩
  Fits := BossEventPacket.Fits
  returns := .of_complete BossEventPacket.codec

def availableCommands : KnownClass where
  packetClass :=
    ⟨AvailableCommandsPacket, AvailableCommandsPacket.new, AvailableCommandsPacket.write,
    AvailableCommandsPacket.read⟩
  Fits := AvailableCommandsPacket.Fits
  returns := .of_complete AvailableCommandsPacket.codec

def bookEdit : KnownClass where
  packetClass := ⟨BookEditPacket, BookEditPacket.new, BookEditPacket.write, BookEditPacket.read⟩
  Fits := BookEditPacket.Fits
  returns := .of_complete BookEditPacket.codec

def setScore : KnownClass where
  packetClass := ⟨SetScorePacket, SetScorePacket.new, SetScorePacket.write, SetScorePacket.read⟩
  Fits := SetScorePacket.Fits
  returns := .of_complete SetScorePacket.codec

def setScoreboardIdentity : KnownClass where
  packetClass :=
    ⟨SetScoreboardIdentityPacket, SetScoreboardIdentityPacket.new,
      SetScoreboardIdentityPacket.write,
    SetScoreboardIdentityPacket.read⟩
  Fits := SetScoreboardIdentityPacket.Fits
  returns := .of_complete SetScoreboardIdentityPacket.codec

def levelSoundEvent (enum : EnumNames UInt16) : KnownClass where
  packetClass :=
    ⟨LevelSoundEventPacket, LevelSoundEventPacket.new, LevelSoundEventPacket.write enum,
    fun _ => LevelSoundEventPacket.read enum⟩
  Fits := LevelSoundEventPacket.Fits enum
  returns := .of_complete (LevelSoundEventPacket.codec enum)

/-- Nothing of a request may be missing of what is written. -/
def itemStackRequest : KnownClass where
  packetClass := ⟨ItemStackRequest, ⟨[]⟩, ItemStackRequest.write, ItemStackRequest.read⟩
  Fits request := (request.mRequests.length < 2 ^ 32 ∧ ∀ data ∈ request.mRequests, data.Fits) ∧
    (request.mRequests.map ItemStackRequestData.missing).sum = 0
  returns := .of_codec (ItemStackRequest.codec ⟨[]⟩)

def subChunk : KnownClass where
  packetClass := ⟨SubChunkPacket, SubChunkPacket.new, SubChunkPacket.write, SubChunkPacket.read⟩
  Fits := SubChunkPacket.Fits
  returns := .of_complete SubChunkPacket.codec

def playerUpdateEntityOverrides : KnownClass where
  packetClass := ⟨PlayerUpdateEntityOverridesPacket, PlayerUpdateEntityOverridesPacket.new,
    PlayerUpdateEntityOverridesPacket.write, fun _ => PlayerUpdateEntityOverridesPacket.read⟩
  Fits := PlayerUpdateEntityOverridesPacket.Fits
  returns := .of_complete PlayerUpdateEntityOverridesPacket.codec

end KnownClass

namespace MinecraftPackets

section

variable (enum : EnumNames UInt16)

/-- The known classes by their ids. -/
def known : UInt16 → Option KnownClass
  | 9 => some .text
  | 52 => some .craftingData
  | 58 => some .levelChunk
  | 63 => some .playerList
  | 67 => some .clientboundMapItemData
  | 74 => some .bossEvent
  | 76 => some .availableCommands
  | 97 => some .bookEdit
  | 108 => some .setScore
  | 112 => some .setScoreboardIdentity
  | 123 => some (.levelSoundEvent enum)
  | 147 => some .itemStackRequest
  | 174 => some .subChunk
  | 325 => some .playerUpdateEntityOverrides
  | _ => none

/-- A class, which is another one if it is not known. -/
def classOr (other : PacketClass) : Option KnownClass → PacketClass
  | some c => c.packetClass
  | none => other

/-- The packets that are known to come back. -/
def FitsOr (other : PacketClass) : ∀ c : Option KnownClass, (classOr other c).Data → Prop
  | some c => c.Fits
  | none => fun _ => False

/-- All classes, if `others` are those that are not known. -/
def classes (others : PacketClasses) :
    PacketClasses := fun packetId => classOr (others packetId) (known enum packetId)

variable {enum} {others : PacketClasses}

/-- The data of a packet of a known class fits. -/
def KnownToFit (packet : IPacket (classes enum others)) : Prop :=
  FitsOr (others packet.getId) (known enum packet.getId) packet.data

theorem returns_classOr {other : PacketClass} {c : Option KnownClass} (h : c.isSome) :
    (classOr other c).Returns (FitsOr other c) := by
  cases c with
  | none => exact absurd h Bool.false_ne_true
  | some c => exact c.returns

/-- **Packets of known classes.** Whatever the other classes are, a packet of one of the known ones
comes back from what is written of it with its header exactly if its sub-clients are below 4 and its
data fits. -/
theorem known_packets_read_back_iff (packet : IPacket (classes enum others))
    (h : (known enum packet.getId).isSome) :
    readAndCreatePacketFromBuffer (classes enum others) packet.writeWithHeader = .ok packet ↔
      (packet.mSenderSubClientId < 4 ∧ packet.mTargetSubClientId < 4) ∧ KnownToFit packet :=
  readsBack_iff (returns_classOr h)

/-- An entry of a player is removed. -/
theorem known_packets_read_back_iff_removed :
    let enum : EnumNames UInt16 := .ofEntries [] 0 nofun nofun nofun .nil .nil
    let entry : PlayerListEntry := { PlayerListEntry.new with mUUID := ⟨1, 2⟩ }
    let packetId : {packetId : UInt16 // IsCreated packetId} := ⟨63, by decide⟩
    let packet : IPacket (classes enum fun _ => KnownClass.text.packetClass) :=
      ⟨packetId, 3, 0, (⟨1, [entry]⟩ : PlayerListPacket)⟩
    readAndCreatePacketFromBuffer _ packet.writeWithHeader = .ok packet := by
  intro enum entry packetId packet
  have hentry : ∀ e ∈ [entry], PlayerListPacket.EntryFits 1 e := fun e he => by
    rw [List.mem_singleton.mp he]
    rfl
  have hfits : PlayerListPacket.Fits ⟨1, [entry]⟩ := ⟨Nat.one_lt_two_pow (by decide), hentry⟩
  exact (known_packets_read_back_iff packet rfl).mpr ⟨by decide, hfits⟩

end
end MinecraftPackets
end SculkProtocol
