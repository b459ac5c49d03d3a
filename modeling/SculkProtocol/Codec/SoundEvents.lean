import SculkProtocol.Codec.EnumNames
import SculkProtocol.Codec.ItemUseTransaction

/-!
# Sound events

The event of a `LevelSoundEventPacket` is an enumerator or a text. An enumerator is written as its
name in lower case, with a dot for two underscores; what is read is an enumerator if there is one
for the text, and else the text. So an enumerator with a name comes back, and a text that is not the
name of one (`LevelSoundEventPacket.sound_events_read_back_iff`).
-/

namespace SculkProtocol

open Decoder BinaryStream ReadOnlyBinaryStream StreamRead

namespace LevelSoundEventPacket

/-- The loop over a name. -/
def serializeName : Bytes → Bytes
  | [] => []
  | [c] => [tolower c]
  | c :: next :: rest =>
    if tolower c = 95 ∧ next = 95 then 46 :: serializeName rest
    else tolower c :: serializeName (next :: rest)

/-- Two underscores for each dot. -/
def enumNameOf (name : Bytes) : Bytes := name.flatMap fun c => if c = 46 then [95, 95] else [c]

/-- No character of an identifier becomes a dot, and only an underscore becomes one. -/
theorem tolower_identifierChar {c : UInt8} (h : IsIdentifierChar c) :
    tolower c ≠ 46 ∧ (tolower c = 95 → c = 95) := by
  have hall : ∀ n < 256, IsIdentifierChar (UInt8.ofNat n) →
      tolower (UInt8.ofNat n) ≠ 46 ∧ (tolower (UInt8.ofNat n) = 95 → UInt8.ofNat n = 95) := by
        decide +kernel
  have hc := hall c.toNat c.toNat_lt
  rw [UInt8.ofNat_toNat] at hc
  exact hc h

/-- **A dot** stands for two underscores and nothing else. -/
theorem enumNameOf_serializeName {name : Bytes} (h : ∀ c ∈ name, IsIdentifierChar c) :
    enumNameOf (serializeName name) = name.map tolower := by
  have hone : ∀ c rest, IsIdentifierChar c →
      enumNameOf (tolower c :: rest) = tolower c :: enumNameOf rest := fun c rest hc => by
    rw [enumNameOf, List.flatMap_cons, if_neg (tolower_identifierChar hc).1]
    rfl
  fun_induction serializeName name with
  | case1 => rfl
  | case2 c => exact hone c [] (h c List.mem_cons_self)
  | case3 c next rest hdouble ih =>
    obtain ⟨hc, hrest⟩ := List.forall_mem_cons.mp h
    obtain ⟨-, hrest⟩ := List.forall_mem_cons.mp hrest
    have hdot : enumNameOf (46 :: serializeName rest) = [95, 95] ++
        enumNameOf (serializeName rest) := rfl
    rw [hdot, ih hrest, List.map_cons, List.map_cons, hdouble.1, hdouble.2]
    rfl
  | case4 c next rest hsingle ih =>
    obtain ⟨hc, hrest⟩ := List.forall_mem_cons.mp h
    rw [hone c _ hc, ih hrest]
    rfl

theorem length_serializeName_le (name : Bytes) : (serializeName name).length ≤ name.length := by
  fun_induction serializeName name with
  | case1 => exact Nat.le_refl 0
  | case2 c => exact Nat.le_refl 1
  | case3 c next rest h ih => exact Nat.succ_le_succ (Nat.le_succ_of_le ih)
  | case4 c next rest h ih => exact Nat.succ_le_succ ih

section

variable (enum : EnumNames UInt16)

/-- `std::variant<LevelSoundEvent, std::string>` -/
abbrev SoundEvent : Type := UInt16 ⊕ Bytes

def serializeLevelSound : SoundEvent → Bytes
  | .inl event => serializeName (enum.enum_name event)
  | .inr str => str

def deserializeLevelSound (name : Bytes) : SoundEvent :=
  match enum.enum_cast (enumNameOf name) with
  | some event => .inl event
  | none => .inr name

/-- The events that come back. -/
def SoundEvent.Fits : SoundEvent → Prop
  | .inl event => enum.IsNamed event
  | .inr str => enum.enum_cast (enumNameOf str) = none ∧ str.length < 2 ^ 32

variable {enum}

/-- The name of an enumerator is that of no other, whatever its case is. -/
theorem deserialize_named {event : UInt16} (h : enum.IsNamed event) :
    deserializeLevelSound enum (serializeLevelSound enum (.inl event)) = .inl event := by
  obtain ⟨name, hmem⟩ := h
  have hcast : enum.enum_cast (enumNameOf (serializeName name)) = some event :=
    enum.enum_cast_eq_some.mpr ⟨name, hmem, by
      rw [enumNameOf_serializeName (enum.identifier hmem), map_tolower_idem]⟩
  rw [serializeLevelSound, enum.enum_name_of_mem hmem, deserializeLevelSound, hcast]

theorem codec_soundEvent : WireCodec False
    (StreamRead.reader readString >>= fun name => pure (deserializeLevelSound enum name))
    (fun event => writeString (serializeLevelSound enum event)) (SoundEvent.Fits enum)
      fun _ => 0 where
  accepts {event} h _ := by
    cases event with
    | inl event =>
      have hsize : (serializeLevelSound enum (.inl event)).length < 2 ^ 32 := by
        obtain ⟨name, hmem⟩ := h
        rw [serializeLevelSound, enum.enum_name_of_mem hmem]
        exact Nat.lt_of_le_of_lt (length_serializeName_le name) (enum.size hmem)
      have hread := ((codec_readString (T := True)).reader.accepts hsize rfl).bind_pure
          (g := deserializeLevelSound enum)
      rwa [deserialize_named h] at hread
    | inr str =>
      have hread :=
        ((codec_readString (T := True)).reader.accepts h.2 rfl).bind_pure
          (g := deserializeLevelSound enum)
      rwa [deserializeLevelSound, h.1] at hread
  yields := by
    refine (codec_readString (T := True)).reader.yields.bind_pure.mono fun bs event => ?_
    rintro ⟨name, ⟨hsize, -⟩, rfl⟩
    refine ⟨?_, False.elim⟩
    rw [deserializeLevelSound]
    split
    · next event hcast =>
      obtain ⟨n, hmem, -⟩ := enum.enum_cast_eq_some.mp hcast
      exact ⟨n, hmem⟩
    · next hcast => exact ⟨hcast, hsize⟩

end

end LevelSoundEventPacket

open LevelSoundEventPacket

theorem Vec3.codec : WireCodec False Vec3.read Vec3.write (fun _ => True) fun _ => 0 := by
  refine (WireCodec.bind (Q := fun _ => True) (g := Vec3.mX)
      (codec_scalar Scalar.uint32).reader fun _ _ =>
    WireCodec.bind (g := Vec3.mY) (codec_scalar Scalar.uint32).reader fun _ _ =>
    WireCodec.bind (g := Vec3.mZ) (codec_scalar Scalar.uint32).reader fun _ _ =>
    WireCodec.pure fun v => by cases v; grind).congr ?_ ?_ ?_
  · simp
  · simp [write, writeFloat]
  · simp

structure LevelSoundEventPacket where
  mSoundEvent : SoundEvent
  mPosition : Vec3
  mData : Int32
  mActorIdentifier : Bytes
  mIsBabyMob : Bool
  mIsGlobal : Bool
  mActorUniqueId : Int64
  mFireAtPosition : Option Vec3

namespace LevelSoundEventPacket

variable (enum : EnumNames UInt16)

/-- A fresh packet. -/
def new : LevelSoundEventPacket := ⟨.inl 0, ⟨0, 0, 0⟩, 0, [], false, false, -1, none⟩

def write (packet : LevelSoundEventPacket) : Bytes :=
  writeString (serializeLevelSound enum packet.mSoundEvent) ++ packet.mPosition.write ++
    writeVarInt packet.mData ++
    writeString packet.mActorIdentifier ++ writeBool packet.mIsBabyMob ++
    writeBool packet.mIsGlobal ++
    writeSignedInt64 packet.mActorUniqueId ++ writeOptional Vec3.write packet.mFireAtPosition

/-- What is read into a packet: nothing of it stays. -/
def read : Reader LevelSoundEventPacket := do
  let mSoundEvent ← StreamRead.reader readString >>=
    fun name => pure (deserializeLevelSound enum name)
  let mPosition ← Vec3.read
  let mData ← StreamRead.reader readVarInt
  let mActorIdentifier ← StreamRead.reader readString
  let mIsBabyMob ← StreamRead.reader readBool
  let mIsGlobal ← StreamRead.reader readBool
  let mActorUniqueId ← StreamRead.reader readSignedInt64
  let mFireAtPosition ← readOptional ⟨0, 0, 0⟩ fun _ => Vec3.read
  pure ⟨mSoundEvent, mPosition, mData, mActorIdentifier, mIsBabyMob, mIsGlobal, mActorUniqueId,
    mFireAtPosition⟩

structure Fits (packet : LevelSoundEventPacket) : Prop where
  event : packet.mSoundEvent.Fits enum
  identifier : packet.mActorIdentifier.length < 2 ^ 32

theorem codec : WireCodec False (read enum) (write enum) (Fits enum) fun _ => 0 := by
  refine WireCodec.congr (WireCodec.bind (Q := fun _ => True) (g := mSoundEvent)
      codec_soundEvent fun _ _ =>
    WireCodec.bind (g := mPosition) Vec3.codec fun _ _ =>
    WireCodec.bind (g := mData) codec_readVarInt.reader fun _ _ =>
    WireCodec.bind (g := mActorIdentifier) codec_readString.reader fun _ _ =>
    WireCodec.bind (g := mIsBabyMob) codec_readBool.reader fun _ _ =>
    WireCodec.bind (g := mIsGlobal) codec_readBool.reader fun _ _ =>
    WireCodec.bind (g := mActorUniqueId) (codec_scalar Scalar.int64).reader fun _ _ =>
    WireCodec.bind (g := mFireAtPosition) (codec_readOptional Vec3.codec) fun _ _ =>
    WireCodec.pure fun packet => by cases packet; grind) ?_ ?_ ?_
  · intro packet
    simp only [true_and, and_true, implies_true]
    exact ⟨fun h => ⟨h.1, h.2⟩, fun h => ⟨h.event, h.identifier⟩⟩
  · simp [write, writeSignedInt64]
  · intro packet _
    cases packet.mFireAtPosition <;> simp

/-- **Sounds.** A packet comes back from what is written of it, whatever follows, exactly if its
event is an enumerator with a name, or a text that is the name of none, with two underscores for
each dot and in any case. -/
theorem sound_events_read_back_iff (packet : LevelSoundEventPacket) :
    Accepts (read enum) (packet.write enum) packet ↔ packet.Fits enum :=
  (codec enum).reads_back_iff_of_complete rfl

end LevelSoundEventPacket
end SculkProtocol
