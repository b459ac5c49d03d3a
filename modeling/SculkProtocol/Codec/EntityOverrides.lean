import SculkProtocol.Codec.MinecraftPackets

/-!
# Overrides of entities

`PlayerUpdateEntityOverridesPacket` has a type of update and a value, each of which it can have
without the other. What is written of the value depends on the alternative that the value has, and
what is read on the type, so the two sides agree only if the type calls for the value. A number of
one kind is read as the number of the other kind with the same bits; a number that is not called for
is left over, and one that is missing is not read. `overrides_accepted_iff` says so of every packet.
-/

namespace SculkProtocol

open Decoder InputStream BinaryStream ReadOnlyBinaryStream StreamRead

namespace PlayerUpdateEntityOverridesPacket

/-- `std::variant<std::monostate, std::int32_t, float>` -/
inductive OverrideValue
  | monostate
  | int (value : Int32)
  | float (bits : UInt32)
  deriving DecidableEq

namespace OverrideValue

def write : OverrideValue → Bytes
  | .monostate => []
  | .int value => writeSignedInt value.toUInt32
  | .float bits => writeFloat bits

/-- The bits of a number. -/
def bits : OverrideValue → Option UInt32
  | .monostate => none
  | .int value => some value.toUInt32
  | .float bits => some bits

end OverrideValue

/-- `UpdateType::SetIntOverride` -/
def SetIntOverride : UInt8 := 2

/-- `UpdateType::SetFloatOverride` -/
def SetFloatOverride : UInt8 := 3

end PlayerUpdateEntityOverridesPacket

open PlayerUpdateEntityOverridesPacket

structure PlayerUpdateEntityOverridesPacket where
  mValue : OverrideValue
  mUpdateType : UInt8
  mId : Int64
  mPropertyIndex : UInt32

namespace PlayerUpdateEntityOverridesPacket

/-- A fresh packet. -/
def new : PlayerUpdateEntityOverridesPacket := ⟨.monostate, 0, 0, 0⟩

/-- What is written before the value. -/
def writeTarget (packet : PlayerUpdateEntityOverridesPacket) : Bytes :=
  writeVarInt64 packet.mId ++ writeUnsignedVarInt packet.mPropertyIndex ++
  writeByte packet.mUpdateType

def write (packet : PlayerUpdateEntityOverridesPacket) : Bytes :=
  packet.writeTarget ++ packet.mValue.write

def readValue (mUpdateType : UInt8) : Reader OverrideValue :=
  if mUpdateType = SetIntOverride then do
    let value ← StreamRead.reader readSignedInt
    pure (.int value)
  else if mUpdateType = SetFloatOverride then do
    let value ← StreamRead.reader readFloat
    pure (.float value)
  else pure .monostate

/-- What is read into a packet: nothing of it stays. -/
def read : Reader PlayerUpdateEntityOverridesPacket := do
  let mId ← StreamRead.reader readVarInt64
  let mPropertyIndex ← StreamRead.reader readUnsignedVarInt
  let mUpdateType ← StreamRead.reader (readEnum readByte)
  let mValue ← readValue mUpdateType
  pure ⟨mValue, mUpdateType, mId, mPropertyIndex⟩

/-! ### What is read -/

/-- The type calls for a number. -/
def CallsForNumber (mUpdateType : UInt8) : Prop := mUpdateType = SetIntOverride ∨
    mUpdateType = SetFloatOverride

instance (mUpdateType : UInt8) : Decidable (CallsForNumber mUpdateType) :=
  inferInstanceAs (Decidable (_ ∨ _))

/-- A number as the type calls for it. -/
def OverrideValue.ofBits (mUpdateType : UInt8) (bits : UInt32) : OverrideValue :=
  if mUpdateType = SetIntOverride then .int bits.toInt32 else .float bits

/-- What is read behind a type. -/
def IsValue (mUpdateType : UInt8) (bs : Bytes) (value : OverrideValue) : Prop :=
  if CallsForNumber mUpdateType then ∃ bits, bs = writeUnsignedInt bits ∧
    value = .ofBits mUpdateType bits
  else bs = [] ∧ value = .monostate

/-- A signed integer is read by its bits. -/
theorem recognises_signedBits :
    Recognises readSignedInt fun (bs : Bytes) value => bs = writeUnsignedInt value.toUInt32 := by
  refine recognises_readSignedInt.congr fun bs value => ?_
  constructor
  · rintro ⟨hlength, rfl⟩
    -- four bytes are those of their value
    have hbytes : bs = writeUnsignedInt (UInt32.ofNat (fromLittleEndian bs)) := by
      have hlt : fromLittleEndian bs < 2 ^ 32 := by
        have hpow := fromLittleEndian_lt bs
        rw [hlength] at hpow
        exact Nat.lt_of_lt_of_le hpow (by decide)
      show bs = littleEndian 4 (UInt32.ofNat (fromLittleEndian bs)).toNat
      rw [UInt32.toNat_ofNat', Nat.mod_eq_of_lt hlt, ← hlength, littleEndian_fromLittleEndian]
    have hvalue : ofLittleEndian bs = UInt32.ofNat (fromLittleEndian bs) := by
      conv_lhs => rw [hbytes, ← writeSignedInt_eq, ofLittleEndian_writeSignedInt]
    rw [hvalue]
    exact hbytes
  · rintro rfl
    rw [← writeSignedInt_eq, ofLittleEndian_writeSignedInt]
    exact ⟨writeSignedInt_length _, rfl⟩

/-- Where the type calls for a number, the text is its bits. -/
theorem isValue_of_calls {mUpdateType : UInt8} (h : CallsForNumber mUpdateType) {bs : Bytes}
    {value : OverrideValue} :
    IsValue mUpdateType bs value ↔ ∃ bits, bs = writeUnsignedInt bits ∧
    value = .ofBits mUpdateType bits := by
  rw [IsValue, if_pos h]

/-- Where it does not, there is no text. -/
theorem isValue_of_not_calls {mUpdateType : UInt8} (h : ¬ CallsForNumber mUpdateType) {bs : Bytes}
    {value : OverrideValue} : IsValue mUpdateType bs value ↔ bs = [] ∧ value = .monostate := by
  rw [IsValue, if_neg h]

/-- The texts of a value. -/
theorem recognises_readValue (mUpdateType : UInt8) :
    Recognises (readValue mUpdateType) (IsValue mUpdateType) := by
  unfold readValue
  split
  · next hint =>
    refine Recognises.congr (recognises_reader recognises_signedBits).bind_pure fun bs value => ?_
    rw [isValue_of_calls (Or.inl hint)]
    simp only [OverrideValue.ofBits, if_pos hint]
    constructor
    · rintro ⟨n, rfl, rfl⟩
      exact ⟨n.toUInt32, rfl, rfl⟩
    · rintro ⟨bits, rfl, rfl⟩
      exact ⟨bits.toInt32, rfl, rfl⟩
  · next hint =>
    split
    · next hfloat =>
      refine Recognises.congr (recognises_reader (recognises_scalar Scalar.uint32)).bind_pure
        fun bs value => ?_
      rw [isValue_of_calls (Or.inr hfloat)]
      simp only [OverrideValue.ofBits, if_neg hint]
      exact Iff.rfl
    · next hfloat =>
      exact (recognises_pure _).congr fun bs value =>
        (isValue_of_not_calls (not_or.mpr ⟨hint, hfloat⟩)).symm

/-- A number is written by its bits. -/
theorem OverrideValue.write_eq (value : OverrideValue) :
    value.write = value.bits.elim [] writeUnsignedInt := by
  cases value with
  | monostate => rfl
  | int value => exact writeSignedInt_eq _
  | float bits => rfl

/-- The number that arrives, if its presence is what the type calls for. -/
def OverrideValue.received (mUpdateType : UInt8) (value : OverrideValue) : OverrideValue :=
  value.bits.elim .monostate (.ofBits mUpdateType)

/-- What is read of a written value, with nothing left. -/
theorem isValue_write {mUpdateType : UInt8} {value value' : OverrideValue} :
    IsValue mUpdateType value.write value' ↔
    (value.bits.isSome ↔ CallsForNumber mUpdateType) ∧ value' = value.received mUpdateType := by
  have hinj : ∀ m n : UInt32, writeUnsignedInt m = writeUnsignedInt n → m = n := fun m n h => by
    rw [← writeSignedInt_eq, ← writeSignedInt_eq] at h
    rw [← ofLittleEndian_writeSignedInt m, h, ofLittleEndian_writeSignedInt]
  have hne : ∀ n : UInt32, writeUnsignedInt n ≠ [] := fun n h =>
    absurd (congrArg List.length h)
      (by rw [← writeSignedInt_eq, writeSignedInt_length]; exact Nat.succ_ne_zero 3)
  rw [OverrideValue.write_eq, OverrideValue.received]
  by_cases hcalls : CallsForNumber mUpdateType
  · rw [isValue_of_calls hcalls]
    cases value.bits with
    | none =>
      exact ⟨fun ⟨n, h, _⟩ => absurd h.symm (hne n),
        fun h => absurd (h.1.mpr hcalls) Bool.false_ne_true⟩
    | some n =>
      constructor
      · rintro ⟨m, hsame, rfl⟩
        rw [hinj n m hsame]
        exact ⟨⟨fun _ => hcalls, fun _ => rfl⟩, rfl⟩
      · rintro ⟨-, rfl⟩
        exact ⟨n, rfl, rfl⟩
  · rw [isValue_of_not_calls hcalls]
    cases value.bits with
    | none =>
      exact ⟨fun h => ⟨⟨fun h' => absurd h' Bool.false_ne_true, fun h' => absurd h' hcalls⟩, h.2⟩,
        fun h => ⟨rfl, h.2⟩⟩
    | some n => exact ⟨fun h => absurd h.1 (hne n), fun h => absurd (h.1.mp rfl) hcalls⟩

/-- The bits that are read are those that are written. -/
theorem IsValue.eq_write {mUpdateType : UInt8} {bs : Bytes} {value : OverrideValue}
    (h : IsValue mUpdateType bs value) :
    bs = value.write := by
  rw [OverrideValue.write_eq]
  by_cases hcalls : CallsForNumber mUpdateType
  · obtain ⟨bits, rfl, rfl⟩ := (isValue_of_calls hcalls).mp h
    rw [OverrideValue.ofBits]
    split
    · rfl
    · rfl
  · obtain ⟨rfl, rfl⟩ := (isValue_of_not_calls hcalls).mp h
    rfl

/-- The value is the one that the type calls for. -/
structure Fits (packet : PlayerUpdateEntityOverridesPacket) : Prop where
  called : packet.mValue.bits.isSome ↔ CallsForNumber packet.mUpdateType
  kind : packet.mValue = packet.mValue.received packet.mUpdateType

/-- A value is read back where its type calls for it. -/
theorem codec_value (mUpdateType : UInt8) :
    WireCodec True (readValue mUpdateType) OverrideValue.write
    (fun value => (value.bits.isSome ↔ CallsForNumber mUpdateType) ∧
      value = value.received mUpdateType) fun _ => 0 :=
  .of_recognises (recognises_readValue mUpdateType) (fun _ h => isValue_write.mpr h)
      fun bs value h => by
    obtain rfl := h.eq_write
    exact ⟨isValue_write.mp h, fun _ => Nat.le_refl _⟩

/-- An override is read back. -/
theorem codec : WireCodec True read write Fits fun _ => 0 := by
  refine WireCodec.congr (WireCodec.bind (Q := fun _ => True) (g := mId)
      codec_readVarInt64.reader fun _ _ =>
    WireCodec.bind (g := mPropertyIndex) codec_readUnsignedVarInt.reader fun _ _ =>
    WireCodec.bind_dependent (g := mUpdateType) (codec_readEnum codec_readByte).reader fun type _ =>
    WireCodec.bind (g := mValue) (codec_value type) fun _ _ =>
    WireCodec.pure fun packet => by cases packet; grind) ?_ ?_ ?_
  · intro packet
    simp only [true_and, and_true]
    exact ⟨fun h => ⟨h.1, h.2⟩, fun h => ⟨h.called, h.kind⟩⟩
  · simp [write, writeTarget]
  · simp

/-- What comes before the value is read first. -/
theorem read_target (packet : PlayerUpdateEntityOverridesPacket) {s : ReadOnlyBinaryStream}
    {bs : Bytes}
    (hs : usable s) (h : remaining s = packet.writeTarget ++ bs) :
    read s = (readValue packet.mUpdateType >>= fun value => pure { packet with mValue := value })
      (skip s packet.writeTarget.length) := by
  rw [writeTarget, List.append_assoc, List.append_assoc] at h
  have hid := (codec_readVarInt64 (T := True)).reader.accepts trivial rfl s _ hs h
  have hs₁ := usable_of_append hs h
  have h₁ := remaining_of_append h
  have hindex := (codec_readUnsignedVarInt (T := True)).reader.accepts trivial rfl _ _ hs₁ h₁
  have hs₂ := usable_of_append hs₁ h₁
  have h₂ := remaining_of_append h₁
  have htype := (codec_readEnum (codec_readByte (T := True))).reader.accepts trivial rfl _ _ hs₂ h₂
  rw [read, bind_of_ok hid, bind_of_ok hindex, bind_of_ok htype, skip_append, skip_append,
    writeTarget, List.append_assoc]

/-- **Overrides.** Of all of what is written of a packet, something is read exactly if it has a
number just when its type calls for one; and this is the packet with the same bits in the kind of
number that the type calls for. -/
theorem overrides_accepted_iff (packet packet' : PlayerUpdateEntityOverridesPacket) :
    (∃ s, read (ofBuffer packet.write) = (s, .ok packet') ∧ s.hasDataLeft = false) ↔
      (packet.mValue.bits.isSome ↔ CallsForNumber packet.mUpdateType) ∧
        packet' = { packet with mValue := packet.mValue.received packet.mUpdateType } := by
  have hs : usable (ofBuffer packet.write) := ⟨rfl, Nat.zero_le _⟩
  have hwhole : remaining (ofBuffer packet.write) = packet.writeTarget ++ packet.mValue.write := rfl
  have hvalue := (recognises_readValue packet.mUpdateType).bind_pure
    (g := fun value => ({ packet with mValue := value } : PlayerUpdateEntityOverridesPacket))
  simp only [read_target packet hs hwhole, MinecraftPackets.hasDataLeft_eq_false]
  refine (hvalue.whole_iff (usable_of_append hs hwhole)).trans ?_
  rw [remaining_of_append hwhole]
  constructor
  · rintro ⟨value, hvalue, rfl⟩
    obtain ⟨hcalls, rfl⟩ := isValue_write.mp hvalue
    exact ⟨hcalls, rfl⟩
  · rintro ⟨hcalls, rfl⟩
    exact ⟨_, isValue_write.mpr ⟨hcalls, rfl⟩, rfl⟩

end PlayerUpdateEntityOverridesPacket
end SculkProtocol
