import SculkProtocol.Decoding.Local
import SculkProtocol.Utility.CursorStream
import SculkProtocol.Utility.WireCodecs

/-!
# Minecraft packets

A packet has a header and the data of its class. The header is one variable-length integer, with the
id of the class and two ids of sub-clients of two bits each; the bits above them are ignored.
`MinecraftPackets` creates a packet of the class that a header names and reads its data.

The classes are a parameter (`PacketClasses`). `buffer_accepted_iff` says which inputs are accepted,
in each of the ways to read them, and `readsBack_iff` which packets come back from what is written
of them.
-/

namespace SculkProtocol

open Decoder InputStream BinaryStream ReadOnlyBinaryStream StreamRead

/-- A class of packets: what they have beside the header. -/
structure PacketClass where
  Data : Type
  /-- a fresh packet -/
  new : Data
  write : Data → Bytes
  /-- what is read into a packet -/
  read : Data → Reader Data

/-- The packets in `P` come back from what is written of them, and no others do. -/
structure PacketClass.Returns (c : PacketClass) (P : c.Data → Prop) : Prop where
  accepts {data : c.Data} : P data → Accepts (c.read c.new) (c.write data) data
  only {s s' : ReadOnlyBinaryStream} {data : c.Data} : usable s → remaining s = c.write data →
    c.read c.new s = (s', .ok data) → P data

namespace PacketClass.Returns

variable {c : PacketClass} {P : c.Data → Prop}

/-- The class of a codec returns what is left unread by nothing. -/
theorem of_codec {u : c.Data → ℕ} (h : WireCodec True (c.read c.new) c.write P u) :
    c.Returns fun data => P data ∧ u data = 0 where
  accepts hdata := h.accepts hdata.1 hdata.2
  only hs hw hread := (h.run_iff hs hw).mp ⟨_, hread⟩

/-- So does that of a codec that leaves nothing unread. -/
theorem of_complete {T : Prop} (h : WireCodec T (c.read c.new) c.write P fun _ => 0) :
    c.Returns P where
  accepts hdata := h.accepts hdata rfl
  only hs _ hread := by
    obtain ⟨-, -, -, -, hP, -⟩ := h.yields _ _ _ hs hread
    exact hP

/-- What is read has `P`, and what has `P` is read as something. -/
theorem of_received {received : c.Data → c.Data}
    (haccepts : ∀ data, P data → Accepts (c.read c.new) (c.write data) (received data))
    (hyields : Yields (c.read c.new) fun (_ : Bytes) data => P data) :
    c.Returns fun data => P data ∧ received data = data where
  accepts {data} hdata := by
    have hread := haccepts data hdata.1
    rwa [hdata.2] at hread
  only {s s' data} hs hw hread := by
    obtain ⟨-, -, -, -, hP⟩ := hyields _ _ _ hs hread
    -- the same is read of the same text
    have hreceived := haccepts data hP s [] hs (hw.trans (List.append_nil _).symm)
    exact ⟨hP, Except.ok.inj (congrArg Prod.snd (hreceived.symm.trans hread))⟩

end PacketClass.Returns

/-- The classes, by the ids of their packets. -/
abbrev PacketClasses : Type 1 := UInt16 → PacketClass

/-- The error of another function, under a text of one's own. -/
def Failure.rename (message : String) : Failure → Failure
  | .error _ => .error message
  | failure => failure

/-- A renamed error has the new text. -/
theorem Failure.rename_eq_error {message e : String} {failure : Failure}
    (h : failure.rename message = .error e) :
    e = message := by
  cases failure with
  | error _ => exact (Failure.error.inj h).symm
  | lengthError => cases h
  | signedOverflow => cases h

namespace MinecraftPackets

@[ext] structure PacketHeader where
  mPacketId : UInt16
  mSenderSubClientId : UInt8
  mTargetSubClientId : UInt8
  deriving DecidableEq

def deprecatedPackets : List UInt16 :=
  [20, 23, 24, 37, 53, 55, 57, 71, 116, 117, 120, 126, 127, 128, 134, 163, 173, 197, 301, 311, 319]

/-- `createPacket` has a case for the id. -/
def IsCreated (packetId : UInt16) : Prop :=
  (1 ≤ packetId ∧ packetId ≤ 199 ∨ 300 ≤ packetId ∧ packetId ≤ 350) ∧ packetId ∉ deprecatedPackets

instance (packetId : UInt16) : Decidable (IsCreated packetId) := inferInstanceAs (Decidable (_ ∧ _))

namespace PacketHeader

def toUInt32 (header : PacketHeader) : UInt32 :=
  (header.mPacketId.toUInt32 &&& (0x3FF : UInt32)) |||
    ((header.mSenderSubClientId.toUInt32 &&& (3 : UInt32)) <<< (10 : UInt32)) |||
    ((header.mTargetSubClientId.toUInt32 &&& (3 : UInt32)) <<< (12 : UInt32))

def ofUInt32 (header : UInt32) : PacketHeader where
  mPacketId := (header &&& 0x3FF).toUInt16
  mSenderSubClientId := ((header >>> 10) &&& 3).toUInt8
  mTargetSubClientId := ((header >>> 12) &&& 3).toUInt8

end PacketHeader

def writePacketHeader (header : PacketHeader) : Bytes := writeUnsignedVarInt header.toUInt32

def readPacketHeader : StreamRead PacketHeader := do
  let header ← Decoder.mapError (fun _ => "Failed to read packet header") readUnsignedVarInt
  pure (.ofUInt32 header)

end MinecraftPackets

open MinecraftPackets

/-- A packet of one of the classes that can be created. -/
structure IPacket (C : PacketClasses) where
  getId : {packetId : UInt16 // IsCreated packetId}
  mSenderSubClientId : UInt8
  mTargetSubClientId : UInt8
  data : (C getId).Data

namespace IPacket

variable {C : PacketClasses}

def header (packet : IPacket C) : PacketHeader :=
  ⟨packet.getId, packet.mSenderSubClientId, packet.mTargetSubClientId⟩

def write (packet : IPacket C) : Bytes := (C packet.getId).write packet.data

def read (packet : IPacket C) : Reader (IPacket C) := do
  let data ← (C packet.getId).read packet.data
  pure { packet with data := data }

def writeHeader (packet : IPacket C) : Bytes := writeUnsignedVarInt packet.header.toUInt32

/-- The id of the header is not looked at. -/
def readHeader (packet : IPacket C) : StreamRead (IPacket C) := do
  let header ← readUnsignedVarInt
  pure { packet with
    mSenderSubClientId := (PacketHeader.ofUInt32 header).mSenderSubClientId
    mTargetSubClientId := (PacketHeader.ofUInt32 header).mTargetSubClientId }

def writeWithHeader (packet : IPacket C) : Bytes := packet.writeHeader ++ packet.write

def readWithHeader (packet : IPacket C) : Reader (IPacket C) := do
  let packet ← StreamRead.reader packet.readHeader
  packet.read

end IPacket

namespace MinecraftPackets

variable (C : PacketClasses)

def createPacket (packetId : UInt16) : Except String (IPacket C) :=
  if h : IsCreated packetId then .ok ⟨⟨packetId, h⟩, 0, 0, (C packetId).new⟩
  else .error "Invalid packet ID"

def createPacketOfHeader (header : PacketHeader) : Except String (IPacket C) :=
  match createPacket C header.mPacketId with
  | .error e => .error e
  | .ok packet => .ok { packet with
      mSenderSubClientId := header.mSenderSubClientId,
        mTargetSubClientId := header.mTargetSubClientId }

variable {C}

/-- The check after a packet was read. -/
def noDataLeft (packet : IPacket C) : Reader (IPacket C) := fun s =>
  if s.hasDataLeft then (s, .error (.error "Extra data left in buffer after reading packet"))
  else (s, .ok packet)

def readPacket (packet : IPacket C) : Reader (IPacket C) := do
  let packet ← packet.read
  noDataLeft packet

variable (C)

/-- A result that has no stream. -/
def resultOf {α : Type} (message : String → String) : Except String α → Reader α
  | .error e => Decoder.fail (.error (message e))
  | .ok a => pure a

def readAndCreatePacketFromStream : Reader (IPacket C) := do
  let header ← Decoder.mapError (Failure.rename "Failed to read packet header")
    (StreamRead.reader readPacketHeader)
  let packet ← resultOf (fun _ => "Failed to create packet") (createPacketOfHeader C header)
  Decoder.mapError (Failure.rename "Failed to read packet from stream") packet.read

def readAndCreatePacketFromBuffer (buffer : Bytes) : Except Failure (IPacket C) :=
  (((readAndCreatePacketFromStream C).mapError (.rename "Failed to create packet from buffer") >>=
    noDataLeft)
    (ofBuffer buffer)).2

def readAndCreatePacketFromHeader (header : PacketHeader) : Reader (IPacket C) := do
  let packet ← resultOf id (createPacketOfHeader C header)
  let packet ← Decoder.mapError (Failure.rename "Failed to read packet from stream") packet.read
  noDataLeft packet

/-! ### Headers -/

namespace PacketHeader

variable {header : PacketHeader}

/-- A header that is written as it is. -/
structure Fits (header : PacketHeader) : Prop where
  packetId : header.mPacketId < 1024
  sender : header.mSenderSubClientId < 4
  target : header.mTargetSubClientId < 4

/-- A header is its three numbers. -/
theorem eq_of_toNat {header' : PacketHeader}
    (hid : header.mPacketId.toNat = header'.mPacketId.toNat)
    (hsender : header.mSenderSubClientId.toNat = header'.mSenderSubClientId.toNat)
    (htarget : header.mTargetSubClientId.toNat = header'.mTargetSubClientId.toNat) :
    header = header' := by
  ext
  · exact hid
  · exact hsender
  · exact htarget

/-- The number of a header. -/
theorem toNat_toUInt32 (header : PacketHeader) :
    header.toUInt32.toNat = header.mPacketId.toNat % 2 ^ 10 +
    header.mSenderSubClientId.toNat % 2 ^ 2 * 2 ^ 10 +
      header.mTargetSubClientId.toNat % 2 ^ 2 * 2 ^ 12 := by
  have hid : (header.mPacketId.toUInt32 &&& 0x3FF).toNat = header.mPacketId.toNat % 2 ^ 10 := by
    rw [UInt32.toNat_and, UInt16.toNat_toUInt32]
    exact Nat.and_two_pow_sub_one_eq_mod _ 10
  have hbits : ∀ v : UInt8, (v.toUInt32 &&& 3).toNat = v.toNat % 2 ^ 2 := fun v => by
    rw [UInt32.toNat_and, UInt8.toNat_toUInt32]
    exact Nat.and_two_pow_sub_one_eq_mod _ 2
  have hshift : ∀ (v : UInt8) (k : UInt32), k.toNat ≤ 12 →
      ((v.toUInt32 &&& 3) <<< k).toNat = v.toNat % 2 ^ 2 * 2 ^ k.toNat := fun v k hk => by
    have hlt : v.toNat % 2 ^ 2 * 2 ^ k.toNat < 2 ^ 32 := by
      have hpow : 2 ^ k.toNat ≤ 2 ^ 12 := Nat.pow_le_pow_right (by decide) hk
      have hmod : v.toNat % 2 ^ 2 ≤ 3 := by omega
      exact Nat.lt_of_le_of_lt (Nat.mul_le_mul hmod hpow) (by decide)
    rw [UInt32.toNat_shiftLeft, hbits, Nat.shiftLeft_eq, Nat.mod_eq_of_lt (by omega : k.toNat < 32),
      Nat.mod_eq_of_lt hlt]
  rw [toUInt32, UInt32.toNat_or, UInt32.toNat_or, hid, hshift _ 10 (by decide),
    hshift _ 12 (by decide)]
  have hlow : header.mPacketId.toNat % 2 ^ 10 ||| header.mSenderSubClientId.toNat % 2 ^ 2 * 2 ^ 10 =
      header.mPacketId.toNat % 2 ^ 10 + header.mSenderSubClientId.toNat % 2 ^ 2 * 2 ^ 10 :=
    or_mul_two_pow (Nat.mod_lt _ (Nat.two_pow_pos 10)) _
  show header.mPacketId.toNat % 2 ^ 10 ||| header.mSenderSubClientId.toNat % 2 ^ 2 * 2 ^ 10 |||
    header.mTargetSubClientId.toNat % 2 ^ 2 * 2 ^ 12 = _
  rw [hlow, or_mul_two_pow (by omega)]

/-- The header of a number. -/
theorem toNat_ofUInt32 (n : UInt32) : (ofUInt32 n).mPacketId.toNat = n.toNat % 2 ^ 10 ∧
    (ofUInt32 n).mSenderSubClientId.toNat = n.toNat / 2 ^ 10 % 2 ^ 2 ∧
    (ofUInt32 n).mTargetSubClientId.toNat = n.toNat / 2 ^ 12 % 2 ^ 2 := by
  have hid : (n &&& (0x3FF : UInt32)).toNat = n.toNat % 2 ^ 10 := by
    rw [UInt32.toNat_and]
    exact Nat.and_two_pow_sub_one_eq_mod _ 10
  have hbits : ∀ k : UInt32, k.toNat < 32 → ((n >>> k) &&& (3 : UInt32)).toNat =
      n.toNat / 2 ^ k.toNat % 2 ^ 2 := by
    intro k hk
    rw [UInt32.toNat_and, UInt32.toNat_shiftRight, Nat.mod_eq_of_lt hk, Nat.shiftRight_eq_div_pow]
    exact Nat.and_two_pow_sub_one_eq_mod _ 2
  have hsender := hbits 10 (by decide)
  have htarget := hbits 12 (by decide)
  refine ⟨?_, ?_, ?_⟩
  · show (n &&& (0x3FF : UInt32)).toUInt16.toNat = _
    rw [UInt32.toNat_toUInt16, hid]
    omega
  · show ((n >>> 10) &&& (3 : UInt32)).toUInt8.toNat = _
    rw [UInt32.toNat_toUInt8, hsender]
    show n.toNat / 2 ^ 10 % 2 ^ 2 % 2 ^ 8 = _
    omega
  · show ((n >>> 12) &&& (3 : UInt32)).toUInt8.toNat = _
    rw [UInt32.toNat_toUInt8, htarget]
    show n.toNat / 2 ^ 12 % 2 ^ 2 % 2 ^ 8 = _
    omega

/-- What is read of a header. -/
theorem ofUInt32_toUInt32 (header : PacketHeader) :
    ofUInt32 header.toUInt32 = header ↔ header.Fits := by
  have hwritten := toNat_toUInt32 header
  obtain ⟨hid, hsender, htarget⟩ := toNat_ofUInt32 header.toUInt32
  rw [hwritten] at hid hsender htarget
  constructor
  · intro h
    rw [h] at hid hsender htarget
    refine ⟨UInt16.lt_iff_toNat_lt.mpr ?_, UInt8.lt_iff_toNat_lt.mpr ?_,
      UInt8.lt_iff_toNat_lt.mpr ?_⟩
    · show _ < 1024
      omega
    · show _ < 4
      omega
    · show _ < 4
      omega
  · rintro ⟨hidLt, hsenderLt, htargetLt⟩
    have hidLt : header.mPacketId.toNat < 1024 := UInt16.lt_iff_toNat_lt.mp hidLt
    have hsenderLt : header.mSenderSubClientId.toNat < 4 := UInt8.lt_iff_toNat_lt.mp hsenderLt
    have htargetLt : header.mTargetSubClientId.toNat < 4 := UInt8.lt_iff_toNat_lt.mp htargetLt
    apply eq_of_toNat
    · omega
    · omega
    · omega

end PacketHeader

/-- The ids that can be created fit the ten bits of a header. -/
theorem IsCreated.lt {packetId : UInt16} (h : IsCreated packetId) : packetId < 1024 := by
  rw [UInt16.lt_iff_toNat_lt]
  have hle : packetId.toNat ≤ 199 ∨ packetId.toNat ≤ 350 :=
    h.1.imp (fun h => UInt16.le_iff_toNat_le.mp h.2) fun h => UInt16.le_iff_toNat_le.mp h.2
  show packetId.toNat < 1024
  omega

/-- The texts of a header are those of its number. -/
theorem recognises_readPacketHeader : Recognises readPacketHeader fun (bs : Bytes) header =>
    ∃ n : UInt32, IsVarInt 16 5 bs n.toNat ∧ header = .ofUInt32 n :=
  recognises_readUnsignedVarInt.mapError.bind_pure

/-- A header is read back as far as its bits go. -/
theorem accepts_writePacketHeader (header : PacketHeader) :
    Accepts readPacketHeader (writePacketHeader header) (.ofUInt32 header.toUInt32) :=
  recognises_readPacketHeader.accepts ⟨_, isVarInt_writeUnsignedVarInt _, rfl⟩

/-! ### Packets that are read -/

section

variable {C : PacketClasses} {header : PacketHeader} {packet packet' : IPacket C}
  {s s' : ReadOnlyBinaryStream}
  {buffer : Bytes}

/-- What is read of the data into a fresh packet. -/
def readData (packet : IPacket C) : Reader (C packet.getId).Data :=
  (C packet.getId).read (C packet.getId).new

/-- A packet is created for every id that has a class. -/
theorem createPacket_of_isCreated {packetId : UInt16} (h : IsCreated packetId) :
    createPacket C packetId = .ok ⟨⟨packetId, h⟩, 0, 0, (C packetId).new⟩ := dif_pos h

/-- A packet that is created has the header and is new. -/
theorem createPacketOfHeader_ok : createPacketOfHeader C header = .ok packet ↔
    packet.header = header ∧ packet.data = (C packet.getId).new := by
  constructor
  · intro h
    rw [createPacketOfHeader, createPacket] at h
    split at h
    · cases h
    · next created hcreated =>
      split at hcreated
      · cases hcreated
        cases h
        exact ⟨rfl, rfl⟩
      · cases hcreated
  · rintro ⟨rfl, hdata⟩
    obtain ⟨⟨packetId, hpacketId⟩, sender, target, data⟩ := packet
    obtain rfl : data = (C packetId).new := hdata
    simp only [createPacketOfHeader, IPacket.header, createPacket_of_isCreated hpacketId]

/-- There is one text for an id without a class. -/
theorem createPacketOfHeader_error {message : String}
    (h : createPacketOfHeader C header = .error message) :
    message = "Invalid packet ID" := by
  rw [createPacketOfHeader, createPacket] at h
  split at h
  · next e hcreate =>
    split at hcreate
    · cases hcreate
    · cases hcreate
      cases h
      rfl
  · cases h

/-- Reading a packet is reading its data. -/
theorem read_ok : packet.read s = (s', .ok packet') ↔
    ∃ data, (C packet.getId).read packet.data s = (s', .ok data) ∧
    packet' = { packet with data := data } := by
  rw [IPacket.read, Decoder.bind_eq_ok]
  constructor
  · rintro ⟨t, data, hread, h⟩
    cases h
    exact ⟨data, hread, rfl⟩
  · rintro ⟨data, hread, rfl⟩
    exact ⟨s', data, hread, rfl⟩

/-- The last test passes where nothing is left. -/
theorem noDataLeft_ok : noDataLeft packet s = (s', .ok packet') ↔
    s.hasDataLeft = false ∧ s' = s ∧ packet' = packet := by
  unfold noDataLeft
  split
  · next hleft => simp [hleft]
  · next hleft => simp [hleft, eq_comm]

/-- A result in a program succeeds where it is one. -/
theorem resultOf_bind_ok {α β : Type} {message : String → String} {x : Except String α}
    {f : α → Reader β} {b : β} :
    (resultOf message x >>= f) s = (s', .ok b) ↔ ∃ a, x = .ok a ∧ f a s = (s', .ok b) := by
  rw [Decoder.bind_eq_ok]
  cases x with
  | error e => simp [resultOf, Decoder.fail]
  | ok a => simp [resultOf, Decoder.pure_eq]

/-- A packet is created with the header, and its data is read. -/
theorem createAndRead_ok {message : String → String} {rename : Failure → Failure} :
    (resultOf message (createPacketOfHeader C header) >>=
      fun packet => packet.read.mapError rename) s =
        (s', .ok packet) ↔
      packet.header = header ∧ readData packet s = (s', .ok packet.data) := by
  simp only [resultOf_bind_ok, mapError_eq_ok, createPacketOfHeader_ok, read_ok]
  constructor
  · rintro ⟨created, ⟨rfl, hnew⟩, data, hread, rfl⟩
    rw [hnew] at hread
    exact ⟨rfl, hread⟩
  · rintro ⟨rfl, hread⟩
    exact ⟨{ packet with data := (C packet.getId).new }, ⟨rfl, rfl⟩, packet.data, hread, rfl⟩

/-- A packet is read where its header and its data are. -/
theorem readAndCreatePacketFromStream_ok : readAndCreatePacketFromStream C s = (s', .ok packet) ↔
    ∃ t, readPacketHeader s = (t, .ok packet.header) ∧
    readData packet t = (s', .ok packet.data) := by
  rw [readAndCreatePacketFromStream, Decoder.bind_eq_ok]
  constructor
  · rintro ⟨t, header, hheader, h⟩
    obtain ⟨rfl, hread⟩ := createAndRead_ok.mp h
    exact ⟨t, Cursor.reader_eq_ok.mp (mapError_eq_ok.mp hheader), hread⟩
  · rintro ⟨t, hheader, hread⟩
    exact ⟨t, packet.header, mapError_eq_ok.mpr (Cursor.reader_eq_ok.mpr hheader),
      createAndRead_ok.mpr ⟨rfl, hread⟩⟩

/-- A packet is read behind its header where its data are, up to the end. -/
theorem readAndCreatePacketFromHeader_ok :
    readAndCreatePacketFromHeader C header s = (s', .ok packet) ↔
    packet.header = header ∧ readData packet s = (s', .ok packet.data) ∧
    s'.hasDataLeft = false := by
  have hassoc : readAndCreatePacketFromHeader C header =
      ((resultOf id (createPacketOfHeader C header) >>= fun packet =>
      packet.read.mapError (.rename "Failed to read packet from stream")) >>= noDataLeft) := by
    funext s
    show (resultOf id (createPacketOfHeader C header) >>= fun packet =>
      packet.read.mapError (.rename "Failed to read packet from stream") >>= noDataLeft) s = _
    cases hcreate : createPacketOfHeader C header with
    | error e => rfl
    | ok packet => rfl
  rw [hassoc, Decoder.bind_eq_ok]
  constructor
  · rintro ⟨t, read, hread, hleft⟩
    obtain ⟨hempty, rfl, rfl⟩ := noDataLeft_ok.mp hleft
    obtain ⟨hheader, hdata⟩ := createAndRead_ok.mp hread
    exact ⟨hheader, hdata, hempty⟩
  · rintro ⟨hheader, hdata, hempty⟩
    exact ⟨s', packet, createAndRead_ok.mpr ⟨hheader, hdata⟩, noDataLeft_ok.mpr ⟨hempty, rfl, rfl⟩⟩

/-- The three ways to read a packet have the same result. -/
theorem readAndCreatePacketFromBuffer_ok : readAndCreatePacketFromBuffer C buffer = .ok packet ↔
    ∃ t s, readPacketHeader (ofBuffer buffer) = (t, .ok packet.header) ∧
      readData packet t = (s, .ok packet.data) ∧ s.hasDataLeft = false := by
  have hrun : readAndCreatePacketFromBuffer C buffer = .ok packet ↔
      ∃ s, ((readAndCreatePacketFromStream C).mapError
        (.rename "Failed to create packet from buffer") >>= noDataLeft)
        (ofBuffer buffer) = (s, .ok packet) :=
    ⟨fun h => ⟨_, Prod.ext rfl h⟩, fun ⟨_, h⟩ => congrArg Prod.snd h⟩
  simp only [hrun, Decoder.bind_eq_ok, mapError_eq_ok, noDataLeft_ok,
    readAndCreatePacketFromStream_ok]
  constructor
  · rintro ⟨_, _, _, ⟨t, hheader, hdata⟩, hempty, rfl, rfl⟩
    exact ⟨t, _, hheader, hdata, hempty⟩
  · rintro ⟨t, s, hheader, hdata, hempty⟩
    exact ⟨s, s, packet, ⟨t, hheader, hdata⟩, hempty, rfl, rfl⟩

/-- Nothing is left where the view is empty. -/
theorem hasDataLeft_eq_false : s.hasDataLeft = false ↔ s.getLeftBufferView = [] := by
  rw [hasDataLeft, decide_eq_false_iff_not, Nat.not_lt, getLeftBufferView, List.drop_eq_nil_iff]

/-- **Which inputs are accepted**, and as which packet: a variable-length integer whose lower 14
bits are the header, and a text of the data. -/
theorem buffer_accepted_iff (hlocal : Local (readData packet)) (buffer : Bytes) :
    readAndCreatePacketFromBuffer C buffer = .ok packet ↔ ∃ (n : UInt32) (text body : Bytes),
      buffer = text ++ body ∧
      IsVarInt 16 5 text n.toNat ∧ packet.header = .ofUInt32 n ∧
      Accepts (readData packet) body packet.data := by
  have husable : usable (ofBuffer buffer) := ⟨rfl, Nat.zero_le _⟩
  rw [readAndCreatePacketFromBuffer_ok]
  constructor
  · rintro ⟨t, s, hheader, hdata, hempty⟩
    obtain ⟨text, rest, hrest, rfl, n, hn, hpacket⟩ :=
      recognises_readPacketHeader.yields _ _ _ husable hheader
    have husable₁ := usable_of_append husable hrest
    obtain ⟨body, left, hleft, rfl, hbody⟩ := hlocal.yields _ _ _ husable₁ hdata
    -- nothing is left after the data
    have hnil : left = [] := (remaining_of_append hleft).symm.trans (hasDataLeft_eq_false.mp hempty)
    rw [remaining_of_append hrest, hnil, List.append_nil] at hleft
    exact ⟨n, text, body, hrest.trans (congrArg _ hleft), hn, hpacket, hbody⟩
  · rintro ⟨n, text, body, hbuffer, hn, hpacket, hbody⟩
    have hrest : remaining (ofBuffer buffer) = text ++ body := hbuffer
    have hheader :=
      recognises_readPacketHeader.accepts ⟨n, hn, hpacket⟩ (ofBuffer buffer) body husable hrest
    have hleft : remaining (skip (ofBuffer buffer) text.length) = body ++ [] :=
      (remaining_of_append hrest).trans (List.append_nil _).symm
    have hdata := hbody _ [] (usable_of_append husable hrest) hleft
    exact ⟨_, _, hheader, hdata, hasDataLeft_eq_false.mpr (remaining_of_append hleft)⟩

/-- A header with a bit above its 14, and one byte of data. -/
theorem buffer_accepted_iff_upper_bit :
    let packet : IPacket fun _ => ⟨UInt8, 0, writeByte, fun _ => StreamRead.reader readByte⟩ :=
      ⟨⟨1, by decide⟩, 0, 0, 7⟩
    ∃ (n : UInt32) (text body : Bytes), ([0x81, 0x80, 0x01, 7] : Bytes) = text ++ body ∧
      IsVarInt 16 5 text n.toNat ∧
      packet.header = .ofUInt32 n ∧ Accepts (readData packet) body packet.data := by
  intro packet
  exact (@buffer_accepted_iff _ packet (recognises_reader recognises_readByte).of_accepted _).mp rfl

/-- What is read of the header of a packet that was written. -/
theorem header_of_writeWithHeader (packet : IPacket C) :
    packet.header.Fits ↔ packet.mSenderSubClientId < 4 ∧ packet.mTargetSubClientId < 4 :=
  ⟨fun h => ⟨h.sender, h.target⟩, fun h => ⟨packet.getId.2.lt, h.1, h.2⟩⟩

/-- **Packets.** A packet comes back from what is written of it exactly if its sub-clients are below
4 and its data comes back. -/
theorem readsBack_iff {P : (C packet.getId).Data → Prop} (h : (C packet.getId).Returns P) :
    readAndCreatePacketFromBuffer C packet.writeWithHeader = .ok packet ↔
      (packet.mSenderSubClientId < 4 ∧ packet.mTargetSubClientId < 4) ∧ P packet.data := by
  have husable : usable (ofBuffer packet.writeWithHeader) := ⟨rfl, Nat.zero_le _⟩
  have hrest : remaining (ofBuffer packet.writeWithHeader) = packet.writeHeader ++
      packet.write := rfl
  have hheader := accepts_writePacketHeader packet.header _ _ husable hrest
  have husable₁ := usable_of_append husable hrest
  have hremaining := remaining_of_append hrest
  rw [readAndCreatePacketFromBuffer_ok, ← header_of_writeWithHeader,
    ← PacketHeader.ofUInt32_toUInt32]
  constructor
  · rintro ⟨t, s, hread, hdata, -⟩
    -- the header is read first, as what was written of it
    obtain ⟨rfl, hsame⟩ := Prod.mk.inj (hheader.symm.trans hread)
    exact ⟨Except.ok.inj hsame, h.only husable₁ hremaining hdata⟩
  · rintro ⟨hsame, hP⟩
    rw [hsame] at hheader
    have hleft := hremaining.trans (List.append_nil _).symm
    have hdata := h.accepts hP _ [] husable₁ hleft
    exact ⟨_, _, hheader, hdata, hasDataLeft_eq_false.mpr (remaining_of_append hleft)⟩

end

end MinecraftPackets
end SculkProtocol
