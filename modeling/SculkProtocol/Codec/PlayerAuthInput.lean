import SculkProtocol.Codec.ItemStackRequest
import SculkProtocol.Codec.ItemUseTransaction
import SculkProtocol.Utility.Bitset

/-!
# The input of a player

The packet with what a player does in a tick. Four of its sections follow only if a bit of
`mInputData` is set: the use of an item, a request for items, actions on blocks and the vehicle.
A section that is not sent keeps, at the other end, what it has in a new packet
(`PlayerAuthInputPacket.received`).
-/

namespace SculkProtocol

open Decoder BinaryStream ReadOnlyBinaryStream StreamRead

/-! ### Block actions -/

def PlayerBlockActionData.write (action : PlayerBlockActionData) : Bytes :=
  writeVarInt action.mActionType.toInt32 ++ action.mPosition.write ++ writeVarInt action.mFacing

def PlayerBlockActions.write (mActions : List PlayerBlockActionData) : Bytes :=
  writeArray Prefix.varInt PlayerBlockActionData.write mActions

theorem PlayerBlockActionData.accepts (action : PlayerBlockActionData) :
    Accepts read action.write action := by
  have hpos : Accepts BlockPos.read action.mPosition.write action.mPosition :=
    (BlockPos.codec (T := True)).accepts trivial rfl
  have hread : Accepts read action.write ⟨action.mActionType.toInt32.toInt8, action.mPosition,
      action.mFacing⟩ := by
    rw [write, List.append_assoc]
    exact (accepts_enum recognises_readVarInt (isSignedVarInt_write _)).bind
      (hpos.bind (accepts_varInt _).bind_pure)
  rwa [Int8.toInt8_toInt32] at hread

theorem PlayerBlockActions.accepts {mActions : List PlayerBlockActionData}
    (h : mActions.length < 2 ^ 31)
    (old : List PlayerBlockActionData) : Accepts (read old) (write mActions) mActions :=
  accepts_readArray (fun action _ => action.accepts) (fun _ _ action _ => action.accepts)
    (Nat.le_trans (Nat.le_of_lt h) (by decide)) h

/-! ### The packet -/

namespace PlayerAuthInputData

def PerformItemInteraction : ℕ := 34

def PerformBlockActions : ℕ := 35

def PerformItemStackRequest : ℕ := 36

def IsInClientPredictedVehicle : ℕ := 45

end PlayerAuthInputData

open PlayerAuthInputData

/-- The head's rotation is its bits. -/
structure PlayerAuthInputPacket where
  mPlayerRotation : Vec2
  mPosition : Vec3
  mMoveVector : Vec2
  mPlayerHeadRotation : UInt32
  mInputData : Bitset 65
  mInputType : UInt32
  mPlayMode : UInt32
  mNewInteractionModel : UInt32
  mInteractRotation : Vec2
  mClientTick : UInt64
  mPosDelta : Vec3
  mItemUseTransaction : PackedItemUseLegacyInventoryTransaction
  mItemStackRequestData : ItemStackRequestData
  mPlayerBlockActions : List PlayerBlockActionData
  mVehicleRotation : Vec2
  mClientPredictedVihicle : Int64
  mAnologMoveVector : Vec2
  mCameraOrientation : Vec3
  mRawMoveVector : Vec2

namespace PlayerAuthInputPacket

def new : PlayerAuthInputPacket where
  mPlayerRotation := ⟨0, 0⟩
  mPosition := ⟨0, 0, 0⟩
  mMoveVector := ⟨0, 0⟩
  mPlayerHeadRotation := 0
  mInputData := fun _ => false
  mInputType := 0
  mPlayMode := 0
  mNewInteractionModel := 0
  mInteractRotation := ⟨0, 0⟩
  mClientTick := 0
  mPosDelta := ⟨0, 0, 0⟩
  mItemUseTransaction := .new
  mItemStackRequestData := .new
  mPlayerBlockActions := []
  mVehicleRotation := ⟨0, 0⟩
  mClientPredictedVihicle := 0
  mAnologMoveVector := ⟨0, 0⟩
  mCameraOrientation := ⟨0, 0, 0⟩
  mRawMoveVector := ⟨0, 0⟩

def write (packet : PlayerAuthInputPacket) : Bytes :=
  packet.mPlayerRotation.write ++ packet.mPosition.write ++ packet.mMoveVector.write ++
    writeFloat packet.mPlayerHeadRotation ++ writeBitset packet.mInputData ++
    writeUnsignedVarInt packet.mInputType ++ writeUnsignedVarInt packet.mPlayMode ++
    writeUnsignedVarInt packet.mNewInteractionModel ++ packet.mInteractRotation.write ++
    writeUnsignedVarInt64 packet.mClientTick ++ packet.mPosDelta.write ++
    (if packet.mInputData.test PerformItemInteraction then packet.mItemUseTransaction.write
     else []) ++
    (if packet.mInputData.test PerformItemStackRequest then packet.mItemStackRequestData.write
     else []) ++
    (if packet.mInputData.test PerformBlockActions then
      PlayerBlockActions.write packet.mPlayerBlockActions
      else []) ++
    (if packet.mInputData.test IsInClientPredictedVehicle then packet.mVehicleRotation.write
     else []) ++
    (if packet.mInputData.test IsInClientPredictedVehicle then
      writeVarInt64 packet.mClientPredictedVihicle
      else []) ++
    packet.mAnologMoveVector.write ++ packet.mCameraOrientation.write ++ packet.mRawMoveVector.write

def read (packet : PlayerAuthInputPacket) : Reader PlayerAuthInputPacket := do
  let mPlayerRotation ← Vec2.read
  let mPosition ← Vec3.read
  let mMoveVector ← Vec2.read
  let mPlayerHeadRotation ← StreamRead.reader readFloat
  let mInputData ← StreamRead.reader (readBitset : StreamRead (Bitset 65))
  let mInputType ← StreamRead.reader readUnsignedVarInt
  let mPlayMode ← StreamRead.reader readUnsignedVarInt
  let mNewInteractionModel ← StreamRead.reader readUnsignedVarInt
  let mInteractRotation ← Vec2.read
  let mClientTick ← StreamRead.reader readUnsignedVarInt64
  let mPosDelta ← Vec3.read
  let mItemUseTransaction ← readIf (mInputData.test PerformItemInteraction)
    (PackedItemUseLegacyInventoryTransaction.read packet.mItemUseTransaction)
      packet.mItemUseTransaction
  let mItemStackRequestData ← readIf (mInputData.test PerformItemStackRequest)
    (ItemStackRequestData.read packet.mItemStackRequestData) packet.mItemStackRequestData
  let mPlayerBlockActions ← readIf (mInputData.test PerformBlockActions)
    (PlayerBlockActions.read packet.mPlayerBlockActions) packet.mPlayerBlockActions
  let mVehicleRotation ← readIf (mInputData.test IsInClientPredictedVehicle) Vec2.read
    packet.mVehicleRotation
  let mClientPredictedVihicle ← readIf (mInputData.test IsInClientPredictedVehicle)
    (StreamRead.reader readVarInt64) packet.mClientPredictedVihicle
  let mAnologMoveVector ← Vec2.read
  let mCameraOrientation ← Vec3.read
  let mRawMoveVector ← Vec2.read
  pure ⟨mPlayerRotation, mPosition, mMoveVector, mPlayerHeadRotation, mInputData,
    mInputType, mPlayMode,
    mNewInteractionModel, mInteractRotation, mClientTick, mPosDelta, mItemUseTransaction,
    mItemStackRequestData,
    mPlayerBlockActions, mVehicleRotation, mClientPredictedVihicle, mAnologMoveVector,
    mCameraOrientation, mRawMoveVector⟩

/-- What arrives in a new packet: the sections whose bits are set, and all other fields. -/
def received (packet : PlayerAuthInputPacket) : PlayerAuthInputPacket :=
  { packet with
    mItemUseTransaction := if packet.mInputData.test PerformItemInteraction then
      packet.mItemUseTransaction.received
      else new.mItemUseTransaction
    mItemStackRequestData := if packet.mInputData.test PerformItemStackRequest then
      packet.mItemStackRequestData.received else new.mItemStackRequestData
    mPlayerBlockActions := if packet.mInputData.test PerformBlockActions then
      packet.mPlayerBlockActions
      else new.mPlayerBlockActions
    mVehicleRotation := if packet.mInputData.test IsInClientPredictedVehicle then
      packet.mVehicleRotation
      else new.mVehicleRotation
    mClientPredictedVihicle := if packet.mInputData.test IsInClientPredictedVehicle then
      packet.mClientPredictedVihicle else new.mClientPredictedVihicle }

/-- The sections that are sent can be. -/
structure Sendable (packet : PlayerAuthInputPacket) : Prop where
  use : packet.mInputData.test PerformItemInteraction → packet.mItemUseTransaction.Sendable
  request : packet.mInputData.test PerformItemStackRequest → packet.mItemStackRequestData.Sendable
  actions : packet.mInputData.test PerformBlockActions → packet.mPlayerBlockActions.length < 2 ^ 31

/-- **The packet arrives.** Into a new packet everything is read that was sent, whatever follows
it. -/
theorem packet_arrives {packet : PlayerAuthInputPacket} (h : packet.Sendable) :
    Accepts (read new) packet.write packet.received := by
  have hbits : Accepts (StreamRead.reader (readBitset : StreamRead (Bitset 65)))
    (writeBitset packet.mInputData)
      packet.mInputData := accepts_reader (accepts_readBitset (by decide) _)
  have htick : Accepts (StreamRead.reader readUnsignedVarInt64)
    (writeUnsignedVarInt64 packet.mClientTick)
      packet.mClientTick :=
    accepts_reader (recognises_readUnsignedVarInt64.accepts (isVarInt_writeUnsignedVarInt64 _))
  have hvehicle : Accepts (StreamRead.reader readVarInt64)
    (writeVarInt64 packet.mClientPredictedVihicle)
      packet.mClientPredictedVihicle :=
    accepts_reader (recognises_readVarInt64.accepts (isSignedVarInt64_write _))
  unfold write
  simp only [List.append_assoc]
  -- the fields before the sections
  refine (Vec2.accepts _).bind
    ((Vec3.accepts _).bind ((Vec2.accepts _).bind ((accepts_float _).bind (hbits.bind
    ((accepts_unsignedVarInt _).bind
      ((accepts_unsignedVarInt _).bind ((accepts_unsignedVarInt _).bind
      ((Vec2.accepts _).bind (htick.bind ((Vec3.accepts _).bind ?_))))))))))
  -- the sections, and what follows them
  exact (accepts_readIf fun hbit => PackedItemUseLegacyInventoryTransaction.accepts_received
    (h.use hbit)).bind
    ((accepts_readIf fun hbit => ItemStackRequestData.accepts_received _ (h.request hbit)).bind
      ((accepts_readIf fun hbit => PlayerBlockActions.accepts (h.actions hbit) _).bind
        ((accepts_readIf fun _ => Vec2.accepts _).bind ((accepts_readIf fun _ => hvehicle).bind
          ((Vec2.accepts _).bind ((Vec3.accepts _).bind (Vec2.accepts _).bind_pure))))))

/-- A player who uses an item in a vehicle, asks for another one, and breaks a block. -/
theorem packet_arrives_all :
    let item : NetworkItemStackDescriptor := ⟨5, 1, 0, some ⟨0, (⟨7⟩ : ItemStackNetId)⟩, 3, [1, 2]⟩
    let taken : InventoryTransactionAction := ⟨⟨0, some 200, none⟩, 4, item, .new⟩
    let placed : InventoryTransactionAction := ⟨⟨2, none, some 1⟩, 0, .new, item⟩
    let use : ItemUseInventoryTransaction := { ItemUseInventoryTransaction.new with
      mTransaction := ⟨[taken, placed]⟩, mItem := item, mFace := 255 }
    let take : ItemStackRequestAction := ⟨0, 0, (⟨1, .new, ⟨⟨28, some 3⟩, 2, -5⟩⟩ : TransferBase)⟩
    let packet : PlayerAuthInputPacket := { new with
      mInputData := fun k => k = 34 ∨ k = 35 ∨ k = 36 ∨ k = 45 ∨ k = 64
      mItemUseTransaction := ⟨-4, [⟨29, [0, 8]⟩], use⟩
      mItemStackRequestData := ⟨-1, [[97]], 2, [take]⟩
      mPlayerBlockActions := [⟨-1, ⟨1, 2, -3⟩, 4⟩]
      mClientPredictedVihicle := -9 }
    Accepts (read new) packet.write packet.received := by
  intro item taken placed use take packet
  have hitem : item.Sendable := fun _ => ⟨by decide, fun var hvar => by rw [← Option.some.inj hvar]⟩
  have hnone : NetworkItemStackDescriptor.new.Sendable := fun h => absurd rfl h
  -- every part is one that can be sent
  have hactions : ∀ action ∈ [taken, placed], action.Sendable := by
    refine List.forall_mem_cons.mpr ⟨?_, List.forall_mem_singleton.mpr ?_⟩
    · exact ⟨⟨by decide, by decide⟩, hitem, hnone⟩
    · exact ⟨⟨by decide, by decide⟩, hnone, hitem⟩
  have hslots : ∀ slot ∈ [(⟨29, [0, 8]⟩ : LegacySetItemSlot)], slot.mSlots.length < 2 ^ 32 :=
    List.forall_mem_singleton.mpr (by decide)
  have hstrings : ∀ string ∈ [([97] : Bytes)], string.length < 2 ^ 32 :=
    List.forall_mem_singleton.mpr (by decide)
  have htake : ∀ action ∈ [take], action.Sendable := List.forall_mem_singleton.mpr ⟨rfl, trivial⟩
  have huse : use.Sendable := ⟨⟨by decide, hactions⟩, hitem⟩
  exact @packet_arrives packet ⟨fun _ => ⟨fun _ => ⟨by decide, hslots⟩, huse⟩,
    fun _ => ⟨by decide, htake, by decide, hstrings⟩, fun _ => by decide⟩

/-! ### Packets that do not arrive -/

/-- A packet with a request only. -/
def request (data : ItemStackRequestData) : PlayerAuthInputPacket :=
  { new with mInputData := fun k => k = 36, mItemStackRequestData := data }

/-- Zeros at the end of a request are as good as zeros behind the packet. -/
theorem request_write {data data' : ItemStackRequestData} {bs : Bytes} {k n : ℕ}
    (h : data.write = bs ++ List.replicate (k + n) 0)
    (h' : data'.write = bs ++ List.replicate k 0) :
    (request data).write = (request data').write ++ List.replicate n 0 := by
  have hzeros : new.mAnologMoveVector.write ++
    (new.mCameraOrientation.write ++ new.mRawMoveVector.write) =
      List.replicate 28 0 := by decide
  have huse : Bitset.test (fun k : Fin 65 => decide (k = 36)) PerformItemInteraction =
      false := by decide
  have hrequest : Bitset.test (fun k : Fin 65 => decide (k = 36)) PerformItemStackRequest =
      true := by decide
  have hactions : Bitset.test (fun k : Fin 65 => decide (k = 36)) PerformBlockActions =
      false := by decide
  have hvehicle : Bitset.test (fun k : Fin 65 => decide (k = 36)) IsInClientPredictedVehicle =
      false := by decide
  unfold write
  simp only [request, huse, hrequest, hactions, hvehicle, if_true, Bool.false_eq_true, if_false, h,
    h', List.append_assoc, List.nil_append, hzeros, List.replicate_append_replicate]
  rw [Nat.add_assoc k n 28, Nat.add_comm n 28, ← Nat.add_assoc]

/-- A packet that is written like another one, but for what follows, is read as the other one. -/
theorem not_accepts_of_write {packet other : PlayerAuthInputPacket} {bs : Bytes}
    (h : other.Sendable)
    (hwrite : packet.write = other.write ++ bs) (hne : packet.received ≠ other.received) :
    ¬ Accepts (read new) packet.write packet.received := by
  intro hpacket
  rw [hwrite] at hpacket
  exact hne ((packet_arrives h).eq_of_append hpacket).symm

/-- Of requests that are written differently, different ones arrive. -/
theorem request_received_ne {data data' : ItemStackRequestData} (h : data.write ≠ data'.write) :
    (request data).received ≠ (request data').received := by
  intro heq
  have hdata : data.received = data'.received := congrArg mItemStackRequestData heq
  exact h (by rw [← data.write_received, hdata, data'.write_received])

theorem request_sendable {data : ItemStackRequestData} (h : data.Sendable) :
    (request data).Sendable where
  use hbit := absurd hbit (by
    show ¬ Bitset.test (fun k : Fin 65 => decide (k = 36)) PerformItemInteraction = true
    decide)
  request _ := h
  actions hbit := absurd hbit (by
    show ¬ Bitset.test (fun k : Fin 65 => decide (k = 36)) PerformBlockActions = true
    decide)

/-- An alternative that is not the one of the type is read as another one, 256 ingredients are
counted as none, and so are `2 ^ 32` strings. -/
theorem packets_misread :
    let craft : ItemStackRequestAction := ⟨12, 5, (⟨1, 1⟩ : BeaconPayment)⟩
    let auto : ItemStackRequestAction :=
      ⟨13, 8, (⟨0, 0, 0, List.replicate 256 .new⟩ : CraftRecipeAuto)⟩
    let other := request ⟨0, [], 0, [craft]⟩
    let many := request ⟨0, [], 0, [auto]⟩
    let strings := request ⟨0, List.replicate (2 ^ 32) [], 0, []⟩
    ¬ Accepts (read new) other.write other.received ∧
      ¬ Accepts (read new) many.write many.received ∧
      ¬ Accepts (read new) strings.write strings.received := by
  intro craft auto other many strings
  have hsendable : ∀ action : ItemStackRequestAction, action.Sendable →
      (request ⟨0, [], 0, [action]⟩).Sendable := by
    refine fun action h => request_sendable ⟨?_, List.forall_mem_singleton.mpr h, ?_, ?_⟩
    · show 1 < 2 ^ 32
      decide
    · show 0 < 2 ^ 32
      decide
    · exact fun string hstring => absurd hstring List.not_mem_nil
  refine ⟨?_, ?_, ?_⟩
  · -- the type is that of a recipe, whose two fields have the text of a payment's
    let recipe : ItemStackRequestAction := ⟨12, 7, (⟨2, 2⟩ : CraftRecipe)⟩
    have hrecipe : recipe.Sendable := ⟨rfl, trivial⟩
    have hsame : (⟨0, [], 0, [craft]⟩ : ItemStackRequestData).write =
        (⟨0, [], 0, [recipe]⟩ : ItemStackRequestData).write := by decide
    have hwrite := @request_write ⟨0, [], 0, [craft]⟩ ⟨0, [], 0, [recipe]⟩ _ 0 0
      (hsame.trans (List.append_nil _).symm) (List.append_nil _).symm
    refine not_accepts_of_write (hsendable recipe hrecipe) hwrite fun heq => ?_
    have hactions :=
      congrArg (fun packet => packet.mItemStackRequestData.mActions.map
        fun action => action.mVariant.1) heq
    exact absurd hactions (by decide)
  · -- the count is a byte: the ingredients are left over in the text
    let none : ItemStackRequestAction := ⟨13, 8, (⟨0, 0, 0, []⟩ : CraftRecipeAuto)⟩
    have hsends : none.Sendable :=
      ⟨rfl, Nat.zero_le 255, fun ingredient hingredient => absurd hingredient List.not_mem_nil⟩
    have hmany : (⟨0, [], 0, [auto]⟩ : ItemStackRequestData).write = [0, 1, 13] ++
        List.replicate (9 + 512) 0 := by
      decide +kernel
    have hnone : (⟨0, [], 0, [none]⟩ : ItemStackRequestData).write = [0, 1, 13] ++
        List.replicate 9 0 := by decide
    refine not_accepts_of_write (hsendable none hsends) (request_write hmany hnone)
      (request_received_ne fun heq => ?_)
    have hlength := congrArg List.length (hmany.symm.trans (heq.trans hnone))
    rw [List.length_append, List.length_append, List.length_replicate,
      List.length_replicate] at hlength
    omega
  · -- the count has 32 bits: the strings are left over in the text
    have hstrings : (⟨0, List.replicate (2 ^ 32) [], 0, []⟩ : ItemStackRequestData).write =
        [] ++ List.replicate (7 + 2 ^ 32) 0 := by
      have hwritten : writeArray Prefix.unsignedVarInt writeString (List.replicate (2 ^ 32) []) =
          List.replicate (1 + 2 ^ 32) 0 := by
        have hempty : writeString [] = [0] := rfl
        rw [writeArray, List.length_replicate, List.flatMap_replicate, hempty,
          List.flatten_replicate_singleton, ← List.replicate_append_replicate]
        rfl
      rw [ItemStackRequestData.write, hwritten]
      show List.replicate 2 0 ++ List.replicate (1 + 2 ^ 32) 0 ++ List.replicate 4 0 = _
      rw [List.replicate_append_replicate, List.replicate_append_replicate, List.nil_append]
      exact congrArg (List.replicate · 0) (by omega)
    have hnone : (⟨0, [], 0, []⟩ : ItemStackRequestData).write = [] ++
        List.replicate 7 0 := by decide
    have hsends : ItemStackRequestData.Sendable ⟨0, [], 0, []⟩ := by
      refine ⟨?_, fun action haction => absurd haction List.not_mem_nil, ?_,
        fun string hstring => absurd hstring List.not_mem_nil⟩
      · show 0 < 2 ^ 32
        decide
      · show 0 < 2 ^ 32
        decide
    refine not_accepts_of_write (request_sendable hsends) (request_write hstrings hnone)
      (request_received_ne fun heq => ?_)
    have hlength := congrArg List.length (hstrings.symm.trans (heq.trans hnone))
    rw [List.nil_append, List.nil_append, List.length_replicate, List.length_replicate] at hlength
    omega

end PlayerAuthInputPacket

end SculkProtocol
