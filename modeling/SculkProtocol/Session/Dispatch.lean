import SculkProtocol.Codec.MinecraftPackets
import SculkProtocol.Session.Sequence

/-!
# From packets to callbacks

Server and client do the same with a message of a connected session. They refuse it if it is too
long or if too many have come within a second. They decode it as a batch, and for each payload read
a header, create the packet that it names and read it; then they call back with the packet, or with
the id and the text of an error. Without a callback for packets the payloads are queued.
`mOnRawPacketReceive` gets each payload first: it may refuse it, and it may change it.

`payloads_answered` is about any payloads: each is answered once, in their order.
-/

namespace SculkProtocol
namespace Session

open Decoder InputStream MinecraftPackets ReadOnlyBinaryStream

/-- Nanoseconds, as all times here. -/
def RAW_INGRESS_WINDOW : ℤ := 1000000000

/-- The callbacks for packets. What a callback answers is given by the number of the call. -/
structure PacketCallbacks where
  /-- `mOnPacketReceive` is set -/
  mOnPacketReceive : Bool
  /-- what it answers for each payload, and what it leaves of it, if it is set -/
  mOnRawPacketReceive : Option (ℕ → Bytes → Bool × Bytes)
  /-- `mOnPacketParseFailed` is set -/
  mOnPacketParseFailed : Bool
  /-- whether it ends the connection for a message over a limit, if it is set -/
  mOnRawIngressLimitExceeded : Option (ℕ → Bool)

/-- The ids with which RakNet says that a connection has ended. -/
structure NoticeIds where
  ID_DISCONNECTION_NOTIFICATION : UInt8
  ID_CONNECTION_LOST : UInt8
  ne_batch : ID_DISCONNECTION_NOTIFICATION ≠ MINECRAFT_BATCH_PACKET_ID ∧
    ID_CONNECTION_LOST ≠ MINECRAFT_BATCH_PACKET_ID

/-- What a system depends on when it works on messages. -/
structure Reception where
  callbacks : PacketCallbacks
  mRawIngressMaxPacketBytes : ℕ
  mRawIngressMaxPacketsPerSecond : ℕ
  ids : NoticeIds
  /-- when it works on each message -/
  now : ℕ → ℤ

/-- What the system does with a message or a payload. -/
inductive Report (C : PacketClasses)
  /-- `mOnRawPacketReceive` is called -/
  | rawReceived (payload : Bytes)
  /-- `mOnPacketReceive` is called -/
  | received (packet : IPacket C)
  /-- `mOnPacketParseFailed` is called -/
  | parseFailed (packetId : UInt16) (message : String)
  /-- `enqueueInboundPacket` is called -/
  | enqueued (payload : Bytes)
  /-- an exception reaches the function, which is `noexcept` -/
  | terminated (failure : Failure)
  /-- `mOnRawIngressLimitExceeded` is called -/
  | limitExceeded (packetBytes windowPackets : ℕ)

section

variable {C : PacketClasses} (callbacks : PacketCallbacks)

def reportFailure (packetId : UInt16) (message : String) : List (Report C) :=
  if callbacks.mOnPacketParseFailed then [.parseFailed packetId message] else []

/-- A payload is parsed, then come the reports of the others. -/
def parsePayload (payload : Bytes) (others : List (Report C)) : List (Report C) :=
  match readPacketHeader (ofBuffer payload) with
  -- -1 as an id
  | (_, .error _) => reportFailure callbacks 0xFFFF "Failed to read packet header" ++ others
  | (stream, .ok header) =>
    match (readAndCreatePacketFromHeader C header stream).2 with
    | .ok packet => .received packet :: others
    | .error (.error message) => reportFailure callbacks header.mPacketId message ++ others
    | .error failure => [.terminated failure]

/-- The loop over the payloads of a batch, `n` payloads after the first. -/
def dispatch (n : ℕ) : List Bytes → List (Report C)
  | [] => []
  | payload :: payloads =>
    if callbacks.mOnPacketReceive then
      match callbacks.mOnRawPacketReceive with
      | some receive => .rawReceived payload ::
          -- what the callback leaves of the payload is parsed
          if (receive n payload).1 then parsePayload callbacks (receive n payload).2
            (dispatch (n + 1) payloads)
          else dispatch (n + 1) payloads
      | none => parsePayload callbacks payload (dispatch (n + 1) payloads)
    else .enqueued payload :: dispatch (n + 1) payloads

end

/-- What a receiver has of its session, and what it has done. -/
structure Receiver (C : PacketClasses) where
  session : Inbound
  /-- the connection was ended, so that no message of it gets here any more -/
  ended : Bool
  /-- the clock is 0 at `time_point{}` -/
  mRawIngressWindowStart : ℤ
  mRawIngressWindowPackets : ℕ
  /-- the messages so far -/
  messages : ℕ
  /-- the payloads so far -/
  count : ℕ
  reports : List (Report C)

namespace Receiver

variable {C : PacketClasses}

/-- The receiver of a session that was just created. -/
def initial : Receiver C := ⟨⟨none, none⟩, false, 0, 0, 0, 0, []⟩

/-- Whether the ingress window is over. -/
def WindowOver (r : Receiver C) (now : ℤ) : Prop :=
  r.mRawIngressWindowStart = 0 ∨ now - r.mRawIngressWindowStart ≥ RAW_INGRESS_WINDOW

instance (r : Receiver C) (now : ℤ) : Decidable (r.WindowOver now) :=
  inferInstanceAs (Decidable (_ ∨ _))

/-- Begin a new ingress window if the last one is over. -/
def openWindow (r : Receiver C) (now : ℤ) : Receiver C :=
  if r.WindowOver now then { r with mRawIngressWindowStart := now, mRawIngressWindowPackets := 0 }
  else r

/-- Count a message in the ingress window. -/
def countPacket (r : Receiver C) : Receiver C :=
  { r with mRawIngressWindowPackets := r.mRawIngressWindowPackets + 1 }

/-- A message over a limit ends the connection, unless a callback says otherwise. -/
def refuse (callbacks : PacketCallbacks) (r : Receiver C) (packetBytes : ℕ) : Receiver C :=
  match callbacks.mOnRawIngressLimitExceeded with
  | some ends =>
    { r with
      ended := r.ended || ends r.messages
      reports := r.reports ++ [.limitExceeded packetBytes r.mRawIngressWindowPackets] }
  | none => { r with ended := true }

/-- A message is decoded, and its payloads are dispatched. -/
def deliver (E : Evp) (L : Codecs) (calls : EvpCalls) (callbacks : PacketCallbacks) (r : Receiver C)
    (batch : Bytes) :
    Receiver C :=
  let decoded := deserializeBatchPackets E (compression.decompressors L) calls r.session batch
  match decoded.2 with
  | .error _ => { r with session := decoded.1 }
  | .ok packets =>
    { r with
      session := decoded.1
      count := r.count + packets.length
      reports := r.reports ++ dispatch callbacks r.count packets }

/-- A message with its id, behind the test that it is not empty. -/
def process (E : Evp) (L : Codecs) (calls : EvpCalls) (R : Reception) (r : Receiver C)
    (messageId : UInt8)
    (body : Bytes) : Receiver C :=
  let packetBytes := body.length + 1
  let processed :=
    if packetBytes > R.mRawIngressMaxPacketBytes then r.refuse R.callbacks packetBytes
    else
      let r := r.openWindow (R.now r.messages)
      if r.mRawIngressWindowPackets ≥ R.mRawIngressMaxPacketsPerSecond then
        r.refuse R.callbacks packetBytes
      else
        let r := r.countPacket
        if messageId = R.ids.ID_DISCONNECTION_NOTIFICATION ∨
          messageId = R.ids.ID_CONNECTION_LOST then
          { r with ended := true }
        else if messageId ≠ MINECRAFT_BATCH_PACKET_ID ∨ packetBytes ≤ 1 then r
        else r.deliver E L calls R.callbacks body
  { processed with messages := r.messages + 1 }

/-- Only the window is opened. -/
theorem openWindow_eq (r : Receiver C) (now : ℤ) : ∃ start packets, r.openWindow now =
    { r with mRawIngressWindowStart := start, mRawIngressWindowPackets := packets } := by
  unfold openWindow
  split
  · exact ⟨_, _, rfl⟩
  · exact ⟨_, _, rfl⟩

end Receiver

/-! ### Any payloads -/

section

variable {C : PacketClasses} {callbacks : PacketCallbacks} {payload : Bytes}
  {others : List (Report C)}

/-- The answer to a payload that is parsed. -/
inductive Answers (payload : Bytes) : Report C → Prop
  | received {packet : IPacket C} : readAndCreatePacketFromBuffer C payload = .ok packet →
      Answers payload (.received packet)
  /-- there is no header -/
  | noHeader {message : String} : (readPacketHeader (ofBuffer payload)).2 = .error message →
      Answers payload (.parseFailed 0xFFFF "Failed to read packet header")
  /-- the packet that the header names is not created or read -/
  | parseFailed {stream : ReadOnlyBinaryStream} {header : PacketHeader} {message : String} :
      readPacketHeader (ofBuffer payload) = (stream, .ok header) →
      (readAndCreatePacketFromHeader C header stream).2 = .error (.error message) →
      message ∈ ["Invalid packet ID", "Failed to read packet from stream",
        "Extra data left in buffer after reading packet"] →
      Answers payload (.parseFailed header.mPacketId message)

/-- What is read behind a header is what is read of the whole payload. -/
theorem fromBuffer_of_fromHeader {stream : ReadOnlyBinaryStream} {header : PacketHeader}
    {packet : IPacket C}
    (hheader : readPacketHeader (ofBuffer payload) = (stream, .ok header))
    (hpacket : (readAndCreatePacketFromHeader C header stream).2 = .ok packet) :
    readAndCreatePacketFromBuffer C payload = .ok packet := by
  obtain ⟨rfl, hdata, hempty⟩ := readAndCreatePacketFromHeader_ok.mp (Prod.ext rfl hpacket)
  exact readAndCreatePacketFromBuffer_ok.mpr ⟨_, _, hheader, hdata, hempty⟩

/-- The texts of `readAndCreatePacketFromHeader`. -/
theorem readAndCreatePacketFromHeader_error {header : PacketHeader} {s : ReadOnlyBinaryStream}
    {message : String}
    (h : (readAndCreatePacketFromHeader C header s).2 = .error (.error message)) :
    message ∈ ["Invalid packet ID", "Failed to read packet from stream",
      "Extra data left in buffer after reading packet"] := by
  rcases bind_eq_error.mp h with h | ⟨t, created, -, h⟩
  · cases hcreate : createPacketOfHeader C header with
    | ok packet =>
      rw [hcreate] at h
      cases h
    | error e =>
      rw [hcreate] at h
      obtain rfl : e = message := Failure.error.inj (Except.error.inj h)
      rw [createPacketOfHeader_error hcreate]
      exact List.mem_cons_self
  · rcases bind_eq_error.mp h with h | ⟨t', packet, -, h⟩
    · -- the text of the class is not passed on
      obtain ⟨failure, -, hrename⟩ := mapError_eq_error.mp h
      rw [Failure.rename_eq_error hrename]
      exact List.mem_cons_of_mem _ List.mem_cons_self
    · unfold noDataLeft at h
      split at h
      · rw [← Failure.error.inj (Except.error.inj h)]
        exact List.mem_cons_of_mem _ (List.mem_cons_of_mem _ List.mem_cons_self)
      · cases h

/-- Reading the payload throws an exception. -/
def Throws (C : PacketClasses) (payload : Bytes) (failure : Failure) : Prop :=
  ∃ stream header, readPacketHeader (ofBuffer payload) = (stream, .ok header) ∧
    (readAndCreatePacketFromHeader C header stream).2 = .error failure ∧ failure.Escapes

variable (callbacks)

/-- An answer for which there is a callback. -/
def reported : Report C → List (Report C)
  | .parseFailed packetId message => reportFailure callbacks packetId message
  | report => [report]

/-- The call that asks whether a payload is parsed. -/
def asked (payload : Bytes) : List (Report C) :=
  if callbacks.mOnRawPacketReceive.isSome then [.rawReceived payload] else []

/-- The payload of a number as the raw callback leaves it. -/
def payloadLeft (payload : Bytes × ℕ) : Bytes :=
  match callbacks.mOnRawPacketReceive with
  | some receive => (receive payload.2 payload.1).2
  | none => payload.1

def IsParsed (payload : Bytes × ℕ) : Prop :=
  callbacks.mOnPacketReceive = true ∧
    ∀ receive ∈ callbacks.mOnRawPacketReceive, (receive payload.2 payload.1).1 = true

/-- What is done with the payload of a number. -/
inductive Handles (payload : Bytes × ℕ) : List (Report C) → Prop
  | enqueued : callbacks.mOnPacketReceive = false → Handles payload [.enqueued payload.1]
  | refused : callbacks.mOnPacketReceive = true → ¬ IsParsed callbacks payload →
      Handles payload (asked callbacks payload.1)
  | answered {report : Report C} : IsParsed callbacks payload →
      Answers (payloadLeft callbacks payload) report →
      Handles payload (asked callbacks payload.1 ++ reported callbacks report)

variable {callbacks}

/-- A payload that is parsed is answered, if no exception is thrown. -/
theorem parsePayload_cases (callbacks : PacketCallbacks) (payload : Bytes)
    (others : List (Report C)) :
    (∃ report, Answers payload report ∧ parsePayload callbacks payload others =
      reported callbacks report ++ others) ∨
      ∃ failure, Throws C payload failure ∧ parsePayload callbacks payload others =
        [.terminated failure] := by
  unfold parsePayload
  split
  · next stream message hheader =>
    have hnone : (readPacketHeader (ofBuffer payload)).2 = .error message :=
      congrArg Prod.snd hheader
    exact Or.inl ⟨_, .noHeader hnone, rfl⟩
  · next stream header hheader =>
    split
    · next packet hpacket =>
        exact Or.inl ⟨_, .received (fromBuffer_of_fromHeader hheader hpacket), rfl⟩
    · next message hmessage =>
      exact Or.inl
        ⟨_, .parseFailed hheader hmessage (readAndCreatePacketFromHeader_error hmessage), rfl⟩
    · next failure hother hfailure =>
      refine Or.inr ⟨failure, ⟨stream, header, hheader, hfailure, ?_⟩, rfl⟩
      cases failure with
      | error message => exact absurd rfl (hother message)
      | lengthError => trivial
      | signedOverflow => trivial

/-- Without a raw callback a payload is left as it came. -/
theorem payloadLeft_of_none {callbacks : PacketCallbacks} {payload : Bytes × ℕ}
    (h : callbacks.mOnRawPacketReceive = none) : payloadLeft callbacks payload = payload.1 := by
  rw [payloadLeft, h]

/-- A raw callback leaves what it makes of the payload. -/
theorem payloadLeft_of_some {callbacks : PacketCallbacks} {receive : ℕ → Bytes → Bool × Bytes}
    {payload : Bytes × ℕ} (h : callbacks.mOnRawPacketReceive = some receive) :
    payloadLeft callbacks payload = (receive payload.2 payload.1).2 := by
  rw [payloadLeft, h]

/-- One payload, and then the others. -/
theorem dispatch_cons_cases (callbacks : PacketCallbacks) (n : ℕ) (payload : Bytes)
    (payloads : List Bytes) :
    (∃ reports : List (Report C), Handles callbacks (payload, n) reports ∧
      dispatch callbacks n (payload :: payloads) = reports ++ dispatch callbacks (n + 1) payloads) ∨
    ∃ failure, Throws C (payloadLeft callbacks (payload, n)) failure ∧
      IsParsed callbacks (payload, n) ∧
      (dispatch callbacks n (payload :: payloads) : List (Report C)) =
        asked callbacks payload ++ [.terminated failure] := by
  rw [dispatch]
  cases hreceive : callbacks.mOnPacketReceive with
  | false =>
    rw [if_neg Bool.false_ne_true]
    exact Or.inl ⟨_, .enqueued hreceive, rfl⟩
  | true =>
    rw [if_pos rfl]
    have hparse := parsePayload_cases callbacks (payloadLeft callbacks (payload, n))
      (dispatch callbacks (n + 1) payloads : List (Report C))
    cases hraw : callbacks.mOnRawPacketReceive with
    | none =>
      -- no raw callback: the payload is parsed as it came
      have hasked : (asked callbacks payload : List (Report C)) = [] := by rw [asked, hraw]; rfl
      have hleft : payloadLeft callbacks (payload, n) = payload := payloadLeft_of_none hraw
      have hparsed : IsParsed callbacks (payload, n) :=
        ⟨hreceive, fun _ h => absurd (hraw ▸ h) nofun⟩
      rw [hleft] at hparse
      rcases hparse with ⟨report, hreport, hsame⟩ | ⟨failure, hfailure, hsame⟩
      · refine Or.inl ⟨_, .answered hparsed (hleft.symm ▸ hreport), ?_⟩
        rw [hasked]
        exact hsame
      · refine Or.inr ⟨failure, hleft.symm ▸ hfailure, hparsed, ?_⟩
        rw [hasked]
        exact hsame
    | some receive =>
      -- the raw callback answers, and leaves a payload
      have hasked : (asked callbacks payload : List (Report C)) = [.rawReceived payload] := by
        rw [asked, hraw]; rfl
      have hleft : payloadLeft callbacks (payload, n) = (receive n payload).2 :=
        payloadLeft_of_some hraw
      have hiff : IsParsed callbacks (payload, n) ↔ (receive n payload).1 = true := by
        rw [IsParsed, hraw]
        simp [hreceive]
      cases hanswer : (receive n payload).1 with
      | false =>
        refine Or.inl ⟨_, .refused hreceive ?_, ?_⟩
        · rw [hiff, hanswer]
          exact Bool.false_ne_true
        · rw [hasked]
          simp only [hanswer, Bool.false_eq_true, if_false, List.cons_append, List.nil_append]
      | true =>
        have hparsed := hiff.mpr hanswer
        rw [hleft] at hparse
        simp only [hanswer, if_true]
        rcases hparse with ⟨report, hreport, hsame⟩ | ⟨failure, hfailure, hsame⟩
        · refine Or.inl ⟨_, .answered hparsed (hleft.symm ▸ hreport), ?_⟩
          rw [hasked, hsame]
          rfl
        · refine Or.inr ⟨failure, hleft.symm ▸ hfailure, hparsed, ?_⟩
          rw [hasked, hsame]
          rfl

/-- **Any payloads** are handled once each, in their order, up to one whose reading throws an
exception. A payload is parsed as `mOnRawPacketReceive` leaves it. -/
theorem payloads_answered (callbacks : PacketCallbacks) (n : ℕ) (payloads : List Bytes) :
    (∃ handled : List (List (Report C)), List.Forall₂ (Handles callbacks)
      (payloads.zipIdx n) handled ∧
      dispatch callbacks n payloads = handled.flatten) ∨
    ∃ before payload after failure, ∃ handled : List (List (Report C)),
      payloads = before ++ payload :: after ∧
      List.Forall₂ (Handles callbacks) (before.zipIdx n) handled ∧
      Throws C (payloadLeft callbacks (payload, n + before.length)) failure ∧
      IsParsed callbacks (payload, n + before.length) ∧
      (dispatch callbacks n payloads : List (Report C)) =
        handled.flatten ++ asked callbacks payload ++ [.terminated failure] := by
  induction payloads generalizing n with
  | nil => exact Or.inl ⟨[], .nil, rfl⟩
  | cons payload payloads ih =>
    rcases dispatch_cons_cases (C := C) callbacks n payload payloads with
      ⟨reports, hreports, hfirst⟩ | ⟨failure, hthrows, hparsed, hfirst⟩
    · -- the first payload is handled, and the reading may fail at a later one
      rcases ih (n + 1) with ⟨handled, hhandled, hrest⟩ | ⟨before, last, after, failure, handled,
        rfl, hhandled, hthrows, hparsed, hrest⟩
      · refine Or.inl ⟨reports :: handled, ?_, by rw [hfirst, hrest, List.flatten_cons]⟩
        rw [List.zipIdx_cons]
        exact .cons hreports hhandled
      · have hindex : n + (payload :: before).length = n + 1 + before.length := by
          rw [List.length_cons]
          omega
        refine Or.inr ⟨payload :: before, last, after, failure, reports :: handled, rfl,
          ?_, ?_, ?_, ?_⟩
        · rw [List.zipIdx_cons]
          exact .cons hreports hhandled
        · rwa [hindex]
        · rwa [hindex]
        · rw [hfirst, hrest, List.flatten_cons, List.append_assoc, List.append_assoc,
            List.append_assoc]
    · -- the exception leaves the loop, and the payloads behind it are not reached
      exact Or.inr ⟨[], payload, payloads, failure, [], rfl, .nil, hthrows, hparsed, hfirst⟩

end
end Session
end SculkProtocol
