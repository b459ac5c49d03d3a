import SculkProtocol.Session.SendPath
import SculkProtocol.Systems.Scripts

/-!
# Concurrent senders

Any number of threads call `sendPacket`, `sendPacketImmediately`, `flush` and `flushIfDue`
on one session. The mutex covers the queue only: a flush takes the packets under it, and
what follows is outside. So a call has up to three steps: it takes the queue (`flush`,
`flushIfDue`), it compresses and encrypts its batch, and it hands the message to `Send`.

The steps are the parts of the send path, each applied to the session as it is at that
moment. The order in which the messages were encoded, the order in which they were sent and
the packets `sendPacket` has accepted are recorded for the statements; no step reads them.
-/

namespace SculkProtocol
namespace Session
namespace Senders

/-- A batch on its way to `Send`: its packets, and the message made of them. -/
structure Message where
  packets : List Bytes
  framed : Bytes
  deriving DecidableEq

structure State where
  session : Sender
  /-- the packets that were accepted, those queued at the start first -/
  accepted : List Bytes
  /-- the messages in the order in which they were compressed and encrypted -/
  encoded : List Message
  /-- the messages in the order in which they were handed to `Send` -/
  sent : List Message

/-- The program points of the callers. -/
inductive Op
  /-- `sendPacket`, under the mutex -/
  | sendPacket (buffer : Bytes)
  /-- `sendPacketImmediately`, up to its `Send` -/
  | sendPacketImmediately (buffer : Bytes)
  /-- `flush`: the part under the mutex -/
  | flush
  /-- `flushIfDue`: the part under the mutex -/
  | flushIfDue (now : ℤ)
  /-- a flush that has taken `packets`, up to its `Send` -/
  | sendBatchedBufferImmediately (packets : List Bytes)
  /-- `peer->Send` -/
  | send (message : Message)
  deriving DecidableEq

/-- What a step may depend on besides the state. -/
structure Choice where
  /-- the clock that `flush` reads -/
  now : ℤ := 0
  /-- what the EVP calls of an encryption answer -/
  calls : EvpCalls := .succeed

/-- What arrives from outside: a thread calls one of the methods. -/
inductive Call
  | sendPacket (buffer : Bytes)
  | sendPacketImmediately (buffer : Bytes)
  | flush
  | flushIfDue (now : ℤ)
  deriving DecidableEq

abbrev Thread := Script Unit Op

/-- The caller of a flush has left the mutex. -/
def State.drained (s : State) (drained : Sender × Option (List Bytes)) : State × List Op :=
  ({ s with session := drained.1 },
    match drained.2 with
    | some packets => [.sendBatchedBufferImmediately packets]
    | none => [])

/-- The caller has made its message, if it got that far. -/
def State.framed (s : State) (packets : List Bytes) (encoded : Sender × Option Bytes) :
    State × List Op :=
  match encoded.2 with
  | some framed =>
    ({ s with session := encoded.1, encoded := s.encoded ++ [⟨packets, framed⟩] },
      [.send ⟨packets, framed⟩])
  | none => ({ s with session := encoded.1 }, [])

variable (E : Evp) (L : Codecs)

/-- The next step of a caller: the new state, and what it does next. -/
def execOp (s : State) (ch : Choice) : Op → State × List Op
  | .sendPacket buffer =>
    let r := s.session.sendPacket buffer
    ({ s with session := r.1, accepted := if r.2 then s.accepted ++ [buffer] else s.accepted }, [])
  | .sendPacketImmediately buffer =>
    s.framed [buffer] (s.session.sendPacketImmediately E L ch.calls buffer)
  | .flush => s.drained (s.session.drainFlush ch.now)
  | .flushIfDue now => s.drained (s.session.drainFlushIfDue now)
  | .sendBatchedBufferImmediately packets =>
    s.framed packets (s.session.sendBatchedBufferImmediately E L ch.calls (writePackets packets))
  | .send message => ({ s with sent := s.sent ++ [message] }, [])

/-- The program point at which a call starts. -/
def Call.entry : Call → Op
  | .sendPacket buffer => .sendPacket buffer
  | .sendPacketImmediately buffer => .sendPacketImmediately buffer
  | .flush => .flush
  | .flushIfDue now => .flushIfDue now

/-- The callers of one session. -/
def scripts : Scripts State Unit Op Choice Call where
  exec s _ ch op := let r := execOp E L s ch op; some (r.1, r.2, [])
  finish s _ := s
  call s _ a := some (s, [⟨(), [a.entry]⟩])

abbrev Pool := Scripts.Pool State Unit Op

abbrev PoolStep := Scripts.PoolStep State Unit Op Choice Call

/-- All runs of the callers of a session, from a state of it in which nobody is sending. -/
def system (session : Sender) : System Pool (Move (Event Choice Call)) :=
  (scripts E L).program.system ⟨⟨session, session.mOutboundPackets, [], []⟩, []⟩

/-! ### What a step does -/

/-- The packets a caller will send: those it has taken from the queue, or its own. -/
def Op.packets : Op → Option (List Bytes)
  | .sendPacketImmediately buffer => some [buffer]
  | .sendBatchedBufferImmediately packets => some packets
  | _ => none

/-- The message a caller is about to hand to `Send`. -/
def Op.message : Op → Option Message
  | .send message => some message
  | _ => none

/-- What the session makes of a batch before it encrypts it. -/
def plain (L : Codecs) (session : Outbound) (packets : List Bytes) : Bytes :=
  compressBatch L session.mCompressionType session.mCompressionThreshold (writePackets packets)

/-- What the session makes of a batch. -/
def encode (session : Outbound) (calls : EvpCalls) (packets : List Bytes) :
    Option CryptoManager × Except String Bytes :=
  encryptBatch E calls session.mEncryption (plain L session packets)

variable {E L} {s s' : State} {ch : Choice}

/-- A message is made by one call of `sendBatchedBufferImmediately`. -/
theorem execOp_packets {op : Op} {packets : List Bytes} (h : op.packets = some packets) :
    execOp E L s ch op = s.framed packets
      (s.session.sendBatchedBufferImmediately E L ch.calls (writePackets packets)) := by
  cases op with
  | sendPacketImmediately buffer =>
    cases h
    rw [writePackets_cons, writePackets_nil, List.append_nil]
    rfl
  | sendBatchedBufferImmediately packets' => cases h; rfl
  | _ => exact absurd h (by simp [Op.packets])

/-- **The kinds of steps** of a session that stays attached. -/
inductive Steps (E : Evp) (L : Codecs) (s : State) (ch : Choice) (op : Op) :
    State → List Op → Prop
  /-- a packet is queued -/
  | queue {buffer : Bytes} : op = .sendPacket buffer →
      Steps E L s ch op
        { s with
          session := { s.session with mOutboundPackets := s.session.mOutboundPackets ++ [buffer] }
          accepted := s.accepted ++ [buffer] } []
  /-- a flush has nothing to do -/
  | idle {due : ℤ} : op = .flush ∨ (∃ now, op = .flushIfDue now) →
      Steps E L s ch op { s with session := { s.session with mNextFlushAt := due } } []
  /-- a flush takes the queue -/
  | take {due : ℤ} : op = .flush ∨ (∃ now, op = .flushIfDue now ∧ s.session.mNextFlushAt ≤ now) →
      s.session.mOutboundPackets ≠ [] →
      Steps E L s ch op
        { s with session := { s.session with mOutboundPackets := [], mNextFlushAt := due } }
        [.sendBatchedBufferImmediately s.session.mOutboundPackets]
  /-- a message is made -/
  | make {packets : List Bytes} {finalBuffer : Bytes} : op.packets = some packets →
      (encode E L s.session.toOutbound ch.calls packets).2 = .ok finalBuffer →
      Steps E L s ch op
        { s with
          session := { s.session with
            mEncryption := (encode E L s.session.toOutbound ch.calls packets).1 }
          encoded := s.encoded ++ [⟨packets, MINECRAFT_BATCH_PACKET_ID :: finalBuffer⟩] }
        [.send ⟨packets, MINECRAFT_BATCH_PACKET_ID :: finalBuffer⟩]
  /-- a batch could not be encrypted, or it is empty -/
  | drop {packets : List Bytes} : op.packets = some packets →
      (∀ finalBuffer, (encode E L s.session.toOutbound ch.calls packets).2 = .ok finalBuffer →
        finalBuffer = []) →
      Steps E L s ch op
        { s with
          session := { s.session with
            mEncryption := (encode E L s.session.toOutbound ch.calls packets).1 } } []
  /-- a message is sent -/
  | send {message : Message} : op = .send message →
      Steps E L s ch op { s with sent := s.sent ++ [message] } []

/-- Taking the queue, if the session is due. -/
theorem drained_steps (hs : s.session.Attached) {op : Op} {due : ℤ}
    (hop : op = .flush ∨ (∃ now, op = .flushIfDue now ∧ s.session.mNextFlushAt ≤ now)) :
    let r := s.drained ({ s.session with mNextFlushAt := due } : Sender).dequeueOutboundPackets
    Steps E L s ch op r.1 r.2 := by
  have hs' : ({ s.session with mNextFlushAt := due } : Sender).Attached := ⟨hs.connected, hs.peer⟩
  rcases Sender.dequeue_cases hs' with ⟨-, hidle⟩ | ⟨hne, htake⟩
  · rw [hidle]
    exact .idle (hop.imp_right fun ⟨now, hnow, _⟩ => ⟨now, hnow⟩)
  · rw [htake]
    exact .take hop hne

/-- Compressing and encrypting a batch. -/
theorem framed_steps (hs : s.session.Attached) {op : Op} {packets : List Bytes}
    (hop : op.packets = some packets) :
    let r := s.framed packets
      (s.session.sendBatchedBufferImmediately E L ch.calls (writePackets packets))
    Steps E L s ch op r.1 r.2 := by
  by_cases hmade : ∃ finalBuffer,
      (encode E L s.session.toOutbound ch.calls packets).2 = .ok finalBuffer ∧ finalBuffer ≠ []
  · obtain ⟨finalBuffer, hencode, hne⟩ := hmade
    rw [Sender.sendBatched_ok hs hencode hne]
    exact .make hop hencode
  · have hdrop : ∀ finalBuffer,
        (encode E L s.session.toOutbound ch.calls packets).2 = .ok finalBuffer → finalBuffer = [] :=
      fun finalBuffer hencode => by_contra fun hne => hmade ⟨finalBuffer, hencode, hne⟩
    rw [Sender.sendBatched_none hs hdrop]
    exact .drop hop hdrop

theorem execOp_steps (hs : s.session.Attached) (op : Op) :
    Steps E L s ch op (execOp E L s ch op).1 (execOp E L s ch op).2 := by
  cases op with
  | sendPacket buffer =>
    have hsend : s.session.sendPacket buffer = ({ s.session with
        mOutboundPackets := s.session.mOutboundPackets ++ [buffer] }, true) := by
      simp [Sender.sendPacket, hs.connected]
    simp only [execOp, hsend, if_true]
    exact .queue rfl
  | sendPacketImmediately buffer =>
    rw [execOp_packets rfl]
    exact framed_steps hs rfl
  | sendBatchedBufferImmediately packets => exact framed_steps hs rfl
  | flush => exact drained_steps hs (Or.inl rfl)
  | flushIfDue now =>
    simp only [execOp, Sender.drainFlushIfDue]
    split
    · exact .idle (Or.inr ⟨now, rfl⟩)
    · next hdue => exact drained_steps hs (Or.inr ⟨now, rfl, Int.not_lt.mp hdue⟩)
  | send message => exact .send rfl

end Senders
end Session
end SculkProtocol
