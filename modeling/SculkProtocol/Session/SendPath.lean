import SculkProtocol.Session.RoundTrip

/-!
# The send path

`sendPacket` queues a packet; `flush`, `flushIfDue` and a change of the settings take the
whole queue (`dequeueOutboundPackets`) and hand it, as one batch, to
`sendBatchedBufferImmediately`, which `sendPacketImmediately` calls with a batch of its own.
That function compresses and encrypts the batch and sends it.

Each method is split where it leaves the mutex, so that the parts can also be read as
the steps of concurrent callers. What `sendBatchedBufferImmediately` hands to
`RakPeer::Send` is part of its result; the value a method then returns is that of `Send`,
which is not modelled.
-/

namespace SculkProtocol
namespace Session

def MINECRAFT_BATCH_PACKET_ID : UInt8 := 0xFE

/-- 20 milliseconds, in nanoseconds -/
def FLUSH_INTERVAL : ℤ := 20000000

/-- What the send path reads and writes of a session. -/
structure Sender extends Outbound where
  mOutboundPackets : List Bytes
  /-- a point of the steady clock, in nanoseconds -/
  mNextFlushAt : ℤ
  mConnected : Bool
  /-- `mPeer` is not null -/
  mPeer : Bool

/-- A session that was created at the time `now` with a peer. -/
def Sender.create (now : ℤ) : Sender where
  mEncryption := none
  mCompressionType := none
  mCompressionThreshold := 0
  mOutboundPackets := []
  mNextFlushAt := now + FLUSH_INTERVAL
  mConnected := true
  mPeer := true

namespace Sender

variable (E : Evp) (L : Codecs) (calls : EvpCalls) (s : Sender)

/-- The session afterwards, and the message that is handed to `Send`. -/
def sendBatchedBufferImmediately (packetsBuffer : Bytes) : Sender × Option Bytes :=
  if s.mConnected = false ∨ s.mPeer = false then (s, none)
  else
    let encrypted := encryptBatch E calls s.mEncryption
      (compressBatch L s.mCompressionType s.mCompressionThreshold packetsBuffer)
    let s := { s with mEncryption := encrypted.1 }
    match encrypted.2 with
    | .error _ => (s, none)
    | .ok finalBuffer =>
      if finalBuffer = [] then (s, none) else (s, some (MINECRAFT_BATCH_PACKET_ID :: finalBuffer))

/-- Whether the packet was accepted. -/
def sendPacket (buffer : Bytes) : Sender × Bool :=
  if s.mConnected = false then (s, false)
  else ({ s with mOutboundPackets := s.mOutboundPackets ++ [buffer] }, true)

def sendPacketImmediately (buffer : Bytes) : Sender × Option Bytes :=
  s.sendBatchedBufferImmediately E L calls (writePacket buffer)

/-- The packets that are taken, if there are any. -/
def dequeueOutboundPackets : Sender × Option (List Bytes) :=
  if s.mConnected = false ∨ s.mPeer = false ∨ s.mOutboundPackets = [] then (s, none)
  else ({ s with mOutboundPackets := [] }, some s.mOutboundPackets)

/-- The part of `flush` under the mutex. -/
def drainFlush (now : ℤ) : Sender × Option (List Bytes) :=
  dequeueOutboundPackets { s with mNextFlushAt := now + FLUSH_INTERVAL }

/-- The part of `flushIfDue` under the mutex. -/
def drainFlushIfDue (now : ℤ) : Sender × Option (List Bytes) :=
  if now < s.mNextFlushAt then (s, none)
  else dequeueOutboundPackets { s with mNextFlushAt := now + FLUSH_INTERVAL }

/-- The rest of a flush: the packets that were taken are sent as one batch. -/
def sendDrained (drained : Sender × Option (List Bytes)) : Sender × Option Bytes :=
  match drained.2 with
  | some packets => drained.1.sendBatchedBufferImmediately E L calls (writePackets packets)
  | none => (drained.1, none)

def flush (now : ℤ) : Sender × Option Bytes := sendDrained E L calls (s.drainFlush now)

def flushIfDue (now : ℤ) : Sender × Option Bytes := sendDrained E L calls (s.drainFlushIfDue now)

def flushPendingBeforeStateChangeUnlocked : Sender × Option Bytes :=
  sendDrained E L calls s.dequeueOutboundPackets

def setCompressed (type : CompressionAlgorithm) (threshold : Int32) : Sender × Option Bytes :=
  let flushed := s.flushPendingBeforeStateChangeUnlocked E L calls
  ({ flushed.1 with mCompressionType := some type, mCompressionThreshold := threshold }, flushed.2)

def setEncrypted (key : Bytes) : Sender × Option Bytes :=
  let flushed := s.flushPendingBeforeStateChangeUnlocked E L calls
  ({ flushed.1 with mEncryption := some (.create key) }, flushed.2)

/-! ### A connected session with a peer -/

variable {E L calls s}

/-- A session that sends what it is given. -/
structure Attached (s : Sender) : Prop where
  connected : s.mConnected = true
  peer : s.mPeer = true

theorem attached_create (now : ℤ) : (create now).Attached := ⟨rfl, rfl⟩

theorem compressBatch_ne_nil {type : Option CompressionAlgorithm} {threshold : Int32}
    {packetsBuffer : Bytes} (h : packetsBuffer ≠ []) :
    compressBatch L type threshold packetsBuffer ≠ [] := by
  cases type with
  | none => exact h
  | some type => exact List.cons_ne_nil _ _

/-- **Sending a batch.** A batch with packets whose encryption succeeds is sent. -/
theorem sendBatched_ok (h : s.Attached) {packetsBuffer finalBuffer : Bytes}
    (hok : (encryptBatch E calls s.mEncryption (compressBatch L s.mCompressionType
      s.mCompressionThreshold packetsBuffer)).2 = .ok finalBuffer) (hne : finalBuffer ≠ []) :
    s.sendBatchedBufferImmediately E L calls packetsBuffer =
      ({ s with
          mEncryption := (encryptBatch E calls s.mEncryption (compressBatch L s.mCompressionType
            s.mCompressionThreshold packetsBuffer)).1 },
        some (MINECRAFT_BATCH_PACKET_ID :: finalBuffer)) := by
  have hattached : ¬ (s.mConnected = false ∨ s.mPeer = false) := by
    simp [h.connected, h.peer]
  simp only [sendBatchedBufferImmediately, if_neg hattached, hok, if_neg hne]

/-- A batch that is not encrypted, or that is empty, is dropped. -/
theorem sendBatched_none (h : s.Attached) {packetsBuffer : Bytes}
    (hdrop : ∀ finalBuffer, (encryptBatch E calls s.mEncryption (compressBatch L
      s.mCompressionType s.mCompressionThreshold packetsBuffer)).2 = .ok finalBuffer →
        finalBuffer = []) :
    s.sendBatchedBufferImmediately E L calls packetsBuffer =
      ({ s with
          mEncryption := (encryptBatch E calls s.mEncryption (compressBatch L s.mCompressionType
            s.mCompressionThreshold packetsBuffer)).1 }, none) := by
  have hattached : ¬ (s.mConnected = false ∨ s.mPeer = false) := by
    simp [h.connected, h.peer]
  cases hencrypt : (encryptBatch E calls s.mEncryption (compressBatch L s.mCompressionType
      s.mCompressionThreshold packetsBuffer)).2 with
  | error e => simp only [sendBatchedBufferImmediately, if_neg hattached, hencrypt]
  | ok finalBuffer =>
    simp only [sendBatchedBufferImmediately, if_neg hattached, hencrypt,
      if_pos (hdrop finalBuffer hencrypt)]

/-- Sending leaves the queue alone. -/
theorem sendBatched_queue (s : Sender) (packetsBuffer : Bytes) :
    (s.sendBatchedBufferImmediately E L calls packetsBuffer).1.mOutboundPackets
      = s.mOutboundPackets := by
  unfold sendBatchedBufferImmediately
  split
  · rfl
  · dsimp only
    split
    · rfl
    · split <;> rfl

/-- The queue of an attached session is taken as a whole. -/
theorem dequeue_cases (h : s.Attached) :
    s.mOutboundPackets = [] ∧ s.dequeueOutboundPackets = (s, none) ∨
      s.mOutboundPackets ≠ [] ∧
        s.dequeueOutboundPackets =
          ({ s with mOutboundPackets := [] }, some s.mOutboundPackets) := by
  by_cases hempty : s.mOutboundPackets = []
  · exact Or.inl ⟨hempty, by simp [dequeueOutboundPackets, hempty]⟩
  · exact Or.inr ⟨hempty, by simp [dequeueOutboundPackets, hempty, h.connected, h.peer]⟩

end Sender
end Session
end SculkProtocol
