import SculkProtocol.Session.SendPath

/-!
# Calls one at a time

A session whose methods are called one after the other, and a peer that decodes every
message under the settings in force when it was sent: it changes its own settings when the
session does, with a fresh `CryptoManager` for each key.

The history (`Exchange`) keeps what was accepted and what was decoded, each with the
settings in force (`Settings`), which count the changes made so far. `consistent_step` is
the step lemma: the packets decoded from the batches of the queue, followed by those still
queued, are the accepted ones, with the same settings. `sequence_delivers` is the run.
-/

namespace SculkProtocol
namespace Session

/-- The calls of a sequence; a flush reads the clock. -/
inductive Call
  | sendPacket (buffer : Bytes)
  | sendPacketImmediately (buffer : Bytes)
  | flush (now : ℤ)
  | flushIfDue (now : ℤ)
  | setCompressed (type : CompressionAlgorithm) (threshold : Int32)
  | setEncrypted (key : Bytes)

/-- The session after a call, and the message it sent. -/
def Sender.exec (E : Evp) (L : Codecs) (calls : EvpCalls) (s : Sender) :
    Call → Sender × Option Bytes
  | .sendPacket buffer => ((s.sendPacket buffer).1, none)
  | .sendPacketImmediately buffer => s.sendPacketImmediately E L calls buffer
  | .flush now => s.flush E L calls now
  | .flushIfDue now => s.flushIfDue E L calls now
  | .setCompressed type threshold => s.setCompressed E L calls type threshold
  | .setEncrypted key => s.setEncrypted E L calls key

/-- The settings in force, and how often they were set before. -/
structure Settings where
  changes : ℕ
  mCompressionType : Option CompressionAlgorithm
  mCompressionThreshold : Int32
  mKeyBytes : Option Bytes

/-- A batch the peer has decoded. -/
structure Batch where
  /-- it was sent by `sendPacketImmediately` -/
  immediate : Bool
  /-- the settings in force when it was sent -/
  settings : Settings
  packets : Except String (List Bytes)

/-- The packets of a batch, with the settings. -/
def Batch.contents (b : Batch) : List (Settings × Bytes) :=
  match b.packets with
  | .ok packets => packets.map fun p => (b.settings, p)
  | .error _ => []

/-- A session and its peer, with the history. -/
structure Exchange where
  sender : Sender
  peer : Inbound
  changes : ℕ
  /-- the packets `sendPacket` accepted, with the settings in force then -/
  accepted : List (Settings × Bytes)
  /-- the packets of `sendPacketImmediately` -/
  immediate : List (Settings × Bytes)
  batches : List Batch

namespace Exchange

variable (E : Evp) (L : Codecs)

/-- A session that was created at the time `now`. -/
def start (now : ℤ) : Exchange := ⟨.create now, ⟨none, none⟩, 0, [], [], []⟩

def settings (x : Exchange) : Settings where
  changes := x.changes
  mCompressionType := x.sender.mCompressionType
  mCompressionThreshold := x.sender.mCompressionThreshold
  mKeyBytes := x.sender.mEncryption.map CryptoManager.mKeyBytes

/-- The peer decodes a message, behind its identifier. -/
def receive (x : Exchange) (immediate : Bool) : Option Bytes → Exchange
  | none => x
  | some message =>
    let decoded := deserializeBatchPackets E (compression.decompressors L) .succeed x.peer
      (message.drop 1)
    { x with
      peer := decoded.1
      batches := x.batches ++ [⟨immediate, x.settings, decoded.2⟩] }

/-- One call. -/
def step (x : Exchange) (calls : EvpCalls) (call : Call) : Exchange :=
  let r := x.sender.exec E L calls call
  match call with
  | .sendPacket buffer =>
    { x with
      sender := r.1
      accepted := if (x.sender.sendPacket buffer).2 then x.accepted ++ [(x.settings, buffer)]
        else x.accepted }
  | .sendPacketImmediately buffer =>
    { x.receive E L true r.2 with
      sender := r.1
      immediate := x.immediate ++ [(x.settings, buffer)] }
  | .flush _ | .flushIfDue _ => { x.receive E L false r.2 with sender := r.1 }
  | .setCompressed type _ =>
    let received := x.receive E L false r.2
    { received with
      sender := r.1
      peer := { received.peer with mCompressionType := some type }
      changes := x.changes + 1 }
  | .setEncrypted key =>
    let received := x.receive E L false r.2
    { received with
      sender := r.1
      peer := { received.peer with mEncryption := some (.create key) }
      changes := x.changes + 1 }

/-- A sequence of calls. -/
def run (x : Exchange) (calls : List (EvpCalls × Call)) : Exchange :=
  calls.foldl (fun x c => x.step E L c.1 c.2) x

end Exchange

/-! ### What a call takes from the queue -/

/-- The part of a call under the mutex, and the packets it goes on to send. -/
def Call.drain (s : Sender) : Call → Sender × Option (List Bytes)
  | .sendPacket buffer => ((s.sendPacket buffer).1, none)
  | .sendPacketImmediately buffer => (s, some [buffer])
  | .flush now => s.drainFlush now
  | .flushIfDue now => s.drainFlushIfDue now
  | .setCompressed _ _ | .setEncrypted _ => s.dequeueOutboundPackets

/-- The settings a call leaves. -/
def Call.settle (s : Sender) : Call → Sender
  | .setCompressed type threshold =>
    { s with mCompressionType := some type, mCompressionThreshold := threshold }
  | .setEncrypted key => { s with mEncryption := some (.create key) }
  | _ => s

section

variable {E : Evp} {L : Codecs} {calls : EvpCalls} {s : Sender}

/-- Every call takes packets, sends them and settles. -/
theorem Sender.exec_eq (call : Call) : s.exec E L calls call =
    (call.settle (Sender.sendDrained E L calls (call.drain s)).1,
      (Sender.sendDrained E L calls (call.drain s)).2) := by
  cases call with
  | sendPacketImmediately buffer =>
    simp only [exec, sendPacketImmediately, Call.drain, Call.settle, sendDrained,
      writePackets_cons, writePackets_nil, List.append_nil]
  | _ => rfl

/-- **What is taken.** `sendPacket` puts a packet into the queue, `sendPacketImmediately`
leaves the queue alone, and every other call takes nothing or the whole queue; one that
changes the settings leaves nothing behind. -/
theorem Call.drain_cases (h : s.Attached) (call : Call) :
    (∃ buffer, call = .sendPacket buffer ∧
      call.drain s = ({ s with mOutboundPackets := s.mOutboundPackets ++ [buffer] }, none)) ∨
    (∃ buffer, call = .sendPacketImmediately buffer ∧ call.drain s = (s, some [buffer])) ∨
    ((∀ buffer, call ≠ .sendPacket buffer ∧ call ≠ .sendPacketImmediately buffer) ∧ ∃ due,
      (call.drain s = ({ s with mNextFlushAt := due }, none) ∧
        (s.mOutboundPackets = [] ∨ ∃ now, call = .flushIfDue now)) ∨
      (s.mOutboundPackets ≠ [] ∧ call.drain s =
        ({ s with mOutboundPackets := [], mNextFlushAt := due }, some s.mOutboundPackets))) := by
  -- the whole queue, if there is something in it
  have hdrain : ∀ due, (s.mOutboundPackets = [] ∧
      ({ s with mNextFlushAt := due } : Sender).dequeueOutboundPackets
        = ({ s with mNextFlushAt := due }, none)) ∨
      (s.mOutboundPackets ≠ [] ∧ ({ s with mNextFlushAt := due } : Sender).dequeueOutboundPackets
        = ({ s with mOutboundPackets := [], mNextFlushAt := due }, some s.mOutboundPackets)) :=
    fun due => Sender.dequeue_cases (s := { s with mNextFlushAt := due }) ⟨h.connected, h.peer⟩
  cases call with
  | sendPacket buffer =>
    exact Or.inl ⟨buffer, rfl, by simp [Call.drain, Sender.sendPacket, h.connected]⟩
  | sendPacketImmediately buffer => exact Or.inr (Or.inl ⟨buffer, rfl, rfl⟩)
  | flush now =>
    refine Or.inr (Or.inr ⟨by simp, now + FLUSH_INTERVAL, ?_⟩)
    exact (hdrain _).imp (fun h => ⟨h.2, Or.inl h.1⟩) fun h => h
  | flushIfDue now =>
    refine Or.inr (Or.inr ⟨by simp, ?_⟩)
    -- a call that comes too early takes nothing
    by_cases hdue : now < s.mNextFlushAt
    · exact ⟨s.mNextFlushAt, Or.inl ⟨by simp [Call.drain, Sender.drainFlushIfDue, hdue],
        Or.inr ⟨now, rfl⟩⟩⟩
    · refine ⟨now + FLUSH_INTERVAL, ?_⟩
      simp only [Call.drain, Sender.drainFlushIfDue, if_neg hdue]
      exact (hdrain _).imp (fun h => ⟨h.2, Or.inl h.1⟩) fun h => h
  | setCompressed type threshold =>
    exact Or.inr
      (Or.inr ⟨by simp, s.mNextFlushAt, (hdrain _).imp (fun h => ⟨h.2, Or.inl h.1⟩) fun h => h⟩)
  | setEncrypted key =>
    exact Or.inr
      (Or.inr ⟨by simp, s.mNextFlushAt, (hdrain _).imp (fun h => ⟨h.2, Or.inl h.1⟩) fun h => h⟩)

/-! ### A batch that is sent -/

/-- The two sides can exchange batches: they are matched, or both have a fresh manager of
one key, which may be of a size that no cipher takes. -/
def Ready (s r : Option CryptoManager) : Prop :=
  Matched s r ∨ ∃ key, s = some (.create key) ∧ r = some (.create key)

/-- A batch whose encryption succeeded is not empty, its key was usable, and it stays. -/
theorem encryptBatch_ok {s r : Option CryptoManager} (h : Ready s r) {finalBuffer batch : Bytes}
    (hne : finalBuffer ≠ []) (hok : (encryptBatch E calls s finalBuffer).2 = .ok batch) :
    Matched s r ∧ batch ≠ [] ∧ (encryptBatch E calls s finalBuffer).1.map CryptoManager.mKeyBytes
      = s.map CryptoManager.mKeyBytes := by
  have hmatched : Matched s r := by
    rcases h with h | ⟨key, rfl, rfl⟩
    · exact h
    · -- a fresh manager that encrypts has selected a cipher
      refine CryptoManager.inStep_create ?_
      by_contra hkey
      have hselect : selectAesCtrCipher key.length = none := by
        simpa [CryptoManager.KeyOk, CryptoManager.create] using hkey
      simp [encryptBatch, CryptoManager.encrypt, hne, CryptoManager.create,
        CryptoManager.openCipher, CryptoManager.initializeCipher, hselect] at hok
  refine ⟨hmatched, ?_⟩
  cases s with
  | none =>
    cases hok
    exact ⟨hne, rfl⟩
  | some m =>
    obtain ⟨r, -, hstep⟩ := hmatched.inStep
    obtain ⟨p, hp, -⟩ := hstep.position
    obtain ⟨heq, hfits⟩ := CryptoManager.encrypt_ok E hstep.keyOk hne hok
    have hready := CryptoManager.encrypt_ready E hstep.keyOk hp hne hfits
    simp only [encryptBatch, heq, hready, Except.ok.injEq] at hok ⊢
    refine ⟨fun hnil => ?_, rfl⟩
    have hlen := congrArg List.length (hok.trans hnil)
    rw [xorFrom_length, List.length_append, List.length_nil] at hlen
    exact hne (List.length_eq_zero_iff.mp (by omega))

/-- A batch with packets of at most 64 MiB is compressible. -/
theorem compressible_of_le {type : Option CompressionAlgorithm} {threshold : Int32}
    {packetsBuffer : Bytes} (hne : packetsBuffer ≠ [])
    (hsize : packetsBuffer.length ≤ compression.MAX_DECOMPRESSED_SIZE) :
    Compressible type threshold packetsBuffer := by
  unfold Compressible
  split
  · exact hsize
  · exact ⟨hne, hsize⟩
  · exact trivial

/-- A call within the limits: packets under `2 ^ 32` bytes, a batch of at most 64 MiB, and no
encryption fails. -/
structure Call.Within (E : Evp) (L : Codecs) (calls : EvpCalls) (s : Sender) (call : Call) :
    Prop where
  short : ∀ buffer, call = .sendPacket buffer ∨ call = .sendPacketImmediately buffer →
    buffer.length < 2 ^ 32
  size : ∀ packets, (call.drain s).2 = some packets →
    (writePackets packets).length ≤ compression.MAX_DECOMPRESSED_SIZE
  encrypts : ∀ packets, (call.drain s).2 = some packets → ∃ batch,
    (encryptBatch E calls s.mEncryption (compressBatch L s.mCompressionType
      s.mCompressionThreshold (writePackets packets))).2 = .ok batch

/-- A call that takes nothing. -/
theorem Call.Within.of_none {call : Call} (hdrain : (call.drain s).2 = none)
    (hshort : ∀ buffer, call = .sendPacket buffer ∨ call = .sendPacketImmediately buffer →
      buffer.length < 2 ^ 32) : call.Within E L calls s :=
  ⟨hshort, fun _ h => absurd (hdrain.symm.trans h) (by simp),
    fun _ h => absurd (hdrain.symm.trans h) (by simp)⟩

/-- A call that sends the packets it takes. -/
theorem Call.Within.of_some {call : Call} {packets : List Bytes}
    (hdrain : (call.drain s).2 = some packets)
    (hsize : (writePackets packets).length ≤ compression.MAX_DECOMPRESSED_SIZE)
    (hencrypts : ∃ batch, (encryptBatch E calls s.mEncryption (compressBatch L s.mCompressionType
      s.mCompressionThreshold (writePackets packets))).2 = .ok batch)
    (hshort : ∀ buffer, call = .sendPacket buffer ∨ call = .sendPacketImmediately buffer →
      buffer.length < 2 ^ 32) : call.Within E L calls s := by
  refine ⟨hshort, fun packets' h => ?_, fun packets' h => ?_⟩ <;>
    cases Option.some.inj (hdrain.symm.trans h)
  · exact hsize
  · exact hencrypts

namespace Exchange

/-- **The history is consistent**: the peer has the session's settings, every batch was
decoded, to the packets of `sendPacketImmediately` and, with those still queued, to the
accepted ones. -/
structure Consistent (x : Exchange) : Prop where
  attached : x.sender.Attached
  type : x.peer.mCompressionType = x.sender.mCompressionType
  ready : Ready x.sender.mEncryption x.peer.mEncryption
  short : ∀ p ∈ x.sender.mOutboundPackets, p.length < 2 ^ 32
  decoded : ∀ b ∈ x.batches, ∃ packets, b.packets = .ok packets
  immediate : (x.batches.filter fun b => b.immediate).flatMap Batch.contents = x.immediate
  queued : (x.batches.filter fun b => !b.immediate).flatMap Batch.contents ++
    x.sender.mOutboundPackets.map (fun p => (x.settings, p)) = x.accepted

/-- **A batch arrives.** Packets that are sent are decoded, with the settings in force. -/
theorem receive_batch (hL : L.Lawful) {x : Exchange} (hx : x.Consistent) {s : Sender}
    (hs : s.Attached) (houtbound : s.toOutbound = x.sender.toOutbound) {packets : List Bytes}
    (hne : packets ≠ []) (hshort : ∀ p ∈ packets, p.length < 2 ^ 32)
    (hsize : (writePackets packets).length ≤ compression.MAX_DECOMPRESSED_SIZE)
    (hencrypts : ∃ batch, (encryptBatch E calls x.sender.mEncryption
      (compressBatch L x.sender.mCompressionType x.sender.mCompressionThreshold
        (writePackets packets))).2 = .ok batch) (immediate : Bool) :
    ∃ enc message peer, s.sendBatchedBufferImmediately E L calls (writePackets packets)
        = ({ s with mEncryption := enc }, some message) ∧
      x.receive E L immediate (some message) =
        { x with peer := peer, batches := x.batches ++ [⟨immediate, x.settings, .ok packets⟩] } ∧
      Matched enc peer.mEncryption ∧ peer.mCompressionType = x.sender.mCompressionType ∧
      enc.map CryptoManager.mKeyBytes = x.sender.mEncryption.map CryptoManager.mKeyBytes := by
  obtain ⟨batch, hok⟩ := hencrypts
  have hbuffer := writePackets_ne_nil hne
  have henc : x.sender.mEncryption = s.mEncryption := congrArg Outbound.mEncryption houtbound.symm
  have htype : x.sender.mCompressionType = s.mCompressionType :=
    congrArg Outbound.mCompressionType houtbound.symm
  have hthreshold : x.sender.mCompressionThreshold = s.mCompressionThreshold :=
    congrArg Outbound.mCompressionThreshold houtbound.symm
  have hready := hx.ready
  have hpeer : x.peer = ⟨x.peer.mEncryption, s.mCompressionType⟩ := by rw [← htype, ← hx.type]
  rw [henc, htype, hthreshold] at hok
  rw [henc] at hready
  obtain ⟨hmatched, hbatch, hkey⟩ :=
    encryptBatch_ok hready (Sender.compressBatch_ne_nil hbuffer) hok
  -- the receiver is in step, and has the sender's settings
  have hdecoded : (deserializeBatchPackets E (compression.decompressors L) .succeed
      ⟨x.peer.mEncryption, s.mCompressionType⟩ batch).2 = _ ∧ _ :=
        deserialize_encrypted hmatched hok
  rw [(readPayload_iff hL hshort).mpr (compressible_of_le hbuffer hsize)] at hdecoded
  obtain ⟨hread, hstep, hdecompress⟩ := hdecoded
  refine ⟨_, _, _, Sender.sendBatched_ok hs hok hbatch, ?_, hstep, hdecompress.trans htype.symm,
    hkey.trans (by rw [henc])⟩
  simp only [receive, List.drop_succ_cons, List.drop_zero]
  rw [hpeer, hread]

/-- A call without the change of settings. -/
def sent (E : Evp) (L : Codecs) (x : Exchange) (calls : EvpCalls) (call : Call) : Exchange :=
  let r := Sender.sendDrained E L calls (call.drain x.sender)
  match call with
  | .sendPacket buffer =>
    { x with
      sender := r.1
      accepted := if (x.sender.sendPacket buffer).2 then x.accepted ++ [(x.settings, buffer)]
        else x.accepted }
  | .sendPacketImmediately buffer =>
    { x.receive E L true r.2 with
      sender := r.1
      immediate := x.immediate ++ [(x.settings, buffer)] }
  | _ => { x.receive E L false r.2 with sender := r.1 }

/-- The change of settings of a call, on both sides. -/
def settle (x : Exchange) (call : Call) : Exchange :=
  match call with
  | .setCompressed type _ =>
    { x with
      sender := call.settle x.sender
      peer := { x.peer with mCompressionType := some type }
      changes := x.changes + 1 }
  | .setEncrypted key =>
    { x with
      sender := call.settle x.sender
      peer := { x.peer with mEncryption := some (.create key) }
      changes := x.changes + 1 }
  | _ => x

section

variable (x : Exchange) (immediate : Bool) (message : Option Bytes)

@[simp] theorem receive_accepted : (x.receive E L immediate message).accepted = x.accepted := by
  cases message <;> rfl

@[simp] theorem receive_immediate :
    (x.receive E L immediate message).immediate = x.immediate := by
  cases message <;> rfl

@[simp] theorem receive_changes : (x.receive E L immediate message).changes = x.changes := by
  cases message <;> rfl

end

/-- A call is what it sends, and then what it settles. -/
theorem step_eq (x : Exchange) (calls : EvpCalls) (call : Call) :
    x.step E L calls call = (x.sent E L calls call).settle call := by
  cases call <;> simp only [step, sent, settle, Sender.exec_eq, Call.settle, receive_changes]

/-- The settings stay while the compression, the key and the number of changes do. -/
theorem settings_congr {x y : Exchange} (hchanges : y.changes = x.changes)
    (houtbound : y.sender.toOutbound =
      { x.sender.toOutbound with mEncryption := y.sender.mEncryption })
    (hkey : y.sender.mEncryption.map CryptoManager.mKeyBytes =
      x.sender.mEncryption.map CryptoManager.mKeyBytes) : y.settings = x.settings := by
  have htype := congrArg Outbound.mCompressionType houtbound
  have hthreshold := congrArg Outbound.mCompressionThreshold houtbound
  dsimp only at htype hthreshold
  simp only [settings, hchanges, htype, hthreshold, hkey]

/-- A batch joins the history. -/
theorem consistent_append (hL : L.Lawful) {x : Exchange} (hx : x.Consistent) {s : Sender}
    (hs : s.Attached) (houtbound : s.toOutbound = x.sender.toOutbound) {packets : List Bytes}
    (hne : packets ≠ []) (hshort : ∀ p ∈ packets, p.length < 2 ^ 32)
    (hsize : (writePackets packets).length ≤ compression.MAX_DECOMPRESSED_SIZE)
    (hencrypts : ∃ batch, (encryptBatch E calls x.sender.mEncryption
      (compressBatch L x.sender.mCompressionType x.sender.mCompressionThreshold
        (writePackets packets))).2 = .ok batch) (immediate : Bool)
    {accepted immediates : List (Settings × Bytes)}
    (hqueue : ∀ p ∈ s.mOutboundPackets, p.length < 2 ^ 32)
    (himmediate : x.immediate ++ (if immediate then packets.map fun p => (x.settings, p) else [])
      = immediates)
    (hqueued : (x.batches.filter fun b => !b.immediate).flatMap Batch.contents ++
      (if immediate then [] else packets.map fun p => (x.settings, p)) ++
      s.mOutboundPackets.map (fun p => (x.settings, p)) = accepted) :
    Consistent { x.receive E L immediate
        (s.sendBatchedBufferImmediately E L calls (writePackets packets)).2 with
      sender := (s.sendBatchedBufferImmediately E L calls (writePackets packets)).1
      accepted := accepted
      immediate := immediates } := by
  obtain ⟨enc, message, peer, hsend, hreceive, hmatched, htype, hkey⟩ :=
    receive_batch hL hx hs houtbound hne hshort hsize hencrypts immediate
  rw [hsend, hreceive]
  have htype' : x.sender.mCompressionType = s.mCompressionType :=
    congrArg Outbound.mCompressionType houtbound.symm
  -- the settings in force are those of before the batch
  have hsettings : settings ⟨{ s with mEncryption := enc }, peer, x.changes, accepted, immediates,
      x.batches ++ [⟨immediate, x.settings, .ok packets⟩]⟩ = x.settings :=
    settings_congr rfl (by rw [← houtbound]) hkey
  refine ⟨⟨hs.connected, hs.peer⟩, htype.trans htype', Or.inl hmatched, hqueue,
    fun b hb => ?_, ?_, ?_⟩
  · rcases List.mem_append.mp hb with hb | hb
    · exact hx.decoded b hb
    · cases List.mem_singleton.mp hb
      exact ⟨packets, rfl⟩
  · -- an immediate batch is the last of the immediate ones
    rw [List.filter_append, List.flatMap_append, hx.immediate, ← himmediate]
    cases immediate <;> simp [Batch.contents]
  · dsimp only
    -- another one was taken from the front of what was accepted
    rw [hsettings, List.filter_append, List.flatMap_append, ← hqueued]
    cases immediate <;> simp [Batch.contents]

/-- A call within the limits keeps the history consistent, before its settings change. -/
theorem consistent_sent (hL : L.Lawful) {x : Exchange} (hx : x.Consistent) {call : Call}
    (hcall : call.Within E L calls x.sender) : (x.sent E L calls call).Consistent := by
  have hdrain := Call.drain_cases hx.attached call
  have hqueued := hx.queued
  rcases hdrain with ⟨buffer, rfl, hdrain⟩ | ⟨buffer, rfl, hdrain⟩ | ⟨hother, due, hdrain⟩
  · -- the packet is queued
    have hsend : (x.sender.sendPacket buffer).2 = true := by
      simp [Sender.sendPacket, hx.attached.connected]
    simp only [sent, hdrain, Sender.sendDrained, hsend, if_true]
    refine ⟨⟨hx.attached.connected, hx.attached.peer⟩, hx.type, hx.ready,
      fun p hp => ?_, hx.decoded, hx.immediate, ?_⟩
    · rcases List.mem_append.mp hp with hp | hp
      · exact hx.short p hp
      · exact List.mem_singleton.mp hp ▸ hcall.short buffer (Or.inl rfl)
    · rw [← hqueued, List.map_append, List.append_assoc]
      rfl
  · -- a batch of one packet
    have hsize := hcall.size
    have hencrypts := hcall.encrypts
    rw [hdrain] at hsize hencrypts
    simp only [sent, hdrain, Sender.sendDrained]
    refine consistent_append hL hx hx.attached rfl (List.cons_ne_nil _ _) (fun p hp => ?_)
      (hsize _ rfl) (hencrypts _ rfl) true hx.short rfl ?_
    · exact List.mem_singleton.mp hp ▸ hcall.short buffer (Or.inr rfl)
    · rw [if_pos rfl, List.append_nil, receive_accepted, hqueued]
  · -- the other calls send what is queued, or nothing
    have hsent : x.sent E L calls call =
        { x.receive E L false (Sender.sendDrained E L calls (call.drain x.sender)).2 with
          sender := (Sender.sendDrained E L calls (call.drain x.sender)).1 } := by
      cases call with
      | sendPacket buffer => exact absurd rfl (hother buffer).1
      | sendPacketImmediately buffer => exact absurd rfl (hother buffer).2
      | _ => rfl
    rw [hsent]
    rcases hdrain with ⟨hdrain, -⟩ | ⟨hne, hdrain⟩
    · -- nothing to send
      rw [hdrain]
      exact ⟨⟨hx.attached.connected, hx.attached.peer⟩, hx.type, hx.ready, hx.short, hx.decoded,
        hx.immediate, hqueued⟩
    · -- the whole queue
      have hsize := hcall.size
      have hencrypts := hcall.encrypts
      rw [hdrain] at hsize hencrypts
      rw [hdrain]
      refine consistent_append (s := { x.sender with mOutboundPackets := [], mNextFlushAt := due })
        hL hx ⟨hx.attached.connected, hx.attached.peer⟩ rfl hne hx.short (hsize _ rfl)
        (hencrypts _ rfl) false (fun p hp => absurd hp List.not_mem_nil) ?_ ?_
      · exact (List.append_nil _).trans (receive_immediate _ _ _).symm
      · exact (List.append_nil _).trans (hqueued.trans (receive_accepted _ _ _).symm)

/-- A change of settings leaves the history consistent when nothing is queued. -/
theorem consistent_settle {x : Exchange} (hx : x.Consistent) {call : Call}
    (hqueue : x.settle call = x ∨ x.sender.mOutboundPackets = []) :
    (x.settle call).Consistent := by
  rcases hqueue with hsame | hempty
  · rwa [hsame]
  · have hqueued := hx.queued
    rw [hempty, List.map_nil, List.append_nil] at hqueued
    -- no packet is waiting for the settings that change
    have hnone : ∀ (st : Settings) (queue : List Bytes), queue = x.sender.mOutboundPackets →
        (x.batches.filter fun b => !b.immediate).flatMap Batch.contents ++
        queue.map (fun p => (st, p))
          = x.accepted := by
      rintro st queue rfl
      rw [hempty, List.map_nil, List.append_nil, hqueued]
    cases call with
    | setCompressed type threshold =>
      exact ⟨⟨hx.attached.connected, hx.attached.peer⟩, rfl, hx.ready, hx.short, hx.decoded,
        hx.immediate, hnone _ _ rfl⟩
    | setEncrypted key =>
      exact ⟨⟨hx.attached.connected, hx.attached.peer⟩, hx.type, Or.inr ⟨key, rfl, rfl⟩, hx.short,
        hx.decoded, hx.immediate, hnone _ _ rfl⟩
    | _ => exact hx

/-- Whoever changes the settings has sent the queue. -/
theorem sent_queue {x : Exchange} (hx : x.Consistent) (call : Call) :
    (x.sent E L calls call).settle call = x.sent E L calls call ∨
      (x.sent E L calls call).sender.mOutboundPackets = [] := by
  have hflush : (Sender.sendDrained E L calls x.sender.dequeueOutboundPackets).1.mOutboundPackets
      = [] := by
    rcases Sender.dequeue_cases hx.attached with ⟨hempty, hnone⟩ | ⟨-, hsome⟩
    · rw [hnone]
      exact hempty
    · rw [hsome]
      exact Sender.sendBatched_queue _ _
  cases call with
  | setCompressed type threshold => exact Or.inr hflush
  | setEncrypted key => exact Or.inr hflush
  | _ => exact Or.inl rfl

/-- **Step lemma.** A call within the limits keeps the history consistent. -/
theorem consistent_step (hL : L.Lawful) {x : Exchange} (hx : x.Consistent) {call : Call}
    (hcall : call.Within E L calls x.sender) : (x.step E L calls call).Consistent := by
  rw [step_eq]
  exact consistent_settle (consistent_sent hL hx hcall) (sent_queue hx call)

/-- A session that nobody has used is consistent. -/
theorem consistent_start (now : ℤ) : (start now).Consistent :=
  ⟨Sender.attached_create now, rfl, Or.inl trivial, fun _ hp => absurd hp List.not_mem_nil,
    fun _ hb => absurd hb List.not_mem_nil, rfl, rfl⟩

/-- Every call of the sequence is within the limits. -/
def Proceeds (E : Evp) (L : Codecs) : Exchange → List (EvpCalls × Call) → Prop
  | _, [] => True
  | x, c :: cs => c.2.Within E L c.1 x.sender ∧ Proceeds E L (x.step E L c.1 c.2) cs

/-- **Run lemma.** A sequence of calls within the limits keeps the history consistent. -/
theorem consistent_run (hL : L.Lawful) {x : Exchange} (hx : x.Consistent)
    {calls : List (EvpCalls × Call)} (hcalls : Proceeds E L x calls) :
    (x.run E L calls).Consistent := by
  induction calls generalizing x with
  | nil => exact hx
  | cons c cs ih => exact ih (consistent_step hL hx hcalls.1) hcalls.2

/-- **Delivery.** In every sequence of calls within the limits the peer decodes every batch;
it obtains each packet of `sendPacketImmediately` once, and the accepted packets once and
in their order up to those still queued; and a packet is in a batch that was encoded with
the settings in force when it was accepted, before any change. -/
theorem sequence_delivers (hL : L.Lawful) (now : ℤ) {calls : List (EvpCalls × Call)}
    (hcalls : Proceeds E L (start now) calls) :
    let x := (start now).run E L calls
    (∀ b ∈ x.batches, ∃ packets, b.packets = .ok packets) ∧
      (x.batches.filter fun b => b.immediate).flatMap Batch.contents = x.immediate ∧
      (x.batches.filter fun b => !b.immediate).flatMap Batch.contents ++
        x.sender.mOutboundPackets.map (fun p => (x.settings, p)) = x.accepted := by
  have hrun := consistent_run hL (consistent_start now) hcalls
  exact ⟨hrun.decoded, hrun.immediate, hrun.queued⟩

/-- A packet is accepted, the compression changes, a packet is sent at once, the encryption
changes, and another packet is accepted. -/
def changingCalls : List (EvpCalls × Call) :=
  [(.succeed, .sendPacket [1]), (.succeed, .setCompressed .Snappy 0),
    (.succeed, .sendPacketImmediately [2]), (.succeed, .setEncrypted (List.replicate 16 0)),
    (.succeed, .sendPacket [3])]

/-- Calls that change the settings between batches. -/
theorem sequence_delivers_changing :
    ∃ L : Codecs, L.Lawful ∧ ∀ E, ∃ x, x = (start 0).run E L changingCalls ∧
      (∀ b ∈ x.batches, ∃ packets, b.packets = .ok packets) ∧
      (x.batches.filter fun b => b.immediate).flatMap Batch.contents = x.immediate ∧
      (x.batches.filter fun b => !b.immediate).flatMap Batch.contents ++
        x.sender.mOutboundPackets.map (fun p => (x.settings, p)) = x.accepted ∧
      x.accepted.map Prod.snd = [[1], [3]] ∧ x.immediate.map Prod.snd = [[2]] := by
  refine ⟨literalCodecs, literalCodecs_lawful, fun E => ⟨_, rfl, ?_⟩⟩
  have hcalls : Proceeds E literalCodecs (start 0) changingCalls := by
    have hshort : ∀ {b buffer : Bytes}, b.length < 2 ^ 32 → ∀ call : Call,
        call = .sendPacket b ∨ call = .sendPacketImmediately b →
        call = .sendPacket buffer ∨ call = .sendPacketImmediately buffer →
          buffer.length < 2 ^ 32 := by
      rintro b buffer hb call (rfl | rfl) (h | h) <;> cases h <;> exact hb
    exact ⟨.of_none rfl fun _ => hshort (b := [1]) (by decide) _ (Or.inl rfl),
      .of_some (show _ = some [[1]] from rfl) (by decide) ⟨_, rfl⟩ (by simp),
      .of_some (show _ = some [[2]] from rfl) (by decide) ⟨_, rfl⟩
        fun _ => hshort (b := [2]) (by decide) _ (Or.inr rfl),
      .of_none rfl (by simp),
      .of_none rfl fun _ => hshort (b := [3]) (by decide) _ (Or.inl rfl), trivial⟩
  obtain ⟨hdecoded, himmediate, hqueued⟩ := sequence_delivers (E := E) literalCodecs_lawful 0 hcalls
  exact ⟨hdecoded, himmediate, hqueued, rfl, rfl⟩

end Exchange

end

end Session
end SculkProtocol
