import SculkProtocol.Session.SendPath

/-!
# Flushes that fail

`flush` and `flushIfDue` take the queue before they make a batch of it, and no method of a
session puts packets back. So a flush that returns false has either found nothing to take,
or it has taken every packet and the batch was not encrypted or not accepted by `Send`
(`flush_failed`): the packets are lost then (`flush_loses_packets`).

`Send` answers with a receipt number, which is 0 if it fails.
-/

namespace SculkProtocol
namespace Session
namespace Sender

variable {E : Evp} {L : Codecs} {calls : EvpCalls} {s : Sender} {send : Bytes → UInt32} {now : ℤ}

/-- What a method returns: the receipt number of its message as a `bool`. -/
def returns (send : Bytes → UInt32) (r : Sender × Option Bytes) : Bool :=
  match r.2 with
  | some framed => send framed ≠ 0
  | none => false

/-- What is encrypted is not shorter for it. -/
theorem encrypt_length {m : CryptoManager} {input out : Bytes}
    (h : (m.encrypt E calls input).2 = .ok out) :
    input.length ≤ out.length := by
  -- EVP has to return as many bytes as it was given
  have hcheck : ∀ {size : ℕ} {r : CipherCtx × Option Bytes},
      (CryptoManager.checkOutput size r).2 = .ok out → out.length = size := by
    intro size r h
    unfold CryptoManager.checkOutput at h
    split at h
    · exact absurd h nofun
    · split at h
      · next hsize =>
        rw [← Except.ok.inj h]
        exact hsize
      · exact absurd h nofun
  unfold CryptoManager.encrypt at h
  split at h
  · next hnil =>
    rw [hnil]
    exact Nat.zero_le _
  · simp only at h
    split at h
    · exact absurd h nofun
    · unfold CryptoManager.ctrCrypt at h
      simp only at h
      split at h
      · next hnil =>
        rw [List.append_eq_nil_iff.mp hnil |>.1]
        exact Nat.zero_le _
      · split at h
        · exact absurd h nofun
        · rw [hcheck h, List.length_append]
          exact Nat.le_add_right _ _

/-- The batch of some packets, as it is encrypted. -/
def batch (L : Codecs) (s : Sender) (packets : List Bytes) : Bytes :=
  compressBatch L s.mCompressionType s.mCompressionThreshold (writePackets packets)

/-- Something is encrypted as something. -/
theorem encryptBatch_ne_nil {packetsBuffer finalBuffer : Bytes} (hne : packetsBuffer ≠ [])
    (h : (encryptBatch E calls s.mEncryption packetsBuffer).2 = .ok finalBuffer) :
    finalBuffer ≠ [] := by
  unfold encryptBatch at h
  split at h
  · have hlength := encrypt_length h
    intro hnil
    rw [hnil] at hlength
    exact hne (List.length_eq_zero_iff.mp (Nat.le_zero.mp hlength))
  · rw [← Except.ok.inj h]
    exact hne

/-- Why a batch that was taken is not delivered: its encryption failed and there is no
message, or `Send` refused the message. -/
inductive Undelivered (E : Evp) (L : Codecs) (calls : EvpCalls) (s : Sender)
    (send : Bytes → UInt32) :
    Option Bytes → Prop
  | notEncrypted {e : String} :
      (encryptBatch E calls s.mEncryption (batch L s s.mOutboundPackets)).2 = .error e →
      Undelivered E L calls s send none
  | refused {finalBuffer : Bytes} :
      (encryptBatch E calls s.mEncryption (batch L s s.mOutboundPackets)).2 = .ok finalBuffer →
      send (MINECRAFT_BATCH_PACKET_ID :: finalBuffer) = 0 →
      Undelivered E L calls s send (some (MINECRAFT_BATCH_PACKET_ID :: finalBuffer))

/-- What a failed flush that is due leaves. -/
inductive Failed (E : Evp) (L : Codecs) (calls : EvpCalls) (s : Sender) (send : Bytes → UInt32) :
    Sender × Option Bytes → Prop
  | nothing {s' : Sender} : s.mOutboundPackets = [] → s'.mOutboundPackets = s.mOutboundPackets →
      Failed E L calls s send (s', none)
  | lost {s' : Sender} {framed : Option Bytes} : s.mOutboundPackets ≠ [] →
      s'.mOutboundPackets = [] →
      Undelivered E L calls s send framed → Failed E L calls s send (s', framed)

/-- The rest of a flush, after the part under the mutex. -/
theorem sendDrained_failed (hs : s.Attached) (due : ℤ)
    (hfalse : returns send
      (sendDrained E L calls ({ s with mNextFlushAt := due } : Sender).dequeueOutboundPackets) =
        false) :
    Failed E L calls s send
      (sendDrained E L calls ({ s with mNextFlushAt := due } : Sender).dequeueOutboundPackets) := by
  have hdue : ({ s with mNextFlushAt := due } : Sender).Attached := ⟨hs.connected, hs.peer⟩
  rcases dequeue_cases hdue with ⟨hempty, hidle⟩ | ⟨hne, htake⟩
  · -- nothing was queued
    rw [hidle]
    exact .nothing hempty rfl
  · -- the packets have left the queue, and come back by neither failure
    rw [htake] at hfalse ⊢
    have htaken : ({ s with mNextFlushAt := due, mOutboundPackets := [] } : Sender).Attached :=
      ⟨hs.connected, hs.peer⟩
    have hbatch : batch L s s.mOutboundPackets ≠ [] :=
      compressBatch_ne_nil (writePackets_ne_nil hne)
    simp only [sendDrained] at hfalse ⊢
    cases hencrypt : (encryptBatch E calls s.mEncryption (batch L s s.mOutboundPackets)).2 with
    | error e =>
      rw [sendBatched_none htaken fun finalBuffer hok => absurd (hencrypt.symm.trans hok) nofun]
      exact .lost hne rfl (.notEncrypted hencrypt)
    | ok finalBuffer =>
      have hsend := sendBatched_ok htaken (L := L) hencrypt (encryptBatch_ne_nil hbatch hencrypt)
      rw [hsend] at hfalse ⊢
      refine .lost hne rfl (.refused hencrypt ?_)
      simpa [returns] using hfalse

/-- **A flush that fails.** If `flush` or `flushIfDue` returns false on an attached session,
the queue is as it was, because the session was not due or the queue was empty, or every
packet was taken and the batch of them was not encrypted or not accepted by `Send`. -/
theorem flush_failed (E : Evp) (L : Codecs) (calls : EvpCalls) (send : Bytes → UInt32) (now : ℤ)
    (hs : s.Attached) :
    (returns send (s.flush E L calls now) = false →
      Failed E L calls s send (s.flush E L calls now)) ∧
      (returns send (s.flushIfDue E L calls now) = false →
        (now < s.mNextFlushAt ∧ s.flushIfDue E L calls now = (s, none)) ∨
          s.mNextFlushAt ≤ now ∧ Failed E L calls s send (s.flushIfDue E L calls now)) := by
  refine ⟨sendDrained_failed hs _, fun hfalse => ?_⟩
  unfold flushIfDue drainFlushIfDue at hfalse ⊢
  split at hfalse
  · next hearly =>
    rw [if_pos hearly]
    exact .inl ⟨hearly, rfl⟩
  · next hlate =>
    rw [if_neg hlate]
    exact .inr ⟨Int.not_lt.mp hlate, sendDrained_failed hs _ hfalse⟩

/-! ### A packet that is lost -/

/-- A session with one packet. -/
def onePacket : Sender := { Sender.create 0 with mOutboundPackets := [[1, 2, 3]] }

/-- The session does not encrypt, so these are not called. -/
def noEvp : Evp := ⟨fun _ _ _ => 0, some⟩

/-- One packet, whose message is refused by `Send`. -/
theorem flush_failed_onePacket :
    Failed noEvp literalCodecs .succeed onePacket (fun _ => 0)
      (onePacket.flush noEvp literalCodecs .succeed 5) :=
  (flush_failed noEvp literalCodecs .succeed (fun _ => 0) 5 (s := onePacket) ⟨rfl, rfl⟩).1 rfl

/-- `Send` refuses the message: `flush` returns false, and the packet is gone. -/
theorem flush_loses_packets :
    onePacket.Attached ∧
      returns (fun _ => 0) (onePacket.flush noEvp literalCodecs .succeed 5) = false ∧
      (onePacket.flush noEvp literalCodecs .succeed 5).1.Attached ∧
      (onePacket.flush noEvp literalCodecs .succeed 5).1.mOutboundPackets ≠
        onePacket.mOutboundPackets :=
  ⟨⟨rfl, rfl⟩, rfl, ⟨rfl, rfl⟩, nofun⟩

end Sender
end Session
end SculkProtocol
