import SculkProtocol.Session.Senders
import SculkProtocol.Systems.HandOver

/-!
# The order of concurrent sends

Between the queue and `Send` nothing keeps the callers of a session in order. Two threads
that encrypt one after the other may send in the other order, and then the receiver refuses
the message that arrives first (`messages_overtake`); two flushes may each take a part of
the queue and send their batches in the other order (`packets_overtake`).

Both are a matter of what is in flight: a message that was made and not yet sent, or packets
that were taken and not yet sent.

* `messages_in_order` — if a message is only made while no other one is in flight, the
  messages are sent in the order in which they were made, and a receiver that was in step
  with the session decrypts each of them;
* `packets_in_order` — if a flush only takes the queue while no packets are in flight, the
  packets are sent in the order in which they were accepted.
-/

namespace SculkProtocol
namespace Session
namespace Senders

open Scripts CryptoManager

/-- If `x` makes a message, no other one is in flight. -/
def MakesAlone (x : PoolStep) : Prop :=
  ∀ t op packets, Does x t op → op.packets = some packets → inFlight Op.message x.src = []

/-- If `x` encrypts a batch, the encryption succeeds. -/
def Encrypts (E : Evp) (L : Codecs) (x : PoolStep) : Prop :=
  ∀ i ch t op packets, x.label = .thread i (.step ch) → Does x t op → op.packets = some packets →
    ∃ finalBuffer, (encode E L x.src.shared.session.toOutbound ch.calls packets).2 = .ok finalBuffer

/-- The call takes packets from the queue. -/
def Op.takes (session : Sender) : Op → Bool
  | .flush => !session.mOutboundPackets.isEmpty
  | .flushIfDue now => !session.mOutboundPackets.isEmpty && decide (session.mNextFlushAt ≤ now)
  | _ => false

/-- The packets that a flush has taken and not yet sent. -/
def Op.taken : Op → Option (List Bytes)
  | .sendBatchedBufferImmediately packets => some packets
  | .send message => some message.packets
  | _ => none

/-- If `x` takes packets from the queue, no packets are in flight. -/
def TakesAlone (x : PoolStep) : Prop :=
  ∀ t op, Does x t op → op.takes x.src.shared.session = true → inFlight Op.taken x.src = []

variable {E : Evp} {L : Codecs} {c c' : Pool} {m : Move (Event Choice Call)}

/-- A step of a thread is one of the steps. -/
theorem exec_steps (hs : c.shared.session.Attached) {t : Thread} {ch : Choice} {op : Op}
    {s' : State} {ops : List Op} {ts : List Thread}
    (h : (scripts E L).exec c.shared t.tag ch op = some (s', ops, ts)) :
    Steps E L c.shared ch op s' ops ∧ ts = [] := by
  cases h
  exact ⟨execOp_steps hs op, rfl⟩

/-- A call is entered as a new thread. -/
theorem call_entry {a : Call} {s' : State} {new : List Thread}
    (h : (scripts E L).call c.shared c.threads a = some (s', new)) :
    s' = c.shared ∧ new = [⟨(), [a.entry]⟩] := by
  cases h
  exact ⟨rfl, rfl⟩

/-! ### What stays as it was -/

/-- The call has a batch with packets, if it has one. -/
def Op.Filled (_ : Unit) (op : Op) : Prop := ∀ packets, op.packets = some packets → packets ≠ []

/-- The session `s₀` is still attached, with its compression, and no batch is empty. -/
structure Settled (s₀ : Sender) (c : Pool) : Prop where
  attached : c.shared.session.Attached
  type : c.shared.session.mCompressionType = s₀.mCompressionType
  threshold : c.shared.session.mCompressionThreshold = s₀.mCompressionThreshold
  filled : ∀ t ∈ c.threads, ∀ op ∈ t.code, Op.Filled t.tag op

/-- The form of a batch is that of the initial settings. -/
theorem Settled.plain {s₀ : Sender} (hc : Settled s₀ c) (packets : List Bytes) :
    plain L c.shared.session.toOutbound packets = plain L s₀.toOutbound packets := by
  rw [Senders.plain, Senders.plain, hc.type, hc.threshold]

/-- The initial state is settled. -/
theorem settled_initial {s₀ : Sender} (hs : s₀.Attached) : Settled s₀ (system E L s₀).init :=
  ⟨hs, rfl, rfl, fun _ ht => absurd ht List.not_mem_nil⟩

/-- A step keeps the session attached and its compression. -/
theorem Steps.session {s s' : State} {ch : Choice} {op : Op} {ops : List Op}
    (h : Steps E L s ch op s' ops) (hs : s.session.Attached) :
    s'.session.Attached ∧ s'.session.mCompressionType = s.session.mCompressionType ∧
      s'.session.mCompressionThreshold = s.session.mCompressionThreshold := by
  cases h <;> exact ⟨⟨hs.connected, hs.peer⟩, rfl, rfl⟩

/-- The batches of a step are not empty. -/
theorem Steps.filled {s s' : State} {ch : Choice} {op : Op} {ops : List Op}
    (h : Steps E L s ch op s' ops) : ∀ o ∈ ops, Op.Filled () o := by
  intro o ho packets hpackets
  cases h with
  | take hop hne =>
    cases List.mem_singleton.mp ho
    cases hpackets
    exact hne
  | make hop hmade =>
    cases List.mem_singleton.mp ho
    exact absurd hpackets (by simp [Op.packets])
  | _ => exact absurd ho List.not_mem_nil

/-- Nobody changes the settings. -/
theorem settled_step {s₀ : Sender} (hc : Settled s₀ c)
    (h : (scripts E L).program.step c m = some c') : Settled s₀ c' := by
  -- what is to be encoded has packets: a call brings one, and a flush takes some or nothing
  have hfilled : ∀ t ∈ c'.threads, ∀ op ∈ t.code, Op.Filled t.tag op := by
    refine ops_step h hc.filled (fun _ _ _ _ hop => hop) (fun t op ch ops ts _ _ hop => ?_)
      fun a new _ hnew => ?_
    · obtain ⟨hsteps, rfl⟩ := exec_steps hc.attached hop
      exact ⟨hsteps.filled, fun u hu => absurd hu List.not_mem_nil⟩
    · obtain ⟨-, rfl⟩ := call_entry hnew
      intro u hu o ho packets hpackets
      cases List.mem_singleton.mp hu
      cases List.mem_singleton.mp ho
      cases a <;> cases hpackets
      exact List.cons_ne_nil _ _
  cases step_cases h with
  | access hi hperm hcode hop =>
    obtain ⟨hattached, htype, hthreshold⟩ := (exec_steps hc.attached hop).1.session hc.attached
    exact ⟨hattached, htype.trans hc.type, hthreshold.trans hc.threshold, hfilled⟩
  | finish hi hperm hcode => exact ⟨hc.attached, hc.type, hc.threshold, hfilled⟩
  | arrive hnew =>
    cases hnew
    exact ⟨hc.attached, hc.type, hc.threshold, hfilled⟩

/-! ### Messages that are sent as they were made -/

/-- Every message that was made was sent. -/
def AllSent (s : State) : Prop := s.sent = s.encoded

/-- Every message that was made was sent, but for this one. -/
def AllSentBut (s : State) (message : Message) : Prop := s.sent ++ [message] = s.encoded

/-- An operation has packets or a message of them. -/
theorem Op.message_of_packets {op : Op} {packets : List Bytes} (h : op.packets = some packets) :
    op.message = none := by
  cases op <;> cases h <;> rfl

/-- Messages are sent in the order in which they are made, if each is made alone. -/
theorem ordered_step (hs : c.shared.session.Attached)
    (hc : AtMostOne Op.message AllSent AllSentBut c)
    (h : (scripts E L).program.step c m = some c') (hC : MakesAlone ⟨c, m, c'⟩) :
    AtMostOne Op.message AllSent AllSentBut c' := by
  refine hc.step h (fun t op ch ops ts hdoes hexec => ?_) (fun _ => id) fun a new hnew => ?_
  · obtain ⟨hsteps, rfl⟩ := exec_steps hs hexec
    refine ⟨rfl, ?_⟩
    generalize c'.shared = s' at hsteps
    cases hsteps with
    | queue hop => subst hop; exact .pass id fun _ => id
    | idle hop => rcases hop with rfl | ⟨now, rfl⟩ <;> exact .pass id fun _ => id
    | take hop hne => rcases hop with rfl | ⟨now, rfl, -⟩ <;> exact .pass id fun _ => id
    -- the message is encoded while no other is on its way
    | make hop hmade =>
      rw [Op.message_of_packets hop]
      exact .take (hC t op _ hdoes hop) fun hsent => congrArg (· ++ _) hsent
    | drop hop hempty =>
      rw [Op.message_of_packets hop]
      exact .pass id fun _ => id
    | send hop => subst hop; exact .give fun hbut => hbut
  · obtain ⟨hshared, rfl⟩ := call_entry hnew
    exact ⟨hshared, by cases a <;> rfl⟩

/-- The messages that were sent are the first that were made. -/
theorem AtMostOne.sent_first (hc : AtMostOne Op.message AllSent AllSentBut c) :
    c.shared.sent <+: c.shared.encoded := by
  cases hc with
  | none _ hsent => exact ⟨[], (List.append_nil _).trans hsent⟩
  | one _ hbut => exact ⟨_, hbut⟩

/-- The receiver `r` decrypts every message that was made, and is then in step. -/
structure Verified (E : Evp) (L : Codecs) (s₀ : Sender) (r : CryptoManager) (s : State) : Prop where
  decrypted : (decryptAll E r (s.encoded.map fun message => message.framed.tail)).2 =
    s.encoded.map fun message => .ok (plain L s₀.toOutbound message.packets)
  inStep : ∃ sender, s.session.mEncryption = some sender ∧
    InStep sender (decryptAll E r (s.encoded.map fun message => message.framed.tail)).1

/-- The plaintext of a batch with packets is not empty. -/
theorem plain_ne_nil {session : Outbound} {packets : List Bytes} (h : packets ≠ []) :
    plain L session packets ≠ [] :=
  Sender.compressBatch_ne_nil (writePackets_ne_nil h)

/-- A receiver in step with the session decrypts the message it has made. -/
theorem encode_delivered {session : Outbound} {calls : EvpCalls} {packets : List Bytes}
    {finalBuffer : Bytes} {sender r : CryptoManager} (hsender : session.mEncryption = some sender)
    (h : InStep sender r) (hok : (encode E L session calls packets).2 = .ok finalBuffer) :
    (r.decrypt E .succeed finalBuffer).2 = .ok (plain L session packets) ∧
      ∃ sender', (encode E L session calls packets).1 = some sender' ∧
        InStep sender' (r.decrypt E .succeed finalBuffer).1 := by
  unfold encode at hok ⊢
  rw [hsender] at hok ⊢
  obtain ⟨hplain, hstep⟩ := h.delivered E hok
  exact ⟨hplain, _, rfl, hstep⟩

/-- A step whose encryption succeeds keeps the receiver in step. -/
theorem Steps.verified {s₀ : Sender} {r : CryptoManager} {s s' : State} {ch : Choice} {op : Op}
    {ops : List Op} (h : Steps E L s ch op s' ops) (hc : Verified E L s₀ r s)
    (hplain : ∀ packets, plain L s.session.toOutbound packets = plain L s₀.toOutbound packets)
    (hfilled : Op.Filled () op)
    (hencrypts : ∀ packets, op.packets = some packets → ∃ finalBuffer,
      (encode E L s.session.toOutbound ch.calls packets).2 = .ok finalBuffer) :
    Verified E L s₀ r s' := by
  obtain ⟨hdecrypted, sender, hsender, hstep⟩ := hc
  cases h with
  | make hop hmade =>
    obtain ⟨hclear, sender', hsender', hstep'⟩ := encode_delivered hsender hstep hmade
    refine ⟨?_, sender', hsender', ?_⟩
    · rw [List.map_append, decryptAll_append, List.map_append, hdecrypted]
      simp only [List.map_cons, List.map_nil, List.tail_cons, decryptAll, hclear, hplain]
    · rw [List.map_append, decryptAll_append]
      exact hstep'
  | drop hop hempty =>
    -- what decrypts to a batch with packets is not empty
    obtain ⟨finalBuffer, hmade⟩ := hencrypts _ hop
    obtain ⟨hclear, -⟩ := encode_delivered hsender hstep hmade
    rw [hempty finalBuffer hmade] at hclear
    exact absurd (Except.ok.inj hclear).symm (plain_ne_nil (hfilled _ hop))
  | _ => exact ⟨hdecrypted, sender, hsender, hstep⟩

/-- What has been sent is decrypted in order, if each message is encrypted alone. -/
theorem verified_step {s₀ : Sender} {r : CryptoManager} (hs : Settled s₀ c)
    (hc : Verified E L s₀ r c.shared) (h : (scripts E L).program.step c m = some c')
    (hC : Encrypts E L ⟨c, m, c'⟩) : Verified E L s₀ r c'.shared := by
  cases step_cases h with
  | @access i ch t op rest ops s' ts others hi hperm hcode hop =>
    have hmem : op ∈ t.code := hcode ▸ List.mem_cons_self
    exact (exec_steps hs.attached hop).1.verified hc hs.plain
      (hs.filled t (List.mem_of_getElem? hi) op hmem)
      fun packets => hC i ch t op packets rfl (does_of_head hi hcode)
  | finish hi hperm hcode => exact hc
  | arrive hnew =>
    obtain ⟨rfl, -⟩ := call_entry hnew
    exact hc

variable {s₀ : Sender} {h : List PoolStep}

/-- **Messages in order.** In a run in which a message is only made while none is in flight,
the messages are sent in the order in which they were made; if the encryptions succeed, a
receiver that was in step with the session decrypts each of them as it arrives. -/
theorem messages_in_order {sender r : CryptoManager} (hs : s₀.Attached)
    (hsender : s₀.mEncryption = some sender) (hstep : InStep sender r)
    (hr : (system E L s₀).Run h c) (hC : ∀ x ∈ h, MakesAlone x) :
    c.shared.sent <+: c.shared.encoded ∧
      ((∀ x ∈ h, Encrypts E L x) →
        (decryptAll E r (c.shared.sent.map fun message => message.framed.tail)).2 =
          c.shared.sent.map fun message => .ok (plain L s₀.toOutbound message.packets)) := by
  have hordered : Settled s₀ c ∧ AtMostOne Op.message AllSent AllSentBut c :=
    hr.invariant_where (I := fun c => Settled s₀ c ∧ AtMostOne Op.message AllSent AllSentBut c)
      ⟨settled_initial hs, .none rfl rfl⟩
      (fun _ _ _ hc hst hCs => ⟨settled_step hc.1 hst, ordered_step hc.1.attached hc.2 hst hCs⟩) hC
  have hfirst := AtMostOne.sent_first hordered.2
  refine ⟨hfirst, fun hencrypts => ?_⟩
  have hverified : Settled s₀ c ∧ Verified E L s₀ r c.shared :=
    hr.invariant_where (I := fun c => Settled s₀ c ∧ Verified E L s₀ r c.shared)
      ⟨settled_initial hs, ⟨rfl, sender, hsender, hstep⟩⟩
      (fun _ _ _ hc hst hCs => ⟨settled_step hc.1 hst, verified_step hc.1 hc.2 hst hCs⟩) hencrypts
  -- the receiver has decrypted the first messages that were made
  obtain ⟨unsent, hunsent⟩ := hfirst
  have hall := hverified.2.decrypted
  rw [← hunsent, List.map_append, decryptAll_append, List.map_append] at hall
  exact List.append_inj_left hall (by simp)

/-! Two callers of an encrypted session, and an `Evp` to evaluate their runs with: the keystream is
zero, and a hash begins with the counter that is hashed. -/

def countingEvp : Evp := ⟨fun _ _ _ => 0, some⟩

def encryptedSession : Sender :=
  { Sender.create 0 with mEncryption := some (.create (List.replicate 16 0)) }

/-- `MakesAlone`, to be evaluated. -/
def makesAlone (x : PoolStep) : Bool :=
  match performed x with
  | some (_, op) => op.packets.isNone || (inFlight Op.message x.src).isEmpty
  | none => true

/-- The evaluation of the condition is right. -/
theorem makesAlone_sound {x : PoolStep} (h : makesAlone x = true) : MakesAlone x := by
  intro t op packets hdoes hop
  rw [makesAlone, show performed x = _ from hdoes] at h
  simpa [hop] using h

/-- `Encrypts`, to be evaluated. -/
def encrypts (E : Evp) (L : Codecs) (x : PoolStep) : Bool :=
  match x.label, performed x with
  | .thread _ (.step ch), some (_, op) =>
    match op.packets with
    | some packets => (encode E L x.src.shared.session.toOutbound ch.calls packets).2.isOk
    | none => true
  | _, _ => true

/-- So is that of the second condition. -/
theorem encrypts_sound {x : PoolStep} (h : encrypts E L x = true) : Encrypts E L x := by
  intro i ch t op packets hlabel hdoes hop
  rw [encrypts, hlabel, show performed x = _ from hdoes] at h
  simp only [hop] at h
  cases hmade : (encode E L x.src.shared.session.toOutbound ch.calls packets).2 with
  | ok finalBuffer => exact ⟨finalBuffer, rfl⟩
  | error e =>
    rw [hmade] at h
    exact absurd h (by simp [Except.isOk, Except.toBool])

/-- The next step of caller `i`. -/
def next (i : ℕ) : Move (Event Choice Call) := .thread i (.step {})

/-- Two callers, the second of which encrypts when the first has sent. -/
theorem messages_in_order_two :
    ∃ h c, (system countingEvp literalCodecs encryptedSession).Run h c ∧
      c.shared.sent.map Message.packets = [[[1]], [[2]]] ∧ c.shared.sent <+: c.shared.encoded ∧
      (decryptAll countingEvp (.create (List.replicate 16 0))
          (c.shared.sent.map fun message => message.framed.tail)).2 =
        c.shared.sent.map fun message =>
          .ok (plain literalCodecs encryptedSession.toOutbound message.packets) := by
  obtain ⟨h, c, hr, hp⟩ := (system countingEvp literalCodecs encryptedSession).exists_run_of_follow
    (p := fun h c => decide (c.shared.sent.map Message.packets = [[[1]], [[2]]] ∧
      ∀ x ∈ h, (makesAlone x && encrypts countingEvp literalCodecs x) = true))
    [.env (.call (.sendPacketImmediately [1])), .env (.call (.sendPacketImmediately [2])),
      next 0, next 1, next 0, next 1] (by decide)
  obtain ⟨hsent, hall⟩ := of_decide_eq_true hp
  have hstep : InStep (.create (List.replicate 16 0)) (.create (List.replicate 16 0)) :=
    inStep_create (keyOk_create (Or.inl rfl))
  obtain ⟨hfirst, hdecrypted⟩ := messages_in_order ⟨rfl, rfl⟩ rfl hstep hr
    fun x hx => makesAlone_sound (Bool.and_eq_true_iff.mp (hall x hx)).1
  exact ⟨h, c, hr, hsent, hfirst,
    hdecrypted fun x hx => encrypts_sound (Bool.and_eq_true_iff.mp (hall x hx)).2⟩

/-- Two callers encrypt one after the other, and the second one sends first: a receiver
refuses what arrives first. -/
theorem messages_overtake :
    ∃ E L h c, (system E L encryptedSession).Run h c ∧ ¬ c.shared.sent <+: c.shared.encoded ∧
      (decryptAll E (.create (List.replicate 16 0))
        (c.shared.sent.map fun message => message.framed.tail)).2.head?
          = some (.error "Failed to verify decrypted data") := by
  obtain ⟨h, c, hr, hp⟩ := (system countingEvp literalCodecs encryptedSession).exists_run_of_follow
    (p := fun _ c => decide (¬ c.shared.sent <+: c.shared.encoded ∧
      (decryptAll countingEvp (.create (List.replicate 16 0))
        (c.shared.sent.map fun message => message.framed.tail)).2.head?
          = some (.error "Failed to verify decrypted data")))
    [.env (.call (.sendPacketImmediately [1])), .env (.call (.sendPacketImmediately [2])),
      next 0, next 0, next 1, next 0] (by decide)
  exact ⟨_, _, h, c, hr, of_decide_eq_true hp⟩

/-! ### Packets that are sent as they were accepted -/

/-- The accepted packets are those sent and those queued. -/
def Queued (s : State) : Prop :=
  s.sent.flatMap Message.packets ++ s.session.mOutboundPackets = s.accepted

/-- The accepted packets are those sent, those taken and those queued. -/
def QueuedBut (s : State) (taken : List Bytes) : Prop :=
  s.sent.flatMap Message.packets ++ taken ++ s.session.mOutboundPackets = s.accepted

/-- The message holds its packets, with the compression of `s₀`. -/
def Framed (L : Codecs) (s₀ : Sender) (message : Message) : Prop :=
  message.framed = MINECRAFT_BATCH_PACKET_ID :: plain L s₀.toOutbound message.packets

/-- The call is not one of `sendPacketImmediately`, and its message holds its packets. -/
def Op.Flushes (L : Codecs) (s₀ : Sender) (_ : Unit) (op : Op) : Prop :=
  (∀ buffer, op ≠ .sendPacketImmediately buffer) ∧
    ∀ message, op = .send message → Framed L s₀ message

/-- The session is not encrypted, and its packets are sent by flushes. -/
structure Unencrypted (L : Codecs) (s₀ : Sender) (c : Pool) : Prop extends Settled s₀ c where
  encryption : c.shared.session.mEncryption = none
  flushes : ∀ t ∈ c.threads, ∀ op ∈ t.code, Op.Flushes L s₀ t.tag op
  framed : ∀ message ∈ c.shared.sent, Framed L s₀ message

/-- A session that is not encrypted sends what it is given. -/
theorem encode_none {session : Outbound} (h : session.mEncryption = none) (calls : EvpCalls)
    (packets : List Bytes) :
    encode E L session calls packets = (none, .ok (plain L session packets)) := by
  rw [encode, h]
  rfl

/-- What a step does to a session that is not encrypted. -/
theorem Steps.unencrypted {s s' : State} {ch : Choice} {op : Op} {ops : List Op}
    (h : Steps E L s ch op s' ops) (hnone : s.session.mEncryption = none)
    (hplain : ∀ packets, plain L s.session.toOutbound packets = plain L s₀.toOutbound packets)
    (hop : Op.Flushes L s₀ () op) :
    s'.session.mEncryption = none ∧ (∀ o ∈ ops, Op.Flushes L s₀ () o) ∧
      ∀ message ∈ s'.sent, message ∈ s.sent ∨ Framed L s₀ message := by
  cases h with
  | take hop' hne =>
    refine ⟨hnone, fun o ho => ?_, fun message => Or.inl⟩
    cases List.mem_singleton.mp ho
    exact ⟨fun _ => by simp, fun _ hsend => absurd hsend (by simp)⟩
  -- without encryption what is made is the plain batch
  | make hop' hmade =>
    rw [encode_none hnone] at hmade ⊢
    refine ⟨rfl, fun o ho => ?_, fun message => Or.inl⟩
    cases List.mem_singleton.mp ho
    refine ⟨fun _ => by simp, fun message hsend => ?_⟩
    cases hsend
    rw [Framed, ← hplain, Except.ok.inj hmade]
  | drop hop' hempty =>
    rw [encode_none hnone]
    exact ⟨rfl, fun o ho => absurd ho List.not_mem_nil, fun message => Or.inl⟩
  -- what is sent is what the thread has made
  | send hop' =>
    refine ⟨hnone, fun o ho => absurd ho List.not_mem_nil, fun message hmem => ?_⟩
    rcases List.mem_append.mp hmem with hmem | hmem
    · exact Or.inl hmem
    · exact Or.inr (hop.2 message (hop'.trans (congrArg Op.send (List.mem_singleton.mp hmem).symm)))
  | _ => exact ⟨hnone, fun o ho => absurd ho List.not_mem_nil, fun message => Or.inl⟩

/-- Nobody calls `sendPacketImmediately` in `x`. -/
def NotImmediate (x : PoolStep) : Prop :=
  ∀ buffer, x.label ≠ .env (.call (.sendPacketImmediately buffer))

/-- Without encryption and immediate packets, batches are sent as they are made. -/
theorem unencrypted_step (hc : Unencrypted L s₀ c)
    (h : (scripts E L).program.step c m = some c') (hC : NotImmediate ⟨c, m, c'⟩) :
    Unencrypted L s₀ c' := by
  have hflushes : ∀ t ∈ c'.threads, ∀ op ∈ t.code, Op.Flushes L s₀ t.tag op := by
    refine ops_step h hc.flushes (fun _ _ _ _ hop => hop) (fun t op ch ops ts _ hop hexec => ?_)
      fun a new ha hnew => ?_
    · obtain ⟨hsteps, rfl⟩ := exec_steps hc.attached hexec
      obtain ⟨-, hops, -⟩ := hsteps.unencrypted hc.encryption hc.plain hop
      exact ⟨hops, fun u hu => absurd hu List.not_mem_nil⟩
    · obtain ⟨-, rfl⟩ := call_entry hnew
      intro u hu o ho
      cases List.mem_singleton.mp hu
      cases List.mem_singleton.mp ho
      cases a with
      -- an immediate send would bring its own buffer
      | sendPacketImmediately buffer => exact absurd ha (hC buffer)
      | _ =>
        exact ⟨fun _ => by simp [Call.entry], fun _ hsend => absurd hsend (by simp [Call.entry])⟩
  have hshared : c'.shared.session.mEncryption = none ∧
      ∀ message ∈ c'.shared.sent, Framed L s₀ message := by
    cases step_cases h with
    | @access i ch t op rest ops s' ts others hi hperm hcode hexec =>
      obtain ⟨hnone, -, hsent⟩ :=
        (exec_steps hc.attached hexec).1.unencrypted hc.encryption hc.plain
        (hc.flushes t (List.mem_of_getElem? hi) op (hcode ▸ List.mem_cons_self))
      exact ⟨hnone, fun message hmem => (hsent message hmem).elim (hc.framed message) id⟩
    | finish hi hperm hcode => exact ⟨hc.encryption, hc.framed⟩
    | arrive hnew =>
      obtain ⟨rfl, -⟩ := call_entry hnew
      exact ⟨hc.encryption, hc.framed⟩
  exact ⟨settled_step hc.toSettled h, hshared.1, hflushes, hshared.2⟩

/-- Packets are sent in the order in which they are queued, if each batch is taken alone. -/
theorem flushed_step (hs : Unencrypted L s₀ c) (hc : AtMostOne Op.taken Queued QueuedBut c)
    (h : (scripts E L).program.step c m = some c') (hC : TakesAlone ⟨c, m, c'⟩) :
    AtMostOne Op.taken Queued QueuedBut c' := by
  refine hc.step h (fun t op ch ops ts hdoes hexec => ?_) (fun _ => id) fun a new hnew => ?_
  · obtain ⟨hsteps, rfl⟩ := exec_steps hs.attached hexec
    refine ⟨rfl, ?_⟩
    generalize c'.shared = s' at hsteps
    cases hsteps with
    | queue hop =>
      subst hop
      refine .pass (fun hqueued => ?_) fun taken hqueued => ?_
      · rw [Queued, ← List.append_assoc, hqueued]
      · rw [QueuedBut, ← List.append_assoc, hqueued]
    | idle hop => rcases hop with rfl | ⟨now, rfl⟩ <;> exact .pass id fun _ => id
    | take hop hne =>
      have htakes : op.takes c.shared.session = true := by
        rcases hop with rfl | ⟨now, rfl, hdue⟩ <;> simp [Op.takes, *]
      have halone := hC t op hdoes htakes
      rcases hop with rfl | ⟨now, rfl, -⟩ <;>
        exact .take halone fun hqueued => (List.append_nil _).trans hqueued
    | make hop hmade =>
      obtain ⟨hflush, -⟩ := hs.flushes t hdoes.mem.1 op hdoes.mem.2
      cases op with
      | sendPacketImmediately buffer => exact absurd rfl (hflush buffer)
      | sendBatchedBufferImmediately packets => cases hop; exact .change id
      | _ => exact absurd hop (by simp [Op.packets])
    | drop hop hempty =>
      -- a batch with packets is sent
      have hplain := hempty _ (congrArg Prod.snd (encode_none hs.encryption ch.calls _))
      exact absurd hplain (plain_ne_nil (hs.filled t hdoes.mem.1 op hdoes.mem.2 _ hop))
    | send hop =>
      subst hop
      refine .give fun hqueued => ?_
      rw [Queued, List.flatMap_append, List.flatMap_singleton]
      exact hqueued
  · obtain ⟨hshared, rfl⟩ := call_entry hnew
    exact ⟨hshared, by cases a <;> rfl⟩

/-- What was sent is the beginning of what was accepted. -/
theorem AtMostOne.packets_first (hc : AtMostOne Op.taken Queued QueuedBut c) :
    c.shared.sent.flatMap Message.packets <+: c.shared.accepted := by
  cases hc with
  | none _ hqueued => exact ⟨_, hqueued⟩
  | one _ hqueued => exact ⟨_, (List.append_assoc _ _ _).symm.trans hqueued⟩

/-- **Packets in order.** In a run of a session that is not encrypted, without calls of
`sendPacketImmediately`, in which a flush only takes packets while none are in flight, the
packets are sent in the order in which they were accepted, each of them once. -/
theorem packets_in_order (hs : s₀.Attached) (hnone : s₀.mEncryption = none)
    (hr : (system E L s₀).Run h c) (hcalls : ∀ x ∈ h, NotImmediate x)
    (hC : ∀ x ∈ h, TakesAlone x) :
    c.shared.sent.flatMap Message.packets <+: c.shared.accepted ∧
      ∀ message ∈ c.shared.sent,
        message.framed = MINECRAFT_BATCH_PACKET_ID :: plain L s₀.toOutbound message.packets := by
  have hflushed : Unencrypted L s₀ c ∧ AtMostOne Op.taken Queued QueuedBut c :=
    hr.invariant_where
      (I := fun c => Unencrypted L s₀ c ∧ AtMostOne Op.taken Queued QueuedBut c)
      (C := fun x => NotImmediate x ∧ TakesAlone x)
      ⟨⟨settled_initial hs, hnone, fun _ ht => absurd ht List.not_mem_nil,
        fun _ hmem => absurd hmem List.not_mem_nil⟩, .none rfl rfl⟩
      (fun _ _ _ hc hst hCs => ⟨unencrypted_step hc.1 hst hCs.1, flushed_step hc.1 hc.2 hst hCs.2⟩)
      fun x hx => ⟨hcalls x hx, hC x hx⟩
  exact ⟨AtMostOne.packets_first hflushed.2, hflushed.1.framed⟩

/-- `TakesAlone`, to be evaluated. -/
def takesAlone (x : PoolStep) : Bool :=
  match performed x with
  | some (_, op) => !op.takes x.src.shared.session || (inFlight Op.taken x.src).isEmpty
  | none => true

/-- The evaluation of this condition is right. -/
theorem takesAlone_sound {x : PoolStep} (h : takesAlone x = true) : TakesAlone x := by
  intro t op hdoes hop
  rw [takesAlone, show performed x = _ from hdoes] at h
  simpa [hop] using h

/-- Nobody calls `sendPacketImmediately` in `x`, to be evaluated. -/
def notImmediate (x : PoolStep) : Bool :=
  match x.label with
  | .env (.call (.sendPacketImmediately _)) => false
  | _ => true

/-- So is that of the other one. -/
theorem notImmediate_sound {x : PoolStep} (h : notImmediate x = true) : NotImmediate x := by
  intro buffer hlabel
  rw [notImmediate, hlabel] at h
  exact absurd h (by simp)

/-- A packet is accepted while a flush is on its way, and another flush sends it. -/
theorem packets_in_order_two :
    ∃ h c, (system countingEvp literalCodecs (Sender.create 0)).Run h c ∧
      c.shared.sent.map Message.packets = [[[1]], [[2]]] ∧
      c.shared.sent.flatMap Message.packets <+: c.shared.accepted ∧
      ∀ message ∈ c.shared.sent, message.framed = MINECRAFT_BATCH_PACKET_ID ::
        plain literalCodecs (Sender.create 0).toOutbound message.packets := by
  obtain ⟨h, c, hr, hp⟩ := (system countingEvp literalCodecs (Sender.create 0)).exists_run_of_follow
    (p := fun h c => decide (c.shared.sent.map Message.packets = [[[1]], [[2]]] ∧
      ∀ x ∈ h, (notImmediate x && takesAlone x) = true))
    [.env (.call (.sendPacket [1])), next 0, next 0, .env (.call .flush), next 0,
      .env (.call (.sendPacket [2])), next 1, next 1, next 0, next 0, next 0,
      .env (.call (.flushIfDue 20000000)), next 0, next 0, next 0] (by decide)
  obtain ⟨hsent, hall⟩ := of_decide_eq_true hp
  exact ⟨h, c, hr, hsent, packets_in_order (Sender.attached_create 0) rfl hr
    (fun x hx => notImmediate_sound (Bool.and_eq_true_iff.mp (hall x hx)).1)
    fun x hx => takesAlone_sound (Bool.and_eq_true_iff.mp (hall x hx)).2⟩

/-- Two flushes take one packet each, and the second one sends first. -/
theorem packets_overtake :
    ∃ E L h c, (system E L (Sender.create 0)).Run h c ∧ (∀ x ∈ h, NotImmediate x) ∧
      c.shared.accepted = [[1], [2]] ∧ c.shared.sent.flatMap Message.packets = [[2], [1]] ∧
      ¬ c.shared.sent.flatMap Message.packets <+: c.shared.accepted := by
  obtain ⟨h, c, hr, hp⟩ := (system countingEvp literalCodecs (Sender.create 0)).exists_run_of_follow
    (p := fun h c => decide ((∀ x ∈ h, notImmediate x = true) ∧ c.shared.accepted = [[1], [2]] ∧
      c.shared.sent.flatMap Message.packets = [[2], [1]] ∧
      ¬ c.shared.sent.flatMap Message.packets <+: c.shared.accepted))
    [.env (.call (.sendPacket [1])), next 0, next 0, .env (.call .flush), next 0,
      .env (.call (.sendPacket [2])), next 1, next 1, .env (.call .flush), next 1,
      next 1, next 0, next 0, next 0] (by decide)
  obtain ⟨hall, hpackets⟩ := of_decide_eq_true hp
  exact ⟨_, _, h, c, hr, fun x hx => notImmediate_sound (hall x hx), hpackets⟩

end Senders
end Session
end SculkProtocol
