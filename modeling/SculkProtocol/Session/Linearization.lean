import SculkProtocol.Session.Disconnect
import SculkProtocol.Systems.Linearization

/-!
# The queues of a session under any threads

Every call of `sendPacket`, `enqueueInboundPacket` and `receivePacket`, every flush and every packet
that `disconnect` discards takes effect at one moment. The effects are those of two queues
(`queues`): a packet is put at the end of one, and taken from its front. `queues_linearizable` says
so of every run: what a call returns is explained by its effect, and the order of the effects is one
of real time.
-/

namespace SculkProtocol
namespace Session
namespace Threads

open Scripts

/-! ### The queues -/

/-- The packets of both queues. -/
abbrev Queues : Type := Queue → List Bytes

def Queues.set (qs : Queues) (q' : Queue) (packets : List Bytes) :
    Queues := fun q => if q = q' then packets else qs q

/-- What happens to the queues at one moment. -/
inductive Effect
  | push (q : Queue) (buffer : Bytes)
  /-- `receivePacket` takes the oldest packet -/
  | pop (packet : Bytes)
  /-- `receivePacket` finds no packet -/
  | empty
  /-- a flush takes all packets -/
  | swap (packets : List Bytes)
  /-- `disconnect` discards the oldest packet -/
  | drop (q : Queue) (packet : Bytes)
  deriving DecidableEq

namespace Effect

def apply (qs : Queues) : Effect → Option Queues
  | .push q buffer => some (qs.set q (qs q ++ [buffer]))
  | .pop packet =>
    if (qs .inbound).head? = some packet then some (qs.set .inbound (qs .inbound).tail) else none
  | .empty => if qs .inbound = [] then some qs else none
  | .swap packets => if qs .outbound = packets then some (qs.set .outbound []) else none
  | .drop q packet => if (qs q).head? = some packet then some (qs.set q (qs q).tail) else none

/-- What an effect puts into a queue. -/
def put (q : Queue) : Effect → List Bytes
  | .push q' buffer => if q = q' then [buffer] else []
  | _ => []

/-- What it takes from one. -/
def taken (q : Queue) : Effect → List Bytes
  | .pop packet => if q = .inbound then [packet] else []
  | .swap packets => if q = .outbound then packets else []
  | .drop q' packet => if q = q' then [packet] else []
  | _ => []

end Effect

/-- The two queues, one effect after the other. -/
def queues : SequentialObject Queues Effect := ⟨Effect.apply⟩

/-- An effect takes from the front and puts at the end. -/
theorem Effect.apply_packets {qs qs' : Queues} {e : Effect} (h : e.apply qs = some qs')
    (q : Queue) :
    qs q ++ e.put q = e.taken q ++ qs' q := by
  -- what is taken from the front of `q'` is its head
  have hfront : ∀ (q' : Queue) (packet : Bytes), (qs q').head? = some packet →
      qs q = (if q = q' then [packet] else []) ++ qs.set q' (qs q').tail q := by
    intro q' packet hhead
    unfold Queues.set
    split
    · next hq =>
      obtain ⟨rest, hrest⟩ := List.head?_eq_some_iff.mp hhead
      rw [hq, hrest]
      rfl
    · rfl
  cases e with
  | push q' buffer =>
    cases h
    show qs q ++ (if q = q' then [buffer] else []) = [] ++ qs.set q' _ q
    unfold Queues.set
    split
    · next hq => rw [hq, List.nil_append]
    · rw [List.append_nil, List.nil_append]
  | pop packet =>
    obtain ⟨hhead, rfl⟩ : (qs .inbound).head? = some packet ∧ _ = qs' := by simpa [apply] using h
    exact (List.append_nil _).trans (hfront _ _ hhead)
  | empty =>
    obtain ⟨-, rfl⟩ : qs .inbound = [] ∧ qs = qs' := by simpa [apply] using h
    exact List.append_nil _
  | swap packets =>
    obtain ⟨hpackets, rfl⟩ : qs .outbound = packets ∧ _ = qs' := by simpa [apply] using h
    show qs q ++ [] = (if q = .outbound then packets else []) ++ qs.set .outbound [] q
    unfold Queues.set
    split
    · next hq => rw [hq, hpackets]
    · exact List.append_nil _
  | drop q' packet =>
    obtain ⟨hhead, rfl⟩ : (qs q').head? = some packet ∧ _ = qs' := by simpa [apply] using h
    exact (List.append_nil _).trans (hfront _ _ hhead)

/-- **Nothing is lost or duplicated.** What was put into a queue is what was taken from it, in the
same order, and what is still there. -/
theorem queues_replay_packets {qs qs' : Queues} {es : List Effect}
    (h : queues.replay qs es = some qs') (q : Queue) :
    qs q ++ es.flatMap (Effect.put q) = es.flatMap (Effect.taken q) ++ qs' q := by
  induction es generalizing qs with
  | nil =>
    cases h
    exact List.append_nil _
  | cons e es ih =>
    obtain ⟨mid, hmid, hes⟩ := Option.bind_eq_some_iff.mp h
    rw [List.flatMap_cons, List.flatMap_cons, ← List.append_assoc, Effect.apply_packets hmid q,
      List.append_assoc, List.append_assoc, ih hes]

/-! ### What explains a call -/

/-- The packet that a method puts into a queue. -/
def Method.puts : Method → Option (Queue × Bytes)
  | .sendPacket buffer => some (.outbound, buffer)
  | .enqueueInboundPacket buffer => some (.inbound, buffer)
  | _ => none

def Method.Flushes : Method → Prop
  | .flush | .flushIfDue _ => True
  | _ => False

/-- The methods that have an effect. -/
def Effect.By (m : Method) : Effect → Prop
  | .push q buffer => m.puts = some (q, buffer)
  | .pop _ | .empty => m = .receivePacket
  | .swap _ => m.Flushes
  | .drop _ _ => m = .disconnect

/-- `disconnect` discards many packets; a call has no other effect twice. -/
def Effect.IsDrop : Effect → Bool
  | .drop _ _ => true
  | _ => false

/-- The effects so far, each with the call that had it. -/
abbrev History : Type := List (Caller × Effect)

/-- What a call returns is explained by its effect. -/
inductive Explained (closed : Prop) (done : History) (caller : Caller) : Return → Prop
  | pushed {q : Queue} {buffer : Bytes} : caller.method.puts = some (q, buffer) →
      (caller, .push q buffer) ∈ done →
      Explained closed done caller (.bool true)
  /-- a packet is refused only if the session is closed -/
  | refused {q : Queue} {buffer : Bytes} : caller.method.puts = some (q, buffer) →
      (∀ e, (caller, e) ∉ done) → closed →
      Explained closed done caller (.bool false)
  | popped {packet : Bytes} : caller.method = .receivePacket → (caller, .pop packet) ∈ done →
      Explained closed done caller (.received packet)
  | empty : caller.method = .receivePacket → (caller, .empty) ∈ done → Explained closed done caller
      (.bool false)
  /-- a flush that returns true has taken packets -/
  | flushed {r : Bool} : caller.method.Flushes →
      (r = true → ∃ packets, (caller, .swap packets) ∈ done) →
      Explained closed done caller (.bool r)

/-- Which entries of the log start a call, and with which it returns. -/
def calls : CallLog Entry Caller where
  starts entry caller := entry = .started caller
  returns entry caller := (∃ r, entry = .returned caller r) ∨ entry = .disconnected caller

/-- The session was never connected, or `disconnect` has been called. -/
def Closed (session : Sender) (log : List Entry) : Prop :=
  session.mConnected = false ∨ ∃ caller, .started caller ∈ log ∧ caller.method = .disconnect

/-! ### Steps -/

/-- How far a call has come. -/
inductive Phase
  /-- it has had no effect -/
  | waiting
  | returning (r : Return)
  /-- a flush behind its swap -/
  | sending
  /-- `disconnect` behind the exchange -/
  | disconnecting

namespace Op

def phase : Op → Phase
  | .enter _ | .loadConnected _ _ | .pushBack _ _ | .popFront | .testDue _ | .setDue _
  | .flushConnected | .flushPeer
  | .swap => .waiting
  | .unlock _ r | .ret r => .returning r
  | .unlockFlush _ | .sendBatchedBufferImmediately _ | .encode _ | .send _ => .sending
  | .lockFirst _ | .lockOther _ _ | .drainOutbound _ | .drainInbound _ | .unlockFirst _
  | .unlockLast _ _
  | .closeConnection | .retVoid => .disconnecting

/-- The program points of a method. -/
def Of (m : Method) : Op → Prop
  | .enter m' => m' = m
  | .loadConnected q buffer | .pushBack q buffer => m.puts = some (q, buffer)
  | .popFront => m = .receivePacket
  | .testDue _ | .setDue _ | .flushConnected | .flushPeer | .swap | .unlockFlush _
  | .sendBatchedBufferImmediately _
  | .encode _ | .send _ => m.Flushes
  | .unlock _ _ | .ret _ => True
  | .lockFirst _ | .lockOther _ _ | .drainOutbound _ | .drainInbound _ | .unlockFirst _
  | .unlockLast _ _
  | .closeConnection | .retVoid => m = .disconnect

end Op

/-- Nothing happens to the queues, and no call starts or returns. -/
structure Keeps (s s' : State) : Prop where
  packets : s'.packets = s.packets
  connected : s'.session.mConnected = s.session.mConnected
  log : ∃ entries, s'.log = s.log ++ entries ∧ ∀ entry ∈ entries, ∀ k, ¬ calls.starts entry k ∧
    ¬ calls.returns entry k

/-- **The kinds of steps**: what a call does in a phase, its next phase, and its effects. -/
inductive Effects (s : State) (caller : Caller) : Phase → State → Option Phase → List Effect → Prop
  | quiet {x : Phase} {s' : State} : Keeps s s' → Effects s caller x s' (some x) []
  | refused {q : Queue} {buffer : Bytes} : caller.method.puts = some (q, buffer) →
      s.session.mConnected = false →
      Effects s caller .waiting s (some (.returning (.bool false))) []
  | push {q : Queue} {buffer : Bytes} : caller.method.puts = some (q, buffer) →
      Effects s caller .waiting (s.setPackets (s.packets q ++ [buffer]) q)
        (some (.returning (.bool true)))
        [.push q buffer]
  | pop {packet : Bytes} {rest : List Bytes} : caller.method = .receivePacket →
      s.packets .inbound = packet :: rest →
      Effects s caller .waiting (s.setPackets rest .inbound) (some (.returning (.received packet)))
        [.pop packet]
  | empty : caller.method = .receivePacket → s.packets .inbound = [] →
      Effects s caller .waiting s (some (.returning (.bool false))) [.empty]
  | swap : caller.method.Flushes →
      Effects s caller .waiting (s.setPackets [] .outbound) (some .sending)
        [.swap (s.packets .outbound)]
  /-- a flush is over -/
  | flushed {x : Phase} {s' : State} {r : Bool} : caller.method.Flushes →
      (r = true → x = .sending) → Keeps s s' →
      Effects s caller x s' (some (.returning (.bool r))) []
  | exchange : caller.method = .disconnect →
      Effects s caller .waiting { s with session := { s.session with mConnected := false } }
        (some .disconnecting) []
  | drop {q : Queue} {packet : Bytes} {rest : List Bytes} : caller.method = .disconnect →
      s.packets q = packet :: rest →
      Effects s caller .disconnecting (s.setPackets rest q) (some .disconnecting) [.drop q packet]
  | ret {r : Return} : Effects s caller (.returning r) (s.record (.returned caller r)) none []
  | leave : Effects s caller .disconnecting (s.record (.disconnected caller)) none []

variable {E : Evp} {L : Codecs} {s s' : State} {caller : Caller} {ch : Choice} {op : Op}
  {ops : List Op}

/-- What changes nothing keeps everything. -/
theorem Keeps.of_eq (hpackets : s'.packets = s.packets)
    (hconnected : s'.session.mConnected = s.session.mConnected)
    (hlog : s'.log = s.log) : Keeps s s' :=
  ⟨hpackets, hconnected, [], hlog.trans (List.append_nil _).symm, List.forall_mem_nil _⟩

/-- Everything is kept where nothing changes. -/
theorem Keeps.refl : Keeps s s := .of_eq rfl rfl rfl

/-- A lock is no packet. -/
theorem Keeps.setLocked (held : Bool) (q : Queue) : Keeps s (s.setLocked held q) :=
  .of_eq (funext fun q' => State.packets_setLocked s q' q held) (State.connected_setLocked ..)
    (State.log_setLocked ..)

/-- A record of no call keeps everything. -/
theorem Keeps.record {entry : Entry} (h : ∀ k, ¬ calls.starts entry k ∧ ¬ calls.returns entry k) :
    Keeps s (s.record entry) := by
  refine ⟨funext fun q => ?_, rfl, [entry], rfl, fun e he => ?_⟩
  · cases q <;> rfl
  · rw [List.mem_singleton.mp he]
    exact h

/-- What is sent is no call. -/
theorem keeps_sent (framed : Bytes) : Keeps s (s.record (.sent framed)) := by
  refine .record fun _ => ⟨nofun, ?_⟩
  rintro (⟨_, h⟩ | h) <;> cases h

/-- Closing is no call. -/
theorem keeps_closed : Keeps s (s.record .closed) := by
  refine .record fun _ => ⟨nofun, ?_⟩
  rintro (⟨_, h⟩ | h) <;> cases h

/-- A method takes its mutex. -/
theorem lock_effects {q : Queue} {o : Op} (hphase : o.phase = .waiting) (ho : o.Of caller.method)
    (h : (if s.locked q then none else some (s.setLocked true q, [o])) = some (s', ops)) :
    (∀ o ∈ ops, o.Of caller.method) ∧
    ∃ es, Effects s caller .waiting s' (ops.head?.map Op.phase) es := by
  split at h
  · exact nomatch h
  · cases h
    refine ⟨List.forall_mem_singleton.mpr ho, [], ?_⟩
    show Effects s caller .waiting _ (some o.phase) []
    rw [hphase]
    exact .quiet (.setLocked true q)

/-- **One step of a call.** -/
theorem execOp_effects (h : execOp E L s caller ch op = some (s', ops))
    (hof : op.Of caller.method) :
    (∀ o ∈ ops, o.Of caller.method) ∧
    ∃ es, Effects s caller op.phase s' (ops.head?.map Op.phase) es := by
  have hone : ∀ {o : Op}, o.Of caller.method → ∀ o' ∈ [o], o'.Of caller.method :=
    List.forall_mem_singleton.mpr
  have hfalse : false = true → op.phase = .sending := fun hr => absurd hr Bool.false_ne_true
  cases op with
  | enter method =>
    cases method with
    | sendPacket buffer =>
      exact lock_effects (o := .loadConnected .outbound buffer) rfl
        (congrArg Method.puts (Eq.symm hof)) h
    | enqueueInboundPacket buffer =>
      exact lock_effects (o := .loadConnected .inbound buffer) rfl
        (congrArg Method.puts (Eq.symm hof)) h
    | receivePacket => exact lock_effects (o := .popFront) rfl (Eq.symm hof) h
    | flush =>
      have hflushes : caller.method.Flushes := (show .flush = caller.method from hof) ▸ trivial
      exact lock_effects (o := .setDue none) rfl hflushes h
    | flushIfDue now =>
      have hflushes : caller.method.Flushes :=
        (show .flushIfDue now = caller.method from hof) ▸ trivial
      exact lock_effects (o := .testDue now) rfl hflushes h
    | disconnect =>
      cases h
      exact ⟨hone (Eq.symm hof), [], .exchange (Eq.symm hof)⟩
  | loadConnected q buffer =>
    simp only [execOp] at h
    split at h
    · cases h
      exact ⟨hone hof, [], .quiet .refl⟩
    · next hconnected =>
      cases h
      exact ⟨hone trivial, [], .refused hof (Bool.eq_false_iff.mpr hconnected)⟩
  | pushBack q buffer =>
    cases h
    exact ⟨hone trivial, _, .push hof⟩
  | popFront =>
    simp only [execOp] at h
    split at h
    · next hpackets =>
      cases h
      exact ⟨hone trivial, _, .empty hof hpackets⟩
    · next packet rest hpackets =>
      cases h
      exact ⟨hone trivial, _, .pop hof hpackets⟩
  | testDue now =>
    simp only [execOp] at h
    split at h
    · cases h
      exact ⟨hone trivial, [], .flushed hof hfalse .refl⟩
    · cases h
      exact ⟨hone hof, [], .quiet .refl⟩
  | setDue now =>
    cases h
    refine ⟨hone hof, [], .quiet (.of_eq (funext fun q => ?_) rfl rfl)⟩
    cases q <;> rfl
  | flushConnected | flushPeer =>
    simp only [execOp] at h
    split at h
    · cases h
      first
      | exact ⟨hone hof, [], .quiet .refl⟩
      | exact ⟨hone trivial, [], .flushed hof hfalse .refl⟩
    · cases h
      first
      | exact ⟨hone hof, [], .quiet .refl⟩
      | exact ⟨hone trivial, [], .flushed hof hfalse .refl⟩
  | swap =>
    cases h
    exact ⟨hone hof, _, .swap hof⟩
  | unlock q r =>
    cases h
    exact ⟨hone trivial, [], .quiet (.setLocked false q)⟩
  | unlockFlush packets =>
    cases h
    exact ⟨hone hof, [], .quiet (.setLocked false .outbound)⟩
  | sendBatchedBufferImmediately packets =>
    simp only [execOp] at h
    split at h
    · cases h
      exact ⟨hone trivial, [], .flushed hof hfalse .refl⟩
    · cases h
      exact ⟨hone hof, [], .quiet .refl⟩
  | encode packets =>
    -- only `mEncryption` changes
    have hkeeps : ∀ m, Keeps s { s with session := { s.session with mEncryption := m } } :=
      fun m => .of_eq (funext fun q => by cases q <;> rfl) rfl rfl
    simp only [execOp] at h
    split at h
    · cases h
      exact ⟨hone trivial, [], .flushed hof hfalse (hkeeps _)⟩
    · split at h
      · cases h
        exact ⟨hone trivial, [], .flushed hof hfalse (hkeeps _)⟩
      · cases h
        exact ⟨hone hof, [], .quiet (hkeeps _)⟩
  | send framed =>
    cases h
    exact ⟨hone trivial, [], .flushed hof (fun _ => rfl) (keeps_sent framed)⟩
  | lockFirst was =>
    simp only [execOp] at h
    split at h
    · cases h
    · cases h
      exact ⟨hone hof, [], .quiet (.setLocked true _)⟩
  | lockOther q was =>
    simp only [execOp] at h
    split at h
    · cases h
      exact ⟨hone hof, [], .quiet (.setLocked false q)⟩
    · cases h
      exact ⟨hone hof, [], .quiet (.setLocked true _)⟩
  | drainOutbound was | drainInbound was =>
    simp only [execOp] at h
    split at h
    · cases h
      exact ⟨hone hof, [], .quiet .refl⟩
    · next hpackets =>
      cases h
      exact ⟨hone hof, _, .drop hof hpackets⟩
  | unlockFirst was =>
    cases h
    exact ⟨hone hof, [], .quiet (.setLocked false _)⟩
  | unlockLast q was =>
    simp only [execOp] at h
    split at h
    · cases h
      exact ⟨hone hof, [], .quiet (.setLocked false q)⟩
    · cases h
      exact ⟨hone hof, [], .quiet (.setLocked false q)⟩
  | closeConnection =>
    simp only [execOp] at h
    split at h
    · cases h
      exact ⟨hone hof, [], .quiet keeps_closed⟩
    · cases h
      exact ⟨hone hof, [], .quiet .refl⟩
  | ret r =>
    cases h
    exact ⟨List.forall_mem_nil _, [], .ret⟩
  | retVoid =>
    cases h
    exact ⟨List.forall_mem_nil _, [], .leave⟩

/-! ### The invariant -/

section

variable {closed closed' : Prop} {log entries : List Entry} {done done' : History} {r : Return}

/-- An answer stays explained. -/
theorem Explained.mono (h : Explained closed done caller r) (hclosed : closed → closed')
    (hdone : ∀ e, (caller, e) ∈ done' ↔ (caller, e) ∈ done) : Explained closed' done' caller r := by
  cases h with
  | pushed hputs hmem => exact .pushed hputs ((hdone _).mpr hmem)
  | refused hputs hnone h =>
    exact .refused hputs (fun e he => hnone e ((hdone e).mp he)) (hclosed h)
  | popped hmethod hmem => exact .popped hmethod ((hdone _).mpr hmem)
  | empty hmethod hmem => exact .empty hmethod ((hdone _).mpr hmem)
  | flushed hflushes hswap =>
    exact .flushed hflushes fun hr => (hswap hr).imp fun _ => (hdone _).mpr

/-- What is known of a call in a phase. -/
def Phase.Holds (closed : Prop) (done : History) (caller : Caller) : Phase → Prop
  | .waiting => ∀ e, (caller, e) ∉ done
  | .returning r => Explained closed done caller r
  | .sending => ∃ packets, (caller, .swap packets) ∈ done
  | .disconnecting => True

/-- What is known of a call stays so. -/
theorem Phase.Holds.mono {x : Phase} (h : x.Holds closed done caller) (hclosed : closed → closed')
    (hdone : ∀ e, (caller, e) ∈ done' ↔ (caller, e) ∈ done) : x.Holds closed' done' caller := by
  cases x with
  | waiting => exact fun e he => h e ((hdone e).mp he)
  | returning r => exact Explained.mono h hclosed hdone
  | sending => exact h.imp fun _ => (hdone _).mpr
  | disconnecting => trivial

/-- A pending operation of a call, which has not returned. -/
structure At (closed : Prop) (log : List Entry) (done : History) (caller : Caller) (op : Op) :
    Prop where
  of : op.Of caller.method
  running : ∀ e ∈ log, ¬ calls.returns e caller
  holds : op.phase.Holds closed done caller

/-- What another call does changes nothing of it. -/
theorem At.mono (h : At closed log done caller op) (hclosed : closed → closed')
    (hdone : ∀ e, (caller, e) ∈ done' ↔ (caller, e) ∈ done)
    (hentries : ∀ entry ∈ entries, ¬ calls.returns entry caller) :
    At closed' (log ++ entries) done' caller op where
  of := h.of
  running e he := (List.mem_append.mp he).elim (h.running e) (hentries e)
  holds := h.holds.mono hclosed hdone

/-- A session that was closed stays closed. -/
theorem Closed.mono {session : Sender} (h : Closed session log) : Closed session (log ++ entries) :=
  h.imp_right fun ⟨k, hmem, hmethod⟩ => ⟨k, List.mem_append_left _ hmem, hmethod⟩

end

/-- The effects so far are those of the queues, in an order of real time, and explain what has been
returned. -/
structure Linearized (initial : Queues) (session : Sender) (c : Pool) (done : History) : Prop where
  replay : queues.replay initial (done.map Prod.snd) = some c.shared.packets
  effects : ∀ x ∈ done, x.2.By x.1.method
  once : ((done.filter fun x => !x.2.IsDrop).map Prod.fst).Nodup
  ordered : calls.Ordered c.shared.log (done.map Prod.fst)
  explained : ∀ k r, .returned k r ∈ c.shared.log → Explained (Closed session c.shared.log) done k r
  threads : ∀ t ∈ c.threads, ∀ op ∈ t.code,
    At (Closed session c.shared.log) c.shared.log done t.tag op
  codes : ∀ t ∈ c.threads, t.code.length ≤ 1
  distinct : (c.threads.map Script.tag).Nodup
  tags : ∀ t ∈ c.threads, .started t.tag ∈ c.shared.log
  started : ∀ x ∈ done, .started x.1 ∈ c.shared.log
  returned : ∀ e ∈ c.shared.log, ∀ k, calls.returns e k → .started k ∈ c.shared.log
  ids : ∀ k, .started k ∈ c.shared.log → k.id < c.shared.log.length
  closed : c.shared.session.mConnected = false → Closed session c.shared.log

section

variable {initial : Queues} {session : Sender} {c c' : Pool} {done : History} {t : Script Caller Op}
  {others : List (Script Caller Op)} {es : List Effect} {entries : List Entry}
  {m : Move (Event Choice Method)}

/-- No call has an effect twice, but for those of `disconnect`. -/
theorem once_append {k : Caller} (h : ((done.filter fun x => !x.2.IsDrop).map Prod.fst).Nodup)
    (honce : es = [] ∨ ∃ e, es = [e] ∧ (e.IsDrop = true ∨ ∀ e', (k, e') ∉ done)) :
    (((done ++ es.map fun e => (k, e)).filter fun x => !x.2.IsDrop).map Prod.fst).Nodup := by
  rcases honce with rfl | ⟨e, rfl, hdrop | hnone⟩
  · rw [List.map_nil, List.append_nil]
    exact h
  · have hleft : [(k, e)].filter (fun x => !x.2.IsDrop) = [] := by simp [hdrop]
    rw [List.filter_append, List.map_cons, List.map_nil, hleft, List.append_nil]
    exact h
  · rw [List.filter_append, List.map_append]
    refine List.nodup_append.mpr ⟨h, ?_, ?_⟩
    · have hsingle : [k].Nodup := List.pairwise_singleton _ k
      exact hsingle.sublist (List.filter_sublist.map Prod.fst)
    · rintro a ha b hb rfl
      obtain ⟨x, hx, rfl⟩ := List.mem_map.mp ha
      obtain ⟨y, hy, hsame⟩ := List.mem_map.mp hb
      obtain rfl := List.mem_singleton.mp (List.mem_filter.mp hy).1
      exact hnone x.2 ((show k = x.1 from hsame) ▸ (List.mem_filter.mp hx).1)

/-- **A call goes on**: it has at most one effect, and the log grows by nothing but its own
return. -/
theorem Linearized.goesOn (h : Linearized initial session c done)
    (hperm : c.threads.Perm (t :: others))
    (hlength : ops.length ≤ 1)
    (hrunning : ∀ e ∈ c.shared.log, ¬ calls.returns e t.tag)
    (hreplay : queues.replay c.shared.packets es = some s'.packets)
    (heffects : ∀ e ∈ es, e.By t.tag.method)
    (honce : es = [] ∨ ∃ e, es = [e] ∧ (e.IsDrop = true ∨ ∀ e', (t.tag, e') ∉ done))
    (hlog : s'.log = c.shared.log ++ entries)
    (hentries : ∀ entry ∈ entries, ∀ k, ¬ calls.starts entry k ∧
      (calls.returns entry k → k = t.tag))
    (hreturned : ∀ r, .returned t.tag r ∈ entries →
      Explained (Closed session s'.log) (done ++ es.map fun e => (t.tag, e)) t.tag r)
    (hclosed : s'.session.mConnected = false → Closed session s'.log)
    (hops : ∀ o ∈ ops, o.Of t.tag.method ∧ (∀ entry ∈ entries, ¬ calls.returns entry t.tag) ∧
      o.phase.Holds (Closed session s'.log) (done ++ es.map fun e => (t.tag, e)) t.tag) :
    Linearized initial session ⟨s', others ++ [⟨t.tag, ops⟩]⟩
      (done ++ es.map fun e => (t.tag, e)) := by
  have hmem : ∀ u ∈ others, u ∈ c.threads :=
    fun u hu => hperm.mem_iff.mpr (List.mem_cons_of_mem _ hu)
  have htag := h.tags t (hperm.mem_iff.mpr List.mem_cons_self)
  have htags := (hperm.map Script.tag).nodup_iff.mp h.distinct
  -- another call has the effects that it had
  have hdone : ∀ k, k ≠ t.tag → ∀ e, (k, e) ∈ done ++ es.map (fun e => (t.tag, e)) ↔
      (k, e) ∈ done := by
    intro k hk e
    rw [List.mem_append, or_iff_left]
    intro hmem
    obtain ⟨e', -, heq⟩ := List.mem_map.mp hmem
    exact hk (congrArg Prod.fst heq).symm
  have hmono : Closed session c.shared.log → Closed session s'.log := fun hc => hlog ▸ hc.mono
  have hstartedMono : ∀ k, Entry.started k ∈ c.shared.log → Entry.started k ∈ s'.log :=
    fun k hk => hlog ▸ List.mem_append_left _ hk
  have hstartedIff : ∀ k, Entry.started k ∈ s'.log → Entry.started k ∈ c.shared.log :=
    fun k hk => by
    rw [hlog] at hk
    exact (List.mem_append.mp hk).resolve_right fun hk => (hentries _ hk k).1 rfl
  constructor
  · rw [List.map_append, queues.replay_append h.replay, List.map_map]
    exact (congrArg _ (List.map_id es)).trans hreplay
  · intro x hx
    rcases List.mem_append.mp hx with hx | hx
    · exact h.effects x hx
    · obtain ⟨e, he, rfl⟩ := List.mem_map.mp hx
      exact heffects e he
  · exact once_append h.once honce
  · rw [List.map_append, List.map_map]
    show calls.Ordered s'.log _
    rw [hlog]
    refine CallLog.Ordered.extend ?_ fun entry he k _ => (hentries entry he k).1
    rcases honce with rfl | ⟨e, rfl, -⟩
    · rw [List.map_nil, List.append_nil]
      exact h.ordered
    · exact h.ordered.effect hrunning
  · intro k r hr
    show Explained (Closed session s'.log) _ k r
    have hr : Entry.returned k r ∈ c.shared.log ++ entries := hlog ▸ hr
    rcases List.mem_append.mp hr with hr | hr
    · -- it returned before, so it is another call
      have hk : k ≠ t.tag := fun heq => hrunning _ hr (Or.inl ⟨r, heq ▸ rfl⟩)
      exact (h.explained k r hr).mono hmono (hdone k hk)
    · obtain rfl := (hentries _ hr k).2 (Or.inl ⟨r, rfl⟩)
      exact hreturned r hr
  · intro u hu op hop
    show At (Closed session s'.log) s'.log _ u.tag op
    rcases List.mem_append.mp hu with hu | hu
    · have hk : u.tag ≠ t.tag :=
        fun heq => (List.nodup_cons.mp htags).1 (heq ▸ List.mem_map_of_mem hu)
      rw [hlog]
      rw [hlog] at hmono
      exact (h.threads u (hmem u hu) op hop).mono hmono (hdone _ hk) fun entry he hret =>
        hk ((hentries entry he _).2 hret)
    · obtain rfl := List.mem_singleton.mp hu
      obtain ⟨hof, hentry, hholds⟩ := hops op hop
      refine ⟨hof, fun e he => ?_, hholds⟩
      rw [hlog] at he
      exact (List.mem_append.mp he).elim (hrunning e) (hentry e)
  · intro u hu
    rcases List.mem_append.mp hu with hu | hu
    · exact h.codes u (hmem u hu)
    · rw [List.mem_singleton.mp hu]
      exact hlength
  · have hsame : ((others ++ [(⟨t.tag, ops⟩ : Script Caller Op)]).map Script.tag).Perm
        ((t :: others).map Script.tag) := by
      rw [List.map_append]
      exact List.perm_append_comm
    exact hsame.nodup_iff.mpr htags
  · intro u hu
    rcases List.mem_append.mp hu with hu | hu
    · exact hstartedMono _ (h.tags u (hmem u hu))
    · rw [List.mem_singleton.mp hu]
      exact hstartedMono _ htag
  · intro x hx
    rcases List.mem_append.mp hx with hx | hx
    · exact hstartedMono _ (h.started x hx)
    · obtain ⟨e, -, rfl⟩ := List.mem_map.mp hx
      exact hstartedMono _ htag
  · intro e he k hret
    have he : e ∈ c.shared.log ++ entries := hlog ▸ he
    rcases List.mem_append.mp he with he | he
    · exact hstartedMono _ (h.returned e he k hret)
    · rw [(hentries e he k).2 hret]
      exact hstartedMono _ htag
  · intro k hk
    have hlt := h.ids k (hstartedIff k hk)
    show _ < s'.log.length
    rw [hlog, List.length_append]
    exact Nat.lt_add_right _ hlt
  · exact hclosed

/-- Packets are set in one of the queues. -/
theorem packets_set (s : State) (q : Queue) (packets : List Bytes) :
    (s.setPackets packets q).packets = Queues.set s.packets q packets :=
  funext fun q' => State.packets_setPackets s q' q packets

/-- A call goes on without a word of it in the log. -/
theorem Linearized.goesOnSilently (h : Linearized initial session c done)
    (hperm : c.threads.Perm (t :: others))
    (hlength : ops.length ≤ 1) (hrunning : ∀ e ∈ c.shared.log, ¬ calls.returns e t.tag)
    (hreplay : queues.replay c.shared.packets es = some s'.packets)
    (heffects : ∀ e ∈ es, e.By t.tag.method)
    (honce : es = [] ∨ ∃ e, es = [e] ∧ (e.IsDrop = true ∨ ∀ e', (t.tag, e') ∉ done))
    (hlog : s'.log = c.shared.log)
    (hclosed : s'.session.mConnected = false → Closed session c.shared.log)
    (hops : ∀ o ∈ ops, o.Of t.tag.method ∧
      o.phase.Holds (Closed session c.shared.log) (done ++ es.map fun e => (t.tag, e)) t.tag) :
    Linearized initial session ⟨s', others ++ [⟨t.tag, ops⟩]⟩
      (done ++ es.map fun e => (t.tag, e)) := by
  have hlog' : s'.log = c.shared.log ++ [] := hlog.trans (List.append_nil _).symm
  refine h.goesOn hperm hlength hrunning hreplay heffects honce hlog' nofun nofun ?_ fun o ho => ?_
  · rw [hlog]
    exact hclosed
  · rw [hlog]
    exact ⟨(hops o ho).1, nofun, (hops o ho).2⟩

/-- A call that has returned goes on to nothing. -/
theorem Linearized.returns (h : Linearized initial session c done)
    (hperm : c.threads.Perm (t :: others))
    (hrunning : ∀ e ∈ c.shared.log, ¬ calls.returns e t.tag) {entry : Entry}
    (hentry : calls.returns entry t.tag)
    (hreturned : ∀ r, .returned t.tag r = entry →
      Explained (Closed session c.shared.log) done t.tag r) :
    Linearized initial session ⟨c.shared.record entry, others ++ [⟨t.tag, []⟩]⟩ done := by
  have hstarts : ∀ k, ¬ calls.starts entry k ∧ (calls.returns entry k → k = t.tag) := by
    intro k
    rcases hentry with ⟨r, rfl⟩ | rfl
    · exact ⟨nofun, by rintro (⟨_, heq⟩ | heq) <;> cases heq; rfl⟩
    · exact ⟨nofun, by rintro (⟨_, heq⟩ | heq) <;> cases heq; rfl⟩
  have hpackets : queues.replay c.shared.packets [] = some (c.shared.record entry).packets :=
    congrArg some (funext fun q => (State.packets_record c.shared q entry).symm)
  have happend : done ++ [].map (fun e : Effect => (t.tag, e)) = done := List.append_nil _
  have hlog : (c.shared.record entry).log = c.shared.log ++ [entry] := rfl
  rw [← happend]
  refine h.goesOn hperm (Nat.zero_le 1) hrunning hpackets nofun (Or.inl rfl) hlog
    (List.forall_mem_singleton.mpr hstarts)
    (fun r hr => ?_) (fun hc => (h.closed hc).mono) nofun
  rw [happend]
  exact (hreturned r (List.mem_singleton.mp hr)).mono Closed.mono fun _ => Iff.rfl

/-- **A step of a call.** -/
theorem Linearized.effect (h : Linearized initial session c done)
    (hperm : c.threads.Perm (t :: others))
    (hat : At (Closed session c.shared.log) c.shared.log done t.tag op)
    (heff : Effects c.shared t.tag op.phase s' (ops.head?.map Op.phase) es)
    (hofs : ∀ o ∈ ops, o.Of t.tag.method)
    (hops : ops = [] ∨ ∃ o, ops = [o]) :
    Linearized initial session ⟨s', others ++ [⟨t.tag, ops⟩]⟩
      (done ++ es.map fun e => (t.tag, e)) := by
  have hlength : ops.length ≤ 1 := by
    obtain rfl | ⟨o, rfl⟩ := hops
    · exact Nat.zero_le 1
    · exact Nat.le_refl 1
  -- the next operation is known by its phase
  have hphases : ∀ o ∈ ops, ops.head?.map Op.phase = some o.phase := by
    obtain rfl | ⟨o, rfl⟩ := hops
    · exact nofun
    · exact List.forall_mem_singleton.mpr rfl
  have hstarted := h.tags t (hperm.mem_iff.mpr List.mem_cons_self)
  have hholds := hat.holds
  have happend : done ++ [].map (fun e : Effect => (t.tag, e)) = done := List.append_nil _
  have hnew : ∀ e : Effect, (t.tag, e) ∈ done ++ [e].map fun e => (t.tag, e) :=
    fun _ => List.mem_append_right _ List.mem_cons_self
  generalize hx : op.phase = x at heff hholds
  generalize hy : ops.head?.map Op.phase = next at heff hphases
  cases heff with
  | quiet hkeeps =>
    obtain ⟨entries, hlog, hentries⟩ := hkeeps.log
    refine h.goesOn hperm hlength hat.running (congrArg some hkeeps.packets.symm) nofun
      (Or.inl rfl) hlog
      (fun e he k => ⟨(hentries e he k).1, fun hr => absurd hr (hentries e he k).2⟩)
      (fun r hr => absurd (Or.inl ⟨r, rfl⟩) (hentries _ hr t.tag).2)
      (fun hc => hlog ▸ (h.closed (hkeeps.connected ▸ hc)).mono) fun o ho => ?_
    obtain rfl := Option.some.inj (hphases o ho)
    rw [happend, hlog]
    exact ⟨hofs o ho, fun e he => (hentries e he _).2, hholds.mono Closed.mono fun _ => Iff.rfl⟩
  | refused hputs hconnected =>
    refine h.goesOnSilently hperm hlength hat.running rfl nofun (Or.inl rfl) rfl h.closed
      fun o ho => ⟨hofs o ho, ?_⟩
    rw [happend, ← Option.some.inj (hphases o ho)]
    exact .refused hputs hholds (h.closed hconnected)
  | push hputs =>
    refine h.goesOnSilently hperm hlength hat.running (congrArg some (packets_set ..).symm)
      (List.forall_mem_singleton.mpr hputs) (Or.inr ⟨_, rfl, Or.inr hholds⟩)
        (State.log_setPackets ..)
      (fun hc => h.closed ((State.connected_setPackets ..).symm.trans hc)) fun o ho =>
        ⟨hofs o ho, ?_⟩
    rw [← Option.some.inj (hphases o ho)]
    exact .pushed hputs (hnew _)
  | pop hmethod hpackets =>
    refine h.goesOnSilently hperm hlength hat.running ?_ (List.forall_mem_singleton.mpr hmethod)
      (Or.inr ⟨_, rfl, Or.inr hholds⟩) rfl h.closed fun o ho => ⟨hofs o ho, ?_⟩
    · show queues.replay _ [_] = _
      rw [packets_set]
      simp [SequentialObject.replay, queues, Effect.apply, hpackets]
    · rw [← Option.some.inj (hphases o ho)]
      exact .popped hmethod (hnew _)
  | empty hmethod hpackets =>
    refine h.goesOnSilently hperm hlength hat.running ?_ (List.forall_mem_singleton.mpr hmethod)
      (Or.inr ⟨_, rfl, Or.inr hholds⟩) rfl h.closed fun o ho => ⟨hofs o ho, ?_⟩
    · simp [SequentialObject.replay, queues, Effect.apply, hpackets]
    · rw [← Option.some.inj (hphases o ho)]
      exact .empty hmethod (hnew _)
  | swap hflushes =>
    refine h.goesOnSilently hperm hlength hat.running ?_ (List.forall_mem_singleton.mpr hflushes)
      (Or.inr ⟨_, rfl, Or.inr hholds⟩) rfl h.closed fun o ho => ⟨hofs o ho, ?_⟩
    · rw [packets_set]
      simp [SequentialObject.replay, queues, Effect.apply]
    · rw [← Option.some.inj (hphases o ho)]
      exact ⟨_, hnew _⟩
  | flushed hflushes hreceipt hkeeps =>
    obtain ⟨entries, hlog, hentries⟩ := hkeeps.log
    refine h.goesOn hperm hlength hat.running (congrArg some hkeeps.packets.symm) nofun
      (Or.inl rfl) hlog
      (fun e he k => ⟨(hentries e he k).1, fun hr => absurd hr (hentries e he k).2⟩)
      (fun r hr => absurd (Or.inl ⟨r, rfl⟩) (hentries _ hr t.tag).2)
      (fun hc => hlog ▸ (h.closed (hkeeps.connected ▸ hc)).mono) fun o ho => ?_
    rw [happend, ← Option.some.inj (hphases o ho)]
    refine ⟨hofs o ho, fun e he => (hentries e he _).2, .flushed hflushes fun hr => ?_⟩
    rw [hreceipt hr] at hholds
    exact hholds
  | exchange hmethod =>
    refine h.goesOnSilently hperm hlength hat.running (congrArg some (funext fun q => ?_)) nofun
      (Or.inl rfl) rfl
      (fun _ => Or.inr ⟨t.tag, hstarted, hmethod⟩) fun o ho => ⟨hofs o ho, ?_⟩
    · cases q <;> rfl
    · rw [← Option.some.inj (hphases o ho)]
      trivial
  | @drop q packet rest hmethod hpackets =>
    refine h.goesOnSilently hperm hlength hat.running ?_ (List.forall_mem_singleton.mpr hmethod)
      (Or.inr ⟨_, rfl, Or.inl rfl⟩) (State.log_setPackets ..)
      (fun hc => h.closed ((State.connected_setPackets ..).symm.trans hc)) fun o ho =>
        ⟨hofs o ho, ?_⟩
    · rw [packets_set]
      simp [SequentialObject.replay, queues, Effect.apply, hpackets]
    · rw [← Option.some.inj (hphases o ho)]
      trivial
  | @ret r =>
    obtain rfl : ops = [] := by simpa using hy
    exact happend.symm ▸ h.returns hperm hat.running (Or.inl ⟨r, rfl⟩) fun r' heq => by
      cases heq
      exact hholds
  | leave =>
    obtain rfl : ops = [] := by simpa using hy
    exact happend.symm ▸ h.returns hperm hat.running (Or.inr rfl) nofun

/-- A call is over, and its thread disappears. -/
theorem Linearized.finish (h : Linearized initial session c done)
    (hperm : c.threads.Perm (t :: others)) :
    Linearized initial session ⟨c.shared, others⟩ done :=
  have hmem : ∀ u ∈ others, u ∈ c.threads :=
    fun _ hu => hperm.mem_iff.mpr (List.mem_cons_of_mem _ hu)
  { h with
    threads := fun u hu => h.threads u (hmem u hu)
    codes := fun u hu => h.codes u (hmem u hu)
    distinct := (List.nodup_cons.mp ((hperm.map Script.tag).nodup_iff.mp h.distinct)).2
    tags := fun u hu => h.tags u (hmem u hu) }

/-- **A method is called.** -/
theorem Linearized.arrive (h : Linearized initial session c done) (method : Method) :
    let caller : Caller := ⟨c.shared.log.length, method⟩
    Linearized initial session ⟨c.shared.record (.started caller), c.threads ++
        [⟨caller, [.enter method]⟩]⟩ done := by
  intro caller
  have hnew : Entry.started caller ∉ c.shared.log := fun hmem => Nat.lt_irrefl _ (h.ids caller hmem)
  have hquiet : ∀ k, ∀ entry ∈ [Entry.started caller], ¬ calls.returns entry k := by
    intro k
    refine List.forall_mem_singleton.mpr ?_
    rintro (⟨_, heq⟩ | heq)
    · cases heq
    · cases heq
  have hold : ∀ {entry}, entry ∈ c.shared.log → entry ∈ (c.shared.record (.started caller)).log :=
    List.mem_append_left _
  constructor
  · exact h.replay.trans (congrArg some (funext fun q => (State.packets_record c.shared q _).symm))
  · exact h.effects
  · exact h.once
  · refine h.ordered.record fun k hk heq => hnew ?_
    obtain ⟨x, hx, rfl⟩ := List.mem_map.mp hk
    exact (show Entry.started caller = .started x.1 from heq) ▸ h.started x hx
  · -- the new entry is no answer
    intro k r hr
    rcases List.mem_append.mp hr with hr | hr
    · exact (h.explained k r hr).mono Closed.mono fun _ => Iff.rfl
    · exact nomatch List.mem_singleton.mp hr
  · intro u hu op hop
    rcases List.mem_append.mp hu with hu | hu
    · exact (h.threads u hu op hop).mono Closed.mono (fun _ => Iff.rfl) (hquiet u.tag)
    · obtain rfl := List.mem_singleton.mp hu
      obtain rfl := List.mem_singleton.mp hop
      refine ⟨rfl, fun e he hret => ?_, fun e he => hnew (h.started _ he)⟩
      rcases List.mem_append.mp he with he | he
      · exact hnew (h.returned e he caller hret)
      · exact hquiet caller e he hret
  · intro u hu
    rcases List.mem_append.mp hu with hu | hu
    · exact h.codes u hu
    · rw [List.mem_singleton.mp hu]
      exact Nat.le_refl 1
  · -- a caller is its place in the log, so a new one is none of the old ones
    show ((c.threads ++ [_]).map Script.tag).Nodup
    rw [List.map_append]
    refine List.nodup_append.mpr ⟨h.distinct, List.pairwise_singleton _ _, ?_⟩
    rintro a ha b hb rfl
    obtain ⟨u, hu, rfl⟩ := List.mem_map.mp ha
    exact hnew ((show u.tag = caller from List.mem_singleton.mp hb) ▸ h.tags u hu)
  · intro u hu
    rcases List.mem_append.mp hu with hu | hu
    · exact hold (h.tags u hu)
    · rw [List.mem_singleton.mp hu]
      exact List.mem_append_right _ List.mem_cons_self
  · exact fun x hx => hold (h.started x hx)
  · intro e he k hret
    rcases List.mem_append.mp he with he | he
    · exact hold (h.returned e he k hret)
    · exact absurd hret (hquiet k e he)
  · intro k hk
    show k.id < (c.shared.log ++ [_]).length
    rw [List.length_append]
    rcases List.mem_append.mp hk with hk | hk
    · exact Nat.lt_add_right _ (h.ids k hk)
    · rw [Entry.started.inj (List.mem_singleton.mp hk)]
      exact Nat.lt_succ_self _
  · exact fun hconnected => (h.closed hconnected).mono

/-- **Every move** has at most one effect. -/
theorem Linearized.step (h : Linearized initial session c done)
    (hstep : (scripts E L).program.step c m = some c') :
    ∃ new, Linearized initial session c' (done ++ new) := by
  cases Scripts.step_cases hstep with
  | @access i ch t op rest ops s' ts others hi hperm hcode hexec =>
    obtain ⟨⟨s₁, ops₁⟩, hop, heq⟩ := Option.map_eq_some_iff.mp hexec
    obtain ⟨rfl, rfl, rfl⟩ : s₁ = s' ∧ ops₁ = ops ∧ [] = ts := by simpa using heq
    have ht : t ∈ c.threads := List.mem_of_getElem? hi
    have hat := h.threads t ht op (hcode ▸ List.mem_cons_self)
    obtain ⟨hofs, es, heffects⟩ := execOp_effects hop hat.of
    obtain rfl : rest = [] := eq_nil_of_short (hcode ▸ h.codes t ht)
    rw [List.append_nil]
    exact ⟨_, h.effect hperm hat heffects hofs (execOp_ops hop)⟩
  | finish hi hperm hcode =>
    refine ⟨[], ?_⟩
    rw [List.append_nil]
    exact h.finish hperm
  | @arrive method s' new hcall =>
    obtain ⟨rfl, rfl⟩ := Prod.mk.inj (Option.some.inj hcall)
    refine ⟨[], ?_⟩
    rw [List.append_nil]
    exact h.arrive method

end

/-! ### Every run -/

/-- The queues of a session in which nobody has called. -/
def Queues.start (session : Sender) (inbound : List Bytes) : Queues
  | .inbound => inbound
  | .outbound => session.mOutboundPackets

/-- Before the first call, nothing has taken effect. -/
theorem linearized_start (session : Sender) (inbound : List Bytes) :
    Linearized (.start session inbound) session ⟨⟨session, inbound, false, false, []⟩, []⟩ [] where
  replay := congrArg some (funext fun q => by cases q <;> rfl)
  effects := nofun
  once := List.nodup_nil
  ordered := CallLog.ordered_nil
  explained := nofun
  threads := nofun
  codes := nofun
  distinct := List.nodup_nil
  tags := nofun
  started := nofun
  returned := nofun
  ids := nofun
  closed h := Or.inl h

/-- **The queues of a session.** In every interleaving of the calls on a session, each call has its
effects on the two queues at moments of its run. One after the other the effects make of the queues
at the start what they are now, so every packet that was put into a queue has been taken from it,
once and in its turn, or is still there. A call has one effect, but for `disconnect`, and it
explains what the call returns; and no effect comes before that of a call that had returned when its
own call started. -/
theorem queues_linearizable {session : Sender} {inbound : List Bytes} {h : List _} {c : Pool}
    (hr : (system E L session inbound).Run h c) :
    ∃ done : History,
      queues.replay (.start session inbound) (done.map Prod.snd) = some c.shared.packets ∧
      (∀ q, Queues.start session inbound q ++ (done.map Prod.snd).flatMap (Effect.put q) =
        (done.map Prod.snd).flatMap (Effect.taken q) ++ c.shared.packets q) ∧
      (∀ x ∈ done, .started x.1 ∈ c.shared.log ∧ x.2.By x.1.method) ∧
      ((done.filter fun x => !x.2.IsDrop).map Prod.fst).Nodup ∧
      (∀ k r, .returned k r ∈ c.shared.log → Explained (Closed session c.shared.log) done k r) ∧
      calls.Ordered c.shared.log (done.map Prod.fst) := by
  obtain ⟨done, hdone⟩ :=
    hr.invariant (I := fun c => ∃ done, Linearized (.start session inbound) session c done)
    ⟨[], linearized_start session inbound⟩ fun _ _ _ ⟨done, hdone⟩ hst =>
      (hdone.step hst).imp' (done ++ ·) fun _ => id
  exact ⟨done, hdone.replay, queues_replay_packets hdone.replay,
    fun x hx => ⟨hdone.started x hx, hdone.effects x hx⟩,
    hdone.once, hdone.explained, hdone.ordered⟩

/-- The second of two overlapping calls takes effect first. -/
theorem queues_linearizable_two :
    ∃ h c, (system idleEvp literalCodecs (Sender.create 0) []).Run h c ∧
      c.shared.log =
        [.started ⟨0, .enqueueInboundPacket [1]⟩, .started ⟨1, .enqueueInboundPacket [2]⟩,
        .returned ⟨1, .enqueueInboundPacket [2]⟩ (.bool true), .started ⟨3, .receivePacket⟩,
        .returned ⟨0, .enqueueInboundPacket [1]⟩ (.bool true),
        .returned ⟨3, .receivePacket⟩ (.received [2])] ∧
      ∃ done : History, queues.replay (.start (Sender.create 0) []) (done.map Prod.snd) =
        some c.shared.packets ∧
        calls.Ordered c.shared.log (done.map Prod.fst) := by
  let next (i : ℕ) : Move (Event Choice Method) := .thread i (.step {})
  obtain ⟨h, c, hr, hp⟩ := (system idleEvp literalCodecs (Sender.create 0) []).exists_run_of_follow
    (p := fun _ c => decide (c.shared.log = [.started ⟨0, .enqueueInboundPacket [1]⟩,
        .started ⟨1, .enqueueInboundPacket [2]⟩, .returned ⟨1, .enqueueInboundPacket [2]⟩
          (.bool true),
        .started ⟨3, .receivePacket⟩, .returned ⟨0, .enqueueInboundPacket [1]⟩ (.bool true),
        .returned ⟨3, .receivePacket⟩ (.received [2])]))
    [.env (.call (.enqueueInboundPacket [1])), .env (.call (.enqueueInboundPacket [2])), next 1,
      next 1, next 1, next 1,
      next 1, next 1, .env (.call .receivePacket), next 1, next 1, next 1, next 0, next 1, next 1,
        next 1, next 1,
      next 0] (by decide)
  obtain ⟨done, hreplay, -, -, -, -, hordered⟩ := queues_linearizable hr
  exact ⟨h, c, hr, of_decide_eq_true hp, done, hreplay, hordered⟩

end Threads
end Session
end SculkProtocol
