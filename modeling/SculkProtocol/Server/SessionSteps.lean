import SculkProtocol.Server.Sessions

/-!
# What a step of the server's threads can do

The inversions the session results are derived from, so that none of them unfolds
`execOp` again:

* `execOp_effect` — the only accesses that change the registry are the insertion,
  the removal, the exchange of `mConnected` and `detachPeer`, and few change the flush
  schedule or the I/O thread;
* `execOp_successor` — which operation can follow which, and what the state was then;
* `execOp_spawns` — the strand tasks a step can start;
* `step_cases` — a move of the system is the next access of one thread, the end of a
  thread, or the arrival of a call or packet.

`Registry.WellFormed` relates the map to the history of insertions: an entry is the
context inserted last for its GUID.
-/

namespace SculkProtocol
namespace Sessions

open Scripts

variable {Guid : Type} {cfg : Settings Guid}

/-! ### Fields -/

@[simp] theorem registry_setRegistry (s : State Guid) (r : Registry Guid) :
    (s.setRegistry r).registry = r := rfl

@[simp] theorem registry_setSchedule (s : State Guid) (q : FlushSchedule Guid) :
    (s.setSchedule q).registry = s.registry := rfl

@[simp] theorem schedule_setSchedule (s : State Guid) (q : FlushSchedule Guid) :
    (s.setSchedule q).schedule = q := rfl

@[simp] theorem schedule_setRegistry (s : State Guid) (r : Registry Guid) :
    (s.setRegistry r).schedule = s.schedule := rfl

@[simp] theorem registry_finish (s : State Guid) (r : Role Guid) :
    (finish s r).registry = s.registry := by cases r <;> rfl

@[simp] theorem schedule_finish (s : State Guid) (r : Role Guid) :
    (finish s r).schedule = s.schedule := by cases r <;> rfl

/-- The I/O thread's dispatch changes at most the counter of tasks. -/
theorem processIncomingPacket_registry (s : State Guid) (p : Packet Guid) (ch : Choice) :
    (processIncomingPacket cfg s p ch).1 = s ∨
      (processIncomingPacket cfg s p ch).1 = s.countTask := by
  simp only [processIncomingPacket]
  split
  · split
    · split <;> exact Or.inl rfl
    · exact Or.inl rfl
  · split
    · exact Or.inl rfl
    · exact Or.inl rfl
    · exact Or.inl rfl
    · split
      · exact Or.inr rfl
      · exact Or.inl rfl

/-- What the ingress accounting of `processSessionPacket` leaves alone. -/
structure SameButIngress (s s' : State Guid) : Prop where
  registry : s'.registry = s.registry
  schedule : s'.schedule = s.schedule
  running : s'.mRunning = s.mRunning
  io : s'.mIoPumpThread = s.mIoPumpThread

/-- A state is the same as itself. -/
theorem SameButIngress.refl (s : State Guid) : SameButIngress s s := ⟨rfl, rfl, rfl, rfl⟩

/-- The operations after a command are those of its removal. -/
theorem mem_next {why : Why Guid} {g : Guid} {o : Op Guid} (h : o ∈ why.next g) :
    ∃ after, why = .removal after ∧ o = .eraseContext g after := by
  cases why with
  | connect | flush => exact absurd h List.not_mem_nil
  | removal after => exact ⟨after, rfl, List.mem_singleton.mp h⟩

/-- Reading the new state off an executed access. -/
theorem state_eq {s s' : State Guid} {ops ops' : List (Op Guid)} {ts ts' : List (Thread Guid)}
    (h : some (s, ops, ts) = some (s', ops', ts')) : s = s' := by
  injection h with h
  injection h

/-- Reading the operations off an executed access. -/
theorem ops_eq {s s' : State Guid} {ops ops' : List (Op Guid)} {ts ts' : List (Thread Guid)}
    (h : some (s, ops, ts) = some (s', ops', ts')) : ops = ops' := by
  injection h with h
  injection h with _ h
  injection h

/-- Reading the new threads off an executed access. -/
theorem spawns_eq {s s' : State Guid} {ops ops' : List (Op Guid)} {ts ts' : List (Thread Guid)}
    (h : some (s, ops, ts) = some (s', ops', ts')) : ts = ts' := by
  injection h with h
  injection h with _ h
  injection h

variable [DecidableEq Guid]

/-! ### The registry -/

/-- The effect of an access on the registry. -/
def Op.onRegistry (r : Registry Guid) : Op Guid → Registry Guid
  | .upsertSessionContext g => r.upsert g
  | .eraseContext g _ => r.erase g
  | .exchangeConnected x => r.setDisconnected x
  | .detachPeer x => r.detach x
  | _ => r

/-- Opening a window is ingress accounting. -/
theorem SameButIngress.openWindow (s : State Guid) (x : Context Guid) (now : ℤ) :
    SameButIngress s (s.openWindow x now) := by
  unfold State.openWindow
  split
  · exact ⟨rfl, rfl, rfl, rfl⟩
  · exact .refl s

/-- A strand task's work on a packet counts the packet at most, and goes on to remove
the session or ends. -/
theorem processSessionPacket_inv (s : State Guid) (p : Packet Guid) (x : Context Guid)
    (ch : Choice) :
    SameButIngress s (processSessionPacket cfg s p x ch).1 ∧
      ((processSessionPacket cfg s p x ch).2 = [] ∨
        (processSessionPacket cfg s p x ch).2 = [removeSessionContext p.guid (.packet x)]) := by
  have hopen := SameButIngress.openWindow s x ch.now
  have hcount : SameButIngress s ((s.openWindow x ch.now).countPacket x) :=
    ⟨hopen.registry, hopen.schedule, hopen.running, hopen.io⟩
  simp only [processSessionPacket]
  split
  · refine ⟨.refl s, ?_⟩
    split
    · exact Or.inr rfl
    · exact Or.inl rfl
  · -- the window is opened before the packet is counted
    split
    · refine ⟨hopen, ?_⟩
      split
      · exact Or.inr rfl
      · exact Or.inl rfl
    · split
      · exact ⟨hcount, Or.inr rfl⟩
      · exact ⟨hcount, Or.inr rfl⟩
      · exact ⟨hcount, Or.inl rfl⟩

/-- The accesses to the flush schedule. -/
def Op.schedules : Op Guid → Bool
  | .enqueueCommand _ _ | .applyCommand _ _ | .drainFlushScheduleCommands _ _ | .popDue _ _
  | .clearFlushSchedule => true
  | _ => false

/-- What an access changes. -/
structure Effect (s s' : State Guid) (op : Op Guid) : Prop where
  registry : s'.registry = op.onRegistry s.registry
  schedule : op.schedules = false → s'.schedule = s.schedule
  running : s'.mRunning = s.mRunning
  io : s'.mIoPumpThread = s.mIoPumpThread ∨
    op = .joinIo ∧ s.mIoPumpThread = .idle ∧ s'.mIoPumpThread = .absent

/-- **Effects.** An access changes nothing else. -/
theorem execOp_effect {s s' : State Guid} {producer : ℕ} {ch : Choice} {op : Op Guid}
    {ops : List (Op Guid)} {ts : List (Thread Guid)}
    (h : execOp cfg s producer ch op = some (s', ops, ts)) : Effect s s' op := by
  cases op with
  | processIncomingPacket p =>
    obtain rfl : (processIncomingPacket cfg s p ch).1 = s' := by rw [Option.some.inj h]
    -- the I/O thread only looks the session up, and counts the task it starts
    rcases (processIncomingPacket_registry s p ch : (processIncomingPacket cfg s p ch).1 = s ∨ _)
      with h1 | h1
    · rw [h1]; exact ⟨rfl, fun _ => rfl, rfl, Or.inl rfl⟩
    · rw [h1]; exact ⟨rfl, fun _ => rfl, rfl, Or.inl rfl⟩
  | processSessionPacket p x =>
    obtain rfl := state_eq h
    -- a strand task writes the ingress window of its session
    have hsame : SameButIngress s (processSessionPacket cfg s p x ch).1 :=
      (processSessionPacket_inv s p x ch).1
    exact ⟨hsame.registry, fun _ => hsame.schedule, hsame.running, Or.inl hsame.io⟩
  | applyCommand c why =>
    obtain ⟨q, -, hq⟩ := Option.map_eq_some_iff.mp h
    obtain rfl := state_eq (congrArg some hq)
    exact ⟨rfl, fun hs => absurd hs (by simp [Op.schedules]), rfl, Or.inl rfl⟩
  | clearFlushSchedule =>
    obtain ⟨q, -, hq⟩ := Option.map_eq_some_iff.mp h
    obtain rfl := state_eq (congrArg some hq)
    exact ⟨rfl, fun hs => absurd hs (by simp [Op.schedules]), rfl, Or.inl rfl⟩
  | drainFlushScheduleCommands left now =>
    cases left with
    | zero =>
      -- nothing is drained any more
      obtain rfl := state_eq h
      exact ⟨rfl, fun _ => rfl, rfl, Or.inl rfl⟩
    | succ left =>
      obtain ⟨q, -, hq⟩ := Option.map_eq_some_iff.mp h
      obtain rfl := state_eq (congrArg some hq)
      exact ⟨rfl, fun hs => absurd hs (by simp [Op.schedules]), rfl, Or.inl rfl⟩
  | popDue left now =>
    obtain rfl := state_eq h
    exact ⟨rfl, fun hs => absurd hs (by simp [Op.schedules]), rfl, Or.inl rfl⟩
  | upsertSessionContext g | eraseContext g after | exchangeConnected x | loadPeer x
  | closeConnection x | closeRemote g | release x | detachPeer x | collectContexts | collectKeys =>
    obtain rfl := state_eq h
    exact ⟨rfl, fun _ => rfl, rfl, Or.inl rfl⟩
  | enqueueCommand c why =>
    simp only [execOp] at h
    split at h <;>
      (obtain rfl := state_eq h
       exact ⟨rfl, fun hs => absurd hs (by simp [Op.schedules]), rfl, Or.inl rfl⟩)
  | checkConnected e x now | enqueueFlush e x now | reschedule g x prev now | findContext e now =>
    simp only [execOp] at h
    -- both branches leave what is shared as it is
    split at h <;> (obtain rfl := state_eq h; exact ⟨rfl, fun _ => rfl, rfl, Or.inl rfl⟩)
  | joinIo =>
    simp only [execOp] at h
    split at h
    · next hidle =>
      -- the thread is joined when it is between packets
      obtain rfl := state_eq h
      exact ⟨rfl, fun _ => rfl, rfl, Or.inr ⟨rfl, hidle, rfl⟩⟩
    · exact absurd h (by simp)
  | waitForPendingFlushJobs | waitForPendingSessionPacketTasks =>
    simp only [execOp] at h
    split at h
    · obtain rfl := state_eq h
      exact ⟨rfl, fun _ => rfl, rfl, Or.inl rfl⟩
    · exact absurd h (by simp)

/-! ### Successors -/

/-- `Successor s op o`: in state `s`, the access `op` may be followed by `o`. -/
inductive Successor (s : State Guid) : Op Guid → Op Guid → Prop
  | emptyDisconnect {p : Packet Guid} {x : Context Guid} :
      s.registry.mSessionContexts p.guid = some x →
      Successor s (.processIncomingPacket p) (.exchangeConnected x)
  | emptyRemove {p : Packet Guid} :
      Successor s (.processIncomingPacket p) (removeSessionContext p.guid .discard)
  | incomingRelease {p : Packet Guid} {x : Context Guid} :
      Successor s (.processIncomingPacket p) (.release x)
  | emptyClose {p : Packet Guid} : Successor s (.processIncomingPacket p) (.closeRemote p.guid)
  | newIncoming {p : Packet Guid} :
      Successor s (.processIncomingPacket p) (.upsertSessionContext p.guid)
  | connect {g : Guid} {due : ℤ} :
      Successor s (.upsertSessionContext g) (.enqueueCommand (.schedule g due) .connect)
  | packetRemove {p : Packet Guid} {x : Context Guid} :
      Successor s (.processSessionPacket p x) (removeSessionContext p.guid (.packet x))
  | queuedRemoval {c : Command Guid} {after : After Guid} :
      Successor s (.enqueueCommand c (.removal after)) (.eraseContext c.guid after)
  | refused {c : Command Guid} {why : Why Guid} :
      Successor s (.enqueueCommand c why) (.applyCommand c why)
  | appliedRemoval {c : Command Guid} {after : After Guid} :
      Successor s (.applyCommand c (.removal after)) (.eraseContext c.guid after)
  | erased {g : Guid} {after : After Guid} {x : Context Guid} :
      x ∈ after.disconnects (s.registry.mSessionContexts g) →
      Successor s (.eraseContext g after) (.exchangeConnected x)
  | exchanged {x : Context Guid} : s.registry.mConnected x = true →
      Successor s (.exchangeConnected x) (.loadPeer x)
  | loaded {x : Context Guid} : s.registry.mPeer x = true →
      Successor s (.loadPeer x) (.closeConnection x)
  | drained {left : ℕ} {now : ℤ} :
      Successor s (.drainFlushScheduleCommands (left + 1) now) (.popDue left now)
  | popped {left : ℕ} {now : ℤ} {e : FlushDueEntry Guid} :
      Successor s (.popDue left now) (.findContext e now)
  | continued {left left' : ℕ} {now : ℤ} :
      Successor s (.popDue left now) (.drainFlushScheduleCommands left' now)
  | notFound {e : FlushDueEntry Guid} {now : ℤ} :
      Successor s (.findContext e now) (.enqueueCommand (.cancel e.mGuid) .flush)
  | found {e : FlushDueEntry Guid} {x : Context Guid} {now : ℤ} :
      s.registry.mSessionContexts e.mGuid = some x →
      Successor s (.findContext e now) (.checkConnected e x now)
  | connected {e : FlushDueEntry Guid} {x : Context Guid} {now : ℤ} :
      Successor s (.checkConnected e x now) (.enqueueFlush e x now)
  | disconnected {e : FlushDueEntry Guid} {x : Context Guid} {now : ℤ} :
      Successor s (.checkConnected e x now) (.enqueueCommand (.cancel e.mGuid) .flush)
  | checkRelease {e : FlushDueEntry Guid} {x : Context Guid} {now : ℤ} :
      Successor s (.checkConnected e x now) (.release x)
  | inlineReschedule {e : FlushDueEntry Guid} {x : Context Guid} {now : ℤ} :
      Successor s (.enqueueFlush e x now) (.reschedule e.mGuid x e.mDue now)
  | flushRelease {e : FlushDueEntry Guid} {x : Context Guid} {now : ℤ} :
      Successor s (.enqueueFlush e x now) (.release x)
  | rescheduled {g : Guid} {x : Context Guid} {prev now due : ℤ} :
      Successor s (.reschedule g x prev now) (.enqueueCommand (.schedule g due) .flush)
  | cancelled {g : Guid} {x : Context Guid} {prev now : ℤ} :
      Successor s (.reschedule g x prev now) (.enqueueCommand (.cancel g) .flush)
  | teardownDisconnect {x : Context Guid} : x ∈ s.registry.entries →
      Successor s .collectContexts (.exchangeConnected x)
  | teardownDetach {x : Context Guid} : Successor s .collectContexts (.detachPeer x)
  | teardownRemove {x : Context Guid} :
      Successor s .collectKeys (removeSessionContext x.guid .discard)

/-- The I/O thread's operations after its dispatch. -/
theorem processIncomingPacket_successor (s : State Guid) (p : Packet Guid) (ch : Choice) :
    ∀ o ∈ (processIncomingPacket cfg s p ch).2.1, Successor s (.processIncomingPacket p) o := by
  simp only [processIncomingPacket]
  split
  · -- an empty packet ends its session, or closes a connection without one
    split
    · split
      · next x hx =>
        intro o ho
        simp only [List.mem_cons, List.not_mem_nil, or_false] at ho
        rcases ho with rfl | rfl | rfl
        · exact .emptyDisconnect hx
        · exact .emptyRemove
        · exact .incomingRelease
      · intro o ho
        rw [List.mem_singleton.mp ho]
        exact .emptyClose
    · exact fun o ho => absurd ho List.not_mem_nil
  · split
    · exact fun o ho => absurd ho List.not_mem_nil
    · intro o ho
      rcases List.mem_cons.mp ho with rfl | ho
      · exact .newIncoming
      · obtain ⟨x, -, rfl⟩ := List.mem_map.mp ho
        exact .incomingRelease
    · exact fun o ho => absurd ho List.not_mem_nil
    · split <;> exact fun o ho => absurd ho List.not_mem_nil

/-- What the tick does next is one of the successors. -/
theorem popDue_successor (s : State Guid) (left : ℕ) (now : ℤ) :
    ∀ o ∈ (popDue s.schedule left now).2, Successor s (.popDue left now) o := by
  unfold popDue
  split
  · exact fun o ho => absurd ho List.not_mem_nil
  · split
    · exact fun o ho => absurd ho List.not_mem_nil
    · split
      · intro o ho
        simp only [List.mem_cons, List.not_mem_nil, or_false] at ho
        rcases ho with rfl | rfl
        · exact .popped
        · exact .continued
      · intro o ho
        rw [List.mem_singleton.mp ho]
        exact .continued

/-- **Successors.** What an access puts in its place are its successors. -/
theorem execOp_successor {s s' : State Guid} {producer : ℕ} {ch : Choice} {op : Op Guid}
    {ops : List (Op Guid)} {ts : List (Thread Guid)}
    (h : execOp cfg s producer ch op = some (s', ops, ts)) : ∀ o ∈ ops, Successor s op o := by
  intro o ho
  cases op with
  | processIncomingPacket p =>
    have hops : (processIncomingPacket cfg s p ch).2.1 = ops := by
      rw [Option.some.inj h]
    exact processIncomingPacket_successor s p ch o (hops ▸ ho)
  | upsertSessionContext g =>
    obtain rfl := ops_eq h
    rw [List.mem_singleton.mp ho]
    exact .connect
  -- nothing follows, or the removal of the session
  | processSessionPacket p x =>
    obtain rfl := ops_eq h
    have hinv : (processSessionPacket cfg s p x ch).2 = [] ∨ _ :=
      (processSessionPacket_inv s p x ch).2
    rcases hinv with hnil | hremove
    · rw [hnil] at ho; exact absurd ho List.not_mem_nil
    · rw [hremove] at ho
      rw [List.mem_singleton.mp ho]
      exact .packetRemove
  | enqueueCommand c why =>
    simp only [execOp] at h
    split at h
    · obtain rfl := ops_eq h
      -- what the removal has to do after its command
      obtain ⟨after, rfl, rfl⟩ := mem_next ho
      exact .queuedRemoval
    · obtain rfl := ops_eq h
      rw [List.mem_singleton.mp ho]
      exact .refused
  | applyCommand c why =>
    obtain ⟨q, -, hq⟩ := Option.map_eq_some_iff.mp h
    obtain rfl := ops_eq (congrArg some hq)
    obtain ⟨after, rfl, rfl⟩ := mem_next ho
    exact .appliedRemoval
  -- a context that is not just dropped is disconnected
  | eraseContext g after =>
    obtain rfl := ops_eq h
    obtain ⟨x, hx, rfl⟩ := List.mem_map.mp ho
    exact .erased hx
  -- only the first exchange goes on to the peer
  | exchangeConnected x =>
    obtain rfl := ops_eq h
    split at ho
    · next hx =>
      rw [List.mem_singleton.mp ho]
      exact .exchanged hx
    · exact absurd ho List.not_mem_nil
  | loadPeer x =>
    obtain rfl := ops_eq h
    split at ho
    · next hx =>
      rw [List.mem_singleton.mp ho]
      exact .loaded hx
    · exact absurd ho List.not_mem_nil
  | closeConnection x | closeRemote g | release x | detachPeer x =>
    obtain rfl := ops_eq h
    exact absurd ho List.not_mem_nil
  | drainFlushScheduleCommands left now =>
    cases left with
    | zero =>
      obtain rfl := ops_eq h
      exact absurd ho List.not_mem_nil
    | succ left =>
      obtain ⟨q, -, hq⟩ := Option.map_eq_some_iff.mp h
      obtain rfl := ops_eq (congrArg some hq)
      rw [List.mem_singleton.mp ho]
      exact .drained
  | popDue left now =>
    obtain rfl := ops_eq h
    exact popDue_successor s left now o ho
  -- an entry without a context is cancelled
  | findContext e now =>
    simp only [execOp] at h
    split at h
    · obtain rfl := ops_eq h
      rw [List.mem_singleton.mp ho]
      exact .notFound
    · next x hx =>
      obtain rfl := ops_eq h
      rw [List.mem_singleton.mp ho]
      exact .found hx
  | checkConnected e x now =>
    simp only [execOp] at h
    split at h
    · obtain rfl := ops_eq h
      rw [List.mem_singleton.mp ho]
      exact .connected
    · obtain rfl := ops_eq h
      simp only [List.mem_cons, List.not_mem_nil, or_false] at ho
      rcases ho with rfl | rfl
      · exact .disconnected
      · exact .checkRelease
  | enqueueFlush e x now =>
    simp only [execOp] at h
    split at h
    · obtain rfl := ops_eq h
      exact absurd ho List.not_mem_nil
    · obtain rfl := ops_eq h
      simp only [List.mem_cons, List.not_mem_nil, or_false] at ho
      rcases ho with rfl | rfl
      · exact .inlineReschedule
      · exact .flushRelease
  | reschedule g x prev now =>
    simp only [execOp] at h
    split at h
    · obtain rfl := ops_eq h
      rw [List.mem_singleton.mp ho]
      exact .rescheduled
    · obtain rfl := ops_eq h
      rw [List.mem_singleton.mp ho]
      exact .cancelled
  -- the waits of `stop` only pass or block
  | joinIo | waitForPendingFlushJobs | waitForPendingSessionPacketTasks =>
    simp only [execOp] at h
    split at h
    · obtain rfl := ops_eq h
      exact absurd ho List.not_mem_nil
    · exact absurd h (by simp)
  | clearFlushSchedule =>
    obtain ⟨q, -, hq⟩ := Option.map_eq_some_iff.mp h
    obtain rfl := ops_eq (congrArg some hq)
    exact absurd ho List.not_mem_nil
  | collectContexts =>
    obtain rfl := ops_eq h
    obtain ⟨x, hx, ho⟩ := List.mem_flatMap.mp ho
    simp only [List.mem_cons, List.not_mem_nil, or_false] at ho
    rcases ho with rfl | rfl
    · exact .teardownDisconnect hx
    · exact .teardownDetach
  | collectKeys =>
    obtain rfl := ops_eq h
    obtain ⟨x, -, rfl⟩ := List.mem_map.mp ho
    exact .teardownRemove

/-! ### New threads -/

/-- The strand tasks an access can start. -/
inductive Spawn (s : State Guid) : Op Guid → Thread Guid → Prop
  | packetTask {p : Packet Guid} {x : Context Guid} {worker : ℕ} :
      s.registry.mSessionContexts p.guid = some x →
      Spawn s (.processIncomingPacket p)
        ⟨⟨.packetTask x, worker⟩, [.processSessionPacket p x]⟩
  | flushTask {e : FlushDueEntry Guid} {x : Context Guid} {now : ℤ} {worker : ℕ} :
      Spawn s (.enqueueFlush e x now)
        ⟨⟨.flushTask x, worker⟩, [.reschedule e.mGuid x e.mDue now]⟩

/-- The threads a call or a packet starts. -/
inductive Arrival (cfg : Settings Guid) (s : State Guid) : Thread Guid → Prop
  | receive {p : Packet Guid} : s.mIoPumpThread = .idle →
      Arrival cfg s ⟨⟨.io, 0⟩, [.processIncomingPacket p]⟩
  | flushTick {producer : ℕ} {now : ℤ} :
      Arrival cfg s
        ⟨⟨.flushPump, producer⟩, [.drainFlushScheduleCommands cfg.mFlushReadyPerTick now]⟩
  | disconnectClient {producer : ℕ} {g : Guid} :
      Arrival cfg s ⟨⟨.user, producer⟩, [removeSessionContext g .client]⟩
  | disconnect {x : Context Guid} : x ∈ s.registry.inserted →
      Arrival cfg s ⟨⟨.user, 0⟩, [.exchangeConnected x]⟩
  | destroy {x : Context Guid} : x ∈ s.registry.inserted →
      Arrival cfg s ⟨⟨.destructor x, 0⟩, [.exchangeConnected x]⟩
  | stop {producer : ℕ} : Arrival cfg s ⟨⟨.stop, producer⟩, stopCode s.mRunning⟩

/-- The threads that an operation starts are strand tasks or flushes. -/
theorem execOp_spawns {s s' : State Guid} {producer : ℕ} {ch : Choice} {op : Op Guid}
    {ops : List (Op Guid)} {ts : List (Thread Guid)}
    (h : execOp cfg s producer ch op = some (s', ops, ts)) : ∀ t ∈ ts, Spawn s op t := by
  intro t ht
  cases op with
  | processIncomingPacket p =>
    have hts : (processIncomingPacket cfg s p ch).2.2 = ts := by rw [Option.some.inj h]
    rw [← hts] at ht
    simp only [processIncomingPacket] at ht
    split at ht
    · split at ht
      · -- an empty packet starts no task
        split at ht <;> exact absurd ht List.not_mem_nil
      · exact absurd ht List.not_mem_nil
    · split at ht
      · exact absurd ht List.not_mem_nil
      · exact absurd ht List.not_mem_nil
      · exact absurd ht List.not_mem_nil
      · next x hx _ _ =>
        -- a packet of a known session, where it is accepted
        split at ht
        · rw [List.mem_singleton.mp ht]
          exact .packetTask hx
        · exact absurd ht List.not_mem_nil
  | enqueueFlush e x now =>
    simp only [execOp] at h
    split at h
    · obtain rfl := spawns_eq h
      rw [List.mem_singleton.mp ht]
      -- the pool has accepted the task
      exact .flushTask
    · obtain rfl := spawns_eq h
      exact absurd ht List.not_mem_nil
  | applyCommand c why =>
    obtain ⟨q, -, hq⟩ := Option.map_eq_some_iff.mp h
    obtain rfl := spawns_eq (congrArg some hq)
    exact absurd ht List.not_mem_nil
  | clearFlushSchedule =>
    obtain ⟨q, -, hq⟩ := Option.map_eq_some_iff.mp h
    obtain rfl := spawns_eq (congrArg some hq)
    exact absurd ht List.not_mem_nil
  | drainFlushScheduleCommands left now =>
    cases left with
    | zero =>
      obtain rfl := spawns_eq h
      exact absurd ht List.not_mem_nil
    | succ left =>
      obtain ⟨q, -, hq⟩ := Option.map_eq_some_iff.mp h
      obtain rfl := spawns_eq (congrArg some hq)
      exact absurd ht List.not_mem_nil
  | processSessionPacket p x | upsertSessionContext g | eraseContext g after
  | exchangeConnected x | loadPeer x | closeConnection x | closeRemote g | release x
  | detachPeer x | popDue left now | collectContexts | collectKeys =>
    obtain rfl := spawns_eq h
    exact absurd ht List.not_mem_nil
  | enqueueCommand c why | checkConnected e x now | reschedule g x prev now
  | findContext e now =>
    simp only [execOp] at h
    split at h <;> (obtain rfl := spawns_eq h; exact absurd ht List.not_mem_nil)
  | joinIo | waitForPendingFlushJobs | waitForPendingSessionPacketTasks =>
    simp only [execOp] at h
    split at h
    · obtain rfl := spawns_eq h
      exact absurd ht List.not_mem_nil
    · exact absurd h (by simp)

/-- A call or a packet starts a thread and leaves the sessions alone. -/
theorem env_arrival {s s' : State Guid} {pool new : List (Thread Guid)} {a : Call Guid}
    (h : arrive cfg s pool a = some (s', new)) :
    s'.registry = s.registry ∧ ∀ t ∈ new, Arrival cfg s t := by
  cases a with
  | receive p =>
    simp only [arrive] at h
    split at h
    · next hidle =>
      -- one packet at a time
      obtain ⟨rfl, rfl⟩ := Prod.mk.inj (Option.some.inj h)
      exact ⟨rfl, fun t ht => List.mem_singleton.mp ht ▸ .receive hidle⟩
    · exact absurd h (by simp)
  | flushTick now producer =>
    simp only [arrive] at h
    split at h
    · obtain ⟨rfl, rfl⟩ := Prod.mk.inj (Option.some.inj h)
      exact ⟨rfl, fun t ht => List.mem_singleton.mp ht ▸ .flushTick⟩
    · exact absurd h (by simp)
  | disconnectClient g producer =>
    obtain ⟨rfl, rfl⟩ := Prod.mk.inj (Option.some.inj h)
    exact ⟨rfl, fun t ht => List.mem_singleton.mp ht ▸ .disconnectClient⟩
  | disconnect x =>
    simp only [arrive] at h
    split at h
    · next hx =>
      obtain ⟨rfl, rfl⟩ := Prod.mk.inj (Option.some.inj h)
      exact ⟨rfl, fun t ht => List.mem_singleton.mp ht ▸ .disconnect hx⟩
    · exact absurd h (by simp)
  | destroy x =>
    simp only [arrive] at h
    split at h
    · next hx =>
      obtain ⟨rfl, rfl⟩ := Prod.mk.inj (Option.some.inj h)
      exact ⟨rfl, fun t ht => List.mem_singleton.mp ht ▸ .destroy hx.1⟩
    · exact absurd h (by simp)
  | start is =>
    simp only [arrive] at h
    split at h
    · obtain ⟨q, -, hq⟩ := Option.map_eq_some_iff.mp h
      obtain ⟨rfl, rfl⟩ := Prod.mk.inj hq
      -- `start` begins with an empty schedule and no threads
      exact ⟨rfl, fun t ht => absurd ht List.not_mem_nil⟩
    · exact absurd h (by simp)
  | stop producer =>
    obtain ⟨rfl, rfl⟩ := Prod.mk.inj (Option.some.inj h)
    exact ⟨rfl, fun t ht => List.mem_singleton.mp ht ▸ .stop⟩

/-! ### Moves -/

@[simp] theorem scripts_exec (s : State Guid) (tag : Tag Guid) (ch : Choice) (op : Op Guid) :
    (scripts cfg).exec s tag ch op = execOp cfg s tag.producer ch op := rfl

@[simp] theorem scripts_finish (s : State Guid) (tag : Tag Guid) :
    (scripts cfg).finish s tag = Sessions.finish s tag.role := rfl

@[simp] theorem scripts_call (s : State Guid) (ts : List (Thread Guid)) (a : Call Guid) :
    (scripts cfg).call s ts a = arrive cfg s ts a := rfl

variable {c c' : Server Guid} {m : Move (Event Choice (Call Guid))}

/-- **Operations of a server.** A property of pending operations is kept by a move if the
registry's change does not disturb it, and successors, strand tasks and arrivals have
it. -/
theorem step_ops {R : Registry Guid → Role Guid → Op Guid → Prop}
    (h : (scripts cfg).program.step c m = some c')
    (hc : ∀ t ∈ c.threads, ∀ op ∈ t.code, R c.shared.registry t.tag.role op)
    (hkeep : ∀ t ∈ c.threads, ∀ op ∈ t.code,
      R c.shared.registry t.tag.role op → R c'.shared.registry t.tag.role op)
    (hsucc : ∀ t op o, Does ⟨c, m, c'⟩ t op → Successor c.shared op o →
      R c.shared.registry t.tag.role op → R c'.shared.registry t.tag.role o)
    (hspawn : ∀ op t, Spawn c.shared op t → ∀ o ∈ t.code, R c'.shared.registry t.tag.role o)
    (harrive : ∀ t, Arrival cfg c.shared t → ∀ o ∈ t.code, R c'.shared.registry t.tag.role o) :
    ∀ t ∈ c'.threads, ∀ op ∈ t.code, R c'.shared.registry t.tag.role op := by
  refine ops_step (R := fun tag => R c.shared.registry tag.role)
    (Q := fun tag => R c'.shared.registry tag.role) h hc hkeep ?_ ?_
  · intro t op ch ops ts hdoes ht hop
    exact ⟨fun o ho => hsucc t op o hdoes (execOp_successor hop o ho) ht,
      fun u hu o ho => hspawn op u (execOp_spawns hop u hu) o ho⟩
  · intro a new _ hnew u hu o ho
    exact harrive u ((env_arrival hnew).2 u hu) o ho

/-- A move changes the registry by the access it performs, if any. -/
theorem step_registry
    (h : (scripts cfg).program.step c m = some c') :
    c'.shared.registry = c.shared.registry ∨
      ∃ t op, Does ⟨c, m, c'⟩ t op ∧ c'.shared.registry = op.onRegistry c.shared.registry := by
  cases step_cases h with
  | @access i ch t op rest ops s' ts others hi hperm hcode hop =>
    exact Or.inr ⟨t, op, does_of_head hi hcode, (execOp_effect hop).registry⟩
  | finish hi hperm hcode => exact Or.inl (registry_finish _ _)
  | arrive hnew => exact Or.inl (env_arrival hnew).1

/-! ### Well-formed registries -/

namespace Registry

/-- The map against the history of insertions. -/
structure WellFormed (r : Registry Guid) : Prop where
  /-- an entry is the context inserted last for its GUID -/
  newest : ∀ {g x}, r.mSessionContexts g = some x → r.newest g = some x
  /-- serials count the insertions -/
  serial_lt : ∀ x ∈ r.inserted, x.serial < r.inserted.length
  /-- later contexts have larger serials -/
  sorted : r.inserted.Pairwise fun x y => y.serial < x.serial

variable {r : Registry Guid}

/-- The newest context of a GUID was inserted for it. -/
theorem newest_mem {g : Guid} {x : Context Guid} (h : r.newest g = some x) :
    x ∈ r.inserted ∧ x.guid = g := by
  unfold Registry.newest at h
  exact ⟨List.mem_of_find?_eq_some h, by simpa using List.find?_some h⟩

/-- Every context is the newest of its GUID or older than it. -/
theorem WellFormed.newest_or_older (hr : r.WellFormed) {x : Context Guid}
    (hx : x ∈ r.inserted) :
    r.newest x.guid = some x ∨
      ∃ y, r.newest x.guid = some y ∧ x.serial < y.serial := by
  have hsorted := hr.sorted
  unfold Registry.newest
  generalize r.inserted = history at hx hsorted
  -- the history has the newest first
  induction history with
  | nil => exact absurd hx List.not_mem_nil
  | cons y ys ih =>
    obtain ⟨hy, hys⟩ := List.pairwise_cons.mp hsorted
    by_cases hguid : y.guid = x.guid
    · rw [List.find?_cons_of_pos (by simpa using hguid)]
      rcases List.mem_cons.mp hx with rfl | hx
      · exact Or.inl rfl
      · exact Or.inr ⟨y, rfl, hy x hx⟩
    · rw [List.find?_cons_of_neg (by simpa using hguid)]
      rcases List.mem_cons.mp hx with rfl | hx
      · exact absurd rfl hguid
      · exact ih hx hys

/-- A new context is none of those that were inserted. -/
theorem WellFormed.fresh_notMem (hr : r.WellFormed) (g : Guid) : r.fresh g ∉ r.inserted :=
  fun h => Nat.lt_irrefl _ (hr.serial_lt _ h)

/-- The context that was inserted is the newest one. -/
@[simp] theorem newest_upsert (g g' : Guid) :
    (r.upsert g).newest g' = if g = g' then some (r.fresh g) else r.newest g' := by
  split
  · next h => exact List.find?_cons_of_pos (decide_eq_true h)
  · next h => exact List.find?_cons_of_neg fun hc => h (of_decide_eq_true hc)

/-- The history after an access. -/
theorem inserted_onRegistry (op : Op Guid) :
    (op.onRegistry r).inserted = r.inserted ∨
      ∃ g, op = .upsertSessionContext g ∧ (op.onRegistry r).inserted = r.fresh g :: r.inserted := by
  cases op with
  | upsertSessionContext g => exact Or.inr ⟨g, rfl, rfl⟩
  | _ => exact Or.inl rfl

/-- No context is forgotten. -/
theorem inserted_subset (op : Op Guid) {x : Context Guid} (h : x ∈ r.inserted) :
    x ∈ (op.onRegistry r).inserted := by
  rcases inserted_onRegistry (r := r) op with heq | ⟨g, -, heq⟩
  · rw [heq]; exact h
  · rw [heq]; exact List.mem_cons_of_mem _ h

/-- Every operation keeps the registry well formed. -/
theorem WellFormed.onRegistry (hr : r.WellFormed) (op : Op Guid) :
    (op.onRegistry r).WellFormed := by
  cases op with
  -- the fresh context is newer than any other, and the newest of its GUID
  | upsertSessionContext g =>
    refine ⟨fun {g' x} h => ?_, fun x hx => ?_, ?_⟩
    · change Function.update r.mSessionContexts g (some (r.fresh g)) g' = some x at h
      rw [Function.update_apply] at h
      change (r.upsert g).newest g' = some x
      rw [newest_upsert]
      split at h
      · next hg => rw [if_pos hg.symm, h]
      · next hg => rw [if_neg (Ne.symm hg)]; exact hr.newest h
    · change x.serial < (r.fresh g :: r.inserted).length
      rcases List.mem_cons.mp hx with rfl | hx
      · exact Nat.lt_succ_self _
      · exact Nat.lt_succ_of_lt (hr.serial_lt x hx)
    · exact List.pairwise_cons.mpr ⟨fun y hy => hr.serial_lt y hy, hr.sorted⟩
  -- an entry that is left is still the newest of its GUID
  | eraseContext g after =>
    refine ⟨fun {g' x} h => ?_, hr.serial_lt, hr.sorted⟩
    change Function.update r.mSessionContexts g none g' = some x at h
    rw [Function.update_apply] at h
    split at h
    · exact absurd h (by simp)
    · exact hr.newest h
  | _ => exact ⟨hr.newest, hr.serial_lt, hr.sorted⟩

/-- An empty registry is well formed. -/
theorem wellFormed_initial : (State.initial : State Guid).registry.WellFormed :=
  ⟨fun h => absurd h (by simp [State.initial]), fun _ h => absurd h List.not_mem_nil, .nil⟩

end Registry

/-- So does every step. -/
theorem step_wellFormed 
    (hc : c.shared.registry.WellFormed) (h : (scripts cfg).program.step c m = some c') :
    c'.shared.registry.WellFormed := by
  rcases step_registry h with heq | ⟨t, op, -, heq⟩
  · rw [heq]; exact hc
  · rw [heq]; exact hc.onRegistry op

/-- Contexts are never forgotten. -/
theorem step_inserted 
    (h : (scripts cfg).program.step c m = some c') {x : Context Guid}
    (hx : x ∈ c.shared.registry.inserted) : x ∈ c'.shared.registry.inserted := by
  rcases step_registry h with heq | ⟨t, op, -, heq⟩
  · rw [heq]; exact hx
  · rw [heq]; exact Registry.inserted_subset op hx

/-- A session that is connected after a move was connected before, or has just been
inserted. -/
theorem connected_step 
    (h : (scripts cfg).program.step c m = some c') {y : Context Guid}
    (hy : c'.shared.registry.mConnected y = true) :
    c.shared.registry.mConnected y = true ∨
      c'.shared.registry = c.shared.registry.upsert y.guid ∧
      y = c.shared.registry.fresh y.guid := by
  rcases step_registry h with heq | ⟨t, op, -, heq⟩
  · exact Or.inl (heq ▸ hy)
  · rw [heq] at hy
    cases op with
    | upsertSessionContext g =>
      change Function.update c.shared.registry.mConnected (c.shared.registry.fresh g) true y =
        true at hy
      rw [Function.update_apply] at hy
      split at hy
      · next hfresh =>
        -- the context just inserted
        subst hfresh
        exact Or.inr ⟨heq, rfl⟩
      · exact Or.inl hy
    | exchangeConnected x =>
      change Function.update c.shared.registry.mConnected x false y = true at hy
      rw [Function.update_apply] at hy
      split at hy
      · exact absurd hy (by simp)
      · exact Or.inl hy
    | _ => exact Or.inl hy

/-- An entry with a connected session was there before, unless its GUID has just been
inserted. -/
theorem entry_step 
    (hc : c.shared.registry.WellFormed) (h : (scripts cfg).program.step c m = some c') {g : Guid}
    {y : Context Guid} (hentry : c'.shared.registry.mSessionContexts g = some y)
    (hy : c'.shared.registry.mConnected y = true) :
    (c.shared.registry.mSessionContexts g = some y ∧ c.shared.registry.mConnected y = true) ∨
      ∃ t, Does ⟨c, m, c'⟩ t (.upsertSessionContext g) := by
  rcases step_registry h with heq | ⟨t, op, hdoes, heq⟩
  · rw [heq] at hentry hy
    exact Or.inl ⟨hentry, hy⟩
  · rw [heq] at hentry
    by_cases hop : op = .upsertSessionContext g
    · exact Or.inr ⟨t, hop ▸ hdoes⟩
    · have hold : c.shared.registry.mSessionContexts g = some y := by
        cases op with
        | upsertSessionContext g' =>
          change Function.update c.shared.registry.mSessionContexts g' _ g = some y at hentry
          rwa [Function.update_of_ne fun hg => hop (by rw [hg])] at hentry
        | eraseContext g' after =>
          change Function.update c.shared.registry.mSessionContexts g' none g = some y at hentry
          rw [Function.update_apply] at hentry
          split at hentry
          · exact absurd hentry (by simp)
          · exact hentry
        | _ => exact hentry
      rcases connected_step h hy with hconn | ⟨-, hfresh⟩
      · exact Or.inl ⟨hold, hconn⟩
      · -- an entry is not a context that is yet to be inserted
        have hmem := (Registry.newest_mem (hc.newest hold)).1
        exact absurd (hfresh ▸ hmem) (hc.fresh_notMem _)

end Sessions
end SculkProtocol
