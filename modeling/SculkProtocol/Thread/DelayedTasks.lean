import SculkProtocol.Thread.PoolWakeups

/-!
# Delayed tasks of `ThreadPool`

The heap of a worker is sorted by due time (`SortedHeaps`), so its front is the earliest.
A delayed task stands in its heap with its due time from its insertion on, and nowhere
else (`Held`), until it is taken: when it is due, or when the pool is stopping.
-/

namespace SculkProtocol
namespace ThreadPool

open Scripts

variable {n : ℕ}

/-! ### The heap -/

/-- The order in which the entries of a heap are popped. -/
def DueOrder (es : List DelayedEntry) : Prop := es.Pairwise fun e e' => e.mDue ≤ e'.mDue

def SortedHeaps (s : State n) : Prop := ∀ w, DueOrder (s.mWorkerStates w).mDelayedTasks

/-- An entry is put at its due time. -/
theorem dueOrder_pushDelayed (e : DelayedEntry) {es : List DelayedEntry} (hes : DueOrder es) :
    DueOrder (pushDelayed e es) := by
  induction es with
  | nil => exact List.pairwise_singleton _ _
  | cons e' es ih =>
    obtain ⟨hfront, htail⟩ := List.pairwise_cons.mp hes
    rw [pushDelayed]
    split
    · next hlt =>
      refine List.pairwise_cons.mpr ⟨fun x hx => ?_, hes⟩
      rcases List.mem_cons.mp hx with rfl | hx
      · omega
      · have hle := hfront x hx
        omega
    · next hge =>
      -- behind the entries that are due no later
      refine List.pairwise_cons.mpr ⟨fun x hx => ?_, ih htail⟩
      rcases List.mem_cons.mp ((pushDelayed_perm e es).mem_iff.mp hx) with rfl | hx
      · omega
      · exact hfront x hx

section Step

variable {s s' : State n} {producer : ℕ} {ch : Choice} {op : Op n} {ops : List (Op n)}

/-- What a step does to the queue and the heap of a worker: an entry is inserted, or taken. -/
theorem Step.entries (h : Step s producer ch op s' ops) (w : Fin n) :
    (∃ r, op = .insert w r ∧ s'.mWorkerStates w = (s.mWorkerStates w).insert producer ch.now r) ∨
    ((s'.mWorkerStates w).mTasks.Sublist (s.mWorkerStates w).mTasks ∧
      (s'.mWorkerStates w).mDelayedTasks.Sublist (s.mWorkerStates w).mDelayedTasks) := by
  cases h with
  | insert r v =>
    by_cases hv : w = v
    · subst hv; exact Or.inl ⟨r, rfl, by simp⟩
    · exact Or.inr (by simp [hv])
  -- what is taken leaves the others in their order
  | take v phase x ws htake =>
    refine Or.inr ?_
    by_cases hv : w = v
    · subst hv
      rcases tryTake_inv htake with ⟨-, q, hd, rfl⟩ | ⟨-, e, es, hes, -, rfl, -⟩
      · obtain ⟨p, pre, post, hq, rfl, -⟩ := ConcurrentQueue.tryDequeue_inv hd
        simp [hq]
      · simp [hes]
    · simp [hv]
  | accept r v | wake v | requestStop v | signalled v =>
    by_cases hv : w = v
    · subst hv; exact Or.inr (by simp)
    · exact Or.inr (by simp [hv])
  | done v phase => cases phase <;> exact Or.inr ⟨.refl _, .refl _⟩
  | inner v y phase a => cases a <;> exact Or.inr ⟨.refl _, .refl _⟩
  | _ => exact Or.inr ⟨.refl _, .refl _⟩

/-- A step keeps the heaps sorted. -/
theorem Step.sorted (h : Step s producer ch op s' ops) (hs : SortedHeaps s) : SortedHeaps s' := by
  intro w
  rcases h.entries w with ⟨⟨y, delay⟩, -, hw⟩ | ⟨-, hdelayed⟩
  · rw [hw]
    cases delay with
    | none => exact hs w
    | some delay => exact dueOrder_pushDelayed _ (hs w)
  · exact (hs w).sublist hdelayed

/-- A worker begins a task that it has just taken. -/
theorem Step.begins (h : Step s producer ch op s' ops) {w : Fin n} {x : ℕ}
    (hlog : s'.log = .begun w x :: s.log) : ∃ phase ws, op = .take w phase ∧
      (s.mWorkerStates w).tryTake ch phase = some (some (x, ws)) := by
  cases h with
  | take v phase y ws htake =>
    obtain ⟨rfl, rfl⟩ : v = w ∧ y = x := by simpa using hlog
    exact ⟨phase, ws, rfl, htake⟩
  | done v phase => cases phase <;> exact absurd hlog (by simp [Phase.leave])
  | inner v y phase a => cases a <;> exact absurd hlog (by simp [Call.enter])
  | _ => exact absurd hlog (by simp)

end Step

/-- So does any change of the threads. -/
theorem Moved.sorted {c c' : Pool n} {o : Option (Op n)} (h : Moved c c' o)
    (hc : SortedHeaps c.shared) : SortedHeaps c'.shared := by
  rcases h.quiet with ⟨producer, ch, op, ops, -, hstep, -⟩ | ⟨-, k, hs, -⟩
  · exact hstep.sorted hc
  · rw [hs]
    exact hc

/-! ### A delayed task in its heap -/

/-- The submission of `x` has not inserted it yet. -/
def Op.unplaced (x : ℕ) : Op n → Bool
  | .loadAccepting r | .addInFlight r | .recheckAccepting r | .chooseWorker r | .insert _ r =>
    r.task == x
  | _ => false

/-- The task `x` has been inserted with the due time `due`. -/
structure Held (x : ℕ) (due : ℤ) (c : Pool n) : Prop where
  known : x < c.shared.next
  inserted : pending (Op.unplaced x) c = 0
  tasks : ∀ w, ∀ e ∈ (c.shared.mWorkerStates w).mTasks, e.2 ≠ x
  delayed : ∀ w, ∀ e ∈ (c.shared.mWorkerStates w).mDelayedTasks, e.mTask = x → due ≤ e.mDue

/-- A task that has no place is being submitted. -/
theorem Op.submits_of_unplaced {op : Op n} {x : ℕ} (h : op.unplaced x = true) :
    op.submits x = true := by
  cases op <;> simp [Op.unplaced] at h <;> simp [Op.submits, h]

/-- A submission returns or has still to place its task. -/
theorem Op.submits_of_returns_unplaced (op : Op n) (w : Fin n) (x : ℕ) :
    (op.returns w x).toNat + (op.unplaced x).toNat ≤ (op.submits x).toNat := by
  cases op with
  | subInFlight v r enqueued =>
    cases enqueued with
    | true =>
      by_cases hx : r.task = x <;> simp [Op.returns, Op.unplaced, Op.submits, hx]
      exact Bool.toNat_le _
    | false => simp [Op.returns, Op.unplaced]
  | releaseSignal v r =>
    by_cases hx : r.task = x <;> simp [Op.returns, Op.unplaced, Op.submits, hx]
    exact Bool.toNat_le _
  | _ => simp [Op.returns, Op.unplaced, Op.submits]

section Held

variable {c c' : Pool n} {producer : ℕ} {ch : Choice} {op : Op n} {ops : List (Op n)}
  {x : ℕ} {due : ℤ}

/-- No insertion of `x` comes up but by its own submission. -/
theorem Step.unplaced {s s' : State n} (h : Step s producer ch op s' ops) (hx : x < s.next)
    (hop : op.unplaced x = false) : ops.countP (Op.unplaced x) = 0 ∧ x < s'.next := by
  cases h with
  | inner v y phase a =>
    cases a <;> simp [Call.enter, Op.unplaced, hx] <;> omega
  | done v phase => cases phase <;> simp [Phase.next, Phase.leave, Op.unplaced, hx]
  | close => split <;> simp [Op.unplaced, hx]
  | stop => split <;> simp [Op.unplaced, List.countP_map, Function.comp_def, hx]
  | wait v op hor => rcases hor with rfl | rfl | rfl <;> simp [Op.unplaced, hx]
  | enter r | count r | recheck r | choose r => simpa [Op.unplaced, hx] using hop
  | _ => simp [Op.unplaced, hx]

/-- A delayed task stays where it is until it is due. -/
theorem Moved.held {o : Option (Op n)} (h : Moved c c' o) (hc : Held x due c) : Held x due c' := by
  cases h with
  | @access producer ch op ops hstep hp =>
    -- `x` is placed already, so no operation of the moving thread is about to place it
    have hop : op.unplaced x = false := by
      have hle := (hp (Op.unplaced x)).1
      rw [hc.inserted] at hle
      cases hop : op.unplaced x with
      | false => rfl
      | true => rw [hop] at hle; exact absurd hle (by decide)
    obtain ⟨hnone, hknown⟩ := hstep.unplaced hc.known hop
    refine ⟨hknown, ?_, fun w => ?_, fun w => ?_⟩
    · have hpool := (hp (Op.unplaced x)).2
      have hold := hc.inserted
      omega
    · -- a queue gains at most an entry of the task that is placed, which is not `x`
      rcases hstep.entries w with ⟨⟨y, delay⟩, rfl, hw⟩ | ⟨htasks, -⟩
      · have hy : y ≠ x := by simpa [Op.unplaced] using hop
        rw [hw]
        cases delay with
        | none => simpa [WorkerState.insert, or_imp, forall_and, hy] using hc.tasks w
        | some delay => exact hc.tasks w
      · exact fun e he => hc.tasks w e (htasks.mem he)
    · rcases hstep.entries w with ⟨⟨y, delay⟩, rfl, hw⟩ | ⟨-, hdelayed⟩
      · have hy : y ≠ x := by simpa [Op.unplaced] using hop
        rw [hw]
        cases delay with
        | none => exact hc.delayed w
        | some delay =>
          intro e he hx
          rcases List.mem_cons.mp ((pushDelayed_perm _ _).mem_iff.mp he) with rfl | he
          · exact absurd hx hy
          · exact hc.delayed w e he hx
      · exact fun e he => hc.delayed w e (hdelayed.mem he)
  | rest hs hp =>
    exact ⟨hs ▸ hc.known, by rw [hp]; exact hc.inserted, hs ▸ hc.tasks, hs ▸ hc.delayed⟩
  -- a new task gets a new number
  | arrive a hs hp =>
    have hcall : x < (a.enter c.shared).1.next ∧
        (a.enter c.shared).2.countP (Op.unplaced x) = 0 ∧
        (a.enter c.shared).1.mWorkerStates = c.shared.mWorkerStates := by
      have hknown := hc.known
      cases a <;> simp [Call.enter, Op.unplaced] <;> omega
    obtain ⟨hknown, hnone, hworkers⟩ := hcall
    refine ⟨hs ▸ hknown, ?_, ?_, ?_⟩
    · rw [hp, hnone, hc.inserted]
    · rw [hs, hworkers]
      exact hc.tasks
    · rw [hs, hworkers]
      exact hc.delayed

/-- Inserting a task takes no number. -/
theorem Step.next_insert {s s' : State n} {w : Fin n} {r : Submission}
    (h : Step s producer ch (.insert w r) s' ops) :
    s'.next = s.next ∧ ops.countP (Op.unplaced x) = 0 := by
  cases h with
  | last v _ op hor | signalled v op hor => exact absurd hor (by simp)
  | _ => exact ⟨rfl, by simp [Op.unplaced]⟩

/-- A task that has not been inserted yet is in no queue and in no heap. -/
theorem queued_of_unplaced (hc : Accounted c) (hpos : 0 < pending (Op.unplaced x) c) :
    x < c.shared.next ∧ pending (Op.unplaced x) c = 1 ∧ ∀ w,
    (c.shared.mWorkerStates w).queued x = 0 := by
  -- the task is submitted once, and its one submission has not returned
  have hanswers := hc.answers x
  have hle : pending (Op.unplaced x) c ≤ pending (Op.submits x) c :=
    pending_mono fun o => Op.submits_of_unplaced
  have hknown : x < c.shared.next := by
    by_contra hge
    rw [numbered, if_neg hge] at hanswers
    omega
  rw [numbered, if_pos hknown] at hanswers
  refine ⟨hknown, by omega, fun w => ?_⟩
  have hreturns := hc.returns w x
  have hboth : pending (Op.returns w x) c + pending (Op.unplaced x) c ≤ pending (Op.submits x) c :=
    pending_add_le fun o => Op.submits_of_returns_unplaced o w x
  have haccepted : c.shared.log.count (.accepted w x) ≤ c.shared.log.countP (LogEntry.answers x) :=
    List.countP_mono_left fun e _ he => by
      rw [beq_iff_eq] at he
      rw [he, answers_accepted]
  rw [State.placed] at hreturns
  omega

/-- From its insertion on a delayed task is held with its due time. -/
theorem held_of_insert {w : Fin n} {delay : ℤ} (hc : Accounted c)
    (hstep : Step c.shared producer ch (.insert w ⟨x, some delay⟩) c'.shared ops)
    (hp : Trades c c' (.insert w ⟨x, some delay⟩) ops) : Held x (ch.now + delay) c' := by
  -- it was not placed before, so it is in no queue and in no heap
  have hop : (Op.insert w ⟨x, some delay⟩).unplaced x = true := beq_self_eq_true x
  obtain ⟨hknown, hone, hqueued⟩ := queued_of_unplaced hc (hp.pos hop)
  obtain ⟨hnext, hnone⟩ := hstep.next_insert (x := x)
  refine ⟨hnext ▸ hknown, ?_, fun v => ?_, fun v => ?_⟩
  · have hpool := (hp (Op.unplaced x)).2
    rw [hop, Bool.toNat_true] at hpool
    omega
  · rcases hstep.entries v with ⟨r, hr, hv⟩ | ⟨hsub, -⟩
    · cases hr
      rw [hv]
      exact (queued_eq_zero (hqueued w)).1
    · exact fun e he => (queued_eq_zero (hqueued v)).1 e (hsub.mem he)
  · rcases hstep.entries v with ⟨r, hr, hv⟩ | ⟨-, hsub⟩
    · cases hr
      rw [hv]
      intro e he hx
      -- in the heap it is the entry that was pushed
      rcases List.mem_cons.mp ((pushDelayed_perm _ _).mem_iff.mp he) with rfl | he
      · exact Int.le_refl _
      · exact absurd hx ((queued_eq_zero (hqueued w)).2 e he)
    · exact fun e he hx => absurd hx ((queued_eq_zero (hqueued v)).2 e (hsub.mem he))

/-- A task that is held is begun when it is due, or in the last loop of a worker. -/
theorem Held.due_of_begins {s' : State n} (hc : Held x due c) {w : Fin n}
    (hstep : Step c.shared producer ch op s' ops)
    (hlog : s'.log = .begun w x :: c.shared.log) : due ≤ ch.now ∨ op.last w = true := by
  obtain ⟨phase, ws, rfl, htake⟩ := hstep.begins hlog
  rcases tryTake_inv htake with ⟨-, q, hd, -⟩ | ⟨hphase, e, es, hes, hx, -, hdue⟩
  · obtain ⟨p, pre, post, hq, -, -⟩ := ConcurrentQueue.tryDequeue_inv hd
    -- it is in no queue
    exact absurd rfl (hc.tasks w (p, x) (hq ▸ by simp))
  · have hle := hc.delayed w e (hes ▸ List.mem_cons_self) hx
    rcases hphase with rfl | rfl
    · -- taken because the front of the heap is due
      have hfront := hdue rfl
      exact Or.inl (by omega)
    · exact Or.inr (by simp [Op.last, Phase.isLast])

end Held

/-! ### The result -/

section Timed

variable {c c' : TimedPool n}

/-- What holds in every state of a pool with a clock. -/
structure TimedInvariant (c : TimedPool n) : Prop where
  tracked : Tracked c
  sorted : SortedHeaps c.shared.pool
  alert : ∀ w, Signalled w c ∨ Settled w c

/-- The invariant holds in every reachable state. -/
theorem timedInvariant_of_reachable {start : ℤ} (hc : (timedSystem n start).Reachable c) :
    TimedInvariant c := by
  refine hc.invariant ⟨tracked_initial n start, fun w => List.Pairwise.nil,
    fun w => Or.inr (settled_initial w start)⟩ fun c m c' hinv hst => ?_
  have hmoved := timedMoved_of_step hst
  obtain ⟨o, hfollows⟩ := hmoved.follows
  exact ⟨hmoved.tracked hinv.tracked, hfollows.sorted hinv.sorted,
    fun w => hmoved.alert hinv.tracked (hinv.alert w)⟩

/-- A wait that is going on is for what the worker has seen. -/
theorem TimedInvariant.settled (hc : TimedInvariant c) {w : Fin n}
    (hsignal : c.shared.pool.mSignal w = 0)
    (hinserted : pending (Op.inserted w) (toPool c) = 0) : Settled w c := by
  rcases hc.alert w with hsignalled | hsettled
  · exact absurd hsignalled (by rw [Signalled, hsignal, hinserted]; simp)
  · exact hsettled

/-- In the transition `y`, worker `w` begins the task `x`. -/
def Begins (y : PoolStep (TimedState n) ℕ (TimedOp n) Choice TimedCall) (w : Fin n) (x : ℕ) :
    Prop :=
  y.dst.shared.pool.log = .begun w x :: y.src.shared.pool.log

/-- A delayed task is begun when it is due. -/
theorem TimedStep.due_of_begins {s' : TimedState n} {producer : ℕ} {ch : Choice} {op : TimedOp n}
    {ops : List (TimedOp n)} {x : ℕ} {due : ℤ} {w : Fin n} (hc : Held x due (toPool c))
    (h : TimedStep c.shared producer ch op s' ops)
    (hlog : s'.pool.log = .begun w x :: c.shared.pool.log) :
    due ≤ c.shared.clock ∨ op.toOp.last w = true := by
  cases h with
  | op hcompute htry hstep => exact hc.due_of_begins hstep hlog
  | _ => exact absurd hlog (by simp)

/-- Over one move: a task that is held is begun when it is due, unless the pool is stopping. -/
theorem TimedMoved.due_of_begins {m : Move (Event Choice TimedCall)} {x : ℕ} {due : ℤ} {w : Fin n}
    (h : TimedMoved c c') (hc : Tracked c) (hheld : Held x due (toPool c))
    (hbegins : Begins ⟨c, m, c'⟩ w x)
    (hrunning : c.shared.pool.mStopping = false) : due ≤ c.shared.clock := by
  have hlog : c'.shared.pool.log = .begun w x :: c.shared.pool.log := hbegins
  cases h with
  | @access producer ch op ops hstep hp =>
    rcases hstep.due_of_begins hheld hlog with hdue | hlast
    · exact hdue
    · -- a worker is in its last loop only when the pool is stopping
      have hpos := (hp fun o => o.toOp.last w).1
      rw [hlast, ← pending_toPool] at hpos
      have hset := hc.stopping.last w hpos
      rw [toPool_shared, hrunning] at hset
      exact absurd hset (by decide)
  | rest hpool _ _ => exact absurd hlog (by simp [hpool])
  | arrive a hs _ =>
    obtain ⟨k, hk, -⟩ := enter_inv c.shared.pool a
    exact absurd hlog (by simp [hs, hk])

/-- The insertion of a delayed task holds it until its time has come. -/
theorem held_of_does {m : Move (Event Choice TimedCall)} {t : TimedThread n} {w : Fin n}
    {x : ℕ} {delay : ℤ}
    (hc : Tracked c) (h : (timedScripts n).program.step c m = some c')
    (hdoes : Does ⟨c, m, c'⟩ t (.op (.insert w ⟨x, some delay⟩))) :
    Held x (c.shared.clock + delay) (toPool c') := by
  obtain ⟨i, ch, ops, ts, -, hop, hp⟩ := pending_of_does h hdoes
  obtain ⟨hexec, rfl⟩ := timedExec_inv hop
  obtain ⟨ops, hstep, rfl⟩ := (execTimed_step hexec).op_inv
  change Step (toPool c).shared t.tag _ _ (toPool c').shared ops at hstep
  refine held_of_insert hc.accounted hstep fun p => ?_
  have hpool := hp fun o => p o.toOp
  rw [pendingIn_nil, Nat.add_zero, countP_ofOp] at hpool
  rw [pending_toPool, pending_toPool]
  exact hpool

end Timed

/-- **Wakeups and due times.** A worker that waits for a signal, when none is there and no
submission is about to release one, has nothing in its queue. If it waits without a bound
it has nothing in its heap; otherwise it waits no longer than until the earliest due time
in its heap and as much time more as passed between its reading of the clock and its call.
A delayed task is not begun before its due time unless the pool is stopping. -/
theorem no_lost_wakeup (n : ℕ) (start : ℤ)
    {h : List (PoolStep (TimedState n) ℕ (TimedOp n) Choice TimedCall)} {c : TimedPool n}
    (hr : (timedSystem n start).Run h c) :
    (∀ w, c.shared.pool.mSignal w = 0 → pending (Op.inserted w) (toPool c) = 0 →
      (∀ t ∈ c.threads, .op (.acquire w) ∈ t.code →
        (c.shared.pool.mWorkerStates w).mTasks = [] ∧
        (c.shared.pool.mWorkerStates w).mDelayedTasks = []) ∧
      ∀ t ∈ c.threads, ∀ wait, .blocked w wait ∈ t.code →
        (c.shared.pool.mWorkerStates w).mTasks = [] ∧
        ∀ e ∈ (c.shared.pool.mWorkerStates w).mDelayedTasks,
          wait.deadline ≤ e.mDue + (wait.start - wait.now)) ∧
    ∀ later y earlier, h = later ++ y :: earlier → ∀ t w x delay,
      Does y t (.op (.insert w ⟨x, some delay⟩)) → ∀ z ∈ later, ∀ v, Begins z v x →
        z.src.shared.pool.mStopping = false → y.src.shared.clock + delay ≤ z.src.shared.clock := by
  refine ⟨fun w hsignal hinserted => ?_, ?_⟩
  · have hinv := timedInvariant_of_reachable hr.reachable
    have hsettled := hinv.settled hsignal hinserted
    refine ⟨fun t ht hop => ⟨hsettled.emptied ?_, hsettled.unbounded ?_⟩,
      fun t ht wait hop => ⟨hsettled.emptied ?_, fun e he => ?_⟩⟩
    · exact pending_pos ht hop (by simp [TimedOp.toOp, Op.pastQueue])
    · exact pending_pos ht hop (by simp [TimedOp.toOp, Op.acquires])
    · exact pending_pos ht hop (by simp [TimedOp.toOp, Op.pastQueue])
    · obtain ⟨e₀, es, hes, hdue⟩ := hsettled.timed (wait.now + wait.waitFor)
        (pending_pos ht hop (by simp [TimedOp.waitsFor]))
      have hsorted := hinv.sorted w
      rw [hes] at hsorted he
      -- the front of the heap is the earliest
      have hfront : e₀.mDue ≤ e.mDue := by
        rcases List.mem_cons.mp he with rfl | he
        · exact Int.le_refl _
        · exact (List.pairwise_cons.mp hsorted).1 e he
      rw [Wait.deadline]
      omega
  · rintro later y earlier rfl t w x delay hdoes z hz v hbegins hrunning
    obtain ⟨hsrc, hst⟩ := hr.of_append
    have hheld := held_of_does (timedInvariant_of_reachable hsrc.reachable).tracked hst hdoes
    have hlater := (hr.since (I := fun c => Held x (y.src.shared.clock + delay) (toPool c)) hheld
      fun z _ hst hheld => by
        obtain ⟨o, hfollows⟩ := (timedMoved_of_step hst).follows
        exact hfollows.held hheld).2 z hz
    obtain ⟨hreach, hstep⟩ := hr.mem_step z (List.mem_append_left _ hz)
    exact (timedMoved_of_step hstep).due_of_begins (m := z.label)
      (timedInvariant_of_reachable hreach).tracked hlater hbegins hrunning

/-- The worker of a delayed task takes the signal of its submission, then reads the clock at
0 and calls `try_acquire_for` at 500. -/
def lateWait : List (Move (Event Choice TimedCall)) :=
  .env (.call (.call 7 (.submitAfter 1000))) :: List.replicate 8 (.thread 1 (.step {})) ++
  List.replicate 13 (.thread 0 (.step {})) ++
  .env (.call (.tick 500)) :: List.replicate 2 (.thread 0 (.step {}))

/-- A worker that looked at the clock at 0 waits its 1000 from 500 on. -/
theorem exists_lateWait : ∃ h c, (timedSystem 1 0).Run h c ∧ c.shared.pool.mSignal 0 = 0 ∧
    pending (Op.inserted 0) (toPool c) = 0 ∧ ⟨0, [.blocked 0 ⟨0, 500, 1000⟩]⟩ ∈ c.threads ∧
    (c.shared.pool.mWorkerStates 0).mDelayedTasks = [⟨1000, 0, 0⟩] := by
  obtain ⟨h, c, hr, hp⟩ := (timedSystem 1 0).exists_run_of_follow
    (p := fun _ c => decide (c.shared.pool.mSignal 0 = 0 ∧ pending (Op.inserted 0) (toPool c) = 0 ∧
      ⟨0, [.blocked 0 ⟨0, 500, 1000⟩]⟩ ∈ c.threads ∧
      (c.shared.pool.mWorkerStates 0).mDelayedTasks = [⟨1000, 0, 0⟩])) lateWait (by decide)
  exact ⟨h, c, hr, of_decide_eq_true hp⟩

/-- A wait that is going on. -/
theorem no_lost_wakeup_late : ∃ h c, (timedSystem 1 0).Run h c ∧
    ∃ t ∈ c.threads, ∃ wait, .blocked 0 wait ∈ t.code ∧
      (c.shared.pool.mWorkerStates 0).mTasks = [] ∧
      ∀ e ∈ (c.shared.pool.mWorkerStates 0).mDelayedTasks,
        wait.deadline ≤ e.mDue + (wait.start - wait.now) := by
  obtain ⟨h, c, hr, hsignal, hinserted, ht, -⟩ := exists_lateWait
  have hwaits := ((no_lost_wakeup 1 0 hr).1 0 hsignal hinserted).2 _ ht ⟨0, 500, 1000⟩ (by simp)
  exact ⟨h, c, hr, _, ht, _, by simp, hwaits⟩

/-- The worker waits longer than until the task is due. -/
theorem no_lost_wakeup_late_deadline :
    ¬ ∀ n start h c, (timedSystem n start).Run h c → ∀ w, c.shared.pool.mSignal w = 0 →
      pending (Op.inserted w) (toPool c) = 0 → ∀ t ∈ c.threads, ∀ wait, .blocked w wait ∈ t.code →
        ∀ e ∈ (c.shared.pool.mWorkerStates w).mDelayedTasks, wait.deadline ≤ e.mDue := by
  intro hclaim
  obtain ⟨h, c, hr, hsignal, hinserted, ht, hheap⟩ := exists_lateWait
  have hle := hclaim 1 0 h c hr 0 hsignal hinserted _ ht ⟨0, 500, 1000⟩ (by simp) ⟨1000, 0, 0⟩
    (by simp [hheap])
  exact absurd hle (by decide)

end ThreadPool
end SculkProtocol
