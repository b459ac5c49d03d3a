import SculkProtocol.Thread.PoolStop

/-!
# Every accepted task is executed before its worker returns

A submission is answered once (`Accounted.answers`), what is or will be answered with
true has been put into the queue or the heap of its worker (`Accounted.returns`), and
what was taken out of these is being executed or was (`Accounted.executions`). A worker
that has returned has left nothing in its queue and its heap, and does nothing any more
(`Ended`), so what was put there was executed before (`submission_executed_once`).
-/

namespace SculkProtocol
namespace ThreadPool

open Scripts

variable {n : ℕ} {c c' : Pool n} {m : Move (Event Choice (ℕ × Call))} {s s' : State n}
  {producer : ℕ} {ch : Choice} {op : Op n} {ops : List (Op n)}

/-! ### The places of a task -/

/-- The submission of `x` has not returned yet. -/
def Op.submits (x : ℕ) : Op n → Bool
  | .loadAccepting r | .addInFlight r | .recheckAccepting r | .leave r | .chooseWorker r
  | .insert _ r | .subInFlight _ r _ | .releaseSignal _ r => r.task == x
  | _ => false

/-- The submission of `x` has put it where worker `w` finds it, and will return true. -/
def Op.returns (w : Fin n) (x : ℕ) : Op n → Bool
  | .subInFlight v r true | .releaseSignal v r => decide (v = w ∧ r.task = x)
  | _ => false

/-- Worker `w` is executing `x`. -/
def Op.executes (w : Fin n) (x : ℕ) : Op n → Bool
  | .run v y _ => decide (v = w ∧ y = x)
  | _ => false

/-- The submission of `x` has returned. -/
def LogEntry.answers (x : ℕ) : LogEntry n → Bool
  | .accepted _ y | .refused y => y == x
  | _ => false

/-- Whether `x` is one of the first numbers, as a number. -/
def numbered (next x : ℕ) : ℕ := if x < next then 1 else 0

/-- How often `x` is or was with worker `w`. -/
def State.placed (s : State n) (w : Fin n) (x : ℕ) : ℕ :=
  (s.mWorkerStates w).queued x + s.log.count (.begun w x)

/-! ### The account of a task -/

/-- A task that is begun has a place in the log. -/
@[simp] theorem placed_record (s : State n) (e : LogEntry n) (v : Fin n) (x : ℕ) :
    (s.record e).placed v x = s.placed v x + if e = .begun v x then 1 else 0 := by
  simp only [State.placed, record_log, record_mWorkerStates, List.count_cons, beq_iff_eq]
  omega

/-- A task has its places in one worker and in the others. -/
theorem placed_setWorker (s : State n) (w v : Fin n) (ws : WorkerState) (x : ℕ) :
    (s.setWorker w ws).placed v x + (if v = w then (s.mWorkerStates w).queued x else 0) =
      s.placed v x + if v = w then ws.queued x else 0 := by
  by_cases hv : v = w
  · subst hv
    simp only [State.placed, setWorker_mWorkerStates, Function.update_self, setWorker_log, if_true]
    omega
  · simp [State.placed, hv]

/-- Only the queue and the heap of a worker hold tasks. -/
@[simp] theorem placed_setWorker_signal (s : State n) (w v : Fin n) (signal : ℕ)
    (stop : Bool) (x : ℕ) :
    (s.setWorker w { s.mWorkerStates w with mSignal := signal, stopRequested := stop }).placed v x =
      s.placed v x :=
  Nat.add_right_cancel (placed_setWorker s w v
    { s.mWorkerStates w with mSignal := signal, stopRequested := stop } x)

/-- **Answers.** A submission goes on, or is answered. -/
theorem Step.answers (h : Step s producer ch op s' ops) (x : ℕ) :
    ops.countP (Op.submits x) + s'.log.countP (LogEntry.answers x) + numbered s.next x =
      (op.submits x).toNat + s.log.countP (LogEntry.answers x) + numbered s'.next x := by
  cases h with
  | inner w y phase a =>
    -- a submission of the running task gets the first number that is not in use
    cases a <;> by_cases hx : s.next = x <;> simp [Call.enter, Op.submits, numbered, hx] <;> grind
  | done w phase =>
    cases phase <;> simp [Phase.next, Phase.leave, Op.submits, LogEntry.answers]
  | enter r | refuse r | count r | recheck r | tooLate r | leave r | choose r | insert r
  | noMemory r
  | uncount r | giveUp r | accept r =>
    cases hx : r.task == x <;> simp [Op.submits, LogEntry.answers, hx, Nat.add_comm]
  | close | stop => split <;> simp [Op.submits, List.countP_map, Function.comp_def]
  | last w _ op hop | signalled w op hop => rcases hop with rfl | rfl <;> simp [Op.submits]
  | wait w op hop => rcases hop with rfl | rfl | rfl <;> simp [Op.submits]
  | _ => simp [Op.submits, LogEntry.answers]

/-- **Returns.** What is put where a worker finds it is or will be accepted. -/
theorem Step.returns (h : Step s producer ch op s' ops) (w : Fin n) (x : ℕ) :
    ops.countP (Op.returns w x) + s'.log.count (.accepted w x) + s.placed w x =
      (op.returns w x).toNat + s.log.count (.accepted w x) + s'.placed w x := by
  cases h with
  | insert r v =>
    have hset := placed_setWorker s v w ((s.mWorkerStates v).insert producer ch.now r) x
    rw [queued_insert] at hset
    by_cases hv : w = v
    · subst hv
      by_cases hx : r.task = x <;> simp [Op.returns, hx] at hset ⊢ <;> omega
    · simp [Op.returns, hv, Ne.symm hv] at hset ⊢
      omega
  | take v phase y ws htake =>
    -- the task moves from the queue to the executions of the same worker
    have hset := placed_setWorker s v w ws x
    have hqueued := (tryTake_some htake).1 x
    by_cases hv : w = v
    · subst hv
      by_cases hy : y = x <;> simp [Op.returns, hy] at hset hqueued ⊢ <;> omega
    · simpa [Op.returns, hv, Ne.symm hv] using hset.symm
  | uncount r v =>
    by_cases hv : v = w <;> by_cases hx : r.task = x <;> simp [Op.returns, State.placed, hv, hx]
  | accept r v =>
    by_cases hv : v = w <;> by_cases hx : r.task = x <;> simp [Op.returns, hv, hx]
    omega
  | inner v y phase a => cases a <;> simp [Call.enter, Op.returns, State.placed]
  | done v phase => cases phase <;> simp [Op.returns, Phase.next, Phase.leave]
  | close | stop => split <;> simp [Op.returns, State.placed, List.countP_map, Function.comp_def]
  | last v _ op hop | signalled v op hop => rcases hop with rfl | rfl <;> simp [Op.returns]
  | wait v op hop => rcases hop with rfl | rfl | rfl <;> simp [Op.returns]
  | wake | requestStop => simp [Op.returns]
  | _ => simp [Op.returns, State.placed]

/-- **Executions.** What was taken is being executed, or finished. -/
theorem Step.executions (h : Step s producer ch op s' ops) (w : Fin n) (x : ℕ) :
    ops.countP (Op.executes w x) + s'.log.count (.finished w x) + s.log.count (.begun w x) =
      (op.executes w x).toNat + s.log.count (.finished w x) + s'.log.count (.begun w x) := by
  cases h with
  | take v phase y | finish v y phase =>
    by_cases hv : v = w <;> by_cases hy : y = x <;> simp [Op.executes, hv, hy]
    omega
  | inner v y phase a =>
    cases a <;> by_cases hv : v = w <;> by_cases hy : y = x <;>
      simp [Call.enter, Op.executes, hv, hy]
  | done v phase => cases phase <;> simp [Op.executes, Phase.next, Phase.leave]
  | close | stop => split <;> simp [Op.executes, List.countP_map, Function.comp_def]
  | last v _ op hop | signalled v op hop => rcases hop with rfl | rfl <;> simp [Op.executes]
  | wait v op hop => rcases hop with rfl | rfl | rfl <;> simp [Op.executes]
  | _ => simp [Op.executes]

/-- What is known about each task of a pool. -/
structure Accounted (c : Pool n) : Prop where
  answers : ∀ x, pending (Op.submits x) c + c.shared.log.countP (LogEntry.answers x) =
    numbered c.shared.next x
  returns : ∀ w x, pending (Op.returns w x) c + c.shared.log.count (.accepted w x) =
    c.shared.placed w x
  executions : ∀ w x, pending (Op.executes w x) c + c.shared.log.count (.finished w x) =
    c.shared.log.count (.begun w x)

/-- A pool that has just been made has no task. -/
theorem accounted_initial (n : ℕ) : Accounted (system n).init where
  answers x := by rw [pending_initial_of_false fun _ => rfl]; rfl
  returns w x := by rw [pending_initial_of_false fun _ => rfl]; rfl
  executions w x := by rw [pending_initial_of_false fun _ => rfl]; rfl

/-- **One move** keeps the account of each task. -/
theorem Moved.accounted {o : Option (Op n)} (h : Moved c c' o) (hc : Accounted c) :
    Accounted c' := by
  cases h with
  | access hstep hp =>
    refine ⟨fun x => ?_, fun w x => ?_, fun w x => ?_⟩
    · -- what the step adds to the log it takes from the pending operations
      have hanswers := hstep.answers x
      have hpool := (hp (Op.submits x)).2
      have hold := hc.answers x
      omega
    · have hreturns := hstep.returns w x
      have hpool := (hp (Op.returns w x)).2
      have hold := hc.returns w x
      omega
    · have hexecutions := hstep.executions w x
      have hpool := (hp (Op.executes w x)).2
      have hold := hc.executions w x
      omega
  | rest hs hp =>
    refine ⟨fun x => ?_, fun w x => ?_, fun w x => ?_⟩ <;> rw [hs, hp]
    · exact hc.answers x
    · exact hc.returns w x
    · exact hc.executions w x
  | arrive a hs hp =>
    refine ⟨fun x => ?_, fun w x => ?_, fun w x => ?_⟩ <;> rw [hs, hp]
    · have hold := hc.answers x
      cases a <;> simp [Call.enter, Op.submits, numbered] at hold ⊢ <;> grind
    · have hold := hc.returns w x
      cases a <;> simpa [Call.enter, Op.returns, State.placed] using hold
    · have hold := hc.executions w x
      cases a <;> simpa [Call.enter, Op.executes] using hold

/-- Every step keeps account of the tasks. -/
theorem accounted_step (hc : Accounted c) (h : (scripts n).program.step c m = some c') :
    Accounted c' :=
  (moved_of_step h).accounted hc

/-! ### After a worker has returned -/

/-- The execution of `x` begins. -/
def LogEntry.begins (x : ℕ) : LogEntry n → Bool
  | .begun _ y => y == x
  | _ => false

/-- Only a worker's own loop begins and finishes tasks for it. -/
theorem Step.logs (h : Step s producer ch op s' ops) : s'.log = s.log ∨
    ∃ e, s'.log = e :: s.log ∧ ∀ w x, e = .begun w x ∨ e = .finished w x → op.loops w = true := by
  cases h with
  | refuse | leave | giveUp | accept =>
    exact Or.inr ⟨_, rfl, fun w x he => by rcases he with he | he <;> exact absurd he (by simp)⟩
  | take v phase y | finish v y phase =>
    refine Or.inr ⟨_, rfl, fun w x he => ?_⟩
    rcases he with he | he <;> cases he
    simp [Op.loops]
  | done v phase =>
    cases phase with
    | lastDelayed =>
      exact Or.inr ⟨_, rfl, fun w x he => by rcases he with he | he <;> exact absurd he (by simp)⟩
    | _ => exact Or.inl rfl
  | inner v y phase a => cases a <;> exact Or.inl rfl
  | _ => exact Or.inl rfl

/-- Nothing is begun or finished by a worker that has returned. -/
def Ended (log : List (LogEntry n)) : Prop :=
  ∀ l₁ w l₂, log = l₁ ++ .returned w :: l₂ → ∀ x, .begun w x ∉ l₁ ∧ .finished w x ∉ l₁

/-- After its loop, a worker begins and finishes nothing. -/
theorem ended_step (hc : Stopping c) (hended : Ended c.shared.log)
    (h : (scripts n).program.step c m = some c') : Ended c'.shared.log := by
  rcases (moved_of_step h).quiet with ⟨producer, ch, op, ops, -, hstep, hp⟩ | ⟨-, k, hs, -⟩
  · rcases hstep.logs with hlog | ⟨e, hlog, he⟩
    · rw [hlog]
      exact hended
    · intro l₁ w l₂ hsplit x
      rw [hlog] at hsplit
      rcases List.cons_eq_append_iff.mp hsplit with ⟨rfl, -⟩ | ⟨l, rfl, hrest⟩
      · exact ⟨List.not_mem_nil, List.not_mem_nil⟩
      · obtain ⟨hbegun, hfinished⟩ := hended l w l₂ hrest x
        -- the worker's loop is not there any more
        have hloops : op.loops w = false := by
          have hreturned : 0 < c.shared.log.count (.returned w) :=
            List.count_pos_iff.mpr (hrest ▸ by simp)
          have hone := hc.loops w
          have hle := (hp (Op.loops w)).1
          cases hop : op.loops w with
          | false => rfl
          | true => simp only [hop, Bool.toNat_true] at hle; omega
        have hne : ∀ e', e' = .begun w x ∨ e' = .finished w x → e ≠ e' := by
          rintro e' he' rfl
          rw [he w x he'] at hloops
          exact absurd hloops (by decide)
        exact ⟨fun hmem => (List.mem_cons.mp hmem).elim
          (fun heq => hne _ (Or.inl rfl) heq.symm) hbegun, fun hmem =>
            (List.mem_cons.mp hmem).elim (fun heq => hne _ (Or.inr rfl) heq.symm) hfinished⟩
  · rw [hs]
    exact hended

/-- What holds in every state of a pool. -/
structure Invariant (c : Pool n) : Prop where
  accounted : Accounted c
  stopping : Stopping c
  ended : Ended c.shared.log

/-- The invariant holds in every run. -/
theorem Invariant.of_run {h : List (PoolStep (State n) ℕ (Op n) Choice (ℕ × Call))} {s : Pool n}
    (hr : (system n).Run h s) : Invariant s :=
  hr.invariant
    ⟨accounted_initial n, stopping_initial n,
      fun l₁ w l₂ hnil => absurd hnil (by simp [system, State.initial])⟩
    fun _ _ _ hs hst => ⟨accounted_step hs.accounted hst, stopping_step hs.stopping hst,
      ended_step hs.stopping hs.ended hst⟩

/-! ### The result -/

/-- Among entries of a kind of which there is at most one, all are the same. -/
theorem eq_of_countP_le_one {α : Type} {p : α → Bool} {l : List α} (hl : l.countP p ≤ 1) {a b : α}
    (ha : a ∈ l) (hpa : p a = true) (hb : b ∈ l) (hpb : p b = true) : a = b := by
  rw [List.countP_eq_length_filter] at hl
  have hfa : a ∈ l.filter p := List.mem_filter.mpr ⟨ha, hpa⟩
  have hfb : b ∈ l.filter p := List.mem_filter.mpr ⟨hb, hpb⟩
  match hf : l.filter p with
  | [] => rw [hf] at hfa; exact absurd hfa List.not_mem_nil
  | [e] => rw [hf, List.mem_singleton] at hfa hfb; rw [hfa, hfb]
  | e :: e' :: es => rw [hf] at hl; exact absurd hl (by simp)

/-- A submission that is accepted is answered. -/
@[simp] theorem answers_accepted (w : Fin n) (x : ℕ) : (LogEntry.accepted w x).answers x = true :=
  beq_self_eq_true x

/-- So is one that is refused. -/
@[simp] theorem answers_refused (x : ℕ) : (LogEntry.refused x : LogEntry n).answers x = true :=
  beq_self_eq_true x

/-- A submission that returns was made. -/
theorem Op.submits_of_returns {w : Fin n} {x : ℕ} (h : op.returns w x = true) :
    op.submits x = true := by
  cases op with
  | subInFlight v r enqueued =>
    cases enqueued with
    | true => simp [Op.returns] at h; simp [Op.submits, h]
    | false => exact absurd h (by simp [Op.returns])
  | releaseSignal v r => simp [Op.returns] at h; simp [Op.submits, h]
  | _ => exact absurd h (by simp [Op.returns])

/-- A task whose submission has been answered is where the answer says. -/
theorem Invariant.placed_eq (hc : Invariant c) {x : ℕ} {e : LogEntry n} (he : e ∈ c.shared.log)
    (hx : e.answers x = true) (w : Fin n) :
    c.shared.placed w x = if e = .accepted w x then 1 else 0 := by
  have hanswers := hc.accounted.answers x
  have hreturns := hc.accounted.returns w x
  have hone : 0 < c.shared.log.countP (LogEntry.answers x) := List.countP_pos_iff.mpr ⟨e, he, hx⟩
  have hnumbered : numbered c.shared.next x ≤ 1 := by rw [numbered]; split <;> omega
  have hpending : pending (Op.returns w x) c ≤ pending (Op.submits x) c :=
    pending_mono fun _ => Op.submits_of_returns
  -- a task has one answer, so there is no other than `e`
  have hcount : c.shared.log.count (.accepted w x) = if e = .accepted w x then 1 else 0 := by
    split
    · next heq =>
      have hle : c.shared.log.count (.accepted w x) ≤ c.shared.log.countP (LogEntry.answers x) :=
        List.countP_mono_left fun e' _ he' => by
          rw [beq_iff_eq] at he'
          rw [he', answers_accepted]
      have hpos := List.count_pos_iff.mpr (heq ▸ he)
      omega
    · next hne =>
      rw [List.count_eq_zero]
      intro hmem
      exact hne (eq_of_countP_le_one (by omega) he hx hmem (answers_accepted w x))
  omega

/-- **Accepted tasks.** A task for which `submit` or `submitAfter` has returned true is
executed at most once, and once before its worker's loop returns; one for which they
have returned false is never executed. -/
theorem submission_executed_once (n : ℕ) {h : List (PoolStep (State n) ℕ (Op n) Choice (ℕ × Call))}
    {s : Pool n} (hr : (system n).Run h s) (x : ℕ) :
    (∀ w, .accepted w x ∈ s.shared.log → s.shared.log.countP (LogEntry.begins x) ≤ 1 ∧
      ∀ l₁ l₂, s.shared.log = l₁ ++ .returned w :: l₂ →
        l₂.count (.begun w x) = 1 ∧ l₂.count (.finished w x) = 1) ∧
    (.refused x ∈ s.shared.log → s.shared.log.countP (LogEntry.begins x) = 0) := by
  have hs := Invariant.of_run hr
  refine ⟨fun w hw => ⟨?_, fun l₁ l₂ hsplit => ?_⟩, fun hx => ?_⟩
  · -- only its own worker begins the task
    have hle : s.shared.log.countP (LogEntry.begins x) ≤ s.shared.log.count (.begun w x) := by
      refine List.countP_mono_left fun e he hbegins => ?_
      cases e with
      | begun v y =>
        have hy : y = x := by simpa [LogEntry.begins] using hbegins
        subst hy
        have hplaced := hs.placed_eq hw (answers_accepted w _) v
        have hpos := List.count_pos_iff.mpr he
        by_cases hv : w = v
        · simp [hv]
        · rw [if_neg (by simp [hv]), State.placed] at hplaced
          omega
      | _ => exact absurd hbegins (by simp [LogEntry.begins])
    have hplaced := hs.placed_eq hw (answers_accepted w x) w
    rw [if_pos rfl, State.placed] at hplaced
    omega
  · have hmem : .returned w ∈ s.shared.log := hsplit ▸ by simp
    obtain ⟨-, htasks, hdelayed⟩ := hs.stopping.returned w hmem
    obtain ⟨hbegun, hfinished⟩ := hs.ended l₁ w l₂ hsplit x
    -- its queue and its heap are empty, so the task was taken
    have hplaced := hs.placed_eq hw (answers_accepted w x) w
    rw [if_pos rfl, State.placed, WorkerState.queued, htasks, hdelayed] at hplaced
    -- and the loop is over, so it is not being executed any more
    have hexecutions := hs.accounted.executions w x
    have hloops := hs.stopping.loops w
    have hreturned := List.count_pos_iff.mpr hmem
    have hexecutes : pending (Op.executes w x) s ≤ pending (Op.loops w) s :=
      pending_mono fun o ho => by
        cases o <;> simp [Op.executes] at ho
        simp [Op.loops, ho]
    rw [hsplit, List.count_append, List.count_eq_zero.mpr hbegun, List.count_cons] at hplaced
    rw [hsplit, List.count_append, List.count_append, List.count_eq_zero.mpr hbegun,
      List.count_eq_zero.mpr hfinished, List.count_cons, List.count_cons] at hexecutions
    simp at hplaced hexecutions
    omega
  · rw [List.countP_eq_zero]
    intro e he hbegins
    cases e with
    | begun v y =>
      have hy : y = x := by simpa [LogEntry.begins] using hbegins
      subst hy
      have hplaced := hs.placed_eq hx (answers_refused _) v
      have hpos := List.count_pos_iff.mpr he
      rw [if_neg (by simp), State.placed] at hplaced
      omega
    | _ => exact absurd hbegins (by simp [LogEntry.begins])

/-- The next step of the thread at position `i`. -/
def next (i : ℕ) (ch : Choice) : Move (Event Choice (ℕ × Call)) := .thread i (.step ch)

/-- A task that is due is executed at once; a delayed one is left for the last loops, and
one that is submitted after `stop` is refused. -/
def delayedSchedule : List (Move (Event Choice (ℕ × Call))) :=
  .env (.call (7, .submit)) :: List.replicate 8 (next 1 {}) ++
  .env (.call (7, .submitAfter 1000)) :: List.replicate 8 (next 1 {}) ++
  .env (.call (7, .stop)) :: List.replicate 6 (next 1 {}) ++
  .env (.call (7, .submit)) :: List.replicate 2 (next 1 {}) ++
  List.replicate 9 (next 0 {})

/-- A delayed task is executed by `stop`, and a later submission is refused. -/
theorem submission_executed_once_delayed :
    ∃ h s, (system 1).Run h s ∧ .accepted 0 1 ∈ s.shared.log ∧ .refused 2 ∈ s.shared.log ∧
      s.shared.log.countP (LogEntry.begins 2) = 0 ∧
      ∃ l, s.shared.log = .returned 0 :: l ∧ l.count (.begun 0 1) = 1 ∧
      l.count (.finished 0 1) = 1 := by
  obtain ⟨h, s, hr, hp⟩ := (system 1).exists_run_of_follow
    (p := fun _ s => decide (.accepted 0 1 ∈ s.shared.log ∧ .refused 2 ∈ s.shared.log ∧
      s.shared.log.head? = some (.returned 0))) delayedSchedule (by decide)
  obtain ⟨haccepted, hrefused, hhead⟩ := of_decide_eq_true hp
  obtain ⟨l, hl⟩ := List.head?_eq_some_iff.mp hhead
  have hone := ((submission_executed_once 1 hr 1).1 0 haccepted).2 [] l hl
  exact ⟨h, s, hr, haccepted, hrefused, (submission_executed_once 1 hr 2).2 hrefused, l, hl, hone⟩

end ThreadPool
end SculkProtocol
