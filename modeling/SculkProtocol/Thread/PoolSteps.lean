import SculkProtocol.Thread.ThreadPool

/-!
# The steps of `ThreadPool`

What each program point of `submit`, `stop` and `workerLoop` can do, one constructor of
`Step` for each branch, and what that means for the threads of the pool: a step trades
the operation it performs for those that take its place (`Trades`).
-/

namespace SculkProtocol
namespace ThreadPool

open Scripts

variable {n : ℕ} {c c' : Pool n} {m : Move (Event Choice (ℕ × Call))} {s s' : State n}
  {producer : ℕ} {ch : Choice} {op : Op n} {ops : List (Op n)}

/-! ### Queues and heaps -/

/-- How often `x` is in the queue and the heap of a worker. -/
def WorkerState.queued (ws : WorkerState) (x : ℕ) : ℕ :=
  (ws.mTasks.map Prod.snd).count x + (ws.mDelayedTasks.map DelayedEntry.mTask).count x

/-- What is not in the queue and the heap. -/
theorem queued_eq_zero {ws : WorkerState} {x : ℕ} (h : ws.queued x = 0) :
    (∀ e ∈ ws.mTasks, e.2 ≠ x) ∧ ∀ e ∈ ws.mDelayedTasks, e.mTask ≠ x := by
  obtain ⟨htasks, hdelayed⟩ := Nat.add_eq_zero_iff.mp h
  rw [List.count_eq_zero] at htasks hdelayed
  exact ⟨fun e he hx => htasks (hx ▸ List.mem_map_of_mem he),
    fun e he hx => hdelayed (hx ▸ List.mem_map_of_mem he)⟩

theorem pushDelayed_perm (e : DelayedEntry) (es : List DelayedEntry) :
    (pushDelayed e es).Perm (e :: es) := by
  induction es with
  | nil => exact .refl _
  | cons e' es ih =>
    rw [pushDelayed]
    split
    · exact .refl _
    · exact (ih.cons e').trans (.swap e e' es)

theorem queued_insert (ws : WorkerState) (producer : ℕ) (now : ℤ) (r : Submission) (x : ℕ) :
    (ws.insert producer now r).queued x = ws.queued x + if r.task = x then 1 else 0 := by
  obtain ⟨y, delay⟩ := r
  cases delay with
  | none =>
    by_cases hy : y = x <;> simp [WorkerState.insert, WorkerState.queued, hy]
    omega
  | some delay =>
    have hperm := (pushDelayed_perm ⟨now + delay, ws.mDelayedSeq, y⟩ ws.mDelayedTasks).map
      DelayedEntry.mTask
    simp only [WorkerState.insert, WorkerState.queued, hperm.count_eq, List.map_cons,
      List.count_cons, beq_iff_eq]
    omega

/-- The heap loses its first entry. -/
theorem queued_pop {ws : WorkerState} {e : DelayedEntry} {es : List DelayedEntry}
    (hes : ws.mDelayedTasks = e :: es) (x : ℕ) :
    ws.queued x = ({ ws with mDelayedTasks := es } : WorkerState).queued x +
      if e.mTask = x then 1 else 0 := by
  simp only [WorkerState.queued, hes, List.map_cons, List.count_cons, beq_iff_eq]
  omega

/-- What a loop of a worker takes, and what it leaves. -/
theorem tryTake_inv {ws ws' : WorkerState} {phase : Phase} {y : ℕ}
    (h : ws.tryTake ch phase = some (some (y, ws'))) :
    ((phase = .tasks ∨ phase = .lastTasks) ∧ ∃ q,
      ConcurrentQueue.tryDequeue ws.mTasks ch.position = some (y, q) ∧
      ws' = { ws with mTasks := q }) ∨
    ((phase = .due ∨ phase = .lastDelayed) ∧ ∃ e es, ws.mDelayedTasks = e :: es ∧ e.mTask = y ∧
      ws' = { ws with mDelayedTasks := es } ∧ (phase = .due → e.mDue ≤ ch.now)) := by
  cases phase with
  -- a queue may give the task of any producer
  | tasks | lastTasks =>
    simp only [WorkerState.tryTake] at h
    split at h
    · exact absurd h (by simp)
    · obtain ⟨⟨z, q⟩, hd, hr⟩ := Option.map_eq_some_iff.mp h
      cases hr
      exact Or.inl ⟨by simp, q, hd, rfl⟩
  -- the entry at the top has to be due
  | due =>
    simp only [WorkerState.tryTake] at h
    split at h
    · exact absurd h (by simp)
    · next e es hes =>
      split at h
      · next hdue => cases h; exact Or.inr ⟨by simp, e, es, hes, rfl, rfl, fun _ => hdue⟩
      · exact absurd h (by simp)
  -- the last round takes the entry whether it is due or not
  | lastDelayed =>
    simp only [WorkerState.tryTake] at h
    split at h
    · exact absurd h (by simp)
    · next e es hes => cases h; exact Or.inr ⟨by simp, e, es, hes, rfl, rfl, nofun⟩

/-- What a loop of a worker takes was queued. -/
theorem tryTake_some {ws ws' : WorkerState} {phase : Phase} {y : ℕ}
    (h : ws.tryTake ch phase = some (some (y, ws'))) :
    (∀ x, ws.queued x = ws'.queued x + if y = x then 1 else 0) ∧
      (ws.mTasks = [] → ws'.mTasks = []) ∧ (ws.mDelayedTasks = [] → ws'.mDelayedTasks = []) ∧
      ws'.stopRequested = ws.stopRequested := by
  rcases tryTake_inv h with ⟨-, q, hd, rfl⟩ | ⟨-, e, es, hes, rfl, rfl, -⟩
  · have hperm := ConcurrentQueue.tryDequeue_perm_map hd
    refine ⟨fun x => ?_, fun hnil => ?_, id, rfl⟩
    · simp only [WorkerState.queued, hperm.count_eq, List.count_cons, beq_iff_eq]
      omega
    · rw [hnil] at hperm
      exact absurd hperm.symm (List.cons_ne_nil _ _ ∘ List.Perm.eq_nil)
  · exact ⟨queued_pop hes, id, fun hnil => absurd (hes.symm.trans hnil) (by simp), rfl⟩

/-- The loops over the queue, and the very last one, are left with nothing to take. -/
theorem tryTake_none {ws : WorkerState} {phase : Phase} (h : ws.tryTake ch phase = some none) :
    (phase = .tasks ∨ phase = .lastTasks → ws.mTasks = []) ∧
      (phase = .lastDelayed → ws.mDelayedTasks = []) := by
  cases phase with
  | due => simp
  | tasks | lastTasks =>
    simp only [WorkerState.tryTake] at h
    split at h
    · next hnil => exact ⟨fun _ => hnil, nofun⟩
    · obtain ⟨r, -, hr⟩ := Option.map_eq_some_iff.mp h
      exact absurd hr (by simp)
  | lastDelayed =>
    simp only [WorkerState.tryTake] at h
    split at h
    · next hnil => exact ⟨by simp, fun _ => hnil⟩
    · exact absurd h (by simp)

/-! ### What a step does -/

/-- The steps of `execOp`, one constructor for each branch. -/
inductive Step (s : State n) (producer : ℕ) (ch : Choice) : Op n → State n → List (Op n) → Prop
  | enter (r) : s.mAcceptingSubmissions = true →
      Step s producer ch (.loadAccepting r) s [.addInFlight r]
  | refuse (r) : Step s producer ch (.loadAccepting r) (s.record (.refused r.task)) []
  | count (r) : Step s producer ch (.addInFlight r)
      { s with mInFlightSubmissions := s.mInFlightSubmissions + 1 } [.recheckAccepting r]
  | recheck (r) : s.mAcceptingSubmissions = true →
      Step s producer ch (.recheckAccepting r) s [.chooseWorker r]
  | tooLate (r) : Step s producer ch (.recheckAccepting r) s [.leave r]
  | leave (r) : Step s producer ch (.leave r)
      { s with
        mInFlightSubmissions := s.mInFlightSubmissions - 1
        log := .refused r.task :: s.log } []
  | choose (r w) : Step s producer ch (.chooseWorker r)
      { s with mNextWorker := (s.mNextWorker + 1) % 2 ^ 64 } [.insert w r]
  | insert (r w) : Step s producer ch (.insert w r)
      (s.setWorker w ((s.mWorkerStates w).insert producer ch.now r)) [.subInFlight w r true]
  | noMemory (r w) : Step s producer ch (.insert w r) s [.subInFlight w r false]
  | uncount (r w) : Step s producer ch (.subInFlight w r true)
      { s with mInFlightSubmissions := s.mInFlightSubmissions - 1 } [.releaseSignal w r]
  | giveUp (r w) : Step s producer ch (.subInFlight w r false)
      { s with
        mInFlightSubmissions := s.mInFlightSubmissions - 1
        log := .refused r.task :: s.log } []
  | accept (r w) : Step s producer ch (.releaseSignal w r)
      ((s.setWorker w { s.mWorkerStates w with mSignal := (s.mWorkerStates w).mSignal + 1 }).record
        (.accepted w r.task)) []
  | close : Step s producer ch .exchangeAccepting { s with mAcceptingSubmissions := false }
      (if s.mAcceptingSubmissions then [.waitInFlight] else [])
  | waited : s.mInFlightSubmissions = 0 → Step s producer ch .waitInFlight s [.exchangeStopping]
  | stop : Step s producer ch .exchangeStopping { s with mStopping := true }
      (if s.mStopping then []
       else (List.finRange n).map .wake ++ (List.finRange n).map .requestStop)
  | wake (w) : Step s producer ch (.wake w)
      (s.setWorker w { s.mWorkerStates w with mSignal := (s.mWorkerStates w).mSignal + 1 }) []
  | requestStop (w) : Step s producer ch (.requestStop w)
      (s.setWorker w { s.mWorkerStates w with stopRequested := true }) []
  | take (w phase x ws) : (s.mWorkerStates w).tryTake ch phase = some (some (x, ws)) →
      Step s producer ch (.take w phase) ((s.setWorker w ws).record (.begun w x)) [.run w x phase]
  | done (w phase) : (s.mWorkerStates w).tryTake ch phase = some none →
      Step s producer ch (.take w phase) (phase.leave s w) (phase.next w)
  | inner (w x phase a) : Step s producer ch (.run w x phase) (Call.enter s a).1
      ((Call.enter s a).2 ++ [.run w x phase])
  | finish (w x phase) : Step s producer ch (.run w x phase) (s.record (.finished w x))
      [.take w phase]
  | last (w) : s.mStopping = true ∨ (s.mWorkerStates w).stopRequested = true →
      ∀ op, op = .loadStopping w ∨ op = .loadStopRequested w →
      Step s producer ch op s [.take w .lastTasks]
  | running (w) : Step s producer ch (.loadStopping w) s [.loadStopRequested w]
  | goOn (w) : Step s producer ch (.loadStopRequested w) s [.computeWait w]
  | wait (w op) : op = .acquire w ∨ op = .tryAcquireFor w ∨ op = .take w .tasks →
      Step s producer ch (.computeWait w) s [op]
  | signalled (w op) : op = .acquire w ∨ op = .tryAcquireFor w → Step s producer ch op
      (s.setWorker w { s.mWorkerStates w with mSignal := (s.mWorkerStates w).mSignal - 1 })
      [.take w .tasks]
  | timeout (w) : Step s producer ch (.tryAcquireFor w) s [.take w .tasks]

theorem execOp_step (h : execOp s producer ch op = some (s', ops)) :
    Step s producer ch op s' ops := by
  cases op with
  | loadAccepting r =>
    simp only [execOp] at h
    split at h
    · next hopen => cases h; exact .enter r hopen
    · cases h; exact .refuse r
  | addInFlight r => cases h; exact .count r
  | recheckAccepting r =>
    simp only [execOp] at h
    split at h
    · -- the second look at the flag, after the count
      next hopen => cases h; exact .recheck r hopen.1
    · cases h; exact .tooLate r
  | leave r => cases h; exact .leave r
  | chooseWorker r =>
    simp only [execOp] at h
    split at h
    · cases h; exact .choose r _
    · exact absurd h (by simp)
  | insert w r =>
    simp only [execOp] at h
    split at h
    · cases h; exact .insert r w
    · -- `enqueue` has returned false
      cases h; exact .noMemory r w
  | subInFlight w r enqueued =>
    cases enqueued with
    | true => cases h; exact .uncount r w
    | false => cases h; exact .giveUp r w
  | releaseSignal w r => cases h; exact .accept r w
  | exchangeAccepting => cases h; exact .close
  | waitInFlight =>
    simp only [execOp] at h
    split at h
    · next hzero => cases h; exact .waited hzero
    · -- the wait goes on
      exact absurd h (by simp)
  | exchangeStopping => cases h; exact .stop
  | wake w => cases h; exact .wake w
  | requestStop w => cases h; exact .requestStop w
  | take w phase =>
    obtain ⟨r, htake, hr⟩ := Option.map_eq_some_iff.mp h
    cases r with
    | none => cases hr; exact .done w phase htake
    | some r => cases hr; exact .take w phase r.1 r.2 htake
  | run w x phase =>
    simp only [execOp] at h
    split at h
    · -- the task itself calls `submit`, `submitAfter` or `stop`
      next a _ => cases h; exact .inner w x phase a
    · cases h; exact .finish w x phase
  | loadStopping w =>
    cases h
    split
    · next hstop => exact .last w (Or.inl hstop) _ (Or.inl rfl)
    · exact .running w
  | loadStopRequested w =>
    cases h
    split
    · next hstop => exact .last w (Or.inr hstop) _ (Or.inr rfl)
    · exact .goOn w
  | computeWait w =>
    cases h
    split
    · exact .wait w _ (Or.inl rfl)
    · split
      · exact .wait w _ (Or.inr (Or.inr rfl))
      · exact .wait w _ (Or.inr (Or.inl rfl))
  | acquire w =>
    simp only [execOp] at h
    split at h
    · cases h; exact .signalled w _ (Or.inl rfl)
    · exact absurd h (by simp)
  | tryAcquireFor w =>
    simp only [execOp] at h
    split at h
    · cases h; exact .signalled w _ (Or.inr rfl)
    · -- the wait may end at any time without a signal
      cases h; exact .timeout w

/-! ### What a move does to the threads -/

/-- A step starts no threads. -/
theorem exec_inv {tag : ℕ} {ts : List (Thread n)}
    (h : (scripts n).exec s tag ch op = some (s', ops, ts)) :
    execOp s tag ch op = some (s', ops) ∧ ts = [] := by
  obtain ⟨r, hr, hs⟩ := Option.map_eq_some_iff.mp h
  cases hs
  exact ⟨hr, rfl⟩

/-- A call that arrives is that of a task, made by another thread. -/
theorem call_inv {a : ℕ × Call} {ts new : List (Thread n)}
    (h : (scripts n).call s ts a = some (s', new)) :
    s' = (a.2.enter s).1 ∧ new = [⟨a.1, (a.2.enter s).2⟩] := by
  cases h
  exact ⟨rfl, rfl⟩

/-- A call begins with a look at the flag. -/
theorem enter_inv (s : State n) (a : Call) : ∃ k, (a.enter s).1 = { s with next := k } ∧
    ∀ p : Op n → Bool, (∀ r, p (.loadAccepting r) = false) → p .exchangeAccepting = false →
      (a.enter s).2.countP p = 0 := by
  cases a with
  | stop => exact ⟨s.next, rfl, fun p _ hstop => by simp [Call.enter, hstop]⟩
  | _ => exact ⟨s.next + 1, rfl, fun p hload _ => by simp [Call.enter, hload]⟩

/-- The workers of a new pool are in their first loop. -/
theorem pending_initial (p : Op n → Bool) :
    pending p (system n).init = (List.finRange n).countP fun w => p (.take w .tasks) := by
  have hlist : ∀ l : List (Fin n),
      pendingIn p (l.map fun w => ⟨w.val, [.take w .tasks]⟩) = l.countP fun w =>
          p (.take w .tasks) := by
    intro l
    induction l with
    | nil => rfl
    | cons w l ih => simp [ih, List.countP_cons, Nat.add_comm]
  exact hlist _

/-- An operation of none of the first loops is not pending. -/
theorem pending_initial_of_false {p : Op n → Bool} (hp : ∀ w, p (.take w .tasks) = false) :
    pending p (system n).init = 0 := by
  rw [pending_initial, List.countP_eq_zero]
  intro w _
  simp [hp w]

/-- The pending operations of `c'` are those of `c` with `ops` in the place of `op`. -/
def Trades (c c' : Pool n) (op : Op n) (ops : List (Op n)) : Prop :=
  ∀ p : Op n → Bool, (p op).toNat ≤ pending p c ∧ pending p c' + (p op).toNat =
    pending p c + ops.countP p

/-- What is pending after a step was pending before, or takes the place of what was
performed. -/
theorem Trades.cases (hp : Trades c c' op ops) {p : Op n → Bool} (h : 0 < pending p c') :
    0 < pending p c ∨ 0 < ops.countP p := by
  have hpool := hp p
  omega

/-- What is performed is pending. -/
theorem Trades.pos (hp : Trades c c' op ops) {p : Op n → Bool} (hop : p op = true) :
    0 < pending p c := by
  have hle := (hp p).1
  rw [hop] at hle
  exact hle

/-- What a move does to a pool, with the operation it performs. -/
inductive Moved (c c' : Pool n) : Option (Op n) → Prop
  | access {producer : ℕ} {ch : Choice} {op : Op n} {ops : List (Op n)} :
      Step c.shared producer ch op c'.shared ops → Trades c c' op ops → Moved c c' (some op)
  | rest : c'.shared = c.shared → (∀ p : Op n → Bool, pending p c' = pending p c) → Moved c c' none
  | arrive (a : Call) : c'.shared = (a.enter c.shared).1 →
      (∀ p : Op n → Bool, pending p c' = pending p c + (a.enter c.shared).2.countP p) →
      Moved c c' none

theorem moved_of_step (h : (scripts n).program.step c m = some c') :
    Moved c c'
      ((performed (⟨c, m, c'⟩ : PoolStep (State n) ℕ (Op n) Choice (ℕ × Call))).map Prod.snd) := by
  cases hx : performed (⟨c, m, c'⟩ : PoolStep (State n) ℕ (Op n) Choice (ℕ × Call)) with
  | none =>
    rcases pending_step h with ⟨t, op, ch, ops, ts, hdoes, -, -⟩ | ⟨tag, hs, hp⟩ |
      ⟨a, new, -, hnew, hp⟩
    · exact absurd (hdoes.symm.trans hx) (by simp)
    · exact .rest hs hp
    · obtain ⟨hs, rfl⟩ := call_inv hnew
      exact .arrive a.2 hs fun p => by rw [hp, pendingIn_cons, pendingIn_nil, Nat.add_zero]
  | some r =>
    obtain ⟨i, ch, ops, ts, -, hop, hp⟩ := pending_of_does h (show Does _ r.1 r.2 from hx)
    obtain ⟨hexec, rfl⟩ := exec_inv hop
    exact .access (execOp_step hexec) hp

/-- A move that performs no operation changes no more than the number of the next task, and
what is pending of the starts of calls. -/
theorem Moved.quiet {o : Option (Op n)} (h : Moved c c' o) :
    (∃ producer ch op ops, o = some op ∧ Step c.shared producer ch op c'.shared ops ∧
      Trades c c' op ops) ∨
    (o = none ∧ ∃ k, c'.shared = { c.shared with next := k } ∧
      ∀ p : Op n → Bool, (∀ r, p (.loadAccepting r) = false) → p .exchangeAccepting = false →
        pending p c' = pending p c) := by
  cases h with
  | @access producer ch op ops hstep hp => exact Or.inl ⟨producer, ch, op, ops, rfl, hstep, hp⟩
  | rest hs hp => exact Or.inr ⟨rfl, c.shared.next, hs, fun p _ _ => hp p⟩
  | arrive a hs hp =>
    obtain ⟨k, hk, hquiet⟩ := enter_inv c.shared a
    refine Or.inr ⟨rfl, k, hs.trans hk, fun p hload hstop => ?_⟩
    rw [hp, hquiet p hload hstop, Nat.add_zero]

end ThreadPool
end SculkProtocol
