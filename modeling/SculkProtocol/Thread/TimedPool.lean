import SculkProtocol.Thread.PoolDelivery

/-!
# `ThreadPool` with a clock

The pool of `ThreadPool.system` may let a timed wait end whenever it likes, and reads any
time at each step. Here the steps read one clock, which does not go back, and the wait of
a worker has its own program points: `workerLoop` reads `now` before it locks the heap,
computes `waitFor` under the lock, and calls `try_acquire_for(waitFor)`, which measures
`waitFor` from the time of the call and gives up at this deadline, not before.

Times are integers, and differ by less than `duration::max()`. Everything else is as in
the pool without a clock, which each move of this one follows (`TimedMoved.follows`).
-/

namespace SculkProtocol
namespace ThreadPool

open Scripts

/-- A call of `try_acquire_for`. -/
structure Wait where
  /-- the time that `waitFor` was computed with -/
  now : ℤ
  /-- the time of the call -/
  start : ℤ
  waitFor : ℤ
  deriving DecidableEq

/-- When the call gives up. -/
def Wait.deadline (wait : Wait) : ℤ := wait.start + wait.waitFor

structure TimedState (n : ℕ) where
  pool : State n
  /-- `std::chrono::steady_clock` -/
  clock : ℤ

/-- The program points of a pool with a clock. -/
inductive TimedOp (n : ℕ)
  /-- a point other than those of the timed wait -/
  | op (o : Op n)
  /-- `workerLoop`: `now = steady_clock::now()` -/
  | readClock (w : Fin n)
  /-- `workerLoop`: the locked block that computes `waitFor` -/
  | computeWait (w : Fin n) (now : ℤ)
  /-- `workerLoop`: the call of `mSignal.try_acquire_for(waitFor)` -/
  | tryAcquireFor (w : Fin n) (now waitFor : ℤ)
  /-- `workerLoop`: in `mSignal.try_acquire_for(waitFor)` -/
  | blocked (w : Fin n) (wait : Wait)
  deriving DecidableEq

/-- What comes from outside. -/
inductive TimedCall
  | call (producer : ℕ) (a : Call)
  /-- time passes -/
  | tick (d : ℕ)
  deriving DecidableEq

abbrev TimedPool (n : ℕ) := Scripts.Pool (TimedState n) ℕ (TimedOp n)

abbrev TimedThread (n : ℕ) := Script ℕ (TimedOp n)

variable {n : ℕ} {c c' : TimedPool n} {s s' : TimedState n} {producer : ℕ} {ch : Choice}
  {op : TimedOp n} {ops : List (TimedOp n)}

/-- A worker reads the clock before it computes how long to wait. -/
def TimedOp.ofOp : Op n → TimedOp n
  | .computeWait w => .readClock w
  | o => .op o

def execTimed (s : TimedState n) (producer : ℕ) (ch : Choice) :
    TimedOp n → Option (TimedState n × List (TimedOp n))
  -- the timed wait has points of its own
  | .op (.computeWait _) | .op (.tryAcquireFor _) => none
  | .op o =>
    (execOp s.pool producer { ch with now := s.clock } o).map fun r =>
      ({ s with pool := r.1 }, r.2.map .ofOp)
  | .readClock w => some (s, [.computeWait w s.clock])
  | .computeWait w now =>
    some (s, match (s.pool.mWorkerStates w).mDelayedTasks with
      | [] => [.op (.acquire w)]
      | e :: _ =>
        if e.mDue ≤ now then [.op (.take w .tasks)] else [.tryAcquireFor w now (e.mDue - now)])
  | .tryAcquireFor w now waitFor => some (s, [.blocked w ⟨now, s.clock, waitFor⟩])
  | .blocked w wait =>
    let ws := s.pool.mWorkerStates w
    if ch.ok = true ∧ 0 < ws.mSignal then
      some ({ s with pool := s.pool.setWorker w { ws with mSignal := ws.mSignal - 1 } },
        [.op (.take w .tasks)])
    else if wait.deadline ≤ s.clock then some (s, [.op (.take w .tasks)])
    else none

/-- A call, or time that passes. -/
def arriveTimed (s : TimedState n) : TimedCall → Option (TimedState n × List (TimedThread n))
  | .call producer a =>
    some ({ s with pool := (a.enter s.pool).1 }, [⟨producer, (a.enter s.pool).2.map .ofOp⟩])
  | .tick d => some ({ s with clock := s.clock + d }, [])

/-- The threads of a pool with a clock. -/
def timedScripts (n : ℕ) : Scripts (TimedState n) ℕ (TimedOp n) Choice TimedCall :=
  ⟨fun s producer ch op => (execTimed s producer ch op).map fun r => (r.1, r.2, []),
    fun s _ => s, fun s _ a => arriveTimed s a⟩

/-- A pool of `n` workers, with a clock that reads `start` when they are started. -/
def timedSystem (n : ℕ) (start : ℤ) : System (TimedPool n) (Move (Event Choice TimedCall)) :=
  (timedScripts n).program.system
    ⟨⟨State.initial n, start⟩, (List.finRange n).map fun w => ⟨w.val, [.op (.take w .tasks)]⟩⟩

/-! ### What a step does -/

/-- The steps of `execTimed`, one constructor for each branch. -/
inductive TimedStep (s : TimedState n) (producer : ℕ) (ch : Choice) :
    TimedOp n → TimedState n → List (TimedOp n) → Prop
  | op {o : Op n} {p : State n} {ops : List (Op n)} :
      (∀ w, o ≠ .computeWait w) → (∀ w, o ≠ .tryAcquireFor w) →
      Step s.pool producer { ch with now := s.clock } o p ops →
      TimedStep s producer ch (.op o) { s with pool := p } (ops.map .ofOp)
  | readClock (w) : TimedStep s producer ch (.readClock w) s [.computeWait w s.clock]
  | noDelayed (w now) : (s.pool.mWorkerStates w).mDelayedTasks = [] →
      TimedStep s producer ch (.computeWait w now) s [.op (.acquire w)]
  | isDue (w now e es) : (s.pool.mWorkerStates w).mDelayedTasks = e :: es → e.mDue ≤ now →
      TimedStep s producer ch (.computeWait w now) s [.op (.take w .tasks)]
  | notDue (w now e es) : (s.pool.mWorkerStates w).mDelayedTasks = e :: es → ¬ e.mDue ≤ now →
      TimedStep s producer ch (.computeWait w now) s [.tryAcquireFor w now (e.mDue - now)]
  | block (w now waitFor) :
      TimedStep s producer ch (.tryAcquireFor w now waitFor) s [.blocked w ⟨now, s.clock, waitFor⟩]
  | signalled (w wait) : 0 < (s.pool.mWorkerStates w).mSignal → TimedStep s producer ch
      (.blocked w wait)
      { s with
        pool := s.pool.setWorker w
          { s.pool.mWorkerStates w with mSignal := (s.pool.mWorkerStates w).mSignal - 1 } }
      [.op (.take w .tasks)]
  | timeout (w wait) : wait.deadline ≤ s.clock →
      TimedStep s producer ch (.blocked w wait) s [.op (.take w .tasks)]

/-- What a timed operation does is a step. -/
theorem execTimed_step (h : execTimed s producer ch op = some (s', ops)) :
    TimedStep s producer ch op s' ops := by
  cases op with
  -- the operations without a clock are those of the pool
  | op o =>
    have hexec : (∀ w, o ≠ .computeWait w) ∧ (∀ w, o ≠ .tryAcquireFor w) ∧
        (execOp s.pool producer { ch with now := s.clock } o).map (fun r =>
          (({ s with pool := r.1 } : TimedState n), r.2.map TimedOp.ofOp)) = some (s', ops) := by
      cases o with
      | computeWait w | tryAcquireFor w => exact absurd h (by simp [execTimed])
      | _ => exact ⟨by simp, by simp, h⟩
    obtain ⟨hcompute, htry, hexec⟩ := hexec
    obtain ⟨r, hr, hs⟩ := Option.map_eq_some_iff.mp hexec
    cases hs
    exact .op hcompute htry (execOp_step hr)
  | readClock w => cases h; exact .readClock w
  | computeWait w now =>
    cases h
    split
    · next hnil => exact .noDelayed w now hnil
    · next e es hes =>
      split
      · next hdue => exact .isDue w now e es hes hdue
      · next hdue => exact .notDue w now e es hes hdue
  | tryAcquireFor w now waitFor => cases h; exact .block w now waitFor
  -- a blocked worker goes on by a signal, or after its time
  | blocked w wait =>
    simp only [execTimed] at h
    split at h
    · next hpos => cases h; exact .signalled w wait hpos.2
    · split at h
      · next hlate => cases h; exact .timeout w wait hlate
      · exact absurd h (by simp)

/-- An operation takes its step at the time of the clock. -/
theorem TimedStep.op_inv {o : Op n} (h : TimedStep s producer ch (.op o) s' ops) :
    ∃ ops', Step s.pool producer { ch with now := s.clock } o s'.pool ops' ∧
      ops = ops'.map TimedOp.ofOp := by
  cases h with
  | op hcompute htry hstep => exact ⟨_, hstep, rfl⟩

/-- A step starts no threads. -/
theorem timedExec_inv {tag : ℕ} {ts : List (TimedThread n)}
    (h : (timedScripts n).exec s tag ch op = some (s', ops, ts)) :
    execTimed s tag ch op = some (s', ops) ∧ ts = [] := by
  obtain ⟨r, hr, hs⟩ := Option.map_eq_some_iff.mp h
  cases hs
  exact ⟨hr, rfl⟩

/-- What a move does to a pool with a clock. -/
inductive TimedMoved (c c' : TimedPool n) : Prop
  | access {producer : ℕ} {ch : Choice} {op : TimedOp n} {ops : List (TimedOp n)} :
      TimedStep c.shared producer ch op c'.shared ops →
      (∀ p : TimedOp n → Bool, (p op).toNat ≤ pending p c ∧
        pending p c' + (p op).toNat = pending p c + ops.countP p) →
      TimedMoved c c'
  | rest : c'.shared.pool = c.shared.pool → c.shared.clock ≤ c'.shared.clock →
      (∀ p : TimedOp n → Bool, pending p c' = pending p c) → TimedMoved c c'
  | arrive (a : Call) : c'.shared = { c.shared with pool := (a.enter c.shared.pool).1 } →
      (∀ p : TimedOp n → Bool,
        pending p c' = pending p c + ((a.enter c.shared.pool).2.map TimedOp.ofOp).countP p) →
      TimedMoved c c'

/-- A step of the pool moves it. -/
theorem timedMoved_of_step {m : Move (Event Choice TimedCall)}
    (h : (timedScripts n).program.step c m = some c') : TimedMoved c c' := by
  rcases pending_step h with ⟨t, op, ch, ops, ts, -, hop, hp⟩ | ⟨tag, hs, hp⟩ | ⟨a, new,
    -, hnew, hp⟩
  · obtain ⟨hexec, rfl⟩ := timedExec_inv hop
    exact .access (execTimed_step hexec) hp
  · exact .rest (congrArg TimedState.pool hs) (Int.le_of_eq (congrArg TimedState.clock hs).symm) hp
  · cases a with
    | call producer a =>
      obtain ⟨hs, rfl⟩ := Prod.mk.inj (Option.some.inj hnew)
      exact .arrive a hs.symm fun p => by rw [hp, pendingIn_cons, pendingIn_nil, Nat.add_zero]
    | tick d =>
      obtain ⟨hs, rfl⟩ := Prod.mk.inj (Option.some.inj hnew)
      refine .rest (by rw [← hs]) ?_ fun p => by rw [hp, pendingIn_nil, Nat.add_zero]
      rw [← hs]
      exact Int.le_add_of_nonneg_right (Int.natCast_nonneg d)

/-! ### The pool without its clock -/

/-- The point of the pool without a clock. -/
def TimedOp.toOp : TimedOp n → Op n
  | .op o => o
  | .readClock w | .computeWait w _ => .computeWait w
  | .tryAcquireFor w _ _ | .blocked w _ => .tryAcquireFor w

/-- The pool without its clock. -/
def toPool (c : TimedPool n) : Pool n :=
  ⟨c.shared.pool, c.threads.map fun t => ⟨t.tag, t.code.map TimedOp.toOp⟩⟩

@[simp] theorem toPool_shared (c : TimedPool n) : (toPool c).shared = c.shared.pool := rfl

@[simp] theorem toOp_ofOp (o : Op n) : (TimedOp.ofOp o).toOp = o := by cases o <;> rfl

/-- Timed operations are counted by their kind. -/
theorem countP_toOp (p : Op n → Bool) (ops : List (TimedOp n)) :
    (ops.map TimedOp.toOp).countP p = ops.countP fun op => p op.toOp := List.countP_map

@[simp] theorem countP_ofOp (p : Op n → Bool) (ops : List (Op n)) :
    (ops.map TimedOp.ofOp).countP (fun op => p op.toOp) = ops.countP p := by
  rw [List.countP_map]
  exact List.countP_congr fun o _ => by simp

/-- So are those that are pending. -/
theorem pending_toPool (p : Op n → Bool) (c : TimedPool n) :
    pending p (toPool c) = pending (fun op => p op.toOp) c := by
  rw [pending_eq_sum, pending_eq_sum]
  simp only [toPool, List.map_map, Function.comp_def, countP_toOp]

/-- A step of the timed wait that the pool without a clock takes at once is no step of it. -/
theorem TimedStep.toStep (h : TimedStep s producer ch op s' ops) :
    (∃ ch', Step s.pool producer ch' op.toOp s'.pool (ops.map TimedOp.toOp)) ∨
      s'.pool = s.pool ∧ ops.map TimedOp.toOp = [op.toOp] := by
  cases h with
  | @op o p ops hcompute htry hstep =>
    refine Or.inl ⟨{ ch with now := s.clock }, ?_⟩
    rw [List.map_map, show TimedOp.toOp ∘ TimedOp.ofOp = @id (Op n) from funext toOp_ofOp,
      List.map_id]
    exact hstep
  | readClock w => exact Or.inr ⟨rfl, rfl⟩
  | noDelayed w now => exact Or.inl ⟨ch, .wait w _ (Or.inl rfl)⟩
  | isDue w now e es => exact Or.inl ⟨ch, .wait w _ (Or.inr (Or.inr rfl))⟩
  | notDue w now e es => exact Or.inl ⟨ch, .wait w _ (Or.inr (Or.inl rfl))⟩
  | block w now waitFor => exact Or.inr ⟨rfl, rfl⟩
  | signalled w wait => exact Or.inl ⟨ch, .signalled w _ (Or.inr rfl)⟩
  | timeout w wait => exact Or.inl ⟨ch, .timeout w⟩

/-- **Refinement.** The pool with a clock moves as the one without. -/
theorem TimedMoved.follows (h : TimedMoved c c') : ∃ o, Moved (toPool c) (toPool c') o := by
  cases h with
  | @access producer ch op ops hstep hp =>
    -- the pool does not see the steps that only read the clock or begin to block
    rcases hstep.toStep with ⟨ch', hstep⟩ | ⟨hpool, hops⟩
    · refine ⟨_, .access hstep fun p => ?_⟩
      rw [pending_toPool, pending_toPool, countP_toOp]
      exact hp fun op => p op.toOp
    · refine ⟨_, .rest hpool fun p => ?_⟩
      have hcount := (hp fun op => p op.toOp).2
      have hsame : ops.countP (fun op => p op.toOp) = (p op.toOp).toNat := by
        rw [← countP_toOp, hops]
        cases hop : p op.toOp <;> simp [hop]
      rw [pending_toPool, pending_toPool]
      omega
  | rest hpool _ hp =>
    refine ⟨_, .rest hpool fun p => ?_⟩
    rw [pending_toPool, pending_toPool, hp]
  | arrive a hs hp =>
    refine ⟨_, .arrive a (by rw [toPool_shared, hs, toPool_shared]) fun p => ?_⟩
    rw [pending_toPool, pending_toPool, hp, countP_ofOp, toPool_shared]

/-- What the pool without a clock has in every state. -/
structure Tracked (c : TimedPool n) : Prop where
  stopping : Stopping (toPool c)
  accounted : Accounted (toPool c)

/-- A pool that has just been made is tracked. -/
theorem tracked_initial (n : ℕ) (start : ℤ) : Tracked (timedSystem n start).init := by
  have hinit : toPool (timedSystem n start).init = (system n).init := by
    simp only [toPool, timedSystem, system, Program.system_init, List.map_map]
    rfl
  exact ⟨hinit ▸ stopping_initial n, hinit ▸ accounted_initial n⟩

/-- It is after every step. -/
theorem TimedMoved.tracked (h : TimedMoved c c') (hc : Tracked c) : Tracked c' := by
  obtain ⟨o, hmoved⟩ := h.follows
  exact ⟨hmoved.stopping hc.stopping, hmoved.accounted hc.accounted⟩

end ThreadPool
end SculkProtocol
