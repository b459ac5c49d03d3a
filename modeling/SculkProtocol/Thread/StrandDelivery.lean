import SculkProtocol.Thread.StrandExclusion

/-!
# Every accepted task is executed once

On a running pool a strand loses no task and executes none twice (`strand_delivers`).

* `Accounted` follows one task: it is offered, or refused, or queued, or it was taken
  from the queue, and only one of these (`places`); what was put into the queue is what
  was or will be accepted (`returns`).
* `Served` closes the window of the lost wakeup: a queued task has its own enqueuer in
  front of `scheduleDrain`, or a drain is scheduled, in progress, or about to look at the
  queue again. In the last case the flag is clear (`queued_unflagged`).
* `Counted` compares `mPendingTasks` with the tasks it counts. A task is admitted when
  the count, its own included, is within the limit, so the admitted ones are.

The counter has 32 bits. With `maxPendingTasks` at its largest value it wraps before it
exceeds the limit (`accepts_too_many`), so the limit is only kept while the counter does
not wrap (`CountFits`).
-/

namespace SculkProtocol
namespace TaskStrand

open Scripts

variable {c c' : Pool} {m : Move (Event Choice Call)} {s s' : State} {producer : ℕ} {ch : Choice}
  {op : Op} {ops : List Op} {ts : List Thread}

/-! ### The places of a task -/

/-- The task `x` is being offered. -/
def Op.offers (x : ℕ) : Op → Bool
  | .compareMax y _ | .loadPolicy y | .insert y | .uncount y => y == x
  | _ => false

/-- The enqueuer of `x` will return true. -/
def Op.returns (x : ℕ) : Op → Bool
  | .scheduleDrain y | .returnTrue y => y == x
  | _ => false

/-- The task `x` is being executed, or still counted. -/
def Op.executes (x : ℕ) : Op → Bool
  | .run y | .finishTask y => y == x
  | _ => false

/-- How often `x` is in the queue. -/
def State.queued (s : State) (x : ℕ) : ℕ := (s.mTasks.map Prod.snd).count x

/-- A dequeue takes one task out of the queue. -/
theorem dequeue_perm {q q' : List (ℕ × ℕ)} {i x : ℕ} (h : dequeue q i = some (x, q')) :
    (q.map Prod.snd).Perm (x :: q'.map Prod.snd) := by
  unfold dequeue at h
  split at h
  · next producer y hi =>
    split at h
    · cases h
      exact (Program.perm_eraseIdx hi).map Prod.snd
    · exact absurd h (by simp)
  · exact absurd h (by simp)

/-- One task is taken. -/
theorem dequeue_length {q q' : List (ℕ × ℕ)} {i x : ℕ} (h : dequeue q i = some (x, q')) :
    q.length = q'.length + 1 := by
  have hlen := (dequeue_perm h).length_eq
  simpa using hlen

/-- The task that is taken was counted. -/
theorem dequeue_count {q q' : List (ℕ × ℕ)} {i x : ℕ} (h : dequeue q i = some (x, q')) (y : ℕ) :
    (q.map Prod.snd).count y = (q'.map Prod.snd).count y + if x = y then 1 else 0 := by
  rw [(dequeue_perm h).count_eq, List.count_cons]
  simp

/-- What a dequeue does. -/
theorem tryDequeue_cases (h : execOp s producer ch .tryDequeue = some (s', ops, ts)) :
    (s.mTasks = [] ∧ s' = s ∧ ops = [.clearDrainScheduled] ∧ ts = []) ∨
      ∃ x q, dequeue s.mTasks ch.position = some (x, q) ∧
        s' = { s with mTasks := q, log := .begun x :: s.log } ∧ ops = [.run x] ∧ ts = [] := by
  simp only [execOp] at h
  split at h
  · next hnil => cases h; exact Or.inl ⟨hnil, rfl, rfl, rfl⟩
  · obtain ⟨⟨x, q⟩, hd, hr⟩ := Option.map_eq_some_iff.mp h
    cases hr
    exact Or.inr ⟨x, q, hd, rfl, rfl, rfl⟩

/-- The only thread a step starts is a job of the pool. -/
theorem execOp_jobs (h : execOp s producer ch op = some (s', ops, ts)) (p : Op → Bool)
    (hp : p .tryDequeue = false) : pendingIn p ts = 0 := by
  cases execOp_claim h with
  | keep _ _ _ hts | claim _ _ _ _ hts | refuse _ _ _ hts | release _ _ _ hts => rw [hts]; rfl
  | submit worker _ _ _ hts => rw [hts]; simp [hp]

/-- **Places.** A step passes a task on from one place to the next. -/
theorem execOp_places (h : execOp s producer ch op = some (s', ops, ts)) (x : ℕ) :
    ops.countP (Op.offers x) + s'.queued x + s'.log.count (.begun x) + s'.log.count (.refused x) +
        (if x < s.next then 1 else 0) =
      (op.offers x).toNat + s.queued x + s.log.count (.begun x) + s.log.count (.refused x) +
        (if x < s'.next then 1 else 0) := by
  cases op with
  | enqueue =>
    -- the new task has the first number that is not in use
    simp only [execOp] at h
    split at h <;> cases h <;> by_cases hx : s.next = x <;>
      simp [Op.offers, State.queued, hx] <;> grind
  | tryDequeue =>
    rcases tryDequeue_cases h with ⟨-, rfl, rfl, -⟩ | ⟨y, q, hd, rfl, rfl, -⟩
    · simp [Op.offers]
    · have hcount := dequeue_count hd x
      simp only [State.queued, hcount]
      by_cases hx : y = x <;> simp [Op.offers, hx]
      omega
  | insert y =>
    simp only [execOp] at h
    split at h <;> cases h <;> by_cases hx : y = x <;> simp [Op.offers, State.queued, hx]
    omega
  | uncount y => cases h; by_cases hx : y = x <;> simp [Op.offers, State.queued, hx]; omega
  | submitJob => simp only [execOp] at h; split at h <;> cases h <;> simp [Op.offers]
  | returnTrue y => cases h; rfl
  | finishTask y => cases h; simp [Op.offers, State.queued]
  | compareMax y | loadPolicy y =>
    cases h
    by_cases hx : y = x <;> split <;> simp [Op.offers, State.queued, hx]
  | loadAccepting | recheckAccepting | checkSize | resumeDrain | scheduleDrain | run =>
    cases h
    split <;> simp [Op.offers, State.queued]
  | _ => cases h; simp [Op.offers, State.queued]

/-- What is put into the queue is or will be accepted. -/
theorem execOp_returns (h : execOp s producer ch op = some (s', ops, ts)) (x : ℕ) :
    ops.countP (Op.returns x) + s'.log.count (.accepted x) + s.queued x + s.log.count (.begun x) =
      (op.returns x).toNat + s.log.count (.accepted x) + s'.queued x + s'.log.count (.begun x) := by
  cases op with
  -- what leaves the queue begins
  | tryDequeue =>
    rcases tryDequeue_cases h with ⟨-, rfl, rfl, -⟩ | ⟨y, q, hd, rfl, rfl, -⟩
    · simp [Op.returns]
    · have hcount := dequeue_count hd x
      simp only [State.queued, hcount]
      by_cases hx : y = x <;> simp [Op.returns, hx]
      omega
  | insert y =>
    simp only [execOp] at h
    split at h <;> cases h <;> by_cases hx : y = x <;> simp [Op.returns, State.queued, hx]
    omega
  -- the caller's answer is what is accepted
  | returnTrue y =>
    cases h
    by_cases hx : y = x <;> simp [Op.returns, State.queued, State.record, hx]
    omega
  | enqueue | submitJob =>
    simp only [execOp] at h
    split at h <;> cases h <;> simp [Op.returns, State.queued]
  | scheduleDrain y =>
    cases h
    by_cases hx : y = x <;> split <;> simp [Op.returns, State.queued, hx]
  | compareMax | loadPolicy | loadAccepting | recheckAccepting | checkSize | resumeDrain | run =>
    cases h
    split <;> simp [Op.returns, State.queued]
  | _ => cases h; simp [Op.returns, State.queued]

/-- What was taken from the queue is being executed, or finished. -/
theorem execOp_executions (h : execOp s producer ch op = some (s', ops, ts)) (x : ℕ) :
    ops.countP (Op.executes x) + s'.log.count (.finished x) + s.log.count (.begun x) =
      (op.executes x).toNat + s.log.count (.finished x) + s'.log.count (.begun x) := by
  cases op with
  -- a task that leaves the queue begins, and is about to run
  | tryDequeue =>
    rcases tryDequeue_cases h with ⟨-, rfl, rfl, -⟩ | ⟨y, q, hd, rfl, rfl, -⟩
    · simp [Op.executes]
    · by_cases hx : y = x <;> simp [Op.executes, hx]
      omega
  | finishTask y => cases h; by_cases hx : y = x <;> simp [Op.executes, hx]; omega
  | run y => cases h; split <;> by_cases hx : y = x <;> simp [Op.executes, hx]
  | enqueue | submitJob | insert y =>
    simp only [execOp] at h
    split at h <;> cases h <;> simp [Op.executes]
  | returnTrue y => cases h; simp [Op.executes, State.record]
  | compareMax | loadPolicy | loadAccepting | recheckAccepting | checkSize | resumeDrain
  | scheduleDrain =>
    cases h
    split <;> simp [Op.executes]
  | _ => cases h; simp [Op.executes]

/-- What is known about each task of a strand. -/
structure Accounted (c : Pool) : Prop where
  places : ∀ x, pending (Op.offers x) c + c.shared.queued x + c.shared.log.count (.begun x) +
    c.shared.log.count (.refused x) = if x < c.shared.next then 1 else 0
  returns : ∀ x, pending (Op.returns x) c + c.shared.log.count (.accepted x) =
    c.shared.queued x + c.shared.log.count (.begun x)
  executions : ∀ x, pending (Op.executes x) c + c.shared.log.count (.finished x) =
    c.shared.log.count (.begun x)

/-- A strand that has just been made has no task. -/
theorem accounted_initial (n : UInt32) : Accounted (system n).init :=
  ⟨fun _ => rfl, fun _ => rfl, fun _ => rfl⟩

/-- Calls leave the tasks alone. -/
theorem arrive_tasks {a : Call} {new : List Thread} (h : arrive s a = some (s', new)) :
    s'.mTasks = s.mTasks ∧ s'.log = s.log ∧ s'.next = s.next ∧
    s'.mPendingTasks = s.mPendingTasks := by
  cases a <;> cases h <;> exact ⟨rfl, rfl, rfl, rfl⟩

/-- **One move** keeps the account of each task. -/
theorem accounted_step (hc : Accounted c) (h : scripts.program.step c m = some c') :
    Accounted c' := by
  rcases pending_step h with ⟨t, op, ch, ops, ts, hdoes, hop, hp⟩ | ⟨tag, hs, hp⟩ | ⟨a, new,
    -, hnew, hp⟩
  · refine ⟨fun x => ?_, fun x => ?_, fun x => ?_⟩
    · -- the operation and the queue trade the task between them
      have hexec := execOp_places hop x
      have hpool := (hp (Op.offers x)).2
      rw [execOp_jobs hop _ rfl] at hpool
      have hold := hc.places x
      omega
    · have hexec := execOp_returns hop x
      have hpool := (hp (Op.returns x)).2
      rw [execOp_jobs hop _ rfl] at hpool
      have hold := hc.returns x
      omega
    · have hexec := execOp_executions hop x
      have hpool := (hp (Op.executes x)).2
      rw [execOp_jobs hop _ rfl] at hpool
      have hold := hc.executions x
      omega
  · -- a thread that ends leaves everything
    change c'.shared = c.shared at hs
    refine ⟨fun x => ?_, fun x => ?_, fun x => ?_⟩ <;> rw [hs, hp]
    · exact hc.places x
    · exact hc.returns x
    · exact hc.executions x
  · obtain ⟨-, hzero⟩ := arrive_claim hnew
    obtain ⟨htasks, hlog, hnext, -⟩ := arrive_tasks hnew
    refine ⟨fun x => ?_, fun x => ?_, fun x => ?_⟩ <;>
      rw [hp, hzero _ rfl, hlog, Nat.add_zero]
    · rw [hnext, State.queued, htasks]
      exact hc.places x
    · rw [State.queued, htasks]
      exact hc.returns x
    · exact hc.executions x

/-! ### The window of the lost wakeup -/

/-- The enqueuer of `x` has put it into the queue, and will schedule a drain next. -/
def Op.schedules (x : ℕ) : Op → Bool
  | .scheduleDrain y => y == x
  | _ => false

/-- A drain that has cleared the flag will look at the queue again. -/
def Op.rechecks : Op → Bool
  | .checkSize | .resumeDrain => true
  | _ => false

/-- A drain is being scheduled, is in progress, or will look at the queue again. -/
def Op.serves (op : Op) : Bool := op.submits || op.drains || op.rechecks

/-- Queued tasks are served. -/
structure Served (c : Pool) : Prop where
  flagged : c.shared.mDrainScheduled = true →
    0 < pending Op.submits c ∨ 0 < pending Op.drains c
  served : ∀ x, 0 < c.shared.queued x → 0 < pending (Op.schedules x) c ∨ 0 < pending Op.serves c

/-- Whoever serves the queue goes on to do so, unless it has found the queue empty or
the flag set. -/
theorem execOp_serves (h : execOp s producer ch op = some (s', ops, ts)) (hop : op.serves = true) :
    0 < ops.countP Op.serves + pendingIn Op.serves ts ∨ (op = .checkSize ∧ s.mTasks = [] ∧ s' = s) ∨
      (op = .resumeDrain ∧ s.mDrainScheduled = true ∧ s'.mTasks = s.mTasks) := by
  cases op with
  -- a worker that finds nothing leaves
  | checkSize =>
    cases h
    split
    · next hnil => exact Or.inr (Or.inl ⟨rfl, hnil, rfl⟩)
    · exact Or.inl Nat.zero_lt_one
  -- a worker that finds the flag set leaves the queue to the one who has set it
  | resumeDrain =>
    cases h
    split
    · next hflag => exact Or.inr (Or.inr ⟨rfl, hflag, rfl⟩)
    · exact Or.inl Nat.zero_lt_one
  | loadAccepting | recheckAccepting => cases h; left; split <;> exact Nat.zero_lt_one
  | submitJob =>
    simp only [execOp] at h
    split at h <;> cases h <;> exact Or.inl (by simp [Op.serves, Op.drains, Op.submits])
  | tryDequeue =>
    rcases tryDequeue_cases h with ⟨-, rfl, rfl, -⟩ | ⟨y, q, hd, rfl, rfl, -⟩
    · exact Or.inl (Nat.add_pos_left (by simp [Op.serves, Op.drains]) _)
    · exact Or.inl (Nat.add_pos_left (by simp [Op.serves, Op.drains]) _)
  | run y =>
    cases h
    left
    split <;> simp [Op.serves, Op.drains, Op.submits, Op.rechecks]
  | unscheduleDrain | finishTask | clearDrainScheduled =>
    cases h
    exact Or.inl (by simp [Op.serves, Op.drains, Op.rechecks])
  | _ => exact absurd hop (by simp [Op.serves, Op.submits, Op.drains, Op.rechecks])

/-- Only `insert` puts tasks into the queue. -/
theorem execOp_queued (h : execOp s producer ch op = some (s', ops, ts)) {x : ℕ}
    (hx : 0 < s'.queued x) : 0 < s.queued x ∨ ops = [.scheduleDrain x] := by
  cases op with
  | insert y =>
    simp only [execOp] at h
    split at h <;> cases h
    · by_cases hy : y = x
      · exact Or.inr (by rw [hy])
      · exact Or.inl (by simpa [State.queued, hy] using hx)
    · exact Or.inl hx
  | tryDequeue =>
    rcases tryDequeue_cases h with ⟨-, rfl, -, -⟩ | ⟨y, q, hd, rfl, -, -⟩
    · exact Or.inl hx
    · have hcount := dequeue_count hd x
      change 0 < (q.map Prod.snd).count x at hx
      exact Or.inl (by rw [State.queued]; omega)
  | enqueue | submitJob => simp only [execOp] at h; split at h <;> cases h <;> exact Or.inl hx
  | _ => cases h; exact Or.inl hx

/-- After an exchange the flag is set. -/
theorem execOp_sets (h : execOp s producer ch op = some (s', ops, ts))
    (hop : (∃ y, op = .scheduleDrain y) ∨ op = .resumeDrain) : s'.mDrainScheduled = true := by
  rcases hop with ⟨y, rfl⟩ | rfl <;> cases h <;> rfl

/-- A flag that is set belongs to somebody. -/
theorem flagged_step (hc : Served c) (h : scripts.program.step c m = some c') :
    c'.shared.mDrainScheduled = true → 0 < pending Op.submits c' ∨ 0 < pending Op.drains c' := by
  have hflagged := hc.flagged
  rcases pending_step h with ⟨t, op, ch, ops, ts, hdoes, hop, hp⟩ | ⟨tag, hs, hp⟩ | ⟨a, new,
    -, hnew, hp⟩
  · obtain ⟨-, hsubmits⟩ := hp Op.submits
    obtain ⟨-, hdrains⟩ := hp Op.drains
    intro hset
    cases execOp_claim hop with
    | keep hflag hsub hdr hts =>
      rw [hsub, hts, pendingIn_nil] at hsubmits
      rw [hdr, hts, pendingIn_nil] at hdrains
      rcases hflagged (hflag.symm.trans hset) with hpos | hpos
      · exact Or.inl (by omega)
      · exact Or.inr (by omega)
    | claim hclaims hclear _ hops hts =>
      -- who claims the flag submits a drain, or takes the next task itself
      subst hts
      rcases hclaims with ⟨y, rfl⟩ | rfl <;> rcases hops with ⟨z, rfl⟩ | rfl <;>
        simp [List.countP_cons, Op.submits, Op.drains] at hsubmits hdrains <;> omega
    | submit worker hop' _ hops hts =>
      -- the submitted job drains
      subst hop' hops hts
      simp [Op.drains] at hdrains
      exact Or.inr (by omega)
    | refuse _ hclear | release _ hclear => exact absurd (hclear.symm.trans hset) (by simp)
  · intro hset
    rw [hp, hp]
    exact hflagged (congrArg State.mDrainScheduled hs ▸ hset)
  · obtain ⟨hflag, hzero⟩ := arrive_claim hnew
    intro hset
    rw [hp, hp, hzero _ rfl, hzero _ rfl]
    exact hflagged (hflag ▸ hset)

/-- Who is submitting or draining serves the queue. -/
theorem serves_of_claim (h : 0 < pending Op.submits c ∨ 0 < pending Op.drains c) :
    0 < pending Op.serves c := by
  rcases h with hpos | hpos
  · exact hpos.trans_le (pending_mono fun op hop => by simp [Op.serves, hop])
  · exact hpos.trans_le (pending_mono fun op hop => by simp [Op.serves, hop])

/-- **One move** leaves no queued task behind. -/
theorem served_step (hc : Served c) (h : scripts.program.step c m = some c') : Served c' := by
  refine ⟨flagged_step hc h, ?_⟩
  intro x hx
  have hflag' := flagged_step hc h
  rcases pending_step h with ⟨t, op, ch, ops, ts, hdoes, hop, hp⟩ | ⟨tag, hs, hp⟩ | ⟨a, new,
    -, hnew, hp⟩
  · change execOp c.shared t.tag ch op = some (c'.shared, ops, ts) at hop
    obtain ⟨hle, hserves⟩ := hp Op.serves
    obtain ⟨-, hschedules⟩ := hp (Op.schedules x)
    rw [execOp_jobs hop _ rfl] at hschedules
    by_cases hserve : op.serves = true
    · rw [hserve] at hle hserves
      rcases execOp_serves hop hserve with hpos | ⟨-, hnil, hsame⟩ | ⟨rfl, hset, -⟩
      · exact Or.inr (by simp at hle hserves; omega)
      · rw [hsame, State.queued, hnil] at hx
        exact absurd hx (by simp)
      · -- the flag was set by somebody else, who drains
        exact Or.inr (serves_of_claim (hflag' (execOp_sets hop (Or.inr rfl))))
    · have hzero : op.serves.toNat = 0 := by simpa using hserve
      by_cases hsched : ∃ y, op = .scheduleDrain y
      · obtain ⟨y, rfl⟩ := hsched
        exact Or.inr (serves_of_claim (hflag' (execOp_sets hop (Or.inl ⟨y, rfl⟩))))
      · have hkeep : (op.schedules x).toNat = 0 := by
          cases op with
          | scheduleDrain y => exact absurd ⟨y, rfl⟩ hsched
          | _ => rfl
        rcases execOp_queued hop hx with hold | hnew
        · rcases hc.served x hold with hpos | hpos
          · exact Or.inl (by omega)
          · exact Or.inr (by omega)
        · have hone : ops.countP (Op.schedules x) = 1 := by rw [hnew]; simp [Op.schedules]
          exact Or.inl (by omega)
  · change c'.shared = c.shared at hs
    rw [hs] at hx
    rw [hp, hp]
    exact hc.served x hx
  · obtain ⟨htasks, -⟩ := arrive_tasks hnew
    obtain ⟨-, hzero⟩ := arrive_claim hnew
    rw [State.queued, htasks] at hx
    rw [hp, hp, hzero _ rfl, hzero _ rfl]
    exact hc.served x hx

/-! ### The counter of pending tasks -/

/-- The task of this program point is counted in `mPendingTasks`, and not queued. -/
def Op.counts : Op → Bool
  | .compareMax _ _ | .loadPolicy _ | .insert _ | .uncount _ | .run _ | .finishTask _ => true
  | _ => false

/-- The task is counted and within the limit `n`. -/
def Op.admits (n : UInt32) : Op → Bool
  | .compareMax _ pending => decide (pending ≤ n)
  | .insert _ | .run _ | .finishTask _ => true
  | _ => false

/-- If `x` counts a task, the counter does not wrap. -/
def CountFits (x : PoolStep) : Prop :=
  ∀ t, Does x t .enqueue → x.src.shared.mPendingTasks.toNat + 1 < 2 ^ 32

/-- `x` is not a call that changes the limit, the policy or the pool. -/
def FixedSettings (x : PoolStep) : Prop :=
  ∀ a, x.label = .env (.call a) → ∃ p, a = .enqueue p

/-- What the counter of a strand with limit `n` and no policy says. -/
structure Counted (n : UInt32) (c : Pool) : Prop where
  limit : c.shared.mMaxPendingTasks = n
  noPolicy : c.shared.mBackpressurePolicy = false
  count : c.shared.mPendingTasks.toNat = pending Op.counts c + c.shared.mTasks.length
  admitted : pending (Op.admits n) c + c.shared.mTasks.length ≤ n.toNat

/-- It counts none. -/
theorem counted_initial (n : UInt32) : Counted n (system n).init :=
  ⟨rfl, rfl, rfl, Nat.zero_le _⟩

/-- Only the setters change the settings. -/
theorem execOp_settings (h : execOp s producer ch op = some (s', ops, ts)) :
    s'.mMaxPendingTasks = s.mMaxPendingTasks ∧ s'.mBackpressurePolicy = s.mBackpressurePolicy := by
  cases op with
  | tryDequeue =>
    rcases tryDequeue_cases h with ⟨-, rfl, -, -⟩ | ⟨y, q, -, rfl, -, -⟩ <;> exact ⟨rfl, rfl⟩
  | enqueue | insert | submitJob =>
    simp only [execOp] at h; split at h <;> cases h <;> exact ⟨rfl, rfl⟩
  | _ => cases h; exact ⟨rfl, rfl⟩

/-- The counter follows the tasks it counts, as long as it does not wrap. -/
theorem execOp_counts (h : execOp s producer ch op = some (s', ops, ts))
    (hcount : op.counts.toNat ≤ s.mPendingTasks.toNat)
    (hfits : op = .enqueue → s.mPendingTasks.toNat + 1 < 2 ^ 32) :
    ops.countP Op.counts + s'.mTasks.length + s.mPendingTasks.toNat =
      op.counts.toNat + s.mTasks.length + s'.mPendingTasks.toNat := by
  -- what is subtracted was counted
  have hsub : op.counts.toNat = 1 → (s.mPendingTasks - 1).toNat + 1 = s.mPendingTasks.toNat := by
    intro hone
    have hpos : 1 ≤ s.mPendingTasks.toNat := hone ▸ hcount
    have hle : 1 ≤ s.mPendingTasks := UInt32.le_iff_toNat_le.mpr hpos
    rw [UInt32.toNat_sub_of_le _ _ hle]
    exact Nat.sub_add_cancel hpos
  cases op with
  | enqueue =>
    -- what is added fits
    have hadd : (s.mPendingTasks + 1).toNat = s.mPendingTasks.toNat + 1 := by
      rw [UInt32.toNat_add]
      exact Nat.mod_eq_of_lt (hfits rfl)
    simp only [execOp] at h
    split at h <;> cases h <;> simp [Op.counts, hadd]
    omega
  | tryDequeue =>
    rcases tryDequeue_cases h with ⟨-, rfl, rfl, -⟩ | ⟨y, q, hd, rfl, rfl, -⟩
    · simp [Op.counts]
    · simp [Op.counts, dequeue_length hd]
      omega
  | uncount | finishTask => cases h; have := hsub rfl; simp [Op.counts]; omega
  | insert =>
    simp only [execOp] at h
    split at h <;> cases h <;> simp [Op.counts]
    omega
  | submitJob => simp only [execOp] at h; split at h <;> cases h <;> simp [Op.counts]
  | returnTrue => cases h; rfl
  | compareMax | loadPolicy | loadAccepting | recheckAccepting | checkSize | resumeDrain
  | scheduleDrain | run =>
    cases h
    split <;> simp [Op.counts]
  | _ => cases h; simp [Op.counts]

/-- A task is only admitted by `enqueue`, and within the limit. -/
theorem execOp_admits (h : execOp s producer ch op = some (s', ops, ts))
    (hpolicy : s.mBackpressurePolicy = false) :
    ops.countP (Op.admits s.mMaxPendingTasks) + s'.mTasks.length ≤
        (op.admits s.mMaxPendingTasks).toNat + s.mTasks.length ∨
      (op = .enqueue ∧ ops.countP (Op.admits s.mMaxPendingTasks) = 1 ∧ s'.mTasks = s.mTasks ∧
        s.mPendingTasks + 1 ≤ s.mMaxPendingTasks) := by
  cases op with
  | enqueue =>
    simp only [execOp] at h
    split at h
    · cases h
      by_cases hle : s.mPendingTasks + 1 ≤ s.mMaxPendingTasks
      · -- the count is within the limit: the task will be admitted
        exact Or.inr ⟨rfl, by simp [Op.admits, hle], rfl, hle⟩
      · exact Or.inl (by simp [Op.admits, hle])
    · cases h
      exact Or.inl (by simp)
  | compareMax y p =>
    cases h
    left
    split
    · simp [Op.admits]
    · -- the comparison is the one that `Op.admits` makes
      next hle => simp [Op.admits, UInt32.not_lt.mp hle]
  | loadPolicy => cases h; left; simp [Op.admits, hpolicy]
  | tryDequeue =>
    left
    rcases tryDequeue_cases h with ⟨-, rfl, rfl, -⟩ | ⟨y, q, hd, rfl, rfl, -⟩
    · simp [Op.admits]
    · simp [Op.admits, dequeue_length hd]
      omega
  | insert =>
    left
    simp only [execOp] at h
    split at h <;> cases h <;> simp [Op.admits, Nat.add_comm]
  | submitJob => left; simp only [execOp] at h; split at h <;> cases h <;> simp [Op.admits]
  | returnTrue => cases h; exact Or.inl (Nat.le_refl _)
  | loadAccepting | recheckAccepting | checkSize | resumeDrain | scheduleDrain | run =>
    cases h
    left
    split <;> simp [Op.admits]
  | _ => cases h; left; simp [Op.admits]

/-- **One move** that keeps the settings, and in which the counter does not wrap. -/
theorem counted_step {n : UInt32} (hc : Counted n c) (h : scripts.program.step c m = some c')
    (hfixed : FixedSettings ⟨c, m, c'⟩) (hfits : CountFits ⟨c, m, c'⟩) : Counted n c' := by
  obtain ⟨hlimit, hpolicy, hcount, hadmitted⟩ := hc
  rcases pending_step h with ⟨t, op, ch, ops, ts, hdoes, hop, hp⟩ | ⟨tag, hs, hp⟩ | ⟨a, new,
    hm, hnew, hp⟩
  · change execOp c.shared t.tag ch op = some (c'.shared, ops, ts) at hop
    obtain ⟨hlimit', hpolicy'⟩ := execOp_settings hop
    obtain ⟨hone, hcounts⟩ := hp Op.counts
    obtain ⟨-, hadmits⟩ := hp (Op.admits n)
    rw [execOp_jobs hop _ rfl] at hcounts hadmits
    have hexec := execOp_counts hop (by omega) (fun heq => hfits t (heq ▸ hdoes))
    refine ⟨hlimit'.trans hlimit, hpolicy'.trans hpolicy, by omega, ?_⟩
    have hadmit := execOp_admits hop hpolicy
    rw [hlimit] at hadmit
    rcases hadmit with hle | ⟨rfl, hnew, htasks, hle⟩
    · omega
    · -- the new task's count includes every task that is admitted
      have hwithin : (c.shared.mPendingTasks + 1).toNat ≤ n.toNat := UInt32.le_iff_toNat_le.mp hle
      have hadd : (c.shared.mPendingTasks + 1).toNat = c.shared.mPendingTasks.toNat + 1 := by
        rw [UInt32.toNat_add]
        exact Nat.mod_eq_of_lt (hfits t hdoes)
      have hsub : pending (Op.admits n) c ≤ pending Op.counts c := pending_mono fun op hop => by
        cases op with
        | compareMax | insert | run | finishTask => rfl
        | _ => exact absurd hop (by simp [Op.admits])
      have hzero : (Op.enqueue.admits n).toNat = 0 := rfl
      rw [htasks]
      omega
  · change c'.shared = c.shared at hs
    refine ⟨?_, ?_, ?_, ?_⟩ <;> rw [hs]
    · exact hlimit
    · exact hpolicy
    · rw [hp]; exact hcount
    · rw [hp]; exact hadmitted
  · obtain ⟨p, rfl⟩ := hfixed a hm
    change arrive c.shared (.enqueue p) = some (c'.shared, new) at hnew
    obtain ⟨-, hzero⟩ := arrive_claim hnew
    have hs : c'.shared = c.shared := (Prod.mk.inj (Option.some.inj hnew)).1.symm
    refine ⟨?_, ?_, ?_, ?_⟩ <;> rw [hs]
    · exact hlimit
    · exact hpolicy
    · rw [hp, hzero _ rfl]; exact hcount
    · rw [hp, hzero _ rfl]; exact hadmitted

/-! ### The tasks that are accepted and not finished -/

/-- The task that is being executed, or still counted, at a program point of a drain. -/
def Op.executed : Op → Option ℕ
  | .run x | .finishTask x => some x
  | _ => none

/-- The tasks that are queued or being executed. -/
def current (c : Pool) : List ℕ :=
  c.threads.flatMap (fun t => t.code.filterMap Op.executed) ++ c.shared.mTasks.map Prod.snd

/-- The tasks that are accepted and not finished. -/
def unfinished (s : State) : List ℕ :=
  (List.range s.next).filter fun x => s.log.contains (.accepted x) && !s.log.contains (.finished x)

/-- The tasks of a strand are those that are executed and those that are queued. -/
theorem length_current (c : Pool) :
    (current c).length = pending (fun op => op.executed.isSome) c + c.shared.mTasks.length := by
  rw [current, List.length_append, List.length_map, List.length_flatMap, pending_eq_sum]
  congr 2
  exact List.map_congr_left fun t _ => List.length_filterMap_eq_countP

/-- An accepted task that is not finished is queued or being executed. -/
theorem unfinished_subset (hc : Accounted c) : unfinished c.shared ⊆ current c := by
  intro x hx
  obtain ⟨-, hx⟩ := List.mem_filter.mp hx
  obtain ⟨haccepted, hfinished⟩ := Bool.and_eq_true_iff.mp hx
  have hacc : 0 < c.shared.log.count (.accepted x) :=
    List.count_pos_iff.mpr (List.contains_iff_mem.mp haccepted)
  have hfin : c.shared.log.count (.finished x) = 0 :=
    List.count_eq_zero.mpr fun hmem => absurd hmem (by simpa using hfinished)
  have hreturns := hc.returns x
  have hexecutions := hc.executions x
  by_cases hqueued : 0 < c.shared.queued x
  · exact List.mem_append_right _ (List.count_pos_iff.mp hqueued)
  · -- it was taken from the queue, and has not ended
    have hpos : 0 < pending (Op.executes x) c := by omega
    obtain ⟨t, ht, op, hop, hexec⟩ := exists_of_pending_pos hpos
    refine List.mem_append_left _
      (List.mem_flatMap.mpr ⟨t, ht, List.mem_filterMap.mpr ⟨op, hop, ?_⟩⟩)
    cases op with
    | run y | finishTask y => exact congrArg some (beq_iff_eq.mp hexec)
    | _ => exact absurd hexec (by simp [Op.executes])

/-- **The limit.** -/
theorem length_unfinished {n : UInt32} (hc : Accounted c) (hn : Counted n c) :
    (unfinished c.shared).length ≤ n.toNat := by
  have hnodup : (unfinished c.shared).Nodup := List.nodup_range.filter _
  have hexecuted : pending (fun op => op.executed.isSome) c ≤ pending (Op.admits n) c :=
    pending_mono fun op hop => by
      cases op with
      | run | finishTask => rfl
      | _ => exact absurd hop (by simp [Op.executed])
  calc (unfinished c.shared).length
      ≤ (current c).length := (List.subperm_of_subset hnodup (unfinished_subset hc)).length_le
    _ = pending (fun op => op.executed.isSome) c + c.shared.mTasks.length := length_current c
    _ ≤ pending (Op.admits n) c + c.shared.mTasks.length := Nat.add_le_add_right hexecuted _
    _ ≤ n.toNat := hn.admitted

/-! ### Runs -/

/-- Nobody waits for a strand that has just been made. -/
theorem served_initial (n : UInt32) : Served (system n).init :=
  ⟨fun h => absurd h (by simp [system, State.initial]), fun _ hx => absurd hx (Nat.lt_irrefl 0)⟩

/-- The program points that decrement the counter. -/
def Op.uncounts : Op → Bool
  | .uncount _ | .finishTask _ => true
  | _ => false

/-- **Delivery.** On a running pool, without a policy and with a fixed limit, while the
counter does not wrap: an accepted task is executed once, or it is queued and served; a
refused one is never executed; the counter does not fall below zero; and the accepted
tasks that are not finished are within the limit. -/
theorem strand_delivers {n : UInt32} {h : List PoolStep} (hr : (system n).Run h c)
    (haccepted : ∀ x ∈ h, JobAccepted x) (hfixed : ∀ x ∈ h, FixedSettings x)
    (hfits : ∀ x ∈ h, CountFits x) :
    (∀ x, .accepted x ∈ c.shared.log →
      (c.shared.log.count (.begun x) = 1 ∧ c.shared.queued x = 0) ∨
      (c.shared.log.count (.begun x) = 0 ∧ c.shared.queued x = 1 ∧ 0 < pending Op.serves c)) ∧
    (c.shared.mTasks ≠ [] → c.shared.mDrainScheduled = false →
      (∃ x, 0 < pending (Op.schedules x) c) ∨ 0 < pending Op.rechecks c) ∧
    (∀ x, .refused x ∈ c.shared.log →
      c.shared.log.count (.begun x) = 0 ∧ c.shared.queued x = 0) ∧
    (∀ x ∈ h, ∀ t op, Does x t op → op.uncounts = true → 0 < x.src.shared.mPendingTasks.toNat) ∧
    (unfinished c.shared).length ≤ n.toNat := by
  have hcond : ∀ x ∈ h, FixedSettings x ∧ CountFits x := fun x hx => ⟨hfixed x hx, hfits x hx⟩
  have hheld := held_of_accepted hr haccepted
  have hacc : Accounted c := hr.invariant (accounted_initial n) fun _ _ _ hs hst =>
    accounted_step hs hst
  have hserved : Served c := hr.invariant (served_initial n) fun _ _ _ hs hst => served_step hs hst
  have hcounted : Counted n c := hr.invariant_where (counted_initial n)
    (fun _ _ _ hs hst hC => counted_step hs hst hC.1 hC.2) hcond
  refine ⟨fun x hx => ?_, fun hne hclear => ?_, fun x hx => ?_, fun x hx t op hdoes hop => ?_,
    length_unfinished hacc hcounted⟩
  · -- the task was put into the queue, and its enqueuer has returned
    have hpos : 0 < c.shared.log.count (.accepted x) := List.count_pos_iff.mpr hx
    have hplaces := hacc.places x
    have hreturns := hacc.returns x
    have hschedules : pending (Op.schedules x) c ≤ pending (Op.returns x) c :=
      pending_mono fun op hop => by
        cases op with
        | scheduleDrain y => exact hop
        | _ => exact absurd hop (by simp [Op.schedules])
    have hone : (if x < c.shared.next then 1 else 0) ≤ 1 := by split <;> simp
    by_cases hqueued : 0 < c.shared.queued x
    · rcases hserved.served x hqueued with hown | hserve
      · omega
      · exact Or.inr ⟨by omega, by omega, hserve⟩
    · exact Or.inl ⟨by omega, by omega⟩
  · -- a queued task has its enqueuer, or somebody who serves the queue
    obtain ⟨e, he⟩ := List.exists_mem_of_ne_nil _ hne
    have hqueued : 0 < c.shared.queued e.2 := List.count_pos_iff.mpr (List.mem_map_of_mem he)
    rcases hserved.served e.2 hqueued with hown | hserve
    · exact Or.inl ⟨e.2, hown⟩
    · obtain ⟨t, ht, op, hop, hserves⟩ := exists_of_pending_pos hserve
      have hnot : ∀ {b : Bool}, b = true → b = false → False := fun h₁ h₂ => by simp [h₁] at h₂
      simp only [Op.serves, Bool.or_eq_true] at hserves
      rcases hserves with (hsub | hdrain) | hcheck
      · have hle := le_pending (p := Op.submits) ht hop
        rw [hsub] at hle
        exact absurd hclear (hnot (hheld.flagged hle))
      · have hle := le_pending (p := Op.drains) ht hop
        rw [hdrain] at hle
        exact absurd hclear (hnot (hheld.drained hle))
      · have hle := le_pending (p := Op.rechecks) ht hop
        rw [hcheck] at hle
        exact Or.inr hle
  · -- a task is in one place only, and a refused one is in the log
    have hpos : 0 < c.shared.log.count (.refused x) := List.count_pos_iff.mpr hx
    have hplaces := hacc.places x
    have hone : (if x < c.shared.next then 1 else 0) ≤ 1 := by split <;> simp
    exact ⟨by omega, by omega⟩
  · -- who uncounts a task has counted it, so the counter is not at zero
    have hsrc : Counted n x.src := (hr.transitions_where (counted_initial n)
      (fun _ _ _ hs hst hC => counted_step hs hst hC.1 hC.2) hcond x hx).1
    have hle := le_pending (p := Op.counts) hdoes.mem.1 hdoes.mem.2
    have hone : op.counts = true := by
      cases op with
      | uncount | finishTask => rfl
      | _ => exact absurd hop (by simp [Op.uncounts])
    rw [hone] at hle
    rw [hsrc.count]
    exact Nat.add_pos_left hle _

/-! ### Examples, and the limits of the account -/

/-- `JobAccepted` and `FixedSettings`, to be evaluated. -/
def ordinary (x : PoolStep) : Bool :=
  (match x.label with
    | .env (.call (.enqueue _)) => true
    | .env (.call _) => false
    | _ => true) &&
  match performed x with
  | some (_, .unscheduleDrain) => false
  | _ => true

/-- The evaluation of the conditions is right. -/
theorem ordinary_sound {x : PoolStep} (h : ordinary x = true) :
    JobAccepted x ∧ FixedSettings x := by
  obtain ⟨hlabel, hperformed⟩ := Bool.and_eq_true_iff.mp h
  constructor
  · intro t hdoes
    rw [show performed x = _ from hdoes] at hperformed
    exact absurd hperformed (by simp)
  · intro a ha
    rw [ha] at hlabel
    cases a with
    | enqueue p => exact ⟨p, rfl⟩
    | _ => exact absurd hlabel (by simp)

/-- `CountFits`, to be evaluated. -/
def countFits (x : PoolStep) : Bool :=
  match performed x with
  | some (_, .enqueue) => decide (x.src.shared.mPendingTasks.toNat + 1 < 2 ^ 32)
  | _ => true

/-- So is that of the bound. -/
theorem countFits_sound {x : PoolStep} (h : countFits x = true) : CountFits x := by
  intro t hdoes
  rw [countFits, show performed x = _ from hdoes] at h
  exact of_decide_eq_true h

/-- One thread enqueues a task, and the drain of the pool's job executes it. -/
def firstTask : List (Move (Event Choice Call)) :=
  offer 0 ++ [next 0, next 0, next 0, next 0, next 1, next 0, next 0, next 0, next 0]

/-- Another thread enqueues a task, and returns, while the drain is about to clear the
flag. -/
def secondTask : List (Move (Event Choice Call)) :=
  .env (.call (.enqueue 1)) :: List.replicate 6 (next 1)

/-- The first task is executed, the second one is queued and served. -/
theorem strand_delivers_two :
    ∃ h c, (system 8).Run h c ∧ .accepted 0 ∈ c.shared.log ∧ .accepted 1 ∈ c.shared.log ∧
      c.shared.log.count (.begun 0) = 1 ∧ c.shared.queued 1 = 1 ∧ 0 < pending Op.serves c := by
  obtain ⟨h, c, hr, hp⟩ := (system 8).exists_run_of_follow
    (p := fun h c => decide (.accepted 0 ∈ c.shared.log ∧ .accepted 1 ∈ c.shared.log ∧
      c.shared.queued 0 = 0 ∧ c.shared.queued 1 ≠ 0 ∧
      ∀ x ∈ h, ordinary x = true ∧ countFits x = true))
    (firstTask ++ secondTask) (by decide)
  obtain ⟨h0, h1, hq0, hq1, hall⟩ := of_decide_eq_true hp
  have hdelivers := (strand_delivers hr (fun x hx => (ordinary_sound (hall x hx).1).1)
    (fun x hx => (ordinary_sound (hall x hx).1).2) fun x hx => countFits_sound (hall x hx).2).1
  refine ⟨h, c, hr, h0, h1, ?_⟩
  rcases hdelivers 0 h0 with ⟨hbegun, -⟩ | ⟨-, hqueued, -⟩
  · rcases hdelivers 1 h1 with ⟨-, hqueued⟩ | ⟨-, hqueued, hserves⟩
    · exact absurd hqueued hq1
    · exact ⟨hbegun, hqueued, hserves⟩
  · omega

/-- The second of two threads moves. -/
theorem advance {n : UInt32} {t : Thread} (hop : execOp s 0 {} op = some (s', ops, [])) :
    (system n).step ⟨s, [t, ⟨0, [op]⟩]⟩ (next 1) = some ⟨s', [t, ⟨0, ops⟩]⟩ := by
  change ((scripts.execScript s ⟨0, [op]⟩ (.step {})).map fun r => (⟨r.1, [t] ++ r.2⟩ : Pool)) = _
  change (((execOp s 0 {} op).map fun r =>
    (r.1, (⟨0, r.2.1 ++ []⟩ : Thread) :: r.2.2)).map fun r => (⟨r.1, [t] ++ r.2⟩ : Pool)) = _
  rw [hop]
  simp

/-- On a strand with the largest limit, any number of tasks can be accepted. -/
theorem accepts_any (k : ℕ) :
    ∃ h c, (system 4294967295).Run h c ∧ (∀ x ∈ h, ordinary x = true) ∧
      c.threads = [⟨0, [.tryDequeue]⟩] ∧ c.shared.mDrainScheduled = true ∧
      c.shared.mMaxPendingTasks = 4294967295 ∧ c.shared.next = k + 1 ∧
      (∀ x ≤ k, .accepted x ∈ c.shared.log) ∧ ∀ x, .finished x ∉ c.shared.log := by
  induction k with
  | zero =>
    obtain ⟨h, c, hr, hp⟩ := (system 4294967295).exists_run_of_follow
      (p := fun h c => decide (c.threads = [⟨0, [.tryDequeue]⟩] ∧ c.shared.mDrainScheduled = true ∧
        c.shared.mMaxPendingTasks = 4294967295 ∧ c.shared.next = 1 ∧ c.shared.log = [.accepted 0] ∧
        ∀ x ∈ h, ordinary x = true))
      (offer 0 ++ [next 0, next 0, next 0, next 0, next 1]) (by decide)
    obtain ⟨hthreads, hflag, hmax, hnext, hlog, hall⟩ := of_decide_eq_true hp
    refine ⟨h, c, hr, hall, hthreads, hflag, hmax, hnext, fun x hx => ?_, fun x => ?_⟩
    · rw [Nat.le_zero.mp hx, hlog]
      exact List.mem_cons_self
    · simp [hlog]
  | succ k ih =>
    obtain ⟨h, ⟨s, ts⟩, hr, hall, hthreads, hflag, hmax, hnext, haccepted, hfinished⟩ := ih
    change ts = _ at hthreads
    change s.mDrainScheduled = true at hflag
    change s.mMaxPendingTasks = 4294967295 at hmax
    subst hthreads
    have hle : ¬ s.mPendingTasks + 1 > s.mMaxPendingTasks := by
      rw [hmax]
      exact UInt32.not_lt.mpr (UInt32.le_iff_toNat_le.mpr (Nat.le_of_lt_succ (UInt32.toNat_lt _)))
    -- one more call of `enqueue`, while the job waits
    have hcall : (system 4294967295).step ⟨s, [⟨0, [.tryDequeue]⟩]⟩ (.env (.call (.enqueue 0))) =
        some ⟨s, [⟨0, [.tryDequeue]⟩, ⟨0, [.enqueue]⟩]⟩ := rfl
    have hcompare : ∀ s' : State, s'.mMaxPendingTasks = s.mMaxPendingTasks → execOp s' 0 {}
        (.compareMax s.next (s.mPendingTasks + 1)) = some (s', [.insert s.next], []) := by
      intro s' hs'
      simp only [execOp, hs', if_neg hle]
    have hschedule : ∀ s' : State, s'.mDrainScheduled = true →
      execOp s' 0 {} (.scheduleDrain s.next) =
        some ({ s' with mDrainScheduled := true }, [.returnTrue s.next], []) := by
      intro s' hs'
      simp only [execOp, if_pos hs']
    have hrun := (((((((hr.snoc hcall).snoc (advance rfl)).snoc (advance (hcompare _ rfl))).snoc
      (advance rfl)).snoc (advance (hschedule _ hflag))).snoc (advance rfl))).snoc
      (l := next 1) (t := ⟨_, [⟨0, [.tryDequeue]⟩]⟩) rfl
    refine ⟨_, _, hrun, ?_, rfl, rfl, hmax, congrArg (· + 1) hnext, ?_, ?_⟩
    · intro x hx
      simp only [List.mem_cons] at hx
      rcases hx with rfl | rfl | rfl | rfl | rfl | rfl | rfl | hx
      all_goals first | rfl | exact hall x hx
    · intro x hx
      rcases Nat.le_succ_iff.mp hx with hx | rfl
      · exact List.mem_cons_of_mem _ (haccepted x hx)
      · exact List.mem_cons.mpr (Or.inl (congrArg LogEntry.accepted hnext.symm))
    · intro x hx
      rcases List.mem_cons.mp hx with hx | hx
      · exact absurd hx (by simp)
      · exact hfinished x hx

/-- The flag is clear and a task is queued, while no enqueuer is in front of
`scheduleDrain`: the drain is about to look at the queue again. And with the largest
limit the counter wraps before the limit is exceeded. -/
theorem strand_leaves_gap :
    (∃ h c, (system 8).Run h c ∧ (∀ x ∈ h, JobAccepted x ∧ FixedSettings x ∧ CountFits x) ∧
      c.shared.mTasks ≠ [] ∧ c.shared.mDrainScheduled = false ∧
      ∀ x, pending (Op.schedules x) c = 0) ∧
    ∃ h c, (system 4294967295).Run h c ∧ (∀ x ∈ h, JobAccepted x ∧ FixedSettings x) ∧
      4294967295 < (unfinished c.shared).length := by
  constructor
  · obtain ⟨h, c, hr, hp⟩ := (system 8).exists_run_of_follow
      (p := fun h c => decide (c.shared.mTasks ≠ [] ∧ c.shared.mDrainScheduled = false ∧
        c.threads = [⟨0, [.checkSize]⟩] ∧ ∀ x ∈ h, ordinary x = true ∧ countFits x = true))
      (firstTask ++ secondTask ++ [next 0]) (by decide)
    obtain ⟨htasks, hflag, hthreads, hall⟩ := of_decide_eq_true hp
    refine ⟨h, c, hr, fun x hx => ?_, htasks, hflag, fun x => ?_⟩
    · obtain ⟨hord, hfits⟩ := hall x hx
      exact ⟨(ordinary_sound hord).1, (ordinary_sound hord).2, countFits_sound hfits⟩
    · rw [pending_eq_sum, hthreads]
      rfl
  · obtain ⟨h, c, hr, hall, -, -, -, hnext, haccepted, hfinished⟩ := accepts_any 4294967295
    refine ⟨h, c, hr, fun x hx => ordinary_sound (hall x hx), ?_⟩
    -- everything was accepted and nothing is finished
    have hkeep : unfinished c.shared = List.range c.shared.next := by
      refine List.filter_eq_self.mpr fun x hx => ?_
      rw [List.mem_range, hnext] at hx
      have hacc := haccepted x (Nat.le_of_lt_succ hx)
      simp [hacc, hfinished x]
    rw [hkeep, List.length_range, hnext]
    exact Nat.lt_succ_self _

end TaskStrand
end SculkProtocol
