import SculkProtocol.Thread.PoolSignals
import SculkProtocol.Thread.TimedPool

/-!
# Wakeups of `ThreadPool`

A worker looks at its queue, then at its heap, then at the heap again to compute how long
to wait. What arrives after a look is followed by a signal: until the worker has taken a
signal, either one is there or on its way (`Signalled`), or what the worker has seen is
still so (`Settled`). A wait is computed from the front of the heap and a time read
before; it begins later, and lasts as much longer.
-/

namespace SculkProtocol
namespace ThreadPool

open Scripts

variable {n : ℕ} {w : Fin n}

/-! ### Program points -/

/-- The submission has put its task where worker `w` finds it, and will call `release()`. -/
def Op.inserted (w : Fin n) : Op n → Bool
  | .subInFlight v _ true | .releaseSignal v _ => decide (v = w)
  | _ => false

/-- Worker `w` has found its queue empty in this round. -/
def Op.pastQueue (w : Fin n) : Op n → Bool
  | .take v .due | .run v _ .due | .loadStopping v | .loadStopRequested v | .computeWait v
  | .acquire v | .tryAcquireFor v => decide (v = w)
  | _ => false

/-- Worker `w` waits without a bound. -/
def Op.acquires (w : Fin n) : Op n → Bool
  | .acquire v => decide (v = w)
  | _ => false

/-- Worker `w` waits for the time `due`, as computed from the time it has read. -/
def TimedOp.waitsFor (w : Fin n) (due : ℤ) : TimedOp n → Bool
  | .tryAcquireFor v now waitFor => decide (v = w ∧ now + waitFor = due)
  | .blocked v wait => decide (v = w ∧ wait.now + wait.waitFor = due)
  | _ => false

/-- A worker past its queue is in its loop. -/
theorem Op.loops_of_pastQueue {op : Op n} (h : op.pastQueue w = true) : op.loops w = true := by
  cases op with
  | take v phase | run v x phase => cases phase <;> simp_all [Op.pastQueue, Op.loops]
  | loadStopping | loadStopRequested | computeWait | acquire | tryAcquireFor =>
    simpa [Op.pastQueue, Op.loops] using h
  | _ => exact absurd h (by simp [Op.pastQueue])

/-- So is one that waits. -/
theorem Op.loops_of_acquires {op : Op n} (h : op.acquires w = true) : op.loops w = true := by
  cases op <;> simp [Op.acquires] at h
  simp [Op.loops, h]

/-- So is one that waits for a time. -/
theorem TimedOp.loops_of_waitsFor {op : TimedOp n} {due : ℤ} (h : op.waitsFor w due = true) :
    op.toOp.loops w = true := by
  cases op <;> simp [TimedOp.waitsFor] at h <;> simp [TimedOp.toOp, Op.loops, h]

/-! ### One step of the pool without a clock -/

section Step

variable {s s' : State n} {producer : ℕ} {ch : Choice} {op : Op n} {ops : List (Op n)}

/-- Another thread does not go on with the loop of `w`. -/
theorem Step.not_loops (h : Step s producer ch op s' ops) (hop : op.loops w = false) :
    ops.countP (Op.loops w) = 0 := by
  have hloops := h.loops w
  have hlog : s.log.count (.returned w) ≤ s'.log.count (.returned w) := by
    rcases h.logs with hlog | ⟨e, hlog, -⟩
    · rw [hlog]
    · rw [hlog]
      exact List.count_le_count_cons
  rw [hop, Bool.toNat_false] at hloops
  omega

/-- Another thread leaves the queue and the heap of `w` as they are, or a signal follows. -/
theorem Step.untouched (h : Step s producer ch op s' ops) (hop : op.loops w = false) :
    (∃ o ∈ ops, o.inserted w = true) ∨ (s'.mWorkerStates w).mTasks = (s.mWorkerStates w).mTasks ∧
      (s'.mWorkerStates w).mDelayedTasks = (s.mWorkerStates w).mDelayedTasks := by
  cases h with
  | insert r v =>
    by_cases hv : v = w
    · exact Or.inl (by simp [Op.inserted, hv])
    · exact Or.inr (by simp [Ne.symm hv])
  | take v phase x ws =>
    -- only its worker takes from a queue
    have hv : v ≠ w := by simpa [Op.loops] using hop
    exact Or.inr (by simp [Ne.symm hv])
  | accept r v | wake v | requestStop v | signalled v =>
    by_cases hv : w = v
    · subst hv; exact Or.inr (by simp)
    · exact Or.inr (by simp [hv])
  | done v phase => cases phase <;> exact Or.inr ⟨rfl, rfl⟩
  | inner v y phase a => cases a <;> exact Or.inr ⟨rfl, rfl⟩
  | _ => exact Or.inr ⟨rfl, rfl⟩

/-- Only the worker takes a signal, and one that is on its way arrives. -/
theorem Step.keeps_signal (h : Step s producer ch op s' ops) (hacquire : op ≠ .acquire w)
    (htry : op ≠ .tryAcquireFor w) : s.mSignal w ≤ s'.mSignal w ∧
      (op.inserted w = true → (∃ o ∈ ops, o.inserted w = true) ∨ 0 < s'.mSignal w) := by
  cases h with
  | uncount r v =>
    exact ⟨Nat.le_refl _, fun hop => Or.inl (by simpa [Op.inserted] using hop)⟩
  | accept r v =>
    rw [record_mSignal, setWorker_mSignal]
    by_cases hv : v = w <;> simp [Op.inserted, State.mSignal, hv]
  | insert r v | wake v | requestStop v =>
    rw [setWorker_mSignal]
    by_cases hv : v = w <;> simp [Op.inserted, State.mSignal, hv]
  | take v phase x ws htake =>
    rw [record_mSignal, setWorker_mSignal, tryTake_mSignal htake]
    by_cases hv : v = w <;> simp [Op.inserted, State.mSignal, hv]
  | signalled v op hop =>
    -- the signal of another worker
    have hv : v ≠ w := by rintro rfl; exact hop.elim hacquire htry
    rw [setWorker_mSignal, if_neg hv]
    rcases hop with rfl | rfl <;> exact ⟨Nat.le_refl _, fun hop => absurd hop Bool.false_ne_true⟩
  | last v _ op hop =>
    rcases hop with rfl | rfl <;> exact ⟨Nat.le_refl _, fun hop => absurd hop Bool.false_ne_true⟩
  | done v phase => cases phase <;> exact ⟨Nat.le_refl _, fun hop => absurd hop Bool.false_ne_true⟩
  | inner v y phase a => cases a <;> exact ⟨Nat.le_refl _, fun hop => absurd hop Bool.false_ne_true⟩
  | _ => exact ⟨Nat.le_refl _, fun hop => absurd hop Bool.false_ne_true⟩

/-- A worker that goes past its queue has found it empty. -/
theorem Step.past_queue (h : Step s producer ch op s' ops)
    (hpos : ∃ o ∈ ops, o.pastQueue w = true) :
    (s'.mWorkerStates w).mTasks = [] ∨ op.pastQueue w = true ∧
      ((s.mWorkerStates w).mTasks = [] → (s'.mWorkerStates w).mTasks = []) := by
  cases h with
  | take v phase x ws htake =>
    cases phase with
    -- the tasks that are due come after the queue
    | due =>
      have hv : v = w := by simpa [Op.pastQueue] using hpos
      subst hv
      exact Or.inr ⟨by simp [Op.pastQueue],
        fun hnil => by simpa using (tryTake_some htake).2.1 hnil⟩
    | _ => exact absurd hpos (by simp [Op.pastQueue])
  | done v phase htake =>
    cases phase with
    -- this is where a worker goes past its queue: it has found nothing there
    | tasks =>
      have hv : v = w := by simpa [Phase.next, Op.pastQueue] using hpos
      subst hv
      exact Or.inl ((tryTake_none htake).1 (Or.inl rfl))
    | due => exact Or.inr ⟨by simpa [Phase.next, Op.pastQueue] using hpos, id⟩
    | _ => exact absurd hpos (by simp [Phase.next, Op.pastQueue])
  | inner v y phase a =>
    cases phase with
    | due =>
      refine Or.inr ⟨?_, ?_⟩
      · cases a <;> simpa [Call.enter, Op.pastQueue] using hpos
      · cases a <;> exact id
    | _ => cases a <;> exact absurd hpos (by simp [Call.enter, Op.pastQueue])
  | finish v y phase =>
    cases phase with
    | due => exact Or.inr ⟨by simpa [Op.pastQueue] using hpos, id⟩
    | _ => exact absurd hpos (by simp [Op.pastQueue])
  | running v | goOn v => exact Or.inr ⟨by simpa [Op.pastQueue] using hpos, id⟩
  | wait v op hop =>
    rcases hop with rfl | rfl | rfl
    · exact Or.inr ⟨by simpa [Op.pastQueue] using hpos, id⟩
    · exact Or.inr ⟨by simpa [Op.pastQueue] using hpos, id⟩
    · exact absurd hpos (by simp [Op.pastQueue])
  | close => split at hpos <;> exact absurd hpos (by simp [Op.pastQueue])
  | stop =>
    split at hpos <;> exact absurd hpos (by simp [Op.pastQueue, or_imp, forall_and])
  | _ => exact absurd hpos (by simp [Op.pastQueue])

/-- A worker waits only after it has computed how long. -/
theorem Step.not_acquires (h : Step s producer ch op s' ops) (hcompute : ∀ v, op ≠ .computeWait v) :
    ops.countP (Op.acquires w) = 0 := by
  cases h with
  | wait v => exact absurd rfl (hcompute v)
  | inner v y phase a => cases a <;> simp [Call.enter, Op.acquires]
  | done v phase => cases phase <;> simp [Phase.next, Op.acquires]
  | close => split <;> simp [Op.acquires]
  | stop => split <;> simp [Op.acquires, List.countP_map, Function.comp_def]
  | _ => simp [Op.acquires]

end Step

/-! ### One step of the pool with a clock -/

section TimedStep

variable {s s' : TimedState n} {producer : ℕ} {ch : Choice} {op : TimedOp n}
  {ops : List (TimedOp n)}

/-- The kinds of timed operations are those of the operations. -/
theorem exists_toOp {p : Op n → Bool} :
    (∃ o ∈ ops.map TimedOp.toOp, p o = true) ↔ ∃ o ∈ ops, p o.toOp = true := by simp

/-- And the other way round. -/
theorem exists_ofOp {p : Op n → Bool} {ops : List (Op n)} :
    (∃ o ∈ ops.map TimedOp.ofOp, p o.toOp = true) ↔ ∃ o ∈ ops, p o = true := by simp

/-- Nobody else enters a worker's loop. -/
theorem TimedStep.not_loops (h : TimedStep s producer ch op s' ops)
    (hop : op.toOp.loops w = false) :
    ops.countP (fun o => o.toOp.loops w) = 0 := by
  rw [← countP_toOp]
  rcases h.toStep with ⟨ch', hstep⟩ | ⟨-, hops⟩
  · exact hstep.not_loops hop
  · rw [hops]
    simp [hop]

/-- Others leave its queues alone, or insert a task. -/
theorem TimedStep.untouched (h : TimedStep s producer ch op s' ops)
    (hop : op.toOp.loops w = false) :
    (∃ o ∈ ops, o.toOp.inserted w = true) ∨
      (s'.pool.mWorkerStates w).mTasks = (s.pool.mWorkerStates w).mTasks ∧
      (s'.pool.mWorkerStates w).mDelayedTasks = (s.pool.mWorkerStates w).mDelayedTasks := by
  rcases h.toStep with ⟨ch', hstep⟩ | ⟨hs, -⟩
  · exact (hstep.untouched hop).imp_left exists_toOp.mp
  · rw [hs]
    exact Or.inr ⟨rfl, rfl⟩

/-- Only a wait takes a signal. -/
theorem TimedStep.keeps_signal (h : TimedStep s producer ch op s' ops)
    (hacquire : op ≠ .op (.acquire w)) (hblocked : ∀ wait, op ≠ .blocked w wait) :
    s.pool.mSignal w ≤ s'.pool.mSignal w ∧
      (op.toOp.inserted w = true → (∃ o ∈ ops, o.toOp.inserted w = true) ∨
        0 < s'.pool.mSignal w) := by
  cases h with
  | op hcompute htry hstep =>
    obtain ⟨hle, harrives⟩ := hstep.keeps_signal (by rintro rfl; exact hacquire rfl) (htry w)
    exact ⟨hle, fun hop => (harrives hop).imp_left exists_ofOp.mpr⟩
  | signalled v wait =>
    have hv : v ≠ w := by rintro rfl; exact hblocked wait rfl
    rw [setWorker_mSignal, if_neg hv]
    exact ⟨Nat.le_refl _, nofun⟩
  | _ => exact ⟨Nat.le_refl _, nofun⟩

/-- A worker past its queue has found it empty. -/
theorem TimedStep.past_queue (h : TimedStep s producer ch op s' ops)
    (hpos : ∃ o ∈ ops, o.toOp.pastQueue w = true) :
    (s'.pool.mWorkerStates w).mTasks = [] ∨ op.toOp.pastQueue w = true ∧
      ((s.pool.mWorkerStates w).mTasks = [] → (s'.pool.mWorkerStates w).mTasks = []) := by
  rcases h.toStep with ⟨ch', hstep⟩ | ⟨hs, hops⟩
  · exact hstep.past_queue (exists_toOp.mpr hpos)
  · have hop := exists_toOp.mpr hpos
    rw [hops] at hop
    rw [hs]
    exact Or.inr ⟨by simpa using hop, id⟩

/-- A worker waits without a bound after it has found its heap empty. -/
theorem TimedStep.acquires (h : TimedStep s producer ch op s' ops)
    (hpos : ∃ o ∈ ops, o.toOp.acquires w = true) :
    (s'.pool.mWorkerStates w).mDelayedTasks = [] := by
  cases h with
  | op hcompute htry hstep =>
    have hnone := hstep.not_acquires (w := w) hcompute
    exact absurd (List.countP_pos_iff.mpr (exists_ofOp.mp hpos)) (by omega)
  | noDelayed v now hnil =>
    have hv : v = w := by simpa [TimedOp.toOp, Op.acquires] using hpos
    exact hv ▸ hnil
  | _ => exact absurd hpos (by simp [TimedOp.toOp, Op.acquires])

/-- A worker waits for the front of its heap. -/
theorem TimedStep.waitsFor {due : ℤ} (h : TimedStep s producer ch op s' ops)
    (hpos : ∃ o ∈ ops, o.waitsFor w due = true) :
    (∃ e es, (s'.pool.mWorkerStates w).mDelayedTasks = e :: es ∧ e.mDue = due) ∨
      op.waitsFor w due = true ∧ s' = s := by
  cases h with
  | op =>
    obtain ⟨o, ho, hw⟩ := hpos
    obtain ⟨o, -, rfl⟩ := List.mem_map.mp ho
    cases o <;> exact absurd hw (by simp [TimedOp.ofOp, TimedOp.waitsFor])
  | notDue v now e es hes =>
    obtain ⟨rfl, hdue⟩ : v = w ∧ now + (e.mDue - now) = due := by
      simpa [TimedOp.waitsFor] using hpos
    exact Or.inl ⟨e, es, hes, by omega⟩
  | block v now waitFor => exact Or.inr ⟨by simpa [TimedOp.waitsFor] using hpos, rfl⟩
  | _ => exact absurd hpos (by simp [TimedOp.waitsFor])

/-- After its wait a worker begins a round. -/
theorem TimedStep.ends_wait (h : TimedStep s producer ch op s' ops)
    (hop : op = .op (.acquire w) ∨ ∃ wait, op = .blocked w wait) : ops =
    [.op (.take w .tasks)] := by
  rcases hop with rfl | ⟨wait, rfl⟩
  · cases h with
    | op hcompute htry hstep =>
      cases hstep with
      | last v _ op hor => exact absurd hor (by simp)
      | signalled v op hor =>
        obtain rfl : w = v := by simpa using hor
        rfl
  · cases h <;> rfl

end TimedStep

/-! ### What a worker knows -/

/-- A signal for worker `w` is there, or will be. -/
def Signalled (w : Fin n) (c : TimedPool n) : Prop :=
  0 < c.shared.pool.mSignal w ∨ 0 < pending (Op.inserted w) (toPool c)

/-- What worker `w` has seen in this round is still so. -/
structure Settled (w : Fin n) (c : TimedPool n) : Prop where
  emptied : 0 < pending (fun o => o.toOp.pastQueue w) c →
    (c.shared.pool.mWorkerStates w).mTasks = []
  unbounded : 0 < pending (fun o => o.toOp.acquires w) c →
    (c.shared.pool.mWorkerStates w).mDelayedTasks = []
  timed : ∀ due, 0 < pending (TimedOp.waitsFor w due) c →
    ∃ e es, (c.shared.pool.mWorkerStates w).mDelayedTasks = e :: es ∧ e.mDue = due

section Access

variable {c c' : TimedPool n} {producer : ℕ} {ch : Choice} {op : TimedOp n} {ops : List (TimedOp n)}
  {p : TimedOp n → Bool}
  (h : TimedStep c.shared producer ch op c'.shared ops)
  (hp : ∀ p : TimedOp n → Bool, (p op).toNat ≤ pending p c ∧
    pending p c' + (p op).toNat = pending p c + ops.countP p)

include hp in
/-- A worker has one loop: what is pending of it after its own step is what the step leads to. -/
theorem pending_own (hc : Tracked c) (hop : op.toOp.loops w = true)
    (hloops : ∀ o, p o = true → o.toOp.loops w = true) (hpos : 0 < pending p c') :
    ∃ o ∈ ops, p o = true := by
  have hone : pending (fun o => o.toOp.loops w) c ≤ 1 := by
    rw [← pending_toPool]
    have hsum := hc.stopping.loops w
    omega
  refine List.countP_pos_iff.mp ?_
  have hpool := (hp p).2
  cases hpop : p op with
  | true =>
    have hle : pending p c ≤ pending (fun o => o.toOp.loops w) c := pending_mono hloops
    rw [hpop, Bool.toNat_true] at hpool
    omega
  | false =>
    -- the operation itself is all there is of the loop, and it is not of this kind
    have hle : pending p c + pending (fun o => o.toOp.loops w && !p o) c ≤
        pending (fun o => o.toOp.loops w) c := by
      refine pending_add_le fun o => ?_
      have ho := hloops o
      cases hpo : p o <;> cases hlo : o.toOp.loops w <;> simp_all
    have hself := (hp fun o => o.toOp.loops w && !p o).1
    simp only [hop, hpop, Bool.not_false, Bool.and_true, Bool.toNat_true] at hself
    omega

include h hp in
/-- The step of another thread leaves what is pending of the loop. -/
theorem pending_other (hop : op.toOp.loops w = false)
    (hloops : ∀ o, p o = true → o.toOp.loops w = true) : pending p c' = pending p c := by
  have hpool := (hp p).2
  have hle : ops.countP p ≤ ops.countP fun o => o.toOp.loops w :=
    List.countP_mono_left fun o _ => hloops o
  rw [h.not_loops hop] at hle
  have hpop : p op = false := by
    cases hpo : p op with
    | false => rfl
    | true => rw [hloops op hpo] at hop; exact absurd hop (by decide)
  rw [hpop, Bool.toNat_false] at hpool
  omega

include h hp in
/-- A signal stays until the worker takes one. -/
theorem signalled_access (hacquire : op ≠ .op (.acquire w))
    (hblocked : ∀ wait, op ≠ .blocked w wait)
    (hsignal : Signalled w c) : Signalled w c' := by
  obtain ⟨hle, harrives⟩ := h.keeps_signal hacquire hblocked
  rcases hsignal with hpos | hpos
  · exact Or.inl (by omega)
  · have hpool := (hp fun o => o.toOp.inserted w).2
    rw [pending_toPool] at hpos
    cases hop : op.toOp.inserted w with
    | false =>
      rw [hop, Bool.toNat_false] at hpool
      exact Or.inr (by rw [pending_toPool]; omega)
    | true =>
      rw [hop, Bool.toNat_true] at hpool
      rcases harrives hop with hnext | hthere
      · have hcount := List.countP_pos_iff.mpr hnext
        exact Or.inr (by rw [pending_toPool]; omega)
      · exact Or.inl hthere

include h hp in
/-- What a worker has just seen is so, and what it has seen before still is. -/
theorem settled_own (hc : Tracked c) (hop : op.toOp.loops w = true) (hsettled : Settled w c) :
    Settled w c' where
  emptied hpos := by
    have hnext := pending_own hp hc hop (fun o => Op.loops_of_pastQueue) hpos
    -- the worker goes past its queue in this step, or has gone before
    rcases h.past_queue hnext with hnil | ⟨hpast, hkeep⟩
    · exact hnil
    · refine hkeep (hsettled.emptied ?_)
      have hself := (hp fun o => o.toOp.pastQueue w).1
      rw [hpast] at hself
      exact hself
  unbounded hpos := h.acquires (pending_own hp hc hop (fun o => Op.loops_of_acquires) hpos)
  timed due hpos := by
    have hnext := pending_own hp hc hop (fun o => TimedOp.loops_of_waitsFor) hpos
    rcases h.waitsFor hnext with hfront | ⟨hwaits, hs⟩
    · exact hfront
    · rw [hs]
      refine hsettled.timed due ?_
      have hself := (hp (TimedOp.waitsFor w due)).1
      rw [hwaits] at hself
      exact hself

include h hp in
/-- Another thread changes nothing of what a worker has seen, unless a signal follows. -/
theorem settled_other (hop : op.toOp.loops w = false) (hsettled : Settled w c) :
    Signalled w c' ∨ Settled w c' := by
  rcases h.untouched hop with hinserted | ⟨htasks, hdelayed⟩
  · -- whoever has inserted a task is about to release the signal
    refine Or.inl (Or.inr ?_)
    have hpool := (hp fun o => o.toOp.inserted w).2
    have hcount := List.countP_pos_iff.mpr hinserted
    have hle := (hp fun o => o.toOp.inserted w).1
    rw [pending_toPool]
    omega
  · refine Or.inr ⟨fun hpos => ?_, fun hpos => ?_, fun due hpos => ?_⟩
    · rw [pending_other h hp hop fun o => Op.loops_of_pastQueue] at hpos
      rw [htasks]
      exact hsettled.emptied hpos
    · rw [pending_other h hp hop fun o => Op.loops_of_acquires] at hpos
      rw [hdelayed]
      exact hsettled.unbounded hpos
    · rw [pending_other h hp hop fun o => TimedOp.loops_of_waitsFor] at hpos
      rw [hdelayed]
      exact hsettled.timed due hpos

include hp in
/-- A worker that begins a round knows nothing yet. -/
theorem settled_round (hc : Tracked c) (hop : op.toOp.loops w = true)
    (hops : ops = [.op (.take w .tasks)]) : Settled w c' where
  emptied hpos := by
    have hnext := pending_own hp hc hop (fun o => Op.loops_of_pastQueue) hpos
    exact absurd hnext (by simp [hops, TimedOp.toOp, Op.pastQueue])
  unbounded hpos := by
    have hnext := pending_own hp hc hop (fun o => Op.loops_of_acquires) hpos
    exact absurd hnext (by simp [hops, TimedOp.toOp, Op.acquires])
  timed due hpos := by
    have hnext := pending_own hp hc hop (fun o => TimedOp.loops_of_waitsFor) hpos
    exact absurd hnext (by simp [hops, TimedOp.waitsFor])

end Access

section Moves

variable {c c' : TimedPool n}

/-- The numbers of tasks, and the clock, play no part. -/
theorem alert_of_eq {k : ℕ} (hs : c'.shared.pool = { c.shared.pool with next := k })
    (hp : ∀ p : TimedOp n → Bool, (∀ r, p (.op (.loadAccepting r)) = false) →
      p (.op .exchangeAccepting) = false → pending p c' = pending p c)
    (hc : Signalled w c ∨ Settled w c) : Signalled w c' ∨ Settled w c' := by
  have hworkers : c'.shared.pool.mWorkerStates = c.shared.pool.mWorkerStates := by rw [hs]
  rcases hc with hsignal | hsettled
  · rw [Signalled, State.mSignal, pending_toPool] at hsignal ⊢
    rw [hworkers, hp _ (fun _ => rfl) rfl]
    exact Or.inl hsignal
  · refine Or.inr ⟨fun hpos => ?_, fun hpos => ?_, fun due hpos => ?_⟩ <;>
      rw [hp _ (fun _ => rfl) rfl] at hpos <;> rw [hworkers]
    · exact hsettled.emptied hpos
    · exact hsettled.unbounded hpos
    · exact hsettled.timed due hpos

/-- **No lost wakeup**, over one move. -/
theorem TimedMoved.alert (h : TimedMoved c c') (hc : Tracked c)
    (halert : Signalled w c ∨ Settled w c) :
    Signalled w c' ∨ Settled w c' := by
  cases h with
  | @access producer ch op ops hstep hp =>
    by_cases htakes : op = .op (.acquire w) ∨ ∃ wait, op = .blocked w wait
    · -- the worker ends its wait and begins a round
      refine Or.inr (settled_round hp hc ?_ ?_)
      · rcases htakes with rfl | ⟨wait, rfl⟩ <;> simp [TimedOp.toOp, Op.loops]
      · exact hstep.ends_wait htakes
    · rw [not_or, not_exists] at htakes
      rcases halert with hsignal | hsettled
      · exact Or.inl (signalled_access hstep hp htakes.1 htakes.2 hsignal)
      · cases hop : op.toOp.loops w with
        | true => exact Or.inr (settled_own hstep hp hc hop hsettled)
        | false => exact settled_other hstep hp hop hsettled
  | rest hpool _ hp =>
    exact alert_of_eq (k := c.shared.pool.next) hpool (fun p _ _ => hp p) halert
  | arrive a hs hp =>
    obtain ⟨k, hk, hquiet⟩ := enter_inv c.shared.pool a
    refine alert_of_eq (k := k) (by rw [hs, ← hk]) (fun p hload hstop => ?_) halert
    have hnone := hquiet (fun o => p (TimedOp.ofOp o)) hload hstop
    rw [hp, List.countP_map, show p ∘ TimedOp.ofOp = fun o => p (TimedOp.ofOp o) from rfl, hnone,
      Nat.add_zero]

end Moves

/-- A pool that has just been made is settled. -/
theorem settled_initial (w : Fin n) (start : ℤ) : Settled w (timedSystem n start).init where
  emptied _ := rfl
  unbounded _ := rfl
  timed due hpos := by
    obtain ⟨t, ht, op, hop, hw⟩ := exists_of_pending_pos hpos
    obtain ⟨v, -, rfl⟩ := List.mem_map.mp ht
    obtain rfl := List.mem_singleton.mp hop
    exact absurd hw (by simp [TimedOp.waitsFor])

end ThreadPool
end SculkProtocol
