import SculkProtocol.Thread.PoolSteps

/-!
# What `ThreadPool::stop` waits for

`mInFlightSubmissions` counts the submissions between their second look at the flag and
the end of their insertion (`Stopping.counted`), and a submission that looks later finds
the flag clear. So when `stop` finds zero, no insertion is to come (`Stopping.sealed`).
A worker begins its last two loops only after that (`Stopping.last`), and leaves each
with nothing left (`Stopping.emptied`, `Stopping.returned`).
-/

namespace SculkProtocol
namespace ThreadPool

open Scripts

variable {n : ℕ} {c c' : Pool n} {m : Move (Event Choice (ℕ × Call))} {s s' : State n}
  {producer : ℕ} {ch : Choice} {op : Op n} {ops : List (Op n)}

/-! ### Program points -/

/-- The submission is counted in `mInFlightSubmissions`. -/
def Op.inFlight : Op n → Bool
  | .recheckAccepting _ | .leave _ | .chooseWorker _ | .insert _ _ | .subInFlight _ _ _ => true
  | _ => false

/-- The submission has seen the flag set twice, and will insert its task. -/
def Op.inserts : Op n → Bool
  | .chooseWorker _ | .insert _ _ => true
  | _ => false

/-- `stop` has cleared the flag. -/
def Op.closes : Op n → Bool
  | .waitInFlight | .exchangeStopping | .wake _ | .requestStop _ => true
  | _ => false

/-- `stop` has found no submission in flight. -/
def Op.hasWaited : Op n → Bool
  | .exchangeStopping => true
  | _ => false

/-- `stop` has set `mStopping`. -/
def Op.wakes : Op n → Bool
  | .wake _ | .requestStop _ => true
  | _ => false

/-- The loop of worker `w`. -/
def Op.loops (w : Fin n) : Op n → Bool
  | .take v _ | .run v _ _ | .loadStopping v | .loadStopRequested v | .computeWait v | .acquire v
  | .tryAcquireFor v => decide (v = w)
  | _ => false

def Phase.isLast : Phase → Bool
  | .lastTasks | .lastDelayed => true
  | _ => false

/-- Worker `w` is in its last two loops. -/
def Op.last (w : Fin n) : Op n → Bool
  | .take v phase | .run v _ phase => decide (v = w) && phase.isLast
  | _ => false

/-- Worker `w` is in its very last loop. -/
def Op.lastDelayed (w : Fin n) : Op n → Bool
  | .take v phase | .run v _ phase => decide (v = w ∧ phase = .lastDelayed)
  | _ => false

/-- **In flight.** The counter counts. -/
theorem Step.inFlight (h : Step s producer ch op s' ops)
    (hcounted : op.inFlight.toNat ≤ s.mInFlightSubmissions) :
    s'.mInFlightSubmissions + op.inFlight.toNat =
      s.mInFlightSubmissions + ops.countP Op.inFlight := by
  cases h with
  | leave r | uncount r | giveUp r => simp [Op.inFlight] at hcounted ⊢; omega
  | inner v y phase a => cases a <;> simp [Call.enter, Op.inFlight]
  | done v phase => cases phase <;> simp [Op.inFlight, Phase.next, Phase.leave]
  | close | stop => split <;> simp [Op.inFlight, List.countP_map, Function.comp_def]
  | last v _ op hop | signalled v op hop => rcases hop with rfl | rfl <;> simp [Op.inFlight]
  | wait v op hop => rcases hop with rfl | rfl | rfl <;> simp [Op.inFlight]
  | _ => simp [Op.inFlight]

/-- The flags are set once. -/
theorem Step.flags (h : Step s producer ch op s' ops) :
    (s.mAcceptingSubmissions = false → s'.mAcceptingSubmissions = false) ∧
      (s.mStopping = true → s'.mStopping = true) ∧
      (s'.mStopping = true → s.mStopping = true ∨ op.hasWaited = true) := by
  cases h with
  | inner v y phase a => cases a <;> exact ⟨id, id, Or.inl⟩
  | done v phase => cases phase <;> exact ⟨id, id, Or.inl⟩
  | close => exact ⟨fun _ => rfl, id, Or.inl⟩
  | stop => exact ⟨id, fun _ => rfl, fun _ => Or.inr rfl⟩
  | _ => exact ⟨id, id, Or.inl⟩

/-- What comes next in `stop`, and in the submissions it waits for. -/
theorem Step.stopping (h : Step s producer ch op s' ops) :
    (0 < ops.countP Op.closes → op.closes = true ∨ s'.mAcceptingSubmissions = false) ∧
      (0 < ops.countP Op.hasWaited → s.mInFlightSubmissions = 0 ∧ op = .waitInFlight) ∧
      (0 < ops.countP Op.inserts → op.inserts = true ∨ s.mAcceptingSubmissions = true) ∧
      (0 < ops.countP Op.wakes → s'.mStopping = true) := by
  cases h with
  | inner v y phase a =>
    cases a <;> simp [Call.enter, Op.closes, Op.hasWaited, Op.inserts, Op.wakes]
  | done v phase => cases phase <;> simp [Phase.next, Op.closes, Op.hasWaited, Op.inserts, Op.wakes]
  | close => split <;> simp [Op.closes, Op.hasWaited, Op.inserts, Op.wakes]
  | stop =>
    split <;> simp [Op.closes, Op.hasWaited, Op.inserts, Op.wakes, List.countP_map,
      Function.comp_def]
  | waited hzero => simp [Op.closes, Op.hasWaited, Op.inserts, Op.wakes, hzero]
  | recheck r hopen => simp [Op.closes, Op.hasWaited, Op.inserts, Op.wakes, hopen]
  | last v _ op hop | signalled v op hop =>
    rcases hop with rfl | rfl <;> simp [Op.closes, Op.hasWaited, Op.inserts, Op.wakes]
  | wait v op hop =>
    rcases hop with rfl | rfl | rfl <;> simp [Op.closes, Op.hasWaited, Op.inserts, Op.wakes]
  | _ => simp [Op.closes, Op.hasWaited, Op.inserts, Op.wakes]

/-- **Loops.** A worker's loop goes on until it returns. -/
theorem Step.loops (h : Step s producer ch op s' ops) (w : Fin n) :
    ops.countP (Op.loops w) + s'.log.count (.returned w) =
      (op.loops w).toNat + s.log.count (.returned w) := by
  cases h with
  | take v | finish v | running v | goOn v | timeout v =>
    by_cases hv : v = w <;> simp [Op.loops, hv]
  | inner v y phase a => by_cases hv : v = w <;> cases a <;> simp [Call.enter, Op.loops, hv]
  | done v phase =>
    by_cases hv : v = w <;> cases phase <;>
      simp [Op.loops, Phase.next, Phase.leave, hv, Nat.add_comm]
  | close | stop => split <;> simp [Op.loops, List.countP_map, Function.comp_def]
  | last v _ op hop | signalled v op hop =>
    by_cases hv : v = w <;> rcases hop with rfl | rfl <;> simp [Op.loops, hv]
  | wait v op hop => by_cases hv : v = w <;> rcases hop with rfl | rfl | rfl <;> simp [Op.loops, hv]
  | _ => simp [Op.loops]

/-- Only `stop` requests a worker to stop. -/
theorem Step.requested (h : Step s producer ch op s' ops) (w : Fin n)
    (hw : (s'.mWorkerStates w).stopRequested = true) :
    (s.mWorkerStates w).stopRequested = true ∨ op.wakes = true := by
  cases h with
  -- these two are operations of `stop`
  | requestStop v => exact Or.inr rfl
  | wake v => exact Or.inr rfl
  -- a worker that takes, inserts or waits leaves the request as it is
  | take v phase x ws htake =>
    by_cases hv : w = v
    · subst hv
      have hsame := (tryTake_some htake).2.2.2
      exact Or.inl (by simpa [hsame] using hw)
    · exact Or.inl (by simpa [hv] using hw)
  | insert r v =>
    by_cases hv : w = v
    · subst hv
      obtain ⟨y, delay⟩ := r
      cases delay <;> exact Or.inl (by simpa [WorkerState.insert] using hw)
    · exact Or.inl (by simpa [hv] using hw)
  | accept r v | signalled v =>
    by_cases hv : w = v
    · subst hv; exact Or.inl (by simpa using hw)
    · exact Or.inl (by simpa [hv] using hw)
  | done v phase => cases phase <;> exact Or.inl hw
  | inner v y phase a => cases a <;> exact Or.inl hw
  | _ => exact Or.inl hw

/-- The last two loops begin after a look at `mStopping`, the very last one with an
empty queue. -/
theorem Step.last_loops (h : Step s producer ch op s' ops) (w : Fin n) :
    (0 < ops.countP (Op.last w) → op.last w = true ∨ s.mStopping = true ∨
        (s.mWorkerStates w).stopRequested = true) ∧
      (0 < ops.countP (Op.lastDelayed w) → op.lastDelayed w = true ∨
        (op.last w = true ∧ (s'.mWorkerStates w).mTasks = [])) := by
  cases h with
  | last v hstop op hop =>
    by_cases hv : v = w
    · subst hv
      exact ⟨fun _ => Or.inr hstop, fun hpos => absurd hpos (by simp [Op.lastDelayed])⟩
    · simp [Op.last, Op.lastDelayed, hv]
  | done v phase htake =>
    by_cases hv : v = w
    · subst hv
      cases phase with
      | lastTasks =>
        -- the first of the last loops ends when the queue is empty
        have hnil := (tryTake_none htake).1 (Or.inr rfl)
        simp [Op.last, Op.lastDelayed, Phase.next, Phase.isLast, Phase.leave, hnil]
      | _ => simp [Op.last, Op.lastDelayed, Phase.next, Phase.isLast]
    · cases phase <;> simp [Op.last, Op.lastDelayed, Phase.next, hv]
  | take v phase | finish v y phase =>
    by_cases hv : v = w <;> cases phase <;> simp [Op.last, Op.lastDelayed, Phase.isLast, hv]
  | inner v y phase a =>
    by_cases hv : v = w <;> cases phase <;> cases a <;>
      simp [Call.enter, Op.last, Op.lastDelayed, Phase.isLast, hv]
  | close | stop => split <;> simp [Op.last, Op.lastDelayed, List.countP_map, Function.comp_def]
  | signalled v op hop => simp [Op.last, Op.lastDelayed, Phase.isLast]
  | wait v op hop =>
    rcases hop with rfl | rfl | rfl <;> simp [Op.last, Op.lastDelayed, Phase.isLast]
  | _ => simp [Op.last, Op.lastDelayed, Phase.isLast]

/-- A worker returns with nothing left in its heap. -/
theorem Step.returned (h : Step s producer ch op s' ops) (w : Fin n)
    (hw : .returned w ∈ s'.log) : .returned w ∈ s.log ∨
      (op.lastDelayed w = true ∧ (s'.mWorkerStates w).mDelayedTasks = []) := by
  cases h with
  | done v phase htake =>
    cases phase with
    | lastDelayed =>
      rcases List.mem_cons.mp hw with heq | hw
      · cases heq
        exact Or.inr ⟨by simp [Op.lastDelayed], (tryTake_none htake).2 rfl⟩
      · exact Or.inl hw
    | _ => exact Or.inl hw
  | inner v y phase a => cases a <;> exact Or.inl hw
  | refuse | leave | giveUp | accept | take | finish => exact Or.inl (by simpa using hw)
  | _ => exact Or.inl hw

/-- Only insertions add tasks to a worker. -/
theorem Step.empties (h : Step s producer ch op s' ops) (hinserts : op.inserts = false)
    (w : Fin n) :
    ((s.mWorkerStates w).mTasks = [] → (s'.mWorkerStates w).mTasks = []) ∧
      ((s.mWorkerStates w).mDelayedTasks = [] → (s'.mWorkerStates w).mDelayedTasks = []) := by
  cases h with
  | insert => exact absurd hinserts (by simp [Op.inserts])
  -- what is taken is not put back
  | take v phase x ws htake =>
    by_cases hv : w = v
    · subst hv
      obtain ⟨-, htasks, hdelayed, -⟩ := tryTake_some htake
      simpa using ⟨htasks, hdelayed⟩
    · simp [hv]
  | accept r v | wake v | requestStop v | signalled v =>
    by_cases hv : w = v
    · subst hv; simp
    · simp [hv]
  | done v phase => cases phase <;> exact ⟨id, id⟩
  | inner v y phase a => cases a <;> exact ⟨id, id⟩
  | _ => exact ⟨id, id⟩

/-- How far `stop` and the workers are. -/
structure Stopping (c : Pool n) : Prop where
  counted : c.shared.mInFlightSubmissions = pending Op.inFlight c
  closed : 0 < pending Op.closes c ∨ c.shared.mStopping = true →
    c.shared.mAcceptingSubmissions = false
  sealed : 0 < pending Op.hasWaited c ∨ c.shared.mStopping = true → pending Op.inserts c = 0
  woken : 0 < pending Op.wakes c → c.shared.mStopping = true
  requested : ∀ w, (c.shared.mWorkerStates w).stopRequested = true → c.shared.mStopping = true
  loops : ∀ w, pending (Op.loops w) c + c.shared.log.count (.returned w) = 1
  last : ∀ w, 0 < pending (Op.last w) c → c.shared.mStopping = true
  emptied : ∀ w, 0 < pending (Op.lastDelayed w) c → (c.shared.mWorkerStates w).mTasks = []
  returned : ∀ w, .returned w ∈ c.shared.log → c.shared.mStopping = true ∧
    (c.shared.mWorkerStates w).mTasks = [] ∧ (c.shared.mWorkerStates w).mDelayedTasks = []

/-- A pool that has just been made has the invariant. -/
theorem stopping_initial (n : ℕ) : Stopping (system n).init where
  counted := by rw [pending_initial_of_false fun _ => rfl]; rfl
  closed h := by
    rw [pending_initial_of_false fun _ => rfl] at h
    exact absurd h (by simp [system, State.initial])
  sealed _ := pending_initial_of_false fun _ => rfl
  woken h := by
    rw [pending_initial_of_false fun _ => rfl] at h
    exact absurd h (Nat.lt_irrefl 0)
  requested _ h := absurd h (by simp [system, State.initial])
  -- each worker has its loop
  loops w := by
    have hone : (List.finRange n).count w = 1 := by
      rw [(List.nodup_finRange n).count, if_pos (List.mem_finRange w)]
    rw [pending_initial, ← hone, List.count_eq_countP]
    exact List.countP_congr fun v _ => by simp [Op.loops]
  last w h := by
    rw [pending_initial_of_false fun _ => by simp [Op.last, Phase.isLast]] at h
    exact absurd h (Nat.lt_irrefl 0)
  emptied _ _ := rfl
  returned _ h := absurd h List.not_mem_nil

/-! ### One step of a thread -/

/-- A thread that has waited is one that stops the pool. -/
theorem Op.closes_of_hasWaited (h : op.hasWaited = true) : op.closes = true := by
  cases op <;> simp [Op.hasWaited, Op.closes] at h ⊢

/-- A submission that inserts is in flight. -/
theorem Op.inFlight_of_inserts (h : op.inserts = true) : op.inFlight = true := by
  cases op <;> simp [Op.inserts, Op.inFlight] at h ⊢

/-- The last look at the delayed tasks is one of the last looks. -/
theorem Op.last_of_lastDelayed {w : Fin n} (h : op.lastDelayed w = true) : op.last w = true := by
  cases op <;> simp [Op.lastDelayed] at h <;> simp [Op.last, Phase.isLast, h]

section Exec

variable (hc : Stopping c) (h : Step c.shared producer ch op c'.shared ops)
  (hp : Trades c c' op ops)

include hc hp in
/-- Nothing is inserted once `mStopping` is set. -/
theorem not_inserts_of_stopping (hset : c.shared.mStopping = true) : op.inserts = false := by
  cases hop : op.inserts with
  | false => rfl
  | true =>
    have hpos := hp.pos hop
    rw [hc.sealed (Or.inr hset)] at hpos
    exact absurd hpos (Nat.lt_irrefl 0)

include hc h hp in
/-- While the pool is stopped, no submission is accepted. -/
theorem closed_exec (hset : 0 < pending Op.closes c' ∨ c'.shared.mStopping = true) :
    c'.shared.mAcceptingSubmissions = false := by
  obtain ⟨haccepting, -, hstops⟩ := h.flags
  rcases hset with hset | hset
  · rcases hp.cases hset with hold | hnew
    · exact haccepting (hc.closed (Or.inl hold))
    · rcases h.stopping.1 hnew with hop | hclosed
      · exact haccepting (hc.closed (Or.inl (hp.pos hop)))
      · exact hclosed
  · rcases hstops hset with hold | hop
    · exact haccepting (hc.closed (Or.inr hold))
    · exact haccepting (hc.closed (Or.inl (hp.pos (Op.closes_of_hasWaited hop))))

include hc h hp in
/-- When `stop` leaves its wait, no insertion is to come. -/
theorem sealed_before (hset : 0 < pending Op.hasWaited c' ∨ c'.shared.mStopping = true) :
    pending Op.inserts c = 0 ∧ c.shared.mAcceptingSubmissions = false := by
  have hold : 0 < pending Op.hasWaited c ∨ c.shared.mStopping = true ∨
      0 < ops.countP Op.hasWaited := by
    rcases hset with hset | hset
    · exact (hp.cases hset).imp_right Or.inr
    · rcases h.flags.2.2 hset with hold | hop
      · exact Or.inr (Or.inl hold)
      · exact Or.inl (hp.pos hop)
  rcases hold with hold | hold | hnew
  · refine ⟨hc.sealed (Or.inl hold), hc.closed (Or.inl ?_)⟩
    exact hold.trans_le (pending_mono fun _ => Op.closes_of_hasWaited)
  · exact ⟨hc.sealed (Or.inr hold), hc.closed (Or.inr hold)⟩
  · obtain ⟨hnone, rfl⟩ := h.stopping.2.1 hnew
    have hle : pending Op.inserts c ≤ pending Op.inFlight c :=
      pending_mono fun _ => Op.inFlight_of_inserts
    have hcounted := hc.counted
    exact ⟨by omega, hc.closed (Or.inl (hp.pos (p := Op.closes) rfl))⟩

include hc h hp in
/-- Behind the wait, nothing is inserted. -/
theorem sealed_exec (hset : 0 < pending Op.hasWaited c' ∨ c'.shared.mStopping = true) :
    pending Op.inserts c' = 0 := by
  obtain ⟨hzero, hclosed⟩ := sealed_before hc h hp hset
  by_contra hne
  rcases hp.cases (Nat.pos_of_ne_zero hne) with hold | hnew
  · omega
  · rcases h.stopping.2.2.1 hnew with hop | hopen
    · have hpos := hp.pos hop
      omega
    · rw [hclosed] at hopen
      exact absurd hopen (by decide)

include hc h hp in
/-- A worker looks for the last time when the pool is stopping. -/
theorem last_exec {w : Fin n} (hw : 0 < pending (Op.last w) c') : c'.shared.mStopping = true := by
  obtain ⟨-, hstopping, -⟩ := h.flags
  rcases hp.cases hw with hold | hnew
  · exact hstopping (hc.last w hold)
  · rcases (h.last_loops w).1 hnew with hop | hset | hset
    · exact hstopping (hc.last w (hp.pos hop))
    · exact hstopping hset
    · exact hstopping (hc.requested w hset)

include hc h hp in
/-- A worker in its very last loop still has an empty queue after the step. -/
theorem emptied_kept {w : Fin n} (hw : 0 < pending (Op.lastDelayed w) c) :
    c.shared.mStopping = true ∧ (c'.shared.mWorkerStates w).mTasks = [] := by
  have hset := hc.last w (hw.trans_le (pending_mono fun _ => Op.last_of_lastDelayed))
  exact ⟨hset, (h.empties (not_inserts_of_stopping hc hp hset) w).1 (hc.emptied w hw)⟩

include hc h hp in
/-- Then its queue is empty. -/
theorem emptied_exec {w : Fin n} (hw : 0 < pending (Op.lastDelayed w) c') :
    (c'.shared.mWorkerStates w).mTasks = [] := by
  rcases hp.cases hw with hold | hnew
  · exact (emptied_kept hc h hp hold).2
  · rcases (h.last_loops w).2 hnew with hop | ⟨-, hnil⟩
    · exact (emptied_kept hc h hp (hp.pos hop)).2
    · exact hnil

include hc h hp in
/-- A worker has returned with nothing left. -/
theorem returned_exec {w : Fin n} (hw : .returned w ∈ c'.shared.log) : c'.shared.mStopping = true ∧
    (c'.shared.mWorkerStates w).mTasks = [] ∧ (c'.shared.mWorkerStates w).mDelayedTasks = [] := by
  obtain ⟨-, hstopping, -⟩ := h.flags
  rcases h.returned w hw with hold | ⟨hop, hnil⟩
  · obtain ⟨hset, htasks, hdelayed⟩ := hc.returned w hold
    have hempties := h.empties (not_inserts_of_stopping hc hp hset) w
    exact ⟨hstopping hset, hempties.1 htasks, hempties.2 hdelayed⟩
  · obtain ⟨hset, htasks⟩ := emptied_kept hc h hp (hp.pos hop)
    exact ⟨hstopping hset, htasks, hnil⟩

include hc h hp in
/-- So an operation keeps the invariant. -/
theorem stopping_exec : Stopping c' where
  -- the counter has changed as the submissions in flight have
  counted := by
    have hcount := h.inFlight (hc.counted ▸ (hp Op.inFlight).1)
    have hpool := (hp Op.inFlight).2
    have hold := hc.counted
    omega
  closed := closed_exec hc h hp
  sealed := sealed_exec hc h hp
  woken hw := by
    rcases hp.cases hw with hold | hnew
    · exact h.flags.2.1 (hc.woken hold)
    · exact h.stopping.2.2.2 hnew
  -- a request comes from `stop`, which has set the flag before
  requested w hw := by
    rcases h.requested w hw with hold | hop
    · exact h.flags.2.1 (hc.requested w hold)
    · exact h.flags.2.1 (hc.woken (hp.pos hop))
  -- a worker leaves its loop once
  loops w := by
    have hstep := h.loops w
    have hpool := (hp (Op.loops w)).2
    have hold := hc.loops w
    omega
  last _ := last_exec hc h hp
  emptied _ := emptied_exec hc h hp
  returned _ := returned_exec hc h hp

end Exec

/-- The numbers of tasks, and submissions that have not begun, play no part. -/
theorem Stopping.of_eq (hc : Stopping c) {k : ℕ} (hs : c'.shared = { c.shared with next := k })
    (hp : ∀ p : Op n → Bool, (∀ r, p (.loadAccepting r) = false) → p .exchangeAccepting = false →
      pending p c' = pending p c) : Stopping c' where
  counted := by rw [hs, hp _ (fun _ => rfl) rfl]; exact hc.counted
  closed := by rw [hs, hp _ (fun _ => rfl) rfl]; exact hc.closed
  sealed := by rw [hs, hp _ (fun _ => rfl) rfl, hp _ (fun _ => rfl) rfl]; exact hc.sealed
  woken := by rw [hs, hp _ (fun _ => rfl) rfl]; exact hc.woken
  requested := by rw [hs]; exact hc.requested
  loops w := by rw [hs, hp _ (fun _ => rfl) rfl]; exact hc.loops w
  last w := by rw [hs, hp _ (fun _ => rfl) rfl]; exact hc.last w
  emptied w := by rw [hs, hp _ (fun _ => rfl) rfl]; exact hc.emptied w
  returned := by rw [hs]; exact hc.returned

/-- So does any change of the threads. -/
theorem Moved.stopping {o : Option (Op n)} (h : Moved c c' o) (hc : Stopping c) : Stopping c' := by
  rcases h.quiet with ⟨producer, ch, op, ops, -, hstep, hp⟩ | ⟨-, k, hs, hp⟩
  · exact stopping_exec hc hstep hp
  · exact hc.of_eq hs hp

/-- So does every step. -/
theorem stopping_step (hc : Stopping c) (h : (scripts n).program.step c m = some c') :
    Stopping c' :=
  (moved_of_step h).stopping hc

end ThreadPool
end SculkProtocol
