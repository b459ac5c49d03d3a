import SculkProtocol.Thread.PoolDelivery

/-!
# The count of `mSignal`

`mSignal` is a `std::counting_semaphore<1024 * 1024>`: its `release()` may be called only
below that count. Every submission to a worker releases a signal, and `stop` releases one
more; the worker takes one at the end of a round, if there is one, however many tasks the
round has executed. So the count is the most by which the releases in a last stretch of the
run exceed the rounds that ended in it (`signals_run`), and nothing bounds it: while a
worker executes one task, or all tasks that are already queued, any number of submissions
may arrive.
-/

namespace SculkProtocol
namespace ThreadPool

open Scripts

variable {n : ℕ} {c c' : Pool n} {m : Move (Event Choice (ℕ × Call))} {s s' : State n}
  {producer : ℕ} {ch : Choice} {op : Op n} {ops : List (Op n)}

/-- The maximum of `mSignal`. -/
def maxSignal : ℕ := 1024 * 1024

/-- The count of the semaphore of worker `w`. -/
def State.mSignal (s : State n) (w : Fin n) : ℕ := (s.mWorkerStates w).mSignal

/-- The operation calls `release()` for worker `w`. -/
def Op.signals (w : Fin n) : Op n → Bool
  | .releaseSignal v _ | .wake v => decide (v = w)
  | _ => false

/-- The operation is the wait of worker `w` at the end of a round, and its time is not over:
it takes a signal if there is one. -/
def Op.awaitsSignal (ch : Choice) (w : Fin n) : Op n → Bool
  | .acquire v => decide (v = w)
  | .tryAcquireFor v => decide (v = w ∧ ch.ok = true)
  | _ => false

/-- The transition calls `release()` for worker `w`. -/
def releasesSignal (w : Fin n) (x : PoolStep (State n) ℕ (Op n) Choice (ℕ × Call)) : Bool :=
  (performed x).any fun r => r.2.signals w

/-- The transition ends a round of worker `w` by its wait. -/
def endsRound (w : Fin n) (x : PoolStep (State n) ℕ (Op n) Choice (ℕ × Call)) : Bool :=
  match x.label with
  | .thread _ (.step ch) => (performed x).any fun r => r.2.awaitsSignal ch w
  | _ => false

/-! ### One step -/

/-- Taking a task takes no signal. -/
theorem tryTake_mSignal {ws ws' : WorkerState} {phase : Phase} {y : ℕ}
    (h : ws.tryTake ch phase = some (some (y, ws'))) : ws'.mSignal = ws.mSignal := by
  rcases tryTake_inv h with ⟨-, q, -, rfl⟩ | ⟨-, e, es, -, -, rfl, -⟩ <;> rfl

/-- Inserting a task gives none. -/
@[simp] theorem insert_mSignal (ws : WorkerState) (producer : ℕ) (now : ℤ) (r : Submission) :
    (ws.insert producer now r).mSignal = ws.mSignal := by
  obtain ⟨y, delay⟩ := r
  cases delay <;> rfl

@[simp] theorem record_mSignal (s : State n) (e : LogEntry n) (w : Fin n) :
    (s.record e).mSignal w = s.mSignal w := rfl

/-- A worker has its own count. -/
theorem setWorker_mSignal (s : State n) (v w : Fin n) (ws : WorkerState) :
    (s.setWorker v ws).mSignal w = if v = w then ws.mSignal else s.mSignal w := by
  by_cases hv : v = w
  · subst hv; simp [State.mSignal]
  · simp [State.mSignal, hv, Ne.symm hv]

/-- Outside the two waits of a worker the count only grows by what is released. -/
theorem Step.mSignal (h : Step s producer ch op s' ops) (w : Fin n)
    (hacquire : ∀ v, op ≠ .acquire v) (htry : ∀ v, op ≠ .tryAcquireFor v) :
    s'.mSignal w = s.mSignal w + (op.signals w).toNat := by
  cases h with
  -- these release the signal of the worker that they change
  | accept r v =>
    rw [record_mSignal, setWorker_mSignal]
    by_cases hv : v = w <;> simp [State.mSignal, Op.signals, hv]
  | wake v =>
    rw [setWorker_mSignal]
    by_cases hv : v = w <;> simp [State.mSignal, Op.signals, hv]
  | insert r v =>
    rw [setWorker_mSignal]
    by_cases hv : v = w <;> simp [State.mSignal, Op.signals, hv]
  | requestStop v =>
    rw [setWorker_mSignal]
    by_cases hv : v = w <;> simp [State.mSignal, Op.signals, hv]
  | take v phase y ws htake =>
    rw [record_mSignal, setWorker_mSignal, tryTake_mSignal htake]
    by_cases hv : v = w <;> simp [State.mSignal, Op.signals, hv]
  -- a wait that takes a signal is one of the two
  | signalled v op hop =>
    rcases hop with rfl | rfl
    · exact absurd rfl (hacquire v)
    · exact absurd rfl (htry v)
  | timeout v => exact absurd rfl (htry v)
  | done v phase => cases phase <;> simp [Phase.leave, Op.signals]
  | inner v y phase a => cases a <;> rfl
  | last v _ op hop => rcases hop with rfl | rfl <;> rfl
  | _ => rfl

/-- No operation both waits for a signal and releases one. -/
theorem Op.signals_of_awaitsSignal (h : op.awaitsSignal ch w = true) : op.signals w = false := by
  cases op with
  | acquire | tryAcquireFor => rfl
  | _ => exact absurd h (by simp [Op.awaitsSignal])

/-- **Signals.** A wait takes a signal if there is one. -/
theorem execOp_mSignal (h : execOp s producer ch op = some (s', ops)) (w : Fin n) :
    s'.mSignal w = s.mSignal w - (op.awaitsSignal ch w).toNat + (op.signals w).toNat := by
  cases op with
  -- `acquire()` passes only where there is a count, and takes it
  | acquire v =>
    simp only [execOp] at h
    split at h
    · next hpos =>
      cases h
      rw [setWorker_mSignal]
      by_cases hv : v = w
      · subst hv
        simp [Op.awaitsSignal, Op.signals, State.mSignal]
      · simp [Op.awaitsSignal, Op.signals, hv]
    · exact absurd h (by simp)
  -- `try_acquire_for` takes one if there is one, and gives up otherwise
  | tryAcquireFor v =>
    simp only [execOp] at h
    split at h
    · next hpos =>
      cases h
      rw [setWorker_mSignal]
      by_cases hv : v = w
      · subst hv
        simp [Op.awaitsSignal, Op.signals, State.mSignal, hpos.1]
      · simp [Op.awaitsSignal, Op.signals, hv]
    · next hnone =>
      cases h
      by_cases hv : v = w
      · subst hv
        cases hok : ch.ok with
        | false => simp [Op.awaitsSignal, Op.signals, hok]
        | true =>
          -- the wait has not run out, so there was nothing to take
          have hzero : s.mSignal v = 0 := by
            have hnot : ¬ 0 < s.mSignal v := fun hpos => hnone ⟨hok, hpos⟩
            omega
          simp [Op.awaitsSignal, Op.signals, hok, hzero]
      · simp [Op.awaitsSignal, Op.signals, hv]
  -- the other operations take nothing
  | _ =>
    have hstep := (execOp_step h).mSignal w (fun _ => by simp) fun _ => by simp
    simpa [Op.awaitsSignal] using hstep

/-- A transition ends a round, or releases a signal, or neither. -/
theorem signals_step (h : (scripts n).program.step c m = some c') (w : Fin n) :
    c'.shared.mSignal w = c.shared.mSignal w - (endsRound w ⟨c, m, c'⟩).toNat +
        (releasesSignal w ⟨c, m, c'⟩).toNat ∧
      (endsRound w ⟨c, m, c'⟩ = true → releasesSignal w ⟨c, m, c'⟩ = false) := by
  cases step_cases h with
  | @access i ch t op rest ops s' ts others hi hperm hcode hop =>
    have hdoes : performed (⟨c, .thread i (.step ch), ⟨s', others ++ ⟨t.tag, ops ++ rest⟩ :: ts⟩⟩ :
        PoolStep (State n) ℕ (Op n) Choice (ℕ × Call)) = some (t, op) := does_of_head hi hcode
    simp only [endsRound, releasesSignal, hdoes, Option.any_some]
    exact ⟨execOp_mSignal (exec_inv hop).1 w, Op.signals_of_awaitsSignal⟩
  | finish hi hperm hcode => simp [endsRound, releasesSignal, performed, hi, hcode, scripts]
  | @arrive a s' new hnew =>
    obtain ⟨hs, -⟩ := call_inv hnew
    obtain ⟨k, hk, -⟩ := enter_inv c.shared a.2
    rw [hk] at hs
    subst hs
    simp [endsRound, releasesSignal, performed, State.mSignal]

/-! ### Runs -/

/-- The first element is counted, and then the others. -/
theorem countP_cons_toNat {α : Type} (p : α → Bool) (x : α) (xs : List α) :
    (x :: xs).countP p = xs.countP p + (p x).toNat := by
  rw [List.countP_cons]
  cases p x <;> rfl

/-- **The count.** It is the most by which the releases in a last stretch of the run exceed
the rounds that ended in it. The run is listed latest first. -/
theorem signals_run {h : List (PoolStep (State n) ℕ (Op n) Choice (ℕ × Call))} {s : Pool n}
    (hr : (system n).Run h s) (w : Fin n) :
    (∀ stretch earlier, h = stretch ++ earlier → stretch.countP (releasesSignal w) ≤
        s.shared.mSignal w + stretch.countP (endsRound w)) ∧
      ∃ stretch earlier, h = stretch ++ earlier ∧ stretch.countP (releasesSignal w) =
        s.shared.mSignal w + stretch.countP (endsRound w) := by
  induction hr with
  | init =>
    refine ⟨fun stretch earlier heq => ?_, [], [], rfl, rfl⟩
    rw [(List.append_eq_nil_iff.mp heq.symm).1]
    exact Nat.zero_le _
  | @snoc h s l t hr hst ih =>
    obtain ⟨hall, stretch, earlier, rfl, heq⟩ := ih
    obtain ⟨hcount, hdisjoint⟩ := signals_step hst w
    constructor
    · -- a longer stretch has one transition more, which adds to both sides alike
      intro stretch' earlier' hsplit
      cases stretch' with
      | nil => exact Nat.zero_le _
      | cons x stretch' =>
        obtain ⟨rfl, hrest⟩ := List.cons.inj hsplit
        have hle := hall stretch' earlier' hrest
        rw [countP_cons_toNat, countP_cons_toNat]
        omega
    · by_cases hidle : endsRound w ⟨s, l, t⟩ = true ∧ s.shared.mSignal w = 0
      · -- a round that finds no signal begins a new stretch
        obtain ⟨hends, hzero⟩ := hidle
        refine ⟨[], _, rfl, ?_⟩
        rw [hcount, hends, hdisjoint hends, hzero]
        rfl
      · -- otherwise the stretch that was greatest goes on
        refine ⟨⟨s, l, t⟩ :: stretch, earlier, rfl, ?_⟩
        rw [countP_cons_toNat, countP_cons_toNat]
        cases hends : endsRound w ⟨s, l, t⟩ with
        | false =>
          rw [hends] at hcount
          simp only [Bool.toNat_false] at hcount ⊢
          omega
        | true =>
          have hpos : s.shared.mSignal w ≠ 0 := fun hzero => hidle ⟨hends, hzero⟩
          rw [hends] at hcount
          simp only [Bool.toNat_true] at hcount ⊢
          omega

/-- A count is below the maximum exactly if the releases in no last stretch exceed its rounds
by as much. -/
theorem mSignal_lt_max_iff {h : List (PoolStep (State n) ℕ (Op n) Choice (ℕ × Call))} {s : Pool n}
    (hr : (system n).Run h s) (w : Fin n) :
    s.shared.mSignal w < maxSignal ↔ ∀ stretch earlier, h = stretch ++ earlier →
      stretch.countP (releasesSignal w) < stretch.countP (endsRound w) + maxSignal := by
  obtain ⟨hall, stretch, earlier, hsplit, heq⟩ := signals_run hr w
  constructor
  · intro hlt stretch' earlier' hsplit'
    have hle := hall stretch' earlier' hsplit'
    omega
  · intro hstretch
    have hlt := hstretch stretch earlier hsplit
    omega

/-- **The maximum of `mSignal`.** In a run of the pool the count of worker `w` is never above
its maximum, and below it whenever `release()` is called, if and only if, in every stretch of
the run up to such a call, the releases to the worker exceed the rounds it has ended by less
than `maxSignal`. -/
theorem mSignal_le_max (n : ℕ) {h : List (PoolStep (State n) ℕ (Op n) Choice (ℕ × Call))}
    {s : Pool n} (hr : (system n).Run h s) (w : Fin n) :
    (∀ later x stretch earlier, h = later ++ x :: (stretch ++ earlier) → releasesSignal w x = true →
      stretch.countP (releasesSignal w) < stretch.countP (endsRound w) + maxSignal) ↔
    (∀ x ∈ h, x.src.shared.mSignal w ≤ maxSignal ∧
      (releasesSignal w x = true → x.src.shared.mSignal w < maxSignal)) ∧
    s.shared.mSignal w ≤ maxSignal := by
  constructor
  · intro hstretch
    have hbelow : ∀ x ∈ h, releasesSignal w x = true → x.src.shared.mSignal w < maxSignal := by
      intro x hx hreleases
      obtain ⟨later, earlier, rfl⟩ := List.append_of_mem hx
      refine (mSignal_lt_max_iff hr.of_append.1 w).mpr fun stretch earlier' hsplit => ?_
      subst hsplit
      exact hstretch later x stretch earlier' rfl hreleases
    -- only `release()` adds to the count, and there was room
    have hstep : ∀ c m c', c.shared.mSignal w ≤ maxSignal → (system n).step c m = some c' →
        (releasesSignal w ⟨c, m, c'⟩ = true → c.shared.mSignal w < maxSignal) →
        c'.shared.mSignal w ≤ maxSignal := by
      intro c m c' hle hst hlt
      have hsum := (signals_step hst w).1
      cases hreleases : releasesSignal w ⟨c, m, c'⟩ with
      | false => rw [hreleases, Bool.toNat_false] at hsum; omega
      | true =>
        have hroom := hlt hreleases
        rw [hreleases, Bool.toNat_true] at hsum
        omega
    have hinit : (system n).init.shared.mSignal w ≤ maxSignal := Nat.zero_le _
    have hend :=
      hr.invariant_where (I := fun c => c.shared.mSignal w ≤ maxSignal) hinit hstep hbelow
    have hall :=
      hr.transitions_where (I := fun c => c.shared.mSignal w ≤ maxSignal) hinit hstep hbelow
    exact ⟨fun x hx => ⟨(hall x hx).1, hbelow x hx⟩, hend⟩
  · rintro ⟨hbelow, -⟩ later x stretch earlier rfl hreleases
    exact (mSignal_lt_max_iff hr.of_append.1 w).mp ((hbelow x (by simp)).2 hreleases) stretch
      earlier rfl

/-- A short run is far from the maximum. -/
theorem mSignal_le_max_delayed :
    ∃ h s, (system 1).Run h s ∧ (∃ x ∈ h, releasesSignal 0 x = true) ∧
      (∀ x ∈ h, x.src.shared.mSignal 0 ≤ maxSignal ∧
        (releasesSignal 0 x = true → x.src.shared.mSignal 0 < maxSignal)) ∧
      s.shared.mSignal 0 ≤ maxSignal := by
  obtain ⟨h, s, hr, hp⟩ := (system 1).exists_run_of_follow
    (p := fun h _ => decide (h.length < 100) && h.any (releasesSignal 0)) delayedSchedule
      (by decide)
  rw [Bool.and_eq_true, decide_eq_true_eq, List.any_eq_true] at hp
  refine ⟨h, s, hr, hp.2, (mSignal_le_max 1 hr 0).mp fun later x stretch earlier hsplit _ => ?_⟩
  have hle : stretch.countP (releasesSignal 0) ≤ stretch.length := List.countP_le_length
  have hlength : h.length = later.length + (stretch.length + earlier.length + 1) := by
    rw [hsplit, List.length_append, List.length_cons, List.length_append]
  have hmax : 100 ≤ maxSignal := by decide
  omega

/-! ### A worker that is busy -/

/-- The last thread of a pool takes a step. -/
theorem reachable_last (ch : Choice) (s' : State n) (ops : List (Op n)) {ts : List (Thread n)}
    {rest : List (Op n)}
    (hc : (system n).Reachable ⟨s, ts ++ [⟨producer, op :: rest⟩]⟩)
    (h : execOp s producer ch op = some (s', ops)) :
    (system n).Reachable ⟨s', ts ++ [⟨producer, ops ++ rest⟩]⟩ := by
  refine hc.step (l := .thread ts.length (.step ch)) ?_
  refine (step_last (M := scripts n) s ts producer op rest ch).trans ?_
  simp [scripts, h]

/-- The last thread of a pool ends. -/
theorem reachable_last_finish {ts : List (Thread n)}
    (hc : (system n).Reachable ⟨s, ts ++ [⟨producer, []⟩]⟩) : (system n).Reachable ⟨s, ts⟩ :=
  hc.step (l := .thread ts.length (.step {})) (step_last_finish (M := scripts n) s ts producer {})

/-- While its worker takes no step, each submission adds a signal. -/
theorem signal_of_submission {s : State 1} {ts : List (Thread 1)}
    (hc : (system 1).Reachable ⟨s, ts⟩)
    (hopen : s.mAcceptingSubmissions = true) :
    ∃ s' : State 1, (system 1).Reachable ⟨s', ts⟩ ∧ s'.mAcceptingSubmissions = true ∧
      s'.mSignal 0 = s.mSignal 0 + 1 := by
  have hcall : (system 1).Reachable ⟨(Call.enter s .submit).1, ts ++
      [⟨7, [.loadAccepting ⟨s.next, none⟩]⟩]⟩ :=
    hc.step (l := .env (.call (7, .submit))) rfl
  -- one operation after the other, with no other thread in between
  have henter := reachable_last {} { s with next := s.next + 1 } [.addInFlight ⟨s.next, none⟩] hcall
    (by simp [execOp, Call.enter, hopen])
  have hcount := reachable_last {} _ _ henter rfl
  have hrecheck := reachable_last {} _ [.chooseWorker ⟨s.next, none⟩] hcount
    (by simp [execOp, hopen]; rfl)
  have hchoose := reachable_last {} _ [.insert 0 ⟨s.next, none⟩] hrecheck
    (by simp [execOp]; exact ⟨rfl, Nat.mod_one _⟩)
  have hinsert := reachable_last {} _ [.subInFlight 0 ⟨s.next, none⟩ true] hchoose
    (by simp [execOp]; rfl)
  have huncount := reachable_last {} _ _ hinsert rfl
  have haccept := reachable_last {} _ _ huncount rfl
  refine ⟨_, reachable_last_finish haccept, rfl, ?_⟩
  simp [State.mSignal, WorkerState.insert]

/-- Any count is reached. -/
theorem exists_reachable_mSignal (k : ℕ) : ∃ (s : State 1) (ts : List (Thread 1)),
    (system 1).Reachable ⟨s, ts⟩ ∧ s.mAcceptingSubmissions = true ∧ s.mSignal 0 = k := by
  induction k with
  | zero => exact ⟨State.initial 1, _, System.Reachable.init, rfl, rfl⟩
  | succ k ih =>
    obtain ⟨s, ts, hc, hopen, hk⟩ := ih
    obtain ⟨s', hc', hopen', hk'⟩ := signal_of_submission hc hopen
    exact ⟨s', ts, hc', hopen', by rw [hk', hk]⟩

/-- More submissions than the maximum arrive while the worker is busy. -/
theorem mSignal_exceeds_max :
    ¬ ∀ n (c : Pool n), (system n).Reachable c → ∀ w, c.shared.mSignal w ≤ maxSignal := by
  intro hclaim
  obtain ⟨s, ts, hc, -, hk⟩ := exists_reachable_mSignal (maxSignal + 1)
  have hle := hclaim 1 _ hc 0
  rw [hk] at hle
  exact absurd hle (Nat.not_succ_le_self _)

end ThreadPool
end SculkProtocol
