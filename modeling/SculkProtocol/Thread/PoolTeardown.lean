import SculkProtocol.Thread.PoolDelivery

/-!
# What submissions do after `ThreadPool::stop` has waited

`stop` waits until `mInFlightSubmissions` is zero. A submission is counted there from
before its second look at the flag until after its insertion, so when `stop` goes on
nothing is inserted any more (`Stopping.sealed`). But the submission calls
`mSignal.release()` after it has decremented the counter: between the two it is not
counted, and is not waited for. If no submission stands there when `stop` goes on, none
touches a worker any more (`Past`); otherwise one still will.
-/

namespace SculkProtocol
namespace ThreadPool

open Scripts

variable {n : ℕ} {c c' : Pool n} {m : Move (Event Choice (ℕ × Call))} {s s' : State n}
  {producer : ℕ} {ch : Choice} {op : Op n} {ops : List (Op n)}

/-! ### Accesses of a submission to a worker -/

/-- The submission accesses the `WorkerState` it has chosen. -/
def Op.accesses : Op n → Bool
  | .insert _ _ | .releaseSignal _ _ => true
  | _ => false

/-- The submission has an access to a `WorkerState` to come. -/
def Op.willAccess : Op n → Bool
  | .chooseWorker _ | .insert _ _ | .subInFlight _ _ true | .releaseSignal _ _ => true
  | _ => false

/-- The submission stands between its decrement of `mInFlightSubmissions` and its
`mSignal.release()`. -/
def Op.releases : Op n → Bool
  | .releaseSignal _ _ => true
  | _ => false

/-- In the transition `x`, `stop` finds `mInFlightSubmissions` at zero. -/
def LeavesWait (x : PoolStep (State n) ℕ (Op n) Choice (ℕ × Call)) : Prop :=
  ∃ t, Does x t .waitInFlight

/-- No submission accesses a worker in these transitions. -/
def NoAccess (later : List (PoolStep (State n) ℕ (Op n) Choice (ℕ × Call))) : Prop :=
  ∀ y ∈ later, ∀ t op, Does y t op → op.accesses = false

theorem Op.willAccess_of_accesses (h : op.accesses = true) : op.willAccess = true := by
  cases op <;> simp [Op.accesses, Op.willAccess] at h ⊢

theorem Op.accesses_of_releases (h : op.releases = true) : op.accesses = true := by
  cases op <;> simp [Op.releases, Op.accesses] at h ⊢

/-- The counter misses one of the points with an access to come. -/
theorem Op.inFlight_of_willAccess (h : op.willAccess = true) :
    op.inFlight = true ∨ op.releases = true := by
  cases op <;> simp [Op.willAccess, Op.inFlight, Op.releases] at h ⊢

/-- An access to come was to come before, or the submission has just found the flag set. -/
theorem Step.willAccess (h : Step s producer ch op s' ops) (hpos : 0 < ops.countP Op.willAccess) :
    op.willAccess = true ∨ s.mAcceptingSubmissions = true := by
  cases h with
  | recheck r hopen => exact Or.inr hopen
  | choose | insert | uncount => exact Or.inl rfl
  | inner v y phase a => cases a <;> exact absurd hpos (by simp [Call.enter, Op.willAccess])
  | done v phase => cases phase <;> exact absurd hpos (by simp [Phase.next, Op.willAccess])
  | close => split at hpos <;> exact absurd hpos (by simp [Op.willAccess])
  | stop =>
    split at hpos <;>
      exact absurd hpos (by simp [Op.willAccess, List.countP_map, Function.comp_def])
  | wait v op hop =>
    rcases hop with rfl | rfl | rfl <;> exact absurd hpos (by simp [Op.willAccess])
  | _ => exact absurd hpos (by simp [Op.willAccess])

/-- `stop` sets `mStopping` right after its wait. -/
theorem Step.sets_stopping (h : Step s producer ch op s' ops) (hop : op.hasWaited = true) :
    s'.mStopping = true := by
  cases h with
  | stop => rfl
  | last v _ op hor | signalled v op hor =>
    rcases hor with rfl | rfl <;> exact absurd hop (by simp [Op.hasWaited])
  | _ => exact absurd hop (by simp [Op.hasWaited])

/-- `stop` goes on when the counter is zero. -/
theorem Step.leaves_wait (h : Step s producer ch .waitInFlight s' ops) :
    s.mInFlightSubmissions = 0 ∧ ops = [.exchangeStopping] := by
  cases h with
  | waited hzero => exact ⟨hzero, rfl⟩
  | last v _ op hor | signalled v op hor => exact absurd hor (by simp)

/-! ### After the wait -/

/-- `stop` has waited, and no submission has an access to a worker to come. -/
structure Past (c : Pool n) : Prop where
  stopping : Stopping c
  waited : 0 < pending Op.hasWaited c ∨ c.shared.mStopping = true
  quiet : pending Op.willAccess c = 0

/-- When `stop` leaves its wait, what it has not waited for is what stands before a
`release()`. -/
theorem past_of_leavesWait (hc : Stopping c) (h : (scripts n).program.step c m = some c')
    (hleaves : LeavesWait ⟨c, m, c'⟩) (hnone : pending Op.releases c = 0) : Past c' := by
  obtain ⟨t, hdoes⟩ := hleaves
  obtain ⟨i, ch, ops, ts, -, hop, hp⟩ := pending_of_does h hdoes
  obtain ⟨hexec, rfl⟩ := exec_inv hop
  obtain ⟨hinFlight, rfl⟩ := (execOp_step hexec).leaves_wait
  refine ⟨stopping_step hc h, Or.inl ?_, ?_⟩
  · have hwaited := (hp Op.hasWaited).2
    simp [Op.hasWaited] at hwaited
    omega
  · have hsame := (hp Op.willAccess).2
    simp [Op.willAccess] at hsame
    -- whoever is still to access the pool is in flight, or before a `release()`
    by_contra hne
    obtain ⟨u, hu, op, hop, hwill⟩ := exists_of_pending_pos (p := Op.willAccess) (c := c) (by omega)
    rcases Op.inFlight_of_willAccess hwill with hcounted | hreleases
    · have hpos := pending_pos (p := Op.inFlight) hu hop hcounted
      have hzero := hc.counted
      omega
    · have hpos := pending_pos (p := Op.releases) hu hop hreleases
      omega

theorem past_step (hc : Past c) (h : (scripts n).program.step c m = some c') : Past c' := by
  refine ⟨stopping_step hc.stopping h, ?_, ?_⟩
  · rcases (moved_of_step h).quiet with ⟨producer, ch, op, ops, -, hstep, hp⟩ | ⟨-, k, hs, hp⟩
    · rcases hc.waited with hwaited | hset
      · cases hop : op.hasWaited with
        | true => exact Or.inr (hstep.sets_stopping hop)
        | false =>
          have hpool := (hp Op.hasWaited).2
          rw [hop, Bool.toNat_false] at hpool
          exact Or.inl (by omega)
      · exact Or.inr (hstep.flags.2.1 hset)
    · rw [hs, hp _ (fun _ => rfl) rfl]
      exact hc.waited
  · rcases (moved_of_step h).quiet with ⟨producer, ch, op, ops, -, hstep, hp⟩ | ⟨-, k, -, hp⟩
    · by_contra hne
      rcases hp.cases (Nat.pos_of_ne_zero hne) with hold | hnew
      · exact absurd hc.quiet (by omega)
      · rcases hstep.willAccess hnew with hop | hopen
        · have hpos := hp.pos hop
          exact absurd hc.quiet (by omega)
        · -- the flag has been clear since before the wait
          have hclosed := hc.stopping.closed (hc.waited.imp_left fun hpos =>
            hpos.trans_le (pending_mono fun _ => Op.closes_of_hasWaited))
          rw [hclosed] at hopen
          exact absurd hopen (by decide)
    · rw [hp _ (fun _ => rfl) rfl]
      exact hc.quiet

/-- No access is performed when none is to come. -/
theorem Past.not_accesses {x : PoolStep (State n) ℕ (Op n) Choice (ℕ × Call)} (hc : Past x.src)
    {t : Thread n} (hdoes : Does x t op) : op.accesses = false := by
  cases hop : op.accesses with
  | false => rfl
  | true =>
    have hpos :=
      pending_pos (p := Op.willAccess) hdoes.mem.1 hdoes.mem.2 (Op.willAccess_of_accesses hop)
    exact absurd hc.quiet (by omega)

/-- A `release()` that is pending stays so until it is performed. -/
theorem releases_step (hpos : 0 < pending Op.releases c)
    (h : (scripts n).program.step c m = some c')
    (hquiet : ∀ t op, Does ⟨c, m, c'⟩ t op → op.accesses = false) : 0 < pending Op.releases c' := by
  rcases (moved_of_step h).quiet with ⟨producer, ch, op, ops, ho, -, hp⟩ | ⟨-, k, -, hp⟩
  · have hpool := (hp Op.releases).2
    cases hop : op.releases with
    | true =>
      obtain ⟨⟨t, _⟩, hdoes, rfl⟩ := Option.map_eq_some_iff.mp ho
      exact absurd (hquiet t _ hdoes) (by rw [Op.accesses_of_releases hop]; decide)
    | false => rw [hop, Bool.toNat_false] at hpool; omega
  · rw [hp _ (fun _ => rfl) rfl]
    exact hpos

/-! ### The result -/

/-- **After the wait of `stop`.** In a run of the pool, no submission accesses a worker
after `stop` has left its wait, and none has an access to come at the end, if and only if
no submission stood before its `mSignal.release()` when `stop` left the wait. -/
theorem submission_access_after_wait (n : ℕ)
    {h : List (PoolStep (State n) ℕ (Op n) Choice (ℕ × Call))} {s : Pool n}
    (hr : (system n).Run h s) :
    (∀ x ∈ h, LeavesWait x → pending Op.releases x.src = 0) ↔
      ∀ later x earlier, h = later ++ x :: earlier → LeavesWait x →
        NoAccess later ∧ pending Op.willAccess s = 0 := by
  constructor
  · rintro hnone later x earlier rfl hleaves
    obtain ⟨hsrc, hst⟩ := hr.of_append
    have hstopping : Stopping x.src := hsrc.invariant (stopping_initial n) fun _ _ _ =>
      stopping_step
    have hpast := past_of_leavesWait hstopping hst hleaves (hnone x (by simp) hleaves)
    obtain ⟨hend, hlater⟩ := hr.since hpast fun y _ hy hsrc => past_step hsrc hy
    exact ⟨fun y hy t op hdoes => (hlater y hy).not_accesses hdoes, hend.quiet⟩
  · intro hquiet x hx hleaves
    obtain ⟨later, earlier, rfl⟩ := List.append_of_mem hx
    obtain ⟨hnone, hend⟩ := hquiet later x earlier rfl hleaves
    by_contra hne
    -- the submission that was not waited for is still there at the end
    have hdst : 0 < pending Op.releases x.dst := by
      refine releases_step (Nat.pos_of_ne_zero hne) (hr.mem_step x hx).2 fun t op hdoes => ?_
      obtain ⟨u, hwait⟩ := hleaves
      obtain ⟨-, rfl⟩ := Does.inj hwait hdoes
      rfl
    have hpos := (hr.since (I := fun c => 0 < pending Op.releases c) hdst fun y hy hst hsrc =>
      releases_step hsrc hst (hnone y hy)).1
    have hle : pending Op.releases s ≤ pending Op.willAccess s :=
      pending_mono fun _ hop => Op.willAccess_of_accesses (Op.accesses_of_releases hop)
    omega

/-- `stop` is called while a submission is on its way. -/
def releaseAfterStop (submitted : ℕ) : List (Move (Event Choice (ℕ × Call))) :=
  .env (.call (7, .submit)) :: List.replicate submitted (next 1 {}) ++
  .env (.call (8, .stop)) :: List.replicate 2 (next 2 {})

/-- `stop` is called after a submission has returned: nothing touches the worker. -/
theorem submission_access_after_wait_returned :
    ∃ h s, (system 1).Run h s ∧ (∃ x ∈ h, LeavesWait x) ∧
      ∀ later x earlier, h = later ++ x :: earlier → LeavesWait x →
        NoAccess later ∧ pending Op.willAccess s = 0 := by
  obtain ⟨h, s, hr, hp⟩ := (system 1).exists_run_of_follow
    (p := fun h _ => h.any (fun x => (performed x).map Prod.snd = some .waitInFlight) &&
      h.all fun x => (performed x).map Prod.snd ≠ some .waitInFlight ∨
      pending Op.releases x.src = 0)
    (releaseAfterStop 7 ++ List.replicate 3 (next 2 {})) (by decide)
  rw [Bool.and_eq_true, List.any_eq_true, List.all_eq_true] at hp
  obtain ⟨⟨x, hx, hleaves⟩, hnone⟩ := hp
  obtain ⟨⟨t, op⟩, hdoes, rfl⟩ := Option.map_eq_some_iff.mp (of_decide_eq_true hleaves)
  refine ⟨h, s, hr, ⟨x, hx, t, hdoes⟩, (submission_access_after_wait 1 hr).mp
    fun y hy hleaves => ?_⟩
  obtain ⟨u, hdoes⟩ := hleaves
  exact (of_decide_eq_true (hnone y hy)).resolve_left fun hne => hne (by rw [hdoes]; rfl)

/-- `stop` is called while a submission stands before its `mSignal.release()`, and leaves
its wait before that. -/
theorem submission_access_after_wait_released :
    ¬ ∀ n (h : List (PoolStep (State n) ℕ (Op n) Choice (ℕ × Call))) s, (system n).Run h s →
      ∀ later x earlier, h = later ++ x :: earlier → LeavesWait x → NoAccess later := by
  intro hclaim
  obtain ⟨h, s, hr, hp⟩ := (system 1).exists_run_of_follow
    (p := fun h _ => decide ((h[1]?.bind performed).map Prod.snd = some (.waitInFlight : Op 1) ∧
      (h[0]?.bind performed).map Prod.snd = some (.releaseSignal 0 ⟨0, none⟩ : Op 1)))
    (releaseAfterStop 6 ++ [next 1 {}]) (by decide)
  obtain ⟨hwait, hrelease⟩ := of_decide_eq_true hp
  obtain ⟨⟨t, op⟩, hx, rfl⟩ := Option.map_eq_some_iff.mp hwait
  obtain ⟨⟨u, op⟩, hy, rfl⟩ := Option.map_eq_some_iff.mp hrelease
  obtain ⟨x, hx, hdoes⟩ := Option.bind_eq_some_iff.mp hx
  obtain ⟨y, hy, hdoes'⟩ := Option.bind_eq_some_iff.mp hy
  rcases h with - | ⟨y', - | ⟨x', earlier⟩⟩
  · exact absurd hx (by simp)
  · exact absurd hx (by simp)
  · cases hx
    cases hy
    exact absurd (hclaim 1 _ s hr [y] x earlier rfl ⟨t, hdoes⟩ y (by simp) u _ hdoes') (by decide)

end ThreadPool
end SculkProtocol
