import SculkProtocol.Pump.Protocol

/-!
# What the counters and the flag of a pump count

Each quantity of the shared state — the two counters and the `scheduled` flag —
is compared with a weight summed over the pool. The statements are exchange
laws: a step changes the quantity by exactly the difference between the weight of
the successors and the weight of the thread that moved. The only side condition
is that the mover's own weight is covered by the quantity, which any pool in
balance provides (`Config.le_total`), so that the decrements do not saturate.

`sched_*` are the laws of the scheduling function, used once for each kind of
caller; `exec_*` are the laws of a pool thread. `exec_live` is an inequality:
chains end, and no step of a pool thread begins one.
-/

namespace SculkProtocol
namespace Pump

variable {Flag T : Type} {G : Guards Flag} {x₀ : T} {s s' : Shared Flag}

@[simp] theorem job_jobs : (G.job : Thread Flag T).jobs = 1 := rfl

@[simp] theorem job_wakeups : (G.job : Thread Flag T).wakeups = 0 := rfl

@[simp] theorem job_holds : (G.job : Thread Flag T).holds = 1 := rfl

@[simp] theorem job_live : (G.job : Thread Flag T).live = 1 := rfl

@[simp] theorem entry_jobs : G.entry.jobs = 0 := rfl

@[simp] theorem entry_holds : G.entry.holds = 0 := rfl

@[simp] theorem entry_live : G.entry.live = 1 := rfl

/-! A caller of the scheduling function is back in its own code on return, and
otherwise still inside: its weight is its own plus that of the program point. -/

section Return

variable (o : Option (SchedPc Flag))

@[simp] theorem job_return_jobs :
    (Thread.job (o.elim .finish .sched) : Thread Flag T).jobs = 1 + next SchedPc.jobs o := by
  cases o <;> rfl

@[simp] theorem job_return_wakeups :
    (Thread.job (o.elim .finish .sched) : Thread Flag T).wakeups = 0 := by
  cases o <;> rfl

@[simp] theorem job_return_holds :
    (Thread.job (o.elim .finish .sched) : Thread Flag T).holds = next SchedPc.holds o := by
  cases o <;> rfl

@[simp] theorem job_return_live :
    (Thread.job (o.elim .finish .sched) : Thread Flag T).live = next SchedPc.live o := by
  cases o <;> rfl

@[simp] theorem wakeup_return_jobs :
    (o.elim .wakeupFinish .wakeup : Thread Flag T).jobs = next SchedPc.jobs o := by
  cases o <;> rfl

@[simp] theorem wakeup_return_wakeups :
    (o.elim .wakeupFinish .wakeup : Thread Flag T).wakeups = 1 := by
  cases o <;> rfl

@[simp] theorem wakeup_return_holds :
    (o.elim .wakeupFinish .wakeup : Thread Flag T).holds = next SchedPc.holds o := by
  cases o <;> rfl

@[simp] theorem wakeup_return_live :
    (o.elim .wakeupFinish .wakeup : Thread Flag T).live = next SchedPc.live o := by
  cases o <;> rfl

end Return

/-! ### The scheduling function -/

/-- What `sched` counts is its own job. -/
theorem sched_jobs (p : SchedPc Flag) (hp : p.jobs ≤ s.pendingJobs) :
    let r := sched (T := T) G s p
    r.1.pendingJobs + p.jobs
      = s.pendingJobs + next SchedPc.jobs r.2.1 + Config.total Thread.jobs r.2.2 := by
  cases p with
  | guard g gs =>
    simp only [sched]
    split <;> cases gs <;> simp [Guards.then, SchedPc.jobs]
  | cas => simp only [sched]; split <;> simp [SchedPc.jobs]
  | count => simp [sched, SchedPc.jobs]
  | submit => simp only [sched]; split <;> simp [SchedPc.jobs]
  | uncount =>
    simp only [SchedPc.jobs] at hp
    simp only [sched, next_some, SchedPc.jobs, Config.total_nil]
    omega
  | unflag => simp [sched, SchedPc.jobs]

/-- What `sched` holds is the flag. -/
theorem sched_holds (p : SchedPc Flag) (hp : p.holds ≤ s.scheduled.toNat) :
    let r := sched (T := T) G s p
    r.1.scheduled.toNat + p.holds
      = s.scheduled.toNat + next SchedPc.holds r.2.1 + Config.total Thread.holds r.2.2 := by
  cases p with
  | guard g gs =>
    simp only [sched]
    split <;> cases gs <;> simp [Guards.then, SchedPc.holds]
  | cas =>
    simp only [sched]
    split
    · simp [SchedPc.holds]
    · -- the compare-and-swap sets the flag for this call
      next hs => simp [SchedPc.holds, hs]
  | count => simp [sched, SchedPc.holds]
  | submit => simp only [sched]; split <;> simp [SchedPc.holds]
  | uncount => simp [sched, SchedPc.holds]
  | unflag =>
    -- the flag is set, since the call has it
    have hs : s.scheduled = true := by
      cases hb : s.scheduled with
      | true => rfl
      | false => rw [hb] at hp; simp [SchedPc.holds] at hp
    simp [sched, SchedPc.holds, hs]

/-- The scheduling function neither counts nor finishes wakeups. -/
theorem sched_wakeups (p : SchedPc Flag) :
    let r := sched (T := T) G s p
    r.1.pendingWakeups = s.pendingWakeups ∧ Config.total Thread.wakeups r.2.2 = 0 := by
  cases p <;> simp only [sched] <;> (try split) <;> simp

/-- The only thread the scheduling function creates is a fresh job. -/
theorem sched_submitted (p : SchedPc Flag) :
    ∀ u ∈ (sched (T := T) G s p).2.2, u = G.job := by
  intro u hu
  cases p <;> simp only [sched] at hu <;> (try split at hu) <;> simp_all

/-- The scheduling function leaves the guard flags and the pool alone. -/
theorem sched_frame (p : SchedPc Flag) :
    let r := sched (T := T) G s p
    r.1.flags = s.flags ∧ r.1.accepting = s.accepting := by
  cases p <;> simp only [sched] <;> (try split) <;> simp

/-- A caller that is already counted as live never adds a chain. -/
theorem sched_live (p : SchedPc Flag) :
    let r := sched (T := T) G s p
    next SchedPc.live r.2.1 + Config.total Thread.live r.2.2 ≤ p.live := by
  cases p with
  | guard g gs =>
    simp only [sched]
    split <;> cases gs <;> simp [Guards.then, SchedPc.live]
  | cas => simp only [sched]; split <;> simp [SchedPc.live]
  | count => simp [sched, SchedPc.live]
  | submit => simp only [sched]; split <;> simp [SchedPc.live]
  | uncount => simp [sched, SchedPc.live]
  | unflag => simp [sched, SchedPc.live]

/-! ### Threads of the pool -/

/-- A step of a thread counts the jobs that it starts and ends. -/
theorem exec_jobs {t : Thread Flag T} {ts : List (Thread Flag T)}
    (h : exec G x₀ s t = some (s', ts)) (hle : t.jobs ≤ s.pendingJobs) :
    s'.pendingJobs + t.jobs = s.pendingJobs + Config.total Thread.jobs ts := by
  cases t with
  | job pc =>
    -- a job counts from its submission to `finish`
    cases pc with
    | guard g gs =>
      simp only [exec, execJob] at h
      split at h <;> cases h <;> cases gs <;> simp [Guards.then, Thread.jobs]
    | giveUp => cases h; simp [Thread.jobs]
    | tick x => exact absurd h (by simp [exec, execJob])
    | clear p => cases h; simp [Thread.jobs]
    | recheck g gs p =>
      simp only [exec, execJob] at h
      split at h <;> cases h <;> cases gs <;> cases p <;> simp [Guards.then, Thread.jobs]
    | countWakeup => cases h; simp [Thread.jobs]
    | submitAfter =>
      simp only [exec, execJob] at h
      split at h <;> cases h <;> simp [Thread.jobs]
    | uncountWakeup => cases h; simp [Thread.jobs]
    | sched p =>
      cases h
      -- submitting counts the new job, and its caller goes on
      have hp := sched_jobs (G := G) (T := T) (s := s) p
        (by simp only [Thread.jobs] at hle; omega)
      rw [Config.total_cons, job_return_jobs]
      simp only [Thread.jobs] at hp ⊢
      omega
    | finish =>
      cases h
      simp only [Thread.jobs, Config.total_cons, Config.total_nil] at hle ⊢
      omega
  | wakeup p =>
    cases h
    have hp := sched_jobs (G := G) (T := T) (s := s) p hle
    rw [Config.total_cons, wakeup_return_jobs]
    simp only [Thread.jobs] at hp ⊢
    omega
  | wakeupFinish | leaving => cases h; simp [Thread.jobs]

/-- So it does the wakeups. -/
theorem exec_wakeups {t : Thread Flag T} {ts : List (Thread Flag T)}
    (h : exec G x₀ s t = some (s', ts)) (hle : t.wakeups ≤ s.pendingWakeups) :
    s'.pendingWakeups + t.wakeups = s.pendingWakeups + Config.total Thread.wakeups ts := by
  cases t with
  | job pc =>
    cases pc with
    | guard g gs =>
      simp only [exec, execJob] at h
      split at h <;> cases h <;> cases gs <;> simp [Guards.then, Thread.wakeups]
    | giveUp => cases h; simp [Thread.wakeups]
    | tick x => exact absurd h (by simp [exec, execJob])
    | clear p => cases h; simp [Thread.wakeups]
    | recheck g gs p =>
      simp only [exec, execJob] at h
      split at h <;> cases h <;> cases gs <;> cases p <;> simp [Guards.then, Thread.wakeups]
    | countWakeup => cases h; simp [Thread.wakeups]
    | submitAfter =>
      simp only [exec, execJob] at h
      split at h <;> cases h <;> simp [Thread.wakeups]
    | uncountWakeup =>
      cases h
      -- the wakeup was counted, so the subtraction is one
      simp only [Thread.wakeups, Config.total_cons, Config.total_nil] at hle ⊢
      omega
    | sched p =>
      cases h
      obtain ⟨hw, hts⟩ := sched_wakeups (G := G) (T := T) (s := s) p
      -- the scheduling call submits jobs, no wakeups
      rw [Config.total_cons, hw, hts, job_return_wakeups]
      simp only [Thread.wakeups]
    | finish => cases h; simp [Thread.wakeups]
  | wakeup p =>
    cases h
    obtain ⟨hw, hts⟩ := sched_wakeups (G := G) (T := T) (s := s) p
    rw [Config.total_cons, hw, hts, wakeup_return_wakeups]
    simp only [Thread.wakeups]
  | wakeupFinish =>
    cases h
    -- what is left of the wakeup is not counted any more
    simp only [Thread.wakeups, Config.total_cons, Config.total_nil] at hle ⊢
    omega
  | leaving => cases h; simp [Thread.wakeups]

/-- Only the holder of the flag is ever in a position to give it back. -/
theorem scheduled_of_holds {n : ℕ} (hle : n + 1 ≤ s.scheduled.toNat) : s.scheduled = true := by
  cases hb : s.scheduled with
  | true => rfl
  | false => rw [hb] at hle; simp at hle

/-- So it does the flag. -/
theorem exec_holds {t : Thread Flag T} {ts : List (Thread Flag T)}
    (h : exec G x₀ s t = some (s', ts)) (hle : t.holds ≤ s.scheduled.toNat) :
    s'.scheduled.toNat + t.holds = s.scheduled.toNat + Config.total Thread.holds ts := by
  cases t with
  | job pc =>
    -- a job has the flag from its submission until it clears it
    cases pc with
    | guard g gs =>
      simp only [exec, execJob] at h
      split at h <;> cases h <;> cases gs <;> simp [Guards.then, Thread.holds]
    | giveUp => cases h; simp [Thread.holds, scheduled_of_holds hle]
    | tick x => exact absurd h (by simp [exec, execJob])
    | clear p => cases h; simp [Thread.holds, scheduled_of_holds hle]
    | recheck g gs p =>
      simp only [exec, execJob] at h
      split at h <;> cases h <;> cases gs <;> cases p <;>
        simp [Guards.then, Thread.holds, SchedPc.holds, Guards.entry]
    | countWakeup => cases h; simp [Thread.holds]
    | submitAfter =>
      simp only [exec, execJob] at h
      split at h <;> cases h <;> simp [Thread.holds, SchedPc.holds, Guards.entry]
    | uncountWakeup => cases h; simp [Thread.holds]
    | sched p =>
      cases h
      -- a job that is submitted has the flag that its caller has set
      have hp := sched_holds (G := G) (T := T) (s := s) p hle
      rw [Config.total_cons, job_return_holds]
      simp only [Thread.holds] at hp ⊢
      omega
    | finish => cases h; simp [Thread.holds]
  | wakeup p =>
    cases h
    have hp := sched_holds (G := G) (T := T) (s := s) p hle
    rw [Config.total_cons, wakeup_return_holds]
    simp only [Thread.holds] at hp ⊢
    omega
  | wakeupFinish | leaving => cases h; simp [Thread.holds]

/-- **No step of the pool begins a chain.** -/
theorem exec_live {t : Thread Flag T} {ts : List (Thread Flag T)}
    (h : exec G x₀ s t = some (s', ts)) : Config.total Thread.live ts ≤ t.live := by
  cases t with
  | job pc =>
    -- a job carries its chain until it gives up, or hands it on to another job
    cases pc with
    | guard g gs =>
      simp only [exec, execJob] at h
      split at h <;> cases h <;> cases gs <;> simp [Guards.then, Thread.live]
    | giveUp => cases h; simp [Thread.live]
    | tick x => exact absurd h (by simp [exec, execJob])
    | clear p => cases h; simp [Thread.live]
    | recheck g gs p =>
      simp only [exec, execJob] at h
      split at h <;> cases h <;> cases gs <;> cases p <;>
        simp [Guards.then, Thread.live, SchedPc.live, Guards.entry]
    | countWakeup => cases h; simp [Thread.live]
    | submitAfter =>
      simp only [exec, execJob] at h
      split at h <;> cases h <;> simp [Thread.live, SchedPc.live, Guards.entry]
    | uncountWakeup => cases h; simp [Thread.live]
    | sched p =>
      cases h
      have hp := sched_live (G := G) (T := T) (s := s) p
      rw [Config.total_cons, job_return_live]
      simp only [Thread.live] at hp ⊢
      omega
    | finish => cases h; simp [Thread.live]
  | wakeup p =>
    cases h
    have hp := sched_live (G := G) (T := T) (s := s) p
    rw [Config.total_cons, wakeup_return_live]
    simp only [Thread.live] at hp ⊢
    omega
  | wakeupFinish | leaving => cases h; simp [Thread.live]

/-- A tick is entered at its start. -/
theorem exec_tick {t : Thread Flag T} {ts : List (Thread Flag T)}
    (h : exec G x₀ s t = some (s', ts)) : ∀ x, .job (.tick x) ∈ ts → x = x₀ := by
  intro x hx
  cases t with
  | job pc =>
    cases pc with
    | guard g gs =>
      simp only [exec, execJob] at h
      split at h <;> cases h <;> cases gs <;> simp_all [Guards.then]
    | tick x => exact absurd h (by simp [exec, execJob])
    | recheck g gs p =>
      simp only [exec, execJob] at h
      split at h <;> cases h <;> cases gs <;> cases p <;> simp_all [Guards.then]
    | submitAfter =>
      simp only [exec, execJob] at h
      split at h <;> cases h <;> simp at hx
    -- a submitted job begins at its guards, not in a tick
    | sched p =>
      cases h
      rcases List.mem_cons.mp hx with hx | hx
      · cases hr : (sched (T := T) G s p).2.1 <;> rw [hr] at hx <;> simp at hx
      · exact absurd (sched_submitted p _ hx) (by simp [Guards.job])
    | giveUp | clear p | countWakeup | uncountWakeup | finish => cases h; simp at hx
  | wakeup p =>
    cases h
    rcases List.mem_cons.mp hx with hx | hx
    · cases hr : (sched (T := T) G s p).2.1 <;> rw [hr] at hx <;> simp at hx
    · exact absurd (sched_submitted p _ hx) (by simp [Guards.job])
  | wakeupFinish | leaving => cases h; simp at hx

/-- Pool threads leave the guard flags and the pool alone. -/
theorem exec_frame {t : Thread Flag T} {ts : List (Thread Flag T)}
    (h : exec G x₀ s t = some (s', ts)) : s'.flags = s.flags ∧ s'.accepting = s.accepting := by
  cases t with
  | job pc =>
    cases pc with
    | sched p => cases h; exact sched_frame p
    | guard g gs => simp only [exec, execJob] at h; split at h <;> cases h <;> exact ⟨rfl, rfl⟩
    | recheck g gs p => simp only [exec, execJob] at h; split at h <;> cases h <;> exact ⟨rfl, rfl⟩
    | submitAfter => simp only [exec, execJob] at h; split at h <;> cases h <;> exact ⟨rfl, rfl⟩
    | tick x => exact absurd h (by simp [exec, execJob])
    | giveUp | clear p | countWakeup | uncountWakeup | finish => cases h; exact ⟨rfl, rfl⟩
  | wakeup p => cases h; exact sched_frame p
  | wakeupFinish | leaving => cases h; exact ⟨rfl, rfl⟩

end Pump
end SculkProtocol
