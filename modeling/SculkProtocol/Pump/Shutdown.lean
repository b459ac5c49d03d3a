import SculkProtocol.Pump.Accounting

/-!
# A pump whose guards are down

An owner stops a pump by taking a guard down and waiting for its counters. What is
still moving then depends on how far each thread had come:

* a wakeup that has yet to read the closed guard is *late*: it returns without
  submitting anything (`exec_late`);
* a job is followed by jobs, by wakeups that have not read a guard, and by what is
  left of it after it has uncounted itself (`exec_isJob`);
* a job that is past its second reading of the guards may still register a wakeup.
  Once all guards are down and every thread is *draining*, none will (`exec_closed`).
-/

namespace SculkProtocol
namespace Pump

variable {Flag T : Type} {G : Guards Flag} {x₀ : T} {s s' : Shared Flag}

/-- A wakeup that has yet to read the guard `f`, or a closure that is done. -/
def Thread.late [DecidableEq Flag] (f : Flag) : Thread Flag T → Bool
  | .wakeup (.guard g gs) => decide (f = g ∨ f ∈ gs)
  | .wakeupFinish => true
  | .leaving => true
  | _ => false

/-- A job. -/
def Thread.isJob : Thread Flag T → Bool
  | .job _ => true
  | _ => false

/-- Behind a closed guard a late wakeup stays late, and submits nothing. -/
theorem exec_late [DecidableEq Flag] {f : Flag} {t : Thread Flag T} {ts : List (Thread Flag T)}
    (h : exec G x₀ s t = some (s', ts)) (hf : s.flags f = false) (ht : t.late f = true) :
    ∀ u ∈ ts, u.late f = true := by
  intro u hu
  cases t with
  | job pc => exact absurd ht (by simp [Thread.late])
  | wakeup p =>
    cases p with
    | guard g gs =>
      cases h
      simp only [sched] at hu
      split at hu
      · next hg =>
        -- the guard just read is up, so `f` is among those left
        have hne : f ≠ g := fun hfg => by rw [hfg, hg] at hf; exact absurd hf (by simp)
        cases gs with
        | nil => exact absurd ht (by simp [Thread.late, hne])
        | cons g' gs' =>
          simp only [Guards.then, Option.elim_some, List.mem_singleton] at hu
          subst hu
          simpa [Thread.late, hne] using ht
      · simp only [Option.elim_none, List.mem_singleton] at hu
        subst hu
        rfl
    | cas | count | submit | uncount | unflag => exact absurd ht (by simp [Thread.late])
  | wakeupFinish =>
    cases h
    obtain rfl := List.mem_singleton.mp hu
    rfl
  | leaving => cases h; exact absurd hu List.not_mem_nil

/-- A job is followed by jobs and by wakeups that have not read a guard yet, and in the
end it leaves. -/
theorem exec_isJob {t : Thread Flag T} {ts : List (Thread Flag T)}
    (h : exec G x₀ s t = some (s', ts)) (ht : t.isJob = true) :
    ∀ u ∈ ts, u.isJob = true ∨ u = .wakeup G.entry ∨ u = .leaving := by
  intro u hu
  cases t with
  | job pc =>
    cases pc with
    | guard g gs =>
      simp only [exec, execJob] at h
      split at h <;> cases h <;> simp_all [Thread.isJob]
    | tick x => exact absurd h (by simp [exec, execJob])
    | recheck g gs p =>
      simp only [exec, execJob] at h
      split at h <;> cases h <;> simp_all [Thread.isJob]
    -- the job goes on, and its wakeup is new
    | submitAfter =>
      simp only [exec, execJob] at h
      split at h <;> cases h <;> simp_all [Thread.isJob]
      rcases hu with rfl | rfl <;> simp
    | sched p =>
      cases h
      rcases List.mem_cons.mp hu with rfl | hu
      · exact Or.inl rfl
      · rw [sched_submitted p u hu]; exact Or.inl rfl
    | giveUp | clear p | countWakeup | uncountWakeup | finish => cases h; simp_all [Thread.isJob]
  | wakeup p | wakeupFinish | leaving => exact absurd ht (by simp [Thread.isJob])

/-- A job that neither is about to count a wakeup nor has counted one, or a closure that
is done. -/
def Thread.draining : Thread Flag T → Bool
  | .job .countWakeup => false
  | .job .submitAfter => false
  | .job .uncountWakeup => false
  | .job _ => true
  | .leaving => true
  | _ => false

/-- All guards are down. -/
def Shared.Closed (s : Shared Flag) : Prop := ∀ g, s.flags g = false

/-- **Behind closed guards** a job that registers no wakeup is followed by jobs that
register none, and leaves. -/
theorem exec_closed {t : Thread Flag T} {ts : List (Thread Flag T)}
    (h : exec G x₀ s t = some (s', ts)) (hs : s.Closed) (ht : t.draining = true) :
    ∀ u ∈ ts, u.draining = true := by
  intro u hu
  cases t with
  | job pc =>
    cases pc with
    -- a closed guard ends the job
    | guard g gs =>
      simp only [exec, execJob, hs g] at h
      cases h
      simp_all [Thread.draining]
    | tick x => exact absurd h (by simp [exec, execJob])
    | recheck g gs p =>
      simp only [exec, execJob, hs g] at h
      cases h
      simp_all [Thread.draining]
    | countWakeup | submitAfter | uncountWakeup => exact absurd ht (by simp [Thread.draining])
    | sched p =>
      cases h
      rcases List.mem_cons.mp hu with rfl | hu
      · cases (sched (T := T) G s p).2.1 <;> rfl
      · rw [sched_submitted p u hu]; rfl
    | giveUp | clear p | finish => cases h; simp_all [Thread.draining]
  | wakeup p | wakeupFinish => exact absurd ht (by simp [Thread.draining])
  | leaving => cases h; exact absurd hu List.not_mem_nil

/-! ### What the counters say about the threads -/

/-- A thread that accounts for no wakeup is a job, or done. -/
theorem isJob_of_wakeups {t : Thread Flag T} (h : t.wakeups = 0) :
    t.isJob = true ∨ t = .leaving := by
  cases t with
  | job pc => exact Or.inl rfl
  | wakeup p | wakeupFinish => exact absurd h (by simp [Thread.wakeups])
  | leaving => exact Or.inr rfl

/-- A job accounts for itself. -/
theorem not_isJob_of_jobs {t : Thread Flag T} (h : t.jobs = 0) : t.isJob = false := by
  cases t with
  | job pc => cases pc <;> simp_all [Thread.jobs]
  | wakeup p | wakeupFinish | leaving => rfl

/-- A thread that accounts for no wakeup registers none, unless it is about to. -/
theorem draining_of_wakeups {t : Thread Flag T} (h : t.wakeups = 0)
    (hc : t ≠ .job .countWakeup) : t.draining = true := by
  cases t with
  | job pc => cases pc <;> simp_all [Thread.wakeups, Thread.draining]
  | wakeup p | wakeupFinish => exact absurd h (by simp [Thread.wakeups])
  | leaving => rfl

/-- Among these the jobs are counted, so one that accounts for no job is done. -/
theorem leaving_of_jobs {t : Thread Flag T} (hd : t.draining = true) (h : t.jobs = 0) :
    t = .leaving := by
  cases t with
  | job pc => exact absurd (not_isJob_of_jobs h) (by simp [Thread.isJob])
  | wakeup p | wakeupFinish => exact absurd hd (by simp [Thread.draining])
  | leaving => rfl

end Pump
end SculkProtocol
