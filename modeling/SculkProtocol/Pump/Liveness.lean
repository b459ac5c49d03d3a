import SculkProtocol.Pump.Accounting

/-!
# What keeps a pump alive

A chain of ticks ends in three ways: a thread finds a guard down, the pool refuses
a submission, or a caller of the scheduling function loses the compare-and-swap.
While all guards are up (`Shared.Open`) and the pool takes work the first two are
excluded (`exec_open`, `exec_accepted`), and in the third the flag has a holder,
which is live itself (`holds_le_live`). So `exec_live_open`: a live thread either
has a live successor or leaves the chain to the holder of the flag.

`exec_rank` bounds how long a chain can run without ticking.
-/

namespace SculkProtocol
namespace Pump

variable {Flag T : Type} {G : Guards Flag} {x₀ : T} {s s' : Shared Flag}

/-- All guards are up. -/
def Shared.Open (s : Shared Flag) : Prop := ∀ g, s.flags g = true

/-- A program point behind a refused submission. -/
def SchedPc.refused : SchedPc Flag → Bool
  | .uncount => true
  | .unflag => true
  | _ => false

/-- A thread behind a refused submission. -/
def Thread.refused : Thread Flag T → Bool
  | .job .uncountWakeup => true
  | .job (.sched p) => p.refused
  | .wakeup p => p.refused
  | _ => false

/-- A thread that found a guard down before its tick. -/
def Thread.givingUp : Thread Flag T → Bool
  | .job .giveUp => true
  | _ => false

/-- While the pool accepts, nothing is refused. -/
theorem sched_accepted (p : SchedPc Flag) (ha : s.accepting = true) (hp : p.refused = false) :
    ∀ q, (sched (T := T) G s p).2.1 = some q → q.refused = false := by
  intro q hq
  cases p with
  | guard g gs =>
    simp only [sched] at hq
    split at hq
    · cases gs <;> cases hq <;> rfl
    · cases hq
  | cas => simp only [sched] at hq; split at hq <;> cases hq; rfl
  | count => cases hq; rfl
  | submit => simp only [sched, ha, if_true] at hq; cases hq
  | uncount | unflag => exact absurd hp (by simp [SchedPc.refused])

/-- While the pool takes work, no thread gets behind a refused submission. -/
theorem exec_accepted {t : Thread Flag T} {ts : List (Thread Flag T)}
    (h : exec G x₀ s t = some (s', ts)) (ha : s.accepting = true) (ht : t.refused = false) :
    ∀ u ∈ ts, u.refused = false := by
  intro u hu
  cases t with
  | job pc =>
    cases pc with
    | guard g gs =>
      simp only [exec, execJob] at h
      split at h <;> cases h <;> cases gs <;> simp_all [Guards.then, Thread.refused]
    | tick x => exact absurd h (by simp [exec, execJob])
    | recheck g gs p =>
      simp only [exec, execJob] at h
      split at h <;> cases h <;> cases gs <;> cases p <;>
        simp_all [Guards.then, Thread.refused, SchedPc.refused, Guards.entry]
    | submitAfter =>
      simp only [exec, execJob, ha, if_true] at h
      cases h
      simp only [List.mem_cons, List.not_mem_nil, or_false] at hu
      rcases hu with rfl | rfl <;> rfl
    | sched p =>
      cases h
      rcases List.mem_cons.mp hu with rfl | hu
      · -- the call goes on, or has returned
        cases hr : (sched (T := T) G s p).2.1 with
        | none => rfl
        | some q => exact sched_accepted p ha ht q hr
      · rw [sched_submitted p u hu]; rfl
    | uncountWakeup => exact absurd ht (by simp [Thread.refused])
    | giveUp | clear p | countWakeup | finish => cases h; simp_all [Thread.refused]
  | wakeup p =>
    cases h
    rcases List.mem_cons.mp hu with rfl | hu
    · cases hr : (sched (T := T) G s p).2.1 with
      | none => rfl
      | some q => exact sched_accepted p ha ht q hr
    · rw [sched_submitted p u hu]; rfl
  | wakeupFinish | leaving => cases h; simp_all [Thread.refused]

/-- While all guards are up, no thread gives up. -/
theorem exec_open {t : Thread Flag T} {ts : List (Thread Flag T)}
    (h : exec G x₀ s t = some (s', ts)) (ho : s.Open) :
    ∀ u ∈ ts, u.givingUp = false := by
  intro u hu
  cases t with
  | job pc =>
    cases pc with
    | guard g gs =>
      -- the guard is up
      simp only [exec, execJob, ho g, if_true] at h
      cases h
      cases gs <;> simp_all [Guards.then, Thread.givingUp]
    | tick x => exact absurd h (by simp [exec, execJob])
    | recheck g gs p =>
      simp only [exec, execJob, ho g, if_true] at h
      cases h
      cases gs <;> cases p <;> simp_all [Guards.then, Thread.givingUp]
    | submitAfter =>
      simp only [exec, execJob] at h
      split at h <;> cases h <;> simp_all [Thread.givingUp]
      rcases hu with rfl | rfl <;> rfl
    | sched p =>
      cases h
      rcases List.mem_cons.mp hu with rfl | hu
      · cases (sched (T := T) G s p).2.1 <;> rfl
      · rw [sched_submitted p u hu]; rfl
    | giveUp | clear p | countWakeup | uncountWakeup | finish =>
      cases h; simp_all [Thread.givingUp]
  | wakeup p =>
    cases h
    rcases List.mem_cons.mp hu with rfl | hu
    · cases (sched (T := T) G s p).2.1 <;> rfl
    · rw [sched_submitted p u hu]; rfl
  | wakeupFinish | leaving => cases h; simp_all [Thread.givingUp]

/-- The holder of the flag is live, unless it gives up or was refused. -/
theorem holds_le_live {t : Thread Flag T} (hg : t.givingUp = false) (hr : t.refused = false) :
    t.holds ≤ t.live := by
  cases t with
  | job pc =>
    cases pc with
    | sched p => cases p <;> simp_all [Thread.holds, Thread.live, SchedPc.holds, SchedPc.live,
        Thread.refused, SchedPc.refused]
    | giveUp => exact absurd hg (by simp [Thread.givingUp])
    | _ => simp [Thread.holds, Thread.live]
  | wakeup p => cases p <;> simp_all [Thread.holds, Thread.live, SchedPc.holds, SchedPc.live,
      Thread.refused, SchedPc.refused]
  | wakeupFinish | leaving => simp [Thread.holds]

/-- The scheduling function, called while all guards are up and the pool takes work,
submits a job or loses the compare-and-swap. -/
theorem sched_live_open (p : SchedPc Flag) (ho : s.Open) (ha : s.accepting = true) :
    let r := sched (T := T) G s p
    p.live ≤ next SchedPc.live r.2.1 + Config.total Thread.live r.2.2 ∨
      s.scheduled = true ∧ p.holds = 0 ∧ r.1 = s := by
  cases p with
  | guard g gs =>
    left
    simp only [sched, ho g, if_true]
    cases gs <;> simp [Guards.then, SchedPc.live]
  | cas =>
    simp only [sched]
    split
    · -- the loser leaves the chain to whoever has set the flag
      next hs => right; exact ⟨hs, rfl, rfl⟩
    · left; simp [SchedPc.live]
  | count => left; simp [sched, SchedPc.live]
  | submit => left; simp [sched, ha, SchedPc.live]
  | uncount => left; simp [SchedPc.live]
  | unflag => left; simp [SchedPc.live]

/-- **A chain does not end** while all guards are up and the pool takes work: its
successors are live, or another thread holds the flag. -/
theorem exec_live_open {t : Thread Flag T} {ts : List (Thread Flag T)}
    (h : exec G x₀ s t = some (s', ts)) (ho : s.Open) (ha : s.accepting = true) :
    t.live ≤ Config.total Thread.live ts ∨ s.scheduled = true ∧ t.holds = 0 ∧ s' = s := by
  cases t with
  | job pc =>
    cases pc with
    | guard g gs =>
      left
      simp only [exec, execJob, ho g, if_true] at h
      cases h
      cases gs <;> simp [Guards.then, Thread.live]
    | tick x => exact absurd h (by simp [exec, execJob])
    | recheck g gs p =>
      left
      simp only [exec, execJob, ho g, if_true] at h
      cases h
      cases gs <;> cases p <;> simp [Guards.then, Thread.live, SchedPc.live, Guards.entry]
    | submitAfter =>
      left
      simp only [exec, execJob, ha, if_true] at h
      cases h
      simp [Thread.live]
    | sched p =>
      cases h
      -- the job is submitted, or another thread holds the flag
      rcases sched_live_open (G := G) (T := T) p ho ha with hp | ⟨hs, hh, he⟩
      · left; rw [Config.total_cons, job_return_live]; exact hp
      · exact Or.inr ⟨hs, hh, he⟩
    | giveUp | clear p | countWakeup | uncountWakeup | finish => left; cases h; simp [Thread.live]
  | wakeup p =>
    cases h
    rcases sched_live_open (G := G) (T := T) p ho ha with hp | ⟨hs, hh, he⟩
    · left; rw [Config.total_cons, wakeup_return_live]; exact hp
    · exact Or.inr ⟨hs, hh, he⟩
  | wakeupFinish | leaving => left; simp [Thread.live]

/-! ### How long until the next tick -/

/-- The rank of a freshly submitted job. -/
def Guards.jobRank (G : Guards Flag) : ℕ := G.rest.length + 4

/-- How many steps a caller of the scheduling function, and the job it submits, take
at most. -/
def SchedPc.rank (G : Guards Flag) : SchedPc Flag → ℕ
  | .guard _ gs => G.jobRank + 6 + gs.length
  | .cas => G.jobRank + 5
  | .count => G.jobRank + 4
  | .submit => G.jobRank + 3
  | .uncount => 4
  | .unflag => 3

/-- How many steps a thread and its successors take at most before the next tick. -/
def Thread.rank (G : Guards Flag) : Thread Flag T → ℕ
  | .job (.guard _ gs) => gs.length + 4
  | .job .giveUp => 3
  | .job (.tick _) => 0
  | .job (.clear _) => G.entry.rank G + 6 + G.rest.length
  | .job (.recheck _ gs _) => G.entry.rank G + 5 + gs.length
  | .job .countWakeup => G.entry.rank G + 4
  | .job .submitAfter => G.entry.rank G + 3
  | .job .uncountWakeup => 3
  | .job (.sched p) => p.rank G
  | .job .finish => 2
  | .wakeup p => p.rank G
  | .wakeupFinish => 2
  | .leaving => 1

/-- The rank of a call that continues at `o`, in a thread that ends on return. -/
def nextRank (G : Guards Flag) (o : Option (SchedPc Flag)) : ℕ := o.elim 2 (SchedPc.rank G)

@[simp] theorem job_rank : (G.job : Thread Flag T).rank G = G.jobRank := rfl

@[simp] theorem job_return_rank (o : Option (SchedPc Flag)) :
    (Thread.job (o.elim .finish .sched) : Thread Flag T).rank G = nextRank G o := by
  cases o <;> rfl

@[simp] theorem wakeup_return_rank (o : Option (SchedPc Flag)) :
    (o.elim .wakeupFinish .wakeup : Thread Flag T).rank G = nextRank G o := by
  cases o <;> rfl

/-- Scheduling comes closer to the end of a job. -/
theorem sched_rank (p : SchedPc Flag) :
    let r := sched (T := T) G s p
    nextRank G r.2.1 + Config.total (Thread.rank G) r.2.2 < p.rank G := by
  cases p with
  | guard g gs =>
    simp only [sched]
    split <;> cases gs <;> simp [Guards.then, SchedPc.rank, nextRank, Guards.jobRank]
    omega
  | cas => simp only [sched]; split <;> simp [SchedPc.rank, nextRank, Guards.jobRank]
  | count => simp [sched, SchedPc.rank, nextRank]
  | submit =>
    simp only [sched]
    split
    · simp [SchedPc.rank, nextRank]; omega
    · simp [SchedPc.rank, nextRank, Guards.jobRank]
  | uncount => simp [sched, SchedPc.rank, nextRank]
  | unflag => simp [sched, SchedPc.rank, nextRank]

/-- Every step outside a tick lowers the rank. -/
theorem exec_rank {t : Thread Flag T} {ts : List (Thread Flag T)}
    (h : exec G x₀ s t = some (s', ts)) : Config.total (Thread.rank G) ts < t.rank G := by
  cases t with
  | job pc =>
    cases pc with
    | guard g gs =>
      simp only [exec, execJob] at h
      split at h <;> cases h <;> cases gs <;> simp [Guards.then, Thread.rank]
    | tick x => exact absurd h (by simp [exec, execJob])
    -- checking a guard again comes before arranging a successor, and has the higher rank
    | recheck g gs p =>
      simp only [exec, execJob] at h
      split at h <;> cases h <;> cases gs <;> cases p <;> simp [Guards.then, Thread.rank] <;> omega
    -- the registration ranks above the wakeup and what is left of the job together
    | submitAfter =>
      simp only [exec, execJob] at h
      split at h <;> cases h
      · simp [Thread.rank]
      · have hpos : 0 < G.entry.rank G := by simp only [Guards.entry, SchedPc.rank]; omega
        simp only [Thread.rank, Config.total_cons, Config.total_nil]
        omega
    | sched p =>
      cases h
      rw [Config.total_cons, job_return_rank]
      exact sched_rank p
    | giveUp | clear p | countWakeup | uncountWakeup | finish => cases h; simp [Thread.rank]
  | wakeup p =>
    cases h
    rw [Config.total_cons, wakeup_return_rank]
    exact sched_rank p
  | wakeupFinish | leaving => cases h; simp [Thread.rank]

/-- A thread outside a tick can always take its next step. -/
theorem exec_enabled (t : Thread Flag T) (ht : t.ticking = 0) :
    ∃ r, exec G x₀ s t = some r := by
  cases t with
  | job pc =>
    cases pc with
    | tick x => exact absurd ht (by simp [Thread.ticking])
    | guard g gs => simp only [exec, execJob]; split <;> exact ⟨_, rfl⟩
    | recheck g gs p => simp only [exec, execJob]; split <;> exact ⟨_, rfl⟩
    | submitAfter => simp only [exec, execJob]; split <;> exact ⟨_, rfl⟩
    | giveUp | clear p | countWakeup | uncountWakeup | sched p | finish => exact ⟨_, rfl⟩
  | wakeup p => exact ⟨_, rfl⟩
  | wakeupFinish | leaving => exact ⟨_, rfl⟩

end Pump
end SculkProtocol
