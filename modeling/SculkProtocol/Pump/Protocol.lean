import SculkProtocol.Systems.Interleaving

/-!
# The re-arming pump

A *pump* is a background activity that runs as a chain of jobs on a thread pool.
Each job does one tick and then starts its successor: at once when the tick made
progress, otherwise through a delayed wakeup. The protocol is made of

* guard flags, read one after the other before anything is scheduled or run;
* a `scheduled` flag, taken by compare-and-swap before a job is submitted and
  given back by the job, either when it finds a guard down or right after its
  tick, so before the successor is arranged;
* two counters, of jobs and of wakeups that were registered and have not
  finished, which an owner waits on before it tears anything down. The closure
  that gives its own count back goes on to notify the waiters, so it is still
  running after the decrement (`Thread.leaving`).

The scheduling function is called from jobs, from wakeups and from outside, so
its program points (`SchedPc`) and its steps (`sched`) are separate and shared by
all callers. `exec` is one step of a pool thread. The tick itself is left to the
instance: its program points are the parameter `T`, and `exec` has no step
there.

`Pump.Accounting` proves what the counters and the flag count.
-/

namespace SculkProtocol
namespace Pump

/-- The guard flags in the order in which they are read; there is at least one. -/
structure Guards (Flag : Type) where
  first : Flag
  rest : List Flag

/-- What the threads of a pump share. -/
structure Shared (Flag : Type) where
  flags : Flag → Bool
  /-- Held from the compare-and-swap until the job gives it back. -/
  scheduled : Bool
  pendingJobs : ℕ
  pendingWakeups : ℕ
  /-- Whether the pool still takes work. -/
  accepting : Bool

/-- Program points of the scheduling function. -/
inductive SchedPc (Flag : Type)
  /-- about to read `g`, then the flags `gs` -/
  | guard (g : Flag) (gs : List Flag)
  | cas
  /-- about to count the job -/
  | count
  | submit
  /-- the pool refused: about to uncount the job -/
  | uncount
  /-- the pool refused: about to give the flag back -/
  | unflag
  deriving DecidableEq

/-- Program points of a job, from its submission to the step that uncounts it. -/
inductive JobPc (Flag T : Type)
  | guard (g : Flag) (gs : List Flag)
  /-- found a guard down: about to give the flag back and return -/
  | giveUp
  | tick (x : T)
  /-- the tick is over: about to give the flag back -/
  | clear (progressed : Bool)
  /-- about to read `g`, then `gs`, a second time -/
  | recheck (g : Flag) (gs : List Flag) (progressed : Bool)
  /-- no progress: about to count a delayed wakeup -/
  | countWakeup
  | submitAfter
  /-- the pool refused: about to uncount the wakeup -/
  | uncountWakeup
  | sched (p : SchedPc Flag)
  /-- the job is done: about to uncount itself -/
  | finish
  deriving DecidableEq

/-- A thread of the pool. -/
inductive Thread (Flag T : Type)
  | job (pc : JobPc Flag T)
  /-- a delayed wakeup, waiting or inside the scheduling function -/
  | wakeup (p : SchedPc Flag)
  /-- the wakeup is done: about to uncount itself -/
  | wakeupFinish
  /-- a job or a wakeup that has uncounted itself: about to notify and return -/
  | leaving
  deriving DecidableEq

variable {Flag T : Type}

/-- Continue with the next guard, or with `pass` after the last one. -/
def Guards.then {α : Type} (pass : α) (mk : Flag → List Flag → α) : List Flag → α
  | [] => pass
  | g :: gs => mk g gs

/-- A freshly submitted job. -/
def Guards.job (G : Guards Flag) : Thread Flag T := .job (.guard G.first G.rest)

/-- Entry of the scheduling function. -/
def Guards.entry (G : Guards Flag) : SchedPc Flag := .guard G.first G.rest

/-- One step of the scheduling function: the new shared state, the next program
point (`none` on return) and the job submitted, if any. -/
def sched (G : Guards Flag) (s : Shared Flag) :
    SchedPc Flag → Shared Flag × Option (SchedPc Flag) × List (Thread Flag T)
  | .guard g gs =>
    if s.flags g then (s, some (Guards.then .cas .guard gs), []) else (s, none, [])
  | .cas =>
    if s.scheduled then (s, none, []) else ({ s with scheduled := true }, some .count, [])
  | .count => ({ s with pendingJobs := s.pendingJobs + 1 }, some .submit, [])
  | .submit => if s.accepting then (s, none, [G.job]) else (s, some .uncount, [])
  | .uncount => ({ s with pendingJobs := s.pendingJobs - 1 }, some .unflag, [])
  | .unflag => ({ s with scheduled := false }, none, [])

/-- One step of a job; `x₀` is where a tick starts. -/
def execJob (G : Guards Flag) (x₀ : T) (s : Shared Flag) :
    JobPc Flag T → Option (Shared Flag × List (Thread Flag T))
  -- a job that finds a flag down gives up before its tick
  | .guard g gs =>
    if s.flags g then some (s, [.job (Guards.then (.tick x₀) .guard gs)])
    else some (s, [.job .giveUp])
  | .giveUp => some ({ s with scheduled := false }, [.job .finish])
  | .tick _ => none
  | .clear p => some ({ s with scheduled := false }, [.job (.recheck G.first G.rest p)])
  -- after the tick the flags are asked again; then the next job, at once or by a wakeup
  | .recheck g gs p =>
    if s.flags g then
      let pass := if p then .sched G.entry else .countWakeup
      some (s, [.job (Guards.then pass (fun g' gs' => .recheck g' gs' p) gs)])
    else some (s, [.job .finish])
  | .countWakeup =>
    some ({ s with pendingWakeups := s.pendingWakeups + 1 }, [.job .submitAfter])
  -- the pool has refused the wakeup, which is not counted any more
  | .submitAfter =>
    if s.accepting then some (s, [.wakeup G.entry, .job .finish])
    else some (s, [.job .uncountWakeup])
  | .uncountWakeup =>
    some ({ s with pendingWakeups := s.pendingWakeups - 1 }, [.job .finish])
  -- the call goes on in the scheduling, or the job ends
  | .sched p =>
    let r := sched G s p
    some (r.1, .job (r.2.1.elim .finish .sched) :: r.2.2)
  | .finish => some ({ s with pendingJobs := s.pendingJobs - 1 }, [.leaving])

/-- One step of a pool thread outside a tick. -/
def exec (G : Guards Flag) (x₀ : T) (s : Shared Flag) :
    Thread Flag T → Option (Shared Flag × List (Thread Flag T))
  | .job pc => execJob G x₀ s pc
  | .wakeup p =>
    let r := sched G s p
    some (r.1, r.2.1.elim .wakeupFinish .wakeup :: r.2.2)
  | .wakeupFinish => some ({ s with pendingWakeups := s.pendingWakeups - 1 }, [.leaving])
  | .leaving => some (s, [])

/-! ### What the threads account for -/

/-- The job a caller of the scheduling function has counted but not submitted. -/
def SchedPc.jobs : SchedPc Flag → ℕ
  | .submit => 1
  | .uncount => 1
  | _ => 0

/-- Whether a caller of the scheduling function holds the flag. -/
def SchedPc.holds : SchedPc Flag → ℕ
  | .guard _ _ => 0
  | .cas => 0
  | _ => 1

/-- Whether a caller of the scheduling function may still submit a job. -/
def SchedPc.live : SchedPc Flag → ℕ
  | .uncount => 0
  | .unflag => 0
  | _ => 1

/-- The jobs a thread accounts for in `pendingJobs`. -/
def Thread.jobs : Thread Flag T → ℕ
  | .job (.sched p) => 1 + p.jobs
  | .job _ => 1
  | .wakeup p => p.jobs
  | .wakeupFinish => 0
  | .leaving => 0

/-- The wakeups a thread accounts for in `pendingWakeups`. -/
def Thread.wakeups : Thread Flag T → ℕ
  | .job .submitAfter => 1
  | .job .uncountWakeup => 1
  | .job _ => 0
  | .wakeup _ => 1
  | .wakeupFinish => 1
  | .leaving => 0

/-- Whether a thread holds the `scheduled` flag. -/
def Thread.holds : Thread Flag T → ℕ
  | .job (.guard _ _) => 1
  | .job .giveUp => 1
  | .job (.tick _) => 1
  | .job (.clear _) => 1
  | .job (.sched p) => p.holds
  | .wakeup p => p.holds
  | _ => 0

/-- Whether a thread belongs to a chain of ticks that has not ended: it will tick
or start a successor, unless it finds a guard down, loses the compare-and-swap or
is refused by the pool. A job and the successor it is arranging count once, since
the job stops being live in the step that creates the successor. -/
def Thread.live : Thread Flag T → ℕ
  | .job .giveUp => 0
  | .job .uncountWakeup => 0
  | .job (.sched p) => p.live
  | .job .finish => 0
  | .job _ => 1
  | .wakeup p => p.live
  | .wakeupFinish => 0
  | .leaving => 0

/-- Whether a thread is inside a tick. -/
def Thread.ticking : Thread Flag T → ℕ
  | .job (.tick _) => 1
  | _ => 0

/-- The weight of the program point a call continues at. -/
def next (w : SchedPc Flag → ℕ) (o : Option (SchedPc Flag)) : ℕ := o.elim 0 w

@[simp] theorem next_none (w : SchedPc Flag → ℕ) : next w none = 0 := rfl

@[simp] theorem next_some (w : SchedPc Flag → ℕ) (p : SchedPc Flag) : next w (some p) = w p := rfl

theorem ticking_le_holds (t : Thread Flag T) : t.ticking ≤ t.holds := by
  cases t with
  | job pc => cases pc <;> simp [Thread.ticking, Thread.holds]
  | wakeup p | wakeupFinish | leaving => simp [Thread.ticking]

end Pump
end SculkProtocol
