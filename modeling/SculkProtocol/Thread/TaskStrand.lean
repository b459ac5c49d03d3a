import SculkProtocol.Systems.Scripts

/-!
# `TaskStrand`

Tasks that are executed one after the other on a thread pool. `enqueue` counts the task,
puts it into the queue and, unless a drain is scheduled already (`mDrainScheduled`),
submits a job to the pool that drains the queue. When the pool refuses the job, the
enqueuer drains the queue itself.

A thread is a stack of program points (`Op`): a task that runs inside a drain may
enqueue on its own strand, and its call stands on top of the drain. The head is the next
access to shared state.

The queue is a linearizable bag, FIFO for the tasks of one producing thread: a dequeue
takes any task that is the first of its producer, and fails only if there is none.
`ThreadPool::submit` is modelled up to the counter of submissions in flight, which only
`ThreadPool::stop` reads, and the choice of a worker; a submitted job is a thread that
may run at any time, also after the pool was stopped, as its workers empty their queues.

The history of the tasks (`State.log`) is recorded for the statements; no step reads it.
-/

namespace SculkProtocol
namespace TaskStrand

/-- What has happened to a task. -/
inductive LogEntry
  /-- `enqueue` has returned true -/
  | accepted (x : ℕ)
  /-- `enqueue` has returned false -/
  | refused (x : ℕ)
  /-- the task was taken from the queue and is executed -/
  | begun (x : ℕ)
  /-- the task was executed, and is no longer counted -/
  | finished (x : ℕ)
  deriving DecidableEq

/-- The state of a strand, with that of its thread pool. -/
structure State where
  /-- the queued tasks with the threads that enqueued them -/
  mTasks : List (ℕ × ℕ)
  mMaxPendingTasks : UInt32
  mPendingTasks : UInt32
  mDrainScheduled : Bool
  /-- `mBackpressurePolicy` is not null -/
  mBackpressurePolicy : Bool
  /-- `ThreadPool::mAcceptingSubmissions` -/
  mAcceptingSubmissions : Bool
  /-- the tasks are numbered in the order of their `enqueue` calls -/
  next : ℕ
  /-- latest first -/
  log : List LogEntry

/-- The program points of `enqueue`, `scheduleDrain`, `ThreadPool::submit` and `drain`. -/
inductive Op
  /-- `enqueue`: the task is wrapped, and `mPendingTasks.fetch_add(1)` -/
  | enqueue
  /-- `mMaxPendingTasks.load()`, and the comparison with the own count -/
  | compareMax (x : ℕ) (pending : UInt32)
  /-- `mBackpressurePolicy.load()`; a policy may sleep, and the call goes on -/
  | loadPolicy (x : ℕ)
  /-- `mTasks.enqueue` -/
  | insert (x : ℕ)
  /-- `mPendingTasks.fetch_sub(1)`, and `return false` -/
  | uncount (x : ℕ)
  /-- `return true` -/
  | returnTrue (x : ℕ)
  /-- `scheduleDrain`: `mDrainScheduled.exchange(true)` -/
  | scheduleDrain (x : ℕ)
  /-- `submit`: `mAcceptingSubmissions.load()` -/
  | loadAccepting
  /-- `submit`: the second `mAcceptingSubmissions.load()` -/
  | recheckAccepting
  /-- `submit`: the job is put into a worker's queue -/
  | submitJob
  /-- `scheduleDrain` after a refusal: `mDrainScheduled.store(false)` -/
  | unscheduleDrain
  /-- `drain`: `mTasks.try_dequeue(task)` -/
  | tryDequeue
  /-- `drain`: `task()` -/
  | run (x : ℕ)
  /-- `drain`: `mPendingTasks.fetch_sub(1)` -/
  | finishTask (x : ℕ)
  /-- `drain`: `mDrainScheduled.store(false)` -/
  | clearDrainScheduled
  /-- `drain`: `mTasks.size_approx() == 0` -/
  | checkSize
  /-- `drain`: `mDrainScheduled.exchange(true)` -/
  | resumeDrain
  deriving DecidableEq

/-- A thread, tagged with its identity as a producer of tasks. -/
abbrev Thread := Script ℕ Op

/-- What a step may depend on besides the state. -/
structure Choice where
  /-- the task is not empty, the queue or the pool had the memory -/
  ok : Bool := true
  /-- the running task enqueues another one on its own strand -/
  again : Bool := false
  /-- the position of the task a dequeue takes -/
  position : ℕ := 0
  /-- the worker a job is given to -/
  worker : ℕ := 0
  deriving DecidableEq

/-- What arrives from outside. -/
inductive Call
  /-- a thread calls `enqueue` -/
  | enqueue (producer : ℕ)
  | setMaxPendingTasks (maxPendingTasks : UInt32)
  | setBackpressurePolicy (policy : Bool)
  /-- `ThreadPool::stop` -/
  | stop
  deriving DecidableEq

/-- Take the task at position `i`, if no earlier one has the same producer. -/
def dequeue (q : List (ℕ × ℕ)) (i : ℕ) : Option (ℕ × List (ℕ × ℕ)) :=
  match q[i]? with
  | some (producer, x) =>
    if ∀ e ∈ q.take i, e.1 ≠ producer then some (x, q.eraseIdx i) else none
  | none => none

def State.record (s : State) (e : LogEntry) : State := { s with log := e :: s.log }

/-- The next step of a thread: the new state, the program points that take the place of
this one, and the job it submits. -/
def execOp (s : State) (producer : ℕ) (ch : Choice) :
    Op → Option (State × List Op × List Thread)
  | .enqueue =>
    if ch.ok then
      some ({ s with mPendingTasks := s.mPendingTasks + 1, next := s.next + 1 },
        [.compareMax s.next (s.mPendingTasks + 1)], [])
    else some ({ s with next := s.next + 1, log := .refused s.next :: s.log }, [], [])
  -- the count is the one that `fetch_add` has returned, increased by one
  | .compareMax x pending =>
    some (s, if pending > s.mMaxPendingTasks then [.loadPolicy x] else [.insert x], [])
  | .loadPolicy x => some (s, if s.mBackpressurePolicy then [.insert x] else [.uncount x], [])
  | .insert x =>
    if ch.ok then
      some ({ s with mTasks := s.mTasks ++ [(producer, x)] }, [.scheduleDrain x], [])
    else some (s, [.uncount x], [])
  | .uncount x =>
    some ({ s with mPendingTasks := s.mPendingTasks - 1, log := .refused x :: s.log }, [], [])
  | .returnTrue x => some (s.record (.accepted x), [], [])
  -- the flag that was set belongs to a drain that is under way
  | .scheduleDrain x =>
    some ({ s with mDrainScheduled := true },
      if s.mDrainScheduled then [.returnTrue x] else [.loadAccepting, .returnTrue x], [])
  | .loadAccepting =>
    some (s, if s.mAcceptingSubmissions then [.recheckAccepting] else [.unscheduleDrain], [])
  | .recheckAccepting =>
    some (s, if s.mAcceptingSubmissions then [.submitJob] else [.unscheduleDrain], [])
  -- the pool may refuse the job though it takes submissions
  | .submitJob =>
    if ch.ok then some (s, [], [⟨ch.worker, [.tryDequeue]⟩]) else some (s, [.unscheduleDrain], [])
  -- the drain is run in place
  | .unscheduleDrain => some ({ s with mDrainScheduled := false }, [.tryDequeue], [])
  -- the oldest task of some producer
  | .tryDequeue =>
    if s.mTasks = [] then some (s, [.clearDrainScheduled], [])
    else (dequeue s.mTasks ch.position).map fun r =>
      ({ s with mTasks := r.2, log := .begun r.1 :: s.log }, [.run r.1], [])
  -- a task may enqueue others
  | .run x => some (s, if ch.again then [.enqueue, .run x] else [.finishTask x], [])
  | .finishTask x =>
    some ({ s with mPendingTasks := s.mPendingTasks - 1, log := .finished x :: s.log },
      [.tryDequeue], [])
  | .clearDrainScheduled => some ({ s with mDrainScheduled := false }, [.checkSize], [])
  -- a task that came between the empty queue and the cleared flag is not left behind
  | .checkSize => some (s, if s.mTasks = [] then [] else [.resumeDrain], [])
  | .resumeDrain =>
    some ({ s with mDrainScheduled := true }, if s.mDrainScheduled then [] else [.tryDequeue], [])

/-- Calls that arrive. -/
def arrive (s : State) : Call → Option (State × List Thread)
  | .enqueue producer => some (s, [⟨producer, [.enqueue]⟩])
  | .setMaxPendingTasks n => some ({ s with mMaxPendingTasks := n }, [])
  | .setBackpressurePolicy policy => some ({ s with mBackpressurePolicy := policy }, [])
  | .stop => some ({ s with mAcceptingSubmissions := false }, [])

/-- A new strand on a running pool, without a policy. -/
def State.initial (maxPendingTasks : UInt32) : State where
  mTasks := []
  mMaxPendingTasks := maxPendingTasks
  mPendingTasks := 0
  mDrainScheduled := false
  mBackpressurePolicy := false
  mAcceptingSubmissions := true
  next := 0
  log := []

/-- The threads around a strand. -/
def scripts : Scripts State ℕ Op Choice Call :=
  ⟨fun s producer ch op => execOp s producer ch op, fun s _ => s, fun s _ a => arrive s a⟩

/-- The threads around a strand over its state. -/
abbrev Pool := Scripts.Pool State ℕ Op

abbrev PoolStep := Scripts.PoolStep State ℕ Op Choice Call

/-- The transition system of one strand, in any interleaving. -/
def system (maxPendingTasks : UInt32) : System Pool (Move (Event Choice Call)) :=
  scripts.program.system ⟨State.initial maxPendingTasks, []⟩

end TaskStrand
end SculkProtocol
