import Mathlib.Logic.Function.Basic
import SculkProtocol.Systems.ConcurrentQueue
import SculkProtocol.Systems.Scripts

/-!
# `ThreadPool`

Worker threads that execute submitted tasks. `submit` puts a task into the queue of one
worker, `submitAfter` into its heap of delayed tasks; both first look at
`mAcceptingSubmissions`, count themselves in `mInFlightSubmissions`, and look again.
`stop` clears the flag, waits until no submission is in flight, sets `mStopping` and
wakes the workers. A worker that finds `mStopping` set empties its queue and its heap,
delayed tasks that are not due included, and returns.

A thread is a stack of program points (`Op`), the head being the next access to shared
state; atomic accesses interleave. A task is code of the user: it may make calls of its
own (`Choice.call`) any number of times before it returns, and these stand on top of the
worker's loop. Several calls of `stop` may be made.

The queues are linearizable, FIFO per producer, and may have no memory for an element.
The heap is the list of its entries in the order in which they are popped. The clock is
whatever a step reads. Counters are natural numbers: `mInFlightSubmissions` counts
threads. A `wait` for a counter can be left in the states in which it is zero.

The history of the tasks (`State.log`) is recorded for the statements; no step reads it.
-/

namespace SculkProtocol
namespace ThreadPool

/-- A call of `submit`, or of `submitAfter` with its delay. -/
structure Submission where
  task : ℕ
  delay : Option ℤ
  deriving DecidableEq

/-- What has happened to a task or a worker of a pool of `n`. -/
inductive LogEntry (n : ℕ)
  /-- the submission of `x` to worker `w` has returned true -/
  | accepted (w : Fin n) (x : ℕ)
  /-- the submission of `x` has returned false -/
  | refused (x : ℕ)
  /-- worker `w` calls `x` -/
  | begun (w : Fin n) (x : ℕ)
  /-- the call of `x` has returned -/
  | finished (w : Fin n) (x : ℕ)
  /-- `workerLoop` of `w` has returned -/
  | returned (w : Fin n)
  deriving DecidableEq

structure DelayedEntry where
  mDue : ℤ
  mSeq : ℕ
  mTask : ℕ
  deriving DecidableEq

structure WorkerState where
  /-- the queued tasks with the threads that submitted them -/
  mTasks : List (ℕ × ℕ)
  mSignal : ℕ
  mDelayedTasks : List DelayedEntry
  mDelayedSeq : ℕ
  /-- of the worker's `std::stop_token` -/
  stopRequested : Bool

/-- The state of a pool of `n` workers. -/
structure State (n : ℕ) where
  mNextWorker : ℕ
  mAcceptingSubmissions : Bool
  mInFlightSubmissions : ℕ
  mStopping : Bool
  mWorkerStates : Fin n → WorkerState
  /-- the tasks are numbered in the order of their submissions -/
  next : ℕ
  /-- latest first -/
  log : List (LogEntry n)

/-- The four loops of `workerLoop` that take tasks. -/
inductive Phase
  /-- the tasks of the queue -/
  | tasks
  /-- the delayed tasks that are due -/
  | due
  /-- after `mStopping`: the tasks of the queue -/
  | lastTasks
  /-- after `mStopping`: all delayed tasks -/
  | lastDelayed
  deriving DecidableEq

/-- The program points of `submit`, `submitAfter`, `stop` and `workerLoop`. -/
inductive Op (n : ℕ)
  /-- `submit`: the first `mAcceptingSubmissions.load()` -/
  | loadAccepting (r : Submission)
  /-- `submit`: `mInFlightSubmissions.fetch_add(1)` -/
  | addInFlight (r : Submission)
  /-- `submit`: the second `mAcceptingSubmissions.load()`, and the number of workers -/
  | recheckAccepting (r : Submission)
  /-- `submit`: `mInFlightSubmissions.fetch_sub(1)`, and `return false` -/
  | leave (r : Submission)
  /-- `submit`: `mNextWorker.fetch_add(1)` -/
  | chooseWorker (r : Submission)
  /-- `submit`: `mTasks.enqueue`; `submitAfter`: the locked block -/
  | insert (w : Fin n) (r : Submission)
  /-- `submit`: `mInFlightSubmissions.fetch_sub(1)` after the insertion -/
  | subInFlight (w : Fin n) (r : Submission) (enqueued : Bool)
  /-- `submit`: `mSignal.release()`, and `return true` -/
  | releaseSignal (w : Fin n) (r : Submission)
  /-- `stop`: `mAcceptingSubmissions.exchange(false)` -/
  | exchangeAccepting
  /-- `stop`: the loop over `mInFlightSubmissions.wait` -/
  | waitInFlight
  /-- `stop`: `mStopping.exchange(true)` -/
  | exchangeStopping
  /-- `stop`: `state->mSignal.release()` -/
  | wake (w : Fin n)
  /-- `stop`: `worker.request_stop()` -/
  | requestStop (w : Fin n)
  /-- `workerLoop`: take a task in one of the loops -/
  | take (w : Fin n) (phase : Phase)
  /-- `workerLoop`: `task()` -/
  | run (w : Fin n) (x : ℕ) (phase : Phase)
  /-- `workerLoop`: `mStopping.load()` -/
  | loadStopping (w : Fin n)
  /-- `workerLoop`: `stopToken.stop_requested()` -/
  | loadStopRequested (w : Fin n)
  /-- `workerLoop`: the locked block that computes `waitFor` -/
  | computeWait (w : Fin n)
  /-- `workerLoop`: `mSignal.acquire()` -/
  | acquire (w : Fin n)
  /-- `workerLoop`: `mSignal.try_acquire_for(waitFor)` -/
  | tryAcquireFor (w : Fin n)
  deriving DecidableEq

/-- The calls of a pool. -/
inductive Call
  | submit
  | submitAfter (delay : ℤ)
  | stop
  deriving DecidableEq

/-- A thread, tagged with its identity as a producer of tasks. -/
abbrev Thread (n : ℕ) := Script ℕ (Op n)

/-- What a step may depend on besides the state. -/
structure Choice where
  /-- the queue had the memory, the signal came in time -/
  ok : Bool := true
  now : ℤ := 0
  /-- the position of the task a dequeue takes -/
  position : ℕ := 0
  /-- a call that the running task makes -/
  call : Option Call := none
  deriving DecidableEq

variable {n : ℕ}

def State.record (s : State n) (e : LogEntry n) : State n := { s with log := e :: s.log }

def State.setWorker (s : State n) (w : Fin n) (ws : WorkerState) : State n :=
  { s with mWorkerStates := Function.update s.mWorkerStates w ws }

section StateLemmas

variable (s : State n) (e : LogEntry n) (w : Fin n) (ws : WorkerState)

@[simp] theorem record_mAcceptingSubmissions :
    (s.record e).mAcceptingSubmissions = s.mAcceptingSubmissions := rfl

@[simp] theorem record_mInFlightSubmissions :
    (s.record e).mInFlightSubmissions = s.mInFlightSubmissions := rfl

@[simp] theorem record_mStopping : (s.record e).mStopping = s.mStopping := rfl

@[simp] theorem record_mWorkerStates : (s.record e).mWorkerStates = s.mWorkerStates := rfl

@[simp] theorem record_next : (s.record e).next = s.next := rfl

@[simp] theorem record_log : (s.record e).log = e :: s.log := rfl

@[simp] theorem setWorker_mAcceptingSubmissions :
    (s.setWorker w ws).mAcceptingSubmissions = s.mAcceptingSubmissions := rfl

@[simp] theorem setWorker_mInFlightSubmissions :
    (s.setWorker w ws).mInFlightSubmissions = s.mInFlightSubmissions := rfl

@[simp] theorem setWorker_mStopping : (s.setWorker w ws).mStopping = s.mStopping := rfl

@[simp] theorem setWorker_mWorkerStates :
    (s.setWorker w ws).mWorkerStates = Function.update s.mWorkerStates w ws := rfl

@[simp] theorem setWorker_next : (s.setWorker w ws).next = s.next := rfl

@[simp] theorem setWorker_log : (s.setWorker w ws).log = s.log := rfl

end StateLemmas

/-! ### Workers -/

/-- `push_heap`: the earlier `mDue` is popped first, then the lower `mSeq`. -/
def pushDelayed (e : DelayedEntry) : List DelayedEntry → List DelayedEntry
  | [] => [e]
  | e' :: es =>
    if e.mDue < e'.mDue ∨ (e.mDue = e'.mDue ∧ e.mSeq < e'.mSeq) then e :: e' :: es
    else e' :: pushDelayed e es

/-- Put a submitted task where it belongs. -/
def WorkerState.insert (ws : WorkerState) (producer : ℕ) (now : ℤ) (r : Submission) : WorkerState :=
  match r.delay with
  | none => { ws with mTasks := ws.mTasks ++ [(producer, r.task)] }
  | some delay =>
    { ws with
      mDelayedTasks := pushDelayed ⟨now + delay, ws.mDelayedSeq, r.task⟩ ws.mDelayedTasks
      mDelayedSeq := ws.mDelayedSeq + 1 }

/-- Take a task, if there is one: `none` says that the dequeue does not take the chosen one. -/
def WorkerState.tryTake (ws : WorkerState) (ch : Choice) : Phase → Option (Option (ℕ × WorkerState))
  | .tasks | .lastTasks =>
    if ws.mTasks = [] then some none
    else (ConcurrentQueue.tryDequeue ws.mTasks ch.position).map fun r =>
      some (r.1, { ws with mTasks := r.2 })
  | .due =>
    match ws.mDelayedTasks with
    | [] => some none
    | e :: es =>
      if e.mDue ≤ ch.now then some (some (e.mTask, { ws with mDelayedTasks := es })) else some none
  | .lastDelayed =>
    match ws.mDelayedTasks with
    | [] => some none
    | e :: es => some (some (e.mTask, { ws with mDelayedTasks := es }))

/-- What follows a loop that finds no more tasks. -/
def Phase.next (w : Fin n) : Phase → List (Op n)
  | .tasks => [.take w .due]
  | .due => [.loadStopping w]
  | .lastTasks => [.take w .lastDelayed]
  | .lastDelayed => []

/-- The return of `workerLoop`, after its last loop. -/
def Phase.leave (s : State n) (w : Fin n) : Phase → State n
  | .lastDelayed => s.record (.returned w)
  | _ => s

/-! ### Steps -/

/-- What a call starts with. -/
def Call.enter (s : State n) : Call → State n × List (Op n)
  | .submit => ({ s with next := s.next + 1 }, [.loadAccepting ⟨s.next, none⟩])
  | .submitAfter delay => ({ s with next := s.next + 1 }, [.loadAccepting ⟨s.next, some delay⟩])
  | .stop => (s, [.exchangeAccepting])

/-- The next step of a thread: the new state, and the program points that take the place
of this one. -/
def execOp (s : State n) (producer : ℕ) (ch : Choice) : Op n → Option (State n × List (Op n))
  | .loadAccepting r =>
    if s.mAcceptingSubmissions then some (s, [.addInFlight r])
    else some (s.record (.refused r.task), [])
  | .addInFlight r =>
    some ({ s with mInFlightSubmissions := s.mInFlightSubmissions + 1 }, [.recheckAccepting r])
  -- the second look: `stop` may have closed the pool before the count
  | .recheckAccepting r =>
    if s.mAcceptingSubmissions = true ∧ n ≠ 0 then some (s, [.chooseWorker r])
    else some (s, [.leave r])
  | .leave r =>
    some ({ s with
      mInFlightSubmissions := s.mInFlightSubmissions - 1
      log := .refused r.task :: s.log }, [])
  -- the counter wraps, and the workers take turns
  | .chooseWorker r =>
    if h : 0 < n then
      some ({ s with mNextWorker := (s.mNextWorker + 1) % 2 ^ 64 },
        [.insert ⟨s.mNextWorker % n, Nat.mod_lt _ h⟩ r])
    else none
  | .insert w r =>
    -- only the queue reports that it has no memory
    if ch.ok = true ∨ r.delay ≠ none then
      some (s.setWorker w ((s.mWorkerStates w).insert producer ch.now r), [.subInFlight w r true])
    else some (s, [.subInFlight w r false])
  | .subInFlight w r true =>
    some ({ s with mInFlightSubmissions := s.mInFlightSubmissions - 1 }, [.releaseSignal w r])
  | .subInFlight _ r false =>
    some ({ s with
      mInFlightSubmissions := s.mInFlightSubmissions - 1
      log := .refused r.task :: s.log }, [])
  | .releaseSignal w r =>
    let ws := s.mWorkerStates w
    some ((s.setWorker w { ws with mSignal := ws.mSignal + 1 }).record (.accepted w r.task), [])
  -- only the first `stop` goes on
  | .exchangeAccepting =>
    some ({ s with mAcceptingSubmissions := false },
      if s.mAcceptingSubmissions then [.waitInFlight] else [])
  | .waitInFlight => if s.mInFlightSubmissions = 0 then some (s, [.exchangeStopping]) else none
  | .exchangeStopping =>
    some ({ s with mStopping := true },
      if s.mStopping then [] else (List.finRange n).map .wake ++ (List.finRange n).map .requestStop)
  | .wake w =>
    let ws := s.mWorkerStates w
    some (s.setWorker w { ws with mSignal := ws.mSignal + 1 }, [])
  | .requestStop w => some (s.setWorker w { s.mWorkerStates w with stopRequested := true }, [])
  -- nothing to take: the loop of this phase ends, and the next one begins
  | .take w phase =>
    ((s.mWorkerStates w).tryTake ch phase).map fun
      | none => (phase.leave s w, phase.next w)
      | some (x, ws) => ((s.setWorker w ws).record (.begun w x), [.run w x phase])
  -- a task may call the pool itself, as often as it likes
  | .run w x phase =>
    match ch.call with
    | some a => some ((a.enter s).1, (a.enter s).2 ++ [.run w x phase])
    | none => some (s.record (.finished w x), [.take w phase])
  | .loadStopping w =>
    some (s, if s.mStopping then [.take w .lastTasks] else [.loadStopRequested w])
  | .loadStopRequested w =>
    some (s, if (s.mWorkerStates w).stopRequested then [.take w .lastTasks] else [.computeWait w])
  -- the heap is asked again, after the queue and the tasks that are due
  | .computeWait w =>
    some (s, match (s.mWorkerStates w).mDelayedTasks with
      | [] => [.acquire w]
      | e :: _ => if e.mDue ≤ ch.now then [.take w .tasks] else [.tryAcquireFor w])
  | .acquire w =>
    let ws := s.mWorkerStates w
    if 0 < ws.mSignal then
      some (s.setWorker w { ws with mSignal := ws.mSignal - 1 }, [.take w .tasks])
    else none
  | .tryAcquireFor w =>
    let ws := s.mWorkerStates w
    if ch.ok = true ∧ 0 < ws.mSignal then
      some (s.setWorker w { ws with mSignal := ws.mSignal - 1 }, [.take w .tasks])
    else some (s, [.take w .tasks])

/-- A call by a thread of the given identity. -/
def arrive (s : State n) (a : ℕ × Call) : Option (State n × List (Thread n)) :=
  some ((a.2.enter s).1, [⟨a.1, (a.2.enter s).2⟩])

/-- A pool whose workers have just started. -/
def State.initial (n : ℕ) : State n where
  mNextWorker := 0
  mAcceptingSubmissions := true
  mInFlightSubmissions := 0
  mStopping := false
  mWorkerStates := fun _ => ⟨[], 0, [], 0, false⟩
  next := 0
  log := []

/-- The threads of a pool. -/
def scripts (n : ℕ) : Scripts (State n) ℕ (Op n) Choice (ℕ × Call) :=
  ⟨fun s producer ch op => (execOp s producer ch op).map fun r => (r.1, r.2, []),
    fun s _ => s, fun s _ a => arrive s a⟩

/-- The threads of a pool over its state. -/
abbrev Pool (n : ℕ) := Scripts.Pool (State n) ℕ (Op n)

/-- The transition system of a pool of `n` workers, in any interleaving. -/
def system (n : ℕ) : System (Pool n) (Move (Event Choice (ℕ × Call))) :=
  (scripts n).program.system
    ⟨State.initial n, (List.finRange n).map fun w => ⟨w.val, [.take w .tasks]⟩⟩

end ThreadPool
end SculkProtocol
