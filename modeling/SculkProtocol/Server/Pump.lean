import SculkProtocol.Pump.Accounting

/-!
# The threads of `ServerNetworkSystem`

Three kinds of background work capture the server:

* the flush pump (`scheduleFlushPump`, `flushPumpTask`, `scheduleFlushPumpAfter`,
  `submitFlushJob`), a re-arming pump whose only guard is `mRunning`. Its tick is
  `flushTickOnce`, which counts and enqueues one task for each session that is due;
* the I/O thread (`ioPumpThreadMain`), which counts and enqueues one task for each
  packet that belongs to a session;
* the session tasks themselves, counted in `mPendingSessionPacketTasks`. A task
  uncounts itself and goes on to notify the waiters before it returns.

What a packet or a due entry is, and so which branch a tick takes, is left to the
environment: here only the counters matter. The strand of a session may refuse a
task. A task the strand has taken is a thread of its own, also when a stopped pool
makes the enqueuing thread run it.

`start` and `stop` are issued one at a time, as in `Client.Pump`, and every atomic
access of theirs is a step. A wait can be left when its counter is zero.
-/

namespace SculkProtocol
namespace Server

/-- The flag `scheduleFlushPump` and `flushPumpTask` check. -/
inductive Flag
  | mRunning
  deriving DecidableEq

def guards : Pump.Guards Flag := ⟨.mRunning, []⟩

/-- Program points of `flushTickOnce`; `left` is what remains of
`mFlushReadyPerTick`. -/
inductive TickPc
  /-- at the head of the loop -/
  | next (left : ℕ) (progressed : Bool)
  /-- a session is due and its task is counted -/
  | enqueue (left : ℕ) (progressed : Bool)
  /-- the strand refused the task -/
  | refused (left : ℕ) (progressed : Bool)
  deriving DecidableEq

/-- A thread of the pool. -/
inductive Thread
  | pump (t : Pump.Thread Flag TickPc)
  /-- a session task, up to the step that uncounts it -/
  | session
  /-- a session task that has uncounted itself: about to notify and return -/
  | leaving
  deriving DecidableEq

/-- Program points of the I/O thread. -/
inductive IoPc
  /-- `mIoPumpThread` is not joinable -/
  | absent
  /-- at the loop condition of `ioPumpThreadMain` -/
  | check
  /-- in `ioTickOnce`, about to receive -/
  | receive
  /-- a session's packet is counted -/
  | enqueue
  /-- the strand refused the packet's task -/
  | refused
  /-- returned, not joined yet -/
  | exited
  deriving DecidableEq

/-- Program points of the call in progress. -/
inductive ApiPc
  | idle
  /-- `start`: `mRunning.exchange(true)` -/
  | startExchange
  /-- `start`: `mPeer->Startup` -/
  | startup
  /-- `start`: `mRunning.store(false)` after a failed startup -/
  | startFailed
  /-- `start`: `scheduleIoPump` -/
  | startIo
  /-- `start`: inside `scheduleFlushPump` -/
  | startSched (p : Pump.SchedPc Flag)
  /-- `stop`: `mRunning.exchange(false)` -/
  | stopExchange
  /-- `stop`: `mIoPumpThread.request_stop()` -/
  | stopRequest
  /-- `stop`: `mIoPumpThread.join()` -/
  | stopJoin
  /-- `stop`: `waitForPendingFlushWakeups` -/
  | stopWakeups
  /-- `stop`: `waitForPendingFlushJobs` -/
  | stopJobs
  /-- `stop`: `waitForPendingSessionPacketTasks` -/
  | stopSessions
  /-- `stop`: `disconnectAllSessionsForTeardown` -/
  | stopTeardown (wasRunning : Bool)
  /-- `stop`: `mPeer->Shutdown` -/
  | stopShutdown
  deriving DecidableEq

/-- The state the calls, the I/O thread and the pool threads share. -/
structure State where
  pump : Pump.Shared Flag
  mFlushReadyPerTick : ℕ
  mPendingSessionPacketTasks : ℕ
  io : IoPc
  /-- the I/O thread's stop token -/
  stopRequested : Bool
  api : ApiPc

namespace State

def mRunning (s : State) : Bool := s.pump.flags .mRunning

def mFlushPumpScheduled (s : State) : Bool := s.pump.scheduled

def mPendingFlushJobs (s : State) : ℕ := s.pump.pendingJobs

def mPendingFlushWakeups (s : State) : ℕ := s.pump.pendingWakeups

/-- Store `mRunning`. -/
def setRunning (s : State) (b : Bool) : State :=
  { s with pump := { s.pump with flags := fun _ => b } }

/-- Move the call in progress to `pc`. -/
def goto (s : State) (pc : ApiPc) : State := { s with api := pc }

/-- Count a session task. -/
def countSession (s : State) : State :=
  { s with mPendingSessionPacketTasks := s.mPendingSessionPacketTasks + 1 }

/-- Uncount a session task. -/
def uncountSession (s : State) : State :=
  { s with mPendingSessionPacketTasks := s.mPendingSessionPacketTasks - 1 }

end State

/-- What `flushTickOnce` finds at the top of the heap. -/
inductive Popped
  /-- the heap is empty or its top is not due -/
  | nothing
  /-- an entry whose token is not current -/
  | stale
  /-- an entry without a context, or with a disconnected session -/
  | gone
  | due
  deriving DecidableEq

/-- What the I/O thread receives. -/
inductive Received
  | nothing
  /-- a packet that is handled without a session task -/
  | handled
  /-- a packet of a session -/
  | session
  deriving DecidableEq

/-- The public calls that matter here. -/
inductive Call
  | start
  | stop
  deriving DecidableEq

/-- Where a call begins. -/
def Call.entry : Call → ApiPc
  | .start => .startExchange
  | .stop => .stopExchange

/-- The choices of one step. -/
inductive Act
  /-- the only next step of the mover -/
  | step
  | popped (r : Popped)
  /-- a session's strand answers -/
  | strand (ok : Bool)
  /-- a new call -/
  | call (c : Call)
  /-- `mPeer->Startup` answers -/
  | startup (ok : Bool)
  /-- the I/O thread's next step -/
  | io
  | received (r : Received)
  /-- the strand of the received packet's session answers -/
  | ioStrand (ok : Bool)
  /-- the owner of the thread pool stops it -/
  | stopPool
  deriving DecidableEq

/-- One step of `flushTickOnce`. -/
def execTick (s : State) : TickPc → Act → Option (State × List Thread)
  | .next 0 p, .step => some (s, [.pump (.job (.clear p))])
  | .next (_ + 1) p, .popped .nothing => some (s, [.pump (.job (.clear p))])
  | .next (n + 1) p, .popped .stale => some (s, [.pump (.job (.tick (.next (n + 1) p)))])
  | .next (n + 1) p, .popped .gone => some (s, [.pump (.job (.tick (.next n p)))])
  | .next (n + 1) p, .popped .due =>
    some (s.countSession, [.pump (.job (.tick (.enqueue n p)))])
  | .enqueue n _, .strand true => some (s, [.pump (.job (.tick (.next n true))), .session])
  | .enqueue n p, .strand false => some (s, [.pump (.job (.tick (.refused n p)))])
  | .refused n p, .step => some (s.uncountSession, [.pump (.job (.tick (.next n p)))])
  | _, _ => none

/-- One step of a pool thread. -/
def exec (s : State) : Thread → Act → Option (State × List Thread)
  | .pump (.job (.tick x)), a => execTick s x a
  | .pump t, .step =>
    (Pump.exec guards (.next s.mFlushReadyPerTick false) s.pump t).map fun r =>
      ({ s with pump := r.1 }, r.2.map .pump)
  | .session, .step => some (s.uncountSession, [.leaving])
  | .leaving, .step => some (s, [])
  | _, _ => none

/-- One step of the I/O thread. -/
def ioStep (s : State) : IoPc → Act → Option (State × List Thread)
  | .check, .io =>
    some ({ s with io := if s.stopRequested || !s.mRunning then .exited else .receive }, [])
  | .receive, .received .nothing => some ({ s with io := .check }, [])
  | .receive, .received .handled => some (s, [])
  | .receive, .received .session => some ({ s.countSession with io := .enqueue }, [])
  | .enqueue, .ioStrand true => some ({ s with io := .receive }, [.session])
  | .enqueue, .ioStrand false => some ({ s with io := .refused }, [])
  | .refused, .io => some ({ s.uncountSession with io := .receive }, [])
  | _, _ => none

/-- One step of the call in progress. -/
def apiStep (s : State) : ApiPc → Act → Option (State × List Thread)
  | .idle, .call c => some (s.goto c.entry, [])
  | .startExchange, .step =>
    some (if s.mRunning then s.goto .idle else (s.setRunning true).goto .startup, [])
  | .startup, .startup ok => some (s.goto (if ok then .startIo else .startFailed), [])
  | .startFailed, .step => some ((s.setRunning false).goto .idle, [])
  -- a thread that is there goes on; a new one begins at its loop condition
  | .startIo, .step =>
    some (if !s.mRunning || decide (s.io ≠ .absent) then s.goto (.startSched guards.entry)
      else { s.goto (.startSched guards.entry) with io := .check, stopRequested := false }, [])
  -- the call goes on in `scheduleFlushPump`, or returns
  | .startSched p, .step =>
    let r := Pump.sched guards s.pump p
    some ({ s with pump := r.1, api := r.2.1.elim .idle .startSched }, r.2.2.map .pump)
  -- a server that was not running has no threads to wait for
  | .stopExchange, .step =>
    some ((s.setRunning false).goto (if s.mRunning then .stopRequest else .stopTeardown false), [])
  | .stopRequest, .step =>
    some (if s.io = .absent then s.goto .stopWakeups
      else { s.goto .stopJoin with stopRequested := true }, [])
  -- the thread has left its loop
  | .stopJoin, .step =>
    if s.io = .exited then some ({ s.goto .stopWakeups with io := .absent }, []) else none
  -- wakeups first: each of them may submit a job
  | .stopWakeups, .step =>
    if s.mPendingFlushWakeups = 0 then some (s.goto .stopJobs, []) else none
  | .stopJobs, .step => if s.mPendingFlushJobs = 0 then some (s.goto .stopSessions, []) else none
  | .stopSessions, .step =>
    if s.mPendingSessionPacketTasks = 0 then some (s.goto (.stopTeardown true), []) else none
  | .stopTeardown wasRunning, .step =>
    some (s.goto (if wasRunning then .stopShutdown else .idle), [])
  | .stopShutdown, .step => some (s.goto .idle, [])
  | _, _ => none

/-- A step from outside the pool: of the pool's owner, of the I/O thread, or of the
call in progress. -/
def env (s : State) (_ : List Thread) : Act → Option (State × List Thread)
  | .stopPool => some ({ s with pump := { s.pump with accepting := false } }, [])
  | .io => ioStep s s.io .io
  | .received r => ioStep s s.io (.received r)
  | .ioStrand ok => ioStep s s.io (.ioStrand ok)
  | a => apiStep s s.api a

/-- A constructed server on a running thread pool. -/
def State.initial (ready : ℕ) : State where
  pump := ⟨fun _ => false, false, 0, 0, true⟩
  mFlushReadyPerTick := ready
  mPendingSessionPacketTasks := 0
  io := .absent
  stopRequested := false
  api := .idle

/-- The server's calls and its background work, in any interleaving. -/
def program : Program State Thread Act := ⟨exec, env⟩

/-- The transition system of one server; `ready` is its `mFlushReadyPerTick`. -/
def system (ready : ℕ) : System (Config State Thread) (Move Act) :=
  program.system ⟨State.initial ready, []⟩

end Server
end SculkProtocol
