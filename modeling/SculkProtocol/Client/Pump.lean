import Mathlib.Logic.Function.Basic
import SculkProtocol.Pump.Accounting

/-!
# The I/O pump of `ClientNetworkSystem`

The client's I/O runs as pump jobs on the thread pool (`scheduleIoPump`,
`ioPumpTask`, `scheduleIoPumpAfter`, `submitIoJob`). It is the re-arming pump of
`Pump.Protocol` with the guard flags `mRunning` and `mIoPumpActive`, read in this
order, the flag `mIoPumpScheduled`, and the counters `mPendingIoJobs` and
`mPendingDelayedWakeups`. A tick is `ioTickOnce`: it handles packets, each of
which may set or clear `mSession`, and reports whether it progressed.

The calls `start`, `stop`, `connect` and `disconnect` are issued one at a time.
Their program points are `ApiPc`, kept in the shared state; every atomic access of
a call is a step of its own, so the pool threads interleave with it anywhere. A
wait for a counter (`waitForPendingIoJobs`, `waitForPendingDelayedWakeups`) can be
left in exactly the states in which the counter is zero.

Counters are natural numbers: each is bounded by the number of threads, so the
wrap at `2 ^ 32` is out of reach. The pool may be stopped by its owner at any time
(`Act.stopPool`); it refuses submissions from then on.
-/

namespace SculkProtocol
namespace Client

/-- The flags `scheduleIoPump` and `ioPumpTask` check. -/
inductive Flag
  | mRunning
  | mIoPumpActive
  deriving DecidableEq

/-- `!mRunning.load() || !mIoPumpActive.load()`, in the order of evaluation. -/
def guards : Pump.Guards Flag := ⟨.mRunning, [.mIoPumpActive]⟩

/-- A pump job or a delayed wakeup, up to its return to the pool. -/
abbrev IoThread := Pump.Thread Flag Unit

/-- Program points of the call in progress. -/
inductive ApiPc
  | idle
  /-- `start`: `mRunning.exchange(true)` -/
  | startExchange
  /-- `start`: `mPeer->Startup` -/
  | startup
  /-- `start`: `mRunning.store(false)` after a failed startup -/
  | startFailed
  /-- `stop`: `mRunning.exchange(false)` -/
  | stopExchange
  /-- `stop`: `mIoPumpActive.store(false)` -/
  | stopActive
  /-- `stop`: `waitForPendingDelayedWakeups` -/
  | stopWakeups
  /-- `stop`: `waitForPendingIoJobs` -/
  | stopJobs
  /-- `stop`: `disconnectSessionForTeardown` -/
  | stopTeardown (wasRunning : Bool)
  /-- `stop`: `mPeer->Shutdown` -/
  | stopShutdown
  /-- `connect`: `mRunning.load` -/
  | connectRunning
  /-- `connect`: `mSession.load` -/
  | connectSession
  /-- `connect`: `mPeer->Connect` -/
  | connectPeer
  /-- `connect`: `mIoPumpActive.store(true)` -/
  | connectActive
  /-- `connect`: inside `scheduleIoPump` -/
  | connectSched (p : Pump.SchedPc Flag)
  /-- `disconnect`: `mIoPumpActive.store(false)` -/
  | disconnectActive
  /-- `disconnect`: `waitForPendingDelayedWakeups` -/
  | disconnectWakeups
  /-- `disconnect`: `waitForPendingIoJobs` -/
  | disconnectJobs
  /-- `disconnect`: `disconnectSessionForTeardown` -/
  | disconnectTeardown
  deriving DecidableEq

/-- The state the calls and the pool threads share. -/
structure State where
  pump : Pump.Shared Flag
  /-- `mSession` is not null. -/
  mSession : Bool
  api : ApiPc

namespace State

def mRunning (s : State) : Bool := s.pump.flags .mRunning

def mIoPumpActive (s : State) : Bool := s.pump.flags .mIoPumpActive

def mIoPumpScheduled (s : State) : Bool := s.pump.scheduled

def mPendingIoJobs (s : State) : ℕ := s.pump.pendingJobs

def mPendingDelayedWakeups (s : State) : ℕ := s.pump.pendingWakeups

/-- Store a guard flag. -/
def store (s : State) (f : Flag) (b : Bool) : State :=
  { s with pump := { s.pump with flags := Function.update s.pump.flags f b } }

/-- Move the call in progress to `pc`. -/
def goto (s : State) (pc : ApiPc) : State := { s with api := pc }

end State

/-- The public calls. -/
inductive Call
  | start
  | stop
  | connect
  | disconnect
  deriving DecidableEq

/-- Where a call begins. -/
def Call.entry : Call → ApiPc
  | .start => .startExchange
  | .stop => .stopExchange
  | .connect => .connectRunning
  | .disconnect => .disconnectActive

/-- The choices of one step. -/
inductive Act
  /-- the only next step of the mover -/
  | step
  /-- a new call -/
  | call (c : Call)
  /-- `mPeer->Startup` answers -/
  | startup (ok : Bool)
  /-- `mPeer->Connect` answers -/
  | peerConnect (started : Bool)
  /-- a tick handles a packet, which leaves `mSession` as told -/
  | packet (session : Bool)
  /-- a tick ends -/
  | ticked (progressed : Bool)
  /-- the owner of the thread pool stops it -/
  | stopPool
  deriving DecidableEq

/-- One step of a pool thread. -/
def exec (s : State) : IoThread → Act → Option (State × List IoThread)
  | .job (.tick ()), .packet b => some ({ s with mSession := b }, [.job (.tick ())])
  | .job (.tick ()), .ticked p => some (s, [.job (.clear p)])
  | t, .step => (Pump.exec guards () s.pump t).map fun r => ({ s with pump := r.1 }, r.2)
  | _, _ => none

/-- One step of the call in progress. -/
def apiStep (s : State) : ApiPc → Act → Option (State × List IoThread)
  | .idle, .call c => some (s.goto c.entry, [])
  | .startExchange, .step =>
    if s.mRunning then some (s.goto .idle, [])
    else some ((s.store .mRunning true).goto .startup, [])
  | .startup, .startup ok => some (s.goto (if ok then .idle else .startFailed), [])
  | .startFailed, .step => some ((s.store .mRunning false).goto .idle, [])
  -- a client that was not running has no pump to wait for
  | .stopExchange, .step =>
    some ((s.store .mRunning false).goto
      (if s.mRunning then .stopActive else .stopTeardown false), [])
  | .stopActive, .step => some ((s.store .mIoPumpActive false).goto .stopWakeups, [])
  -- wakeups first: each of them may submit a job
  | .stopWakeups, .step =>
    if s.mPendingDelayedWakeups = 0 then some (s.goto .stopJobs, []) else none
  | .stopJobs, .step =>
    if s.mPendingIoJobs = 0 then some (s.goto (.stopTeardown true), []) else none
  | .stopTeardown wasRunning, .step =>
    some ({ s.goto (if wasRunning then .stopShutdown else .idle) with mSession := false }, [])
  | .stopShutdown, .step => some (s.goto .idle, [])
  | .connectRunning, .step => some (s.goto (if s.mRunning then .connectSession else .idle), [])
  -- one connection at a time
  | .connectSession, .step => some (s.goto (if s.mSession then .idle else .connectPeer), [])
  | .connectPeer, .peerConnect ok => some (s.goto (if ok then .connectActive else .idle), [])
  | .connectActive, .step =>
    some ((s.store .mIoPumpActive true).goto (.connectSched guards.entry), [])
  -- the call goes on in `scheduleIoPump`, or returns
  | .connectSched p, .step =>
    let r := Pump.sched guards s.pump p
    some ({ s with pump := r.1, api := r.2.1.elim .idle .connectSched }, r.2.2)
  | .disconnectActive, .step =>
    some ((s.store .mIoPumpActive false).goto .disconnectWakeups, [])
  | .disconnectWakeups, .step =>
    if s.mPendingDelayedWakeups = 0 then some (s.goto .disconnectJobs, []) else none
  | .disconnectJobs, .step =>
    if s.mPendingIoJobs = 0 then some (s.goto .disconnectTeardown, []) else none
  | .disconnectTeardown, .step => some ({ s.goto .idle with mSession := false }, [])
  | _, _ => none

/-- A step from outside the pool: of the call in progress, or of the pool's owner. -/
def env (s : State) (_ : List IoThread) : Act → Option (State × List IoThread)
  | .stopPool => some ({ s with pump := { s.pump with accepting := false } }, [])
  | a => apiStep s s.api a

/-- A constructed client on a running thread pool. -/
def State.initial : State where
  pump := ⟨fun _ => false, false, 0, 0, true⟩
  mSession := false
  api := .idle

/-- The client's calls and its pump, in any interleaving. -/
def program : Program State IoThread Act := ⟨exec, env⟩

/-- The transition system of one client. -/
def system : System (Config State IoThread) (Move Act) := program.system ⟨State.initial, []⟩

/-! ### Program points of the calls -/

/-- The job the call in progress has counted but not submitted. -/
def ApiPc.jobs : ApiPc → ℕ
  | .connectSched p => p.jobs
  | _ => 0

/-- Whether the call in progress holds `mIoPumpScheduled`. -/
def ApiPc.holds : ApiPc → ℕ
  | .connectSched p => p.holds
  | _ => 0

/-- The call has closed a guard and has not yet waited for the jobs. -/
def ApiPc.closing : ApiPc → Bool
  | .stopActive => true
  | .stopWakeups => true
  | .stopJobs => true
  | .disconnectWakeups => true
  | .disconnectJobs => true
  | _ => false

/-- `connect` has seen `mRunning`. -/
def ApiPc.connecting : ApiPc → Bool
  | .connectSession => true
  | .connectPeer => true
  | .connectActive => true
  | .connectSched _ => true
  | _ => false

@[simp] theorem connectSched_jobs (p : Pump.SchedPc Flag) :
    (ApiPc.connectSched p).jobs = p.jobs := rfl

@[simp] theorem connectSched_holds (p : Pump.SchedPc Flag) :
    (ApiPc.connectSched p).holds = p.holds := rfl

@[simp] theorem api_return_jobs (o : Option (Pump.SchedPc Flag)) :
    (o.elim .idle .connectSched : ApiPc).jobs = Pump.next Pump.SchedPc.jobs o := by
  cases o <;> rfl

@[simp] theorem api_return_holds (o : Option (Pump.SchedPc Flag)) :
    (o.elim .idle .connectSched : ApiPc).holds = Pump.next Pump.SchedPc.holds o := by
  cases o <;> rfl

/-- **What a pool thread can do**: handle a packet inside a tick, end a tick, or take
the next step of the pump protocol. -/
theorem exec_cases {s s' : State} {t : IoThread} {a : Act} {ts : List IoThread}
    (h : exec s t a = some (s', ts)) :
    (∃ b, a = .packet b ∧ t = .job (.tick ()) ∧ s' = { s with mSession := b } ∧ ts = [t]) ∨
    (∃ p, a = .ticked p ∧ t = .job (.tick ()) ∧ s' = s ∧ ts = [.job (.clear p)]) ∨
    (∃ p, a = .step ∧ Pump.exec guards () s.pump t = some (p, ts) ∧ s' = { s with pump := p }) := by
  unfold exec at h
  split at h
  · next b =>
    cases h
    exact Or.inl ⟨b, rfl, rfl, rfl, rfl⟩
  · next p =>
    cases h
    exact Or.inr (Or.inl ⟨p, rfl, rfl, rfl, rfl⟩)
  · obtain ⟨⟨p, us⟩, hex, heq⟩ := Option.map_eq_some_iff.mp h
    cases heq
    exact Or.inr (Or.inr ⟨p, rfl, hex, rfl⟩)
  · exact absurd h (by simp)

/-- **What happens outside the pool**: the pool is stopped, or the call in progress
takes a step. -/
theorem env_cases {s s' : State} (us : List IoThread) {ts : List IoThread} {a : Act}
    (h : env s us a = some (s', ts)) :
    (a = .stopPool ∧ s' = { s with pump := { s.pump with accepting := false } } ∧ ts = []) ∨
    apiStep s s.api a = some (s', ts) := by
  unfold env at h
  split at h
  · cases h
    exact Or.inl ⟨rfl, rfl, rfl⟩
  · exact Or.inr h

/-- Pool threads leave the call in progress, the guard flags and the pool alone. -/
theorem exec_frame {s s' : State} {t : IoThread} {a : Act} {ts : List IoThread}
    (h : exec s t a = some (s', ts)) :
    s'.api = s.api ∧ s'.pump.flags = s.pump.flags ∧ s'.pump.accepting = s.pump.accepting := by
  rcases exec_cases h with ⟨b, -, -, rfl, -⟩ | ⟨p, -, -, rfl, -⟩ | ⟨p, -, hex, rfl⟩
  · exact ⟨rfl, rfl, rfl⟩
  · exact ⟨rfl, rfl, rfl⟩
  · exact ⟨rfl, (Pump.exec_frame hex).1, (Pump.exec_frame hex).2⟩


/-- A step of the call in progress is a step of `scheduleIoPump`, called by `connect`,
or one that leaves the counters, `mIoPumpScheduled` and the pool alone. -/
theorem apiStep_cases {s s' : State} {pc : ApiPc} {a : Act} {ts : List IoThread}
    (h : apiStep s pc a = some (s', ts)) :
    (∃ p, pc = .connectSched p ∧ a = .step ∧
      s' = { s with
        pump := (Pump.sched (T := Unit) guards s.pump p).1
        api := (Pump.sched (T := Unit) guards s.pump p).2.1.elim .idle .connectSched } ∧
      ts = (Pump.sched guards s.pump p).2.2) ∨
    ((∀ p, pc ≠ .connectSched p) ∧ ts = [] ∧ (s'.api.jobs = 0 ∧ s'.api.holds = 0) ∧
      s'.pump.scheduled = s.pump.scheduled ∧ s'.pump.pendingJobs = s.pump.pendingJobs ∧
      s'.pump.pendingWakeups = s.pump.pendingWakeups ∧ s'.pump.accepting = s.pump.accepting) := by
  by_cases hpc : ∃ p, pc = .connectSched p
  · obtain ⟨p, rfl⟩ := hpc
    cases a with
    | step => cases h; exact Or.inl ⟨p, rfl, rfl, rfl, rfl⟩
    | call | startup | peerConnect | packet | ticked | stopPool =>
      exact absurd h (by simp [apiStep])
  · refine Or.inr ⟨fun p hp => hpc ⟨p, hp⟩, ?_⟩
    unfold apiStep at h
    split at h
    case h_1 c => cases h; cases c <;> exact ⟨rfl, ⟨rfl, rfl⟩, rfl, rfl, rfl, rfl⟩
    case h_15 p => exact absurd ⟨p, rfl⟩ hpc
    case h_20 => exact absurd h (by simp)
    -- every other step only moves the call and stores flags or `mSession`
    all_goals try split at h
    all_goals cases h
    all_goals refine ⟨rfl, ?_, rfl, rfl, rfl, rfl⟩
    all_goals exact ⟨rfl, rfl⟩

/-- Only `connect` has a job of its own. -/
theorem jobs_of_ne {pc : ApiPc} (h : ∀ p, pc ≠ .connectSched p) : pc.jobs = 0 := by
  unfold ApiPc.jobs
  split
  · next p => exact absurd rfl (h p)
  · rfl

/-- Only `connect` holds the flag. -/
theorem holds_of_ne {pc : ApiPc} (h : ∀ p, pc ≠ .connectSched p) : pc.holds = 0 := by
  unfold ApiPc.holds
  split
  · next p => exact absurd rfl (h p)
  · rfl

/-! ### The counters count -/

/-- The pump's two counters and its flag agree with the threads and the call in
progress. -/
structure Balance (c : Config State IoThread) : Prop where
  jobs : c.shared.pump.pendingJobs = Config.total Pump.Thread.jobs c.threads + c.shared.api.jobs
  wakeups : c.shared.pump.pendingWakeups = Config.total Pump.Thread.wakeups c.threads
  holds : c.shared.pump.scheduled.toNat =
    Config.total Pump.Thread.holds c.threads + c.shared.api.holds

/-- A pool thread trades what it accounts for against what its successors do. -/
theorem exec_balance {s s' : State} {t : IoThread} {a : Act} {ts : List IoThread}
    (h : exec s t a = some (s', ts)) (hj : t.jobs ≤ s.pump.pendingJobs)
    (hw : t.wakeups ≤ s.pump.pendingWakeups) (hh : t.holds ≤ s.pump.scheduled.toNat) :
    s'.pump.pendingJobs + t.jobs = s.pump.pendingJobs + Config.total Pump.Thread.jobs ts ∧
    s'.pump.pendingWakeups + t.wakeups =
      s.pump.pendingWakeups + Config.total Pump.Thread.wakeups ts ∧
    s'.pump.scheduled.toNat + t.holds =
      s.pump.scheduled.toNat + Config.total Pump.Thread.holds ts := by
  rcases exec_cases h with ⟨b, -, rfl, rfl, rfl⟩ | ⟨p, -, rfl, rfl, rfl⟩ | ⟨p, -, hex, rfl⟩
  · simp
  · simp [Pump.Thread.jobs, Pump.Thread.wakeups, Pump.Thread.holds]
  · exact ⟨Pump.exec_jobs hex hj, Pump.exec_wakeups hex hw, Pump.exec_holds hex hh⟩

/-- The call in progress does the same. -/
theorem apiStep_balance {s s' : State} {a : Act} {ts : List IoThread}
    (h : apiStep s s.api a = some (s', ts)) (hj : s.api.jobs ≤ s.pump.pendingJobs)
    (hh : s.api.holds ≤ s.pump.scheduled.toNat) :
    s'.pump.pendingJobs + s.api.jobs =
      s.pump.pendingJobs + s'.api.jobs + Config.total Pump.Thread.jobs ts ∧
    s'.pump.pendingWakeups = s.pump.pendingWakeups + Config.total Pump.Thread.wakeups ts ∧
    s'.pump.scheduled.toNat + s.api.holds =
      s.pump.scheduled.toNat + s'.api.holds + Config.total Pump.Thread.holds ts := by
  rcases apiStep_cases h with ⟨p, hp, -, rfl, rfl⟩ | ⟨hne, rfl, ⟨h1, h2⟩, h3, h4, h5, -⟩
  · -- inside the scheduling the call counts as a thread of the pump does
    rw [hp] at hj hh ⊢
    have hw := Pump.sched_wakeups (G := guards) (T := Unit) (s := s.pump) p
    refine ⟨?_, ?_, ?_⟩
    · have := Pump.sched_jobs (G := guards) (T := Unit) (s := s.pump) p hj
      simpa only [api_return_jobs, connectSched_jobs] using this
    · rw [hw.2]
      exact hw.1
    · have := Pump.sched_holds (G := guards) (T := Unit) (s := s.pump) p hh
      simpa only [api_return_holds, connectSched_holds] using this
  · rw [jobs_of_ne hne, holds_of_ne hne, h1, h2, h3, h4, h5]
    simp

/-- Every step keeps the counters in balance. -/
theorem Balance.step {c c' : Config State IoThread} {m : Move Act} (hc : Balance c)
    (h : program.step c m = some c') : Balance c' := by
  cases m with
  | thread i a =>
    obtain ⟨t, rest, sh, ts, hi, hperm, hex, rfl⟩ := Program.step_thread_inv h
    have hmem := List.mem_of_getElem? hi
    have hj := Config.le_total (w := Pump.Thread.jobs) hmem
    have hw := Config.le_total (w := Pump.Thread.wakeups) hmem
    have hh := Config.le_total (w := Pump.Thread.holds) hmem
    -- what the thread accounted for is now accounted for by its successors
    obtain ⟨e1, e2, e3⟩ := exec_balance hex (by rw [hc.jobs]; omega) (by rw [hc.wakeups]; omega)
      (by rw [hc.holds]; omega)
    obtain ⟨b1, b2, b3⟩ := hc
    rw [Config.total_perm _ hperm, Config.total_cons] at b1 b2 b3
    constructor
    all_goals simp only [Config.total_append, (exec_frame hex).1]; omega
  | env a =>
    obtain ⟨sh, ts, hex, rfl⟩ := Program.step_env_inv h
    obtain ⟨b1, b2, b3⟩ := hc
    rcases env_cases c.threads hex with ⟨-, rfl, rfl⟩ | hapi
    · exact ⟨by simpa using b1, by simpa using b2, by simpa using b3⟩
    · obtain ⟨e1, e2, e3⟩ := apiStep_balance hapi (by omega) (by omega)
      constructor
      all_goals simp only [Config.total_append]; omega

/-- **The counters count**, in every reachable state. -/
theorem balance {c : Config State IoThread} (hc : system.Reachable c) : Balance c :=
  hc.invariant ⟨rfl, rfl, rfl⟩ fun _ _ _ hI hst => hI.step hst

end Client
end SculkProtocol
