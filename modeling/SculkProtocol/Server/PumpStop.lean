import SculkProtocol.Pump.Shutdown
import SculkProtocol.Server.Pump

/-!
# What `ServerNetworkSystem::stop` leaves behind

`stop` takes `mRunning` down, joins the I/O thread and waits for three counters:
the wakeups, the flush jobs and the session tasks. The I/O thread and the flush
jobs are what counts session tasks, so by the last wait nothing is left that could
count another (`StopInv.sessions`). The first two waits are in the order of the
client's `stop` and have the same gap: a flush job past its second reading of
`mRunning` counts a wakeup after the wait for wakeups is over
(`stop_misses_wakeup`). `stopped_quiet` is about the runs without that step.

As in the client, a closure goes on to notify the waiters after it has uncounted
itself, and `stop` may return before it does (`stop_outruns_closure`);
`stopped_empty` is about the runs in which the last wait ends later than that.
-/

namespace SculkProtocol
namespace Server

/-! ### What the threads account for -/

/-- The flush jobs a thread accounts for in `mPendingFlushJobs`. -/
def Thread.jobs : Thread → ℕ
  | .pump t => t.jobs
  | .session => 0
  | .leaving => 0

/-- The wakeups a thread accounts for in `mPendingFlushWakeups`. -/
def Thread.wakeups : Thread → ℕ
  | .pump t => t.wakeups
  | .session => 0
  | .leaving => 0

/-- The session tasks a tick has counted and not handed over. -/
def TickPc.sessions : TickPc → ℕ
  | .next _ _ => 0
  | .enqueue _ _ => 1
  | .refused _ _ => 1

/-- The session tasks a thread accounts for in `mPendingSessionPacketTasks`. -/
def Thread.sessions : Thread → ℕ
  | .pump (.job (.tick x)) => x.sessions
  | .pump _ => 0
  | .session => 1
  | .leaving => 0

/-- The session tasks the I/O thread has counted and not handed over. -/
def IoPc.sessions : IoPc → ℕ
  | .enqueue => 1
  | .refused => 1
  | _ => 0

/-- The flush job the call in progress has counted but not submitted. -/
def ApiPc.jobs : ApiPc → ℕ
  | .startSched p => p.jobs
  | _ => 0

@[simp] theorem startSched_jobs (p : Pump.SchedPc Flag) : (ApiPc.startSched p).jobs = p.jobs := rfl

@[simp] theorem api_return_jobs (o : Option (Pump.SchedPc Flag)) :
    (o.elim .idle .startSched : ApiPc).jobs = Pump.next Pump.SchedPc.jobs o := by
  cases o <;> rfl

/-- The pump's threads count as many jobs here. -/
theorem total_pump_jobs (us : List (Pump.Thread Flag TickPc)) :
    Config.total Thread.jobs (us.map .pump) = Config.total Pump.Thread.jobs us := by
  rw [Config.total_map]; rfl

/-- They count as many wakeups. -/
theorem total_pump_wakeups (us : List (Pump.Thread Flag TickPc)) :
    Config.total Thread.wakeups (us.map .pump) = Config.total Pump.Thread.wakeups us := by
  rw [Config.total_map]; rfl

/-- The counters agree with the threads, the I/O thread and the call in progress. -/
structure Balance (c : Config State Thread) : Prop where
  jobs : c.shared.pump.pendingJobs = Config.total Thread.jobs c.threads + c.shared.api.jobs
  wakeups : c.shared.pump.pendingWakeups = Config.total Thread.wakeups c.threads
  sessions : c.shared.mPendingSessionPacketTasks =
    Config.total Thread.sessions c.threads + c.shared.io.sessions

/-- **What a pool thread can do**: a step of its tick, a step of the pump protocol, or
one of the last two steps of a session task. -/
theorem exec_cases {s s' : State} {t : Thread} {a : Act} {ts : List Thread}
    (h : exec s t a = some (s', ts)) :
    (∃ x, t = .pump (.job (.tick x)) ∧ execTick s x a = some (s', ts)) ∨
    (∃ u p us, t = .pump u ∧ u.ticking = 0 ∧
      Pump.exec guards (.next s.mFlushReadyPerTick false) s.pump u = some (p, us) ∧
      s' = { s with pump := p } ∧ ts = us.map .pump) ∨
    (t = .session ∧ s' = s.uncountSession ∧ ts = [.leaving]) ∨
    (t = .leaving ∧ s' = s ∧ ts = []) := by
  unfold exec at h
  split at h
  · next x => exact Or.inl ⟨x, rfl, h⟩
  · next u hu =>
    -- the tick was the case before
    obtain ⟨⟨p, us⟩, hex, heq⟩ := Option.map_eq_some_iff.mp h
    cases heq
    refine Or.inr (Or.inl ⟨u, p, us, rfl, ?_, hex, rfl, rfl⟩)
    cases u with
    | job pc =>
      cases pc with
      | tick x => exact absurd rfl (hu x)
      | _ => rfl
    | wakeup p | wakeupFinish | leaving => rfl
  · cases h
    exact Or.inr (Or.inr (Or.inl ⟨rfl, rfl, rfl⟩))
  · cases h
    exact Or.inr (Or.inr (Or.inr ⟨rfl, rfl, rfl⟩))
  · exact absurd h (by simp)

/-- A tick stays in its job, counts only session tasks and starts only those. -/
theorem execTick_cases {s s' : State} {x : TickPc} {a : Act} {ts : List Thread}
    (h : execTick s x a = some (s', ts)) :
    s'.pump = s.pump ∧ s'.api = s.api ∧ s'.io = s.io ∧
      (Config.total Thread.jobs ts = 1 ∧ Config.total Thread.wakeups ts = 0) ∧
      (x.sessions ≤ s.mPendingSessionPacketTasks →
        s'.mPendingSessionPacketTasks + x.sessions =
          s.mPendingSessionPacketTasks + Config.total Thread.sessions ts) ∧
      ∀ u ∈ ts, u = .session ∨ ∃ pc, u = .pump (.job pc) ∧
        (.job pc : Pump.Thread Flag TickPc).draining = true := by
  unfold execTick at h
  split at h
  case h_9 => exact absurd h (by simp)
  all_goals cases h
  all_goals refine ⟨rfl, rfl, rfl, ⟨rfl, rfl⟩, ?_, ?_⟩
  all_goals simp [Thread.sessions, TickPc.sessions, State.countSession, State.uncountSession,
    Pump.Thread.draining]
  all_goals omega

/-- Pool threads leave the calls, the I/O thread and `mRunning` alone. -/
theorem exec_frame {s s' : State} {t : Thread} {a : Act} {ts : List Thread}
    (h : exec s t a = some (s', ts)) :
    s'.api = s.api ∧ s'.io = s.io ∧ s'.mRunning = s.mRunning := by
  rcases exec_cases h with ⟨x, -, hx⟩ | ⟨u, p, us, -, -, hex, rfl, -⟩ | ⟨-, rfl, -⟩ | ⟨-, rfl, -⟩
  · obtain ⟨hp, hapi, hio, -⟩ := execTick_cases hx
    exact ⟨hapi, hio, by rw [State.mRunning, hp]; rfl⟩
  · exact ⟨rfl, rfl, congrFun (Pump.exec_frame hex).1 _⟩
  · exact ⟨rfl, rfl, rfl⟩
  · exact ⟨rfl, rfl, rfl⟩

/-- A pump step starts no session task and enters a tick at its head. -/
theorem pump_sessions {s s' : Pump.Shared Flag} {n : ℕ} {u : Pump.Thread Flag TickPc}
    {us : List (Pump.Thread Flag TickPc)}
    (h : Pump.exec guards (.next n false) s u = some (s', us)) :
    Config.total Thread.sessions (us.map .pump) = 0 := by
  refine Config.total_eq_zero.mpr fun t ht => ?_
  obtain ⟨v, hv, rfl⟩ := List.mem_map.mp ht
  cases v with
  | job pc =>
    cases pc with
    | tick x => rw [Pump.exec_tick h x hv]; rfl
    | _ => rfl
  | wakeup p | wakeupFinish | leaving => rfl

/-- A step of a pool thread keeps the counters in balance. -/
theorem exec_balance {s s' : State} {t : Thread} {a : Act} {ts : List Thread}
    (h : exec s t a = some (s', ts)) (hj : t.jobs ≤ s.pump.pendingJobs)
    (hw : t.wakeups ≤ s.pump.pendingWakeups)
    (hs : t.sessions ≤ s.mPendingSessionPacketTasks) :
    s'.pump.pendingJobs + t.jobs = s.pump.pendingJobs + Config.total Thread.jobs ts ∧
    s'.pump.pendingWakeups + t.wakeups =
      s.pump.pendingWakeups + Config.total Thread.wakeups ts ∧
    s'.mPendingSessionPacketTasks + t.sessions =
      s.mPendingSessionPacketTasks + Config.total Thread.sessions ts := by
  rcases exec_cases h with ⟨x, rfl, hx⟩ | ⟨u, p, us, rfl, hu, hex, rfl, rfl⟩ | ⟨rfl, rfl, rfl⟩ |
    ⟨rfl, rfl, rfl⟩
  · -- a tick changes the count of the session tasks only
    obtain ⟨hp, -, -, ⟨h1, h2⟩, h3, -⟩ := execTick_cases hx
    rw [hp, h1, h2]
    exact ⟨rfl, rfl, h3 hs⟩
  · -- the protocol of the pump counts its jobs and its wakeups
    have h0 : (Thread.pump u).sessions = 0 := by
      cases u with
      | job pc =>
        cases pc with
        | tick x => exact absurd hu (by simp [Pump.Thread.ticking])
        | _ => rfl
      | wakeup p | wakeupFinish | leaving => rfl
    refine ⟨?_, ?_, by rw [h0, pump_sessions hex]⟩
    · rw [total_pump_jobs]; exact Pump.exec_jobs hex hj
    · rw [total_pump_wakeups]; exact Pump.exec_wakeups hex hw
  · -- the task gives its own count back
    simp only [Thread.jobs, Thread.wakeups, Thread.sessions, State.uncountSession,
      Config.total_cons, Config.total_nil] at hs ⊢
    exact ⟨trivial, trivial, by omega⟩
  · exact ⟨rfl, rfl, rfl⟩

/-- **What happens outside the pool**: the pool is stopped, or the I/O thread or the
call in progress takes a step. -/
theorem env_cases {s s' : State} (us : List Thread) {ts : List Thread} {a : Act}
    (h : env s us a = some (s', ts)) :
    (a = .stopPool ∧ s' = { s with pump := { s.pump with accepting := false } } ∧ ts = []) ∨
    ioStep s s.io a = some (s', ts) ∨ apiStep s s.api a = some (s', ts) := by
  unfold env at h
  split at h
  · cases h
    exact Or.inl ⟨rfl, rfl, rfl⟩
  · exact Or.inr (Or.inl h)
  · exact Or.inr (Or.inl h)
  · exact Or.inr (Or.inl h)
  · exact Or.inr (Or.inr h)

/-- The I/O thread, once it is there, counts and starts session tasks only. -/
theorem ioStep_cases {s s' : State} {a : Act} {ts : List Thread}
    (h : ioStep s s.io a = some (s', ts)) :
    s'.pump = s.pump ∧ s'.api = s.api ∧ s.io ≠ .absent ∧ s'.io ≠ .absent ∧
      (Config.total Thread.jobs ts = 0 ∧ Config.total Thread.wakeups ts = 0) ∧
      (s.io.sessions ≤ s.mPendingSessionPacketTasks →
        s'.mPendingSessionPacketTasks + s.io.sessions =
          s.mPendingSessionPacketTasks + s'.io.sessions + Config.total Thread.sessions ts) := by
  generalize hio : s.io = pc at h ⊢
  unfold ioStep at h
  split at h
  case h_8 => exact absurd h (by simp)
  case h_1 => cases h; split <;> simp [IoPc.sessions]
  all_goals cases h
  all_goals simp_all [IoPc.sessions, Thread.sessions, Thread.jobs, Thread.wakeups,
    State.countSession, State.uncountSession]

/-- A step of the call in progress is a step of `scheduleFlushPump`, called by `start`,
or one that leaves the counters and the pool alone. -/
theorem apiStep_cases {s s' : State} {pc : ApiPc} {a : Act} {ts : List Thread}
    (h : apiStep s pc a = some (s', ts)) :
    (∃ p, pc = .startSched p ∧ a = .step ∧
      s' = { s with
        pump := (Pump.sched (T := TickPc) guards s.pump p).1
        api := (Pump.sched (T := TickPc) guards s.pump p).2.1.elim .idle .startSched } ∧
      ts = (Pump.sched guards s.pump p).2.2.map .pump) ∨
    ((∀ p, pc ≠ .startSched p) ∧ ts = [] ∧ s'.api.jobs = 0 ∧
      s'.pump.pendingJobs = s.pump.pendingJobs ∧
      s'.pump.pendingWakeups = s.pump.pendingWakeups ∧
      s'.mPendingSessionPacketTasks = s.mPendingSessionPacketTasks ∧
      s'.io.sessions = s.io.sessions) := by
  by_cases hpc : ∃ p, pc = .startSched p
  · obtain ⟨p, rfl⟩ := hpc
    cases a with
    | step => cases h; exact Or.inl ⟨p, rfl, rfl, rfl, rfl⟩
    | _ => exact absurd h (by simp [apiStep])
  · -- elsewhere a call stores flags and waits, and counts nothing
    refine Or.inr ⟨fun p hp => hpc ⟨p, hp⟩, ?_⟩
    unfold apiStep at h
    split at h
    case h_1 c => cases h; cases c <;> exact ⟨rfl, rfl, rfl, rfl, rfl, rfl⟩
    case h_6 p => exact absurd ⟨p, rfl⟩ hpc
    case h_15 => exact absurd h (by simp)
    all_goals try split at h
    all_goals cases h
    all_goals simp_all [ApiPc.jobs, State.goto, State.setRunning, IoPc.sessions]

/-- So does every step. -/
theorem Balance.step {c c' : Config State Thread} {m : Move Act} (hc : Balance c)
    (h : program.step c m = some c') : Balance c' := by
  obtain ⟨b1, b2, b3⟩ := hc
  cases m with
  | thread i a =>
    obtain ⟨t, rest, s', ts, hi, hperm, hex, rfl⟩ := Program.step_thread_inv h
    obtain ⟨hapi, hio, -⟩ := exec_frame hex
    rw [Config.total_perm _ hperm, Config.total_cons] at b1 b2 b3
    -- the counts cover what the thread itself has
    obtain ⟨e1, e2, e3⟩ := exec_balance hex (by omega) (by omega) (by omega)
    constructor
    all_goals simp only [Config.total_append, hapi, hio]; omega
  | env a =>
    obtain ⟨s', ts, hex, rfl⟩ := Program.step_env_inv h
    rcases env_cases c.threads hex with ⟨-, rfl, rfl⟩ | hio | hapi
    · exact ⟨by simpa using b1, by simpa using b2, by simpa using b3⟩
    · obtain ⟨hp, hapi, -, -, ⟨h1, h2⟩, h3⟩ := ioStep_cases hio
      have h3 := h3 (by omega)
      constructor
      all_goals simp only [Config.total_append, hp, hapi, h1, h2]; omega
    · rcases apiStep_cases hapi with ⟨p, hp, -, rfl, rfl⟩ | ⟨hne, rfl, h1, h2, h3, h4, h5⟩
      · rw [hp, startSched_jobs] at b1
        have hj := Pump.sched_jobs (G := guards) (T := TickPc) (s := c.shared.pump) p (by omega)
        obtain ⟨hw, hw0⟩ := Pump.sched_wakeups (G := guards) (T := TickPc) (s := c.shared.pump) p
        -- a job of the pump is no job of a session
        have hs0 : Config.total Thread.sessions
            ((Pump.sched (T := TickPc) guards c.shared.pump p).2.2.map .pump) = 0 := by
          refine Config.total_eq_zero.mpr fun t ht => ?_
          obtain ⟨u, hu, rfl⟩ := List.mem_map.mp ht
          rw [Pump.sched_submitted p u hu]
          rfl
        refine ⟨?_, ?_, ?_⟩
        · simp only [Config.total_append, total_pump_jobs, api_return_jobs]
          simp only at hj
          omega
        · simp only [Config.total_append, total_pump_wakeups, hw, hw0]
          omega
        · simp only [Config.total_append, hs0]
          omega
      · -- only `start` submits a job
        have h0 : c.shared.api.jobs = 0 := by
          cases hpc : c.shared.api with
          | startSched p => exact absurd hpc (hne p)
          | _ => rfl
        constructor
        all_goals simp only [Config.total_append, Config.total_nil]; omega

/-! ### The shutdown -/

/-- Whether `mRunning` may be up, or down, at each program point of a call. -/
def ApiPc.gates (running : Bool) : ApiPc → Bool
  | .startup => running
  | .startFailed => running
  | .startIo => running
  | .startSched _ => running
  | .stopRequest => !running
  | .stopJoin => !running
  | .stopWakeups => !running
  | .stopJobs => !running
  | .stopSessions => !running
  | .stopTeardown _ => !running
  | .stopShutdown => !running
  | _ => true

/-- `stop` has begun and has not finished its waits. -/
def ApiPc.stopping : ApiPc → Bool
  | .stopRequest => true
  | .stopJoin => true
  | .stopWakeups => true
  | .stopJobs => true
  | .stopSessions => true
  | _ => false

/-- `stop` has joined the I/O thread and waits for a counter. -/
def ApiPc.joined : ApiPc → Bool
  | .stopWakeups => true
  | .stopJobs => true
  | .stopSessions => true
  | _ => false

/-- `start` has not scheduled anything yet. -/
def ApiPc.starting : ApiPc → Bool
  | .startup => true
  | .startFailed => true
  | .startIo => true
  | _ => false

/-- A `stop` has finished its waits, and no `start` has begun since. -/
def State.Stopped (s : State) : Prop := s.mRunning = false ∧ s.api.stopping = false

instance (s : State) : Decidable s.Stopped :=
  inferInstanceAs (Decidable (s.mRunning = false ∧ s.api.stopping = false))

/-- Stopped, or starting again. -/
def State.Halted (s : State) : Prop := s.Stopped ∨ s.api.starting = true

/-- A closure that has uncounted itself. -/
def Thread.isLeaving : Thread → Bool
  | .pump .leaving => true
  | .leaving => true
  | _ => false

/-- Nothing that captured the server is counted, and the closures that are left are
done. -/
def Quiet (c : Config State Thread) : Prop :=
  ((∀ t ∈ c.threads, t.isLeaving = true) ∧ c.shared.io = .absent) ∧
    c.shared.mPendingFlushJobs = 0 ∧ c.shared.mPendingFlushWakeups = 0 ∧
    c.shared.mPendingSessionPacketTasks = 0

/-- Where `stop` leaves its wait for the wakeups, no job is about to count one. -/
def WaitsForAll (x : Transition (Config State Thread) (Move Act)) : Prop :=
  x.src.shared.api = .stopWakeups → x.label = .env .step →
    ∀ t ∈ x.src.threads, t ≠ .pump (.job .countWakeup)

instance : DecidablePred WaitsForAll := fun x =>
  inferInstanceAs (Decidable (x.src.shared.api = .stopWakeups → x.label = .env .step →
    ∀ t ∈ x.src.threads, t ≠ .pump (.job .countWakeup)))

/-- Where `stop` leaves its last wait, no closure is between its decrement and its
return. -/
def WaitsForTails (x : Transition (Config State Thread) (Move Act)) : Prop :=
  x.src.shared.api = .stopSessions → x.label = .env .step →
    ∀ t ∈ x.src.threads, t.isLeaving = false

instance : DecidablePred WaitsForTails := fun x =>
  inferInstanceAs (Decidable (x.src.shared.api = .stopSessions → x.label = .env .step →
    ∀ t ∈ x.src.threads, t.isLeaving = false))

/-- A session task, or a flush job that registers no wakeup. -/
def Thread.draining : Thread → Bool
  | .pump t => t.draining
  | .session => true
  | .leaving => true

/-- What `stop` relies on. -/
structure StopInv (c : Config State Thread) : Prop where
  balance : Balance c
  gates : c.shared.api.gates c.shared.mRunning = true
  joined : c.shared.api.joined = true → c.shared.io = .absent
  /-- While `stop` waits for the flush jobs, no wakeup is left and none is registered. -/
  jobs : c.shared.api = .stopJobs → ∀ t ∈ c.threads, t.draining = true
  /-- While `stop` waits for the session tasks, nothing else is counted. -/
  sessions : c.shared.api = .stopSessions → ∀ t ∈ c.threads, t = .session ∨ t.isLeaving = true
  halted : c.shared.Halted → (∀ t ∈ c.threads, t.isLeaving = true) ∧ c.shared.io = .absent

/-- A server that nobody has started has the invariant. -/
theorem StopInv.initial (ready : ℕ) : StopInv ⟨State.initial ready, []⟩ where
  balance := ⟨rfl, rfl, rfl⟩
  gates := rfl
  joined h := absurd h (by simp [State.initial, ApiPc.joined])
  jobs _ _ h := absurd h List.not_mem_nil
  sessions _ _ h := absurd h List.not_mem_nil
  halted _ := ⟨fun _ h => absurd h List.not_mem_nil, rfl⟩

/-- What a session task or a flush job leaves behind once `mRunning` is down. -/
theorem exec_draining {s s' : State} {t : Thread} {a : Act} {ts : List Thread}
    (h : exec s t a = some (s', ts)) (hr : s.mRunning = false) (ht : t.draining = true) :
    ∀ u ∈ ts, u.draining = true := by
  intro u hu
  rcases exec_cases h with ⟨x, rfl, hx⟩ | ⟨v, p, us, rfl, -, hex, rfl, rfl⟩ | ⟨rfl, rfl, rfl⟩ |
    ⟨rfl, rfl, rfl⟩
  · obtain ⟨-, -, -, -, -, hts⟩ := execTick_cases hx
    rcases hts u hu with rfl | ⟨pc, rfl, hdr⟩
    · rfl
    · exact hdr
  · obtain ⟨w, hw, rfl⟩ := List.mem_map.mp hu
    exact Pump.exec_closed hex (fun f => by cases f; exact hr) ht w hw
  · obtain rfl := List.mem_singleton.mp hu
    rfl
  · exact absurd hu List.not_mem_nil

/-- A closure that is done leaves nothing behind. -/
theorem exec_leaving {s s' : State} {t : Thread} {a : Act} {ts : List Thread}
    (h : exec s t a = some (s', ts)) (ht : t.isLeaving = true) : ts = [] := by
  rcases exec_cases h with ⟨x, rfl, -⟩ | ⟨v, p, us, rfl, -, hex, -, rfl⟩ | ⟨rfl, -⟩ | ⟨-, -, rfl⟩
  · exact absurd ht (by simp [Thread.isLeaving])
  · cases v with
    | leaving => cases hex; rfl
    | job pc | wakeup p | wakeupFinish => exact absurd ht (by simp [Thread.isLeaving])
  · exact absurd ht (by simp [Thread.isLeaving])
  · rfl

/-- A session task ends in two steps. -/
theorem exec_session {s s' : State} {a : Act} {ts : List Thread}
    (h : exec s .session a = some (s', ts)) : ts = [.leaving] := by
  rcases exec_cases h with ⟨x, ht, -⟩ | ⟨v, p, us, ht, -⟩ | ⟨-, -, rfl⟩ | ⟨ht, -⟩
  · exact absurd ht (by simp)
  · exact absurd ht (by simp)
  · rfl
  · exact absurd ht (by simp)

/-- A step of a pool thread keeps the invariant. -/
theorem StopInv.exec {c : Config State Thread} {t : Thread} {rest ts : List Thread}
    {s' : State} {a : Act} (hc : StopInv c) (hperm : c.threads.Perm (t :: rest))
    (hex : exec c.shared t a = some (s', ts)) (hb : Balance ⟨s', rest ++ ts⟩) :
    StopInv ⟨s', rest ++ ts⟩ := by
  obtain ⟨hapi, hio, hrun⟩ := exec_frame hex
  have ht : t ∈ c.threads := hperm.mem_iff.mpr List.mem_cons_self
  have hrest : ∀ u ∈ rest, u ∈ c.threads := fun u hu =>
    hperm.mem_iff.mpr (List.mem_cons_of_mem _ hu)
  refine ⟨hb, by simpa only [hapi, hrun] using hc.gates, by simpa only [hapi, hio] using hc.joined,
    fun hpc u hu => ?_, fun hpc u hu => ?_, fun hs => ?_⟩
  · -- `mRunning` is down, so what a draining closure leaves behind is draining too
    have hpc0 : c.shared.api = .stopJobs := hapi.symm.trans hpc
    rcases List.mem_append.mp hu with hu | hu
    · exact hc.jobs hpc0 u (hrest u hu)
    · have hg := hc.gates
      rw [hpc0] at hg
      exact exec_draining hex (by simpa [ApiPc.gates] using hg) (hc.jobs hpc0 t ht) u hu
  · -- session tasks and tails are left, and a session task goes on to its tail
    have hpc0 : c.shared.api = .stopSessions := hapi.symm.trans hpc
    rcases List.mem_append.mp hu with hu | hu
    · exact hc.sessions hpc0 u (hrest u hu)
    · rcases hc.sessions hpc0 t ht with rfl | hl
      · rw [exec_session hex] at hu
        obtain rfl := List.mem_singleton.mp hu
        exact Or.inr rfl
      · rw [exec_leaving hex hl] at hu
        exact absurd hu List.not_mem_nil
  · -- a halted server has tails only, and a tail starts nothing
    have hs0 : c.shared.Halted := by
      simpa only [State.Halted, State.Stopped, hrun, hapi] using hs
    obtain ⟨hl, habs⟩ := hc.halted hs0
    refine ⟨fun u hu => ?_, hio.trans habs⟩
    rcases List.mem_append.mp hu with hu | hu
    · exact hl u (hrest u hu)
    · rw [exec_leaving hex (hl t ht)] at hu
      exact absurd hu List.not_mem_nil

/-- How a call gets from one wait to the next, and how it halts the server. -/
theorem apiStep_halts {s s' : State} {a : Act} {ts : List Thread}
    (h : apiStep s s.api a = some (s', ts)) (hg : s.api.gates s.mRunning = true) :
    s'.api.gates s'.mRunning = true ∧
      (s'.api.joined = true → s'.io = .absent ∨ s.api.joined = true ∧ s'.io = s.io) ∧
      (s'.api = .stopJobs → ts = [] ∧ s.api = .stopWakeups ∧ a = .step ∧
        s.pump.pendingWakeups = 0) ∧
      (s'.api = .stopSessions → ts = [] ∧ s.api = .stopJobs ∧ s.pump.pendingJobs = 0) ∧
      (s'.Halted → ts = [] ∧ s'.io = s.io ∧
        (s.Halted ∨ s.api = .stopSessions ∧ s.mPendingSessionPacketTasks = 0 ∧ a = .step)) := by
  rcases apiStep_cases h with ⟨p, hp, -, rfl, -⟩ | ⟨hne, rfl, -⟩
  · -- `start` schedules the first job
    have hf := (Pump.sched_frame (G := guards) (T := TickPc) (s := s.pump) p).1
    rw [hp] at hg
    simp only [State.Halted, State.Stopped, State.mRunning, hf] at hg ⊢
    cases (Pump.sched (T := TickPc) guards s.pump p).2.1 <;>
      simp_all [ApiPc.gates, ApiPc.joined, ApiPc.starting]
  · revert hg
    generalize hpc : s.api = pc at h hne
    intro hg
    unfold apiStep at h
    split at h
    case h_1 c =>
      cases h
      cases c <;> simp_all [ApiPc.gates, ApiPc.joined, ApiPc.starting, ApiPc.stopping, State.Halted,
        State.Stopped, State.goto, Call.entry, State.mRunning]
    case h_6 p => exact absurd rfl (hne p)
    case h_15 => exact absurd h (by simp)
    -- every other point of a call: one access, and the next point
    all_goals try split at h
    all_goals cases h
    all_goals simp_all [ApiPc.gates, ApiPc.joined, ApiPc.starting, ApiPc.stopping, State.Halted,
      State.Stopped, State.goto, State.setRunning, State.mRunning, State.mPendingFlushJobs,
      State.mPendingFlushWakeups]

/-- Where the wait for the session tasks ends, only closures that are done are left. -/
theorem StopInv.leaving_of_sessions {c : Config State Thread} (hc : StopInv c)
    (hapi : c.shared.api = .stopSessions) (h0 : c.shared.mPendingSessionPacketTasks = 0)
    {t : Thread} (ht : t ∈ c.threads) : t.isLeaving = true := by
  rcases hc.sessions hapi t ht with rfl | hl
  · have hle := Config.le_total (w := Thread.sessions) ht
    have hbal := hc.balance.sessions
    simp only [Thread.sessions] at hle
    omega
  · exact hl

/-- A step of the caller keeps it, if its wait ends in time. -/
theorem StopInv.api {c : Config State Thread} {s' : State} {ts : List Thread} {a : Act}
    (hc : StopInv c) (h : apiStep c.shared c.shared.api a = some (s', ts))
    (hwait : c.shared.api = .stopWakeups → a = .step →
      ∀ t ∈ c.threads, t ≠ .pump (.job .countWakeup))
    (hb : Balance ⟨s', c.threads ++ ts⟩) : StopInv ⟨s', c.threads ++ ts⟩ := by
  obtain ⟨hgates, hjoined, hjobs, hsessions, hhalts⟩ := apiStep_halts h hc.gates
  refine ⟨hb, hgates, fun hj => ?_, fun hpc t ht => ?_, fun hpc t ht => ?_, fun hs => ?_⟩
  · rcases hjoined hj with h0 | ⟨h1, h2⟩
    · exact h0
    · exact h2.trans (hc.joined h1)
  · obtain ⟨rfl, h1, rfl, h0⟩ := hjobs hpc
    replace ht : t ∈ c.threads := by simpa using ht
    have hle := Config.le_total (w := Thread.wakeups) ht
    have hbal := hc.balance.wakeups
    cases t with
    | session | leaving => rfl
    | pump u =>
      have hu : u.wakeups = 0 := by simp only [Thread.wakeups] at hle; omega
      exact Pump.draining_of_wakeups hu fun hc' => hwait h1 rfl _ ht (by rw [hc'])
  · obtain ⟨rfl, h1, h0⟩ := hsessions hpc
    replace ht : t ∈ c.threads := by simpa using ht
    have hle := Config.le_total (w := Thread.jobs) ht
    have hbal := hc.balance.jobs
    cases t with
    | session => exact Or.inl rfl
    | leaving => exact Or.inr rfl
    | pump u =>
      -- a flush job would be counted
      have hu : u.jobs = 0 := by simp only [Thread.jobs] at hle; omega
      rw [Pump.leaving_of_jobs (hc.jobs h1 _ ht) hu]
      exact Or.inr rfl
  · obtain ⟨rfl, hio, h1 | ⟨h1, h0, -⟩⟩ := hhalts hs
    · obtain ⟨h2, h3⟩ := hc.halted h1
      exact ⟨fun t ht => h2 t (by simpa using ht), hio.trans h3⟩
    · refine ⟨fun t ht => ?_, hio.trans (hc.joined (by rw [h1]; rfl))⟩
      exact hc.leaving_of_sessions h1 h0 (by simpa using ht)

/-- A step of the I/O thread keeps it. -/
theorem StopInv.io {c : Config State Thread} {s' : State} {ts : List Thread} {a : Act}
    (hc : StopInv c) (h : ioStep c.shared c.shared.io a = some (s', ts))
    (hb : Balance ⟨s', c.threads ++ ts⟩) : StopInv ⟨s', c.threads ++ ts⟩ := by
  obtain ⟨hp, hapi, habs, -⟩ := ioStep_cases h
  have hrun : s'.mRunning = c.shared.mRunning := by rw [State.mRunning, hp]; rfl
  -- the I/O thread is there, so it has not been joined
  have hnot (hj : s'.api.joined = true) : False := habs (hc.joined (hapi ▸ hj))
  refine ⟨hb, by simpa only [hapi, hrun] using hc.gates, fun hj => (hnot hj).elim,
    fun hpc => (hnot (by rw [hpc]; rfl)).elim, fun hpc => (hnot (by rw [hpc]; rfl)).elim,
    fun hs => absurd (hc.halted ?_).2 habs⟩
  simpa only [State.Halted, State.Stopped, hrun, hapi] using hs

/-- So every step keeps it, if the wait ends in time. -/
theorem StopInv.step {c c' : Config State Thread} {m : Move Act} (hc : StopInv c)
    (h : program.step c m = some c') (hwait : WaitsForAll ⟨c, m, c'⟩) : StopInv c' := by
  have hb := hc.balance.step h
  cases m with
  | thread i a =>
    obtain ⟨t, rest, s', ts, -, hperm, hex, rfl⟩ := Program.step_thread_inv h
    exact hc.exec hperm hex hb
  | env a =>
    obtain ⟨s', ts, hex, rfl⟩ := Program.step_env_inv h
    rcases env_cases c.threads hex with ⟨-, rfl, rfl⟩ | hio | hapi
    · exact ⟨hb, hc.gates, hc.joined, fun hpc t ht => hc.jobs hpc t (by simpa using ht),
        fun hpc t ht => hc.sessions hpc t (by simpa using ht),
        fun hs => ⟨fun t ht => (hc.halted hs).1 t (by simpa using ht), (hc.halted hs).2⟩⟩
    · exact hc.io hio hb
    · exact hc.api hapi (fun h1 h2 => hwait h1 (by rw [h2])) hb

/-- A closure that is done accounts for nothing. -/
theorem weights_of_isLeaving {t : Thread} (ht : t.isLeaving = true) :
    t.jobs = 0 ∧ t.wakeups = 0 ∧ t.sessions = 0 := by
  cases t with
  | leaving => exact ⟨rfl, rfl, rfl⟩
  | session => exact absurd ht (by simp [Thread.isLeaving])
  | pump u =>
    cases u with
    | leaving => exact ⟨rfl, rfl, rfl⟩
    | job pc | wakeup p | wakeupFinish => exact absurd ht (by simp [Thread.isLeaving])

/-- **`stop` leaves nothing counted** in the runs in which its wait for the wakeups never
ends right before a flush job counts one: what is left are closures that are done. -/
theorem stopped_quiet {ready : ℕ} {h : List (Transition (Config State Thread) (Move Act))}
    {c : Config State Thread} (hr : (system ready).Run h c) (hwait : ∀ x ∈ h, WaitsForAll x)
    (hs : c.shared.Stopped) : Quiet c := by
  have hinv : StopInv c := hr.invariant_where (C := WaitsForAll) (StopInv.initial ready)
    (fun _ _ _ hI hst hw => hI.step hst hw) hwait
  obtain ⟨h0, hio⟩ := hinv.halted (Or.inl hs)
  obtain ⟨hj, hw, hsess⟩ := hinv.balance
  -- the call in progress is not scheduling, since the server is stopped
  have hapi : c.shared.api.jobs = 0 := by
    have hg := hinv.gates
    cases hpc : c.shared.api with
    | startSched p =>
      rw [hpc] at hg
      exact absurd hg (by simp [ApiPc.gates, hs.1])
    | _ => rfl
  refine ⟨⟨h0, hio⟩, ?_, ?_, ?_⟩
  · rw [State.mPendingFlushJobs, hj, hapi,
      Config.total_eq_zero.mpr fun t ht => (weights_of_isLeaving (h0 t ht)).1]
  · rw [State.mPendingFlushWakeups, hw,
      Config.total_eq_zero.mpr fun t ht => (weights_of_isLeaving (h0 t ht)).2.1]
  · rw [hsess, hio, Config.total_eq_zero.mpr fun t ht => (weights_of_isLeaving (h0 t ht)).2.2]
    rfl

/-- While the server is halted, its pool stays empty. -/
theorem halted_step {c c' : Config State Thread} {m : Move Act} (hc : StopInv c)
    (h : program.step c m = some c') (htail : WaitsForTails ⟨c, m, c'⟩)
    (hempty : c.shared.Halted → c.threads = []) (hs : c'.shared.Halted) : c'.threads = [] := by
  cases m with
  | thread i a =>
    -- a thread that moved was there
    obtain ⟨t, rest, s', ts, -, hperm, hex, rfl⟩ := Program.step_thread_inv h
    obtain ⟨hapi, -, hrun⟩ := exec_frame hex
    have h0 := hempty (by simpa only [State.Halted, State.Stopped, hrun, hapi] using hs)
    rw [h0] at hperm
    exact absurd hperm.length_eq (by simp)
  | env a =>
    obtain ⟨s', ts, hex, rfl⟩ := Program.step_env_inv h
    rcases env_cases c.threads hex with ⟨-, rfl, rfl⟩ | hio | hapi
    · simpa using hempty hs
    · -- a halted server has no I/O thread
      obtain ⟨hp, hapi, habs, -⟩ := ioStep_cases hio
      have hrun : s'.mRunning = c.shared.mRunning := by rw [State.mRunning, hp]; rfl
      have hs0 : c.shared.Halted := by
        simpa only [State.Halted, State.Stopped, hrun, hapi] using hs
      exact absurd (hc.halted hs0).2 habs
    · obtain ⟨-, -, -, -, hhalts⟩ := apiStep_halts hapi hc.gates
      obtain ⟨rfl, -, h1 | ⟨h1, h0, rfl⟩⟩ := hhalts hs
      · simpa using hempty h1
      · -- the last wait: no closure is counted, and none is about to return
        simp only [List.append_nil]
        refine List.eq_nil_iff_forall_not_mem.mpr fun t ht => ?_
        have hl := hc.leaving_of_sessions h1 h0 ht
        rw [htail h1 rfl t ht] at hl
        exact absurd hl (by simp)

/-- **`stop` leaves nothing running**, if its last wait does not end before the closures
that have uncounted themselves have returned. -/
theorem stopped_empty {ready : ℕ} {h : List (Transition (Config State Thread) (Move Act))}
    {c : Config State Thread} (hr : (system ready).Run h c) (hwait : ∀ x ∈ h, WaitsForAll x)
    (htail : ∀ x ∈ h, WaitsForTails x) (hs : c.shared.Stopped) : c.threads = [] := by
  have hinv : StopInv c ∧ (c.shared.Halted → c.threads = []) :=
    hr.invariant_where (I := fun c => StopInv c ∧ (c.shared.Halted → c.threads = []))
      (C := fun x => WaitsForAll x ∧ WaitsForTails x) ⟨StopInv.initial ready, fun _ => rfl⟩
      (fun _ _ _ hI hst hw => ⟨hI.1.step hst hw.1, halted_step hI.1 hst hw.2 hI.2⟩)
      fun x hx => ⟨hwait x hx, htail x hx⟩
  exact hinv.2 (Or.inl hs)

/-! ### What `stop` does not wait for -/

/-- The first flush job finds `mRunning` down and uncounts itself; `stop` sees the
counters at zero and returns before the job does. -/
def outrunning : List (Move Act) :=
  [.env (.call .start), .env .step, .env (.startup true), .env .step, .env .step, .env .step,
      .env .step, .env .step,
    .env (.call .stop), .env .step, .env .step, .env .io, .env .step, .env .step,
    .thread 0 .step, .thread 0 .step, .thread 0 .step,
    .env .step, .env .step, .env .step, .env .step]

/-- `stop` returns while a closure has still to notify the waiters. -/
theorem stop_outruns_closure :
    ∃ h c, (system 512).Run h c ∧ (∀ x ∈ h, WaitsForAll x) ∧ c.shared.Stopped ∧
      c.shared.api = .idle ∧ c.threads = [.pump .leaving] := by
  obtain ⟨h, c, hr, hp⟩ := (system 512).exists_run_of_follow
    (p := fun h c => decide ((∀ x ∈ h, WaitsForAll x) ∧ c.shared.Stopped ∧
      c.shared.api = .idle ∧ c.threads = [.pump .leaving])) outrunning (by decide)
  exact ⟨h, c, hr, of_decide_eq_true hp⟩

/-- `start` submits the first flush job, which finds nothing due and reads `mRunning` a
second time; `stop` takes it down, joins the I/O thread and finds no wakeup to wait
for; the job counts and registers one, and returns; the other waits end. -/
def missedWakeup : List (Move Act) :=
  [.env (.call .start), .env .step, .env (.startup true), .env .step, .env .step, .env .step,
      .env .step, .env .step,
    .thread 0 .step, .thread 0 (.popped .nothing), .thread 0 .step, .thread 0 .step,
    .env (.call .stop), .env .step, .env .step, .env .io, .env .step, .env .step,
    .thread 0 .step, .thread 0 .step, .thread 1 .step, .thread 1 .step,
    .env .step, .env .step, .env .step, .env .step]

/-- `stop` returns with a wakeup that was counted after its wait. -/
theorem stop_misses_wakeup :
    ∃ h c, (system 512).Run h c ∧ c.shared.Stopped ∧ c.shared.api = .idle ∧
      c.shared.mPendingFlushWakeups = 1 ∧ c.threads = [.pump (.wakeup guards.entry)] := by
  obtain ⟨h, c, hr, hp⟩ := (system 512).exists_run_of_follow
    (p := fun _ c => decide (c.shared.Stopped ∧ c.shared.api = .idle ∧
      c.shared.mPendingFlushWakeups = 1 ∧ c.threads = [.pump (.wakeup guards.entry)]))
    missedWakeup (by decide)
  exact ⟨h, c, hr, of_decide_eq_true hp⟩

end Server
end SculkProtocol
