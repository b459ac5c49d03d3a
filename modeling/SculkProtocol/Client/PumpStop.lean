import SculkProtocol.Client.PumpLiveness

/-!
# What `ClientNetworkSystem::stop` leaves behind

`stop` takes both guards down, waits for the wakeups and then for the jobs. The
order matters: a job that read the guards before they went down counts a wakeup
after the first wait is over (`stop_misses_wakeup`), and nothing waits for that
wakeup any more.

The counters are zero after the waits in every run in which `stop` never leaves
the first wait while a job stands right before the count (`stopped_quiet`). From
there on nothing but `start` and `connect` submits work, so they stay zero.

A counter is zero before the closure that brought it there has returned: it goes on
to notify the waiters. So a closure may still be running when `stop` returns
(`stop_outruns_closure`); the runs in which the last wait ends later are those of
`stopped_empty`.
-/

namespace SculkProtocol
namespace Client

/-- `stop` has begun and has not finished its waits. -/
def ApiPc.stopping : ApiPc → Bool
  | .stopActive => true
  | .stopWakeups => true
  | .stopJobs => true
  | _ => false

/-- `start` waits for the peer. -/
def ApiPc.starting : ApiPc → Bool
  | .startup => true
  | .startFailed => true
  | _ => false

/-- A `stop` has finished its waits, and no `start` has begun since. -/
def State.Stopped (s : State) : Prop := s.mRunning = false ∧ s.api.stopping = false

instance (s : State) : Decidable s.Stopped :=
  inferInstanceAs (Decidable (s.mRunning = false ∧ s.api.stopping = false))

/-- Stopped, or starting again and not yet connecting. -/
def State.Halted (s : State) : Prop := s.Stopped ∨ s.api.starting = true

/-- Nothing of the pump is counted, and the closures that are left are done. -/
def Quiet (c : Config State IoThread) : Prop :=
  (∀ t ∈ c.threads, t = .leaving) ∧ c.shared.mPendingIoJobs = 0 ∧
    c.shared.mPendingDelayedWakeups = 0

/-- Where `stop` leaves its wait for the wakeups, no job is about to count one. -/
def WaitsForAll (x : Transition (Config State IoThread) (Move Act)) : Prop :=
  x.src.shared.api = .stopWakeups → x.label = .env .step →
    ∀ t ∈ x.src.threads, t ≠ .job .countWakeup

instance : DecidablePred WaitsForAll := fun x =>
  inferInstanceAs (Decidable (x.src.shared.api = .stopWakeups → x.label = .env .step →
    ∀ t ∈ x.src.threads, t ≠ .job .countWakeup))

/-- Where `stop` leaves its last wait, no closure is between its decrement and its
return. -/
def WaitsForTails (x : Transition (Config State IoThread) (Move Act)) : Prop :=
  x.src.shared.api = .stopJobs → x.label = .env .step → ∀ t ∈ x.src.threads, t ≠ .leaving

instance : DecidablePred WaitsForTails := fun x =>
  inferInstanceAs (Decidable (x.src.shared.api = .stopJobs → x.label = .env .step →
    ∀ t ∈ x.src.threads, t ≠ .leaving))

/-- What `stop` relies on. -/
structure StopInv (c : Config State IoThread) : Prop where
  balance : Balance c
  gates : c.shared.api.gates c.shared.mRunning c.shared.mIoPumpActive = true
  /-- While `stop` waits for the jobs, no wakeup is left and none is registered. -/
  jobs : c.shared.api = .stopJobs → ∀ t ∈ c.threads, t.draining = true
  halted : c.shared.Halted → ∀ t ∈ c.threads, t = .leaving

/-- A client that nobody has started has the invariant. -/
theorem StopInv.initial : StopInv ⟨State.initial, []⟩ where
  balance := ⟨rfl, rfl, rfl⟩
  gates := rfl
  jobs _ _ h := absurd h List.not_mem_nil
  halted _ _ h := absurd h List.not_mem_nil

/-- A closure that is done leaves nothing behind. -/
theorem exec_leaving {s s' : State} {a : Act} {ts : List IoThread}
    (h : exec s .leaving a = some (s', ts)) : ts = [] := by
  rcases exec_cases h with ⟨b, -, ht, -⟩ | ⟨p, -, ht, -⟩ | ⟨p, -, hex, -⟩
  · exact absurd ht (by simp)
  · exact absurd ht (by simp)
  · cases hex
    rfl

/-- A step of a pool thread keeps the invariant. -/
theorem StopInv.exec {c : Config State IoThread} {t : IoThread} {rest ts : List IoThread}
    {s' : State} {a : Act} (hc : StopInv c) (hperm : c.threads.Perm (t :: rest))
    (hex : exec c.shared t a = some (s', ts)) (hb : Balance ⟨s', rest ++ ts⟩) :
    StopInv ⟨s', rest ++ ts⟩ := by
  obtain ⟨hapi, hflags, -⟩ := exec_frame hex
  have hrun : s'.mRunning = c.shared.mRunning := congrFun hflags _
  have hact : s'.mIoPumpActive = c.shared.mIoPumpActive := congrFun hflags _
  have ht : t ∈ c.threads := hperm.mem_iff.mpr List.mem_cons_self
  have hrest : ∀ u ∈ rest, u ∈ c.threads := fun u hu =>
    hperm.mem_iff.mpr (List.mem_cons_of_mem _ hu)
  refine ⟨hb, by simpa only [hapi, hrun, hact] using hc.gates, fun hpc u hu => ?_,
    fun hs u hu => ?_⟩
  · -- both guards are down, so what a draining closure leaves behind is draining too
    have hpc0 : c.shared.api = .stopJobs := hapi.symm.trans hpc
    rcases List.mem_append.mp hu with hu | hu
    · exact hc.jobs hpc0 u (hrest u hu)
    · rcases exec_cases hex with ⟨b, -, rfl, -, rfl⟩ | ⟨p, -, rfl, -, rfl⟩ | ⟨p, -, hex, -⟩
      · obtain rfl := List.mem_singleton.mp hu
        rfl
      · obtain rfl := List.mem_singleton.mp hu
        rfl
      · have hg := hc.gates
        rw [hpc0] at hg
        simp only [ApiPc.gates, Bool.and_eq_true, Bool.not_eq_true'] at hg
        have hclosed : c.shared.pump.Closed := fun f => by cases f; exacts [hg.1, hg.2]
        exact Pump.exec_closed hex hclosed (hc.jobs hpc0 t ht) u hu
  · -- a halted client has tails only, and a tail starts nothing
    have hs0 : c.shared.Halted := by
      simpa only [State.Halted, State.Stopped, hrun, hapi] using hs
    rcases List.mem_append.mp hu with hu | hu
    · exact hc.halted hs0 u (hrest u hu)
    · obtain rfl := hc.halted hs0 t ht
      rw [exec_leaving hex] at hu
      exact absurd hu List.not_mem_nil

/-- How a call gets to the wait for the jobs, and how it halts the client. -/
theorem apiStep_halts {s s' : State} {a : Act} {ts : List IoThread}
    (h : apiStep s s.api a = some (s', ts))
    (hg : s.api.gates s.mRunning s.mIoPumpActive = true) :
    (s'.api = .stopJobs → ts = [] ∧ s.api = .stopWakeups ∧ a = .step ∧
        s.pump.pendingWakeups = 0) ∧
      (s'.Halted → ts = [] ∧
        (s.Halted ∨ s.api = .stopJobs ∧ s.pump.pendingJobs = 0 ∧ a = .step)) := by
  -- a call is either inside of the scheduling or at a place of its own
  rcases apiStep_cases h with ⟨p, hp, -, rfl, -⟩ | ⟨hne, rfl, -⟩
  · have hf := (Pump.sched_frame (G := guards) (T := Unit) (s := s.pump) p).1
    rw [hp] at hg
    simp only [State.Halted, State.Stopped, State.mRunning, hf] at hg ⊢
    cases (Pump.sched (T := Unit) guards s.pump p).2.1 <;>
      simp_all [ApiPc.gates, ApiPc.starting]
  · revert hg
    generalize hpc : s.api = pc at h hne
    intro hg
    unfold apiStep at h
    split at h
    -- a call that begins is not at the waits yet
    case h_1 c =>
      cases h
      refine ⟨fun h => absurd h (by cases c <;> simp [State.goto, Call.entry]),
        fun h => ⟨rfl, Or.inl ?_⟩⟩
      rcases h with h | h
      · exact Or.inl ⟨h.1, by rw [hpc]; rfl⟩
      · exact absurd h (by cases c <;> simp [State.goto, Call.entry, ApiPc.starting])
    case h_15 p => exact absurd rfl (hne p)
    case h_20 => exact absurd h (by simp)
    all_goals try split at h
    all_goals cases h
    all_goals simp_all [ApiPc.gates, ApiPc.starting, ApiPc.stopping, State.Halted, State.Stopped,
      State.goto, State.store, State.mRunning, State.mIoPumpActive, State.mPendingIoJobs,
      State.mPendingDelayedWakeups]

/-- A step of the caller keeps it, if its wait ends in time. -/
theorem StopInv.api {c : Config State IoThread} {s' : State} {ts : List IoThread} {a : Act}
    (hc : StopInv c) (h : apiStep c.shared c.shared.api a = some (s', ts))
    (hwait : c.shared.api = .stopWakeups → a = .step → ∀ t ∈ c.threads, t ≠ .job .countWakeup)
    (hb : Balance ⟨s', c.threads ++ ts⟩) : StopInv ⟨s', c.threads ++ ts⟩ := by
  obtain ⟨hjobs, hhalts⟩ := apiStep_halts h hc.gates
  refine ⟨hb, apiStep_gates h hc.gates, fun hpc t ht => ?_, fun hs t ht => ?_⟩
  · obtain ⟨rfl, h1, rfl, h0⟩ := hjobs hpc
    replace ht : t ∈ c.threads := by simpa using ht
    have hw : t.wakeups = 0 := by
      have := Config.le_total (w := Pump.Thread.wakeups) ht
      have := hc.balance.wakeups
      omega
    exact Pump.draining_of_wakeups hw (hwait h1 rfl t ht)
  · obtain ⟨rfl, h1 | ⟨h1, h0, -⟩⟩ := hhalts hs
    · exact hc.halted h1 t (by simpa using ht)
    · -- the wait for the jobs is over, and a job would be counted
      replace ht : t ∈ c.threads := by simpa using ht
      have hj : t.jobs = 0 := by
        have := Config.le_total (w := Pump.Thread.jobs) ht
        have := hc.balance.jobs
        omega
      exact Pump.leaving_of_jobs (hc.jobs h1 t ht) hj

/-- So every step keeps it, if the wait ends in time. -/
theorem StopInv.step {c c' : Config State IoThread} {m : Move Act} (hc : StopInv c)
    (h : program.step c m = some c') (hwait : WaitsForAll ⟨c, m, c'⟩) : StopInv c' := by
  have hb := hc.balance.step h
  cases m with
  | thread i a =>
    obtain ⟨t, rest, s', ts, -, hperm, hex, rfl⟩ := Program.step_thread_inv h
    exact hc.exec hperm hex hb
  | env a =>
    obtain ⟨s', ts, hex, rfl⟩ := Program.step_env_inv h
    rcases env_cases c.threads hex with ⟨-, rfl, rfl⟩ | hapi
    · exact ⟨hb, hc.gates, fun hpc t ht => hc.jobs hpc t (by simpa using ht),
        fun hs t ht => hc.halted hs t (by simpa using ht)⟩
    · exact hc.api hapi (fun h1 h2 => hwait h1 (by rw [h2])) hb

/-- **`stop` leaves nothing counted** in the runs in which its first wait never ends
right before a job counts a wakeup: what is left are closures that are done. -/
theorem stopped_quiet {h : List (Transition (Config State IoThread) (Move Act))}
    {c : Config State IoThread} (hr : system.Run h c) (hwait : ∀ x ∈ h, WaitsForAll x)
    (hs : c.shared.Stopped) : Quiet c := by
  have hinv : StopInv c := hr.invariant_where (C := WaitsForAll) StopInv.initial
    (fun _ _ _ hI hst hw => hI.step hst hw) hwait
  have h0 : ∀ t ∈ c.threads, t = .leaving := hinv.halted (Or.inl hs)
  obtain ⟨hj, hw, -⟩ := hinv.balance
  have hapi : c.shared.api.jobs = 0 := by
    have hg := hinv.gates
    cases hpc : c.shared.api with
    | connectSched p =>
      rw [hpc] at hg
      simp only [ApiPc.gates, Bool.and_eq_true] at hg
      exact absurd hg.1 (by rw [hs.1]; simp)
    | _ => rfl
  refine ⟨h0, ?_, ?_⟩
  · rw [State.mPendingIoJobs, hj, hapi, Config.total_eq_zero.mpr fun t ht => by rw [h0 t ht]; rfl]
  · rw [State.mPendingDelayedWakeups, hw,
      Config.total_eq_zero.mpr fun t ht => by rw [h0 t ht]; rfl]

/-- While the client is halted, its pool stays empty. -/
theorem halted_step {c c' : Config State IoThread} {m : Move Act} (hc : StopInv c)
    (h : program.step c m = some c') (htail : WaitsForTails ⟨c, m, c'⟩)
    (hempty : c.shared.Halted → c.threads = []) (hs : c'.shared.Halted) : c'.threads = [] := by
  cases m with
  | thread i a =>
    -- a thread that moved was there
    obtain ⟨t, rest, s', ts, -, hperm, hex, rfl⟩ := Program.step_thread_inv h
    obtain ⟨hapi, hflags, -⟩ := exec_frame hex
    have hrun : s'.mRunning = c.shared.mRunning := congrFun hflags _
    have h0 := hempty (by simpa only [State.Halted, State.Stopped, hrun, hapi] using hs)
    rw [h0] at hperm
    exact absurd hperm.length_eq (by simp)
  | env a =>
    obtain ⟨s', ts, hex, rfl⟩ := Program.step_env_inv h
    rcases env_cases c.threads hex with ⟨-, rfl, rfl⟩ | hapi
    · simpa using hempty hs
    · obtain ⟨rfl, h1 | ⟨h1, h0, rfl⟩⟩ := (apiStep_halts hapi hc.gates).2 hs
      · simpa using hempty h1
      · -- the last wait: no closure is counted, and none is about to return
        simp only [List.append_nil]
        refine List.eq_nil_iff_forall_not_mem.mpr fun t ht => ?_
        have hj : t.jobs = 0 := by
          have := Config.le_total (w := Pump.Thread.jobs) ht
          have := hc.balance.jobs
          omega
        exact htail h1 rfl t ht (Pump.leaving_of_jobs (hc.jobs h1 t ht) hj)

/-- **`stop` leaves nothing running**, if its last wait does not end before the closures
that have uncounted themselves have returned. -/
theorem stopped_empty {h : List (Transition (Config State IoThread) (Move Act))}
    {c : Config State IoThread} (hr : system.Run h c) (hwait : ∀ x ∈ h, WaitsForAll x)
    (htail : ∀ x ∈ h, WaitsForTails x) (hs : c.shared.Stopped) : c.threads = [] := by
  have hinv : StopInv c ∧ (c.shared.Halted → c.threads = []) :=
    hr.invariant_where (I := fun c => StopInv c ∧ (c.shared.Halted → c.threads = []))
      (C := fun x => WaitsForAll x ∧ WaitsForTails x) ⟨StopInv.initial, fun _ => rfl⟩
      (fun _ _ _ hI hst hw => ⟨hI.1.step hst hw.1, halted_step hI.1 hst hw.2 hI.2⟩)
      fun x hx => ⟨hwait x hx, htail x hx⟩
  exact hinv.2 (Or.inl hs)

/-! ### What `stop` does not wait for -/

/-- The first job of a client that is connecting finds the guards down and uncounts
itself; `stop` sees the counter at zero and returns before the job does. -/
def outrunning : List (Move Act) :=
  connected ++
    [.env (.call .stop), .env .step, .env .step, .env .step,
      .thread 0 .step, .thread 0 .step, .thread 0 .step,
      .env .step, .env .step, .env .step]

/-- `stop` returns while a closure has still to notify the waiters. -/
theorem stop_outruns_closure :
    ∃ h c, system.Run h c ∧ (∀ x ∈ h, WaitsForAll x) ∧ c.shared.Stopped ∧
      c.shared.api = .idle ∧ c.threads = [.leaving] := by
  obtain ⟨h, c, hr, hp⟩ := system.exists_run_of_follow
    (p := fun h c => decide ((∀ x ∈ h, WaitsForAll x) ∧ c.shared.Stopped ∧
      c.shared.api = .idle ∧ c.threads = [.leaving])) outrunning (by decide)
  exact ⟨h, c, hr, of_decide_eq_true hp⟩

/-- The first job of a client that is connecting reads both guards a second time; `stop`
takes them down and finds no wakeup to wait for; the job counts and registers one, and
returns; the wait for the jobs ends. -/
def missedWakeup : List (Move Act) :=
  connected ++
    [.thread 0 .step, .thread 0 .step, .thread 0 (.ticked false), .thread 0 .step,
      .thread 0 .step, .thread 0 .step,
      .env (.call .stop), .env .step, .env .step, .env .step,
      .thread 0 .step, .thread 0 .step, .thread 1 .step, .thread 1 .step,
      .env .step, .env .step, .env .step]

/-- `stop` returns with a wakeup that was counted after its wait. -/
theorem stop_misses_wakeup :
    ∃ h c, system.Run h c ∧ c.shared.Stopped ∧ c.shared.api = .idle ∧
      c.shared.mPendingDelayedWakeups = 1 ∧ c.threads = [.wakeup guards.entry] := by
  obtain ⟨h, c, hr, hp⟩ := system.exists_run_of_follow
    (p := fun _ c => decide (c.shared.Stopped ∧ c.shared.api = .idle ∧
      c.shared.mPendingDelayedWakeups = 1 ∧ c.threads = [.wakeup guards.entry])) missedWakeup
        (by decide)
  exact ⟨h, c, hr, of_decide_eq_true hp⟩

end Client
end SculkProtocol
