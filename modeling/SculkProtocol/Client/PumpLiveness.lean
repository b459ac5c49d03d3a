import SculkProtocol.Client.Pump
import SculkProtocol.Pump.Liveness
import SculkProtocol.Pump.Shutdown

/-!
# The client's pump never dies

`pump_never_dies`: on a running thread pool, `ioTickOnce` never runs twice at the
same time, and whenever `mRunning` and `mIoPumpActive` are up and no call is in
progress, some job or wakeup is live and, however the pool orders its threads, a
tick comes.

A chain ends when a thread finds a guard down, so the argument is about the
moments at which the gate is closed and opened again. `disconnect` and `stop`
close it and wait, first for the wakeups and then for the jobs. A job that had
read the guards before can register one more wakeup after the first wait; such a
wakeup has not read `mIoPumpActive` and is called *late*, as is a closure that has
uncounted itself. Hence, once the waits are over, every thread left is late
(`ThreadInv.late_closed`). A late thread holds no flag and is not giving up, so when
`connect` opens the gate nobody is about to
clear `mIoPumpScheduled` without continuing the chain: whoever beats `connect` to
the compare-and-swap is live.
-/

namespace SculkProtocol
namespace Client

/-- The flags that are possible at each program point of a call. -/
def ApiPc.gates (running active : Bool) : ApiPc → Bool
  | .startup => running && !active
  | .startFailed => running && !active
  | .stopActive => !running
  | .stopWakeups => !running && !active
  | .stopJobs => !running && !active
  | .stopTeardown _ => !running && !active
  | .stopShutdown => !running && !active
  | .connectSession => running
  | .connectPeer => running
  | .connectActive => running
  | .connectSched _ => running && active
  | .disconnectWakeups => !active
  | .disconnectJobs => !active
  | .disconnectTeardown => !active
  | _ => running || !active

/-- The call has waited for the wakeups and is waiting for the jobs. -/
def ApiPc.draining : ApiPc → Bool
  | .stopJobs => true
  | .disconnectJobs => true
  | _ => false

/-- The pool has refused the job `connect` submitted. -/
def ApiPc.refused : ApiPc → Bool
  | .connectSched p => p.refused
  | _ => false

/-- Whether the call in progress may still submit a job. -/
def ApiPc.live : ApiPc → ℕ
  | .connectSched p => p.live
  | _ => 0

@[simp] theorem api_return_live (o : Option (Pump.SchedPc Flag)) :
    (o.elim .idle .connectSched : ApiPc).live = Pump.next Pump.SchedPc.live o := by
  cases o <;> rfl

/-- What is known of a pool thread at each point of a call. -/
structure ThreadInv (s : State) (t : IoThread) : Prop where
  /-- After the wait for wakeups only jobs and late threads are left. -/
  late_draining : s.api.draining = true → t.isJob = true ∨ t.late .mIoPumpActive = true
  /-- While the pump is inactive and no call is waiting, only late threads are left. -/
  late_closed : s.mIoPumpActive = false → s.api.closing = false →
    t.late .mIoPumpActive = true
  not_givingUp : s.mRunning = true → s.mIoPumpActive = true → t.givingUp = false
  not_refused : s.pump.accepting = true → t.refused = false

/-- The invariant of the client's pump. -/
structure Invariant (c : Config State IoThread) : Prop where
  balance : Balance c
  gates : c.shared.api.gates c.shared.mRunning c.shared.mIoPumpActive = true
  not_refused : c.shared.pump.accepting = true → c.shared.api.refused = false
  threads : ∀ t ∈ c.threads, ThreadInv c.shared t
  alive : c.shared.pump.accepting = true → c.shared.mRunning = true →
    c.shared.mIoPumpActive = true →
    0 < Config.total Pump.Thread.live c.threads + c.shared.api.live

/-- Both flags together are the guard of the pump. -/
theorem open_of {s : State} (h1 : s.mRunning = true) (h2 : s.mIoPumpActive = true) :
    s.pump.Open := by
  intro g
  cases g
  · exact h1
  · exact h2

/-! ### The flags and the calls -/

/-- The flags stay possible along a call. -/
theorem apiStep_gates {s s' : State} {a : Act} {ts : List IoThread}
    (h : apiStep s s.api a = some (s', ts))
    (hg : s.api.gates s.mRunning s.mIoPumpActive = true) :
    s'.api.gates s'.mRunning s'.mIoPumpActive = true := by
  rcases apiStep_cases h with ⟨p, hp, -, rfl, -⟩ | ⟨hne, -⟩
  · have hf := (Pump.sched_frame (G := guards) (T := Unit) (s := s.pump) p).1
    simp only [State.mRunning, State.mIoPumpActive, hf] at hg ⊢
    rw [hp] at hg
    cases (Pump.sched (T := Unit) guards s.pump p).2.1 with
    | none => simp_all [ApiPc.gates]
    | some q => exact hg
  · revert hg
    generalize hpc : s.api = pc at h hne
    unfold apiStep at h
    split at h
    case h_1 c => cases h; cases c <;> simp [ApiPc.gates, State.goto, Call.entry, State.mRunning,
      State.mIoPumpActive]
    case h_15 p => exact absurd rfl (hne p)
    case h_20 => exact absurd h (by simp)
    all_goals try split at h
    all_goals cases h
    all_goals simp_all [ApiPc.gates, State.goto, State.store, State.mRunning, State.mIoPumpActive]

/-- A late thread is not giving up. -/
theorem not_givingUp_of_late {t : IoThread} {f : Flag} (h : t.late f = true) :
    t.givingUp = false := by
  cases t with
  | job pc => exact absurd h (by simp [Pump.Thread.late])
  | wakeup p | wakeupFinish | leaving => rfl

/-! ### Threads across a step of a call -/

/-- A step that closes no guard, opens none and waits for nothing. -/
theorem ThreadInv.quiet {s s' : State} {t : IoThread} (ht : ThreadInv s t)
    (hd : s'.api.draining = false)
    (hc : s'.mIoPumpActive = false →
      s'.api.closing = true ∨ s.mIoPumpActive = false ∧ s.api.closing = false)
    (ho : s'.mIoPumpActive = true → s.mIoPumpActive = true)
    (hr : s'.mRunning = true → s'.mIoPumpActive = true → s.mRunning = true)
    (ha : s'.pump.accepting = s.pump.accepting) : ThreadInv s' t where
  late_draining h := by rw [hd] at h; exact absurd h (by simp)
  late_closed h hcl := by
    rcases hc h with h1 | ⟨h1, h2⟩
    · rw [h1] at hcl; exact absurd hcl (by simp)
    · exact ht.late_closed h1 h2
  not_givingUp h1 h2 := ht.not_givingUp (hr h1 h2) (ho h2)
  not_refused h := ht.not_refused (ha ▸ h)

/-- A step of the caller keeps what is known of a thread. -/
theorem apiStep_threadInv {s s' : State} {a : Act} {ts : List IoThread} {t : IoThread}
    (h : apiStep s s.api a = some (s', ts))
    (hg : s.api.gates s.mRunning s.mIoPumpActive = true)
    (hj : s.pump.pendingJobs = 0 → t.jobs = 0)
    (hw : s.pump.pendingWakeups = 0 → t.wakeups = 0) (ht : ThreadInv s t) : ThreadInv s' t := by
  rcases apiStep_cases h with ⟨p, hp, -, rfl, -⟩ | ⟨hne, -, -, -, -, -, hacc⟩
  · obtain ⟨hf, ha⟩ := Pump.sched_frame (G := guards) (T := Unit) (s := s.pump) p
    have hactive : s.mIoPumpActive = true := by
      rw [hp] at hg; simp only [ApiPc.gates, Bool.and_eq_true] at hg; exact hg.2
    refine ht.quiet ?_ (fun h0 => ?_) (fun _ => hactive) (fun h1 _ => ?_) ha
    · cases (Pump.sched (T := Unit) guards s.pump p).2.1 <;> rfl
    · simp only [State.mIoPumpActive, hf] at h0
      exact absurd hactive (by simp only [State.mIoPumpActive, h0]; simp)
    · simpa only [State.mRunning, hf] using h1
  · revert hg
    generalize hpc : s.api = pc at h hne
    intro hg
    unfold apiStep at h
    split at h
    case h_15 p => exact absurd rfl (hne p)
    case h_20 => exact absurd h (by simp)
    case h_1 c =>
      cases h
      have hcl : c.entry.closing = false := by cases c <;> rfl
      have hdr : c.entry.draining = false := by cases c <;> rfl
      exact ht.quiet hdr (fun h0 => Or.inr ⟨h0, by rw [hpc]; rfl⟩) id (fun h1 _ => h1) rfl
    case h_14 =>
      -- `connect` opens the gate: a thread it finds behind a closed gate is late
      cases h
      refine ⟨fun h => absurd h (by simp [State.goto, ApiPc.draining]), fun h => ?_, fun _ _ => ?_,
        ht.not_refused⟩
      · exact absurd h (by simp [State.goto, State.store, State.mIoPumpActive])
      · cases hact : s.mIoPumpActive with
        | true => exact ht.not_givingUp hg hact
        | false => exact not_givingUp_of_late (ht.late_closed hact (by rw [hpc]; rfl))
    case h_7 | h_17 =>
      -- no wakeup is left, so every thread is a job or done
      split at h
      · next h0 =>
        cases h
        refine ⟨fun _ => ?_, fun _ h => ?_, ht.not_givingUp, ht.not_refused⟩
        · rcases Pump.isJob_of_wakeups (hw h0) with hjob | rfl
          · exact Or.inl hjob
          · exact Or.inr rfl
        · exact absurd h (by simp [State.goto, ApiPc.closing])
      · exact absurd h (by simp)
    case h_8 | h_18 =>
      -- no job is left, so every thread is late
      split at h
      · next h0 =>
        cases h
        refine ⟨fun h => absurd h (by simp [State.goto, ApiPc.draining]), fun _ _ => ?_,
          ht.not_givingUp, ht.not_refused⟩
        rcases ht.late_draining (by rw [hpc]; rfl) with h | h
        · rw [Pump.not_isJob_of_jobs (hj h0)] at h; exact absurd h (by simp)
        · exact h
      · exact absurd h (by simp)
    all_goals try split at h
    all_goals cases h
    all_goals refine ht.quiet ?_ ?_ ?_ ?_ ?_
    all_goals simp_all [ApiPc.gates, ApiPc.closing, ApiPc.draining, State.goto, State.store,
      State.mRunning, State.mIoPumpActive]

/-- While a caller drains, the pump is not active. -/
theorem inactive_of_draining {pc : ApiPc} {running active : Bool} (hd : pc.draining = true)
    (hg : pc.gates running active = true) : active = false := by
  unfold ApiPc.draining at hd
  split at hd <;> simp_all [ApiPc.gates]

/-- The threads a pool thread leaves behind. -/
theorem exec_threadInv {s s' : State} {t : IoThread} {a : Act} {ts : List IoThread}
    (h : exec s t a = some (s', ts)) (hg : s.api.gates s.mRunning s.mIoPumpActive = true)
    (ht : ThreadInv s t) : ∀ u ∈ ts, ThreadInv s' u := by
  intro u hu
  obtain ⟨hapi, hflags, hacc⟩ := exec_frame h
  rcases exec_cases h with ⟨b, -, rfl, rfl, rfl⟩ | ⟨p, -, rfl, rfl, rfl⟩ | ⟨p, -, hex, rfl⟩
  · obtain rfl := List.mem_singleton.mp hu
    exact ⟨ht.late_draining, ht.late_closed, ht.not_givingUp, ht.not_refused⟩
  · obtain rfl := List.mem_singleton.mp hu
    exact ⟨fun _ => Or.inl rfl, fun h1 h2 => absurd (ht.late_closed h1 h2)
      (by simp [Pump.Thread.late]), fun _ _ => rfl, fun _ => rfl⟩
  · -- a step of the pump protocol: its own lemmas, with the flags as they were
    have hf (f : Flag) : p.flags f = s.pump.flags f := congrFun hflags f
    refine ⟨fun hd => ?_, fun h1 h2 => ?_, fun h1 h2 => ?_, fun h1 => ?_⟩
    · rcases ht.late_draining hd with hjob | hlate
      · rcases Pump.exec_isJob hex hjob u hu with h3 | rfl | rfl
        · exact Or.inl h3
        · exact Or.inr rfl
        · exact Or.inr rfl
      · exact Or.inr (Pump.exec_late hex (inactive_of_draining hd hg) hlate u hu)
    · have hactive : s.pump.flags .mIoPumpActive = false := (hf _).symm.trans h1
      exact Pump.exec_late hex hactive (ht.late_closed hactive h2) u hu
    · exact Pump.exec_open hex (open_of ((hf _).symm.trans h1) ((hf _).symm.trans h2)) u hu
    · have ha : s.pump.accepting = true := hacc ▸ h1
      exact Pump.exec_accepted hex ha (ht.not_refused ha) u hu

/-- What a pool thread knows does not depend on the counters or on `mSession`. -/
theorem ThreadInv.frame {s s' : State} {t : IoThread} (ht : ThreadInv s t)
    (hapi : s'.api = s.api) (hflags : s'.pump.flags = s.pump.flags)
    (hacc : s'.pump.accepting = s.pump.accepting) : ThreadInv s' t := by
  obtain ⟨h1, h2, h3, h4⟩ := ht
  constructor
  all_goals simp only [State.mRunning, State.mIoPumpActive, hapi, hflags, hacc] at *
  all_goals assumption

/-! ### The invariant -/

/-- A client that nobody has started has the invariant. -/
theorem Invariant.initial : Invariant ⟨State.initial, []⟩ where
  balance := ⟨rfl, rfl, rfl⟩
  gates := rfl
  not_refused _ := rfl
  threads _ h := absurd h List.not_mem_nil
  alive _ h := absurd h (by simp [State.mRunning, State.initial])

/-- While the gate is open, the holder of the flag is live. -/
theorem holds_le_live {s : State} {ts : List IoThread} (hts : ∀ t ∈ ts, ThreadInv s t)
    (ha : s.pump.accepting = true) (h1 : s.mRunning = true) (h2 : s.mIoPumpActive = true) :
    Config.total Pump.Thread.holds ts ≤ Config.total Pump.Thread.live ts :=
  Config.total_mono fun t ht =>
    Pump.holds_le_live ((hts t ht).not_givingUp h1 h2) ((hts t ht).not_refused ha)

/-- A caller that holds the flag is alive. -/
theorem api_holds_le_live {pc : ApiPc} (h : pc.refused = false) : pc.holds ≤ pc.live := by
  cases pc with
  | connectSched p => cases p <;> simp_all [ApiPc.holds, ApiPc.live, ApiPc.refused,
      Pump.SchedPc.holds, Pump.SchedPc.live, Pump.SchedPc.refused]
  | _ => simp [ApiPc.holds]

/-- A pool thread keeps its chain alive or leaves it to the holder of the flag. -/
theorem exec_alive {s s' : State} {t : IoThread} {a : Act} {ts : List IoThread}
    (h : exec s t a = some (s', ts)) (ho : s.pump.Open) (ha : s.pump.accepting = true) :
    t.live ≤ Config.total Pump.Thread.live ts ∨ s.pump.scheduled = true ∧ t.holds = 0 := by
  rcases exec_cases h with ⟨b, -, rfl, rfl, rfl⟩ | ⟨p, -, rfl, rfl, rfl⟩ | ⟨p, -, hex, rfl⟩
  · left; simp
  · left; simp [Pump.Thread.live]
  · rcases Pump.exec_live_open hex ho ha with hl | ⟨hs, hh, -⟩
    · exact Or.inl hl
    · exact Or.inr ⟨hs, hh⟩

/-- A step of a pool thread keeps the invariant. -/
theorem Invariant.exec {c : Config State IoThread} {t : IoThread} {rest ts : List IoThread}
    {s' : State} {a : Act} (hc : Invariant c) (hperm : c.threads.Perm (t :: rest))
    (hex : exec c.shared t a = some (s', ts)) (hb : Balance ⟨s', rest ++ ts⟩) :
    Invariant ⟨s', rest ++ ts⟩ := by
  obtain ⟨hapi, hflags, hacc⟩ := exec_frame hex
  have hrun : s'.mRunning = c.shared.mRunning := congrFun hflags _
  have hact : s'.mIoPumpActive = c.shared.mIoPumpActive := congrFun hflags _
  have hrest : ∀ u ∈ rest, ThreadInv c.shared u := fun u hu =>
    hc.threads u (hperm.mem_iff.mpr (List.mem_cons_of_mem _ hu))
  have ht : ThreadInv c.shared t := hc.threads t (hperm.mem_iff.mpr List.mem_cons_self)
  refine ⟨hb, ?_, ?_, fun u hu => ?_, fun ha h1 h2 => ?_⟩
  · simpa only [hapi, hrun, hact] using hc.gates
  · simpa only [hapi, hacc] using hc.not_refused
  · rcases List.mem_append.mp hu with hu | hu
    · exact (hrest u hu).frame hapi hflags hacc
    · exact exec_threadInv hex hc.gates ht u hu
  · simp only [hrun, hact, hacc, hapi] at ha h1 h2 ⊢
    have halive := hc.alive ha h1 h2
    rw [Config.total_perm _ hperm, Config.total_cons] at halive
    rw [Config.total_append]
    rcases exec_alive hex (open_of h1 h2) ha with hl | ⟨hs, hh⟩
    · omega
    · -- the thread lost the compare-and-swap, so the flag is held by somebody else
      have hholds := hc.balance.holds
      rw [hs, Config.total_perm _ hperm, Config.total_cons, hh] at hholds
      have h3 := holds_le_live hrest ha h1 h2
      have h4 := api_holds_le_live (hc.not_refused ha)
      simp only [Bool.toNat_true] at hholds
      omega

/-- Outside `scheduleIoPump`, a call finds the gate open or opens it to schedule. -/
theorem apiStep_opens {s s' : State} {a : Act} {ts : List IoThread}
    (h : apiStep s s.api a = some (s', ts))
    (hg : s.api.gates s.mRunning s.mIoPumpActive = true) (hne : ∀ p, s.api ≠ .connectSched p) :
    s'.api.refused = false ∧ (s'.mRunning = true → s'.mIoPumpActive = true →
      0 < s'.api.live ∨ s.mRunning = true ∧ s.mIoPumpActive = true) := by
  revert hg
  generalize hpc : s.api = pc at h hne
  intro hg
  unfold apiStep at h
  split at h
  case h_1 c => cases h; exact ⟨by cases c <;> rfl, fun h1 h2 => Or.inr ⟨h1, h2⟩⟩
  -- `connect` opens the gate and goes on to schedule
  case h_14 => cases h; exact ⟨rfl, fun _ _ => Or.inl Nat.zero_lt_one⟩
  case h_15 p => exact absurd rfl (hne p)
  case h_20 => exact absurd h (by simp)
  all_goals try split at h
  all_goals cases h
  all_goals refine ⟨rfl, fun h1 h2 => Or.inr ?_⟩
  all_goals simp_all [ApiPc.gates, State.goto, State.store, State.mRunning, State.mIoPumpActive]

/-- A step of a caller keeps it. -/
theorem Invariant.api {c : Config State IoThread} {ts : List IoThread} {s' : State} {a : Act}
    (hc : Invariant c) (h : apiStep c.shared c.shared.api a = some (s', ts))
    (hb : Balance ⟨s', c.threads ++ ts⟩) : Invariant ⟨s', c.threads ++ ts⟩ := by
  have hjobs := hc.balance.jobs
  have hwakeups := hc.balance.wakeups
  have hgates := apiStep_gates h hc.gates
  have hold : ∀ t ∈ c.threads, ThreadInv s' t := fun t ht => by
    refine apiStep_threadInv h hc.gates (fun h0 => ?_) (fun h0 => ?_) (hc.threads t ht)
    · have := Config.le_total (w := Pump.Thread.jobs) ht; omega
    · have := Config.le_total (w := Pump.Thread.wakeups) ht; omega
  rcases apiStep_cases h with ⟨p, hp, -, hs', rfl⟩ | ⟨hne, rfl, -, -, -, -, hacc⟩
  · -- `connect` is scheduling: both guards are up, and stay so
    have hopen := hc.gates
    rw [hp] at hopen
    simp only [ApiPc.gates, Bool.and_eq_true] at hopen
    obtain ⟨h1, h2⟩ := hopen
    obtain ⟨hf, ha⟩ := Pump.sched_frame (G := guards) (T := Unit) (s := c.shared.pump) p
    have hact' : s'.mIoPumpActive = true := by
      rw [hs']; simp only [State.mIoPumpActive, hf]; exact h2
    have hacc : s'.pump.accepting = c.shared.pump.accepting := by rw [hs']; exact ha
    have hrefused (ha0 : c.shared.pump.accepting = true) : p.refused = false := by
      have := hc.not_refused ha0
      rw [hp] at this
      exact this
    refine ⟨hb, hgates, fun ha' => ?_, fun u hu => ?_, fun ha' _ _ => ?_⟩
    · rw [hacc] at ha'
      have hnext := Pump.sched_accepted (G := guards) (T := Unit) p ha' (hrefused ha')
      rw [hs']
      dsimp only
      cases hr : (Pump.sched (T := Unit) guards c.shared.pump p).2.1 with
      | none => rfl
      | some q => exact hnext q hr
    · rcases List.mem_append.mp hu with hu | hu
      · exact hold u hu
      · rw [Pump.sched_submitted p u hu]
        exact ⟨fun _ => Or.inl rfl, fun h0 => absurd hact' (by rw [h0]; simp), fun _ _ => rfl,
          fun _ => rfl⟩
    · rw [hacc] at ha'
      have halive := hc.alive ha' h1 h2
      rw [hp] at halive
      rw [Config.total_append]
      have hlive : s'.api.live = Pump.next Pump.SchedPc.live
          (Pump.sched (T := Unit) guards c.shared.pump p).2.1 := by
        rw [hs']; exact api_return_live _
      rw [hlive]
      rcases Pump.sched_live_open (G := guards) (T := Unit) p (open_of h1 h2) ha' with
        hl | ⟨hs, hh, -⟩
      · simp only [ApiPc.live] at halive
        omega
      · -- `connect` lost the compare-and-swap, so a thread holds the flag
        have hholds := hc.balance.holds
        rw [hs, hp, connectSched_holds, hh] at hholds
        have h3 := holds_le_live hc.threads ha' h1 h2
        simp only [Bool.toNat_true] at hholds
        omega
  · -- the other steps add no thread, and find the gates open or open them to schedule
    obtain ⟨hr, hopens⟩ := apiStep_opens h hc.gates hne
    refine ⟨hb, hgates, fun _ => hr, fun u hu => hold u (by simpa using hu), fun ha' h1 h2 => ?_⟩
    rcases hopens h1 h2 with h3 | ⟨h3, h4⟩
    · exact Nat.lt_of_lt_of_le h3 (Nat.le_add_left _ _)
    · have halive := hc.alive (hacc ▸ ha') h3 h4
      have h0 : c.shared.api.live = 0 := by
        cases hpc : c.shared.api with
        | connectSched p => exact absurd hpc (hne p)
        | _ => rfl
      simp only [List.append_nil]
      omega

/-- So every step keeps it. -/
theorem Invariant.step {c c' : Config State IoThread} {m : Move Act} (hc : Invariant c)
    (h : program.step c m = some c') : Invariant c' := by
  have hb := hc.balance.step h
  cases m with
  | thread i a =>
    obtain ⟨t, rest, s', ts, -, hperm, hex, rfl⟩ := Program.step_thread_inv h
    exact hc.exec hperm hex hb
  | env a =>
    obtain ⟨s', ts, hex, rfl⟩ := Program.step_env_inv h
    rcases env_cases c.threads hex with ⟨-, rfl, rfl⟩ | hapi
    · refine ⟨hb, hc.gates, fun ha => absurd ha (by simp), fun u hu => ?_,
        fun ha => absurd ha (by simp)⟩
      obtain ⟨h1, h2, h3, -⟩ := hc.threads u (by simpa using hu)
      exact ⟨h1, h2, h3, fun ha => absurd ha (by simp)⟩
    · exact hc.api hapi hb

/-- It holds in every reachable state. -/
theorem invariant {c : Config State IoThread} (hc : system.Reachable c) : Invariant c :=
  hc.invariant Invariant.initial fun _ _ _ hI hst => hI.step hst

/-! ### The next tick -/

/-- A step of a pool thread is one of the pump. -/
theorem exec_step (s : State) (t : IoThread) :
    exec s t .step =
      (Pump.exec guards () s.pump t).map fun r => ({ s with pump := r.1 }, r.2) := by
  cases t with
  | job pc => cases pc <;> rfl
  | wakeup p | wakeupFinish | leaving => rfl

/-- Some pool thread is inside `ioTickOnce`. -/
def InTick (c : Config State IoThread) : Prop :=
  0 < Config.total Pump.Thread.ticking c.threads

/-- A move of a pool thread. -/
def PoolMove (m : Move Act) : Prop := ∃ i a, m = .thread i a

/-- The gate is open, the pool takes work and no call is in progress. -/
structure Pumping (c : Config State IoThread) : Prop where
  reachable : system.Reachable c
  accepting : c.shared.pump.accepting = true
  running : c.shared.mRunning = true
  active : c.shared.mIoPumpActive = true
  idle : c.shared.api = .idle

/-- A client that pumps has something alive. -/
theorem Pumping.live {c : Config State IoThread} (hc : Pumping c) :
    0 < Config.total Pump.Thread.live c.threads := by
  have h := (invariant hc.reachable).alive hc.accepting hc.running hc.active
  rw [hc.idle] at h
  simpa [ApiPc.live] using h

/-- The pool goes on pumping. -/
theorem Pumping.pool {c c' : Config State IoThread} (hc : Pumping c) {i : ℕ} {a : Act}
    (h : program.step c (.thread i a) = some c') : Pumping c' := by
  obtain ⟨t, rest, s', ts, -, -, hex, rfl⟩ := Program.step_thread_inv h
  obtain ⟨hapi, hflags, hacc⟩ := exec_frame hex
  exact ⟨hc.reachable.step (l := .thread i a) h, hacc.trans hc.accepting,
    (congrFun hflags _).trans hc.running, (congrFun hflags _).trans hc.active, hapi.trans hc.idle⟩

/-- A tick comes, however the pool orders its threads. -/
theorem Pumping.tick_comes {c : Config State IoThread} (hc : Pumping c) :
    system.Inevitable PoolMove InTick c := by
  refine System.inevitable_of_rank (I := Pumping)
    (fun c => Config.total (Pump.Thread.rank guards) c.threads) (fun c hc hnot => ?_)
    (fun c m c' hc hnot hm hst => ?_) hc
  · -- some thread is live, and its next step is enabled
    obtain ⟨t, ht, -⟩ := Config.exists_of_total_pos hc.live
    have h0 : t.ticking = 0 := by
      have := Config.le_total (w := Pump.Thread.ticking) ht
      simp only [InTick, Nat.pos_iff_ne_zero, ne_eq, not_not] at hnot
      omega
    obtain ⟨⟨p, ts⟩, hex⟩ : ∃ r, Pump.exec guards () c.shared.pump t = some r :=
      Pump.exec_enabled t h0
    have hstep : exec c.shared t .step = some ({ c.shared with pump := p }, ts) := by
      rw [exec_step, hex, Option.map_some]
    obtain ⟨i, rest, -, hst⟩ := Program.exists_step (P := program) ht hstep
    exact ⟨_, _, ⟨i, .step, rfl⟩, hst⟩
  · obtain ⟨i, a, rfl⟩ := hm
    refine ⟨hc.pool hst, ?_⟩
    obtain ⟨t, rest, s', ts, hi, hperm, hex, rfl⟩ := Program.step_thread_inv hst
    have h0 : t.ticking = 0 := by
      have := Config.le_total (w := Pump.Thread.ticking) (List.mem_of_getElem? hi)
      simp only [InTick, Nat.pos_iff_ne_zero, ne_eq, not_not] at hnot
      omega
    rcases exec_cases hex with ⟨b, -, rfl, -, -⟩ | ⟨p, -, rfl, -, -⟩ | ⟨p, -, hex, -⟩
    · exact absurd h0 (by simp [Pump.Thread.ticking])
    · exact absurd h0 (by simp [Pump.Thread.ticking])
    · -- every step of the pump before a tick lowers the rank
      have := Pump.exec_rank hex
      rw [Config.total_perm _ hperm, Config.total_cons, Config.total_append]
      omega

/-- **The pump never dies.** No two ticks run at the same time; and while the gate is
open, the pool takes work and no call is in progress, some job or wakeup is live and
leads to a tick. -/
theorem pump_never_dies {c : Config State IoThread} (hc : system.Reachable c) :
    Config.total Pump.Thread.ticking c.threads ≤ 1 ∧
      (c.shared.pump.accepting = true → c.shared.mRunning = true →
        c.shared.mIoPumpActive = true → c.shared.api = .idle →
        0 < Config.total Pump.Thread.live c.threads ∧ system.Inevitable PoolMove InTick c) := by
  refine ⟨?_, fun ha h1 h2 h3 => ?_⟩
  · have hholds := (invariant hc).balance.holds
    have hle : Config.total Pump.Thread.ticking c.threads ≤
        Config.total Pump.Thread.holds c.threads :=
      Config.total_mono fun t _ => Pump.ticking_le_holds t
    have := Bool.toNat_le c.shared.pump.scheduled
    omega
  · have hp : Pumping c := ⟨hc, ha, h1, h2, h3⟩
    exact ⟨hp.live, hp.tick_comes⟩

/-- A client that is started and told to connect. -/
def connected : List (Move Act) :=
  [.env (.call .start), .env .step, .env (.startup true),
    .env (.call .connect), .env .step, .env .step, .env (.peerConnect true), .env .step,
    .env .step, .env .step, .env .step, .env .step, .env .step]

/-- A client that has been told to connect is one whose pump goes on. -/
theorem pump_never_dies_connected :
    ∃ c, system.Reachable c ∧ c.shared.mRunning = true ∧ c.shared.mIoPumpActive = true ∧
      0 < Config.total Pump.Thread.live c.threads ∧ system.Inevitable PoolMove InTick c := by
  obtain ⟨h, c, hr, hp⟩ := system.exists_run_of_follow
    (p := fun _ c => c.shared.pump.accepting && c.shared.mRunning && c.shared.mIoPumpActive &&
      decide (c.shared.api = .idle)) connected (by decide)
  simp only [Bool.and_eq_true, decide_eq_true_eq] at hp
  obtain ⟨⟨⟨ha, h1⟩, h2⟩, h3⟩ := hp
  exact ⟨c, hr.reachable, h1, h2, (pump_never_dies hr.reachable).2 ha h1 h2 h3⟩

end Client
end SculkProtocol
