import SculkProtocol.Client.PumpLiveness

/-!
# How many pump chains a client runs

`mIoPumpScheduled` is given back before the successor of a tick is arranged, so it
is free while a delayed wakeup is waiting. A `connect` that comes in this time wins
the compare-and-swap and submits a job of its own, and from then on two chains
re-arm themselves: `two_chains` reaches that state after one failed attempt.

No other step begins a chain. `one_chain_iff` is the exact account: a run never has
more than one chain if and only if, whenever `connect` hands a job to the pool, no
job and no wakeup of an earlier attempt is live.
-/

namespace SculkProtocol
namespace Client

/-- The pump jobs and delayed wakeups that may still lead to a tick; a job and the
successor it is arranging count once. -/
def chains (c : Config State IoThread) : ℕ := Config.total Pump.Thread.live c.threads

/-- `connect` hands a job to the pool, which takes it. -/
def Submits (x : Transition (Config State IoThread) (Move Act)) : Prop :=
  x.src.shared.api = .connectSched .submit ∧ x.src.shared.pump.accepting = true ∧
    x.label = .env .step

instance : DecidablePred Submits := fun x =>
  inferInstanceAs (Decidable (x.src.shared.api = .connectSched .submit ∧
    x.src.shared.pump.accepting = true ∧ x.label = .env .step))

/-- `scheduleIoPump` submits one job, at the end and if the pool takes it. -/
theorem sched_submits (s : Pump.Shared Flag) (p : Pump.SchedPc Flag) :
    (p = .submit ∧ s.accepting = true ∧
      (Pump.sched (T := Unit) guards s p).2.2 = [guards.job]) ∨
    (¬ (p = .submit ∧ s.accepting = true) ∧ (Pump.sched (T := Unit) guards s p).2.2 = []) := by
  cases p with
  | submit =>
    cases ha : s.accepting with
    | true => left; simp [Pump.sched, ha]
    | false => right; simp [Pump.sched, ha]
  | guard g gs => right; simp only [Pump.sched]; split <;> simp
  | cas => right; simp only [Pump.sched]; split <;> simp
  | count | uncount | unflag => right; simp [Pump.sched]

/-- A step begins at most one chain, and only where `connect` submits. -/
theorem chains_step {c c' : Config State IoThread} {m : Move Act}
    (h : program.step c m = some c') :
    (Submits ⟨c, m, c'⟩ ∧ chains c' = chains c + 1) ∨
      (¬ Submits ⟨c, m, c'⟩ ∧ chains c' ≤ chains c) := by
  cases m with
  | thread i a =>
    right
    refine ⟨fun hs => absurd hs.2.2 (by simp), ?_⟩
    obtain ⟨t, s', ts, -, hex, -, htotal⟩ := Program.total_exec Pump.Thread.live h
    -- a thread of the pump leaves at most one live successor
    have hle : Config.total Pump.Thread.live ts ≤ t.live := by
      rcases exec_cases hex with ⟨b, -, rfl, -, rfl⟩ | ⟨p, -, rfl, -, rfl⟩ | ⟨p, -, hex, -⟩
      · simp
      · simp [Pump.Thread.live]
      · exact Pump.exec_live hex
    simp only [chains]
    omega
  | env a =>
    obtain ⟨s', ts, hex, -, htotal⟩ := Program.total_env Pump.Thread.live h
    simp only [chains, htotal]
    rcases env_cases c.threads hex with ⟨rfl, -, rfl⟩ | hapi
    · exact Or.inr ⟨fun hs => absurd hs.2.2 (by simp), by simp⟩
    · rcases apiStep_cases hapi with ⟨p, hp, rfl, -, rfl⟩ | ⟨hne, rfl, -⟩
      · rcases sched_submits c.shared.pump p with ⟨rfl, ha, hts⟩ | ⟨hno, hts⟩
        · left
          exact ⟨⟨hp, ha, rfl⟩, by rw [hts]; simp⟩
        · right
          refine ⟨fun hs => hno ⟨?_, hs.2.1⟩, by rw [hts]; simp⟩
          have heq : ApiPc.connectSched p = .connectSched .submit := hp.symm.trans hs.1
          injection heq
      · exact Or.inr ⟨fun hs => hne _ hs.1, by simp⟩

/-- **One chain.** A run never has two chains if and only if `connect` never submits a
job while a chain is live. -/
theorem one_chain_iff {h : List (Transition (Config State IoThread) (Move Act))}
    {c : Config State IoThread} (hr : system.Run h c) :
    (∀ x ∈ h, chains x.dst ≤ 1) ↔ ∀ x ∈ h, Submits x → chains x.src = 0 := by
  constructor
  · -- a submission adds a chain, so there was none before it
    intro hall x hx hs
    rcases chains_step (hr.mem_step x hx).2 with ⟨-, heq⟩ | ⟨hno, -⟩
    · have := hall x hx
      omega
    · exact absurd hs hno
  · intro hsub x hx
    -- nothing else adds one
    have hstep : ∀ s l t, chains s ≤ 1 → program.step s l = some t →
        (Submits ⟨s, l, t⟩ → chains s = 0) → chains t ≤ 1 := by
      intro s l t hs hst hC
      rcases chains_step hst with ⟨hsubmit, heq⟩ | ⟨-, hle⟩
      · have := hC hsubmit
        omega
      · exact Nat.le_trans hle hs
    have hinit : chains system.init ≤ 1 := Nat.zero_le 1
    obtain ⟨hsrc, hst⟩ := hr.transitions_where (I := fun c => chains c ≤ 1)
      (C := fun x => Submits x → chains x.src = 0) hinit hstep hsub x hx
    exact hstep _ _ _ hsrc hst (hsub x hx)

/-- The first attempt's only job ticks without progress and leaves a delayed wakeup. -/
def idleTick : List (Move Act) :=
  [.thread 0 .step, .thread 0 .step, .thread 0 (.ticked false), .thread 0 .step,
    .thread 0 .step, .thread 0 .step, .thread 0 .step, .thread 0 .step, .thread 1 .step]

/-- `connect`, up to the submission of its job. -/
def connectAgain : List (Move Act) :=
  [.env (.call .connect), .env .step, .env .step, .env (.peerConnect true), .env .step,
    .env .step, .env .step, .env .step, .env .step, .env .step]

/-- A client that connects once, and whose chain pumps and comes back. -/
theorem one_chain_connected :
    ∃ h c, system.Run h c ∧ h.length = 22 ∧ ∀ x ∈ h, chains x.dst ≤ 1 := by
  obtain ⟨h, c, hr, hp⟩ := system.exists_run_of_follow
    (p := fun h _ => decide (h.length = 22 ∧ ∀ x ∈ h, Submits x → chains x.src = 0))
    (connected ++ idleTick) (by decide)
  obtain ⟨hlen, hsub⟩ := of_decide_eq_true hp
  exact ⟨h, c, hr, hlen, (one_chain_iff hr).mpr hsub⟩

/-- A second attempt, made while the wakeup of the first is waiting: two chains, with
both guards up and no call in progress. -/
theorem two_chains :
    ∃ h c, system.Run h c ∧ c.shared.mRunning = true ∧ c.shared.mIoPumpActive = true ∧
      c.shared.api = .idle ∧ c.shared.pump.accepting = true ∧ chains c = 2 := by
  obtain ⟨h, c, hr, hp⟩ := system.exists_run_of_follow
    (p := fun _ c => decide (c.shared.mRunning = true ∧ c.shared.mIoPumpActive = true ∧
      c.shared.api = .idle ∧ c.shared.pump.accepting = true ∧ chains c = 2))
    (connected ++ idleTick ++ connectAgain) (by decide)
  exact ⟨h, c, hr, of_decide_eq_true hp⟩

end Client
end SculkProtocol
