import SculkProtocol.Thread.TaskStrand

/-!
# One task at a time

A strand executes its tasks one at a time because only the thread that finds
`mDrainScheduled` clear may drain, and the flag stays set until the drain has found the
queue empty. When the pool refuses the job, though, `scheduleDrain` clears the flag
before it drains the queue itself. A task of that drain that enqueues on its own strand
then finds the flag clear and drains inside the running task, and so does any other
thread beside it (`task_runs_nested`).

`one_task_at_a_time` says when that does not happen: whenever a thread finds the flag
clear, no drain is in progress. As long as the pool accepts every job this is always so
(`claimsAlone_of_accepted`).

Draining is a claim that is passed on: from the thread that has set the flag to the job,
or to the thread's own drain. `Exclusion` counts these claims.
-/

namespace SculkProtocol
namespace TaskStrand

open Scripts

/-- The program points of a thread that is about to hand its drain to the pool. -/
def Op.submits : Op → Bool
  | .loadAccepting | .recheckAccepting | .submitJob | .unscheduleDrain => true
  | _ => false

/-- The program points of a drain, up to the clearing of the flag at its end. -/
def Op.drains : Op → Bool
  | .tryDequeue | .run _ | .finishTask _ | .clearDrainScheduled => true
  | _ => false

/-- The execution of a task. -/
def Op.runs : Op → Bool
  | .run _ => true
  | _ => false

/-- If `x` sets a flag that is clear, no drain is in progress. -/
def ClaimsAlone (x : PoolStep) : Prop :=
  ∀ t op, Does x t op → ((∃ y, op = .scheduleDrain y) ∨ op = .resumeDrain) →
    x.src.shared.mDrainScheduled = false → pending Op.drains x.src = 0

/-- The pool does not refuse a job in `x`. -/
def JobAccepted (x : PoolStep) : Prop := ∀ t, ¬ Does x t .unscheduleDrain

variable {c c' : Pool} {m : Move (Event Choice Call)}

/-! ### Claims -/

/-- What one program point does to the flag and to the claims. -/
inductive ClaimStep (s s' : State) (op : Op) (ops : List Op) (ts : List Thread) : Prop
  /-- the claim stays what it is, or there is none -/
  | keep : s'.mDrainScheduled = s.mDrainScheduled → (ops.countP Op.submits) = op.submits.toNat →
      (ops.countP Op.drains) = op.drains.toNat → ts = [] → ClaimStep s s' op ops ts
  /-- a claim is made -/
  | claim : ((∃ y, op = .scheduleDrain y) ∨ op = .resumeDrain) → s.mDrainScheduled = false →
      s'.mDrainScheduled = true →
      (∃ y, ops = [.loadAccepting, .returnTrue y]) ∨ ops = [.tryDequeue] → ts = [] →
      ClaimStep s s' op ops ts
  /-- the pool takes the job -/
  | submit (worker : ℕ) : op = .submitJob → s' = s → ops = [] → ts = [⟨worker, [.tryDequeue]⟩] →
      ClaimStep s s' op ops ts
  /-- the pool has refused the job -/
  | refuse : op = .unscheduleDrain → s'.mDrainScheduled = false → ops = [.tryDequeue] → ts = [] →
      ClaimStep s s' op ops ts
  /-- the drain ends -/
  | release : op = .clearDrainScheduled → s'.mDrainScheduled = false → ops = [.checkSize] →
      ts = [] → ClaimStep s s' op ops ts

/-- An operation claims the strand in one of the ways. -/
theorem execOp_claim {s s' : State} {producer : ℕ} {ch : Choice} {op : Op} {ops : List Op}
    {ts : List Thread} (h : execOp s producer ch op = some (s', ops, ts)) :
    ClaimStep s s' op ops ts := by
  cases op with
  | scheduleDrain x =>
    cases h
    -- the exchange claims the flag if it was clear
    cases hflag : s.mDrainScheduled with
    | true => exact .keep hflag.symm rfl rfl rfl
    | false => exact .claim (Or.inl ⟨x, rfl⟩) hflag rfl (Or.inl ⟨x, rfl⟩) rfl
  | resumeDrain =>
    cases h
    cases hflag : s.mDrainScheduled with
    | true => exact .keep hflag.symm rfl rfl rfl
    | false => exact .claim (Or.inr rfl) hflag rfl (Or.inr rfl) rfl
  | submitJob =>
    simp only [execOp] at h
    split at h
    · cases h; exact .submit ch.worker rfl rfl rfl rfl
    · cases h; exact .keep rfl rfl rfl rfl
  | unscheduleDrain => cases h; exact .refuse rfl rfl rfl rfl
  | clearDrainScheduled => cases h; exact .release rfl rfl rfl rfl
  | tryDequeue =>
    simp only [execOp] at h
    split at h
    · cases h; exact .keep rfl rfl rfl rfl
    · obtain ⟨r, -, hr⟩ := Option.map_eq_some_iff.mp h
      cases hr
      exact .keep rfl rfl rfl rfl
  | enqueue | insert x =>
    simp only [execOp] at h; split at h <;> cases h <;> exact .keep rfl rfl rfl rfl
  | _ => cases h; first | exact .keep rfl rfl rfl rfl | (split <;> exact .keep rfl rfl rfl rfl)

/-- At most one thread has claimed the drain, and it has not given up the flag before it
has handed over the drain. -/
structure Exclusion (c : Pool) : Prop where
  alone : pending Op.submits c + pending Op.drains c ≤ 1
  flagged : 0 < pending Op.submits c → c.shared.mDrainScheduled = true

/-- Nobody holds a strand that has just been made. -/
theorem exclusion_initial (n : UInt32) : Exclusion (system n).init :=
  ⟨Nat.zero_le 1, fun h => absurd h (Nat.lt_irrefl 0)⟩


/-- New calls claim nothing. -/
theorem arrive_claim {s s' : State} {a : Call} {new : List Thread}
    (h : arrive s a = some (s', new)) :
    s'.mDrainScheduled = s.mDrainScheduled ∧
      ∀ p : Op → Bool, p .enqueue = false → pendingIn p new = 0 := by
  cases a <;> cases h
  · exact ⟨rfl, fun p hp => by simp [hp]⟩
  all_goals exact ⟨rfl, fun _ _ => rfl⟩

/-- **One move** in which the flag is claimed alone keeps the claims exclusive. -/
theorem exclusion_step (hc : Exclusion c) (h : scripts.program.step c m = some c')
    (hC : ClaimsAlone ⟨c, m, c'⟩) : Exclusion c' := by
  obtain ⟨halone, hflagged⟩ := hc
  rcases pending_step h with ⟨t, op, ch, ops, ts, hdoes, hop, hp⟩ | ⟨tag, hs, hp⟩ | ⟨a, new,
    -, hnew, hp⟩
  · obtain ⟨-, hsubmits⟩ := hp Op.submits
    obtain ⟨hdrain, hdrains⟩ := hp Op.drains
    cases execOp_claim hop with
    | keep hflag hsub hdr hts =>
      rw [hsub, hts, pendingIn_nil] at hsubmits
      rw [hdr, hts, pendingIn_nil] at hdrains
      have hsame : pending Op.submits c' = pending Op.submits c := by omega
      refine ⟨by omega, fun hpos => ?_⟩
      rw [hflag]
      exact hflagged (hsame ▸ hpos)
    | claim hclaims hclear hset hops hts =>
      -- the flag was clear, so nobody was submitting, and by the condition nobody drained
      have hzero : pending Op.drains c = 0 := hC t op hdoes hclaims hclear
      have hnone : pending Op.submits c = 0 := by
        by_contra hne
        exact absurd ((hflagged (Nat.pos_of_ne_zero hne)).symm.trans hclear) (by simp)
      subst hts
      rcases hops with ⟨y, rfl⟩ | rfl <;>
        simp [List.countP_cons, Op.submits, Op.drains] at hsubmits hdrains <;>
        exact ⟨by omega, fun _ => hset⟩
    | submit worker hop' hsame hops hts =>
      subst hop' hops hts
      simp [Op.submits, Op.drains] at hsubmits hdrains
      refine ⟨by omega, fun hpos => ?_⟩
      rw [hsame]
      exact hflagged (by omega)
    | refuse hop' hclear hops hts =>
      subst hop' hops hts
      simp [Op.submits, Op.drains] at hsubmits hdrains
      exact ⟨by omega, fun hpos => absurd hpos (by omega)⟩
    | release hop' hclear hops hts =>
      subst hop' hops hts
      simp [Op.submits, Op.drains] at hsubmits hdrains hdrain
      exact ⟨by omega, fun hpos => absurd hpos (by omega)⟩
  · have hflag : c'.shared.mDrainScheduled = c.shared.mDrainScheduled := congrArg _ hs
    refine ⟨?_, fun hpos => hflag ▸ hflagged (hp Op.submits ▸ hpos)⟩
    rw [hp, hp]
    exact halone
  · obtain ⟨hflag, hzero⟩ := arrive_claim hnew
    have hsubmits : pending Op.submits c' = pending Op.submits c := by
      rw [hp, hzero _ rfl, Nat.add_zero]
    have hdrains : pending Op.drains c' = pending Op.drains c := by
      rw [hp, hzero _ rfl, Nat.add_zero]
    exact ⟨by omega, fun hpos => hflag ▸ hflagged (hsubmits ▸ hpos)⟩

variable {n : UInt32} {h : List PoolStep}

/-- **One task at a time.** In a run in which the flag is only found clear while no drain
is in progress, at most one task is being executed. -/
theorem one_task_at_a_time (hr : (system n).Run h c) (hC : ∀ x ∈ h, ClaimsAlone x) :
    pending Op.runs c ≤ 1 := by
  have hinv : Exclusion c := hr.invariant_where (exclusion_initial n)
    (fun _ _ _ hs hst hCs => exclusion_step hs hst hCs) hC
  have hruns : pending Op.runs c ≤ pending Op.drains c := pending_mono fun op hop => by
    cases op with
    | run x => rfl
    | _ => exact absurd hop (by simp [Op.runs])
  have halone := hinv.alone
  omega

/-! ### A pool that takes every job -/

/-- The claim is exclusive, and whoever has it holds the flag. -/
structure Held (c : Pool) : Prop extends Exclusion c where
  drained : 0 < pending Op.drains c → c.shared.mDrainScheduled = true

/-- Neither does a task of it run. -/
theorem held_initial (n : UInt32) : Held (system n).init :=
  ⟨exclusion_initial n, fun h => absurd h (Nat.lt_irrefl 0)⟩

/-- A strand that is held is claimed by nobody else. -/
theorem Held.claimsAlone (hc : Held c) : ClaimsAlone ⟨c, m, c'⟩ := by
  intro t op _ _ hclear
  by_contra hne
  exact absurd ((hc.drained (Nat.pos_of_ne_zero hne)).symm.trans hclear) (by simp)

/-- **One move** in which the pool refuses no job. -/
theorem held_step (hc : Held c) (h : scripts.program.step c m = some c')
    (hA : JobAccepted ⟨c, m, c'⟩) : Held c' := by
  refine ⟨exclusion_step hc.toExclusion h hc.claimsAlone, ?_⟩
  rcases pending_step h with ⟨t, op, ch, ops, ts, hdoes, hop, hp⟩ | ⟨tag, hs, hp⟩ | ⟨a, new,
    -, hnew, hp⟩
  · obtain ⟨hsubmit, -⟩ := hp Op.submits
    obtain ⟨hdrain, hdrains⟩ := hp Op.drains
    intro hpos
    cases execOp_claim hop with
    | keep hflag hsub hdr hts =>
      rw [hdr, hts, pendingIn_nil] at hdrains
      rw [hflag]
      exact hc.drained (by omega)
    | claim _ _ hset => exact hset
    | submit worker hop' hsame hops hts =>
      subst hop'
      rw [hsame]
      exact hc.flagged hsubmit
    | refuse hop' => exact absurd (hop' ▸ hdoes) (hA t)
    | release hop' hclear hops hts =>
      -- the drain that ends was the only one
      have halone := hc.alone
      subst hop' hops hts
      simp [Op.drains] at hdrains hdrain
      omega
  · intro hpos
    have hflag : c'.shared.mDrainScheduled = c.shared.mDrainScheduled := congrArg _ hs
    exact hflag ▸ hc.drained (hp Op.drains ▸ hpos)
  · intro hpos
    obtain ⟨hflag, hzero⟩ := arrive_claim hnew
    rw [hp, hzero _ rfl, Nat.add_zero] at hpos
    exact hflag ▸ hc.drained hpos

/-- So it is if the pool accepts every drain. -/
theorem held_of_accepted (hr : (system n).Run h c) (hA : ∀ x ∈ h, JobAccepted x) : Held c :=
  hr.invariant_where (held_initial n) (fun _ _ _ hs hst hCs => held_step hs hst hCs) hA

/-- **No refusal.** While the pool accepts every job, the flag is never found clear
during a drain. -/
theorem claimsAlone_of_accepted (hr : (system n).Run h c) (hA : ∀ x ∈ h, JobAccepted x) :
    ∀ x ∈ h, ClaimsAlone x := fun x hx =>
  (hr.transitions_where (held_initial n) (fun _ _ _ hs hst hCs => held_step hs hst hCs) hA
    x hx).1.claimsAlone

/-! ### A pool that refuses a job -/

/-- `ClaimsAlone`, to be evaluated. -/
def claimsAlone (x : PoolStep) : Bool :=
  match performed x with
  | some (_, .scheduleDrain _) | some (_, .resumeDrain) =>
    x.src.shared.mDrainScheduled || pending Op.drains x.src == 0
  | _ => true

/-- The evaluation of the condition is right. -/
theorem claimsAlone_sound {x : PoolStep} (h : claimsAlone x = true) : ClaimsAlone x := by
  intro t op hdoes hop hclear
  rw [claimsAlone, show performed x = _ from hdoes] at h
  rcases hop with ⟨y, rfl⟩ | rfl <;> simpa [hclear] using h

/-- The next access of thread `i`. -/
def next (i : ℕ) : Move (Event Choice Call) := .thread i (.step {})

/-- A call of `enqueue`, up to its claim of the flag, as thread `i`. -/
def offer (i : ℕ) : List (Move (Event Choice Call)) :=
  [.env (.call (.enqueue i)), next i, next i, next i, next i]

/-- Two threads enqueue on a stopped pool. The first one drains the queue, and executes
both tasks, when the second one has found the flag set. -/
theorem one_task_at_a_time_stopped :
    ∃ h c, (system 8).Run h c ∧ pending Op.runs c = 1 ∧ pending Op.runs c ≤ 1 ∧
      .accepted 1 ∈ c.shared.log := by
  obtain ⟨h, c, hr, hp⟩ := (system 8).exists_run_of_follow
    (p := fun h c => decide (pending Op.runs c = 1 ∧ .accepted 1 ∈ c.shared.log ∧
      ∀ x ∈ h, claimsAlone x = true))
    (.env (.call .stop) :: offer 0 ++
      [.env (.call (.enqueue 1)), next 1, next 1, next 1, next 1, next 1, next 1] ++
      [next 0, next 0, next 0]) (by decide)
  obtain ⟨hruns, hmem, hall⟩ := of_decide_eq_true hp
  have hC : ∀ x ∈ h, ClaimsAlone x := fun x hx => claimsAlone_sound (hall x hx)
  exact ⟨h, c, hr, hruns, one_task_at_a_time hr hC, hmem⟩

/-- On a stopped pool, a running task enqueues on its own strand, and its call executes
the new task: two tasks are being executed, the one inside the other. -/
theorem task_runs_nested :
    ∃ h c, (system 8).Run h c ∧ pending Op.runs c = 2 ∧
      ∃ t ∈ c.threads, t.code = [.run 1, .returnTrue 1, .run 0, .returnTrue 0] := by
  obtain ⟨h, c, hr, hp⟩ := (system 8).exists_run_of_follow
    (p := fun _ c => decide (pending Op.runs c = 2 ∧
      ∃ t ∈ c.threads, t.code = [.run 1, .returnTrue 1, .run 0, .returnTrue 0]))
    (.env (.call .stop) :: offer 0 ++
      [next 0, next 0, next 0, .thread 0 (.step { again := true })] ++
      [next 0, next 0, next 0, next 0, next 0, next 0, next 0]) (by decide)
  exact ⟨h, c, hr, of_decide_eq_true hp⟩

end TaskStrand
end SculkProtocol
