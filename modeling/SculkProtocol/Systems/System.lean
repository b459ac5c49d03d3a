import Mathlib.Data.List.Basic

/-!
# Labelled transition systems

The model every concurrent component of this development is read in. A
`System` has one initial state and a step function that is partial and driven by
a label; the label resolves every choice the environment or the scheduler makes
(which thread moves, what a callback answers, what the clock reads), so a run is
a list of labels and can be evaluated.

A run is recorded together with its transitions (`System.Run`), latest first.
Safety statements come in two forms, both by the same induction:

* `Run.invariant` — a state predicate that every step preserves holds in every
  state a run reaches;
* `Run.invariant_where` — the same for the runs whose transitions all meet a
  side condition, which is how a property that only holds under a condition on
  the schedule is stated over whole runs.

`Run.transitions_where` reads the invariant at the source of every transition of
a run, `Run.since` one that holds from some transition on. `exists_run_of_follow`
turns an evaluated list of labels into a run.

Progress is stated for a set of moves: `Inevitable` says that a goal is reached
however these moves are ordered, and `inevitable_of_rank` derives it from a rank
that each of them lowers.
-/

namespace SculkProtocol

/-- A transition system: the label resolves all nondeterminism, and `none` says
that the label is not enabled. -/
structure System (State Label : Type) where
  /-- The unique initial state of the system. -/
  init : State
  step : State → Label → Option State

/-- One transition of a run. -/
structure Transition (State Label : Type) where
  src : State
  label : Label
  dst : State

namespace System

variable {State Label : Type} (sys : System State Label)

/-- `sys.Run h s`: the run with transitions `h`, latest first, ends in `s`. -/
inductive Run : List (Transition State Label) → State → Prop
  | init : Run [] sys.init
  | snoc {h s l t} : Run h s → sys.step s l = some t → Run (⟨s, l, t⟩ :: h) t

/-- A state some run ends in. -/
def Reachable (s : State) : Prop := ∃ h, sys.Run h s

variable {sys}

/-- The last state of a run is reachable. -/
theorem Run.reachable {h : List (Transition State Label)} {s : State} (hr : sys.Run h s) :
    sys.Reachable s := ⟨h, hr⟩

/-- So is the initial state. -/
theorem Reachable.init : sys.Reachable sys.init := ⟨[], Run.init⟩

/-- So is the state after a step. -/
theorem Reachable.step {s t : State} {l : Label} (hs : sys.Reachable s)
    (hst : sys.step s l = some t) : sys.Reachable t := by
  obtain ⟨h, hr⟩ := hs
  exact ⟨_, hr.snoc hst⟩

/-- Every recorded transition is a step of the system from a reachable state. -/
theorem Run.mem_step {h : List (Transition State Label)} {s : State} (hr : sys.Run h s) :
    ∀ x ∈ h, sys.Reachable x.src ∧ sys.step x.src x.label = some x.dst := by
  induction hr with
  | init => intro x hx; exact absurd hx List.not_mem_nil
  | snoc hr hst ih =>
    intro x hx
    rcases List.mem_cons.mp hx with rfl | hx
    · exact ⟨hr.reachable, hst⟩
    · exact ih x hx

/-! ### Invariants along runs -/

section Invariant

variable {I : State → Prop} {C : Transition State Label → Prop}

/-- **Conditional invariant.** If every step that meets `C` preserves `I`, then `I`
holds at the end of every run all of whose transitions meet `C`. -/
theorem Run.invariant_where (h0 : I sys.init)
    (hstep : ∀ s l t, I s → sys.step s l = some t → C ⟨s, l, t⟩ → I t)
    {h : List (Transition State Label)} {s : State} (hr : sys.Run h s)
    (hC : ∀ x ∈ h, C x) : I s := by
  induction hr with
  | init => exact h0
  | snoc _ hst ih =>
    have hpre := ih fun x hx => hC x (List.mem_cons_of_mem _ hx)
    exact hstep _ _ _ hpre hst (hC _ List.mem_cons_self)

/-- The conditional invariant holds at the source of every transition of the run. -/
theorem Run.transitions_where (h0 : I sys.init)
    (hstep : ∀ s l t, I s → sys.step s l = some t → C ⟨s, l, t⟩ → I t)
    {h : List (Transition State Label)} {s : State} (hr : sys.Run h s)
    (hC : ∀ x ∈ h, C x) : ∀ x ∈ h, I x.src ∧ sys.step x.src x.label = some x.dst := by
  induction hr with
  | init => intro x hx; exact absurd hx List.not_mem_nil
  | snoc hr hst ih =>
    have hpre : ∀ x ∈ _, C x := fun x hx => hC x (List.mem_cons_of_mem _ hx)
    intro x hx
    rcases List.mem_cons.mp hx with rfl | hx
    · exact ⟨hr.invariant_where h0 hstep hpre, hst⟩
    · exact ih hpre x hx

/-- **Invariant.** A predicate that every step preserves holds in every state a run
reaches. -/
theorem Run.invariant (h0 : I sys.init)
    (hstep : ∀ s l t, I s → sys.step s l = some t → I t)
    {h : List (Transition State Label)} {s : State} (hr : sys.Run h s) : I s :=
  hr.invariant_where (C := fun _ => True) h0 (fun s l t hI hst _ => hstep s l t hI hst)
    fun _ _ => trivial

/-- What every step keeps holds of every reachable state. -/
theorem Reachable.invariant (h0 : I sys.init)
    (hstep : ∀ s l t, I s → sys.step s l = some t → I t) {s : State}
    (hs : sys.Reachable s) : I s := by
  obtain ⟨_, hr⟩ := hs
  exact hr.invariant h0 hstep

/-! ### What follows a transition -/

/-- A run up to one of its transitions, and that transition. -/
theorem Run.of_append {later earlier : List (Transition State Label)} {x : Transition State Label}
    {s : State} (hr : sys.Run (later ++ x :: earlier) s) :
    sys.Run earlier x.src ∧ sys.step x.src x.label = some x.dst := by
  induction later generalizing s with
  | nil =>
    cases hr with
    | snoc hr hst => exact ⟨hr, hst⟩
  | cons y later ih =>
    cases hr with
    | snoc hr _ => exact ih hr

/-- **Since.** What holds after the transition `x` and is preserved by the later ones holds
at the source of each of them, and at the end. -/
theorem Run.since {later earlier : List (Transition State Label)} {x : Transition State Label}
    {s : State} (hr : sys.Run (later ++ x :: earlier) s) (hx : I x.dst)
    (hkeep : ∀ y ∈ later, sys.step y.src y.label = some y.dst → I y.src → I y.dst) :
    I s ∧ ∀ y ∈ later, I y.src := by
  induction later generalizing s with
  | nil =>
    cases hr with
    | snoc _ _ => exact ⟨hx, fun y hy => absurd hy List.not_mem_nil⟩
  | cons y later ih =>
    cases hr with
    | snoc hr hst =>
      obtain ⟨hsrc, hlater⟩ := ih hr fun z hz => hkeep z (List.mem_cons_of_mem _ hz)
      refine ⟨hkeep _ List.mem_cons_self hst hsrc, fun z hz => ?_⟩
      rcases List.mem_cons.mp hz with rfl | hz
      · exact hsrc
      · exact hlater z hz

end Invariant

/-! ### Progress -/

/-- However the moves in `M` are ordered, `Goal` is reached: it holds already, or some
move is enabled and each enabled one leads to a state of this kind. -/
inductive Inevitable (sys : System State Label) (M : Label → Prop) (Goal : State → Prop) :
    State → Prop
  | now {s} : Goal s → Inevitable sys M Goal s
  | later {s} : (∃ l t, M l ∧ sys.step s l = some t) →
      (∀ l t, M l → sys.step s l = some t → Inevitable sys M Goal t) → Inevitable sys M Goal s

/-- **Rank rule.** If outside `Goal` some move is enabled and every move keeps `I` and
lowers the rank, then `Goal` is inevitable from the states in `I`. -/
theorem inevitable_of_rank {M : Label → Prop} {Goal I : State → Prop} (rank : State → ℕ)
    (henabled : ∀ s, I s → ¬ Goal s → ∃ l t, M l ∧ sys.step s l = some t)
    (hstep : ∀ s l t, I s → ¬ Goal s → M l → sys.step s l = some t → I t ∧ rank t < rank s)
    {s : State} (hs : I s) : sys.Inevitable M Goal s := by
  induction hn : rank s using Nat.strongRecOn generalizing s with
  | ind n ih =>
    by_cases hg : Goal s
    · exact .now hg
    · refine .later (henabled s hs hg) fun l t hl hst => ?_
      obtain ⟨ht, hlt⟩ := hstep s l t hs hg hl hst
      exact ih (rank t) (hn ▸ hlt) ht rfl

/-! ### Evaluating a schedule -/

/-- Play a list of labels from a run that ended in `s` with transitions `h`. -/
def followFrom (sys : System State Label) :
    List (Transition State Label) → State → List Label →
      Option (List (Transition State Label) × State)
  | h, s, [] => some (h, s)
  | h, s, l :: ls =>
    match sys.step s l with
    | some t => followFrom sys (⟨s, l, t⟩ :: h) t ls
    | none => none

/-- Play a list of labels from the initial state. -/
def follow (sys : System State Label) (ls : List Label) :
    Option (List (Transition State Label) × State) :=
  sys.followFrom [] sys.init ls

/-- Labels that are followed continue a run. -/
theorem Run.followFrom {h h' : List (Transition State Label)} {s s' : State} {ls : List Label}
    (hr : sys.Run h s) (hf : sys.followFrom h s ls = some (h', s')) : sys.Run h' s' := by
  induction ls generalizing h s with
  | nil =>
    simp only [System.followFrom, Option.some.injEq, Prod.mk.injEq] at hf
    obtain ⟨rfl, rfl⟩ := hf
    exact hr
  | cons l ls ih =>
    simp only [System.followFrom] at hf
    cases hst : sys.step s l with
    | none => rw [hst] at hf; exact absurd hf (by simp)
    | some t => rw [hst] at hf; exact ih (hr.snoc hst) hf

/-- A schedule that evaluates to a run passing the test `p` is such a run. -/
theorem exists_run_of_follow (sys : System State Label)
    {p : List (Transition State Label) → State → Bool}
    (ls : List Label) (hp : (sys.follow ls).any (fun r => p r.1 r.2) = true) :
    ∃ h s, sys.Run h s ∧ p h s = true := by
  cases hf : sys.follow ls with
  | none => rw [hf] at hp; exact absurd hp (by simp)
  | some r =>
    rw [hf, Option.any_some] at hp
    exact ⟨r.1, r.2, Run.init.followFrom hf, hp⟩

end System
end SculkProtocol
