import Mathlib.Data.List.Nodup
import SculkProtocol.Server.Notices

/-!
# Reports of removed sessions

A context leaves the map of a running server by an erase or because a new context takes
its place, and `mOnDisconnected` is for the user to hear of it. The erase decides who has
removed a context, so no context is reported twice, whatever races for its GUID. But only
two of the paths report: that of a disconnection notice and `disconnectClient`. A context
that is removed for an empty packet or for one over a limit, or that is replaced, is not
reported (`removal_unreported`).

`removals_reported_iff` is the exact account: every removed context is reported once if
and only if no step of the run removes one on a silent path (`Reports`). Both halves are
read off one equation (`Accounted`): the calls of `mOnDisconnected` for a context, with
those that are under way, are as many as its removals on a reporting path; and a context
is removed at most once (`RemovedOnce`).
-/

namespace SculkProtocol
namespace ServerEvents

open Scripts Sessions

variable {Guid : Type}

/-- The removals after which `mOnDisconnected` is called. -/
def Removal.reports : Removal → Bool
  | .notice | .client => true
  | .emptyPacket | .limit | .replacement => false

def Task.isOnDisconnected : Task Guid → Bool
  | .onDisconnected => true
  | _ => false

/-- The operations that remove a context and do not report it. -/
def Op.silent : Op Guid → Option Guid
  | .upsertSessionContext g | .eraseContext g .discard | .eraseContext g (.limit _ _) => some g
  | _ => none

variable [DecidableEq Guid] {cfg : Settings} {c c' : Server Guid}
  {m : Move (Event Choice (Call Guid))} {s s' : State Guid} {producer : ℕ} {ch : Choice}
  {op : Op Guid} {ops : List (Op Guid)} {x : Context Guid}

/-- On its way to call `mOnDisconnected` for `x`. -/
def Op.reports (x : Context Guid) : Op Guid → Bool
  | .enqueue y .onDisconnected | .call (.onDisconnected y) | .callInPlace (.onDisconnected y) =>
    decide (y = x)
  | _ => false

/-- How many calls of `mOnDisconnected` for `x` are under way: they are pending in a
thread, or are tasks of the strand. -/
def reportsUnderWay (c : Server Guid) (x : Context Guid) : ℕ :=
  pending (Op.reports x) c + (c.shared.strands x).queued Task.isOnDisconnected

/-- A removal of `x` that is reported. -/
def reportedRemoval (x : Context Guid) (e : Context Guid × Removal) : Bool :=
  decide (e.1 = x) && e.2.reports

/-- **The property.** No context is reported twice, and each that was removed is reported
when no report is under way any more. -/
structure RemovalsReported (c : Server Guid) : Prop where
  at_most_once : ∀ x, c.shared.calls.count (.onDisconnected x) ≤ 1
  removed : ∀ x how, (x, how) ∈ c.shared.removed → reportsUnderWay c x = 0 →
    c.shared.calls.count (.onDisconnected x) = 1

/-- **The condition.** The transition removes no context on a silent path: an insertion,
or an erase for an empty packet or for one over a limit, finds no entry. -/
def Reports (t : ServerStep Guid) : Prop :=
  ∀ u op g, Does t u op → op.silent = some g → t.src.shared.registry.mSessionContexts g = none

/-- `Reports`, to be evaluated. -/
def reports (t : ServerStep Guid) : Bool :=
  match performed t with
  | some (_, op) =>
    match op.silent with
    | some g => decide (t.src.shared.registry.mSessionContexts g = none)
    | none => true
  | none => true

omit [DecidableEq Guid] in
/-- The evaluation of the condition is right. -/
theorem Reports.of_eval {t : ServerStep Guid} (h : reports t = true) : Reports t := by
  intro u op g hdoes hsilent
  rw [reports, show performed t = _ from hdoes] at h
  simp only [hsilent] at h
  exact of_decide_eq_true h

/-! ### The account of a context -/

/-- How many reports are owed for `x`, if the callback is set. -/
def owed (cfg : Settings) (s : State Guid) (x : Context Guid) : ℕ :=
  if cfg.mCallbacks.mOnDisconnected then s.removed.countP (reportedRemoval x) else 0

/-- The calls for a context, and those under way, are what is owed. -/
def Accounted (cfg : Settings) (c : Server Guid) : Prop := ∀ x,
  c.shared.calls.count (.onDisconnected x) + reportsUnderWay c x = owed cfg c.shared x

/-- **One operation.** A report goes on, is made, or begins with a removal. -/
theorem Step.reports (h : Step cfg s producer ch op s' ops) (hnum : ∀ x, (s.strands x).Numbered)
    (x : Context Guid) :
    s'.calls.count (.onDisconnected x) + ops.countP (Op.reports x) +
        (s'.strands x).queued Task.isOnDisconnected + owed cfg s x =
      s.calls.count (.onDisconnected x) + (op.reports x).toNat +
        (s.strands x).queued Task.isOnDisconnected + owed cfg s' x := by
  cases h with
  | @accept y t =>
    by_cases hy : y = x
    · subst hy
      have hqueued := Strand.queued_enqueue (hnum y) producer t Task.isOnDisconnected
      cases t <;> simp [Op.reports, hqueued, Task.isOnDisconnected, owed]
      omega
    · cases t <;> simp [Op.reports, hy, Ne.symm hy, owed]
  | @refuse y t => cases t <;> by_cases hy : y = x <;> simp [Op.reports, Task.refused, hy, owed]
  | call c | callInPlace c =>
    cases c with
    | onDisconnected y => by_cases hy : y = x <;> simp [Op.reports, hy, owed]
    | _ => simp [Op.reports, owed]
  | upsert g =>
    have hops : (if cfg.mCallbacks.mOnConnected then [Op.enqueue (s.registry.fresh g) .onConnected]
        else []).countP (Op.reports x) = 0 := by split <;> rfl
    cases hentry : s.registry.mSessionContexts g <;>
      simp [hops, State.recordRemoval, Op.reports, reportedRemoval, Removal.reports, owed]
  | erase g after =>
    cases hentry : s.registry.mSessionContexts g with
    | none => cases after <;> simp [State.recordRemoval, After.next, Op.reports, owed]
    | some y =>
      cases after with
      | notice | client =>
        -- the removed context is about to be reported
        cases hset : cfg.mCallbacks.mOnDisconnected <;> by_cases hy : y = x <;>
          simp [State.recordRemoval, After.next, After.removal, notify, hset, Op.reports,
            reportedRemoval, Removal.reports, hy, owed]
        omega
      | discard | limit | teardown =>
        simp [State.recordRemoval, After.next, After.removal, Op.reports, reportedRemoval,
          Removal.reports, owed]
  | dispatch hs hops =>
    have hnone : ops.countP (Op.reports x) = 0 := by rcases hops with rfl | rfl <;> rfl
    rcases hs with rfl | rfl <;> simp [hnone, Op.reports, owed]
  | parseFailed hs => rcases hs with rfl | rfl <;> simp [Op.reports, owed]
  | finishTask y i =>
    by_cases hy : y = x
    · subst hy; simp [Op.reports, owed]
    · simp [Op.reports, Ne.symm hy, owed]
  | collectContexts | collectKeys => simp [Op.reports, List.countP_map, Function.comp_def, owed]
  | _ => simp [Op.reports, owed]

/-- What arrives removes nothing. -/
theorem Arrives.removed {t : Thread Guid} (h : Arrives s s' t) : s'.removed = s.removed := by
  cases h <;> rfl

/-- A task that begins takes its report along. -/
theorem Arrives.reports {t : Thread Guid} (h : Arrives s s' t) (x : Context Guid) :
    t.code.countP (Op.reports x) + (s'.strands x).queued Task.isOnDisconnected =
      (s.strands x).queued Task.isOnDisconnected := by
  cases h with
  | @runTask y position u i strand worker hbegin =>
    by_cases hy : y = x
    · subst hy
      have hqueued := Strand.queued_begin hbegin Task.isOnDisconnected
      cases u <;> simp [Task.code, Op.reports, Task.isOnDisconnected] at hqueued ⊢ <;> omega
    · cases u <;> simp [Task.code, Op.reports, hy, Ne.symm hy]
  | _ => simp [Op.reports]

/-- Every step keeps account of the reports. -/
theorem accounted_step (hk : Known c) (hc : Accounted cfg c)
    (h : (scripts cfg).program.step c m = some c') : Accounted cfg c' := by
  intro x
  have hold := hc x
  rcases move_cases h with ⟨t, op, i, ch, ops, -, -, hstep, hp⟩ | ⟨hs, hp⟩ | ⟨t, harr, hp⟩
  · have hone := hstep.reports hk.numbered x
    have hpool := (hp (Op.reports x)).2
    unfold reportsUnderWay at hold ⊢
    omega
  · unfold reportsUnderWay at hold ⊢
    rw [hp, hs]
    exact hold
  · have hbegin := harr.reports x
    unfold reportsUnderWay owed at hold ⊢
    rw [hp, harr.calls, harr.removed]
    omega

/-! ### Removals -/

/-- How an operation removes contexts. -/
theorem Step.removed (h : Step cfg s producer ch op s' ops) :
    (s'.removed = s.removed ∧ ∀ g, op.silent = some g → s.registry.mSessionContexts g = none) ∨
      ∃ g x how, s.registry.mSessionContexts g = some x ∧ s'.removed = (x, how) :: s.removed ∧
        op.silent = (if how.reports = true then none else some g) ∧
        ((∃ after, op = .eraseContext g after) ∨ op = .upsertSessionContext g) := by
  cases h with
  -- an entry of the GUID is replaced, and nobody is told
  | upsert g =>
    cases hentry : s.registry.mSessionContexts g with
    | none => exact Or.inl ⟨rfl, fun g' hg => by rwa [← Option.some.inj hg]⟩
    | some x => exact Or.inr ⟨g, x, .replacement, hentry, rfl, rfl, Or.inr rfl⟩
  -- nothing is recorded where there is no entry, or of the teardown
  | erase g after =>
    cases hentry : s.registry.mSessionContexts g with
    | none =>
      left
      refine ⟨by cases after <;> rfl, fun g' hg => ?_⟩
      cases after with
      | discard | limit => rwa [← Option.some.inj hg]
      | _ => exact absurd hg nofun
    | some x =>
      cases after with
      | teardown => exact Or.inl ⟨rfl, nofun⟩
      | _ => exact Or.inr ⟨g, x, _, hentry, rfl, rfl, Or.inl ⟨_, rfl⟩⟩
  | dispatch hs | parseFailed hs => rcases hs with rfl | rfl <;> exact Or.inl ⟨rfl, nofun⟩
  | _ => exact Or.inl ⟨by simp, nofun⟩

/-- A context is removed once, and is not an entry any more. -/
structure RemovedOnce (s : State Guid) : Prop where
  nodup : (s.removed.map Prod.fst).Nodup
  gone : ∀ e ∈ s.removed, e.1 ∈ s.registry.inserted ∧
    s.registry.mSessionContexts e.1.guid ≠ some e.1

/-- No context is removed twice. -/
theorem removedOnce_step (hk : Known c) (hc : RemovedOnce c.shared)
    (h : (scripts cfg).program.step c m = some c') : RemovedOnce c'.shared := by
  have hgone : ∀ e ∈ c.shared.removed, e.1 ∈ c'.shared.registry.inserted ∧
      c'.shared.registry.mSessionContexts e.1.guid ≠ some e.1 := by
    intro e he
    obtain ⟨hins, hne⟩ := hc.gone e he
    exact ⟨inserted_step h hins, gone_step hk h hins hne⟩
  rcases move_cases h with ⟨t, op, i, ch, ops, -, -, hstep, -⟩ | ⟨hs, -⟩ | ⟨t, harr, -⟩
  · rcases hstep.removed with ⟨hsame, -⟩ | ⟨g, x, how, hentry, hnew, -, hop⟩
    · exact ⟨hsame ▸ hc.nodup, hsame ▸ hgone⟩
    · obtain ⟨hins, hguid⟩ := entry_known hk.wellFormed hentry
      refine ⟨?_, ?_⟩
      · -- an entry has not been removed before
        rw [hnew, List.map_cons, List.nodup_cons]
        refine ⟨fun hmem => ?_, hc.nodup⟩
        obtain ⟨e, he, heq⟩ := List.mem_map.mp hmem
        have hne := (hc.gone e he).2
        rw [heq, hguid] at hne
        exact hne hentry
      · intro e he
        rw [hnew] at he
        rcases List.mem_cons.mp he with rfl | he
        · refine ⟨inserted_step h hins, ?_⟩
          rw [hstep.registry, hguid]
          rcases hop with ⟨after, rfl⟩ | rfl
          · simp [Op.onRegistry, Registry.erase]
          · -- what takes its place is new
            intro heq
            have hfresh : (c.shared.registry.upsert g).mSessionContexts g =
                some (c.shared.registry.fresh g) := Function.update_self ..
            have hx : c.shared.registry.fresh g = x := Option.some.inj (hfresh.symm.trans heq)
            exact hk.wellFormed.fresh_notMem g (hx ▸ hins)
        · exact hgone e he
  · rw [hs]
    exact hc
  · exact ⟨harr.removed ▸ hc.nodup, harr.removed ▸ hgone⟩

/-- **Silent removals.** A transition that reports what it removes, and no other, leaves
reported removals only. -/
theorem reports_step_iff (h : (scripts cfg).program.step c m = some c') :
    (∀ e ∈ c'.shared.removed, e.2.reports = true) ↔
      (∀ e ∈ c.shared.removed, e.2.reports = true) ∧ Reports ⟨c, m, c'⟩ := by
  by_cases hany : ∃ t op, Does ⟨c, m, c'⟩ t op
  · obtain ⟨t, op, hdoes⟩ := hany
    obtain ⟨i, ch, ops, ts, -, hex, -⟩ := pending_of_does h hdoes
    rcases (exec_inv hex).1.removed with ⟨hsame, hnone⟩ | ⟨g, x, how, hentry, hnew, hsilent, -⟩
    · have hreports : Reports ⟨c, m, c'⟩ := by
        intro u op' g hdoes' hsilent
        obtain ⟨-, rfl⟩ := hdoes.inj hdoes'
        exact hnone g hsilent
      rw [hsame]
      exact ⟨fun hall => ⟨hall, hreports⟩, And.left⟩
    · rw [hnew, List.forall_mem_cons]
      cases hhow : how.reports with
      | true =>
        -- the path reports, and the condition asks nothing of it
        rw [hhow, if_pos rfl] at hsilent
        refine ⟨fun hall => ⟨hall.2, fun u op' g' hdoes' hsilent' => ?_⟩, fun hall => ⟨rfl, hall.1⟩⟩
        obtain ⟨-, rfl⟩ := hdoes.inj hdoes'
        exact absurd (hsilent.symm.trans hsilent') nofun
      | false =>
        rw [hhow, if_neg nofun] at hsilent
        refine ⟨fun hall => absurd hall.1 nofun, fun hall => ?_⟩
        exact absurd (hentry.symm.trans (hall.2 t op g hdoes hsilent)) nofun
  · have hsame : c'.shared.removed = c.shared.removed := by
      rcases move_cases h with ⟨t, op, -, -, -, -, hdoes, -⟩ | ⟨hs, -⟩ | ⟨t, harr, -⟩
      · exact absurd ⟨t, op, hdoes⟩ hany
      · rw [hs]
      · exact harr.removed
    rw [hsame]
    exact ⟨fun hall => ⟨hall, fun u op g hdoes _ => absurd ⟨u, op, hdoes⟩ hany⟩, And.left⟩

/-- The removals of a run are on reporting paths if and only if its transitions report. -/
theorem reports_run_iff {h : List (ServerStep Guid)} (hr : (system cfg).Run h c) :
    (∀ e ∈ c.shared.removed, e.2.reports = true) ↔ ∀ t ∈ h, Reports t := by
  induction hr with
  | init =>
    exact ⟨fun _ t ht => absurd ht List.not_mem_nil, fun _ e he => absurd he List.not_mem_nil⟩
  | snoc _ hst ih => rw [reports_step_iff hst, ih, List.forall_mem_cons, and_comm]

/-! ### The result -/

/-- The invariants of a run. -/
structure Invariant (cfg : Settings) (c : Server Guid) : Prop where
  threads : Threads c
  accounted : Accounted cfg c
  removedOnce : RemovedOnce c.shared

/-- A server that has just been started has the invariant. -/
theorem invariant_initial : Invariant cfg (system cfg : System (Server Guid) _).init where
  threads := threads_initial
  accounted x := by
    show 0 = owed cfg _ x
    unfold owed
    split <;> rfl
  removedOnce := ⟨.nil, fun _ he => absurd he List.not_mem_nil⟩

/-- Every step keeps it. -/
theorem invariant_step (hc : Invariant cfg c) (h : (scripts cfg).program.step c m = some c') :
    Invariant cfg c' where
  threads := threads_step hc.threads h
  accounted := accounted_step hc.threads.known hc.accounted h
  removedOnce := removedOnce_step hc.threads.known hc.removedOnce h

/-- A context is removed on a reporting path at most once. -/
theorem RemovedOnce.count_le (hs : RemovedOnce s) (x : Context Guid) :
    s.removed.countP (reportedRemoval x) ≤ 1 := by
  have hsub : s.removed.countP (reportedRemoval x) ≤ (s.removed.map Prod.fst).count x := by
    rw [List.count, List.countP_map]
    refine List.countP_mono_left fun e _ he => ?_
    simp only [reportedRemoval, Bool.and_eq_true, decide_eq_true_eq] at he
    simp [he.1]
  exact hsub.trans (List.nodup_iff_count_le_one.mp hs.nodup x)

/-- How a context was removed decides whether it is reported. -/
theorem RemovedOnce.count_eq (hs : RemovedOnce s) {x : Context Guid} {how : Removal}
    (hmem : (x, how) ∈ s.removed) : s.removed.countP (reportedRemoval x) = how.reports.toNat := by
  cases hhow : how.reports with
  | true =>
    have hpos : 0 < s.removed.countP (reportedRemoval x) :=
      List.countP_pos_iff.mpr ⟨_, hmem, by simp [reportedRemoval, hhow]⟩
    have hle := hs.count_le x
    rw [Bool.toNat_true]
    omega
  | false =>
    rw [Bool.toNat_false, List.countP_eq_zero]
    intro e he hreported
    simp only [reportedRemoval, Bool.and_eq_true, decide_eq_true_eq] at hreported
    -- it was removed this way only
    obtain rfl : e = (x, how) := List.inj_on_of_nodup_map hs.nodup he hmem hreported.1
    exact absurd (hreported.2.symm.trans hhow) nofun

/-- **Every removal is reported once** if and only if no step of the run removes a context
on a silent path; and in no run is a context reported twice. -/
theorem removals_reported_iff (hset : cfg.mCallbacks.mOnDisconnected = true)
    {h : List (ServerStep Guid)} (hr : (system cfg).Run h c) :
    (∀ x, c.shared.calls.count (.onDisconnected x) ≤ 1) ∧
      (RemovalsReported c ↔ ∀ t ∈ h, Reports t) := by
  have hinv := hr.invariant (I := Invariant cfg) invariant_initial fun _ _ _ hs hst =>
    invariant_step hs hst
  have haccount : ∀ x, c.shared.calls.count (.onDisconnected x) + reportsUnderWay c x =
      c.shared.removed.countP (reportedRemoval x) := by
    intro x
    have hsum := hinv.accounted x
    rwa [owed, if_pos hset] at hsum
  have honce : ∀ x, c.shared.calls.count (.onDisconnected x) ≤ 1 := by
    intro x
    have hsum := haccount x
    have hle := hinv.removedOnce.count_le x
    omega
  refine ⟨honce, ?_⟩
  rw [← reports_run_iff hr]
  constructor
  · rintro hreported ⟨x, how⟩ hmem
    have hsum := haccount x
    rw [hinv.removedOnce.count_eq hmem] at hsum
    by_contra hhow
    -- a silent removal leaves nothing under way
    rw [Bool.not_eq_true] at hhow
    rw [hhow, Bool.toNat_false] at hsum
    have hcall := hreported.removed x how hmem (by omega)
    omega
  · intro hall
    refine ⟨honce, fun x how hmem hunder => ?_⟩
    have hsum := haccount x
    rw [hinv.removedOnce.count_eq hmem, hall _ hmem, hunder] at hsum
    exact hsum

/-! ### A removal that is not reported -/

/-- All callbacks are set, and the limits are as nobody has configured them. -/
def allCallbacks : Settings where
  mCallbacks := ⟨true, true, true, true, true, true⟩
  mRawIngressMaxPacketBytes := 8 * 1024 * 1024
  mRawIngressMaxPacketsPerSecond := 128

/-- The client of GUID 0 connects, and `mOnConnected` is called. -/
def connect : List (Move (Event Choice (Call ℕ))) := packet .newIncomingConnection ++ task true 3

/-- A connected session leaves, which is reported to the user. -/
theorem removals_reported_leave :
    ∃ h c, (system allCallbacks : System (Server ℕ) _).Run h c ∧
      c.shared.calls = [.onDisconnected ⟨0, 0⟩, .onConnected ⟨0, 0⟩] ∧
      (∀ x, c.shared.calls.count (.onDisconnected x) ≤ 1) ∧
        (RemovalsReported c ↔ ∀ t ∈ h, Reports t) ∧
        ∀ t ∈ h, Reports t := by
  obtain ⟨h, c, hr, hp⟩ := (system allCallbacks : System (Server ℕ) _).exists_run_of_follow
    (p := fun h c => decide (c.shared.calls = [.onDisconnected ⟨0, 0⟩, .onConnected ⟨0, 0⟩] ∧
      ∀ t ∈ h, reports t = true))
    (connect ++ packet .disconnectionNotification ++ task true 6 ++ task true 3) (by decide)
  obtain ⟨hcalls, hall⟩ := of_decide_eq_true hp
  obtain ⟨honce, hiff⟩ := removals_reported_iff rfl hr
  exact ⟨h, c, hr, hcalls, honce, hiff, fun t ht => .of_eval (hall t ht)⟩

/-- A client sends one packet that is too large. It is removed, and the user hears nothing. -/
theorem removal_unreported :
    ∃ h c, (system allCallbacks : System (Server ℕ) _).Run h c ∧
      c.shared.removed = [(⟨0, 0⟩, .limit)] ∧ c.shared.calls = [.onConnected ⟨0, 0⟩] ∧
        ¬ RemovalsReported c := by
  obtain ⟨h, c, hr, hp⟩ := (system allCallbacks : System (Server ℕ) _).exists_run_of_follow
    (p := fun _ c => decide (c.shared.removed = [(⟨0, 0⟩, .limit)] ∧
      c.shared.calls = [.onConnected ⟨0, 0⟩] ∧ reportsUnderWay c ⟨0, 0⟩ = 0))
    (connect ++ [.env (.call (.receive ⟨0, true, 8 * 1024 * 1024 + 1, .other⟩)), next true 0,
      next true 0, next true 0, next true 0] ++ task true 5) (by decide)
  obtain ⟨hremoved, hcalls, hunder⟩ := of_decide_eq_true hp
  refine ⟨h, c, hr, hremoved, hcalls, fun hreported => ?_⟩
  have hcall := hreported.removed ⟨0, 0⟩ .limit (hremoved ▸ List.mem_cons_self) hunder
  rw [hcalls] at hcall
  exact absurd hcall (by decide)

end ServerEvents
end SculkProtocol
