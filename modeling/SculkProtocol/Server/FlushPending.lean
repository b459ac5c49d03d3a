import SculkProtocol.Server.FlushSchedule
import SculkProtocol.Server.Lifecycle

/-!
# Every connected session has a flush pending

A session is flushed as long as its GUID is scheduled: an entry of the heap is popped
by a tick, which starts a strand task, which schedules the next flush. The commands
are addressed by GUID, and a `Cancel` that was meant for a session that is gone can
end the schedule of the session that came after it (`stale_cancel_stops_flush`).

`connected_pending` says when this cannot happen. In a run in which

* a connect's `Schedule` finds no `Cancel` of its GUID queued by another thread
  (`ConnectsBehindCancels`), and
* a tick or a flush task issues a `Cancel` only for a GUID whose current session is not
  connected (`CancelsGone`),

every entry with a connected session has a flush pending, whatever the order in which
commands are drained. The exceptions in both conditions are the GUIDs for which a
connect or a removal is halfway, that is with its entry in the map and its `Schedule`
still to be issued, or with its `Cancel` issued and its entry still to be erased.

The invariant is `Settled`, one disjunct for each place the schedule of a GUID can be
in; the step lemmas follow it from place to place.
-/

namespace SculkProtocol
namespace Sessions

open Scripts

variable {Guid : Type}

/-! ### Where the flush of a session can be -/

/-- A connect of `g` has its `Schedule` to issue. -/
def Connecting (c : Server Guid) (g : Guid) : Prop :=
  Has c fun _ op => ∃ due, op = .enqueueCommand (.schedule g due) .connect ∨
    op = .applyCommand (.schedule g due) .connect

/-- A removal of `g` has issued its `Cancel` and has the entry to erase. -/
def Removing (c : Server Guid) (g : Guid) : Prop :=
  Has c fun _ op => ∃ after, op = .eraseContext g after

/-- The operations of a flush tick, or of the strand task it starts, from which a
`Schedule` of `g` will come as long as `y` is the entry of `g` and connected. -/
def Op.WillSchedule (g : Guid) (y : Context Guid) : Op Guid → Prop
  | .findContext e _ => e.mGuid = g
  | .checkConnected e x _ | .enqueueFlush e x _ => e.mGuid = g ∧ x = y
  | .reschedule g' x _ _ => g' = g ∧ x = y
  | .enqueueCommand (.schedule g' _) .flush | .applyCommand (.schedule g' _) .flush => g' = g
  | _ => False

/-- A flush tick or strand flush task is in progress that will still issue a `Schedule`. -/
def InProgress (c : Server Guid) (g : Guid) (y : Context Guid) : Prop :=
  Has c fun _ op => op.WillSchedule g y

/-- A flush of `y`, the entry of `g`, is pending. -/
def FlushPending (c : Server Guid) (g : Guid) (y : Context Guid) : Prop :=
  c.shared.schedule.Live g ∨ c.shared.schedule.Queued g ∨ InProgress c g y

/-- Where the schedule of `g` can be while `y` is its entry and connected. -/
inductive Settled (c : Server Guid) (g : Guid) (y : Context Guid) : Prop
  | connecting : Connecting c g → Settled c g y
  | removing : Removing c g → Settled c g y
  | scheduled : c.shared.schedule.Scheduled g → Settled c g y
  | progress : c.shared.schedule.NoCancel g → InProgress c g y → Settled c g y

/-! ### The conditions on a step -/

/-- The transition is a thread's, and the queue asked in it accepts. -/
def accepted (x : ServerStep Guid) : Bool :=
  match x.label with
  | .thread _ (.step ch) => ch.ok
  | _ => false

/-- In the transition `x`, thread `t` gets the command `c` queued or applied. -/
def Issues (x : ServerStep Guid) (t : Thread Guid) (c : Command Guid)
    (why : Why Guid) : Prop :=
  (Does x t (.enqueueCommand c why) ∧ accepted x = true) ∨ Does x t (.applyCommand c why)

/-- A connect's `Schedule` finds no `Cancel` of its GUID left in the queue by another
thread, unless the entry is about to be erased. -/
def ConnectsBehindCancels (x : ServerStep Guid) : Prop :=
  ∀ t g due, Issues x t (.schedule g due) .connect →
    (∀ q ∈ x.dst.shared.schedule.mFlushScheduleCommands, q.2 = .cancel g → q.1 = t.tag.producer) ∨
      Removing x.src g

/-- A `Cancel` that is not part of a removal is issued for a GUID whose entry is not
connected, unless a connect or a removal of it is halfway. -/
def CancelsGone (x : ServerStep Guid) : Prop :=
  ∀ t g why, Issues x t (.cancel g) why → (∀ after, why ≠ .removal after) →
    (∀ y, x.src.shared.registry.mSessionContexts g = some y →
        x.src.shared.registry.mConnected y = false) ∨
      Connecting x.src g ∨ Removing x.src g

variable [DecidableEq Guid] {cfg : Settings Guid} {c c' : Server Guid}
  {m : Move (Event Choice (Call Guid))} {g : Guid} {y : Context Guid}

/-! ### From place to place -/

/-- A pending connect stays pending over every other access. -/
theorem Connecting.keep (hconn : Connecting c g) (h : (scripts cfg).program.step c m = some c')
    {t : Thread Guid} {op : Op Guid} (hdoes : Does ⟨c, m, c'⟩ t op)
    (hop : ∀ due, op ≠ .enqueueCommand (.schedule g due) .connect ∧
      op ≠ .applyCommand (.schedule g due) .connect) : Connecting c' g := by
  rcases has_step hconn h with hstill | ⟨t', op', hdoes', due, hop'⟩
  · exact hstill
  · obtain ⟨-, rfl⟩ := hdoes.inj hdoes'
    rcases hop' with rfl | rfl
    · exact absurd rfl (hop due).1
    · exact absurd rfl (hop due).2

/-- A pending removal stays pending over every other access. -/
theorem Removing.keep (hrem : Removing c g) (h : (scripts cfg).program.step c m = some c')
    {t : Thread Guid} {op : Op Guid} (hdoes : Does ⟨c, m, c'⟩ t op)
    (hop : ∀ after, op ≠ .eraseContext g after) : Removing c' g := by
  rcases has_step hrem h with hstill | ⟨t', op', hdoes', after, rfl⟩
  · exact hstill
  · obtain ⟨-, rfl⟩ := hdoes.inj hdoes'
    exact absurd rfl (hop after)

/-- **Connect.** Its `Schedule` is issued behind the `Cancel`s of its own thread. -/
theorem settled_connecting (hconn : Connecting c g) (h : (scripts cfg).program.step c m = some c')
    (hC : ConnectsBehindCancels ⟨c, m, c'⟩) : Settled c' g y := by
  rcases has_step hconn h with hstill | ⟨t, op, hdoes, due, rfl | rfl⟩
  · exact .connecting hstill
  · obtain ⟨i, ch, rest, ops, s', ts, others, rfl, -, -, hop, rfl⟩ := access_of_does h hdoes
    simp only [scripts_exec, execOp] at hop
    split at hop
    · next hok =>
      obtain rfl := state_eq hop
      rcases hC t g due (Or.inl ⟨hdoes, hok⟩) with hown | hrem
      · refine .scheduled (Or.inl ?_)
        exact FlushSchedule.enqueue_schedule_queued fun q hq =>
          hown q (List.mem_append_left _ hq)
      · exact .removing (hrem.keep h hdoes fun _ => by simp)
    · obtain rfl := ops_eq hop
      exact .connecting (has_of_ops (List.mem_singleton.mpr rfl) ⟨due, Or.inr rfl⟩)
  · obtain ⟨i, ch, rest, ops, s', ts, others, rfl, -, -, hop, rfl⟩ := access_of_does h hdoes
    obtain ⟨q, hq, hr⟩ := Option.map_eq_some_iff.mp hop
    obtain rfl := state_eq (congrArg some hr)
    rcases hC t g due (Or.inr hdoes) with hown | hrem
    · -- the drain has left no command of this thread, so no `Cancel` of `g` at all
      have hno : q.NoCancel g := fun d hd hcancel =>
        (FlushSchedule.drainBy_inv hq).2 d hd
          (hown d (by simpa using hd) hcancel)
      exact .scheduled (Or.inr ⟨hno.apply _, FlushSchedule.live_apply_schedule q g due⟩)
    · exact .removing (hrem.keep h hdoes fun _ => by simp)

/-- **Removal.** It ends with an entry that is gone. -/
theorem settled_removing (hrem : Removing c g) (h : (scripts cfg).program.step c m = some c')
    (hentry : c'.shared.registry.mSessionContexts g = some y) : Settled c' g y := by
  rcases has_step hrem h with hstill | ⟨t, op, hdoes, after, rfl⟩
  · exact .removing hstill
  · obtain ⟨i, ch, rest, ops, s', ts, others, -, -, -, hop, rfl⟩ := access_of_does h hdoes
    obtain rfl := state_eq hop
    have hgone : Function.update c.shared.registry.mSessionContexts g none g = some y := hentry
    rw [Function.update_self] at hgone
    exact absurd hgone (by simp)

/-- **Cancel.** It is part of a removal, or the condition applies. -/
theorem settled_cancel {t : Thread Guid} {why : Why Guid}
    (hissues : Issues ⟨c, m, c'⟩ t (.cancel g) why) (h : (scripts cfg).program.step c m = some c')
    (hC : CancelsGone ⟨c, m, c'⟩) (hentry : c.shared.registry.mSessionContexts g = some y)
    (hy : c.shared.registry.mConnected y = true) : Settled c' g y := by
  by_cases hwhy : ∃ after, why = .removal after
  · -- the removal goes on to erase the entry
    obtain ⟨after, rfl⟩ := hwhy
    rcases hissues with ⟨hdoes, hok⟩ | hdoes
    · obtain ⟨i, ch, rest, ops, s', ts, others, rfl, -, -, hop, rfl⟩ := access_of_does h hdoes
      simp only [scripts_exec, execOp, show ch.ok = true from hok, if_true] at hop
      obtain rfl := ops_eq hop
      exact .removing (has_of_ops (List.mem_singleton.mpr rfl) ⟨after, rfl⟩)
    · obtain ⟨i, ch, rest, ops, s', ts, others, rfl, -, -, hop, rfl⟩ := access_of_does h hdoes
      obtain ⟨q, -, hr⟩ := Option.map_eq_some_iff.mp hop
      obtain rfl := ops_eq (congrArg some hr)
      exact .removing (has_of_ops (List.mem_singleton.mpr rfl) ⟨after, rfl⟩)
  · -- another cancel: the condition names what comes after it
    have hdoes : ∃ op, Does ⟨c, m, c'⟩ t op ∧
        (op = .enqueueCommand (.cancel g) why ∨ op = .applyCommand (.cancel g) why) := by
      rcases hissues with ⟨hdoes, -⟩ | hdoes
      · exact ⟨_, hdoes, Or.inl rfl⟩
      · exact ⟨_, hdoes, Or.inr rfl⟩
    obtain ⟨op, hdoes, hop⟩ := hdoes
    rcases hC t g why hissues (fun after hafter => hwhy ⟨after, hafter⟩) with hgone | hconn | hrem
    · exact absurd (hy.symm.trans (hgone y hentry)) (by simp)
    · exact .connecting (hconn.keep h hdoes fun due => by rcases hop with rfl | rfl <;> simp)
    · exact .removing (hrem.keep h hdoes fun after => by rcases hop with rfl | rfl <;> simp)

/-- What a move can do to the schedule of a server that runs. -/
inductive ScheduleMove (c : Server Guid) (m : Move (Event Choice (Call Guid))) (c' : Server Guid) :
    Prop
  | same : c'.shared.schedule = c.shared.schedule → ScheduleMove c m c'
  | enqueued {t : Thread Guid} {d : Command Guid} {why : Why Guid} :
      Issues ⟨c, m, c'⟩ t d why →
      c'.shared.schedule = c.shared.schedule.enqueue t.tag.producer d → ScheduleMove c m c'
  | applied {t : Thread Guid} {d : Command Guid} {why : Why Guid} {q : FlushSchedule Guid}
      {is : List ℕ} :
      Issues ⟨c, m, c'⟩ t d why → c.shared.schedule.drainBy t.tag.producer is = some q →
      c'.shared.schedule = q.applyFlushScheduleCommandUnlocked d → ScheduleMove c m c'
  | drained {producer : ℕ} {is : List ℕ} :
      c.shared.schedule.drainBy producer is = some c'.shared.schedule → ScheduleMove c m c'
  | popped {left : ℕ} {now : ℤ} :
      c'.shared.schedule = (popDue c.shared.schedule left now).1 →
      (∀ o ∈ (popDue c.shared.schedule left now).2, Has c' fun _ op => op = o) →
      ScheduleMove c m c'

/-- A step moves the schedule in one of the ways. -/
theorem schedule_step (hl : LifecycleInvariant c) (h : (scripts cfg).program.step c m = some c')
    (hrun : c.shared.mRunning = true) (hrun' : c'.shared.mRunning = true) :
    ScheduleMove c m c' := by
  cases step_cases h with
  | @access i ch t op rest ops s' ts others hi hperm hcode hop =>
    have hdoes : Does (⟨c, .thread i (.step ch), ⟨s', others ++ ⟨t.tag, ops ++ rest⟩ :: ts⟩⟩ :
        ServerStep Guid) t op :=
      does_of_head hi hcode
    by_cases hsched : op.schedules = false
    · exact .same ((execOp_effect hop).schedule hsched)
    cases op with
    | enqueueCommand d why =>
      simp only [scripts_exec, execOp] at hop
      split at hop
      · next hok =>
        obtain rfl := state_eq hop
        exact .enqueued (Or.inl ⟨hdoes, hok⟩) rfl
      · obtain rfl := state_eq hop
        exact .same rfl
    | applyCommand d why =>
      obtain ⟨q, hq, hr⟩ := Option.map_eq_some_iff.mp hop
      obtain rfl := state_eq (congrArg some hr)
      exact .applied (Or.inr hdoes) hq rfl
    | drainFlushScheduleCommands left now =>
      cases left with
      | zero =>
        obtain rfl := state_eq hop
        exact .same rfl
      | succ left =>
        obtain ⟨q, hq, hr⟩ := Option.map_eq_some_iff.mp hop
        obtain rfl := state_eq (congrArg some hr)
        exact .drained hq
    | popDue left now =>
      obtain rfl := state_eq hop
      obtain rfl := ops_eq hop
      exact .popped rfl fun o ho => has_of_ops ho rfl
    | clearFlushSchedule =>
      -- only `stop` clears the schedule, and it does not run beside a running server
      have hmem := hdoes.mem
      have hstopped := hl.stopping t hmem.1 (hl.roles t hmem.1 _ hmem.2)
      exact absurd (hrun.symm.trans hstopped) (by simp)
    | _ => exact absurd rfl hsched
  | @finish i ch t others hi hperm hcode => exact .same (schedule_finish _ _)
  | @arrive a s' new hnew =>
    rcases arrive_cases hnew with ⟨hfalse, -⟩ | ⟨-, -, hfalse, -⟩ | ⟨-, -, -, -, -,
      heq⟩ | ⟨-, -, -, heq⟩
    · exact absurd (hrun.symm.trans hfalse) (by simp)
    · exact absurd (hrun'.symm.trans hfalse) (by simp)
    · exact .same heq
    · exact .same heq

/-- The queue stays free of `Cancel`s of `g` until one is issued. -/
theorem noCancel_step (hno : c.shared.schedule.NoCancel g) (hm : ScheduleMove c m c') :
    c'.shared.schedule.NoCancel g ∨ ∃ t why, Issues ⟨c, m, c'⟩ t (.cancel g) why := by
  cases hm with
  | same heq => exact Or.inl (heq ▸ hno)
  | @enqueued t d why hissues heq =>
    by_cases hd : d = .cancel g
    · exact Or.inr ⟨t, why, hd ▸ hissues⟩
    · exact Or.inl (heq ▸ hno.enqueue hd)
  | @applied t d why q is _ hq heq => exact Or.inl (heq ▸ (hno.drainBy hq).apply d)
  | drained hq => exact Or.inl (hno.drainBy hq)
  | @popped left now heq _ =>
    left
    rw [heq]
    unfold FlushSchedule.NoCancel
    rw [FlushSchedule.commands_popDue]
    exact hno

/-- **Schedule.** Whatever is drained, enqueued or popped, a scheduled GUID stays
scheduled, is being flushed, or a `Cancel` of it is issued. -/
theorem scheduled_step (hs : c.shared.schedule.Scheduled g) (hm : ScheduleMove c m c') :
    Settled c' g y ∨ ∃ t why, Issues ⟨c, m, c'⟩ t (.cancel g) why := by
  cases hm with
  | same heq => exact Or.inl (.scheduled (heq ▸ hs))
  | @enqueued t d why hissues heq =>
    by_cases hd : d = .cancel g
    · exact Or.inr ⟨t, why, hd ▸ hissues⟩
    · exact Or.inl (.scheduled (heq ▸ FlushSchedule.enqueue_scheduled hs hd))
  | @applied t d why q is hissues hq heq =>
    by_cases hd : d = .cancel g
    · exact Or.inr ⟨t, why, hd ▸ hissues⟩
    · have hdrained := FlushSchedule.drainBy_scheduled hs hq
      exact Or.inl (.scheduled (heq ▸ FlushSchedule.apply_scheduled hdrained hd))
  | drained hq => exact Or.inl (.scheduled (FlushSchedule.drainBy_scheduled hs hq))
  | @popped left now heq hops =>
    left
    have hcommands := FlushSchedule.commands_popDue c.shared.schedule left now
    rcases hs with hqueued | ⟨hno, hlive⟩
    · refine .scheduled (Or.inl ?_)
      rw [heq]
      unfold FlushSchedule.Queued
      rw [hcommands]
      exact hqueued
    · have hno' : c'.shared.schedule.NoCancel g := by
        rw [heq]
        unfold FlushSchedule.NoCancel
        rw [hcommands]
        exact hno
      rcases FlushSchedule.popDue_live hlive left now with hlive' | ⟨e, he, hmem⟩
      · exact .scheduled (Or.inr ⟨hno', heq ▸ hlive'⟩)
      · -- the live entry is popped, and the tick goes on with it
        obtain ⟨t, ht, o, ho, hfind⟩ := hops _ hmem
        exact .progress hno' ⟨t, ht, o, ho, hfind ▸ he⟩

/-- **Flush.** Each access of a tick or flush task hands the GUID on, from the popped
entry to the next `Schedule`. -/
theorem settled_flush {t : Thread Guid} {op : Op Guid} (hdoes : Does ⟨c, m, c'⟩ t op)
    (hop : op.WillSchedule g y) (h : (scripts cfg).program.step c m = some c')
    (hno : c.shared.schedule.NoCancel g) (hno' : c'.shared.schedule.NoCancel g)
    (hentry : c.shared.registry.mSessionContexts g = some y)
    (hy : c.shared.registry.mConnected y = true) : Settled c' g y := by
  obtain ⟨i, ch, rest, ops, s', ts, others, rfl, -, -, hex, rfl⟩ := access_of_does h hdoes
  cases op with
  | findContext e now =>
    obtain rfl : e.mGuid = g := hop
    -- the entry is there
    simp only [scripts_exec, execOp, hentry] at hex
    obtain rfl := ops_eq hex
    exact .progress hno' (has_of_ops (List.mem_singleton.mpr rfl) ⟨rfl, rfl⟩)
  | checkConnected e x now =>
    obtain ⟨rfl, rfl⟩ : e.mGuid = g ∧ x = y := hop
    -- the session is connected
    simp only [scripts_exec, execOp, hy, if_true] at hex
    obtain rfl := ops_eq hex
    exact .progress hno' (has_of_ops (List.mem_singleton.mpr rfl) ⟨rfl, rfl⟩)
  | enqueueFlush e x now =>
    obtain ⟨rfl, rfl⟩ : e.mGuid = g ∧ x = y := hop
    simp only [scripts_exec, execOp] at hex
    split at hex
    · -- the flush goes on in the task
      obtain rfl := spawns_eq hex
      exact .progress hno' ⟨_, List.mem_append_right _ (List.mem_cons_of_mem _ List.mem_cons_self),
        _, List.mem_cons_self, rfl, rfl⟩
    · obtain rfl := ops_eq hex
      -- the flush goes on in place
      exact .progress hno' (has_of_ops List.mem_cons_self ⟨rfl, rfl⟩)
  | reschedule g' x prev now =>
    obtain ⟨rfl, rfl⟩ : g' = g ∧ x = y := hop
    simp only [scripts_exec, execOp, hy, if_true] at hex
    obtain rfl := ops_eq hex
    exact .progress hno' (has_of_ops (List.mem_singleton.mpr rfl) rfl)
  | enqueueCommand d why =>
    -- only the `Schedule` of a flush is in question; no `Cancel` stands before it
    cases d with
    | cancel g' => exact absurd hop id
    | schedule g' due =>
      cases why with
      | flush =>
        obtain rfl : g' = g := hop
        simp only [scripts_exec, execOp] at hex
        split at hex
        · obtain rfl := state_eq hex
          refine .scheduled (Or.inl ?_)
          exact FlushSchedule.enqueue_schedule_queued fun q hq hcancel =>
            absurd hcancel (hno q hq)
        · obtain rfl := ops_eq hex
          exact .progress hno' (has_of_ops (List.mem_singleton.mpr rfl) rfl)
      | connect | removal => exact absurd hop id
  | applyCommand d why =>
    cases d with
    | cancel g' => exact absurd hop id
    | schedule g' due =>
      cases why with
      | flush =>
        obtain rfl : g' = g := hop
        obtain ⟨q, hq, hr⟩ := Option.map_eq_some_iff.mp hex
        obtain rfl := state_eq (congrArg some hr)
        exact .scheduled (Or.inr ⟨hno', FlushSchedule.live_apply_schedule q g' due⟩)
      | connect | removal => exact absurd hop id
  | _ => exact absurd hop id

/-! ### Runs -/

/-- While the server runs, the schedule of every entry with a connected session is
settled. -/
def FlushInvariant (c : Server Guid) : Prop :=
  c.shared.mRunning = true → ∀ g y, c.shared.registry.mSessionContexts g = some y →
    c.shared.registry.mConnected y = true → Settled c g y

/-- A server that runs after a move ran before it, or has just been started. -/
theorem running_step (h : (scripts cfg).program.step c m = some c')
    (hrun' : c'.shared.mRunning = true) :
    c.shared.mRunning = true ∨
      c.shared.mRunning = false ∧ ∀ t ∈ c.threads, t.tag.role ≠ .stop := by
  cases step_cases h with
  | access hi hperm hcode hop => exact Or.inl ((execOp_effect hop).running ▸ hrun')
  | @finish i ch t others hi hperm hcode =>
    exact Or.inl ((finish_phase c.shared t.tag.role).1.symm.trans hrun')
  | arrive hnew =>
    rcases arrive_cases hnew with ⟨hfalse, hstop, -⟩ | ⟨-, -, hfalse, -⟩ | ⟨-, -, heq,
      -⟩ | ⟨-, heq, -⟩
    · exact Or.inr ⟨hfalse, hstop⟩
    · exact absurd (hrun'.symm.trans hfalse) (by simp)
    · exact Or.inl (heq ▸ hrun')
    · exact Or.inl (heq ▸ hrun')

/-- **One move** that meets the conditions keeps the invariant. -/
theorem flushInvariant_step (hl : LifecycleInvariant c) (hc : FlushInvariant c)
    (h : (scripts cfg).program.step c m = some c')
    (hC : ConnectsBehindCancels ⟨c, m, c'⟩ ∧ CancelsGone ⟨c, m, c'⟩) : FlushInvariant c' := by
  intro hrun' g y hentry hy
  rcases entry_step hl.wellFormed h hentry hy with ⟨hentry₀, hy₀⟩ | ⟨t, hdoes⟩
  · rcases running_step h hrun' with hrun | ⟨hrun, hstop⟩
    · have hm := schedule_step hl h hrun hrun'
      cases hc hrun g y hentry₀ hy₀ with
      | connecting hconn => exact settled_connecting hconn h hC.1
      | removing hrem => exact settled_removing hrem h hentry
      | scheduled hs =>
        rcases scheduled_step hs hm with hsettled | ⟨t, why, hissues⟩
        · exact hsettled
        · exact settled_cancel hissues h hC.2 hentry₀ hy₀
      | progress hno hprog =>
        rcases noCancel_step hno hm with hno' | ⟨t, why, hissues⟩
        · rcases has_step hprog h with hstill | ⟨t, op, hdoes, hop⟩
          · exact .progress hno' hstill
          · exact settled_flush hdoes hop h hno hno' hentry₀ hy₀
        · exact settled_cancel hissues h hC.2 hentry₀ hy₀
    · exact absurd (hy₀.symm.trans (start_quiet hl hrun hstop hentry₀)) (by simp)
  · -- the GUID has just been inserted
    obtain ⟨i, ch, rest, ops, s', ts, others, rfl, -, -, hop, rfl⟩ := access_of_does h hdoes
    obtain rfl := ops_eq hop
    exact .connecting (has_of_ops (List.mem_singleton.mpr rfl) ⟨_, Or.inl rfl⟩)

/-- **Pending flushes.** In every state of a running server that is reached by moves
that meet the conditions, every entry with a connected session has a flush pending,
unless a connect or a removal of its GUID is halfway. -/
theorem connected_pending {h : List (ServerStep Guid)}
    (hr : (system cfg).Run h c) (hC : ∀ x ∈ h, ConnectsBehindCancels x ∧ CancelsGone x)
    (hrun : c.shared.mRunning = true) (hentry : c.shared.registry.mSessionContexts g = some y)
    (hy : c.shared.registry.mConnected y = true) (hconn : ¬ Connecting c g)
    (hrem : ¬ Removing c g) : FlushPending c g y := by
  have hinit : LifecycleInvariant (system cfg).init ∧
      FlushInvariant (system cfg).init :=
    ⟨lifecycle_initial, fun hrun => absurd hrun (by simp [system, State.initial])⟩
  have hinv : LifecycleInvariant c ∧ FlushInvariant c := hr.invariant_where
    (I := fun c => LifecycleInvariant c ∧ FlushInvariant c) hinit
    (fun s l t hs hst hCs =>
      ⟨lifecycle_step hs.1 hst, flushInvariant_step hs.1 hs.2 hst hCs⟩) hC
  cases hinv.2 hrun g y hentry hy with
  | connecting h => exact absurd h hconn
  | removing h => exact absurd h hrem
  | scheduled h =>
    rcases h with hqueued | ⟨-, hlive⟩
    · exact Or.inr (Or.inl hqueued)
    · exact Or.inl hlive
  | progress _ h => exact Or.inr (Or.inr h)

/-! ### A run that meets the conditions, and one that does not -/

/-- `ConnectsBehindCancels` without its exception, to be evaluated. -/
def connectsBehindCancels (x : ServerStep Guid) : Bool :=
  match performed x with
  | some (t, .enqueueCommand (.schedule g _) .connect)
  | some (t, .applyCommand (.schedule g _) .connect) =>
    decide (∀ q ∈ x.dst.shared.schedule.mFlushScheduleCommands, q.2 = .cancel g →
      q.1 = t.tag.producer)
  | _ => true

/-- `CancelsGone` without its exceptions, to be evaluated. -/
def cancelsGone (x : ServerStep Guid) : Bool :=
  match performed x with
  | some (_, .enqueueCommand (.cancel _) (.removal _))
  | some (_, .applyCommand (.cancel _) (.removal _)) => true
  | some (_, .enqueueCommand (.cancel g) _) | some (_, .applyCommand (.cancel g) _) =>
    (x.src.shared.registry.mSessionContexts g).all fun y => !x.src.shared.registry.mConnected y
  | _ => true

/-- The evaluation of the condition is right. -/
theorem connectsBehindCancels_sound {x : ServerStep Guid}
    (h : connectsBehindCancels x = true) : ConnectsBehindCancels x := by
  intro t g due hissues
  left
  rcases hissues with ⟨hdoes, -⟩ | hdoes
  · rw [connectsBehindCancels, show performed x = _ from hdoes] at h
    exact of_decide_eq_true h
  · rw [connectsBehindCancels, show performed x = _ from hdoes] at h
    exact of_decide_eq_true h

omit [DecidableEq Guid] in
/-- So is that of the other one. -/
theorem cancelsGone_sound {x : ServerStep Guid}
    (h : cancelsGone x = true) : CancelsGone x := by
  intro t g why hissues hwhy
  left
  intro y hentry
  have hall : (x.src.shared.registry.mSessionContexts g).all
      (fun y => !x.src.shared.registry.mConnected y) = true := by
    rcases hissues with ⟨hdoes, -⟩ | hdoes
    · rw [cancelsGone, show performed x = _ from hdoes] at h
      cases why with
      | removal after => exact absurd rfl (hwhy after)
      | connect | flush => exact h
    · rw [cancelsGone, show performed x = _ from hdoes] at h
      cases why with
      | removal after => exact absurd rfl (hwhy after)
      | connect | flush => exact h
  rw [hentry] at hall
  simpa using hall

/-- The client of GUID 0. -/
def client : Packet ℕ := ⟨0, true, 1, .newIncomingConnection⟩

/-- The next access of thread `i`; the drain it may contain takes `is`. -/
def access (i : ℕ) (is : List ℕ) : Move (Event Choice (Call ℕ)) := .thread i (.step { drain := is })

/-- The server is started, the client connects, and a user disconnects its session. -/
def connectAndDisconnect : List (Move (Event Choice (Call ℕ))) :=
  [.env (.call (.start [])), .env (.call (.receive client)), access 0 [], access 0 [], access 0 [],
    access 0 [],
    .env (.call (.disconnect ⟨0, 0⟩)), access 0 [], access 0 [], access 0 [], access 0 []]

/-- A tick finds the session disconnected and is about to cancel its flush. -/
def tickBeforeCancel : List (Move (Event Choice (Call ℕ))) :=
  [.env (.call (.flushTick 0 1)), access 0 [0], access 0 [], access 0 [], access 0 []]

/-- The client connects again; its I/O thread has position `i`. -/
def reconnect (i : ℕ) : List (Move (Event Choice (Call ℕ))) :=
  [.env (.call (.receive client)), access i [], access i [], access i [], access i [], access i []]

/-- The tick cancels, drains what is queued, and ends; `is` are the positions it takes. -/
def tickCancels (is : List ℕ) : List (Move (Event Choice (Call ℕ))) :=
  [access 0 [], access 0 [], access 0 is, access 0 []]

/-- A client that connects again has a flush to come. -/
theorem connected_pending_reconnect :
    ∃ h c, (system (Settings.defaults fun _ : ℕ => 0)).Run h c ∧
      c.shared.registry.mSessionContexts 0 = some ⟨0, 1⟩ ∧ FlushPending c 0 ⟨0, 1⟩ := by
  obtain ⟨h, c, hr, hp⟩ := (system (Settings.defaults fun _ : ℕ => 0)).exists_run_of_follow
    (p := fun h c => decide (c.shared.mRunning = true ∧
      c.shared.registry.mSessionContexts 0 = some ⟨0, 1⟩ ∧
      c.shared.registry.mConnected ⟨0, 1⟩ = true ∧ c.threads = [] ∧
      ∀ x ∈ h, connectsBehindCancels x = true ∧ cancelsGone x = true))
    (connectAndDisconnect ++ tickBeforeCancel ++ tickCancels [0] ++ [access 0 []] ++ reconnect 0)
    (by decide)
  obtain ⟨hrun, hentry, hy, hnil, hall⟩ := of_decide_eq_true hp
  refine ⟨h, c, hr, hentry, connected_pending hr (fun x hx => ?_) hrun hentry hy
    (not_has_of_nil hnil) (not_has_of_nil hnil)⟩
  exact ⟨connectsBehindCancels_sound (hall x hx).1, cancelsGone_sound (hall x hx).2⟩

/-- The client reconnects between the tick's look at its first session and the `Cancel`
the tick issues for it. In the end nothing is going on, and the second session is
connected without a flush pending. -/
theorem stale_cancel_stops_flush :
    ∃ h c, (system (Settings.defaults fun _ : ℕ => 0)).Run h c ∧ c.shared.mRunning = true ∧
      c.shared.registry.mSessionContexts 0 = some ⟨0, 1⟩ ∧
      c.shared.registry.mConnected ⟨0, 1⟩ = true ∧ c.threads = [] ∧
      ¬ FlushPending c 0 ⟨0, 1⟩ := by
  obtain ⟨h, c, hr, hp⟩ := (system (Settings.defaults fun _ : ℕ => 0)).exists_run_of_follow
    (p := fun _ c => decide (c.shared.mRunning = true ∧
      c.shared.registry.mSessionContexts 0 = some ⟨0, 1⟩ ∧
      c.shared.registry.mConnected ⟨0, 1⟩ = true ∧ c.threads = [] ∧
      c.shared.schedule.mFlushDueTokens 0 = none ∧
      c.shared.schedule.mFlushScheduleCommands = []))
    (connectAndDisconnect ++ tickBeforeCancel ++ reconnect 1 ++ tickCancels [0, 0] ++
      [access 0 [], access 0 [], access 0 []]) (by decide)
  obtain ⟨hrun, hentry, hy, hnil, htoken, hcommands⟩ := of_decide_eq_true hp
  refine ⟨h, c, hr, hrun, hentry, hy, hnil, ?_⟩
  rintro (⟨e, -, -, hlive⟩ | ⟨before, p, due, after, hqueue, -⟩ | hprog)
  · -- the token is gone, and with it the live entry
    exact absurd (htoken.symm.trans hlive) (by simp)
  · rw [hcommands] at hqueue
    exact absurd hqueue (by simp)
  · exact not_has_of_nil hnil hprog

end Sessions
end SculkProtocol
