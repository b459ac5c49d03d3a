import SculkProtocol.Server.Sessions

/-!
# The flush schedule of one GUID

The schedule is reached through a queue that keeps the order of the commands of one
producer only. `FlushSchedule.Scheduled` says what keeps a GUID scheduled in spite of
that:

* `Queued` — a queued `Schedule` that no queued `Cancel` of the GUID can undo, in
  whatever order the drains take the commands: those before it are of the same
  producer, and there is none behind it;
* `Live` — a heap entry that carries the current token, and no queued `Cancel`.

The operations on the schedule keep `Scheduled` (`dequeue_scheduled`,
`drain_scheduled`, `apply_scheduled`, `enqueue_scheduled`) unless they issue a
`Cancel` for the GUID or pop its entry (`popDue_scheduled`).
-/

namespace SculkProtocol
namespace Sessions
namespace FlushSchedule

variable {Guid : Type}

/-- No `Cancel` of `g` is queued. -/
def NoCancel (q : FlushSchedule Guid) (g : Guid) : Prop :=
  ∀ c ∈ q.mFlushScheduleCommands, c.2 ≠ .cancel g

/-- The heap holds an entry of `g` with the token stored for it. -/
def Live (q : FlushSchedule Guid) (g : Guid) : Prop :=
  ∃ e ∈ q.mFlushDueHeap, e.mGuid = g ∧ q.mFlushDueTokens g = some e.mToken

/-- A `Schedule` of `g` is queued that no queued `Cancel` will undo. -/
def Queued (q : FlushSchedule Guid) (g : Guid) : Prop :=
  ∃ before p due after, q.mFlushScheduleCommands = before ++ (p, .schedule g due) :: after ∧
    (∀ c ∈ before, c.2 = .cancel g → c.1 = p) ∧ ∀ c ∈ after, c.2 ≠ .cancel g

/-- `g` is on the schedule, or on its way to it. -/
def Scheduled (q : FlushSchedule Guid) (g : Guid) : Prop :=
  q.Queued g ∨ (q.NoCancel g ∧ q.Live g)

/-! ### The heap -/

/-- An entry is put among the others. -/
theorem mem_push (e x : FlushDueEntry Guid) (es : List (FlushDueEntry Guid)) :
    x ∈ push e es ↔ x = e ∨ x ∈ es := by
  induction es with
  | nil => simp [push]
  | cons e' es ih =>
    unfold push
    split
    · exact List.mem_cons
    · rw [List.mem_cons, ih, List.mem_cons]
      tauto

/-- The locked block of `flushTickOnce` leaves the commands alone. What it pops is an
entry for which the tick goes on, or one that was not live. -/
theorem popDue_live [DecidableEq Guid] {q : FlushSchedule Guid} {g : Guid} (h : q.Live g)
    (left : ℕ) (now : ℤ) :
    (popDue q left now).1.Live g ∨
      ∃ e : FlushDueEntry Guid, e.mGuid = g ∧ .findContext e now ∈ (popDue q left now).2 := by
  obtain ⟨x, hx, rfl, htoken⟩ := h
  unfold popDue
  split
  · exact Or.inl ⟨x, hx, rfl, htoken⟩
  · next e heap hheap =>
    split
    · exact Or.inl ⟨x, hx, rfl, htoken⟩
    · rw [hheap] at hx
      split
      · rcases List.mem_cons.mp hx with rfl | hx
        · exact Or.inr ⟨x, rfl, List.mem_cons_self⟩
        · exact Or.inl ⟨x, hx, rfl, htoken⟩
      · next hstale =>
        -- a stale entry is not the live one
        rcases List.mem_cons.mp hx with rfl | hx
        · exact absurd htoken hstale
        · exact Or.inl ⟨x, hx, rfl, htoken⟩

@[simp] theorem commands_popDue [DecidableEq Guid] (q : FlushSchedule Guid) (left : ℕ) (now : ℤ) :
    (popDue q left now).1.mFlushScheduleCommands = q.mFlushScheduleCommands := by
  unfold popDue
  split
  · rfl
  · split
    · rfl
    · split <;> rfl

variable {q q' : FlushSchedule Guid} {g : Guid}

/-! ### Enqueuing -/

/-- Without a cancellation, none is queued. -/
theorem NoCancel.enqueue {producer : ℕ} {c : Command Guid} (hno : q.NoCancel g)
    (hc : c ≠ .cancel g) : (q.enqueue producer c).NoCancel g := by
  intro d hd
  rcases List.mem_append.mp hd with hd | hd
  · exact hno d hd
  · rw [List.mem_singleton.mp hd]
    exact hc

/-- A GUID stays scheduled, unless a cancellation is queued. -/
theorem enqueue_scheduled {producer : ℕ} {c : Command Guid} (hs : q.Scheduled g)
    (hc : c ≠ .cancel g) : (q.enqueue producer c).Scheduled g := by
  rcases hs with ⟨before, p, due, after, hq, hbefore, hafter⟩ | ⟨hno, hlive⟩
  · left
    refine ⟨before, p, due, after ++ [(producer, c)], ?_, hbefore, fun d hd => ?_⟩
    · simp [FlushSchedule.enqueue, hq]
    · rcases List.mem_append.mp hd with hd | hd
      · exact hafter d hd
      · rw [List.mem_singleton.mp hd]
        exact hc
  · exact Or.inr ⟨hno.enqueue hc, hlive⟩

/-- A `Schedule` enqueued behind nothing but `Cancel`s of its own producer. -/
theorem enqueue_schedule_queued {producer : ℕ} {due : ℤ}
    (h : ∀ c ∈ q.mFlushScheduleCommands, c.2 = .cancel g → c.1 = producer) :
    (q.enqueue producer (.schedule g due)).Queued g :=
  ⟨q.mFlushScheduleCommands, producer, due, [], rfl, h, fun _ hd => absurd hd List.not_mem_nil⟩

/-! ### Applying a command -/

variable [DecidableEq Guid]

@[simp] theorem commands_apply (q : FlushSchedule Guid) (c : Command Guid) :
    (q.applyFlushScheduleCommandUnlocked c).mFlushScheduleCommands = q.mFlushScheduleCommands := by
  cases c <;> rfl

/-- A schedule command has a live entry. -/
theorem live_apply_schedule (q : FlushSchedule Guid) (g : Guid) (due : ℤ) :
    (q.applyFlushScheduleCommandUnlocked (.schedule g due)).Live g := by
  refine ⟨⟨due, g, q.mNextFlushToken⟩, (mem_push _ _ _).mpr (Or.inl rfl), rfl, ?_⟩
  show Function.update q.mFlushDueTokens g (some q.mNextFlushToken) g = _
  exact Function.update_self g _ _

/-- Only a `Cancel` of the GUID ends a live entry. -/
theorem Live.apply {c : Command Guid} (h : q.Live g) (hc : c ≠ .cancel g) :
    (q.applyFlushScheduleCommandUnlocked c).Live g := by
  obtain ⟨e, he, hguid, htoken⟩ := h
  cases c with
  | schedule g' due =>
    by_cases hg : g' = g
    · rw [hg]
      exact live_apply_schedule q g due
    · refine ⟨e, (mem_push _ _ _).mpr (Or.inr he), hguid, ?_⟩
      show Function.update q.mFlushDueTokens g' _ g = _
      rw [Function.update_of_ne (Ne.symm hg)]
      exact htoken
  | cancel g' =>
    refine ⟨e, he, hguid, ?_⟩
    show Function.update q.mFlushDueTokens g' _ g = _
    rw [Function.update_of_ne fun heq => hc (congrArg _ heq.symm)]
    exact htoken

/-- Applying a command queues none. -/
theorem NoCancel.apply (h : q.NoCancel g) (c : Command Guid) :
    (q.applyFlushScheduleCommandUnlocked c).NoCancel g := by
  unfold NoCancel
  rw [commands_apply]
  exact h

/-- A GUID stays scheduled, unless a cancellation is applied. -/
theorem apply_scheduled {c : Command Guid} (h : q.Scheduled g) (hc : c ≠ .cancel g) :
    (q.applyFlushScheduleCommandUnlocked c).Scheduled g := by
  rcases h with hqueued | ⟨hno, hlive⟩
  · left
    unfold Queued
    rw [commands_apply]
    exact hqueued
  · exact Or.inr ⟨hno.apply c, hlive.apply hc⟩

/-! ### The queue -/

/-- What a dequeue does: it takes a command that is the first of its producer. -/
theorem dequeue_inv {i : ℕ} (h : q.dequeue i = some q') :
    ∃ before p c after, q.mFlushScheduleCommands = before ++ (p, c) :: after ∧
      (∀ d ∈ before, d.1 ≠ p) ∧
      q' = applyFlushScheduleCommandUnlocked
        { q with mFlushScheduleCommands := before ++ after } c := by
  unfold dequeue at h
  split at h
  · next p c hi =>
    split at h
    · next hfirst =>
      -- the position splits the queue; nobody's earlier command is passed over
      obtain ⟨hlt, hget⟩ := List.getElem?_eq_some_iff.mp hi
      refine ⟨q.mFlushScheduleCommands.take i, p, c, q.mFlushScheduleCommands.drop (i + 1), ?_,
        hfirst, ?_⟩
      · rw [← hget, List.getElem_cons_drop, List.take_append_drop]
      · rw [← List.eraseIdx_eq_take_drop_succ]
        exact (Option.some.inj h).symm
    · exact absurd h (by simp)
  · exact absurd h (by simp)

/-- Taking a command adds none. -/
theorem NoCancel.dequeue {i : ℕ} (hno : q.NoCancel g) (h : q.dequeue i = some q') :
    q'.NoCancel g := by
  obtain ⟨before, p, c, after, hq, -, rfl⟩ := dequeue_inv h
  refine NoCancel.apply (fun d hd => hno d ?_) c
  rw [hq]
  rcases List.mem_append.mp hd with hd | hd
  · exact List.mem_append_left _ hd
  · exact List.mem_append_right _ (List.mem_cons_of_mem _ hd)

/-- Taking the queued `Schedule` itself: by the order of its producer, every `Cancel`
before it has been taken already. -/
theorem scheduled_of_dequeued {before after : List (ℕ × Command Guid)} {p : ℕ} {due : ℤ}
    (hfirst : ∀ d ∈ before, d.1 ≠ p) (hbefore : ∀ d ∈ before, d.2 = .cancel g → d.1 = p)
    (hafter : ∀ d ∈ after, d.2 ≠ .cancel g) :
    Scheduled (applyFlushScheduleCommandUnlocked
      { q with mFlushScheduleCommands := before ++ after } (.schedule g due)) g := by
  refine Or.inr ⟨NoCancel.apply (fun d hd => ?_) _, live_apply_schedule _ g due⟩
  rcases List.mem_append.mp hd with hd | hd
  · exact fun hcancel => hfirst d hd (hbefore d hd hcancel)
  · exact hafter d hd

/-- **Dequeue.** In whatever order the commands are taken, the GUID stays scheduled. -/
theorem dequeue_scheduled {i : ℕ} (hs : q.Scheduled g) (h : q.dequeue i = some q') :
    q'.Scheduled g := by
  rcases hs with ⟨before, p, due, after, hq, hbefore, hafter⟩ | ⟨hno, hlive⟩
  · obtain ⟨front, p', c, back, hq', hfirst, rfl⟩ := dequeue_inv h
    rw [hq] at hq'
    rcases List.append_eq_append_iff.mp hq' with ⟨mid, rfl, hmid⟩ | ⟨mid, rfl, hmid⟩
    · cases mid with
      | nil =>
        -- the `Schedule` itself is taken
        injection hmid with hhead htail
        obtain ⟨rfl, rfl⟩ := Prod.mk.inj hhead
        rw [← htail, List.append_nil]
        exact scheduled_of_dequeued (by simpa using hfirst) hbefore hafter
      | cons d mid =>
        -- a command behind it is taken
        injection hmid with hhead htail
        have hback : ∀ x ∈ mid ++ back, x.2 ≠ .cancel g := fun x hx => hafter x <| by
          rw [htail]
          rcases List.mem_append.mp hx with hx | hx
          · exact List.mem_append_left _ hx
          · exact List.mem_append_right _ (List.mem_cons_of_mem _ hx)
        left
        refine ⟨before, p, due, mid ++ back, ?_, hbefore, hback⟩
        rw [commands_apply, ← hhead]
        simp
    · cases mid with
      | nil =>
        injection hmid with hhead htail
        obtain ⟨rfl, rfl⟩ := Prod.mk.inj hhead
        rw [htail]
        exact scheduled_of_dequeued hfirst (by simpa using hbefore) hafter
      | cons d mid =>
        -- a command before it is taken
        injection hmid with hhead htail
        left
        refine ⟨front ++ mid, p, due, after, ?_, fun x hx => hbefore x ?_, hafter⟩
        · rw [commands_apply, htail]
          simp
        · rcases List.mem_append.mp hx with hx | hx
          · exact List.mem_append_left _ hx
          · exact List.mem_append_right _ (List.mem_cons_of_mem _ hx)
  · refine Or.inr ⟨hno.dequeue h, ?_⟩
    obtain ⟨front, p', c, back, hq', -, rfl⟩ := dequeue_inv h
    have hc : c ≠ .cancel g := hno (p', c) (hq' ▸ List.mem_append_right _ List.mem_cons_self)
    exact Live.apply (q := { q with mFlushScheduleCommands := front ++ back }) hlive hc

/-- What every dequeue keeps, a drain keeps. -/
theorem drain_induction {P : FlushSchedule Guid → Prop}
    (hstep : ∀ {q q' : FlushSchedule Guid} {i}, P q → q.dequeue i = some q' → P q')
    {is : List ℕ} (hq : P q) (h : q.drain is = some q') : P q' := by
  induction is generalizing q with
  | nil => exact Option.some.inj h ▸ hq
  | cons i is ih =>
    obtain ⟨q₁, h₁, h₂⟩ := Option.bind_eq_some_iff.mp h
    exact ih (hstep hq h₁) h₂

/-- A drain by `producer` leaves nothing of its own. -/
theorem drainBy_inv {producer : ℕ} {is : List ℕ} (h : q.drainBy producer is = some q') :
    q.drain is = some q' ∧ ∀ c ∈ q'.mFlushScheduleCommands, c.1 ≠ producer := by
  obtain ⟨h₁, h₂⟩ := Option.filter_eq_some_iff.mp h
  refine ⟨h₁, fun c hc => ?_⟩
  simpa using List.all_eq_true.mp h₂ c hc

/-- Draining keeps a GUID scheduled. -/
theorem drainBy_scheduled {producer : ℕ} {is : List ℕ} (hs : q.Scheduled g)
    (h : q.drainBy producer is = some q') : q'.Scheduled g :=
  drain_induction (fun hq hd => dequeue_scheduled hq hd) hs (drainBy_inv h).1

/-- Draining adds no cancellation. -/
theorem NoCancel.drainBy {producer : ℕ} {is : List ℕ} (hno : q.NoCancel g)
    (h : q.drainBy producer is = some q') : q'.NoCancel g :=
  drain_induction (fun hq hd => NoCancel.dequeue hq hd) hno (drainBy_inv h).1

end FlushSchedule
end Sessions
end SculkProtocol
