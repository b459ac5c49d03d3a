import Mathlib.Data.List.Nodup
import SculkProtocol.Server.FlushSchedule
import SculkProtocol.Server.SessionSteps

/-!
# The tokens of the flush schedule

An entry stays in `mFlushDueHeap` when its GUID is cancelled or scheduled again: whether it still
counts is decided when it is popped, by its token. `FlushSchedule.system` is the schedule with
everything that accesses it, in any order: commands that are queued or, when the queue refuses them,
applied, the drains, the locked block of `flushTickOnce` and `clearFlushSchedule`.

`Tokens log q` is what holds of a schedule and the commands that were applied to it, latest first.
`access_tokens` is the step lemma and `flushTokens` the statement about runs: a tick goes on with an
entry only if the last command that was applied for its GUID is the one that made the entry.

The schedule of a server is accessed in no other way (`server_access`), so what holds of every
reachable schedule holds of the schedule of every server (`schedule_reachable`).
-/

namespace SculkProtocol
namespace Sessions
namespace FlushSchedule

variable {Guid : Type}

/-- An access to the schedule. -/
inductive Access (Guid : Type)
  /-- `scheduleSessionFlushAt` or `cancelSessionFlush`: the lock-free attempt -/
  | enqueue (producer : ℕ) (c : Command Guid)
  /-- the same when the queue has refused: drain and apply -/
  | apply (positions : List ℕ) (c : Command Guid)
  /-- `drainFlushScheduleCommands` -/
  | drain (positions : List ℕ)
  /-- the locked block of `flushTickOnce` -/
  | pop (now : ℤ)
  /-- `clearFlushSchedule` -/
  | clear (positions : List ℕ)

variable [DecidableEq Guid]

def access (q : FlushSchedule Guid) : Access Guid → Option (FlushSchedule Guid)
  | .enqueue producer c => some (q.enqueue producer c)
  | .apply positions c => (q.drain positions).map fun q' => q'.applyFlushScheduleCommandUnlocked c
  | .drain positions => q.drain positions
  | .pop now => some (popDue q 0 now).1
  | .clear positions => (q.drain positions).map clear

/-- A schedule that nothing was done to. -/
def initial : FlushSchedule Guid := ⟨[], [], fun _ => none, 1⟩

/-- The schedule under any accesses. -/
def system (Guid : Type) [DecidableEq Guid] : System (FlushSchedule Guid) (Access Guid) :=
  ⟨initial, access⟩

/-! ### What was applied -/

/-- The commands that a drain applies, in front of those before. -/
def record (q : FlushSchedule Guid) (log : List (Command Guid)) : List ℕ → List (Command Guid)
  | [] => log
  | i :: is =>
    match q.mFlushScheduleCommands[i]?, q.dequeue i with
    | some c, some q' => q'.record (c.2 :: log) is
    | _, _ => log

/-- The same for an access. -/
def Access.record (q : FlushSchedule Guid) (log : List (Command Guid)) :
    Access Guid → List (Command Guid)
  | .enqueue _ _ | .pop _ => log
  | .apply positions c => c :: q.record log positions
  | .drain positions | .clear positions => q.record log positions

/-- The commands that were applied in a run, latest first. -/
def applied : List (Transition (FlushSchedule Guid) (Access Guid)) → List (Command Guid)
  | [] => []
  | x :: h => x.label.record x.src (applied h)

/-- The last of some commands that is about a GUID. -/
def latest (log : List (Command Guid)) (g : Guid) : Option (Command Guid) :=
  log.find? fun c => c.guid = g

omit [DecidableEq Guid] in
/-- An entry is put among the others. -/
theorem push_perm (e : FlushDueEntry Guid) (es : List (FlushDueEntry Guid)) :
    (push e es).Perm (e :: es) := by
  induction es with
  | nil => exact List.Perm.refl _
  | cons e' es ih =>
    unfold push
    split
    · exact List.Perm.refl _
    · exact (ih.cons e').trans (List.Perm.swap e e' es)

/-- The latest command of a GUID is the last one about it. -/
theorem latest_cons_self (log : List (Command Guid)) (c : Command Guid) :
    latest (c :: log) c.guid = some c :=
  List.find?_cons_of_pos (decide_eq_true rfl)

/-- A command about another GUID changes nothing. -/
theorem latest_cons_of_ne {log : List (Command Guid)} {c : Command Guid} {g : Guid}
    (h : g ≠ c.guid) :
    latest (c :: log) g = latest log g :=
  List.find?_cons_of_neg (decide_eq_true_iff.not.mpr h.symm)

/-! ### The invariant -/

/-- The token of an entry is the one that is stored for its GUID. -/
def IsLive (q : FlushSchedule Guid) (e : FlushDueEntry Guid) : Prop :=
  q.mFlushDueTokens e.mGuid = some e.mToken

/-- What holds of a schedule and the commands that were applied to it. The tokens are too few for a
64-bit counter to wrap around before so many commands were applied. -/
structure Tokens (log : List (Command Guid)) (q : FlushSchedule Guid) : Prop where
  counted : q.mNextFlushToken ≤ log.length + 1
  nodup : (q.mFlushDueHeap.map FlushDueEntry.mToken).Nodup
  below : ∀ e ∈ q.mFlushDueHeap, e.mToken < q.mNextFlushToken
  stored : ∀ g token, q.mFlushDueTokens g = some token → token < q.mNextFlushToken
  latest : ∀ e ∈ q.mFlushDueHeap, q.IsLive e → latest log e.mGuid = some (.schedule e.mGuid e.mDue)

variable {log : List (Command Guid)} {q q' : FlushSchedule Guid}

/-- An empty schedule has no tokens. -/
theorem tokens_initial : Tokens [] (initial : FlushSchedule Guid) where
  counted := Nat.le_refl 1
  nodup := List.nodup_nil
  below _ h := absurd h List.not_mem_nil
  stored _ _ h := absurd h (by simp [initial])
  latest _ h := absurd h List.not_mem_nil

/-- Two live entries of a GUID are one. -/
theorem Tokens.live_unique (h : Tokens log q) {e e' : FlushDueEntry Guid} (he : e ∈ q.mFlushDueHeap)
    (he' : e' ∈ q.mFlushDueHeap) (hlive : q.IsLive e) (hlive' : q.IsLive e')
    (hguid : e.mGuid = e'.mGuid) :
    e = e' := by
  have htoken : e.mToken = e'.mToken := by
    unfold IsLive at hlive hlive'
    rw [hguid] at hlive
    exact Option.some.inj (hlive.symm.trans hlive')
  exact List.inj_on_of_nodup_map h.nodup he he' htoken

/-- Only the heap and the tokens matter. -/
theorem Tokens.of_commands (h : Tokens log q) (commands : List (ℕ × Command Guid)) :
    Tokens log { q with mFlushScheduleCommands := commands } :=
  ⟨h.counted, h.nodup, h.below, h.stored, h.latest⟩

/-- **Applying.** A new entry has a token that none has, and it is live from then on. -/
theorem Tokens.apply (h : Tokens log q) (c : Command Guid) :
    Tokens (c :: log) (q.applyFlushScheduleCommandUnlocked c) := by
  cases c with
  | schedule g due =>
    -- a `Schedule` makes an entry with a token that is in neither the heap nor the map
    have hperm := (push_perm ⟨due, g, q.mNextFlushToken⟩ q.mFlushDueHeap).map FlushDueEntry.mToken
    refine ⟨Nat.succ_le_succ h.counted, ?_, fun e he => ?_, fun g' token htoken => ?_,
      fun e he hlive => ?_⟩
    · -- the heap has no entry with the next token
      refine hperm.nodup_iff.mpr (List.nodup_cons.mpr ⟨fun hmem => ?_, h.nodup⟩)
      obtain ⟨e, he, htoken⟩ := List.mem_map.mp hmem
      exact Nat.ne_of_lt (h.below e he) htoken
    · rcases (mem_push _ _ _).mp he with rfl | he
      · exact Nat.lt_succ_self _
      · exact Nat.lt_succ_of_lt (h.below e he)
    · change Function.update q.mFlushDueTokens g (some q.mNextFlushToken) g' = some token at htoken
      by_cases hg : g' = g
      · rw [hg, Function.update_self] at htoken
        exact Option.some.inj htoken ▸ Nat.lt_succ_self _
      · rw [Function.update_of_ne hg] at htoken
        exact Nat.lt_succ_of_lt (h.stored g' token htoken)
    · change Function.update q.mFlushDueTokens g (some q.mNextFlushToken) e.mGuid =
        some e.mToken at hlive
      rcases (mem_push _ _ _).mp he with rfl | he
      · exact latest_cons_self log (.schedule g due)
      · by_cases hg : e.mGuid = g
        · -- the token of an entry that was there is not the new one
          rw [hg, Function.update_self] at hlive
          exact absurd (Option.some.inj hlive) (Nat.ne_of_gt (h.below e he))
        · rw [Function.update_of_ne hg] at hlive
          rw [latest_cons_of_ne hg]
          exact h.latest e he hlive
  | cancel g =>
    -- a `Cancel` leaves the entries in the heap: those of its GUID are not live any more
    refine ⟨Nat.le_succ_of_le h.counted, h.nodup, h.below, fun g' token htoken => ?_,
      fun e he hlive => ?_⟩
    · change Function.update q.mFlushDueTokens g none g' = some token at htoken
      by_cases hg : g' = g
      · rw [hg, Function.update_self] at htoken
        cases htoken
      · rw [Function.update_of_ne hg] at htoken
        exact h.stored g' token htoken
    · change Function.update q.mFlushDueTokens g none e.mGuid = some e.mToken at hlive
      by_cases hg : e.mGuid = g
      · rw [hg, Function.update_self] at hlive
        cases hlive
      · rw [Function.update_of_ne hg] at hlive
        rw [latest_cons_of_ne hg]
        exact h.latest e he hlive

/-- A dequeue applies the command at the position. -/
theorem dequeue_apply {i : ℕ} (h : q.dequeue i = some q') :
    ∃ c, q.mFlushScheduleCommands[i]? = some c ∧
    ∃ rest, q' = applyFlushScheduleCommandUnlocked
      { q with mFlushScheduleCommands := rest } c.2 := by
  unfold dequeue at h
  split at h
  · next p c hc =>
    split at h
    · exact ⟨(p, c), hc, _, (Option.some.inj h).symm⟩
    · exact absurd h (by simp)
  · exact absurd h (by simp)

/-- Draining keeps the tokens right. -/
theorem Tokens.drain {positions : List ℕ} (h : Tokens log q) (hd : q.drain positions = some q') :
    Tokens (q.record log positions) q' := by
  induction positions generalizing log q with
  | nil =>
    cases hd
    exact h
  | cons i is ih =>
    obtain ⟨q₁, h₁, h₂⟩ := Option.bind_eq_some_iff.mp hd
    obtain ⟨c, hc, rest, hq₁⟩ := dequeue_apply h₁
    -- the first command is applied before the others
    have hrecord : q.record log (i :: is) = q₁.record (c.2 :: log) is := by
      simp only [FlushSchedule.record, hc, h₁]
    rw [hrecord]
    refine ih ?_ h₂
    rw [hq₁]
    exact (h.of_commands rest).apply c.2

/-- Popping an entry leaves the rest. -/
theorem Tokens.pop (h : Tokens log q) (left : ℕ) (now : ℤ) : Tokens log (popDue q left now).1 := by
  unfold popDue
  split
  · exact h
  · next e heap hheap =>
    have hrest : Tokens log { q with mFlushDueHeap := heap } := by
      have hnodup := h.nodup
      rw [hheap, List.map_cons, List.nodup_cons] at hnodup
      -- the token of a popped entry stays in the map; no entry that is left has it
      refine ⟨h.counted, hnodup.2, fun e he => h.below e ?_, h.stored,
        fun e he hlive => h.latest e ?_ hlive⟩
      all_goals
        rw [hheap]
        exact List.mem_cons_of_mem _ he
    split
    · exact h
    · split
      · exact hrest
      · exact hrest

/-- Nothing is left to hold. -/
theorem tokens_clear (log : List (Command Guid)) (q : FlushSchedule Guid) : Tokens log q.clear where
  counted := Nat.le_add_left ..
  nodup := List.nodup_nil
  below _ he := absurd he List.not_mem_nil
  stored _ _ htoken := absurd htoken (by simp [FlushSchedule.clear])
  latest _ he := absurd he List.not_mem_nil

/-- **Step.** -/
theorem access_tokens {a : Access Guid} (h : Tokens log q) (ha : q.access a = some q') :
    Tokens (a.record q log) q' := by
  cases a with
  | enqueue producer c =>
    cases ha
    exact h.of_commands _
  | apply positions c =>
    obtain ⟨q₁, h₁, rfl⟩ := Option.map_eq_some_iff.mp ha
    exact (h.drain h₁).apply c
  | drain positions => exact h.drain ha
  | pop now =>
    cases ha
    exact h.pop 0 now
  | clear positions =>
    obtain ⟨q₁, h₁, rfl⟩ := Option.map_eq_some_iff.mp ha
    exact tokens_clear _ q₁

/-- The invariant of a run, with the commands that were applied in it. -/
theorem tokens_of_run {h : List (Transition (FlushSchedule Guid) (Access Guid))}
    (hr : (system Guid).Run h q) :
    Tokens (applied h) q := by
  induction hr with
  | init => exact tokens_initial
  | snoc _ hstep ih => exact access_tokens ih hstep

/-! ### What a tick goes on with -/

omit [DecidableEq Guid] in
/-- The entry that a tick goes on with is on top of the heap, due and live. -/
theorem findContext_popDue {left : ℕ} {now now' : ℤ} {e : FlushDueEntry Guid}
    (h : .findContext e now' ∈ (popDue q left now).2) : e ∈ q.mFlushDueHeap ∧ e.mDue ≤ now ∧
    q.IsLive e := by
  unfold popDue at h
  split at h
  · exact absurd h List.not_mem_nil
  · next e' heap hheap =>
    split at h
    · exact absurd h List.not_mem_nil
    · next hdue =>
      split at h
      · next hlive =>
        -- only the branch of a live entry goes on to look up the context
        have he : e = e' ∧ now' = now := by simpa using h
        rw [he.1, hheap]
        exact ⟨List.mem_cons_self, Int.not_lt.mp hdue, hlive⟩
      · exact absurd h (by simp)

/-- **The tokens of a schedule.** In every run the next token exceeds the number of applied commands
by one at most, so that a 64-bit counter does not wrap around before `2 ^ 64` of them; the tokens in
the heap are distinct and below the next one; a GUID has at most one live entry; and a tick goes on
only with an entry that is live and due and was made by the last command that was applied for its
GUID. -/
theorem flushTokens {h : List (Transition (FlushSchedule Guid) (Access Guid))}
    (hr : (system Guid).Run h q) :
    q.mNextFlushToken ≤ (applied h).length + 1 ∧
    (q.mFlushDueHeap.map FlushDueEntry.mToken).Nodup ∧
    (∀ e ∈ q.mFlushDueHeap, e.mToken < q.mNextFlushToken) ∧
    (∀ e ∈ q.mFlushDueHeap, ∀ e' ∈ q.mFlushDueHeap, q.IsLive e → q.IsLive e' →
      e.mGuid = e'.mGuid → e = e') ∧
    ∀ (left : ℕ) (now now' : ℤ) (e : FlushDueEntry Guid),
      .findContext e now' ∈ (popDue q left now).2 →
      q.IsLive e ∧ e.mDue ≤ now ∧ latest (applied h) e.mGuid = some (.schedule e.mGuid e.mDue) := by
  have htokens := tokens_of_run hr
  refine ⟨htokens.counted, htokens.nodup, htokens.below,
    fun e he e' he' => htokens.live_unique he he', ?_⟩
  intro left now now' e hfind
  obtain ⟨he, hdue, hlive⟩ := findContext_popDue hfind
  exact ⟨hlive, hdue, htokens.latest e he hlive⟩

/-- A client is scheduled for time 5 and then for time 7: only the second entry counts, whatever the
first was due. -/
theorem flushTokens_rescheduled : ∃ h q, (system ℕ).Run h q ∧
    q.mFlushDueHeap = [⟨5, 0, 1⟩, ⟨7, 0, 2⟩] ∧
    ∀ (left : ℕ) (now now' : ℤ) (e : FlushDueEntry ℕ), .findContext e now' ∈ (popDue q left now).2 →
      q.IsLive e ∧ e.mDue ≤ now ∧ latest (applied h) e.mGuid = some (.schedule e.mGuid e.mDue) := by
  obtain ⟨h, q, hr, hp⟩ := (system ℕ).exists_run_of_follow
    (p := fun _ q => decide (q.mFlushDueHeap = [⟨5, 0, 1⟩, ⟨7, 0, 2⟩]))
    [.enqueue 1 (.schedule 0 5), .drain [0], .enqueue 1 (.schedule 0 7), .drain [0]] (by decide)
  exact ⟨h, q, hr, of_decide_eq_true hp, (flushTokens hr).2.2.2.2⟩

end FlushSchedule

/-! ### The schedule of a server -/

open Scripts

variable {Guid : Type} [DecidableEq Guid] {cfg : Settings Guid} {c c' : Server Guid}
  {m : Move (Event Choice (Call Guid))}

omit [DecidableEq Guid] in
/-- The pop does not depend on how many entries a tick may still take. -/
theorem popDue_left (q : FlushSchedule Guid) (left : ℕ) (now : ℤ) :
    (popDue q left now).1 = (popDue q 0 now).1 := by
  unfold popDue
  cases q.mFlushDueHeap with
  | nil => rfl
  | cons e heap =>
    dsimp only
    split
    · rfl
    · split
      · rfl
      · rfl

/-- What a server does to its schedule is one of the accesses. -/
theorem server_access (h : (scripts cfg).program.step c m = some c') :
    c'.shared.schedule = c.shared.schedule ∨ ∃ a, c.shared.schedule.access a =
      some c'.shared.schedule := by
  cases step_cases h with
  | @access i ch t op rest ops s' ts others hi hperm hcode hop =>
    -- the accesses that are not to the schedule
    by_cases hsched : op.schedules = false
    · exact Or.inl ((execOp_effect hop).schedule hsched)
    cases op with
    | enqueueCommand d why =>
      simp only [scripts_exec, execOp] at hop
      split at hop
      · obtain rfl := state_eq hop
        exact Or.inr ⟨.enqueue t.tag.producer d, rfl⟩
      · obtain rfl := state_eq hop
        exact Or.inl rfl
    | applyCommand d why =>
      obtain ⟨q, hq, hr⟩ := Option.map_eq_some_iff.mp hop
      obtain rfl := state_eq (congrArg some hr)
      exact Or.inr ⟨.apply ch.drain d,
        Option.map_eq_some_iff.mpr ⟨q, (FlushSchedule.drainBy_inv hq).1, rfl⟩⟩
    | drainFlushScheduleCommands left now =>
      cases left with
      | zero =>
        obtain rfl := state_eq hop
        exact Or.inl rfl
      | succ left =>
        obtain ⟨q, hq, hr⟩ := Option.map_eq_some_iff.mp hop
        obtain rfl := state_eq (congrArg some hr)
        exact Or.inr ⟨.drain ch.drain, (FlushSchedule.drainBy_inv hq).1⟩
    | popDue left now =>
      obtain rfl := state_eq hop
      exact Or.inr ⟨.pop now, congrArg some (popDue_left c.shared.schedule left now).symm⟩
    | clearFlushSchedule =>
      obtain ⟨q, hq, hr⟩ := Option.map_eq_some_iff.mp hop
      obtain rfl := state_eq (congrArg some hr)
      exact Or.inr ⟨.clear ch.drain,
        Option.map_eq_some_iff.mpr ⟨q, (FlushSchedule.drainBy_inv hq).1, rfl⟩⟩
    | _ => exact absurd rfl hsched
  | @finish i ch t others hi hperm hcode => exact Or.inl (schedule_finish _ _)
  | @arrive a s' new hnew =>
    cases a with
    | start is =>
      simp only [scripts, arrive] at hnew
      split at hnew
      · obtain ⟨q, hq, hr⟩ := Option.map_eq_some_iff.mp hnew
        obtain ⟨rfl, -⟩ := Prod.mk.inj hr
        exact Or.inr ⟨.clear is, Option.map_eq_some_iff.mpr ⟨q, hq, rfl⟩⟩
      · exact absurd hnew (by simp)
    | stop producer | disconnectClient g producer =>
      obtain ⟨rfl, -⟩ := Prod.mk.inj (Option.some.inj hnew)
      exact Or.inl rfl
    | receive p | flushTick now producer | disconnect x | destroy x =>
      simp only [scripts, arrive] at hnew
      split at hnew
      · obtain ⟨rfl, -⟩ := Prod.mk.inj (Option.some.inj hnew)
        exact Or.inl rfl
      · exact absurd hnew (by simp)

/-- **The schedule of a server** is one that its accesses reach. -/
theorem schedule_reachable (hc : (system cfg).Reachable c) :
    (FlushSchedule.system Guid).Reachable c.shared.schedule := by
  refine hc.invariant (I := fun c => (FlushSchedule.system Guid).Reachable c.shared.schedule)
    System.Reachable.init
    fun s l t hs hstep => ?_
  rcases server_access hstep with heq | ⟨a, ha⟩
  · rw [heq]
    exact hs
  · exact hs.step ha

end Sessions
end SculkProtocol
