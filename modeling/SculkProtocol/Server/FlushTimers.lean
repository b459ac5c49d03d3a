import Mathlib.Algebra.Order.Group.Multiset
import Mathlib.Order.Bounds.Defs
import SculkProtocol.Server.FlushTokens
import SculkProtocol.Session.FlushFailure
import SculkProtocol.Session.Sequence

/-!
# The two timers of a flush

A session is flushed by two timers. The server pops its entry when it is due, on a phase that
`nextScheduledFlushDue` keeps, and the session answers a `flushIfDue` that comes before its
`mNextFlushAt` by doing nothing. `flushSystem` is one session from its creation on, with the
schedule of its server:

* every access to the schedule (`FlushSchedule.access`), in any order and at any times;
* every call to the session, and what ends its connection;
* the flush on its way from the schedule through `flushTickOnce`, the strand and back (`Flush`).

`dues g` are the times for which flushes of the session are scheduled, or will be from the place
where they are. As long as only the session's own flush schedules its GUID there is at most one, and
`mNextFlushAt` is at most one interval behind it (`Paced`): a task that finds `mNextFlushAt` ahead
of its tick is followed by one that does not (`flushTimers`).
-/

namespace SculkProtocol
namespace Sessions

variable {Guid : Type}

/-! ### One session and its flush -/

/-- Where the flush is that has left the schedule. -/
inductive Stage
  /-- `flushTickOnce` is about to look up the context -/
  | findContext
  | checkConnected
  /-- `strand->enqueue` -/
  | enqueueFlush
  /-- the strand has the task -/
  | task
  /-- after `flushIfDue`, or after the strand's refusal -/
  | reschedule
  deriving DecidableEq

/-- A flush that has left the schedule, with the due time of its entry and the time of the tick, or
that is about to go back. -/
inductive Flush (Guid : Type)
  | taken (stage : Stage) (previousDue now : ℤ)
  /-- `scheduleSessionFlushAt` or `cancelSessionFlush` -/
  | issue (c : Command Guid)
  deriving DecidableEq

/-- A session, the schedule of its server and its flushes outside of it. -/
structure SessionFlush (Guid : Type) where
  schedule : FlushSchedule Guid
  /-- its context is the entry of the GUID -/
  registered : Bool
  sender : Session.Sender
  flushes : List (Flush Guid)

inductive FlushStep (Guid : Type)
  /-- any thread accesses the schedule -/
  | access (a : FlushSchedule.Access Guid)
  /-- any thread calls the session -/
  | call (calls : EvpCalls) (call : Session.Call)
  /-- `removeSessionContext` -/
  | eraseContext
  /-- `Session::disconnect`: `mConnected.exchange(false)` -/
  | exchangeConnected
  | detachPeer
  /-- the flush at position `i` goes on -/
  | flush (i : ℕ) (producer : ℕ) (calls : EvpCalls) (ch : Choice)

namespace SessionFlush

variable [DecidableEq Guid] (E : Evp) (L : Codecs) (g : Guid)

def proceed (s : SessionFlush Guid) (f : Flush Guid) : SessionFlush Guid :=
  { s with flushes := f :: s.flushes }

/-- The next step of a flush, which is not in `s` any more. -/
def advance (s : SessionFlush Guid) (producer : ℕ) (calls : EvpCalls) (ch : Choice) :
    Flush Guid → Option (SessionFlush Guid)
  | .taken .findContext previousDue now =>
    some (s.proceed (if s.registered then .taken .checkConnected previousDue now
                     else .issue (.cancel g)))
  | .taken .checkConnected previousDue now =>
    some (s.proceed (if s.sender.mConnected then .taken .enqueueFlush previousDue now
                     else .issue (.cancel g)))
  -- a task that the strand refuses is rescheduled at once
  | .taken .enqueueFlush previousDue now =>
    some (s.proceed (.taken (if ch.ok then .task else .reschedule) previousDue now))
  | .taken .task previousDue now =>
    some (proceed { s with sender := (s.sender.flushIfDue E L calls now).1 }
      (.taken .reschedule previousDue now))
  | .taken .reschedule previousDue now =>
    some
      (s.proceed
        (.issue (if s.sender.mConnected then .schedule g (nextScheduledFlushDue previousDue now)
      else .cancel g)))
  | .issue c =>
    (s.schedule.access (if ch.ok then .enqueue producer c else .apply ch.drain c)).map fun q =>
      { s with schedule := q }

/-- The flush of the session that an access takes from the schedule. -/
def takenBy (q : FlushSchedule Guid) : FlushSchedule.Access Guid → List (Flush Guid)
  | .pop now =>
    match (popDue q 0 now).2 with
    | .findContext e _ :: _ => if e.mGuid = g then [.taken .findContext e.mDue now] else []
    | _ => []
  | _ => []

def step (s : SessionFlush Guid) : FlushStep Guid → Option (SessionFlush Guid)
  | .access a => (s.schedule.access a).map fun q =>
      { s with schedule := q, flushes := takenBy g s.schedule a ++ s.flushes }
  | .call calls call => some { s with sender := (s.sender.exec E L calls call).1 }
  | .eraseContext => some { s with registered := false }
  | .exchangeConnected => some { s with sender := { s.sender with mConnected := false } }
  | .detachPeer => some { s with sender := { s.sender with mPeer := false } }
  | .flush i producer calls ch =>
    match s.flushes[i]? with
    | some f => advance E L g { s with flushes := s.flushes.eraseIdx i } producer calls ch f
    | none => none

/-- A session that was created at the time `created` and is the entry of its GUID; its first flush
will be scheduled from the time `now` on. -/
def start (cfg : Settings Guid) (q : FlushSchedule Guid) (created now : ℤ) : SessionFlush Guid where
  schedule := q
  registered := true
  sender := .create created
  flushes := [.issue (.schedule g (now + cfg.flushPhaseOffsetForGuid g))]

end SessionFlush

/-- One session of a server, from its creation on. -/
def flushSystem [DecidableEq Guid] (E : Evp) (L : Codecs) (cfg : Settings Guid) (g : Guid)
    (q : FlushSchedule Guid) (created now : ℤ) : System (SessionFlush Guid) (FlushStep Guid) :=
  ⟨.start g cfg q created now, SessionFlush.step E L g⟩

/-! ### When the flushes are due -/

/-- The time for which a command schedules the GUID. -/
def Command.due [DecidableEq Guid] (g : Guid) : Command Guid → Option ℤ
  | .schedule g' due => if g' = g then some due else none
  | .cancel _ => none

def FlushDueEntry.due [DecidableEq Guid] (g : Guid) (e : FlushDueEntry Guid) : Option ℤ :=
  if e.mGuid = g then some e.mDue else none

/-- The time for which a flush was scheduled last, or will be. -/
def Flush.due [DecidableEq Guid] (g : Guid) : Flush Guid → Option ℤ
  | .taken .reschedule previousDue now => some (nextScheduledFlushDue previousDue now)
  | .taken _ previousDue _ => some previousDue
  | .issue c => c.due g

/-- The command of an access. -/
def FlushSchedule.Access.command : FlushSchedule.Access Guid → Option (Command Guid)
  | .enqueue _ c | .apply _ c => some c
  | .drain _ | .pop _ | .clear _ => none

/-- The times for which a schedule has the GUID, those of stale entries included. -/
def FlushSchedule.dues [DecidableEq Guid] (g : Guid) (q : FlushSchedule Guid) : Multiset ℤ :=
  (q.mFlushScheduleCommands.filterMap fun c => c.2.due g : List ℤ) +
    (q.mFlushDueHeap.filterMap (FlushDueEntry.due g) : List ℤ)

def SessionFlush.dues [DecidableEq Guid] (g : Guid) (s : SessionFlush Guid) : Multiset ℤ :=
  (s.flushes.filterMap (Flush.due g) : List ℤ) + s.schedule.dues g

/-- The next due time is one interval later at least, and it is to come. -/
theorem nextScheduledFlushDue_spec (previousDue now : ℤ) :
    previousDue + FLUSH_INTERVAL ≤ nextScheduledFlushDue previousDue now ∧
      now < nextScheduledFlushDue previousDue now := by
  unfold nextScheduledFlushDue FLUSH_INTERVAL
  dsimp only
  split
  · next hnext => exact ⟨Int.le_refl _, hnext⟩
  · next hlate =>
    -- the lag is not negative, so the division rounds down
    have hlag : 0 ≤ now - (previousDue + 20000000) := by omega
    rw [Int.tdiv_eq_ediv_of_nonneg hlag]
    constructor
    · omega
    · omega

/-- The next due time is the first one on the phase of `previousDue` that is later than
`previousDue` and to come. -/
theorem nextScheduledFlushDue_least (previousDue now : ℤ) :
    IsLeast {t | ∃ k : ℤ, 1 ≤ k ∧ t = previousDue + k * FLUSH_INTERVAL ∧ now < t}
      (nextScheduledFlushDue previousDue now) := by
  have hnow := (nextScheduledFlushDue_spec previousDue now).2
  unfold nextScheduledFlushDue FLUSH_INTERVAL at hnow ⊢
  dsimp only at hnow ⊢
  split at hnow
  · next hnext =>
    rw [if_pos hnext]
    refine ⟨⟨1, Int.le_refl _, by omega, hnow⟩, ?_⟩
    rintro t ⟨k, hk, rfl, -⟩
    omega
  · next hlate =>
    have hlag : 0 ≤ now - (previousDue + 20000000) := by omega
    rw [if_neg hlate, Int.tdiv_eq_ediv_of_nonneg hlag] at *
    -- as many slots are skipped as end before `now`, and the one that contains it
    refine ⟨⟨(now - (previousDue + 20000000)) / 20000000 + 2, by omega, by omega, hnow⟩, ?_⟩
    rintro t ⟨k, hk, rfl, hk'⟩
    omega

/-- `nextScheduledFlushDue` on the 64-bit counts of a `steady_clock`. -/
def nextScheduledFlushDue64 (previousDue now : Int64) : Int64 :=
  let nextDue := previousDue + 20000000
  if nextDue > now then nextDue
  else nextDue + 20000000 * ((now - nextDue) / 20000000 + 1)

/-- The counts do not overflow where the lag and the result are counts themselves. -/
theorem nextScheduledFlushDue64_toInt {previousDue now : Int64}
    (hlag : now.toInt - previousDue.toInt < 2 ^ 63)
    (hfits : nextScheduledFlushDue previousDue.toInt now.toInt < 2 ^ 63) :
    (nextScheduledFlushDue64 previousDue now).toInt =
      nextScheduledFlushDue previousDue.toInt now.toInt := by
  have hlow := previousDue.le_toInt
  have hlow' := now.le_toInt
  have hsize : Int64.toInt 20000000 = 20000000 := by decide
  have hone : Int64.toInt 1 = 1 := by decide
  have hspec := nextScheduledFlushDue_spec previousDue.toInt now.toInt
  unfold nextScheduledFlushDue FLUSH_INTERVAL at hfits hspec ⊢
  dsimp only at hfits hspec ⊢
  -- the next slot is at most the result
  have hnext : (previousDue + 20000000).toInt = previousDue.toInt + 20000000 := by
    rw [Int64.toInt_add, hsize, Int.bmod_eq_of_le] <;> omega
  unfold nextScheduledFlushDue64
  dsimp only
  by_cases hlate : previousDue.toInt + 20000000 > now.toInt
  · rw [if_pos hlate, if_pos (by rw [gt_iff_lt, Int64.lt_iff_toInt_lt, hnext]; exact hlate), hnext]
  · rw [if_neg hlate] at hfits ⊢
    rw [if_neg (by rw [gt_iff_lt, Int64.lt_iff_toInt_lt, hnext]; exact hlate)]
    -- late: the lag is not negative, so the division of the source is the mathematical one
    have hsub : (now - (previousDue + 20000000)).toInt =
        now.toInt - (previousDue.toInt + 20000000) := by
      rw [Int64.toInt_sub, hnext, Int.bmod_eq_of_le] <;> omega
    have hdiv : ((now - (previousDue + 20000000)) / 20000000).toInt =
        (now.toInt - (previousDue.toInt + 20000000)).tdiv 20000000 := by
      rw [Int64.toInt_div_of_ne_right _ _ (by decide), hsub, hsize]
    rw [Int.tdiv_eq_ediv_of_nonneg (by omega)] at hfits hdiv ⊢
    have hskipped : ((now - (previousDue + 20000000)) / 20000000 + 1).toInt =
        (now.toInt - (previousDue.toInt + 20000000)) / 20000000 + 1 := by
      rw [Int64.toInt_add, hdiv, hone, Int.bmod_eq_of_le] <;> omega
    -- the skipped slots lie between the next one and the result
    have hmul : (20000000 * ((now - (previousDue + 20000000)) / 20000000 + 1)).toInt =
        20000000 * ((now.toInt - (previousDue.toInt + 20000000)) / 20000000 + 1) := by
      rw [Int64.toInt_mul, hskipped, hsize, Int.bmod_eq_of_le] <;> omega
    rw [Int64.toInt_add, hnext, hmul, Int.bmod_eq_of_le] <;> omega

/-- **The phase.** The next due time is the first one on the phase of `previousDue` that is later
than `previousDue` and to come; and the computation on 64-bit counts gives it, where the time
between the two arguments and the result are such counts themselves. -/
theorem nextScheduledFlushDue_isLeast (previousDue now : ℤ) :
    IsLeast {t | ∃ k : ℤ, 1 ≤ k ∧ t = previousDue + k * FLUSH_INTERVAL ∧ now < t}
      (nextScheduledFlushDue previousDue now) ∧
    ∀ previous' now' : Int64, previous'.toInt = previousDue → now'.toInt = now →
      now - previousDue < 2 ^ 63 → nextScheduledFlushDue previousDue now < 2 ^ 63 →
      (nextScheduledFlushDue64 previous' now').toInt = nextScheduledFlushDue previousDue now := by
  refine ⟨nextScheduledFlushDue_least previousDue now, ?_⟩
  rintro previous' now' rfl rfl hlag hfits
  exact nextScheduledFlushDue64_toInt hlag hfits

/-- Fifty milliseconds after a due time, the next one is ten milliseconds ahead. -/
theorem nextScheduledFlushDue_isLeast_late :
    IsLeast {t | ∃ k : ℤ, 1 ≤ k ∧ t = 0 + k * FLUSH_INTERVAL ∧ 50000000 < t} 60000000 ∧
      (nextScheduledFlushDue64 0 50000000).toInt = 60000000 := by
  obtain ⟨hleast, h64⟩ := nextScheduledFlushDue_isLeast 0 50000000
  have hdue : nextScheduledFlushDue 0 50000000 = 60000000 := by decide
  rw [hdue] at hleast h64
  exact ⟨hleast, h64 0 50000000 (by decide) (by decide) (by decide) (by decide)⟩

section Dues

/-- The element in front of the others. -/
theorem coe_filterMap_of_perm {α β : Type} (f : α → Option β) {l l' : List α} {x : α}
    (h : l.Perm (x :: l')) :
    (l.filterMap f : Multiset β) = ((f x).toList : Multiset β) + (l'.filterMap f : List β) := by
  rw [Multiset.coe_add]
  refine (Multiset.coe_eq_coe.mpr (h.filterMap f)).trans ?_
  cases hx : f x with
  | none => rw [List.filterMap_cons_none hx, Option.toList_none, List.nil_append]
  | some y => rw [List.filterMap_cons_some hx, Option.toList_some, List.singleton_append]

variable [DecidableEq Guid] {g : Guid}

namespace FlushSchedule

variable {q q' : FlushSchedule Guid}

/-- A command that is queued adds its due time. -/
theorem dues_enqueue (producer : ℕ) (c : Command Guid) :
    (q.enqueue producer c).dues g = ((c.due g).toList : Multiset ℤ) + q.dues g := by
  have hperm : (q.enqueue producer c).mFlushScheduleCommands.Perm
      ((producer, c) :: q.mFlushScheduleCommands) :=
    List.perm_append_singleton ..
  unfold dues
  rw [coe_filterMap_of_perm _ hperm, add_assoc]
  rfl

/-- So does one that is applied. -/
theorem dues_apply (c : Command Guid) :
    (q.applyFlushScheduleCommandUnlocked c).dues g = ((c.due g).toList : Multiset ℤ) +
      q.dues g := by
  cases c with
  | schedule g' due =>
    unfold dues
    rw [add_left_comm]
    exact congrArg _
      (coe_filterMap_of_perm _ (push_perm ⟨due, g', q.mNextFlushToken⟩ q.mFlushDueHeap))
  | cancel g' => exact (Multiset.zero_add _).symm

/-- Taking a command from the queue moves its time to the heap. -/
theorem dues_dequeue {i : ℕ} (h : q.dequeue i = some q') : q'.dues g = q.dues g := by
  obtain ⟨before, p, c, after, hq, -, rfl⟩ := dequeue_inv h
  have hperm : q.mFlushScheduleCommands.Perm ((p, c) :: (before ++ after)) := hq ▸ List.perm_middle
  rw [dues_apply]
  unfold dues
  rw [coe_filterMap_of_perm _ hperm, add_assoc]

/-- Draining moves due times. -/
theorem dues_drain {positions : List ℕ} (h : q.drain positions = some q') : q'.dues g = q.dues g :=
  drain_induction (P := fun q₁ => q₁.dues g = q.dues g)
    (fun hq hd => (dues_dequeue hd).trans hq) rfl h

/-- Clearing adds none. -/
theorem dues_clear_le : q.clear.dues g ≤ q.dues g := by
  unfold dues clear
  exact Multiset.add_le_add_left (Multiset.zero_le _)

/-- The entry that a pop takes for the session leaves the heap, and so may others. -/
theorem dues_pop_le (now : ℤ) :
    ((SessionFlush.takenBy g q (.pop now)).filterMap (Flush.due g) : Multiset ℤ) +
    (popDue q 0 now).1.dues g ≤
      q.dues g := by
  unfold SessionFlush.takenBy popDue
  cases hheap : q.mFlushDueHeap with
  | nil => exact (Multiset.zero_add _).le
  | cons e heap =>
    have hdues : q.dues g = ((e.due g).toList : Multiset ℤ) + dues g
        { q with mFlushDueHeap := heap } := by
      unfold dues
      -- the top of the heap in front of the rest
      rw [hheap, coe_filterMap_of_perm (FlushDueEntry.due g) (List.Perm.refl (e :: heap)),
        add_left_comm]
    by_cases hdue : e.mDue > now
    · simp only [if_pos hdue]
      exact (Multiset.zero_add _).le
    · by_cases hlive : q.mFlushDueTokens e.mGuid = some e.mToken
      · -- a live entry is taken; it is the session's or another one's
        simp only [if_neg hdue, if_pos hlive]
        rw [hdues]
        refine Multiset.add_le_add_right (le_of_eq ?_)
        by_cases hg : e.mGuid = g
        · simp [hg, FlushDueEntry.due, Flush.due]
        · simp [hg, FlushDueEntry.due]
      · -- a stale entry is dropped
        simp only [if_neg hdue, if_neg hlive]
        rw [hdues]
        exact Multiset.add_le_add_right (Multiset.zero_le _)

/-- What an access does: the flush it takes and the times that remain were there, or come with its
command. -/
theorem dues_access_le {a : Access Guid} (h : q.access a = some q') :
    ((SessionFlush.takenBy g q a).filterMap (Flush.due g) : Multiset ℤ) + q'.dues g ≤
      ((a.command.bind (Command.due g)).toList : Multiset ℤ) + q.dues g := by
  cases a with
  | enqueue producer c =>
    cases h
    exact (dues_enqueue producer c).le
  | apply positions c =>
    obtain ⟨q₁, hd, rfl⟩ := Option.map_eq_some_iff.mp h
    refine (Multiset.zero_add _).trans_le (le_of_eq ?_)
    rw [dues_apply, dues_drain hd]
    rfl
  | drain positions => exact (dues_drain h).le
  -- what is popped is stale, or is the flush that is taken
  | pop now =>
    cases h
    exact dues_pop_le now
  | clear positions =>
    obtain ⟨q₁, hd, rfl⟩ := Option.map_eq_some_iff.mp h
    exact dues_clear_le.trans (dues_drain hd).le

end FlushSchedule

namespace SessionFlush

variable {s s' : SessionFlush Guid}

/-- A flush that proceeds keeps its due time. -/
theorem dues_proceed (f : Flush Guid) :
    (s.proceed f).dues g = ((f.due g).toList : Multiset ℤ) + s.dues g := by
  unfold dues proceed
  rw [coe_filterMap_of_perm (Flush.due g) (List.Perm.refl (f :: s.flushes)), add_assoc]

/-- A flush that is taken out had its due time. -/
theorem dues_eraseIdx {i : ℕ} {f : Flush Guid} (hf : s.flushes[i]? = some f) :
    s.dues g = ((f.due g).toList : Multiset ℤ) + dues g
      { s with flushes := s.flushes.eraseIdx i } := by
  have hperm : s.flushes.Perm (f :: s.flushes.eraseIdx i) := by
    obtain ⟨hi, rfl⟩ := List.getElem?_eq_some_iff.mp hf
    exact (List.getElem_cons_eraseIdx_perm hi).symm
  unfold dues
  rw [coe_filterMap_of_perm (Flush.due g) hperm, add_assoc]

/-- An access without a new due time adds none. -/
theorem dues_access_le {a : FlushSchedule.Access Guid} {q : FlushSchedule Guid}
    (h : s.schedule.access a = some q)
    (ha : a.command.bind (Command.due g) = none) :
    dues g { s with schedule := q, flushes := takenBy g s.schedule a ++ s.flushes } ≤ s.dues g := by
  have hle := FlushSchedule.dues_access_le (g := g) h
  rw [ha, Option.toList_none, Multiset.coe_nil, zero_add] at hle
  unfold dues
  rw [List.filterMap_append, ← Multiset.coe_add,
    add_comm (_ : Multiset ℤ) (List.filterMap _ s.flushes : List ℤ), add_assoc]
  exact Multiset.add_le_add_left hle

/-- A flush leaves the schedule when it is due. -/
theorem started_takenBy {q : FlushSchedule Guid} {a : FlushSchedule.Access Guid} {stage : Stage}
    {previousDue now : ℤ} (h : .taken stage previousDue now ∈ takenBy g q a) :
    previousDue ≤ now := by
  cases a with
  | pop time =>
    unfold takenBy at h
    dsimp only at h
    split at h
    · next e now' rest hops =>
      have hfind : .findContext e now' ∈ (popDue q 0 time).2 := by
        rw [hops]
        exact List.mem_cons_self
      split at h
      · cases List.mem_singleton.mp h
        exact (FlushSchedule.findContext_popDue hfind).2.1
      · exact absurd h List.not_mem_nil
    · exact absurd h List.not_mem_nil
  | enqueue producer c | apply positions c | drain positions | clear positions =>
    exact absurd h List.not_mem_nil

end SessionFlush

end Dues

/-! ### What a flush does to the timer of the session -/

section Timer

variable {E : Evp} {L : Codecs} {calls : EvpCalls} {s : Session.Sender}

open Session

/-- The calls that set `mNextFlushAt`. -/
def movesTimer : Session.Call → Bool
  | .flush _ | .flushIfDue _ => true
  | _ => false

/-- Sending does not touch the session's timer. -/
theorem mNextFlushAt_sendBatched (packetsBuffer : Bytes) :
    (s.sendBatchedBufferImmediately E L calls packetsBuffer).1.mNextFlushAt = s.mNextFlushAt := by
  unfold Sender.sendBatchedBufferImmediately
  split
  · rfl
  · dsimp only
    split
    · rfl
    · split
      · rfl
      · rfl

/-- Neither does taking the packets. -/
theorem mNextFlushAt_dequeue : s.dequeueOutboundPackets.1.mNextFlushAt = s.mNextFlushAt := by
  unfold Sender.dequeueOutboundPackets
  split
  · rfl
  · rfl

/-- Neither does sending what was taken. -/
theorem mNextFlushAt_sendDrained (drained : Sender × Option (List Bytes)) :
    (Sender.sendDrained E L calls drained).1.mNextFlushAt = drained.1.mNextFlushAt := by
  unfold Sender.sendDrained
  split
  · exact mNextFlushAt_sendBatched _
  · rfl

/-- Only the flushes move the timer. -/
theorem mNextFlushAt_exec {call : Session.Call} (h : movesTimer call = false) :
    (s.exec E L calls call).1.mNextFlushAt = s.mNextFlushAt := by
  cases call with
  | sendPacket buffer =>
    simp only [Sender.exec, Sender.sendPacket]
    split
    · rfl
    · rfl
  | sendPacketImmediately buffer => exact mNextFlushAt_sendBatched _
  | flush now | flushIfDue now => exact absurd h (by simp [movesTimer])
  | setCompressed type threshold => exact (mNextFlushAt_sendDrained _).trans mNextFlushAt_dequeue
  | setEncrypted key => exact (mNextFlushAt_sendDrained _).trans mNextFlushAt_dequeue

/-- `flushIfDue` moves the timer if it is due. -/
theorem mNextFlushAt_flushIfDue (now : ℤ) : (s.flushIfDue E L calls now).1.mNextFlushAt =
    if now < s.mNextFlushAt then s.mNextFlushAt else now + Session.FLUSH_INTERVAL := by
  unfold Sender.flushIfDue
  rw [mNextFlushAt_sendDrained]
  unfold Sender.drainFlushIfDue
  split
  · rfl
  · exact mNextFlushAt_dequeue

/-- A flush that is due sends the whole queue as one batch; one that is not does nothing. -/
theorem flushIfDue_eq (h : s.Attached) (hne : s.mOutboundPackets ≠ []) (now : ℤ) :
    s.flushIfDue E L calls now =
      if now < s.mNextFlushAt then (s, none)
      else Sender.sendBatchedBufferImmediately E L calls
        { s with mOutboundPackets := [], mNextFlushAt := now + Session.FLUSH_INTERVAL }
        (writePackets s.mOutboundPackets) := by
  unfold Sender.flushIfDue Sender.drainFlushIfDue
  split
  · rfl
  · have hattached : Sender.Attached { s with mNextFlushAt := now + Session.FLUSH_INTERVAL } :=
      ⟨h.connected, h.peer⟩
    rcases Sender.dequeue_cases hattached with ⟨hempty, -⟩ | ⟨-, heq⟩
    · exact absurd hempty hne
    · rw [heq]
      rfl

end Timer

/-! ### One due time -/

section Paced

variable [DecidableEq Guid] {E : Evp} {L : Codecs} {g : Guid} {n : ℕ} {s s' : SessionFlush Guid}

/-- Nobody else flushes the session or schedules its GUID in the step. -/
def FlushStep.Undisturbed (g : Guid) : FlushStep Guid → Prop
  | .access a => a.command.bind (Command.due g) = none
  | .call _ c => movesTimer c = false
  | _ => True

instance (g : Guid) : (l : FlushStep Guid) → Decidable (l.Undisturbed g)
  | .access a => inferInstanceAs (Decidable (a.command.bind (Command.due g) = none))
  | .call _ c => inferInstanceAs (Decidable (movesTimer c = false))
  | .eraseContext | .exchangeConnected | .detachPeer | .flush _ _ _ _ =>
    inferInstanceAs (Decidable True)

omit [DecidableEq Guid] in
/-- The time of the tick whose task a step runs. -/
def FlushStep.task (s : SessionFlush Guid) : FlushStep Guid → Option ℤ
  | .flush i _ _ _ =>
    match s.flushes[i]? with
    | some (.taken .task _ now) => some now
    | _ => none
  | _ => none

omit [DecidableEq Guid] in
/-- The tasks in a row that were not due, after a step. -/
def FlushStep.refusals (s : SessionFlush Guid) (l : FlushStep Guid) (n : ℕ) : ℕ :=
  match l.task s with
  | some now => if now < s.sender.mNextFlushAt then n + 1 else 0
  | none => n

omit [DecidableEq Guid] in
/-- How many tasks of a run, the latest ones, were not due. -/
def refusals : List (Transition (SessionFlush Guid) (FlushStep Guid)) → ℕ
  | [] => 0
  | x :: h => x.label.refusals x.src (refusals h)

/-- The session is scheduled for one time at most, and its timer is at most one interval behind it,
or not behind it at all after a task that was not due. -/
structure Paced (g : Guid) (n : ℕ) (s : SessionFlush Guid) : Prop where
  single : (s.dues g).card ≤ 1
  started : ∀ stage previousDue now, .taken stage previousDue now ∈ s.flushes → previousDue ≤ now
  within : ∀ due ∈ s.dues g, s.sender.mNextFlushAt ≤ due + FLUSH_INTERVAL
  refused : n ≤ 1
  next : n = 1 → ∀ due ∈ s.dues g, s.sender.mNextFlushAt ≤ due

/-- Nothing is scheduled, and the timer does not move. -/
theorem Paced.of_le (h : Paced g n s) (hdues : s'.dues g ≤ s.dues g)
    (htimer : s'.sender.mNextFlushAt = s.sender.mNextFlushAt)
    (hstarted : ∀ stage previousDue now, .taken stage previousDue now ∈ s'.flushes →
      previousDue ≤ now) :
    Paced g n s' := by
  refine ⟨(Multiset.card_le_card hdues).trans h.single, hstarted, fun due hdue => ?_, h.refused,
    fun hn due hdue => ?_⟩
  · rw [htimer]
    exact h.within due (Multiset.mem_of_le hdues hdue)
  · rw [htimer]
    exact h.next hn due (Multiset.mem_of_le hdues hdue)

/-- What a flush outside of the schedule has is all there is. -/
theorem Paced.alone (h : Paced g n s) {i : ℕ} {f : Flush Guid} {due : ℤ}
    (hf : s.flushes[i]? = some f)
    (hdue : f.due g = some due) :
    due ∈ s.dues g ∧ SessionFlush.dues g { s with flushes := s.flushes.eraseIdx i } = 0 := by
  have hdues := SessionFlush.dues_eraseIdx (g := g) hf
  rw [hdue, Option.toList_some, Multiset.coe_singleton, Multiset.singleton_add] at hdues
  have hcard := h.single
  rw [hdues, Multiset.card_cons] at hcard
  rw [hdues]
  exact ⟨Multiset.mem_cons_self _ _, Multiset.card_eq_zero.mp (by omega)⟩

/-- The flush is scheduled for a later time; the timer has not moved, or is one interval after the
tick. -/
theorem Paced.rescheduled {f : Flush Guid} {i : ℕ} {sender : Session.Sender}
    {previousDue now : ℤ} {m : ℕ}
    (h : Paced g n s) (hf : s.flushes[i]? = some f) (hdue : f.due g = some previousDue)
    (hstart : previousDue ≤ now)
    (htimer : sender.mNextFlushAt ≤ nextScheduledFlushDue previousDue now + FLUSH_INTERVAL)
    (hm : m ≤ 1)
    (hnext : m = 1 → sender.mNextFlushAt ≤ nextScheduledFlushDue previousDue now) :
    Paced g m (SessionFlush.proceed { s with flushes := s.flushes.eraseIdx i, sender := sender }
      (.taken .reschedule previousDue now)) := by
  -- the flush was the only one, so its new due time is the only one
  have hdues : SessionFlush.dues g (SessionFlush.proceed
      { s with flushes := s.flushes.eraseIdx i, sender := sender }
          (.taken .reschedule previousDue now)) =
      {nextScheduledFlushDue previousDue now} := by
    rw [SessionFlush.dues_proceed]
    exact congrArg _ (h.alone hf hdue).2
  refine ⟨?_, fun stage d t hmem => ?_, fun due hmem => ?_, hm, fun hone due hmem => ?_⟩
  · rw [hdues]
    exact (Multiset.card_singleton _).le
  · rcases List.mem_cons.mp hmem with heq | hmem
    · cases heq
      exact hstart
    · exact h.started stage d t (List.mem_of_mem_eraseIdx hmem)
  · rw [hdues] at hmem
    rw [Multiset.mem_singleton.mp hmem]
    exact htimer
  · rw [hdues] at hmem
    rw [Multiset.mem_singleton.mp hmem]
    exact hnext hone

/-- The flush goes on without a new time. -/
theorem Paced.proceed {f f' : Flush Guid} {i : ℕ} (h : Paced g n s) (hf : s.flushes[i]? = some f)
    (hdue : ∀ due, f'.due g = some due → f.due g = some due)
    (hstarted : ∀ stage previousDue now, f' = .taken stage previousDue now → previousDue ≤ now) :
    Paced g n (SessionFlush.proceed { s with flushes := s.flushes.eraseIdx i } f') := by
  refine h.of_le ?_ rfl fun stage previousDue now hmem => ?_
  · rw [SessionFlush.dues_proceed, SessionFlush.dues_eraseIdx hf]
    refine Multiset.add_le_add_right ?_
    cases hf' : f'.due g with
    | none => exact Multiset.zero_le _
    | some due => exact le_of_eq (by rw [hdue due hf'])
  · rcases List.mem_cons.mp hmem with heq | hmem
    · exact hstarted stage previousDue now heq.symm
    · exact h.started stage previousDue now (List.mem_of_mem_eraseIdx hmem)

/-- **The task.** If it is not due, the last one was, and the next one will be. -/
theorem Paced.task (h : Paced g n s) {i : ℕ} {previousDue now : ℤ} {calls : EvpCalls}
    (hf : s.flushes[i]? = some (.taken .task previousDue now)) :
    Paced g (if now < s.sender.mNextFlushAt then n + 1 else 0)
      (SessionFlush.proceed
        { s with flushes := s.flushes.eraseIdx i, sender := (s.sender.flushIfDue E L calls now).1 }
        (.taken .reschedule previousDue now)) := by
  have hmem := (h.alone hf rfl).1
  have hstart := h.started _ _ _ (List.mem_of_getElem? hf)
  have hwithin := h.within previousDue hmem
  obtain ⟨hlater, hahead⟩ := nextScheduledFlushDue_spec previousDue now
  have htimer := @mNextFlushAt_flushIfDue E L calls s.sender now
  by_cases hearly : now < s.sender.mNextFlushAt
  · rw [if_pos hearly] at htimer ⊢
    -- the timer would not be ahead if the last task had not been due
    have hn : n = 0 := by
      by_contra hn
      have hone : n = 1 := Nat.le_antisymm h.refused (Nat.one_le_iff_ne_zero.mpr hn)
      exact absurd (hearly.trans_le ((h.next hone previousDue hmem).trans hstart)) (lt_irrefl now)
    have hnext : s.sender.mNextFlushAt ≤ nextScheduledFlushDue previousDue now :=
      hwithin.trans hlater
    refine h.rescheduled hf rfl hstart ?_ (by omega) fun _ => ?_
    · rw [htimer]
      exact hnext.trans (by simp [FLUSH_INTERVAL])
    · rw [htimer]
      exact hnext
  · rw [if_neg hearly] at htimer ⊢
    refine h.rescheduled hf rfl hstart ?_ (Nat.zero_le 1) fun hone => absurd hone Nat.zero_ne_one
    rw [htimer]
    exact add_le_add_left hahead.le _

/-- A flush that is looked at goes on or is cancelled. -/
theorem Paced.checked (h : Paced g n s) {i : ℕ} {stage : Stage} {previousDue now : ℤ} (b : Bool)
    {f : Flush Guid}
    (hf : s.flushes[i]? = some f) (hdue : f.due g = some previousDue) (hstart : previousDue ≤ now)
    (hstage : (Flush.taken stage previousDue now).due g = some previousDue) :
    Paced g n (SessionFlush.proceed { s with flushes := s.flushes.eraseIdx i }
      (if b then .taken stage previousDue now else .issue (.cancel g))) := by
  refine h.proceed hf (fun due hdue' => ?_) fun stage d t heq => ?_
  · split at hdue'
    · rw [hdue, ← hstage]
      exact hdue'
    · exact absurd hdue' (by simp [Flush.due, Command.due])
  · split at heq
    · cases heq
      exact hstart
    · cases heq

/-- The strand refuses the task. -/
theorem Paced.inline (h : Paced g n s) {i : ℕ} {previousDue now : ℤ}
    (hf : s.flushes[i]? = some (.taken .enqueueFlush previousDue now)) :
    Paced g n (SessionFlush.proceed { s with flushes := s.flushes.eraseIdx i }
      (.taken .reschedule previousDue now)) := by
  have hmem := (h.alone hf rfl).1
  have hlater := (nextScheduledFlushDue_spec previousDue now).1
  have htimer := (h.within previousDue hmem).trans hlater
  refine h.rescheduled hf rfl (h.started _ _ _ (List.mem_of_getElem? hf)) ?_ h.refused
    fun _ => htimer
  exact htimer.trans (by simp [FLUSH_INTERVAL])

/-- The flush goes back to the schedule. -/
theorem Paced.issue (h : Paced g n s) {i producer : ℕ} {ch : Choice} {c : Command Guid}
    {q : FlushSchedule Guid}
    (hf : s.flushes[i]? = some (.issue c))
    (hq : s.schedule.access (if ch.ok then .enqueue producer c else .apply ch.drain c) = some q) :
    Paced g n { s with flushes := s.flushes.eraseIdx i, schedule := q } := by
  refine h.of_le ?_ rfl fun stage previousDue now hmem =>
    h.started stage previousDue now (List.mem_of_mem_eraseIdx hmem)
  have hle : q.dues g ≤ ((c.due g).toList : Multiset ℤ) + s.schedule.dues g := by
    cases hok : ch.ok with
    | true =>
      rw [if_pos hok] at hq
      exact (Multiset.zero_add _).ge.trans (FlushSchedule.dues_access_le hq)
    | false =>
      rw [if_neg (by simp [hok])] at hq
      exact (Multiset.zero_add _).ge.trans (FlushSchedule.dues_access_le hq)
  rw [SessionFlush.dues_eraseIdx hf]
  refine (Multiset.add_le_add_left hle).trans_eq ?_
  exact add_left_comm ..

omit [DecidableEq Guid] in
/-- Only a task counts a refusal. -/
theorem refusals_of_not_task {i producer : ℕ} {calls : EvpCalls} {ch : Choice} {f : Flush Guid}
    (hf : s.flushes[i]? = some f) (h : ∀ previousDue now, f ≠ .taken .task previousDue now) :
    (FlushStep.flush i producer calls ch).refusals s n = n := by
  simp only [FlushStep.refusals, FlushStep.task, hf]
  cases f with
  | issue c => rfl
  | taken stage previousDue now =>
    cases stage with
    | task => exact absurd rfl (h previousDue now)
    | findContext | checkConnected | enqueueFlush | reschedule => rfl

/-- **Step.** -/
theorem paced_step {l : FlushStep Guid} (h : Paced g n s) (hstep : s.step E L g l = some s')
    (hl : l.Undisturbed g) : Paced g (l.refusals s n) s' := by
  cases l with
  | access a =>
    obtain ⟨q, hq, rfl⟩ := Option.map_eq_some_iff.mp hstep
    -- an access to the schedule: an entry is taken, or moved
    refine h.of_le ?_ rfl fun stage previousDue now hmem => ?_
    · exact SessionFlush.dues_access_le hq hl
    · rcases List.mem_append.mp hmem with hmem | hmem
      · exact SessionFlush.started_takenBy hmem
      · exact h.started stage previousDue now hmem
  | call calls c =>
    cases hstep
    -- a call on the session does not bring its next flush forward
    exact h.of_le (le_refl (s.dues g)) (mNextFlushAt_exec hl) h.started
  | eraseContext | exchangeConnected | detachPeer =>
    cases hstep
    exact h.of_le (le_refl (s.dues g)) rfl h.started
  | flush i producer calls ch =>
    unfold SessionFlush.step at hstep
    cases hf : s.flushes[i]? with
    | none =>
      simp only [hf] at hstep
      exact absurd hstep (by simp)
    | some f =>
      simp only [hf] at hstep
      cases f with
      | taken stage previousDue now =>
        have hstart := h.started _ _ _ (List.mem_of_getElem? hf)
        -- the stages of a flush that was taken, in the order of the source
        cases stage with
        | findContext =>
          cases hstep
          rw [refusals_of_not_task hf (by simp)]
          exact h.checked s.registered hf rfl hstart rfl
        | checkConnected =>
          cases hstep
          rw [refusals_of_not_task hf (by simp)]
          exact h.checked s.sender.mConnected hf rfl hstart rfl
        | enqueueFlush =>
          cases hstep
          rw [refusals_of_not_task hf (by simp)]
          split
          · exact h.checked true hf rfl hstart rfl
          · -- the pool has refused the task
            exact h.inline hf
        | task =>
          cases hstep
          -- too early: one more refusal
          have htask : (FlushStep.flush i producer calls ch).refusals s n =
              if now < s.sender.mNextFlushAt then n + 1 else 0 := by
            simp only [FlushStep.refusals, FlushStep.task, hf]
          rw [htask]
          exact h.task hf
        | reschedule =>
          cases hstep
          rw [refusals_of_not_task hf (by simp)]
          refine h.proceed hf (fun due hdue => ?_) fun stage d t heq => by cases heq
          split at hdue
          · rw [← hdue]
            -- the due time that is scheduled is the next one
            exact (if_pos rfl).symm
          · exact absurd hdue (by simp [Flush.due, Command.due])
      | issue c =>
        obtain ⟨q, hq, rfl⟩ := Option.map_eq_some_iff.mp hstep
        rw [refusals_of_not_task hf (by simp)]
        exact h.issue hf hq

/-- The invariant of a run. -/
theorem paced_of_run {cfg : Settings Guid} {q : FlushSchedule Guid} {created now : ℤ}
    (hclock : created ≤ now)
    (hq : q.dues g = 0) {h : List (Transition (SessionFlush Guid) (FlushStep Guid))}
    (hr : (flushSystem E L cfg g q created now).Run h s) (hC : ∀ x ∈ h, x.label.Undisturbed g) :
    Paced g (refusals h) s := by
  induction hr with
  | init =>
    have hdues : (SessionFlush.start g cfg q created now).dues g =
        {now + cfg.flushPhaseOffsetForGuid g} := by
      unfold SessionFlush.dues SessionFlush.start
      rw [hq, add_zero]
      simp [Flush.due, Command.due]
    have hphase : 0 ≤ cfg.flushPhaseOffsetForGuid g := by
      unfold Settings.flushPhaseOffsetForGuid
      omega
    refine ⟨?_, fun stage previousDue t hmem => ?_, fun due hdue => ?_, Nat.zero_le 1,
      fun hone => ?_⟩
    · exact (congrArg Multiset.card hdues).le
    · cases List.mem_singleton.mp hmem
    · have heq : due = now + cfg.flushPhaseOffsetForGuid g :=
        Multiset.mem_singleton.mp (hdues ▸ hdue)
      rw [heq]
      -- the session was created before its first flush was scheduled
      exact add_le_add_left (hclock.trans (le_add_of_nonneg_right hphase)) _
    · exact absurd hone Nat.zero_ne_one
  | snoc _ hstep ih =>
    exact paced_step (ih fun x hx => hC x (List.mem_cons_of_mem _ hx)) hstep
      (hC _ List.mem_cons_self)

/-- **The timers of a flush.** A strand task that flushes an attached session with queued packets
sends them all if `mNextFlushAt` is not ahead of its tick, and does nothing otherwise. As long as
nobody else flushes the session or schedules its GUID, a task that does nothing is followed by one
that sends. -/
theorem flushTimers {cfg : Settings Guid} {q : FlushSchedule Guid} {created now : ℤ}
    {h : List (Transition (SessionFlush Guid) (FlushStep Guid))}
    (hr : (flushSystem E L cfg g q created now).Run h s) {i : ℕ} {previousDue time : ℤ}
    (htask : s.flushes[i]? = some (.taken .task previousDue time)) (hattached : s.sender.Attached)
    (hne : s.sender.mOutboundPackets ≠ []) :
    (∀ calls, s.sender.flushIfDue E L calls time =
      if time < s.sender.mNextFlushAt then (s.sender, none)
      else Session.Sender.sendBatchedBufferImmediately E L calls
        { s.sender with mOutboundPackets := [], mNextFlushAt := time + FLUSH_INTERVAL }
        (Session.writePackets s.sender.mOutboundPackets)) ∧
    (created ≤ now → q.dues g = 0 → (∀ x ∈ h, x.label.Undisturbed g) →
      refusals h ≤ 1 ∧ (refusals h = 1 → s.sender.mNextFlushAt ≤ time)) := by
  refine ⟨fun calls => flushIfDue_eq hattached hne time, fun hclock hq hC => ?_⟩
  have hpaced := paced_of_run hclock hq hr hC
  have hstart := hpaced.started _ _ _ (List.mem_of_getElem? htask)
  exact ⟨hpaced.refused,
    fun hone => (hpaced.next hone previousDue (hpaced.alone htask rfl).1).trans hstart⟩

end Paced

/-! ### Ticks that are on time and late -/

/-- A packet is queued in the session; the schedule's entry for it is made, and a tick at the time
`now` takes it to the strand. -/
def tickAt (now : ℤ) : List (FlushStep ℕ) :=
  [.call .succeed (.sendPacket [1]), .flush 0 1 .succeed {}, .access (.drain [0]),
    .access (.pop now), .flush 0 0 .succeed {}, .flush 0 0 .succeed {}, .flush 0 0 .succeed {}]

/-- The task flushes the session and is about to schedule the next flush. -/
def runTask : List (FlushStep ℕ) := [.flush 0 0 .succeed {}, .flush 0 0 .succeed {}]

/-- A session that was created at the time 0, with its first flush due after 5 milliseconds. -/
def fiveLater : System (SessionFlush ℕ) (FlushStep ℕ) :=
  flushSystem Session.Sender.noEvp Session.literalCodecs (Settings.defaults fun _ => 5) 0
    .initial 0 0

/-- Nothing is sent after 5 milliseconds, everything after 25. -/
theorem flushTimers_second_task : ∃ h s, fiveLater.Run h s ∧
    s.flushes[0]? = some (.taken .task 25000000 25000000) ∧ refusals h = 1 ∧
    s.sender.mNextFlushAt ≤ 25000000 := by
  obtain ⟨h, s, hr, hp⟩ := fiveLater.exists_run_of_follow
    (p := fun h (s : SessionFlush ℕ) => decide (
      s.flushes[0]? = some (Flush.taken .task 25000000 25000000) ∧
      s.sender.mConnected = true ∧ s.sender.mPeer = true ∧ s.sender.mOutboundPackets ≠ [] ∧
      refusals h = 1 ∧
      ∀ x ∈ h, x.label.Undisturbed 0))
    (tickAt 5000000 ++ runTask ++ tickAt 25000000) (by decide)
  obtain ⟨htask, hconnected, hpeer, hne, hone, hC⟩ := of_decide_eq_true hp
  have htimers := (flushTimers hr htask ⟨hconnected, hpeer⟩ hne).2 (le_refl 0) rfl hC
  exact ⟨h, s, hr, htask, hone, htimers.2 hone⟩

/-- The tick for the flush that is due after 5 milliseconds comes after 35, and the next one on
time, after 45: the session does not send the packet that was queued in between. -/
theorem late_tick_not_due : ∃ h s, fiveLater.Run h s ∧
    s.flushes[0]? = some (.taken .task 45000000 45000000) ∧ s.sender.Attached ∧
    s.sender.mOutboundPackets = [[1]] ∧
    s.sender.flushIfDue Session.Sender.noEvp Session.literalCodecs .succeed 45000000 =
      (s.sender, none) := by
  obtain ⟨h, s, hr, hp⟩ := fiveLater.exists_run_of_follow
    (p := fun _ (s : SessionFlush ℕ) => decide (
      s.flushes[0]? = some (Flush.taken .task 45000000 45000000) ∧
      s.sender.mConnected = true ∧ s.sender.mPeer = true ∧ s.sender.mOutboundPackets = [[1]] ∧
      45000000 < s.sender.mNextFlushAt))
    (tickAt 35000000 ++ runTask ++ tickAt 45000000) (by decide)
  obtain ⟨htask, hconnected, hpeer, hqueue, hearly⟩ := of_decide_eq_true hp
  refine ⟨h, s, hr, htask, ⟨hconnected, hpeer⟩, hqueue, ?_⟩
  rw [flushIfDue_eq ⟨hconnected, hpeer⟩ (by simp [hqueue]), if_pos hearly]

end Sessions
end SculkProtocol
