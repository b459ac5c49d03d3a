import Mathlib.Algebra.Order.Group.Int
import SculkProtocol.Server.SessionSteps
import SculkProtocol.Systems.FixedWindow

/-!
# The rate check of a session

`processSessionPacket` counts the packets of a session context in windows of one second; a
`time_point{}` says that none was opened. As long as the clock is past its epoch this is a
`FixedWindow` (`ingress_of_run`), whose history is that of the times the rate check read. Packets
over `mRawIngressMaxPacketBytes` do not get that far.

`ingress_limits` says for every run what passes: at most `mRawIngressMaxPacketsPerSecond` packets in
a window, at most twice as many in any half-open second.
-/

namespace SculkProtocol
namespace Sessions

open Scripts

variable {Guid : Type} [DecidableEq Guid] (cfg : Settings Guid) (x : Context Guid)

/-! ### What passes in a run -/

/-- The operation gets to the rate check for a packet of the session. -/
def Op.checks : Op Guid → Bool
  | .processSessionPacket p y => y = x ∧ p.length ≤ cfg.mRawIngressMaxPacketBytes
  | _ => false

/-- The time at which a transition does the rate check for a packet of the session. -/
def checkedAt (tr : ServerStep Guid) : Option ℤ :=
  match tr.label with
  | .thread _ (.step ch) => (performed tr).bind fun r =>
    if r.2.checks cfg x then some ch.now else none
  | _ => none

/-- A packet passes the rate check at the time `now`. -/
def Passes (s : State Guid) (now : ℤ) : Prop :=
  (s.openWindow x now).mRawIngressWindowPackets x < cfg.mRawIngressMaxPacketsPerSecond

instance (s : State Guid) (now : ℤ) : Decidable (Passes cfg x s now) :=
  inferInstanceAs (Decidable (_ < _))

/-- The times at which packets passed in a run, latest first. -/
def passed : List (ServerStep Guid) → List ℤ
  | [] => []
  | tr :: h =>
    match checkedAt cfg x tr with
    | some now => if Passes cfg x tr.src.shared now then now :: passed h else passed h
    | none => passed h

/-- How many packets have passed since the window was reset. -/
def passedInWindow : List (ServerStep Guid) → ℕ
  | [] => 0
  | tr :: h =>
    match checkedAt cfg x tr with
    | some now =>
      (if tr.src.shared.windowOver x now then 0 else passedInWindow h) +
        if Passes cfg x tr.src.shared now then 1 else 0
    | none => passedInWindow h

/-! ### The window of a session -/

/-- The window as a limiter has it. -/
def State.ingress (s : State Guid) : FixedWindow ℤ where
  start := if s.mRawIngressWindowStart x = 0 then none else some (s.mRawIngressWindowStart x)
  count := s.mRawIngressWindowPackets x

variable {cfg x} {s s' : State Guid} {now : ℤ}

/-- A window that is opened has no packets. -/
theorem packets_openWindow : (s.openWindow x now).mRawIngressWindowPackets x =
    if s.windowOver x now then 0 else s.mRawIngressWindowPackets x := by
  unfold State.openWindow
  split
  · exact Function.update_self ..
  · rfl

/-- Opening the window is a turn of the limiter, if the clock is not at its epoch. -/
theorem ingress_openWindow (hnow : now ≠ 0) :
    (s.openWindow x now).ingress x = (s.ingress x).turn RAW_INGRESS_WINDOW now := by
  -- the sentinel and the missing start say the same
  have hover : (s.ingress x).isOver RAW_INGRESS_WINDOW now = decide (s.windowOver x now) := by
    unfold State.windowOver State.ingress FixedWindow.isOver
    by_cases hstart : s.mRawIngressWindowStart x = 0
    · simp [hstart]
    · simp only [hstart, if_false, Option.all_some, false_or, decide_eq_decide]
      omega
  unfold FixedWindow.turn State.openWindow
  rw [hover]
  by_cases h : s.windowOver x now
  · simp [h, State.ingress, hnow]
  · simp [h]

/-- A packet is counted in its window. -/
theorem ingress_countPacket :
    (s.countPacket x).ingress x = { s.ingress x with count := (s.ingress x).count + 1 } :=
  congrArg (FixedWindow.mk _) (Function.update_self ..)

/-- The windows of other sessions are not touched. -/
theorem ingress_openWindow_of_ne {y : Context Guid} (h : x ≠ y) :
    (s.openWindow y now).ingress x = s.ingress x := by
  unfold State.openWindow
  split
  · simp [State.ingress, h]
  · rfl

/-- It is counted in no other one. -/
theorem ingress_countPacket_of_ne {y : Context Guid} (h : x ≠ y) :
    (s.countPacket y).ingress x = s.ingress x :=
  congrArg (FixedWindow.mk _) (Function.update_of_ne h ..)

/-- The state after a packet was processed. -/
theorem processSessionPacket_state (p : Packet Guid) (ch : Choice) :
    (processSessionPacket cfg s p x ch).1 =
    if p.length > cfg.mRawIngressMaxPacketBytes then s
    else if Passes cfg x s ch.now then (s.openWindow x ch.now).countPacket x
    else s.openWindow x ch.now := by
  unfold processSessionPacket
  dsimp only
  split
  · rfl
  · split
    · next hfull =>
      have hrefused : ¬ Passes cfg x s ch.now := Nat.not_lt.mpr hfull
      rw [if_neg hrefused]
    · next hpass =>
      have hpasses : Passes cfg x s ch.now := Nat.not_le.mp hpass
      rw [if_pos hpasses]
      split
      · rfl
      · rfl
      · rfl

/-- A checked packet is an event of the limiter. -/
theorem ingress_checked (hnow : now ≠ 0) :
    (if Passes cfg x s now then (s.openWindow x now).countPacket x
     else s.openWindow x now).ingress x =
      (s.ingress x).next RAW_INGRESS_WINDOW cfg.mRawIngressMaxPacketsPerSecond now ∧
    (Passes cfg x s now ↔
      (s.ingress x).admits RAW_INGRESS_WINDOW cfg.mRawIngressMaxPacketsPerSecond now = true) := by
  -- the code compares the count of the opened window with the limit
  have hpasses : Passes cfg x s now ↔
      (s.ingress x).admits RAW_INGRESS_WINDOW cfg.mRawIngressMaxPacketsPerSecond now = true := by
    unfold FixedWindow.admits
    rw [← ingress_openWindow hnow, decide_eq_true_iff]
    exact Iff.rfl
  refine ⟨?_, hpasses⟩
  unfold FixedWindow.next
  rw [← ingress_openWindow hnow]
  by_cases h : Passes cfg x s now
  · rw [if_pos h, if_pos (hpasses.mp h), ingress_countPacket]
  · rw [if_neg h, if_neg (hpasses.not.mp h)]

/-! ### The windows in a run -/

/-- Only `processSessionPacket` touches a window. -/
theorem ingress_execOp {producer : ℕ} {ch : Choice} {op : Op Guid} {ops : List (Op Guid)}
    {ts : List (Thread Guid)}
    (h : execOp cfg s producer ch op = some (s', ops, ts))
    (hop : ∀ p, op ≠ .processSessionPacket p x) :
    s'.ingress x = s.ingress x := by
  cases op with
  | processSessionPacket p y =>
    have hne : x ≠ y := fun heq => hop p (heq ▸ rfl)
    obtain rfl := state_eq h
    rw [processSessionPacket_state]
    split
    · rfl
    · split
      · rw [ingress_countPacket_of_ne hne, ingress_openWindow_of_ne hne]
      · exact ingress_openWindow_of_ne hne
  | processIncomingPacket p =>
    -- at most a task is counted
    obtain rfl : (processIncomingPacket cfg s p ch).1 = s' := by rw [Option.some.inj h]
    rcases (processIncomingPacket_registry s p ch : (processIncomingPacket cfg s p ch).1 = s ∨
      _) with h1 | h1
    · rw [h1]
    · rw [h1]
      rfl
  | applyCommand c why | clearFlushSchedule =>
    obtain ⟨q, -, hq⟩ := Option.map_eq_some_iff.mp h
    obtain rfl := state_eq (congrArg some hq)
    rfl
  | drainFlushScheduleCommands left now =>
    cases left with
    | zero =>
      obtain rfl := state_eq h
      rfl
    | succ left =>
      obtain ⟨q, -, hq⟩ := Option.map_eq_some_iff.mp h
      obtain rfl := state_eq (congrArg some hq)
      rfl
  | upsertSessionContext g | eraseContext g after | exchangeConnected y | loadPeer y
  | closeConnection y
  | closeRemote g | release y | detachPeer y | collectContexts | collectKeys | popDue left now =>
    obtain rfl := state_eq h
    rfl
  | enqueueCommand c why | checkConnected e y now | enqueueFlush e y now | reschedule g y prev now
  | findContext e now =>
    simp only [execOp] at h
    split at h
    · obtain rfl := state_eq h
      rfl
    · obtain rfl := state_eq h
      rfl
  | joinIo | waitForPendingFlushJobs | waitForPendingSessionPacketTasks =>
    simp only [execOp] at h
    split at h
    · obtain rfl := state_eq h
      rfl
    · exact absurd h (by simp)

variable {c c' : Server Guid} {m : Move (Event Choice (Call Guid))}

/-- A packet is checked where its task accesses the window. -/
theorem checkedAt_access {i : ℕ} {ch : Choice} {t : Thread Guid} {op : Op Guid}
    {rest : List (Op Guid)}
    (hi : c.threads[i]? = some t) (hcode : t.code = op :: rest) :
    checkedAt cfg x ⟨c, .thread i (.step ch), c'⟩ = if op.checks cfg x then some ch.now
                                                    else none := by
  have hdoes : performed (⟨c, .thread i (.step ch), c'⟩ : ServerStep Guid) = some (t, op) :=
    does_of_head hi hcode
  simp only [checkedAt, hdoes, Option.bind_some]

/-- A step without a rate check leaves the window alone. -/
theorem ingress_unchecked (h : (scripts cfg).program.step c m = some c')
    (hnone : checkedAt cfg x ⟨c, m, c'⟩ = none) : c'.shared.ingress x = c.shared.ingress x := by
  cases step_cases h with
  | @access i ch t op rest ops s' ts others hi hperm hcode hop =>
    rw [checkedAt_access hi hcode] at hnone
    by_cases hpacket : ∃ p, op = .processSessionPacket p x
    · -- the packet is too large
      obtain ⟨p, rfl⟩ := hpacket
      obtain rfl := state_eq hop
      have hlarge : p.length > cfg.mRawIngressMaxPacketBytes := by
        by_contra hsmall
        have hchecks : (Op.processSessionPacket p x).checks cfg x = true :=
          decide_eq_true ⟨rfl, Nat.not_lt.mp hsmall⟩
        rw [if_pos hchecks] at hnone
        exact absurd hnone (by simp)
      rw [processSessionPacket_state, if_pos hlarge]
    · exact ingress_execOp hop fun p heq => hpacket ⟨p, heq⟩
  | @finish i ch t others hi hperm hcode =>
    -- the end of a thread touches its counters only
    change (finish c.shared t.tag.role).ingress x = c.shared.ingress x
    cases t.tag.role with
    | io | flushPump | packetTask y | flushTask y | user | destructor y | stop => rfl
  | @arrive a s' new hnew =>
    cases a with
    | start is =>
      simp only [scripts, arrive] at hnew
      split at hnew
      · obtain ⟨q, hq, hr⟩ := Option.map_eq_some_iff.mp hnew
        obtain ⟨rfl, -⟩ := Prod.mk.inj hr
        rfl
      · exact absurd hnew (by simp)
    | stop producer | disconnectClient g producer =>
      obtain ⟨rfl, -⟩ := Prod.mk.inj (Option.some.inj hnew)
      rfl
    | receive p | flushTick now producer | disconnect y | destroy y =>
      simp only [scripts, arrive] at hnew
      split at hnew
      · obtain ⟨rfl, -⟩ := Prod.mk.inj (Option.some.inj hnew)
        rfl
      · exact absurd hnew (by simp)

/-- A rate check opens the window if it has to, and counts the packet if it passes. -/
theorem shared_checked (h : (scripts cfg).program.step c m = some c')
    (hsome : checkedAt cfg x ⟨c, m, c'⟩ = some now) : c'.shared =
      if Passes cfg x c.shared now then (c.shared.openWindow x now).countPacket x
      else c.shared.openWindow x now := by
  cases step_cases h with
  | @access i ch t op rest ops s' ts others hi hperm hcode hop =>
    rw [checkedAt_access hi hcode] at hsome
    split at hsome
    · next hchecks =>
      -- the only operation with a check is the task's, for a packet that is small enough
      cases hsome
      unfold Op.checks at hchecks
      split at hchecks
      · next p y =>
        obtain ⟨rfl, hsmall⟩ := of_decide_eq_true hchecks
        obtain rfl := state_eq hop
        rw [processSessionPacket_state, if_neg (Nat.not_lt.mpr hsmall)]
      · exact absurd hchecks (by simp)
    · exact absurd hsome (by simp)
  | @finish i ch t others hi hperm hcode =>
    simp [checkedAt, performed, hi, hcode] at hsome
  | @arrive a s' new hnew => exact absurd hsome (by simp [checkedAt])

/-! ### Runs -/

variable {h : List (ServerStep Guid)}

/-- What the context counts is what has passed in its window. -/
theorem passedInWindow_of_run (hr : (system cfg).Run h c) :
    c.shared.mRawIngressWindowPackets x = passedInWindow cfg x h := by
  induction hr with
  | init => rfl
  | @snoc h s l t hr hstep ih =>
    unfold passedInWindow
    split
    · next now hsome =>
      rw [shared_checked hstep hsome, ← ih, ← packets_openWindow]
      by_cases hpasses : Passes cfg x s.shared now
      · rw [if_pos hpasses, if_pos hpasses]
        exact Function.update_self ..
      · rw [if_neg hpasses, if_neg hpasses, Nat.add_zero]
    · next hnone => exact (congrArg FixedWindow.count (ingress_unchecked hstep hnone)).trans ih

/-- The times at which packets of the session were checked, latest first. -/
def checks (cfg : Settings Guid) (x : Context Guid) (h : List (ServerStep Guid)) : List ℤ :=
  h.filterMap (checkedAt cfg x)

/-- **Refinement.** The window of a session is a limiter after the checks of the run. -/
theorem ingress_of_run (hr : (system cfg).Run h c) (hclock : ∀ now ∈ checks cfg x h, 0 < now) :
    c.shared.ingress x =
        FixedWindow.after RAW_INGRESS_WINDOW cfg.mRawIngressMaxPacketsPerSecond (checks cfg x h) ∧
      passed cfg x h =
        FixedWindow.admitted RAW_INGRESS_WINDOW cfg.mRawIngressMaxPacketsPerSecond
          (checks cfg x h) := by
  induction hr with
  | init => exact ⟨rfl, rfl⟩
  | @snoc h s l t hr hstep ih =>
    unfold passed
    split
    · next now hsome =>
      -- the check is the next event of the limiter
      have hchecks : checks cfg x (⟨s, l, t⟩ :: h) = now :: checks cfg x h :=
        List.filterMap_cons_some hsome
      rw [hchecks] at hclock ⊢
      obtain ⟨hingress, hpassed⟩ := ih fun now hnow => hclock now (List.mem_cons_of_mem _ hnow)
      obtain ⟨hnext, hadmits⟩ :=
        @ingress_checked _ _ cfg x s.shared now (hclock now List.mem_cons_self).ne'
      constructor
      · rw [shared_checked hstep hsome, hnext, hingress]
        rfl
      · unfold FixedWindow.admitted
        rw [← hingress, ← hpassed]
        by_cases hpasses : Passes cfg x s.shared now
        · rw [if_pos hpasses, if_pos (hadmits.mp hpasses)]
        · rw [if_neg hpasses, if_neg (hadmits.not.mp hpasses)]
    · next hnone =>
      -- nothing happens to the window
      have hchecks : checks cfg x (⟨s, l, t⟩ :: h) = checks cfg x h :=
        List.filterMap_cons_none hnone
      rw [hchecks] at hclock ⊢
      obtain ⟨hingress, hpassed⟩ := ih hclock
      exact ⟨(ingress_unchecked hstep hnone).trans hingress, hpassed⟩

/-- **The ingress limits.** In every run in which the clock is past its epoch and does not go back
between the checks of a session, at most `mRawIngressMaxPacketsPerSecond` of its packets pass before
the window is reset, at most twice as many pass in a second, and a packet is refused only when that
many have passed in its window. -/
theorem ingress_limits (hr : (system cfg).Run h c) (hclock : ∀ now ∈ checks cfg x h, 0 < now)
    (hsteady : (checks cfg x h).Pairwise (· ≥ ·)) :
    (∀ t, ((passed cfg x h).filter fun now => t ≤ now ∧ now < t + RAW_INGRESS_WINDOW).length ≤
      2 * cfg.mRawIngressMaxPacketsPerSecond) ∧
    passedInWindow cfg x h ≤ cfg.mRawIngressMaxPacketsPerSecond ∧
    ∀ now, ¬ Passes cfg x c.shared now →
      (if c.shared.windowOver x now then 0 else passedInWindow cfg x h) =
        cfg.mRawIngressMaxPacketsPerSecond := by
  obtain ⟨hingress, hpassed⟩ := ingress_of_run hr hclock
  have hcount := passedInWindow_of_run (x := x) hr
  have hle : passedInWindow cfg x h ≤ cfg.mRawIngressMaxPacketsPerSecond := by
    rw [← hcount]
    exact (congrArg FixedWindow.count hingress).trans_le (FixedWindow.count_le _)
  refine ⟨fun t => ?_, hle, fun now hrefused => ?_⟩
  · rw [hpassed, ← List.countP_eq_length_filter]
    exact FixedWindow.admitted_interval hsteady t
  · unfold Passes at hrefused
    -- a refused packet finds the window full; in one that it opens itself, only if the limit is
    -- zero
    rw [packets_openWindow, hcount, Nat.not_lt] at hrefused
    refine Nat.le_antisymm ?_ hrefused
    split
    · exact Nat.zero_le _
    · exact hle

/-- A server whose sessions may send one packet a second. -/
def onePacket : Settings ℕ :=
  { Settings.defaults fun _ => 0 with mRawIngressMaxPacketsPerSecond := 1 }

/-- A packet of GUID 0 arrives. -/
def arrival (messageId : MessageId) : Move (Event Choice (Call ℕ)) :=
  .env (.call (.receive ⟨0, true, 1, messageId⟩))

/-- The next access of the first thread, at the time `now`. -/
def stepAt (now : ℤ) : Move (Event Choice (Call ℕ)) := .thread 0 (.step { now := now })

/-- A client connects and sends a packet that is checked at 5. -/
def firstPacket : List (Move (Event Choice (Call ℕ))) :=
  [.env (.call (.start [])), arrival .newIncomingConnection, stepAt 1, stepAt 1, stepAt 1, stepAt 1,
    arrival .other, stepAt 4, stepAt 5, stepAt 5, stepAt 5]

/-- The second packet in a second is refused. -/
theorem ingress_limits_second_packet :
    ∃ h c, (system onePacket).Run h c ∧ checks onePacket ⟨0, 0⟩ h = [5] ∧
    passed onePacket ⟨0, 0⟩ h = [5] ∧ ¬ Passes onePacket ⟨0, 0⟩ c.shared 7 ∧
    passedInWindow onePacket ⟨0, 0⟩ h = 1 := by
  obtain ⟨h, c, hr, hp⟩ := (system onePacket).exists_run_of_follow
    (p := fun h c => decide (checks onePacket ⟨0, 0⟩ h = [5] ∧ passed onePacket ⟨0, 0⟩ h = [5] ∧
      ¬ Passes onePacket ⟨0, 0⟩ c.shared 7 ∧ ¬ c.shared.windowOver ⟨0, 0⟩ 7))
    firstPacket (by decide)
  obtain ⟨hchecks, hpassed, hrefused, hover⟩ := of_decide_eq_true hp
  have hlimits := ingress_limits (x := ⟨0, 0⟩) hr (by simp [hchecks]) (by simp [hchecks])
  refine ⟨h, c, hr, hchecks, hpassed, hrefused, ?_⟩
  have hfull := hlimits.2.2 7 hrefused
  rwa [if_neg hover] at hfull

end Sessions
end SculkProtocol
