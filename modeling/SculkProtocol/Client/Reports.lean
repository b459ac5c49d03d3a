import SculkProtocol.Client.CallbackOrder

/-!
# The report of a connection's end

`mSession` is cleared on account of a packet in three ways: for a disconnection notice or
lost connection, which is reported (`onDisconnected`); for a failed attempt, which is
reported as one (`onConnectionFailed`); and for a packet that is empty or over a limit,
which is not reported. The limits come before the message id, so they can also swallow a
notice (`ending_unreported`).

* `Heard` is the condition under which each notice clears `mSession` and each end of a
  connection is handed over as one `mOnDisconnected`; it is exact for every transition
  (`obeyed_and_reported_iff`). What is handed over is called once (`Delivered`).
* `InTurn` is the condition for the calls to be matched (`DisconnectsMatched`): a notice
  that comes without a session finds an `mOnConnected` to match, and no `mOnConnected`
  waits for its call when `mOnDisconnected` is called. `Balanced` is the invariant.
-/

namespace SculkProtocol
namespace ClientEvents

variable {cfg : Settings} {s s' : State} {l : Label} {io : Io} {p : Packet} {ch : Choice}

def isOnConnected : ConnectionEvent → Bool
  | .onConnected _ => true
  | _ => false

def isOnDisconnected : ConnectionEvent → Bool
  | .onDisconnected _ => true
  | _ => false

/-- A disconnection notice, or the notice of a lost connection. -/
def Packet.isNotice (p : Packet) : Bool :=
  p.hasData && p.length ≠ 0 && match p.messageId with
    | .disconnectionNotification | .connectionLost => true
    | _ => false

/-- The notice of a failed attempt. -/
def Packet.isFailure (p : Packet) : Bool :=
  match p.messageId with
  | .connectionAttemptFailed | .noFreeIncomingConnections => true
  | _ => false

/-- The packet is empty or over a limit. -/
def limitExceeded (cfg : Settings) (s : Io) (p : Packet) (now : ℤ) : Prop :=
  (p.hasData = false ∨ p.length = 0) ∨ p.length > cfg.mRawIngressMaxPacketBytes ∨
    (s.openWindow now).mRawIngressWindowPackets ≥ cfg.mRawIngressMaxPacketsPerSecond

instance (cfg : Settings) (s : Io) (p : Packet) (now : ℤ) : Decidable (limitExceeded cfg s p now) :=
  inferInstanceAs (Decidable (_ ∨ _))

/-! ### What is claimed of a run -/

/-- If the transition is the work on a notice, it leaves no session. -/
def NoticeObeyed (t : ClientStep) : Prop :=
  ∀ p ch producer, t.label = .receive p ch producer → p.isNotice = true → t.dst.io.mSession = none

/-- If the transition is the work on a packet, and a connection ends in it, it hands over
one `mOnDisconnected` of the connection. -/
def EndReported (t : ClientStep) : Prop :=
  ∀ p ch producer k, t.label = .receive p ch producer → t.src.io.mSession = some k →
    t.dst.io.mSession = none → t.dst.handed = .onDisconnected k :: t.src.handed

/-- Every call of `mOnDisconnected`, the latest first, comes after a call of `mOnConnected`
that is not matched yet. -/
def DisconnectsMatched : List LogEntry → Prop
  | [] => True
  | e :: earlier =>
    (e.starts isOnDisconnected = true →
      earlier.countP (LogEntry.starts isOnDisconnected) < earlier.countP
        (LogEntry.starts isOnConnected)) ∧
        DisconnectsMatched earlier

/-! ### The conditions -/

/-- A packet over a limit comes without a session, unless it is no notice and is let off;
and so does the notice of a failed attempt. -/
def PacketHeard (cfg : Settings) (s : Io) (p : Packet) (ch : Choice) : Prop :=
  if limitExceeded cfg s p ch.now then
    (cfg.shouldDisconnect ch = true ∨ p.isNotice = true) → s.mSession = none
  else p.isFailure = true → s.mSession = none

instance (cfg : Settings) (s : Io) (p : Packet) (ch : Choice) :
    Decidable (PacketHeard cfg s p ch) :=
  inferInstanceAs (Decidable (ite ..))

/-- **The condition** for ends to be reported. -/
def Heard (cfg : Settings) (t : ClientStep) : Prop :=
  ∀ p ch producer, t.label = .receive p ch producer → PacketHeard cfg t.src.io p ch

/-- `Heard`, to be evaluated. -/
def heard (cfg : Settings) (t : ClientStep) : Bool :=
  match t.label with
  | .receive p ch _ => PacketHeard cfg t.src.io p ch
  | _ => true

/-- The evaluation of the condition is right. -/
theorem Heard.of_eval {t : ClientStep} (h : heard cfg t = true) : Heard cfg t := by
  intro p ch producer hl
  rw [heard, hl] at h
  exact of_decide_eq_true h

/-- The event whose callback is called. -/
def calledEvent (s : State) : Label → Option ConnectionEvent
  | .pump _ =>
    match s.pump with
    | .callInPlace e :: _ => some e
    | _ => none
  | .begin position => (s.mCallbackStrand.begin position).map Prod.fst
  | _ => none

/-- **The condition** for calls to be matched. -/
structure InTurn (cfg : Settings) (t : ClientStep) : Prop where
  /-- a notice without a session finds an `mOnConnected` to match -/
  unmatched : ∀ p ch producer, t.label = .receive p ch producer →
    ¬ limitExceeded cfg t.src.io p ch.now → p.isNotice = true → t.src.io.mSession = none →
      t.src.handed.countP isOnDisconnected < t.src.handed.countP isOnConnected
  /-- no `mOnConnected` waits when `mOnDisconnected` is called -/
  started : ∀ e, calledEvent t.src t.label = some e → isOnDisconnected e = true →
    waiting t.src isOnConnected = 0

/-- `InTurn`, to be evaluated. -/
def inTurn (cfg : Settings) (t : ClientStep) : Bool :=
  match t.label with
  | .receive p ch _ =>
    limitExceeded cfg t.src.io p ch.now || !p.isNotice || t.src.io.mSession.isSome ||
      t.src.handed.countP isOnDisconnected < t.src.handed.countP isOnConnected
  | l => (calledEvent t.src l).all fun e => !isOnDisconnected e || waiting t.src isOnConnected = 0

/-- So is that of the other condition. -/
theorem InTurn.of_eval {t : ClientStep} (h : inTurn cfg t = true) : InTurn cfg t where
  unmatched p ch producer hl hlimit hnotice hnone := by
    simpa [inTurn, hl, hlimit, hnotice, hnone] using h
  started e he hdisconnect := by
    cases hl : t.label with
    | pump | begin => simpa [inTurn, hl, hl ▸ he, hdisconnect] using h
    | _ => exact absurd (hl ▸ he) nofun

/-! ### The work on a packet -/

/-- A packet over a limit ends the session without a report. -/
theorem processIncomingPacket_limited (h : limitExceeded cfg io p ch.now) :
    (processIncomingPacket cfg io p ch).2 = [] ∧ (processIncomingPacket cfg io p ch).1.mSession =
      if cfg.shouldDisconnect ch = true then none else io.mSession := by
  have hrefuse : ∀ io' : Io, (io'.refuse cfg ch).mSession =
      if cfg.shouldDisconnect ch = true then none else io'.mSession := by
    intro io'
    unfold Io.refuse
    split <;> rfl
  simp only [processIncomingPacket]
  split
  · exact ⟨rfl, hrefuse io⟩
  · next hempty =>
    split
    · exact ⟨rfl, hrefuse io⟩
    · next hbytes =>
      rw [if_pos (h.resolve_left hempty |>.resolve_left hbytes)]
      exact ⟨rfl, by rw [hrefuse, openWindow_mSession]⟩

/-- Any other packet is counted and worked on. -/
theorem processIncomingPacket_of_not_limited (h : ¬ limitExceeded cfg io p ch.now) :
    processIncomingPacket cfg io p ch =
      processMessage cfg (io.openWindow ch.now).countPacket p ch := by
  obtain ⟨hempty, hlimits⟩ := not_or.mp h
  obtain ⟨hbytes, hpackets⟩ := not_or.mp hlimits
  simp only [processIncomingPacket, if_neg hempty, if_neg hbytes, if_neg hpackets]

/-- A packet within the limits is a notice by its id. -/
theorem isNotice_iff (h : ¬ limitExceeded cfg io p ch.now) :
    p.isNotice = true ↔
      p.messageId = .disconnectionNotification ∨ p.messageId = .connectionLost := by
  obtain ⟨hdata, hlength⟩ := not_or.mp (not_or.mp h).1
  unfold Packet.isNotice
  rw [Bool.not_eq_false] at hdata
  cases hid : p.messageId <;> simp [hdata, hlength]

/-- What the work on a packet within the limits does, by the kind of packet. -/
theorem processMessage_cases (cfg : Settings) (io : Io) (p : Packet) (ch : Choice) :
    (p.messageId = .connectionRequestAccepted ∧
        processMessage cfg io p ch =
          (io.announce, report cfg.mCallbacks.mOnConnected (.onConnected (io.announced + 1)))) ∨
      ((p.messageId = .disconnectionNotification ∨ p.messageId = .connectionLost) ∧
        processMessage cfg io p ch =
          (io.disconnectSession, report cfg.mCallbacks.mOnDisconnected
            (.onDisconnected io.announced))) ∨
      (p.isFailure = true ∧
        processMessage cfg io p ch =
          (io.disconnectSession, report cfg.mCallbacks.mOnConnectionFailed
            (.onConnectionFailed io.announced))) ∨
      ((p.messageId = .batch ∨ p.messageId = .other) ∧ (processMessage cfg io p ch).1 = io ∧
        (processMessage cfg io p ch).2.filterMap Op.event? = []) := by
  unfold processMessage Packet.isFailure
  cases hid : p.messageId with
  | connectionRequestAccepted => exact .inl ⟨rfl, rfl⟩
  | disconnectionNotification => exact .inr (.inl ⟨.inl rfl, rfl⟩)
  | connectionLost => exact .inr (.inl ⟨.inr rfl, rfl⟩)
  | connectionAttemptFailed | noFreeIncomingConnections => exact .inr (.inr (.inl ⟨rfl, rfl⟩))
  | batch =>
    -- with a session or without, no event is reported
    refine .inr (.inr (.inr ⟨.inl rfl, ?_⟩))
    simp only
    split
    · exact ⟨rfl, rfl⟩
    · split <;> exact ⟨rfl, rfl⟩
  | other => exact .inr (.inr (.inr ⟨.inr rfl, rfl, rfl⟩))

/-! ### Ends are reported -/

/-- `mSession` holds the connection announced last. -/
def Latest (s : State) : Prop := ∀ k, s.io.mSession = some k → k = s.io.announced

/-- Nothing is announced at first. -/
theorem latest_initial : Latest State.initial := fun _ hk => absurd hk nofun

/-- Every step keeps the latest connection. -/
theorem latest_step (hs : Latest s) (h : step cfg s l = some s') : Latest s' := by
  cases step_cases h with
  | receive _ hprocessed _ =>
    intro k hk
    cases hprocessed with
    | kept hsession hannounced | dispatch hsession hannounced =>
      rw [hannounced]
      exact hs k (hsession ▸ hk)
    | cleared hnone | ended hnone => exact absurd (hnone ▸ hk) nofun
    | announced hsome hannounced =>
      rw [hsome] at hk
      rw [hannounced, ← Option.some.inj hk]
  | teardown => exact fun k hk => absurd hk nofun
  | _ => exact hs

/-- The work on a packet obeys a notice and reports an end exactly if the packet is
heard. -/
theorem packetHeard_iff (hset : cfg.mCallbacks.mOnDisconnected = true)
    (hlatest : ∀ k, io.mSession = some k → k = io.announced) :
    ((p.isNotice = true → (processIncomingPacket cfg io p ch).1.mSession = none) ∧
        ∀ k, io.mSession = some k → (processIncomingPacket cfg io p ch).1.mSession = none →
          (processIncomingPacket cfg io p ch).2.filterMap Op.event? = [.onDisconnected k]) ↔
      PacketHeard cfg io p ch := by
  unfold PacketHeard
  by_cases hlimit : limitExceeded cfg io p ch.now
  · obtain ⟨hops, hsession⟩ := processIncomingPacket_limited hlimit
    rw [if_pos hlimit, hops, hsession]
    cases hdecision : cfg.shouldDisconnect ch with
    | true =>
      -- the end, if there is one, goes unreported
      cases hio : io.mSession <;> simp
    | false => cases hio : io.mSession <;> simp
  · rw [if_neg hlimit, processIncomingPacket_of_not_limited hlimit, isNotice_iff hlimit]
    rcases processMessage_cases cfg (io.openWindow ch.now).countPacket p ch with
      ⟨hid, hr⟩ | ⟨hid, hr⟩ | ⟨hfailure, hr⟩ | ⟨hid, hio, -⟩
    · simp [hr, hid, Io.announce, Packet.isFailure]
    · have hfailure : p.isFailure = false := by rcases hid with hid | hid <;>
        simp [Packet.isFailure, hid]
      refine ⟨fun _ hf => absurd (hfailure.symm.trans hf) Bool.false_ne_true,
        fun _ => ⟨fun _ => by rw [hr]; rfl, fun k hk _ => ?_⟩⟩
      simp [hr, hset, report, Op.event?, hlatest k hk]
    · have hid : ¬ (p.messageId = .disconnectionNotification ∨ p.messageId = .connectionLost) := by
        rintro (hid | hid) <;> simp [Packet.isFailure, hid] at hfailure
      rw [hr]
      cases hio : io.mSession with
      | none => simp [hid]
      | some k =>
        -- the end is reported as a failed attempt
        cases hfailed : cfg.mCallbacks.mOnConnectionFailed <;>
          simp [hid, hfailure, report, Op.event?]
    · have hfailure : p.isFailure = false := by rcases hid with hid | hid <;>
        simp [Packet.isFailure, hid]
      rw [hio, countPacket_mSession, openWindow_mSession]
      rcases hid with hid | hid <;> cases io.mSession <;> simp [hid, hfailure]

/-- `packetHeard_iff`, for a transition. -/
theorem obeyed_and_reported_iff (hset : cfg.mCallbacks.mOnDisconnected = true) (hs : Latest s)
    (h : step cfg s l = some s') :
    NoticeObeyed ⟨s, l, s'⟩ ∧ EndReported ⟨s, l, s'⟩ ↔ Heard cfg ⟨s, l, s'⟩ := by
  cases step_cases h with
  | @receive p ch producer io ops _ _ hr =>
    have hiff := @packetHeard_iff cfg s.io p ch hset hs
    rw [hr] at hiff
    constructor
    · rintro ⟨hobeyed, hreported⟩ _ _ _ hl
      cases hl
      refine hiff.mp ⟨fun hnotice => hobeyed p ch producer rfl hnotice, fun k hk hnone => ?_⟩
      exact List.append_cancel_right (hreported p ch producer k rfl hk hnone)
    · intro hheard
      obtain ⟨hobeyed, hreported⟩ := hiff.mpr (hheard p ch producer rfl)
      refine ⟨fun _ _ _ hl => by cases hl; exact hobeyed, fun _ _ _ k hl hk hnone => ?_⟩
      cases hl
      exact congrArg (· ++ s.handed) (hreported k hk hnone)
  -- the other steps handle no packet
  | _ => exact ⟨fun _ _ _ _ hl => absurd hl nofun,
      fun _ => ⟨fun _ _ _ hl => absurd hl nofun, fun _ _ _ _ hl => absurd hl nofun⟩⟩

/-! ### Calls are matched -/

/-- There are as many connects as disconnects among the events handed over, and one more
while there is a session. -/
def Balanced (s : State) : Prop :=
  s.handed.countP isOnDisconnected + s.io.mSession.isSome.toNat ≤ s.handed.countP isOnConnected

/-- Nothing is reported at first. -/
theorem balanced_initial : Balanced State.initial := Nat.le_refl 0

/-- The work on a packet keeps the balance, if a notice without a session finds a connect
to match. -/
theorem balanced_receive (hset : cfg.mCallbacks.mOnConnected = true) {d c : ℕ}
    (hs : d + io.mSession.isSome.toNat ≤ c)
    (hmatch : ¬ limitExceeded cfg io p ch.now → p.isNotice = true → io.mSession = none → d < c) :
    ((processIncomingPacket cfg io p ch).2.filterMap Op.event?).countP isOnDisconnected + d +
        (processIncomingPacket cfg io p ch).1.mSession.isSome.toNat ≤
      ((processIncomingPacket cfg io p ch).2.filterMap Op.event?).countP isOnConnected + c := by
  by_cases hlimit : limitExceeded cfg io p ch.now
  · obtain ⟨hops, hsession⟩ := processIncomingPacket_limited hlimit
    rw [hops, hsession]
    cases cfg.shouldDisconnect ch <;> simp <;> omega
  · rw [processIncomingPacket_of_not_limited hlimit]
    rcases processMessage_cases cfg (io.openWindow ch.now).countPacket p ch with
      ⟨-, hr⟩ | ⟨hid, hr⟩ | ⟨-, hr⟩ | ⟨-, hio, hops⟩
    · rw [hr, countP_report, countP_report, hset]
      simp [isOnConnected, isOnDisconnected, Io.announce]
      omega
    · -- the session, or the connect it finds, is matched
      have hlt : d < c := by
        cases hio : io.mSession with
        | none => exact hmatch hlimit ((isNotice_iff hlimit).mpr hid) hio
        | some k =>
          rw [hio] at hs
          exact hs
      rw [hr, countP_report, countP_report]
      cases cfg.mCallbacks.mOnDisconnected <;> simp [isOnConnected, isOnDisconnected] <;> omega
    · rw [hr, countP_report, countP_report]
      simp [isOnConnected, isOnDisconnected]
      omega
    · rw [hops, hio, countPacket_mSession, openWindow_mSession]
      simp
      omega

/-- Every step keeps the reports in balance. -/
theorem balanced_step (hset : cfg.mCallbacks.mOnConnected = true) (hs : Balanced s)
    (h : step cfg s l = some s') (hturn : InTurn cfg ⟨s, l, s'⟩) : Balanced s' := by
  unfold Balanced at hs ⊢
  cases step_cases h with
  | @receive p ch producer io ops _ _ hr =>
    have hkept := @balanced_receive cfg s.io p ch hset _ _ hs (hturn.unmatched p ch producer rfl)
    rw [hr] at hkept
    rw [List.countP_append, List.countP_append]
    exact hkept
  | teardown => exact Nat.le_trans (Nat.le_add_right _ _) hs
  | _ => exact hs

/-- A step that calls no event's callback logs at most an entry of another kind. -/
theorem Step.starts (h : Step cfg s l s') :
    (∃ e, calledEvent s l = some e ∧ s'.log = .start (.event e) :: s.log ∧ s'.handed = s.handed) ∨
      s'.log = s.log ∨ ∃ entry, (∀ p, LogEntry.starts p entry = false) ∧
      s'.log = entry :: s.log := by
  cases h with
  | receive | accept | refuse | work | teardown => exact .inr (.inl rfl)
  | callInPlace hpump => exact .inl ⟨_, by simp [calledEvent, hpump], rfl, rfl⟩
  | begin hbegin => exact .inl ⟨_, by simp [calledEvent, hbegin], rfl, rfl⟩
  | retInPlace | ret => exact .inr (.inr ⟨_, fun _ => rfl, rfl⟩)
  | @packet op k c rest ops ok hpump hop hops hc hstarts =>
    refine .inr (.inr ⟨_, fun p => ?_, rfl⟩)
    cases c with
    | event e => exact absurd hc nofun
    | _ => rfl

/-- Every end is reported after its beginning. -/
theorem matched_step (hd : Delivered s) (hs : Balanced s) (hmatched : DisconnectsMatched s.log)
    (h : step cfg s l = some s') (hturn : InTurn cfg ⟨s, l, s'⟩) : DisconnectsMatched s'.log := by
  rcases (step_cases h).starts with ⟨e, he, hlog, hhanded⟩ | hlog | ⟨entry, hentry, hlog⟩
  · rw [hlog]
    refine ⟨fun hstarts => ?_, hmatched⟩
    have hwaiting : waiting s isOnConnected = 0 := hturn.started e he hstarts
    have hconnects := hd.started isOnConnected
    -- the call itself was waiting before the step
    have hdisconnects := (delivered_step hd h).started isOnDisconnected
    rw [hlog, hhanded, List.countP_cons_of_pos hstarts] at hdisconnects
    have hbalanced := hs
    unfold Balanced at hbalanced
    omega
  · rwa [hlog]
  · rw [hlog]
    exact ⟨fun hstarts => absurd (hentry _ ▸ hstarts) nofun, hmatched⟩

/-! ### The result -/

/-- **Reports.** In every run, notices are obeyed and ends of connections are handed over
as one `mOnDisconnected` each exactly if every packet is heard; what is handed over is
called once; and the calls are matched if the steps are in turn. -/
theorem endings_reported (hset : cfg.mCallbacks.mOnDisconnected = true) {h : List ClientStep}
    (hr : (system cfg).Run h s) :
    ((∀ t ∈ h, NoticeObeyed t ∧ EndReported t) ↔ ∀ t ∈ h, Heard cfg t) ∧
      (∀ e, s.log.countP (LogEntry.starts (· = e)) + waiting s (· = e) = s.handed.count e) ∧
      (cfg.mCallbacks.mOnConnected = true → (∀ t ∈ h, InTurn cfg t) →
        DisconnectsMatched s.log) := by
  refine ⟨?_, ?_, fun hset hturn => ?_⟩
  · -- by transition: in each one the two sides agree
    have hall : ∀ t ∈ h, (NoticeObeyed t ∧ EndReported t ↔ Heard cfg t) := by
      intro t ht
      obtain ⟨hreach, hst⟩ := hr.mem_step t ht
      exact obeyed_and_reported_iff hset
        (hreach.invariant latest_initial fun _ _ _ => latest_step) hst
    exact forall₂_congr hall
  · intro e
    have hd := hr.invariant delivered_initial fun _ _ _ => delivered_step
    rw [hd.started, List.count_eq_countP]
    rfl
  · -- the calls are matched by what each step adds, while the steps are in turn
    have hinv : Delivered s ∧ Balanced s ∧ DisconnectsMatched s.log :=
      hr.invariant_where (I := fun s => Delivered s ∧ Balanced s ∧ DisconnectsMatched s.log)
        (C := InTurn cfg) ⟨delivered_initial, balanced_initial, by exact trivial⟩
        (fun _ _ _ hs hst hC => ⟨delivered_step hs.1 hst, balanced_step hset hs.2.1 hst hC,
          matched_step hs.1 hs.2.1 hs.2.2 hst hC⟩) hturn
    exact hinv.2.2

/-- A connection is announced and lost. -/
theorem endings_reported_lost :
    ∃ h s, (system allCallbacks).Run h s ∧ s.io.mSession = none ∧
      s.handed = [.onDisconnected 1, .onConnected 1] ∧ (∀ t ∈ h, NoticeObeyed t ∧ EndReported t) ∧
      s.log.countP (LogEntry.starts (· = .onDisconnected 1)) = 1 ∧ DisconnectsMatched s.log := by
  obtain ⟨h, s, hr, hp⟩ := (system allCallbacks).exists_run_of_follow
    (p := fun h s => decide (s.io.mSession = none ∧ s.handed = [.onDisconnected 1, .onConnected 1] ∧
      waiting s (· = .onDisconnected 1) = 0 ∧
      ∀ t ∈ h, heard allCallbacks t = true ∧ inTurn allCallbacks t = true))
    [packet .connectionRequestAccepted, .pump true, .begin 0, .ret, packet .batch,
      .pump true, .pump true, .pump true, packet .connectionLost, .pump true, .begin 0, .ret]
    (by decide)
  obtain ⟨hsession, hhanded, hnone, hall⟩ := of_decide_eq_true hp
  obtain ⟨hreported, hcalled, hmatched⟩ := endings_reported rfl hr
  have hcount := hcalled (.onDisconnected 1)
  rw [hnone, hhanded] at hcount
  exact ⟨h, s, hr, hsession, hhanded, hreported.mpr fun t ht => .of_eval (hall t ht).1, hcount,
    hmatched rfl fun t ht => .of_eval (hall t ht).2⟩

/-! ### An end that is not reported -/

/-- All callbacks but those for packets set, and one packet a second. -/
def oneAPacketASecond : Settings := ⟨⟨true, true, true, false, false, false, true⟩, 8388608, 1⟩

/-- The second packet of a second ends the connection, and `mOnDisconnected` is not
called. -/
theorem ending_unreported :
    ∃ h s, (system oneAPacketASecond).Run h s ∧ s.io.mSession = none ∧ s.pump = [] ∧
      s.mCallbackStrand.mTasks = [] ∧
      s.log = [.ret (.onConnected 1), .start (.event (.onConnected 1))] ∧
      ¬ ∀ t ∈ h, NoticeObeyed t ∧ EndReported t := by
  obtain ⟨h, s, hr, hp⟩ := (system oneAPacketASecond).exists_run_of_follow
    (p := fun h s => decide (s.io.mSession = none ∧ s.pump = [] ∧ s.mCallbackStrand.mTasks = [] ∧
      s.log = [.ret (.onConnected 1), .start (.event (.onConnected 1))] ∧
      ∃ t ∈ h, t.label = packet .other ∧ t.src.io.mSession = some 1 ∧ t.dst.io.mSession = none ∧
        t.dst.handed = t.src.handed))
    [packet .connectionRequestAccepted, .pump true, .begin 0, .ret, packet .other, packet .other]
    (by decide)
  obtain ⟨hsession, hpump, htasks, hlog, t, ht, hl, hsrc, hdst, hhanded⟩ := of_decide_eq_true hp
  refine ⟨h, s, hr, hsession, hpump, htasks, hlog, fun hall => ?_⟩
  have hreported := (hall t ht).2 _ _ _ 1 hl hsrc hdst
  rw [hhanded] at hreported
  exact List.cons_ne_self _ _ hreported.symm

end ClientEvents
end SculkProtocol
