import SculkProtocol.Server.Events
import SculkProtocol.Session.Dispatch

/-!
# One packet in three models

A strand task's `processSessionPacket` is followed in three models: `Sessions` has what
removes a session, `ServerEvents` when the callbacks are called, and `Session.Receiver`
what they are handed. Here they are compared, at one session context.

* `processSessionPacket_removal`: the first two count a packet in the same window, and
  remove the session for the same packets.
* `process_simulated`: what a receiver does with a message, the second model can do too,
  with the same calls in the same order; `messages_simulated` is this for any number of
  messages of a connection that goes on.
-/

namespace SculkProtocol
namespace ServerEvents

open Sessions (Context Packet removeSessionContext)
open Session (Receiver Reception Report PacketCallbacks MINECRAFT_BATCH_PACKET_ID)

variable {Guid : Type}

/-! ### Ingress windows -/

/-- The ingress window of one session context. -/
@[ext] structure Window where
  start : ℤ
  packets : ℕ

def Window.Over (w : Window) (now : ℤ) : Prop :=
  w.start = 0 ∨ now - w.start ≥ Sessions.RAW_INGRESS_WINDOW

instance (w : Window) (now : ℤ) : Decidable (w.Over now) := inferInstanceAs (Decidable (_ ∨ _))

/-- Begin a new window if the last one is over. -/
def Window.opened (w : Window) (now : ℤ) : Window := if w.Over now then ⟨now, 0⟩ else w

def Window.counted (w : Window) : Window := ⟨w.start, w.packets + 1⟩

def State.window (s : State Guid) (x : Context Guid) : Window :=
  ⟨s.mRawIngressWindowStart x, s.mRawIngressWindowPackets x⟩

def sessionWindow (s : Sessions.State Guid) (x : Context Guid) : Window :=
  ⟨s.mRawIngressWindowStart x, s.mRawIngressWindowPackets x⟩

def receiverWindow {C : PacketClasses} (r : Receiver C) : Window :=
  ⟨r.mRawIngressWindowStart, r.mRawIngressWindowPackets⟩

section

variable [DecidableEq Guid] {x : Context Guid}

/-- The window is opened in `ServerEvents`. -/
theorem window_openWindow (s : State Guid) (now : ℤ) :
    (s.openWindow x now).window x = (s.window x).opened now := by
  by_cases h : s.windowOver x now
  · have hover : (s.window x).Over now := h
    rw [State.openWindow, if_pos h, Window.opened, if_pos hover]
    simp [State.window]
  · have hover : ¬ (s.window x).Over now := h
    rw [State.openWindow, if_neg h, Window.opened, if_neg hover]

/-- A packet is counted there. -/
theorem window_countPacket (s : State Guid) :
    (s.countPacket x).window x = (s.window x).counted := by
  simp [State.countPacket, State.window, Window.counted]

/-- It is opened in `Sessions`. -/
theorem sessionWindow_openWindow (s : Sessions.State Guid) (now : ℤ) :
    sessionWindow (s.openWindow x now) x = (sessionWindow s x).opened now := by
  by_cases h : s.windowOver x now
  · have hover : (sessionWindow s x).Over now := h
    rw [Sessions.State.openWindow, if_pos h, Window.opened, if_pos hover]
    simp [sessionWindow]
  · have hover : ¬ (sessionWindow s x).Over now := h
    rw [Sessions.State.openWindow, if_neg h, Window.opened, if_neg hover]

/-- A packet is counted there. -/
theorem sessionWindow_countPacket (s : Sessions.State Guid) :
    sessionWindow (s.countPacket x) x = (sessionWindow s x).counted := by
  simp [Sessions.State.countPacket, sessionWindow, Window.counted]

end

/-- It is opened by a receiver. -/
theorem receiverWindow_openWindow {C : PacketClasses} (r : Receiver C) (now : ℤ) :
    receiverWindow (r.openWindow now) = (receiverWindow r).opened now := by
  by_cases h : r.WindowOver now
  · have hover : (receiverWindow r).Over now := h
    rw [Receiver.openWindow, if_pos h, Window.opened, if_pos hover]
    rfl
  · have hover : ¬ (receiverWindow r).Over now := h
    rw [Receiver.openWindow, if_neg h, Window.opened, if_neg hover]

/-! ### The removal of a session -/

/-- Both servers have the same limits, and a callback for what exceeds them or none. -/
structure SameLimits (cfg : Settings) (cfg' : Sessions.Settings Guid) : Prop where
  bytes : cfg.mRawIngressMaxPacketBytes = cfg'.mRawIngressMaxPacketBytes
  rate : cfg.mRawIngressMaxPacketsPerSecond = cfg'.mRawIngressMaxPacketsPerSecond
  callback : cfg.mCallbacks.mOnRawIngressLimitExceeded = cfg'.mOnRawIngressLimitExceeded

/-- The removal that `Sessions` has for an operation. -/
def removal : Op Guid → List (Sessions.Op Guid)
  | .eraseContext g (.limit _ x) | .eraseContext g (.notice _ x) =>
    [removeSessionContext g (.packet x)]
  | _ => []

variable [DecidableEq Guid]

/-- **The session is removed for the same packets** in `Sessions` and here, and a packet is
counted in the same window. -/
theorem processSessionPacket_removal {cfg : Settings} {cfg' : Sessions.Settings Guid}
    {s : State Guid} {s' : Sessions.State Guid} {x : Context Guid} {ch : Choice}
    {ch' : Sessions.Choice} (p : Packet Guid) (hlimits : SameLimits cfg cfg')
    (hwindow : s.window x = sessionWindow s' x) (hok : ch.ok = ch'.ok) (hnow : ch.now = ch'.now) :
    (processSessionPacket cfg s p x ch).1.window x =
      sessionWindow (Sessions.processSessionPacket cfg' s' p x ch').1 x ∧
    (processSessionPacket cfg s p x ch).2.flatMap removal =
      (Sessions.processSessionPacket cfg' s' p x ch').2 := by
  have hask : cfg.shouldDisconnect ch = cfg'.shouldDisconnect ch' := by
    rw [Settings.shouldDisconnect, Sessions.Settings.shouldDisconnect, hlimits.callback, hok]
  have hopen : (s.openWindow x ch.now).window x = sessionWindow (s'.openWindow x ch'.now) x := by
    rw [window_openWindow, sessionWindow_openWindow, hwindow, hnow]
  have hcount : ((s.openWindow x ch.now).countPacket x).window x =
      sessionWindow ((s'.openWindow x ch'.now).countPacket x) x := by
    rw [window_countPacket, sessionWindow_countPacket, hopen]
  have hpackets : (s.openWindow x ch.now).mRawIngressWindowPackets x =
      (s'.openWindow x ch'.now).mRawIngressWindowPackets x := congrArg Window.packets hopen
  unfold processSessionPacket Sessions.processSessionPacket
  dsimp only
  rw [hlimits.bytes, hlimits.rate, hask, hpackets]
  by_cases hbytes : p.length > cfg'.mRawIngressMaxPacketBytes
  · rw [if_pos hbytes, if_pos hbytes]
    refine ⟨hwindow, ?_⟩
    cases cfg'.shouldDisconnect ch' <;> rfl
  · rw [if_neg hbytes, if_neg hbytes]
    by_cases hrate : (s'.openWindow x ch'.now).mRawIngressWindowPackets x ≥
        cfg'.mRawIngressMaxPacketsPerSecond
    · rw [if_pos hrate, if_pos hrate]
      refine ⟨hopen, ?_⟩
      cases cfg'.shouldDisconnect ch' <;> rfl
    · rw [if_neg hrate, if_neg hrate]
      -- a notice, or a packet of which the payloads are dispatched
      cases hid : p.messageId with
      | disconnectionNotification | connectionLost =>
        have hnotice : isNotice p = true := by rw [isNotice, hid]
        rw [if_pos hnotice]
        exact ⟨hcount, rfl⟩
      | unconnectedPing | newIncomingConnection | other =>
        have hnotice : ¬ isNotice p = true := by rw [isNotice, hid]; exact Bool.false_ne_true
        rw [if_neg hnotice]
        cases ch.payloads with
        | none => exact ⟨hcount, rfl⟩
        | some payloads =>
          refine ⟨hcount, ?_⟩
          dsimp only
          split <;> rfl

/-! ### The payloads of a batch -/

/-- A thread's operations, executed one after another with no other thread in between. -/
inductive Executes (cfg : Settings) (producer : ℕ) :
    State Guid → List (Op Guid) → State Guid → Prop
  | nil (s : State Guid) : Executes cfg producer s [] s
  | cons {s s' : State Guid} {op : Op Guid} {ops : List (Op Guid)} (ch : Choice) :
      Executes cfg producer (execOp cfg s producer ch op).1
        ((execOp cfg s producer ch op).2 ++ ops) s' →
      Executes cfg producer s (op :: ops) s'

/-- First some operations, then others. -/
theorem Executes.append {cfg : Settings} {producer : ℕ} {s s' s'' : State Guid}
    {ops others : List (Op Guid)} (h : Executes cfg producer s ops s')
    (hothers : Executes cfg producer s' others s'') :
    Executes cfg producer s (ops ++ others) s'' := by
  induction h with
  | nil s => exact hothers
  | cons ch _ ih =>
    have hrest := ih hothers
    rw [List.append_assoc] at hrest
    exact .cons ch hrest

section

variable {C : PacketClasses}

/-- What `ServerEvents` knows of a payload. -/
def payloadKind (C : PacketClasses) (payload : Bytes) : Payload :=
  match MinecraftPackets.readPacketHeader (.ofBuffer payload) with
  | (_, .error _) => .noHeader
  | (stream, .ok header) =>
    match (MinecraftPackets.readAndCreatePacketFromHeader C header stream).2 with
    | .ok _ => .readable
    | .error _ => .unreadable

/-- The payloads as they are parsed, from a number on. -/
def payloadKinds (C : PacketClasses) (callbacks : PacketCallbacks) (n : ℕ) (payloads : List Bytes) :
    List Payload :=
  (payloads.zipIdx n).map fun payload => payloadKind C (Session.payloadLeft callbacks payload)

/-- The call that a report is about, if `ServerEvents` has it. -/
def reportCall (x : Context Guid) : Report C → Option (Callback Guid)
  | .rawReceived _ => some (.onRawPacketReceive x)
  | .received _ => some (.onPacketReceive x)
  | .parseFailed _ _ => some (.onPacketParseFailed x)
  | .enqueued _ | .terminated _ | .limitExceeded _ _ => none

/-- The calls after some reports, latest first. -/
def State.addCalls (s : State Guid) (x : Context Guid) (reports : List (Report C)) : State Guid :=
  { s with calls := (reports.filterMap (reportCall x)).reverse ++ s.calls }

omit [DecidableEq Guid] in
/-- The calls of some reports, and then of others. -/
theorem State.addCalls_append (s : State Guid) (x : Context Guid)
    (reports others : List (Report C)) :
    s.addCalls x (reports ++ others) = (s.addCalls x reports).addCalls x others := by
  simp [State.addCalls]

omit [DecidableEq Guid] in
/-- The call of one report, and then of the others. -/
theorem State.addCalls_cons (s : State Guid) (x : Context Guid) (report : Report C)
    (reports : List (Report C)) :
    s.addCalls x (report :: reports) = (s.addCalls x [report]).addCalls x reports :=
  s.addCalls_append x [report] reports

/-- The settings of a server are those of a reception. -/
structure Settings.Matches (cfg : Settings) (R : Reception) : Prop where
  mOnPacketReceive : cfg.mCallbacks.mOnPacketReceive = R.callbacks.mOnPacketReceive
  mOnRawPacketReceive :
    cfg.mCallbacks.mOnRawPacketReceive = R.callbacks.mOnRawPacketReceive.isSome
  mOnPacketParseFailed : cfg.mCallbacks.mOnPacketParseFailed = R.callbacks.mOnPacketParseFailed
  mOnRawIngressLimitExceeded :
    cfg.mCallbacks.mOnRawIngressLimitExceeded = R.callbacks.mOnRawIngressLimitExceeded.isSome
  bytes : cfg.mRawIngressMaxPacketBytes = R.mRawIngressMaxPacketBytes
  rate : cfg.mRawIngressMaxPacketsPerSecond = R.mRawIngressMaxPacketsPerSecond

variable {cfg : Settings} {R : Reception} {producer : ℕ} {x : Context Guid}

/-- A payload that is parsed, without an exception. -/
theorem parse_simulated (producer : ℕ) (x : Context Guid) (hcfg : cfg.Matches R) (s : State Guid)
    (payload : Bytes)
    (others : List (Report C))
    (hthrow : ∀ failure, Report.terminated failure ∉ Session.parsePayload R.callbacks
      payload others) :
    ∃ reports, Session.parsePayload R.callbacks payload others = reports ++ others ∧
      ∀ ch, execOp cfg s producer ch (.parse x (payloadKind C payload)) =
        (s.addCalls x reports, []) := by
  -- a header that cannot be read and a packet that cannot be read are reported alike
  have hfailed : ∀ kind packetId message, kind = Payload.noHeader ∨ kind = Payload.unreadable →
      ∀ ch, execOp cfg s producer ch (.parse x kind) =
        (s.addCalls x (Session.reportFailure (C := C) R.callbacks packetId message), []) := by
    intro kind packetId message hkind ch
    rcases hkind with rfl | rfl
    all_goals
      simp only [execOp, Session.reportFailure, hcfg.mOnPacketParseFailed]
      cases R.callbacks.mOnPacketParseFailed <;> rfl
  unfold Session.parsePayload payloadKind at *
  cases hheader : MinecraftPackets.readPacketHeader (.ofBuffer payload) with
  | mk stream header =>
    rw [hheader] at hthrow
    cases header with
    | error message => exact ⟨_, rfl, hfailed _ _ _ (Or.inl rfl)⟩
    | ok header =>
      dsimp only at hthrow ⊢
      cases hpacket : (MinecraftPackets.readAndCreatePacketFromHeader C header stream).2 with
      | ok packet => exact ⟨[.received packet], rfl, fun ch => rfl⟩
      | error failure =>
        rw [hpacket] at hthrow
        cases failure with
        | error message => exact ⟨_, rfl, hfailed _ _ _ (Or.inr rfl)⟩
        -- the two failures that are exceptions
        | lengthError => exact absurd List.mem_cons_self (hthrow _)
        | signedOverflow => exact absurd List.mem_cons_self (hthrow _)

/-- The payloads of a batch, without an exception. -/
theorem dispatch_simulated (hcfg : cfg.Matches R) (s : State Guid) (n : ℕ) (payloads : List Bytes)
    (hthrow : ∀ failure, Report.terminated failure ∉
      (Session.dispatch R.callbacks n payloads : List (Report C))) :
    Executes cfg producer s [.dispatch x (payloadKinds C R.callbacks n payloads)]
      (s.addCalls x (Session.dispatch R.callbacks n payloads : List (Report C))) := by
  induction payloads generalizing s n with
  | nil => exact .cons {} (.nil s)
  | cons payload payloads ih =>
    have hkinds : payloadKinds C R.callbacks n (payload :: payloads) =
        payloadKind C (Session.payloadLeft R.callbacks (payload, n)) ::
          payloadKinds C R.callbacks (n + 1) payloads := by
      rw [payloadKinds, List.zipIdx_cons, List.map_cons, payloadKinds]
    -- a payload that is parsed, and then the others
    have hparsed : ∀ s : State Guid, (∀ failure, Report.terminated failure ∉
        Session.parsePayload R.callbacks (Session.payloadLeft R.callbacks (payload, n))
          (Session.dispatch R.callbacks (n + 1) payloads : List (Report C))) →
        Executes cfg producer s
          [.parse x (payloadKind C (Session.payloadLeft R.callbacks (payload, n))),
            .dispatch x (payloadKinds C R.callbacks (n + 1) payloads)]
          (s.addCalls x (Session.parsePayload R.callbacks
            (Session.payloadLeft R.callbacks (payload, n))
              (Session.dispatch R.callbacks (n + 1) payloads : List (Report C)))) := by
      intro s hthrow
      obtain ⟨reports, hreports, hexec⟩ := parse_simulated producer x hcfg s _ _ hthrow
      rw [hreports] at hthrow ⊢
      rw [State.addCalls_append]
      refine .cons {} ?_
      rw [hexec]
      exact ih _ _ fun failure hmem => hthrow failure (List.mem_append_right _ hmem)
    rw [hkinds]
    rw [Session.dispatch] at hthrow ⊢
    cases hreceive : R.callbacks.mOnPacketReceive with
    | false =>
      -- without `mOnPacketReceive` the payload is enqueued for the user
      rw [hreceive, if_neg Bool.false_ne_true] at hthrow
      rw [if_neg Bool.false_ne_true]
      refine .cons {} ?_
      simp only [execOp, hcfg.mOnPacketReceive, hreceive, Bool.false_eq_true, if_false]
      exact ih s (n + 1) fun failure hmem => hthrow failure (List.mem_cons_of_mem _ hmem)
    | true =>
      rw [hreceive, if_pos rfl] at hthrow
      rw [if_pos rfl]
      cases hraw : R.callbacks.mOnRawPacketReceive with
      | none =>
        -- nobody has asked for the raw payload, which is parsed as it came
        have hleft : Session.payloadLeft R.callbacks (payload, n) = payload :=
          Session.payloadLeft_of_none hraw
        rw [hleft] at hparsed ⊢
        rw [hraw] at hthrow
        refine .cons {} ?_
        simp only [execOp, hcfg.mOnPacketReceive, hreceive, hcfg.mOnRawPacketReceive, hraw,
          Option.isSome_none, Bool.false_eq_true, if_true, if_false]
        exact hparsed s hthrow
      | some receive =>
        have hleft : Session.payloadLeft R.callbacks (payload, n) = (receive n payload).2 :=
          Session.payloadLeft_of_some hraw
        rw [hleft] at hparsed ⊢
        rw [hraw] at hthrow
        dsimp only
        rw [State.addCalls_cons]
        refine .cons { ok := (receive n payload).1 } ?_
        simp only [execOp, hcfg.mOnPacketReceive, hreceive, hcfg.mOnRawPacketReceive, hraw,
          Option.isSome_some, if_true]
        cases hanswer : (receive n payload).1 with
        | false =>
          -- the raw callback keeps the payload from being parsed
          simp only [hanswer, Bool.false_eq_true, if_false] at hthrow ⊢
          exact ih (s.addCalls x [.rawReceived payload]) (n + 1)
            fun failure hmem => hthrow failure (List.mem_cons_of_mem _ hmem)
        | true =>
          simp only [hanswer, if_true] at hthrow ⊢
          exact hparsed (s.addCalls x [.rawReceived payload])
            fun failure hmem => hthrow failure (List.mem_cons_of_mem _ hmem)

/-! ### A message of a session -/

/-- A message as RakNet hands it out. -/
structure Carries (R : Reception) (p : Packet Guid) (messageId : UInt8) (body : Bytes) : Prop where
  length : p.length = body.length + 1
  notice : isNotice p = true ↔
    messageId = R.ids.ID_DISCONNECTION_NOTIFICATION ∨ messageId = R.ids.ID_CONNECTION_LOST

/-- A server has the window of a receiver, and has made its calls after some others. -/
structure Simulates (x : Context Guid) (before : List (Callback Guid)) (r : Receiver C)
    (s : State Guid) : Prop where
  window : s.window x = receiverWindow r
  calls : s.calls = (r.reports.filterMap (reportCall x)).reverse ++ before

variable {E : Evp} {L : Codecs} {calls : EvpCalls} {p : Packet Guid} {messageId : UInt8}
  {body : Bytes} {r : Receiver C} {s : State Guid} {before : List (Callback Guid)}

/-- What is left to do after the first steps of a task: the session is removed, or the task
executes its other operations. -/
def Outcome (cfg : Settings) (producer : ℕ) (p : Packet Guid) (r r' : Receiver C)
    (next : State Guid × List (Op Guid)) (s' : State Guid) : Prop :=
  (∃ after, next.2 = [.eraseContext p.guid after] ∧ r'.ended = true ∧ s' = next.1) ∨
    (r'.ended = r.ended ∧ Executes cfg producer next.1 next.2 s')

/-- What a receiver makes of a batch, as far as `ServerEvents` knows it. -/
def decodedKinds (E : Evp) (L : Codecs) (calls : EvpCalls) (R : Reception) (r : Receiver C)
    (body : Bytes) : Option (List Payload) :=
  (Session.deserializeBatchPackets E (compression.decompressors L) calls r.session
    body).2.toOption.map
    (payloadKinds C R.callbacks r.count)

/-- What the step of a task depends on where a receiver processes a message. -/
def messageChoice (E : Evp) (L : Codecs) (calls : EvpCalls) (R : Reception) (r : Receiver C)
    (messageId : UInt8) (body : Bytes) : Choice where
  ok := R.callbacks.mOnRawIngressLimitExceeded.elim true (· r.messages)
  now := R.now r.messages
  payloads :=
    if messageId = MINECRAFT_BATCH_PACKET_ID then decodedKinds E L calls R r body else none

omit [DecidableEq Guid] in
/-- A message over a limit is reported, and no callback of a packet is called. -/
theorem refuse_simulated (hcfg : cfg.Matches R) (h : Simulates x before r s) (packetBytes : ℕ)
    {ch : Choice} (hok : ch.ok = R.callbacks.mOnRawIngressLimitExceeded.elim true (· r.messages)) :
    Simulates x before { r.refuse R.callbacks packetBytes with messages := r.messages + 1 } s ∧
      (r.refuse R.callbacks packetBytes).ended = (r.ended || cfg.shouldDisconnect ch) := by
  unfold Receiver.refuse Settings.shouldDisconnect
  rw [hcfg.mOnRawIngressLimitExceeded, hok]
  cases R.callbacks.mOnRawIngressLimitExceeded with
  | none => exact ⟨⟨h.window, h.calls⟩, by simp⟩
  | some ends =>
    refine ⟨⟨h.window, ?_⟩, by simp⟩
    simp [h.calls, reportCall]

/-- So the session is removed, or nothing is left to do. -/
theorem refuse_outcome (hcfg : cfg.Matches R) (h : Simulates x before r s) (packetBytes : ℕ)
    {ch : Choice} (hok : ch.ok = R.callbacks.mOnRawIngressLimitExceeded.elim true (· r.messages)) :
    ∃ s',
      Simulates x before { r.refuse R.callbacks packetBytes with messages := r.messages + 1 } s' ∧
      Outcome cfg producer p r { r.refuse R.callbacks packetBytes with messages := r.messages + 1 }
        (s, if cfg.shouldDisconnect ch then [.eraseContext p.guid (.limit p x)] else []) s' := by
  obtain ⟨hsame, hended⟩ := refuse_simulated hcfg h packetBytes hok
  refine ⟨s, hsame, ?_⟩
  cases hask : cfg.shouldDisconnect ch with
  | false =>
    rw [hask, Bool.or_false] at hended
    exact Or.inr ⟨hended, .nil s⟩
  | true =>
    rw [hask, Bool.or_true] at hended
    exact Or.inl ⟨_, rfl, hended, rfl⟩

/-- The payloads of a message that is counted. -/
theorem deliver_outcome (producer : ℕ) (hcfg : cfg.Matches R) (h : Simulates x before r s)
    (hthrow : ∀ failure,
      Report.terminated failure ∉ (r.deliver E L calls R.callbacks body).reports) :
    ∃ s', Simulates x before
      { r.deliver E L calls R.callbacks body with messages := r.messages + 1 } s' ∧
      (r.deliver E L calls R.callbacks body).ended = r.ended ∧
      Executes cfg producer s
        ((decodedKinds E L calls R r body).elim [] fun payloads => [.dispatch x payloads]) s' := by
  unfold decodedKinds
  unfold Receiver.deliver at hthrow ⊢
  dsimp only at hthrow ⊢
  cases hdecoded : (Session.deserializeBatchPackets E (compression.decompressors L) calls r.session
    body).2 with
  | error message => exact ⟨s, ⟨h.window, h.calls⟩, rfl, .nil s⟩
  | ok packets =>
    rw [hdecoded] at hthrow
    refine ⟨s.addCalls x (Session.dispatch R.callbacks r.count packets : List (Report C)),
      ⟨h.window, ?_⟩, rfl, ?_⟩
    · simp [State.addCalls, h.calls]
    · exact dispatch_simulated hcfg s r.count packets fun failure hmem =>
        hthrow failure (List.mem_append_right _ hmem)

/-- Both open the window. -/
theorem Simulates.openWindow (h : Simulates x before r s) (now : ℤ) :
    Simulates x before (r.openWindow now) (s.openWindow x now) := by
  refine ⟨?_, ?_⟩
  · rw [window_openWindow, receiverWindow_openWindow, h.window]
  · obtain ⟨start, packets, hopen⟩ := r.openWindow_eq now
    have hcalls : (s.openWindow x now).calls = s.calls := by
      unfold State.openWindow
      split <;> rfl
    rw [hopen, hcalls]
    exact h.calls

/-- Both count a packet. -/
theorem Simulates.countPacket (h : Simulates x before r s) :
    Simulates x before r.countPacket (s.countPacket x) := by
  refine ⟨?_, h.calls⟩
  rw [window_countPacket, h.window]
  rfl

/-- **What a receiver does with a message**, a strand task can do with its packet: the calls of
callbacks are the same, in the same order, and so is the window. The session is removed where
the receiver ends the connection. -/
theorem process_simulated (producer : ℕ) (hcfg : cfg.Matches R) (hp : Carries R p messageId body)
    (h : Simulates x before r s)
    (hthrow : ∀ failure,
      Report.terminated failure ∉ (r.process E L calls R messageId body).reports) :
    ∃ s', Simulates x before (r.process E L calls R messageId body) s' ∧
      Outcome cfg producer p r (r.process E L calls R messageId body)
        (processSessionPacket cfg s p x (messageChoice E L calls R r messageId body)) s' := by
  have hopened := h.openWindow (R.now r.messages)
  have hpackets : (s.openWindow x (R.now r.messages)).mRawIngressWindowPackets x =
      (r.openWindow (R.now r.messages)).mRawIngressWindowPackets :=
        congrArg Window.packets hopened.window
  have hnow : (messageChoice E L calls R r messageId body).now = R.now r.messages := rfl
  unfold Receiver.process processSessionPacket at *
  dsimp only at hthrow ⊢
  rw [hcfg.bytes, hcfg.rate, hp.length, hnow, hpackets]
  by_cases hbytes : body.length + 1 > R.mRawIngressMaxPacketBytes
  · -- too long
    rw [if_pos hbytes, if_pos hbytes]
    exact refuse_outcome hcfg h _ rfl
  rw [if_neg hbytes] at hthrow
  rw [if_neg hbytes, if_neg hbytes]
  -- what the receiver knows besides its window is as before
  obtain ⟨start, packets, hopen⟩ := r.openWindow_eq (R.now r.messages)
  rw [hopen] at hopened hthrow ⊢
  generalize s.openWindow x (R.now r.messages) = s at hopened
  by_cases hrate : packets ≥ R.mRawIngressMaxPacketsPerSecond
  · -- too many in the window that is open now
    rw [if_pos hrate, if_pos hrate]
    exact refuse_outcome hcfg hopened _ rfl
  rw [if_neg hrate] at hthrow
  rw [if_neg hrate, if_neg hrate]
  have hcounted := hopened.countPacket
  by_cases hnotice : messageId = R.ids.ID_DISCONNECTION_NOTIFICATION ∨
    messageId = R.ids.ID_CONNECTION_LOST
  · -- a notice ends the connection, and the session is removed
    rw [if_pos hnotice, if_pos (hp.notice.mpr hnotice)]
    exact ⟨_, ⟨hcounted.window, hcounted.calls⟩, Or.inl ⟨_, rfl, rfl, rfl⟩⟩
  rw [if_neg hnotice] at hthrow
  rw [if_neg hnotice, if_neg fun hmem => hnotice (hp.notice.mp hmem)]
  by_cases hbatch : messageId ≠ MINECRAFT_BATCH_PACKET_ID ∨ body.length + 1 ≤ 1
  · -- neither a notice nor a batch, or an empty one: the packet is only counted
    rw [if_pos hbatch]
    refine ⟨s.countPacket x, ⟨hcounted.window, hcounted.calls⟩, Or.inr ⟨rfl, ?_⟩⟩
    have hnone : (messageChoice E L calls R r messageId body).payloads = none ∨
        body.length + 1 ≤ 1 :=
      hbatch.imp_left fun hid => if_neg hid
    cases hpayloads : (messageChoice E L calls R r messageId body).payloads with
    | none => exact .nil _
    | some payloads =>
      rw [hpayloads] at hnone
      dsimp only
      rw [if_pos (hnone.resolve_left (Option.some_ne_none _))]
      exact .nil _
  · -- a batch, whose payloads the task dispatches if it can be decoded
    rw [if_neg hbatch] at hthrow ⊢
    rw [not_or, not_not] at hbatch
    obtain ⟨rfl, hlength⟩ := hbatch
    obtain ⟨s', hsame, hended, hexec⟩ := deliver_outcome producer hcfg hcounted hthrow
    refine ⟨s', hsame, Or.inr ⟨hended, ?_⟩⟩
    have hpayloads : (messageChoice E L calls R r MINECRAFT_BATCH_PACKET_ID body).payloads =
        decodedKinds E L calls R r body := by
      rw [messageChoice, if_pos rfl]
    -- the window is no part of what is decoded
    change Executes cfg producer _ ((decodedKinds E L calls R r body).elim _ _) s' at hexec
    rw [hpayloads]
    cases hkinds : decodedKinds E L calls R r body with
    | none =>
      rw [hkinds] at hexec
      exact hexec
    | some payloads =>
      rw [hkinds] at hexec
      dsimp only
      rw [if_neg hlength]
      exact hexec

/-! ### Any number of messages -/

/-- A message with its packet, and how the calls of OpenSSL come out. -/
structure Message (Guid : Type) where
  packet : Packet Guid
  messageId : UInt8
  body : Bytes
  calls : EvpCalls

def processAll (E : Evp) (L : Codecs) (R : Reception) (r : Receiver C)
    (messages : List (Message Guid)) :
    Receiver C :=
  messages.foldl (fun r m => r.process E L m.calls R m.messageId m.body) r

/-- A connection that was ended stays so, and what was reported stays reported. -/
theorem process_mono (E : Evp) (L : Codecs) (calls : EvpCalls) (R : Reception) (r : Receiver C)
    (messageId : UInt8) (body : Bytes) :
    (r.ended = true → (r.process E L calls R messageId body).ended = true) ∧
      r.reports <+: (r.process E L calls R messageId body).reports := by
  obtain ⟨start, packets, hopen⟩ := r.openWindow_eq (R.now r.messages)
  have hrefuse : ∀ r' : Receiver C, r'.ended = r.ended → r'.reports = r.reports →
      (r.ended = true → (r'.refuse R.callbacks (body.length + 1)).ended = true) ∧
        r.reports <+: (r'.refuse R.callbacks (body.length + 1)).reports := by
    intro r' hended hreports
    unfold Receiver.refuse
    rw [← hended, ← hreports]
    split
    · exact ⟨fun h => Bool.or_eq_true_iff.mpr (Or.inl h), List.prefix_append _ _⟩
    · exact ⟨fun _ => rfl, List.prefix_rfl⟩
  unfold Receiver.process
  dsimp only
  rw [hopen]
  split
  · -- over the size limit
    exact hrefuse r rfl rfl
  · split
    · -- over the rate limit
      exact hrefuse _ rfl rfl
    · split
      · -- the peer has left
        exact ⟨fun _ => rfl, List.prefix_rfl⟩
      · split
        · -- not a batch
          exact ⟨id, List.prefix_rfl⟩
        · unfold Receiver.deliver
          dsimp only
          split
          · exact ⟨id, List.prefix_rfl⟩
          · exact ⟨id, List.prefix_append _ _⟩

omit [DecidableEq Guid] in
/-- So it is after any number of messages. -/
theorem processAll_mono (E : Evp) (L : Codecs) (R : Reception) (messages : List (Message Guid))
    (r : Receiver C) :
    (r.ended = true → (processAll E L R r messages).ended = true) ∧
      r.reports <+: (processAll E L R r messages).reports := by
  induction messages generalizing r with
  | nil => exact ⟨id, List.prefix_rfl⟩
  | cons m messages ih =>
    have hfirst := process_mono E L m.calls R r m.messageId m.body
    obtain ⟨hended, hreports⟩ := ih (r.process E L m.calls R m.messageId m.body)
    exact ⟨fun h => hended (hfirst.1 h), hfirst.2.trans hreports⟩

/-- **The messages of a connection that goes on** are worked on by as many strand tasks, with the
calls that the receiver reports. -/
theorem messages_simulated (producer : ℕ) (hcfg : cfg.Matches R) {messages : List (Message Guid)}
    (hmessages : ∀ m ∈ messages, Carries R m.packet m.messageId m.body) (h : Simulates x before r s)
    (hended : (processAll E L R r messages).ended = false)
    (hthrow : ∀ failure, Report.terminated failure ∉ (processAll E L R r messages).reports) :
    ∃ s', Simulates x before (processAll E L R r messages) s' ∧
      Executes cfg producer s (messages.map fun m => .processSessionPacket m.packet x) s' := by
  induction messages generalizing r s with
  | nil => exact ⟨s, h, .nil s⟩
  | cons m messages ih =>
    have hrest := processAll_mono E L R messages (r.process E L m.calls R m.messageId m.body)
    obtain ⟨s', hsame, houtcome⟩ := process_simulated producer hcfg
      (hmessages m List.mem_cons_self) h (fun failure hmem => hthrow failure (hrest.2.subset hmem))
    rcases houtcome with ⟨_, -, hended', -⟩ | ⟨-, hexec⟩
    · -- the connection would not go on
      exact absurd ((hrest.1 hended').symm.trans hended) (by decide)
    · obtain ⟨s'', hsame', hexec'⟩ :=
        ih (fun m' hm' => hmessages m' (List.mem_cons_of_mem _ hm')) hsame hended hthrow
      exact ⟨s'', hsame', .cons _ (hexec.append hexec')⟩

end

end ServerEvents
end SculkProtocol
