import SculkProtocol.Server.Sessions
import SculkProtocol.Thread.Strand

/-!
# Callbacks of `ServerNetworkSystem`

When a server calls its user about a session: `mOnConnected` when the I/O thread has
inserted the context, `mOnRawPacketReceive`, `mOnPacketReceive` and `mOnPacketParseFailed`
while a strand task works on a packet, and `mOnDisconnected` after some of the removals of
the context. Events are tasks of the session's strand, or are called in place when the
strand refuses them; a packet that the strand refuses is dropped.

A thread is a script of operations (`Op`), as in `Server.Sessions`, whose registry of
contexts, packets and ingress window are used here. What is added is the strands
(`Thread.Strand`, one for each context) and the calls in the order in which they start
(`State.calls`). What is left out is the flush schedule, the send path, and the counter of
session tasks.

What the model leaves open:

* which messages arrive, what the clock reads, what user callbacks answer, which task a
  strand refuses, what a session makes of a batch;
* user code: it may call `disconnectClient` for any GUID, and `disconnect` on any session
  (as does the destructor of one), at any time;
* `stop`: its teardown may remove contexts at any time, and the I/O thread goes on, which
  covers a `start` after it.

The I/O thread is the producer 0. The callbacks are set before the server is started.
-/

namespace SculkProtocol
namespace ServerEvents

open Sessions

variable {Guid : Type}

/-- What `MinecraftPackets` makes of a payload. -/
inductive Payload
  /-- `readPacketHeader` fails -/
  | noHeader
  /-- `readAndCreatePacketFromHeader` fails -/
  | unreadable
  | readable
  deriving DecidableEq

/-- The calls of user callbacks about a session. -/
inductive Callback (Guid : Type)
  | onConnected (x : Context Guid)
  | onDisconnected (x : Context Guid)
  | onRawPacketReceive (x : Context Guid)
  | onPacketReceive (x : Context Guid)
  | onPacketParseFailed (x : Context Guid)
  deriving DecidableEq

/-- `CallbackSet`: which callbacks are set. -/
structure CallbackSet where
  mOnConnected : Bool
  mOnDisconnected : Bool
  mOnPacketReceive : Bool
  mOnPacketParseFailed : Bool
  mOnRawPacketReceive : Bool
  mOnRawIngressLimitExceeded : Bool

/-- What does not change while the server runs. -/
structure Settings where
  mCallbacks : CallbackSet
  mRawIngressMaxPacketBytes : ℕ
  mRawIngressMaxPacketsPerSecond : ℕ

/-- The tasks of a session's strand. -/
inductive Task (Guid : Type)
  /-- call `mOnConnected` -/
  | onConnected
  /-- call `mOnDisconnected` -/
  | onDisconnected
  /-- `processSessionPacket` -/
  | packet (p : Packet Guid)
  /-- the flush of `flushTickOnce` -/
  | flush
  deriving DecidableEq

/-- Why a context is removed, and what follows. -/
inductive After (Guid : Type)
  /-- an empty packet; the session is disconnected already -/
  | discard
  /-- packet `p` of context `x` was over a limit -/
  | limit (p : Packet Guid) (x : Context Guid)
  /-- packet `p` of context `x` is a disconnection notice -/
  | notice (p : Packet Guid) (x : Context Guid)
  /-- `disconnectClient` -/
  | client
  /-- `disconnectAllSessionsForTeardown` -/
  | teardown
  deriving DecidableEq

/-- How a context has left the map of a running server. -/
inductive Removal
  | emptyPacket
  | limit
  | notice
  | client
  /-- a new context has taken its place -/
  | replacement
  deriving DecidableEq

/-- The removals of a running server. -/
def After.removal : After Guid → Option Removal
  | .discard => some .emptyPacket
  | .limit _ _ => some .limit
  | .notice _ _ => some .notice
  | .client => some .client
  | .teardown => none

structure State (Guid : Type) where
  /-- the I/O thread is in `processIncomingPacket` -/
  ioBusy : Bool
  registry : Registry Guid
  /-- `SessionContext::mStrand` -/
  strands : Context Guid → Strand (Task Guid)
  /-- the clock is 0 at `time_point{}` -/
  mRawIngressWindowStart : Context Guid → ℤ
  mRawIngressWindowPackets : Context Guid → ℕ
  /-- the disconnection notices that were delivered for a context, each with the number of
  tasks its strand had accepted up to then -/
  delivered : List (Context Guid × ℕ)
  /-- the contexts that have left the map while the server was running, and how -/
  removed : List (Context Guid × Removal)
  /-- latest first -/
  calls : List (Callback Guid)

/-- The accesses to shared state, and the calls of callbacks. -/
inductive Op (Guid : Type)
  | processIncomingPacket (p : Packet Guid)
  | upsertSessionContext (g : Guid)
  /-- `mStrand->enqueue`, and what is done instead when it refuses -/
  | enqueue (x : Context Guid) (t : Task Guid)
  /-- the I/O thread returns from `processIncomingPacket` -/
  | finishPacket
  /-- a strand task calls a callback -/
  | call (c : Callback Guid)
  /-- a callback is called where the strand has refused its task -/
  | callInPlace (c : Callback Guid)
  | processSessionPacket (p : Packet Guid) (x : Context Guid)
  /-- `removeSessionContext`: `erase_if` -/
  | eraseContext (g : Guid) (after : After Guid)
  /-- `Session::disconnect`: `mConnected.exchange(false)` -/
  | disconnect (x : Context Guid)
  /-- `processSessionPacket`: the loop over the payloads of a batch -/
  | dispatch (x : Context Guid) (payloads : List Payload)
  /-- `processSessionPacket`: a payload is read -/
  | parse (x : Context Guid) (payload : Payload)
  /-- a strand task returns -/
  | finishTask (x : Context Guid) (i : ℕ)
  /-- `disconnectAllSessionsForTeardown`: collect the contexts -/
  | collectContexts
  /-- `disconnectAllSessionsForTeardown`: collect the keys -/
  | collectKeys
  deriving DecidableEq

/-- A thread, tagged with its identity as a producer of tasks. -/
abbrev Thread (Guid : Type) := Script ℕ (Op Guid)

/-- What a step may depend on besides the state. -/
structure Choice where
  /-- the answer of the callback or strand asked in this step -/
  ok : Bool := true
  now : ℤ := 0
  /-- the payloads of a batch, or `none` if it is none or is not accepted -/
  payloads : Option (List Payload) := none
  deriving DecidableEq

/-- What arrives from outside. -/
inductive Call (Guid : Type)
  /-- `mPeer->Receive` returns a packet -/
  | receive (p : Packet Guid)
  /-- a worker begins the task of a strand that a dequeue takes -/
  | runTask (x : Context Guid) (position : ℕ) (worker : ℕ)
  | disconnectClient (g : Guid) (producer : ℕ)
  /-- a user calls `disconnect` on a session it holds, or a session is destroyed -/
  | disconnect (x : Context Guid)
  /-- `flushTickOnce` enqueues a flush -/
  | flush (x : Context Guid) (producer : ℕ)
  | stop (producer : ℕ)
  deriving DecidableEq

/-! ### Steps of threads -/

/-- `ID_DISCONNECTION_NOTIFICATION` or `ID_CONNECTION_LOST`. -/
def isNotice (p : Packet Guid) : Bool :=
  match p.messageId with
  | .disconnectionNotification | .connectionLost => true
  | _ => false

/-- The decision of `mOnRawIngressLimitExceeded`, if there is one. -/
def Settings.shouldDisconnect (cfg : Settings) (ch : Choice) : Bool :=
  if cfg.mCallbacks.mOnRawIngressLimitExceeded then ch.ok else true

/-- What a task of the strand of `x` does. -/
def Task.code (x : Context Guid) : Task Guid → List (Op Guid)
  | .onConnected => [.call (.onConnected x)]
  | .onDisconnected => [.call (.onDisconnected x)]
  | .packet p => [.processSessionPacket p x]
  | .flush => []

/-- What is done with a task that the strand of `x` has refused. -/
def Task.refused (x : Context Guid) : Task Guid → List (Op Guid)
  | .onConnected => [.callInPlace (.onConnected x)]
  | .onDisconnected => [.callInPlace (.onDisconnected x)]
  | .packet _ | .flush => []

/-- Whether the ingress window of `x` is over. -/
def State.windowOver (s : State Guid) (x : Context Guid) (now : ℤ) : Prop :=
  s.mRawIngressWindowStart x = 0 ∨ now - s.mRawIngressWindowStart x ≥ RAW_INGRESS_WINDOW

instance (s : State Guid) (x : Context Guid) (now : ℤ) : Decidable (s.windowOver x now) :=
  inferInstanceAs (Decidable (_ ∨ _))

def State.setRegistry (s : State Guid) (r : Registry Guid) : State Guid := { s with registry := r }

/-- Record a delivery, if the task is a disconnection notice. -/
def State.deliver (s : State Guid) (x : Context Guid) (t : Task Guid) : State Guid :=
  match t with
  | .packet p =>
    if isNotice p then { s with delivered := (x, (s.strands x).tasks.length) :: s.delivered } else s
  | _ => s

/-- The removals of a running server are recorded. -/
def State.recordRemoval (s : State Guid) (removed : Option (Context Guid)) (how : Option Removal) :
    State Guid :=
  match removed, how with
  | some x, some how => { s with removed := (x, how) :: s.removed }
  | _, _ => s

/-- `mOnDisconnected`, if it is set, goes to the strand of the removed context. -/
def notify (cfg : Settings) (x : Context Guid) : List (Op Guid) :=
  if cfg.mCallbacks.mOnDisconnected then [.enqueue x .onDisconnected] else []

/-- What follows the removal. -/
def After.next (cfg : Settings) (removed : Option (Context Guid)) : After Guid → List (Op Guid)
  | .discard | .teardown => []
  | .limit _ x => [.disconnect (removed.getD x)]
  | .notice _ x =>
    match removed with
    | some y => .disconnect y :: notify cfg y
    | none => [.disconnect x]
  | .client =>
    match removed with
    | some y => .disconnect y :: notify cfg y
    | none => []

variable [DecidableEq Guid]

def State.setStrand (s : State Guid) (x : Context Guid) (strand : Strand (Task Guid)) :
    State Guid :=
  { s with strands := Function.update s.strands x strand }

/-- Begin a new ingress window if the last one is over. -/
def State.openWindow (s : State Guid) (x : Context Guid) (now : ℤ) : State Guid :=
  if s.windowOver x now then
    { s with
      mRawIngressWindowStart := Function.update s.mRawIngressWindowStart x now
      mRawIngressWindowPackets := Function.update s.mRawIngressWindowPackets x 0 }
  else s

/-- Count a packet in the ingress window. -/
def State.countPacket (s : State Guid) (x : Context Guid) : State Guid :=
  { s with
    mRawIngressWindowPackets :=
      Function.update s.mRawIngressWindowPackets x (s.mRawIngressWindowPackets x + 1) }

/-- The I/O thread's dispatch. -/
def processIncomingPacket (cfg : Settings) (s : State Guid) (p : Packet Guid) (ch : Choice) :
    List (Op Guid) :=
  let sessionContext := s.registry.mSessionContexts p.guid
  if p.hasData = false ∨ p.length = 0 then
    -- an empty packet
    if cfg.shouldDisconnect ch then
      match sessionContext with
      | some x => [.disconnect x, .eraseContext p.guid .discard]
      | none => []
    else []
  else
    match p.messageId, sessionContext with
    | .unconnectedPing, _ => []
    | .newIncomingConnection, _ => [.upsertSessionContext p.guid]
    -- a packet of nobody
    | _, none => []
    | _, some x => [.enqueue x (.packet p)]

/-- A strand task's work on a packet, up to its removal of the session or the dispatch of
its payloads. -/
def processSessionPacket (cfg : Settings) (s : State Guid) (p : Packet Guid) (x : Context Guid)
    (ch : Choice) : State Guid × List (Op Guid) :=
  let limit := if cfg.shouldDisconnect ch then [.eraseContext p.guid (.limit p x)] else []
  if p.length > cfg.mRawIngressMaxPacketBytes then (s, limit)
  else
    let s := s.openWindow x ch.now
    if s.mRawIngressWindowPackets x ≥ cfg.mRawIngressMaxPacketsPerSecond then (s, limit)
    else if isNotice p then (s.countPacket x, [.eraseContext p.guid (.notice p x)])
    else
      -- nothing is dispatched of a packet that is no batch or not accepted
      match ch.payloads with
      | some payloads => (s.countPacket x, if p.length ≤ 1 then [] else [.dispatch x payloads])
      | none => (s.countPacket x, [])

/-- The next operation of a thread: the new state, and the operations that take its place. -/
def execOp (cfg : Settings) (s : State Guid) (producer : ℕ) (ch : Choice) :
    Op Guid → State Guid × List (Op Guid)
  | .processIncomingPacket p => (s, processIncomingPacket cfg s p ch)
  -- the entry of an earlier connection goes without a report
  | .upsertSessionContext g =>
    ((s.setRegistry (s.registry.upsert g)).recordRemoval (s.registry.mSessionContexts g)
        (some .replacement),
      if cfg.mCallbacks.mOnConnected then [.enqueue (s.registry.fresh g) .onConnected] else [])
  -- a refused notice is delivered in place, a refused packet is dropped
  | .enqueue x t =>
    if ch.ok then ((s.setStrand x ((s.strands x).enqueue producer t)).deliver x t, [])
    else (s.deliver x t, t.refused x)
  | .finishPacket => ({ s with ioBusy := false }, [])
  | .call c | .callInPlace c => ({ s with calls := c :: s.calls }, [])
  | .processSessionPacket p x => processSessionPacket cfg s p x ch
  | .eraseContext g after =>
    -- what `erase_if` has found decides whether anything is reported
    let removed := s.registry.mSessionContexts g
    ((s.setRegistry (s.registry.erase g)).recordRemoval removed after.removal,
      after.next cfg removed)
  | .disconnect x => (s.setRegistry (s.registry.setDisconnected x), [])
  | .dispatch _ [] => (s, [])
  | .dispatch x (payload :: payloads) =>
    if cfg.mCallbacks.mOnPacketReceive then
      if cfg.mCallbacks.mOnRawPacketReceive then
        ({ s with calls := .onRawPacketReceive x :: s.calls },
          if ch.ok then [.parse x payload, .dispatch x payloads] else [.dispatch x payloads])
      else (s, [.parse x payload, .dispatch x payloads])
    -- the payload is kept for the user to fetch
    else (s, [.dispatch x payloads])
  | .parse x payload =>
    match payload with
    | .readable => ({ s with calls := .onPacketReceive x :: s.calls }, [])
    | .noHeader | .unreadable =>
      (if cfg.mCallbacks.mOnPacketParseFailed then
        { s with calls := .onPacketParseFailed x :: s.calls } else s, [])
  | .finishTask x i => (s.setStrand x ((s.strands x).finish i), [])
  | .collectContexts => (s, s.registry.entries.map .disconnect)
  | .collectKeys => (s, s.registry.entries.map fun x => .eraseContext x.guid .teardown)

/-! ### Steps from outside -/

/-- Calls and packets that arrive. -/
def arrive (s : State Guid) : Call Guid → Option (State Guid × List (Thread Guid))
  -- the I/O thread has one packet at a time
  | .receive p =>
    if s.ioBusy = false then
      some ({ s with ioBusy := true }, [⟨0, [.processIncomingPacket p, .finishPacket]⟩])
    else none
  -- the strand begins the oldest task of some producer
  | .runTask x position worker =>
    ((s.strands x).begin position).map fun r =>
      (s.setStrand x r.2.2, [⟨worker, r.1.code x ++ [.finishTask x r.2.1]⟩])
  | .disconnectClient g producer => some (s, [⟨producer, [.eraseContext g .client]⟩])
  | .disconnect x =>
    if x ∈ s.registry.inserted then some (s, [⟨0, [.disconnect x]⟩]) else none
  | .flush x producer =>
    if x ∈ s.registry.inserted then some (s, [⟨producer, [.enqueue x .flush]⟩]) else none
  | .stop producer => some (s, [⟨producer, [.collectContexts, .collectKeys]⟩])

/-- A server that has just been started. -/
def State.initial : State Guid where
  ioBusy := false
  registry := ⟨fun _ => none, [], fun _ => false, fun _ => false⟩
  strands := fun _ => .empty
  mRawIngressWindowStart := fun _ => 0
  mRawIngressWindowPackets := fun _ => 0
  delivered := []
  removed := []
  calls := []

/-- The threads of a server. -/
def scripts (cfg : Settings) : Scripts (State Guid) ℕ (Op Guid) Choice (Call Guid) :=
  ⟨fun s producer ch op =>
      let r := execOp cfg s producer ch op
      some (r.1, r.2, []),
    fun s _ => s, fun s _ a => arrive s a⟩

/-- A server's threads over its shared state. -/
abbrev Server (Guid : Type) := Scripts.Pool (State Guid) ℕ (Op Guid)

/-- A transition of a server. -/
abbrev ServerStep (Guid : Type) := Scripts.PoolStep (State Guid) ℕ (Op Guid) Choice (Call Guid)

/-- The transition system of one server: its threads, in any interleaving. -/
def system (cfg : Settings) : System (Server Guid) (Move (Event Choice (Call Guid))) :=
  (scripts cfg).program.system ⟨State.initial, []⟩

end ServerEvents
end SculkProtocol
