import Mathlib.Algebra.Ring.Nat
import Mathlib.Data.Int.Basic
import SculkProtocol.Systems.System
import SculkProtocol.Thread.Strand

/-!
# Callbacks of `ClientNetworkSystem`

What a client does with the packets RakNet hands out, and when it calls its user. The
connection events `mOnConnected`, `mOnDisconnected` and `mOnConnectionFailed` are tasks of
`mCallbackStrand`, or are called in place when the strand refuses them; the packet
callbacks are called by the pump job itself.

At most one pump job handles packets at a time (`Client.Pump`), so what is left of its
work on a packet is part of the state (`State.pump`). Each job may run on another worker,
which is the producer of its tasks. The callback of the strand's running task has started;
it returns with `Label.ret`.

A connection is a number, counted by the packets that announce one; an event of a
connection that ends is that of the last one announced. `disconnect` and `stop` wait for
the pump job before they clear `mSession` (`Label.teardown`). The callbacks and the limits
are set before the client is started.
-/

namespace SculkProtocol
namespace ClientEvents

/-- What `MinecraftPackets` makes of a payload. -/
inductive Payload
  /-- `readPacketHeader` fails -/
  | noHeader
  /-- `readAndCreatePacketFromHeader` fails -/
  | unreadable
  | readable
  deriving DecidableEq

/-- The message ids `processIncomingPacket` tells apart. -/
inductive MessageId
  /-- `ID_CONNECTION_REQUEST_ACCEPTED` -/
  | connectionRequestAccepted
  /-- `ID_DISCONNECTION_NOTIFICATION` -/
  | disconnectionNotification
  /-- `ID_CONNECTION_LOST` -/
  | connectionLost
  /-- `ID_CONNECTION_ATTEMPT_FAILED` -/
  | connectionAttemptFailed
  /-- `ID_NO_FREE_INCOMING_CONNECTIONS` -/
  | noFreeIncomingConnections
  /-- `MINECRAFT_BATCH_PACKET_ID` -/
  | batch
  | other
  deriving DecidableEq

/-- A packet as RakNet hands it out. -/
structure Packet where
  hasData : Bool
  length : ℕ
  messageId : MessageId
  deriving DecidableEq

/-- The connection events. -/
inductive ConnectionEvent
  | onConnected (connection : ℕ)
  | onDisconnected (connection : ℕ)
  | onConnectionFailed (connection : ℕ)
  deriving DecidableEq

/-- The callbacks. -/
inductive Callback
  | event (e : ConnectionEvent)
  | onRawPacketReceive (connection : ℕ)
  | onPacketReceive (connection : ℕ)
  | onPacketParseFailed (connection : ℕ)
  deriving DecidableEq

/-- The start of a callback, or the return of an event's. -/
inductive LogEntry
  | start (c : Callback)
  | ret (e : ConnectionEvent)
  deriving DecidableEq

/-- `CallbackSet`: which callbacks are set. -/
structure CallbackSet where
  mOnConnected : Bool
  mOnDisconnected : Bool
  mOnConnectionFailed : Bool
  mOnPacketReceive : Bool
  mOnPacketParseFailed : Bool
  mOnRawPacketReceive : Bool
  mOnRawIngressLimitExceeded : Bool

/-- What does not change while the client runs. -/
structure Settings where
  mCallbacks : CallbackSet
  mRawIngressMaxPacketBytes : ℕ
  mRawIngressMaxPacketsPerSecond : ℕ

/-- Nanoseconds, as all times here. -/
def RAW_INGRESS_WINDOW : ℤ := 1000000000

/-- What the pump job keeps between packets. -/
structure Io where
  /-- the connection whose session is in `mSession` -/
  mSession : Option ℕ
  /-- how many connections were announced -/
  announced : ℕ
  /-- the clock is 0 at `time_point{}` -/
  mRawIngressWindowStart : ℤ
  mRawIngressWindowPackets : ℕ
  deriving DecidableEq

/-- What is left of the work on a packet. -/
inductive Op
  /-- `mCallbackStrand.enqueue` -/
  | enqueue (e : ConnectionEvent)
  /-- the callback of an event that the strand has refused -/
  | callInPlace (e : ConnectionEvent)
  /-- that callback returns -/
  | ret (e : ConnectionEvent)
  /-- the loop over the payloads of a batch -/
  | dispatch (connection : ℕ) (payloads : List Payload)
  /-- a payload is read -/
  | parse (connection : ℕ) (payload : Payload)
  deriving DecidableEq

/-- What the work on a packet depends on besides the state. -/
structure Choice where
  now : ℤ := 0
  /-- the answer of `mOnRawIngressLimitExceeded` -/
  ok : Bool := true
  /-- the payloads of a batch, or `none` if the session does not accept it -/
  payloads : Option (List Payload) := none
  deriving DecidableEq

structure State where
  io : Io
  /-- what is left of the pump job's work -/
  pump : List Op
  /-- the worker that runs the pump job -/
  producer : ℕ
  mCallbackStrand : Strand ConnectionEvent
  /-- the connection events in the order of their packets, latest first -/
  handed : List ConnectionEvent
  /-- latest first -/
  log : List LogEntry
  deriving DecidableEq

/-! ### The work on a packet -/

/-- The decision of `mOnRawIngressLimitExceeded`, if there is one. -/
def Settings.shouldDisconnect (cfg : Settings) (ch : Choice) : Bool :=
  if cfg.mCallbacks.mOnRawIngressLimitExceeded then ch.ok else true

namespace Io

def resetIngressWindow (s : Io) : Io :=
  { s with mRawIngressWindowStart := 0, mRawIngressWindowPackets := 0 }

def disconnectSession (s : Io) : Io := { s with mSession := none }.resetIngressWindow

/-- What becomes of a packet that is empty or over a limit. -/
def refuse (cfg : Settings) (s : Io) (ch : Choice) : Io :=
  if cfg.shouldDisconnect ch then s.disconnectSession else s

/-- Begin a new ingress window if the last one is over. -/
def openWindow (s : Io) (now : ℤ) : Io :=
  if s.mRawIngressWindowStart = 0 ∨ now - s.mRawIngressWindowStart ≥ RAW_INGRESS_WINDOW then
    { s with mRawIngressWindowStart := now, mRawIngressWindowPackets := 0 }
  else s

/-- Count a packet in the ingress window. -/
def countPacket (s : Io) : Io :=
  { s with mRawIngressWindowPackets := s.mRawIngressWindowPackets + 1 }

/-- A new session is stored. -/
def announce (s : Io) : Io :=
  { s with mSession := some (s.announced + 1), announced := s.announced + 1 }.resetIngressWindow

end Io

/-- The event goes to the strand, if its callback is set. -/
def report (set : Bool) (e : ConnectionEvent) : List Op := if set then [.enqueue e] else []

/-- `processIncomingPacket` behind the limits. -/
def processMessage (cfg : Settings) (s : Io) (p : Packet) (ch : Choice) : Io × List Op :=
  match p.messageId with
  | .connectionRequestAccepted =>
    -- the server has accepted: a session, with the next number
    (s.announce, report cfg.mCallbacks.mOnConnected (.onConnected (s.announced + 1)))
  | .disconnectionNotification | .connectionLost =>
    (s.disconnectSession, report cfg.mCallbacks.mOnDisconnected (.onDisconnected s.announced))
  | .connectionAttemptFailed | .noFreeIncomingConnections =>
    (s.disconnectSession, report cfg.mCallbacks.mOnConnectionFailed
      (.onConnectionFailed s.announced))
  | .batch =>
    -- only the id, no payload
    if p.length ≤ 1 then (s, [])
    else
      match s.mSession, ch.payloads with
      | some connection, some payloads => (s, [.dispatch connection payloads])
      | _, _ => (s, [])
  | .other => (s, [])

/-- The work on a packet, up to its callbacks. -/
def processIncomingPacket (cfg : Settings) (s : Io) (p : Packet) (ch : Choice) : Io × List Op :=
  if p.hasData = false ∨ p.length = 0 then (s.refuse cfg ch, [])
  else if p.length > cfg.mRawIngressMaxPacketBytes then (s.refuse cfg ch, [])
  else
    let s := s.openWindow ch.now
    if s.mRawIngressWindowPackets ≥ cfg.mRawIngressMaxPacketsPerSecond then (s.refuse cfg ch, [])
    else processMessage cfg s.countPacket p ch

/-! ### Steps -/

inductive Label
  /-- a pump job on worker `producer` gets a packet -/
  | receive (p : Packet) (ch : Choice) (producer : ℕ)
  /-- the pump job's next operation; `ok` is the answer of the strand or callback asked -/
  | pump (ok : Bool)
  /-- the strand begins the task that a dequeue takes, and calls its callback -/
  | begin (position : ℕ)
  /-- the callback of the strand's running task returns -/
  | ret
  /-- `disconnectSessionForTeardown` -/
  | teardown
  deriving DecidableEq

def State.record (s : State) (e : LogEntry) : State := { s with log := e :: s.log }

/-- The events among the operations. -/
def Op.event? : Op → Option ConnectionEvent
  | .enqueue e => some e
  | _ => none

/-- An operation of the pump job: the new state, and the operations that take its place. -/
def execOp (cfg : Settings) (s : State) (ok : Bool) : Op → State × List Op
  | .enqueue e =>
    -- the strand refuses an event when it has no memory: the callback is called in place
    if ok then ({ s with mCallbackStrand := s.mCallbackStrand.enqueue s.producer e }, [])
    else (s, [.callInPlace e])
  | .callInPlace e => (s.record (.start (.event e)), [.ret e])
  | .ret e => (s.record (.ret e), [])
  | .dispatch _ [] => (s, [])
  | .dispatch connection (payload :: payloads) =>
    if cfg.mCallbacks.mOnPacketReceive then
      if cfg.mCallbacks.mOnRawPacketReceive then
        (s.record (.start (.onRawPacketReceive connection)),
          if ok then [.parse connection payload, .dispatch connection payloads]
          else [.dispatch connection payloads])
      else (s, [.parse connection payload, .dispatch connection payloads])
    -- the payload is kept for the user to fetch
    else (s, [.dispatch connection payloads])
  -- a payload without a header is reported as one that cannot be read
  | .parse connection payload =>
    match payload with
    | .readable => (s.record (.start (.onPacketReceive connection)), [])
    | .noHeader | .unreadable =>
      (if cfg.mCallbacks.mOnPacketParseFailed then
        s.record (.start (.onPacketParseFailed connection))
        else s, [])

/-- One step of a client. -/
def step (cfg : Settings) (s : State) : Label → Option State
  | .receive p ch producer =>
    -- the next packet is received when the last one has been dealt with
    match s.pump with
    | [] =>
      let r := processIncomingPacket cfg s.io p ch
      some { s with
        io := r.1, pump := r.2, producer := producer, handed := r.2.filterMap Op.event? ++
          s.handed }
    | _ => none
  | .pump ok =>
    match s.pump with
    | [] => none
    | op :: rest =>
      let r := execOp cfg s ok op
      some { r.1 with pump := r.2 ++ rest }
  -- the strand begins the oldest event of some producer
  | .begin position =>
    (s.mCallbackStrand.begin position).map fun r =>
      { s with mCallbackStrand := r.2.2 }.record (.start (.event r.1))
  | .ret =>
    s.mCallbackStrand.running.bind fun i => s.mCallbackStrand.tasks[i]?.map fun e =>
      { s with mCallbackStrand := s.mCallbackStrand.finish i }.record (.ret e)
  | .teardown =>
    -- `stop` has waited for the pump
    match s.pump with
    | [] => some { s with io := s.io.disconnectSession }
    | _ => none

/-- A client that has just been started. -/
def State.initial : State := ⟨⟨none, 0, 0, 0⟩, [], 0, .empty, [], []⟩

/-- The transition system of one client. -/
def system (cfg : Settings) : System State Label := ⟨State.initial, step cfg⟩

/-- A transition of a client. -/
abbrev ClientStep := Transition State Label

end ClientEvents
end SculkProtocol
