import SculkProtocol.Server.Sessions

/-!
# Who uses the peer while a system is stopped and destroyed

A network system owns the RakPeer. Its sessions keep a raw pointer to it, which
`detachPeer` clears, and every `RakPacketOwner` keeps one until it has given its packet
back. This model has everything that can hold such a pointer: the I/O passes, the
session tasks with their packets, and user threads that hold sessions and call
`sendPacketImmediately`, `flush`, `getNetworkStatus` or `disconnect`, also by dropping
the last reference.

The server and the client differ in how a pass hands packets on, in what their
teardown does, and in what they wait for: the server's I/O passes run on a thread of
its own, those of the client on the pool. What `stop` waits for (the I/O thread, the
pump jobs and the session tasks of the server, the I/O jobs of the client) is one
counter here, `pending`. A task leaves that counter before it ends, and `pooled` counts
it until then. A client is the instance with one key.

The destructor calls `stop` and destroys the members in reverse order: an owned thread
pool joins its workers before the peer is destroyed, a shared one does not.

`start`, `stop` and the destructor are not issued concurrently. What a packet is, which
session is due, and what callees answer is open.
-/

namespace SculkProtocol
namespace Teardown

open Sessions (Context Registry After)

/-- The two network systems. -/
inductive Kind (Key : Type)
  | server
  /-- `mSession` is the entry of this key -/
  | client (slot : Key)
  deriving DecidableEq

/-- What does not change over the life of a system. -/
structure Setup (Key : Type) where
  kind : Kind Key
  /-- `mOwnedThreadPool` is not null -/
  ownsPool : Bool

/-- The methods of `RakPeerInterface` that a session calls. -/
inductive PeerCall
  | send
  | closeConnection
  | getSystemAddressFromGuid
  | getConnectionState
  | getAveragePing
  | getLastPing
  | getLowestPing
  | getStatistics
  deriving DecidableEq

structure State (Key : Type) where
  mRunning : Bool
  /-- the destructor has been entered -/
  destroying : Bool
  /-- what `stop` waits for -/
  pending : ℕ
  /-- the tasks the thread pool is running or has queued -/
  pooled : ℕ
  registry : Registry Key
  peerDestroyed : Bool

/-- The accesses to shared state. -/
inductive Op (Key : Type)
  /-- `ioTickOnce`: `mPeer->Receive()` and what follows from it -/
  | receive
  /-- `flushTickOnce` of the server: the next session that is due -/
  | flushTick
  /-- `ioTickOnce` of the client: `mSession.load()`, then `flushIfDue` -/
  | flushSession (k : Key)
  /-- a new session is created and becomes the entry of its key -/
  | upsertSession (k : Key)
  /-- the entry's session is disconnected and dropped -/
  | dropSession (k : Key)
  /-- a session task of the server: does it remove the session? -/
  | processSessionPacket (k : Key) (x : Context Key)
  | eraseSession (k : Key) (after : After Key)
  /-- `Session::flush` and its like: the locked check -/
  | flushCheck (x : Context Key)
  /-- `sendBatchedBufferImmediately`: `mPeer.load()` -/
  | loadForSend (x : Context Key)
  /-- `sendBatchedBufferImmediately`: `mConnected.load()`, the pointer being non-null -/
  | checkForSend (x : Context Key)
  /-- `getNetworkStatus`: `mConnected.load()` -/
  | statusConnected (x : Context Key)
  /-- `getNetworkStatus`: `mPeer.load()` -/
  | statusLoad (x : Context Key)
  /-- `disconnect`: `mConnected.exchange(false)` -/
  | exchangeConnected (x : Context Key)
  /-- `disconnect`: `mPeer.load()` -/
  | loadPeer (x : Context Key)
  /-- a call on the peer through a loaded pointer -/
  | call (f : PeerCall) (x : Context Key)
  | detachPeer (x : Context Key)
  /-- `~RakPacketOwner` -/
  | deallocatePacket
  /-- the counter `stop` waits for is decremented -/
  | countDown
  /-- the waits of `stop` -/
  | waitPending
  /-- `disconnectAllSessionsForTeardown`: the contexts -/
  | collectContexts
  /-- `disconnectAllSessionsForTeardown`: the keys -/
  | collectKeys
  /-- `disconnectSessionForTeardown` -/
  | teardownSession (k : Key)
  /-- the destructor of `mPeer`, after that of `mOwnedThreadPool` -/
  | destroyPeer
  deriving DecidableEq

/-- On whose behalf a thread runs. -/
inductive Role
  | io
  /-- a job or task of the thread pool -/
  | task
  | user
  /-- `stop`, or the destructor -/
  | lifecycle
  deriving DecidableEq

/-- A thread with the accesses it has left. -/
abbrev Thread (Key : Type) := Script Role (Op Key)

/-- What the I/O pass receives. -/
inductive Received (Key : Type)
  | nothing
  /-- `ID_NEW_INCOMING_CONNECTION`, `ID_CONNECTION_REQUEST_ACCEPTED` -/
  | connected (k : Key)
  /-- a packet that drops the session in the pass itself -/
  | dropped (k : Key)
  /-- any other packet of a session -/
  | session (k : Key)
  | ignored
  deriving DecidableEq

/-- What a step may depend on besides the state. -/
structure Choice (Key : Type) where
  /-- the answer of the strand or the check asked in this step -/
  ok : Bool := true
  received : Received Key := .nothing
  /-- the entry that is due -/
  due : Option Key := none
  /-- the session knows no system address yet -/
  unresolved : Bool := false
  deriving DecidableEq

/-- The methods of `Session` that use the peer. -/
inductive Method
  | sendPacketImmediately
  /-- `flush`, `flushIfDue`, `setCompressed`, `setEncrypted` -/
  | flush
  | getNetworkStatus
  /-- `disconnect`, or the destructor -/
  | disconnect
  deriving DecidableEq

/-- What arrives from outside. -/
inductive Call (Key : Type)
  | start
  /-- an I/O pass begins -/
  | ioPass
  /-- a flush pump job of the server begins -/
  | flushJob
  /-- somebody who holds the session `x` calls `m` on it -/
  | use (m : Method) (x : Context Key)
  /-- `disconnectClient` of the server, `disconnect` of the client -/
  | disconnect (k : Key)
  | stop
  | destroy
  deriving DecidableEq

variable {Key : Type}

/-- The first access of a method. -/
def Method.entry (x : Context Key) : Method → Op Key
  | .sendPacketImmediately => .loadForSend x
  | .flush => .flushCheck x
  | .getNetworkStatus => .statusConnected x
  | .disconnect => .exchangeConnected x

/-- Whether a thread is run by the thread pool. -/
def Role.pooled (kind : Kind Key) : Role → Bool
  | .io => match kind with
    | .server => false
    | .client _ => true
  | .task => true
  | .user | .lifecycle => false

/-- The calls of `getNetworkStatus` on the peer. -/
def statusCalls (x : Context Key) (unresolved : Bool) : List (Op Key) :=
  (if unresolved then [.call .getSystemAddressFromGuid x] else []) ++
    [.call .getConnectionState x, .call .getAveragePing x, .call .getLastPing x,
      .call .getLowestPing x, .call .getStatistics x]

/-- A thread is started that `stop` waits for. -/
def State.count (s : State Key) (setup : Setup Key) (role : Role) : State Key :=
  { s with
    pending := s.pending + 1
    pooled := s.pooled + if role.pooled setup.kind then 1 else 0 }

def State.setRegistry (s : State Key) (r : Registry Key) : State Key := { s with registry := r }

/-- The operations of an I/O pass. -/
def Kind.passCode : Kind Key → List (Op Key)
  | .server => [.receive, .countDown]
  | .client k => [.receive, .flushSession k, .countDown]

/-- The teardown of the sessions. -/
def Kind.teardownCode : Kind Key → List (Op Key)
  | .server => [.collectContexts, .collectKeys]
  | .client k => [.teardownSession k]

/-- The operations of `stop`. -/
def Setup.stopCode (setup : Setup Key) (wasRunning : Bool) : List (Op Key) :=
  (if wasRunning then [.waitPending] else []) ++ setup.kind.teardownCode

variable [DecidableEq Key]

/-- A packet is received. The pass goes on until there is none. -/
def receive (setup : Setup Key) (s : State Key) (ch : Choice Key) :
    State Key × List (Op Key) × List (Thread Key) :=
  match ch.received with
  | .nothing => (s, [], [])
  | .connected k => (s, [.upsertSession k, .deallocatePacket, .receive], [])
  | .dropped k => (s, [.dropSession k, .deallocatePacket, .receive], [])
  | .ignored => (s, [.deallocatePacket, .receive], [])
  | .session k =>
    match setup.kind, s.registry.mSessionContexts k with
    | .server, some x =>
      -- the task takes the packet's owner with it, unless the strand refuses it
      if ch.ok then
        (s.count setup .task, [.receive],
          [⟨.task, [.processSessionPacket k x, .countDown, .deallocatePacket]⟩])
      else (s, [.deallocatePacket, .receive], [])
    | _, _ => (s, [.deallocatePacket, .receive], [])

/-- The next access of a thread: the new state, the operations that take its place, and
the threads it starts. -/
def execOp (setup : Setup Key) (s : State Key) (ch : Choice Key) :
    Op Key → Option (State Key × List (Op Key) × List (Thread Key))
  | .receive => some (receive setup s ch)
  -- one session that is due after the other, until there is none
  | .flushTick =>
    match ch.due with
    | none => some (s, [], [])
    | some k =>
      match s.registry.mSessionContexts k with
      | some x =>
        if s.registry.mConnected x && ch.ok then
          some (s.count setup .task, [.flushTick], [⟨.task, [.flushCheck x, .countDown]⟩])
        else some (s, [.flushTick], [])
      | none => some (s, [.flushTick], [])
  | .flushSession k =>
    match s.registry.mSessionContexts k with
    | some x => some (s, [.flushCheck x], [])
    | none => some (s, [], [])
  | .upsertSession k => some (s.setRegistry (s.registry.upsert k), [], [])
  | .dropSession k =>
    match s.registry.mSessionContexts k with
    | some x => some (s, [.exchangeConnected x, .eraseSession k .discard], [])
    | none => some (s, [], [])
  | .processSessionPacket k x => some (s, if ch.ok then [.eraseSession k (.packet x)] else [], [])
  | .eraseSession k after =>
    some (s.setRegistry (s.registry.erase k),
      (after.disconnects (s.registry.mSessionContexts k)).map .exchangeConnected, [])
  -- under the session's mutex
  | .flushCheck x =>
    some (s, if s.registry.mConnected x && s.registry.mPeer x &&
      ch.ok then [.loadForSend x] else [], [])
  -- the pointer that is loaded here is used after the look at the flag
  | .loadForSend x => some (s, if s.registry.mPeer x then [.checkForSend x] else [], [])
  | .checkForSend x =>
    some (s, if s.registry.mConnected x && ch.ok then [.call .send x] else [], [])
  | .statusConnected x => some (s, if s.registry.mConnected x then [.statusLoad x] else [], [])
  -- the calls go through the pointer that was loaded
  | .statusLoad x =>
    some (s, if s.registry.mPeer x && ch.ok then statusCalls x ch.unresolved else [], [])
  -- only the call that found the session connected closes the connection
  | .exchangeConnected x =>
    some (s.setRegistry (s.registry.setDisconnected x),
      if s.registry.mConnected x then [.loadPeer x] else [], [])
  | .loadPeer x => some (s, if s.registry.mPeer x then [.call .closeConnection x] else [], [])
  | .call _ _ | .deallocatePacket => some (s, [], [])
  | .detachPeer x => some (s.setRegistry (s.registry.detach x), [], [])
  | .countDown => some ({ s with pending := s.pending - 1 }, [], [])
  -- `stop` waits for every thread that was counted
  | .waitPending => if s.pending = 0 then some (s, [], []) else none
  | .collectContexts =>
    some (s, s.registry.entries.flatMap fun x => [.exchangeConnected x, .detachPeer x], [])
  | .collectKeys => some (s, s.registry.entries.map fun x => .eraseSession x.guid .discard, [])
  | .teardownSession k =>
    match s.registry.mSessionContexts k with
    | some x => some (s, [.exchangeConnected x, .detachPeer x, .eraseSession k .discard], [])
    | none => some (s, [], [])
  -- the destructor of a pool of its own joins the pool's threads first
  | .destroyPeer =>
    if setup.ownsPool && s.pooled != 0 then none
    else some ({ s with peerDestroyed := true }, [], [])

/-- The end of a thread. -/
def finish (setup : Setup Key) (s : State Key) (role : Role) : State Key :=
  if role.pooled setup.kind then { s with pooled := s.pooled - 1 } else s

/-- Calls that arrive. -/
def arrive (setup : Setup Key) (s : State Key) (ts : List (Thread Key)) :
    Call Key → Option (State Key × List (Thread Key))
  | .start =>
    if s.mRunning = false ∧ s.destroying = false ∧ ∀ t ∈ ts, t.tag ≠ .lifecycle then
      some ({ s with mRunning := true }, [])
    else none
  | .ioPass =>
    -- the server has one I/O thread
    if s.mRunning = true ∧ (setup.kind = .server → ∀ t ∈ ts, t.tag ≠ .io) then
      some (s.count setup .io, [⟨.io, setup.kind.passCode⟩])
    else none
  | .flushJob =>
    if s.mRunning = true ∧ setup.kind = .server then
      some (s.count setup .task, [⟨.task, [.flushTick, .countDown]⟩])
    else none
  | .use m x => if x ∈ s.registry.inserted then some (s, [⟨.user, [m.entry x]⟩]) else none
  -- the client waits for its jobs before it drops the session, the server does not
  | .disconnect k =>
    match setup.kind with
    | .server => some (s, [⟨.user, [.eraseSession k .client]⟩])
    | .client slot => some (s, [⟨.user, [.waitPending, .teardownSession slot]⟩])
  | .stop =>
    if s.destroying = false ∧ ∀ t ∈ ts, t.tag ≠ .lifecycle then
      some ({ s with mRunning := false }, [⟨.lifecycle, setup.stopCode s.mRunning⟩])
    else none
  -- the destructor calls `stop`, and destroys the peer after it
  | .destroy =>
    if s.destroying = false ∧ ∀ t ∈ ts, t.tag ≠ .lifecycle then
      some ({ s with mRunning := false, destroying := true },
        [⟨.lifecycle, setup.stopCode s.mRunning ++ [.destroyPeer]⟩])
    else none

/-- A constructed system that was never started. -/
def State.initial : State Key where
  mRunning := false
  destroying := false
  pending := 0
  pooled := 0
  registry := ⟨fun _ => none, [], fun _ => false, fun _ => false⟩
  peerDestroyed := false

/-- The threads around a system. -/
def scripts (setup : Setup Key) : Scripts (State Key) Role (Op Key) (Choice Key) (Call Key) :=
  ⟨fun s _ ch op => execOp setup s ch op, finish setup, arrive setup⟩

/-- The threads around a system over its shared state. -/
abbrev Network (Key : Type) := Scripts.Pool (State Key) Role (Op Key)

abbrev NetworkStep (Key : Type) :=
  Scripts.PoolStep (State Key) Role (Op Key) (Choice Key) (Call Key)

/-- The transition system of one network system, in any interleaving. -/
def system (setup : Setup Key) :
    System (Network Key) (Move (Event (Choice Key) (Call Key))) :=
  (scripts setup).program.system ⟨State.initial, []⟩

end Teardown
end SculkProtocol
