import SculkProtocol.Session.SendPath
import SculkProtocol.Systems.Scripts

/-!
# The threads of a session

Any number of threads call `sendPacket`, `enqueueInboundPacket`, `receivePacket`, `flush`,
`flushIfDue` and `disconnect` on one session. A step is one access to what they share: a mutex
is taken or released, `mConnected` is read or exchanged, a queue is changed. The two queues and
their mutexes are one kind of thing with two values (`Queue`).

`disconnect` takes both mutexes in one `std::scoped_lock`, which takes one, tries the other and
lets go of the first if that fails. `mConnected` is under neither mutex: `disconnect` clears it
before it has them, so a producer may still push after that.

What the threads do is recorded in a log, for the statements; no step reads it but for the
number that a new call gets, which is the length of the log at that time.
-/

namespace SculkProtocol
namespace Session
namespace Threads

/-- A queue of packets, with its mutex. -/
inductive Queue
  | inbound
  | outbound
  deriving DecidableEq

def Queue.other : Queue → Queue
  | .inbound => .outbound
  | .outbound => .inbound

inductive Method
  | sendPacket (buffer : Bytes)
  | enqueueInboundPacket (buffer : Bytes)
  | receivePacket
  | flush
  | flushIfDue (now : ℤ)
  | disconnect
  deriving DecidableEq

/-- The queue a method puts a packet into. -/
def Method.produces : Method → Option Queue
  | .sendPacket _ => some .outbound
  | .enqueueInboundPacket _ => some .inbound
  | _ => none

/-- A call of a method. -/
structure Caller where
  /-- the length of the log when the call started -/
  id : ℕ
  method : Method
  deriving DecidableEq

/-- What a method other than `disconnect` returns. -/
inductive Return
  | bool (r : Bool)
  /-- `receivePacket` returns true, with this in `outBuffer` -/
  | received (outBuffer : Bytes)
  deriving DecidableEq

inductive Entry
  | started (caller : Caller)
  | returned (caller : Caller) (r : Return)
  /-- a call of `disconnect` returns -/
  | disconnected (caller : Caller)
  /-- `peer->Send` -/
  | sent (framed : Bytes)
  /-- `peer->CloseConnection` -/
  | closed
  deriving DecidableEq

structure State where
  session : Sender
  mInboundPackets : List Bytes
  /-- `mInboundMutex` is held -/
  mInboundMutex : Bool
  /-- `mOutboundMutex` is held -/
  mOutboundMutex : Bool
  log : List Entry

namespace State

def locked (s : State) : Queue → Bool
  | .inbound => s.mInboundMutex
  | .outbound => s.mOutboundMutex

def setLocked (s : State) (held : Bool) : Queue → State
  | .inbound => { s with mInboundMutex := held }
  | .outbound => { s with mOutboundMutex := held }

def packets (s : State) : Queue → List Bytes
  | .inbound => s.mInboundPackets
  | .outbound => s.session.mOutboundPackets

def setPackets (s : State) (packets : List Bytes) : Queue → State
  | .inbound => { s with mInboundPackets := packets }
  | .outbound => { s with session := { s.session with mOutboundPackets := packets } }

def record (s : State) (entry : Entry) : State := { s with log := s.log ++ [entry] }

end State

/-- The program points. -/
inductive Op
  /-- the first statement of a method: a `scoped_lock`, or the exchange of `disconnect` -/
  | enter (method : Method)
  /-- `sendPacket`, `enqueueInboundPacket`: `mConnected.load()` -/
  | loadConnected (q : Queue) (buffer : Bytes)
  | pushBack (q : Queue) (buffer : Bytes)
  /-- `receivePacket`: the test of the queue, and what follows it -/
  | popFront
  /-- `flushIfDue`: is it due? -/
  | testDue (now : ℤ)
  /-- `mNextFlushAt` is set to 20 milliseconds after `now`, or after the clock's time -/
  | setDue (now : Option ℤ)
  /-- a flush: `mConnected.load()` -/
  | flushConnected
  /-- a flush: `mPeer.load()`, and the test of the queue -/
  | flushPeer
  /-- a flush: `drainedPackets.swap(mOutboundPackets)` -/
  | swap
  /-- the mutex is released, and then the method returns `r` -/
  | unlock (q : Queue) (r : Return)
  /-- a flush leaves its block with `packets` -/
  | unlockFlush (packets : List Bytes)
  /-- `sendBatchedBufferImmediately`: `mPeer.load()` and `mConnected.load()` -/
  | sendBatchedBufferImmediately (packets : List Bytes)
  /-- `sendBatchedBufferImmediately`: the batch is compressed and encrypted -/
  | encode (packets : List Bytes)
  | send (framed : Bytes)
  /-- `disconnect`: a mutex of the two is taken -/
  | lockFirst (wasConnected : Bool)
  /-- `disconnect` has the mutex of `q` and tries the other one -/
  | lockOther (q : Queue) (wasConnected : Bool)
  /-- `disconnect`: the loop over `mOutboundPackets` -/
  | drainOutbound (wasConnected : Bool)
  /-- `disconnect`: the loop over `mInboundPackets` -/
  | drainInbound (wasConnected : Bool)
  /-- `disconnect`: the first of its mutexes is released -/
  | unlockFirst (wasConnected : Bool)
  /-- `disconnect` releases the mutex of `q`, its last one -/
  | unlockLast (q : Queue) (wasConnected : Bool)
  /-- `disconnect`: `mPeer.load()`, and `CloseConnection` if it is not null -/
  | closeConnection
  | ret (r : Return)
  /-- `disconnect` returns -/
  | retVoid
  deriving DecidableEq

/-- What a step may depend on besides the state. -/
structure Choice where
  /-- the time the clock shows -/
  now : ℤ := 0
  /-- what the EVP calls of an encryption answer -/
  calls : EvpCalls := .succeed
  /-- `Send` returns a receipt -/
  receipt : Bool := true
  /-- the mutex a `scoped_lock` of both begins with -/
  first : Queue := .inbound

/-- A thread is in one method. -/
abbrev Thread := Script Caller Op

variable (E : Evp) (L : Codecs)

/-- The next step of a thread: the new state and its next program point. A thread that waits
for a mutex has no step. -/
def execOp (s : State) (caller : Caller) (ch : Choice) : Op → Option (State × List Op)
  -- a method that finds its mutex held waits there
  | .enter method =>
    match method with
    | .sendPacket buffer =>
      if s.locked .outbound then none
      else some (s.setLocked true .outbound, [.loadConnected .outbound buffer])
    | .enqueueInboundPacket buffer =>
      if s.locked .inbound then none
      else some (s.setLocked true .inbound, [.loadConnected .inbound buffer])
    | .receivePacket =>
      if s.locked .inbound then none else some (s.setLocked true .inbound, [.popFront])
    | .flush =>
      if s.locked .outbound then none else some (s.setLocked true .outbound, [.setDue none])
    | .flushIfDue now =>
      if s.locked .outbound then none else some (s.setLocked true .outbound, [.testDue now])
    | .disconnect =>
      some ({ s with session := { s.session with mConnected := false } },
        [.lockFirst s.session.mConnected])
  -- a session that is disconnected takes nothing
  | .loadConnected q buffer =>
    if s.session.mConnected then some (s, [.pushBack q buffer])
    else some (s, [.unlock q (.bool false)])
  | .pushBack q buffer =>
    some (s.setPackets (s.packets q ++ [buffer]) q, [.unlock q (.bool true)])
  -- the oldest packet, if there is one
  | .popFront =>
    match s.packets .inbound with
    | [] => some (s, [.unlock .inbound (.bool false)])
    | packet :: rest => some (s.setPackets rest .inbound, [.unlock .inbound (.received packet)])
  -- `flushIfDue` returns false before its time, and leaves `mNextFlushAt` alone
  | .testDue now =>
    if now < s.session.mNextFlushAt then some (s, [.unlock .outbound (.bool false)])
    else some (s, [.setDue (some now)])
  | .setDue now =>
    some ({ s with
      session := { s.session with mNextFlushAt := now.getD ch.now + FLUSH_INTERVAL } },
      [.flushConnected])
  | .flushConnected =>
    if s.session.mConnected then some (s, [.flushPeer])
    else some (s, [.unlock .outbound (.bool false)])
  -- nothing to send, or nobody to send it to: the queue stays
  | .flushPeer =>
    if s.session.mPeer = false ∨ s.packets .outbound = [] then
      some (s, [.unlock .outbound (.bool false)])
    else some (s, [.swap])
  | .swap => some (s.setPackets [] .outbound, [.unlockFlush (s.packets .outbound)])
  | .unlock q r => some (s.setLocked false q, [.ret r])
  | .unlockFlush packets =>
    some (s.setLocked false .outbound, [.sendBatchedBufferImmediately packets])
  -- both are read without the mutex, so the packets may be dropped here
  | .sendBatchedBufferImmediately packets =>
    if s.session.mConnected = false ∨ s.session.mPeer = false then some (s, [.ret (.bool false)])
    else some (s, [.encode packets])
  | .encode packets =>
    let encrypted := encryptBatch E ch.calls s.session.mEncryption
      (compressBatch L s.session.mCompressionType s.session.mCompressionThreshold
        (writePackets packets))
    let s := { s with session := { s.session with mEncryption := encrypted.1 } }
    -- the encryption keeps its new state, whatever comes of the batch
    match encrypted.2 with
    | .error _ => some (s, [.ret (.bool false)])
    | .ok finalBuffer =>
      if finalBuffer = [] then some (s, [.ret (.bool false)])
      else some (s, [.send (MINECRAFT_BATCH_PACKET_ID :: finalBuffer)])
  | .send framed => some (s.record (.sent framed), [.ret (.bool ch.receipt)])
  | .lockFirst was =>
    if s.locked ch.first then none
    else some (s.setLocked true ch.first, [.lockOther ch.first was])
  -- `std::scoped_lock` gives up the first mutex when the other one is held
  | .lockOther q was =>
    if s.locked q.other then some (s.setLocked false q, [.lockFirst was])
    else some (s.setLocked true q.other, [.drainOutbound was])
  -- one packet at a time, as the loop pops them
  | .drainOutbound was =>
    match s.packets .outbound with
    | [] => some (s, [.drainInbound was])
    | _ :: rest => some (s.setPackets rest .outbound, [.drainOutbound was])
  | .drainInbound was =>
    match s.packets .inbound with
    | [] => some (s, [.unlockFirst was])
    | _ :: rest => some (s.setPackets rest .inbound, [.drainInbound was])
  | .unlockFirst was => some (s.setLocked false ch.first, [.unlockLast ch.first.other was])
  -- only the call that found the session connected closes the connection
  | .unlockLast q was =>
    if was then some (s.setLocked false q, [.closeConnection])
    else some (s.setLocked false q, [.retVoid])
  | .closeConnection =>
    if s.session.mPeer then some (s.record .closed, [.retVoid]) else some (s, [.retVoid])
  | .ret r => some (s.record (.returned caller r), [])
  | .retVoid => some (s.record (.disconnected caller), [])

/-- The callers of one session. -/
def scripts : Scripts State Caller Op Choice Method where
  exec s caller ch op := (execOp E L s caller ch op).map fun r => (r.1, r.2, [])
  finish s _ := s
  call s _ method :=
    let caller : Caller := ⟨s.log.length, method⟩
    some (s.record (.started caller), [⟨caller, [.enter method]⟩])

abbrev Pool := Scripts.Pool State Caller Op

/-- All runs of the callers of a session, from a state of it in which nobody has called. -/
def system (session : Sender) (inbound : List Bytes) :
    System Pool (Move (Event Choice Method)) :=
  (scripts E L).program.system ⟨⟨session, inbound, false, false, []⟩, []⟩

end Threads
end Session
end SculkProtocol
