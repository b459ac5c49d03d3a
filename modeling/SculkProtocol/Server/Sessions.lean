import Mathlib.Data.Int.Basic
import Mathlib.Logic.Function.Basic
import SculkProtocol.Systems.Scripts

/-!
# Sessions of `ServerNetworkSystem`

The life of the session contexts of a server: they are inserted by the I/O thread,
flushed by the flush pump and by tasks of their strands, and removed by the I/O
thread, by strand tasks, by user threads and by the teardown of `stop`. Everything
that removes, flushes or closes does so by GUID, so a GUID that reconnects is where
the threads meet.

A thread is a script of operations (`Op`), the head being the next access to shared
state. `execOp` performs that access and says which operations come next and which
threads it starts. A lock-protected block is one operation; a container of the
standard or a third-party library is accessed atomically, and the queue of flush
commands is FIFO for the commands of one producing thread only: a dequeue may take
any command that is the first of its producer, and may miss commands of others.

What the model leaves open:

* which messages arrive, what the clock reads, what user callbacks answer, which
  enqueue is refused;
* the order of the tasks of one strand, and which worker runs a task: any task that
  was enqueued may run next, which only adds interleavings;
* user code: it may call `disconnectClient` for any GUID and `disconnect` on any
  session at any time, which covers what a user callback may do.

The wakeups of the pumps, payloads, and the send path are not part of this model.
-/

namespace SculkProtocol
namespace Sessions

variable {Guid : Type}

/-- The identity of one `SessionContext` and of the `Session` it owns: the GUID its
session is addressed to, and a number that is never used twice. -/
structure Context (Guid : Type) where
  guid : Guid
  serial : ℕ
  deriving DecidableEq

instance [DecidableEq Guid] : LawfulBEq (Context Guid) := inferInstance

/-- The message ids `processIncomingPacket` and `processSessionPacket` tell apart. -/
inductive MessageId
  /-- `ID_UNCONNECTED_PING` -/
  | unconnectedPing
  /-- `ID_NEW_INCOMING_CONNECTION` -/
  | newIncomingConnection
  /-- `ID_DISCONNECTION_NOTIFICATION` -/
  | disconnectionNotification
  /-- `ID_CONNECTION_LOST` -/
  | connectionLost
  /-- a batch, or an id the server ignores -/
  | other
  deriving DecidableEq

/-- A packet as RakNet hands it out. -/
structure Packet (Guid : Type) where
  guid : Guid
  hasData : Bool
  length : ℕ
  messageId : MessageId
  deriving DecidableEq

/-- `FlushScheduleCommand`. -/
inductive Command (Guid : Type)
  | schedule (g : Guid) (due : ℤ)
  | cancel (g : Guid)
  deriving DecidableEq

/-- The GUID a command is about. -/
def Command.guid : Command Guid → Guid
  | .schedule g _ => g
  | .cancel g => g

/-- `FlushDueEntry`. -/
structure FlushDueEntry (Guid : Type) where
  mDue : ℤ
  mGuid : Guid
  mToken : ℕ
  deriving DecidableEq

/-! ### Constants and settings -/

/-- Nanoseconds, as all times here. -/
def FLUSH_INTERVAL : ℤ := 20000000

def RAW_INGRESS_WINDOW : ℤ := 1000000000

/-- What does not change while the server runs. -/
structure Settings (Guid : Type) where
  mFlushReadyPerTick : ℕ
  mRawIngressMaxPacketBytes : ℕ
  mRawIngressMaxPacketsPerSecond : ℕ
  /-- whether the callback of this name is set -/
  mOnRawIngressLimitExceeded : Bool
  /-- `std::hash` of a GUID's text -/
  hash : Guid → ℕ

/-- The settings of a server that nobody has configured. -/
def Settings.defaults (hash : Guid → ℕ) : Settings Guid where
  mFlushReadyPerTick := 512
  mRawIngressMaxPacketBytes := 8 * 1024 * 1024
  mRawIngressMaxPacketsPerSecond := 128
  mOnRawIngressLimitExceeded := false
  hash := hash

/-- A phase of up to 20 whole milliseconds. -/
def Settings.flushPhaseOffsetForGuid (cfg : Settings Guid) (g : Guid) : ℤ :=
  ((cfg.hash g % 20 : ℕ) : ℤ) * 1000000

def nextScheduledFlushDue (previousDue now : ℤ) : ℤ :=
  let nextDue := previousDue + FLUSH_INTERVAL
  if nextDue > now then nextDue
  else nextDue + FLUSH_INTERVAL * (Int.tdiv (now - nextDue) FLUSH_INTERVAL + 1)

/-! ### Shared state -/

/-- The flush schedule: the commands on their way to it, and what
`mFlushScheduleMutex` protects. The heap is a list in the order in which it is
popped. -/
structure FlushSchedule (Guid : Type) where
  /-- the queued commands with their producing threads -/
  mFlushScheduleCommands : List (ℕ × Command Guid)
  mFlushDueHeap : List (FlushDueEntry Guid)
  mFlushDueTokens : Guid → Option ℕ
  mNextFlushToken : ℕ

/-- The session contexts and their sessions. -/
structure Registry (Guid : Type) where
  mSessionContexts : Guid → Option (Context Guid)
  /-- every context ever inserted, latest first -/
  inserted : List (Context Guid)
  /-- `Session::mConnected` -/
  mConnected : Context Guid → Bool
  /-- `Session::mPeer` is not null -/
  mPeer : Context Guid → Bool

/-- The state of `mIoPumpThread`. -/
inductive IoThread
  /-- not joinable -/
  | absent
  /-- between two packets -/
  | idle
  /-- in `processIncomingPacket` -/
  | busy
  deriving DecidableEq

structure State (Guid : Type) where
  mRunning : Bool
  mIoPumpThread : IoThread
  mPendingFlushJobs : ℕ
  mPendingSessionPacketTasks : ℕ
  registry : Registry Guid
  schedule : FlushSchedule Guid
  /-- the clock is 0 at `time_point{}` -/
  mRawIngressWindowStart : Context Guid → ℤ
  mRawIngressWindowPackets : Context Guid → ℕ

/-- The context inserted last for a GUID. -/
def Registry.newest [DecidableEq Guid] (r : Registry Guid) (g : Guid) : Option (Context Guid) :=
  r.inserted.find? fun x => x.guid = g

/-! ### Operations and threads -/

/-- What follows `removeSessionContext`. -/
inductive After (Guid : Type)
  /-- the removed context is dropped -/
  | discard
  /-- `processSessionPacket` of context `x`: the removed session is disconnected, or
  its own if there is none -/
  | packet (x : Context Guid)
  /-- `disconnectClient`: the removed session is disconnected -/
  | client
  deriving DecidableEq

/-- Why a command is issued. -/
inductive Why (Guid : Type)
  /-- `processIncomingPacket` has inserted a context -/
  | connect
  /-- `flushTickOnce` or its strand task -/
  | flush
  /-- `removeSessionContext`, which erases the entry next -/
  | removal (after : After Guid)
  deriving DecidableEq

/-- The accesses to shared state. -/
inductive Op (Guid : Type)
  | processIncomingPacket (p : Packet Guid)
  | upsertSessionContext (g : Guid)
  | processSessionPacket (p : Packet Guid) (x : Context Guid)
  /-- `scheduleSessionFlushAt` or `cancelSessionFlush`: the lock-free attempt -/
  | enqueueCommand (c : Command Guid) (why : Why Guid)
  /-- the same when the queue has refused: drain and apply under the lock -/
  | applyCommand (c : Command Guid) (why : Why Guid)
  /-- `removeSessionContext`: `erase_if` -/
  | eraseContext (g : Guid) (after : After Guid)
  /-- `Session::disconnect`: `mConnected.exchange(false)` -/
  | exchangeConnected (x : Context Guid)
  /-- `Session::disconnect`: `mPeer.load()` -/
  | loadPeer (x : Context Guid)
  /-- `Session::disconnect`: `peer->CloseConnection(mRemote, ..)` -/
  | closeConnection (x : Context Guid)
  | detachPeer (x : Context Guid)
  /-- `mPeer->CloseConnection(remote, ..)` for a sender without a session -/
  | closeRemote (g : Guid)
  /-- a local `shared_ptr` goes out of scope -/
  | release (x : Context Guid)
  /-- `flushTickOnce`: the loop condition and `drainFlushScheduleCommands` -/
  | drainFlushScheduleCommands (left : ℕ) (now : ℤ)
  /-- `flushTickOnce`: the locked block that pops an entry -/
  | popDue (left : ℕ) (now : ℤ)
  /-- `flushTickOnce`: `getSessionContext` -/
  | findContext (e : FlushDueEntry Guid) (now : ℤ)
  /-- `flushTickOnce`: `session->isConnected()` -/
  | checkConnected (e : FlushDueEntry Guid) (x : Context Guid) (now : ℤ)
  /-- `flushTickOnce`: `strand->enqueue` -/
  | enqueueFlush (e : FlushDueEntry Guid) (x : Context Guid) (now : ℤ)
  /-- after the flush, or after the strand's refusal -/
  | reschedule (g : Guid) (x : Context Guid) (previousDue now : ℤ)
  /-- `stop`: `mIoPumpThread.join()` -/
  | joinIo
  | waitForPendingFlushJobs
  | waitForPendingSessionPacketTasks
  | clearFlushSchedule
  /-- `disconnectAllSessionsForTeardown`: collect the contexts -/
  | collectContexts
  /-- `disconnectAllSessionsForTeardown`: collect the keys -/
  | collectKeys
  deriving DecidableEq

/-- On whose behalf a thread runs. -/
inductive Role (Guid : Type)
  /-- `mIoPumpThread`, for one packet -/
  | io
  /-- a strand task for a packet received while `x` was the entry of its GUID -/
  | packetTask (x : Context Guid)
  | flushPump
  /-- a strand task that flushes `x` -/
  | flushTask (x : Context Guid)
  /-- a user thread in `disconnectClient` or `disconnect` -/
  | user
  /-- whoever dropped the last reference to `x` -/
  | destructor (x : Context Guid)
  | stop
  deriving DecidableEq

/-- Who a thread is. -/
structure Tag (Guid : Type) where
  role : Role Guid
  /-- its identity as a producer of flush commands -/
  producer : ℕ
  deriving DecidableEq

/-- A thread with the accesses it has left. -/
abbrev Thread (Guid : Type) := Script (Tag Guid) (Op Guid)

/-- What a step may depend on besides the state. -/
structure Choice where
  /-- the answer of the callback, strand or queue asked in this step -/
  ok : Bool := true
  now : ℤ := 0
  /-- the positions of the commands a drain takes, one after the other -/
  drain : List ℕ := []
  /-- the worker that will run the task started in this step -/
  worker : ℕ := 0
  deriving DecidableEq

/-- What arrives from outside. -/
inductive Call (Guid : Type)
  /-- `mPeer->Receive` returns a packet -/
  | receive (p : Packet Guid)
  /-- a flush pump job runs its tick -/
  | flushTick (now : ℤ) (producer : ℕ)
  | disconnectClient (g : Guid) (producer : ℕ)
  /-- a user calls `disconnect` on a session it holds -/
  | disconnect (x : Context Guid)
  /-- the last reference to a session is dropped -/
  | destroy (x : Context Guid)
  | start (drain : List ℕ)
  | stop (producer : ℕ)
  deriving DecidableEq

variable [DecidableEq Guid]

/-! ### The flush schedule -/

namespace FlushSchedule

/-- Insert by due time, then by token, as `FlushDueEntryCompare` orders the heap. -/
def push (e : FlushDueEntry Guid) : List (FlushDueEntry Guid) → List (FlushDueEntry Guid)
  | [] => [e]
  | e' :: es =>
    if e.mDue < e'.mDue ∨ (e.mDue = e'.mDue ∧ e.mToken < e'.mToken) then e :: e' :: es
    else e' :: push e es

def applyFlushScheduleCommandUnlocked (s : FlushSchedule Guid) : Command Guid → FlushSchedule Guid
  | .schedule g due =>
    { s with
      mNextFlushToken := s.mNextFlushToken + 1
      mFlushDueTokens := Function.update s.mFlushDueTokens g (some s.mNextFlushToken)
      mFlushDueHeap := push ⟨due, g, s.mNextFlushToken⟩ s.mFlushDueHeap }
  | .cancel g => { s with mFlushDueTokens := Function.update s.mFlushDueTokens g none }

/-- Append a command of a producing thread. -/
def enqueue (s : FlushSchedule Guid) (producer : ℕ) (c : Command Guid) : FlushSchedule Guid :=
  { s with mFlushScheduleCommands := s.mFlushScheduleCommands ++ [(producer, c)] }

/-- Take the command at position `i`, if no earlier one has the same producer, and
apply it. -/
def dequeue (s : FlushSchedule Guid) (i : ℕ) : Option (FlushSchedule Guid) :=
  match s.mFlushScheduleCommands[i]? with
  | some (p, c) =>
    if ∀ q ∈ s.mFlushScheduleCommands.take i, q.1 ≠ p then
      some (applyFlushScheduleCommandUnlocked
        { s with mFlushScheduleCommands := s.mFlushScheduleCommands.eraseIdx i } c)
    else none
  | none => none

/-- `drainFlushScheduleCommandsUnlocked`, taking the given positions. -/
def drain (s : FlushSchedule Guid) : List ℕ → Option (FlushSchedule Guid)
  | [] => some s
  | i :: is => (s.dequeue i).bind fun s' => s'.drain is

/-- A drain by `producer`: it cannot miss a command of its own thread. -/
def drainBy (s : FlushSchedule Guid) (producer : ℕ) (is : List ℕ) : Option (FlushSchedule Guid) :=
  (s.drain is).filter fun s' => s'.mFlushScheduleCommands.all fun q => q.1 ≠ producer

/-- `clearFlushSchedule`, after its drain. -/
def clear (s : FlushSchedule Guid) : FlushSchedule Guid :=
  { s with mFlushDueHeap := [], mFlushDueTokens := fun _ => none, mNextFlushToken := 1 }

end FlushSchedule

/-! ### The registry -/

namespace Registry

/-- A fresh context for `g`; its session starts connected. -/
def fresh (r : Registry Guid) (g : Guid) : Context Guid := ⟨g, r.inserted.length⟩

/-- `upsertSessionContext` with a fresh context. -/
def upsert (r : Registry Guid) (g : Guid) : Registry Guid :=
  { mSessionContexts := Function.update r.mSessionContexts g (some (r.fresh g))
    inserted := r.fresh g :: r.inserted
    mConnected := Function.update r.mConnected (r.fresh g) true
    mPeer := Function.update r.mPeer (r.fresh g) true }

def erase (r : Registry Guid) (g : Guid) : Registry Guid :=
  { r with mSessionContexts := Function.update r.mSessionContexts g none }

def setDisconnected (r : Registry Guid) (x : Context Guid) : Registry Guid :=
  { r with mConnected := Function.update r.mConnected x false }

def detach (r : Registry Guid) (x : Context Guid) : Registry Guid :=
  { r with mPeer := Function.update r.mPeer x false }

/-- The entries of the map. -/
def entries (r : Registry Guid) : List (Context Guid) :=
  r.inserted.filter fun x => r.mSessionContexts x.guid = some x

end Registry

/-! ### Steps of threads -/

/-- `removeSessionContext`, starting with its `cancelSessionFlush`. -/
def removeSessionContext (g : Guid) (after : After Guid) : Op Guid :=
  .enqueueCommand (.cancel g) (.removal after)

/-- What follows a command once it is queued or applied. -/
def Why.next (g : Guid) : Why Guid → List (Op Guid)
  | .connect | .flush => []
  | .removal after => [.eraseContext g after]

/-- The sessions disconnected after a removal. -/
def After.disconnects (removed : Option (Context Guid)) : After Guid → List (Context Guid)
  | .discard => []
  | .packet x => [removed.getD x]
  | .client => removed.toList

/-- The decision of `mOnRawIngressLimitExceeded`, if there is one. -/
def Settings.shouldDisconnect (cfg : Settings Guid) (ch : Choice) : Bool :=
  if cfg.mOnRawIngressLimitExceeded then ch.ok else true

/-- Whether the ingress window of `x` is over. -/
def State.windowOver (s : State Guid) (x : Context Guid) (now : ℤ) : Prop :=
  s.mRawIngressWindowStart x = 0 ∨ now - s.mRawIngressWindowStart x ≥ RAW_INGRESS_WINDOW

instance (s : State Guid) (x : Context Guid) (now : ℤ) : Decidable (s.windowOver x now) :=
  inferInstanceAs (Decidable (_ ∨ _))

/-- Begin a new ingress window if the last one is over. -/
def State.openWindow (s : State Guid) (x : Context Guid) (now : ℤ) : State Guid :=
  if s.windowOver x now then
    { s with
      mRawIngressWindowStart := Function.update s.mRawIngressWindowStart x now
      mRawIngressWindowPackets := Function.update s.mRawIngressWindowPackets x 0 }
  else s

/-- Count a packet in the ingress window. -/
def State.countPacket (s : State Guid) (x : Context Guid) : State Guid :=
  { s with
    mRawIngressWindowPackets :=
      Function.update s.mRawIngressWindowPackets x (s.mRawIngressWindowPackets x + 1) }

def State.setRegistry (s : State Guid) (r : Registry Guid) : State Guid := { s with registry := r }

def State.setSchedule (s : State Guid) (q : FlushSchedule Guid) : State Guid :=
  { s with schedule := q }

def State.countTask (s : State Guid) : State Guid :=
  { s with mPendingSessionPacketTasks := s.mPendingSessionPacketTasks + 1 }

/-- The I/O thread's dispatch: the new state, its next operations and the strand task
it starts. -/
def processIncomingPacket (cfg : Settings Guid) (s : State Guid) (p : Packet Guid) (ch : Choice) :
    State Guid × List (Op Guid) × List (Thread Guid) :=
  let sessionContext := s.registry.mSessionContexts p.guid
  if p.hasData = false ∨ p.length = 0 then
    -- an empty packet
    if cfg.shouldDisconnect ch then
      match sessionContext with
      | some x => (s, [.exchangeConnected x, removeSessionContext p.guid .discard, .release x], [])
      | none => (s, [.closeRemote p.guid], [])
    else (s, [], [])
  else
    match p.messageId, sessionContext with
    | .unconnectedPing, _ => (s, [], [])
    -- the entry of an earlier connection is replaced, its session not disconnected
    | .newIncomingConnection, old =>
      (s, .upsertSessionContext p.guid :: old.toList.map .release, [])
    -- a packet of nobody
    | _, none => (s, [], [])
    | _, some x =>
      if ch.ok then (s.countTask, [], [⟨⟨.packetTask x, ch.worker⟩, [.processSessionPacket p x]⟩])
      else (s, [], [])

/-- A strand task's work on a packet, up to its removal of the session. -/
def processSessionPacket (cfg : Settings Guid) (s : State Guid) (p : Packet Guid)
    (x : Context Guid) (ch : Choice) : State Guid × List (Op Guid) :=
  let remove := [removeSessionContext p.guid (.packet x)]
  if p.length > cfg.mRawIngressMaxPacketBytes then
    (s, if cfg.shouldDisconnect ch then remove else [])
  else
    -- the window is opened before its count is looked at
    let s := s.openWindow x ch.now
    if s.mRawIngressWindowPackets x ≥ cfg.mRawIngressMaxPacketsPerSecond then
      (s, if cfg.shouldDisconnect ch then remove else [])
    else
      match p.messageId with
      | .disconnectionNotification | .connectionLost => (s.countPacket x, remove)
      | _ => (s.countPacket x, [])

/-- The locked block of `flushTickOnce`. -/
def popDue (s : FlushSchedule Guid) (left : ℕ) (now : ℤ) : FlushSchedule Guid × List (Op Guid) :=
  match s.mFlushDueHeap with
  | [] => (s, [])
  | e :: heap =>
    if e.mDue > now then (s, [])
    else if s.mFlushDueTokens e.mGuid = some e.mToken then
      ({ s with mFlushDueHeap := heap },
        [.findContext e now, .drainFlushScheduleCommands left now])
    else ({ s with mFlushDueHeap := heap }, [.drainFlushScheduleCommands (left + 1) now])

/-- The next access of a thread: the new state, the operations that take its place,
and the threads it starts. -/
def execOp (cfg : Settings Guid) (s : State Guid) (producer : ℕ) (ch : Choice) :
    Op Guid → Option (State Guid × List (Op Guid) × List (Thread Guid))
  | .processIncomingPacket p => some (processIncomingPacket cfg s p ch)
  -- the first flush of a session is put off by the phase of its GUID
  | .upsertSessionContext g =>
    some (s.setRegistry (s.registry.upsert g),
      [.enqueueCommand (.schedule g (ch.now + cfg.flushPhaseOffsetForGuid g)) .connect], [])
  | .processSessionPacket p x =>
    let r := processSessionPacket cfg s p x ch
    some (r.1, r.2, [])
  -- the queue refuses a command when it has no memory
  | .enqueueCommand c why =>
    if ch.ok then some (s.setSchedule (s.schedule.enqueue producer c), why.next c.guid, [])
    else some (s, [.applyCommand c why], [])
  -- what is queued goes first, so that the order of a producer is kept
  | .applyCommand c why =>
    (s.schedule.drainBy producer ch.drain).map fun q =>
      (s.setSchedule (q.applyFlushScheduleCommandUnlocked c), why.next c.guid, [])
  | .eraseContext g after =>
    some (s.setRegistry (s.registry.erase g),
      (after.disconnects (s.registry.mSessionContexts g)).map .exchangeConnected, [])
  -- only the call that found the session connected closes the connection
  | .exchangeConnected x =>
    some (s.setRegistry (s.registry.setDisconnected x),
      if s.registry.mConnected x then [.loadPeer x] else [], [])
  | .loadPeer x => some (s, if s.registry.mPeer x then [.closeConnection x] else [], [])
  | .closeConnection _ | .closeRemote _ | .release _ => some (s, [], [])
  | .detachPeer x => some (s.setRegistry (s.registry.detach x), [], [])
  | .drainFlushScheduleCommands 0 _ => some (s, [], [])
  | .drainFlushScheduleCommands (left + 1) now =>
    (s.schedule.drainBy producer ch.drain).map fun q => (s.setSchedule q, [.popDue left now], [])
  | .popDue left now =>
    let r := popDue s.schedule left now
    some (s.setSchedule r.1, r.2, [])
  -- the session has gone since the entry was scheduled
  | .findContext e now =>
    match s.registry.mSessionContexts e.mGuid with
    | none => some (s, [.enqueueCommand (.cancel e.mGuid) .flush], [])
    | some x => some (s, [.checkConnected e x now], [])
  | .checkConnected e x now =>
    if s.registry.mConnected x then some (s, [.enqueueFlush e x now], [])
    else some (s, [.enqueueCommand (.cancel e.mGuid) .flush, .release x], [])
  -- the flush itself changes nothing here; the strand runs it, or refuses it
  | .enqueueFlush e x now =>
    if ch.ok then
      some (s.countTask, [], [⟨⟨.flushTask x, ch.worker⟩, [.reschedule e.mGuid x e.mDue now]⟩])
    else some (s, [.reschedule e.mGuid x e.mDue now, .release x], [])
  -- the next flush, unless the session has been disconnected meanwhile
  | .reschedule g x previousDue now =>
    if s.registry.mConnected x then
      some (s, [.enqueueCommand (.schedule g (nextScheduledFlushDue previousDue now)) .flush], [])
    else some (s, [.enqueueCommand (.cancel g) .flush], [])
  | .joinIo =>
    if s.mIoPumpThread = .idle then some ({ s with mIoPumpThread := .absent }, [], []) else none
  | .waitForPendingFlushJobs => if s.mPendingFlushJobs = 0 then some (s, [], []) else none
  | .waitForPendingSessionPacketTasks =>
    if s.mPendingSessionPacketTasks = 0 then some (s, [], []) else none
  | .clearFlushSchedule =>
    (s.schedule.drainBy producer ch.drain).map fun q => (s.setSchedule q.clear, [], [])
  | .collectContexts =>
    some (s, s.registry.entries.flatMap fun x => [.exchangeConnected x, .detachPeer x], [])
  | .collectKeys =>
    some (s, s.registry.entries.map fun x => removeSessionContext x.guid .discard, [])

/-- What the last step of a thread gives back. -/
def finish (s : State Guid) : Role Guid → State Guid
  | .io => { s with mIoPumpThread := .idle }
  | .flushPump => { s with mPendingFlushJobs := s.mPendingFlushJobs - 1 }
  | .packetTask _ | .flushTask _ =>
    { s with mPendingSessionPacketTasks := s.mPendingSessionPacketTasks - 1 }
  | .user | .destructor _ | .stop => s

/-! ### Steps from outside -/

/-- The contexts an operation holds a reference to. -/
def Op.holds : Op Guid → List (Context Guid)
  | .processSessionPacket _ x | .exchangeConnected x | .loadPeer x | .closeConnection x
  | .detachPeer x | .release x | .checkConnected _ x _ | .enqueueFlush _ x _
  | .reschedule _ x _ _ => [x]
  | .enqueueCommand _ (.removal (.packet x)) | .applyCommand _ (.removal (.packet x))
  | .eraseContext _ (.packet x) => [x]
  | _ => []

/-- The contexts a thread holds a reference to. -/
def Thread.holds (t : Thread Guid) : List (Context Guid) :=
  (match t.tag.role with
    | .packetTask x | .flushTask x | .destructor x => [x]
    | _ => []) ++ t.code.flatMap Op.holds

/-- The operations of `stop`. -/
def stopCode (wasRunning : Bool) : List (Op Guid) :=
  (if wasRunning then
    [.joinIo, .waitForPendingFlushJobs, .waitForPendingSessionPacketTasks, .clearFlushSchedule]
  else []) ++ [.collectContexts, .collectKeys]

/-- Calls and packets that arrive. `start` and the part of `stop` for a
running server touch `mIoPumpThread` and are not issued concurrently; a failed
`start` changes nothing, and up to the creation of its pumps `start` is one step. -/
def arrive (cfg : Settings Guid) (s : State Guid) (ts : List (Thread Guid)) :
    Call Guid → Option (State Guid × List (Thread Guid))
  -- the I/O thread has one packet at a time
  | .receive p =>
    if s.mIoPumpThread = .idle then
      some ({ s with mIoPumpThread := .busy }, [⟨⟨.io, 0⟩, [.processIncomingPacket p]⟩])
    else none
  | .flushTick now producer =>
    if s.mRunning then
      some ({ s with mPendingFlushJobs := s.mPendingFlushJobs + 1 },
        [⟨⟨.flushPump, producer⟩, [.drainFlushScheduleCommands cfg.mFlushReadyPerTick now]⟩])
    else none
  | .disconnectClient g producer =>
    some (s, [⟨⟨.user, producer⟩, [removeSessionContext g .client]⟩])
  | .disconnect x =>
    if x ∈ s.registry.inserted then some (s, [⟨⟨.user, 0⟩, [.exchangeConnected x]⟩]) else none
  -- nobody holds the session any more
  | .destroy x =>
    if x ∈ s.registry.inserted ∧ s.registry.mSessionContexts x.guid ≠ some x ∧
        ∀ t ∈ ts, x ∉ t.holds then
      some (s, [⟨⟨.destructor x, 0⟩, [.exchangeConnected x]⟩])
    else none
  | .start is =>
    if s.mRunning = false ∧ ∀ t ∈ ts, t.tag.role ≠ .stop then
      (s.schedule.drain is).map fun q =>
        ({ s with
            mRunning := true
            mIoPumpThread := if s.mIoPumpThread = .absent then .idle else s.mIoPumpThread
            schedule := q.clear }, [])
    else none
  | .stop producer =>
    some ({ s with mRunning := false }, [⟨⟨.stop, producer⟩, stopCode s.mRunning⟩])

/-- A constructed server that was never started. -/
def State.initial : State Guid where
  mRunning := false
  mIoPumpThread := .absent
  mPendingFlushJobs := 0
  mPendingSessionPacketTasks := 0
  registry := ⟨fun _ => none, [], fun _ => false, fun _ => false⟩
  schedule := ⟨[], [], fun _ => none, 1⟩
  mRawIngressWindowStart := fun _ => 0
  mRawIngressWindowPackets := fun _ => 0

/-- The threads of a server. -/
def scripts (cfg : Settings Guid) :
    Scripts (State Guid) (Tag Guid) (Op Guid) Choice (Call Guid) :=
  ⟨fun s tag ch op => execOp cfg s tag.producer ch op, fun s tag => finish s tag.role, arrive cfg⟩

/-- A server's threads over its shared state. -/
abbrev Server (Guid : Type) := Scripts.Pool (State Guid) (Tag Guid) (Op Guid)

/-- A transition of a server. -/
abbrev ServerStep (Guid : Type) :=
  Scripts.PoolStep (State Guid) (Tag Guid) (Op Guid) Choice (Call Guid)

/-- The transition system of one server: its threads, in any interleaving. -/
def system (cfg : Settings Guid) :
    System (Server Guid) (Move (Event Choice (Call Guid))) :=
  (scripts cfg).program.system ⟨State.initial, []⟩

end Sessions
end SculkProtocol
