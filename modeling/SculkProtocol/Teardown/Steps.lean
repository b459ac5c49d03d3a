import SculkProtocol.Server.SessionSteps
import SculkProtocol.Teardown.Threads

/-!
# What the teardown waits for

The inversions of the model (`execOp_effect`, `execOp_successor`, `execOp_spawns`,
`arrive_cases`), and what follows from them about the time of destruction
(`QuietInvariant`): when the peer is destroyed, everything that `stop` waits for has
counted down, so no I/O pass is left that could create a session or receive a packet,
and on an owned thread pool no task is left at all.

`Placed` is the reason: whatever creates a session or receives a packet stands before
the `countDown` of its thread.
-/

namespace SculkProtocol
namespace Teardown

open Sessions (Context Registry After)
open Scripts

variable {Key : Type} {setup : Setup Key}

/-! ### Successors -/

/-- The end of a thread changes nothing but the pool's count. -/
theorem finish_same (s : State Key) (role : Role) :
    (finish setup s role).mRunning = s.mRunning ∧
      (finish setup s role).destroying = s.destroying ∧
      (finish setup s role).peerDestroyed = s.peerDestroyed ∧
      (finish setup s role).pending = s.pending ∧ (finish setup s role).registry = s.registry := by
  unfold finish
  split <;> exact ⟨rfl, rfl, rfl, rfl, rfl⟩

/-- `Successor s op o`: in state `s`, the access `op` may be followed by `o`. -/
inductive Successor (s : State Key) : Op Key → Op Key → Prop
  | created {k : Key} : Successor s .receive (.upsertSession k)
  | dropped {k : Key} : Successor s .receive (.dropSession k)
  | received : Successor s .receive .deallocatePacket
  | again : Successor s .receive .receive
  | next : Successor s .flushTick .flushTick
  | clientFlush {k : Key} {x : Context Key} : Successor s (.flushSession k) (.flushCheck x)
  | dropDisconnect {k : Key} {x : Context Key} : Successor s (.dropSession k) (.exchangeConnected x)
  | dropErase {k : Key} {after : After Key} : Successor s (.dropSession k) (.eraseSession k after)
  | packetErase {k : Key} {x : Context Key} {after : After Key} :
      Successor s (.processSessionPacket k x) (.eraseSession k after)
  | erased {k : Key} {after : After Key} {x : Context Key} :
      Successor s (.eraseSession k after) (.exchangeConnected x)
  | flushSend {x : Context Key} : Successor s (.flushCheck x) (.loadForSend x)
  | loadedForSend {x : Context Key} : s.registry.mPeer x = true →
      Successor s (.loadForSend x) (.checkForSend x)
  | send {x : Context Key} : s.registry.mConnected x = true →
      Successor s (.checkForSend x) (.call .send x)
  | status {x : Context Key} : s.registry.mConnected x = true →
      Successor s (.statusConnected x) (.statusLoad x)
  | statusCall {x : Context Key} {f : PeerCall} : s.registry.mPeer x = true →
      Successor s (.statusLoad x) (.call f x)
  | exchanged {x : Context Key} : s.registry.mConnected x = true →
      Successor s (.exchangeConnected x) (.loadPeer x)
  | close {x : Context Key} : s.registry.mPeer x = true →
      Successor s (.loadPeer x) (.call .closeConnection x)
  | collectDisconnect {x : Context Key} : Successor s .collectContexts (.exchangeConnected x)
  | collectDetach {x : Context Key} : Successor s .collectContexts (.detachPeer x)
  | collectErase {k : Key} {after : After Key} : Successor s .collectKeys (.eraseSession k after)
  | teardownDisconnect {k : Key} {x : Context Key} :
      Successor s (.teardownSession k) (.exchangeConnected x)
  | teardownDetach {k : Key} {x : Context Key} : Successor s (.teardownSession k) (.detachPeer x)
  | teardownErase {k : Key} {after : After Key} :
      Successor s (.teardownSession k) (.eraseSession k after)

/-- Reading the parts of an executed access. -/
theorem parts_eq {s s' : State Key} {ops ops' : List (Op Key)} {ts ts' : List (Thread Key)}
    (h : some (s, ops, ts) = some (s', ops', ts')) : s = s' ∧ ops = ops' ∧ ts = ts' := by
  injection h with h
  injection h with h₁ h
  injection h with h₂ h₃
  exact ⟨h₁, h₂, h₃⟩

/-- What follows a branch is what stands in the branch. -/
theorem mem_branch {b : Bool} {ops : List (Op Key)} {o : Op Key}
    (h : o ∈ if b = true then ops else []) : b = true ∧ o ∈ ops := by
  cases b with
  | true => exact ⟨rfl, h⟩
  | false => exact absurd h List.not_mem_nil

/-- What follows a packet is one of the successors. -/
theorem receive_successor (s : State Key) (ch : Choice Key) :
    ∀ o ∈ (receive setup s ch).2.1, Successor s .receive o := by
  -- after a packet of any kind comes the next `receive`
  unfold receive
  intro o ho
  split at ho
  · exact absurd ho List.not_mem_nil
  · simp only [List.mem_cons, List.not_mem_nil, or_false] at ho
    rcases ho with rfl | rfl | rfl
    · exact .created
    · exact .received
    · exact .again
  · simp only [List.mem_cons, List.not_mem_nil, or_false] at ho
    rcases ho with rfl | rfl | rfl
    · exact .dropped
    · exact .received
    · exact .again
  · simp only [List.mem_cons, List.not_mem_nil, or_false] at ho
    rcases ho with rfl | rfl
    · exact .received
    · exact .again
  · split at ho
    · split at ho
      · rw [List.mem_singleton.mp ho]
        exact .again
      · simp only [List.mem_cons, List.not_mem_nil, or_false] at ho
        rcases ho with rfl | rfl
        · exact .received
        · exact .again
    · simp only [List.mem_cons, List.not_mem_nil, or_false] at ho
      rcases ho with rfl | rfl
      · exact .received
      · exact .again

/-! ### Inversions -/

variable [DecidableEq Key]

/-- The effect of an access on the sessions. -/
def Op.onRegistry (r : Registry Key) : Op Key → Registry Key
  | .upsertSession k => r.upsert k
  | .eraseSession k _ => r.erase k
  | .exchangeConnected x => r.setDisconnected x
  | .detachPeer x => r.detach x
  | _ => r

/-- How often a thread will count down. -/
def downs (t : Thread Key) : ℕ := t.code.count .countDown

/-- Whether a thread occupies the thread pool. -/
def poolWeight (setup : Setup Key) (t : Thread Key) : ℕ := if t.tag.pooled setup.kind then 1 else 0

/-- The threads an access can start. -/
inductive Spawn : Op Key → Thread Key → Prop
  | packetTask {k : Key} {x : Context Key} :
      Spawn .receive ⟨.task, [.processSessionPacket k x, .countDown, .deallocatePacket]⟩
  | flushTask {x : Context Key} : Spawn .flushTick ⟨.task, [.flushCheck x, .countDown]⟩

/-- What an access changes. -/
structure Effect (setup : Setup Key) (s s' : State Key) (op : Op Key) (ts : List (Thread Key)) :
    Prop where
  registry : s'.registry = op.onRegistry s.registry
  running : s'.mRunning = s.mRunning
  destroying : s'.destroying = s.destroying
  countDown : op = .countDown → s'.pending = s.pending - 1 ∧ ts = []
  pending : op ≠ .countDown → s'.pending = s.pending + Config.total downs ts
  pooled : s'.pooled = s.pooled + Config.total (poolWeight setup) ts
  spawns : ∀ t ∈ ts, Spawn op t
  destroyed : s'.peerDestroyed = true →
    s.peerDestroyed = true ∨ op = .destroyPeer ∧ (setup.ownsPool = true → s.pooled = 0)

/-- An access that only reads. -/
theorem Effect.refl (s : State Key) {op : Op Key} (hop : op.onRegistry s.registry = s.registry)
    (hne : op ≠ .countDown) : Effect setup s s op [] where
  registry := hop.symm
  running := rfl
  destroying := rfl
  countDown := fun h => absurd h hne
  pending := fun _ => rfl
  pooled := rfl
  spawns := fun _ ht => absurd ht List.not_mem_nil
  destroyed := Or.inl

/-- An access that changes the sessions. -/
theorem Effect.setRegistry (s : State Key) (op : Op Key) (hne : op ≠ .countDown) :
    Effect setup s (s.setRegistry (op.onRegistry s.registry)) op [] where
  registry := rfl
  running := rfl
  destroying := rfl
  countDown := fun h => absurd h hne
  pending := fun _ => rfl
  pooled := rfl
  spawns := fun _ ht => absurd ht List.not_mem_nil
  destroyed := Or.inl

/-- An access that starts a task. -/
theorem Effect.spawn (s : State Key) {op : Op Key} {t : Thread Key}
    (hop : op.onRegistry s.registry = s.registry) (hne : op ≠ .countDown) (hspawn : Spawn op t) :
    Effect setup s (s.count setup .task) op [t] := by
  have htag : t.tag = .task ∧ downs t = 1 := by cases hspawn <;> simp [downs]
  refine ⟨hop.symm, rfl, rfl, fun h => absurd h hne, fun _ => ?_, ?_, ?_, Or.inl⟩
  · rw [Config.total_cons, htag.2]; rfl
  · rw [Config.total_cons, poolWeight, htag.1]; rfl
  · exact fun u hu => List.mem_singleton.mp hu ▸ hspawn

/-- **Effects.** -/
theorem execOp_effect {s s' : State Key} {ch : Choice Key} {op : Op Key} {ops : List (Op Key)}
    {ts : List (Thread Key)} (h : execOp setup s ch op = some (s', ops, ts)) :
    Effect setup s s' op ts := by
  cases op with
  | receive =>
    simp only [execOp, receive] at h
    split at h
    · obtain ⟨rfl, -, rfl⟩ := parts_eq h; exact .refl s rfl (by simp)
    · obtain ⟨rfl, -, rfl⟩ := parts_eq h; exact .refl s rfl (by simp)
    · obtain ⟨rfl, -, rfl⟩ := parts_eq h; exact .refl s rfl (by simp)
    · obtain ⟨rfl, -, rfl⟩ := parts_eq h; exact .refl s rfl (by simp)
    · split at h
      · split at h
        · obtain ⟨rfl, -, rfl⟩ := parts_eq h
          -- the pool has accepted the task of a packet
          exact .spawn s rfl (by simp) .packetTask
        · obtain ⟨rfl, -, rfl⟩ := parts_eq h; exact .refl s rfl (by simp)
      · obtain ⟨rfl, -, rfl⟩ := parts_eq h; exact .refl s rfl (by simp)
  | flushTick =>
    simp only [execOp] at h
    split at h
    · obtain ⟨rfl, -, rfl⟩ := parts_eq h; exact .refl s rfl (by simp)
    · split at h
      · split at h
        · obtain ⟨rfl, -, rfl⟩ := parts_eq h
          -- the pool has accepted the task of a flush
          exact .spawn s rfl (by simp) .flushTask
        · obtain ⟨rfl, -, rfl⟩ := parts_eq h; exact .refl s rfl (by simp)
      · obtain ⟨rfl, -, rfl⟩ := parts_eq h; exact .refl s rfl (by simp)
  | flushSession k | dropSession k | teardownSession k =>
    simp only [execOp] at h
    split at h <;> (obtain ⟨rfl, -, rfl⟩ := parts_eq h; exact .refl s rfl (by simp))
  | processSessionPacket k x | flushCheck x | loadForSend x | checkForSend x | statusConnected x
  | statusLoad x | loadPeer x | call f x | deallocatePacket | collectContexts | collectKeys =>
    obtain ⟨rfl, -, rfl⟩ := parts_eq h
    exact .refl s rfl (by simp)
  | upsertSession k =>
    obtain ⟨rfl, -, rfl⟩ := parts_eq h
    exact .setRegistry s (.upsertSession k) (by simp)
  | eraseSession k after =>
    obtain ⟨rfl, -, rfl⟩ := parts_eq h
    exact .setRegistry s (.eraseSession k after) (by simp)
  | exchangeConnected x =>
    obtain ⟨rfl, -, rfl⟩ := parts_eq h
    exact .setRegistry s (.exchangeConnected x) (by simp)
  | detachPeer x =>
    obtain ⟨rfl, -, rfl⟩ := parts_eq h
    exact .setRegistry s (.detachPeer x) (by simp)
  | countDown =>
    obtain ⟨rfl, -, rfl⟩ := parts_eq h
    exact ⟨rfl, rfl, rfl, fun _ => ⟨rfl, rfl⟩, fun hne => absurd rfl hne, rfl,
      fun _ ht => absurd ht List.not_mem_nil, Or.inl⟩
  | waitPending =>
    simp only [execOp] at h
    split at h
    · obtain ⟨rfl, -, rfl⟩ := parts_eq h; exact .refl s rfl (by simp)
    · exact absurd h (by simp)
  | destroyPeer =>
    simp only [execOp] at h
    split at h
    · exact absurd h (by simp)
    · next hjoined =>
      obtain ⟨rfl, -, rfl⟩ := parts_eq h
      -- where the pool belongs to the network system, its threads have ended before
      refine ⟨rfl, rfl, rfl, fun heq => absurd heq (by simp), fun _ => rfl, rfl,
        fun _ ht => absurd ht List.not_mem_nil, fun _ => Or.inr ⟨rfl, fun howns => ?_⟩⟩
      simpa [howns] using hjoined

/-- **Successors.** -/
theorem execOp_successor {s s' : State Key} {ch : Choice Key} {op : Op Key} {ops : List (Op Key)}
    {ts : List (Thread Key)} (h : execOp setup s ch op = some (s', ops, ts)) :
    ∀ o ∈ ops, Successor s op o := by
  intro o ho
  cases op with
  | receive =>
    have hops : (receive setup s ch).2.1 = ops := by rw [Option.some.inj h]
    exact receive_successor s ch o (hops ▸ ho)
  | flushTick =>
    simp only [execOp] at h
    split at h
    · obtain ⟨-, rfl, -⟩ := parts_eq h; exact absurd ho List.not_mem_nil
    · split at h
      · split at h <;>
          (obtain ⟨-, rfl, -⟩ := parts_eq h; rw [List.mem_singleton.mp ho]; exact .next)
      · obtain ⟨-, rfl, -⟩ := parts_eq h
        rw [List.mem_singleton.mp ho]
        exact .next
  | flushSession k =>
    simp only [execOp] at h
    split at h
    · obtain ⟨-, rfl, -⟩ := parts_eq h
      rw [List.mem_singleton.mp ho]
      exact .clientFlush
    · obtain ⟨-, rfl, -⟩ := parts_eq h; exact absurd ho List.not_mem_nil
  | dropSession k =>
    simp only [execOp] at h
    split at h
    · obtain ⟨-, rfl, -⟩ := parts_eq h
      simp only [List.mem_cons, List.not_mem_nil, or_false] at ho
      rcases ho with rfl | rfl
      · exact .dropDisconnect
      · exact .dropErase
    · obtain ⟨-, rfl, -⟩ := parts_eq h; exact absurd ho List.not_mem_nil
  | teardownSession k =>
    simp only [execOp] at h
    split at h
    · obtain ⟨-, rfl, -⟩ := parts_eq h
      simp only [List.mem_cons, List.not_mem_nil, or_false] at ho
      rcases ho with rfl | rfl | rfl
      · exact .teardownDisconnect
      · exact .teardownDetach
      · exact .teardownErase
    · obtain ⟨-, rfl, -⟩ := parts_eq h; exact absurd ho List.not_mem_nil
  | processSessionPacket k x =>
    obtain ⟨-, rfl, -⟩ := parts_eq h
    obtain ⟨-, ho⟩ := mem_branch ho
    rw [List.mem_singleton.mp ho]
    exact .packetErase
  | eraseSession k after =>
    obtain ⟨-, rfl, -⟩ := parts_eq h
    obtain ⟨x, -, rfl⟩ := List.mem_map.mp ho
    exact .erased
  | flushCheck x =>
    obtain ⟨-, rfl, -⟩ := parts_eq h
    obtain ⟨-, ho⟩ := mem_branch ho
    rw [List.mem_singleton.mp ho]
    exact .flushSend
  | loadForSend x =>
    obtain ⟨-, rfl, -⟩ := parts_eq h
    obtain ⟨hpeer, ho⟩ := mem_branch ho
    rw [List.mem_singleton.mp ho]
    exact .loadedForSend hpeer
  | checkForSend x =>
    obtain ⟨-, rfl, -⟩ := parts_eq h
    -- a packet is sent only where the session is connected after the load
    obtain ⟨hb, ho⟩ := mem_branch ho
    rw [List.mem_singleton.mp ho]
    exact .send (Bool.and_eq_true_iff.mp hb).1
  | statusConnected x =>
    obtain ⟨-, rfl, -⟩ := parts_eq h
    obtain ⟨hconn, ho⟩ := mem_branch ho
    rw [List.mem_singleton.mp ho]
    exact .status hconn
  | statusLoad x =>
    obtain ⟨-, rfl, -⟩ := parts_eq h
    obtain ⟨hb, ho⟩ := mem_branch ho
    have hpeer := (Bool.and_eq_true_iff.mp hb).1
    rcases List.mem_append.mp ho with ho | ho
    · obtain ⟨-, ho⟩ := mem_branch ho
      rw [List.mem_singleton.mp ho]
      exact .statusCall hpeer
    · simp only [List.mem_cons, List.not_mem_nil, or_false] at ho
      -- the calls for the status, all on the peer that was loaded
      rcases ho with rfl | rfl | rfl | rfl | rfl <;> exact .statusCall hpeer
  | exchangeConnected x =>
    obtain ⟨-, rfl, -⟩ := parts_eq h
    obtain ⟨hconn, ho⟩ := mem_branch ho
    rw [List.mem_singleton.mp ho]
    exact .exchanged hconn
  | loadPeer x =>
    obtain ⟨-, rfl, -⟩ := parts_eq h
    obtain ⟨hpeer, ho⟩ := mem_branch ho
    rw [List.mem_singleton.mp ho]
    exact .close hpeer
  | upsertSession k | call f x | deallocatePacket | detachPeer x | countDown =>
    obtain ⟨-, rfl, -⟩ := parts_eq h
    exact absurd ho List.not_mem_nil
  | waitPending =>
    simp only [execOp] at h
    split at h
    · obtain ⟨-, rfl, -⟩ := parts_eq h; exact absurd ho List.not_mem_nil
    · exact absurd h (by simp)
  | destroyPeer =>
    simp only [execOp] at h
    split at h
    · exact absurd h (by simp)
    · obtain ⟨-, rfl, -⟩ := parts_eq h; exact absurd ho List.not_mem_nil
  | collectContexts =>
    obtain ⟨-, rfl, -⟩ := parts_eq h
    obtain ⟨x, -, ho⟩ := List.mem_flatMap.mp ho
    simp only [List.mem_cons, List.not_mem_nil, or_false] at ho
    rcases ho with rfl | rfl
    · exact .collectDisconnect
    · exact .collectDetach
  | collectKeys =>
    obtain ⟨-, rfl, -⟩ := parts_eq h
    obtain ⟨x, -, rfl⟩ := List.mem_map.mp ho
    exact .collectErase

/-! ### What stands before the count-down -/

/-- Operations that only a thread does that `stop` waits for. A packet's owner is one of
them for the threads that are not of the pool. -/
def Op.Working (pooled : Bool) : Op Key → Prop
  | .receive | .flushTick | .upsertSession _ => True
  | .deallocatePacket => pooled = false
  | _ => False

/-- The working operations of a thread stand before its count-down. -/
def Placed (pooled : Bool) : List (Op Key) → Prop
  | [] => True
  | op :: rest => (op.Working pooled → .countDown ∈ rest) ∧ Placed pooled rest

omit [DecidableEq Key] in
/-- What a task goes on with, it was working on. -/
theorem Successor.working {s : State Key} {op o : Op Key} {pooled : Bool} (h : Successor s op o)
    (ho : o.Working pooled) : op.Working pooled := by
  cases h with
  | created | received | again | next => trivial
  | _ => exact absurd ho id

omit [DecidableEq Key] in
/-- Nothing is followed by the end of the task or of the peer. -/
theorem Successor.ne {s : State Key} {op o : Op Key} (h : Successor s op o) :
    o ≠ .countDown ∧ o ≠ .waitPending ∧ o ≠ .destroyPeer := by
  cases h <;> simp

omit [DecidableEq Key] in
/-- Operations put in front of a script are placed if the script is. -/
theorem Placed.append {pooled : Bool} {ops rest : List (Op Key)} (hrest : Placed pooled rest)
    (hops : ∀ o ∈ ops, o.Working pooled → .countDown ∈ rest) : Placed pooled (ops ++ rest) := by
  induction ops with
  | nil => exact hrest
  | cons o ops ih =>
    refine ⟨fun ho => ?_, ih fun o ho => hops o (List.mem_cons_of_mem _ ho)⟩
    exact List.mem_append_right _ (hops o List.mem_cons_self ho)

omit [DecidableEq Key] in
/-- A task that works has still to count down. -/
theorem Placed.working {pooled : Bool} {code : List (Op Key)} (h : Placed pooled code) {op : Op Key}
    (hop : op ∈ code) (hw : op.Working pooled) : .countDown ∈ code := by
  induction code with
  | nil => exact absurd hop List.not_mem_nil
  | cons o rest ih =>
    rcases List.mem_cons.mp hop with rfl | hop
    · exact List.mem_cons_of_mem _ (h.1 hw)
    · exact List.mem_cons_of_mem _ (ih h.2 hop)

omit [DecidableEq Key] in
/-- A new thread has its places. -/
theorem Spawn.placed {op : Op Key} {t : Thread Key} (h : Spawn op t) :
    Placed (t.tag.pooled setup.kind) t.code := by
  cases h <;> simp [Placed, Op.Working, Role.pooled]

/-! ### Arrivals -/

/-- Operations of a pass or pump job that begins. -/
def Op.Pass : Op Key → Prop
  | .receive | .flushTick | .flushSession _ | .countDown => True
  | _ => False

/-- Operations of a user's call that begins. -/
def Op.Entry : Op Key → Prop
  | .loadForSend _ | .flushCheck _ | .statusConnected _ | .exchangeConnected _ | .eraseSession _ _
  | .waitPending | .teardownSession _ => True
  | _ => False

/-- What a call does: the new state and the threads it starts. -/
inductive Arrives (setup : Setup Key) (s : State Key) (ts : List (Thread Key)) :
    State Key → List (Thread Key) → Prop
  | start : s.mRunning = false → s.destroying = false → (∀ t ∈ ts, t.tag ≠ .lifecycle) →
      Arrives setup s ts { s with mRunning := true } []
  | pass {t : Thread Key} : s.mRunning = true → t.tag ≠ .lifecycle → downs t = 1 →
      Placed (t.tag.pooled setup.kind) t.code → (∀ op ∈ t.code, op.Pass) →
      Arrives setup s ts (s.count setup t.tag) [t]
  | user {code : List (Op Key)} : (∀ op ∈ code, op.Entry) → Arrives setup s ts s [⟨.user, code⟩]
  | stop : s.destroying = false → (∀ t ∈ ts, t.tag ≠ .lifecycle) →
      Arrives setup s ts { s with mRunning := false }
        [⟨.lifecycle, setup.stopCode s.mRunning⟩]
  | destroy : s.destroying = false → (∀ t ∈ ts, t.tag ≠ .lifecycle) →
      Arrives setup s ts { s with mRunning := false, destroying := true }
        [⟨.lifecycle, setup.stopCode s.mRunning ++ [.destroyPeer]⟩]

/-- A call is one of the arrivals. -/
theorem arrive_cases {s s' : State Key} {ts new : List (Thread Key)} {a : Call Key}
    (h : arrive setup s ts a = some (s', new)) : Arrives setup s ts s' new := by
  cases a with
  | start =>
    simp only [arrive] at h
    split at h
    · next hquiet =>
      -- no thread is left from before
      obtain ⟨rfl, rfl⟩ := Prod.mk.inj (Option.some.inj h)
      exact .start hquiet.1 hquiet.2.1 hquiet.2.2
    · exact absurd h (by simp)
  | ioPass =>
    simp only [arrive] at h
    split at h
    · next hrun =>
      obtain ⟨rfl, rfl⟩ := Prod.mk.inj (Option.some.inj h)
      refine .pass (t := ⟨.io, setup.kind.passCode⟩) hrun.1 (by simp) ?_ ?_ ?_
      · -- a pass of the I/O thread, with the code of the server or of the client
        cases setup.kind <;> simp [downs, Kind.passCode]
      · cases setup.kind <;> simp [Kind.passCode, Placed, Op.Working]
      · cases setup.kind <;> simp [Kind.passCode, Op.Pass]
    · exact absurd h (by simp)
  | flushJob =>
    simp only [arrive] at h
    split at h
    · next hrun =>
      obtain ⟨rfl, rfl⟩ := Prod.mk.inj (Option.some.inj h)
      exact .pass (t := ⟨.task, [.flushTick, .countDown]⟩) hrun.1 (by simp) (by simp [downs])
        (by simp [Placed, Op.Working]) (by simp [Op.Pass])
    · exact absurd h (by simp)
  | use m x =>
    simp only [arrive] at h
    split at h
    · obtain ⟨rfl, rfl⟩ := Prod.mk.inj (Option.some.inj h)
      refine .user fun op hop => ?_
      rw [List.mem_singleton.mp hop]
      cases m <;> trivial
    · exact absurd h (by simp)
  | disconnect k =>
    simp only [arrive] at h
    split at h
    · obtain ⟨rfl, rfl⟩ := Prod.mk.inj (Option.some.inj h)
      exact .user (by simp [Op.Entry])
    · obtain ⟨rfl, rfl⟩ := Prod.mk.inj (Option.some.inj h)
      exact .user (by simp [Op.Entry])
  | stop =>
    simp only [arrive] at h
    split at h
    · next hquiet =>
      obtain ⟨rfl, rfl⟩ := Prod.mk.inj (Option.some.inj h)
      exact .stop hquiet.1 hquiet.2
    · exact absurd h (by simp)
  | destroy =>
    simp only [arrive] at h
    split at h
    · next hquiet =>
      obtain ⟨rfl, rfl⟩ := Prod.mk.inj (Option.some.inj h)
      exact .destroy hquiet.1 hquiet.2
    · exact absurd h (by simp)

omit [DecidableEq Key] in
/-- Operations of a user's call are not working ones. -/
theorem Op.Entry.not_working {op : Op Key} {pooled : Bool} (h : op.Entry) :
    ¬ op.Working pooled := by
  cases op <;> first | exact absurd h id | exact id

omit [DecidableEq Key] in
/-- A call that is entered has its places. -/
theorem placed_of_entry {pooled : Bool} {code : List (Op Key)} (h : ∀ op ∈ code, op.Entry) :
    Placed pooled code := by
  induction code with
  | nil => trivial
  | cons op rest ih =>
    exact ⟨fun hw => absurd hw (h op List.mem_cons_self).not_working,
      ih fun o ho => h o (List.mem_cons_of_mem _ ho)⟩

omit [DecidableEq Key] in
/-- The operations of `stop` are those of the teardown, after the waits. -/
theorem placed_stopCode (pooled wasRunning : Bool) (tail : List (Op Key))
    (htail : tail = [] ∨ tail = [.destroyPeer]) :
    Placed pooled (setup.stopCode wasRunning ++ tail) := by
  rcases htail with rfl | rfl <;> cases hkind : setup.kind <;> cases wasRunning <;>
    simp [Setup.stopCode, Kind.teardownCode, hkind, Placed, Op.Working]

end Teardown
end SculkProtocol
