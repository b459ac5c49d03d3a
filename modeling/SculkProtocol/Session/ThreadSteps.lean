import SculkProtocol.Session.Threads

/-!
# What the threads of a session can do

For the safety of `disconnect` it matters which mutexes a thread holds, whether it is about to
push a packet, and how far it has come in `disconnect`. This is its `Stage`; `execOp_steps` says
once what a step of each stage does to the session, and `step_cases` what a move of the pool
does to the number of threads in each stage.
-/

namespace SculkProtocol
namespace Session
namespace Threads

open Scripts

/-- Where a thread is. -/
inductive Stage
  /-- it holds no mutex, and is not in `disconnect` behind the exchange -/
  | outside
  /-- under the mutex of `q` -/
  | inside (q : Queue)
  /-- under the mutex of `q`, having found the session connected -/
  | pushing (q : Queue)
  /-- `disconnect` has exchanged `mConnected` and holds no mutex -/
  | waiting (wasConnected : Bool)
  /-- `disconnect` has the mutex of `q` only -/
  | half (q : Queue) (wasConnected : Bool)
  /-- `disconnect` has both and empties the queue `q` -/
  | draining (q : Queue) (wasConnected : Bool)
  | drained (wasConnected : Bool)
  /-- `disconnect` has emptied both queues, and has the mutex of `q` only -/
  | leaving (q : Queue) (wasConnected : Bool)
  | closing
  /-- `disconnect` is about to return -/
  | left
  deriving DecidableEq

def Op.stage : Op → Stage
  | .enter _ | .sendBatchedBufferImmediately _ | .encode _ | .send _ | .ret _ => .outside
  | .loadConnected q _ | .unlock q _ => .inside q
  | .popFront => .inside .inbound
  | .testDue _ | .setDue _ | .flushConnected | .flushPeer | .swap | .unlockFlush _ =>
    .inside .outbound
  | .pushBack q _ => .pushing q
  | .lockFirst was => .waiting was
  | .lockOther q was => .half q was
  | .drainOutbound was => .draining .outbound was
  | .drainInbound was => .draining .inbound was
  | .unlockFirst was => .drained was
  | .unlockLast q was => .leaving q was
  | .closeConnection => .closing
  | .retVoid => .left

namespace State

variable (s : State) (q q' : Queue) (held : Bool) (packets : List Bytes) (entry : Entry)

@[simp] theorem locked_setLocked :
    (s.setLocked held q').locked q = if q = q' then held else s.locked q := by
  cases q <;> cases q' <;> rfl

@[simp] theorem packets_setLocked : (s.setLocked held q').packets q = s.packets q := by
  cases q <;> cases q' <;> rfl

@[simp] theorem connected_setLocked :
    (s.setLocked held q).session.mConnected = s.session.mConnected := by
  cases q <;> rfl

@[simp] theorem log_setLocked : (s.setLocked held q).log = s.log := by
  cases q <;> rfl

@[simp] theorem locked_setPackets : (s.setPackets packets q').locked q = s.locked q := by
  cases q <;> cases q' <;> rfl

@[simp] theorem packets_setPackets :
    (s.setPackets packets q').packets q = if q = q' then packets else s.packets q := by
  cases q <;> cases q' <;> rfl

@[simp] theorem connected_setPackets :
    (s.setPackets packets q).session.mConnected = s.session.mConnected := by
  cases q <;> rfl

@[simp] theorem log_setPackets : (s.setPackets packets q).log = s.log := by
  cases q <;> rfl

@[simp] theorem locked_record : (s.record entry).locked q = s.locked q := by
  cases q <;> rfl

@[simp] theorem packets_record : (s.record entry).packets q = s.packets q := by
  cases q <;> rfl

@[simp] theorem connected_record :
    (s.record entry).session.mConnected = s.session.mConnected := rfl

@[simp] theorem log_record : (s.record entry).log = s.log ++ [entry] := rfl

/-- The calls of `CloseConnection`. -/
def closes : ℕ := s.log.count .closed

/-- A call of `disconnect` has returned. -/
def Returned : Prop := ∃ caller, .disconnected caller ∈ s.log

/-- Nothing that `disconnect` is about has changed. -/
structure Same (s s' : State) : Prop where
  connected : s'.session.mConnected = s.session.mConnected
  packets : ∀ q, s'.packets q = s.packets q
  locked : ∀ q, s'.locked q = s.locked q
  closes : s'.closes = s.closes
  returned : s'.Returned → s.Returned

variable {s entry}

/-- Only closing is counted as closing. -/
theorem closes_record : (s.record entry).closes = s.closes + if entry = .closed then 1 else 0 := by
  show (s.log ++ [entry]).count .closed = _
  rw [List.count_append, List.count_singleton]
  exact congrArg (s.closes + ·) (by simp)

/-- Only `disconnect` makes it return. -/
theorem returned_record (h : (s.record entry).Returned) :
    s.Returned ∨ ∃ caller, entry = .disconnected caller := by
  obtain ⟨caller, hmem⟩ := h
  rcases List.mem_append.mp hmem with hmem | hmem
  · exact Or.inl ⟨caller, hmem⟩
  · exact Or.inr ⟨caller, (List.mem_singleton.mp hmem).symm⟩

/-- A state is the same as itself. -/
theorem Same.refl : Same s s := ⟨rfl, fun _ => rfl, fun _ => rfl, rfl, id⟩

/-- A record of something else leaves the rest alone. -/
theorem Same.record (hclosed : entry ≠ .closed)
    (hdisconnected : ∀ caller, entry ≠ .disconnected caller) :
    Same s (s.record entry) where
  connected := rfl
  packets q := packets_record s q entry
  locked q := locked_record s q entry
  closes := by rw [closes_record, if_neg hclosed, Nat.add_zero]
  returned h := (returned_record h).resolve_right fun ⟨caller, heq⟩ => hdisconnected caller heq

end State

/-- **The kinds of steps.** What a thread does in a stage, and its next stage, unless it ends. -/
inductive Steps (s : State) : Stage → State → Option Stage → Prop
  /-- nothing that matters here -/
  | quiet {x : Stage} {s' : State} : s.Same s' → Steps s x s' (some x)
  /-- a method other than `disconnect` returns -/
  | ret {s' : State} : s.Same s' → Steps s .outside s' none
  | lock {q : Queue} : s.locked q = false →
      Steps s .outside (s.setLocked true q) (some (.inside q))
  | unlock {q : Queue} : Steps s (.inside q) (s.setLocked false q) (some .outside)
  /-- a producer finds the session connected -/
  | allow {q : Queue} : s.session.mConnected = true → Steps s (.inside q) s (some (.pushing q))
  | push {q : Queue} {buffer : Bytes} :
      Steps s (.pushing q) (s.setPackets (s.packets q ++ [buffer]) q) (some (.inside q))
  /-- packets are taken from a queue -/
  | take {q : Queue} {taken rest : List Bytes} : s.packets q = taken ++ rest →
      Steps s (.inside q) (s.setPackets rest q) (some (.inside q))
  | exchange : Steps s .outside { s with session := { s.session with mConnected := false } }
      (some (.waiting s.session.mConnected))
  | lockFirst {q : Queue} {was : Bool} : s.locked q = false →
      Steps s (.waiting was) (s.setLocked true q) (some (.half q was))
  /-- the other mutex is not free -/
  | giveUp {q : Queue} {was : Bool} :
      Steps s (.half q was) (s.setLocked false q) (some (.waiting was))
  | lockOther {q : Queue} {was : Bool} : s.locked q.other = false →
      Steps s (.half q was) (s.setLocked true q.other) (some (.draining .outbound was))
  | drain {q : Queue} {was : Bool} {packet : Bytes} {rest : List Bytes} :
      s.packets q = packet :: rest →
      Steps s (.draining q was) (s.setPackets rest q) (some (.draining q was))
  | drainedOutbound {was : Bool} : s.packets .outbound = [] →
      Steps s (.draining .outbound was) s (some (.draining .inbound was))
  | drainedInbound {was : Bool} : s.packets .inbound = [] →
      Steps s (.draining .inbound was) s (some (.drained was))
  | unlockFirst {q : Queue} {was : Bool} :
      Steps s (.drained was) (s.setLocked false q) (some (.leaving q.other was))
  | unlockLast {q : Queue} {was : Bool} :
      Steps s (.leaving q was) (s.setLocked false q) (some (if was then .closing else .left))
  /-- there is a peer -/
  | close : Steps s .closing (s.record .closed) (some .left)
  | detached : Steps s .closing s (some .left)
  /-- `disconnect` returns -/
  | leave {caller : Caller} : Steps s .left (s.record (.disconnected caller)) none

variable {E : Evp} {L : Codecs} {s s' : State} {caller : Caller} {ch : Choice} {op : Op}
  {ops : List Op} {c c' : Pool} {m : Move (Event Choice Method)}

/-- Taking a mutex. -/
theorem lock_steps {q : Queue} {o : Op} (ho : o.stage = .inside q)
    (h : (if s.locked q then none else some (s.setLocked true q, [o])) = some (s', ops)) :
    Steps s .outside s' (ops.head?.map Op.stage) := by
  split at h
  · exact nomatch h
  · next hfree =>
    cases h
    show Steps s .outside _ (some o.stage)
    rw [ho]
    exact .lock (Bool.eq_false_iff.mpr hfree)

/-- A thread has at most one next program point. -/
theorem execOp_ops (h : execOp E L s caller ch op = some (s', ops)) :
    ops = [] ∨ ∃ o, ops = [o] := by
  cases op with
  | enter method =>
    cases method <;> simp only [execOp] at h <;>
      first
      | (cases h; exact Or.inr ⟨_, rfl⟩)
      | (split at h; exact nomatch h; cases h; exact Or.inr ⟨_, rfl⟩)
  | encode packets =>
    simp only [execOp] at h
    split at h
    · cases h; exact Or.inr ⟨_, rfl⟩
    · split at h <;> cases h <;> exact Or.inr ⟨_, rfl⟩
  | ret r => cases h; exact Or.inl rfl
  | retVoid => cases h; exact Or.inl rfl
  | _ =>
    simp only [execOp] at h
    first
    | (cases h; exact Or.inr ⟨_, rfl⟩)
    | (split at h <;> cases h <;> exact Or.inr ⟨_, rfl⟩)

/-- **One step of a thread.** -/
theorem execOp_steps (h : execOp E L s caller ch op = some (s', ops)) :
    Steps s op.stage s' (ops.head?.map Op.stage) := by
  cases op with
  | enter method =>
    cases method with
    | disconnect => cases h; exact .exchange
    | _ => exact lock_steps rfl h
  | loadConnected q buffer =>
    simp only [execOp] at h
    split at h
    · next hconnected => cases h; exact .allow hconnected
    · cases h; exact .quiet .refl
  | pushBack q buffer => cases h; exact .push
  | popFront =>
    simp only [execOp] at h
    split at h
    · cases h; exact .quiet .refl
    · next packet rest hpackets => cases h; exact .take (show _ = [packet] ++ rest from hpackets)
  | testDue now =>
    simp only [execOp] at h
    split at h
    · cases h; exact .quiet .refl
    · cases h; exact .quiet .refl
  | setDue now =>
    cases h; exact .quiet ⟨rfl, fun q => by cases q <;> rfl, fun q => by cases q <;> rfl, rfl, id⟩
  | flushConnected | flushPeer =>
    simp only [execOp] at h
    split at h
    · cases h; exact .quiet .refl
    · cases h; exact .quiet .refl
  | swap => cases h; exact .take (List.append_nil _).symm
  | unlock q r => cases h; exact .unlock
  | unlockFlush packets => cases h; exact .unlock
  | sendBatchedBufferImmediately packets =>
    simp only [execOp] at h
    split at h
    · cases h; exact .quiet .refl
    · cases h; exact .quiet .refl
  | encode packets =>
    -- only `mEncryption` changes
    have hsame : ∀ m, s.Same { s with session := { s.session with mEncryption := m } } :=
      fun m => ⟨rfl, fun q => by cases q <;> rfl, fun q => by cases q <;> rfl, rfl, id⟩
    simp only [execOp] at h
    split at h
    · cases h; exact .quiet (hsame _)
    · split at h
      · cases h; exact .quiet (hsame _)
      · cases h; exact .quiet (hsame _)
  | send framed => cases h; exact .quiet (.record nofun nofun)
  | lockFirst was =>
    simp only [execOp] at h
    split at h
    · exact nomatch h
    · next hfree => cases h; exact .lockFirst (Bool.eq_false_iff.mpr hfree)
  | lockOther q was =>
    simp only [execOp] at h
    split at h
    · cases h; exact .giveUp
    · next hfree => cases h; exact .lockOther (Bool.eq_false_iff.mpr hfree)
  | drainOutbound was =>
    simp only [execOp] at h
    split at h
    · next hpackets => cases h; exact .drainedOutbound hpackets
    · next hpackets => cases h; exact .drain hpackets
  | drainInbound was =>
    simp only [execOp] at h
    split at h
    · next hpackets => cases h; exact .drainedInbound hpackets
    · next hpackets => cases h; exact .drain hpackets
  | unlockFirst was => cases h; exact .unlockFirst
  | unlockLast q was => cases was <;> cases h <;> exact .unlockLast
  | closeConnection =>
    simp only [execOp] at h
    split at h
    · cases h; exact .close
    · cases h; exact .detached
  | ret r => cases h; exact .ret (.record nofun nofun)
  | retVoid => cases h; exact .leave

/-- The threads of a pool in a stage that meets `p`. -/
def inStage (p : Stage → Bool) (c : Pool) : ℕ := pending (fun op => p op.stage) c

/-- Two stages that exclude each other are counted in a third one. -/
theorem inStage_add_le {p q r : Stage → Bool} (h : ∀ x, (p x).toNat + (q x).toNat ≤ (r x).toNat) :
    inStage p c + inStage q c ≤ inStage r c :=
  pending_add_le fun op => h op.stage

/-- **The kinds of moves**: a thread takes a step, a thread that has returned disappears, or a
method is called. -/
theorem step_cases (h : (scripts E L).program.step c m = some c') :
    (∃ x next, Steps c.shared x c'.shared next ∧
      ∀ p : Stage → Bool, (p x).toNat ≤ inStage p c ∧
        inStage p c' + (p x).toNat = inStage p c + (next.elim 0 fun y => (p y).toNat)) ∨
    (c'.shared = c.shared ∧ ∀ p, inStage p c' = inStage p c) ∨
    (∃ caller, c'.shared = c.shared.record (.started caller) ∧
      ∀ p, inStage p c' = inStage p c + (p .outside).toNat) := by
  -- a thread is at one operation, so a stage is counted by threads
  rcases pending_step h with ⟨t, op, ch, ops, ts, -, hexec, hpending⟩ | ⟨tag, hshared, hpending⟩ |
    ⟨method, new, -, hcall, hpending⟩
  · obtain ⟨⟨s', ops'⟩, hop, heq⟩ := Option.map_eq_some_iff.mp hexec
    obtain ⟨rfl, rfl, rfl⟩ : s' = c'.shared ∧ ops' = ops ∧ [] = ts := by simpa using heq
    refine Or.inl ⟨_, _, execOp_steps hop, fun p => ?_⟩
    obtain ⟨hle, hcount⟩ := hpending fun op => p op.stage
    refine ⟨hle, hcount.trans ?_⟩
    rw [pendingIn_nil, Nat.add_zero]
    refine congrArg (inStage p c + ·) ?_
    -- an operation is followed by one other at most
    obtain rfl | ⟨o, rfl⟩ := execOp_ops hop
    · rfl
    · show [o].countP (fun op => p op.stage) = (p o.stage).toNat
      rw [List.countP_singleton]
      cases p o.stage <;> rfl
  · exact Or.inr (Or.inl ⟨hshared, fun p => hpending fun op => p op.stage⟩)
  · obtain ⟨hshared, rfl⟩ := Prod.mk.inj (Option.some.inj hcall)
    refine Or.inr (Or.inr ⟨_, hshared.symm, fun p => (hpending fun op => p op.stage).trans ?_⟩)
    rw [pendingIn_cons, pendingIn_nil, List.countP_singleton]
    show _ = inStage p c + (p (Op.enter method).stage).toNat
    cases p (Op.enter method).stage <;> rfl

end Threads
end Session
end SculkProtocol
