import SculkProtocol.Server.Notifications

/-!
# The order of a session's callbacks

`mOnConnected` is enqueued by the I/O thread before it can look the context up for a
packet, and a strand is FIFO for one thread, so it precedes every packet callback
(`ConnectedFirst`), whether the strand takes it or refuses it.

`mOnDisconnected` is enqueued by whoever has removed the context, or is called in place.
Nothing orders it after the packets that the I/O thread has enqueued, or after the one it
has looked the context up for, so packets can be received after it
(`received_after_disconnected`). It comes last (`DisconnectedLast`) in the runs in which,
whenever it is called, no packet of its context is queued, under way, or about to be
enqueued (`DisconnectsLast`).

* `Announcing` is the invariant for the first half: what the strand still has to do is in
  order (`AnnouncedFirst`), and what works on a packet does so after the call.
* `Quiet` is the state a context is left in by a last call: removed, with no packet
  anywhere. No step leaves it (`quiet_step`).
-/

namespace SculkProtocol
namespace ServerEvents

open Scripts Sessions

variable {Guid : Type}

def Task.isOnConnected : Task Guid → Bool
  | .onConnected => true
  | _ => false

/-- A packet that is not a disconnection notice. -/
def Task.isPacket : Task Guid → Bool
  | .packet p => !isNotice p
  | _ => false

/-- In the queue of a thread, `mOnConnected` comes before every packet. -/
def AnnouncedFirst : List (Task Guid) → Prop
  | [] | .onConnected :: _ => True
  | .packet _ :: _ => False
  | .onDisconnected :: l | .flush :: l => AnnouncedFirst l

/-- A packet comes behind the announcement. -/
theorem AnnouncedFirst.append {l : List (Task Guid)} {t : Task Guid} (hl : AnnouncedFirst l)
    (ht : ∀ p, t = .packet p → .onConnected ∈ l) : AnnouncedFirst (l ++ [t]) := by
  induction l with
  | nil =>
    cases t with
    | packet p => exact absurd (ht p rfl) List.not_mem_nil
    | _ => trivial
  | cons u l ih =>
    cases u with
    | onConnected => trivial
    | packet p => exact absurd hl id
    | onDisconnected | flush =>
      refine ih hl fun p hp => ?_
      rcases List.mem_cons.mp (ht p hp) with heq | hmem
      · exact absurd heq nofun
      · exact hmem

variable [DecidableEq Guid] {cfg : Settings} {c c' : Server Guid}
  {m : Move (Event Choice (Call Guid))} {s s' : State Guid} {producer : ℕ} {ch : Choice}
  {op : Op Guid} {ops : List (Op Guid)} {x : Context Guid}

/-- A packet of `x` is given to the user. -/
def Callback.receives (x : Context Guid) : Callback Guid → Bool
  | .onRawPacketReceive y | .onPacketReceive y => decide (y = x)
  | _ => false

/-- Every packet callback, the latest first, comes after `mOnConnected` of its context. -/
def ConnectedFirst : List (Callback Guid) → Prop
  | [] => True
  | e :: earlier => (∀ x, e.receives x = true → .onConnected x ∈ earlier) ∧ ConnectedFirst earlier

/-- No packet callback comes after `mOnDisconnected` of its context. -/
def DisconnectedLast : List (Callback Guid) → Prop
  | [] => True
  | e :: earlier => (∀ x, e.receives x = true → .onDisconnected x ∉ earlier) ∧
      DisconnectedLast earlier

/-- At work on a packet of `x`. -/
def Op.works (x : Context Guid) : Op Guid → Bool
  | .processSessionPacket p y => decide (y = x) && !isNotice p
  | .dispatch y _ | .parse y _ => decide (y = x)
  | _ => false

/-- About to enqueue a packet of `x`. -/
def Op.enters (x : Context Guid) : Op Guid → Bool
  | .enqueue y t => decide (y = x) && t.isPacket
  | _ => false

/-- Calls `mOnDisconnected` of `x`. -/
def Op.disconnects (x : Context Guid) : Op Guid → Bool
  | .call (.onDisconnected y) | .callInPlace (.onDisconnected y) => decide (y = x)
  | _ => false

/-- No packet of `x` is queued, under way, or about to be enqueued. -/
structure NoPackets (c : Server Guid) (x : Context Guid) : Prop where
  queued : (c.shared.strands x).queued Task.isPacket = 0
  working : pending (Op.works x) c = 0
  entering : pending (Op.enters x) c = 0

instance (c : Server Guid) (x : Context Guid) : Decidable (NoPackets c x) :=
  decidable_of_iff ((c.shared.strands x).queued Task.isPacket = 0 ∧ pending (Op.works x) c = 0 ∧
    pending (Op.enters x) c = 0) ⟨fun h => ⟨h.1, h.2.1, h.2.2⟩, fun h => ⟨h.1, h.2, h.3⟩⟩

/-- **The condition.** If the transition calls `mOnDisconnected` of a context, no packet of
the context is left. -/
def DisconnectsLast (t : ServerStep Guid) : Prop :=
  ∀ u op x, Does t u op → op.disconnects x = true → NoPackets t.src x

/-- `DisconnectsLast`, to be evaluated. -/
def disconnectsLast (t : ServerStep Guid) : Bool :=
  match performed t with
  | some (_, .call (.onDisconnected x)) | some (_, .callInPlace (.onDisconnected x)) =>
    decide (NoPackets t.src x)
  | _ => true

/-- The evaluation of the condition is right. -/
theorem DisconnectsLast.of_eval {t : ServerStep Guid} (h : disconnectsLast t = true) :
    DisconnectsLast t := by
  intro u op x hdoes hop
  rw [disconnectsLast, show performed t = _ from hdoes] at h
  cases op with
  | call e | callInPlace e =>
    cases e with
    | onDisconnected y =>
      obtain rfl : y = x := of_decide_eq_true hop
      exact of_decide_eq_true h
    | _ => exact absurd hop nofun
  | _ => exact absurd hop nofun

/-- Brings `mOnConnected` of `x` to the strand, or calls it in its place. -/
def Op.announces (x : Context Guid) : Op Guid → Bool
  | .enqueue y .onConnected | .callInPlace (.onConnected y) => decide (y = x)
  | _ => false

/-- The strand's call of `mOnConnected` of `x`. -/
def Op.connects (x : Context Guid) : Op Guid → Bool
  | .call (.onConnected y) => decide (y = x)
  | _ => false

/-- Only the I/O thread announces. -/
theorem Op.announces_io (h : op.announces x = true) : op.kind = .io := by
  cases op with
  | enqueue y t => cases t <;> first | rfl | exact absurd h nofun
  | callInPlace e => cases e <;> first | rfl | exact absurd h nofun
  | _ => exact absurd h nofun

omit [DecidableEq Guid] in
/-- A removal is followed by a disconnection and a report only. -/
theorem next_countP {p : Op Guid → Bool} (hdisconnect : ∀ y, p (.disconnect y) = false)
    (hreport : ∀ y, p (.enqueue y .onDisconnected) = false) (after : After Guid)
    (removed : Option (Context Guid)) : (after.next cfg removed).countP p = 0 := by
  have hnotify : ∀ y, (notify cfg y).countP p = 0 := by
    intro y
    unfold notify
    split
    · simp [hreport]
    · rfl
  cases after <;> cases removed <;> simp [After.next, hdisconnect, hnotify]

/-- What a step calls, and on whose behalf. -/
theorem Step.calls (h : Step cfg s producer ch op s' ops) (hsound : op.Sound s.registry.inserted) :
    s'.calls = s.calls ∨ ∃ e, s'.calls = e :: s.calls ∧
      (∀ x, e.receives x = true → op.works x = true) ∧
      (∀ x, e = .onDisconnected x → op.disconnects x = true) := by
  cases h with
  | call e | callInPlace e =>
    refine Or.inr ⟨e, rfl, fun x hx => ?_, fun x hx => ?_⟩
    · -- events are no packets
      have hevent := hsound.2
      cases e <;> simp [Callback.receives, Callback.isEvent] at hx hevent
    · subst hx
      simp [Op.disconnects]
  | @dispatch y payload payloads s' ops hs hops =>
    rcases hs with rfl | rfl
    · exact Or.inl rfl
    · exact Or.inr ⟨.onRawPacketReceive y, rfl, fun x hx => hx, nofun⟩
  | @received y => exact Or.inr ⟨.onPacketReceive y, rfl, fun x hx => hx, nofun⟩
  | @parseFailed y payload s' hs =>
    rcases hs with rfl | rfl
    · exact Or.inl rfl
    · exact Or.inr ⟨.onPacketParseFailed y, rfl, nofun, nofun⟩
  | _ => exact Or.inl (by simp)

/-- Calls are not forgotten. -/
theorem Step.calls_subset (h : Step cfg s producer ch op s' ops) : s.calls ⊆ s'.calls := by
  cases h with
  | call e | callInPlace e | received => exact List.subset_cons_self _ _
  | dispatch hs | parseFailed hs =>
    rcases hs with rfl | rfl
    · exact List.Subset.refl _
    · exact List.subset_cons_self _ _
  | _ => simp

/-- A strand's queue of a thread grows at its end. -/
theorem Step.queuedBy (h : Step cfg s producer ch op s' ops) (hnum : ∀ x, (s.strands x).Numbered)
    (x : Context Guid) (p : ℕ) : (s'.strands x).queuedBy p = (s.strands x).queuedBy p ∨
      ∃ t, op = .enqueue x t ∧ p = producer ∧ (s'.strands x).queuedBy p =
        (s.strands x).queuedBy p ++ [t] := by
  cases h with
  -- a task is queued for one strand by one thread, at the end
  | @accept y t =>
    by_cases hx : x = y
    · subst hx
      by_cases hp : p = producer
      · subst hp
        right
        refine ⟨t, rfl, rfl, ?_⟩
        rw [deliver_strands, setStrand_strands, Function.update_self]
        exact Strand.queuedBy_enqueue_self (hnum x) p t
      · left
        rw [deliver_strands, setStrand_strands, Function.update_self]
        exact Strand.queuedBy_enqueue_of_ne (hnum x) (Ne.symm hp) t
    · exact Or.inl (by simp [hx])
  | finishTask y i =>
    by_cases hx : x = y
    · subst hx
      exact Or.inl (by simp)
    · exact Or.inl (by simp [hx])
  | dispatch hs | parseFailed hs => rcases hs with rfl | rfl <;> exact Or.inl rfl
  | _ => exact Or.inl (by simp)

/-- Only work on a packet, or its lookup, leads to work on one. -/
theorem Step.works (h : Step cfg s producer ch op s' ops) (x : Context Guid)
    (hop : op.works x = false) : ops.countP (Op.works x) = 0 := by
  cases h with
  | batch start packets payloads hp => simpa [Op.works, hp] using hop
  | @dispatch y payload payloads s' ops hs hops =>
    have hy : y ≠ x := of_decide_eq_false hop
    rcases hops with rfl | rfl <;> simp [Op.works, hy]
  | upsert g => split <;> rfl
  | @refuse y t => cases t <;> rfl
  | erase g after => exact next_countP (fun _ => rfl) (fun _ => rfl) after _
  | collectContexts | collectKeys => simp [List.countP_map, Function.comp_def, Op.works]
  | _ => rfl

/-- A packet is about to be enqueued for an entry only. -/
theorem Step.enters (h : Step cfg s producer ch op s' ops) (hr : s.registry.WellFormed)
    (x : Context Guid)
    (hgone : s.registry.mSessionContexts x.guid ≠ some x) : ops.countP (Op.enters x) = 0 := by
  cases h with
  | @lookedUp p y hy =>
    -- what was looked up is an entry
    have hne : y ≠ x := by
      rintro rfl
      rw [← (entry_known hr hy).2] at hy
      exact hgone hy
    simp [Op.enters, hne]
  | dispatch hs hops => rcases hops with rfl | rfl <;> rfl
  | upsert g =>
    split
    · simp [Op.enters, Task.isPacket]
    · rfl
  | @refuse y t => cases t <;> rfl
  | erase g after => exact next_countP (fun _ => rfl) (fun y => Bool.and_false _) after _
  | collectContexts | collectKeys => simp [List.countP_map, Function.comp_def, Op.enters]
  | _ => rfl

/-- A new context is about to be announced. -/
theorem Step.inserted (h : Step cfg s producer ch op s' ops)
    (hset : cfg.mCallbacks.mOnConnected = true)
    (hx : x ∈ s'.registry.inserted) : x ∈ s.registry.inserted ∨ 0 < ops.countP
    (Op.announces x) := by
  cases h with
  | upsert g =>
    rw [recordRemoval_registry] at hx
    rcases List.mem_cons.mp hx with rfl | hx
    · right
      rw [if_pos hset]
      exact List.countP_pos_iff.mpr ⟨_, List.mem_cons_self, decide_eq_true rfl⟩
    · exact Or.inl hx
  | dispatch hs | parseFailed hs => rcases hs with rfl | rfl <;> exact Or.inl hx
  | erase => exact Or.inl (by simpa [Registry.erase] using hx)
  | disconnect => exact Or.inl (by simpa [Registry.setDisconnected] using hx)
  | _ => exact Or.inl (by simpa using hx)

/-- The strand's call of `mOnConnected`. -/
theorem Step.connects (h : Step cfg s producer ch op s' ops) (hop : op.connects x = true) :
    .onConnected x ∈ s'.calls := by
  cases h with
  | call e =>
    cases e with
    | onConnected y =>
      obtain rfl : y = x := of_decide_eq_true hop
      exact List.mem_cons_self
    | _ => exact absurd hop nofun
  | _ => exact absurd hop nofun

/-- `mOnConnected` is enqueued, or is called in its place. -/
theorem Step.announces (h : Step cfg s 0 ch op s' ops) (hnum : ∀ x, (s.strands x).Numbered)
    (hop : op.announces x = true) : .onConnected x ∈ s'.calls ∨
      .onConnected ∈ (s'.strands x).queuedBy 0 ∨ 0 < ops.countP (Op.announces x) := by
  cases h with
  -- the task is in the strand's queue, behind the thread's others
  | @accept y u =>
    cases u with
    | onConnected =>
      obtain rfl : y = x := of_decide_eq_true hop
      right; left
      rw [deliver_strands, setStrand_strands, Function.update_self,
        Strand.queuedBy_enqueue_self (hnum y)]
      exact List.mem_append_right _ List.mem_cons_self
    | _ => exact absurd hop nofun
  -- a refused task is called in its place, which is what comes next
  | @refuse y u =>
    cases u with
    | onConnected =>
      right; right
      exact List.countP_pos_iff.mpr ⟨_, List.mem_cons_self, hop⟩
    | _ => exact absurd hop nofun
  | callInPlace e =>
    cases e with
    | onConnected y =>
      obtain rfl : y = x := of_decide_eq_true hop
      exact Or.inl List.mem_cons_self
    | _ => exact absurd hop nofun
  | _ => exact absurd hop nofun

/-! ### The first call -/

/-- `mOnConnected` of `x` has been called, or the strand is about to call it. -/
def Called (c : Server Guid) (x : Context Guid) : Prop :=
  .onConnected x ∈ c.shared.calls ∨ 0 < pending (Op.connects x) c

/-- **The invariant of the first half.** -/
structure Announcing (c : Server Guid) : Prop where
  /-- a context that was inserted is announced -/
  announced : ∀ x ∈ c.shared.registry.inserted, Called c x ∨
    .onConnected ∈ (c.shared.strands x).queuedBy 0 ∨ 0 < pending (Op.announces x) c
  /-- the I/O thread's tasks are in order -/
  queue : ∀ x, Called c x ∨ AnnouncedFirst ((c.shared.strands x).queuedBy 0)
  /-- packets are enqueued by the I/O thread -/
  others : ∀ x producer p, producer ≠ 0 → .packet p ∉ (c.shared.strands x).queuedBy producer
  working : ∀ x, 0 < pending (Op.works x) c → .onConnected x ∈ c.shared.calls

/-- A callback that was called stays called. -/
theorem called_step (hc : Called c x) (h : (scripts cfg).program.step c m = some c') :
    Called c' x := by
  rcases move_cases h with ⟨t, op, i, ch, ops, -, hdoes, hstep, hp⟩ | ⟨hs, hp⟩ | ⟨t, harr, hp⟩
  · rcases hc with hcalled | hpending
    · exact Or.inl (hstep.calls_subset hcalled)
    · cases hop : op.connects x with
      | false =>
        right
        have hpool := (hp (Op.connects x)).2
        rw [hop, Bool.toNat_false] at hpool
        omega
      | true =>
        -- it is called in this step
        exact Or.inl (hstep.connects hop)
  · unfold Called
    rw [hs, hp]
    exact hc
  · rcases hc with hcalled | hpending
    · left
      rwa [harr.calls]
    · right
      rw [hp]
      exact Nat.lt_of_lt_of_le hpending (Nat.le_add_right _ _)

/-- The I/O thread enqueues and calls as producer 0. -/
theorem producer_of_io (ht : Threads c) {t : Thread Guid} (hdoes : Does ⟨c, m, c'⟩ t op)
    (hk : op.kind = .io) : t.tag = 0 := by
  obtain ⟨rest, hcode⟩ := hdoes.code_eq
  have hshape := ht.shapes t hdoes.mem.1
  rw [hcode] at hshape
  exact hshape.io_producer hk

/-- What a task that begins was in the queue. -/
theorem Arrives.queuedBy {t : Thread Guid} (h : Arrives s s' t) (x : Context Guid) :
    ((∀ p, (s'.strands x).queuedBy p = (s.strands x).queuedBy p) ∧ t.code.countP (Op.works x) = 0) ∨
      ∃ u i producer, t.code = u.code x ++ [.finishTask x i] ∧ (s.strands x).running = none ∧
        (s.strands x).queuedBy producer = u :: (s'.strands x).queuedBy producer ∧
        ∀ p, p ≠ producer → (s'.strands x).queuedBy p = (s.strands x).queuedBy p := by
  cases h with
  | @runTask y position u i strand worker hbegin =>
    -- a task that begins leaves the queue of its own strand
    by_cases hx : x = y
    · subst hx
      obtain ⟨hidle, -⟩ := Strand.begin_inv hbegin
      obtain ⟨producer, hhead, hothers⟩ := Strand.queuedBy_begin hbegin
      refine Or.inr ⟨u, i, producer, rfl, hidle, ?_, fun p hp => ?_⟩
      · rw [setStrand_strands, Function.update_self]
        exact hhead
      · rw [setStrand_strands, Function.update_self]
        exact hothers p hp
    · refine Or.inl ⟨fun p => by simp [hx], ?_⟩
      cases u <;> simp [Task.code, Op.works, Ne.symm hx]
  | _ => exact Or.inl ⟨fun _ => rfl, rfl⟩

/-- An announcement of a known context goes on. -/
theorem announced_step (ht : Threads c) (hx : x ∈ c.shared.registry.inserted) (hc : Announcing c)
    (h : (scripts cfg).program.step c m = some c') :
    Called c' x ∨ .onConnected ∈ (c'.shared.strands x).queuedBy 0 ∨
    0 < pending (Op.announces x) c' := by
  rcases hc.announced x hx with hcalled | hqueued | hpending
  · exact Or.inl (called_step hcalled h)
  · -- in the queue
    rcases move_cases h with ⟨t, op, i, ch, ops, -, hdoes, hstep, hp⟩ | ⟨hs, hp⟩ | ⟨t, harr, hp⟩
    · right; left
      rcases hstep.queuedBy ht.known.numbered x 0 with hsame | ⟨u, -, -, hnew⟩
      · rwa [hsame]
      · rw [hnew]
        exact List.mem_append_left _ hqueued
    · rw [hs]
      exact Or.inr (Or.inl hqueued)
    · rcases harr.queuedBy x with ⟨hsame, -⟩ | ⟨u, i, producer, hcode, -, hhead, hothers⟩
      · rw [hsame 0]
        exact Or.inr (Or.inl hqueued)
      · by_cases hproducer : producer = 0
        · subst hproducer
          rw [hhead] at hqueued
          rcases List.mem_cons.mp hqueued with rfl | hqueued
          · -- it begins
            left; right
            rw [hp, hcode]
            refine Nat.lt_of_lt_of_le Nat.zero_lt_one (Nat.le_trans ?_ (Nat.le_add_left _ _))
            simp [Task.code, Op.connects]
          · exact Or.inr (Or.inl hqueued)
        · rw [hothers 0 (Ne.symm hproducer)]
          exact Or.inr (Or.inl hqueued)
  · -- still to be announced
    rcases move_cases h with ⟨t, op, i, ch, ops, -, hdoes, hstep, hp⟩ | ⟨-, hp⟩ | ⟨t, harr, hp⟩
    · have hpool := (hp (Op.announces x)).2
      cases hop : op.announces x with
      | false =>
        right; right
        rw [hop, Bool.toNat_false] at hpool
        omega
      | true =>
        rw [producer_of_io ht hdoes (Op.announces_io hop)] at hstep
        rcases hstep.announces ht.known.numbered hop with hcalled | hqueued | hnext
        · exact Or.inl (Or.inl hcalled)
        · exact Or.inr (Or.inl hqueued)
        · -- the strand refuses, and it is called in its place
          right; right
          rw [hop, Bool.toNat_true] at hpool
          omega
    · rw [hp]
      exact Or.inr (Or.inr hpending)
    · right; right
      rw [hp]
      exact Nat.lt_of_lt_of_le hpending (Nat.le_add_right _ _)

/-- A removed context with no packet left. -/
structure Quiet (c : Server Guid) (x : Context Guid) : Prop where
  inserted : x ∈ c.shared.registry.inserted
  gone : c.shared.registry.mSessionContexts x.guid ≠ some x
  noPackets : NoPackets c x

/-- A strand gets packets from those who are about to enqueue one. -/
theorem Step.queued (h : Step cfg s producer ch op s' ops) (hnum : ∀ x, (s.strands x).Numbered)
    (hop : op.enters x = false) :
    (s'.strands x).queued Task.isPacket = (s.strands x).queued Task.isPacket := by
  cases h with
  | @accept y t =>
    by_cases hx : x = y
    · subst hx
      have hnot : t.isPacket = false := by simpa [Op.enters] using hop
      rw [deliver_strands, setStrand_strands, Function.update_self, Strand.queued_enqueue (hnum x),
        hnot]
      rfl
    · simp [hx]
  | finishTask y i =>
    by_cases hx : x = y
    · subst hx; simp
    · simp [hx]
  | dispatch hs | parseFailed hs => rcases hs with rfl | rfl <;> rfl
  | _ => simp

/-- A task that begins takes its packet along. -/
theorem Arrives.packets {t : Thread Guid} (h : Arrives s s' t) (x : Context Guid) :
    t.code.countP (Op.enters x) = 0 ∧
      t.code.countP (Op.works x) + (s'.strands x).queued Task.isPacket =
        (s.strands x).queued Task.isPacket := by
  cases h with
  | @runTask y position u i strand worker hbegin =>
    refine ⟨by cases u <;> rfl, ?_⟩
    by_cases hx : x = y
    · subst hx
      have hqueued := Strand.queued_begin hbegin Task.isPacket
      rw [setStrand_strands, Function.update_self, ← hqueued, Nat.add_comm]
      cases u with
      | packet p => cases hp : isNotice p <;> simp [Task.code, Op.works, Task.isPacket, hp]
      | _ => rfl
    · cases u <;> simp [Task.code, Op.works, hx, Ne.symm hx]
  | flush producer hx => simp [Op.enters, Op.works, Task.isPacket]
  | _ => exact ⟨rfl, Nat.zero_add _⟩

/-- **A quiet context stays quiet.** -/
theorem quiet_step (ht : Threads c) (hc : Quiet c x)
    (h : (scripts cfg).program.step c m = some c') :
    Quiet c' x := by
  refine ⟨inserted_step h hc.inserted, gone_step ht.known h hc.inserted hc.gone, ?_⟩
  obtain ⟨hqueued, hworking, hentering⟩ := hc.noPackets
  rcases move_cases h with ⟨t, op, i, ch, ops, -, hdoes, hstep, hp⟩ | ⟨hs, hp⟩ | ⟨t, harr, hp⟩
  · -- the operation neither works on a packet nor enqueues one
    obtain ⟨hwle, hworks⟩ := hp (Op.works x)
    obtain ⟨hele, henters⟩ := hp (Op.enters x)
    rw [hworking] at hwle hworks
    rw [hentering] at hele henters
    have hopw : op.works x = false := Bool.toNat_eq_zero.mp (Nat.le_zero.mp hwle)
    have hope : op.enters x = false := Bool.toNat_eq_zero.mp (Nat.le_zero.mp hele)
    rw [hstep.works x hopw] at hworks
    rw [hstep.enters ht.known.wellFormed x hc.gone] at henters
    refine ⟨?_, ?_, ?_⟩
    · rw [hstep.queued ht.known.numbered hope, hqueued]
    · omega
    · omega
  · refine ⟨?_, ?_, ?_⟩
    · rwa [hs]
    · rwa [hp]
    · rwa [hp]
  · obtain ⟨henters, hbegin⟩ := harr.packets x
    rw [hqueued] at hbegin
    refine ⟨by omega, ?_, ?_⟩
    · rw [hp, hworking]
      omega
    · rw [hp, hentering, henters]

/-- Contexts whose `mOnDisconnected` has been called are quiet. -/
def AllQuiet (c : Server Guid) : Prop := ∀ x, .onDisconnected x ∈ c.shared.calls → Quiet c x

/-- **One move** keeps the order of the calls, if it kept the invariants. -/
theorem order_step (hinv : Invariant cfg c) (h : (scripts cfg).program.step c m = some c') :
    (Announcing c → ConnectedFirst c.shared.calls → ConnectedFirst c'.shared.calls) ∧
      (AllQuiet c → DisconnectedLast c.shared.calls → DisconnectedLast c'.shared.calls) := by
  rcases move_cases h with ⟨t, op, i, ch, ops, -, hdoes, hstep, hp⟩ | ⟨hs, -⟩ | ⟨t, harr, -⟩
  · have hsound := hinv.threads.known.ops t hdoes.mem.1 op hdoes.mem.2
    rcases hstep.calls hsound with hsame | ⟨e, hnew, hreceives, -⟩
    · rw [hsame]
      exact ⟨fun _ => id, fun _ => id⟩
    · have hworks : ∀ x, e.receives x = true → 0 < pending (Op.works x) c := by
        intro x hx
        have hpending := (hp (Op.works x)).1
        rwa [hreceives x hx, Bool.toNat_true] at hpending
      rw [hnew]
      refine ⟨fun hc hfirst => ⟨fun x hx => hc.working x (hworks x hx), hfirst⟩,
        fun hc hlast => ⟨fun x hx hcalled => ?_, hlast⟩⟩
      -- no work is left after the last call
      have hnone := (hc x hcalled).noPackets.working
      have hpos := hworks x hx
      omega
  · rw [hs]
    exact ⟨fun _ => id, fun _ => id⟩
  · rw [harr.calls]
    exact ⟨fun _ => id, fun _ => id⟩

/-- The next operation of thread `i`, at which a batch has one readable payload. -/
def nextBatch (i : ℕ) : Move (Event Choice (Call ℕ)) :=
  .thread i (.step { now := 1, payloads := some [.readable] })

/-- The strand works on a batch. -/
def batch : List (Move (Event Choice (Call ℕ))) :=
  .env (.call (.runTask ⟨0, 0⟩ 0 1)) :: List.replicate 6 (nextBatch 0)

end ServerEvents
end SculkProtocol
