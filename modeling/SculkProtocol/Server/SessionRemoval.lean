import SculkProtocol.Server.SessionSteps

/-!
# Removals by strand tasks

A strand task of context `a` removes by GUID: `processSessionPacket` calls
`removeSessionContext(key)` and disconnects what it gets back, without comparing it
with the context the task was created for. If the GUID has reconnected in the
meantime, the entry is the new context, and the task erases and disconnects that one
(`packet_task_removes_later`).

`packet_task_spares_later_iff` is the exact account: no strand task of a run touches
a later context of its GUID if and only if each of its removals comes in time, that
is when the GUID has not reconnected, or when the entry is gone already.

* `PacketOp` lists the operations of a packet's strand task; all it removes and
  disconnects is addressed by the GUID of its context (`packetOps_step`).
* `OwnSession` is the condition's share of the argument: while removals come in time,
  a strand task disconnects its own session only (`ownSession_step`).
-/

namespace SculkProtocol
namespace Sessions

open Scripts

variable {Guid : Type} [DecidableEq Guid] {cfg : Settings Guid} {c c' : Server Guid}
  {m : Move (Event Choice (Call Guid))}

/-- The session an operation disconnects. -/
def Op.disconnecting : Op Guid → Option (Context Guid)
  | .exchangeConnected x | .loadPeer x | .closeConnection x => some x
  | _ => none

/-- The operations of the strand task for a packet of context `a`. -/
def PacketOp (a : Context Guid) : Op Guid → Prop
  | .processSessionPacket p x => x = a ∧ p.guid = a.guid
  | .enqueueCommand c why | .applyCommand c why => c = .cancel a.guid ∧ why = .removal (.packet a)
  | .eraseContext g after => g = a.guid ∧ after = .packet a
  | .exchangeConnected _ | .loadPeer _ | .closeConnection _ => True
  | _ => False

/-- A task goes on with its own session. -/
theorem PacketOp.successor {s : State Guid} {a : Context Guid} {op o : Op Guid}
    (h : PacketOp a op) (hs : Successor s op o) : PacketOp a o := by
  cases hs with
  | packetRemove =>
    obtain ⟨rfl, hguid⟩ := h
    exact ⟨congrArg Command.cancel hguid, rfl⟩
  | queuedRemoval | appliedRemoval =>
    obtain ⟨rfl, hwhy⟩ := h
    injection hwhy with hafter
    exact ⟨rfl, hafter⟩
  | refused => exact h
  | erased | exchanged | loaded => trivial
  | _ => exact absurd h id

/-- What holds of every strand task for a packet, whatever the schedule. -/
structure PacketTask (r : Registry Guid) (role : Role Guid) (op : Op Guid) : Prop where
  /-- its context was inserted -/
  inserted : ∀ a, role = .packetTask a → a ∈ r.inserted
  /-- it acts for its context -/
  acts : ∀ a, role = .packetTask a → PacketOp a op

/-- The unconditional invariant. -/
structure PacketInvariant (c : Server Guid) : Prop where
  wellFormed : c.shared.registry.WellFormed
  tasks : ∀ t ∈ c.threads, ∀ op ∈ t.code, PacketTask c.shared.registry t.tag.role op

omit [DecidableEq Guid] in
/-- Roles other than that of a packet's strand task are not constrained. -/
theorem PacketTask.of_role {r : Registry Guid} {role : Role Guid} {op : Op Guid}
    (h : ∀ a, role ≠ .packetTask a) : PacketTask r role op :=
  ⟨fun a ha => absurd ha (h a), fun a ha => absurd ha (h a)⟩

omit [DecidableEq Guid] in
/-- What arrives from outside is no packet task. -/
theorem Arrival.not_packetTask {s : State Guid} {t : Thread Guid} (h : Arrival cfg s t) :
    ∀ a, t.tag.role ≠ .packetTask a := by
  cases h <;> exact fun a ha => nomatch ha

/-- **One move** keeps the unconditional invariant. -/
theorem packetOps_step (hc : PacketInvariant c)
    (h : (scripts cfg).program.step c m = some c') : PacketInvariant c' := by
  refine ⟨step_wellFormed hc.wellFormed h, step_ops h hc.tasks ?_ ?_ ?_ ?_⟩
  · intro t _ op _ ht
    exact ⟨fun a ha => step_inserted h (ht.inserted a ha), ht.acts⟩
  · intro t op o _ hs ht
    exact ⟨fun a ha => step_inserted h (ht.inserted a ha),
      fun a ha => (ht.acts a ha).successor hs⟩
  · intro op t hs o ho
    cases hs with
    | flushTask => exact .of_role fun a ha => nomatch ha
    | packetTask hx =>
      -- the entry of the packet's GUID is a context of that GUID
      obtain ⟨hmem, hguid⟩ := Registry.newest_mem (hc.wellFormed.newest hx)
      refine ⟨fun a ha => ?_, fun a ha => ?_⟩
      · injection ha with ha
        exact ha ▸ step_inserted h hmem
      · injection ha with ha
        rw [List.mem_singleton.mp ho, ← ha]
        exact ⟨rfl, hguid.symm⟩
  · intro t harr o _
    exact .of_role harr.not_packetTask

/-- A server that nobody has started has no packet tasks. -/
theorem packetInvariant_initial : PacketInvariant (system cfg).init :=
  ⟨Registry.wellFormed_initial, fun _ ht => absurd ht List.not_mem_nil⟩

/-- The invariant holds at the source of every transition of a run. -/
theorem packetInvariant_of_run {h : List (ServerStep Guid)}
    (hr : (system cfg).Run h c) : ∀ x ∈ h, PacketInvariant x.src := by
  intro x hx
  exact (hr.mem_step x hx).1.invariant packetInvariant_initial
    fun _ _ _ hs hst => packetOps_step hs hst

/-! ### Later connections, and removals that come in time -/

/-- In the transition `x`, the strand task of a packet received for context `a` erases
a context inserted later under the same GUID, or begins to disconnect one. -/
def TouchesLater (x : ServerStep Guid) : Prop :=
  ∃ t a b, t.tag.role = .packetTask a ∧ b.guid = a.guid ∧ a.serial < b.serial ∧
    ((∃ after, Does x t (.eraseContext b.guid after) ∧
        x.src.shared.registry.mSessionContexts b.guid = some b) ∨
      Does x t (.exchangeConnected b))

/-- A removal by the strand task of context `a` comes in time: the entry of its GUID is
gone, or the GUID has not reconnected since `a` was inserted. -/
def RemovesInTime (x : ServerStep Guid) : Prop :=
  ∀ t a g after, t.tag.role = .packetTask a → Does x t (.eraseContext g after) →
    x.src.shared.registry.mSessionContexts g = none ∨ x.src.shared.registry.newest g = some a

/-- `RemovesInTime`, to be evaluated. -/
def removesInTime (x : ServerStep Guid) : Bool :=
  match performed x with
  | some (⟨⟨.packetTask a, _⟩, _⟩, .eraseContext g _) =>
    decide (x.src.shared.registry.mSessionContexts g = none ∨
      x.src.shared.registry.newest g = some a)
  | _ => true

/-- The evaluation of the condition is right. -/
theorem removesInTime_iff (x : ServerStep Guid) :
    removesInTime x = true ↔ RemovesInTime x := by
  constructor
  · rintro h ⟨⟨role, producer⟩, code⟩ a g after rfl hdoes
    rw [removesInTime, show performed x = _ from hdoes] at h
    exact of_decide_eq_true h
  · intro h
    unfold removesInTime
    split
    · next a producer code g after hdoes => exact decide_eq_true (h _ a g after rfl hdoes)
    · rfl

/-- A strand task of context `a` disconnects the session of `a` only. -/
def OwnSession (role : Role Guid) (op : Op Guid) : Prop :=
  ∀ a b, role = .packetTask a → op.disconnecting = some b → b = a

/-- **One move in time.** A removal that comes in time leaves the strand task with its
own session to disconnect. -/
theorem ownSession_step (hc : PacketInvariant c)
    (hown : ∀ t ∈ c.threads, ∀ op ∈ t.code, OwnSession t.tag.role op)
    (h : (scripts cfg).program.step c m = some c') (hC : RemovesInTime ⟨c, m, c'⟩) :
    ∀ t ∈ c'.threads, ∀ op ∈ t.code, OwnSession t.tag.role op := by
  refine step_ops (R := fun _ role op => OwnSession role op) h hown ?_ ?_ ?_ ?_
  · exact fun _ _ _ _ ht => ht
  · intro t op o hdoes hs ht a b ha hb
    have hpacket : PacketOp a op := (hc.tasks t hdoes.mem.1 op hdoes.mem.2).acts a ha
    cases hs with
    | @erased g after x hx =>
      obtain ⟨rfl, rfl⟩ := hpacket
      obtain rfl : x = b := Option.some.inj hb
      rw [List.mem_singleton.mp hx]
      -- what is removed is the newest context, and that is `a`
      rcases hC t a _ _ ha hdoes with hnone | hnewest
      · change (c.shared.registry.mSessionContexts a.guid).getD a = a
        rw [hnone]; rfl
      · change (c.shared.registry.mSessionContexts a.guid).getD a = a
        cases hentry : c.shared.registry.mSessionContexts a.guid with
        | none => rfl
        | some y =>
          have hy := hc.wellFormed.newest hentry
          exact Option.some.inj (hy.symm.trans hnewest)
    | exchanged => exact ht a b ha hb
    | loaded => exact ht a b ha hb
    | emptyDisconnect => exact absurd hpacket id
    | teardownDisconnect => exact absurd hpacket id
    | _ => exact absurd hb (by simp [Op.disconnecting, removeSessionContext])
  · intro op t hs o ho
    cases hs with
    | flushTask => exact fun a _ ha => nomatch ha
    | packetTask =>
      rw [List.mem_singleton.mp ho]
      exact fun a b _ hb => absurd hb (by simp [Op.disconnecting])
  · intro t harr o _ a b ha _
    exact absurd ha (harr.not_packetTask a)

/-- A strand task's removals and disconnects over a run whose removals come in time. -/
theorem ownSession_of_run {h : List (ServerStep Guid)}
    (hr : (system cfg).Run h c) (hC : ∀ x ∈ h, RemovesInTime x) :
    ∀ x ∈ h, ∀ t ∈ x.src.threads, ∀ op ∈ t.code, OwnSession t.tag.role op := by
  intro x hx
  have hinit : PacketInvariant (system cfg).init ∧
      ∀ t ∈ (system cfg).init.threads, ∀ op ∈ t.code, OwnSession t.tag.role op :=
    ⟨packetInvariant_initial, fun _ ht => absurd ht List.not_mem_nil⟩
  have hstep := hr.transitions_where (C := RemovesInTime)
    (I := fun c => PacketInvariant c ∧ ∀ t ∈ c.threads, ∀ op ∈ t.code,
      OwnSession t.tag.role op) hinit
    (fun s l t hs hst hCs =>
      ⟨packetOps_step hs.1 hst, ownSession_step hs.1 hs.2 hst hCs⟩) hC
  exact (hstep x hx).1.2

/-- **Removals by strand tasks.** The strand tasks of a run leave the later contexts of
their GUIDs alone if and only if their removals come in time. -/
theorem packet_task_spares_later_iff {h : List (ServerStep Guid)}
    (hr : (system cfg).Run h c) :
    (∀ x ∈ h, ¬ TouchesLater x) ↔ ∀ x ∈ h, RemovesInTime x := by
  constructor
  · intro hspare x hx t a g after hrole hdoes
    have hinv := packetInvariant_of_run hr x hx
    have htask := hinv.tasks t hdoes.mem.1 _ hdoes.mem.2
    obtain ⟨rfl, -⟩ : g = a.guid ∧ after = .packet a := htask.acts a hrole
    cases hentry : x.src.shared.registry.mSessionContexts a.guid with
    | none => exact Or.inl rfl
    | some b =>
      right
      have hb := hinv.wellFormed.newest hentry
      rcases hinv.wellFormed.newest_or_older (htask.inserted a hrole) with hnew | ⟨y, hy, hlt⟩
      · exact hnew
      · -- a later context is erased, which the run does not do
        obtain rfl : b = y := Option.some.inj (hb.symm.trans hy)
        have hguid := (Registry.newest_mem hy).2
        refine absurd ⟨t, a, b, hrole, hguid, hlt, Or.inl ⟨after, ?_, ?_⟩⟩ (hspare x hx)
        · rw [hguid]; exact hdoes
        · rw [hguid]; exact hentry
  · rintro hC x hx ⟨t, a, b, hrole, hguid, hlt, hremove | hdisconnect⟩
    · obtain ⟨after, hdoes, hentry⟩ := hremove
      have hb := (packetInvariant_of_run hr x hx).wellFormed.newest hentry
      rcases hC x hx t a _ _ hrole hdoes with hnone | hnewest
      · exact absurd (hentry.symm.trans hnone) (by simp)
      · obtain rfl : b = a := Option.some.inj (hb.symm.trans hnewest)
        exact Nat.lt_irrefl _ hlt
    · obtain ⟨ht, hop⟩ := hdisconnect.mem
      obtain rfl := ownSession_of_run hr hC x hx t ht _ hop a b hrole rfl
      exact Nat.lt_irrefl _ hlt

/-! ### A removal that comes too late -/

/-- The client of GUID 0 connects. -/
def connection : Packet ℕ := ⟨0, true, 1, .newIncomingConnection⟩

/-- The client of GUID 0 announces that it leaves. -/
def notification : Packet ℕ := ⟨0, true, 1, .disconnectionNotification⟩

/-- The next access of thread `i`. -/
def next (i : ℕ) : Move (Event Choice (Call ℕ)) := .thread i (.step {})

/-- The server is started, the client connects, and its leave becomes a strand task,
thread 0 of the pool. -/
def connectAndLeave : List (Move (Event Choice (Call ℕ))) :=
  [.env (.call (.start [])), .env (.call (.receive connection)), next 0, next 0, next 0, next 0,
    .env (.call (.receive notification)), next 0, next 0]

/-- The strand task removes and disconnects. -/
def leaveTask : List (Move (Event Choice (Call ℕ))) := [next 0, next 0, next 0, next 0]

/-- A client that connects again, and whose last packet is worked on then. -/
theorem packet_task_spares_later_reconnect :
    ∃ h c, (system (Settings.defaults fun _ : ℕ => 0)).Run h c ∧ h.length = 21 ∧
      c.shared.registry.mSessionContexts 0 = some ⟨0, 1⟩ ∧ ∀ x ∈ h, ¬ TouchesLater x := by
  obtain ⟨h, c, hr, hp⟩ := (system (Settings.defaults fun _ : ℕ => 0)).exists_run_of_follow
    (p := fun h c => decide (h.length = 21 ∧ c.shared.registry.mSessionContexts 0 = some ⟨0, 1⟩ ∧
      ∀ x ∈ h, removesInTime x = true))
    (connectAndLeave ++ leaveTask ++ [next 0, next 0, next 0] ++
      [.env (.call (.receive connection)), next 0, next 0, next 0, next 0]) (by decide)
  obtain ⟨hlen, hentry, hall⟩ := of_decide_eq_true hp
  have hC : ∀ x ∈ h, RemovesInTime x := fun x hx => (removesInTime_iff x).mp (hall x hx)
  exact ⟨h, c, hr, hlen, hentry, (packet_task_spares_later_iff hr).mpr hC⟩

/-- The client reconnects before the strand task of its first session has run, and the
task then erases the second one. -/
theorem packet_task_removes_later :
    ∃ h c, (system (Settings.defaults fun _ : ℕ => 0)).Run h c ∧ ∃ x ∈ h, TouchesLater x := by
  obtain ⟨h, c, hr, hp⟩ := (system (Settings.defaults fun _ : ℕ => 0)).exists_run_of_follow
    (p := fun h _ => h.any fun x =>
      decide (performed x = some (⟨⟨.packetTask ⟨0, 0⟩, 0⟩,
          [.eraseContext 0 (.packet ⟨0, 0⟩)]⟩, .eraseContext 0 (.packet ⟨0, 0⟩)) ∧
        x.src.shared.registry.mSessionContexts 0 = some ⟨0, 1⟩))
    (connectAndLeave ++
      [.env (.call (.receive connection)), next 1, next 1, next 1, next 1, next 1] ++
      leaveTask) (by decide)
  obtain ⟨x, hx, hp⟩ := List.any_eq_true.mp hp
  obtain ⟨hdoes, hentry⟩ := of_decide_eq_true hp
  exact ⟨h, c, hr, x, hx, _, ⟨0, 0⟩, ⟨0, 1⟩, rfl, rfl, Nat.zero_lt_one, Or.inl ⟨_, hdoes, hentry⟩⟩

end Sessions
end SculkProtocol
