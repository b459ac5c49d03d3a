import SculkProtocol.Server.EventThreads

/-!
# Disconnection notices

RakNet delivers a disconnection notice or a lost connection once. The server hands it to
the strand of the context like any other packet: the strand may refuse it, and its task
tests the ingress limits before it looks at the message id, so a notice can be dropped and
its session stays connected (`notice_dropped`). When the task does act, it erases and
disconnects by GUID, and a client that has reconnected loses the new session while the
old one stays connected.

`notices_obeyed` is the positive half: in a run in which the strand takes each notice, no
limit drops one, and the entry that is erased on behalf of one is that of its own context,
a context whose notice was delivered has left the map and is disconnected as soon as the
tasks that were enqueued up to then have run. It rests on `NoticesKept`, which has a
clause for each place where the notice can be:

* `delivered` — among the tasks up to the delivery there is a notice;
* `underWay` — a running task that is a notice has its removal before it, or its
  disconnection after the removal (`Op.Leads`), or the context has left (`Left`);
* `ran` — the context of a notice that has run has left.
-/

namespace SculkProtocol
namespace ServerEvents

open Scripts Sessions

variable {Guid : Type}

/-- The context is no longer in the map, and its session is not connected. -/
def Left (r : Registry Guid) (x : Context Guid) : Prop :=
  r.mSessionContexts x.guid ≠ some x ∧ r.mConnected x = false

/-- **The property.** A context for which a notice was delivered has left when all tasks
that its strand had accepted up to then have run. -/
def NoticesObeyed (s : State Guid) : Prop :=
  ∀ x n, (x, n) ∈ s.delivered → (∀ i < n, i ∈ (s.strands x).ran) → Left s.registry x

/-- A disconnection notice, as a task. -/
def Task.IsNotice (t : Task Guid) : Prop := ∃ p, t = .packet p ∧ isNotice p = true

variable [DecidableEq Guid] {cfg : Settings} {c c' : Server Guid}
  {m : Move (Event Choice (Call Guid))} {s s' : State Guid} {producer : ℕ} {ch : Choice}
  {op : Op Guid} {ops : List (Op Guid)} {x : Context Guid}

/-! ### The condition -/

/-- A packet is within the ingress limits of its context. -/
def WithinLimits (cfg : Settings) (s : State Guid) (p : Packet Guid) (x : Context Guid) (now : ℤ) :
    Prop :=
  p.length ≤ cfg.mRawIngressMaxPacketBytes ∧
    (s.openWindow x now).mRawIngressWindowPackets x < cfg.mRawIngressMaxPacketsPerSecond

instance (cfg : Settings) (s : State Guid) (p : Packet Guid) (x : Context Guid) (now : ℤ) :
    Decidable (WithinLimits cfg s p x now) :=
  inferInstanceAs (Decidable (_ ∧ _))

/-- What the performed operation must not do to a notice. -/
def Op.KeepsNotice (cfg : Settings) (s : State Guid) (ch : Choice) : Op Guid → Prop
  -- the strand takes it
  | .enqueue _ (.packet p) => isNotice p = true → ch.ok = true
  -- no limit drops it
  | .processSessionPacket p x =>
    isNotice p = true → WithinLimits cfg s p x ch.now ∨ cfg.shouldDisconnect ch = true
  -- its GUID has not reconnected, or its session is disconnected already
  | .eraseContext g (.limit p x) | .eraseContext g (.notice p x) =>
    isNotice p = true → s.registry.mSessionContexts g = none ∨
      s.registry.mSessionContexts g = some x ∨ s.registry.mConnected x = false
  | _ => True

instance (cfg : Settings) (s : State Guid) (ch : Choice) (op : Op Guid) :
    Decidable (op.KeepsNotice cfg s ch) := by
  unfold Op.KeepsNotice
  split <;> infer_instance

/-- **The condition.** The transition drops no notice, and a removal on behalf of one
finds no other context. -/
def NoticeKept (cfg : Settings) (t : ServerStep Guid) : Prop :=
  ∀ i ch u op, t.label = .thread i (.step ch) → Does t u op → op.KeepsNotice cfg t.src.shared ch

/-- `NoticeKept`, to be evaluated. -/
def noticeKept (cfg : Settings) (t : ServerStep Guid) : Bool :=
  match t.label, performed t with
  | .thread _ (.step ch), some (_, op) => decide (op.KeepsNotice cfg t.src.shared ch)
  | _, _ => true

/-- The evaluation of the condition is right. -/
theorem NoticeKept.of_eval {t : ServerStep Guid} (h : noticeKept cfg t = true) :
    NoticeKept cfg t := by
  intro i ch u op hlabel hdoes
  rw [noticeKept, hlabel, show performed t = _ from hdoes] at h
  exact of_decide_eq_true h

/-- A notice that is kept is acted upon. -/
theorem processSessionPacket_notice {p : Packet Guid} (hp : isNotice p = true)
    (hkeep : (Op.processSessionPacket p x).KeepsNotice cfg s ch) :
    (processSessionPacket cfg s p x ch).2 = [.eraseContext p.guid (.limit p x)] ∨
      (processSessionPacket cfg s p x ch).2 = [.eraseContext p.guid (.notice p x)] := by
  simp only [processSessionPacket]
  rcases hkeep hp with ⟨hlength, hpackets⟩ | hdisconnect
  · rw [if_neg (Nat.not_lt.mpr hlength), if_neg (Nat.not_le.mpr hpackets), if_pos hp]
    exact Or.inr rfl
  · rw [if_pos hdisconnect]
    split
    · exact Or.inl rfl
    · split
      · exact Or.inl rfl
      · exact Or.inr rfl

/-! ### Contexts that have left -/

/-- A known context that is not in the map does not get into it. -/
theorem gone_onRegistry {r : Registry Guid} (hr : r.WellFormed) (hx : x ∈ r.inserted)
    (h : r.mSessionContexts x.guid ≠ some x) (op : Op Guid) :
    (op.onRegistry r).mSessionContexts x.guid ≠ some x := by
  cases op with
  | upsertSessionContext g =>
    change Function.update r.mSessionContexts g (some (r.fresh g)) x.guid ≠ some x
    rw [Function.update_apply]
    split
    · -- the new context is not one that is known
      intro heq
      obtain rfl := Option.some.inj heq
      exact hr.fresh_notMem g hx
    · exact h
  | eraseContext g after =>
    change Function.update r.mSessionContexts g none x.guid ≠ some x
    rw [Function.update_apply]
    split
    · exact nofun
    · exact h
  | _ => exact h

/-- A known session that is disconnected stays so. -/
theorem disconnected_onRegistry {r : Registry Guid} (hr : r.WellFormed) (hx : x ∈ r.inserted)
    (h : r.mConnected x = false) (op : Op Guid) : (op.onRegistry r).mConnected x = false := by
  cases op with
  | upsertSessionContext g =>
    change Function.update r.mConnected (r.fresh g) true x = false
    have hne : x ≠ r.fresh g := fun heq => hr.fresh_notMem g (heq ▸ hx)
    rw [Function.update_of_ne hne]
    exact h
  | disconnect y =>
    change Function.update r.mConnected y false x = false
    rw [Function.update_apply]
    split
    · rfl
    · exact h
  | _ => exact h

/-- A context that has left does not come back. -/
theorem Left.onRegistry {r : Registry Guid} (hr : r.WellFormed) (hx : x ∈ r.inserted)
    (h : Left r x) (op : Op Guid) : Left (op.onRegistry r) x :=
  ⟨gone_onRegistry hr hx h.1 op, disconnected_onRegistry hr hx h.2 op⟩

/-- The registry over a move. -/
theorem step_registry_cases (h : (scripts cfg).program.step c m = some c') :
    c'.shared.registry = c.shared.registry ∨
      ∃ op : Op Guid, c'.shared.registry = op.onRegistry c.shared.registry := by
  rcases move_cases h with ⟨t, op, i, ch, ops, -, -, hstep, -⟩ | ⟨hs, -⟩ | ⟨t, harr, -⟩
  · exact Or.inr ⟨op, hstep.registry⟩
  · exact Or.inl (by rw [hs])
  · exact Or.inl harr.registry

/-- No context is forgotten. -/
theorem inserted_step (h : (scripts cfg).program.step c m = some c')
    (hx : x ∈ c.shared.registry.inserted) : x ∈ c'.shared.registry.inserted := by
  rcases step_registry_cases h with hr | ⟨op, hr⟩
  · rwa [hr]
  · rw [hr]
    exact inserted_subset_onRegistry _ op hx

/-- A context that is gone stays gone. -/
theorem gone_step (hc : Known c) (h : (scripts cfg).program.step c m = some c')
    (hx : x ∈ c.shared.registry.inserted)
    (hgone : c.shared.registry.mSessionContexts x.guid ≠ some x) :
    c'.shared.registry.mSessionContexts x.guid ≠ some x := by
  rcases step_registry_cases h with hr | ⟨op, hr⟩
  · rwa [hr]
  · rw [hr]
    exact gone_onRegistry hc.wellFormed hx hgone op

/-- A context that has left stays so. -/
theorem left_step (hc : Known c) (h : (scripts cfg).program.step c m = some c')
    (hx : x ∈ c.shared.registry.inserted) (hleft : Left c.shared.registry x) :
    Left c'.shared.registry x := by
  rcases step_registry_cases h with hr | ⟨op, hr⟩
  · rwa [hr]
  · rw [hr]
    exact hleft.onRegistry hc.wellFormed hx op

/-- Accepted tasks keep their numbers. -/
theorem task_step (h : (scripts cfg).program.step c m = some c') {i : ℕ} {t : Task Guid}
    (hi : (c.shared.strands x).tasks[i]? = some t) : (c'.shared.strands x).tasks[i]? = some t := by
  rcases move_cases h with ⟨u, op, j, ch, ops, -, -, hstep, -⟩ | ⟨hs, -⟩ | ⟨u, harr, -⟩
  · rcases hstep.tasks (x := x) with htasks | ⟨u, -, htasks⟩
    · rwa [htasks]
    · rw [htasks, List.getElem?_append_left (List.getElem?_eq_some_iff.mp hi).1]
      exact hi
  · rwa [hs]
  · rwa [harr.tasks]

/-! ### A notice that is under way -/

/-- The operation makes the context of a notice leave, or the next one does. -/
def Op.Leads (r : Registry Guid) (x : Context Guid) : Op Guid → Prop
  | .processSessionPacket p y => y = x ∧ isNotice p = true
  | .eraseContext _ (.limit p y) | .eraseContext _ (.notice p y) => y = x ∧ isNotice p = true
  | .disconnect y => y = x ∧ r.mSessionContexts x.guid ≠ some x
  | _ => False

/-- What is left of the task of a notice makes the context leave, or it has left. -/
def UnderWay (s : State Guid) (code : List (Op Guid)) : Prop :=
  ∀ x i, .finishTask x i ∈ code → ∃ t, (s.strands x).tasks[i]? = some t ∧
    (t.IsNotice → Left s.registry x ∨ ∃ op ∈ code, op.Leads s.registry x)

/-- **The invariant.** -/
structure NoticesKept (c : Server Guid) : Prop where
  delivered : ∀ x n, (x, n) ∈ c.shared.delivered →
    ∃ i t, i < n ∧ (c.shared.strands x).tasks[i]? = some t ∧ t.IsNotice
  underWay : ∀ t ∈ c.threads, UnderWay c.shared t.code
  ran : ∀ x, ∀ i ∈ (c.shared.strands x).ran, ∃ t, (c.shared.strands x).tasks[i]? = some t ∧
    (t.IsNotice → Left c.shared.registry x)

/-- No notice is delivered at first. -/
theorem noticesKept_initial : NoticesKept (system cfg : System (Server Guid) _).init where
  delivered _ _ h := absurd h List.not_mem_nil
  underWay _ h := absurd h List.not_mem_nil
  ran _ _ h := absurd h List.not_mem_nil

/-- **One operation.** An operation that makes a context leave is followed by another, or
the context has left. -/
theorem Step.leads (h : Step cfg s producer ch op s' ops)
    (hops : execOp cfg s producer ch op = (s', ops))
    (hsound : op.Sound s.registry.inserted) (hkeep : op.KeepsNotice cfg s ch)
    (hleads : op.Leads s.registry x) : Left s'.registry x ∨ ∃ o ∈ ops, o.Leads s'.registry x := by
  cases op with
  | processSessionPacket p y =>
    obtain ⟨rfl, hp⟩ := hleads
    have hnext : ops = (processSessionPacket cfg s p y ch).2 := congrArg Prod.snd hops.symm
    rw [hnext]
    right
    rcases processSessionPacket_notice hp hkeep with heq | heq
    · exact ⟨.eraseContext p.guid (.limit p y), heq ▸ List.mem_cons_self, rfl, hp⟩
    · exact ⟨.eraseContext p.guid (.notice p y), heq ▸ List.mem_cons_self, rfl, hp⟩
  | eraseContext g after =>
    have hreg : s'.registry = s.registry.erase g := h.registry
    have hnext : ops = after.next cfg (s.registry.mSessionContexts g) := congrArg Prod.snd hops.symm
    -- in both cases the packet is a notice of `x`, and it erases the GUID of `x`
    obtain ⟨hg, hcases, hdisconnect⟩ : g = x.guid ∧ (s.registry.mSessionContexts g = none ∨
        s.registry.mSessionContexts g = some x ∨ s.registry.mConnected x = false) ∧
        (s.registry.mSessionContexts g = none ∨ s.registry.mSessionContexts g = some x →
          .disconnect x ∈ ops) := by
      cases after with
      | limit p y =>
        obtain ⟨rfl, hp⟩ := hleads
        refine ⟨hsound.2.2, hkeep hp, fun hentry => ?_⟩
        rcases hentry with hentry | hentry <;> simp [hnext, hentry, After.next]
      | notice p y =>
        obtain ⟨rfl, hp⟩ := hleads
        refine ⟨hsound.2.2, hkeep hp, fun hentry => ?_⟩
        rcases hentry with hentry | hentry <;> simp [hnext, hentry, After.next]
      | discard | client | teardown => exact absurd hleads id
    subst hg
    have hgone : s'.registry.mSessionContexts x.guid ≠ some x := by
      rw [hreg]
      simp [Registry.erase]
    rcases hcases with hentry | hentry | hconnected
    · exact Or.inr ⟨_, hdisconnect (Or.inl hentry), rfl, hgone⟩
    · exact Or.inr ⟨_, hdisconnect (Or.inr hentry), rfl, hgone⟩
    · exact Or.inl ⟨hgone, by rw [hreg]; exact hconnected⟩
  | disconnect y =>
    obtain ⟨rfl, hgone⟩ := hleads
    have hreg : s'.registry = s.registry.setDisconnected y := h.registry
    left
    rw [hreg]
    exact ⟨hgone, Function.update_self ..⟩
  | _ => exact absurd hleads id

/-- A pending operation goes on to make its context leave. -/
theorem Op.Leads.onMove (hc : Known c) (h : (scripts cfg).program.step c m = some c')
    (hx : x ∈ c.shared.registry.inserted) (hleads : op.Leads c.shared.registry x) :
    op.Leads c'.shared.registry x := by
  cases op with
  | disconnect y => exact ⟨hleads.1, gone_step hc h hx hleads.2⟩
  | eraseContext g after => cases after <;> exact hleads
  | _ => exact hleads

/-- A task that arrives has its notice to work on. -/
theorem Arrives.underWay {t : Thread Guid} (h : Arrives s s' t) : UnderWay s' t.code := by
  intro x i hmem
  cases h with
  | @runTask y position u j strand worker hbegin =>
    obtain ⟨-, hget, q, -, rfl⟩ := Strand.begin_inv hbegin
    obtain ⟨rfl, rfl⟩ : x = y ∧ i = j := by
      rcases List.mem_append.mp hmem with hmem | hmem
      · cases u with
        | flush => exact absurd hmem List.not_mem_nil
        | _ => exact absurd (List.mem_singleton.mp hmem) (by simp)
      · exact Op.finishTask.inj (List.mem_singleton.mp hmem)
    refine ⟨u, by rw [setStrand_strands, Function.update_self]; exact hget, ?_⟩
    rintro ⟨p, rfl, hp⟩
    exact Or.inr ⟨.processSessionPacket p x, List.mem_cons_self, rfl, hp⟩
  | _ => exact absurd hmem (by simp)

/-- **Under way.** A kept notice stays under way until its context has left. -/
theorem underWay_step (hk : Known c) (hc : ∀ t ∈ c.threads, UnderWay c.shared t.code)
    (h : (scripts cfg).program.step c m = some c') (hC : NoticeKept cfg ⟨c, m, c'⟩) :
    ∀ t ∈ c'.threads, UnderWay c'.shared t.code := by
  -- what was known of an operation that stays pending
  have hkeep : ∀ t ∈ c.threads, ∀ x i, .finishTask x i ∈ t.code → ∀ op ∈ t.code,
      op.Leads c.shared.registry x → op.Leads c'.shared.registry x :=
    fun t ht x i hfin op _ hleads => hleads.onMove hk h (hk.ops t ht _ hfin)
  refine codes_step (R := fun _ code => UnderWay c.shared code)
    (Q := fun _ code => UnderWay c'.shared code) h hc ?_ ?_ ?_
  · intro t ht hcode x i hfin
    obtain ⟨u, hu, hleft⟩ := hcode x i hfin
    refine ⟨u, task_step h hu, fun hnotice => ?_⟩
    rcases hleft hnotice with hleft | ⟨op, hop, hleads⟩
    · exact Or.inl (left_step hk h (hk.ops t ht _ hfin) hleft)
    · exact Or.inr ⟨op, hop, hkeep t ht x i hfin op hop hleads⟩
  · intro t op j ch rest ops ts hm hdoes hcode hunder hex
    obtain ⟨hstep, rfl⟩ := exec_inv hex
    refine ⟨fun x i hfin => ?_, fun u hu => absurd hu List.not_mem_nil⟩
    -- the end of the task is not what the operation unfolds into
    have hrest : .finishTask x i ∈ rest := by
      rcases List.mem_append.mp hfin with hfin | hfin
      · have hnone := hstep.not_last (k := .endTask x) (Or.inr ⟨x, rfl⟩)
        exact absurd (Op.isOf_iff.mpr rfl) (List.countP_eq_zero.mp hnone _ hfin)
      · exact hfin
    have hfin' : .finishTask x i ∈ t.code := hcode ▸ List.mem_cons_of_mem _ hrest
    obtain ⟨u, hu, hleft⟩ := hunder x i hfin'
    refine ⟨u, task_step h hu, fun hnotice => ?_⟩
    rcases hleft hnotice with hleft | ⟨o, ho, hleads⟩
    · exact Or.inl (left_step hk h (hk.ops t hdoes.mem.1 _ hfin') hleft)
    · rw [hcode] at ho
      rcases List.mem_cons.mp ho with rfl | ho
      · -- the performed operation leads to the next one
        have hexec : execOp cfg c.shared t.tag ch o = (c'.shared, ops) := by
          obtain ⟨h1, h2⟩ := Prod.mk.inj (Option.some.inj hex)
          exact Prod.ext h1 (Prod.mk.inj h2).1
        have hsound := hk.ops t hdoes.mem.1 o hdoes.mem.2
        rcases hstep.leads hexec hsound (hC j ch t o hm hdoes) hleads with hleft | ⟨o', ho', hleads⟩
        · exact Or.inl hleft
        · exact Or.inr ⟨o', List.mem_append_left _ ho', hleads⟩
      · exact Or.inr ⟨o, List.mem_append_right _ ho,
          hkeep t hdoes.mem.1 x i hfin' o (hcode ▸ List.mem_cons_of_mem _ ho) hleads⟩
  · intro a new _ hnew u hu
    obtain ⟨t, rfl, harr⟩ := call_cases hnew
    obtain rfl := List.mem_singleton.mp hu
    exact harr.underWay

/-! ### Notices that have run -/

/-- A task that has ended has run. -/
theorem Step.ran (h : Step cfg s producer ch op s' ops) (x : Context Guid) :
    (s'.strands x).ran = (s.strands x).ran ∨
      ∃ i, op = .finishTask x i ∧ (s'.strands x).ran = i :: (s.strands x).ran := by
  cases h with
  | @accept y t =>
    left
    by_cases hx : x = y
    · subst hx; simp [Strand.enqueue]
    · simp [hx]
  | finishTask y i =>
    by_cases hx : x = y
    · subst hx
      exact Or.inr ⟨i, rfl, by simp [Strand.finish]⟩
    · exact Or.inl (by simp [hx])
  | dispatch hs | parseFailed hs => rcases hs with rfl | rfl <;> exact Or.inl rfl
  | _ => exact Or.inl (by simp)

/-- What arrives runs nothing. -/
theorem Arrives.ran {t : Thread Guid} (h : Arrives s s' t) (x : Context Guid) :
    (s'.strands x).ran = (s.strands x).ran := by
  cases h with
  | @runTask y position u i strand worker hbegin =>
    obtain ⟨-, -, q, -, rfl⟩ := Strand.begin_inv hbegin
    by_cases hx : x = y
    · subst hx; simp
    · simp [hx]
  | _ => rfl

/-- A delivered notice is among the accepted tasks, if the strand takes it. -/
theorem Step.delivered (h : Step cfg s producer ch op s' ops) :
    s'.delivered = s.delivered ∨ ∃ x p, op = .enqueue x (.packet p) ∧ isNotice p = true ∧
      s'.delivered = (x, (s'.strands x).tasks.length) :: s.delivered ∧
      (ch.ok = true → (s'.strands x).tasks = (s.strands x).tasks ++ [.packet p]) := by
  cases h with
  | @accept x t hok | @refuse x t hok =>
    cases t with
    | packet p =>
      cases hp : isNotice p with
      | true =>
        exact Or.inr ⟨x, p, rfl, hp, by simp [State.deliver, hp], by simp [Strand.enqueue, hok]⟩
      | false => exact Or.inl (by simp [State.deliver, hp])
    | _ => exact Or.inl rfl
  | dispatch hs | parseFailed hs => rcases hs with rfl | rfl <;> exact Or.inl rfl
  | _ => exact Or.inl (by simp)

/-- What arrives delivers nothing. -/
theorem Arrives.delivered {t : Thread Guid} (h : Arrives s s' t) : s'.delivered = s.delivered := by
  cases h <;> rfl

/-- **One move** that keeps notices keeps the invariant. -/
theorem noticesKept_step (ht : Threads c) (hc : NoticesKept c)
    (h : (scripts cfg).program.step c m = some c') (hC : NoticeKept cfg ⟨c, m, c'⟩) :
    NoticesKept c' := by
  have hdelivered : ∀ x n, (x, n) ∈ c.shared.delivered →
      ∃ i t, i < n ∧ (c'.shared.strands x).tasks[i]? = some t ∧ t.IsNotice := by
    intro x n hmem
    obtain ⟨i, t, hi, htask, hnotice⟩ := hc.delivered x n hmem
    exact ⟨i, t, hi, task_step h htask, hnotice⟩
  have hran : ∀ x, ∀ i ∈ (c.shared.strands x).ran, ∃ t, (c'.shared.strands x).tasks[i]? = some t ∧
      (t.IsNotice → Left c'.shared.registry x) := by
    intro x i hi
    obtain ⟨t, htask, hleft⟩ := hc.ran x i hi
    have hx := (ht.known.tasks x t (List.mem_of_getElem? htask)).1
    exact ⟨t, task_step h htask, fun hnotice => left_step ht.known h hx (hleft hnotice)⟩
  refine ⟨?_, underWay_step ht.known hc.underWay h hC, ?_⟩
  · intro x n hmem
    rcases move_cases h with ⟨t, op, i, ch, ops, hm, hdoes, hstep, -⟩ | ⟨hs, -⟩ | ⟨t, harr, -⟩
    · rcases hstep.delivered with hsame | ⟨y, p, rfl, hp, hnew, haccept⟩
      · exact hdelivered x n (hsame ▸ hmem)
      · rw [hnew] at hmem
        rcases List.mem_cons.mp hmem with heq | hmem
        · obtain ⟨rfl, rfl⟩ := Prod.mk.inj heq
          -- the strand has taken the notice that is delivered
          have htasks := haccept (hC i ch t _ hm hdoes hp)
          refine ⟨(c.shared.strands x).tasks.length, .packet p, ?_, ?_, p, rfl, hp⟩
          · rw [htasks, List.length_append]
            exact Nat.lt_succ_self _
          · rw [htasks, List.getElem?_concat_length]
        · exact hdelivered x n hmem
    · exact hdelivered x n (hs ▸ hmem)
    · exact hdelivered x n (harr.delivered ▸ hmem)
  · intro x i hi
    rcases move_cases h with ⟨t, op, j, ch, ops, hm, hdoes, hstep, -⟩ | ⟨hs, -⟩ | ⟨t, harr, -⟩
    · rcases hstep.ran x with hsame | ⟨k, rfl, hnew⟩
      · exact hran x i (hsame ▸ hi)
      · rw [hnew] at hi
        rcases List.mem_cons.mp hi with rfl | hi
        · -- nothing is left of a task at its end, so its context has left
          obtain ⟨u, htask, hleft⟩ := hc.underWay t hdoes.mem.1 x i hdoes.mem.2
          refine ⟨u, task_step h htask, fun hnotice => ?_⟩
          have hx : x ∈ c.shared.registry.inserted := ht.known.ops t hdoes.mem.1 _ hdoes.mem.2
          rcases hleft hnotice with hleft | ⟨o, ho, hleads⟩
          · exact left_step ht.known h hx hleft
          · obtain ⟨rest, hcode⟩ := hdoes.code_eq
            have hlast := ht.shapes t hdoes.mem.1
            rw [hcode] at ho hlast
            rw [hlast.nil_of_last rfl] at ho
            rw [List.mem_singleton.mp ho] at hleads
            exact absurd hleads id
        · exact hran x i hi
    · exact hran x i (hs ▸ hi)
    · exact hran x i (harr.ran x ▸ hi)

/-- **Notices are obeyed.** In a run that drops no notice, and in which no removal on
behalf of one finds another context, a context for which a notice was delivered has left
when the tasks enqueued up to then have run. -/
theorem notices_obeyed {h : List (ServerStep Guid)} (hr : (system cfg).Run h c)
    (hC : ∀ t ∈ h, NoticeKept cfg t) : NoticesObeyed c.shared := by
  have hinv : Threads c ∧ NoticesKept c :=
    hr.invariant_where (I := fun c => Threads c ∧ NoticesKept c) (C := NoticeKept cfg)
      ⟨threads_initial, noticesKept_initial⟩
      (fun _ _ _ hs hst hkeep => ⟨threads_step hs.1 hst, noticesKept_step hs.1 hs.2 hst hkeep⟩) hC
  intro x n hmem hall
  obtain ⟨i, t, hi, htask, hnotice⟩ := hinv.2.delivered x n hmem
  obtain ⟨t', htask', hleft⟩ := hinv.2.ran x i (hall i hi)
  obtain rfl : t = t' := Option.some.inj (htask.symm.trans htask')
  exact hleft hnotice

/-! ### A notice that is dropped -/

/-- One packet a second, and a user who lets the rest pass. -/
def oneEach : Settings where
  mCallbacks := ⟨false, false, false, false, false, true⟩
  mRawIngressMaxPacketBytes := 8 * 1024 * 1024
  mRawIngressMaxPacketsPerSecond := 1

/-- The next operation of thread `i`; a user who is asked answers `ok`. -/
def next (ok : Bool) (i : ℕ) : Move (Event Choice (Call ℕ)) := .thread i
    (.step { ok := ok, now := 1 })

/-- The I/O thread gets a packet of GUID 0 and works on it. -/
def packet (id : MessageId) : List (Move (Event Choice (Call ℕ))) :=
  [.env (.call (.receive ⟨0, true, 10, id⟩)), next true 0, next true 0, next true 0, next true 0]

/-- The strand runs a task of `steps` operations; a user who is asked answers `ok`. -/
def task (ok : Bool) (steps : ℕ) : List (Move (Event Choice (Call ℕ))) :=
  .env (.call (.runTask ⟨0, 0⟩ 0 1)) :: List.replicate steps (next ok 0)

/-- A session that leaves by a notice. -/
theorem notices_obeyed_leave :
    ∃ h c, (system oneEach : System (Server ℕ) _).Run h c ∧
      c.shared.delivered = [(⟨0, 0⟩, 1)] ∧ (c.shared.strands ⟨0, 0⟩).ran = [0] ∧
        NoticesObeyed c.shared := by
  obtain ⟨h, c, hr, hp⟩ := (system oneEach : System (Server ℕ) _).exists_run_of_follow
    (p := fun h c => decide (c.shared.delivered = [(⟨0, 0⟩, 1)] ∧
      (c.shared.strands ⟨0, 0⟩).ran = [0] ∧
      ∀ t ∈ h, noticeKept oneEach t = true))
    (packet .newIncomingConnection ++ packet .disconnectionNotification ++ task true 5) (by decide)
  obtain ⟨hdelivered, hran, hall⟩ := of_decide_eq_true hp
  exact ⟨h, c, hr, hdelivered, hran, notices_obeyed hr fun t ht => .of_eval (hall t ht)⟩

/-- The second packet of a second is the notice. It is dropped, and the session stays. -/
theorem notice_dropped :
    ∃ h c, (system oneEach : System (Server ℕ) _).Run h c ∧ ¬ NoticesObeyed c.shared := by
  obtain ⟨h, c, hr, hp⟩ := (system oneEach : System (Server ℕ) _).exists_run_of_follow
    (p := fun _ c => decide (c.shared.delivered = [(⟨0, 0⟩, 2)] ∧
      (c.shared.strands ⟨0, 0⟩).ran = [1, 0] ∧
      c.shared.registry.mSessionContexts 0 = some ⟨0, 0⟩ ∧
      c.shared.registry.mConnected ⟨0, 0⟩ = true))
    (packet .newIncomingConnection ++ packet .other ++ task true 3 ++
      packet .disconnectionNotification ++ task false 3) (by decide)
  obtain ⟨hdelivered, hran, hentry, -⟩ := of_decide_eq_true hp
  refine ⟨h, c, hr, fun hobeyed => ?_⟩
  have hleft := hobeyed ⟨0, 0⟩ 2 (by rw [hdelivered]; exact List.mem_cons_self) (by
    intro i hi
    rw [hran]
    rcases i with _ | _ | i
    · exact List.mem_cons_of_mem _ List.mem_cons_self
    · exact List.mem_cons_self
    · exact absurd hi (by omega))
  exact hleft.1 hentry

end ServerEvents
end SculkProtocol
