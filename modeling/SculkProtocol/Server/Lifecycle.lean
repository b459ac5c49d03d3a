import SculkProtocol.Server.SessionSteps

/-!
# Start and stop of the server's sessions

What `start` can rely on: the last `stop` has joined the I/O thread before it collected
the contexts, so nothing was inserted behind its back, and every context it collected
has been disconnected. `start_quiet` concludes that no entry of the map is connected
when a server is started.

The argument is `LifecycleInvariant`: which thread performs which part of the teardown
(`roles`, `order`), that there is one I/O thread at most (`io`), and what is still to
come before the sessions are disconnected (`joinable`, `closing`).
-/

namespace SculkProtocol
namespace Sessions

open Scripts

variable {Guid : Type} [DecidableEq Guid] {cfg : Settings Guid} {c c' : Server Guid}
  {m : Move (Event Choice (Call Guid))}

/-- Insertions are the I/O thread's, and the teardown is `stop`'s. -/
def OfRole (role : Role Guid) : Op Guid → Prop
  | .processIncomingPacket _ | .upsertSessionContext _ => role = .io
  | .joinIo | .clearFlushSchedule | .collectContexts => role = .stop
  | _ => True

/-- Threads that handle a received packet. -/
def ioWeight (t : Thread Guid) : ℕ := if t.tag.role = .io then 1 else 0

structure LifecycleInvariant (c : Server Guid) : Prop where
  wellFormed : c.shared.registry.WellFormed
  /-- there is no `stop` in progress while the server runs -/
  stopping : ∀ t ∈ c.threads, t.tag.role = .stop → c.shared.mRunning = false
  roles : ∀ t ∈ c.threads, ∀ op ∈ t.code, OfRole t.tag.role op
  /-- the contexts are collected after the I/O thread is joined -/
  order : ∀ t ∈ c.threads, .joinIo ∈ t.code →
    ∃ rest, t.code = .joinIo :: rest ∧ .joinIo ∉ rest ∧ .collectContexts ∈ rest
  io : Config.total ioWeight c.threads = if c.shared.mIoPumpThread = .busy then 1 else 0
  /-- the I/O thread lives while the server runs or `stop` has yet to join it -/
  joinable : c.shared.mIoPumpThread ≠ .absent →
    c.shared.mRunning = true ∨ Has c fun _ op => op = .joinIo
  /-- without an I/O thread, the teardown is to come, or its disconnects are -/
  closing : c.shared.mIoPumpThread ≠ .absent ∨ (Has c fun _ op => op = .collectContexts) ∨
    ∀ g y, c.shared.registry.mSessionContexts g = some y →
      c.shared.registry.mConnected y = true →
      Has c fun tag op => tag.role = .stop ∧ op = .exchangeConnected y

/-! ### What arrives -/

/-- Calls and packets by what they do to the server's phase. -/
theorem arrive_cases {s s' : State Guid} {pool new : List (Thread Guid)} {a : Call Guid}
    (h : arrive cfg s pool a = some (s', new)) :
    (s.mRunning = false ∧ (∀ t ∈ pool, t.tag.role ≠ .stop) ∧ new = [] ∧ s'.mRunning = true ∧
      s'.mIoPumpThread = if s.mIoPumpThread = .absent then .idle else s.mIoPumpThread) ∨
    (∃ producer, new = [⟨⟨.stop, producer⟩, stopCode s.mRunning⟩] ∧ s'.mRunning = false ∧
      s'.mIoPumpThread = s.mIoPumpThread) ∨
    (∃ p, new = [⟨⟨.io, 0⟩, [.processIncomingPacket p]⟩] ∧ s'.mRunning = s.mRunning ∧
      s.mIoPumpThread = .idle ∧ s'.mIoPumpThread = .busy ∧ s'.schedule = s.schedule) ∨
    ((∀ t ∈ new, t.tag.role ≠ .io ∧ t.tag.role ≠ .stop) ∧ s'.mRunning = s.mRunning ∧
      s'.mIoPumpThread = s.mIoPumpThread ∧ s'.schedule = s.schedule) := by
  cases a with
  -- a start passes only on a server that is stopped
  | start is =>
    simp only [arrive] at h
    split at h
    · next hquiet =>
      obtain ⟨q, -, hq⟩ := Option.map_eq_some_iff.mp h
      obtain ⟨rfl, rfl⟩ := Prod.mk.inj hq
      exact Or.inl ⟨hquiet.1, hquiet.2, rfl, rfl, rfl⟩
    · exact absurd h (by simp)
  | stop producer =>
    obtain ⟨rfl, rfl⟩ := Prod.mk.inj (Option.some.inj h)
    exact Or.inr (Or.inl ⟨producer, rfl, rfl, rfl⟩)
  -- a packet is received by the pump's thread, which has to be idle
  | receive p =>
    simp only [arrive] at h
    split at h
    · next hidle =>
      obtain ⟨rfl, rfl⟩ := Prod.mk.inj (Option.some.inj h)
      exact Or.inr (Or.inr (Or.inl ⟨p, rfl, rfl, hidle, rfl, rfl⟩))
    · exact absurd h (by simp)
  | disconnectClient g producer =>
    obtain ⟨rfl, rfl⟩ := Prod.mk.inj (Option.some.inj h)
    exact Or.inr (Or.inr (Or.inr ⟨by simp, rfl, rfl, rfl⟩))
  -- the other calls leave the phase as it is
  | flushTick now producer | disconnect x | destroy x =>
    simp only [arrive] at h
    split at h
    · obtain ⟨rfl, rfl⟩ := Prod.mk.inj (Option.some.inj h)
      exact Or.inr (Or.inr (Or.inr ⟨by simp, rfl, rfl, rfl⟩))
    · exact absurd h (by simp)

omit [DecidableEq Guid] in
/-- Strand tasks are started for packets and flushes only. -/
theorem Spawn.role {s : State Guid} {op : Op Guid} {t : Thread Guid} (h : Spawn s op t) :
    t.tag.role ≠ .io ∧ t.tag.role ≠ .stop := by
  cases h <;> simp

/-- The last step of a thread changes the I/O thread's phase only for itself. -/
theorem finish_phase (s : State Guid) (role : Role Guid) :
    (Sessions.finish s role).mRunning = s.mRunning ∧
      (Sessions.finish s role).mIoPumpThread = if role = .io then .idle else s.mIoPumpThread := by
  cases role <;> exact ⟨rfl, rfl⟩

/-! ### One move -/

/-- While `stop` runs, the server does not. -/
theorem stopping_step (hc : LifecycleInvariant c)
    (h : (scripts cfg).program.step c m = some c') :
    ∀ t ∈ c'.threads, t.tag.role = .stop → c'.shared.mRunning = false := by
  intro u hu hrole
  cases step_cases h with
  | @access i ch t op rest ops s' ts others hi hperm hcode hop =>
    show s'.mRunning = false
    rw [(execOp_effect hop).running]
    rcases List.mem_append.mp hu with hu | hu
    · exact hc.stopping u (hperm.mem_iff.mpr (List.mem_cons_of_mem _ hu)) hrole
    · rcases List.mem_cons.mp hu with rfl | hu
      · exact hc.stopping t (List.mem_of_getElem? hi) hrole
      · -- no operation starts a `stop`
        exact absurd hrole (execOp_spawns hop u hu).role.2
  | @finish i ch t others hi hperm hcode =>
    show (finish c.shared t.tag.role).mRunning = false
    rw [(finish_phase c.shared t.tag.role).1]
    exact hc.stopping u (hperm.mem_iff.mpr (List.mem_cons_of_mem _ hu)) hrole
  | @arrive a s' new hnew =>
    show s'.mRunning = false
    rcases arrive_cases hnew with ⟨-, hnone, rfl, -⟩ | ⟨-, -, hrun, -⟩ | ⟨p, rfl, hrun,
      -⟩ | ⟨hold, hrun, -⟩
    · -- `start` is called when no `stop` is under way
      exact absurd hrole (hnone u (by simpa using hu))
    · exact hrun
    · rw [hrun]
      rcases List.mem_append.mp hu with hu | hu
      · exact hc.stopping u hu hrole
      · rw [List.mem_singleton.mp hu] at hrole
        exact nomatch hrole
    · rw [hrun]
      rcases List.mem_append.mp hu with hu | hu
      · exact hc.stopping u hu hrole
      · exact absurd hrole (hold u hu).2

/-- Every thread keeps to its role. -/
theorem roles_step (hc : LifecycleInvariant c)
    (h : (scripts cfg).program.step c m = some c') :
    ∀ t ∈ c'.threads, ∀ op ∈ t.code, OfRole t.tag.role op := by
  refine step_ops (R := fun _ role op => OfRole role op) h hc.roles ?_ ?_ ?_ ?_
  · exact fun _ _ _ _ ht => ht
  · intro t op o _ hs ht
    cases hs with
    | newIncoming => exact ht
    | _ => trivial
  · intro op t hs o ho
    cases hs with
    -- a task needs no role
    | packetTask | flushTask =>
      rw [List.mem_singleton.mp ho]
      trivial
  · intro t harr o ho
    cases harr with
    -- the code of `stop` is all of the role `stop`
    | stop =>
      unfold stopCode at ho
      split at ho
      · simp only [List.cons_append, List.nil_append, List.mem_cons, List.not_mem_nil,
          or_false] at ho
        rcases ho with rfl | rfl | rfl | rfl | rfl | rfl <;> first | rfl | trivial
      · simp only [List.nil_append, List.mem_cons, List.not_mem_nil, or_false] at ho
        rcases ho with rfl | rfl <;> first | rfl | trivial
    | receive => rw [List.mem_singleton.mp ho]; rfl
    | _ => rw [List.mem_singleton.mp ho]; trivial

/-- `joinIo` is not a successor of anything. -/
theorem Successor.ne_joinIo {s : State Guid} {op o : Op Guid} (h : Successor s op o) :
    o ≠ .joinIo := by
  cases h <;> simp [removeSessionContext]

/-- `stop` joins the I/O thread before it collects the contexts. -/
theorem order_step (hc : LifecycleInvariant c)
    (h : (scripts cfg).program.step c m = some c') :
    ∀ t ∈ c'.threads, .joinIo ∈ t.code →
      ∃ rest, t.code = .joinIo :: rest ∧ .joinIo ∉ rest ∧ .collectContexts ∈ rest := by
  intro u hu hjoin
  cases step_cases h with
  | @access i ch t op rest ops s' ts others hi hperm hcode hop =>
    rcases List.mem_append.mp hu with hu | hu
    · exact hc.order u (hperm.mem_iff.mpr (List.mem_cons_of_mem _ hu)) hjoin
    · rcases List.mem_cons.mp hu with rfl | hu
      · -- the thread that moved has passed its join
        rcases List.mem_append.mp hjoin with hjoin | hjoin
        · exact absurd rfl (execOp_successor hop _ hjoin).ne_joinIo
        · obtain ⟨rest', hcode', hno, -⟩ := hc.order t (List.mem_of_getElem? hi)
            (hcode ▸ List.mem_cons_of_mem _ hjoin)
          rw [hcode] at hcode'
          injection hcode' with _ hrest
          exact absurd (hrest ▸ hjoin) hno
      · cases execOp_spawns hop u hu with
        | packetTask | flushTask => exact absurd (List.mem_singleton.mp hjoin) (by simp)
  | finish hi hperm hcode => exact hc.order u (hperm.mem_iff.mpr (List.mem_cons_of_mem _ hu)) hjoin
  | arrive hnew =>
    rcases List.mem_append.mp hu with hu | hu
    · exact hc.order u hu hjoin
    · cases (env_arrival hnew).2 u hu with
      | stop =>
        simp only [stopCode] at hjoin ⊢
        split at hjoin
        · next hrun => exact ⟨_, by rw [if_pos hrun]; rfl, by simp, by simp⟩
        · exact absurd hjoin (by simp)
      | _ => exact absurd (List.mem_singleton.mp hjoin) (by simp [removeSessionContext])

/-- The I/O thread is at work where it says so. -/
theorem io_step (hc : LifecycleInvariant c)
    (h : (scripts cfg).program.step c m = some c') :
    Config.total ioWeight c'.threads = if c'.shared.mIoPumpThread = .busy then 1 else 0 := by
  have hio := hc.io
  cases step_cases h with
  | @access i ch t op rest ops s' ts others hi hperm hcode hop =>
    -- no operation starts an I/O thread
    have hts : Config.total ioWeight ts = 0 := Config.total_eq_zero.mpr fun u hu => by
      rw [ioWeight, if_neg (execOp_spawns hop u hu).role.1]
    rw [Config.total_perm _ hperm, Config.total_cons] at hio
    -- nor does it make it busy
    have hbusy : (s'.mIoPumpThread = .busy) = (c.shared.mIoPumpThread = .busy) := by
      rcases (execOp_effect hop).io with heq | ⟨-, hidle, habsent⟩
      · rw [heq]
      · rw [hidle, habsent]; simp
    show Config.total ioWeight (others ++ ⟨t.tag, ops ++ rest⟩ :: ts) = if s'.mIoPumpThread =
      .busy then 1 else 0
    rw [Config.total_append, Config.total_cons, hts]
    simp only [hbusy, ← hio, ioWeight]
    omega
  | @finish i ch t others hi hperm hcode =>
    rw [Config.total_perm _ hperm, Config.total_cons] at hio
    show Config.total ioWeight others =
      if (finish c.shared t.tag.role).mIoPumpThread = .busy then 1 else 0
    rw [(finish_phase c.shared t.tag.role).2]
    -- the I/O thread is idle again when its packet is done
    by_cases hrole : t.tag.role = .io
    · simp only [ioWeight, hrole, if_true] at hio ⊢
      split at hio
      · simp only [reduceCtorEq, if_false]
        omega
      · omega
    · simp only [ioWeight, hrole, if_false, Nat.zero_add] at hio ⊢
      exact hio
  | @arrive a s' new hnew =>
    show Config.total ioWeight (c.threads ++ new) = if s'.mIoPumpThread = .busy then 1 else 0
    rw [Config.total_append, hio]
    rcases arrive_cases hnew with ⟨-, -, rfl, -, heq⟩ | ⟨p, rfl, -, heq⟩ | ⟨p, rfl, -,
      hidle, heq, -⟩ |
      ⟨hold, -, heq, -⟩
    · rw [heq]
      cases c.shared.mIoPumpThread <;> simp
    · rw [heq]
      simp [ioWeight]
    · -- it was idle before the packet
      rw [hidle, heq]
      simp [ioWeight]
    · have hnew : Config.total ioWeight new = 0 := Config.total_eq_zero.mpr fun u hu => by
        rw [ioWeight, if_neg (hold u hu).1]
      rw [heq, hnew, Nat.add_zero]

/-- A thread that inserts contexts keeps the I/O thread busy. -/
theorem LifecycleInvariant.busy (hc : LifecycleInvariant c) {t : Thread Guid}
    (ht : t ∈ c.threads) (hrole : t.tag.role = .io) : c.shared.mIoPumpThread = .busy := by
  have hle := Config.le_total (w := ioWeight) ht
  rw [hc.io, ioWeight, if_pos hrole] at hle
  by_contra hidle
  rw [if_neg hidle] at hle
  omega

/-- An I/O thread that is there will be joined. -/
theorem joinable_step (hc : LifecycleInvariant c)
    (h : (scripts cfg).program.step c m = some c') (hio : c'.shared.mIoPumpThread ≠ .absent) :
    c'.shared.mRunning = true ∨ Has c' fun _ op => op = .joinIo := by
  have hkeep : (Has c fun _ op => op = .joinIo) → Has c' fun _ op => op = .joinIo := by
    intro hjoin
    rcases has_step hjoin h with hjoin | ⟨t, op, hdoes, rfl⟩
    · exact hjoin
    · -- a join that is performed leaves no I/O thread
      obtain ⟨i, ch, rest, ops, s', ts, others, -, -, -, hop, rfl⟩ := access_of_does h hdoes
      simp only [scripts_exec, execOp] at hop
      split at hop
      · obtain rfl := state_eq hop
        exact absurd rfl hio
      · exact absurd hop (by simp)
  cases step_cases h with
  | @access i ch t op rest ops s' ts others hi hperm hcode hop =>
    show s'.mRunning = true ∨ _
    rw [(execOp_effect hop).running]
    rcases (execOp_effect hop).io with heq | ⟨-, -, habsent⟩
    · exact (hc.joinable (heq ▸ hio)).imp_right hkeep
    · exact absurd habsent hio
  | @finish i ch t others hi hperm hcode =>
    show (finish c.shared t.tag.role).mRunning = true ∨ _
    rw [(finish_phase c.shared t.tag.role).1]
    refine (hc.joinable ?_).imp_right hkeep
    change (finish c.shared t.tag.role).mIoPumpThread ≠ .absent at hio
    rw [(finish_phase c.shared t.tag.role).2] at hio
    by_cases hrole : t.tag.role = .io
    · rw [hc.busy (List.mem_of_getElem? hi) hrole]
      simp
    · rwa [if_neg hrole] at hio
  | @arrive a s' new hnew =>
    show s'.mRunning = true ∨ _
    rcases arrive_cases hnew with ⟨-, -, -, hrun, -⟩ | ⟨p, rfl, -, heq⟩ | ⟨p, -, hrun,
      hidle, -, -⟩ |
      ⟨-, hrun, heq, -⟩
    · exact Or.inl hrun
    · -- `stop` of a running server has the join in front of it
      right
      rcases hc.joinable (heq ▸ hio) with hrun | hjoin
      · exact ⟨_, List.mem_append_right _ (List.mem_singleton.mpr rfl), .joinIo,
          by simp [stopCode, hrun], rfl⟩
      · exact hkeep hjoin
    · rw [hrun]
      exact (hc.joinable (by rw [hidle]; simp)).imp_right hkeep
    · rw [hrun]
      exact (hc.joinable (heq ▸ hio)).imp_right hkeep

/-- Every entry of the map is collected by the teardown. -/
theorem mem_entries {r : Registry Guid} (hr : r.WellFormed) {g : Guid} {y : Context Guid}
    (h : r.mSessionContexts g = some y) : y ∈ r.entries := by
  obtain ⟨hmem, rfl⟩ := Registry.newest_mem (hr.newest h)
  exact List.mem_filter.mpr ⟨hmem, decide_eq_true h⟩

/-- The I/O thread was absent already, unless the teardown is still to come. -/
theorem absent_step (hc : LifecycleInvariant c)
    (h : (scripts cfg).program.step c m = some c') (hio : c'.shared.mIoPumpThread = .absent) :
    c.shared.mIoPumpThread = .absent ∨ Has c' fun _ op => op = .collectContexts := by
  cases step_cases h with
  | @access i ch t op rest ops s' ts others hi hperm hcode hop =>
    rcases (execOp_effect hop).io with heq | ⟨rfl, -, -⟩
    · exact Or.inl (heq.symm.trans hio)
    · -- the join is followed by the teardown
      obtain ⟨rest', hcode', -, hcollect⟩ := hc.order t (List.mem_of_getElem? hi)
        (hcode ▸ List.mem_cons_self)
      rw [hcode] at hcode'
      injection hcode' with _ hrest
      exact Or.inr ⟨⟨t.tag, ops ++ rest⟩, by simp, .collectContexts,
        List.mem_append_right _ (hrest ▸ hcollect), rfl⟩
  | @finish i ch t others hi hperm hcode =>
    change (finish c.shared t.tag.role).mIoPumpThread = .absent at hio
    rw [(finish_phase c.shared t.tag.role).2] at hio
    split at hio
    · exact absurd hio (by simp)
    · exact Or.inl hio
  | @arrive a s' new hnew =>
    rcases arrive_cases hnew with ⟨-, -, -, -, heq⟩ | ⟨-, -, -, heq⟩ | ⟨-, -, -, -, heq, -⟩ |
      ⟨-, -, heq, -⟩
    · have hio : s'.mIoPumpThread = .absent := hio
      rw [heq] at hio
      split at hio
      · exact absurd hio (by simp)
      · exact Or.inl hio
    · exact Or.inl (heq.symm.trans hio)
    · exact absurd (heq.symm.trans hio) (by simp)
    · exact Or.inl (heq.symm.trans hio)

/-- Without an I/O thread, the contexts are closed or about to be. -/
theorem closing_step (hc : LifecycleInvariant c)
    (h : (scripts cfg).program.step c m = some c') (hio : c'.shared.mIoPumpThread = .absent) :
    (Has c' fun _ op => op = .collectContexts) ∨
      ∀ g y, c'.shared.registry.mSessionContexts g = some y →
        c'.shared.registry.mConnected y = true →
        Has c' fun tag op => tag.role = .stop ∧ op = .exchangeConnected y := by
  by_cases hcollect : Has c' fun _ op => op = .collectContexts
  · exact Or.inl hcollect
  right
  intro g y hentry hy
  rcases entry_step hc.wellFormed h hentry hy with ⟨hentry₀, hy₀⟩ | ⟨t, hdoes⟩
  · have habsent := (absent_step hc h hio).resolve_right hcollect
    rcases hc.closing with hne | hpending | hall
    · exact absurd habsent hne
    · rcases has_step hpending h with hstill | ⟨t, op, hdoes, rfl⟩
      · exact absurd hstill hcollect
      · -- the contexts are collected in this move
        obtain ⟨i, ch, rest, ops, s', ts, others, -, -, -, hop, rfl⟩ := access_of_does h hdoes
        have hrole : t.tag.role = .stop := hc.roles t hdoes.mem.1 _ hdoes.mem.2
        obtain rfl := ops_eq hop
        refine has_of_ops (List.mem_flatMap.mpr ⟨y, mem_entries hc.wellFormed hentry₀, ?_⟩)
          ⟨hrole, rfl⟩
        exact List.mem_cons_self
    · rcases has_step (hall g y hentry₀ hy₀) h with hstill | ⟨t, op, hdoes, -, rfl⟩
      · exact hstill
      · -- the session is disconnected in this move
        obtain ⟨i, ch, rest, ops, s', ts, others, -, -, -, hop, rfl⟩ := access_of_does h hdoes
        obtain rfl := state_eq hop
        have hgone : Function.update c.shared.registry.mConnected y false y = true := hy
        rw [Function.update_self] at hgone
        exact absurd hgone (by simp)
  · -- only a live I/O thread inserts
    have hbusy := hc.busy hdoes.mem.1 (hc.roles t hdoes.mem.1 _ hdoes.mem.2)
    obtain ⟨i, ch, rest, ops, s', ts, others, -, -, -, hop, rfl⟩ := access_of_does h hdoes
    obtain rfl := state_eq hop
    exact absurd (hbusy.symm.trans hio) (by simp)

/-- **One move** keeps the invariant. -/
theorem lifecycle_step (hc : LifecycleInvariant c)
    (h : (scripts cfg).program.step c m = some c') : LifecycleInvariant c' where
  wellFormed := step_wellFormed hc.wellFormed h
  stopping := stopping_step hc h
  roles := roles_step hc h
  order := order_step hc h
  io := io_step hc h
  joinable := joinable_step hc h
  closing := by
    by_cases hio : c'.shared.mIoPumpThread = .absent
    · exact Or.inr (closing_step hc h hio)
    · exact Or.inl hio

/-- A server that nobody has started has the invariant. -/
theorem lifecycle_initial : LifecycleInvariant (system cfg).init where
  wellFormed := Registry.wellFormed_initial
  stopping := fun _ ht => absurd ht List.not_mem_nil
  roles := fun _ ht => absurd ht List.not_mem_nil
  order := fun _ ht => absurd ht List.not_mem_nil
  io := rfl
  joinable := fun hio => absurd rfl hio
  closing := Or.inr (Or.inr fun _ _ hentry => absurd hentry (by simp [system, State.initial]))

/-- **Start.** When a stopped server with no `stop` in progress is started, no entry of
its map is connected. -/
theorem start_quiet (hc : LifecycleInvariant c)
    (hrun : c.shared.mRunning = false) (hstop : ∀ t ∈ c.threads, t.tag.role ≠ .stop) {g : Guid}
    {y : Context Guid} (hentry : c.shared.registry.mSessionContexts g = some y) :
    c.shared.registry.mConnected y = false := by
  by_contra hy
  rcases hc.closing with hio | ⟨t, ht, op, hop, rfl⟩ | hall
  · rcases hc.joinable hio with htrue | ⟨t, ht, op, hop, rfl⟩
    · exact absurd (hrun.symm.trans htrue) (by simp)
    · exact hstop t ht (hc.roles t ht _ hop)
  · exact hstop t ht (hc.roles t ht _ hop)
  · obtain ⟨t, ht, op, hop, hrole, -⟩ := hall g y hentry (by simpa using hy)
    exact hstop t ht hrole

end Sessions
end SculkProtocol
