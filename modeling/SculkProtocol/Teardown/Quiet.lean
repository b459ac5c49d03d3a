import SculkProtocol.Teardown.Steps

/-!
# The time of destruction

`QuietInvariant` compares the counters of a network system with the threads that will
count down, and follows the calls of `stop` and of the destructor: once the waits are
behind, nothing is pending, and nothing that is waited for can begin. What the
destruction relies on is `destroyed`: from then on there is nothing pending, and on an
owned pool no task.
-/

namespace SculkProtocol
namespace Teardown

open Sessions (Context Registry After)
open Scripts

variable {Key : Type} [DecidableEq Key] {setup : Setup Key} {c c' : Network Key}
  {m : Move (Event (Choice Key) (Call Key))}

structure QuietInvariant (setup : Setup Key) (c : Network Key) : Prop where
  /-- working operations stand before a count-down -/
  placed : ∀ t ∈ c.threads, Placed (t.tag.pooled setup.kind) t.code
  pending : c.shared.pending = Config.total downs c.threads
  pooled : c.shared.pooled = Config.total (poolWeight setup) c.threads
  /-- the system does not run beside `stop` or the destructor -/
  stopping : ∀ t ∈ c.threads, t.tag = .lifecycle → c.shared.mRunning = false
  /-- `stop` is at its waits, or nothing is pending -/
  waits : ∀ t ∈ c.threads, t.tag = .lifecycle →
    c.shared.pending = 0 ∨ ∃ rest, t.code = .waitPending :: rest
  idle : c.shared.mRunning = true ∨ (∃ t ∈ c.threads, t.tag = .lifecycle) ∨ c.shared.pending = 0
  /-- only the destructor destroys the peer -/
  destroyer : ∀ t ∈ c.threads, .destroyPeer ∈ t.code →
    t.tag = .lifecycle ∧ c.shared.destroying = true
  destroyed : c.shared.peerDestroyed = true → c.shared.destroying = true ∧
    c.shared.mRunning = false ∧ c.shared.pending = 0 ∧
    (setup.ownsPool = true → c.shared.pooled = 0)

/-- A pending working operation is one that `stop` waits for. -/
theorem QuietInvariant.working (hc : QuietInvariant setup c) {t : Thread Key} {op : Op Key}
    (ht : t ∈ c.threads) (hop : op ∈ t.code) (hw : op.Working (t.tag.pooled setup.kind)) :
    0 < c.shared.pending := by
  have hdown : 0 < downs t := List.count_pos_iff.mpr ((hc.placed t ht).working hop hw)
  have hle := Config.le_total (w := downs) ht
  have hpending := hc.pending
  omega

/-- With nothing pending, no access starts a thread. -/
theorem QuietInvariant.no_spawn (hc : QuietInvariant setup c) (hzero : c.shared.pending = 0)
    {t : Thread Key} {op : Op Key} (ht : t ∈ c.threads) (hop : op ∈ t.code)
    {ts : List (Thread Key)} (hs : ∀ u ∈ ts, Spawn op u) : ts = [] := by
  cases ts with
  | nil => rfl
  | cons u ts =>
    have hw : op.Working (t.tag.pooled setup.kind) := by
      cases hs u List.mem_cons_self <;> trivial
    have := hc.working ht hop hw
    omega

omit [DecidableEq Key] in
/-- The threads of a pool after an access: others, the mover, and new ones. -/
theorem mem_access {others ts : List (Thread Key)} {t u : Thread Key} {code : List (Op Key)}
    (hu : u ∈ others ++ ⟨t.tag, code⟩ :: ts) : u ∈ others ∨ u = ⟨t.tag, code⟩ ∨ u ∈ ts := by
  rcases List.mem_append.mp hu with hu | hu
  · exact Or.inl hu
  · exact Or.inr (List.mem_cons.mp hu)

/-! ### One move -/

/-- Every thread keeps its places. -/
theorem placed_step (hc : QuietInvariant setup c) (h : (scripts setup).program.step c m = some c') :
    ∀ t ∈ c'.threads, Placed (t.tag.pooled setup.kind) t.code := by
  intro u hu
  cases step_cases h with
  | @access i ch t op rest ops s' ts others hi hperm hcode hop =>
    rcases mem_access hu with hu | rfl | hu
    · exact hc.placed u (hperm.mem_iff.mpr (List.mem_cons_of_mem _ hu))
    · have hplaced := hc.placed t (List.mem_of_getElem? hi)
      rw [hcode] at hplaced
      -- an operation that works on a session comes of one that does
      exact hplaced.2.append fun o ho hw => hplaced.1 ((execOp_successor hop o ho).working hw)
    · exact ((execOp_effect hop).spawns u hu).placed
  | finish hi hperm hcode => exact hc.placed u (hperm.mem_iff.mpr (List.mem_cons_of_mem _ hu))
  | arrive hnew =>
    rcases List.mem_append.mp hu with hmem | hmem
    · exact hc.placed u hmem
    · cases arrive_cases hnew with
      | start => exact absurd hmem List.not_mem_nil
      | pass _ _ _ hplaced => exact List.mem_singleton.mp hmem ▸ hplaced
      | user hentry => exact List.mem_singleton.mp hmem ▸ placed_of_entry hentry
      | stop =>
        rw [List.mem_singleton.mp hmem]
        exact List.append_nil (setup.stopCode _) ▸ placed_stopCode _ _ [] (Or.inl rfl)
      | destroy =>
        rw [List.mem_singleton.mp hmem]
        exact placed_stopCode _ _ _ (Or.inr rfl)

/-- No count-down takes the place of an access. -/
theorem downs_access {s s' : State Key} {ch : Choice Key} {op : Op Key} {ops : List (Op Key)}
    {ts : List (Thread Key)} (h : execOp setup s ch op = some (s', ops, ts)) :
    ops.count .countDown = 0 :=
  List.count_eq_zero.mpr fun hmem => (execOp_successor h _ hmem).ne.1 rfl

/-- The counter is that of the tasks. -/
theorem pending_step (hc : QuietInvariant setup c)
    (h : (scripts setup).program.step c m = some c') :
    c'.shared.pending = Config.total downs c'.threads := by
  have hpending := hc.pending
  cases step_cases h with
  | @access i ch t op rest ops s' ts others hi hperm hcode hop =>
    show s'.pending = Config.total downs (others ++ ⟨t.tag, ops ++ rest⟩ :: ts)
    -- the operation that is executed is the one that may count down
    have hbefore : downs t = (op :: rest).count .countDown := by rw [downs, hcode]
    have hafter : downs (⟨t.tag, ops ++ rest⟩ : Thread Key) = rest.count .countDown := by
      rw [downs, List.count_append, downs_access hop, Nat.zero_add]
    rw [Config.total_perm _ hperm, Config.total_cons, hbefore] at hpending
    rw [Config.total_append, Config.total_cons, hafter]
    -- one thread less to wait for, or as many as before and those that start
    by_cases hdown : op = .countDown
    · obtain ⟨hless, rfl⟩ := (execOp_effect hop).countDown hdown
      rw [hdown, List.count_cons_self] at hpending
      rw [Config.total_nil]
      omega
    · have hmore := (execOp_effect hop).pending hdown
      rw [List.count_cons_of_ne hdown] at hpending
      omega
  | @finish i ch t others hi hperm hcode =>
    rw [Config.total_perm _ hperm, Config.total_cons] at hpending
    -- a thread that ends has counted down before
    have hdowns : downs t = 0 := by simp [downs, hcode]
    show (finish setup c.shared t.tag).pending = Config.total downs others
    rw [(finish_same c.shared t.tag).2.2.2.1]
    omega
  | @arrive a s' new hnew =>
    show s'.pending = Config.total downs (c.threads ++ new)
    rw [Config.total_append]
    cases arrive_cases hnew with
    | start => simpa using hpending
    | @pass t _ _ hdowns =>
      rw [Config.total_cons, hdowns]
      -- `stop` waits for the new thread
      exact congrArg (· + 1) hpending
    | @user code hentry =>
      have hzero : downs (⟨.user, code⟩ : Thread Key) = 0 :=
        List.count_eq_zero.mpr fun hmem => absurd (hentry _ hmem) id
      rw [Config.total_cons, hzero]
      simpa using hpending
    | stop =>
      have hzero : downs (⟨.lifecycle, setup.stopCode c.shared.mRunning⟩ : Thread Key) = 0 := by
        cases hk : setup.kind <;> cases c.shared.mRunning <;>
          simp [downs, Setup.stopCode, Kind.teardownCode, hk]
      rw [Config.total_cons, hzero]
      simpa using hpending
    | destroy =>
      have hzero : downs (⟨.lifecycle, setup.stopCode c.shared.mRunning ++ [.destroyPeer]⟩ :
          Thread Key) = 0 := by
        cases hk : setup.kind <;> cases c.shared.mRunning <;>
          simp [downs, Setup.stopCode, Kind.teardownCode, hk]
      rw [Config.total_cons, hzero]
      simpa using hpending

/-- So is the number of tasks in the pool. -/
theorem pooled_step (hc : QuietInvariant setup c) (h : (scripts setup).program.step c m = some c') :
    c'.shared.pooled = Config.total (poolWeight setup) c'.threads := by
  have hpooled := hc.pooled
  cases step_cases h with
  | @access i ch t op rest ops s' ts others hi hperm hcode hop =>
    show s'.pooled = Config.total (poolWeight setup) (others ++ ⟨t.tag, ops ++ rest⟩ :: ts)
    -- the weight of a thread depends on its role alone
    have hsame : poolWeight setup ⟨t.tag, ops ++ rest⟩ = poolWeight setup t := rfl
    have hmore := (execOp_effect hop).pooled
    rw [Config.total_perm _ hperm, Config.total_cons] at hpooled
    rw [Config.total_append, Config.total_cons, hsame]
    omega
  | @finish i ch t others hi hperm hcode =>
    rw [Config.total_perm _ hperm, Config.total_cons] at hpooled
    show (finish setup c.shared t.tag).pooled = Config.total (poolWeight setup) others
    unfold finish
    split
    · next htag =>
      rw [poolWeight, if_pos htag] at hpooled
      show c.shared.pooled - 1 = _
      omega
    · next htag =>
      rw [poolWeight, if_neg htag] at hpooled
      omega
  | @arrive a s' new hnew =>
    show s'.pooled = Config.total (poolWeight setup) (c.threads ++ new)
    rw [Config.total_append]
    cases arrive_cases hnew with
    | start => simpa using hpooled
    | pass => exact congrArg (· + _) hpooled
    | user | stop | destroy => exact hpooled

/-- While the system is torn down, it does not run. -/
theorem stopping_step (hc : QuietInvariant setup c)
    (h : (scripts setup).program.step c m = some c') :
    ∀ t ∈ c'.threads, t.tag = .lifecycle → c'.shared.mRunning = false := by
  intro u hu htag
  cases step_cases h with
  | @access i ch t op rest ops s' ts others hi hperm hcode hop =>
    show s'.mRunning = false
    rw [(execOp_effect hop).running]
    -- no access starts the server again, and none makes a lifecycle thread
    rcases mem_access hu with hu | rfl | hu
    · exact hc.stopping u (hperm.mem_iff.mpr (List.mem_cons_of_mem _ hu)) htag
    · exact hc.stopping t (List.mem_of_getElem? hi) htag
    · cases (execOp_effect hop).spawns u hu <;> exact nomatch htag
  | @finish i ch t others hi hperm hcode =>
    exact (finish_same c.shared t.tag).1.trans
      (hc.stopping u (hperm.mem_iff.mpr (List.mem_cons_of_mem _ hu)) htag)
  | arrive hnew =>
    rcases List.mem_append.mp hu with hmem | hmem
    · cases arrive_cases hnew with
      -- a start waits for the calls of the lifecycle
      | start _ _ hnone => exact absurd htag (hnone u hmem)
      | pass | user => exact hc.stopping u hmem htag
      | stop | destroy => rfl
    · cases arrive_cases hnew with
      | start => exact absurd hmem List.not_mem_nil
      | pass _ hne => exact absurd (List.mem_singleton.mp hmem ▸ htag) hne
      | user => rw [List.mem_singleton.mp hmem] at htag; exact nomatch htag
      | stop | destroy => rfl

/-- What is no longer pending does not come back while the system is stopped. -/
theorem pending_zero_step (hc : QuietInvariant setup c)
    (h : (scripts setup).program.step c m = some c') (hrun : c.shared.mRunning = false)
    (hzero : c.shared.pending = 0) : c'.shared.pending = 0 := by
  cases step_cases h with
  | @access i ch t op rest ops s' ts others hi hperm hcode hop =>
    show s'.pending = 0
    have hmem : op ∈ t.code := hcode ▸ List.mem_cons_self
    -- a thread that starts another one is pending itself, so none is started
    by_cases hdown : op = .countDown
    · rw [((execOp_effect hop).countDown hdown).1, hzero]
    · have hnil := hc.no_spawn hzero (List.mem_of_getElem? hi) hmem (execOp_effect hop).spawns
      rw [(execOp_effect hop).pending hdown, hnil, hzero]
      rfl
  | @finish i ch t others hi hperm hcode =>
    exact (finish_same c.shared t.tag).2.2.2.1.trans hzero
  | arrive hnew =>
    cases arrive_cases hnew with
    | pass htrue => exact absurd (htrue.symm.trans hrun) (by simp)
    | start | user | stop | destroy => exact hzero

/-- The teardown waits until nothing is pending. -/
theorem waits_step (hc : QuietInvariant setup c) (h : (scripts setup).program.step c m = some c') :
    ∀ t ∈ c'.threads, t.tag = .lifecycle →
      c'.shared.pending = 0 ∨ ∃ rest, t.code = .waitPending :: rest := by
  intro u hu htag
  -- a thread that has not moved
  have hold : u ∈ c.threads → c'.shared.pending = 0 ∨ ∃ rest, u.code = .waitPending :: rest :=
    fun hmem => (hc.waits u hmem htag).imp_left
      fun hzero => pending_zero_step hc h (hc.stopping u hmem htag) hzero
  cases hm : step_cases h with
  | @access i ch t op rest ops s' ts others hi hperm hcode hop =>
    rcases mem_access hu with hu | rfl | hu
    · exact hold (hperm.mem_iff.mpr (List.mem_cons_of_mem _ hu))
    · -- the wait can only be left with nothing pending
      have hmem := List.mem_of_getElem? hi
      have hzero : c.shared.pending = 0 := by
        rcases hc.waits t hmem htag with hzero | ⟨rest', hwait⟩
        · exact hzero
        · rw [hcode] at hwait
          injection hwait with hwait _
          subst hwait
          change execOp setup c.shared ch .waitPending = some (s', ops, ts) at hop
          simp only [execOp] at hop
          split at hop
          · assumption
          · exact absurd hop (by simp)
      exact Or.inl (pending_zero_step hc h (hc.stopping t hmem htag) hzero)
    · cases (execOp_effect hop).spawns u hu <;> exact absurd htag Role.noConfusion
  | finish hi hperm hcode => exact hold (hperm.mem_iff.mpr (List.mem_cons_of_mem _ hu))
  | arrive hnew =>
    rcases List.mem_append.mp hu with hmem | hmem
    · exact hold hmem
    · have hnone : (∀ t ∈ c.threads, t.tag ≠ .lifecycle) → c.shared.mRunning = false →
          c.shared.pending = 0 := by
        intro hnone hrun
        rcases hc.idle with htrue | ⟨t, ht, hlife⟩ | hzero
        · exact absurd (htrue.symm.trans hrun) (by simp)
        · exact absurd hlife (hnone t ht)
        · exact hzero
      cases arrive_cases hnew with
      | start => exact absurd hmem List.not_mem_nil
      | pass _ hne => exact absurd (List.mem_singleton.mp hmem ▸ htag) hne
      | user => rw [List.mem_singleton.mp hmem] at htag; exact Role.noConfusion htag
      | stop _ hlife | destroy _ hlife =>
        rw [List.mem_singleton.mp hmem]
        cases hrun : c.shared.mRunning with
        | true => exact Or.inr ⟨_, rfl⟩
        | false => exact Or.inl (hnone hlife hrun)

/-- A system that does not run is torn down or has nothing pending. -/
theorem idle_step (hc : QuietInvariant setup c) (h : (scripts setup).program.step c m = some c') :
    c'.shared.mRunning = true ∨ (∃ t ∈ c'.threads, t.tag = .lifecycle) ∨ c'.shared.pending = 0 := by
  by_cases hrun' : c'.shared.mRunning = true
  · exact Or.inl hrun'
  right
  by_cases hlife : ∃ t ∈ c'.threads, t.tag = .lifecycle
  · exact Or.inl hlife
  right
  have hkeep : c.shared.mRunning = false → (¬ ∃ t ∈ c.threads, t.tag = .lifecycle) →
      c'.shared.pending = 0 := by
    intro hrun hnone
    rcases hc.idle with htrue | hsome | hzero
    · exact absurd (htrue.symm.trans hrun) (by simp)
    · exact absurd hsome hnone
    · exact pending_zero_step hc h hrun hzero
  cases step_cases h with
  | @access i ch t op rest ops s' ts others hi hperm hcode hop =>
    have hrun : c.shared.mRunning = false := by
      have := (execOp_effect hop).running
      simpa [this] using hrun'
    -- a thread keeps its tag, so a lifecycle call is still there
    refine hkeep hrun fun ⟨u, hu, htag⟩ => hlife ?_
    rcases List.mem_cons.mp (hperm.mem_iff.mp hu) with rfl | hu
    · exact ⟨⟨u.tag, ops ++ rest⟩, by simp, htag⟩
    · exact ⟨u, List.mem_append_left _ hu, htag⟩
  | @finish i ch t others hi hperm hcode =>
    have hrun : c.shared.mRunning = false := by
      rw [← (finish_same c.shared t.tag).1]
      exact Bool.eq_false_iff.mpr hrun'
    by_cases htag : t.tag = .lifecycle
    · -- a call that ends is past its waits
      rcases hc.waits t (List.mem_of_getElem? hi) htag with hzero | ⟨rest, hwait⟩
      · exact pending_zero_step hc h hrun hzero
      · rw [hcode] at hwait
        exact absurd hwait (by simp)
    · refine hkeep hrun fun ⟨u, hu, hutag⟩ => ?_
      rcases List.mem_cons.mp (hperm.mem_iff.mp hu) with rfl | hu
      · exact htag hutag
      · exact hlife ⟨u, hu, hutag⟩
  | arrive hnew =>
    cases arrive_cases hnew with
    | start => exact absurd rfl hrun'
    | pass htrue => exact absurd htrue hrun'
    | user =>
      exact hkeep (by simpa using hrun') fun ⟨u, hu, htag⟩ =>
        hlife ⟨u, List.mem_append_left _ hu, htag⟩
    | stop | destroy =>
      exact absurd ⟨_, List.mem_append_right _ (List.mem_singleton.mpr rfl), rfl⟩ hlife

/-- Only the teardown destroys the peer. -/
theorem destroyer_step (hc : QuietInvariant setup c)
    (h : (scripts setup).program.step c m = some c') :
    ∀ t ∈ c'.threads, .destroyPeer ∈ t.code →
      t.tag = .lifecycle ∧ c'.shared.destroying = true := by
  intro u hu hdestroy
  cases step_cases h with
  | @access i ch t op rest ops s' ts others hi hperm hcode hop =>
    show u.tag = .lifecycle ∧ s'.destroying = true
    rw [(execOp_effect hop).destroying]
    rcases mem_access hu with hu | rfl | hu
    · exact hc.destroyer u (hperm.mem_iff.mpr (List.mem_cons_of_mem _ hu)) hdestroy
    · rcases List.mem_append.mp hdestroy with hmem | hmem
      · -- no operation is followed by the destruction: it stands in the code from the start
        exact absurd rfl (execOp_successor hop _ hmem).ne.2.2
      · exact hc.destroyer t (List.mem_of_getElem? hi) (hcode ▸ List.mem_cons_of_mem _ hmem)
    · cases (execOp_effect hop).spawns u hu <;> exact absurd hdestroy (by simp)
  | @finish i ch t others hi hperm hcode =>
    show u.tag = .lifecycle ∧ (finish setup c.shared t.tag).destroying = true
    rw [(finish_same c.shared t.tag).2.1]
    exact hc.destroyer u (hperm.mem_iff.mpr (List.mem_cons_of_mem _ hu)) hdestroy
  | arrive hnew =>
    rcases List.mem_append.mp hu with hmem | hmem
    · obtain ⟨htag, hdestroying⟩ := hc.destroyer u hmem hdestroy
      refine ⟨htag, ?_⟩
      cases arrive_cases hnew with
      | start | pass | user | stop => exact hdestroying
      | destroy => rfl
    · cases arrive_cases hnew with
      | start => exact absurd hmem List.not_mem_nil
      | pass _ _ _ _ hpass =>
        -- no thread but the destructor's has it
        exact absurd (hpass _ (List.mem_singleton.mp hmem ▸ hdestroy)) id
      | user hentry =>
        rw [List.mem_singleton.mp hmem] at hdestroy
        exact absurd (hentry _ hdestroy) id
      | stop =>
        rw [List.mem_singleton.mp hmem] at hdestroy
        cases hk : setup.kind <;> cases hr : c.shared.mRunning <;>
          simp [Setup.stopCode, Kind.teardownCode, hk, hr] at hdestroy
      | destroy => exact ⟨by rw [List.mem_singleton.mp hmem], rfl⟩

/-- A peer that is destroyed was one of a system that is quiet. -/
theorem destroyed_step (hc : QuietInvariant setup c)
    (h : (scripts setup).program.step c m = some c') (hd : c'.shared.peerDestroyed = true) :
    c'.shared.destroying = true ∧ c'.shared.mRunning = false ∧ c'.shared.pending = 0 ∧
      (setup.ownsPool = true → c'.shared.pooled = 0) := by
  cases step_cases h with
  | @access i ch t op rest ops s' ts others hi hperm hcode hop =>
    have heffect := execOp_effect hop
    have hmem := List.mem_of_getElem? hi
    have hop_mem : op ∈ t.code := hcode ▸ List.mem_cons_self
    -- what held before the access, or holds when the peer is destroyed by it
    have hbefore : c.shared.destroying = true ∧ c.shared.mRunning = false ∧
        c.shared.pending = 0 ∧ (setup.ownsPool = true → c.shared.pooled = 0) := by
      rcases heffect.destroyed hd with hd | ⟨rfl, hjoined⟩
      · exact hc.destroyed hd
      · obtain ⟨htag, hdestroying⟩ := hc.destroyer t hmem hop_mem
        refine ⟨hdestroying, hc.stopping t hmem htag, ?_, hjoined⟩
        rcases hc.waits t hmem htag with hzero | ⟨rest', hwait⟩
        · exact hzero
        · rw [hcode] at hwait
          exact absurd hwait (by simp)
    obtain ⟨hdestroying, hrun, hzero, hjoined⟩ := hbefore
    have hnil := hc.no_spawn hzero hmem hop_mem heffect.spawns
    refine ⟨heffect.destroying.trans hdestroying, heffect.running.trans hrun,
      pending_zero_step hc h hrun hzero, fun howns => ?_⟩
    show s'.pooled = 0
    rw [heffect.pooled, hnil, hjoined howns]
    rfl
  | @finish i ch t others hi hperm hcode =>
    obtain ⟨hrun', hdestroying', hd', hpending', -⟩ := finish_same c.shared t.tag
    obtain ⟨hdestroying, hrun, hzero, hjoined⟩ := hc.destroyed (hd'.symm.trans hd)
    refine ⟨hdestroying'.trans hdestroying, hrun'.trans hrun, hpending'.trans hzero,
      fun howns => ?_⟩
    show (finish setup c.shared t.tag).pooled = 0
    unfold finish
    split
    · show c.shared.pooled - 1 = 0
      rw [hjoined howns]
    · exact hjoined howns
  | arrive hnew =>
    cases arrive_cases hnew with
    | start _ hnot => exact absurd ((hc.destroyed hd).1.symm.trans hnot) (by simp)
    | pass htrue => exact absurd (htrue.symm.trans (hc.destroyed hd).2.1) (by simp)
    | user => exact hc.destroyed hd
    | stop hnot | destroy hnot => exact absurd ((hc.destroyed hd).1.symm.trans hnot) (by simp)

/-- **One move** keeps the invariant. -/
theorem quiet_step (hc : QuietInvariant setup c) (h : (scripts setup).program.step c m = some c') :
    QuietInvariant setup c' where
  placed := placed_step hc h
  pending := pending_step hc h
  pooled := pooled_step hc h
  stopping := stopping_step hc h
  waits := waits_step hc h
  idle := idle_step hc h
  destroyer := destroyer_step hc h
  destroyed := destroyed_step hc h

/-- A system that has just been made is quiet. -/
theorem quiet_initial : QuietInvariant setup (system setup).init where
  placed := fun _ ht => absurd ht List.not_mem_nil
  pending := rfl
  pooled := rfl
  stopping := fun _ ht => absurd ht List.not_mem_nil
  waits := fun _ ht => absurd ht List.not_mem_nil
  idle := Or.inr (Or.inr rfl)
  destroyer := fun _ ht => absurd ht List.not_mem_nil
  destroyed := fun hd => absurd hd (by simp [system, State.initial])

end Teardown
end SculkProtocol
