import SculkProtocol.Teardown.Quiet

/-!
# Calls on a destroyed peer

The teardown disconnects and detaches the sessions that are in the map. A session that
was replaced or removed before, and that a user still holds, keeps its pointer; so does
a thread that has loaded the pointer and goes on with it later, and a packet's owner
that is given back after its task has counted down. All three can call the peer after
it is destroyed (`destroyed_peer_is_called`).

`no_call_after_destruction` says when nothing of the kind happens: when the peer is
destroyed,

* no session ever created is connected and attached,
* no thread is about to use a pointer it has loaded (`Op.Armed`), and
* on a shared thread pool no packet owner is outstanding.

An owned pool needs no condition on the owners: its workers are joined first.
-/

namespace SculkProtocol
namespace Teardown

open Sessions (Context Registry After)
open Scripts

variable {Key : Type}

/-- In the transition `x`, a session or a packet's owner calls the peer, which has been
destroyed. -/
def CallsDestroyed (x : NetworkStep Key) : Prop :=
  x.src.shared.peerDestroyed = true ∧
    ∃ t op, Does x t op ∧ ((∃ f y, op = .call f y) ∨ op = .deallocatePacket)

/-- The thread has decided to call the peer, or will find that it may. -/
def Op.Armed (r : Registry Key) : Op Key → Prop
  | .loadPeer y | .statusLoad y => r.mPeer y = true
  | .checkForSend y => r.mConnected y = true
  | .call _ _ => True
  | _ => False

instance (r : Registry Key) : DecidablePred (Op.Armed r)
  | .loadPeer y | .statusLoad y => inferInstanceAs (Decidable (r.mPeer y = true))
  | .checkForSend y => inferInstanceAs (Decidable (r.mConnected y = true))
  | .call _ _ => isTrue trivial
  | .receive | .flushTick | .flushSession _ | .upsertSession _ | .dropSession _
  | .processSessionPacket _ _ | .eraseSession _ _ | .flushCheck _ | .loadForSend _
  | .statusConnected _ | .exchangeConnected _ | .detachPeer _ | .deallocatePacket | .countDown
  | .waitPending | .collectContexts | .collectKeys | .teardownSession _ | .destroyPeer =>
    isFalse id

/-- If `x` destroys the peer, nobody can reach it any more. -/
def DestroysSafely (setup : Setup Key) (x : NetworkStep Key) : Prop :=
  ∀ t, Does x t .destroyPeer →
    (∀ y ∈ x.src.shared.registry.inserted, x.src.shared.registry.mConnected y = true →
      x.src.shared.registry.mPeer y = false) ∧
    (∀ u ∈ x.src.threads, ∀ op ∈ u.code, ¬ op.Armed x.src.shared.registry) ∧
    (setup.ownsPool = false → ∀ u ∈ x.src.threads, .deallocatePacket ∉ u.code)

/-- `DestroysSafely`, to be evaluated. -/
def destroysSafely [DecidableEq Key] (setup : Setup Key) (x : NetworkStep Key) : Bool :=
  match performed x with
  | some (_, .destroyPeer) =>
    decide ((∀ y ∈ x.src.shared.registry.inserted, x.src.shared.registry.mConnected y = true →
        x.src.shared.registry.mPeer y = false) ∧
      (∀ u ∈ x.src.threads, ∀ op ∈ u.code, ¬ op.Armed x.src.shared.registry) ∧
      (setup.ownsPool = false → ∀ u ∈ x.src.threads, .deallocatePacket ∉ u.code))
  | _ => true

theorem destroysSafely_sound [DecidableEq Key] {setup : Setup Key} {x : NetworkStep Key}
    (h : destroysSafely setup x = true) : DestroysSafely setup x := by
  intro t hdoes
  rw [destroysSafely, show performed x = _ from hdoes] at h
  exact of_decide_eq_true h

/-! ### Sessions after the last connection -/

variable [DecidableEq Key] {setup : Setup Key} {c c' : Network Key}
  {m : Move (Event (Choice Key) (Call Key))}

/-- Without new sessions, sessions are only disconnected and detached. -/
theorem Op.onRegistry_le {r : Registry Key} {op : Op Key} (hop : ∀ k, op ≠ .upsertSession k)
    (y : Context Key) :
    ((op.onRegistry r).mConnected y = true → r.mConnected y = true) ∧
      ((op.onRegistry r).mPeer y = true → r.mPeer y = true) := by
  cases op with
  | upsertSession k => exact absurd rfl (hop k)
  | exchangeConnected x =>
    refine ⟨fun hy => ?_, id⟩
    change Function.update r.mConnected x false y = true at hy
    rw [Function.update_apply] at hy
    split at hy
    · exact absurd hy (by simp)
    · exact hy
  | detachPeer x =>
    refine ⟨id, fun hy => ?_⟩
    change Function.update r.mPeer x false y = true at hy
    rw [Function.update_apply] at hy
    split at hy
    · exact absurd hy (by simp)
    · exact hy
  | _ => exact ⟨id, id⟩

omit [DecidableEq Key] in
/-- A thread that is not armed is not armed by a disconnect or a detach. -/
theorem Op.armed_le {r r' : Registry Key}
    (hconn : ∀ y, r'.mConnected y = true → r.mConnected y = true)
    (hpeer : ∀ y, r'.mPeer y = true → r.mPeer y = true) {op : Op Key} (h : op.Armed r') :
    op.Armed r := by
  cases op with
  | loadPeer y | statusLoad y => exact hpeer y h
  | checkForSend y => exact hconn y h
  | call f y => trivial
  | _ => exact absurd h id

/-- An access changes the sessions by `Op.onRegistry`; other moves leave them alone. -/
theorem registry_step (h : (scripts setup).program.step c m = some c') :
    c'.shared.registry = c.shared.registry ∨
      ∃ t op, Does ⟨c, m, c'⟩ t op ∧ c'.shared.registry = op.onRegistry c.shared.registry := by
  cases step_cases h with
  | @access i ch t op rest ops s' ts others hi hperm hcode hop =>
    exact Or.inr ⟨t, op, does_of_head hi hcode, (execOp_effect hop).registry⟩
  | @finish i ch t others hi hperm hcode => exact Or.inl (finish_same c.shared t.tag).2.2.2.2
  | arrive hnew => cases arrive_cases hnew <;> exact Or.inl rfl

/-- Connected sessions are sessions that were created. -/
def Known (c : Network Key) : Prop :=
  ∀ y, c.shared.registry.mConnected y = true → y ∈ c.shared.registry.inserted

theorem known_step (hc : Known c) (h : (scripts setup).program.step c m = some c') : Known c' := by
  intro y hy
  rcases registry_step h with heq | ⟨t, op, -, heq⟩
  · rw [heq] at hy ⊢
    exact hc y hy
  · rw [heq] at hy ⊢
    by_cases hop : ∃ k, op = .upsertSession k
    · obtain ⟨k, rfl⟩ := hop
      change Function.update c.shared.registry.mConnected (c.shared.registry.fresh k) true y =
        true at hy
      rw [Function.update_apply] at hy
      split at hy
      · next hfresh => exact List.mem_cons.mpr (Or.inl hfresh)
      · exact List.mem_cons_of_mem _ (hc y hy)
    · have hold := hc y ((Op.onRegistry_le (fun k hk => hop ⟨k, hk⟩) y).1 hy)
      cases op with
      | upsertSession k => exact absurd ⟨k, rfl⟩ hop
      | _ => exact hold

/-! ### After the destruction -/

/-- Once the peer is destroyed, no session reaches it, and no pending operation will. -/
structure Unreachable (c : Network Key) : Prop where
  sessions : ∀ y, c.shared.registry.mConnected y = true → c.shared.registry.mPeer y = false
  threads : ∀ t ∈ c.threads, ∀ op ∈ t.code,
    ¬ op.Armed c.shared.registry ∧ op ≠ .deallocatePacket

/-- **Destruction.** A safe destruction leaves the peer unreachable. -/
theorem unreachable_of_destroyed (hq : QuietInvariant setup c') (hk : Known c)
    (h : (scripts setup).program.step c m = some c') (hC : DestroysSafely setup ⟨c, m, c'⟩)
    (hbefore : c.shared.peerDestroyed = false) (hafter : c'.shared.peerDestroyed = true) :
    Unreachable c' := by
  cases step_cases h with
  | @access i ch t op rest ops s' ts others hi hperm hcode hop =>
    change execOp setup c.shared ch op = some (s', ops, ts) at hop
    rcases (execOp_effect hop).destroyed hafter with hd | ⟨rfl, -⟩
    · exact absurd (hbefore.symm.trans hd) (by simp)
    obtain ⟨hsessions, hthreads, howners⟩ := hC t (does_of_head hi hcode)
    have hreg : s'.registry = c.shared.registry := (execOp_effect hop).registry
    refine ⟨fun y hy => ?_, ?_⟩
    · change s'.registry.mConnected y = true at hy
      show s'.registry.mPeer y = false
      rw [hreg] at hy ⊢
      exact hsessions y (hk y hy) hy
    · intro u hu o ho
      -- what is pending afterwards was pending before
      have hmem : ∃ v ∈ c.threads, o ∈ v.code := by
        rcases mem_access hu with hu | rfl | hu
        · exact ⟨u, hperm.mem_iff.mpr (List.mem_cons_of_mem _ hu), ho⟩
        · refine ⟨t, List.mem_of_getElem? hi, ?_⟩
          rcases List.mem_append.mp ho with ho | ho
          · cases execOp_successor hop o ho
          · exact hcode ▸ List.mem_cons_of_mem _ ho
        · cases (execOp_effect hop).spawns u hu
      obtain ⟨v, hv, hov⟩ := hmem
      show ¬ o.Armed s'.registry ∧ o ≠ .deallocatePacket
      rw [hreg]
      refine ⟨hthreads v hv o hov, ?_⟩
      rintro rfl
      cases howns : setup.ownsPool with
      | false => exact howners howns v hv hov
      | true =>
        -- an owner is a task's, and the pool is joined, or it is waited for
        obtain ⟨-, -, hzero, hjoined⟩ := hq.destroyed hafter
        by_cases hpooled : u.tag.pooled setup.kind = true
        · have hle := Config.le_total (w := poolWeight setup) hu
          rw [← hq.pooled, hjoined howns, poolWeight, if_pos hpooled] at hle
          omega
        · have := hq.working hu ho (Bool.eq_false_iff.mpr hpooled)
          omega
  | @finish i ch t others hi hperm hcode =>
    exact absurd (hbefore.symm.trans ((finish_same c.shared t.tag).2.2.1.symm.trans hafter))
      (by simp)
  | arrive hnew =>
    cases arrive_cases hnew <;> exact absurd (hbefore.symm.trans hafter) (by simp)

/-- **Afterwards.** The peer stays unreachable: there is nobody left who could create a
session or receive a packet. -/
theorem unreachable_step (hq : QuietInvariant setup c) (hc : Unreachable c)
    (h : (scripts setup).program.step c m = some c') (hd : c.shared.peerDestroyed = true) :
    Unreachable c' := by
  obtain ⟨hdestroying, hrun, hzero, -⟩ := hq.destroyed hd
  have hidle : ∀ {t op}, Does ⟨c, m, c'⟩ t op → ¬ op.Working (t.tag.pooled setup.kind) :=
    fun hdoes hw => by
      have := hq.working hdoes.mem.1 hdoes.mem.2 hw
      omega
  have hle : ∀ y, (c'.shared.registry.mConnected y = true → c.shared.registry.mConnected y = true) ∧
      (c'.shared.registry.mPeer y = true → c.shared.registry.mPeer y = true) := by
    intro y
    rcases registry_step h with heq | ⟨t, op, hdoes, heq⟩
    · rw [heq]; exact ⟨id, id⟩
    · rw [heq]
      refine Op.onRegistry_le (fun k hk => ?_) y
      exact hidle hdoes (hk ▸ trivial)
  -- a session that is connected afterwards was detached before
  have hdetached : ∀ y, c'.shared.registry.mConnected y = true →
      c.shared.registry.mPeer y = false :=
    fun y hy => hc.sessions y ((hle y).1 hy)
  have hnot : ∀ {b : Bool}, b = true → b = false → False := fun h₁ h₂ => by simp [h₁] at h₂
  refine ⟨fun y hy => ?_, ?_⟩
  · by_contra hpeer
    exact hnot ((hle y).2 (by simpa using hpeer)) (hdetached y hy)
  · refine ops_step (R := fun _ op => ¬ op.Armed c.shared.registry ∧ op ≠ .deallocatePacket)
      (Q := fun _ op => ¬ op.Armed c'.shared.registry ∧ op ≠ .deallocatePacket) h hc.threads
      ?_ ?_ ?_
    · intro t _ op _ ht
      exact ⟨fun ha => ht.1 (Op.armed_le (fun y => (hle y).1) (fun y => (hle y).2) ha), ht.2⟩
    · intro t op ch ops ts hdoes ht hop
      have hnil := hq.no_spawn hzero hdoes.mem.1 hdoes.mem.2 (execOp_effect hop).spawns
      refine ⟨fun o ho => ?_, fun u hu => absurd (hnil ▸ hu) List.not_mem_nil⟩
      cases execOp_successor hop o ho with
      | created | dropped | received | again | next => exact absurd trivial (hidle hdoes)
      | loadedForSend hpeer => exact ⟨fun ha => hnot hpeer (hdetached _ ha), by simp⟩
      | send hconn => exact absurd hconn ht.1
      | status hconn =>
        exact ⟨fun ha => hnot ((hle _).2 ha) (hc.sessions _ hconn), by simp⟩
      | statusCall hpeer => exact absurd hpeer ht.1
      | exchanged hconn =>
        exact ⟨fun ha => hnot ((hle _).2 ha) (hc.sessions _ hconn), by simp⟩
      | close hpeer => exact absurd hpeer ht.1
      | _ => exact ⟨id, by simp⟩
    · intro a new _ hnew u hu o ho
      generalize hs : c'.shared = s' at hnew
      cases arrive_cases hnew with
      | start _ hno => exact absurd (hdestroying.symm.trans hno) (by simp)
      | pass htrue => exact absurd (htrue.symm.trans hrun) (by simp)
      | stop hno | destroy hno => exact absurd (hdestroying.symm.trans hno) (by simp)
      | user hentry =>
        rw [List.mem_singleton.mp hu] at ho
        have he := hentry o ho
        cases o with
        | loadForSend | flushCheck | statusConnected | exchangeConnected | eraseSession
        | waitPending | teardownSession => exact ⟨id, by simp⟩
        | _ => exact absurd he id

/-! ### Runs -/

/-- What a run whose destruction is safe keeps. -/
structure PeerInvariant (setup : Setup Key) (c : Network Key) : Prop where
  quiet : QuietInvariant setup c
  known : Known c
  unreachable : c.shared.peerDestroyed = true → Unreachable c

theorem peerInvariant_step (hc : PeerInvariant setup c)
    (h : (scripts setup).program.step c m = some c') (hC : DestroysSafely setup ⟨c, m, c'⟩) :
    PeerInvariant setup c' where
  quiet := quiet_step hc.quiet h
  known := known_step hc.known h
  unreachable := fun hafter => by
    cases hbefore : c.shared.peerDestroyed with
    | true => exact unreachable_step hc.quiet (hc.unreachable hbefore) h hbefore
    | false => exact unreachable_of_destroyed (quiet_step hc.quiet h) hc.known h hC hbefore hafter

theorem peerInvariant_initial : PeerInvariant setup (system setup).init where
  quiet := quiet_initial
  known := fun y hy => absurd hy (by simp [system, State.initial])
  unreachable := fun hd => absurd hd (by simp [system, State.initial])

/-- **Peer calls.** If the destruction of the peer is safe, no session and no packet
owner calls it afterwards. -/
theorem no_call_after_destruction {h : List (NetworkStep Key)} (hr : (system setup).Run h c)
    (hC : ∀ x ∈ h, DestroysSafely setup x) : ∀ x ∈ h, ¬ CallsDestroyed x := by
  rintro x hx ⟨hd, t, op, hdoes, hop⟩
  have hinv : PeerInvariant setup x.src := (hr.transitions_where peerInvariant_initial
    (fun _ _ _ hs hst hCs => peerInvariant_step hs hst hCs) hC x hx).1
  obtain ⟨harmed, howner⟩ := (hinv.unreachable hd).threads t hdoes.mem.1 op hdoes.mem.2
  rcases hop with ⟨f, y, rfl⟩ | rfl
  · exact harmed trivial
  · exact howner rfl

/-! ### A replaced session, and a packet that is given back late -/

/-- The next access of thread `i`. -/
def next (i : ℕ) (ch : Choice ℕ) : Move (Event (Choice ℕ) (Call ℕ)) := .thread i (.step ch)

/-- The same access `n` times in a row, with nothing to choose. -/
def steps (n i : ℕ) : List (Move (Event (Choice ℕ) (Call ℕ))) := List.replicate n (next i {})

/-- An I/O pass of a server that receives the packets `ps`, each of which takes three
accesses, and then nothing. -/
def pass (ps : List (Received ℕ)) : List (Move (Event (Choice ℕ) (Call ℕ))) :=
  .env (.call .ioPass) :: ps.flatMap (fun p => [next 0 { received := p }, next 0 {}, next 0 {}]) ++
    steps 3 0

/-- The destructor of a running server with one session, which its teardown closes. -/
def destruction (i : ℕ) : List (Move (Event (Choice ℕ) (Call ℕ))) :=
  .env (.call .destroy) :: steps 10 i

/-- A pass of a server receives a packet of the session. The task decides to keep the
session, counts down, and is left with the packet's owner, as thread 0 of the pool. -/
def sessionTask : List (Move (Event (Choice ℕ) (Call ℕ))) :=
  [.env (.call .ioPass), next 0 { received := .session 0 }, next 0 {}, next 1 {}, next 1 {},
    next 0 { ok := false }, next 0 {}]

/-- `x` calls the peer after its destruction, to be evaluated. -/
def callsDestroyed (x : NetworkStep ℕ) : Bool :=
  x.src.shared.peerDestroyed && match performed x with
    | some (_, .call _ _) | some (_, .deallocatePacket) => true
    | _ => false

theorem callsDestroyed_sound {x : NetworkStep ℕ} (h : callsDestroyed x = true) :
    CallsDestroyed x := by
  obtain ⟨hd, h⟩ := Bool.and_eq_true_iff.mp h
  refine ⟨hd, ?_⟩
  split at h
  · next t f y hp => exact ⟨t, _, hp, Or.inl ⟨f, y, rfl⟩⟩
  · next t hp => exact ⟨t, _, hp, Or.inr rfl⟩
  · exact absurd h (by simp)

/-- A connection, a packet, a user who flushes the session, and a destruction after which
the user disconnects the session it holds. -/
theorem no_call_after_destruction_shared :
    ∃ h c, (system ⟨.server, false⟩ : System (Network ℕ) _).Run h c ∧
      c.shared.peerDestroyed = true ∧ (∃ x ∈ h, ∃ t, Does x t (.call .send ⟨0, 0⟩)) ∧
      ∀ x ∈ h, ¬ CallsDestroyed x := by
  obtain ⟨h, c, hr, hp⟩ := (system ⟨.server, false⟩ : System (Network ℕ) _).exists_run_of_follow
    (p := fun h c => decide (c.shared.peerDestroyed = true ∧
      (∃ x ∈ h, (performed x).map Prod.snd = some (.call .send ⟨0, 0⟩)) ∧
      ∀ x ∈ h, destroysSafely ⟨.server, false⟩ x = true))
    (.env (.call .start) :: pass [.connected 0] ++ sessionTask ++ steps 2 0 ++
      .env (.call (.use .flush ⟨0, 0⟩)) :: steps 5 0 ++ destruction 0 ++
      .env (.call (.use .disconnect ⟨0, 0⟩)) :: steps 2 0) (by decide)
  obtain ⟨hd, ⟨x, hx, hsend⟩, hall⟩ := of_decide_eq_true hp
  obtain ⟨⟨t, op⟩, hdoes, rfl⟩ := Option.map_eq_some_iff.mp hsend
  exact ⟨h, c, hr, hd, ⟨x, hx, t, hdoes⟩,
    no_call_after_destruction hr fun y hy => destroysSafely_sound (hall y hy)⟩

/-- With an owned pool, a user disconnects a session that was replaced before the
teardown. With a shared one, a task gives its packet back after the destruction. -/
theorem destroyed_peer_is_called :
    (∃ h c, (system ⟨.server, true⟩ : System (Network ℕ) _).Run h c ∧ ∃ x ∈ h, CallsDestroyed x) ∧
      ∃ h c, (system ⟨.server, false⟩ : System (Network ℕ) _).Run h c ∧
        ∃ x ∈ h, CallsDestroyed x := by
  constructor
  · obtain ⟨h, c, hr, hp⟩ := (system ⟨.server, true⟩ : System (Network ℕ) _).exists_run_of_follow
      (p := fun h _ => h.any callsDestroyed)
      (.env (.call .start) :: pass [.connected 0, .connected 0] ++ destruction 0 ++
        .env (.call (.use .disconnect ⟨0, 0⟩)) :: steps 3 0) (by decide)
    obtain ⟨x, hx, hp⟩ := List.any_eq_true.mp hp
    exact ⟨h, c, hr, x, hx, callsDestroyed_sound hp⟩
  · obtain ⟨h, c, hr, hp⟩ := (system ⟨.server, false⟩ : System (Network ℕ) _).exists_run_of_follow
      (p := fun h _ => h.any callsDestroyed)
      (.env (.call .start) :: pass [.connected 0] ++ sessionTask ++ destruction 1 ++ steps 1 0)
      (by decide)
    obtain ⟨x, hx, hp⟩ := List.any_eq_true.mp hp
    exact ⟨h, c, hr, x, hx, callsDestroyed_sound hp⟩

end Teardown
end SculkProtocol
