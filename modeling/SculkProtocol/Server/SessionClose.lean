import SculkProtocol.Server.SessionRemoval

/-!
# Closing connections on behalf of replaced sessions

`Session::disconnect` closes a connection by GUID, and RakNet closes whatever
connection has that GUID now. `upsertSessionContext` overwrites an entry without
disconnecting the session it replaces, so that session is still connected when its
last reference is dropped, and its destructor closes the new connection
(`destructor_closes_later`). A `disconnect` that has got as far as its exchange of
`mConnected` when the GUID reconnects does the same, and so does a strand task whose
removal comes too late.

`closes_newest_only` says that there is nothing else: where every insertion finds the
earlier sessions of its GUID disconnected and past their `CloseConnection`, and strand
tasks remove in time, no connection is closed on behalf of an earlier session.

The invariant (`CloseInvariant`) is that only the newest session of a GUID is connected
or on its way to `CloseConnection`.
-/

namespace SculkProtocol
namespace Sessions

open Scripts

variable {Guid : Type} [DecidableEq Guid] {cfg : Settings Guid} {c c' : Server Guid}
  {m : Move (Event Choice (Call Guid))}

/-- The session an operation is about to close; the exchange of `mConnected` is behind. -/
def Op.closing : Op Guid → Option (Context Guid)
  | .loadPeer x | .closeConnection x => some x
  | _ => none

/-- Thread `t` closes the connection of `y` on behalf of session `b`: its own session,
or the one whose packet the strand task is working on. -/
def OnBehalf (t : Thread Guid) (y b : Context Guid) : Prop :=
  b = y ∨ t.tag.role = .packetTask b

/-- In the transition `x`, `CloseConnection` is called for a GUID on behalf of a session
older than the one inserted last. -/
def ClosesStale (x : ServerStep Guid) : Prop :=
  ∃ t y b z, Does x t (.closeConnection y) ∧ OnBehalf t y b ∧ b.guid = y.guid ∧
    x.src.shared.registry.newest y.guid = some z ∧ b.serial < z.serial

/-- An insertion for a GUID finds its earlier sessions disconnected, and no thread on
its way to close one of them. -/
def ReplacesClosed (x : ServerStep Guid) : Prop :=
  ∀ t g, Does x t (.upsertSessionContext g) →
    ∀ y ∈ x.src.shared.registry.inserted, y.guid = g →
      x.src.shared.registry.mConnected y = false ∧
        ∀ u ∈ x.src.threads, ∀ op ∈ u.code, op.closing ≠ some y

/-- `ReplacesClosed`, to be evaluated. -/
def replacesClosed (x : ServerStep Guid) : Bool :=
  match performed x with
  | some (_, .upsertSessionContext g) =>
    decide (∀ y ∈ x.src.shared.registry.inserted, y.guid = g →
      x.src.shared.registry.mConnected y = false ∧
        ∀ u ∈ x.src.threads, ∀ op ∈ u.code, op.closing ≠ some y)
  | _ => true

theorem replacesClosed_sound {x : ServerStep Guid}
    (h : replacesClosed x = true) : ReplacesClosed x := by
  intro t g hdoes
  rw [replacesClosed, show performed x = _ from hdoes] at h
  exact of_decide_eq_true h

/-! ### The invariant -/

/-- Only newest sessions are connected, and only newest sessions are being closed. -/
structure CloseInvariant (c : Server Guid) : Prop where
  connected : ∀ y, c.shared.registry.mConnected y = true →
    c.shared.registry.newest y.guid = some y
  closing : ∀ t ∈ c.threads, ∀ op ∈ t.code, ∀ y, op.closing = some y →
    c.shared.registry.newest y.guid = some y

theorem closeInvariant_initial : CloseInvariant (system cfg).init :=
  ⟨fun _ hy => absurd hy (by simp [system, State.initial]), fun _ ht => absurd ht List.not_mem_nil⟩

/-- Accesses other than insertions leave the newest contexts alone. -/
theorem newest_onRegistry {r : Registry Guid} {op : Op Guid}
    (h : ∀ g, op ≠ .upsertSessionContext g) (g : Guid) :
    (op.onRegistry r).newest g = r.newest g := by
  unfold Registry.newest
  rcases Registry.inserted_onRegistry (r := r) op with heq | ⟨g', rfl, -⟩
  · rw [heq]
  · exact absurd rfl (h g')

/-- A session that was newest is still newest, unless it is the one an insertion
replaces. -/
theorem newest_step
    (h : (scripts cfg).program.step c m = some c') {y : Context Guid}
    (hy : c.shared.registry.newest y.guid = some y)
    (hreplaced : ∀ t, ¬ Does ⟨c, m, c'⟩ t (.upsertSessionContext y.guid)) :
    c'.shared.registry.newest y.guid = some y := by
  rcases step_registry h with heq | ⟨t, op, hdoes, heq⟩
  · rw [heq]; exact hy
  · rw [heq]
    by_cases hop : ∃ g, op = .upsertSessionContext g
    · obtain ⟨g, rfl⟩ := hop
      change (c.shared.registry.upsert g).newest y.guid = some y
      rw [Registry.newest_upsert]
      split
      · next hg => exact absurd (hg ▸ hdoes) (hreplaced t)
      · exact hy
    · rw [newest_onRegistry fun g hg => hop ⟨g, hg⟩]
      exact hy

/-- **One move.** An insertion that replaces closed sessions keeps the invariant, and
so does everything else. -/
theorem closeInvariant_step (hc : CloseInvariant c)
    (h : (scripts cfg).program.step c m = some c') (hC : ReplacesClosed ⟨c, m, c'⟩) :
    CloseInvariant c' := by
  refine ⟨fun y hy => ?_, step_ops (R := fun r _ op => ∀ y, op.closing = some y →
    r.newest y.guid = some y) h hc.closing ?_ ?_ ?_ ?_⟩
  · rcases connected_step h hy with hold | ⟨hreg, hfresh⟩
    · have hnewest := hc.connected y hold
      refine newest_step h hnewest fun t hdoes => ?_
      -- the condition: what is replaced is not connected
      have hclosed := hC t _ hdoes y (Registry.newest_mem hnewest).1 rfl
      exact absurd (hold.symm.trans hclosed.1) (by simp)
    · rw [hreg, Registry.newest_upsert, if_pos rfl, ← hfresh]
  · intro u hu op hop hnewest y hy
    refine newest_step h (hnewest y hy) fun t hdoes => ?_
    -- the condition: what is replaced is not being closed
    have hclosed := hC t _ hdoes y (Registry.newest_mem (hnewest y hy)).1 rfl
    exact hclosed.2 u hu op hop hy
  · intro t op o hdoes hs hnewest y hy
    cases hs with
    | @exchanged x hconnected =>
      obtain rfl : x = y := Option.some.inj hy
      refine newest_step h (hc.connected x hconnected) fun u hu => ?_
      exact absurd (Option.some.inj (hdoes.symm.trans hu)) fun hne => nomatch (Prod.mk.inj hne).2
    | @loaded x hpeer =>
      refine newest_step h (hnewest y hy) fun u hu => ?_
      exact absurd (Option.some.inj (hdoes.symm.trans hu)) fun hne => nomatch (Prod.mk.inj hne).2
    | _ => exact absurd hy (by simp [Op.closing, removeSessionContext])
  · intro op t hs o ho
    cases hs with
    | packetTask | flushTask =>
      rw [List.mem_singleton.mp ho]
      exact fun y hy => absurd hy (by simp [Op.closing])
  · intro t harr o ho y hy
    cases harr with
    | stop =>
      unfold stopCode at ho
      split at ho
      · simp only [List.cons_append, List.nil_append, List.mem_cons, List.not_mem_nil,
          or_false] at ho
        rcases ho with rfl | rfl | rfl | rfl | rfl | rfl <;> exact absurd hy (by simp [Op.closing])
      · simp only [List.nil_append, List.mem_cons, List.not_mem_nil, or_false] at ho
        rcases ho with rfl | rfl <;> exact absurd hy (by simp [Op.closing])
    | _ =>
      rw [List.mem_singleton.mp ho] at hy
      exact absurd hy (by simp [Op.closing, removeSessionContext])

/-- **Closing.** If every insertion of a run replaces closed sessions and every strand
task removes in time, no connection is closed on behalf of an earlier session. -/
theorem closes_newest_only {h : List (ServerStep Guid)}
    (hr : (system cfg).Run h c)
    (hC : ∀ x ∈ h, ReplacesClosed x ∧ RemovesInTime x) : ∀ x ∈ h, ¬ ClosesStale x := by
  rintro x hx ⟨t, y, b, z, hdoes, hbehalf, -, hz, hlt⟩
  obtain ⟨ht, hop⟩ := hdoes.mem
  have hinv : CloseInvariant x.src := (hr.transitions_where closeInvariant_initial
    (fun _ _ _ hs hst hCs => closeInvariant_step hs hst hCs.1) hC x hx).1
  have hnewest := hinv.closing t ht _ hop y rfl
  obtain rfl : y = z := Option.some.inj (hnewest.symm.trans hz)
  rcases hbehalf with rfl | hrole
  · exact Nat.lt_irrefl _ hlt
  · have hown := ownSession_of_run hr (fun x hx => (hC x hx).2) x hx t ht _ hop b y hrole rfl
    rw [hown] at hlt
    exact Nat.lt_irrefl _ hlt

/-- The client leaves, its session is removed and closed, and it reconnects. -/
theorem closes_newest_only_reconnect :
    ∃ h c, (system (Settings.defaults fun _ : ℕ => 0)).Run h c ∧
      c.shared.registry.mSessionContexts 0 = some ⟨0, 1⟩ ∧
      (∃ x ∈ h, ∃ t, Does x t (.closeConnection ⟨0, 0⟩)) ∧ ∀ x ∈ h, ¬ ClosesStale x := by
  obtain ⟨h, c, hr, hp⟩ := (system (Settings.defaults fun _ : ℕ => 0)).exists_run_of_follow
    (p := fun h c => decide (c.shared.registry.mSessionContexts 0 = some ⟨0, 1⟩ ∧
      (∃ x ∈ h, (performed x).map Prod.snd = some (.closeConnection ⟨0, 0⟩)) ∧
      ∀ x ∈ h, replacesClosed x = true ∧ removesInTime x = true))
    (connectAndLeave ++ leaveTask ++ [next 0, next 0, next 0] ++
      [.env (.call (.receive connection)), next 0, next 0, next 0, next 0]) (by decide)
  obtain ⟨hentry, ⟨x, hx, hclose⟩, hall⟩ := of_decide_eq_true hp
  obtain ⟨⟨t, op⟩, hdoes, rfl⟩ := Option.map_eq_some_iff.mp hclose
  refine ⟨h, c, hr, hentry, ⟨x, hx, t, hdoes⟩, closes_newest_only hr fun y hy => ?_⟩
  exact ⟨replacesClosed_sound (hall y hy).1, (removesInTime_iff y).mp (hall y hy).2⟩

/-- The client reconnects without a notice, and the destructor of its replaced session
closes the new connection. -/
theorem destructor_closes_later :
    ∃ h c, (system (Settings.defaults fun _ : ℕ => 0)).Run h c ∧ ∃ x ∈ h, ClosesStale x := by
  obtain ⟨h, c, hr, hp⟩ := (system (Settings.defaults fun _ : ℕ => 0)).exists_run_of_follow
    (p := fun h _ => h.any fun x =>
      decide (performed x = some (⟨⟨.destructor ⟨0, 0⟩, 0⟩, [.closeConnection ⟨0, 0⟩]⟩,
          .closeConnection ⟨0, 0⟩) ∧
        x.src.shared.registry.newest 0 = some ⟨0, 1⟩))
    [.env (.call (.start [])), .env (.call (.receive connection)), next 0, next 0, next 0, next 0,
      .env (.call (.receive connection)), next 0, next 0, next 0, next 0, next 0,
      .env (.call (.destroy ⟨0, 0⟩)), next 0, next 0, next 0] (by decide)
  obtain ⟨x, hx, hp⟩ := List.any_eq_true.mp hp
  obtain ⟨hdoes, hnewest⟩ := of_decide_eq_true hp
  exact ⟨h, c, hr, x, hx, _, ⟨0, 0⟩, ⟨0, 0⟩, ⟨0, 1⟩, hdoes, Or.inl rfl, rfl, hnewest,
    Nat.zero_lt_one⟩

end Sessions
end SculkProtocol
