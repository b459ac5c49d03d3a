import SculkProtocol.Systems.Scripts

/-!
# One item in flight

Threads that take items out of the shared state, carry them and put them back: an item is
in flight while an operation that carries it is pending (`inFlight`). When an item is only
taken while none is in flight, at most one ever is, and what holds of the shared state
depends on it alone: `AtMostOne` says that `Empty` holds when nothing is in flight, and
`Full` of the item that is.

`AtMostOne.step` is the rule for one move: what the performed operation carries is traded
for what those in its place carry (`Trade`).
-/

namespace SculkProtocol
namespace Scripts

variable {Shared Tag Op Choice Call α : Type} {M : Scripts Shared Tag Op Choice Call}

/-- The items that the pending operations of some threads carry. -/
def carried (item : Op → Option α) (ts : List (Script Tag Op)) : List α :=
  ts.flatMap fun t => t.code.filterMap item

/-- The items in flight. -/
def inFlight (item : Op → Option α) (c : Pool Shared Tag Op) : List α := carried item c.threads

variable {item : Op → Option α} {c c' : Pool Shared Tag Op} {m : Move (Event Choice Call)}

/-- **Items over a move.** What the performed operation carries is replaced by what those in
its place and those of the new threads carry; a call adds what its threads carry. -/
theorem inFlight_step (item : Op → Option α) (h : M.program.step c m = some c') :
    (∃ t op ch ops ts kept, Does ⟨c, m, c'⟩ t op ∧
      M.exec c.shared t.tag ch op = some (c'.shared, ops, ts) ∧
      (inFlight item c).Perm ((item op).toList ++ kept) ∧
      (inFlight item c').Perm (ops.filterMap item ++ carried item ts ++ kept)) ∨
    (∃ tag, c'.shared = M.finish c.shared tag ∧ (inFlight item c).Perm (inFlight item c')) ∨
    (∃ a new, m = .env (.call a) ∧ M.call c.shared c.threads a = some (c'.shared, new) ∧
      inFlight item c' = inFlight item c ++ carried item new) := by
  cases step_cases h with
  | @access i ch t op rest ops s' ts others hi hperm hcode hop =>
    refine Or.inl ⟨t, op, ch, ops, ts, rest.filterMap item ++ carried item others,
      does_of_head hi hcode, hop, ?_, ?_⟩
    · refine (List.Perm.flatMap_right _ hperm).trans ?_
      rw [List.flatMap_cons, hcode, List.filterMap_cons]
      cases item op <;> exact .refl _
    · rw [inFlight, carried, List.flatMap_append, List.flatMap_cons, List.filterMap_append]
      -- the other threads come last
      refine List.perm_append_comm.trans ?_
      simp only [List.append_assoc, carried]
      refine List.Perm.append_left _ ?_
      rw [← List.append_assoc, ← List.append_assoc]
      exact List.Perm.append_right _ List.perm_append_comm
  | @finish i ch t others hi hperm hcode =>
    refine Or.inr (Or.inl ⟨t.tag, rfl, ?_⟩)
    refine (List.Perm.flatMap_right _ hperm).trans ?_
    rw [List.flatMap_cons, hcode]
    exact .refl _
  | @arrive a s' new hnew =>
    exact Or.inr (Or.inr ⟨a, new, rfl, hnew, List.flatMap_append⟩)

/-- At most one item is in flight: `Empty` holds when there is none, and `Full` of it. -/
inductive AtMostOne (item : Op → Option α) (Empty : Shared → Prop) (Full : Shared → α → Prop)
    (c : Pool Shared Tag Op) : Prop
  | none : inFlight item c = [] → Empty c.shared → AtMostOne item Empty Full c
  | one {a : α} : inFlight item c = [a] → Full c.shared a → AtMostOne item Empty Full c

/-- What an operation carries against what those in its place carry; an item is only taken
if `Alone`. -/
inductive Trade (Empty : Shared → Prop) (Full : Shared → α → Prop) (s s' : Shared) (Alone : Prop) :
    Option α → List α → Prop
  | pass : (Empty s → Empty s') → (∀ a, Full s a → Full s' a) →
      Trade Empty Full s s' Alone none []
  | take {a : α} : Alone → (Empty s → Full s' a) → Trade Empty Full s s' Alone none [a]
  | change {a a' : α} : (Full s a → Full s' a') → Trade Empty Full s s' Alone (some a) [a']
  | give {a : α} : (Full s a → Empty s') → Trade Empty Full s s' Alone (some a) []

variable {Empty : Shared → Prop} {Full : Shared → α → Prop}

/-- Nothing is taken and nothing put back. -/
theorem AtMostOne.pass (hc : AtMostOne item Empty Full c)
    (hsame : (inFlight item c).Perm (inFlight item c'))
    (hempty : Empty c.shared → Empty c'.shared) (hfull : ∀ a, Full c.shared a → Full c'.shared a) :
    AtMostOne item Empty Full c' := by
  cases hc with
  | none hnone h =>
    rw [hnone] at hsame
    exact .none hsame.symm.eq_nil (hempty h)
  | one hone h =>
    rw [hone] at hsame
    exact .one hsame.symm.eq_singleton (hfull _ h)

/-- **One move.** If what is performed, the end of a thread and the calls from outside trade
items as they should, at most one item stays in flight. -/
theorem AtMostOne.step (hc : AtMostOne item Empty Full c) (h : M.program.step c m = some c')
    (hexec : ∀ t op ch ops ts, Does ⟨c, m, c'⟩ t op →
      M.exec c.shared t.tag ch op = some (c'.shared, ops, ts) →
      carried item ts = [] ∧
        Trade Empty Full c.shared c'.shared (inFlight item c = []) (item op) (ops.filterMap item))
    (hfinish : ∀ tag, c'.shared = M.finish c.shared tag → c'.shared = c.shared)
    (hcall : ∀ a new, M.call c.shared c.threads a = some (c'.shared, new) →
      c'.shared = c.shared ∧ carried item new = []) :
    AtMostOne item Empty Full c' := by
  rcases inFlight_step item h with ⟨t, op, ch, ops, ts, kept, hdoes, hop, hbefore, hafter⟩ |
    ⟨tag, hs, hsame⟩ | ⟨a, new, -, hnew, hsame⟩
  · obtain ⟨hts, htrade⟩ := hexec t op ch ops ts hdoes hop
    rw [hts, List.append_nil] at hafter
    -- what the operation holds, and what those that follow it hold
    generalize item op = held at hbefore htrade
    generalize ops.filterMap item = next at hafter htrade
    cases htrade with
    | pass hempty hfull => exact hc.pass (hbefore.trans hafter.symm) hempty hfull
    | take halone htake =>
      rw [halone] at hbefore
      -- nothing else was in flight
      have hkept : kept = [] := hbefore.symm.eq_nil
      subst hkept
      cases hc with
      | none _ h => exact .one hafter.eq_singleton (htake h)
      | one hone _ => exact absurd (hone.symm.trans halone) (by simp)
    | change hchange =>
      cases hc with
      | none hnone _ => exact absurd (hnone ▸ hbefore).symm.eq_nil (by simp)
      | one hone h =>
        obtain ⟨rfl, rfl⟩ := List.cons.inj (hone ▸ hbefore).symm.eq_singleton
        exact .one hafter.eq_singleton (hchange h)
    | give hgive =>
      cases hc with
      | none hnone _ => exact absurd (hnone ▸ hbefore).symm.eq_nil (by simp)
      | one hone h =>
        obtain ⟨rfl, rfl⟩ := List.cons.inj (hone ▸ hbefore).symm.eq_singleton
        exact .none hafter.eq_nil (hgive h)
  · have hshared := hfinish tag hs
    exact hc.pass hsame (hshared ▸ id) (hshared ▸ fun _ => id)
  · obtain ⟨hshared, hnone⟩ := hcall a new hnew
    rw [hnone, List.append_nil] at hsame
    exact hc.pass (.of_eq hsame.symm) (hshared ▸ id) (hshared ▸ fun _ => id)

end Scripts
end SculkProtocol
