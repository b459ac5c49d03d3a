import Mathlib.Data.List.Basic

/-!
# Ordered maps

A map as the list of its entries in the order of their keys. Keys are compared by `<` alone:
two keys are the same if neither is less. An entry that is there stays (`emplaceEntry`), and
entries that come in their order are put at the end (`SortedEntries.emplaceEntry_next`).
-/

namespace SculkProtocol

variable {κ α : Type} [LT κ]

/-- The keys are in their order, none twice. -/
def SortedEntries (entries : List (κ × α)) : Prop := entries.Pairwise fun e e' => e.1 < e'.1

section

variable [DecidableLT κ]

/-- An entry at its place, unless its key is there. -/
def emplaceEntry (key : κ) (value : α) : List (κ × α) → List (κ × α)
  | [] => [(key, value)]
  | e :: es =>
    if key < e.1 then (key, value) :: e :: es
    else if e.1 < key then e :: emplaceEntry key value es
    else e :: es

instance (entries : List (κ × α)) : Decidable (SortedEntries entries) :=
  inferInstanceAs (Decidable (entries.Pairwise fun e e' => e.1 < e'.1))

variable {key : κ} {value : α} {entries : List (κ × α)}

theorem mem_emplaceEntry {e : κ × α} (h : e ∈ emplaceEntry key value entries) :
    e = (key, value) ∨ e ∈ entries := by
  induction entries with
  | nil => exact .inl (List.mem_singleton.mp h)
  | cons e' es ih =>
    rw [emplaceEntry] at h
    split at h
    · exact List.mem_cons.mp h
    · split at h
      · rcases List.mem_cons.mp h with rfl | h
        · exact .inr List.mem_cons_self
        · exact (ih h).imp_right (List.mem_cons_of_mem _)
      · exact .inr h

theorem SortedEntries.emplaceEntry [Trans (α := κ) (· < ·) (· < ·) (· < ·)]
    (h : SortedEntries entries) :
    SortedEntries (emplaceEntry key value entries) := by
  induction entries with
  | nil => exact List.pairwise_singleton _ _
  | cons e es ih =>
    obtain ⟨hlt, hes⟩ := List.pairwise_cons.mp h
    rw [SculkProtocol.emplaceEntry]
    split
    · next hkey =>
      -- before all others
      refine List.pairwise_cons.mpr ⟨?_, h⟩
      intro e' he'
      rcases List.mem_cons.mp he' with rfl | he'
      · exact hkey
      · exact Trans.trans hkey (hlt e' he')
    · split
      · next hkey =>
        -- behind the first entry
        refine List.pairwise_cons.mpr ⟨?_, ih hes⟩
        intro e' he'
        rcases mem_emplaceEntry he' with rfl | he'
        · exact hkey
        · exact hlt e' he'
      · exact h

/-- A key that is greater than all goes to the end. -/
theorem emplaceEntry_append [Std.Asymm (α := κ) (· < ·)] (h : ∀ e ∈ entries, e.1 < key) :
    emplaceEntry key value entries = entries ++ [(key, value)] := by
  induction entries with
  | nil => rfl
  | cons e es ih =>
    have hkey := h e List.mem_cons_self
    rw [emplaceEntry, if_neg (Std.Asymm.asymm _ _ hkey), if_pos hkey,
      ih fun e' he' => h e' (List.mem_cons_of_mem _ he')]
    rfl

/-- The next of some sorted entries goes behind those before it. -/
theorem SortedEntries.emplaceEntry_next [Std.Asymm (α := κ) (· < ·)] {rest : List (κ × α)}
    (h : SortedEntries (entries ++ (key, value) :: rest)) :
    SculkProtocol.emplaceEntry key value entries = entries ++ [(key, value)] := by
  refine emplaceEntry_append fun e he => ?_
  exact (List.pairwise_append.mp h).2.2 e he _ List.mem_cons_self

end

/-! ### Looking up -/

section

variable [BEq κ] [LawfulBEq κ] {key k : κ} {value : α} {entries entries' : List (κ × α)}

/-- A key that is less than those of some entries is none of them. -/
theorem lookup_eq_none_of_lt [Std.Asymm (α := κ) (· < ·)] (h : ∀ e ∈ entries, k < e.1) :
    entries.lookup k = none := by
  refine List.lookup_eq_none_iff.mpr fun e he => ?_
  refine bne_iff_ne.mpr ?_
  rintro rfl
  exact Std.Asymm.asymm _ _ (h e he) (h e he)

/-- Emplacing changes what is found for one key, and only if nothing was. -/
theorem SortedEntries.lookup_emplaceEntry [DecidableLT κ] [Trans (α := κ) (· < ·) (· < ·) (· < ·)]
    [Std.Asymm (α := κ) (· < ·)] [Std.Trichotomous (α := κ) (· < ·)] (h : SortedEntries entries) :
    (SculkProtocol.emplaceEntry key value entries).lookup k =
      (entries.lookup k).or (if k == key then some value else none) := by
  induction entries with
  | nil =>
    rw [SculkProtocol.emplaceEntry, List.lookup_cons, List.lookup_nil, Option.none_or]
    cases k == key <;> rfl
  | cons e es ih =>
    obtain ⟨hlt, hes⟩ := List.pairwise_cons.mp h
    rw [SculkProtocol.emplaceEntry]
    split
    · next hkey =>
      -- no entry has the key
      rw [List.lookup_cons]
      cases hk : k == key with
      | false => rw [if_neg Bool.false_ne_true, Option.or_none]
      | true =>
        have hnone : (e :: es).lookup k = none := by
          refine lookup_eq_none_of_lt fun e' he' => ?_
          rw [eq_of_beq hk]
          rcases List.mem_cons.mp he' with rfl | he'
          · exact hkey
          · exact Trans.trans hkey (hlt e' he')
        rw [hnone]
        rfl
    · split
      · rw [List.lookup_cons, List.lookup_cons, ih hes]
        cases k == e.1 <;> rfl
      · next hnot hnot' =>
        -- the entry that is there stays
        have hsame : key = e.1 := Std.Trichotomous.trichotomous (r := (· < ·)) _ _ hnot hnot'
        rw [List.lookup_cons, hsame]
        cases hk : k == e.1 with
        | true => rfl
        | false => exact (Option.or_none).symm

/-- A map is what is found in it. -/
theorem SortedEntries.eq_of_lookup [Std.Asymm (α := κ) (· < ·)] [Std.Trichotomous (α := κ) (· < ·)]
    [Trans (α := κ) (· < ·) (· < ·) (· < ·)] (h : SortedEntries entries)
    (h' : SortedEntries entries')
    (hlookup : ∀ k, entries.lookup k = entries'.lookup k) : entries = entries' := by
  induction entries generalizing entries' with
  | nil =>
    cases entries' with
    | nil => rfl
    | cons e' es' => exact absurd (hlookup e'.1).symm (by simp)
  | cons e es ih =>
    cases entries' with
    | nil => exact absurd (hlookup e.1) (by simp)
    | cons e' es' =>
      obtain ⟨hlt, hes⟩ := List.pairwise_cons.mp h
      obtain ⟨hlt', hes'⟩ := List.pairwise_cons.mp h'
      -- the lesser of the two keys would be in one map only
      have hkey : e.1 = e'.1 := by
        refine Std.Trichotomous.trichotomous (r := (· < ·)) _ _ (fun hless => ?_) fun hless => ?_
        · have hnone : (e' :: es').lookup e.1 = none :=
            lookup_eq_none_of_lt (List.forall_mem_cons.mpr ⟨hless,
              fun x hx => Trans.trans hless (hlt' x hx)⟩)
          rw [← hlookup] at hnone
          exact absurd hnone (by simp)
        · have hnone : (e :: es).lookup e'.1 = none :=
            lookup_eq_none_of_lt (List.forall_mem_cons.mpr ⟨hless,
              fun x hx => Trans.trans hless (hlt x hx)⟩)
          rw [hlookup] at hnone
          exact absurd hnone (by simp)
      have hvalue : e.2 = e'.2 := by
        have hfound := hlookup e.1
        rw [List.lookup_cons, List.lookup_cons, ← hkey, beq_self_eq_true] at hfound
        exact Option.some.inj hfound
      have hrest : es = es' := by
        refine ih hes hes' fun k => ?_
        have hfound := hlookup k
        rw [List.lookup_cons, List.lookup_cons, ← hkey] at hfound
        cases hk : k == e.1 with
        | true =>
          rw [eq_of_beq hk, lookup_eq_none_of_lt hlt, lookup_eq_none_of_lt (hkey ▸ hlt')]
        | false =>
          rw [hk] at hfound
          exact hfound
      rw [Prod.ext hkey hvalue, hrest]

end

/-- `std::map`: its entries are in the order of their keys. -/
@[ext] structure OrderedMap (κ α : Type) [LT κ] where
  entries : List (κ × α)
  sorted : SortedEntries entries

namespace OrderedMap

/-- `clear` -/
def empty : OrderedMap κ α := ⟨[], List.Pairwise.nil⟩

variable [DecidableLT κ] [Trans (α := κ) (· < ·) (· < ·) (· < ·)]

def emplace (m : OrderedMap κ α) (key : κ) (value : α) : OrderedMap κ α :=
  ⟨emplaceEntry key value m.entries, m.sorted.emplaceEntry⟩

end OrderedMap
end SculkProtocol
