import Mathlib.Algebra.Order.Monoid.Defs

/-!
# Fixed windows

A limiter that counts events in windows: an event opens a window if there is none or the last one
was opened `width` or longer ago, and it is admitted if the window has admitted fewer than `limit`.
`after` is the limiter after a history of times, latest first.

A window admits at most `limit` events (`count_le`). A half-open interval of one `width` meets two
windows at most, so it sees at most twice as many (`admitted_interval`).
-/

namespace SculkProtocol

/-- The time at which the window was opened, if one was, and how many events it has admitted. -/
structure FixedWindow (Time : Type) where
  start : Option Time
  count : ℕ

namespace FixedWindow

variable {Time : Type} [AddCommMonoid Time] [LinearOrder Time] (width : Time) (limit : ℕ)

/-- A window has to be opened for an event. -/
def isOver (w : FixedWindow Time) (now : Time) : Bool := w.start.all fun s => s + width ≤ now

/-- The window an event falls into. -/
def turn (w : FixedWindow Time) (now : Time) : FixedWindow Time :=
  if w.isOver width now then ⟨some now, 0⟩ else w

/-- Whether an event is admitted. -/
def admits (w : FixedWindow Time) (now : Time) : Bool := (w.turn width now).count < limit

def next (w : FixedWindow Time) (now : Time) : FixedWindow Time :=
  if w.admits width limit now then { w.turn width now with count := (w.turn width now).count + 1 }
  else w.turn width now

/-- The limiter after a history. -/
def after : List Time → FixedWindow Time
  | [] => ⟨none, 0⟩
  | now :: times => (after times).next width limit now

/-- The events of a history that were admitted. -/
def admitted : List Time → List Time
  | [] => []
  | now :: times =>
    if (after width limit times).admits width limit now then now :: admitted times
    else admitted times

/-- How many of the events of a list are in the interval that begins at `t`. -/
def countFrom (t : Time) (times : List Time) : ℕ := times.countP fun now => t ≤ now ∧
    now < t + width

variable {width limit} {w : FixedWindow Time} {t now : Time} {n m : ℕ}

theorem countFrom_cons (times : List Time) : countFrom width t (now :: times) =
    countFrom width t times + if t ≤ now ∧ now < t + width then 1 else 0 := by
  unfold countFrom
  rw [List.countP_cons]
  simp only [decide_eq_true_eq]

theorem admitted_subset (times : List Time) : admitted width limit times ⊆ times := by
  induction times with
  | nil => exact List.Subset.refl _
  | cons now times ih =>
    unfold admitted
    split
    · exact List.cons_subset_cons now ih
    · exact List.subset_cons_of_subset now ih

/-- A window is the last one or opened now. -/
theorem start_turn {s : Time} (h : s ∈ (w.turn width now).start) : s = now ∨ s ∈ w.start := by
  unfold turn at h
  split at h
  · exact Or.inl (Option.mem_some_iff.mp h).symm
  · exact Or.inr h

theorem start_next : (w.next width limit now).start = (w.turn width now).start := by
  unfold next
  split
  · rfl
  · rfl

/-- A window was opened by an event. -/
theorem start_mem {times : List Time} {s : Time} (h : s ∈ (after width limit times).start) :
    s ∈ times := by
  induction times with
  | nil => exact absurd h (by simp [after])
  | cons now times ih =>
    unfold after at h
    rw [start_next] at h
    rcases start_turn h with rfl | h
    · exact List.mem_cons_self
    · exact List.mem_cons_of_mem _ (ih h)

/-- A window admits at most `limit` events. -/
theorem count_le (times : List Time) : (after width limit times).count ≤ limit := by
  induction times with
  | nil => exact Nat.zero_le _
  | cons now times ih =>
    have hturn : ((after width limit times).turn width now).count ≤ limit := by
      unfold turn
      split
      · exact Nat.zero_le _
      · exact ih
    unfold after next
    split
    · next hadmits => exact of_decide_eq_true hadmits
    · exact hturn

/-! ### The events in an interval -/

variable (width limit) in
/-- What `n` events in the interval from `t` mean for the window: those of a window that was opened
before the interval are counted in it, and at most one window was opened in the interval before. -/
structure Bounded (t : Time) (w : FixedWindow Time) (n : ℕ) : Prop where
  count : w.count ≤ limit
  before : (∀ s ∈ w.start, s < t) → n ≤ w.count
  inside : ∀ s ∈ w.start, s < t + width → n ≤ limit + w.count
  total : n ≤ 2 * limit

/-- A window is opened. -/
theorem Bounded.turn [IsOrderedAddMonoid Time] (h : Bounded width limit t w n)
    (hearly : now < t → n = 0) :
    Bounded width limit t (w.turn width now) n := by
  unfold FixedWindow.turn
  split
  · next hover =>
    refine ⟨Nat.zero_le _, fun hbefore => (hearly (hbefore now rfl)).le,
      fun s hs hinside => ?_, h.total⟩
    -- the last window was opened before the interval
    have hbefore : ∀ s ∈ w.start, s < t := by
      intro s' hs'
      have hend : s' + width ≤ now := by
        have hall := hover
        unfold isOver at hall
        rw [hs', Option.all_some] at hall
        exact of_decide_eq_true hall
      cases hs
      exact lt_of_add_lt_add_right (hend.trans_lt hinside)
    exact (h.before hbefore).trans (h.count.trans (Nat.le_add_right _ _))
  · exact h

/-- An event is admitted. -/
theorem Bounded.counted (h : Bounded width limit t w n) (hcount : w.count < limit) (hm : m ≤ n + 1)
    (hlate : ∀ s ∈ w.start, t + width ≤ s → m ≤ n) :
    Bounded width limit t { w with count := w.count + 1 } m := by
  refine ⟨hcount, fun hbefore => ?_, fun s hs hinside => ?_, ?_⟩
  · -- opened before the interval: this window has them all
    exact hm.trans (Nat.succ_le_succ (h.before hbefore))
  · -- opened inside it: one full window may have gone before
    exact hm.trans (Nat.succ_le_succ (h.inside s hs hinside))
  · cases hstart : w.start with
    | none =>
      have hbefore := h.before fun s hs => by simp [hstart] at hs
      omega
    | some s =>
      rcases lt_or_ge s (t + width) with hinside | hafter
      · have hn := h.inside s hstart hinside
        omega
      · exact (hlate s hstart hafter).trans h.total

/-- The bounds hold after every history. -/
theorem bounded_after [IsOrderedAddMonoid Time] (t : Time) {times : List Time}
    (hsorted : times.Pairwise (· ≥ ·)) :
    Bounded width limit t (after width limit times)
      (countFrom width t (admitted width limit times)) := by
  induction times with
  | nil => exact ⟨Nat.zero_le _, fun _ => Nat.le_refl 0, fun _ _ _ => Nat.zero_le _, Nat.zero_le _⟩
  | cons now times ih =>
    obtain ⟨hlast, hsorted⟩ := List.pairwise_cons.mp hsorted
    -- all earlier events came before this one
    have hearly : now < t → countFrom width t (admitted width limit times) = 0 := by
      intro ht
      refine List.countP_eq_zero.mpr fun s hs => ?_
      have hs : s < t := (hlast s (admitted_subset times hs)).trans_lt ht
      simp [not_le_of_gt hs]
    have hturn := (ih hsorted).turn hearly
    unfold after FixedWindow.next admitted
    split
    · next hadmits =>
      refine hturn.counted (of_decide_eq_true hadmits) ?_ fun s hs hafter => ?_
      · rw [countFrom_cons]
        split
        · exact Nat.le_refl _
        · exact Nat.le_succ _
      · -- the window was opened after the interval, and so is the event
        have hle : s ≤ now := by
          rcases start_turn hs with rfl | hs
          · exact le_refl s
          · exact hlast s (start_mem hs)
        have hout : ¬ (t ≤ now ∧ now < t + width) :=
          fun hin => not_lt_of_ge (hafter.trans hle) hin.2
        rw [countFrom_cons, if_neg hout]
        exact Nat.le_refl _
    · exact hturn

/-- **Any interval.** -/
theorem admitted_interval [IsOrderedAddMonoid Time] {times : List Time}
    (hsorted : times.Pairwise (· ≥ ·)) (t : Time) :
    countFrom width t (admitted width limit times) ≤ 2 * limit := (bounded_after t hsorted).total

end FixedWindow
end SculkProtocol
