import SculkProtocol.Utility.Result

/-!
# `std::string_view`

Searches in a byte string, and the split of a string at its first and its last dot, by which
a token is taken apart into its three parts. A string of three parts without dots is split
into them (`splitDots_join`), and what is split is the join of its parts (`splitDots_some`).
-/

namespace SculkProtocol
namespace StringView

/-- `find` of one character; `none` is `npos`. -/
def find (c : UInt8) (s : Bytes) : Option ℕ := s.findIdx? (· == c)

/-- `rfind` of one character -/
def rfind (c : UInt8) (s : Bytes) : Option ℕ := (find c s.reverse).map fun i => s.length - 1 - i

def substr (s : Bytes) (pos count : ℕ) : Bytes := (s.drop pos).take count

variable {c : UInt8} {s t : Bytes}

theorem find_append (hs : c ∉ s) : find c (s ++ c :: t) = some s.length := by
  have hnone : s.findIdx? (· == c) = none := by
    rw [List.findIdx?_eq_none_iff]
    intro x hx
    simpa using fun hxc : x = c => hs (hxc ▸ hx)
  rw [find, List.findIdx?_append, hnone, List.findIdx?_cons]
  simp

theorem rfind_append (ht : c ∉ t) : rfind c (s ++ c :: t) = some s.length := by
  have hrev : (s ++ c :: t).reverse = t.reverse ++ c :: s.reverse := by simp
  rw [rfind, hrev, find_append (by simpa using ht)]
  simp only [Option.map_some, List.length_append, List.length_cons, List.length_reverse]
  congr 1
  omega

/-- The first occurrence. -/
theorem find_some {i : ℕ} (h : find c s = some i) :
    c ∉ s.take i ∧ s = s.take i ++ c :: s.drop (i + 1) := by
  obtain ⟨hi, hc, hbefore⟩ := List.findIdx?_eq_some_iff_getElem.mp h
  have hc' : s[i] = c := by simpa using hc
  refine ⟨fun hmem => ?_, ?_⟩
  · obtain ⟨j, hj, hjc⟩ := List.mem_iff_getElem.mp hmem
    rw [List.length_take] at hj
    rw [List.getElem_take] at hjc
    exact absurd hjc (by simpa using hbefore j (by omega))
  · conv_lhs => rw [← List.take_append_drop i s, List.drop_eq_getElem_cons hi, hc']

/-- The rest of a string at a split. -/
theorem drop_of_split {i : ℕ} (hi : i < s.length) (h : s = s.take i ++ c :: s.drop (i + 1)) :
    s.drop i = c :: s.drop (i + 1) := by
  have hdrop : (s.take i ++ c :: s.drop (i + 1)).drop i = c :: s.drop (i + 1) :=
    List.drop_left' (List.length_take_of_le (Nat.le_of_lt hi))
  rwa [← h] at hdrop

theorem lt_of_split {i : ℕ} (h : s = s.take i ++ c :: s.drop (i + 1)) : i < s.length := by
  have := congrArg List.length h
  simp only [List.length_append, List.length_take, List.length_cons, List.length_drop] at this
  omega

/-- The last occurrence. -/
theorem rfind_some {i : ℕ} (h : rfind c s = some i) :
    c ∉ s.drop (i + 1) ∧ s = s.take i ++ c :: s.drop (i + 1) := by
  obtain ⟨k, hk, rfl⟩ := Option.map_eq_some_iff.mp h
  obtain ⟨hbefore, hsplit⟩ := find_some hk
  have hlen := lt_of_split hsplit
  -- the first occurrence in the reversed text, read from behind
  have hlast : s = (s.reverse.drop (k + 1)).reverse ++ c :: (s.reverse.take k).reverse := by
    have := congrArg List.reverse hsplit
    simpa using this
  have hpos : s.length - 1 - k = (s.reverse.drop (k + 1)).reverse.length := by
    simp only [List.length_reverse, List.length_drop]
    omega
  rw [hpos]
  generalize (s.reverse.drop (k + 1)).reverse = before at hlast ⊢
  generalize hafter : (s.reverse.take k).reverse = after at hlast
  have hno : c ∉ after := by
    rw [← hafter]
    simpa using hbefore
  rw [hlast]
  simp [hno]

/-! ### Three parts -/

def dot : UInt8 := 46

/-- `std::format("{}.{}.{}", header, payload, signature)` -/
def joinDots (header payload signature : Bytes) : Bytes :=
  header ++ dot :: (payload ++ dot :: signature)

/-- The parts before the first dot, between the first and the last one, and after it. -/
def splitDots (s : Bytes) : Option (Bytes × Bytes × Bytes) :=
  match find dot s, rfind dot s with
  | some first, some last =>
    if first = last then none
    else some (s.take first, substr s (first + 1) (last - first - 1), s.drop (last + 1))
  | _, _ => none

variable {header payload signature : Bytes}

theorem splitDots_join (hheader : dot ∉ header) (hsignature : dot ∉ signature) :
    splitDots (joinDots header payload signature) = some (header, payload, signature) := by
  have hfirst : find dot (joinDots header payload signature) = some header.length :=
    find_append hheader
  have hassoc : joinDots header payload signature =
      (header ++ dot :: payload) ++ dot :: signature := by simp [joinDots]
  have hlast : rfind dot (joinDots header payload signature)
      = some (header ++ dot :: payload).length := by
    rw [hassoc]
    exact rfind_append hsignature
  have hne : ¬ header.length = (header ++ dot :: payload).length := by simp
  simp only [splitDots, hfirst, hlast, if_neg hne, Option.some.injEq, Prod.mk.injEq]
  refine ⟨by simp [joinDots], ?_, ?_⟩
  · simp [substr, joinDots, List.drop_append, List.take_append]
  · rw [hassoc, ← List.drop_drop, List.drop_left' rfl]
    rfl

/-- What is split is the join of its parts, and the outer parts have no dot. -/
theorem splitDots_some (h : splitDots s = some (header, payload, signature)) :
    s = joinDots header payload signature ∧ dot ∉ header ∧ dot ∉ signature := by
  unfold splitDots at h
  split at h
  · next first last hfirst hlast =>
    split at h
    · exact absurd h (by simp)
    · next hne =>
      obtain ⟨hheader, hsplit⟩ := find_some hfirst
      obtain ⟨hsignature, hsplit'⟩ := rfind_some hlast
      simp only [Option.some.injEq, Prod.mk.injEq] at h
      obtain ⟨rfl, rfl, rfl⟩ := h
      refine ⟨?_, hheader, hsignature⟩
      have hrest := drop_of_split (lt_of_split hsplit) hsplit
      have hrest' := drop_of_split (lt_of_split hsplit') hsplit'
      -- the first dot is not behind the last one
      have hlt : first < last := by
        by_contra hge
        have hmem : dot ∈ (s.drop (last + 1)).drop (first - (last + 1)) := by
          rw [List.drop_drop, show last + 1 + (first - (last + 1)) = first by omega, hrest]
          exact List.mem_cons_self
        exact hsignature (List.mem_of_mem_drop hmem)
      have hmiddle : s.drop (first + 1) =
          substr s (first + 1) (last - first - 1) ++ dot :: s.drop (last + 1) := by
        rw [substr, ← hrest']
        conv_lhs => rw [← List.take_append_drop (last - first - 1) (s.drop (first + 1))]
        rw [List.drop_drop, show first + 1 + (last - first - 1) = last by omega]
      rw [joinDots, ← hmiddle]
      exact hsplit
  · exact absurd h (by simp)

/-- A string has one split into parts without dots. -/
theorem joinDots_inj {header' payload' signature' : Bytes} (hheader : dot ∉ header)
    (hpayload : dot ∉ payload) (hsignature : dot ∉ signature)
    (h : joinDots header' payload' signature' = joinDots header payload signature) :
    header' = header ∧ payload' = payload ∧ signature' = signature := by
  -- there are two dots in the string, so none in its parts
  have hcount := congrArg (List.count dot) h
  simp only [joinDots, List.count_append, List.count_cons_self, List.count_eq_zero.mpr hheader,
    List.count_eq_zero.mpr hpayload, List.count_eq_zero.mpr hsignature] at hcount
  have hheader' : dot ∉ header' := List.count_eq_zero.mp (by omega)
  have hsignature' : dot ∉ signature' := List.count_eq_zero.mp (by omega)
  have hsplit := @splitDots_join _ payload' _ hheader' hsignature'
  rw [h, splitDots_join hheader hsignature] at hsplit
  simp only [Option.some.injEq, Prod.mk.injEq] at hsplit
  exact ⟨hsplit.1.symm, hsplit.2.1.symm, hsplit.2.2.symm⟩

end StringView
end SculkProtocol
