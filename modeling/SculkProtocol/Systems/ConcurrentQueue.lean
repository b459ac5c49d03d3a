import Mathlib.Data.List.Basic

/-!
# A concurrent queue

The multi-producer queue of the standard lock-free kind, as a list of elements with
their producing threads. It is linearizable, and FIFO for the elements of one producer
only: `tryDequeue` takes any element that is the first of its producer.

`tryDequeue_ofProducer` is the rule for order: a dequeue takes the head of what one
producer has queued (`ofProducer`), and leaves what the others have.
-/

namespace SculkProtocol
namespace ConcurrentQueue

variable {α : Type}

/-- Take the element at position `i`, if no earlier one has the same producer. -/
def tryDequeue (q : List (ℕ × α)) (i : ℕ) : Option (α × List (ℕ × α)) :=
  match q[i]? with
  | some (producer, a) =>
    if ∀ e ∈ q.take i, e.1 ≠ producer then some (a, q.eraseIdx i) else none
  | none => none

/-- What a producer has in the queue, in order. -/
def ofProducer (q : List (ℕ × α)) (producer : ℕ) : List α :=
  (q.filter fun e => e.1 = producer).map Prod.snd

/-- What a producer has in two parts is what it has in both. -/
@[simp] theorem ofProducer_append (q q' : List (ℕ × α)) (producer : ℕ) :
    ofProducer (q ++ q') producer = ofProducer q producer ++ ofProducer q' producer := by
  simp [ofProducer]

/-- A producer has its own entry. -/
@[simp] theorem ofProducer_singleton_self (producer : ℕ) (a : α) :
    ofProducer [(producer, a)] producer = [a] := by
  simp [ofProducer]

/-- It has no entry of another one. -/
theorem ofProducer_singleton_of_ne {producer producer' : ℕ} (h : producer' ≠ producer) (a : α) :
    ofProducer [(producer', a)] producer = [] := by
  simp [ofProducer, h]

/-- What a producer has is in the queue. -/
theorem mem_of_mem_ofProducer {q : List (ℕ × α)} {producer : ℕ} {a : α}
    (h : a ∈ ofProducer q producer) : (producer, a) ∈ q := by
  obtain ⟨⟨p, b⟩, hmem, rfl⟩ := List.mem_map.mp h
  obtain ⟨hq, hp⟩ := List.mem_filter.mp hmem
  rwa [← of_decide_eq_true hp]

variable {q q' : List (ℕ × α)} {a : α} {i : ℕ}

/-- A dequeue takes one element out, the first of its producer. -/
theorem tryDequeue_inv (h : tryDequeue q i = some (a, q')) :
    ∃ producer pre post, q = pre ++ (producer, a) :: post ∧ q' = pre ++ post ∧
      ∀ e ∈ pre, e.1 ≠ producer := by
  unfold tryDequeue at h
  split at h
  · next producer b hi =>
    split at h
    · next hfirst =>
      obtain ⟨rfl, rfl⟩ := Prod.mk.inj (Option.some.inj h)
      obtain ⟨hlt, hget⟩ := List.getElem?_eq_some_iff.mp hi
      refine ⟨producer, q.take i, q.drop (i + 1), ?_, List.eraseIdx_eq_take_drop_succ q i, hfirst⟩
      rw [← hget, List.getElem_cons_drop hlt, List.take_append_drop]
    · exact absurd h (by simp)
  · exact absurd h (by simp)

/-- What is taken was in the queue. -/
theorem tryDequeue_perm (h : tryDequeue q i = some (a, q')) :
    ∃ producer, q.Perm ((producer, a) :: q') := by
  obtain ⟨producer, pre, post, rfl, rfl, -⟩ := tryDequeue_inv h
  exact ⟨producer, List.perm_middle⟩

/-- The elements alone: one of them is taken out. -/
theorem tryDequeue_perm_map (h : tryDequeue q i = some (a, q')) :
    (q.map Prod.snd).Perm (a :: q'.map Prod.snd) := by
  obtain ⟨producer, hperm⟩ := tryDequeue_perm h
  exact hperm.map Prod.snd

/-- What is left was in the queue. -/
theorem mem_of_tryDequeue (h : tryDequeue q i = some (a, q')) {e : ℕ × α} (he : e ∈ q') :
    e ∈ q := by
  obtain ⟨producer, hperm⟩ := tryDequeue_perm h
  exact hperm.mem_iff.mpr (List.mem_cons_of_mem _ he)

/-- **Order.** What is taken is the head of its producer's elements; those of the others
stay as they are. -/
theorem tryDequeue_ofProducer (h : tryDequeue q i = some (a, q')) :
    ∃ producer, (producer, a) ∈ q ∧ ofProducer q producer = a :: ofProducer q' producer ∧
      ∀ p, p ≠ producer → ofProducer q p = ofProducer q' p := by
  obtain ⟨producer, pre, post, rfl, rfl, hfirst⟩ := tryDequeue_inv h
  refine ⟨producer, by simp, ?_, fun p hp => ?_⟩
  · have hpre : pre.filter (fun e => e.1 = producer) = [] := by
      rw [List.filter_eq_nil_iff]
      intro e he
      simpa using hfirst e he
    simp [ofProducer, hpre]
  · simp [ofProducer, Ne.symm hp]

end ConcurrentQueue
end SculkProtocol
