import Mathlib.Logic.Function.Basic
import SculkProtocol.Systems.ConcurrentQueue

/-!
# A strand, as its users see it

What `TaskStrand` does on a pool that takes its jobs: each task that `enqueue` accepts is
executed once, one task at a time, in the order of `enqueue` for the tasks of one thread.
A task is known by its number in the order of acceptance.

`Strand.Numbered` says that the numbers in use are those of tasks that were accepted; it
is kept by every operation.
-/

namespace SculkProtocol

/-- The tasks of a strand. -/
structure Strand (Task : Type) where
  /-- every task that was accepted, the one accepted first at the front -/
  tasks : List Task
  /-- the numbers of the queued tasks with the threads that enqueued them -/
  mTasks : List (ℕ × ℕ)
  running : Option ℕ
  /-- the numbers of the tasks that have run -/
  ran : List ℕ
  deriving DecidableEq

namespace Strand

variable {Task : Type}

/-- A new strand. -/
def empty : Strand Task := ⟨[], [], none, []⟩

/-- Accept a task. -/
def enqueue (s : Strand Task) (producer : ℕ) (t : Task) : Strand Task :=
  { s with tasks := s.tasks ++ [t], mTasks := s.mTasks ++ [(producer, s.tasks.length)] }

/-- Begin the task that a dequeue takes, if none is running. -/
def begin (s : Strand Task) (position : ℕ) : Option (Task × ℕ × Strand Task) :=
  if s.running = none then
    (ConcurrentQueue.tryDequeue s.mTasks position).bind fun r =>
      s.tasks[r.1]?.map fun t => (t, r.1, { s with mTasks := r.2, running := some r.1 })
  else none

/-- The running task ends. -/
def finish (s : Strand Task) (i : ℕ) : Strand Task :=
  { s with running := none, ran := i :: s.ran }

/-- The queued tasks of a producer, in order. -/
def queuedBy (s : Strand Task) (producer : ℕ) : List Task :=
  (ConcurrentQueue.ofProducer s.mTasks producer).filterMap fun i => s.tasks[i]?

/-- The running task. -/
def current (s : Strand Task) : Option Task := s.running.bind fun i => s.tasks[i]?

/-- How many queued tasks meet `p`. -/
def queued (s : Strand Task) (p : Task → Bool) : ℕ :=
  s.mTasks.countP fun e => s.tasks[e.2]?.any p

/-! ### Numbers -/

/-- The numbers in use are those of accepted tasks. -/
structure Numbered (s : Strand Task) : Prop where
  queued : ∀ e ∈ s.mTasks, e.2 < s.tasks.length
  running : ∀ i, s.running = some i → i < s.tasks.length

/-- An empty strand is numbered. -/
theorem numbered_empty : (empty : Strand Task).Numbered :=
  ⟨fun _ he => absurd he List.not_mem_nil, nofun⟩

variable {s s' : Strand Task} {t : Task} {i position : ℕ}

/-- What `begin` does. -/
theorem begin_inv (h : s.begin position = some (t, i, s')) :
    s.running = none ∧ s.tasks[i]? = some t ∧ ∃ q,
      ConcurrentQueue.tryDequeue s.mTasks position = some (i, q) ∧
        s' = { s with mTasks := q, running := some i } := by
  unfold begin at h
  split at h
  · next hidle =>
    obtain ⟨⟨j, q⟩, hd, h⟩ := Option.bind_eq_some_iff.mp h
    obtain ⟨u, hu, h⟩ := Option.map_eq_some_iff.mp h
    cases h
    exact ⟨hidle, hu, q, hd, rfl⟩
  · exact absurd h (by simp)

/-- A task that is enqueued gets the next number. -/
theorem Numbered.enqueue (hs : s.Numbered) (producer : ℕ) (t : Task) :
    (s.enqueue producer t).Numbered := by
  refine ⟨fun e he => ?_, fun i hi => ?_⟩ <;>
    simp only [Strand.enqueue, List.length_append, List.length_singleton]
  · rcases List.mem_append.mp he with he | he
    · exact Nat.lt_succ_of_lt (hs.queued e he)
    · rw [List.mem_singleton.mp he]
      exact Nat.lt_succ_self _
  · exact Nat.lt_succ_of_lt (hs.running i hi)

/-- A task that is begun keeps its number. -/
theorem Numbered.begin (hs : s.Numbered) (h : s.begin position = some (t, i, s')) :
    s'.Numbered := by
  obtain ⟨-, ht, q, hd, rfl⟩ := begin_inv h
  refine ⟨fun e he => hs.queued e (ConcurrentQueue.mem_of_tryDequeue hd he), fun j hj => ?_⟩
  rw [← Option.some.inj hj]
  exact (List.getElem?_eq_some_iff.mp ht).1

/-- A task that returns leaves the numbers alone. -/
theorem Numbered.finish (hs : s.Numbered) (i : ℕ) : (s.finish i).Numbered := ⟨hs.queued, nofun⟩

/-! ### Queued tasks -/

/-- An empty strand has queued nothing. -/
@[simp] theorem queued_empty (p : Task → Bool) : (empty : Strand Task).queued p = 0 := rfl

/-- A task that returns was not queued. -/
@[simp] theorem queued_finish (p : Task → Bool) : (s.finish i).queued p = s.queued p := rfl

/-- Accepting a task does not change what the numbers in use stand for. -/
theorem getElem?_enqueue (hs : s.Numbered) {e : ℕ × ℕ} (he : e ∈ s.mTasks) (t : Task) :
    (s.tasks ++ [t])[e.2]? = s.tasks[e.2]? :=
  List.getElem?_append_left (hs.queued e he)

/-- One task more is queued. -/
theorem queued_enqueue (hs : s.Numbered) (producer : ℕ) (t : Task) (p : Task → Bool) :
    (s.enqueue producer t).queued p = s.queued p + (p t).toNat := by
  have hold : s.mTasks.countP (fun e => (s.tasks ++ [t])[e.2]?.any p) = s.queued p :=
    List.countP_congr fun e he => by rw [getElem?_enqueue hs he]
  simp only [queued, Strand.enqueue, List.countP_append, hold]
  cases hp : p t <;> simp [hp]

/-- The task that is begun is queued no longer. -/
theorem queued_begin (h : s.begin position = some (t, i, s')) (p : Task → Bool) :
    s'.queued p + (p t).toNat = s.queued p := by
  obtain ⟨-, ht, q, hd, rfl⟩ := begin_inv h
  obtain ⟨producer, hperm⟩ := ConcurrentQueue.tryDequeue_perm hd
  simp only [queued, hperm.countP_eq, List.countP_cons, ht]
  cases hp : p t <;> simp [hp]

/-! ### The running task -/

/-- An empty strand runs nothing. -/
@[simp] theorem current_empty : (empty : Strand Task).current = none := rfl

/-- A strand whose task has returned runs nothing. -/
@[simp] theorem current_finish : (s.finish i).current = none := rfl

/-- Enqueueing begins nothing. -/
theorem current_enqueue (hs : s.Numbered) (producer : ℕ) (t : Task) :
    (s.enqueue producer t).current = s.current := by
  unfold current
  cases hr : s.running with
  | none => simp [Strand.enqueue, hr]
  | some i => simp [Strand.enqueue, hr, List.getElem?_append_left (hs.running i hr)]

/-- Only a strand that runs nothing begins a task. -/
theorem current_begin (h : s.begin position = some (t, i, s')) :
    s.current = none ∧ s'.current = some t := by
  obtain ⟨hidle, ht, q, -, rfl⟩ := begin_inv h
  exact ⟨by rw [current, hidle]; rfl, ht⟩

/-! ### The order of tasks -/

/-- A task that returns was queued by nobody. -/
@[simp] theorem queuedBy_finish (producer : ℕ) :
    (s.finish i).queuedBy producer = s.queuedBy producer := rfl

/-- A producer's tasks are queued in its order. -/
theorem queuedBy_enqueue_self (hs : s.Numbered) (producer : ℕ) (t : Task) :
    (s.enqueue producer t).queuedBy producer = s.queuedBy producer ++ [t] := by
  have hold : (ConcurrentQueue.ofProducer s.mTasks producer).filterMap
    (fun i => (s.tasks ++ [t])[i]?) =
      s.queuedBy producer :=
    List.filterMap_congr fun i hi =>
      getElem?_enqueue hs (ConcurrentQueue.mem_of_mem_ofProducer hi) t
  simp [queuedBy, Strand.enqueue, hold]

/-- The tasks of the other producers stay as they are. -/
theorem queuedBy_enqueue_of_ne (hs : s.Numbered) {producer producer' : ℕ}
    (hne : producer' ≠ producer)
    (t : Task) : (s.enqueue producer' t).queuedBy producer = s.queuedBy producer := by
  have hold : (ConcurrentQueue.ofProducer s.mTasks producer).filterMap
    (fun i => (s.tasks ++ [t])[i]?) =
      s.queuedBy producer :=
    List.filterMap_congr fun i hi =>
      getElem?_enqueue hs (ConcurrentQueue.mem_of_mem_ofProducer hi) t
  simp [queuedBy, Strand.enqueue, hold, ConcurrentQueue.ofProducer_singleton_of_ne hne]

/-- **Order.** The task that begins is the first of its producer. -/
theorem queuedBy_begin (h : s.begin position = some (t, i, s')) :
    ∃ producer, s.queuedBy producer = t :: s'.queuedBy producer ∧
      ∀ p, p ≠ producer → s'.queuedBy p = s.queuedBy p := by
  obtain ⟨-, ht, q, hd, rfl⟩ := begin_inv h
  obtain ⟨producer, -, hhead, hothers⟩ := ConcurrentQueue.tryDequeue_ofProducer hd
  refine ⟨producer, by simp [queuedBy, hhead, ht], fun p hp => ?_⟩
  simp [queuedBy, hothers p hp]

end Strand
end SculkProtocol
