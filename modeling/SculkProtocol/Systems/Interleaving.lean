import Mathlib.Algebra.BigOperators.Group.List.Basic
import Mathlib.Algebra.Ring.Nat
import SculkProtocol.Systems.System

/-!
# Interleavings of threads over a shared state

A `Program` describes threads that share one state. `exec` runs the next atomic
step of one thread and returns the new shared state with the threads that take
its place: none when the thread ends, itself at its next program point, and any
thread it spawns. `env` is everything that does not belong to a thread in the
pool: a call that arrives from outside, or the step of an actor whose program
point is kept in the shared state.

`Program.system` is the transition system of all interleavings: any thread may
move at any time. A finished thread leaves the pool, so the pool is a bag and its
order carries no meaning; `step_thread_inv` and `step_env_inv` are the two
inversions that say what a move does, and everything else is derived from them:

* `threads_where` — a shared predicate `Q` together with a predicate `R` of each
  thread is invariant when the moving thread and its successors keep it and the
  other threads are not disturbed;
* `total_exec` and `total_env` — how the sum of a weight over the pool changes,
  which is how counters are compared with the threads they count.
-/

namespace SculkProtocol

/-- Threads over a shared state; `Act` resolves the choices of one step. -/
structure Program (Shared Thread Act : Type) where
  /-- One step of a thread: the new shared state and the threads replacing it. -/
  exec : Shared → Thread → Act → Option (Shared × List Thread)
  /-- One step from outside the pool: the new shared state and the threads added. -/
  env : Shared → List Thread → Act → Option (Shared × List Thread)

/-- A shared state with the pool of live threads. -/
structure Config (Shared Thread : Type) where
  shared : Shared
  threads : List Thread

/-- Who moves. -/
inductive Move (Act : Type)
  | thread (i : ℕ) (a : Act)
  | env (a : Act)
  deriving DecidableEq

namespace Config

variable {Shared Thread : Type}

/-- The weight `w` summed over the pool. -/
def total (w : Thread → ℕ) (ts : List Thread) : ℕ := (ts.map w).sum

@[simp] theorem total_nil (w : Thread → ℕ) : total w [] = 0 := rfl

@[simp] theorem total_cons (w : Thread → ℕ) (t : Thread) (ts : List Thread) :
    total w (t :: ts) = w t + total w ts := by
  simp [total]

@[simp] theorem total_append (w : Thread → ℕ) (ts us : List Thread) :
    total w (ts ++ us) = total w ts + total w us := by
  simp [total]

@[simp] theorem total_map {α : Type} (w : Thread → ℕ) (f : α → Thread) (ts : List α) :
    total w (ts.map f) = total (fun t => w (f t)) ts := by
  simp [total, Function.comp_def]

/-- The order of the threads does not matter. -/
theorem total_perm (w : Thread → ℕ) {ts us : List Thread} (h : ts.Perm us) :
    total w ts = total w us := (h.map w).sum_eq

/-- A pool has weight zero exactly when each of its threads has. -/
theorem total_eq_zero {w : Thread → ℕ} {ts : List Thread} :
    total w ts = 0 ↔ ∀ t ∈ ts, w t = 0 := by
  induction ts with
  | nil => simp
  | cons t ts ih => simp [ih]

/-- A thread weighs no more than all of them. -/
theorem le_total {w : Thread → ℕ} {ts : List Thread} {t : Thread} (h : t ∈ ts) :
    w t ≤ total w ts := by
  induction ts with
  | nil => exact absurd h List.not_mem_nil
  | cons u ts ih =>
    rw [total_cons]
    rcases List.mem_cons.mp h with rfl | h
    · omega
    · have := ih h; omega

/-- A weight that is larger on each thread is larger on the pool. -/
theorem total_mono {w w' : Thread → ℕ} {ts : List Thread} (h : ∀ t ∈ ts, w t ≤ w' t) :
    total w ts ≤ total w' ts := by
  induction ts with
  | nil => exact Nat.le_refl _
  | cons t ts ih =>
    have h1 := h t List.mem_cons_self
    have h2 := ih fun u hu => h u (List.mem_cons_of_mem _ hu)
    rw [total_cons, total_cons]
    omega

/-- A pool of positive weight has a thread of positive weight. -/
theorem exists_of_total_pos {w : Thread → ℕ} {ts : List Thread} (h : 0 < total w ts) :
    ∃ t ∈ ts, 0 < w t := by
  by_contra hc
  have h0 : total w ts = 0 := total_eq_zero.mpr fun t ht => by
    by_contra hne
    exact hc ⟨t, ht, Nat.pos_of_ne_zero hne⟩
  omega

end Config

namespace Program

variable {Shared Thread Act : Type} (P : Program Shared Thread Act)

/-- One move of the interleaving. -/
def step (c : Config Shared Thread) : Move Act → Option (Config Shared Thread)
  | .thread i a =>
    match c.threads[i]? with
    | some t => (P.exec c.shared t a).map fun r => ⟨r.1, c.threads.eraseIdx i ++ r.2⟩
    | none => none
  | .env a => (P.env c.shared c.threads a).map fun r => ⟨r.1, c.threads ++ r.2⟩

/-- The transition system of all interleavings from `init`. -/
def system (init : Config Shared Thread) : System (Config Shared Thread) (Move Act) where
  init := init
  step := P.step

@[simp] theorem system_init (init : Config Shared Thread) : (P.system init).init = init := rfl

@[simp] theorem system_step (init : Config Shared Thread) : (P.system init).step = P.step := rfl

variable {P}

/-- The moving thread can be taken out of the pool. -/
theorem perm_eraseIdx {ts : List Thread} {i : ℕ} {t : Thread} (h : ts[i]? = some t) :
    ts.Perm (t :: ts.eraseIdx i) := by
  obtain ⟨hi, rfl⟩ := List.getElem?_eq_some_iff.mp h
  exact (List.getElem_cons_eraseIdx_perm hi).symm

/-- What a move of a thread does: the thread leaves the pool and its successors
enter. -/
theorem step_thread_inv {c c' : Config Shared Thread} {i : ℕ} {a : Act}
    (h : P.step c (.thread i a) = some c') :
    ∃ t rest sh ts, c.threads[i]? = some t ∧ c.threads.Perm (t :: rest) ∧
      P.exec c.shared t a = some (sh, ts) ∧ c' = ⟨sh, rest ++ ts⟩ := by
  simp only [step] at h
  cases ht : c.threads[i]? with
  | none => rw [ht] at h; exact absurd h (by simp)
  | some t =>
    rw [ht] at h
    obtain ⟨⟨sh, ts⟩, hex, rfl⟩ := Option.map_eq_some_iff.mp h
    exact ⟨t, c.threads.eraseIdx i, sh, ts, rfl, perm_eraseIdx ht, hex, rfl⟩

/-- What a move of the environment does: threads are only added. -/
theorem step_env_inv {c c' : Config Shared Thread} {a : Act}
    (h : P.step c (.env a) = some c') :
    ∃ sh ts, P.env c.shared c.threads a = some (sh, ts) ∧ c' = ⟨sh, c.threads ++ ts⟩ := by
  obtain ⟨⟨sh, ts⟩, hex, rfl⟩ := Option.map_eq_some_iff.mp h
  exact ⟨sh, ts, hex, rfl⟩

/-- Any thread of the pool can be moved. -/
theorem exists_step {c : Config Shared Thread} {t : Thread} {a : Act} {sh : Shared}
    {ts : List Thread} (ht : t ∈ c.threads) (hex : P.exec c.shared t a = some (sh, ts)) :
    ∃ i rest, c.threads.Perm (t :: rest) ∧ P.step c (.thread i a) = some ⟨sh, rest ++ ts⟩ := by
  obtain ⟨i, hi⟩ := List.mem_iff_getElem?.mp ht
  exact ⟨i, c.threads.eraseIdx i, perm_eraseIdx hi, by simp only [step, hi, hex, Option.map_some]⟩

/-- A move of the last thread of the pool. -/
theorem step_last (sh : Shared) (ts : List Thread) (t : Thread) (a : Act) :
    P.step ⟨sh, ts ++ [t]⟩ (.thread ts.length a) =
      (P.exec sh t a).map fun r => ⟨r.1, ts ++ r.2⟩ := by
  have hlast : (ts ++ [t]).eraseIdx ts.length = ts := by
    rw [List.eraseIdx_append_of_length_le (Nat.le_refl _), Nat.sub_self, List.eraseIdx_cons_zero,
      List.append_nil]
  rw [step, List.getElem?_append_right (Nat.le_refl _), Nat.sub_self, List.getElem?_cons_zero,
    hlast]

/-! ### Weights over the pool -/

/-- A thread's move trades its own weight for that of its successors. -/
theorem total_exec {c c' : Config Shared Thread} {i : ℕ} {a : Act} (w : Thread → ℕ)
    (h : P.step c (.thread i a) = some c') :
    ∃ t sh ts, c.threads[i]? = some t ∧ P.exec c.shared t a = some (sh, ts) ∧ c'.shared = sh ∧
      Config.total w c'.threads + w t = Config.total w c.threads + Config.total w ts := by
  obtain ⟨t, rest, sh, ts, hi, hperm, hex, rfl⟩ := step_thread_inv h
  refine ⟨t, sh, ts, hi, hex, rfl, ?_⟩
  rw [Config.total_perm w hperm, Config.total_cons, Config.total_append]
  omega

/-- An environment move adds the weight of the threads it starts. -/
theorem total_env {c c' : Config Shared Thread} {a : Act} (w : Thread → ℕ)
    (h : P.step c (.env a) = some c') :
    ∃ sh ts, P.env c.shared c.threads a = some (sh, ts) ∧ c'.shared = sh ∧
      Config.total w c'.threads = Config.total w c.threads + Config.total w ts := by
  obtain ⟨sh, ts, hex, rfl⟩ := step_env_inv h
  exact ⟨sh, ts, hex, rfl, Config.total_append w _ _⟩

end Program
end SculkProtocol
