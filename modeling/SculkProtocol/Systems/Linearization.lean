import Mathlib.Data.List.Basic

/-!
# Linearization

Calls run concurrently, and each takes effect at one moment of its run. The effects in their order
are those of a sequential object: `SequentialObject.replay` says what they make of its state. They
are in the order of real time (`CallLog.Ordered`) if no effect comes before that of a call that had
returned when its own call started.

The rules say what keeps the order: an effect of a call that has not returned is added at the end
(`Ordered.effect`), and the log grows by what starts none of the calls that have taken effect
(`Ordered.record`).
-/

namespace SculkProtocol

/-- What an effect makes of a state, if it is possible there. -/
structure SequentialObject (State Effect : Type) where
  apply : State → Effect → Option State

namespace SequentialObject

variable {State Effect : Type} (O : SequentialObject State Effect) {s t : State} {es : List Effect}

/-- Effects one after the other. -/
def replay (s : State) (es : List Effect) : Option State := es.foldlM O.apply s

@[simp] theorem replay_nil : O.replay s [] = some s := rfl

theorem replay_append {es' : List Effect} (h : O.replay s es = some t) :
    O.replay s (es ++ es') = O.replay t es' := by
  have hbind : O.replay s (es ++ es') = O.replay s es >>= fun t => O.replay t es' :=
    List.foldlM_append
  rw [hbind, h]
  rfl

end SequentialObject

/-- Which entries of a log start a call, and with which it returns. -/
structure CallLog (Entry Caller : Type) where
  starts : Entry → Caller → Prop
  returns : Entry → Caller → Prop

namespace CallLog

variable {Entry Caller : Type} (K : CallLog Entry Caller) {log : List Entry} {calls : List Caller}
  {x y : Caller}

/-- The call `y` has returned before `x` is started. -/
def ReturnedBefore (log : List Entry) (y x : Caller) : Prop :=
  ∃ before entry after, log = before ++ entry :: after ∧ K.starts entry x ∧ ∃ e ∈ before,
  K.returns e y

/-- The calls are in an order of real time. -/
def Ordered (log : List Entry) (calls : List Caller) : Prop :=
  calls.Pairwise fun x y => ¬ K.ReturnedBefore log y x

variable {K}

theorem ReturnedBefore.returned (h : K.ReturnedBefore log y x) : ∃ e ∈ log, K.returns e y := by
  obtain ⟨before, entry, after, rfl, -, e, he, hreturns⟩ := h
  exact ⟨e, List.mem_append_left _ he, hreturns⟩

theorem ordered_nil : K.Ordered log [] := List.Pairwise.nil

/-- **A call takes effect** before it returns. -/
theorem Ordered.effect (h : K.Ordered log calls) (hrunning : ∀ e ∈ log, ¬ K.returns e y) :
    K.Ordered log (calls ++ [y]) := by
  refine List.pairwise_append.mpr ⟨h, List.pairwise_singleton _ _, fun x _ z hz => ?_⟩
  obtain rfl := List.mem_singleton.mp hz
  intro hbefore
  obtain ⟨e, he, hreturns⟩ := hbefore.returned
  exact hrunning e he hreturns

/-- **The log grows**, with no start of a call that has taken effect. -/
theorem Ordered.record (h : K.Ordered log calls) {entry : Entry}
    (hstarts : ∀ x ∈ calls, ¬ K.starts entry x) :
    K.Ordered (log ++ [entry]) calls := by
  refine h.imp_of_mem fun {x y} hx _ hbefore => ?_
  rintro ⟨before, e, after, hlog, hstart, hreturned⟩
  rcases List.eq_nil_or_concat' after with rfl | ⟨after, last, rfl⟩
  · -- the new entry would start `x`
    obtain ⟨-, hsame⟩ := List.append_inj' hlog rfl
    obtain rfl := (List.cons.inj hsame).1
    exact hstarts x hx hstart
  · rw [← List.cons_append, ← List.append_assoc] at hlog
    obtain ⟨rfl, -⟩ := List.append_inj' hlog rfl
    exact hbefore ⟨before, e, after, rfl, hstart, hreturned⟩

theorem Ordered.extend (h : K.Ordered log calls) {entries : List Entry}
    (hstarts : ∀ entry ∈ entries, ∀ x ∈ calls, ¬ K.starts entry x) :
    K.Ordered (log ++ entries) calls := by
  induction entries generalizing log with
  | nil =>
    rw [List.append_nil]
    exact h
  | cons entry entries ih =>
    obtain ⟨hentry, hentries⟩ := List.forall_mem_cons.mp hstarts
    rw [List.append_cons]
    exact ih (h.record hentry) hentries

end CallLog
end SculkProtocol
