import SculkProtocol.Systems.Interleaving

/-!
# Threads as scripts

A way of writing a `Program` for code in which threads run straight-line sequences of
accesses to shared state. A thread is a `Script`: a tag that says who it is, and the
operations it has left. An operation, when it is performed, puts the operations that
come next in its place, so a call is an operation that unfolds into the accesses of
its callee, and a branch is one that unfolds into what follows.

`Scripts.program` is the interleaving of such threads. `step_cases` says what a move
can be: the next operation of one thread, the end of a thread, or a call from outside.
The rest are the rules for pending operations:

* `ops_step` — a property of every pending operation survives a move when the
  operations that replace the performed one, and those of new threads, have it;
* `codes_step` — the same for a property of the code of each thread;
* `has_step` — a pending operation stays pending until it is performed;
* `weight_step`, `pending_step` — the weight of all pending operations, and the number
  of those of a kind, change by what a move performs and what it adds.
-/

namespace SculkProtocol

/-- A thread with the operations it has left. -/
structure Script (Tag Op : Type) where
  tag : Tag
  code : List Op
  deriving DecidableEq

/-- What moves a pool of scripts. -/
inductive Event (Choice Call : Type)
  /-- a thread's next step -/
  | step (ch : Choice)
  | call (a : Call)
  deriving DecidableEq

/-- The operations of scripts over a shared state. -/
structure Scripts (Shared Tag Op Choice Call : Type) where
  /-- an operation: the new shared state, what takes its place, and the new threads -/
  exec : Shared → Tag → Choice → Op → Option (Shared × List Op × List (Script Tag Op))
  /-- the end of a thread -/
  finish : Shared → Tag → Shared
  /-- a call from outside: the new shared state and the new threads -/
  call : Shared → List (Script Tag Op) → Call → Option (Shared × List (Script Tag Op))

namespace Scripts

variable {Shared Tag Op Choice Call : Type} (M : Scripts Shared Tag Op Choice Call)

/-- The next step of a script. -/
def execScript (s : Shared) (t : Script Tag Op) :
    Event Choice Call → Option (Shared × List (Script Tag Op))
  | .step ch =>
    match t.code with
    | [] => some (M.finish s t.tag, [])
    | op :: rest => (M.exec s t.tag ch op).map fun r => (r.1, ⟨t.tag, r.2.1 ++ rest⟩ :: r.2.2)
  | .call _ => none

/-- A call from outside. -/
def env (s : Shared) (ts : List (Script Tag Op)) :
    Event Choice Call → Option (Shared × List (Script Tag Op))
  | .step _ => none
  | .call a => M.call s ts a

/-- The interleavings of the scripts. -/
def program : Program Shared (Script Tag Op) (Event Choice Call) := ⟨M.execScript, M.env⟩

/-- A pool of scripts over its shared state. -/
abbrev Pool (Shared Tag Op : Type) := Config Shared (Script Tag Op)

/-- A transition of a pool. -/
abbrev PoolStep (Shared Tag Op Choice Call : Type) :=
  Transition (Pool Shared Tag Op) (Move (Event Choice Call))

/-! ### What a transition performs -/

/-- The operation a transition performs, with the thread that performs it. -/
def performed (x : PoolStep Shared Tag Op Choice Call) : Option (Script Tag Op × Op) :=
  match x.label with
  | .thread i (.step _) => x.src.threads[i]?.bind fun t => t.code.head?.map fun op => (t, op)
  | _ => none

/-- In the transition `x`, thread `t` performs the operation `op`. -/
def Does (x : PoolStep Shared Tag Op Choice Call) (t : Script Tag Op) (op : Op) : Prop :=
  performed x = some (t, op)

variable {M} {c c' : Pool Shared Tag Op} {m : Move (Event Choice Call)}

/-- A thread does the first operation of its script. -/
theorem does_of_head {i : ℕ} {ch : Choice} {t : Script Tag Op} {op : Op} {rest : List Op}
    (hi : c.threads[i]? = some t) (hcode : t.code = op :: rest) :
    Does (⟨c, .thread i (.step ch), c'⟩ : PoolStep Shared Tag Op Choice Call) t op := by
  simp [Does, performed, hi, hcode]

/-- The operation is pending in a thread of the pool. -/
theorem Does.mem {x : PoolStep Shared Tag Op Choice Call} {t : Script Tag Op} {op : Op}
    (h : Does x t op) : t ∈ x.src.threads ∧ op ∈ t.code := by
  unfold Does performed at h
  split at h
  · obtain ⟨u, hu, h⟩ := Option.bind_eq_some_iff.mp h
    obtain ⟨o, ho, h⟩ := Option.map_eq_some_iff.mp h
    obtain ⟨rfl, rfl⟩ := Prod.mk.inj h
    exact ⟨List.mem_of_getElem? hu, List.mem_of_head? ho⟩
  · exact absurd h (by simp)

/-- The operation is the next one of its thread. -/
theorem Does.code_eq {x : PoolStep Shared Tag Op Choice Call} {t : Script Tag Op} {op : Op}
    (h : Does x t op) : ∃ rest, t.code = op :: rest := by
  unfold Does performed at h
  split at h
  · obtain ⟨u, hu, h⟩ := Option.bind_eq_some_iff.mp h
    obtain ⟨o, ho, h⟩ := Option.map_eq_some_iff.mp h
    obtain ⟨rfl, rfl⟩ := Prod.mk.inj h
    exact List.head?_eq_some_iff.mp ho
  · exact absurd h (by simp)

/-- A transition performs one operation. -/
theorem Does.inj {x : PoolStep Shared Tag Op Choice Call} {t t' : Script Tag Op} {op op' : Op}
    (h : Does x t op) (h' : Does x t' op') : t = t' ∧ op = op' :=
  Prod.mk.inj (Option.some.inj (h.symm.trans h'))

/-! ### The kinds of moves -/

/-- The three kinds of moves. -/
inductive Moves (M : Scripts Shared Tag Op Choice Call) (c : Pool Shared Tag Op) :
    Move (Event Choice Call) → Pool Shared Tag Op → Prop
  /-- thread `t` performs its next operation -/
  | access {i : ℕ} {ch : Choice} {t : Script Tag Op} {op : Op} {rest ops : List Op} {s' : Shared}
      {ts others : List (Script Tag Op)} :
      c.threads[i]? = some t → c.threads.Perm (t :: others) → t.code = op :: rest →
      M.exec c.shared t.tag ch op = some (s', ops, ts) →
      Moves M c (.thread i (.step ch)) ⟨s', others ++ ⟨t.tag, ops ++ rest⟩ :: ts⟩
  /-- thread `t` ends -/
  | finish {i : ℕ} {ch : Choice} {t : Script Tag Op} {others : List (Script Tag Op)} :
      c.threads[i]? = some t → c.threads.Perm (t :: others) → t.code = [] →
      Moves M c (.thread i (.step ch)) ⟨M.finish c.shared t.tag, others⟩
  /-- a call arrives -/
  | arrive {a : Call} {s' : Shared} {new : List (Script Tag Op)} :
      M.call c.shared c.threads a = some (s', new) →
      Moves M c (.env (.call a)) ⟨s', c.threads ++ new⟩

/-- A step is a call, an operation or the end of a script. -/
theorem step_cases (h : M.program.step c m = some c') : Moves M c m c' := by
  cases m with
  | env a =>
    obtain ⟨s', new, hnew, rfl⟩ := Program.step_env_inv h
    cases a with
    | step ch => exact absurd hnew (by simp [program, env])
    | call a => exact .arrive hnew
  | thread i a =>
    obtain ⟨t, others, s', ts, hi, hperm, hex, rfl⟩ := Program.step_thread_inv h
    cases a with
    | call a => exact absurd hex (by simp [program, execScript])
    | step ch =>
      change M.execScript c.shared t (.step ch) = some (s', ts) at hex
      simp only [execScript] at hex
      -- a thread without code ends; any other takes its next access
      split at hex
      · next hcode =>
        obtain ⟨rfl, rfl⟩ := Prod.mk.inj (Option.some.inj hex)
        rw [List.append_nil]
        exact .finish hi hperm hcode
      · next op rest hcode =>
        obtain ⟨⟨s₁, ops, new⟩, hop, hr⟩ := Option.map_eq_some_iff.mp hex
        obtain ⟨rfl, rfl⟩ := Prod.mk.inj hr
        exact .access hi hperm hcode hop

/-- What a performed operation does to the pool. -/
theorem access_of_does (h : M.program.step c m = some c') {t : Script Tag Op} {op : Op}
    (hdoes : Does ⟨c, m, c'⟩ t op) :
    ∃ i ch rest ops s' ts others, m = .thread i (.step ch) ∧ c.threads.Perm (t :: others) ∧
      t.code = op :: rest ∧ M.exec c.shared t.tag ch op = some (s', ops, ts) ∧
      c' = ⟨s', others ++ ⟨t.tag, ops ++ rest⟩ :: ts⟩ := by
  cases step_cases h with
  | @access i ch u op' rest ops s' ts others hi hperm hcode hop =>
    obtain ⟨rfl, rfl⟩ := Does.inj (does_of_head hi hcode) hdoes
    exact ⟨i, ch, rest, ops, s', ts, others, rfl, hperm, hcode, hop, rfl⟩
  | @finish i ch u others hi hperm hcode =>
    exact absurd hdoes (by simp [Does, performed, hi, hcode])
  | arrive hnew => exact absurd hdoes (by simp [Does, performed])

/-- The next step of the last thread of a pool. -/
theorem step_last (s : Shared) (ts : List (Script Tag Op)) (tag : Tag) (op : Op) (rest : List Op)
    (ch : Choice) :
    M.program.step ⟨s, ts ++ [⟨tag, op :: rest⟩]⟩ (.thread ts.length (.step ch)) =
      (M.exec s tag ch op).map fun r => ⟨r.1, ts ++ ⟨tag, r.2.1 ++ rest⟩ :: r.2.2⟩ := by
  rw [Program.step_last]
  simp only [program, execScript, Option.map_map]
  rfl

/-- The end of the last thread of a pool. -/
theorem step_last_finish (s : Shared) (ts : List (Script Tag Op)) (tag : Tag) (ch : Choice) :
    M.program.step ⟨s, ts ++ [⟨tag, []⟩]⟩ (.thread ts.length (.step ch)) =
      some ⟨M.finish s tag, ts⟩ := by
  rw [Program.step_last]
  simp only [program, execScript, Option.map_some, List.append_nil]

/-! ### Pending operations -/

/-- **Operations of a pool.** A property `R` of the pending operations becomes `Q` over
a move if the move turns the one into the other, and the operations that take the place
of the performed one, and those of new threads, have `Q`. -/
theorem ops_step {R Q : Tag → Op → Prop} (h : M.program.step c m = some c')
    (hc : ∀ t ∈ c.threads, ∀ op ∈ t.code, R t.tag op)
    (hkeep : ∀ t ∈ c.threads, ∀ op ∈ t.code, R t.tag op → Q t.tag op)
    (hexec : ∀ t op ch ops ts, Does ⟨c, m, c'⟩ t op → R t.tag op →
      M.exec c.shared t.tag ch op = some (c'.shared, ops, ts) →
      (∀ o ∈ ops, Q t.tag o) ∧ ∀ u ∈ ts, ∀ o ∈ u.code, Q u.tag o)
    (hcall : ∀ a new, m = .env (.call a) →
      M.call c.shared c.threads a = some (c'.shared, new) → ∀ u ∈ new, ∀ o ∈ u.code, Q u.tag o) :
    ∀ t ∈ c'.threads, ∀ op ∈ t.code, Q t.tag op := by
  have hold : ∀ t ∈ c.threads, ∀ op ∈ t.code, Q t.tag op :=
    fun t ht op hop => hkeep t ht op hop (hc t ht op hop)
  cases step_cases h with
  | @access i ch t op rest ops s' ts others hi hperm hcode hop =>
    have ht : t ∈ c.threads := List.mem_of_getElem? hi
    obtain ⟨hops, hts⟩ := hexec t op ch ops ts (does_of_head hi hcode)
      (hc t ht op (hcode ▸ List.mem_cons_self)) hop
    intro u hu o ho
    rcases List.mem_append.mp hu with hu | hu
    · -- another thread keeps its operations
      exact hold u (hperm.mem_iff.mpr (List.mem_cons_of_mem _ hu)) o ho
    · rcases List.mem_cons.mp hu with rfl | hu
      · rcases List.mem_append.mp ho with ho | ho
        · -- the thread itself: what replaces the performed one, and what came after it
          exact hops o ho
        · exact hold t ht o (hcode ▸ List.mem_cons_of_mem _ ho)
      · exact hts u hu o ho
  | finish hi hperm hcode =>
    intro u hu
    exact hold u (hperm.mem_iff.mpr (List.mem_cons_of_mem _ hu))
  | arrive hnew =>
    intro u hu o ho
    rcases List.mem_append.mp hu with hu | hu
    · exact hold u hu o ho
    · exact hcall _ _ rfl hnew u hu o ho

/-- **Codes of a pool.** A property `R` of the code of each thread becomes `Q` over a move
if the move turns the one into the other for the threads that do not move, and what is
left of the moving thread, and new threads, have it. -/
theorem codes_step {R Q : Tag → List Op → Prop} (h : M.program.step c m = some c')
    (hc : ∀ t ∈ c.threads, R t.tag t.code)
    (hkeep : ∀ t ∈ c.threads, R t.tag t.code → Q t.tag t.code)
    (hexec : ∀ t op i ch rest ops ts, m = .thread i (.step ch) → Does ⟨c, m, c'⟩ t op →
      t.code = op :: rest → R t.tag t.code → M.exec c.shared t.tag ch op =
        some (c'.shared, ops, ts) →
      Q t.tag (ops ++ rest) ∧ ∀ u ∈ ts, Q u.tag u.code)
    (hcall : ∀ a new, m = .env (.call a) →
      M.call c.shared c.threads a = some (c'.shared, new) → ∀ u ∈ new, Q u.tag u.code) :
    ∀ t ∈ c'.threads, Q t.tag t.code := by
  -- the threads that do not move, and the moving one before its move
  have hold : ∀ t ∈ c.threads, Q t.tag t.code := fun t ht => hkeep t ht (hc t ht)
  cases step_cases h with
  -- the moving thread goes on with what its operation has put in its place
  | @access i ch t op rest ops s' ts others hi hperm hcode hop =>
    obtain ⟨hops, hts⟩ := hexec t op i ch rest ops ts rfl (does_of_head hi hcode) hcode
      (hc t (List.mem_of_getElem? hi)) hop
    intro u hu
    rcases List.mem_append.mp hu with hu | hu
    · exact hold u (hperm.mem_iff.mpr (List.mem_cons_of_mem _ hu))
    · rcases List.mem_cons.mp hu with rfl | hu
      · exact hops
      · exact hts u hu
  | finish hi hperm hcode =>
    intro u hu
    exact hold u (hperm.mem_iff.mpr (List.mem_cons_of_mem _ hu))
  | arrive hnew =>
    intro u hu
    rcases List.mem_append.mp hu with hu | hu
    · exact hold u hu
    · exact hcall _ _ rfl hnew u hu

/-- Some thread of the pool has an operation left that meets `φ`. -/
def Has (c : Pool Shared Tag Op) (φ : Tag → Op → Prop) : Prop :=
  ∃ t ∈ c.threads, ∃ op ∈ t.code, φ t.tag op

/-- **Pending until performed.** -/
theorem has_step {φ : Tag → Op → Prop} (hc : Has c φ) (h : M.program.step c m = some c') :
    Has c' φ ∨ ∃ t op, Does ⟨c, m, c'⟩ t op ∧ φ t.tag op := by
  obtain ⟨u, hu, o, ho, hφ⟩ := hc
  cases step_cases h with
  | @access i ch t op rest ops s' ts others hi hperm hcode hop =>
    rcases List.mem_cons.mp (hperm.mem_iff.mp hu) with rfl | hu
    · rcases List.mem_cons.mp (hcode ▸ ho) with rfl | ho
      · exact Or.inr ⟨u, o, does_of_head hi hcode, hφ⟩
      · exact Or.inl ⟨⟨u.tag, ops ++ rest⟩, by simp, o, List.mem_append_right _ ho, hφ⟩
    · exact Or.inl ⟨u, List.mem_append_left _ hu, o, ho, hφ⟩
  | @finish i ch t others hi hperm hcode =>
    rcases List.mem_cons.mp (hperm.mem_iff.mp hu) with rfl | hu
    · rw [hcode] at ho
      exact absurd ho List.not_mem_nil
    · exact Or.inl ⟨u, hu, o, ho, hφ⟩
  | arrive hnew => exact Or.inl ⟨u, List.mem_append_left _ hu, o, ho, hφ⟩

/-- What takes the place of a performed operation is pending. -/
theorem has_of_ops {φ : Tag → Op → Prop} {s' : Shared} {others ts : List (Script Tag Op)}
    {tag : Tag} {ops rest : List Op} {o : Op} (ho : o ∈ ops) (hφ : φ tag o) :
    Has ⟨s', others ++ ⟨tag, ops ++ rest⟩ :: ts⟩ φ :=
  ⟨⟨tag, ops ++ rest⟩, by simp, o, List.mem_append_left _ ho, hφ⟩

/-- Nothing is pending in an empty pool. -/
theorem not_has_of_nil {φ : Tag → Op → Prop} (h : c.threads = []) : ¬ Has c φ := by
  rintro ⟨t, ht, -⟩
  rw [h] at ht
  exact absurd ht List.not_mem_nil

/-! ### Weights of pending operations -/

/-- The weight of a script's pending operations. -/
def codeWeight (w : Tag → Op → ℕ) (tag : Tag) (code : List Op) : ℕ := Config.total (w tag) code

/-- The weight of the pending operations of some threads. -/
def threadsWeight (w : Tag → Op → ℕ) (ts : List (Script Tag Op)) : ℕ :=
  Config.total (fun t => codeWeight w t.tag t.code) ts

/-- The weight of all pending operations of a pool. -/
def weight (w : Tag → Op → ℕ) (c : Pool Shared Tag Op) : ℕ := threadsWeight w c.threads

@[simp] theorem codeWeight_nil (w : Tag → Op → ℕ) (tag : Tag) : codeWeight w tag [] = 0 := rfl

@[simp] theorem codeWeight_cons (w : Tag → Op → ℕ) (tag : Tag) (op : Op) (code : List Op) :
    codeWeight w tag (op :: code) = w tag op + codeWeight w tag code :=
  Config.total_cons _ _ _

/-- The weights of two scripts are added. -/
theorem codeWeight_append (w : Tag → Op → ℕ) (tag : Tag) (ops rest : List Op) :
    codeWeight w tag (ops ++ rest) = codeWeight w tag ops + codeWeight w tag rest :=
  Config.total_append _ _ _

@[simp] theorem threadsWeight_nil (w : Tag → Op → ℕ) :
    threadsWeight w ([] : List (Script Tag Op)) = 0 := rfl

@[simp] theorem threadsWeight_cons (w : Tag → Op → ℕ) (t : Script Tag Op)
    (ts : List (Script Tag Op)) :
    threadsWeight w (t :: ts) = codeWeight w t.tag t.code + threadsWeight w ts :=
  Config.total_cons _ _ _

/-- A pending operation contributes its weight. -/
theorem le_weight {w : Tag → Op → ℕ} {t : Script Tag Op} {op : Op} (ht : t ∈ c.threads)
    (hop : op ∈ t.code) : w t.tag op ≤ weight w c := by
  have hcode : w t.tag op ≤ codeWeight w t.tag t.code := Config.le_total hop
  have hpool := Config.le_total (w := fun t => codeWeight w t.tag t.code) ht
  exact hcode.trans hpool

/-- A positive weight is that of a pending operation. -/
theorem exists_of_weight_pos {w : Tag → Op → ℕ} (h : 0 < weight w c) :
    ∃ t ∈ c.threads, ∃ op ∈ t.code, 0 < w t.tag op := by
  obtain ⟨t, ht, hpos⟩ := Config.exists_of_total_pos h
  exact ⟨t, ht, Config.exists_of_total_pos hpos⟩

/-- The operations of a kind are counted by a weight. -/
theorem codeWeight_pending (p : Op → Bool) (tag : Tag) (code : List Op) :
    codeWeight (fun _ op => (p op).toNat) tag code = code.countP p := by
  induction code with
  | nil => rfl
  | cons op code ih =>
    rw [codeWeight_cons, ih, List.countP_cons]
    cases p op <;> simp [Nat.add_comm]

/-- **Weight of an access.** A performed operation is traded for those that take its place
and those of the threads it starts. -/
theorem weight_access {t : Script Tag Op} {op : Op} {rest ops : List Op} {s' : Shared}
    {ts others : List (Script Tag Op)} (hperm : c.threads.Perm (t :: others))
    (hcode : t.code = op :: rest) (w : Tag → Op → ℕ) :
    weight w ⟨s', others ++ ⟨t.tag, ops ++ rest⟩ :: ts⟩ + w t.tag op =
      weight w c + codeWeight w t.tag ops + threadsWeight w ts := by
  have hmoved : codeWeight w t.tag (ops ++ rest) =
      codeWeight w t.tag ops + codeWeight w t.tag rest :=
    codeWeight_append _ _ _ _
  have hbefore : weight w c = codeWeight w t.tag (op :: rest) + threadsWeight w others := by
    rw [weight, threadsWeight, Config.total_perm _ hperm, Config.total_cons, hcode]
    rfl
  have hafter : weight w ⟨s', others ++ ⟨t.tag, ops ++ rest⟩ :: ts⟩ =
      threadsWeight w others + (codeWeight w t.tag (ops ++ rest) + threadsWeight w ts) := by
    rw [weight, threadsWeight, Config.total_append, Config.total_cons]
    rfl
  rw [codeWeight_cons] at hbefore
  omega

/-- **Weights over a move.** A performed operation is traded for those that take its
place and those of the threads it starts; the end of a thread changes nothing; a call
adds the operations of its threads. -/
theorem weight_step (h : M.program.step c m = some c') :
    (∃ t op ch ops ts, Does ⟨c, m, c'⟩ t op ∧
      M.exec c.shared t.tag ch op = some (c'.shared, ops, ts) ∧
      ∀ w : Tag → Op → ℕ,
        weight w c' + w t.tag op = weight w c + codeWeight w t.tag ops + threadsWeight w ts) ∨
    (∃ tag, c'.shared = M.finish c.shared tag ∧ ∀ w : Tag → Op → ℕ, weight w c' = weight w c) ∨
    (∃ a new, m = .env (.call a) ∧ M.call c.shared c.threads a = some (c'.shared, new) ∧
      ∀ w : Tag → Op → ℕ, weight w c' = weight w c + threadsWeight w new) := by
  cases step_cases h with
  | @access i ch t op rest ops s' ts others hi hperm hcode hop =>
    exact Or.inl ⟨t, op, ch, ops, ts, does_of_head hi hcode, hop, weight_access hperm hcode⟩
  | @finish i ch t others hi hperm hcode =>
    refine Or.inr (Or.inl ⟨t.tag, rfl, fun w => ?_⟩)
    rw [weight, weight, threadsWeight, threadsWeight, Config.total_perm _ hperm,
      Config.total_cons, hcode, codeWeight_nil, Nat.zero_add]
  | @arrive a s' new hnew =>
    exact Or.inr (Or.inr ⟨a, new, rfl, hnew, fun w => Config.total_append _ _ _⟩)

/-! ### Counting pending operations -/

/-- The number of pending operations of some threads that meet `p`. -/
def pendingIn (p : Op → Bool) (ts : List (Script Tag Op)) : ℕ :=
  threadsWeight (fun _ op => (p op).toNat) ts

/-- The number of pending operations that meet `p`. -/
def pending (p : Op → Bool) (c : Pool Shared Tag Op) : ℕ := pendingIn p c.threads

@[simp] theorem pendingIn_nil (p : Op → Bool) : pendingIn p ([] : List (Script Tag Op)) = 0 := rfl

@[simp] theorem pendingIn_cons (p : Op → Bool) (t : Script Tag Op) (ts : List (Script Tag Op)) :
    pendingIn p (t :: ts) = t.code.countP p + pendingIn p ts := by
  rw [pendingIn, threadsWeight_cons, codeWeight_pending]
  rfl

/-- The pending operations are those of all threads. -/
theorem pending_eq_sum (p : Op → Bool) (c : Pool Shared Tag Op) :
    pending p c = (c.threads.map fun t => t.code.countP p).sum :=
  congrArg List.sum (List.map_congr_left fun t _ => codeWeight_pending p t.tag t.code)

/-- An operation is counted. -/
theorem le_pending {p : Op → Bool} {t : Script Tag Op} {op : Op} (ht : t ∈ c.threads)
    (hop : op ∈ t.code) : (p op).toNat ≤ pending p c :=
  le_weight (w := fun _ op => (p op).toNat) ht hop

/-- An operation of a thread is pending. -/
theorem pending_pos {p : Op → Bool} {t : Script Tag Op} {op : Op} (ht : t ∈ c.threads)
    (hop : op ∈ t.code) (hp : p op = true) : 0 < pending p c := by
  have hle := le_pending (p := p) ht hop
  rw [hp] at hle
  exact hle

/-- What is counted is pending. -/
theorem exists_of_pending_pos {p : Op → Bool} (h : 0 < pending p c) :
    ∃ t ∈ c.threads, ∃ op ∈ t.code, p op = true := by
  obtain ⟨t, ht, op, hop, hpos⟩ := exists_of_weight_pos (w := fun _ op => (p op).toNat) h
  exact ⟨t, ht, op, hop, by cases hp : p op <;> simp [hp] at hpos ⊢⟩

/-- A wider kind has more pending operations. -/
theorem pending_mono {p q : Op → Bool} (h : ∀ op, p op = true → q op = true) :
    pending p c ≤ pending q c := by
  refine Config.total_mono fun t _ => Config.total_mono fun op _ => ?_
  show (p op).toNat ≤ (q op).toNat
  cases hp : p op with
  | false => exact Nat.zero_le _
  | true => rw [h op hp]

/-- Operations of two kinds are counted side by side. -/
theorem pending_add_le {p q r : Op → Bool} (h : ∀ op, (p op).toNat + (q op).toNat ≤ (r op).toNat) :
    pending p c + pending q c ≤ pending r c := by
  -- first for the code of one thread
  have hcode : ∀ code : List Op, code.countP p + code.countP q ≤ code.countP r := by
    intro code
    induction code with
    | nil => exact Nat.le_refl 0
    | cons op code ih =>
      have hop := h op
      simp only [List.countP_cons]
      cases hp : p op <;> cases hq : q op <;> cases hr : r op <;>
        simp [hp, hq, hr] at hop ⊢ <;> omega
  unfold pending
  generalize c.threads = ts
  induction ts with
  | nil => exact Nat.le_refl 0
  | cons t ts ih =>
    have ht := hcode t.code
    rw [pendingIn_cons, pendingIn_cons, pendingIn_cons]
    omega

/-- **Pending operations over a move.** -/
theorem pending_step (h : M.program.step c m = some c') :
    (∃ t op ch ops ts, Does ⟨c, m, c'⟩ t op ∧
      M.exec c.shared t.tag ch op = some (c'.shared, ops, ts) ∧
      ∀ p : Op → Bool, (p op).toNat ≤ pending p c ∧
        pending p c' + (p op).toNat = pending p c + ops.countP p + pendingIn p ts) ∨
    (∃ tag, c'.shared = M.finish c.shared tag ∧ ∀ p : Op → Bool, pending p c' = pending p c) ∨
    (∃ a new, m = .env (.call a) ∧ M.call c.shared c.threads a = some (c'.shared, new) ∧
      ∀ p : Op → Bool, pending p c' = pending p c + pendingIn p new) := by
  rcases weight_step h with ⟨t, op, ch, ops, ts, hdoes, hop, hw⟩ | ⟨tag, hs, hw⟩ |
    ⟨a, new, hm, hnew, hw⟩
  · refine Or.inl ⟨t, op, ch, ops, ts, hdoes, hop,
      fun p => ⟨le_pending hdoes.mem.1 hdoes.mem.2, ?_⟩⟩
    rw [← codeWeight_pending p t.tag]
    exact hw fun _ op => (p op).toNat
  · exact Or.inr (Or.inl ⟨tag, hs, fun p => hw fun _ op => (p op).toNat⟩)
  · exact Or.inr (Or.inr ⟨a, new, hm, hnew, fun p => hw fun _ op => (p op).toNat⟩)

/-- **Pending operations over an access**, with the choice it was made with. -/
theorem pending_of_does (h : M.program.step c m = some c') {t : Script Tag Op} {op : Op}
    (hdoes : Does ⟨c, m, c'⟩ t op) :
    ∃ i ch ops ts, m = .thread i (.step ch) ∧
      M.exec c.shared t.tag ch op = some (c'.shared, ops, ts) ∧
      ∀ p : Op → Bool, (p op).toNat ≤ pending p c ∧
        pending p c' + (p op).toNat = pending p c + ops.countP p + pendingIn p ts := by
  obtain ⟨i, ch, rest, ops, s', ts, others, hm, hperm, hcode, hop, rfl⟩ := access_of_does h hdoes
  refine ⟨i, ch, ops, ts, hm, hop, fun p => ⟨le_pending hdoes.mem.1 hdoes.mem.2, ?_⟩⟩
  rw [← codeWeight_pending p t.tag]
  exact weight_access hperm hcode fun _ op => (p op).toNat

end Scripts
end SculkProtocol
