import SculkProtocol.Server.EventSteps

/-!
# The threads of a server

The invariants that the results on callbacks share.

* `Known`: the contexts that operations and queued packets refer to have been inserted,
  and a packet is about the GUID of its context.
* `Shape`: the I/O thread has at most one operation of its own before it returns to
  `Receive`, and a strand task ends with `finishTask`.
* `Threads`: there is one I/O thread, and one running task of a strand. With the shapes
  this says what else is pending: `Threads.io_alone`, `Threads.no_task_of_idle`.
-/

namespace SculkProtocol
namespace ServerEvents

open Scripts Sessions

variable {Guid : Type}

/-- The context a callback is about. -/
def Callback.context : Callback Guid → Context Guid
  | .onConnected x | .onDisconnected x | .onRawPacketReceive x | .onPacketReceive x
  | .onPacketParseFailed x => x

/-- The callbacks that announce a context and report its removal. -/
def Callback.isEvent : Callback Guid → Bool
  | .onConnected _ | .onDisconnected _ => true
  | _ => false

/-- A packet is about the GUID of its context. -/
def Task.About (x : Context Guid) : Task Guid → Prop
  | .packet p => p.guid = x.guid
  | _ => True

/-- What an operation refers to is known. -/
def Op.Sound (inserted : List (Context Guid)) : Op Guid → Prop
  | .enqueue x t => x ∈ inserted ∧ t.About x
  | .call c | .callInPlace c => c.context ∈ inserted ∧ c.isEvent = true
  | .processSessionPacket p x => x ∈ inserted ∧ p.guid = x.guid
  | .eraseContext g (.limit p x) | .eraseContext g (.notice p x) =>
    x ∈ inserted ∧ p.guid = x.guid ∧ g = x.guid
  | .disconnect x | .dispatch x _ | .parse x _ | .finishTask x _ => x ∈ inserted
  | _ => True

/-- Whose operation an operation is. -/
inductive Kind (Guid : Type)
  /-- any thread's -/
  | free
  /-- the I/O thread's -/
  | io
  /-- a task's of the strand of `x` -/
  | task (x : Context Guid)
  | endIo
  | endTask (x : Context Guid)
  deriving DecidableEq

def Op.kind : Op Guid → Kind Guid
  | .processIncomingPacket _ | .upsertSessionContext _ => .io
  | .enqueue _ (.packet _) | .enqueue _ .onConnected => .io
  | .enqueue _ .onDisconnected | .enqueue _ .flush => .free
  | .finishPacket => .endIo
  | .call c => .task c.context
  | .callInPlace (.onDisconnected _) => .free
  | .callInPlace _ => .io
  | .processSessionPacket _ x | .dispatch x _ | .parse x _ => .task x
  | .eraseContext _ (.limit _ x) | .eraseContext _ (.notice _ x) => .task x
  | .eraseContext _ _ | .disconnect _ | .collectContexts | .collectKeys => .free
  | .finishTask x _ => .endTask x

/-- What is left of a thread. -/
inductive Shape : ℕ → List (Op Guid) → Prop
  | user {producer code} : (∀ o ∈ code, o.kind = .free) → Shape producer code
  | io {producer ops} : (∀ o ∈ ops, o.kind = .free) → Shape producer (ops ++ [.finishPacket])
  | stage {op} : op.kind = .io → Shape 0 [op, .finishPacket]
  | task {producer x i ops} : (∀ o ∈ ops, o.kind = .free ∨ o.kind = .task x) →
      Shape producer (ops ++ [.finishTask x i])

/-- What is sound stays so with more contexts. -/
theorem Op.Sound.mono {op : Op Guid} {inserted inserted' : List (Context Guid)}
    (hsub : inserted ⊆ inserted')
    (h : op.Sound inserted) : op.Sound inserted' := by
  cases op with
  | enqueue x t => exact ⟨hsub h.1, h.2⟩
  | processSessionPacket p x => exact ⟨hsub h.1, h.2⟩
  | call x | callInPlace x => exact ⟨hsub h.1, h.2⟩
  | disconnect x | dispatch x | parse x | finishTask x => exact hsub h
  | eraseContext g after =>
    cases after with
    | limit p x | notice p x => exact ⟨hsub h.1, h.2⟩
    | _ => trivial
  | _ => trivial

variable [DecidableEq Guid] {cfg : Settings} {c c' : Server Guid}
  {m : Move (Event Choice (Call Guid))} {s s' : State Guid} {producer : ℕ} {ch : Choice}
  {op : Op Guid} {ops : List (Op Guid)}

/-! ### The registry -/

/-- The effect of an operation on the registry. -/
def Op.onRegistry (r : Registry Guid) : Op Guid → Registry Guid
  | .upsertSessionContext g => r.upsert g
  | .eraseContext g _ => r.erase g
  | .disconnect x => r.setDisconnected x
  | _ => r

/-- A step changes the registry as its operation does. -/
theorem Step.registry (h : Step cfg s producer ch op s' ops) :
    s'.registry = op.onRegistry s.registry := by
  cases h with
  | dispatch hs | parseFailed hs => rcases hs with rfl | rfl <;> rfl
  | _ => simp [Op.onRegistry]

/-- What arrives does not touch the registry. -/
theorem Arrives.registry {t : Thread Guid} (h : Arrives s s' t) : s'.registry = s.registry := by
  cases h <;> rfl

/-- What arrives calls nothing. -/
theorem Arrives.calls {t : Thread Guid} (h : Arrives s s' t) : s'.calls = s.calls := by
  cases h <;> rfl

/-- Every operation keeps the registry well formed. -/
theorem onRegistry_wellFormed {r : Registry Guid} (hr : r.WellFormed) (op : Op Guid) :
    (op.onRegistry r).WellFormed := by
  cases op with
  | upsertSessionContext g => exact hr.onRegistry (.upsertSessionContext g)
  | eraseContext g after => exact hr.onRegistry (.eraseContext g .discard)
  | disconnect x => exact hr.onRegistry (.exchangeConnected x)
  | _ => exact hr

/-- Contexts are never forgotten. -/
theorem inserted_subset_onRegistry (r : Registry Guid) (op : Op Guid) :
    r.inserted ⊆ (op.onRegistry r).inserted := by
  cases op with
  | upsertSessionContext g => exact List.subset_cons_self _ _
  | _ => exact List.Subset.refl _

/-! ### Known contexts -/

/-- The contexts in use are known. -/
structure Known (c : Server Guid) : Prop where
  wellFormed : c.shared.registry.WellFormed
  numbered : ∀ x, (c.shared.strands x).Numbered
  tasks : ∀ x, ∀ t ∈ (c.shared.strands x).tasks, x ∈ c.shared.registry.inserted ∧ t.About x
  ops : ∀ t ∈ c.threads, ∀ op ∈ t.code, op.Sound c.shared.registry.inserted

/-- An entry of the map is a known context of its GUID. -/
theorem entry_known (hr : s.registry.WellFormed) {g : Guid} {x : Context Guid}
    (hx : s.registry.mSessionContexts g = some x) : x ∈ s.registry.inserted ∧ x.guid = g :=
  Registry.newest_mem (hr.newest hx)

/-- What takes the place of an operation refers to what is known. -/
theorem Step.sound (h : Step cfg s producer ch op s' ops) (hr : s.registry.WellFormed)
    (ho : op.Sound s.registry.inserted) : ∀ o ∈ ops, o.Sound s'.registry.inserted := by
  intro o hmem
  cases h with
  | emptyPacket hx =>
    rcases List.mem_pair.mp hmem with rfl | rfl
    · exact (entry_known hr hx).1
    · trivial
  | lookedUp hx =>
    obtain ⟨hins, hguid⟩ := entry_known hr hx
    rw [List.mem_singleton.mp hmem]
    exact ⟨hins, hguid.symm⟩
  | connection => rw [List.mem_singleton.mp hmem]; trivial
  | upsert g =>
    split at hmem
    · rw [List.mem_singleton.mp hmem, recordRemoval_registry]
      exact ⟨List.mem_cons_self, trivial⟩
    · exact absurd hmem List.not_mem_nil
  | @refuse x t hok =>
    rw [deliver_registry]
    cases t with
    | onConnected | onDisconnected => rw [List.mem_singleton.mp hmem]; exact ⟨ho.1, rfl⟩
    | packet | flush => exact absurd hmem List.not_mem_nil
  | limit | notice => rw [List.mem_singleton.mp hmem]; exact ⟨ho.1, ho.2, ho.2⟩
  | batch => rw [List.mem_singleton.mp hmem]; exact ho.1
  | erase g after =>
    rw [recordRemoval_registry]
    -- what was inserted stays, also when the entry goes
    change o.Sound s.registry.inserted
    have hentry : ∀ y, s.registry.mSessionContexts g = some y → y ∈ s.registry.inserted :=
      fun y hy => (entry_known hr hy).1
    cases hremoved : s.registry.mSessionContexts g with
    | none =>
      -- no session was there; after a packet its own is disconnected
      cases after with
      | limit p x | notice p x =>
        rw [hremoved] at hmem
        rw [List.mem_singleton.mp hmem]
        exact ho.1
      | discard | client | teardown => rw [hremoved] at hmem; exact absurd hmem List.not_mem_nil
    | some y =>
      rw [hremoved] at hmem
      cases after with
      | limit p x =>
        rw [List.mem_singleton.mp hmem]
        -- the session that was there is disconnected instead
        exact hentry y hremoved
      | notice | client =>
        rcases List.mem_cons.mp hmem with rfl | hmem
        · exact hentry y hremoved
        · unfold notify at hmem
          split at hmem
          · rw [List.mem_singleton.mp hmem]; exact ⟨hentry y hremoved, trivial⟩
          · exact absurd hmem List.not_mem_nil
      | discard | teardown => exact absurd hmem List.not_mem_nil
  | dispatch hs hops =>
    -- a handler or a queue changes no session
    have hreg : s'.registry = s.registry := by rcases hs with rfl | rfl <;> rfl
    rw [hreg]
    rcases hops with rfl | rfl
    · rw [List.mem_singleton.mp hmem]; exact ho
    · rcases List.mem_pair.mp hmem with rfl | rfl <;> exact ho
  | collectContexts =>
    obtain ⟨x, hx, rfl⟩ := List.mem_map.mp hmem
    exact List.mem_of_mem_filter hx
  | collectKeys =>
    obtain ⟨x, hx, rfl⟩ := List.mem_map.mp hmem
    trivial
  | _ => exact absurd hmem List.not_mem_nil

/-- A strand gets the tasks that are enqueued. -/
theorem Step.tasks (h : Step cfg s producer ch op s' ops) {x : Context Guid} :
    (s'.strands x).tasks = (s.strands x).tasks ∨
      ∃ t, op = .enqueue x t ∧ (s'.strands x).tasks = (s.strands x).tasks ++ [t] := by
  cases h with
  | @accept y t =>
    by_cases hx : x = y
    · subst hx
      exact Or.inr ⟨t, rfl, by simp [Strand.enqueue]⟩
    · exact Or.inl (by simp [hx])
  | finishTask y i =>
    by_cases hx : x = y
    · subst hx
      exact Or.inl (by simp [Strand.finish])
    · exact Or.inl (by simp [hx])
  | dispatch hs | parseFailed hs => rcases hs with rfl | rfl <;> exact Or.inl rfl
  | _ => exact Or.inl (by simp)

/-- A step keeps the strands numbered. -/
theorem Step.numbered (h : Step cfg s producer ch op s' ops) (hs : ∀ x, (s.strands x).Numbered)
    (x : Context Guid) : (s'.strands x).Numbered := by
  cases h with
  | @accept y t =>
    by_cases hx : x = y
    · subst hx
      simpa using (hs x).enqueue producer t
    · simpa [hx] using hs x
  | finishTask y i =>
    by_cases hx : x = y
    · subst hx
      rw [setStrand_strands, Function.update_self]
      exact (hs x).finish i
    · simpa [hx] using hs x
  | dispatch heq | parseFailed heq => rcases heq with rfl | rfl <;> exact hs x
  | _ => simpa using hs x

/-- A server that has just been started knows its contexts. -/
theorem known_initial : Known (system cfg : System (Server Guid) _).init where
  wellFormed := Registry.wellFormed_initial
  numbered _ := Strand.numbered_empty
  tasks _ _ ht := absurd ht List.not_mem_nil
  ops _ ht := absurd ht List.not_mem_nil

/-- A thread that arrives refers to what is known. -/
theorem Arrives.sound {t : Thread Guid} (h : Arrives s s' t)
    (htasks : ∀ x, ∀ u ∈ (s.strands x).tasks, x ∈ s.registry.inserted ∧ u.About x) :
    ∀ o ∈ t.code, o.Sound s.registry.inserted := by
  intro o hmem
  cases h with
  | receive p => rcases List.mem_pair.mp hmem with rfl | rfl <;> trivial
  | @runTask x position u i strand worker hbegin =>
    obtain ⟨-, hget, -⟩ := Strand.begin_inv hbegin
    -- the task was in the queue of the strand
    obtain ⟨hx, habout⟩ := htasks x u (List.mem_of_getElem? hget)
    rcases List.mem_append.mp hmem with hmem | hmem
    · cases u with
      | onConnected | onDisconnected => rw [List.mem_singleton.mp hmem]; exact ⟨hx, rfl⟩
      | packet p => rw [List.mem_singleton.mp hmem]; exact ⟨hx, habout⟩
      | flush => exact absurd hmem List.not_mem_nil
    · rw [List.mem_singleton.mp hmem]; exact hx
  | disconnectClient => rw [List.mem_singleton.mp hmem]; trivial
  | disconnect hx => rw [List.mem_singleton.mp hmem]; exact hx
  | flush producer hx => rw [List.mem_singleton.mp hmem]; exact ⟨hx, trivial⟩
  | stop producer => rcases List.mem_pair.mp hmem with rfl | rfl <;> trivial

/-- What arrives queues nothing. -/
theorem Arrives.tasks {t : Thread Guid} (h : Arrives s s' t) (x : Context Guid) :
    (s'.strands x).tasks = (s.strands x).tasks := by
  cases h with
  | @runTask y position u i strand worker hbegin =>
    obtain ⟨-, -, q, -, rfl⟩ := Strand.begin_inv hbegin
    by_cases hx : x = y
    · subst hx; simp
    · simp [hx]
  | _ => rfl

/-- What arrives keeps the strands numbered. -/
theorem Arrives.numbered {t : Thread Guid} (h : Arrives s s' t)
    (hs : ∀ x, (s.strands x).Numbered) (x : Context Guid) : (s'.strands x).Numbered := by
  cases h with
  | @runTask y position u i strand worker hbegin =>
    by_cases hx : x = y
    · subst hx
      simpa using (hs x).begin hbegin
    · simpa [hx] using hs x
  | _ => exact hs x

/-- **One move** keeps what is known. -/
theorem known_step (hc : Known c) (h : (scripts cfg).program.step c m = some c') : Known c' := by
  have hops : ∀ t ∈ c'.threads, ∀ op ∈ t.code, op.Sound c'.shared.registry.inserted := by
    refine ops_step (R := fun _ op => op.Sound c.shared.registry.inserted)
      (Q := fun _ op => op.Sound c'.shared.registry.inserted) h hc.ops ?_ ?_ ?_
    · intro t _ op _ hsound
      rcases move_cases h with ⟨u, o, i, ch, ops, -, -, hstep, -⟩ | ⟨hs, -⟩ | ⟨u, harr, -⟩
      · exact hsound.mono (hstep.registry ▸ inserted_subset_onRegistry _ o)
      · rwa [hs]
      · rwa [harr.registry]
    · intro t op ch ops ts _ hsound hex
      obtain ⟨hstep, rfl⟩ := exec_inv hex
      exact ⟨hstep.sound hc.wellFormed hsound, fun u hu => absurd hu List.not_mem_nil⟩
    · intro a new _ hnew u hu o ho
      obtain ⟨t, rfl, harr⟩ := call_cases hnew
      obtain rfl := List.mem_singleton.mp hu
      rw [harr.registry]
      exact harr.sound hc.tasks o ho
  rcases move_cases h with ⟨u, op, i, ch, ops, -, hdoes, hstep, -⟩ | ⟨hs, -⟩ | ⟨u, harr, -⟩
  · refine ⟨hstep.registry ▸ onRegistry_wellFormed hc.wellFormed op, hstep.numbered hc.numbered,
      fun x t ht => ?_, hops⟩
    have hsub : c.shared.registry.inserted ⊆ c'.shared.registry.inserted :=
      hstep.registry ▸ inserted_subset_onRegistry _ op
    rcases hstep.tasks (x := x) with htasks | ⟨t', rfl, htasks⟩
    · rw [htasks] at ht
      exact ⟨hsub (hc.tasks x t ht).1, (hc.tasks x t ht).2⟩
    · rw [htasks] at ht
      rcases List.mem_append.mp ht with ht | ht
      · exact ⟨hsub (hc.tasks x t ht).1, (hc.tasks x t ht).2⟩
      · -- the task that was just enqueued
        have hsound := hc.ops u hdoes.mem.1 _ hdoes.mem.2
        rw [List.mem_singleton.mp ht]
        exact ⟨hsub hsound.1, hsound.2⟩
  · refine ⟨?_, ?_, ?_, hops⟩ <;> rw [hs]
    · exact hc.wellFormed
    · exact hc.numbered
    · exact hc.tasks
  · refine ⟨harr.registry ▸ hc.wellFormed, harr.numbered hc.numbered, fun x t ht => ?_, hops⟩
    rw [harr.tasks] at ht
    rw [harr.registry]
    exact hc.tasks x t ht

/-! ### Shapes -/

/-- What a `free` operation unfolds into is free. -/
theorem Step.free (h : Step cfg s producer ch op s' ops) (hk : op.kind = .free) :
    ∀ o ∈ ops, o.kind = .free := by
  intro o hmem
  cases h with
  | erase g after =>
    cases after with
    -- these removals belong to the task of a packet
    | limit | notice => exact absurd hk (by simp [Op.kind])
    | discard | teardown => exact absurd hmem List.not_mem_nil
    | client =>
      simp only [After.next] at hmem
      split at hmem
      · rcases List.mem_cons.mp hmem with rfl | hmem
        · rfl
        · unfold notify at hmem
          split at hmem
          · rw [List.mem_singleton.mp hmem]; rfl
          · exact absurd hmem List.not_mem_nil
      · exact absurd hmem List.not_mem_nil
  | @refuse x t hok =>
    cases t with
    | onConnected | packet => exact absurd hk (by simp [Op.kind])
    | onDisconnected => rw [List.mem_singleton.mp hmem]; rfl
    | flush => exact absurd hmem List.not_mem_nil
  | collectContexts | collectKeys =>
    obtain ⟨x, -, rfl⟩ := List.mem_map.mp hmem
    rfl
  | emptyPacket | connection | lookedUp | upsert | limit | notice | batch | dispatch =>
    exact absurd hk (by simp [Op.kind])
  | _ => exact absurd hmem List.not_mem_nil

/-- The I/O thread goes on with one operation of its own, or with what is free. -/
theorem Step.io (h : Step cfg s producer ch op s' ops) (hk : op.kind = .io) :
    (∃ o, ops = [o] ∧ o.kind = .io) ∨ ∀ o ∈ ops, o.kind = .free := by
  cases h with
  | emptyPacket hx => exact Or.inr (by simp [Op.kind])
  | connection => exact Or.inl ⟨_, rfl, rfl⟩
  | lookedUp hx => exact Or.inl ⟨_, rfl, rfl⟩
  | upsert g =>
    split
    · exact Or.inl ⟨_, rfl, rfl⟩
    · exact Or.inr fun _ ho => absurd ho List.not_mem_nil
  -- a refused `mOnConnected` is called in its place
  | @refuse x t hok =>
    cases t with
    | onConnected => exact Or.inl ⟨_, rfl, rfl⟩
    | packet => exact Or.inr fun _ ho => absurd ho List.not_mem_nil
    | onDisconnected | flush => exact absurd hk (by simp [Op.kind])
  | erase g after => cases after <;> exact absurd hk (by simp [Op.kind])
  | limit | notice | batch | dispatch | collectContexts | collectKeys =>
    exact absurd hk (by simp [Op.kind])
  | _ => exact Or.inr fun _ ho => absurd ho List.not_mem_nil

/-- A strand task goes on with operations of its own and free ones. -/
theorem Step.task (h : Step cfg s producer ch op s' ops) {x : Context Guid}
    (hk : op.kind = .task x) : ∀ o ∈ ops, o.kind = .free ∨ o.kind = .task x := by
  intro o hmem
  cases h with
  | limit | notice | batch =>
    rw [List.mem_singleton.mp hmem]
    exact Or.inr hk
  | erase g after =>
    left
    cases after with
    | limit => rw [List.mem_singleton.mp hmem]; rfl
    -- after the removal the session's end is reported, by an operation that is free
    | notice p y =>
      simp only [After.next] at hmem
      split at hmem
      · rcases List.mem_cons.mp hmem with rfl | hmem
        · rfl
        · unfold notify at hmem
          split at hmem
          · rw [List.mem_singleton.mp hmem]; rfl
          · exact absurd hmem List.not_mem_nil
      · rw [List.mem_singleton.mp hmem]; rfl
    | discard | client | teardown => exact absurd hk (by simp [Op.kind])
  | dispatch _ hops =>
    rcases hops with rfl | rfl
    · rw [List.mem_singleton.mp hmem]
      exact Or.inr hk
    · rcases List.mem_pair.mp hmem with rfl | rfl <;> exact Or.inr hk
  | @refuse y t hok => cases t <;> exact absurd hk (by simp [Op.kind])
  | emptyPacket | connection | lookedUp | upsert | collectContexts | collectKeys =>
    exact absurd hk (by simp [Op.kind])
  | _ => exact absurd hmem List.not_mem_nil

/-- The last operation of a thread is not replaced. -/
theorem Step.last (h : Step cfg s producer ch op s' ops)
    (hk : op.kind = .endIo ∨ ∃ x, op.kind = .endTask x) : ops = [] := by
  cases h with
  | @refuse y t hok => cases t <;> simp [Op.kind] at hk
  | erase g after => cases after <;> simp [Op.kind] at hk
  | emptyPacket | connection | lookedUp | upsert | limit | notice | batch | dispatch
  | collectContexts | collectKeys => simp [Op.kind] at hk
  | _ => rfl

/-- **Shapes.** A step of a thread keeps its shape. -/
theorem Shape.step {rest : List (Op Guid)} (hshape : Shape producer (op :: rest))
    (h : Step cfg s producer ch op s' ops) : Shape producer (ops ++ rest) := by
  -- the first operation is the one that is executed; what follows it keeps its place
  generalize hcode : op :: rest = code at hshape
  cases hshape with
  | user hfree =>
    subst hcode
    refine .user fun o ho => ?_
    rcases List.mem_append.mp ho with ho | ho
    · exact h.free (hfree op List.mem_cons_self) o ho
    · exact hfree o (List.mem_cons_of_mem _ ho)
  | @io _ ops₀ hfree =>
    -- the last operation of a packet ends it
    cases ops₀ with
    | nil =>
      obtain ⟨rfl, rfl⟩ := List.cons.inj hcode
      rw [h.last (Or.inl rfl)]
      exact .user fun _ ho => absurd ho List.not_mem_nil
    | cons o₀ ops₀ =>
      obtain ⟨rfl, rfl⟩ := List.cons.inj hcode
      change Shape producer (ops ++ (ops₀ ++ [.finishPacket]))
      rw [← List.append_assoc]
      refine .io fun o ho => ?_
      rcases List.mem_append.mp ho with ho | ho
      · exact h.free (hfree op List.mem_cons_self) o ho
      · exact hfree o (List.mem_cons_of_mem _ ho)
  | stage hk =>
    obtain ⟨rfl, rfl⟩ := List.cons.inj hcode
    -- the next stage of the packet, or its end
    rcases h.io hk with ⟨o, rfl, ho⟩ | hfree
    · exact .stage ho
    · exact .io hfree
  | @task _ x i ops₀ hops =>
    -- the last operation of a task ends it
    cases ops₀ with
    | nil =>
      obtain ⟨rfl, rfl⟩ := List.cons.inj hcode
      rw [h.last (Or.inr ⟨x, rfl⟩)]
      exact .user fun _ ho => absurd ho List.not_mem_nil
    | cons o₀ ops₀ =>
      obtain ⟨rfl, rfl⟩ := List.cons.inj hcode
      change Shape producer (ops ++ (ops₀ ++ [.finishTask x i]))
      rw [← List.append_assoc]
      refine .task fun o ho => ?_
      rcases List.mem_append.mp ho with ho | ho
      · rcases hops op List.mem_cons_self with hk | hk
        · exact Or.inl (h.free hk o ho)
        · exact h.task hk o ho
      · exact hops o (List.mem_cons_of_mem _ ho)

/-- A thread that arrives has one of the shapes. -/
theorem Arrives.shape {t : Thread Guid} (h : Arrives s s' t) : Shape t.tag t.code := by
  cases h with
  | receive p => exact .stage rfl
  | @runTask x position u i strand worker =>
    refine .task fun o ho => ?_
    cases u with
    | flush => exact absurd ho List.not_mem_nil
    | _ => rw [List.mem_singleton.mp ho]; exact Or.inr rfl
  | disconnectClient | disconnect | flush =>
    exact .user fun o ho => by rw [List.mem_singleton.mp ho]; rfl
  | stop => exact .user fun o ho => by rcases List.mem_pair.mp ho with rfl | rfl <;> rfl

/-! ### One I/O thread, one task of a strand at a time -/

/-- Whether an operation is of a kind. -/
def Op.isOf (k : Kind Guid) (op : Op Guid) : Bool := decide (op.kind = k)

/-- The test of a kind is right. -/
theorem Op.isOf_iff {k : Kind Guid} : op.isOf k = true ↔ op.kind = k := decide_eq_true_iff

/-- No operation unfolds into the last one of a thread. -/
theorem Step.not_last (h : Step cfg s producer ch op s' ops) {k : Kind Guid}
    (hk : k = .endIo ∨ ∃ x, k = .endTask x) : ops.countP (Op.isOf k) = 0 := by
  rw [List.countP_eq_zero]
  intro o ho hisOf
  rw [Op.isOf_iff] at hisOf
  -- by the kind of the operation that unfolds: none of them makes an end
  cases hop : op.kind with
  | free =>
    rw [h.free hop o ho] at hisOf
    rcases hk with rfl | ⟨x, rfl⟩ <;> exact absurd hisOf (by simp)
  | io =>
    rcases h.io hop with ⟨o', rfl, ho'⟩ | hfree
    · rw [List.mem_singleton.mp ho, ho'] at hisOf
      rcases hk with rfl | ⟨x, rfl⟩ <;> exact absurd hisOf (by simp)
    · rw [hfree o ho] at hisOf
      rcases hk with rfl | ⟨x, rfl⟩ <;> exact absurd hisOf (by simp)
  | task y =>
    rcases h.task hop o ho with ho | ho <;> rw [ho] at hisOf <;>
      rcases hk with rfl | ⟨x, rfl⟩ <;> exact absurd hisOf (by simp)
  | endIo =>
    rw [h.last (Or.inl hop)] at ho
    exact absurd ho List.not_mem_nil
  | endTask x =>
    rw [h.last (Or.inr ⟨x, hop⟩)] at ho
    exact absurd ho List.not_mem_nil

/-- The I/O thread is done with a packet at its last operation. -/
theorem Step.ioBusy (h : Step cfg s producer ch op s' ops) :
    s'.ioBusy = if op.kind = .endIo then false else s.ioBusy := by
  cases h with
  | @accept x t => cases t <;> simp [Op.kind]
  | @refuse x t hok => cases t <;> simp [Op.kind]
  | callInPlace c => cases c <;> simp [Op.kind]
  | erase g after => cases after <;> simp [Op.kind]
  | dispatch hs | parseFailed hs => rcases hs with rfl | rfl <;> simp [Op.kind]
  | _ => simp [Op.kind]

/-- The task of a strand ends at its last operation. -/
theorem Step.running (h : Step cfg s producer ch op s' ops) (x : Context Guid) :
    (s'.strands x).running = if op.kind = .endTask x then none else (s.strands x).running := by
  cases h with
  | @accept y t =>
    by_cases hx : x = y
    · subst hx; cases t <;> simp [Op.kind, Strand.enqueue]
    · cases t <;> simp [Op.kind, hx]
  | @refuse y t hok => cases t <;> simp [Op.kind]
  | callInPlace c => cases c <;> simp [Op.kind]
  | erase g after => cases after <;> simp [Op.kind]
  | dispatch hs | parseFailed hs => rcases hs with rfl | rfl <;> simp [Op.kind]
  | finishTask y i =>
    by_cases hx : x = y
    · subst hx; simp [Op.kind, Strand.finish]
    · simp [Op.kind, hx, Ne.symm hx]
  | _ => simp [Op.kind]

/-- The I/O thread begins with a packet when it is not busy. -/
theorem Arrives.ioBusy {t : Thread Guid} (h : Arrives s s' t) :
    s'.ioBusy.toNat = s.ioBusy.toNat + t.code.countP (Op.isOf .endIo) := by
  cases h with
  | receive p hidle => rw [hidle]; rfl
  | @runTask y position u i strand worker => cases u <;> simp [Task.code, Op.isOf, Op.kind]
  | _ => rfl

/-- A task begins when none of its strand is running. -/
theorem Arrives.running {t : Thread Guid} (h : Arrives s s' t) (x : Context Guid) :
    (s'.strands x).running.isSome.toNat =
      (s.strands x).running.isSome.toNat + t.code.countP (Op.isOf (.endTask x)) := by
  cases h with
  | @runTask y position u i strand worker hbegin =>
    obtain ⟨hidle, -, q, -, rfl⟩ := Strand.begin_inv hbegin
    by_cases hx : x = y
    · subst hx
      cases u <;> simp [Task.code, Op.isOf, Op.kind, hidle]
    · cases u <;> simp [Task.code, Op.isOf, Op.kind, hx, Ne.symm hx]
  | _ => rfl

/-- The invariants of a server's threads. -/
structure Threads (c : Server Guid) : Prop where
  known : Known c
  shapes : ∀ t ∈ c.threads, Shape t.tag t.code
  /-- there is one I/O thread -/
  io : pending (Op.isOf .endIo) c = c.shared.ioBusy.toNat
  /-- there is one task of a strand at a time -/
  tasks : ∀ x, pending (Op.isOf (.endTask x)) c = (c.shared.strands x).running.isSome.toNat

/-- A server that has just been started has no threads. -/
theorem threads_initial : Threads (system cfg : System (Server Guid) _).init where
  known := known_initial
  shapes _ ht := absurd ht List.not_mem_nil
  io := rfl
  tasks _ := rfl

/-- Every thread keeps its shape. -/
theorem shapes_step (hc : ∀ t ∈ c.threads, Shape t.tag t.code)
    (h : (scripts cfg).program.step c m = some c') : ∀ t ∈ c'.threads, Shape t.tag t.code := by
  refine codes_step (R := Shape) (Q := Shape) h hc (fun _ _ ht => ht) ?_ ?_
  · intro t op i ch rest ops ts _ _ hcode hshape hex
    obtain ⟨hstep, rfl⟩ := exec_inv hex
    exact ⟨(hcode ▸ hshape : Shape t.tag (op :: rest)).step hstep,
      fun u hu => absurd hu List.not_mem_nil⟩
  · intro a new _ hnew u hu
    obtain ⟨t, rfl, harr⟩ := call_cases hnew
    obtain rfl := List.mem_singleton.mp hu
    exact harr.shape

/-- **One move** keeps the invariants of the threads. -/
theorem threads_step (hc : Threads c) (h : (scripts cfg).program.step c m = some c') :
    Threads c' := by
  refine ⟨known_step hc.known h, shapes_step hc.shapes h, ?_, fun x => ?_⟩
  · have hold := hc.io
    rcases move_cases h with ⟨t, op, i, ch, ops, -, -, hstep, hp⟩ | ⟨hs, hp⟩ | ⟨t, harr, hp⟩
    · obtain ⟨hle, hpool⟩ := hp (Op.isOf .endIo)
      rw [hstep.not_last (Or.inl rfl)] at hpool
      rw [hstep.ioBusy]
      by_cases hop : op.kind = .endIo
      · -- the thread returns: it was busy
        rw [Op.isOf_iff.mpr hop] at hle hpool
        rw [if_pos hop]
        have : c.shared.ioBusy.toNat ≤ 1 := Bool.toNat_le _
        simp only [Bool.toNat_true, Bool.toNat_false] at hle hpool ⊢
        omega
      · rw [show op.isOf .endIo = false from decide_eq_false hop] at hpool
        rw [if_neg hop]
        simp only [Bool.toNat_false] at hpool
        omega
    · rw [hs, hp, hold]
    · rw [hp, hold, harr.ioBusy]
  · have hold := hc.tasks x
    rcases move_cases h with ⟨t, op, i, ch, ops, -, -, hstep, hp⟩ | ⟨hs, hp⟩ | ⟨t, harr, hp⟩
    · obtain ⟨hle, hpool⟩ := hp (Op.isOf (.endTask x))
      rw [hstep.not_last (Or.inr ⟨x, rfl⟩)] at hpool
      rw [hstep.running x]
      by_cases hop : op.kind = .endTask x
      · -- the task ends: it was running
        rw [Op.isOf_iff.mpr hop] at hle hpool
        rw [if_pos hop]
        have : (c.shared.strands x).running.isSome.toNat ≤ 1 := Bool.toNat_le _
        simp only [Bool.toNat_true, Option.isSome_none, Bool.toNat_false] at hle hpool ⊢
        omega
      · rw [show op.isOf (.endTask x) = false from decide_eq_false hop] at hpool
        rw [if_neg hop]
        simp only [Bool.toNat_false] at hpool
        omega
    · rw [hs, hp, hold]
    · rw [hp, hold, harr.running]

/-! ### What else is pending -/

omit [DecidableEq Guid] in
/-- The I/O thread is producer 0. -/
theorem Shape.io_producer {rest : List (Op Guid)} (h : Shape producer (op :: rest))
    (hk : op.kind = .io) : producer = 0 := by
  generalize hcode : op :: rest = code at h
  cases h with
  -- a user's thread has free operations only
  | user hfree =>
    subst hcode
    exact absurd (hk.symm.trans (hfree op List.mem_cons_self)) nofun
  | stage => rfl
  | @io _ ops hfree =>
    cases ops with
    | nil =>
      obtain ⟨rfl, -⟩ := List.cons.inj hcode
      exact absurd hk nofun
    | cons o ops =>
      obtain ⟨rfl, -⟩ := List.cons.inj hcode
      exact absurd (hk.symm.trans (hfree op List.mem_cons_self)) nofun
  -- a task's operations are free, or of its own kind
  | @task _ y i ops hops =>
    cases ops with
    | nil =>
      obtain ⟨rfl, -⟩ := List.cons.inj hcode
      exact absurd hk nofun
    | cons o ops =>
      obtain ⟨rfl, -⟩ := List.cons.inj hcode
      rcases hops op List.mem_cons_self with hfree | htask
      · exact absurd (hk.symm.trans hfree) nofun
      · exact absurd (hk.symm.trans htask) nofun

omit [DecidableEq Guid] in
/-- Nothing follows the end of a task. -/
theorem Shape.nil_of_last {rest : List (Op Guid)} (h : Shape producer (op :: rest))
    {x : Context Guid} (hk : op.kind = .endTask x) : rest = [] := by
  generalize hcode : op :: rest = code at h
  cases h with
  | user hfree =>
    subst hcode
    exact absurd (hk.symm.trans (hfree op List.mem_cons_self)) (by simp)
  | @io _ ops hfree =>
    cases ops with
    | nil => exact (List.cons.inj hcode).2
    | cons o ops =>
      obtain ⟨rfl, -⟩ := List.cons.inj hcode
      exact absurd (hk.symm.trans (hfree op List.mem_cons_self)) (by simp)
  | stage hio =>
    obtain ⟨rfl, -⟩ := List.cons.inj hcode
    exact absurd (hk.symm.trans hio) (by simp)
  -- the end of a task is behind all of its operations
  | @task _ y i ops hops =>
    cases ops with
    | nil => exact (List.cons.inj hcode).2
    | cons o ops =>
      obtain ⟨rfl, -⟩ := List.cons.inj hcode
      rcases hops op List.mem_cons_self with hfree | htask
      · exact absurd (hk.symm.trans hfree) (by simp)
      · exact absurd (hk.symm.trans htask) (by simp)

end ServerEvents
end SculkProtocol
