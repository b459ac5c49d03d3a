import SculkProtocol.Session.ThreadSteps

/-!
# Disconnecting a session

`disconnect` clears `mConnected` and then empties both queues under both mutexes. A producer
that found the session connected is still under its mutex when it pushes, so it has pushed
before `disconnect` has the mutex, or it tests `mConnected` afterwards. When the first call of
`disconnect` releases a mutex, the session is `Dead`: it is not connected, its queues are empty,
and no producer is about to push. A dead session stays dead (`Dead.step`).

The exchange hands the right to close the connection to one call, `closing` counts it.
-/

namespace SculkProtocol
namespace Session
namespace Threads

open Scripts

namespace Stage

/-- The mutex of `q` is held. -/
def holds (q : Queue) : Stage → Bool
  | .inside q' | .pushing q' | .half q' _ | .leaving q' _ => q' = q
  | .draining _ _ | .drained _ => true
  | _ => false

def pushes (q : Queue) : Stage → Bool
  | .pushing q' => q' = q
  | _ => false

/-- `disconnect`, up to its end of the second mutex's block -/
def disconnects : Stage → Bool
  | .waiting _ | .half _ _ | .draining _ _ | .drained _ => true
  | _ => false

/-- `disconnect` has found `q` empty and has its mutex since. -/
def cleared (q : Queue) : Stage → Bool
  | .draining .inbound _ => q = .outbound
  | .drained _ => true
  | _ => false

/-- `disconnect` has emptied the queues and released a mutex. -/
def finished : Stage → Bool
  | .leaving _ _ | .closing | .left => true
  | _ => false

/-- `disconnect` is to close the connection. -/
def closes : Stage → Bool
  | .waiting was | .half _ was | .draining _ was | .drained was | .leaving _ was => was
  | .closing => true
  | _ => false

end Stage

variable {E : Evp} {L : Codecs} {c c' : Pool} {m : Move (Event Choice Method)}

/-- Nothing is in the queues, and nothing will be. -/
structure Dead (c : Pool) : Prop where
  disconnected : c.shared.session.mConnected = false
  empty : ∀ q, c.shared.packets q = []
  pushes : ∀ q, inStage (Stage.pushes q) c = 0

/-! ### Mutual exclusion -/

/-- Taking a free lock counts one holder more. -/
theorem locked_lock {s : State} {q' : Queue} (hfree : s.locked q' = false) (q : Queue) :
    ((s.setLocked true q').locked q).toNat = (s.locked q).toNat + (decide (q' = q)).toNat := by
  rw [State.locked_setLocked]
  by_cases heq : q = q'
  · rw [if_pos heq, heq, hfree, decide_eq_true rfl]
    rfl
  · rw [if_neg heq, decide_eq_false (Ne.symm heq)]
    rfl

/-- Giving a lock back counts one less. -/
theorem locked_unlock {s : State} {q' : Queue} (hheld : s.locked q' = true) (q : Queue) :
    ((s.setLocked false q').locked q).toNat + (decide (q' = q)).toNat = (s.locked q).toNat := by
  rw [State.locked_setLocked]
  by_cases heq : q = q'
  · rw [if_pos heq, heq, hheld, decide_eq_true rfl]
    rfl
  · rw [if_neg heq, decide_eq_false (Ne.symm heq)]
    rfl

/-- There are two queues. -/
theorem Queue.toNat_add_other (q' q : Queue) :
    (decide (q' = q)).toNat + (decide (q'.other = q)).toNat = 1 := by
  cases q' <;> cases q <;> rfl

/-- A step trades the mutexes its thread holds. -/
theorem Steps.balance {s s' : State} {x : Stage} {next : Option Stage} (h : Steps s x s' next)
    (hheld : ∀ q, x.holds q = true → s.locked q = true) (q : Queue) :
    (s'.locked q).toNat + (x.holds q).toNat =
      (s.locked q).toNat + next.elim 0 fun y => (y.holds q).toNat := by
  cases h with
  | quiet hsame => rw [hsame.locked]; rfl
  | ret hsame => rw [hsame.locked]; rfl
  | lock hfree => exact locked_lock hfree q
  | lockFirst hfree => exact locked_lock hfree q
  | @lockOther q' was hfree =>
    have hlock := locked_lock hfree q
    -- both mutexes are held from here
    have hboth := Queue.toNat_add_other q' q
    show _ + (decide (q' = q)).toNat = _ + 1
    omega
  | @unlock q' => exact locked_unlock (hheld q' (decide_eq_true rfl)) q
  | @giveUp q' was => exact locked_unlock (hheld q' (decide_eq_true rfl)) q
  | @unlockFirst q' was =>
    have hunlock := locked_unlock (hheld q' rfl) q
    have hboth := Queue.toNat_add_other q' q
    show _ + 1 = _ + (decide (q'.other = q)).toNat
    omega
  | @unlockLast q' was =>
    have hunlock := locked_unlock (hheld q' (decide_eq_true rfl)) q
    cases was <;> exact hunlock
  | push | take | drain => rw [State.locked_setPackets]; rfl
  | close | leave => rw [State.locked_record]; rfl
  | exchange => cases q <;> rfl
  | allow | drainedOutbound | drainedInbound | detached => rfl

/-- **Mutual exclusion.** -/
def Exclusive (c : Pool) : Prop := ∀ q, inStage (Stage.holds q) c = (c.shared.locked q).toNat

/-- One thread at most holds a lock. -/
theorem Exclusive.le_one (hc : Exclusive c) (q : Queue) : inStage (Stage.holds q) c ≤ 1 := by
  rw [hc q]
  exact Bool.toNat_le _

/-- So it is after every step. -/
theorem Exclusive.step (hc : Exclusive c) (h : (scripts E L).program.step c m = some c') :
    Exclusive c' := by
  intro q
  have hq := hc q
  rcases step_cases h with ⟨x, next, hsteps, hcount⟩ | ⟨hshared, hsame⟩ | ⟨caller, hshared, hcall⟩
  · have hheld : ∀ q, x.holds q = true → c.shared.locked q = true := by
      intro q hx
      have hle := (hcount (Stage.holds q)).1
      rw [hx, hc q] at hle
      exact Bool.toNat_eq_one.mp (Nat.le_antisymm (Bool.toNat_le _) hle)
    have hbalance := hsteps.balance hheld q
    have hmoved := (hcount (Stage.holds q)).2
    omega
  · rw [hsame, hshared]
    exact hq
  · rw [hcall, hshared, State.locked_record]
    exact hq

/-- What holds both mutexes excludes a push. -/
theorem Exclusive.no_push (hc : Exclusive c) {q : Queue} {p : Stage → Bool} (hpos : 0 < inStage p c)
    (hp : ∀ x, p x = true → x.holds q = true ∧ x.pushes q = false) :
    inStage (Stage.pushes q) c = 0 := by
  have hadd : inStage p c + inStage (Stage.pushes q) c ≤ inStage (Stage.holds q) c := by
    refine inStage_add_le fun x => ?_
    cases hx : p x with
    | true =>
      rw [(hp x hx).1, (hp x hx).2]
      exact Nat.le_refl _
    | false =>
      cases x with
      | pushing q' => exact Nat.le_of_eq (Nat.zero_add _)
      | _ => exact Nat.zero_le _
  have hone := hc.le_one q
  omega

/-! ### The single steps -/

section Steps

variable {s s' : State} {x : Stage} {next : Option Stage}

/-- No step connects a session again. -/
theorem Steps.disconnected (h : Steps s x s' next) (hs : s.session.mConnected = false) :
    s'.session.mConnected = false := by
  cases h with
  | quiet hsame => exact hsame.connected.trans hs
  | ret hsame => exact hsame.connected.trans hs
  | exchange => rfl
  | allow | drainedOutbound | drainedInbound | detached | close | leave => exact hs
  | lock | unlock | lockFirst | giveUp | lockOther | unlockFirst | unlockLast =>
    rw [State.connected_setLocked, hs]
  | push | take | drain => rw [State.connected_setPackets, hs]

/-- An empty queue is filled by a push only. -/
theorem Steps.empty (h : Steps s x s' next) {q : Queue} (hx : x.pushes q = false)
    (hs : s.packets q = []) : s'.packets q = [] := by
  cases h with
  | quiet hsame => exact (hsame.packets q).trans hs
  | ret hsame => exact (hsame.packets q).trans hs
  | exchange => cases q <;> exact hs
  | allow | drainedOutbound | drainedInbound | detached => exact hs
  | close | leave => rw [State.packets_record, hs]
  | lock | unlock | lockFirst | giveUp | lockOther | unlockFirst | unlockLast =>
    rw [State.packets_setLocked, hs]
  | @push q' buffer => rw [State.packets_setPackets, if_neg (Ne.symm (of_decide_eq_false hx)), hs]
  -- what is taken from an empty queue is nothing, and so is what is left
  | @take q' taken rest htaken =>
    rw [State.packets_setPackets]
    split
    · next heq =>
      rw [← heq, hs] at htaken
      exact (List.append_eq_nil_iff.mp htaken.symm).2
    · exact hs
  | @drain q' was packet rest hpackets =>
    rw [State.packets_setPackets]
    split
    · next heq =>
      rw [← heq, hs] at hpackets
      exact nomatch hpackets
    · exact hs

/-- The right to close the connection is handed on, and used once. -/
theorem Steps.closing (h : Steps s x s' next) :
    s'.closes + (next.elim 0 fun y => y.closes.toNat) + s'.session.mConnected.toNat ≤
      s.closes + x.closes.toNat + s.session.mConnected.toNat := by
  cases h with
  | quiet hsame => rw [hsame.closes, hsame.connected]; exact Nat.le_refl _
  | ret hsame => rw [hsame.closes, hsame.connected]; exact Nat.le_refl _
  | exchange => exact Nat.le_refl _
  | allow | drainedOutbound | drainedInbound => exact Nat.le_refl _
  | detached => exact Nat.add_le_add_right (Nat.le_add_right _ _) _
  | lock | unlock | lockFirst | giveUp | lockOther | unlockFirst =>
    simp [State.closes, Stage.closes]
  | push | take | drain => simp [State.closes, Stage.closes]
  | @unlockLast q was => cases was <;> simp [State.closes, Stage.closes]
  | close => rw [State.closes_record]; simp [Stage.closes]
  | leave => rw [State.closes_record]; simp [Stage.closes]

/-- The session is disconnected before `disconnect` waits for a mutex. -/
theorem Steps.disconnects {y : Stage} (h : Steps s x s' (some y)) (hy : y.disconnects = true) :
    x.disconnects = true ∨ s'.session.mConnected = false := by
  cases h with
  | quiet => exact Or.inl hy
  | exchange => exact Or.inr rfl
  | @unlockLast q was => cases was <;> exact nomatch hy
  | lockFirst | giveUp | lockOther | drain | drainedOutbound | drainedInbound => exact Or.inl rfl
  | _ => exact nomatch hy

/-- A queue that counts as cleared was so before, or is empty. -/
theorem Steps.cleared {y : Stage} {q : Queue} (h : Steps s x s' (some y))
    (hy : y.cleared q = true) :
    x.cleared q = true ∨ s'.packets q = [] := by
  cases h with
  | quiet => exact Or.inl hy
  | drainedOutbound hpackets => exact Or.inr (of_decide_eq_true hy ▸ hpackets)
  | drainedInbound hpackets =>
    cases q with
    | inbound => exact Or.inr hpackets
    | outbound => exact Or.inl rfl
  | @drain q' was =>
    cases q' with
    | inbound => exact Or.inl hy
    | outbound => exact nomatch hy
  | @unlockLast q was => cases was <;> exact nomatch hy
  | _ => exact nomatch hy

/-- A caller that is finished was so before, or has drained the other queue. -/
theorem Steps.finished {y : Stage} (h : Steps s x s' (some y)) (hy : y.finished = true) :
    x.finished = true ∨ ∃ was, x = .drained was := by
  cases h with
  | quiet => exact Or.inl hy
  | unlockFirst => exact Or.inr ⟨_, rfl⟩
  | unlockLast | close | detached => exact Or.inl rfl
  | _ => exact nomatch hy

/-- Once `disconnect` has returned, it had, or does so now. -/
theorem Steps.returned (h : Steps s x s' next) (hs' : s'.Returned) :
    s.Returned ∨ x.finished = true := by
  cases h with
  | quiet hsame => exact Or.inl (hsame.returned hs')
  | ret hsame => exact Or.inl (hsame.returned hs')
  | leave => exact Or.inr rfl
  | close =>
    exact Or.inl ((State.returned_record hs').resolve_right fun ⟨_, heq⟩ => nomatch heq)
  | exchange | allow | drainedOutbound | drainedInbound | detached => exact Or.inl hs'
  | lock | unlock | lockFirst | giveUp | lockOther | unlockFirst | unlockLast =>
    exact Or.inl (by simpa [State.Returned] using hs')
  | push | take | drain => exact Or.inl (by simpa [State.Returned] using hs')

/-- Nothing is about to be pushed that was not before the end. -/
theorem Steps.pushes {y : Stage} {q : Queue} (h : Steps s x s' (some y)) (hy : y.pushes q = true)
    (hs : s.session.mConnected = false) : x.pushes q = true := by
  cases h with
  | quiet => exact hy
  | allow hconnected => exact absurd (hconnected.symm.trans hs) nofun
  | @unlockLast q was => cases was <;> exact nomatch hy
  | _ => exact nomatch hy

end Steps

/-! ### Every reachable state -/

/-- A stage that is reached was occupied before, or the moving thread has come to it. -/
theorem inStage_fresh {p : Stage → Bool} {x : Stage} {next : Option Stage}
    (hcount : inStage p c' + (p x).toNat = inStage p c + next.elim 0 fun y => (p y).toNat)
    (hpos : 0 < inStage p c') : 0 < inStage p c ∨ ∃ y, next = some y ∧ p y = true := by
  cases next with
  | none =>
    have hle : inStage p c' + (p x).toNat = inStage p c := hcount
    exact Or.inl (by omega)
  | some y =>
    cases hy : p y with
    | true => exact Or.inr ⟨y, rfl, hy⟩
    | false =>
      have hle : inStage p c' + (p x).toNat = inStage p c + (p y).toNat := hcount
      rw [hy] at hle
      exact Or.inl (by simp at hle; omega)

/-- **A dead session stays dead.** -/
theorem Dead.step (hc : Dead c) (h : (scripts E L).program.step c m = some c') : Dead c' := by
  rcases step_cases h with ⟨x, next, hsteps, hcount⟩ | ⟨hshared, hsame⟩ | ⟨caller, hshared, hcall⟩
  · -- no thread is about to push, so the step is no push
    have hx : ∀ q, x.pushes q = false := by
      intro q
      have hle := (hcount (Stage.pushes q)).1
      rw [hc.pushes q] at hle
      exact Bool.toNat_eq_zero.mp (Nat.le_zero.mp hle)
    refine ⟨hsteps.disconnected hc.disconnected, fun q => hsteps.empty (hx q) (hc.empty q), ?_⟩
    intro q
    -- a thread that is about to push anew would have found the session connected
    by_contra hne
    rcases inStage_fresh (hcount (Stage.pushes q)).2 (Nat.pos_of_ne_zero hne) with
      hpos | ⟨y, rfl, hy⟩
    · exact absurd (hc.pushes q) (Nat.ne_of_gt hpos)
    · exact absurd ((hsteps.pushes hy hc.disconnected).symm.trans (hx q)) nofun
  · exact ⟨hshared ▸ hc.disconnected, hshared ▸ hc.empty, fun q => (hsame _).trans (hc.pushes q)⟩
  · refine ⟨?_, fun q => ?_, fun q => (hcall _).trans (hc.pushes q)⟩
    · rw [hshared, State.connected_record]
      exact hc.disconnected
    · rw [hshared, State.packets_record]
      exact hc.empty q

/-- What holds of a session at every split of its calls. -/
structure Invariant (c : Pool) : Prop where
  exclusive : Exclusive c
  /-- the connection is closed at most once, and not while the session is connected -/
  closing : c.shared.closes + inStage Stage.closes c + c.shared.session.mConnected.toNat ≤ 1
  disconnects : 0 < inStage Stage.disconnects c → c.shared.session.mConnected = false
  cleared : ∀ q, 0 < inStage (Stage.cleared q) c → c.shared.packets q = []
  dead : 0 < inStage Stage.finished c ∨ c.shared.Returned → Dead c

/-- **`disconnect` leaves a dead session.** When it has emptied both queues, under both
mutexes, no producer is behind its test of `mConnected`. -/
theorem Invariant.dead_of_drained (hc : Invariant c) {was : Bool}
    (hpos : 0 < inStage (· = .drained was) c) :
    Dead c := by
  have hmono : ∀ {p : Stage → Bool}, p (.drained was) = true → 0 < inStage p c := by
    intro p hp
    refine Nat.lt_of_lt_of_le hpos (pending_mono fun op hop => ?_)
    rw [of_decide_eq_true hop]
    exact hp
  refine ⟨hc.disconnects (hmono rfl), fun q => hc.cleared q (hmono rfl), fun q => ?_⟩
  refine hc.exclusive.no_push hpos fun x hx => ?_
  rw [of_decide_eq_true hx]
  exact ⟨rfl, rfl⟩

/-- Every step keeps the invariant. -/
theorem Invariant.step (hc : Invariant c) (h : (scripts E L).program.step c m = some c') :
    Invariant c' := by
  have hexclusive := hc.exclusive.step h
  have hdead : Dead c → Dead c' := fun hdead => hdead.step h
  rcases step_cases h with ⟨x, next, hsteps, hcount⟩ | ⟨hshared, hsame⟩ | ⟨caller, hshared, hcall⟩
  · -- a stage that the moving thread is in is occupied
    have hin : ∀ {p : Stage → Bool}, p x = true → 0 < inStage p c := by
      intro p hx
      have hle := (hcount p).1
      rw [hx] at hle
      exact hle
    refine ⟨hexclusive, ?_, fun hpos => ?_, fun q hpos => ?_, fun hover => hdead ?_⟩
    · -- who has taken the flag down closes the connection, and the flag falls once
      have hclosing := hsteps.closing
      have hmoved := (hcount Stage.closes).2
      have hone := hc.closing
      omega
    · -- who disconnects has seen the flag fall
      rcases inStage_fresh (hcount Stage.disconnects).2 hpos with hpos | ⟨y, rfl, hy⟩
      · exact hsteps.disconnected (hc.disconnects hpos)
      · rcases hsteps.disconnects hy with hx | hdisconnected
        · exact hsteps.disconnected (hc.disconnects (hin hx))
        · exact hdisconnected
    · -- while `q` is cleared, nobody else is under its mutex
      have hempty : 0 < inStage (Stage.cleared q) c → c'.shared.packets q = [] := by
        intro hpos
        refine hsteps.empty ?_ (hc.cleared q hpos)
        have hnone := hc.exclusive.no_push (q := q) hpos fun y hy => by
          cases y with
          | draining q' was => exact ⟨rfl, rfl⟩
          | drained was => exact ⟨rfl, rfl⟩
          | _ => exact nomatch hy
        have hle := (hcount (Stage.pushes q)).1
        rw [hnone] at hle
        exact Bool.toNat_eq_zero.mp (Nat.le_zero.mp hle)
      rcases inStage_fresh (hcount (Stage.cleared q)).2 hpos with hpos | ⟨y, rfl, hy⟩
      · exact hempty hpos
      · rcases hsteps.cleared hy with hx | hcleared
        · exact hempty (hin hx)
        · exact hcleared
    · -- `disconnect` is over once both queues were drained
      rcases hover with hpos | hreturned
      · rcases inStage_fresh (hcount Stage.finished).2 hpos with hpos | ⟨y, rfl, hy⟩
        · exact hc.dead (Or.inl hpos)
        · rcases hsteps.finished hy with hx | ⟨was, rfl⟩
          · exact hc.dead (Or.inl (hin hx))
          · exact hc.dead_of_drained (hin (decide_eq_true rfl))
      · rcases hsteps.returned hreturned with hreturned | hx
        · exact hc.dead (Or.inr hreturned)
        · exact hc.dead (Or.inl (hin hx))
  · -- a thread that ends changes nothing
    refine ⟨hexclusive, ?_, ?_, fun q => ?_, fun hover => hdead (hc.dead ?_)⟩
    · rw [hshared, hsame]
      exact hc.closing
    · rw [hshared, hsame]
      exact hc.disconnects
    · rw [hshared, hsame]
      exact hc.cleared q
    · rw [hshared, hsame] at hover
      exact hover
  · -- a call that arrives is only recorded
    refine ⟨hexclusive, ?_, ?_, fun q => ?_, fun hover => hdead (hc.dead ?_)⟩
    · rw [hshared, hcall, State.closes_record]
      exact hc.closing
    · rw [hshared, hcall]
      exact hc.disconnects
    · rw [hshared, hcall, State.packets_record]
      exact hc.cleared q
    · rw [hshared, hcall] at hover
      exact hover.imp_right fun hreturned =>
        (State.returned_record hreturned).resolve_right fun ⟨_, heq⟩ => nomatch heq

/-- A session that nobody has used has the invariant. -/
theorem invariant_initial (session : Sender) (inbound : List Bytes) :
    Invariant (system E L session inbound).init where
  exclusive q := by cases q <;> rfl
  closing := (Nat.zero_add _).symm ▸ Bool.toNat_le session.mConnected
  disconnects hpos := absurd hpos (Nat.lt_irrefl 0)
  cleared q hpos := absurd hpos (Nat.lt_irrefl 0)
  dead hover := by
    rcases hover with hpos | ⟨caller, hmem⟩
    · exact absurd hpos (Nat.lt_irrefl 0)
    · exact absurd hmem List.not_mem_nil

/-! ### Calls after the first return -/

/-- A call of `disconnect` has returned within the first `i` entries. -/
def Late (log : List Entry) (i : ℕ) : Prop := ∃ caller, .disconnected caller ∈ log.take i

/-- What was late stays late. -/
theorem late_append {log entries : List Entry} {i : ℕ} (hi : i ≤ log.length) :
    Late (log ++ entries) i ↔ Late log i := by
  rw [Late, Late, List.take_append_of_le_length hi]

/-- The program points of a producer that will return false. -/
def Op.Refuses : Op → Prop
  | .enter method => method.produces ≠ none
  | .loadConnected _ _ | .unlock _ (.bool false) | .ret (.bool false) => True
  | _ => False

/-- A call has the place of its first entry as its number, and a producer that was called
after a return of `disconnect` has returned false. -/
structure Orderly (log : List Entry) : Prop where
  started : ∀ i caller, log[i]? = some (Entry.started caller) → caller.id = i
  returned : ∀ caller r, Entry.returned caller r ∈ log → caller.id ≤ log.length
  refused : ∀ caller r, Entry.returned caller r ∈ log → caller.method.produces ≠ none →
    Late log caller.id → r = .bool false

/-- One entry more keeps the log orderly. -/
theorem Orderly.append {log : List Entry} {entry : Entry} (h : Orderly log)
    (hstarted : ∀ p, entry = .started p → p.id = log.length)
    (hreturned : ∀ p r, entry = .returned p r →
      p.id ≤ log.length ∧ (p.method.produces ≠ none → Late log p.id → r = .bool false)) :
    Orderly (log ++ [entry]) where
  -- the entry that is new is at the end
  started i caller hi := by
    rcases Nat.lt_or_ge i log.length with hlt | hge
    · rw [List.getElem?_append_left hlt] at hi
      exact h.started i caller hi
    · rw [List.getElem?_append_right hge] at hi
      obtain ⟨hlast, heq⟩ := List.getElem?_eq_some_iff.mp hi
      rw [List.length_singleton] at hlast
      rw [hstarted caller (by simpa using heq)]
      omega
  returned caller r hmem := by
    rw [List.length_append]
    rcases List.mem_append.mp hmem with hmem | hmem
    · exact Nat.le_add_right_of_le (h.returned caller r hmem)
    · exact Nat.le_add_right_of_le (hreturned caller r (List.mem_singleton.mp hmem).symm).1
  -- a call is late by what comes before its return, which has not changed
  refused caller r hmem hproduces hlate := by
    rcases List.mem_append.mp hmem with hmem | hmem
    · exact h.refused caller r hmem hproduces ((late_append (h.returned caller r hmem)).mp hlate)
    · obtain ⟨hid, hrefused⟩ := hreturned caller r (List.mem_singleton.mp hmem).symm
      exact hrefused hproduces ((late_append hid).mp hlate)

/-- What the log and the threads say about the producers. -/
structure Refusals (c : Pool) : Prop where
  log : Orderly c.shared.log
  callers : ∀ t ∈ c.threads, t.tag.id ≤ c.shared.log.length
  refuses : ∀ t ∈ c.threads, t.tag.method.produces ≠ none → Late c.shared.log t.tag.id →
    ∀ op ∈ t.code, op.Refuses

/-- What a step of a call adds to the log. -/
theorem execOp_log {s s' : State} {caller : Caller} {ch : Choice} {op : Op} {ops : List Op}
    (h : execOp E L s caller ch op = some (s', ops)) :
    s'.log = s.log ∨ ∃ entry, s'.log = s.log ++ [entry] ∧ (∀ p, entry ≠ .started p) ∧
      ∀ p r, entry = .returned p r → p = caller ∧ op = .ret r := by
  cases op with
  | send framed =>
    cases h
    refine Or.inr ⟨_, rfl, fun p heq => ?_, fun p r heq => ?_⟩ <;> cases heq
  | retVoid =>
    cases h
    refine Or.inr ⟨_, rfl, fun p heq => ?_, fun p r heq => ?_⟩ <;> cases heq
  | ret r =>
    cases h
    refine Or.inr ⟨_, rfl, fun p heq => ?_, fun p r' heq => ?_⟩
    · cases heq
    · cases heq
      exact ⟨rfl, rfl⟩
  | closeConnection =>
    simp only [execOp] at h
    split at h
    · cases h
      refine Or.inr ⟨_, rfl, fun p heq => ?_, fun p r heq => ?_⟩ <;> cases heq
    · cases h; exact Or.inl rfl
  | encode packets =>
    simp only [execOp] at h
    split at h
    · cases h; exact Or.inl rfl
    · split at h <;> cases h <;> exact Or.inl rfl
  | enter method =>
    -- the entry of a method writes no log
    cases method <;> simp only [execOp] at h <;>
      first
      | (cases h; exact Or.inl rfl)
      | (split at h; cases h; cases h; exact Or.inl rfl)
  | _ =>
    simp only [execOp] at h
    first
    | (cases h; exact Or.inl (by simp))
    | (split at h <;> cases h <;> exact Or.inl (by simp))

/-- A producer that finds the session disconnected will return false. -/
theorem execOp_refuses {s s' : State} {caller : Caller} {ch : Choice} {op : Op} {ops : List Op}
    (h : execOp E L s caller ch op = some (s', ops)) (hs : s.session.mConnected = false)
    (hop : op.Refuses) : ∀ o ∈ ops, o.Refuses := by
  have hone : ∀ {o : Op}, o.Refuses → ∀ o' ∈ [o], o'.Refuses :=
    fun ho o' ho' => List.mem_singleton.mp ho' ▸ ho
  cases op with
  -- a producer locks its queue before it looks at the flag
  | enter method =>
    cases method with
    | sendPacket buffer | enqueueInboundPacket buffer =>
      simp only [execOp] at h
      split at h
      · cases h
      · cases h; exact hone trivial
    | _ => exact absurd rfl hop
  -- here it finds the session disconnected
  | loadConnected q buffer =>
    simp only [execOp, hs, if_neg Bool.false_ne_true] at h
    cases h
    exact hone trivial
  | unlock q r =>
    cases h
    refine hone (o := .ret r) ?_
    cases r with
    | bool b => cases b <;> exact hop
    | received outBuffer => exact hop
  | ret r => cases h; exact fun o ho => absurd ho List.not_mem_nil
  | _ => exact absurd hop id

/-- A return value recorded later than a return of `disconnect`. -/
theorem Op.Refuses.ret {r : Return} (h : (Op.ret r).Refuses) : r = .bool false := by
  cases r with
  | bool b =>
    cases b with
    | false => rfl
    | true => exact absurd h id
  | received outBuffer => exact absurd h id

/-- Late calls are refused after every step. -/
theorem Refusals.step (hc : Refusals c) (hdead : c.shared.Returned → Dead c)
    (h : (scripts E L).program.step c m = some c') : Refusals c' := by
  have hdisconnected : ∀ {i}, Late c.shared.log i → c.shared.session.mConnected = false :=
    fun ⟨caller, hmem⟩ => (hdead ⟨caller, List.mem_of_mem_take hmem⟩).disconnected
  have hstays : ∀ {entry} {t : Thread}, t ∈ c.threads → Late (c.shared.log ++ [entry]) t.tag.id →
      Late c.shared.log t.tag.id := fun ht hlate => (late_append (hc.callers _ ht)).mp hlate
  cases Scripts.step_cases h with
  | @access i ch t op rest ops s' ts others hi hperm hcode hexec =>
    obtain ⟨⟨s₁, ops₁⟩, hop, heq⟩ := Option.map_eq_some_iff.mp hexec
    obtain ⟨rfl, rfl, rfl⟩ : s₁ = s' ∧ ops₁ = ops ∧ [] = ts := by simpa using heq
    have ht : t ∈ c.threads := List.mem_of_getElem? hi
    -- the threads afterwards are those before, but for what is left of `t`
    have hthreads : ∀ {R : Thread → Prop}, (∀ u ∈ c.threads, R u) → R ⟨t.tag, ops₁ ++ rest⟩ →
        ∀ u ∈ others ++ [⟨t.tag, ops₁ ++ rest⟩], R u := by
      intro R hold hnew u hu
      rcases List.mem_append.mp hu with hu | hu
      · exact hold u (hperm.mem_iff.mpr (List.mem_cons_of_mem _ hu))
      · exact List.mem_singleton.mp hu ▸ hnew
    have hrefuses : t.tag.method.produces ≠ none → Late c.shared.log t.tag.id →
        ∀ o ∈ ops₁ ++ rest, o.Refuses := by
      intro hproduces hlate o ho
      have hcodeRefuses := hc.refuses t ht hproduces hlate
      rw [hcode] at hcodeRefuses
      rcases List.mem_append.mp ho with ho | ho
      · exact execOp_refuses hop (hdisconnected hlate) (hcodeRefuses op List.mem_cons_self) o ho
      · exact hcodeRefuses o (List.mem_cons_of_mem _ ho)
    rcases execOp_log hop with hlog | ⟨entry, hlog, hstarted, hreturned⟩
    · refine ⟨?_, hthreads (fun u hu => ?_) ?_, hthreads (fun u hu => ?_) ?_⟩
      all_goals simp only [hlog]
      · exact hc.log
      · exact hc.callers u hu
      · exact hc.callers t ht
      · exact hc.refuses u hu
      · exact hrefuses
    · have hlength : c.shared.log.length ≤ s₁.log.length := by
        rw [hlog, List.length_append]
        exact Nat.le_add_right _ _
      refine ⟨?_, hthreads (fun u hu => ?_) ?_, hthreads (fun u hu => ?_) ?_⟩
      · show Orderly s₁.log
        rw [hlog]
        refine hc.log.append (fun p heq => absurd heq (hstarted p)) fun p r heq => ?_
        obtain ⟨rfl, rfl⟩ := hreturned p r heq
        refine ⟨hc.callers t ht, fun hproduces hlate => ?_⟩
        exact Op.Refuses.ret (hc.refuses t ht hproduces hlate _ (hcode ▸ List.mem_cons_self))
      · exact Nat.le_trans (hc.callers u hu) hlength
      · exact Nat.le_trans (hc.callers t ht) hlength
      · intro hproduces hlate
        exact hc.refuses u hu hproduces (hstays hu (hlog ▸ hlate))
      · intro hproduces hlate
        exact hrefuses hproduces (hstays ht (hlog ▸ hlate))
  | @finish i ch t others hi hperm hcode =>
    have hmem : ∀ u ∈ others, u ∈ c.threads :=
      fun u hu => hperm.mem_iff.mpr (List.mem_cons_of_mem _ hu)
    exact ⟨hc.log, fun u hu => hc.callers u (hmem u hu), fun u hu => hc.refuses u (hmem u hu)⟩
  | @arrive method s' new hcall =>
    obtain ⟨rfl, rfl⟩ := Prod.mk.inj (Option.some.inj hcall)
    refine ⟨hc.log.append (fun p heq => ?_) nofun, fun u hu => ?_, fun u hu hproduces hlate => ?_⟩
    · rw [← Entry.started.inj heq]
    · show u.tag.id ≤ (c.shared.log ++ [_]).length
      rw [List.length_append]
      rcases List.mem_append.mp hu with hu | hu
      · exact Nat.le_add_right_of_le (hc.callers u hu)
      · rw [List.mem_singleton.mp hu]
        exact Nat.le_add_right _ _
    · rcases List.mem_append.mp hu with hu | hu
      · exact hc.refuses u hu hproduces (hstays hu hlate)
      · rw [List.mem_singleton.mp hu] at hproduces ⊢
        exact fun op hop => List.mem_singleton.mp hop ▸ hproduces

/-! ### The end of a session -/

/-- Both invariants hold in every run. -/
theorem invariants {session : Sender} {inbound : List Bytes} {h : List _}
    (hr : (system E L session inbound).Run h c) : Invariant c ∧ Refusals c :=
  hr.invariant (I := fun c => Invariant c ∧ Refusals c)
    ⟨invariant_initial session inbound,
      ⟨⟨nofun, fun _ _ hmem => absurd hmem List.not_mem_nil,
        fun _ _ hmem => absurd hmem List.not_mem_nil⟩,
        fun _ ht => absurd ht List.not_mem_nil, fun _ ht => absurd ht List.not_mem_nil⟩⟩
    fun _ _ _ hc hst =>
      ⟨hc.1.step hst, hc.2.step (fun hreturned => hc.1.dead (Or.inr hreturned)) hst⟩

/-- **Disconnecting.** In every interleaving of the calls on a session, `CloseConnection` is
called at most once. When a call of `disconnect` has returned, both queues are empty, and they
are in every later state; a call of `sendPacket` or `enqueueInboundPacket` that starts after
that returns false. -/
theorem disconnect_final {session : Sender} {inbound : List Bytes} {h : List _}
    (hr : (system E L session inbound).Run h c) :
    c.shared.log.count .closed ≤ 1 ∧
      ∀ (i : ℕ) caller, c.shared.log[i]? = some (Entry.disconnected caller) →
        (∀ q, c.shared.packets q = []) ∧
        ∀ (j : ℕ) producer r, i < j → c.shared.log[j]? = some (Entry.started producer) →
          producer.method.produces ≠ none → .returned producer r ∈ c.shared.log →
            r = .bool false := by
  obtain ⟨hinvariant, hrefusals⟩ := invariants hr
  refine ⟨?_, fun i caller hi => ⟨?_, ?_⟩⟩
  · have hclosing := hinvariant.closing
    show c.shared.closes ≤ 1
    omega
  · exact (hinvariant.dead (Or.inr ⟨caller, List.mem_of_getElem? hi⟩)).empty
  · -- the call was started behind the disconnection, so it is late
    intro j producer r hij hj hproduces hreturned
    refine hrefusals.log.refused producer r hreturned hproduces ⟨caller, ?_⟩
    rw [hrefusals.log.started j producer hj]
    exact List.mem_of_getElem? ((List.getElem?_take_of_lt hij).trans hi)

/-- Nothing is encrypted in this run. -/
def idleEvp : Evp := ⟨fun _ _ _ => 0, some⟩

/-- A packet is pushed while `disconnect` waits for the mutex, and one is refused afterwards. -/
theorem disconnect_final_pushed :
    ∃ h c, (system idleEvp literalCodecs (Sender.create 0) []).Run h c ∧
      c.shared.log = [.started ⟨0, .sendPacket [1]⟩, .started ⟨1, .disconnect⟩,
        .returned ⟨0, .sendPacket [1]⟩ (.bool true), .closed, .disconnected ⟨1, .disconnect⟩,
        .started ⟨5, .sendPacket [2]⟩, .returned ⟨5, .sendPacket [2]⟩ (.bool false)] ∧
      c.shared.log.count .closed ≤ 1 ∧ ∀ q, c.shared.packets q = [] := by
  let next (i : ℕ) : Move (Event Choice Method) := .thread i (.step {})
  obtain ⟨h, c, hr, hp⟩ := (system idleEvp literalCodecs (Sender.create 0) []).exists_run_of_follow
    (p := fun _ c => decide (c.shared.log =
      [.started ⟨0, .sendPacket [1]⟩, .started ⟨1, .disconnect⟩,
        .returned ⟨0, .sendPacket [1]⟩ (.bool true), .closed, .disconnected ⟨1, .disconnect⟩,
        .started ⟨5, .sendPacket [2]⟩, .returned ⟨5, .sendPacket [2]⟩ (.bool false)]))
    [.env (.call (.sendPacket [1])), next 0, next 0, .env (.call .disconnect), next 1, next 0,
      next 1, next 0, next 0, next 1, next 0, next 0, next 0, next 0, next 0, next 0, next 0,
      next 0, next 0, .env (.call (.sendPacket [2])), next 0, next 0, next 0, next 0] (by decide)
  have hlog := of_decide_eq_true hp
  obtain ⟨hcloses, hfinal⟩ := disconnect_final hr
  exact ⟨h, c, hr, hlog, hcloses, (hfinal 4 ⟨1, .disconnect⟩ (by rw [hlog]; rfl)).1⟩

/-! ### Nobody waits for ever -/

/-- A thread waits for a mutex only where it holds none. -/
theorem execOp_blocked {s : State} {caller : Caller} {ch : Choice} {op : Op}
    (h : execOp E L s caller ch op = none) :
    (∀ q, op.stage.holds q = false) ∧ ∃ q, s.locked q = true := by
  cases op with
  | enter method =>
    refine ⟨fun _ => rfl, ?_⟩
    cases method with
    | disconnect => cases h
    | sendPacket | enqueueInboundPacket | receivePacket | flush | flushIfDue =>
      simp only [execOp] at h
      split at h
      · next hlocked => exact ⟨_, hlocked⟩
      · cases h
  | lockFirst was =>
    refine ⟨fun _ => rfl, ?_⟩
    simp only [execOp] at h
    split at h
    · -- the first of two mutexes
      next hlocked => exact ⟨_, hlocked⟩
    · cases h
  | encode packets =>
    simp only [execOp] at h
    split at h
    · cases h
    · split at h <;> cases h
  | _ =>
    simp only [execOp] at h
    first
    | cases h
    | (split at h <;> cases h)

/-- A script of one operation has no other. -/
theorem eq_nil_of_short {op : Op} {rest : List Op} (h : (op :: rest).length ≤ 1) : rest = [] :=
  List.eq_nil_of_length_eq_zero (Nat.le_zero.mp (Nat.le_of_succ_le_succ h))

/-- A thread is at one program point. -/
theorem short_step (hc : ∀ t ∈ c.threads, t.code.length ≤ 1)
    (h : (scripts E L).program.step c m = some c') : ∀ t ∈ c'.threads, t.code.length ≤ 1 := by
  refine codes_step (R := fun _ code => code.length ≤ 1) (Q := fun _ code => code.length ≤ 1) h hc
    (fun _ _ => id) (fun t op i ch rest ops ts _ _ hcode hlength hexec => ?_)
      fun method new _ hcall => ?_
  · obtain ⟨⟨s', ops'⟩, hop, heq⟩ := Option.map_eq_some_iff.mp hexec
    obtain ⟨-, rfl, rfl⟩ : s' = c'.shared ∧ ops' = ops ∧ [] = ts := by simpa using heq
    have hrest : rest = [] := eq_nil_of_short (hcode ▸ hlength)
    refine ⟨?_, fun _ hu => absurd hu List.not_mem_nil⟩
    rw [hrest, List.append_nil]
    obtain rfl | ⟨o, rfl⟩ := execOp_ops hop
    · exact Nat.zero_le 1
    · exact Nat.le_refl 1
  · obtain ⟨-, rfl⟩ := Prod.mk.inj (Option.some.inj hcall)
    exact fun u hu => List.mem_singleton.mp hu ▸ Nat.le_refl 1

/-- **Progress.** While a call is under way, some thread can take a step. -/
theorem never_stuck {session : Sender} {inbound : List Bytes} {h : List _}
    (hr : (system E L session inbound).Run h c) (hne : c.threads ≠ []) :
    ∃ i c', (system E L session inbound).step c (.thread i (.step {})) = some c' := by
  have hshort : ∀ t ∈ c.threads, t.code.length ≤ 1 :=
    hr.invariant (I := fun c => ∀ t ∈ c.threads, t.code.length ≤ 1)
      (fun _ ht => absurd ht List.not_mem_nil) fun _ _ _ hc hst => short_step hc hst
  have hexclusive := (invariants hr).1.exclusive
  -- a thread that is not blocked can be moved
  have hmove : ∀ t ∈ c.threads, (∀ op, t.code = [op] → execOp E L c.shared t.tag {} op ≠ none) →
      ∃ i c', (system E L session inbound).step c (.thread i (.step {})) = some c' := by
    intro t ht hfree
    have hexec : ∃ s' ts, (scripts E L).program.exec c.shared t (.step {}) = some (s', ts) := by
      simp only [program, execScript]
      split
      · exact ⟨_, _, rfl⟩
      · next op rest hcode =>
        have hrest : rest = [] := eq_nil_of_short (hcode ▸ hshort t ht)
        obtain ⟨r, hr⟩ := Option.ne_none_iff_exists'.mp (hfree op (hrest ▸ hcode))
        simp only [scripts, hr, Option.map_some]
        exact ⟨_, _, rfl⟩
    obtain ⟨s', ts, hexec⟩ := hexec
    obtain ⟨i, rest, -, hstep⟩ := Program.exists_step (P := (scripts E L).program) ht hexec
    exact ⟨i, _, hstep⟩
  by_cases hlocked : ∃ q, c.shared.locked q = true
  · -- a thread that holds a mutex is not blocked
    obtain ⟨q, hq⟩ := hlocked
    have hpos : 0 < inStage (Stage.holds q) c := by
      rw [hexclusive q, hq]
      exact Nat.one_pos
    obtain ⟨t, ht, op, hop, hholds⟩ := exists_of_pending_pos hpos
    refine hmove t ht fun op' hcode hblocked => ?_
    rw [hcode] at hop
    rw [List.mem_singleton.mp hop, (execOp_blocked hblocked).1 q] at hholds
    cases hholds
  · obtain ⟨t, ht⟩ := List.exists_mem_of_ne_nil _ hne
    exact hmove t ht fun op _ hblocked => hlocked (execOp_blocked hblocked).2

end Threads
end Session
end SculkProtocol
