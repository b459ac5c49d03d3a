import SculkProtocol.Client.Delivery

/-!
# The order of a connection's callbacks

No packet callback of a connection starts after its `mOnDisconnected` or
`mOnConnectionFailed` (`EndedLast`): only the pump job hands such an event over, when it
has cleared `mSession`, and it calls the packet callbacks itself, for the connection in
`mSession` alone.

`mOnConnected` is handed over before the first packet of the connection, but to the
strand, and the pump job goes on without it. So packets can be received before
`mOnConnected` has returned, or started (`received_before_connected`). They are not
(`ConnectedFirst`) in the runs in which the strand is done with `mOnConnected` of a
connection, or has refused it, before the pump job gets the connection's first batch
(`ConnectedBefore`); where it is not, the pump job may start a callback too early
(`batch_before_connected`).

* `Ordered` says where an event can be and which connection `mSession` holds.
* `Delivered` and `Announced` say that `mOnConnected` of each connection announced is under
  way or has returned, once in all.
-/

namespace SculkProtocol
namespace ClientEvents

variable {cfg : Settings} {s s' : State} {l : Label} {k : ℕ}

def LogEntry.packet? : LogEntry → Option ℕ
  | .start c => c.packet?
  | .ret _ => none

/-- Every packet callback, the latest first, starts after `mOnConnected` of its connection
has returned. -/
def ConnectedFirst : List LogEntry → Prop
  | [] => True
  | e :: earlier =>
    (∀ k, e.packet? = some k → .ret (.onConnected k) ∈ earlier) ∧ ConnectedFirst earlier

/-- No packet callback starts after an event that ends its connection has. -/
def EndedLast : List LogEntry → Prop
  | [] => True
  | e :: earlier =>
    (∀ k, e.packet? = some k → ∀ f : ConnectionEvent, .start (.event f) ∈ earlier →
      f.ends ≠ some k) ∧
      EndedLast earlier

/-- It is `mOnConnected` of connection `k`. -/
def isConnect (k : ℕ) (e : ConnectionEvent) : Bool := e = .onConnected k

/-- The connection whose batch the pump job gets. -/
def takesBatch (cfg : Settings) (s : State) : Label → Option ℕ
  | .receive p ch _ =>
    match (processIncomingPacket cfg s.io p ch).2 with
    | [.dispatch k _] => some k
    | _ => none
  | _ => none

/-- **The condition.** If the pump job gets a batch of a connection in this transition, the
strand has no task of the connection's `mOnConnected`: it has run it, or refused it. -/
def ConnectedBefore (cfg : Settings) (t : ClientStep) : Prop :=
  ∀ k, takesBatch cfg t.src t.label = some k → inStrand t.src (isConnect k) = 0

/-- `ConnectedBefore`, to be evaluated. -/
def connectedBefore (cfg : Settings) (t : ClientStep) : Bool :=
  match takesBatch cfg t.src t.label with
  | some k => inStrand t.src (isConnect k) = 0
  | none => true

/-- The evaluation of the condition is right. -/
theorem ConnectedBefore.of_eval {t : ClientStep} (h : connectedBefore cfg t = true) :
    ConnectedBefore cfg t := by
  intro k hk
  rw [connectedBefore, hk] at h
  exact of_decide_eq_true h

/-! ### What a step logs -/

/-- A step that does not start a packet callback logs at most one entry, of an event. -/
theorem Step.log (h : Step cfg s l s') :
    (∃ k e, startsPacket cfg s l = some k ∧ e.packet? = some k ∧ s'.log = e :: s.log ∧
        ∃ op ∈ s.pump, op.worksOn = some k) ∨
      startsPacket cfg s l = none ∧
        (s'.log = s.log ∨ ∃ e : LogEntry, e.packet? = none ∧ s'.log = e :: s.log) := by
  cases h with
  | receive | teardown => exact .inr ⟨rfl, .inl rfl⟩
  | accept hpump | refuse hpump => exact .inr ⟨by simp [startsPacket, hpump], .inl rfl⟩
  | callInPlace hpump | retInPlace hpump =>
    exact .inr ⟨by simp [startsPacket, hpump], .inr ⟨_, rfl, rfl⟩⟩
  | work _ _ _ hnone => exact .inr ⟨hnone, .inl rfl⟩
  | packet hpump hop _ hc hstarts =>
    exact .inl ⟨_, .start _, hstarts, hc, rfl, _, hpump ▸ List.mem_cons_self, hop⟩
  | begin | ret => exact .inr ⟨rfl, .inr ⟨_, rfl, rfl⟩⟩

/-! ### Where events are -/

/-- Which connection `mSession` holds, and where the events are. -/
structure Ordered (s : State) : Prop where
  session : ∀ k, s.io.mSession = some k → 1 ≤ k ∧ k ≤ s.io.announced
  working : ∀ op ∈ s.pump, ∀ k, op.worksOn = some k → s.io.mSession = some k
  alone : ∀ op ∈ s.pump, ∀ k, op.worksOn = some k → ∀ o ∈ s.pump, o.worksOn = some k
  ended : ∀ e ∈ s.handed, ∀ k, e.ends = some k → s.io.mSession ≠ some k ∧ k ≤ s.io.announced
  carried : ∀ op ∈ s.pump, ∀ e, op.carries (fun f => f = e) = true → e ∈ s.handed
  tasks : ∀ e ∈ s.mCallbackStrand.tasks, e ∈ s.handed
  started : ∀ e, .start (.event e) ∈ s.log → e ∈ s.handed

/-- A client that has just been started is ordered. -/
theorem ordered_initial : Ordered State.initial where
  session _ hk := absurd hk nofun
  working _ hop := absurd hop List.not_mem_nil
  alone _ hop := absurd hop List.not_mem_nil
  ended _ he := absurd he List.not_mem_nil
  carried _ hop := absurd hop List.not_mem_nil
  tasks _ he := absurd he List.not_mem_nil
  started _ he := absurd he List.not_mem_nil

/-- A report is at most one task. -/
theorem mem_report {set : Bool} {e : ConnectionEvent} {op : Op} (h : op ∈ report set e) :
    op = .enqueue e := by
  unfold report at h
  split at h
  · exact List.mem_singleton.mp h
  · exact absurd h List.not_mem_nil

/-- The events that the work on a packet hands over. -/
theorem Processed.handed {io io' : Io} {ops : List Op} {e : ConnectionEvent} {k : ℕ}
    (h : Processed cfg io io' ops) (he : e ∈ ops.filterMap Op.event?) (hk : e.ends = some k) :
    io'.mSession = none ∧ k ≤ io'.announced := by
  obtain ⟨op, hop, hevent⟩ := List.mem_filterMap.mp he
  cases h with
  | kept | cleared => exact absurd hop List.not_mem_nil
  | announced =>
    rw [mem_report hop] at hevent
    rw [← Option.some.inj hevent] at hk
    exact absurd hk nofun
  | ended hnone hannounced hends =>
    rw [mem_report hop] at hevent
    rw [← Option.some.inj hevent, hends] at hk
    exact ⟨hnone, by rw [hannounced, Option.some.inj hk]⟩
  | dispatch =>
    rw [List.mem_singleton.mp hop] at hevent
    exact absurd hevent nofun

/-- The work on a packet keeps the connection, ends it, or begins the next one. -/
theorem Processed.session {io io' : Io} {ops : List Op} (h : Processed cfg io io' ops) :
    io.announced ≤ io'.announced ∧
      ∀ k, io'.mSession = some k → io.mSession = some k ∨ io.announced < k ∧ k ≤ io'.announced := by
  cases h with
  | kept hsession hannounced | dispatch hsession hannounced =>
    exact ⟨Nat.le_of_eq hannounced.symm, fun k hk => .inl (hsession ▸ hk)⟩
  | cleared hnone hannounced | ended hnone hannounced =>
    exact ⟨Nat.le_of_eq hannounced.symm, fun k hk => absurd (hnone ▸ hk) nofun⟩
  | announced hsome hannounced =>
    refine ⟨by omega, fun k hk => .inr ?_⟩
    rw [hsome] at hk
    have := Option.some.inj hk
    omega

/-- A message is worked on for the session that is there. -/
theorem Processed.working {io io' : Io} {ops : List Op} (h : Processed cfg io io' ops) {op : Op}
    (hop : op ∈ ops) (hk : op.worksOn = some k) : io'.mSession = some k := by
  cases h with
  | kept | cleared => exact absurd hop List.not_mem_nil
  | announced | ended =>
    rw [mem_report hop] at hk
    exact absurd hk nofun
  | dispatch hsession _ hsome =>
    rw [List.mem_singleton.mp hop] at hk
    rw [hsession, hsome, ← Option.some.inj hk]

/-- All of it is for one connection. -/
theorem Processed.alone {io io' : Io} {ops : List Op} (h : Processed cfg io io' ops) {op : Op}
    (hop : op ∈ ops) (hk : op.worksOn = some k) : ∀ o ∈ ops, o.worksOn = some k := by
  cases h with
  | kept | cleared => exact absurd hop List.not_mem_nil
  | announced | ended =>
    rw [mem_report hop] at hk
    exact absurd hk nofun
  | dispatch =>
    rw [List.mem_singleton.mp hop] at hk
    exact fun o ho => List.mem_singleton.mp ho ▸ hk

/-- A task that is handed on is one of the message's events. -/
theorem Processed.carried {io io' : Io} {ops : List Op} (h : Processed cfg io io' ops) {op : Op}
    (hop : op ∈ ops) {e : ConnectionEvent} (he : op.carries (fun f => f = e) = true) :
    e ∈ ops.filterMap Op.event? := by
  refine List.mem_filterMap.mpr ⟨op, hop, ?_⟩
  cases h with
  | kept | cleared => exact absurd hop List.not_mem_nil
  | announced | ended =>
    rw [mem_report hop] at he ⊢
    exact congrArg some (of_decide_eq_true he)
  | dispatch =>
    rw [List.mem_singleton.mp hop] at he
    exact absurd he nofun

/-- Logging what is no event's start. -/
theorem started_cons {s : State} (h : ∀ e, .start (.event e) ∈ s.log → e ∈ s.handed)
    {entry : LogEntry}
    (hentry : ∀ e, entry = .start (.event e) → e ∈ s.handed) :
    ∀ e, .start (.event e) ∈ entry :: s.log → e ∈ s.handed := by
  intro e he
  rcases List.mem_cons.mp he with heq | he
  · exact hentry e heq.symm
  · exact h e he

/-- In the hands of a pump job at work on an event, there is no packet. -/
theorem Ordered.no_packet (hs : Ordered s) {op : Op} {rest : List Op} (hpump : s.pump = op :: rest)
    (hop : op.worksOn = none) : ∀ o ∈ rest, o.worksOn = none := by
  intro o ho
  cases hk : o.worksOn with
  | none => rfl
  | some k =>
    have halone :=
      hs.alone o (hpump ▸ List.mem_cons_of_mem _ ho) k hk op (hpump ▸ List.mem_cons_self)
    exact absurd (hop ▸ halone) nofun

/-- The work on a packet leaves work on the same packet. -/
theorem Ordered.alone_append (hs : Ordered s) {op : Op} {rest ops : List Op}
    (hpump : s.pump = op :: rest)
    (hop : op.worksOn = some k) (hops : ∀ o ∈ ops, o.worksOn = some k) :
    ∀ o ∈ ops ++ rest, ∀ j, o.worksOn = some j → ∀ o' ∈ ops ++ rest, o'.worksOn = some j := by
  have hall : ∀ o ∈ ops ++ rest, o.worksOn = some k := by
    intro o ho
    rcases List.mem_append.mp ho with ho | ho
    · exact hops o ho
    · exact hs.alone op (hpump ▸ List.mem_cons_self) k hop o (hpump ▸ List.mem_cons_of_mem _ ho)
  intro o ho j hj o' ho'
  rw [hall o' ho', ← hj, hall o ho]

/-- Every step keeps the order. -/
theorem ordered_step (hs : Ordered s) (h : step cfg s l = some s') : Ordered s' := by
  have hpop : ∀ {op : Op} {rest : List Op}, s.pump = op :: rest → ∀ o ∈ rest, o ∈ s.pump :=
    fun hpump o ho => hpump ▸ List.mem_cons_of_mem _ ho
  cases step_cases h with
  | @receive p ch producer io ops hidle hprocessed _ =>
    obtain ⟨hle, hsession⟩ := hprocessed.session
    exact {
      session := fun k hk => by
        rcases hsession k hk with hold | ⟨hlt, hle'⟩
        · exact ⟨(hs.session k hold).1, Nat.le_trans (hs.session k hold).2 hle⟩
        · exact ⟨by omega, hle'⟩
      working := fun op hop k hk => hprocessed.working hop hk
      alone := fun op hop k hk => hprocessed.alone hop hk
      ended := fun e he k hk => by
        rcases List.mem_append.mp he with he | he
        · obtain ⟨hnone, hle'⟩ := hprocessed.handed he hk
          exact ⟨by rw [hnone]; exact nofun, hle'⟩
        · obtain ⟨hne, hle'⟩ := hs.ended e he k hk
          refine ⟨fun hk' => ?_, Nat.le_trans hle' hle⟩
          rcases hsession k hk' with hold | ⟨hlt, -⟩
          · exact hne hold
          · omega
      carried := fun op hop e he => List.mem_append_left _ (hprocessed.carried hop he)
      tasks := fun e he => List.mem_append_right _ (hs.tasks e he)
      started := fun e he => List.mem_append_right _ (hs.started e he) }
  | @accept e rest hpump =>
    exact { hs with
      working := fun op hop => hs.working op (hpop hpump op hop)
      alone := fun op hop k hk => absurd (hs.no_packet hpump rfl op hop ▸ hk) nofun
      carried := fun op hop => hs.carried op (hpop hpump op hop)
      tasks := fun f hf => by
        rcases List.mem_append.mp hf with hf | hf
        · exact hs.tasks f hf
        · rw [List.mem_singleton.mp hf]
          exact hs.carried (.enqueue e) (hpump ▸ List.mem_cons_self) e (decide_eq_true rfl) }
  | @refuse e rest hpump =>
    have hcarried := hs.carried (.enqueue e) (hpump ▸ List.mem_cons_self) e (decide_eq_true rfl)
    exact { hs with
      working := List.forall_mem_cons.mpr ⟨fun k hk => absurd hk nofun,
        fun op hop => hs.working op (hpop hpump op hop)⟩
      alone := List.forall_mem_cons.mpr ⟨fun k hk => absurd hk nofun,
        fun op hop k hk => absurd (hs.no_packet hpump rfl op hop ▸ hk) nofun⟩
      carried := List.forall_mem_cons.mpr ⟨fun f hf => of_decide_eq_true hf ▸ hcarried,
        fun op hop => hs.carried op (hpop hpump op hop)⟩ }
  | @callInPlace e rest ok hpump =>
    have hcarried := hs.carried (.callInPlace e) (hpump ▸ List.mem_cons_self) e (decide_eq_true rfl)
    exact { hs with
      working := List.forall_mem_cons.mpr ⟨fun k hk => absurd hk nofun,
        fun op hop => hs.working op (hpop hpump op hop)⟩
      alone := List.forall_mem_cons.mpr ⟨fun k hk => absurd hk nofun,
        fun op hop k hk => absurd (hs.no_packet hpump rfl op hop ▸ hk) nofun⟩
      carried := List.forall_mem_cons.mpr ⟨fun f hf => of_decide_eq_true hf ▸ hcarried,
        fun op hop => hs.carried op (hpop hpump op hop)⟩
      started := started_cons hs.started fun f hf => by
        cases hf
        exact hcarried }
  | retInPlace hpump =>
    exact { hs with
      working := fun op hop => hs.working op (hpop hpump op hop)
      alone := fun op hop k hk => absurd (hs.no_packet hpump rfl op hop ▸ hk) nofun
      carried := fun op hop => hs.carried op (hpop hpump op hop)
      started := started_cons hs.started fun f hf => absurd hf nofun }
  | @work op k rest ops ok hpump hop hops _ =>
    -- what is left is about the same packet
    exact { hs with
      working := fun o ho => by
        rcases List.mem_append.mp ho with ho | ho
        · rw [hops o ho, ← hop]
          exact hs.working op (hpump ▸ List.mem_cons_self)
        · exact hs.working o (hpop hpump o ho)
      alone := hs.alone_append hpump hop hops
      carried := fun o ho => by
        rcases List.mem_append.mp ho with ho | ho
        · exact fun e he => absurd (Op.not_carries_of_worksOn (hops o ho) ▸ he) nofun
        · exact hs.carried o (hpop hpump o ho) }
  | @packet op k c rest ops ok hpump hop hops hc _ =>
    exact { hs with
      working := fun o ho => by
        rcases List.mem_append.mp ho with ho | ho
        · rw [hops o ho, ← hop]
          exact hs.working op (hpump ▸ List.mem_cons_self)
        · exact hs.working o (hpop hpump o ho)
      alone := hs.alone_append hpump hop hops
      carried := fun o ho => by
        rcases List.mem_append.mp ho with ho | ho
        · exact fun e he => absurd (Op.not_carries_of_worksOn (hops o ho) ▸ he) nofun
        · exact hs.carried o (hpop hpump o ho)
      started := started_cons hs.started fun f hf => by
        cases hf
        exact absurd hc nofun }
  | @begin position e i strand hbegin =>
    have htasks : strand.tasks = s.mCallbackStrand.tasks := by
      obtain ⟨-, -, q, -, rfl⟩ := Strand.begin_inv hbegin
      rfl
    have htask : e ∈ s.mCallbackStrand.tasks := by
      obtain ⟨-, he, -⟩ := Strand.begin_inv hbegin
      exact List.mem_of_getElem? he
    exact { hs with
      tasks := by
        rw [htasks]
        exact hs.tasks
      started := started_cons hs.started fun f hf => by
        cases hf
        exact hs.tasks e htask }
  | ret =>
    exact { hs with
      started := started_cons hs.started fun f hf => absurd hf nofun }
  | teardown hidle =>
    exact { hs with
      session := fun k hk => absurd hk nofun
      working := fun op hop => absurd (hidle ▸ hop) List.not_mem_nil
      alone := fun op hop => absurd (hidle ▸ hop) List.not_mem_nil
      ended := fun e he k hk => ⟨nofun, (hs.ended e he k hk).2⟩ }

/-! ### Each connection is announced once -/

/-- `mOnConnected` is handed over once for each connection announced. -/
def Announced (s : State) : Prop :=
  ∀ k, s.handed.countP (isConnect k) = if 1 ≤ k ∧ k ≤ s.io.announced then 1 else 0

/-- Nothing is announced at first. -/
theorem announced_initial : Announced State.initial := by
  intro k
  rw [if_neg fun h => absurd (Nat.le_trans h.1 h.2) (by decide)]
  rfl

/-- A connection is announced once. -/
theorem Processed.connects {io io' : Io} {ops : List Op} (h : Processed cfg io io' ops)
    (hset : cfg.mCallbacks.mOnConnected = true) (k : ℕ) :
    (if 1 ≤ k ∧ k ≤ io'.announced then 1 else 0) =
      (ops.filterMap Op.event?).countP (isConnect k) + if 1 ≤ k ∧
      k ≤ io.announced then 1 else 0 := by
  cases h with
  | kept _ hannounced | cleared _ hannounced | dispatch _ hannounced =>
    rw [hannounced]
    exact (Nat.zero_add _).symm
  -- an end of a connection is none of its beginnings
  | @ended set e _ hannounced hends =>
    have hne : isConnect k e = false := by
      cases e with
      | onConnected => exact absurd hends nofun
      | _ => rfl
    rw [hannounced, countP_report, hne, Bool.and_false]
    exact (Nat.zero_add _).symm
  -- the connection that is announced is the next one
  | announced _ hannounced =>
    rw [hannounced, countP_report, hset, Bool.true_and]
    by_cases hk : k = io.announced + 1
    · simp [isConnect, hk]
    · have hne : isConnect k (.onConnected (io.announced + 1)) = false :=
        decide_eq_false fun heq => hk (ConnectionEvent.onConnected.inj heq).symm
      rw [hne, Bool.toNat_false, Nat.zero_add]
      congr 1
      exact propext ⟨fun h => ⟨h.1, by omega⟩, fun h => ⟨h.1, by omega⟩⟩

/-- Every connection is announced once. -/
theorem announced_step (hset : cfg.mCallbacks.mOnConnected = true) (hs : Announced s)
    (h : step cfg s l = some s') : Announced s' := by
  cases step_cases h with
  | receive _ hprocessed _ =>
    intro k
    rw [List.countP_append, hs k]
    exact (hprocessed.connects hset k).symm
  | _ => exact hs

/-! ### The result -/

/-- Nothing that ends a connection is called while its packets are worked on. -/
theorem Ordered.endedLast_step (hs : Ordered s) (hlast : EndedLast s.log)
    (h : step cfg s l = some s') :
    EndedLast s'.log := by
  rcases (step_cases h).log with ⟨k, e, -, hk, hlog, op, hop, hworks⟩ | ⟨-, hlog | ⟨e, he, hlog⟩⟩
  · rw [hlog]
    refine ⟨fun j hj f hf hends => ?_, hlast⟩
    rw [hk] at hj
    rw [← Option.some.inj hj] at hends
    exact (hs.ended f (hs.started f hf) k hends).1 (hs.working op hop k hworks)
  · rwa [hlog]
  · rw [hlog]
    exact ⟨fun j hj => absurd (he ▸ hj) nofun, hlast⟩

/-- A callback has returned if it is counted once at least. -/
theorem countP_returns_pos {log : List LogEntry} :
    0 < log.countP (LogEntry.returns (isConnect k)) ↔ LogEntry.ret (.onConnected k) ∈ log := by
  rw [List.countP_pos_iff]
  constructor
  · rintro ⟨e, he, hreturns⟩
    cases e with
    | ret e => rwa [← of_decide_eq_true hreturns]
    | start => exact absurd hreturns nofun
  · exact fun h => ⟨_, h, decide_eq_true rfl⟩

/-- Between two packets, the strand is done with `mOnConnected` of the connection exactly
if that has returned. -/
theorem connected_iff (hs : Ordered s) (hd : Delivered s) (ha : Announced s) (hidle : s.pump = [])
    (hk : s.io.mSession = some k) :
    LogEntry.ret (.onConnected k) ∈ s.log ↔ inStrand s (isConnect k) = 0 := by
  have hcount := hd.returned (isConnect k)
  rw [ha k, if_pos (hs.session k hk), underWay, hidle, List.countP_nil, Nat.zero_add] at hcount
  -- one connect notice: its return is in the log, or its callback in the strand
  rw [← countP_returns_pos]
  omega

/-- While the pump job works on a packet, `mOnConnected` of its connection has returned. -/
def Settled (s : State) : Prop :=
  ∀ op ∈ s.pump, ∀ k, op.worksOn = some k → LogEntry.ret (.onConnected k) ∈ s.log

/-- A client that has just been started is settled. -/
theorem settled_initial : Settled State.initial := fun _ hop => absurd hop List.not_mem_nil

/-- Every step keeps it so, if batches come after `mOnConnected`. -/
theorem settled_step (hs : Ordered s) (hd : Delivered s) (ha : Announced s) (hq : Settled s)
    (h : step cfg s l = some s') (hbefore : ConnectedBefore cfg ⟨s, l, s'⟩) : Settled s' := by
  cases step_cases h with
  | @receive p ch producer io ops hidle hprocessed heq =>
    -- the batch is of the connection in `mSession`, whose callback the strand is done with
    intro op hop k hk
    cases hprocessed with
    | kept | cleared => exact absurd hop List.not_mem_nil
    | announced | ended =>
      rw [mem_report hop] at hk
      exact absurd hk nofun
    | @dispatch j payloads _ _ hsession =>
      rw [List.mem_singleton.mp hop] at hk
      obtain rfl : j = k := Option.some.inj hk
      have htakes : takesBatch cfg s (.receive p ch producer) = some j := by
        simp only [takesBatch, heq]
      exact (connected_iff hs hd ha hidle hsession).mpr (hbefore j htakes)
  -- an operation on an event leaves no work on a packet
  | accept hpump => exact fun op hop k hk => absurd (hs.no_packet hpump rfl op hop ▸ hk) nofun
  | refuse hpump =>
    exact List.forall_mem_cons.mpr ⟨fun k hk => absurd hk nofun,
      fun op hop k hk => absurd (hs.no_packet hpump rfl op hop ▸ hk) nofun⟩
  | callInPlace hpump =>
    exact List.forall_mem_cons.mpr ⟨fun k hk => absurd hk nofun,
      fun op hop k hk => absurd (hs.no_packet hpump rfl op hop ▸ hk) nofun⟩
  | retInPlace hpump =>
    exact fun op hop k hk => absurd (hs.no_packet hpump rfl op hop ▸ hk) nofun
  -- what is left of a packet is about the same connection
  | @work op k rest ops ok hpump hop hops _ =>
    have hold := hq op (hpump ▸ List.mem_cons_self) k hop
    intro o ho j hj
    rcases List.mem_append.mp ho with ho | ho
    · rwa [← Option.some.inj ((hops o ho).symm.trans hj)]
    · exact hq o (hpump ▸ List.mem_cons_of_mem _ ho) j hj
  | @packet op k c rest ops ok hpump hop hops _ _ =>
    have hold := hq op (hpump ▸ List.mem_cons_self) k hop
    intro o ho j hj
    rcases List.mem_append.mp ho with ho | ho
    · rw [← Option.some.inj ((hops o ho).symm.trans hj)]
      exact List.mem_cons_of_mem _ hold
    · exact List.mem_cons_of_mem _ (hq o (hpump ▸ List.mem_cons_of_mem _ ho) j hj)
  | begin | ret => exact fun op hop k hk => List.mem_cons_of_mem _ (hq op hop k hk)
  | teardown => exact hq

/-- A packet callback starts while the pump job works on a packet. -/
theorem connectedFirst_step (hq : Settled s) (hfirst : ConnectedFirst s.log)
    (h : step cfg s l = some s') : ConnectedFirst s'.log := by
  rcases (step_cases h).log with ⟨k, e, -, hk, hlog, op, hop, hworks⟩ | ⟨-, hlog | ⟨e, he, hlog⟩⟩
  · rw [hlog]
    refine ⟨fun j hj => ?_, hfirst⟩
    rw [hk] at hj
    rw [← Option.some.inj hj]
    exact hq op hop k hworks
  · rwa [hlog]
  · rw [hlog]
    exact ⟨fun j hj => absurd (he ▸ hj) nofun, hfirst⟩

/-- **The order of callbacks.** In every run, no packet callback of a connection starts
after an event that ends it has; and, with `mOnConnected` set, it has returned before each
of them if the strand was done with it whenever the pump job got a batch of the
connection. -/
theorem connection_callbacks_ordered {h : List ClientStep} (hr : (system cfg).Run h s) :
    EndedLast s.log ∧ (cfg.mCallbacks.mOnConnected = true →
      (∀ t ∈ h, ConnectedBefore cfg t) → ConnectedFirst s.log) := by
  constructor
  · have hinit : EndedLast State.initial.log := trivial
    exact (hr.invariant (I := fun s => Ordered s ∧ EndedLast s.log) ⟨ordered_initial, hinit⟩
      fun _ _ _ hs hst => ⟨ordered_step hs.1 hst, hs.1.endedLast_step hs.2 hst⟩).2
  · intro hset hbefore
    have hinit : ConnectedFirst State.initial.log := trivial
    have hinv : (Ordered s ∧ Delivered s ∧ Announced s) ∧ Settled s ∧ ConnectedFirst s.log :=
      hr.invariant_where
        (I := fun s => (Ordered s ∧ Delivered s ∧ Announced s) ∧ Settled s ∧ ConnectedFirst s.log)
        (C := ConnectedBefore cfg)
        ⟨⟨ordered_initial, delivered_initial, announced_initial⟩, settled_initial, hinit⟩
        (fun _ _ _ ⟨⟨hs, hd, ha⟩, hq, hfirst⟩ hst hC =>
          ⟨⟨ordered_step hs hst, delivered_step hd hst, announced_step hset ha hst⟩,
            settled_step hs hd ha hq hst hC, connectedFirst_step hq hfirst hst⟩) hbefore
    exact hinv.2.2

/-! ### A packet that is received too early -/

/-- All callbacks set, and limits that are never reached. -/
def allCallbacks : Settings := ⟨⟨true, true, true, true, true, true, true⟩, 8388608, 2000⟩

/-- The pump job gets a packet of ten bytes. -/
def packet (messageId : MessageId) : Label :=
  .receive ⟨true, 10, messageId⟩ { now := 1, payloads := some [.readable] } 0

/-- `mOnConnected` returns before the first batch is received, and the connection is lost. -/
theorem connection_callbacks_ordered_leave :
    ∃ h s, (system allCallbacks).Run h s ∧
      s.log =
        [.ret (.onDisconnected 1), .start (.event (.onDisconnected 1)), .start (.onPacketReceive 1),
        .start (.onRawPacketReceive 1), .ret (.onConnected 1), .start (.event (.onConnected 1))] ∧
      EndedLast s.log ∧ ConnectedFirst s.log := by
  obtain ⟨h, s, hr, hp⟩ := (system allCallbacks).exists_run_of_follow
    (p := fun h s => decide (s.log = [.ret (.onDisconnected 1), .start (.event (.onDisconnected 1)),
      .start (.onPacketReceive 1), .start (.onRawPacketReceive 1), .ret (.onConnected 1),
      .start (.event (.onConnected 1))] ∧ ∀ t ∈ h, connectedBefore allCallbacks t = true))
    [packet .connectionRequestAccepted, .pump true, .begin 0, .ret,
      packet .batch, .pump true, .pump true, .pump true,
      packet .connectionLost, .pump true, .begin 0, .ret]
    (by decide)
  obtain ⟨hlog, hall⟩ := of_decide_eq_true hp
  obtain ⟨hlast, hfirst⟩ := connection_callbacks_ordered hr
  exact ⟨h, s, hr, hlog, hlast, hfirst rfl fun t ht => .of_eval (hall t ht)⟩

/-- **The condition is needed.** If the pump job gets a batch while the strand still has
`mOnConnected` of the connection, the job's next step starts a packet callback too early,
unless the strand comes first. -/
theorem batch_before_connected {p : Packet} {ch : Choice} {producer : ℕ} {payload : Payload}
    {payloads : List Payload} (hr : (system cfg).Reachable s)
    (hset : cfg.mCallbacks.mOnConnected = true) (hreceive : cfg.mCallbacks.mOnPacketReceive = true)
    (hraw : cfg.mCallbacks.mOnRawPacketReceive = true)
    (h : step cfg s (.receive p ch producer) = some s')
    (hbatch : s'.pump = [.dispatch k (payload :: payloads)])
    (hlate : inStrand s (isConnect k) ≠ 0) :
    ∃ s'', step cfg s' (.pump true) = some s'' ∧ ¬ ConnectedFirst s''.log := by
  obtain ⟨hs, hd, ha⟩ := hr.invariant (I := fun s => Ordered s ∧ Delivered s ∧ Announced s)
    ⟨ordered_initial, delivered_initial, announced_initial⟩
    fun _ _ _ ⟨hs, hd, ha⟩ hst =>
      ⟨ordered_step hs hst, delivered_step hd hst, announced_step hset ha hst⟩
  cases step_cases h with
  | @receive _ _ _ io ops hidle hprocessed heq =>
    have hsession : s.io.mSession = some k := by
      cases hprocessed with
      | kept | cleared => exact absurd hbatch nofun
      | announced | ended =>
        have hop : Op.dispatch k (payload :: payloads) ∈ _ := hbatch ▸ List.mem_singleton_self _
        exact absurd (mem_report hop) nofun
      | dispatch _ _ hsession =>
        cases hbatch
        exact hsession
    have hnot : LogEntry.ret (.onConnected k) ∉ s.log := fun hret =>
      hlate ((connected_iff hs hd ha hidle hsession).mp hret)
    obtain rfl : ops = [.dispatch k (payload :: payloads)] := hbatch
    refine ⟨_, rfl, fun hfirst => ?_⟩
    -- the payload goes to `mOnRawPacketReceive` at once
    simp only [execOp, hreceive, hraw, if_true, State.record] at hfirst
    exact hnot (hfirst.1 k rfl)

/-- The strand has not begun the task of `mOnConnected` when the pump job receives the
first batch. -/
theorem received_before_connected :
    ∃ h s, (system allCallbacks).Run h s ∧
      s.log = [.ret (.onConnected 1), .start (.event (.onConnected 1)), .start (.onPacketReceive 1),
        .start (.onRawPacketReceive 1)] ∧
      ¬ (EndedLast s.log ∧ ConnectedFirst s.log) := by
  obtain ⟨h, s, hr, hp⟩ := (system allCallbacks).exists_run_of_follow
    (p := fun _ s => decide (s.log = [.ret (.onConnected 1), .start (.event (.onConnected 1)),
      .start (.onPacketReceive 1), .start (.onRawPacketReceive 1)]))
    [packet .connectionRequestAccepted, .pump true, packet .batch, .pump true,
      .pump true, .pump true, .begin 0, .ret]
    (by decide)
  have hlog := of_decide_eq_true hp
  refine ⟨h, s, hr, hlog, fun hordered => ?_⟩
  rw [hlog] at hordered
  -- the earliest entry is a packet callback
  exact absurd (hordered.2.2.2.2.1 1 rfl) List.not_mem_nil

end ClientEvents
end SculkProtocol
