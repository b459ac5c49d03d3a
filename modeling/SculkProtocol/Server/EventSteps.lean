import SculkProtocol.Server.Events
import SculkProtocol.Server.SessionSteps

/-!
# What a step of a server's threads does

`Step` is the inversion of `execOp`, and `Arrives` that of `arrive`. `move_cases` puts
the two together: a move is a step of a thread, the end of a thread, or the arrival of one.
The results on callbacks are derived from these.
-/

namespace SculkProtocol
namespace ServerEvents

open Scripts Sessions

variable {Guid : Type}

/-! ### Fields -/

section Fields

variable (s : State Guid) (x : Context Guid) (t : Task Guid)

@[simp] theorem setRegistry_registry (r : Registry Guid) : (s.setRegistry r).registry = r := rfl

@[simp] theorem setRegistry_ioBusy (r : Registry Guid) : (s.setRegistry r).ioBusy = s.ioBusy := rfl

@[simp] theorem setRegistry_calls (r : Registry Guid) : (s.setRegistry r).calls = s.calls := rfl

@[simp] theorem setRegistry_removed (r : Registry Guid) :
    (s.setRegistry r).removed = s.removed := rfl

@[simp] theorem setRegistry_delivered (r : Registry Guid) :
    (s.setRegistry r).delivered = s.delivered := rfl

@[simp] theorem setRegistry_strands (r : Registry Guid) :
    (s.setRegistry r).strands = s.strands := rfl

/-- A delivery is recorded, and nothing else is changed. -/
theorem deliver_eq : s.deliver x t = { s with delivered := (s.deliver x t).delivered } := by
  unfold State.deliver
  split
  · split <;> rfl
  · rfl

@[simp] theorem deliver_registry : (s.deliver x t).registry = s.registry := by rw [deliver_eq]

@[simp] theorem deliver_ioBusy : (s.deliver x t).ioBusy = s.ioBusy := by rw [deliver_eq]

@[simp] theorem deliver_calls : (s.deliver x t).calls = s.calls := by rw [deliver_eq]

@[simp] theorem deliver_removed : (s.deliver x t).removed = s.removed := by rw [deliver_eq]

@[simp] theorem deliver_strands : (s.deliver x t).strands = s.strands := by rw [deliver_eq]

variable (removed : Option (Context Guid)) (how : Option Removal)

/-- A removal is recorded, and nothing else is changed. -/
theorem recordRemoval_eq :
    s.recordRemoval removed how = { s with removed := (s.recordRemoval removed how).removed } := by
  unfold State.recordRemoval
  split <;> rfl

@[simp] theorem recordRemoval_registry : (s.recordRemoval removed how).registry = s.registry := by
  rw [recordRemoval_eq]

@[simp] theorem recordRemoval_ioBusy : (s.recordRemoval removed how).ioBusy = s.ioBusy := by
  rw [recordRemoval_eq]

@[simp] theorem recordRemoval_calls : (s.recordRemoval removed how).calls = s.calls := by
  rw [recordRemoval_eq]

@[simp] theorem recordRemoval_delivered :
    (s.recordRemoval removed how).delivered = s.delivered := by
  rw [recordRemoval_eq]

@[simp] theorem recordRemoval_strands : (s.recordRemoval removed how).strands = s.strands := by
  rw [recordRemoval_eq]

/-- Start a callback. -/
def State.start (s : State Guid) (c : Callback Guid) : State Guid :=
  { s with calls := c :: s.calls }

@[simp] theorem start_registry (c : Callback Guid) : (s.start c).registry = s.registry := rfl

@[simp] theorem start_ioBusy (c : Callback Guid) : (s.start c).ioBusy = s.ioBusy := rfl

@[simp] theorem start_calls (c : Callback Guid) : (s.start c).calls = c :: s.calls := rfl

@[simp] theorem start_removed (c : Callback Guid) : (s.start c).removed = s.removed := rfl

@[simp] theorem start_delivered (c : Callback Guid) : (s.start c).delivered = s.delivered := rfl

@[simp] theorem start_strands (c : Callback Guid) : (s.start c).strands = s.strands := rfl

/-- Account for a packet in the ingress windows. -/
def State.setIngress (s : State Guid) (start : Context Guid → ℤ) (packets : Context Guid → ℕ) :
    State Guid :=
  { s with mRawIngressWindowStart := start, mRawIngressWindowPackets := packets }

variable (start : Context Guid → ℤ) (packets : Context Guid → ℕ)

@[simp] theorem setIngress_registry : (s.setIngress start packets).registry = s.registry := rfl

@[simp] theorem setIngress_ioBusy : (s.setIngress start packets).ioBusy = s.ioBusy := rfl

@[simp] theorem setIngress_calls : (s.setIngress start packets).calls = s.calls := rfl

@[simp] theorem setIngress_removed : (s.setIngress start packets).removed = s.removed := rfl

@[simp] theorem setIngress_delivered : (s.setIngress start packets).delivered = s.delivered := rfl

@[simp] theorem setIngress_strands : (s.setIngress start packets).strands = s.strands := rfl

variable [DecidableEq Guid] (strand : Strand (Task Guid))

@[simp] theorem setStrand_registry : (s.setStrand x strand).registry = s.registry := rfl

@[simp] theorem setStrand_ioBusy : (s.setStrand x strand).ioBusy = s.ioBusy := rfl

@[simp] theorem setStrand_calls : (s.setStrand x strand).calls = s.calls := rfl

@[simp] theorem setStrand_removed : (s.setStrand x strand).removed = s.removed := rfl

@[simp] theorem setStrand_delivered : (s.setStrand x strand).delivered = s.delivered := rfl

@[simp] theorem setStrand_strands :
    (s.setStrand x strand).strands = Function.update s.strands x strand := rfl

end Fields

/-! ### Steps of threads -/

variable [DecidableEq Guid] {cfg : Settings} {c c' : Server Guid}
  {m : Move (Event Choice (Call Guid))} {s s' : State Guid} {producer : ℕ} {ch : Choice}
  {op : Op Guid} {ops : List (Op Guid)}

/-- What a thread does next, and what is left of it. -/
inductive Step (cfg : Settings) (s : State Guid) (producer : ℕ) (ch : Choice) :
    Op Guid → State Guid → List (Op Guid) → Prop
  | emptyPacket {p x} : s.registry.mSessionContexts p.guid = some x →
      Step cfg s producer ch (.processIncomingPacket p) s [.disconnect x,
        .eraseContext p.guid .discard]
  | ignored {p} : Step cfg s producer ch (.processIncomingPacket p) s []
  | connection {p} :
      Step cfg s producer ch (.processIncomingPacket p) s [.upsertSessionContext p.guid]
  | lookedUp {p x} : s.registry.mSessionContexts p.guid = some x →
      Step cfg s producer ch (.processIncomingPacket p) s [.enqueue x (.packet p)]
  | upsert g : Step cfg s producer ch (.upsertSessionContext g)
      ((s.setRegistry (s.registry.upsert g)).recordRemoval (s.registry.mSessionContexts g)
        (some .replacement))
      (if cfg.mCallbacks.mOnConnected then [.enqueue (s.registry.fresh g) .onConnected] else [])
  | accept {x t} : ch.ok = true → Step cfg s producer ch (.enqueue x t)
      ((s.setStrand x ((s.strands x).enqueue producer t)).deliver x t) []
  | refuse {x t} : ch.ok = false →
      Step cfg s producer ch (.enqueue x t) (s.deliver x t) (t.refused x)
  | finishPacket : Step cfg s producer ch .finishPacket { s with ioBusy := false } []
  | call c : Step cfg s producer ch (.call c) (s.start c) []
  | callInPlace c : Step cfg s producer ch (.callInPlace c) (s.start c) []
  /-- a packet that is dropped, or is nothing to dispatch -/
  | passed {p x} start packets : Step cfg s producer ch (.processSessionPacket p x)
      (s.setIngress start packets) []
  | limit {p x} start packets : Step cfg s producer ch (.processSessionPacket p x)
      (s.setIngress start packets) [.eraseContext p.guid (.limit p x)]
  | notice {p x} start packets : isNotice p = true → Step cfg s producer ch
      (.processSessionPacket p x) (s.setIngress start packets) [.eraseContext p.guid (.notice p x)]
  | batch {p x} start packets payloads : isNotice p = false → Step cfg s producer ch
      (.processSessionPacket p x) (s.setIngress start packets) [.dispatch x payloads]
  | erase g after : Step cfg s producer ch (.eraseContext g after)
      ((s.setRegistry (s.registry.erase g)).recordRemoval (s.registry.mSessionContexts g)
        after.removal)
      (after.next cfg (s.registry.mSessionContexts g))
  | disconnect x : Step cfg s producer ch (.disconnect x)
      (s.setRegistry (s.registry.setDisconnected x)) []
  | dispatchEnd {x} : Step cfg s producer ch (.dispatch x []) s []
  | dispatch {x payload payloads s' ops} : s' = s ∨ s' = s.start (.onRawPacketReceive x) →
      (ops = [.dispatch x payloads] ∨ ops = [.parse x payload, .dispatch x payloads]) →
      Step cfg s producer ch (.dispatch x (payload :: payloads)) s' ops
  | received {x} : Step cfg s producer ch (.parse x .readable) (s.start (.onPacketReceive x)) []
  | parseFailed {x payload s'} : s' = s ∨ s' = s.start (.onPacketParseFailed x) →
      Step cfg s producer ch (.parse x payload) s' []
  | finishTask x i : Step cfg s producer ch (.finishTask x i)
      (s.setStrand x ((s.strands x).finish i)) []
  | collectContexts : Step cfg s producer ch .collectContexts s (s.registry.entries.map .disconnect)
  | collectKeys : Step cfg s producer ch .collectKeys s
      (s.registry.entries.map fun x => .eraseContext x.guid .teardown)

/-- The I/O thread's dispatch is a step. -/
theorem processIncomingPacket_step (p : Packet Guid) :
    Step cfg s producer ch (.processIncomingPacket p) s (processIncomingPacket cfg s p ch) := by
  simp only [processIncomingPacket]
  split
  · split
    · split
      · exact .emptyPacket ‹_›
      · exact .ignored
    · exact .ignored
  · split
    · exact .ignored
    · exact .connection
    · exact .ignored
    · exact .lookedUp ‹_›

/-- Opening a window changes nothing but the window. -/
theorem openWindow_eq (s : State Guid) (x : Context Guid) (now : ℤ) :
    ∃ start packets, s.openWindow x now = s.setIngress start packets := by
  unfold State.openWindow
  split
  · exact ⟨_, _, rfl⟩
  · exact ⟨s.mRawIngressWindowStart, s.mRawIngressWindowPackets, rfl⟩

/-- A strand task's work on a packet is a step. -/
theorem processSessionPacket_step (p : Packet Guid) (x : Context Guid) :
    Step cfg s producer ch (.processSessionPacket p x) (processSessionPacket cfg s p x ch).1
      (processSessionPacket cfg s p x ch).2 := by
  obtain ⟨start, packets, hopen⟩ := openWindow_eq s x ch.now
  simp only [processSessionPacket, hopen]
  split
  · -- a packet that is too long does not reach the window
    split
    · exact .limit s.mRawIngressWindowStart s.mRawIngressWindowPackets
    · exact .passed s.mRawIngressWindowStart s.mRawIngressWindowPackets
  · split
    · split
      · exact .limit start packets
      · exact .passed start packets
    · split
      · next hnotice => exact .notice _ _ hnotice
      · next hnotice =>
        split
        · split
          · exact .passed _ _
          · exact .batch _ _ _ (Bool.of_not_eq_true hnotice)
        · exact .passed _ _

/-- **Steps.** Every operation is of one of these kinds. -/
theorem execOp_step (h : execOp cfg s producer ch op = (s', ops)) :
    Step cfg s producer ch op s' ops := by
  obtain ⟨rfl, rfl⟩ := Prod.mk.inj h
  cases op with
  | processIncomingPacket p => exact processIncomingPacket_step p
  | upsertSessionContext g => exact .upsert g
  | enqueue x t =>
    simp only
    split
    · next hok => exact .accept hok
    · next hok => exact .refuse (Bool.of_not_eq_true hok)
  | finishPacket => exact .finishPacket
  | call c => exact .call c
  | callInPlace c => exact .callInPlace c
  | processSessionPacket p x => exact processSessionPacket_step p x
  | eraseContext g after => exact .erase g after
  | disconnect x => exact .disconnect x
  -- a payload is parsed where a callback is set for packets, and handed on raw where one is set for
  -- these
  | dispatch x payloads =>
    cases payloads with
    | nil => exact .dispatchEnd
    | cons payload payloads =>
      simp only
      split
      · split
        · refine .dispatch (Or.inr rfl) ?_
          split
          · exact Or.inr rfl
          · exact Or.inl rfl
        · exact .dispatch (Or.inl rfl) (Or.inr rfl)
      · exact .dispatch (Or.inl rfl) (Or.inl rfl)
  | parse x payload =>
    cases payload with
    | readable => exact .received
    -- a payload that cannot be read is reported, if a callback is set
    | noHeader | unreadable =>
      refine .parseFailed ?_
      simp only
      split
      · exact Or.inr rfl
      · exact Or.inl rfl
  | finishTask x i => exact .finishTask x i
  | collectContexts => exact .collectContexts
  | collectKeys => exact .collectKeys

/-- A step of a thread starts no threads. -/
theorem exec_inv {ts : List (Thread Guid)}
    (h : (scripts cfg).exec s producer ch op = some (s', ops, ts)) :
    Step cfg s producer ch op s' ops ∧ ts = [] := by
  obtain ⟨h1, h2⟩ := Prod.mk.inj (Option.some.inj h)
  obtain ⟨h2, h3⟩ := Prod.mk.inj h2
  exact ⟨execOp_step (Prod.ext h1 h2), h3.symm⟩

/-! ### Arrivals -/

/-- What arrives from outside. -/
inductive Arrives (s : State Guid) : State Guid → Thread Guid → Prop
  | receive p : s.ioBusy = false →
      Arrives s { s with ioBusy := true } ⟨0, [.processIncomingPacket p, .finishPacket]⟩
  | runTask {x position t i strand} worker : (s.strands x).begin position = some (t, i, strand) →
      Arrives s (s.setStrand x strand) ⟨worker, t.code x ++ [.finishTask x i]⟩
  | disconnectClient g producer : Arrives s s ⟨producer, [.eraseContext g .client]⟩
  | disconnect {x} : x ∈ s.registry.inserted → Arrives s s ⟨0, [.disconnect x]⟩
  | flush {x} producer : x ∈ s.registry.inserted → Arrives s s ⟨producer, [.enqueue x .flush]⟩
  | stop producer : Arrives s s ⟨producer, [.collectContexts, .collectKeys]⟩

/-- **Arrivals.** What arrives is one thread. -/
theorem call_cases {a : Call Guid} {new : List (Thread Guid)}
    (h : (scripts cfg).call s c.threads a = some (s', new)) : ∃ t, new = [t] ∧ Arrives s s' t := by
  change arrive s a = some (s', new) at h
  cases a with
  | receive p =>
    simp only [arrive] at h
    split at h
    · next hidle =>
      obtain ⟨rfl, rfl⟩ := Prod.mk.inj (Option.some.inj h)
      exact ⟨_, rfl, .receive p hidle⟩
    · exact absurd h (by simp)
  | runTask x position worker =>
    obtain ⟨⟨t, i, strand⟩, hbegin, heq⟩ := Option.map_eq_some_iff.mp h
    obtain ⟨rfl, rfl⟩ := Prod.mk.inj heq
    exact ⟨_, rfl, .runTask worker hbegin⟩
  | disconnectClient g producer =>
    obtain ⟨rfl, rfl⟩ := Prod.mk.inj (Option.some.inj h)
    exact ⟨_, rfl, .disconnectClient g producer⟩
  -- a caller needs the session
  | disconnect x | flush x =>
    simp only [arrive] at h
    split at h
    · next hx =>
      obtain ⟨rfl, rfl⟩ := Prod.mk.inj (Option.some.inj h)
      first
        | exact ⟨_, rfl, .disconnect hx⟩
        | exact ⟨_, rfl, .flush _ hx⟩
    · exact absurd h (by simp)
  | stop producer =>
    obtain ⟨rfl, rfl⟩ := Prod.mk.inj (Option.some.inj h)
    exact ⟨_, rfl, .stop producer⟩

/-- **Moves.** A move is a step of a thread, the end of a thread, or an arrival; pending
operations are counted over it. -/
theorem move_cases (h : (scripts cfg).program.step c m = some c') :
    (∃ t op i ch ops, m = .thread i (.step ch) ∧ Does ⟨c, m, c'⟩ t op ∧
      Step cfg c.shared t.tag ch op c'.shared ops ∧
      ∀ p : Op Guid → Bool, (p op).toNat ≤ pending p c ∧
        pending p c' + (p op).toNat = pending p c + ops.countP p) ∨
    (c'.shared = c.shared ∧ ∀ p : Op Guid → Bool, pending p c' = pending p c) ∨
    (∃ t, Arrives c.shared c'.shared t ∧
      ∀ p : Op Guid → Bool, pending p c' = pending p c + t.code.countP p) := by
  rcases pending_step h with ⟨t, op, -, -, -, hdoes, -⟩ | ⟨tag, hs, hp⟩ | ⟨a, new, -, hnew, hp⟩
  · obtain ⟨i, ch, ops, ts, hm, hop, hp⟩ := pending_of_does h hdoes
    obtain ⟨hstep, rfl⟩ := exec_inv hop
    exact Or.inl ⟨t, op, i, ch, ops, hm, hdoes, hstep, hp⟩
  · exact Or.inr (Or.inl ⟨hs, hp⟩)
  · obtain ⟨t, rfl, harr⟩ := call_cases hnew
    refine Or.inr (Or.inr ⟨t, harr, fun p => ?_⟩)
    rw [hp p, pendingIn_cons, pendingIn_nil, Nat.add_zero]

end ServerEvents
end SculkProtocol
