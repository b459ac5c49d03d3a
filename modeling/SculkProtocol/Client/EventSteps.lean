import SculkProtocol.Client.Events

/-!
# What a step of a client does

`Step` is the inversion of `step`, and `Processed` that of `processIncomingPacket`: what
the work on a packet does to the session, and what it leaves to the pump job. The results
on callbacks are derived from these two.
-/

namespace SculkProtocol
namespace ClientEvents

variable {cfg : Settings} {s s' : State} {io io' : Io} {p : Packet} {ch : Choice} {ops : List Op}
  {l : Label}

/-- The connection of a packet callback. -/
def Callback.packet? : Callback → Option ℕ
  | .event _ => none
  | .onRawPacketReceive k | .onPacketReceive k | .onPacketParseFailed k => some k

/-- The connection whose packet an operation works on. -/
def Op.worksOn : Op → Option ℕ
  | .dispatch k _ | .parse k _ => some k
  | _ => none

/-- The connection whose packet callback is started by the pump job's next operation. -/
def startsPacket (cfg : Settings) (s : State) : Label → Option ℕ
  | .pump _ =>
    match s.pump with
    | .dispatch k (_ :: _) :: _ =>
      if cfg.mCallbacks.mOnPacketReceive && cfg.mCallbacks.mOnRawPacketReceive then some k else none
    | .parse k .readable :: _ => some k
    | .parse k _ :: _ => if cfg.mCallbacks.mOnPacketParseFailed then some k else none
    | _ => none
  | _ => none

/-! ### The work on a packet -/

/-- The connection ends, or an attempt fails. -/
def ConnectionEvent.ends : ConnectionEvent → Option ℕ
  | .onConnected _ => none
  | .onDisconnected k | .onConnectionFailed k => some k

/-- What the work on a packet does to the session, and what it leaves to do. -/
inductive Processed (cfg : Settings) (s : Io) : Io → List Op → Prop
  | kept {io : Io} : io.mSession = s.mSession → io.announced = s.announced → Processed cfg s io []
  | cleared {io : Io} : io.mSession = none → io.announced = s.announced → Processed cfg s io []
  | announced {io : Io} : io.mSession = some (s.announced + 1) → io.announced = s.announced + 1 →
      Processed cfg s io (report cfg.mCallbacks.mOnConnected (.onConnected (s.announced + 1)))
  | ended {io : Io} {set : Bool} {e : ConnectionEvent} : io.mSession = none →
      io.announced = s.announced →
      e.ends = some s.announced → Processed cfg s io (report set e)
  | dispatch {io : Io} {k payloads} : io.mSession = s.mSession → io.announced = s.announced →
      s.mSession = some k → Processed cfg s io [.dispatch k payloads]

@[simp] theorem resetIngressWindow_mSession : io.resetIngressWindow.mSession = io.mSession := rfl

@[simp] theorem resetIngressWindow_announced : io.resetIngressWindow.announced = io.announced := rfl

@[simp] theorem disconnectSession_mSession : io.disconnectSession.mSession = none := rfl

@[simp] theorem disconnectSession_announced : io.disconnectSession.announced = io.announced := rfl

@[simp] theorem openWindow_mSession (now : ℤ) : (io.openWindow now).mSession = io.mSession := by
  unfold Io.openWindow
  split <;> rfl

@[simp] theorem openWindow_announced (now : ℤ) : (io.openWindow now).announced = io.announced := by
  unfold Io.openWindow
  split <;> rfl

@[simp] theorem countPacket_mSession : io.countPacket.mSession = io.mSession := rfl

@[simp] theorem countPacket_announced : io.countPacket.announced = io.announced := rfl

/-- A packet that is refused keeps or clears the session. -/
theorem refuse_processed (hsession : io'.mSession = io.mSession)
    (hannounced : io'.announced = io.announced) :
    Processed cfg io (io'.refuse cfg ch) [] := by
  unfold Io.refuse
  split
  · exact .cleared rfl hannounced
  · exact .kept hsession hannounced

/-- What is done with a message is one of the ways. -/
theorem processMessage_processed (hsession : io'.mSession = io.mSession)
    (hannounced : io'.announced = io.announced) :
    Processed cfg io (processMessage cfg io' p ch).1 (processMessage cfg io' p ch).2 := by
  unfold processMessage
  rw [hannounced]
  split
  · exact .announced (by simp [Io.announce, hannounced]) (by simp [Io.announce, hannounced])
  · exact .ended rfl hannounced rfl
  · exact .ended rfl hannounced rfl
  · exact .ended rfl hannounced rfl
  · exact .ended rfl hannounced rfl
  · split
    · exact .kept hsession hannounced
    · split
      · next k payloads hk _ => exact .dispatch hsession hannounced (hsession ▸ hk)
      · exact .kept hsession hannounced
  · exact .kept hsession hannounced

/-- So is what is done with a packet. -/
theorem processIncomingPacket_processed (io : Io) (p : Packet) (ch : Choice) :
    Processed cfg io (processIncomingPacket cfg io p ch).1
      (processIncomingPacket cfg io p ch).2 := by
  simp only [processIncomingPacket]
  split
  · exact refuse_processed rfl rfl
  · split
    · exact refuse_processed rfl rfl
    · split
      · exact refuse_processed (openWindow_mSession _) (openWindow_announced _)
      · exact processMessage_processed (by simp) (by simp)

/-! ### Steps -/

/-- What a step of a client does. -/
inductive Step (cfg : Settings) (s : State) : Label → State → Prop
  | receive {p : Packet} {ch : Choice} {producer : ℕ} {io : Io} {ops : List Op} :
      s.pump = [] → Processed cfg s.io io ops →
      processIncomingPacket cfg s.io p ch = (io, ops) →
      Step cfg s (.receive p ch producer) { s with
        io := io, pump := ops, producer := producer, handed := ops.filterMap Op.event? ++ s.handed }
  | accept {e rest} : s.pump = .enqueue e :: rest → Step cfg s (.pump true)
      { s with pump := rest, mCallbackStrand := s.mCallbackStrand.enqueue s.producer e }
  | refuse {e rest} : s.pump = .enqueue e :: rest →
      Step cfg s (.pump false) { s with pump := .callInPlace e :: rest }
  | callInPlace {e rest ok} : s.pump = .callInPlace e :: rest → Step cfg s (.pump ok)
      { s with pump := .ret e :: rest, log := .start (.event e) :: s.log }
  | retInPlace {e rest ok} : s.pump = .ret e :: rest →
      Step cfg s (.pump ok) { s with pump := rest, log := .ret e :: s.log }
  /-- work on a packet that calls nothing -/
  | work {op : Op} {k : ℕ} {rest ops : List Op} {ok : Bool} :
      s.pump = op :: rest → op.worksOn = some k →
      (∀ o ∈ ops, o.worksOn = some k) → startsPacket cfg s (.pump ok) = none →
      Step cfg s (.pump ok) { s with pump := ops ++ rest }
  /-- a packet callback -/
  | packet {op : Op} {k : ℕ} {c : Callback} {rest ops : List Op} {ok : Bool} :
      s.pump = op :: rest → op.worksOn = some k →
      (∀ o ∈ ops, o.worksOn = some k) → c.packet? = some k →
      startsPacket cfg s (.pump ok) = some k →
      Step cfg s (.pump ok) { s with pump := ops ++ rest, log := .start c :: s.log }
  | begin {position e i strand} : s.mCallbackStrand.begin position = some (e, i, strand) →
      Step cfg s (.begin position)
        { s with mCallbackStrand := strand, log := .start (.event e) :: s.log }
  | ret {e i} : s.mCallbackStrand.current = some e → Step cfg s .ret
      { s with mCallbackStrand := s.mCallbackStrand.finish i, log := .ret e :: s.log }
  | teardown : s.pump = [] → Step cfg s .teardown { s with io := s.io.disconnectSession }

/-- The pump job's next operation. -/
theorem execOp_step {op : Op} {rest : List Op} (hpump : s.pump = op :: rest) (ok : Bool) :
    Step cfg s (.pump ok) { (execOp cfg s ok op).1 with pump := (execOp cfg s ok op).2 ++
      rest } := by
  cases op with
  | enqueue e =>
    cases ok with
    | true => exact .accept hpump
    | false => exact .refuse hpump
  | callInPlace e => exact .callInPlace hpump
  | ret e => exact .retInPlace hpump
  -- what is done with a payload depends on the two callbacks
  | dispatch k payloads =>
    cases payloads with
    | nil => exact .work (k := k) hpump rfl (by simp [execOp]) (by simp [startsPacket, hpump])
    | cons payload payloads =>
      cases hset : cfg.mCallbacks.mOnPacketReceive with
      | false =>
        simp only [execOp, hset]
        exact .work (k := k) hpump rfl (by simp [Op.worksOn]) (by simp [startsPacket, hpump, hset])
      | true =>
        cases hraw : cfg.mCallbacks.mOnRawPacketReceive with
        | false =>
          simp only [execOp, hset, hraw]
          exact .work (k := k) hpump rfl (by simp [Op.worksOn])
            (by simp [startsPacket, hpump, hraw])
        | true =>
          simp only [execOp, hset, hraw]
          refine .packet (k := k) hpump rfl (fun o ho => ?_) rfl
            (by simp [startsPacket, hpump, hset, hraw])
          cases ok <;> simp at ho <;> rcases ho with rfl | rfl <;> rfl
  | parse k payload =>
    cases payload with
    | readable =>
      exact .packet (k := k) hpump rfl (by simp [execOp]) rfl (by simp [startsPacket, hpump])
    -- a payload that cannot be read is reported, if a callback is set
    | noHeader | unreadable =>
      cases hset : cfg.mCallbacks.mOnPacketParseFailed with
      | false =>
        simp only [execOp, hset]
        exact .work (k := k) hpump rfl (by simp) (by simp [startsPacket, hpump, hset])
      | true =>
        simp only [execOp, hset]
        exact .packet (k := k) hpump rfl (by simp) rfl (by simp [startsPacket, hpump, hset])

/-- **Steps.** Every step is of one of these kinds. -/
theorem step_cases (h : step cfg s l = some s') : Step cfg s l s' := by
  cases l with
  | receive p ch producer =>
    simp only [step] at h
    split at h
    · next hpump =>
      rw [← Option.some.inj h]
      exact .receive hpump (processIncomingPacket_processed _ _ _) rfl
    · exact absurd h nofun
  -- the pump job goes on with what is left of its packet
  | pump ok =>
    simp only [step] at h
    split at h
    · exact absurd h nofun
    · next op rest hpump =>
      rw [← Option.some.inj h]
      exact execOp_step hpump ok
  | begin position =>
    obtain ⟨⟨e, i, strand⟩, hbegin, rfl⟩ := Option.map_eq_some_iff.mp h
    exact .begin hbegin
  | ret =>
    obtain ⟨i, hi, h⟩ := Option.bind_eq_some_iff.mp h
    obtain ⟨e, he, rfl⟩ := Option.map_eq_some_iff.mp h
    exact .ret (by rw [Strand.current, hi]; exact he)
  | teardown =>
    simp only [step] at h
    split at h
    · next hpump =>
      rw [← Option.some.inj h]
      exact .teardown hpump
    · exact absurd h nofun

end ClientEvents
end SculkProtocol
