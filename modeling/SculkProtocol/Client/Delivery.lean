import SculkProtocol.Client.EventSteps

/-!
# Each event is delivered once

A connection event that the pump job hands over (`State.handed`) is called once and
returns once, whether the strand takes it or refuses it: what has been called and what
still waits for its call, or has returned and is still under way, add up to what was
handed over (`Delivered`).
-/

namespace SculkProtocol
namespace ClientEvents

variable {cfg : Settings} {s s' : State} {l : Label} {p : ConnectionEvent → Bool}

/-- Brings an event to its call. -/
def Op.brings (p : ConnectionEvent → Bool) : Op → Bool
  | .enqueue e | .callInPlace e => p e
  | _ => false

/-- Brings an event to its call or its return. -/
def Op.carries (p : ConnectionEvent → Bool) : Op → Bool
  | .enqueue e | .callInPlace e | .ret e => p e
  | _ => false

def LogEntry.starts (p : ConnectionEvent → Bool) : LogEntry → Bool
  | .start (.event e) => p e
  | _ => false

def LogEntry.returns (p : ConnectionEvent → Bool) : LogEntry → Bool
  | .ret e => p e
  | _ => false

/-- The events that wait for their call: in the pump job's hands or queued. -/
def waiting (s : State) (p : ConnectionEvent → Bool) : ℕ :=
  s.pump.countP (Op.brings p) + s.mCallbackStrand.queued p

/-- The events that are tasks of the strand, queued or running. -/
def inStrand (s : State) (p : ConnectionEvent → Bool) : ℕ :=
  s.mCallbackStrand.queued p + (s.mCallbackStrand.current.any p).toNat

/-- The events in the pump job's hands or the strand's. -/
def underWay (s : State) (p : ConnectionEvent → Bool) : ℕ :=
  s.pump.countP (Op.carries p) + inStrand s p

/-- Every event that was handed over is called once and returns once. -/
structure Delivered (s : State) : Prop where
  numbered : s.mCallbackStrand.Numbered
  started : ∀ p, s.log.countP (LogEntry.starts p) + waiting s p = s.handed.countP p
  returned : ∀ p, s.log.countP (LogEntry.returns p) + underWay s p = s.handed.countP p

theorem delivered_initial : Delivered State.initial where
  numbered := Strand.numbered_empty
  started _ := rfl
  returned _ := rfl

/-! ### What a step adds -/

theorem Op.not_brings_of_worksOn {op : Op} {k : ℕ} (h : op.worksOn = some k) :
    op.brings p = false := by
  cases op with
  | dispatch | parse => rfl
  | _ => exact absurd h nofun

theorem Op.not_carries_of_worksOn {op : Op} {k : ℕ} (h : op.worksOn = some k) :
    op.carries p = false := by
  cases op with
  | dispatch | parse => rfl
  | _ => exact absurd h nofun

theorem countP_report (set : Bool) (e : ConnectionEvent) (p : ConnectionEvent → Bool) :
    ((report set e).filterMap Op.event?).countP p = (set && p e).toNat := by
  cases set with
  | false => rfl
  | true => cases hp : p e <;> simp [report, Op.event?, hp]

/-- The work on a packet hands over what it leaves to bring to its call. -/
theorem Processed.countP {io io' : Io} {ops : List Op} (h : Processed cfg io io' ops)
    (p : ConnectionEvent → Bool) :
    ops.countP (Op.brings p) = (ops.filterMap Op.event?).countP p ∧
      ops.countP (Op.carries p) = (ops.filterMap Op.event?).countP p := by
  have hreport : ∀ (set : Bool) (e : ConnectionEvent),
      (report set e).countP (Op.brings p) = ((report set e).filterMap Op.event?).countP p ∧
        (report set e).countP (Op.carries p) = ((report set e).filterMap Op.event?).countP p := by
    intro set e
    rw [countP_report]
    cases set with
    | false => exact ⟨rfl, rfl⟩
    | true => cases hp : p e <;> simp [report, Op.brings, Op.carries, hp]
  cases h with
  | kept | cleared | dispatch => exact ⟨rfl, rfl⟩
  | announced | ended => exact hreport _ _

/-- Operations on a packet carry no event. -/
theorem countP_of_worksOn {q : Op → Bool} {k : ℕ} {ops : List Op}
    (hq : ∀ {op : Op}, op.worksOn = some k → q op = false) (h : ∀ o ∈ ops, o.worksOn = some k) :
    ops.countP q = 0 :=
  List.countP_eq_zero.mpr fun op hop => by simp [hq (h op hop)]

/-- Each step takes an event at most one place on. -/
theorem delivered_step (hs : Delivered s) (h : step cfg s l = some s') : Delivered s' := by
  have hstarted := hs.started
  have hreturned := hs.returned
  simp only [waiting] at hstarted
  simp only [underWay, inStrand] at hreturned
  cases step_cases h with
  | receive hidle hprocessed _ =>
    refine ⟨hs.numbered, fun p => ?_, fun p => ?_⟩
    · simp only [waiting, List.countP_append, ← hstarted p, (hprocessed.countP p).1, hidle,
        List.countP_nil]
      omega
    · simp only [underWay, inStrand, List.countP_append, ← hreturned p, (hprocessed.countP p).2,
        hidle, List.countP_nil]
      omega
  | @accept e rest hpump =>
    -- from the pump job into the strand
    simp only [hpump, List.countP_cons] at hstarted hreturned
    refine ⟨hs.numbered.enqueue _ _, fun p => ?_, fun p => ?_⟩
    · rw [← hstarted p]
      cases hp : p e <;> simp [waiting, Strand.queued_enqueue hs.numbered, Op.brings, hp]
      omega
    · rw [← hreturned p]
      cases hp : p e <;> simp [underWay, inStrand, Strand.queued_enqueue hs.numbered,
        Strand.current_enqueue hs.numbered, Op.carries, hp]
      omega
  | @refuse e rest hpump =>
    rw [hpump] at hstarted hreturned
    exact ⟨hs.numbered, hstarted, hreturned⟩
  | @callInPlace e rest ok hpump =>
    rw [hpump] at hstarted hreturned
    refine ⟨hs.numbered, fun p => ?_, hreturned⟩
    rw [← hstarted p]
    cases hp : p e <;> simp [waiting, Op.brings, LogEntry.starts, hp]
    omega
  | @retInPlace e rest ok hpump =>
    simp only [hpump, List.countP_cons] at hstarted hreturned
    refine ⟨hs.numbered, fun p => ?_, fun p => ?_⟩
    · simp [waiting, ← hstarted p, Op.brings, LogEntry.starts]
    · rw [← hreturned p]
      cases hp : p e <;> simp [underWay, inStrand, Op.carries, LogEntry.returns, hp]
      omega
  | work hpump hop hops _ =>
    simp only [hpump, List.countP_cons, Op.not_brings_of_worksOn hop, Op.not_carries_of_worksOn hop]
      at hstarted hreturned
    exact ⟨hs.numbered,
      fun p => by simp [waiting, ← hstarted p, countP_of_worksOn Op.not_brings_of_worksOn hops],
      fun p => by simp [underWay, inStrand, ← hreturned p,
        countP_of_worksOn Op.not_carries_of_worksOn hops]⟩
  | @packet op k c rest ops ok hpump hop hops hc _ =>
    simp only [hpump, List.countP_cons, Op.not_brings_of_worksOn hop, Op.not_carries_of_worksOn hop]
      at hstarted hreturned
    have hstarts : ∀ p, (LogEntry.start c).starts p = false := by
      intro p
      cases c with
      | event e => exact absurd hc nofun
      | _ => rfl
    exact ⟨hs.numbered,
      fun p => by simp [waiting, ← hstarted p, countP_of_worksOn Op.not_brings_of_worksOn hops,
        hstarts],
      fun p => by simp [underWay, inStrand, ← hreturned p, LogEntry.returns,
        countP_of_worksOn Op.not_carries_of_worksOn hops]⟩
  | @begin position e i strand hbegin =>
    -- out of the queue, and at work
    obtain ⟨hidle, hcurrent⟩ := Strand.current_begin hbegin
    have hqueued := Strand.queued_begin hbegin
    refine ⟨hs.numbered.begin hbegin, fun p => ?_, fun p => ?_⟩
    · rw [← hstarted p, ← hqueued p]
      cases hp : p e <;> simp [waiting, LogEntry.starts, hp]
      omega
    · rw [← hreturned p, ← hqueued p]
      cases hp : p e <;> simp [underWay, inStrand, LogEntry.returns, hidle, hcurrent, hp]
  | @ret e i hcurrent =>
    simp only [hcurrent] at hreturned
    refine ⟨hs.numbered.finish i, fun p => ?_, fun p => ?_⟩
    · simp [waiting, ← hstarted p, LogEntry.starts]
    · rw [← hreturned p]
      cases hp : p e <;> simp [underWay, inStrand, LogEntry.returns, hp]
      omega
  | teardown hidle => exact ⟨hs.numbered, hs.started, hs.returned⟩

end ClientEvents
end SculkProtocol
