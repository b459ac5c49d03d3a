import SculkProtocol.Decoding.Decoder

/-!
# What decoders do to their stream

* `Always R d` — however `d` ends, the stream that it leaves is related by `R` to the one it was
  given. For a relation that is reflexive and transitive this follows the shape of a decoder.
* `Ensures d Q` — where `d` succeeds, `Q` holds of the stream it was given, the value, and the
  stream that it leaves.

A program may also go on after a failure, which `attempt` turns into a value.
-/

namespace SculkProtocol

namespace Decoder

/-- A relation of what was to what is, over any number of steps. -/
structure StepRelation {σ : Type} (R : σ → σ → Prop) : Prop where
  refl (s : σ) : R s s
  trans {s t u : σ} : R s t → R t u → R s u

variable {σ ε ε' α γ : Type}

/-- The failure is a value, so that what follows goes on. -/
def attempt (d : Decoder σ ε α) : Decoder σ ε' (Except ε α) := fun s => ((d s).1, .ok (d s).2)

def Always (R : σ → σ → Prop) (d : Decoder σ ε α) : Prop := ∀ s, R s (d s).1

def Ensures (d : Decoder σ ε α) (Q : σ → α → σ → Prop) : Prop := ∀ s s' a, d s =
    (s', .ok a) → Q s a s'

variable {R : σ → σ → Prop} {d : Decoder σ ε α} {f : α → Decoder σ ε γ}

/-! ### Always -/

/-- `pure` takes no step. -/
theorem StepRelation.pure (hR : StepRelation R) (a : α) :
    Always R (pure a : Decoder σ ε α) := fun s => hR.refl s

/-- Neither does a failure. -/
theorem StepRelation.fail (hR : StepRelation R) (e : ε) :
    Always R (fail e : Decoder σ ε α) := fun s => hR.refl s

/-- Two decoders take their steps one after the other. -/
theorem StepRelation.bind (hR : StepRelation R) (hd : Always R d) (hf : ∀ a, Always R (f a)) :
    Always R (d >>= f) := by
  intro s
  obtain ⟨t, x, h⟩ : ∃ t x, d s = (t, x) := ⟨_, _, rfl⟩
  have hfirst : R s t := by
    have := hd s
    rwa [h] at this
  cases x with
  | ok a =>
    rw [bind_of_ok h]
    exact hR.trans hfirst (hf a t)
  | error e =>
    rw [bind_of_error h]
    exact hfirst

/-- So do any number of them. -/
theorem StepRelation.each {τ : Type} {r : τ → Decoder σ ε α} (hR : StepRelation R)
    (h : ∀ t, Always R (r t))
    (ts : List τ) : Always R (Decoder.each r ts) := by
  induction ts with
  | nil => exact hR.pure []
  | cons t ts ih => exact hR.bind (h t) fun a => hR.bind ih fun as => hR.pure (a :: as)

/-- Renaming errors takes the same steps. -/
theorem Always.mapError {g : ε → ε} (h : Always R d) : Always R (d.mapError g) := by
  intro s
  obtain ⟨t, x, hx⟩ : ∃ t x, d s = (t, x) := ⟨_, _, rfl⟩
  have hstep := h s
  rw [hx] at hstep
  cases x with
  | ok a => simpa only [Decoder.mapError, hx] using hstep
  | error e => simpa only [Decoder.mapError, hx] using hstep

/-- So does an attempt. -/
theorem Always.attempt (h : Always R d) : Always R (d.attempt : Decoder σ ε' _) := h

/-! ### On success -/

variable {P : σ → α → σ → Prop} {Q : σ → γ → σ → Prop} {M : α → σ → γ → σ → Prop}

/-- `pure` ensures what holds of its value. -/
theorem ensures_pure {P : σ → α → σ → Prop} {a : α} (h : ∀ s, P s a s) :
    Ensures (pure a : Decoder σ ε α) P := by
  intro s s' b hs
  cases hs
  exact h s

/-- A failure ensures anything. -/
theorem ensures_fail {e : ε} : Ensures (fail e : Decoder σ ε α) P :=
  fun _ _ _ h => absurd (congrArg Prod.snd h) (by simp [fail])

/-- What the two parts ensure, put together. -/
theorem Ensures.bind (hd : Ensures d P) (hf : ∀ a, Ensures (f a) (M a))
    (h : ∀ s a t b u, P s a t → M a t b u → Q s b u) : Ensures (d >>= f) Q := by
  intro s s' b hs
  obtain ⟨t, a, hda, hfa⟩ := bind_eq_ok.mp hs
  exact h s a t b s' (hd s t a hda) (hf a t s' b hfa)

/-- A value that is only converted is ensured as before. -/
theorem Ensures.bind_pure {g : α → γ} (hd : Ensures d P) (h : ∀ s a t, P s a t → Q s (g a) t) :
    Ensures (d >>= fun a => pure (g a)) Q := by
  intro s s' b hs
  obtain ⟨t, a, hda, hfa⟩ := bind_eq_ok.mp hs
  rw [pure_eq] at hfa
  cases hfa
  exact h s a s' (hd s s' a hda)

/-- Renaming errors ensures the same. -/
theorem Ensures.mapError {g : ε → ε} (h : Ensures d P) : Ensures (d.mapError g) P := by
  intro s s' a hs
  obtain ⟨t, x, hx⟩ : ∃ t x, d s = (t, x) := ⟨_, _, rfl⟩
  cases x with
  | ok b =>
    simp only [Decoder.mapError, hx] at hs
    cases hs
    exact h s _ _ hx
  | error e =>
    simp only [Decoder.mapError, hx] at hs
    exact absurd (congrArg Prod.snd hs) (by simp)

/-- What is ensured may be weakened. -/
theorem Ensures.mono {P' : σ → α → σ → Prop} (h : Ensures d P) (hP : ∀ s a t, P s a t → P' s a t) :
    Ensures d P' :=
  fun s s' a hs => hP s a s' (h s s' a hs)

end Decoder
end SculkProtocol
