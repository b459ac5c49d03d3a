import SculkProtocol.Decoding.Decoder

/-!
# Refinement of decoders

`Refines W abs d d'` — on the streams in `W` the decoder `d` does what `d'` does on the stream that
`abs` makes of them, and it leaves a stream in `W`. It follows the shape of a decoder, and it
carries what `d'` recognises over to `d` (`Refines.ok_iff`).
-/

namespace SculkProtocol

open InputStream

namespace Decoder

variable {σ τ ε α γ : Type}

/-- From a stream in `W` both go the same way, and `W` is kept. -/
structure Refines (W : σ → Prop) (abs : σ → τ) (d : Decoder σ ε α) (d' : Decoder τ ε α) : Prop where
  keeps {s : σ} : W s → W (d s).1
  simulates {s : σ} : W s → d' (abs s) = (abs (d s).1, (d s).2)

variable {W : σ → Prop} {abs : σ → τ} {d : Decoder σ ε α} {d' : Decoder τ ε α} {s s' : σ}

theorem refines_pure (a : α) : Refines W abs (pure a : Decoder σ ε α) (pure a) where
  keeps h := h
  simulates _ := rfl

theorem Refines.eq_of (h : Refines W abs d d') (hs : W s) {x : Except ε α} (hd : d s = (s', x)) :
    W s' ∧ d' (abs s) = (abs s', x) := by
  have hkeeps := h.keeps hs
  have hsimulates := h.simulates hs
  rw [hd] at hkeeps hsimulates
  exact ⟨hkeeps, hsimulates⟩

/-- Parts that go the same way are put together in the same way. -/
theorem Refines.bind {f : α → Decoder σ ε γ} {f' : α → Decoder τ ε γ} (hd : Refines W abs d d')
    (hf : ∀ a, Refines W abs (f a) (f' a)) : Refines W abs (d >>= f) (d' >>= f') := by
  -- both properties at once, since the second part starts where the first one of `d` left off
  have hboth : ∀ s, W s → W ((d >>= f) s).1 ∧
      (d' >>= f') (abs s) = (abs ((d >>= f) s).1, ((d >>= f) s).2) := by
    intro s hs
    obtain ⟨t, x, hx⟩ : ∃ t x, d s = (t, x) := ⟨_, _, rfl⟩
    obtain ⟨ht, hx'⟩ := hd.eq_of hs hx
    cases x with
    | ok a =>
      rw [bind_of_ok hx, bind_of_ok hx']
      exact ⟨(hf a).keeps ht, (hf a).simulates ht⟩
    | error e =>
      rw [bind_of_error hx, bind_of_error hx']
      exact ⟨ht, rfl⟩
  exact ⟨fun hs => (hboth _ hs).1, fun hs => (hboth _ hs).2⟩

theorem mapError_of_ok {g : ε → ε} {a : α} (h : d s = (s', .ok a)) :
    d.mapError g s = (s', .ok a) := by
  simp only [Decoder.mapError, h]

theorem mapError_of_error {g : ε → ε} {e : ε} (h : d s = (s', .error e)) :
    d.mapError g s = (s', .error (g e)) := by
  simp only [Decoder.mapError, h]

theorem Refines.mapError {g : ε → ε} (hd : Refines W abs d d') :
    Refines W abs (d.mapError g) (d'.mapError g) := by
  have hboth : ∀ s, W s → W (d.mapError g s).1 ∧
      d'.mapError g (abs s) = (abs (d.mapError g s).1, (d.mapError g s).2) := by
    intro s hs
    obtain ⟨t, x, hx⟩ : ∃ t x, d s = (t, x) := ⟨_, _, rfl⟩
    obtain ⟨ht, hx'⟩ := hd.eq_of hs hx
    cases x with
    | ok a =>
      rw [mapError_of_ok hx, mapError_of_ok hx']
      exact ⟨ht, rfl⟩
    | error e =>
      rw [mapError_of_error hx, mapError_of_error hx']
      exact ⟨ht, rfl⟩
  exact ⟨fun hs => (hboth _ hs).1, fun hs => (hboth _ hs).2⟩

/-- Two decoders that agree wherever one of them is run. -/
theorem Refines.congr {d₁ : Decoder σ ε α} {d₁' : Decoder τ ε α} (h : Refines W abs d d')
    (hd : ∀ s, W s → d₁ s = d s) (hd' : ∀ s, W s → d₁' (abs s) = d' (abs s)) :
    Refines W abs d₁ d₁' where
  keeps hs := by
    rw [hd _ hs]
    exact h.keeps hs
  simulates hs := by
    rw [hd _ hs, hd' _ hs]
    exact h.simulates hs

variable {β : Type} [InputStream τ β] {L : List β → α → Prop} {a : α}

/-- **What the abstract decoder recognises, the concrete one does.** -/
theorem Refines.ok_iff (h : Refines W abs d d') (hL : Recognises d' L) (hs : W s)
    (husable : usable (abs s)) :
    (d s).2 = .ok a ↔
      ∃ bs, remaining (abs s) = bs ++ remaining (abs (d s).1) ∧ L bs a := by
  have hsimulates := h.simulates hs
  constructor
  · intro ha
    rw [ha] at hsimulates
    obtain ⟨bs, rest, hrest, hskip, hbs⟩ := hL.yields _ _ _ husable hsimulates
    refine ⟨bs, ?_, hbs⟩
    rw [hskip, remaining_of_append hrest]
    exact hrest
  · rintro ⟨bs, hrest, hbs⟩
    have haccepts := hL.accepts hbs _ _ husable hrest
    exact (congrArg Prod.snd (hsimulates.symm.trans haccepts))

/-- What the abstract decoder accepts is read, and what follows is left. -/
theorem Refines.reads (h : Refines W abs d d') {bs rest : List β} (ha : Accepts d' bs a) (hs : W s)
    (husable : usable (abs s)) (hrest : remaining (abs s) = bs ++ rest) :
    (d s).2 = .ok a ∧ remaining (abs (d s).1) = rest := by
  have heq := (h.simulates hs).symm.trans (ha _ _ husable hrest)
  have hstream : abs (d s).1 = skip (abs s) bs.length := congrArg Prod.fst heq
  refine ⟨congrArg Prod.snd heq, ?_⟩
  rw [hstream]
  exact remaining_of_append hrest

end Decoder
end SculkProtocol
