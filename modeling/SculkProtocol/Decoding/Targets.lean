import SculkProtocol.Decoding.Decoder

/-!
# Targets

Decoders that are given an object to read into. `Fills read L build` says that the object does
not matter for which texts are taken: the texts of a language `L`, of which an object `t` and what
stands in the text, `p`, make `build t p`. Then two objects have the same outcome exactly if what
stands at the beginning of the input makes the same of both (`Fills.sameOutcome_iff`).
-/

namespace SculkProtocol

open InputStream

namespace Decoder

variable {σ ε τ π α γ : Type} {β : Type} [InputStream σ β]

/-- Both fail, or both succeed with the same value. -/
def SameOutcome (d d' : Decoder σ ε α) (s : σ) : Prop := ∀ a, (d s).2 = .ok a ↔ (d' s).2 = .ok a

/-- Which texts are read does not depend on the target. -/
def Fills (read : τ → Decoder σ ε α) (L : List β → π → Prop) (build : τ → π → α) : Prop :=
  ∀ t, Recognises (read t) fun bs a => ∃ p, L bs p ∧ a = build t p

variable {read : τ → Decoder σ ε α} {L : List β → π → Prop} {build : τ → π → α}

/-- **The outcome depends on the target** exactly where the text makes something else of it. -/
theorem Fills.sameOutcome_iff (h : Fills read L build) {s : σ} (hs : usable s) (t t' : τ) :
    SameOutcome (read t) (read t') s ↔
      ∀ bs rest p, remaining s = bs ++ rest → L bs p → build t p = build t' p := by
  constructor
  · intro hsame bs rest p hrest hp
    have hread := (h t).accepts ⟨p, hp, rfl⟩ s rest hs hrest
    have hread' := (h t').accepts ⟨p, hp, rfl⟩ s rest hs hrest
    have hok := (hsame (build t p)).mp (congrArg Prod.snd hread)
    exact Except.ok.inj (hok.symm.trans (congrArg Prod.snd hread'))
  · intro hbuild
    -- a text that one of them reads is read by the other
    have hread : ∀ t₁ t₂ : τ, (∀ bs rest p, remaining s = bs ++ rest → L bs p →
      build t₁ p = build t₂ p) →
        ∀ a, (read t₁ s).2 = .ok a → (read t₂ s).2 = .ok a := by
      intro t₁ t₂ hbuild a ha
      obtain ⟨bs, rest, hrest, -, p, hp, rfl⟩ := (h t₁).yields s _ a hs (Prod.ext rfl ha)
      rw [hbuild bs rest p hrest hp]
      exact congrArg Prod.snd ((h t₂).accepts ⟨p, hp, rfl⟩ s rest hs hrest)
    intro a
    exact ⟨hread t t' hbuild a,
      hread t' t (fun bs rest p hrest hp => (hbuild bs rest p hrest hp).symm) a⟩

/-- After a part that does not know the target. -/
theorem Fills.after {d : Decoder σ ε γ} {M : List β → γ → Prop} (hd : Recognises d M)
    (h : Fills read L build) :
    Fills (fun t => d >>= fun _ => read t)
      (fun bs p => ∃ bs₁ bs₂, bs = bs₁ ++ bs₂ ∧ (∃ c, M bs₁ c) ∧ L bs₂ p) build := by
  intro t
  refine (hd.bind fun _ _ _ => h t).congr fun bs a => ⟨?_, ?_⟩
  · rintro ⟨bs₁, bs₂, c, rfl, hc, p, hp, rfl⟩
    exact ⟨p, ⟨bs₁, bs₂, rfl, ⟨c, hc⟩, hp⟩, rfl⟩
  · rintro ⟨p, ⟨bs₁, bs₂, rfl, ⟨c, hc⟩, hp⟩, rfl⟩
    exact ⟨bs₁, bs₂, c, rfl, hc, p, hp, rfl⟩

/-- The elements are made of one target each. -/
theorem Fills.each (h : Fills read L build) (ts : List τ) :
    Recognises (Decoder.each read ts) fun bs as =>
      ∃ ps, ps.length = ts.length ∧ Sequence L bs ps ∧ as = List.zipWith build ts ps := by
  induction ts with
  | nil =>
    refine (recognises_pure []).congr fun bs as => ⟨?_, ?_⟩
    · rintro ⟨rfl, rfl⟩
      exact ⟨[], rfl, sequence_nil.mpr rfl, rfl⟩
    · rintro ⟨ps, hlength, hps, rfl⟩
      rw [List.length_eq_zero_iff.mp hlength] at hps
      exact ⟨sequence_nil.mp hps, rfl⟩
  | cons t ts ih =>
    refine ((h t).bind fun _ a _ => ih.bind_pure).congr fun bs as => ⟨?_, ?_⟩
    · rintro ⟨bs₁, bs₂, _, rfl, ⟨p, hp, rfl⟩, _, ⟨ps, hlength, hps, rfl⟩, rfl⟩
      exact ⟨p :: ps, congrArg Nat.succ hlength, sequence_cons.mpr ⟨bs₁, bs₂, rfl, hp, hps⟩, rfl⟩
    · rintro ⟨ps, hlength, hps, rfl⟩
      cases ps with
      | nil => exact absurd hlength nofun
      | cons p ps =>
        obtain ⟨bs₁, bs₂, rfl, hp, hps⟩ := sequence_cons.mp hps
        exact ⟨bs₁, bs₂, _, rfl, ⟨p, hp, rfl⟩, _, ⟨ps, Nat.succ.inj hlength, hps, rfl⟩, rfl⟩

end Decoder
end SculkProtocol
