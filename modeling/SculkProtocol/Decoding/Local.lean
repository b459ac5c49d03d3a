import SculkProtocol.Decoding.Decoder

/-!
# Local decoders

A decoder is `Local` if what it consumes decides whether it succeeds and with which value. Local
decoders are put together of local ones.

An input begins with at most one text that a decoder accepts (`Accepts.unique`). So one can
speak of the value of the first part of an input, and `Recognises.first_iff` says when this value
has some property in every input that is decoded.
-/

namespace SculkProtocol

open InputStream

namespace Decoder

variable {σ ε α γ : Type} {β : Type} [InputStream σ β]

/-- What is decoded is a text that is accepted wherever it stands. -/
abbrev Local (d : Decoder σ ε α) : Prop := Recognises d (Accepts d)

theorem local_pure (a : α) : Local (pure a : Decoder σ ε α) := (recognises_pure a).of_accepted

theorem local_fail (e : ε) : Local (fail e : Decoder σ ε α) := (recognises_fail e).of_accepted

section

variable {d : Decoder σ ε α} {f : α → Decoder σ ε γ}

theorem Local.bind (hd : Local d) (hf : ∀ a, Local (f a)) : Local (d >>= f) :=
  (Recognises.bind hd fun _ a _ => hf a).of_accepted

theorem Local.bind_pure {g : α → γ} (hd : Local d) : Local (d >>= fun a => pure (g a)) :=
  hd.bind fun a => local_pure (g a)

theorem Local.ite {c : Prop} [Decidable c] {d' : Decoder σ ε α} (hd : Local d) (hd' : Local d') :
    Local (if c then d else d') := by
  split
  · exact hd
  · exact hd'

theorem Local.each {τ : Type} {f : τ → Decoder σ ε α} {ts : List τ} (hf : ∀ t ∈ ts, Local (f t)) :
    Local (Decoder.each f ts) := by
  induction ts with
  | nil => exact local_pure []
  | cons t ts ih =>
    have hrest := ih fun t' ht' => hf t' (List.mem_cons_of_mem _ ht')
    exact (hf t List.mem_cons_self).bind fun a => hrest.bind_pure

end

/-- **A whole input** is decoded, with nothing left, if it is in the language. -/
theorem Recognises.whole_iff {d : Decoder σ ε α} {L : List β → α → Prop} (hd : Recognises d L)
    {s : σ} (hs : usable s)
    {a : α} : (∃ s', d s = (s', .ok a) ∧ remaining s' = ([] : List β)) ↔ L (remaining s) a := by
  constructor
  · rintro ⟨s', hread, hleft⟩
    obtain ⟨bs, rest, hrest, rfl, ha⟩ := hd.yields s s' a hs hread
    rw [remaining_of_append hrest] at hleft
    rwa [hrest, hleft, List.append_nil]
  · intro ha
    have hrest : remaining s = remaining s ++ [] := (List.append_nil _).symm
    exact ⟨_, hd.accepts ha s [] hs hrest, remaining_of_append hrest⟩

/-! ### The first part of an input -/

section

variable {d : Decoder σ ε α} {read : Decoder σ ε γ} {L : List β → α → Prop}
  {M : α → List β → γ → Prop}
  {bs bs' rest rest' : List β} {a a' : α} {s : σ}

/-- An input begins with one accepted text. -/
theorem Accepts.unique (ha : Accepts d bs a) (ha' : Accepts d bs' a') (hs : usable s)
    (h : remaining s = bs ++ rest) (h' : remaining s = bs' ++ rest') : a = a' ∧ rest = rest' := by
  have hsame := (ha s rest hs h).symm.trans (ha' s rest' hs h')
  constructor
  · exact Except.ok.inj (congrArg Prod.snd hsame)
  · have hleft := congrArg (fun r => remaining r.1) hsame
    simp only at hleft
    rwa [remaining_of_append h, remaining_of_append h'] at hleft

/-- **The first part.** In every input that is decoded its value has the property, if and only if
no text with another value is followed by what belongs to this value. -/
theorem Recognises.first_iff (hd : Recognises d L) (hread : Recognises read (Then L M))
    (hs : usable s)
    (P : α → Prop) :
    (∀ t c, read s = (t, .ok c) → ∀ bs a rest, remaining s = bs ++ rest → L bs a → P a) ↔
      ¬ ∃ bs a body c rest, remaining s = bs ++ (body ++ rest) ∧ L bs a ∧ ¬ P a ∧ M a body c := by
  constructor
  · rintro h ⟨bs, a, body, c, rest, hinput, ha, hP, hc⟩
    have hdecoded :=
      hread.accepts ⟨bs, body, a, rfl, ha, hc⟩ s rest hs (hinput.trans (List.append_assoc ..).symm)
    exact hP (h _ c hdecoded bs a (body ++ rest) hinput ha)
  · intro h t c hdecoded bs a rest hinput ha
    by_contra hP
    obtain ⟨_, rest', hinput', -, bs₁, bs₂, a₁, rfl, ha₁, hc⟩ := hread.yields s t c hs hdecoded
    rw [List.append_assoc] at hinput'
    -- both are the value of the one text that the input begins with
    obtain ⟨rfl, -⟩ := (hd.accepts ha).unique (hd.accepts ha₁) hs hinput hinput'
    exact h ⟨bs₁, a, bs₂, c, rest', hinput', ha₁, hP, hc⟩

end

end Decoder
end SculkProtocol
