import Mathlib.Data.List.Basic

/-!
# Decoders

A decoder takes a stream and returns the stream it leaves with a value or a failure. Decoders
are put together by `bind` and by the loop `each`, and so are the statements about them:

* `Accepts d bs a` — whatever follows `bs`, it is decoded as `a`, and what follows is left;
* `Yields d L` — what is decoded is a text of the language `L`, with the value that `L` gives it;
* `Recognises d L` — both: the decoder succeeds exactly where the input begins with a text of `L`;
* `Raises E d bs` — whatever follows `bs`, the decoder fails, with a failure of the kind `E`;
* `Blames E d R` — such a failure happens only where the input begins with a text of `R`;
* `Fails E d R` — both. `Safe E d` is the case of an empty `R`.

A decoder without recursion is treated by `Recognises` and `Fails` at once. For one that calls
itself, `Yields` and `Blames` go by induction on its fuel, `Accepts` and `Raises` by induction
on the text.
-/

namespace SculkProtocol

/-- Streams that are consumed from the front. -/
class InputStream (σ : Type) (β : outParam Type) where
  usable : σ → Prop
  remaining : σ → List β
  skip : σ → ℕ → σ
  usable_skip {s : σ} {n : ℕ} : usable s → n ≤ (remaining s).length → usable (skip s n)
  remaining_skip (s : σ) (n : ℕ) : remaining (skip s n) = (remaining s).drop n
  skip_zero (s : σ) : skip s 0 = s
  skip_skip (s : σ) (m n : ℕ) : skip (skip s m) n = skip s (m + n)

/-- A stream goes in; the stream that is left comes out, with a value or a failure. -/
def Decoder (σ ε α : Type) : Type := σ → σ × Except ε α

namespace Decoder

open InputStream

section

variable {σ ε α β : Type}

instance : Monad (Decoder σ ε) where
  pure a := fun s => (s, .ok a)
  bind d f := fun s =>
    match d s with
    | (s, .ok a) => f a s
    | (s, .error e) => (s, .error e)

def fail (e : ε) : Decoder σ ε α := fun s => (s, .error e)

/-- The failures of a decoder, renamed. -/
def mapError (g : ε → ε) (d : Decoder σ ε α) : Decoder σ ε α := fun s =>
  match d s with
  | (s, .ok a) => (s, .ok a)
  | (s, .error e) => (s, .error (g e))

/-- A decoder run once for each of some targets. -/
def each {τ : Type} (f : τ → Decoder σ ε α) : List τ → Decoder σ ε (List α)
  | [] => pure []
  | t :: ts => do
    let a ← f t
    let as ← each f ts
    pure (a :: as)

variable {d : Decoder σ ε α} {f : α → Decoder σ ε β} {s s' : σ} {a : α} {b : β} {e : ε}

/-- `pure` reads nothing. -/
theorem pure_eq : (pure a : Decoder σ ε α) s = (s, .ok a) := rfl

/-- Where the first decoder succeeds, the second one goes on from its state. -/
theorem bind_of_ok (h : d s = (s', .ok a)) : (d >>= f) s = f a s' := by
  show (match d s with | (s, .ok a) => f a s | (s, .error e) => (s, .error e)) = _
  rw [h]

/-- Where the first decoder fails, so do both. -/
theorem bind_of_error (h : d s = (s', .error e)) : (d >>= f) s = (s', .error e) := by
  show (match d s with | (s, .ok a) => f a s | (s, .error e) => (s, .error e)) = _
  rw [h]

/-- A sequence succeeds if both parts do. -/
theorem bind_eq_ok : (d >>= f) s = (s', .ok b) ↔ ∃ t a, d s = (t, .ok a) ∧ f a t = (s', .ok b) := by
  obtain ⟨t, x, h⟩ : ∃ t x, d s = (t, x) := ⟨_, _, rfl⟩
  cases x with
  | ok a =>
    rw [bind_of_ok h]
    constructor
    · exact fun hf => ⟨t, a, h, hf⟩
    · rintro ⟨t', a', h', hf⟩
      cases h.symm.trans h'
      exact hf
  | error e =>
    rw [bind_of_error h]
    constructor
    · exact fun hf => absurd (congrArg Prod.snd hf) (by simp)
    · rintro ⟨t', a', h', -⟩
      exact absurd (congrArg Prod.snd (h.symm.trans h')) (by simp)

/-- Renaming errors changes no success. -/
theorem mapError_eq_ok {g : ε → ε} : d.mapError g s = (s', .ok a) ↔ d s = (s', .ok a) := by
  obtain ⟨t, x, h⟩ : ∃ t x, d s = (t, x) := ⟨_, _, rfl⟩
  cases x with
  | ok b => simp only [mapError, h]
  | error e =>
    simp only [mapError, h]
    constructor
    · exact fun h' => absurd (congrArg Prod.snd h') (by simp)
    · exact fun h' => absurd (congrArg Prod.snd h') (by simp)

/-- The errors that come out are the renamed ones. -/
theorem mapError_eq_error {g : ε → ε} :
    (d.mapError g s).2 = .error e ↔ ∃ e', (d s).2 = .error e' ∧ g e' = e := by
  obtain ⟨t, x, h⟩ : ∃ t x, d s = (t, x) := ⟨_, _, rfl⟩
  cases x with
  | ok b => simp [mapError, h]
  | error e' => simp [mapError, h]

/-- A sequence fails as its first part, or as its second after it. -/
theorem bind_eq_error : ((d >>= f) s).2 = .error e ↔
    (d s).2 = .error e ∨ ∃ t a, d s = (t, .ok a) ∧ (f a t).2 = .error e := by
  obtain ⟨t, x, h⟩ : ∃ t x, d s = (t, x) := ⟨_, _, rfl⟩
  cases x with
  | ok a =>
    rw [bind_of_ok h, h]
    constructor
    · exact fun hf => .inr ⟨t, a, rfl, hf⟩
    · rintro (h' | ⟨t', a', h', hf⟩)
      · exact absurd h' (by simp)
      · cases h'
        exact hf
  | error e' =>
    rw [bind_of_error h, h]
    constructor
    · exact fun hf => .inl (congrArg Except.error (Except.error.inj hf))
    · rintro (h' | ⟨t', a', h', -⟩)
      · exact congrArg Except.error (Except.error.inj h')
      · exact absurd (congrArg Prod.snd h') (by simp)

end

variable {σ ε α γ : Type} {β : Type} [InputStream σ β]

/-- Two parts are skipped one after the other. -/
theorem skip_append (s : σ) (bs cs : List β) :
    skip (skip s bs.length) cs.length = skip s (bs ++ cs).length := by
  rw [skip_skip, List.length_append]

/-- Behind the part that is skipped is the rest. -/
theorem remaining_of_append {s : σ} {bs rest : List β} (h : remaining s = bs ++ rest) :
    remaining (skip s bs.length) = rest := by
  rw [remaining_skip, h, List.drop_left]

/-- A state stays usable when a part that it has is skipped. -/
theorem usable_of_append {s : σ} {bs rest : List β} (hs : usable s) (h : remaining s = bs ++ rest) :
    usable (skip s bs.length) := by
  refine usable_skip hs ?_
  rw [h, List.length_append]
  exact Nat.le_add_right ..

/-! ### Languages -/

/-- A text of `L`, and one of the language that its value chooses. -/
def Then (L : List β → α → Prop) (M : α → List β → γ → Prop) (bs : List β) (c : γ) : Prop :=
  ∃ bs₁ bs₂ a, bs = bs₁ ++ bs₂ ∧ L bs₁ a ∧ M a bs₂ c

/-- A list of texts of `L`, one after the other. -/
def Sequence (L : List β → α → Prop) (bs : List β) (as : List α) : Prop :=
  ∃ parts : List (List β × α), (∀ p ∈ parts, L p.1 p.2) ∧
    bs = (parts.map Prod.fst).flatten ∧ as = parts.map Prod.snd

section

omit [InputStream σ β]

variable {L L' : List β → α → Prop} {bs cs : List β} {a : α} {as : List α}

/-- No values are written as nothing. -/
theorem sequence_nil : Sequence L bs [] ↔ bs = [] := by
  constructor
  · rintro ⟨parts, -, rfl, has⟩
    rw [List.map_eq_nil_iff.mp has.symm]
    rfl
  · rintro rfl
    exact ⟨[], fun _ h => absurd h List.not_mem_nil, rfl, rfl⟩

/-- The first value is written in front of the others. -/
theorem sequence_cons :
    Sequence L bs (a :: as) ↔ ∃ bs₁ bs₂, bs = bs₁ ++ bs₂ ∧ L bs₁ a ∧ Sequence L bs₂ as := by
  constructor
  · rintro ⟨parts, hparts, rfl, has⟩
    cases parts with
    | nil => exact absurd has (by simp)
    | cons p parts =>
      obtain ⟨rfl, rfl⟩ := List.cons.inj has
      exact ⟨p.1, _, rfl, hparts p List.mem_cons_self, parts,
        fun q hq => hparts q (List.mem_cons_of_mem _ hq), rfl, rfl⟩
  · rintro ⟨bs₁, bs₂, rfl, ha, parts, hparts, rfl, rfl⟩
    refine ⟨(bs₁, a) :: parts, ?_, rfl, rfl⟩
    intro p hp
    rcases List.mem_cons.mp hp with rfl | hp
    · exact ha
    · exact hparts p hp

/-- A wider grammar has the same sequences, and more. -/
theorem Sequence.mono (h : ∀ bs a, L bs a → L' bs a) (hs : Sequence L bs as) :
    Sequence L' bs as := by
  obtain ⟨parts, hparts, rfl, rfl⟩ := hs
  exact ⟨parts, fun p hp => h _ _ (hparts p hp), rfl, rfl⟩

/-- The texts of the elements of a list. -/
theorem sequence_flatMap {text : α → List β} (h : ∀ a ∈ as, L (text a) a) :
    Sequence L (as.flatMap text) as := by
  induction as with
  | nil => exact sequence_nil.mpr rfl
  | cons a as ih =>
    rw [List.flatMap_cons]
    exact sequence_cons.mpr
      ⟨_, _, rfl, h a List.mem_cons_self, ih fun b hb => h b (List.mem_cons_of_mem _ hb)⟩

/-- The texts and the values of some parts. -/
theorem sequence_map {π : Type} {text : π → List β} {value : π → α} {ps : List π}
    (h : ∀ p ∈ ps, L (text p) (value p)) : Sequence L (ps.flatMap text) (ps.map value) := by
  refine ⟨ps.map fun p => (text p, value p), ?_, ?_, ?_⟩
  · intro q hq
    obtain ⟨p, hp, rfl⟩ := List.mem_map.mp hq
    exact h p hp
  · rw [List.map_map, List.flatMap_def]
    rfl
  · rw [List.map_map]
    rfl

/-- A sequence is one of parts, if its elements are. -/
theorem Sequence.parts {π : Type} {text : π → List β} {value : π → α} {Q : π → Prop}
    (hs : Sequence L bs as)
    (h : ∀ bs a, L bs a → ∃ p, Q p ∧ bs = text p ∧ a = value p) :
    ∃ ps : List π, (∀ p ∈ ps, Q p) ∧ bs = ps.flatMap text ∧ as = ps.map value := by
  induction as generalizing bs with
  | nil => exact ⟨[], fun _ h => absurd h List.not_mem_nil, sequence_nil.mp hs, rfl⟩
  | cons a as ih =>
    obtain ⟨bs₁, bs₂, rfl, ha, hrest⟩ := sequence_cons.mp hs
    obtain ⟨p, hp, rfl, rfl⟩ := h bs₁ a ha
    obtain ⟨ps, hps, rfl, rfl⟩ := ih hrest
    exact ⟨p :: ps, List.forall_mem_cons.mpr ⟨hp, hps⟩, rfl, rfl⟩

end

/-! ### Accepted texts -/

/-- Whatever follows it, `bs` is decoded as `a`, and what follows is left. -/
def Accepts (d : Decoder σ ε α) (bs : List β) (a : α) : Prop :=
  ∀ (s : σ) (rest : List β), usable s → remaining s = bs ++ rest → d s = (skip s bs.length, .ok a)

section

variable {d : Decoder σ ε α} {f : α → Decoder σ ε γ} {bs cs : List β} {a : α} {c : γ}

/-- `pure` accepts nothing. -/
theorem accepts_pure (a : α) : Accepts (pure a : Decoder σ ε α) ([] : List β) a := by
  intro s rest _ _
  rw [pure_eq, List.length_nil, skip_zero]

/-- Two decoders accept one text behind the other. -/
theorem Accepts.bind (hd : Accepts d bs a) (hf : Accepts (f a) cs c) :
    Accepts (d >>= f) (bs ++ cs) c := by
  intro s rest hs h
  rw [List.append_assoc] at h
  rw [bind_of_ok (hd s (cs ++ rest) hs h),
    hf _ rest (usable_of_append hs h) (remaining_of_append h), skip_append]

/-- The rest of a sequence reads nothing. -/
theorem Accepts.bind_nil (hd : Accepts d bs a) (hf : Accepts (f a) ([] : List β) c) :
    Accepts (d >>= f) bs c := by
  have h := hd.bind hf
  rwa [List.append_nil] at h

/-- A value that is only converted is accepted as before. -/
theorem Accepts.bind_pure {g : α → γ} (hd : Accepts d bs a) :
    Accepts (d >>= fun a => pure (g a)) bs (g a) := hd.bind_nil (accepts_pure (g a))

/-- Renaming errors accepts the same texts. -/
theorem Accepts.mapError {g : ε → ε} (hd : Accepts d bs a) : Accepts (d.mapError g) bs a := by
  intro s rest hs h
  simp only [Decoder.mapError, hd s rest hs h]

/-- Elements are accepted one after the other, into as many targets. -/
theorem Accepts.each {τ : Type} {f : τ → Decoder σ ε α} {ts : List τ} {as : List α}
    (h : Sequence (fun bs a => ∀ t ∈ ts, Accepts (f t) bs a) bs as)
    (hlength : ts.length = as.length) :
    Accepts (Decoder.each f ts) bs as := by
  induction ts generalizing bs as with
  | nil =>
    have hnil : as = [] := List.length_eq_zero_iff.mp hlength.symm
    subst hnil
    rw [sequence_nil.mp h]
    exact accepts_pure []
  | cons t ts ih =>
    cases as with
    | nil => exact absurd hlength (by simp)
    | cons a as =>
      obtain ⟨bs₁, bs₂, rfl, ha, hs⟩ := sequence_cons.mp h
      have hrest :=
        ih (hs.mono fun bs a h t ht => h t (List.mem_cons_of_mem _ ht)) (Nat.succ.inj hlength)
      exact (ha t List.mem_cons_self).bind hrest.bind_pure

end

/-! ### Decoded texts -/

/-- What is decoded is a text of `L`. -/
def Yields (d : Decoder σ ε α) (L : List β → α → Prop) : Prop :=
  ∀ s s' a, usable s → d s = (s', .ok a) →
    ∃ bs rest, remaining s = bs ++ rest ∧ s' = skip s bs.length ∧ L bs a

section

variable {d : Decoder σ ε α} {f : α → Decoder σ ε γ} {L L' : List β → α → Prop}
  {M : α → List β → γ → Prop}

/-- What yields values of a grammar yields those of a wider one. -/
theorem Yields.mono (h : Yields d L) (hL : ∀ bs a, L bs a → L' bs a) : Yields d L' := by
  intro s s' a hs hd
  obtain ⟨bs, rest, hrest, hs', ha⟩ := h s s' a hs hd
  exact ⟨bs, rest, hrest, hs', hL bs a ha⟩

/-- `pure` yields its value for no text. -/
theorem yields_pure (a : α) :
    Yields (pure a : Decoder σ ε α) fun (bs : List β) (b : α) => bs = [] ∧ b = a := by
  intro s s' b _ h
  rw [pure_eq] at h
  cases h
  exact ⟨[], remaining s, rfl, (skip_zero s).symm, rfl, rfl⟩

/-- A decoder that fails yields values of any grammar. -/
theorem yields_fail {e : ε} : Yields (fail e : Decoder σ ε α) L := by
  intro s s' a _ h
  exact absurd (congrArg Prod.snd h) (by simp [fail])

/-- Two decoders yield what the grammars have one behind the other. -/
theorem Yields.bind (hd : Yields d L) (hf : ∀ bs a, L bs a → Yields (f a) (M a)) :
    Yields (d >>= f) (Then L M) := by
  intro s s' c hs h
  obtain ⟨t, a, hda, hfa⟩ := bind_eq_ok.mp h
  obtain ⟨bs₁, rest, hrest, rfl, ha⟩ := hd s t a hs hda
  obtain ⟨bs₂, rest', hrest', rfl, hc⟩ := hf bs₁ a ha _ s' c (usable_of_append hs hrest) hfa
  rw [remaining_of_append hrest] at hrest'
  refine ⟨bs₁ ++ bs₂, rest', ?_, skip_append s bs₁ bs₂, bs₁, bs₂, a, rfl, ha, hc⟩
  rw [hrest, hrest', List.append_assoc]

/-- A value that is only converted has the same texts. -/
theorem Yields.bind_pure {g : α → γ} (hd : Yields d L) :
    Yields (d >>= fun a => pure (g a)) fun bs c => ∃ a, L bs a ∧ c = g a := by
  refine (hd.bind fun _ a _ => yields_pure (g a)).mono fun bs c => ?_
  rintro ⟨bs₁, _, a, rfl, ha, rfl, rfl⟩
  exact ⟨a, by rwa [List.append_nil], rfl⟩

/-- Renaming errors changes no value. -/
theorem Yields.mapError {g : ε → ε} (hd : Yields d L) : Yields (d.mapError g) L := by
  intro s s' a hs h
  obtain ⟨t, x, hx⟩ : ∃ t x, d s = (t, x) := ⟨_, _, rfl⟩
  cases x with
  | ok b =>
    simp only [Decoder.mapError, hx] at h
    exact hd s s' a hs (hx.trans h)
  | error e =>
    simp only [Decoder.mapError, hx] at h
    exact absurd (congrArg Prod.snd h) (by simp)

/-- As many values are read as there are decoders. -/
theorem Yields.each {τ : Type} {f : τ → Decoder σ ε α} {ts : List τ}
    (hf : ∀ t ∈ ts, Yields (f t) L) :
    Yields (Decoder.each f ts) fun bs as => as.length = ts.length ∧ Sequence L bs as := by
  induction ts with
  | nil =>
    refine (yields_pure []).mono fun bs as => ?_
    rintro ⟨rfl, rfl⟩
    exact ⟨rfl, sequence_nil.mpr rfl⟩
  | cons t ts ih =>
    have hrest := ih fun t ht => hf t (List.mem_cons_of_mem _ ht)
    refine ((hf t List.mem_cons_self).bind fun _ a _ => hrest.bind_pure).mono fun bs as => ?_
    rintro ⟨bs₁, bs₂, a, rfl, ha, as, ⟨hlength, hs⟩, rfl⟩
    exact ⟨congrArg Nat.succ hlength, sequence_cons.mpr ⟨bs₁, bs₂, rfl, ha, hs⟩⟩

end

/-! ### Recognised languages -/

/-- The decoder succeeds exactly where the input begins with a text of `L`. -/
structure Recognises (d : Decoder σ ε α) (L : List β → α → Prop) : Prop where
  yields : Yields d L
  accepts {bs : List β} {a : α} : L bs a → Accepts d bs a

section

variable {d : Decoder σ ε α} {f : α → Decoder σ ε γ} {L L' : List β → α → Prop}
  {M : α → List β → γ → Prop} {bs : List β} {a : α}

/-- One equivalence for both directions of recognition. -/
theorem recognises_of_iff (h : ∀ s : σ, usable s → ∀ s' a, d s = (s', .ok a) ↔
    ∃ bs rest, remaining s = bs ++ rest ∧ s' = skip s bs.length ∧ L bs a) : Recognises d L where
  yields s s' a hs := (h s hs s' a).mp
  accepts ha s rest hs hrest := (h s hs _ _).mpr ⟨_, rest, hrest, rfl, ha⟩

/-- Grammars with the same texts are recognised by the same decoders. -/
theorem Recognises.congr (h : Recognises d L) (hL : ∀ bs a, L bs a ↔ L' bs a) :
    Recognises d L' where
  yields := h.yields.mono fun bs a => (hL bs a).mp
  accepts ha := h.accepts ((hL _ _).mpr ha)

/-- A language that a decoder recognises is the one that it accepts. -/
theorem Recognises.of_accepted (h : Recognises d L) : Recognises d (Accepts d) where
  yields := h.yields.mono fun _ _ ha => h.accepts ha
  accepts ha := ha

/-- `pure` recognises nothing, as its value. -/
theorem recognises_pure (a : α) :
    Recognises (pure a : Decoder σ ε α) fun (bs : List β) (b : α) => bs = [] ∧ b = a where
  yields := yields_pure a
  accepts := by
    rintro _ _ ⟨rfl, rfl⟩
    exact accepts_pure _

/-- A decoder that fails recognises the empty grammar. -/
theorem recognises_fail (e : ε) :
    Recognises (fail e : Decoder σ ε α) fun (_ : List β) (_ : α) => False where
  yields := yields_fail
  accepts h := h.elim

/-- Two decoders recognise the grammars one behind the other. -/
theorem Recognises.bind (hd : Recognises d L) (hf : ∀ bs a, L bs a → Recognises (f a) (M a)) :
    Recognises (d >>= f) (Then L M) where
  yields := hd.yields.bind fun bs a ha => (hf bs a ha).yields
  accepts := by
    rintro _ c ⟨bs₁, bs₂, a, rfl, ha, hc⟩
    exact (hd.accepts ha).bind ((hf bs₁ a ha).accepts hc)

/-- A value that is only converted is recognised by the same texts. -/
theorem Recognises.bind_pure {g : α → γ} (hd : Recognises d L) :
    Recognises (d >>= fun a => pure (g a)) fun bs c => ∃ a, L bs a ∧ c = g a where
  yields := hd.yields.bind_pure
  accepts := by
    rintro _ _ ⟨a, ha, rfl⟩
    exact (hd.accepts ha).bind_pure

/-- Renaming errors recognises the same texts. -/
theorem Recognises.mapError {g : ε → ε} (hd : Recognises d L) : Recognises (d.mapError g) L where
  yields := hd.yields.mapError
  accepts ha := (hd.accepts ha).mapError

/-- As many values are recognised as there are decoders. -/
theorem Recognises.each {τ : Type} {f : τ → Decoder σ ε α} {ts : List τ}
    (hf : ∀ t ∈ ts, Recognises (f t) L) :
    Recognises (Decoder.each f ts) fun bs as => as.length = ts.length ∧ Sequence L bs as where
  yields := Yields.each fun t ht => (hf t ht).yields
  accepts h := Accepts.each (h.2.mono fun _ _ ha t ht => (hf t ht).accepts ha) h.1.symm

variable {s s' : σ} {as : List α} {e : ε}

/-- The sequences that the input is begin with what is decoded of it. -/
theorem Recognises.sequence_of_ok (hd : Recognises d L) (hs : usable s) (hne : remaining s ≠ [])
    (h : d s = (s', .ok a)) :
    Sequence L (remaining s) as ↔ ∃ as', as = a :: as' ∧ Sequence L (remaining s') as' := by
  constructor
  · intro hseq
    cases as with
    | nil => exact absurd (sequence_nil.mp hseq) hne
    | cons b as =>
      obtain ⟨bs₁, bs₂, hrest, hb, hseq⟩ := sequence_cons.mp hseq
      cases h.symm.trans (hd.accepts hb s bs₂ hs hrest)
      exact ⟨as, rfl, by rwa [remaining_of_append hrest]⟩
  · rintro ⟨as', rfl, hseq⟩
    obtain ⟨bs, rest, hrest, rfl, ha⟩ := hd.yields s s' a hs h
    rw [remaining_of_append hrest] at hseq
    exact sequence_cons.mpr ⟨bs, rest, hrest, ha, hseq⟩

/-- An input that nothing is decoded of is no sequence. -/
theorem Recognises.not_sequence_of_error (hd : Recognises d L) (hs : usable s)
    (hne : remaining s ≠ [])
    (h : d s = (s', .error e)) : ¬ Sequence L (remaining s) as := by
  intro hseq
  cases as with
  | nil => exact hne (sequence_nil.mp hseq)
  | cons b as =>
    obtain ⟨bs₁, bs₂, hrest, hb, -⟩ := sequence_cons.mp hseq
    exact absurd (congrArg Prod.snd (h.symm.trans (hd.accepts hb s bs₂ hs hrest))) (by simp)

end

/-! ### Failures -/

/-- Whatever follows `bs`, the decoder fails with a failure of the kind `E`. -/
def Raises (E : ε → Prop) (d : Decoder σ ε α) (bs : List β) : Prop :=
  ∀ (s : σ) (rest : List β), usable s → remaining s = bs ++ rest → ∃ e, (d s).2 = .error e ∧ E e

/-- A failure of the kind `E` happens only where the input begins with a text of `R`. -/
def Blames (E : ε → Prop) (d : Decoder σ ε α) (R : List β → Prop) : Prop :=
  ∀ (s : σ) (e : ε), usable s → (d s).2 = .error e → E e → ∃ bs rest,
  remaining s = bs ++ rest ∧ R bs

/-- A failure of the kind `E` happens exactly where the input begins with a text of `R`. -/
structure Fails (E : ε → Prop) (d : Decoder σ ε α) (R : List β → Prop) : Prop where
  blames : Blames E d R
  raises {bs : List β} : R bs → Raises E d bs

/-- No failure is of the kind `E`. -/
def Safe (E : ε → Prop) (d : Decoder σ ε α) : Prop := ∀ s e, (d s).2 = .error e → ¬ E e

section

variable {E : ε → Prop} {d : Decoder σ ε α} {f : α → Decoder σ ε γ} {L : List β → α → Prop}
  {R R' : List β → Prop} {F : α → List β → Prop} {bs cs : List β} {a : α}

omit [InputStream σ β] in
/-- `pure` has no error. -/
theorem safe_pure (a : α) : Safe E (pure a : Decoder σ ε α) := by
  intro s e h
  exact absurd h (by simp [pure_eq])

omit [InputStream σ β] in
/-- Two safe decoders are safe one after the other. -/
theorem Safe.bind (hd : Safe E d) (hf : ∀ a, Safe E (f a)) : Safe E (d >>= f) := by
  intro s e h
  rcases bind_eq_error.mp h with h | ⟨t, a, -, h⟩
  · exact hd s e h
  · exact hf a t e h

omit [InputStream σ β] in
/-- Safe decoders are safe one after the other. -/
theorem Safe.each {τ : Type} {f : τ → Decoder σ ε α} (hf : ∀ t, Safe E (f t)) (ts : List τ) :
    Safe E (Decoder.each f ts) := by
  induction ts with
  | nil => exact safe_pure []
  | cons t ts ih => exact (hf t).bind fun a => ih.bind fun as => safe_pure (a :: as)

/-- A safe decoder blames no text. -/
theorem Safe.blames (h : Safe E d) : Blames E d R := by
  intro s e _ he hE
  exact absurd hE (h s e he)

/-- A safe decoder fails on no text. -/
theorem Safe.fails (h : Safe E d) : Fails E d fun _ : List β => False where
  blames := h.blames
  raises h := h.elim

/-- What blames some texts may blame more. -/
theorem Blames.mono (h : Blames E d R) (hR : ∀ bs, R bs → R' bs) : Blames E d R' := by
  intro s e hs he hE
  obtain ⟨bs, rest, hrest, hbs⟩ := h s e hs he hE
  exact ⟨bs, rest, hrest, hR bs hbs⟩

/-- The texts on which a decoder fails, in other words. -/
theorem Fails.congr (h : Fails E d R) (hR : ∀ bs, R bs ↔ R' bs) : Fails E d R' where
  blames := h.blames.mono fun bs => (hR bs).mp
  raises hbs := h.raises ((hR _).mpr hbs)

/-- A failing decoder fails before it reads. -/
theorem fails_fail {e : ε} (he : E e) :
    Fails E (fail e : Decoder σ ε α) fun bs : List β => bs = [] where
  blames s _ _ _ _ := ⟨[], remaining s, rfl, rfl⟩
  raises _ _ _ _ _ := ⟨e, rfl, he⟩

/-- An error of the first decoder is an error of both. -/
theorem Raises.bind_left (h : Raises E d bs) : Raises E (d >>= f) bs := by
  intro s rest hs hrest
  obtain ⟨e, he, hE⟩ := h s rest hs hrest
  exact ⟨e, bind_eq_error.mpr (.inl he), hE⟩

/-- An error of the second decoder, behind a text that the first one accepts. -/
theorem Raises.bind_right (hd : Accepts d bs a) (h : Raises E (f a) cs) :
    Raises E (d >>= f) (bs ++ cs) := by
  intro s rest hs hrest
  rw [List.append_assoc] at hrest
  obtain ⟨e, he, hE⟩ := h _ rest (usable_of_append hs hrest) (remaining_of_append hrest)
  exact ⟨e, bind_eq_error.mpr (.inr ⟨_, a, hd s _ hs hrest, he⟩), hE⟩

/-- After a part that reads nothing. -/
theorem Raises.bind_right_nil (hd : Accepts d ([] : List β) a) (h : Raises E (f a) cs) :
    Raises E (d >>= f) cs :=
  Raises.bind_right hd h

/-- A sequence fails in its first part, or in its second after a text of the first. -/
theorem Blames.bind (hd : Yields d L) (hR : Blames E d R)
    (hf : ∀ bs a, L bs a → Blames E (f a) (F a)) :
    Blames E (d >>= f) fun bs => R bs ∨ ∃ bs₁ bs₂ a, bs = bs₁ ++ bs₂ ∧ L bs₁ a ∧ F a bs₂ := by
  intro s e hs h hE
  rcases bind_eq_error.mp h with h | ⟨t, a, hda, h⟩
  · obtain ⟨bs, rest, hrest, hbs⟩ := hR s e hs h hE
    exact ⟨bs, rest, hrest, .inl hbs⟩
  · obtain ⟨bs₁, rest, hrest, rfl, ha⟩ := hd s t a hs hda
    obtain ⟨bs₂, rest', hrest', hbs⟩ := hf bs₁ a ha _ e (usable_of_append hs hrest) h hE
    rw [remaining_of_append hrest] at hrest'
    refine ⟨bs₁ ++ bs₂, rest', ?_, .inr ⟨bs₁, bs₂, a, rfl, ha, hbs⟩⟩
    rw [hrest, hrest', List.append_assoc]

/-- After a first part that is safe. -/
theorem Blames.bind_safe (hd : Yields d L) (hsafe : Safe E d)
    (hf : ∀ bs a, L bs a → Blames E (f a) (F a)) :
    Blames E (d >>= f) fun bs => ∃ bs₁ bs₂ a, bs = bs₁ ++ bs₂ ∧ L bs₁ a ∧ F a bs₂ :=
  (Blames.bind hd (hsafe.blames (R := fun _ => False)) hf).mono fun _ h => h.resolve_left id

/-- Two decoders fail where the first one does, or where the second one does behind it. -/
theorem Fails.bind (hd : Recognises d L) (hR : Fails E d R)
    (hf : ∀ bs a, L bs a → Fails E (f a) (F a)) :
    Fails E (d >>= f) fun bs => R bs ∨ ∃ bs₁ bs₂ a, bs = bs₁ ++ bs₂ ∧ L bs₁ a ∧ F a bs₂ where
  blames := Blames.bind hd.yields hR.blames fun bs a ha => (hf bs a ha).blames
  raises := by
    rintro _ (hbs | ⟨bs₁, bs₂, a, rfl, ha, hbs⟩)
    · exact (hR.raises hbs).bind_left
    · exact Raises.bind_right (hd.accepts ha) ((hf bs₁ a ha).raises hbs)

/-- If the first decoder is safe, only the second one fails. -/
theorem Fails.bind_safe (hd : Recognises d L) (hsafe : Safe E d)
    (hf : ∀ bs a, L bs a → Fails E (f a) (F a)) :
    Fails E (d >>= f) fun bs => ∃ bs₁ bs₂ a, bs = bs₁ ++ bs₂ ∧ L bs₁ a ∧ F a bs₂ :=
  (Fails.bind hd hsafe.fails hf).congr fun _ => or_iff_right id

/-- What comes after the failing part is safe. -/
theorem Blames.bind_left (hR : Blames E d R) (hf : ∀ a, Safe E (f a)) : Blames E (d >>= f) R := by
  intro s e hs h hE
  rcases bind_eq_error.mp h with h | ⟨t, a, -, h⟩
  · exact hR s e hs h hE
  · exact absurd hE (hf a t e h)

/-- If the second decoder is safe, only the first one fails. -/
theorem Fails.bind_left (hR : Fails E d R) (hf : ∀ a, Safe E (f a)) : Fails E (d >>= f) R where
  blames := hR.blames.bind_left hf
  raises h := (hR.raises h).bind_left

/-- A round of a loop fails after the texts of those before. -/
theorem Raises.each {τ : Type} {f : τ → Decoder σ ε α} {ts : List τ} {as : List α}
    (h : Sequence (fun bs a => ∀ t ∈ ts, Accepts (f t) bs a) bs as)
    (hlength : as.length < ts.length)
    (hcs : ∀ t ∈ ts, Raises E (f t) cs) : Raises E (Decoder.each f ts) (bs ++ cs) := by
  induction ts generalizing bs as with
  | nil => exact absurd hlength (Nat.not_lt_zero _)
  | cons t ts ih =>
    cases as with
    | nil =>
      rw [sequence_nil.mp h]
      exact (hcs t List.mem_cons_self).bind_left
    | cons a as =>
      obtain ⟨bs₁, bs₂, rfl, ha, hs⟩ := sequence_cons.mp h
      have hrest := ih (hs.mono fun bs a h t ht => h t (List.mem_cons_of_mem _ ht))
        (Nat.lt_of_succ_lt_succ hlength) fun t ht => hcs t (List.mem_cons_of_mem _ ht)
      rw [List.append_assoc]
      exact Raises.bind_right (ha t List.mem_cons_self) hrest.bind_left

/-- A failure is that of one decoder, behind the values of those before it. -/
theorem Blames.each {τ : Type} {f : τ → Decoder σ ε α} {ts : List τ} (hf : ∀ t ∈ ts, Yields (f t) L)
    (hR : ∀ t ∈ ts, Blames E (f t) R) :
    Blames E (Decoder.each f ts) fun bs =>
      ∃ bs₁ bs₂ as, bs = bs₁ ++ bs₂ ∧ as.length < ts.length ∧ Sequence L bs₁ as ∧ R bs₂ := by
  induction ts with
  | nil => exact (safe_pure []).blames
  | cons t ts ih =>
    have hf' := fun t ht => hf t (List.mem_cons_of_mem _ ht)
    refine (Blames.bind (hf t List.mem_cons_self) (hR t List.mem_cons_self) fun _ a _ =>
      Blames.bind (F := fun _ _ => False) (Yields.each hf')
        (ih hf' fun t ht => hR t (List.mem_cons_of_mem _ ht))
        fun _ as _ => (safe_pure (a :: as)).blames).mono fun bs => ?_
    rintro (hbs | ⟨bs₁, _, a, rfl, ha, ⟨bs₂, bs₃, as, rfl, hlength, hs, hbs⟩ | ⟨_, _, _, -, -, h⟩⟩)
    · exact ⟨[], bs, [], rfl, Nat.succ_pos _, sequence_nil.mpr rfl, hbs⟩
    · exact ⟨bs₁ ++ bs₂, bs₃, a :: as, (List.append_assoc ..).symm, Nat.succ_lt_succ hlength,
        sequence_cons.mpr ⟨bs₁, bs₂, rfl, ha, hs⟩, hbs⟩
    · exact h.elim

end

end Decoder
end SculkProtocol
