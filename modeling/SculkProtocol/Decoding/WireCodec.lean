import Mathlib.Algebra.Ring.Nat
import SculkProtocol.Decoding.Decoder

/-!
# Wire codecs

A decoder with what writes its values. `WireCodec T d w P u` says of a decoder `d` and a writer `w`:

* every value in `P` of which nothing is missing is read back from what is written of it;
* every value that is read is in `P`.

`u` counts the elements of a value that are read but not written. Under `T` a value is written
in no more elements than it can be read from, less those that are missing. Then `P` and `u` say
exactly which values come back (`WireCodec.accepts_iff`). A writer that is not the shortest has a
codec with `T` false, and no counting.

The rules follow the shape of a decoder. In a sequence the parts of a record are read one after
the other: `Q` is what is known of the record so far, and `WireCodec.pure` closes a sequence when
this is all of it.
-/

namespace SculkProtocol

open InputStream Decoder

/-- A value that is read and then cast. -/
def Decoder.cast {σ ε α γ : Type} (k : α → γ) (d : Decoder σ ε α) : Decoder σ ε γ :=
  d >>= fun a => pure (k a)

variable {σ ε α γ β : Type} [InputStream σ β]

/-- `w` writes what `d` reads, for the values in `P`, but for `u` elements. -/
structure WireCodec (T : Prop) (d : Decoder σ ε α) (w : α → List β) (P : α → Prop) (u : α → ℕ) :
    Prop where
  accepts {a : α} : P a → u a = 0 → Accepts d (w a) a
  yields : Yields d fun bs a => P a ∧ (T → (w a).length + u a ≤ bs.length)

namespace WireCodec

variable {T : Prop} {d : Decoder σ ε α} {f : α → Decoder σ ε γ} {w w' : α → List β}
  {P P' : α → Prop}
  {u u' : α → ℕ} {a : α}

/-! ### Which values come back -/

/-- What comes back is in `P`. -/
theorem mem_of_accepts (h : WireCodec T d w P u) {s : σ} (hs : usable s) (hw : remaining s = w a)
    (ha : Accepts d (w a) a) : P a := by
  have hread := ha s [] hs (hw.trans (List.append_nil _).symm)
  obtain ⟨bs, rest, -, -, hP, -⟩ := h.yields s _ a hs hread
  exact hP

/-- A value that is read once from what is written of it. -/
theorem run_iff (h : WireCodec True d w P u) {s : σ} (hs : usable s) (hw : remaining s = w a) :
    (∃ s', d s = (s', .ok a)) ↔ P a ∧ u a = 0 := by
  constructor
  · rintro ⟨s', hread⟩
    obtain ⟨bs, rest, hrest, -, hP, hlength⟩ := h.yields s _ a hs hread
    -- the text that was read is no longer than what was written
    have hle : bs.length ≤ (w a).length := by
      rw [← hw, hrest, List.length_append]
      exact Nat.le_add_right _ _
    have hshort := hlength trivial
    exact ⟨hP, by omega⟩
  · rintro ⟨hP, hu⟩
    exact ⟨_, h.accepts hP hu s [] hs (hw.trans (List.append_nil _).symm)⟩

/-- **Round trip.** The values that come back are those in `P` of which nothing is missing. -/
theorem accepts_iff (h : WireCodec True d w P u) {s : σ} (hs : usable s) (hw : remaining s = w a) :
    Accepts d (w a) a ↔ P a ∧ u a = 0 := by
  constructor
  · exact fun ha => (h.run_iff hs hw).mp ⟨_, ha s [] hs (hw.trans (List.append_nil _).symm)⟩
  · rintro ⟨hP, hu⟩
    exact h.accepts hP hu

/-- The same where it is known that nothing is missing. -/
theorem accepts_iff_of_complete (h : WireCodec T d w P u) (hu : u a = 0) {s : σ} (hs : usable s)
    (hw : remaining s = w a) : Accepts d (w a) a ↔ P a :=
  ⟨h.mem_of_accepts hs hw, fun hP => h.accepts hP hu⟩

/-! ### Rules -/

/-- Only the values that are read matter. -/
theorem congr (h : WireCodec T d w P u) (hP : ∀ a, P a ↔ P' a) (hw : ∀ a, P a → w a = w' a)
    (hu : ∀ a, P a → u a = u' a) : WireCodec T d w' P' u' where
  accepts {a} ha hu' := by
    have hPa := (hP a).mpr ha
    rw [← hw a hPa]
    exact h.accepts hPa ((hu a hPa).trans hu')
  yields := by
    refine h.yields.mono fun bs a => ?_
    rintro ⟨hPa, hlength⟩
    rw [← hw a hPa, ← hu a hPa]
    exact ⟨(hP a).mp hPa, hlength⟩

/-- A writer that leaves something out, which `u'` counts. -/
theorem leaveOut (h : WireCodec T d w P u) (hw : ∀ a, P a → u' a = 0 → w a = w' a ∧ u a = 0)
    (hlength : ∀ a, P a → (w' a).length + u' a ≤ (w a).length + u a) : WireCodec T d w' P u' where
  accepts {a} ha hu' := by
    obtain ⟨hsame, hu⟩ := hw a ha hu'
    rw [← hsame]
    exact h.accepts ha hu
  yields := h.yields.mono fun _ a ha => ⟨ha.1, fun hT => Nat.le_trans (hlength a ha.1) (ha.2 hT)⟩

/-- From the language that a decoder recognises. -/
theorem of_recognises {L : List β → α → Prop} (h : Recognises d L) (hw : ∀ a, P a → L (w a) a)
    (hL : ∀ bs a, L bs a → P a ∧ (T → (w a).length ≤ bs.length)) :
    WireCodec T d w P fun _ => 0 where
  accepts ha _ := h.accepts (hw _ ha)
  yields := h.yields.mono hL

theorem mapError {g : ε → ε} (h : WireCodec T d w P u) : WireCodec T (d.mapError g) w P u where
  accepts ha hu := (h.accepts ha hu).mapError
  yields := h.yields.mapError

/-- A decoder that never succeeds, for no values. -/
theorem fail {e : ε} (hP : ∀ a, ¬ P a) : WireCodec T (Decoder.fail e : Decoder σ ε α) w P u where
  accepts {a} ha := absurd ha (hP a)
  yields := yields_fail

/-- A value that is refused after it is read. -/
theorem check {e : ε} {C : α → Prop} [DecidablePred C] (h : WireCodec T d w P u) :
    WireCodec T (d >>= fun a => if C a then Decoder.fail e else pure a) w
      (fun a => P a ∧ ¬ C a) u where
  accepts {a} ha hu := by
    refine (h.accepts ha.1 hu).bind_nil ?_
    rw [if_neg ha.2]
    exact accepts_pure a
  yields := by
    refine (h.yields.bind (M := fun a (bs : List β) b => bs = [] ∧ b = a ∧ ¬ C a)
      fun _ a _ => ?_).mono fun bs b => ?_
    · split
      · exact yields_fail
      · next hC => exact (yields_pure a).mono fun bs b hb => ⟨hb.1, hb.2, hC⟩
    · rintro ⟨bs, _, a, rfl, ⟨ha, hlength⟩, rfl, rfl, hC⟩
      rw [List.append_nil]
      exact ⟨⟨ha, hC⟩, hlength⟩

section

variable {Q R : γ → Prop} {v : γ → List β} {n : γ → ℕ}

/-- The end of a sequence: one value is left. -/
protected theorem pure {c : γ} (hQ : ∀ x, Q x ↔ x = c) :
    WireCodec T (pure c : Decoder σ ε γ) (fun _ => []) (fun c => Q c ∧ True) fun _ => 0 where
  accepts {x} h _ := by
    rw [(hQ x).mp h.1]
    exact accepts_pure c
  yields := by
    refine (yields_pure c).mono fun bs x => ?_
    rintro ⟨rfl, rfl⟩
    exact ⟨⟨(hQ x).mpr rfl, trivial⟩, fun _ => Nat.le_refl _⟩

/-- **Sequence.** The first part reads the part `g c` of the result. -/
theorem bind {g : γ → α} (h : WireCodec T d w P u)
    (hf : ∀ a, P a → WireCodec T (f a) v (fun c => (g c = a ∧ Q c) ∧ R c) n) :
    WireCodec T (d >>= f) (fun c => w (g c) ++ v c) (fun c => Q c ∧ P (g c) ∧ R c) fun c =>
      u (g c) + n c where
  accepts {c} hc hu := by
    obtain ⟨hQ, hP, hR⟩ := hc
    have hfirst : u (g c) = 0 := Nat.eq_zero_of_add_eq_zero_right hu
    have hsecond : n c = 0 := Nat.eq_zero_of_add_eq_zero_left hu
    exact (h.accepts hP hfirst).bind ((hf (g c) hP).accepts ⟨⟨rfl, hQ⟩, hR⟩ hsecond)
  yields := by
    refine (h.yields.bind fun bs a ha => (hf a ha.1).yields).mono fun bs c => ?_
    rintro ⟨bs₁, bs₂, a, rfl, ⟨hP, hlength⟩, ⟨⟨rfl, hQ⟩, hR⟩, hlength₂⟩
    refine ⟨⟨hQ, hP, hR⟩, fun hT => ?_⟩
    have h₁ := hlength hT
    have h₂ := hlength₂ hT
    rw [List.length_append, List.length_append]
    omega

/-- The same where the rest depends on what the first part read. -/
theorem bind_dependent {g : γ → α} {R : α → γ → Prop} {v : α → γ → List β} {n : α → γ → ℕ}
    (h : WireCodec T d w P u)
    (hf : ∀ a, P a → WireCodec T (f a) (v a) (fun c => (g c = a ∧ Q c) ∧ R a c) (n a)) :
    WireCodec T (d >>= f) (fun c => w (g c) ++ v (g c) c) (fun c => Q c ∧ P (g c) ∧ R (g c) c)
      fun c => u (g c) + n (g c) c := by
  refine bind h fun a ha => (hf a ha).congr (fun c => ?_) (fun c hc => ?_) fun c hc => ?_
  · exact and_congr_right fun hc => by rw [hc.1]
  · rw [hc.1.1]
  · rw [hc.1.1]

end

/-- A value that is read as a part of another type. -/
theorem inj {k : α → γ} {w' : γ → List β} {P' : γ → Prop} {u' : γ → ℕ} (h : WireCodec T d w P u)
    (hw : ∀ a, w' (k a) = w a) (hu : ∀ a, u' (k a) = u a) (hP : ∀ c, P' c ↔ ∃ a, c = k a ∧ P a) :
    WireCodec T (d >>= fun a => pure (k a)) w' P' u' where
  accepts {c} hc hzero := by
    obtain ⟨a, rfl, ha⟩ := (hP c).mp hc
    rw [hw]
    exact (h.accepts ha ((hu a).symm.trans hzero)).bind_pure
  yields := by
    refine h.yields.bind_pure.mono fun bs c => ?_
    rintro ⟨a, ⟨ha, hlength⟩, rfl⟩
    rw [hw, hu]
    exact ⟨(hP _).mpr ⟨a, rfl, ha⟩, hlength⟩

/-- A value that is read as one of another type. -/
theorem bind_pure {g : γ → α} {k : α → γ} (h : WireCodec T d w P u)
    (hk : ∀ c a, g c = a ↔ c = k a) :
    WireCodec T (d >>= fun a => pure (k a)) (fun c => w (g c)) (fun c => P (g c)) fun c =>
      u (g c) := by
  have hg : ∀ a, g (k a) = a := fun a => (hk _ _).mpr rfl
  refine h.inj (fun a => congrArg w (hg a)) (fun a => congrArg u (hg a)) fun c => ⟨fun hc => ?_, ?_⟩
  · exact ⟨g c, (hk c _).mp rfl, hc⟩
  · rintro ⟨a, rfl, ha⟩
    rw [hg]
    exact ha

/-- A value that is cast when it is read, and back when it is written. Nothing is said about
lengths: many values may be cast to one. -/
theorem cast {k : α → γ} {g : γ → α} (h : WireCodec T d w (fun _ => True) fun _ => 0)
    (hk : ∀ c, k (g c) = c) :
    WireCodec False (d.cast k) (fun c => w (g c)) (fun _ => True) fun _ => 0 where
  accepts {c} _ _ := by
    have hread := (h.accepts (a := g c) trivial rfl).bind_pure (g := k)
    rwa [hk] at hread
  yields := h.yields.bind_pure.mono fun _ _ _ => ⟨trivial, False.elim⟩

/-- The same where what is cast is written in no more elements. -/
theorem cast_of_le {k : α → γ} {g : γ → α} (h : WireCodec T d w (fun _ => True) fun _ => 0)
    (hk : ∀ c, k (g c) = c)
    (hle : ∀ a, (w (g (k a))).length ≤ (w a).length) :
    WireCodec T (d.cast k) (fun c => w (g c)) (fun _ => True) fun _ => 0 where
  accepts := (h.cast hk).accepts
  yields := by
    refine h.yields.bind_pure.mono fun bs c => ?_
    rintro ⟨a, ⟨-, hlength⟩, rfl⟩
    exact ⟨trivial, fun hT => Nat.le_trans (hle a) (hlength hT)⟩

/-- **Loop.** As many elements as targets, each by the same codec. -/
theorem each {τ : Type} {f : τ → Decoder σ ε α} {ts : List τ}
    (h : ∀ t ∈ ts, WireCodec T (f t) w P u) :
    WireCodec T (Decoder.each f ts) (fun as => as.flatMap w)
      (fun as => as.length = ts.length ∧ ∀ a ∈ as, P a) fun as => (as.map u).sum := by
  induction ts with
  | nil =>
    refine (WireCodec.pure (T := T) (Q := fun as : List α => as = []) (c := [])
      fun as => Iff.rfl).congr
      (fun as => ?_) (fun as has => ?_) fun as has => ?_
    · rw [and_true, List.length_nil, List.length_eq_zero_iff]
      exact ⟨fun has => ⟨has, fun a ha => absurd (has ▸ ha) List.not_mem_nil⟩, And.left⟩
    · rw [has.1]
      rfl
    · rw [has.1]
      rfl
  | cons t ts ih =>
    have hrest := ih fun t ht => h t (List.mem_cons_of_mem _ ht)
    constructor
    · intro as has hu
      cases as with
      | nil => exact absurd has.1 nofun
      | cons a as =>
        rw [List.map_cons, List.sum_cons] at hu
        have hfirst := (h t List.mem_cons_self).accepts (has.2 a List.mem_cons_self) (by omega)
        have hothers := hrest.accepts
          ⟨Nat.succ.inj has.1, fun b hb => has.2 b (List.mem_cons_of_mem _ hb)⟩ (by omega)
        -- a text of the first, and one of the others
        exact hfirst.bind hothers.bind_pure
    · refine ((h t List.mem_cons_self).yields.bind fun _ a _ => hrest.yields.bind_pure).mono
        fun bs as => ?_
      -- what is missing of the elements adds up
      rintro ⟨bs₁, bs₂, a, rfl, ⟨ha, hlength⟩, as, ⟨⟨hcount, has⟩, hlength₂⟩, rfl⟩
      refine ⟨⟨congrArg Nat.succ hcount, List.forall_mem_cons.mpr ⟨ha, has⟩⟩, fun hT => ?_⟩
      have h₁ := hlength hT
      have h₂ := hlength₂ hT
      rw [List.flatMap_cons, List.length_append, List.length_append, List.map_cons, List.sum_cons]
      omega

/-- **Loop into what was there.** Each element is read into a target, which is the part `k` of
it. -/
theorem each_into {τ : Type} {f : τ → Decoder σ ε α} {k : α → τ} {ts : List τ}
    (h : ∀ t ∈ ts, WireCodec T (f t) w (fun a => k a = t ∧ P a) u) :
    WireCodec T (Decoder.each f ts) (fun as => as.flatMap w) (fun as => as.map k = ts ∧
      ∀ a ∈ as, P a)
      fun as => (as.map u).sum := by
  induction ts with
  | nil =>
    -- a loop over nothing asks nothing of its elements, so any condition on them will do
    have hnil : ∀ t ∈ ([] : List τ), WireCodec T (f t) w P u :=
      fun _ ht => absurd ht List.not_mem_nil
    refine (WireCodec.each hnil).congr (fun as => and_congr_left' ?_) (fun _ _ => rfl)
      fun _ _ => rfl
    rw [List.length_nil, List.length_eq_zero_iff, List.map_eq_nil_iff]
  | cons t ts ih =>
    have hfirst := h t List.mem_cons_self
    have hrest := ih fun t ht => h t (List.mem_cons_of_mem _ ht)
    constructor
    · intro as has hu
      cases as with
      | nil => exact absurd has.1 nofun
      | cons a as =>
        obtain ⟨hkeys, hall⟩ := has
        obtain ⟨hkey, hkeys⟩ := List.cons.inj hkeys
        obtain ⟨ha, hall⟩ := List.forall_mem_cons.mp hall
        rw [List.map_cons, List.sum_cons] at hu
        exact (hfirst.accepts ⟨hkey, ha⟩ (by omega)).bind
          (hrest.accepts ⟨hkeys, hall⟩ (by omega)).bind_pure
    · refine (hfirst.yields.bind fun _ a _ => hrest.yields.bind_pure).mono fun bs as => ?_
      -- the parts that were read are the targets, one by one
      rintro ⟨bs₁, bs₂, a, rfl, ⟨⟨hkey, ha⟩, hlength⟩, as, ⟨⟨hkeys, hall⟩, hlength₂⟩, rfl⟩
      refine ⟨⟨congrArg₂ List.cons hkey hkeys, List.forall_mem_cons.mpr ⟨ha, hall⟩⟩, fun hT => ?_⟩
      have h₁ := hlength hT
      have h₂ := hlength₂ hT
      rw [List.flatMap_cons, List.length_append, List.length_append, List.map_cons, List.sum_cons]
      omega

end WireCodec
end SculkProtocol
