import Mathlib.Logic.Function.Iterate
import SculkProtocol.Decoding.Decoder

/-!
# Decoders that call themselves

The body of such a decoder is a function of the decoder that it calls. If every call comes after `k`
elements of the input, calls are nested no deeper than the input is long: `recurse body k` goes so
deep, and below that no call is made (`iterate_eq_recurse`), so the decoder is equal to its body
(`recurse_eq`).

`Agrees n d d'` says that two decoders do the same with less than `n` elements, of which they leave
no more than there were. A body makes decoders agree on `k` elements more (`Descends`), by the rules
for what it consists of.
-/

namespace SculkProtocol

open InputStream

namespace Decoder

variable {σ ε α γ β : Type} [InputStream σ β]

/-- How many elements a stream has left. -/
def unread (s : σ) : ℕ := (remaining s).length

/-- Two decoders do the same with less than `n` elements. -/
def Agrees (n : ℕ) (d d' : Decoder σ ε α) : Prop :=
  ∀ s : σ, usable s → unread s < n →
    d s = d' s ∧ ∀ s' a, d s = (s', .ok a) → usable s' ∧ unread s' ≤ unread s

section

variable {d d' e e' : Decoder σ ε α} {f f' : α → Decoder σ ε γ} {L : List β → α → Prop} {m n k : ℕ}

theorem agrees_zero : Agrees 0 d d' := fun _ _ h => absurd h (Nat.not_lt_zero _)

/-- What is decoded is taken from the front. -/
theorem Yields.leaves (h : Yields d L) (hL : ∀ bs a, L bs a → k ≤ bs.length) {s s' : σ} {a : α}
    (hs : usable s)
    (hd : d s = (s', .ok a)) : usable s' ∧ unread s' + k ≤ unread s := by
  obtain ⟨bs, rest, hrest, rfl, ha⟩ := h s s' a hs hd
  have hk := hL bs a ha
  refine ⟨usable_of_append hs hrest, ?_⟩
  rw [unread, unread, remaining_of_append hrest, hrest, List.length_append]
  omega

/-- A decoder that calls none. -/
theorem Yields.agrees (h : Yields d L) : Agrees n d d :=
  fun _ hs _ => ⟨rfl, fun _ _ hd => h.leaves (fun _ _ _ => Nat.zero_le _) hs hd⟩

theorem agrees_pure (a : α) : Agrees n (pure a : Decoder σ ε α) (pure a) := (yields_pure a).agrees

theorem Agrees.bind (h : Agrees n d d') (hf : ∀ a, Agrees n (f a) (f' a)) :
    Agrees n (d >>= f) (d' >>= f') := by
  intro s hs hlt
  obtain ⟨heq, hleaves⟩ := h s hs hlt
  obtain ⟨t, x, hx⟩ : ∃ t x, d s = (t, x) := ⟨_, _, rfl⟩
  cases x with
  -- an error is the same one, and leaves nothing to decode
  | error e =>
    rw [bind_of_error hx, bind_of_error (heq.symm.trans hx)]
    exact ⟨rfl, fun s' c h => absurd (congrArg Prod.snd h) (by simp)⟩
  | ok a =>
    -- the rest is decoded from a stream that is no longer
    obtain ⟨ht, hle⟩ := hleaves t a hx
    obtain ⟨hrest, hleaves'⟩ := hf a t ht (Nat.lt_of_le_of_lt hle hlt)
    rw [bind_of_ok hx, bind_of_ok (heq.symm.trans hx)]
    exact ⟨hrest, fun s' c h => ⟨(hleaves' s' c h).1, Nat.le_trans (hleaves' s' c h).2 hle⟩⟩

/-- After `k` elements, what follows has so many less. -/
theorem Yields.agrees_bind (h : Yields d L) (hL : ∀ bs a, L bs a → k ≤ bs.length)
    (hf : ∀ a, Agrees n (f a) (f' a)) : Agrees (n + k) (d >>= f) (d >>= f') := by
  intro s hs hlt
  obtain ⟨t, x, hx⟩ : ∃ t x, d s = (t, x) := ⟨_, _, rfl⟩
  cases x with
  | error e =>
    rw [bind_of_error hx, bind_of_error hx]
    exact ⟨rfl, fun s' c h => absurd (congrArg Prod.snd h) (by simp)⟩
  | ok a =>
    obtain ⟨ht, hle⟩ := h.leaves hL hs hx
    obtain ⟨hrest, hleaves⟩ := hf a t ht (by omega)
    rw [bind_of_ok hx, bind_of_ok hx]
    exact ⟨hrest, fun s' c h => ⟨(hleaves s' c h).1, by have := (hleaves s' c h).2; omega⟩⟩

theorem agrees_each {τ : Type} {f f' : τ → Decoder σ ε α} {ts : List τ}
    (h : ∀ t ∈ ts, Agrees n (f t) (f' t)) :
    Agrees n (each f ts) (each f' ts) := by
  induction ts with
  | nil => exact agrees_pure []
  | cons t ts ih =>
    have hrest := ih fun t ht => h t (List.mem_cons_of_mem _ ht)
    exact (h t List.mem_cons_self).bind fun _ => hrest.bind fun _ => agrees_pure _

end

/-! ### Recursion -/

/-- Every call in the body comes after `k` elements. -/
def Descends (k : ℕ) (body : Decoder σ ε α → Decoder σ ε α) : Prop :=
  ∀ n d d', Agrees n d d' → Agrees (n + k) (body d) (body d')

/-- The body with calls as deep as `k` elements for each allow. The call that would be one deeper is
`last`. -/
def recurse (body : Decoder σ ε α → Decoder σ ε α) (k : ℕ) (last : Decoder σ ε α) : Decoder σ ε α :=
  fun s => body^[unread s / k + 1] last s

section

variable {body : Decoder σ ε α → Decoder σ ε α} {k : ℕ} {last d : Decoder σ ε α} {s : σ}

theorem Descends.iterate (h : Descends k body) (last last' : Decoder σ ε α) (n : ℕ) :
    Agrees (n * k) (body^[n] last) (body^[n] last') := by
  induction n with
  | zero =>
    rw [Nat.zero_mul]
    -- a call at the bottom is never made, whatever it would do
    exact agrees_zero
  | succ n ih =>
    rw [Function.iterate_succ_apply', Function.iterate_succ_apply', Nat.succ_mul]
    -- one round of the body allows `k` elements more
    exact h _ _ _ ih

/-- A depth is as good as any that is not too small. -/
theorem Descends.iterate_eq (h : Descends k body) (hs : usable s) {n m : ℕ} (hn : unread s < n * k)
    (hle : n ≤ m)
    (last' : Decoder σ ε α) : body^[m] last' s = body^[n] last s := by
  obtain ⟨j, rfl⟩ := Nat.exists_eq_add_of_le hle
  rw [Function.iterate_add_apply]
  exact ((h.iterate _ last n) s hs hn).1

/-- **Termination.** No call is made below the depth of `recurse`. -/
theorem Descends.iterate_eq_recurse (h : Descends k body) (hk : 0 < k) (hs : usable s) {n : ℕ}
    (hn : unread s < n * k) (last' : Decoder σ ε α) : body^[n] last' s = recurse body k last s := by
  have hdepth : unread s < (unread s / k + 1) * k := Nat.lt_mul_of_div_lt (Nat.lt_succ_self _) hk
  have hle : unread s / k + 1 ≤ n := Nat.succ_le_of_lt ((Nat.div_lt_iff_lt_mul hk).mpr hn)
  exact h.iterate_eq hs hdepth hle last'

/-- `recurse` is equal to its body. -/
theorem Descends.recurse_eq (h : Descends k body) (hk : 0 < k) (hs : usable s) :
    recurse body k last s = body (recurse body k last) s := by
  -- what is left after the first `k` elements is short enough for one call less
  have hagree : Agrees (unread s / k * k) (body^[unread s / k] last) (recurse body k last) := by
    intro t ht hlt
    exact ⟨h.iterate_eq_recurse hk ht hlt last, ((h.iterate last last _) t ht hlt).2⟩
  have hdepth : unread s < unread s / k * k + k := by
    rw [← Nat.succ_mul]
    exact Nat.lt_mul_of_div_lt (Nat.lt_succ_self _) hk
  have hbody := ((h _ _ _ hagree) s hs hdepth).1
  rwa [← Function.iterate_succ_apply' body] at hbody

/-- A text of the body is one of the recursion. -/
theorem Descends.accepts_recurse (h : Descends k body) (hk : 0 < k) {bs : List β} {a : α}
    (ha : Accepts (body (recurse body k last)) bs a) : Accepts (recurse body k last) bs a := by
  intro s rest hs hrest
  rw [h.recurse_eq hk hs]
  exact ha s rest hs hrest

/-- What every body yields over what its calls do is yielded by the recursion. -/
theorem yields_recurse {L : List β → α → Prop} (hlast : Yields last L)
    (h : ∀ d, Yields d L → Yields (body d) L) :
    Yields (recurse body k last) L := by
  have hdepth : ∀ n, Yields (body^[n] last) L := by
    intro n
    induction n with
    | zero => exact hlast
    | succ n ih =>
      rw [Function.iterate_succ_apply']
      exact h _ ih
  exact fun s => hdepth _ s

end

end Decoder
end SculkProtocol
