import Mathlib.Algebra.Order.Ring.Nat
import Mathlib.Data.List.Induction

/-!
# Positional numerals

The numerals of a fixed width in a base `b`, most significant digit first: `ofDigits` reads
one, a digit at a time, and `digits` writes one, each digit from its power of the base. On
digits below the base they are inverse to each other (`digits_ofDigits`,
`ofDigits_digits`).
-/

namespace SculkProtocol
namespace Positional

variable {b : ℕ}

/-- The number that some digits stand for. -/
def ofDigits (b : ℕ) (ds : List ℕ) : ℕ := ds.foldl (fun n d => b * n + d) 0

/-- The last `width` digits of a number. -/
def digits (b n width : ℕ) : List ℕ := (List.range width).map fun i => n / b ^ (width - 1 - i) % b

@[simp] theorem ofDigits_nil : ofDigits b [] = 0 := rfl

@[simp] theorem ofDigits_concat (ds : List ℕ) (d : ℕ) :
    ofDigits b (ds ++ [d]) = b * ofDigits b ds + d := by
  simp [ofDigits]

@[simp] theorem length_digits (n width : ℕ) : (digits b n width).length = width := by
  simp [digits]

@[simp] theorem digits_zero (n : ℕ) : digits b n 0 = [] := rfl

theorem digits_succ (n width : ℕ) : digits b n (width + 1) = digits b (n / b) width ++ [n % b] := by
  rw [digits, digits, List.range_succ, List.map_append, List.map_singleton]
  congr 1
  · refine List.map_congr_left fun i hi => ?_
    have hlt := List.mem_range.mp hi
    -- of each other digit one factor of the power divides the number beforehand
    rw [show width + 1 - 1 - i = (width - 1 - i) + 1 by omega, Nat.pow_succ',
      ← Nat.div_div_eq_div_mul]
  · simp

/-- Digits below the base stand for a number below the power of their count. -/
theorem ofDigits_lt {ds : List ℕ} (h : ∀ d ∈ ds, d < b) : ofDigits b ds < b ^ ds.length := by
  induction ds using List.reverseRecOn with
  | nil => exact Nat.one_pos
  | append_singleton ds d ih =>
    have hlt := ih fun d' hd' => h d' (List.mem_append_left _ hd')
    have hd : d < b := h d (by simp)
    rw [ofDigits_concat, List.length_append, List.length_singleton, Nat.pow_succ']
    calc b * ofDigits b ds + d < b * ofDigits b ds + b := Nat.add_lt_add_left hd _
      _ = b * (ofDigits b ds + 1) := (Nat.mul_succ _ _).symm
      _ ≤ b * b ^ ds.length := Nat.mul_le_mul_left b hlt

/-- What is written is read back. -/
theorem ofDigits_digits (n width : ℕ) : ofDigits b (digits b n width) = n % b ^ width := by
  induction width generalizing n with
  | zero => simp [Nat.mod_one]
  | succ width ih =>
    rw [digits_succ, ofDigits_concat, ih, Nat.pow_succ', Nat.mod_mul, Nat.add_comm]

/-- What is read is written again. -/
theorem digits_ofDigits {ds : List ℕ} (h : ∀ d ∈ ds, d < b) :
    digits b (ofDigits b ds) ds.length = ds := by
  induction ds using List.reverseRecOn with
  | nil => rfl
  | append_singleton ds d ih =>
    have hd : d < b := h d (by simp)
    have hb : 0 < b := Nat.zero_lt_of_lt hd
    rw [List.length_append, List.length_singleton, digits_succ, ofDigits_concat, Nat.mul_add_mod,
      Nat.mod_eq_of_lt hd, Nat.mul_add_div hb, Nat.div_eq_of_lt hd, Nat.add_zero,
      ih fun d' hd' => h d' (List.mem_append_left _ hd')]

end Positional
end SculkProtocol
