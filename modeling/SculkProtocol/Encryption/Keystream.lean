import Mathlib.Data.List.Basic

/-!
# Stream ciphers

A stream cipher combines each byte with the keystream byte at its position, so it
is its own inverse when both sides are at the same position, and how far it gets
depends on the length of the data only.
-/

namespace SculkProtocol

abbrev Bytes := List UInt8

/-- Combine `bytes` with the keystream from position `p` on. -/
def xorFrom (keystream : ℕ → UInt8) : ℕ → Bytes → Bytes
  | _, [] => []
  | p, b :: bytes => (b ^^^ keystream p) :: xorFrom keystream (p + 1) bytes

variable (keystream : ℕ → UInt8)

@[simp] theorem xorFrom_length (p : ℕ) (bytes : Bytes) :
    (xorFrom keystream p bytes).length = bytes.length := by
  induction bytes generalizing p with
  | nil => rfl
  | cons b bytes ih => simp [xorFrom, ih]

/-- **A stream cipher is an involution** at a fixed position. -/
@[simp] theorem xorFrom_xorFrom (p : ℕ) (bytes : Bytes) :
    xorFrom keystream p (xorFrom keystream p bytes) = bytes := by
  induction bytes generalizing p with
  | nil => rfl
  | cons b bytes ih =>
    simp only [xorFrom, ih, List.cons.injEq, and_true]
    rw [UInt8.xor_assoc, UInt8.xor_self, UInt8.xor_zero]

end SculkProtocol
