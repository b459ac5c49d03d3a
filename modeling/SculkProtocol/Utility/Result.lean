import SculkProtocol.Encryption.Keystream

/-!
# Results

A function that returns a `Result` is a sequence of checks, each of which may return an
error, followed by the value. `failIf` is one such check, and the lemmas read a
successful sequence as a conjunction.
-/

namespace SculkProtocol

/-- The bytes of a string literal. -/
def literal (s : String) : Bytes := s.toByteArray.data.toList

/-- `if (c) return error_utils::makeError(message);` -/
def failIf (c : Prop) [Decidable c] (message : String) : Except String Unit :=
  if c then .error message else .ok ()

/-- `value`, or the error of a field that has none. -/
def checkField {α : Type} (value : Option α) (message : String) : Except String α :=
  match value with
  | some v => .ok v
  | none => .error message

section

variable {α β : Type} {c : Prop} [Decidable c] {message : String}

@[simp] theorem failIf_eq_ok : failIf c message = .ok () ↔ ¬ c := by
  unfold failIf
  split <;> simp_all

@[simp] theorem failIf_bind_eq_ok {f : Unit → Except String α} {a : α} :
    (failIf c message >>= f) = .ok a ↔ ¬ c ∧ f () = .ok a := by
  unfold failIf
  split
  · next hc => simp [hc, bind, Except.bind]
  · next hc => simp [hc, bind, Except.bind]

/-- A sequence succeeds if both parts do. -/
theorem bind_eq_ok {x : Except String α} {f : α → Except String β} {b : β} :
    (x >>= f) = .ok b ↔ ∃ a, x = .ok a ∧ f a = .ok b := by
  cases x with
  | error e => simp [bind, Except.bind]
  | ok a => simp [bind, Except.bind]

theorem checkField_bind_eq_ok {value : Option α} {f : α → Except String β} {b : β} :
    (checkField value message >>= f) = .ok b ↔ ∃ v, value = some v ∧ f v = .ok b := by
  cases value with
  | some v => simp [checkField, bind, Except.bind]
  | none => simp [checkField, bind, Except.bind]

end

end SculkProtocol
