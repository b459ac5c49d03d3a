import SculkProtocol.Json.RoundTrip

/-!
# Codecs

A codec writes the values of a type as JSON and reads them back; it carries the proof that
it does. Codecs of records are built from those of their members, which are read in the
order in which they are written.
-/

namespace SculkProtocol
namespace Json

def isNull : Json → Bool
  | .null => true
  | _ => false

structure Codec (α : Type) where
  write : α → Json
  read : Json → Option α
  read_write : ∀ a, read (write a) = some a
  isNull_write : ∀ a, (write a).isNull = false

namespace Codec

def string : Codec Bytes where
  write := .string
  read
    | .string s => some s
    | _ => none
  read_write _ := rfl
  isNull_write _ := rfl

def int : Codec ℤ where
  write := .int
  read
    | .int n => some n
    | _ => none
  read_write _ := rfl
  isNull_write _ := rfl

def bool : Codec Bool where
  write := .bool
  read
    | .bool b => some b
    | _ => none
  read_write _ := rfl
  isNull_write _ := rfl

variable {α β γ : Type}

/-- The values of a type, written as those of another. -/
def via (c : Codec β) (repr : α → β) (of : β → Option α)
    (h : ∀ a, of (repr a) = some a) : Codec α where
  write a := c.write (repr a)
  read json := (c.read json).bind of
  read_write a := by rw [c.read_write, Option.bind_some, h]
  isNull_write a := c.isNull_write (repr a)

theorem mapM_read (c : Codec α) (xs : List α) : (xs.map c.write).mapM c.read = some xs := by
  induction xs with
  | nil => rfl
  | cons x xs ih => rw [List.map_cons, List.mapM_cons, c.read_write, ih]; rfl

def list (c : Codec α) : Codec (List α) where
  write xs := .array (xs.map c.write)
  read
    | .array values => values.mapM c.read
    | _ => none
  read_write := c.mapM_read
  isNull_write _ := rfl

def int32 : Codec Int32 :=
  int.via Int32.toInt (fun n => if (Int32.ofInt n).toInt = n then some (Int32.ofInt n) else none)
    fun a => by rw [Int32.ofInt_toInt, if_pos rfl]

def uint32 : Codec UInt32 :=
  int.via (fun a => (a.toNat : ℤ))
    (fun n => if ((UInt32.ofNat n.toNat).toNat : ℤ) = n then some (UInt32.ofNat n.toNat) else none)
    fun a => by rw [Int.toNat_natCast, UInt32.ofNat_toNat, if_pos rfl]

def uint64 : Codec UInt64 :=
  int.via (fun a => (a.toNat : ℤ))
    (fun n => if ((UInt64.ofNat n.toNat).toNat : ℤ) = n then some (UInt64.ofNat n.toNat) else none)
    fun a => by rw [Int.toNat_natCast, UInt64.ofNat_toNat, if_pos rfl]

end Codec

/-- How a record is written as the members of an object. -/
structure MembersCodec (α : Type) where
  write : α → List (Bytes × Json)
  read : List (Bytes × Json) → Option α
  read_write : ∀ a, read (write a) = some a

namespace MembersCodec

variable {α β : Type}

def last (key : Bytes) (c : Codec α) : MembersCodec α where
  write a := [(key, c.write a)]
  read
    | [(k, json)] => if k = key then c.read json else none
    | _ => none
  read_write a := by simp only [if_true, c.read_write]

def cons (key : Bytes) (c : Codec α) (rest : MembersCodec β) : MembersCodec (α × β) where
  write a := (key, c.write a.1) :: rest.write a.2
  read
    | (k, json) :: members =>
      if k = key then (c.read json).bind fun a => (rest.read members).map (a, ·) else none
    | [] => none
  read_write a := by
    simp only [if_true, c.read_write, rest.read_write, Option.bind_some, Option.map_some]

def object (members : MembersCodec α) : Codec α where
  write a := .object (members.write a)
  read
    | .object ms => members.read ms
    | _ => none
  read_write := members.read_write
  isNull_write _ := rfl

end MembersCodec

end Json
end SculkProtocol
