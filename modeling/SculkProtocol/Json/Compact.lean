import Mathlib.Data.Int.Basic
import SculkProtocol.Utility.Result

/-!
# Compact JSON

JSON values with integers, their text without white space, and a parser of such texts. The
parser takes a bound on the depth of the values and the lengths of the lists; `parse` gives
it the length of the text. Strings are byte strings; what is not ASCII is not escaped.
-/

namespace SculkProtocol

inductive Json
  | null
  | bool (b : Bool)
  | int (n : ℤ)
  | string (s : Bytes)
  | array (values : List Json)
  | object (members : List (Bytes × Json))

namespace Json

def quote : UInt8 := 34
def comma : UInt8 := 44
def minus : UInt8 := 45
def colon : UInt8 := 58
def backslash : UInt8 := 92

/-! ### Numbers -/

/-- Decimal digits. -/
def digits (n : ℕ) : Bytes :=
  if n < 10 then [UInt8.ofNat (48 + n)] else digits (n / 10) ++ [UInt8.ofNat (48 + n % 10)]

def printInt (n : ℤ) : Bytes := if n < 0 then minus :: digits n.natAbs else digits n.natAbs

def isDigit (c : UInt8) : Bool := decide (48 ≤ c ∧ c ≤ 57)

def ofDigits (ds : Bytes) : ℕ := ds.foldl (fun n c => 10 * n + (c.toNat - 48)) 0

def parseNat (s : Bytes) : Option (ℕ × Bytes) :=
  if s.takeWhile isDigit = [] then none
  else some (ofDigits (s.takeWhile isDigit), s.dropWhile isDigit)

def parseInt (s : Bytes) : Option (ℤ × Bytes) :=
  match s with
  | [] => none
  | c :: r =>
    if c = minus then (parseNat r).map fun (n, r) => (-(n : ℤ), r)
    else (parseNat s).map fun (n, r) => ((n : ℤ), r)

/-! ### Strings -/

/-- The letters that stand for characters after a backslash. -/
def escapes : List (UInt8 × UInt8) :=
  [(quote, quote), (backslash, backslash), (8, 98), (12, 102), (10, 110), (13, 114), (9, 116)]

def hexDigit (n : UInt8) : UInt8 := if n < 10 then 48 + n else 87 + n

def hexValue (c : UInt8) : UInt8 := if c < 58 then c - 48 else c - 87

def escape (c : UInt8) : Bytes :=
  match escapes.lookup c with
  | some letter => [backslash, letter]
  | none =>
    if c < 32 then [backslash, 117, 48, 48, hexDigit (c / 16), hexDigit (c % 16)] else [c]

def printString (s : Bytes) : Bytes := quote :: (s.flatMap escape ++ [quote])

/-- The rest of a string after its opening quote. -/
def parseStringTail : ℕ → Bytes → Option (Bytes × Bytes)
  | 0, _ => none
  | _ + 1, [] => none
  | fuel + 1, c :: s =>
    if c = quote then some ([], s)
    else if c = backslash then
      match s with
      | [] => none
      | letter :: s =>
        if letter = 117 then
          match s with
          | _ :: _ :: high :: low :: s =>
            (parseStringTail fuel s).map fun (t, s) => ((16 * hexValue high + hexValue low) :: t, s)
          | _ => none
        else
          match (escapes.map fun e => (e.2, e.1)).lookup letter with
          | some c => (parseStringTail fuel s).map fun (t, s) => (c :: t, s)
          | none => none
    else (parseStringTail fuel s).map fun (t, s) => (c :: t, s)

def parseString (s : Bytes) : Option (Bytes × Bytes) :=
  match s with
  | c :: r => if c = quote then parseStringTail s.length r else none
  | [] => none

/-! ### Lists -/

/-- Texts separated by commas, and the end of the list. -/
def printTail (close : UInt8) (texts : List Bytes) : Bytes := texts.flatMap (comma :: ·) ++ [close]

def printList (close : UInt8) : List Bytes → Bytes
  | [] => [close]
  | text :: texts => text ++ printTail close texts

section

variable {α : Type} (element : Bytes → Option (α × Bytes)) (close : UInt8)

def parseTail : ℕ → Bytes → Option (List α × Bytes)
  | 0, _ => none
  | _ + 1, [] => none
  | fuel + 1, c :: s =>
    if c = close then some ([], s)
    else if c = comma then do
      let (x, s) ← element s
      let (xs, s) ← parseTail fuel s
      some (x :: xs, s)
    else none

def parseList (fuel : ℕ) (s : Bytes) : Option (List α × Bytes) :=
  if s.head? = some close then some ([], s.tail)
  else do
    let (x, s) ← element s
    let (xs, s) ← parseTail element close fuel s
    some (x :: xs, s)

end

/-! ### Values -/

def print : Json → Bytes
  | .null => literal "null"
  | .bool true => literal "true"
  | .bool false => literal "false"
  | .int n => printInt n
  | .string s => printString s
  | .array values => 91 :: printList 93 (values.map print)
  | .object members => 123 :: printList 125 (members.map fun m => printString m.1 ++
      colon :: print m.2)
termination_by json => sizeOf json
decreasing_by
  all_goals simp_wf
  · have := List.sizeOf_lt_of_mem ‹_›
    omega
  · have := List.sizeOf_lt_of_mem ‹_›
    have : sizeOf m.2 < sizeOf m := by cases m; simp only [Prod.mk.sizeOf_spec]; omega
    omega

/-- A member of an object. -/
def parseMember (value : Bytes → Option (Json × Bytes)) (s : Bytes) :
    Option ((Bytes × Json) × Bytes) := do
  let (key, s) ← parseString s
  match s with
  | c :: s =>
    if c = colon then do
      let (json, s) ← value s
      some ((key, json), s)
    else none
  | [] => none

def parseValue : ℕ → Bytes → Option (Json × Bytes)
  | 0, _ => none
  | _ + 1, [] => none
  | fuel + 1, c :: s =>
    if c = quote then (parseString (c :: s)).map fun (t, s) => (.string t, s)
    else if c = 91 then (parseList (parseValue fuel) 93 fuel s).map fun (values, s) =>
      (.array values, s)
    else if c = 123 then
      (parseList (parseMember (parseValue fuel)) 125 fuel s).map fun (members, s) =>
        (.object members, s)
    else if c = 110 then (s.dropPrefix? (literal "ull")).map fun s => (.null, s)
    else if c = 116 then (s.dropPrefix? (literal "rue")).map fun s => (.bool true, s)
    else if c = 102 then (s.dropPrefix? (literal "alse")).map fun s => (.bool false, s)
    else (parseInt (c :: s)).map fun (n, s) => (.int n, s)

/-- The value of a whole text, which may end in a line break. -/
def parse (s : Bytes) : Option Json :=
  match parseValue (s.length + 1) s with
  | some (json, []) => some json
  | some (json, [10]) => some json
  | _ => none

end Json
end SculkProtocol
