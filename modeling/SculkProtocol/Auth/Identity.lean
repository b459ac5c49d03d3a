import Mathlib.Algebra.Ring.Nat
import SculkProtocol.Utility.StringView

/-!
# `Identity`

An identity is a UUID. It is computed from an XUID, a decimal number, by MD5, or read from
its text. MD5 is a parameter; a function that would abort the program is `none`.
-/

namespace SculkProtocol

open StringView

structure Identity where
  mHighBits : UInt64 := 0
  mLowBits : UInt64 := 0
  deriving DecidableEq

namespace Identity

def IDENTITY_XUID_PREFIX : Bytes := literal "pocket-auth-1-xuid:"

def isAsciiDigit (c : UInt8) : Bool := decide (48 ≤ c ∧ c ≤ 57)

/-- The value of decimal digits. -/
def digitsValue (digits : Bytes) : ℕ := digits.foldl (fun n c => 10 * n + (c.toNat - 48)) 0

/-- `std::from_chars` of a `std::uint64_t`: the value and what is not consumed. -/
def fromChars (s : Bytes) : Option (ℕ × Bytes) :=
  let digits := s.takeWhile isAsciiDigit
  if digits = [] then none
  else if 2 ^ 64 ≤ digitsValue digits then none
  else some (digitsValue digits, s.dropWhile isAsciiDigit)

def validateXuid (xuid : Bytes) : Except String Unit :=
  match fromChars xuid with
  | none => .error "XUID is not a valid unsigned 64-bit integer"
  | some (_, rest) => failIf (rest ≠ []) "XUID contains invalid characters"

/-- The XUID is one. -/
def isXuid (xuid : Bytes) : Bool := (validateXuid xuid).isOk

def readU64BigEndian (bytes : Bytes) : UInt64 :=
  (bytes.take 8).foldl (fun value b => (value <<< 8) ||| b.toUInt64) 0

/-- `digest[i] = (digest[i] & mask) | bits` -/
def maskByte (digest : Bytes) (i : ℕ) (mask bits : UInt8) : Bytes :=
  digest.modify i fun b => (b &&& mask) ||| bits

/-- `md5` is the digest of a string, if it could be computed. -/
def fromXuid (md5 : Bytes → Option Bytes) (xuid : Bytes) : Option Identity :=
  if isXuid xuid then
    (md5 (IDENTITY_XUID_PREFIX ++ xuid)).map fun digest =>
      let digest := maskByte digest 6 0x0F 0x30
      let digest := maskByte digest 8 0x3F 0x80
      ⟨readU64BigEndian digest, readU64BigEndian (digest.drop 8)⟩
  else none

def isAsciiHexDigit (c : UInt8) : Bool :=
  decide (48 ≤ c ∧ c ≤ 57 ∨ 97 ≤ c ∧ c ≤ 102 ∨ 65 ≤ c ∧ c ≤ 70)

def hexValue (c : UInt8) : UInt8 :=
  if 48 ≤ c ∧ c ≤ 57 then c - 48
  else if 97 ≤ c ∧ c ≤ 102 then c - 97 + 10
  else c - 65 + 10

def parseHex (value : Bytes) : Option UInt64 :=
  if value.all isAsciiHexDigit then
    some (value.foldl (fun out c => (out <<< 4) ||| (hexValue c).toUInt64) 0)
  else none

/-- `'-'` -/
def dash : UInt8 := 45

/-- A UUID in its text form. -/
def parseIdentityString (str : Bytes) : Option Identity :=
  if str.length ≠ 36 then none
  else if str[8]? ≠ some dash ∨ str[13]? ≠ some dash ∨ str[18]? ≠ some dash ∨
    str[23]? ≠ some dash then none
  else do
    let group1 ← parseHex (substr str 0 8)
    let group2 ← parseHex (substr str 9 4)
    let group3 ← parseHex (substr str 14 4)
    let group4 ← parseHex (substr str 19 4)
    let group5 ← parseHex (substr str 24 12)
    if group2 > 0xFFFF ∨ group3 > 0xFFFF ∨ group4 > 0xFFFF ∨ group5 > 0x0000FFFFFFFFFFFF then none
    else some ⟨(group1 <<< 32) ||| (group2 <<< 16) ||| group3, (group4 <<< 48) ||| group5⟩

def validateString (str : Bytes) : Except String Unit :=
  if (parseIdentityString str).isSome then .ok ()
  else if str.length ≠ 36 then .error "Identity string must be 36 characters long"
  else if str[8]? ≠ some dash ∨ str[13]? ≠ some dash ∨ str[18]? ≠ some dash ∨
    str[23]? ≠ some dash then
    .error "Identity string must be in the format XXXXXXXX-XXXX-XXXX-XXXX-XXXXXXXXXXXX"
  else .error "Identity string contains invalid characters"

def fromString (str : Bytes) : Option Identity := parseIdentityString str

def HEX_DIGITS : Bytes := literal "0123456789abcdef"

/-- `width` hexadecimal digits of a part. -/
def hexDigits (part : UInt64) (width : ℕ) : Bytes :=
  (List.range width).map fun i =>
    HEX_DIGITS.getD ((part >>> UInt64.ofNat (4 * (width - 1 - i))) &&& 0x0F).toNat 0

def toString (identity : Identity) : Bytes :=
  hexDigits ((identity.mHighBits >>> 32) &&& 0xFFFFFFFF) 8 ++
    dash :: (hexDigits ((identity.mHighBits >>> 16) &&& 0xFFFF) 4 ++
      dash :: (hexDigits (identity.mHighBits &&& 0xFFFF) 4 ++
        dash :: (hexDigits ((identity.mLowBits >>> 48) &&& 0xFFFF) 4 ++
          dash :: hexDigits (identity.mLowBits &&& 0x0000FFFFFFFFFFFF) 12)))

theorem isXuid_nil : isXuid [] = false := rfl

/-- A validated XUID only aborts the program if MD5 fails. -/
theorem fromXuid_isSome {md5 : Bytes → Option Bytes} {xuid : Bytes} (h : isXuid xuid = true) :
    (fromXuid md5 xuid).isSome = (md5 (IDENTITY_XUID_PREFIX ++ xuid)).isSome := by
  rw [fromXuid, if_pos h, Option.isSome_map]

/-- A validated identity string is read. -/
theorem fromString_isSome {str : Bytes} (h : (validateString str).isOk = true) :
    (fromString str).isSome = true := by
  unfold validateString at h
  split at h
  · assumption
  · split at h
    · exact absurd h (by simp [Except.isOk, Except.toBool])
    · split at h <;> exact absurd h (by simp [Except.isOk, Except.toBool])

example : isXuid (literal "2535412345678901") = true := by decide +kernel

end Identity
end SculkProtocol
