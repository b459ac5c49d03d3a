import SculkProtocol.Auth.Jsonc
import SculkProtocol.Json.Codec
import SculkProtocol.Ssl.ES384

/-!
# A JSON library and signatures

`compact` is a JSON library with the laws that are assumed of one: it writes compact texts.
A `float` is written as the number its bits are, unlike by the real library; the records
that are written with it elsewhere have none. `echo` is a signature scheme whose keys are
their own public keys: a signature repeats the key and what is signed.
-/

namespace SculkProtocol

open Json (Codec MembersCodec)

theorem literal_injective {s t : String} (h : literal s = literal t) : s = t := by
  have hdata : s.toByteArray.data = t.toByteArray.data := Array.toList_inj.mp h
  exact String.toByteArray_inj.mp (ByteArray.ext hdata)

def AuthenticationType.ofInt : ℤ → Option AuthenticationType
  | 0 => some .Full
  | 1 => some .Guest
  | 2 => some .SelfSigned
  | _ => none

namespace compact

def extraData : Codec Certificate.ExtraData :=
  (MembersCodec.cons (literal "identity") .string <|
    .cons (literal "displayName") .string <| .cons (literal "XUID") .string <|
    .cons (literal "titleId") .string <| .last (literal "sandBoxId") .string).object.via
    (fun e => (e.identity, e.displayName, e.XUID, e.titleId, e.sandBoxId))
    (fun (a, b, c, d, e) => some ⟨a, b, c, d, e⟩) fun _ => rfl

def animatedImage : Codec ClientProperties.AnimatedImage :=
  (MembersCodec.cons (literal "AnimationExpression") .int32 <|
    .cons (literal "Frames") .uint32 <| .cons (literal "Image") .string <|
    .cons (literal "ImageHeight") .int32 <| .cons (literal "ImageWidth") .int32 <|
    .last (literal "Type") .int32).object.via
    (fun i => (i.mAnimationExpression, i.mFrames, i.mImage, i.mImageHeight, i.mImageWidth, i.mType))
    (fun (a, b, c, d, e, f) => some ⟨a, b, c, d, e, f⟩) fun _ => rfl

def personaPiece : Codec ClientProperties.PersonaPiece :=
  (MembersCodec.cons (literal "IsDefault") .bool <|
    .cons (literal "PackId") .string <| .cons (literal "PieceId") .string <|
    .cons (literal "PieceType") .string <| .last (literal "ProductId") .string).object.via
    (fun p => (p.mIsDefault, p.mPackId, p.mPieceId, p.mPieceType, p.mProductId))
    (fun (a, b, c, d, e) => some ⟨a, b, c, d, e⟩) fun _ => rfl

def colors : Codec (Vector Bytes 4) :=
  (Codec.list .string).via Vector.toList
    (fun l => if h : l.toArray.size = 4 then some ⟨l.toArray, h⟩ else none)
    fun v => by simp [Vector.toList]

def pieceTintColor : Codec ClientProperties.PieceTintColor :=
  (MembersCodec.cons (literal "Colors") colors <| .last (literal "PieceType") .string).object.via
    (fun p => (p.mColors, p.mPieceType)) (fun (a, b) => some ⟨a, b⟩) fun _ => rfl

def codec : (type : FieldType) → Codec type.Value
  | .string => .string
  | .int32 => .int32
  | .int64 => .int
  | .uint64 => .uint64
  | .bool => .bool
  | .authenticationType =>
    Codec.int.via AuthenticationType.toInt AuthenticationType.ofInt
      fun type => by cases type <;> rfl
  | .extraData => extraData
  | .animatedImages => .list animatedImage
  | .personaPieces => .list personaPiece
  | .pieceTintColors => .list pieceTintColor

end compact

/-- The members of an object. -/
def Json.members : Json → List (Bytes × Json)
  | .object members => members
  | _ => []

/-- The object with these members. -/
def Json.ofMembers (members : List (String × Json)) : Json :=
  .object (members.map fun m => (literal m.1, m.2))

theorem Json.contains_ofMembers (members : List (String × Json)) (key : String) :
    ((ofMembers members).members.any fun m => m.1 == literal key) = true ↔
    key ∈ members.map Prod.fst := by
  simp only [ofMembers, Json.members, List.any_map, List.any_eq_true, Function.comp_apply,
    beq_iff_eq, List.mem_map]
  constructor
  · rintro ⟨m, hm, hkey⟩
    exact ⟨m, hm, literal_injective hkey⟩
  · rintro ⟨m, hm, rfl⟩
    exact ⟨m, hm, rfl⟩

theorem Json.lookup_ofMembers {members : List (String × Json)} {key : String} {value : Json}
    (hnodup : (members.map Prod.fst).Nodup) (hmem : (key, value) ∈ members) :
    (ofMembers members).members.lookup (literal key) = some value := by
  induction members with
  | nil => exact absurd hmem List.not_mem_nil
  | cons m members ih =>
    rw [List.map_cons, List.nodup_cons] at hnodup
    rcases List.mem_cons.mp hmem with rfl | hmem
    · simp [ofMembers, Json.members]
    · have hne : literal key ≠ literal m.1 := fun h =>
        hnodup.1 (literal_injective h ▸ List.mem_map_of_mem (f := Prod.fst) hmem)
      have hrest := ih hnodup.2 hmem
      simp only [ofMembers, Json.members] at hrest
      simp only [ofMembers, Json.members, List.map_cons, List.lookup_cons,
        beq_eq_false_iff_ne.mpr hne, hrest]

theorem Json.print_unsigned :
    (ofMembers [("chain", .array [.string (literal "..")])]).print
      = literal "\x7b\"chain\":[\"..\"]\x7d" := by
  simp only [ofMembers, List.map_cons, List.map_nil, print]
  decide +kernel

def compact : Jsonc where
  Json := Json
  parse := Json.parse
  dump := Json.print
  object := Json.ofMembers
  contains json key := json.members.any fun m => m.1 == literal key
  find json key := (json.members.lookup (literal key)).getD .null
  isNull := Json.isNull
  array := .array
  elements
    | .array values => some values
    | _ => none
  string := .string
  getString := Codec.string.read
  integer := .int
  serialize type := (compact.codec type).write
  deserialize type := (compact.codec type).read
  serializeOptional type
    | some v => (compact.codec type).write v
    | none => .null
  deserializeOptional type json :=
    if json.isNull then some none else ((compact.codec type).read json).map some

theorem compact_lawful : compact.Lawful where
  parse_dump := Json.parse_print
  parse_dump_newline := Json.parse_print_newline
  parse_nil := rfl
  contains_object := Json.contains_ofMembers
  find_object _ _ _ hnodup hmem := congrArg (·.getD .null) (Json.lookup_ofMembers hnodup hmem)
  elements_array _ := rfl
  getString_string _ := rfl
  dump_unsigned := Json.print_unsigned
  serialize_string _ := rfl
  serialize_authenticationType _ := rfl
  deserialize_serialize type := (compact.codec type).read_write
  deserializeOptional_serialize type v := by
    simp only [compact, (compact.codec type).isNull_write, (compact.codec type).read_write,
      Bool.false_eq_true, if_false, Option.map_some]
  serializeOptional_some _ _ := rfl
  isNull_serialize type := (compact.codec type).isNull_write
  isNull_none _ := rfl

namespace echo

def jose (signingInput privateKey : Bytes) : Option Bytes := some (privateKey ++ signingInput)

def signatures : Signatures where
  verifyES384Signature signingInput signature publicKey :=
    signature == base64url.encode (publicKey ++ signingInput)
  verifyRS256Signature signingInput signature publicKey :=
    signature == base64url.encode (publicKey ++ signingInput)

end echo

/-- What is signed is verified. -/
theorem echo_verify {signingInput key signature : Bytes}
    (h : es384.signES384Signature echo.jose signingInput key = some signature) :
    echo.signatures.verifyES384Signature signingInput signature key = true := by
  unfold es384.signES384Signature at h
  split at h
  · exact absurd h (by simp)
  · cases h
    simp [echo.signatures]

end SculkProtocol
