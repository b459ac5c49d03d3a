import SculkProtocol.Auth.Concrete
import SculkProtocol.Auth.LoginToken
import SculkProtocol.Handshake.Salt

/-!
# `HandShakeToken`

The token by which a server tells a client its key and a salt. It is signed under the key that it
names itself, so a token that is verified says who made it, and nothing about who that is.

`read_token` is about a token that was made: its text is read back as the token, which is verified
and gives the salt and the key it was made with. `accepted_iff` is about a text, whoever wrote it:
it says which texts are accepted, and that the key and the salt of a token are among what was
signed.
-/

namespace SculkProtocol

open StringView

namespace HandShakeToken

structure Header where
  alg : Bytes := []
  x5u : Bytes := []

structure Payload where
  salt : Bytes := []

end HandShakeToken

structure HandShakeToken where
  mRawHeader : Bytes := []
  mHeader : HandShakeToken.Header := {}
  mRawPayload : Bytes := []
  mPayload : HandShakeToken.Payload := {}
  mSignature : Bytes := []

namespace HandShakeToken

open Certificate (signingInput signingInput_ne_nil)

section

open Header Payload

def headerFields : List (Field Header) :=
  [.required "alg" .string alg fun h v => { h with alg := v },
    .required "x5u" .string x5u fun h v => { h with x5u := v }]

def payloadFields : List (Field Payload) :=
  [.required "salt" .string salt fun p v => { p with salt := v }]

end

/-- The texts of errors are those of a login token. -/
def format : TokenFormat Header Payload where
  subject := "login token"
  missing part name :=
    "Login token " ++ part ++ " JSON does not contain a valid field '" ++ name ++ "'"
  key := id
  algFields := []
  checkAlg _ := .ok ()
  headerFields := headerFields
  payloadFields := payloadFields
  noHeader := {}
  noPayload := {}

variable (B : EvpBlocks) (J : Jsonc) (S : Signatures) (token : HandShakeToken)

def getRemotePublicKey : Bytes := token.mHeader.x5u

def getSalt : Bytes := token.mPayload.salt

def verify : Except String Unit := do
  failIf (token.mHeader.alg ≠ literal "ES384") "Unsupported algorithm in handshake token header"
  failIf (S.verifyES384Signature (signingInput token.mRawHeader token.mRawPayload) token.mSignature
    token.mHeader.x5u = false) "Failed to verify login token signature"

/-- The members of an object with these fields. -/
def members {R : Type} (fields : List (Field R)) (r : R) : List (String × J.Json) :=
  fields.map fun f => (f.name, f.json J r)

def sign (jose : Bytes → Bytes → Option Bytes) (localKeyPair : PemKeyPair) :
    Except String HandShakeToken := do
  let header : Header :=
    ⟨literal "ES384", pem_helper.stripPemMarkersAndCompact localKeyPair.mPublicKeyPem⟩
  let rawHeader := base64url.encode (J.dump (J.object (members J headerFields header)))
  let rawPayload := base64url.encode (J.dump (J.object (members J payloadFields token.mPayload)))
  let signature ← checkField
    (es384.signES384Signature jose (signingInput rawHeader rawPayload) localKeyPair.mPrivateKeyPem)
    "Failed to sign login token with ES384"
  pure ⟨rawHeader, header, rawPayload, token.mPayload, signature⟩

def fromString (rawLoginToken : Bytes) : Except String HandShakeToken := do
  let token ← format.parse J rawLoginToken
  pure ⟨token.rawHeader, token.header, token.rawPayload, token.payload, token.signature⟩

def toString : Bytes := joinDots token.mRawHeader token.mRawPayload token.mSignature

def setSaltBytes (salt : Bytes) : HandShakeToken := { token with mPayload := ⟨base64Encode B salt⟩ }

/-- `none` where bytes beyond the buffer would be read. -/
def getSaltBytes : Option Bytes := base64Decode B token.mPayload.salt

/-- `RAND_bytes` gives so many bytes, or fails. -/
def randomSalt (RAND_bytes : ℕ → Option Bytes) : Bytes := (RAND_bytes 8).getD []

def random (RAND_bytes : ℕ → Option Bytes) (jose : Bytes → Bytes → Option Bytes)
    (localKeyPair : PemKeyPair) :
    Except String HandShakeToken :=
  match ((setSaltBytes B {} (randomSalt RAND_bytes)).sign J jose localKeyPair) with
  | .ok token => .ok token
  | .error _ => .error "Failed to sign handshake token"

/-! ### A token that was made -/

variable {B J S token} {token' : HandShakeToken} {jose : Bytes → Bytes → Option Bytes}
  {localKeyPair : PemKeyPair}
  {salt raw : Bytes}

/-- The members are named like the fields. -/
theorem keys_members {R : Type} {fields : List (Field R)} {r : R} :
    (members J fields r).map Prod.fst = fields.map Field.name := by
  rw [members, List.map_map]
  rfl

/-- What a token that was signed has. -/
theorem sign_ok (h : token.sign J jose localKeyPair = .ok token') :
    token'.mHeader =
      ⟨literal "ES384", pem_helper.stripPemMarkersAndCompact localKeyPair.mPublicKeyPem⟩ ∧
    token'.mRawHeader =
      base64url.encode (J.dump (J.object (members J headerFields token'.mHeader))) ∧
    token'.mPayload = token.mPayload ∧
    token'.mRawPayload =
      base64url.encode (J.dump (J.object (members J payloadFields token'.mPayload))) ∧
    es384.signES384Signature jose (signingInput token'.mRawHeader token'.mRawPayload)
      localKeyPair.mPrivateKeyPem = some token'.mSignature := by
  obtain ⟨signature, hsignature, h⟩ := checkField_bind_eq_ok.mp h
  cases h
  exact ⟨rfl, rfl, rfl, rfl, hsignature⟩

/-- A token is signed if OpenSSL signs. -/
theorem sign_isOk (hjose : ∀ input, (jose input localKeyPair.mPrivateKeyPem).isSome = true) :
    ∃ token', token.sign J jose localKeyPair = .ok token' := by
  have hsigned := fun rawHeader rawPayload => es384.signES384Signature_isSome
    (signingInput_ne_nil rawHeader rawPayload) (hjose _)
  exact ⟨_, checkField_bind_eq_ok.mpr ⟨_, Option.eq_some_of_isSome (hsigned _ _), rfl⟩⟩

/-- Its header is read back. -/
theorem parseHeader_sign (hJ : J.Lawful) (h : token.sign J jose localKeyPair = .ok token') :
    format.parseHeader J token'.mRawHeader = .ok token'.mHeader := by
  obtain ⟨-, hraw, -⟩ := sign_ok h
  have hwritten : ∀ f ∈ ([] : List (Field Header)) ++ headerFields, f.Written id token'.mHeader
      (members J headerFields token'.mHeader) := fun f hf =>
    written_values (by simp [headerFields, Field.required, Field.valueJson]) hJ hf
  rw [hraw]
  refine TokenFormat.parseHeader_encode hJ ?_ hwritten ?_ rfl
  · rw [keys_members]
    decide
  · simp only [format, headerFields, List.nil_append, List.foldl_cons, List.foldl_nil,
      Field.copy_required]

/-- Its payload is read back. -/
theorem parsePayload_sign (hJ : J.Lawful) (h : token.sign J jose localKeyPair = .ok token') :
    format.parsePayload J token'.mRawPayload = .ok token'.mPayload := by
  obtain ⟨-, -, -, hraw, -⟩ := sign_ok h
  have hwritten : ∀ f ∈ payloadFields,
      f.Written id token'.mPayload (members J payloadFields token'.mPayload) :=
    fun f hf => written_values (by simp [payloadFields, Field.required, Field.valueJson]) hJ hf
  rw [hraw]
  refine TokenFormat.parsePayload_encode hJ ?_ hwritten ?_
  · rw [keys_members]
    decide
  · simp only [format, payloadFields, List.foldl_cons, List.foldl_nil, Field.copy_required]

/-- A signed token is read back. -/
theorem fromString_sign (hJ : J.Lawful) (h : token.sign J jose localKeyPair = .ok token') :
    fromString J token'.toString = .ok token' := by
  have hsignature := es384.signES384Signature_no_dot (sign_ok h).2.2.2.2
  have hparse :=
    TokenFormat.parse_joinDots (parseHeader_sign hJ h) (parsePayload_sign hJ h) hsignature
  simp only [fromString, toString, hparse, bind, Except.bind, pure, Except.pure]

/-- OpenSSL verifies what it signed with the key of the pair. -/
def Matches (S : Signatures) (jose : Bytes → Bytes → Option Bytes) (localKeyPair : PemKeyPair) :
    Prop :=
  ∀ input signature, es384.signES384Signature jose input localKeyPair.mPrivateKeyPem =
    some signature →
    S.verifyES384Signature input signature
      (pem_helper.stripPemMarkersAndCompact localKeyPair.mPublicKeyPem) = true

/-- It is verified. -/
theorem verify_sign (h : token.sign J jose localKeyPair = .ok token')
    (hmatch : Matches S jose localKeyPair) :
    token'.verify S = .ok () := by
  obtain ⟨hheader, -, -, -, hsignature⟩ := sign_ok h
  have hverify := hmatch _ _ hsignature
  simp only [verify, failIf_bind_eq_ok, failIf_eq_ok, hheader, hverify]
  decide

/-- **A token that was made** with a salt whose text is not too long, and whose own text arrived, is
read and verified, and gives the salt and the key. -/
theorem read_token (hJ : J.Lawful) (hB : B.Lawful) (hmatch : Matches S jose localKeyPair)
    (hsize : EvpBlocks.Fits salt.length)
    (h : (token.setSaltBytes B salt).sign J jose localKeyPair = .ok token') :
    fromString J token'.toString = .ok token' ∧ token'.verify S = .ok () ∧
      token'.getSaltBytes B = some salt ∧
      token'.getRemotePublicKey =
        pem_helper.stripPemMarkersAndCompact localKeyPair.mPublicKeyPem := by
  obtain ⟨hheader, -, hpayload, -⟩ := sign_ok h
  refine ⟨fromString_sign hJ h, verify_sign h hmatch, ?_, ?_⟩
  · show base64Decode B token'.mPayload.salt = some salt
    rw [hpayload]
    exact base64Decode_base64Encode hB hsize
  · rw [getRemotePublicKey, hheader]

/-- Seven bytes of salt, which take a block with padding. -/
theorem read_token_seven :
    ∃ token', (({} : HandShakeToken).setSaltBytes standardBlocks [1, 2, 3, 4, 5, 6, 255]).sign
      compact echo.jose
        ⟨literal "K", literal "K"⟩ = .ok token' ∧
      fromString compact token'.toString = .ok token' ∧ token'.verify echo.signatures = .ok () ∧
      token'.getSaltBytes standardBlocks = some [1, 2, 3, 4, 5, 6, 255] ∧
      token'.getRemotePublicKey = pem_helper.stripPemMarkersAndCompact (literal "K") := by
  have hkey : pem_helper.stripPemMarkersAndCompact (literal "K") = literal "K" := by decide
  have hmatch : Matches echo.signatures echo.jose ⟨literal "K", literal "K"⟩ := by
    intro input signature hsigned
    rw [hkey]
    exact echo_verify hsigned
  obtain ⟨token', htoken⟩ : ∃ token',
    (({} : HandShakeToken).setSaltBytes standardBlocks [1, 2, 3, 4, 5, 6, 255]).sign
      compact echo.jose ⟨literal "K", literal "K"⟩ = .ok token' := sign_isOk fun _ => rfl
  exact ⟨token', htoken, read_token compact_lawful standardBlocks_lawful hmatch
    (by unfold EvpBlocks.Fits; decide) htoken⟩

/-! ### A token that was read -/

/-- A token that was read is the one that its text stands for. -/
theorem toString_fromString (h : fromString J raw = .ok token) : token.toString = raw := by
  obtain ⟨parsed, hparsed, h⟩ := bind_eq_ok.mp h
  cases h
  exact (TokenFormat.parse_ok hparsed).1.symm

/-- A token is verified by its algorithm and its signature. -/
theorem verify_ok : token.verify S = .ok () ↔ token.mHeader.alg = literal "ES384" ∧
    S.verifyES384Signature (signingInput token.mRawHeader token.mRawPayload) token.mSignature
      token.getRemotePublicKey = true := by
  simp only [verify, failIf_bind_eq_ok, failIf_eq_ok, not_not, Bool.not_eq_false]
  rfl

/-- The parts of a text that is accepted, with what was read of the first two. -/
structure Parts where
  rawHeader : Bytes
  rawPayload : Bytes
  signature : Bytes
  header : Header
  payload : Payload

/-- The parts are those of a text, are read as the header and the payload, and are signed under the
key in the header. -/
structure Parts.Accepted (J : Jsonc) (S : Signatures) (raw : Bytes) (parts : Parts) : Prop where
  text : raw = joinDots parts.rawHeader parts.rawPayload parts.signature
  signature_no_dot : dot ∉ parts.signature
  header : format.parseHeader J parts.rawHeader = .ok parts.header
  payload : format.parsePayload J parts.rawPayload = .ok parts.payload
  alg : parts.header.alg = literal "ES384"
  signed : S.verifyES384Signature (signingInput parts.rawHeader parts.rawPayload) parts.signature
    parts.header.x5u = true

/-- The token of these parts. -/
def Parts.toToken (parts : Parts) : HandShakeToken :=
  ⟨parts.rawHeader, parts.header, parts.rawPayload, parts.payload, parts.signature⟩

/-- **Which texts are accepted**, and as what: the key and the salt come from the parts that the
signature is about, and no text is accepted as two tokens. -/
theorem accepted_iff (J : Jsonc) (S : Signatures) (raw : Bytes) (token : HandShakeToken) :
    fromString J raw = .ok token ∧ token.verify S = .ok () ↔
      ∃ parts : Parts, parts.Accepted J S raw ∧ token = parts.toToken := by
  constructor
  · rintro ⟨hread, hverify⟩
    obtain ⟨parsed, hparsed, htoken⟩ := bind_eq_ok.mp hread
    cases htoken
    obtain ⟨hraw, -, -, hsignature, hheader, hpayload⟩ := TokenFormat.parse_ok hparsed
    obtain ⟨halg, hsigned⟩ := verify_ok.mp hverify
    exact ⟨⟨_, _, _, _, _⟩, ⟨hraw, hsignature, hheader, hpayload, halg, hsigned⟩, rfl⟩
  · rintro ⟨parts, haccepted, rfl⟩
    refine ⟨?_, verify_ok.mpr ⟨haccepted.alg, haccepted.signed⟩⟩
    have hparse :=
      TokenFormat.parse_joinDots haccepted.header haccepted.payload haccepted.signature_no_dot
    rw [haccepted.text]
    simp only [fromString, hparse, bind, Except.bind, pure, Except.pure]
    rfl

end HandShakeToken
end SculkProtocol
