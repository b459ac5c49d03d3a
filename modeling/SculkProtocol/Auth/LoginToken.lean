import SculkProtocol.Auth.TokenFormat
import SculkProtocol.Ssl.ES384
import SculkProtocol.Ssl.PemHelper

/-!
# `LoginToken`

A login token is verified as Mojang's, under one of the keys of the key manager, or as
signed by the client itself. The two kinds are told apart by the algorithm in the header:
a token that passes one check does not pass the other (`verifyOnline_alg`,
`verifySelfSigned_alg`).

`selfSign` writes some of the fields; `parse_selfSign` says that they are read back, and
that the others, which an earlier parse may have left in the token, are not.
-/

namespace SculkProtocol

open StringView

structure AuthenticationKeyManager where
  mPublicKeysPemByKeyId : List (Bytes × Bytes) := []
  mExpectedIssuer : Bytes := []
  mExpectedPlayFabTitle : Bytes := []
  /-- in seconds -/
  mLeeway : ℤ := 60

def AuthenticationKeyManager.getPublicKeyPemByKeyId (keys : AuthenticationKeyManager)
    (keyId : Bytes) : Option Bytes := keys.mPublicKeysPemByKeyId.lookup keyId

namespace LoginToken

open Certificate (signingInput signingInput_ne_nil)

section

open Header

def algFields : List (Field Header) := [.required "alg" .string alg fun h v => { h with alg := v }]

def headerFields : List (Field Header) :=
  [.optional "kid" .string kid fun h v => { h with kid := v },
    .optional "x5u" .string x5u fun h v => { h with x5u := v },
    .optional "typ" .string typ fun h v => { h with typ := v }]

end

section

open Payload

def payloadFields : List (Field Payload) :=
  [.optional "sub" .string sub fun p v => { p with sub := v },
    .optional "ipt" .string ipt fun p v => { p with ipt := v },
    .optional "iat" .int64 iat fun p v => { p with iat := v },
    .required "mid" .string mid fun p v => { p with mid := v },
    .optional "tid" .string tid fun p v => { p with tid := v },
    .optional "pfcd" .int64 pfcd fun p v => { p with pfcd := v },
    .required "cpk" .string cpk fun p v => { p with cpk := v },
    .required "ap" .int32 ap fun p v => { p with ap := v },
    .required "xid" .string xid fun p v => { p with xid := v },
    .required "xname" .string xname fun p v => { p with xname := v },
    .required "exp" .int64 exp fun p v => { p with exp := v },
    .optional "iss" .string iss fun p v => { p with iss := v },
    .required "aud" .string aud fun p v => { p with aud := v },
    .optional "leguuid" .string leguuid fun p v => { p with leguuid := v },
    .optional "nid" .string nid fun p v => { p with nid := v },
    .optional "nname" .string nname fun p v => { p with nname := v },
    .optional "pid" .string pid fun p v => { p with pid := v },
    .optional "pname" .string pname fun p v => { p with pname := v }]

end

def format : TokenFormat Header Payload where
  subject := "login token"
  missing part name :=
    "Login token " ++ part ++ " JSON does not contain a valid field '" ++ name ++ "'"
  key := id
  algFields := algFields
  checkAlg _ := .ok ()
  headerFields := headerFields
  payloadFields := payloadFields
  noHeader := {}
  noPayload := {}

variable (J : Jsonc) (S : Signatures) (token : LoginToken)

def isEmpty : Bool := token.mRawHeader.isEmpty && token.mRawPayload.isEmpty &&
    token.mSignature.isEmpty

def getClientPublicKey : Bytes := token.mPayload.cpk

def audience : Bytes := literal "api://auth-minecraft-services/multiplayer"

def headerText (name : String) : String :=
  "Login token does not contain a valid '" ++ name ++ "' header field"

def payloadText (name : String) : String :=
  "Login token does not contain a valid '" ++ name ++ "' payload field"

def verifyOnline (keys : AuthenticationKeyManager) (now : TimePoint) : Except String Unit := do
  failIf (token.isEmpty = true) "Login token is empty"
  failIf (token.mPayload.exp < TimePoint.seconds (now - seconds keys.mLeeway))
    "Login token has expired"
  failIf (token.mPayload.aud ≠ audience) "Login token audience is invalid"
  failIf (token.mHeader.alg ≠ literal "RS256")
    "Unsupported algorithm in login token header for full authentication"
  let kid ← checkField token.mHeader.kid (headerText "kid")
  failIf (token.mHeader.typ ≠ some (literal "JWT"))
    "Login token 'typ' header field is empty or invalid"
  let _ ← checkField token.mPayload.sub (payloadText "sub")
  let _ ← checkField token.mPayload.ipt (payloadText "ipt")
  let iat ← checkField token.mPayload.iat (payloadText "iat")
  failIf (iat > TimePoint.seconds (now + seconds keys.mLeeway))
    "Login token 'iat' claim is in the future"
  let tid ← checkField token.mPayload.tid (payloadText "tid")
  failIf (tid ≠ keys.mExpectedPlayFabTitle)
    "Login token 'tid' claim does not match expected PlayFab title ID"
  let _ ← checkField token.mPayload.pfcd (payloadText "pfcd")
  let iss ← checkField token.mPayload.iss (payloadText "iss")
  failIf (iss ≠ keys.mExpectedIssuer) "Login token 'iss' claim is invalid"
  let publicKey ← checkField (keys.getPublicKeyPemByKeyId kid)
    "No Mojang public key found for key ID in login token header"
  failIf (S.verifyRS256Signature (signingInput token.mRawHeader token.mRawPayload) token.mSignature
    publicKey = false) "Failed to verify login token signature"

/-- `leeway` is in seconds. -/
def verifySelfSigned (leeway : ℤ) (now : TimePoint) : Except String Unit := do
  failIf (token.isEmpty = true) "Login token is empty"
  failIf (token.mPayload.exp < TimePoint.seconds (now - seconds leeway)) "Login token has expired"
  failIf (token.mPayload.aud ≠ audience) "Login token audience is invalid"
  failIf (token.mHeader.alg ≠ literal "ES384")
    "Unsupported algorithm in login token header for self-signed authentication"
  let x5u ← checkField token.mHeader.x5u (headerText "x5u")
  let _ ← checkField token.mPayload.leguuid (payloadText "leguuid")
  let _ ← checkField token.mPayload.nid (payloadText "nid")
  let _ ← checkField token.mPayload.nname (payloadText "nname")
  let _ ← checkField token.mPayload.pid (payloadText "pid")
  let _ ← checkField token.mPayload.pname (payloadText "pname")
  -- whoever signs is the client that the payload names
  failIf (x5u ≠ token.mPayload.cpk)
    "Login token 'x5u' header field does not match 'cpk' payload field"
  failIf (S.verifyES384Signature (signingInput token.mRawHeader token.mRawPayload) token.mSignature
    x5u = false) "Failed to verify login token signature"

/-- The header fields that are signed. -/
def signedHeader : List String := ["alg", "x5u"]

/-- The payload fields that are signed. -/
def signedPayload : List String :=
  ["mid", "cpk", "ap", "xid", "xname", "exp", "aud", "leguuid", "nid", "nname", "pid", "pname"]

def signText (part name : String) : String :=
  "Login token " ++ part ++ " does not contain a valid '" ++ name ++ "' field"

/-- `std::chrono::years(1)` is the mean length of a year. -/
def selfSign (jose : Bytes → Bytes → Option Bytes) (clientKeyPair : PemKeyPair) (now : TimePoint) :
    Except String LoginToken := do
  let x5u := pem_helper.stripPemMarkersAndCompact clientKeyPair.mPublicKeyPem
  let header := { token.mHeader with alg := literal "ES384", x5u := some x5u }
  let payload := { token.mPayload with
    cpk := x5u, exp := TimePoint.seconds (now + seconds 31556952) }
  let headerMembers ← writeFields J (signText "header") id
    (namedFields (algFields ++ headerFields) signedHeader) header
  let rawHeader := base64url.encode (J.dump (J.object headerMembers))
  let payloadMembers ← writeFields J (signText "payload") id
    (namedFields payloadFields signedPayload) payload
  let rawPayload := base64url.encode (J.dump (J.object payloadMembers))
  let signature ← checkField
    (es384.signES384Signature jose (signingInput rawHeader rawPayload) clientKeyPair.mPrivateKeyPem)
    "Failed to sign login token with ES384"
  pure ⟨rawHeader, header, rawPayload, payload, signature⟩

def toString : Bytes :=
  if token.isEmpty then [] else joinDots token.mRawHeader token.mRawPayload token.mSignature

def fromString (rawLoginToken : Bytes) : Except String LoginToken :=
  if rawLoginToken = [] then .ok {}
  else do
    let token ← format.parse J rawLoginToken
    pure ⟨token.rawHeader, token.header, token.rawPayload, token.payload, token.signature⟩

/-! ### The kinds of tokens -/

variable {J S token} {token' : LoginToken} {keys : AuthenticationKeyManager} {leeway : ℤ}
  {now : TimePoint}

/-- A token that is verified online has its algorithm. -/
theorem verifyOnline_alg (h : token.verifyOnline S keys now = .ok ()) :
    token.isEmpty = false ∧ token.mHeader.alg = literal "RS256" := by
  simp only [verifyOnline, failIf_bind_eq_ok, Bool.not_eq_true, not_not] at h
  exact ⟨h.1, h.2.2.2.1⟩

/-- So has one that is verified as self-signed. -/
theorem verifySelfSigned_alg (h : token.verifySelfSigned S leeway now = .ok ()) :
    token.mHeader.alg = literal "ES384" := by
  simp only [verifySelfSigned, failIf_bind_eq_ok, not_not] at h
  exact h.2.2.2.1

/-- What `verifySelfSigned` accepts. -/
theorem verifySelfSigned_ok {x5u leguuid nid nname pid pname : Bytes}
    (hempty : token.isEmpty = false)
    (hexp : ¬ token.mPayload.exp < TimePoint.seconds (now - seconds leeway))
    (haud : token.mPayload.aud = audience) (halg : token.mHeader.alg = literal "ES384")
    (hx5u : token.mHeader.x5u = some x5u) (hleguuid : token.mPayload.leguuid = some leguuid)
    (hnid : token.mPayload.nid = some nid) (hnname : token.mPayload.nname = some nname)
    (hpid : token.mPayload.pid = some pid) (hpname : token.mPayload.pname = some pname)
    (hcpk : x5u = token.mPayload.cpk)
    (hsignature : S.verifyES384Signature (signingInput token.mRawHeader token.mRawPayload)
      token.mSignature x5u = true) :
    token.verifySelfSigned S leeway now = .ok () := by
  simp only [verifySelfSigned, failIf_bind_eq_ok, checkField_bind_eq_ok, failIf_eq_ok]
  refine ⟨by simp [hempty], hexp, by simp [haud], by simp [halg], x5u, hx5u, leguuid, hleguuid,
    nid, hnid, nname, hnname, pid, hpid, pname, hpname, by simp [hcpk], by simp [hsignature]⟩

/-! ### A self-signed token is read back -/

/-- The token with the fields that are signed and no others. -/
def signedFields (token : LoginToken) : LoginToken :=
  { token with
    mHeader := { token.mHeader with kid := none, typ := none }
    mPayload := { token.mPayload with
      sub := none, ipt := none, iat := none, tid := none, pfcd := none, iss := none } }

@[simp] theorem isEmpty_signedFields (token : LoginToken) :
    (signedFields token).isEmpty = token.isEmpty := rfl

@[simp] theorem toString_signedFields (token : LoginToken) :
    (signedFields token).toString = token.toString := rfl

section

variable {jose : Bytes → Bytes → Option Bytes} {clientKeyPair : PemKeyPair}

/-- What a token that was signed has. -/
theorem selfSign_ok (h : token.selfSign J jose clientKeyPair now = .ok token') :
    (∃ members, writeFields J (signText "header") id
        (namedFields (algFields ++ headerFields) signedHeader) token'.mHeader = .ok members ∧
      token'.mRawHeader = base64url.encode (J.dump (J.object members))) ∧
    (∃ members, writeFields J (signText "payload") id
        (namedFields payloadFields signedPayload) token'.mPayload = .ok members ∧
      token'.mRawPayload = base64url.encode (J.dump (J.object members))) ∧
    es384.signES384Signature jose (signingInput token'.mRawHeader token'.mRawPayload)
      clientKeyPair.mPrivateKeyPem = some token'.mSignature := by
  obtain ⟨headerMembers, hheader, h⟩ := bind_eq_ok.mp h
  obtain ⟨payloadMembers, hpayload, h⟩ := bind_eq_ok.mp h
  obtain ⟨signature, hsignature, h⟩ := checkField_bind_eq_ok.mp h
  cases h
  exact ⟨⟨headerMembers, hheader, rfl⟩, ⟨payloadMembers, hpayload, rfl⟩, hsignature⟩

/-- A token with the values that are signed is signed if OpenSSL signs. -/
theorem selfSign_isOk (hleguuid : token.mPayload.leguuid.isSome = true)
    (hnid : token.mPayload.nid.isSome = true) (hnname : token.mPayload.nname.isSome = true)
    (hpid : token.mPayload.pid.isSome = true) (hpname : token.mPayload.pname.isSome = true)
    (hjose : ∀ input, (jose input clientKeyPair.mPrivateKeyPem).isSome = true) :
    ∃ token', token.selfSign J jose clientKeyPair now = .ok token' := by
  -- the signing itself sets the fields of the header that are written
  obtain ⟨headerMembers, hheader⟩ : ∃ members, writeFields J (signText "header") id
      (namedFields (algFields ++ headerFields) signedHeader) { token.mHeader with
        alg := literal "ES384"
        x5u := some (pem_helper.stripPemMarkersAndCompact clientKeyPair.mPublicKeyPem) } =
          .ok members :=
    writeFields_isOk (by
      simp [namedFields, algFields, headerFields, signedHeader, Field.required, Field.optional,
        Field.valueJson])
  obtain ⟨payloadMembers, hpayload⟩ : ∃ members, writeFields J (signText "payload") id
      (namedFields payloadFields signedPayload) { token.mPayload with
        cpk := pem_helper.stripPemMarkersAndCompact clientKeyPair.mPublicKeyPem
        exp := TimePoint.seconds (now + seconds 31556952) } = .ok members :=
    writeFields_isOk (by
      simp [namedFields, payloadFields, signedPayload, Field.required, Field.optional,
        Field.valueJson, hleguuid, hnid, hnname, hpid, hpname])
  have hsigned := fun rawHeader rawPayload => es384.signES384Signature_isSome
    (signingInput_ne_nil rawHeader rawPayload) (hjose _)
  exact ⟨_, bind_eq_ok.mpr ⟨headerMembers, hheader, bind_eq_ok.mpr ⟨payloadMembers, hpayload,
    checkField_bind_eq_ok.mpr ⟨_, Option.eq_some_of_isSome (hsigned _ _), rfl⟩⟩⟩⟩

/-- The fields that `selfSign` sets. -/
theorem selfSign_fields (h : token.selfSign J jose clientKeyPair now = .ok token') :
    token'.mHeader = { token.mHeader with
      alg := literal "ES384"
      x5u := some (pem_helper.stripPemMarkersAndCompact clientKeyPair.mPublicKeyPem) } ∧
    token'.mPayload = { token.mPayload with
      cpk := pem_helper.stripPemMarkersAndCompact clientKeyPair.mPublicKeyPem
      exp := TimePoint.seconds (now + seconds 31556952) } := by
  obtain ⟨headerMembers, hheader, h⟩ := bind_eq_ok.mp h
  obtain ⟨payloadMembers, hpayload, h⟩ := bind_eq_ok.mp h
  obtain ⟨signature, hsignature, h⟩ := checkField_bind_eq_ok.mp h
  cases h
  exact ⟨rfl, rfl⟩

/-- Its header is read back. -/
theorem parseHeader_selfSign (hJ : J.Lawful)
    (h : token.selfSign J jose clientKeyPair now = .ok token') :
    format.parseHeader J token'.mRawHeader = .ok (signedFields token').mHeader := by
  obtain ⟨⟨members, hmembers, hraw⟩, -, -⟩ := selfSign_ok h
  have hkeys := (writeFields_ok hmembers).1
  -- the fields that are not signed have no values
  have hwritten : ∀ f ∈ algFields ++ headerFields,
      f.Written id (signedFields token').mHeader members := by
    intro f hf
    have hsame : writeFields J (signText "header") id
        (namedFields (algFields ++ headerFields) signedHeader) (signedFields token').mHeader = _ :=
          hmembers
    refine written_namedFields hsame ?_ hf
    simp [algFields, headerFields, signedHeader, signedFields, Field.required, Field.optional,
      Field.valueJson]
  rw [hraw]
  refine TokenFormat.parseHeader_encode hJ ?_ hwritten ?_ rfl
  · rw [hkeys]
    decide
  · simp (disch := rfl) only [format, algFields, headerFields, List.cons_append, List.nil_append,
      List.foldl_cons, List.foldl_nil, Field.copy_optional, Field.copy_required]

/-- So is its payload. -/
theorem parsePayload_selfSign (hJ : J.Lawful)
    (h : token.selfSign J jose clientKeyPair now = .ok token') :
    format.parsePayload J token'.mRawPayload = .ok (signedFields token').mPayload := by
  obtain ⟨-, ⟨members, hmembers, hraw⟩, -⟩ := selfSign_ok h
  have hkeys := (writeFields_ok hmembers).1
  have hwritten : ∀ f ∈ payloadFields, f.Written id (signedFields token').mPayload members := by
    intro f hf
    have hsame : writeFields J (signText "payload") id
        (namedFields payloadFields signedPayload) (signedFields token').mPayload = _ := hmembers
    refine written_namedFields hsame ?_ hf
    simp [payloadFields, signedPayload, signedFields, Field.required, Field.optional,
      Field.valueJson]
  rw [hraw]
  refine TokenFormat.parsePayload_encode hJ ?_ hwritten ?_
  · rw [hkeys]
    decide
  · simp (disch := rfl) only [format, payloadFields, List.foldl_cons, List.foldl_nil,
      Field.copy_optional, Field.copy_required]

/-- It is not empty. -/
theorem selfSign_not_empty (hJ : J.Lawful)
    (h : token.selfSign J jose clientKeyPair now = .ok token') :
    token'.isEmpty = false := by
  obtain ⟨⟨members, -, hraw⟩, -, -⟩ := selfSign_ok h
  have hne := base64url.encode_ne_nil (hJ.dump_ne_nil (J.object members))
  simp [isEmpty, hraw, hne]

/-- **A self-signed token is read back** with the fields that were signed. -/
theorem fromString_selfSign (hJ : J.Lawful)
    (h : token.selfSign J jose clientKeyPair now = .ok token') :
    fromString J token'.toString = .ok (signedFields token') := by
  have hsignature := es384.signES384Signature_no_dot (selfSign_ok h).2.2
  have hparse := TokenFormat.parse_joinDots (parseHeader_selfSign hJ h) (parsePayload_selfSign hJ h)
    hsignature
  have hne : joinDots token'.mRawHeader token'.mRawPayload token'.mSignature ≠ [] := by
    simp [joinDots]
  simp only [fromString, toString, selfSign_not_empty hJ h, Bool.false_eq_true, if_false,
    if_neg hne, hparse, bind, Except.bind, pure, Except.pure]
  rfl

/-- A self-signed token that was read back is verified until it expires. -/
theorem verifySelfSigned_selfSign (hJ : J.Lawful)
    (h : token.selfSign J jose clientKeyPair now = .ok token') {time : TimePoint}
    (hexp : ¬ TimePoint.seconds (now + seconds 31556952) < TimePoint.seconds
      (time - seconds leeway))
    (haud : token.mPayload.aud = audience) (hleguuid : token.mPayload.leguuid.isSome = true)
    (hnid : token.mPayload.nid.isSome = true) (hnname : token.mPayload.nname.isSome = true)
    (hpid : token.mPayload.pid.isSome = true) (hpname : token.mPayload.pname.isSome = true)
    (hverify : S.verifyES384Signature (signingInput token'.mRawHeader token'.mRawPayload)
      token'.mSignature (pem_helper.stripPemMarkersAndCompact clientKeyPair.mPublicKeyPem) = true) :
    (signedFields token').verifySelfSigned S leeway time = .ok () := by
  obtain ⟨hheader, hpayload⟩ := selfSign_fields h
  obtain ⟨leguuid, hleguuid⟩ := Option.isSome_iff_exists.mp hleguuid
  obtain ⟨nid, hnid⟩ := Option.isSome_iff_exists.mp hnid
  obtain ⟨nname, hnname⟩ := Option.isSome_iff_exists.mp hnname
  obtain ⟨pid, hpid⟩ := Option.isSome_iff_exists.mp hpid
  obtain ⟨pname, hpname⟩ := Option.isSome_iff_exists.mp hpname
  have hempty : (signedFields token').isEmpty = false := by
    rw [isEmpty_signedFields, selfSign_not_empty hJ h]
  have hexp' : ¬ (signedFields token').mPayload.exp < TimePoint.seconds
      (time - seconds leeway) := by
    simpa only [signedFields, hpayload] using hexp
  -- the fields that are checked are among those that are signed
  exact verifySelfSigned_ok hempty hexp' ((congrArg Payload.aud hpayload).trans haud)
    (congrArg Header.alg hheader) (congrArg Header.x5u hheader)
    ((congrArg Payload.leguuid hpayload).trans hleguuid)
      ((congrArg Payload.nid hpayload).trans hnid)
    ((congrArg Payload.nname hpayload).trans hnname) ((congrArg Payload.pid hpayload).trans hpid)
    ((congrArg Payload.pname hpayload).trans hpname) (congrArg Payload.cpk hpayload).symm hverify

end

/-- What is read is empty, or has the raw parts of its text. -/
theorem fromString_ok {raw : Bytes} (h : fromString J raw = .ok token) :
    (raw = [] ∧ token = {}) ∨
      raw = joinDots token.mRawHeader token.mRawPayload token.mSignature ∧
        dot ∉ token.mRawHeader ∧ dot ∉ token.mRawPayload ∧ dot ∉ token.mSignature := by
  unfold fromString at h
  split at h
  · next hraw =>
    cases h
    exact .inl ⟨hraw, rfl⟩
  · obtain ⟨parsed, hparsed, h⟩ := bind_eq_ok.mp h
    cases h
    obtain ⟨hraw, hheader, hpayload, hsignature, -⟩ := TokenFormat.parse_ok hparsed
    exact .inr ⟨hraw, hheader, hpayload, hsignature⟩

end LoginToken
end SculkProtocol
