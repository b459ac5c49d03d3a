import SculkProtocol.Auth.TokenFormat
import SculkProtocol.Ssl.ES384
import SculkProtocol.Ssl.PemHelper

/-!
# Reading and writing `LegacyCertificateChain`

A chain is written as an array of one certificate or three, and its certificates are told
apart by their number alone. A chain that is read has the extra data of its login
certificate, which the rest of the program reads unchecked (`fromString_extraData`).
-/

namespace SculkProtocol

open StringView

namespace Certificate

section

open Header

def algFields : List (Field Header) := [.required "alg" .string alg fun h v => { h with alg := v }]

def headerFields : List (Field Header) :=
  [.required "x5u" .string x5u fun h v => { h with x5u := v },
    .optional "x5t" .string x5t fun h v => { h with x5t := v }]

end

section

open Payload

def payloadFields : List (Field Payload) :=
  [.required "nbf" .int64 nbf fun p v => { p with nbf := v },
    .required "exp" .int64 exp fun p v => { p with exp := v },
    .required "identityPublicKey" .string identityPublicKey fun p v =>
      { p with identityPublicKey := v },
    .optional "certificateAuthority" .bool certificateAuthority
      fun p v => { p with certificateAuthority := v },
    .optional "randomNonce" .int64 randomNonce fun p v => { p with randomNonce := v },
    .optional "iss" .string iss fun p v => { p with iss := v },
    .optional "iat" .int64 iat fun p v => { p with iat := v },
    .optional "extraData" .extraData extraData fun p v => { p with extraData := v }]

end

def format : TokenFormat Header Payload where
  subject := "certificate"
  missing _ name := "Certificate JSON does not contain a valid field '" ++ name ++ "'"
  key := id
  algFields := algFields
  checkAlg h := failIf (h.alg ≠ literal "ES384") "certificate signing algorithm must be ES384"
  headerFields := headerFields
  payloadFields := payloadFields
  noHeader := {}
  noPayload := {}

variable (J : Jsonc) (cert : Certificate)

def toString : Bytes := joinDots cert.mRawHeader cert.mRawPayload cert.mSignature

/-- `none` if the signature fails. -/
def sign (jose : Bytes → Bytes → Option Bytes) (privateKeyPem : Bytes) (now : TimePoint) :
    Option Certificate := do
  let header := { cert.mHeader with alg := literal "ES384" }
  let payload := { cert.mPayload with
    exp := TimePoint.seconds (now + seconds (24 * 3600))
    nbf := TimePoint.seconds now
    iat := cert.mPayload.iat.map fun _ => TimePoint.seconds now }
  let rawHeader := base64url.encode
    (J.dump (J.object (writeNonNullFields J (algFields ++ headerFields) header)))
  let rawPayload :=
    base64url.encode (J.dump (J.object (writeNonNullFields J payloadFields payload)))
  let signature ← es384.signES384Signature jose (signingInput rawHeader rawPayload) privateKeyPem
  pure ⟨rawHeader, header, rawPayload, payload, signature⟩

def fromString (certificateStr : Bytes) : Except String Certificate := do
  let cert ← format.parse J certificateStr
  pure ⟨cert.rawHeader, cert.header, cert.rawPayload, cert.payload, cert.signature⟩

end Certificate

namespace LegacyCertificateChain

variable (J : Jsonc) (chain : LegacyCertificateChain)

/-- In the order in which they are written. -/
def certificates : List Certificate :=
  chain.mClientCertificate.toList ++ chain.mMojangCertificate.toList ++ [chain.mLoginCertificate]

def toString : Bytes :=
  J.dump
    (J.object [("chain", J.array (chain.certificates.map fun cert => J.string cert.toString))]) ++
    literal "\n"

def selfSign (jose : Bytes → Bytes → Option Bytes) (clientKeyPair : PemKeyPair) (now : TimePoint) :
    Except String LegacyCertificateChain := do
  let x5u := pem_helper.stripPemMarkersAndCompact clientKeyPair.mPublicKeyPem
  let login := { chain.mLoginCertificate with
    mHeader := { chain.mLoginCertificate.mHeader with x5u := x5u }
    mPayload := { chain.mLoginCertificate.mPayload with identityPublicKey := x5u } }
  let login ← checkField (login.sign J jose clientKeyPair.mPrivateKeyPem now)
    "Failed to sign login certificate"
  -- the other certificates are dropped
  pure { mLoginCertificate := login }

/-- A certificate of the array. -/
def parseCertificate (part : String) (json : J.Json) : Except String Certificate :=
  match J.getString json with
  | none => .error "Certificate JSON 'chain' field must be an array of strings"
  | some str =>
    match Certificate.fromString J str with
    | .error _ => .error ("Failed to parse " ++ part ++ " certificate")
    | .ok cert => .ok cert

def headerText (part name : String) : String :=
  part ++ " certificate does not contain a valid '" ++ name ++ "' header field"

def payloadText (part name : String) : String :=
  part ++ " certificate does not contain a valid '" ++ name ++ "' payload field"

/-- The certificates of an array of one or three. -/
def parseChain : List J.Json → Except String LegacyCertificateChain
  | [json] => do
    let login ← parseCertificate J "login" json
    let _ ← checkField login.mPayload.extraData (payloadText "login" "extraData")
    let _ ← checkField login.mPayload.randomNonce (payloadText "login" "randomNonce")
    let _ ← checkField login.mPayload.iss (payloadText "login" "iss")
    let _ ← checkField login.mPayload.iat (payloadText "login" "iat")
    pure { mLoginCertificate := login }
  | [clientJson, mojangJson, loginJson] => do
    let client ← parseCertificate J "client" clientJson
    let _ ← checkField client.mPayload.certificateAuthority
      (payloadText "client" "certificateAuthority")
    let mojang ← parseCertificate J "mojang" mojangJson
    let _ ← checkField mojang.mHeader.x5t (headerText "mojang" "x5t")
    let _ ← checkField mojang.mPayload.certificateAuthority
      (payloadText "mojang" "certificateAuthority")
    let _ ← checkField mojang.mPayload.randomNonce (payloadText "mojang" "randomNonce")
    let _ ← checkField mojang.mPayload.iss (payloadText "mojang" "iss")
    let _ ← checkField mojang.mPayload.iat (payloadText "mojang" "iat")
    let login ← parseCertificate J "login" loginJson
    let _ ← checkField login.mHeader.x5t (headerText "login" "x5t")
    let _ ← checkField login.mPayload.extraData (payloadText "login" "extraData")
    let _ ← checkField login.mPayload.randomNonce (payloadText "login" "randomNonce")
    let _ ← checkField login.mPayload.iss (payloadText "login" "iss")
    let _ ← checkField login.mPayload.iat (payloadText "login" "iat")
    pure {
      mClientCertificate := some client, mMojangCertificate := some mojang,
      mLoginCertificate := login }
  | _ => .error "Certificate JSON 'chain' field must contain either 1 or 3 certificates"

def fromString (certificateChainJsonStr : Bytes) : Except String LegacyCertificateChain := do
  let certJson ← checkField (J.parse certificateChainJsonStr)
    "Failed to parse certificate chain JSON"
  failIf (J.contains certJson "chain" = false)
    "Certificate JSON does not contain a valid 'chain' field"
  let chain ← checkField (J.elements (J.find certJson "chain"))
    "Certificate JSON does not contain a valid 'chain' field"
  parseChain J chain

end LegacyCertificateChain

/-! ### A signed certificate is read back -/

section

variable {J : Jsonc} {cert cert' : Certificate} {jose : Bytes → Bytes → Option Bytes}
  {privateKeyPem : Bytes} {now : TimePoint}

namespace Certificate

/-- What a certificate that was signed has. -/
theorem sign_some (h : cert.sign J jose privateKeyPem now = some cert') :
    cert'.mHeader = { cert.mHeader with alg := literal "ES384" } ∧
    cert'.mRawHeader = base64url.encode
      (J.dump (J.object (writeNonNullFields J (algFields ++ headerFields) cert'.mHeader))) ∧
    cert'.mPayload = { cert.mPayload with
      exp := TimePoint.seconds (now + seconds (24 * 3600))
      nbf := TimePoint.seconds now
      iat := cert.mPayload.iat.map fun _ => TimePoint.seconds now } ∧
    cert'.mRawPayload = base64url.encode
      (J.dump (J.object (writeNonNullFields J payloadFields cert'.mPayload))) ∧
    es384.signES384Signature jose (signingInput cert'.mRawHeader cert'.mRawPayload) privateKeyPem
      = some cert'.mSignature := by
  obtain ⟨signature, hsignature, h⟩ := Option.bind_eq_some_iff.mp h
  cases h
  exact ⟨rfl, rfl, rfl, rfl, hsignature⟩

/-- A certificate is signed if OpenSSL signs. -/
theorem sign_isSome (hjose : ∀ input, (jose input privateKeyPem).isSome = true) :
    ∃ cert', cert.sign J jose privateKeyPem now = some cert' := by
  have hsigned := fun rawHeader rawPayload => es384.signES384Signature_isSome
    (signingInput_ne_nil rawHeader rawPayload) (hjose _)
  exact ⟨_, Option.bind_eq_some_iff.mpr ⟨_, Option.eq_some_of_isSome (hsigned _ _), rfl⟩⟩

/-- Its header is read back. -/
theorem parseHeader_sign (hJ : J.Lawful) (h : cert.sign J jose privateKeyPem now = some cert') :
    format.parseHeader J cert'.mRawHeader = .ok cert'.mHeader := by
  obtain ⟨hheader, hraw, -⟩ := sign_some h
  have hwritten : ∀ f ∈ algFields ++ headerFields, f.Written id cert'.mHeader
      (writeNonNullFields J (algFields ++ headerFields) cert'.mHeader) := fun f hf =>
    written_nonNullFields hJ (by decide)
      (by simp [algFields, headerFields, Field.required, Field.optional, Field.valueJson]) hf
  rw [hraw]
  refine TokenFormat.parseHeader_encode hJ (keys_writeNonNullFields.nodup (by decide))
    hwritten ?_ ?_
  · simp (disch := rfl) only [format, algFields, headerFields, List.cons_append, List.nil_append,
      List.foldl_cons, List.foldl_nil, Field.copy_optional, Field.copy_required]
  · have halg : cert'.mHeader.alg = literal "ES384" := by rw [hheader]
    simp only [format, algFields, List.foldl_cons, List.foldl_nil, Field.copy_required,
      failIf_eq_ok, halg, ne_eq, not_true_eq_false, not_false_eq_true]

/-- So is its payload. -/
theorem parsePayload_sign (hJ : J.Lawful) (h : cert.sign J jose privateKeyPem now = some cert') :
    format.parsePayload J cert'.mRawPayload = .ok cert'.mPayload := by
  obtain ⟨-, -, -, hraw, -⟩ := sign_some h
  have hwritten : ∀ f ∈ payloadFields, f.Written id cert'.mPayload
      (writeNonNullFields J payloadFields cert'.mPayload) := fun f hf =>
    written_nonNullFields hJ (by decide)
      (by simp [payloadFields, Field.required, Field.optional, Field.valueJson]) hf
  rw [hraw]
  refine TokenFormat.parsePayload_encode hJ (keys_writeNonNullFields.nodup (by decide)) hwritten ?_
  simp (disch := rfl) only [format, payloadFields, List.foldl_cons, List.foldl_nil,
    Field.copy_optional, Field.copy_required]

/-- **A signed certificate is read back.** -/
theorem fromString_sign (hJ : J.Lawful) (h : cert.sign J jose privateKeyPem now = some cert') :
    fromString J cert'.toString = .ok cert' := by
  have hsignature := es384.signES384Signature_no_dot (sign_some h).2.2.2.2
  have hparse :=
    TokenFormat.parse_joinDots (parseHeader_sign hJ h) (parsePayload_sign hJ h) hsignature
  simp only [fromString, toString, hparse, bind, Except.bind, pure, Except.pure]

/-- The texts of a certificate. -/
def encoded (cert : Certificate) : Bytes × Bytes × Bytes :=
  (cert.mRawHeader, cert.mRawPayload, cert.mSignature)

/-- A certificate that is read from the text of another has its texts. -/
theorem fromString_encoded (h : fromString J cert.toString = .ok cert') :
    cert'.encoded = cert.encoded := by
  obtain ⟨token, htoken, h⟩ := bind_eq_ok.mp h
  cases h
  obtain ⟨hheader, hpayload, hsignature⟩ := TokenFormat.parse_raw htoken
  simp only [encoded, hheader, hpayload, hsignature]

end Certificate

namespace LegacyCertificateChain

variable {chain chain' : LegacyCertificateChain} {clientKeyPair : PemKeyPair}

/-- The texts of a chain. -/
def encoded (chain : LegacyCertificateChain) :
    Option (Bytes × Bytes × Bytes) × Option (Bytes × Bytes × Bytes) × (Bytes × Bytes × Bytes) :=
  (chain.mClientCertificate.map Certificate.encoded,
    chain.mMojangCertificate.map Certificate.encoded, chain.mLoginCertificate.encoded)

/-- A certificate is parsed from a string. -/
theorem parseCertificate_ok {part : String} {json : J.Json}
    (h : parseCertificate J part json = .ok cert) :
    ∃ str, J.getString json = some str ∧ Certificate.fromString J str = .ok cert := by
  unfold parseCertificate at h
  split at h
  · exact absurd h (by simp)
  · next str hstr =>
    split at h
    · exact absurd h (by simp)
    · next hcert =>
      cases h
      exact ⟨str, hstr, hcert⟩

/-- The two shapes of a chain that is read, with the texts of its certificates. -/
theorem parseChain_ok {values : List J.Json} (h : parseChain J values = .ok chain) :
    chain.mLoginCertificate.mPayload.extraData.isSome = true ∧
      ((∃ json, values = [json] ∧ chain.mClientCertificate = none ∧
        chain.mMojangCertificate = none ∧
          parseCertificate J "login" json = .ok chain.mLoginCertificate) ∨
        ∃ clientJson mojangJson loginJson client mojang,
          values = [clientJson, mojangJson, loginJson] ∧
          chain.mClientCertificate = some client ∧ chain.mMojangCertificate = some mojang ∧
          parseCertificate J "client" clientJson = .ok client ∧
          parseCertificate J "mojang" mojangJson = .ok mojang ∧
          parseCertificate J "login" loginJson = .ok chain.mLoginCertificate) := by
  unfold parseChain at h
  split at h
  · next json =>
    -- a login certificate alone
    obtain ⟨login, hlogin, h⟩ := bind_eq_ok.mp h
    simp only [checkField_bind_eq_ok] at h
    obtain ⟨extraData, hextraData, -, -, -, -, -, -, h⟩ := h
    cases h
    exact ⟨by rw [hextraData]; rfl, .inl ⟨json, rfl, rfl, rfl, hlogin⟩⟩
  · next clientJson mojangJson loginJson =>
    -- the three of an online chain
    obtain ⟨client, hclient, h⟩ := bind_eq_ok.mp h
    obtain ⟨-, -, h⟩ := checkField_bind_eq_ok.mp h
    obtain ⟨mojang, hmojang, h⟩ := bind_eq_ok.mp h
    simp only [checkField_bind_eq_ok] at h
    obtain ⟨-, -, -, -, -, -, -, -, -, -, h⟩ := h
    obtain ⟨login, hlogin, h⟩ := bind_eq_ok.mp h
    simp only [checkField_bind_eq_ok] at h
    obtain ⟨-, -, extraData, hextraData, -, -, -, -, -, -, h⟩ := h
    cases h
    exact ⟨by rw [hextraData]; rfl,
      .inr ⟨_, _, _, client, mojang, rfl, rfl, rfl, hclient, hmojang, hlogin⟩⟩
  · exact absurd h (by simp)

/-- A chain that is read has the extra data of its login certificate. -/
theorem fromString_extraData {raw : Bytes} (h : fromString J raw = .ok chain) :
    chain.mLoginCertificate.mPayload.extraData.isSome = true := by
  simp only [fromString, checkField_bind_eq_ok, failIf_bind_eq_ok] at h
  obtain ⟨json, -, -, values, -, h⟩ := h
  exact (parseChain_ok h).1

/-- The text of a chain is read as the array of the texts of its certificates. -/
theorem fromString_toString (hJ : J.Lawful) (chain : LegacyCertificateChain) :
    fromString J (toString J chain)
      = parseChain J (chain.certificates.map fun cert => J.string cert.toString) := by
  have hcontains := (hJ.contains_object [("chain", J.array (chain.certificates.map
    fun cert => J.string cert.toString))] "chain").mpr List.mem_cons_self
  have hfind := hJ.find_object [("chain", J.array (chain.certificates.map
    fun cert => J.string cert.toString))] "chain" _ (by simp) List.mem_cons_self
  simp [fromString, toString, hJ.parse_dump_newline, checkField, failIf, hcontains, hfind,
    hJ.elements_array, bind, Except.bind]

/-- A string that is a certificate is parsed. -/
theorem parseCertificate_string (hJ : J.Lawful) {part : String} {str : Bytes}
    (h : Certificate.fromString J str = .ok cert) :
    parseCertificate J part (J.string str) = .ok cert := by
  simp only [parseCertificate, hJ.getString_string, h]

/-- What is parsed has the same encoding. -/
theorem parseCertificate_encoded (hJ : J.Lawful) {part : String}
    (h : parseCertificate J part (J.string cert.toString) = .ok cert') :
    cert'.encoded = cert.encoded := by
  obtain ⟨str, hstr, hcert⟩ := parseCertificate_ok h
  rw [hJ.getString_string] at hstr
  cases hstr
  exact Certificate.fromString_encoded hcert

/-- **A chain that is read** from the text of another has its texts. -/
theorem fromString_encoded (hJ : J.Lawful) (h : fromString J (toString J chain) = .ok chain') :
    chain'.encoded = chain.encoded := by
  rw [fromString_toString hJ] at h
  obtain ⟨-, ⟨json, hvalues, hclient, hmojang, hlogin⟩ |
    ⟨clientJson, mojangJson, loginJson, client, mojang, hvalues, hclient, hmojang, hc, hm, hl⟩⟩ :=
    parseChain_ok h
  · -- one certificate
    cases hclient' : chain.mClientCertificate <;> cases hmojang' : chain.mMojangCertificate <;>
      simp [certificates, hclient', hmojang'] at hvalues
    subst hvalues
    simp [encoded, hclient, hmojang, hclient', hmojang', parseCertificate_encoded hJ hlogin]
  · cases hclient' : chain.mClientCertificate <;> cases hmojang' : chain.mMojangCertificate <;>
      simp [certificates, hclient', hmojang'] at hvalues
    obtain ⟨rfl, rfl, rfl⟩ := hvalues
    simp [encoded, hclient, hmojang, hclient', hmojang', parseCertificate_encoded hJ hc,
      parseCertificate_encoded hJ hm, parseCertificate_encoded hJ hl]

/-- A chain that was signed has one certificate. -/
theorem selfSign_ok (h : chain.selfSign J jose clientKeyPair now = .ok chain') :
    chain'.mClientCertificate = none ∧ chain'.mMojangCertificate = none ∧
      ∃ login : Certificate, login.sign J jose clientKeyPair.mPrivateKeyPem now =
        some chain'.mLoginCertificate ∧
        login.mHeader = { chain.mLoginCertificate.mHeader with
          x5u := pem_helper.stripPemMarkersAndCompact clientKeyPair.mPublicKeyPem } ∧
        login.mPayload = { chain.mLoginCertificate.mPayload with
          identityPublicKey :=
              pem_helper.stripPemMarkersAndCompact clientKeyPair.mPublicKeyPem } := by
  obtain ⟨login, hsign, h⟩ := checkField_bind_eq_ok.mp h
  cases h
  exact ⟨rfl, rfl, _, hsign, rfl, rfl⟩

/-- **A self-signed chain is read back.** -/
theorem fromString_selfSign (hJ : J.Lawful)
    (h : chain.selfSign J jose clientKeyPair now = .ok chain')
    (hextraData : chain.mLoginCertificate.mPayload.extraData.isSome = true)
    (hrandomNonce : chain.mLoginCertificate.mPayload.randomNonce.isSome = true)
    (hiss : chain.mLoginCertificate.mPayload.iss.isSome = true)
    (hiat : chain.mLoginCertificate.mPayload.iat.isSome = true) :
    fromString J (toString J chain') = .ok chain' := by
  obtain ⟨hclient, hmojang, login, hsign, -, hpayload⟩ := selfSign_ok h
  have hparse : parseCertificate J "login" (J.string chain'.mLoginCertificate.toString) = _ :=
    parseCertificate_string hJ (Certificate.fromString_sign hJ hsign)
  have hpayload' := (Certificate.sign_some hsign).2.2.1
  rw [hpayload] at hpayload'
  obtain ⟨extraData, hextraData⟩ := Option.isSome_iff_exists.mp hextraData
  obtain ⟨randomNonce, hrandomNonce⟩ := Option.isSome_iff_exists.mp hrandomNonce
  obtain ⟨iss, hiss⟩ := Option.isSome_iff_exists.mp hiss
  obtain ⟨iat, hiat⟩ := Option.isSome_iff_exists.mp hiat
  -- a chain that was signed has one certificate
  have hchain : chain' = { mLoginCertificate := chain'.mLoginCertificate } := by
    cases chain'
    cases hclient
    cases hmojang
    rfl
  rw [fromString_toString hJ, certificates, hclient, hmojang]
  simp only [Option.toList_none, List.nil_append, List.map_cons, List.map_nil, parseChain, hparse,
    hpayload', hextraData, hrandomNonce, hiss, hiat, Option.map_some, checkField, bind, Except.bind,
    pure, Except.pure]
  rw [← hchain]

/-- The text that stands for no chain: that of a chain whose certificate has no texts. -/
def unsigned : Bytes := literal "\x7b\"chain\":[\"..\"]\x7d\n"

/-- A chain that was never signed is refused. -/
theorem unsigned_refused (hJ : J.Lawful) : fromString J unsigned ≠ .ok chain := by
  have hunsigned : unsigned = toString J {} := by
    have hlogin : Certificate.toString {} = literal ".." := rfl
    simp only [toString, certificates, Option.toList_none, List.nil_append, List.map_cons,
      List.map_nil, hlogin, hJ.dump_unsigned]
    rfl
  rw [hunsigned, fromString_toString hJ]
  intro h
  obtain ⟨-, ⟨json, hvalues, -, -, hlogin⟩ | ⟨_, _, _, _, _, hvalues, -⟩⟩ := parseChain_ok h
  · obtain ⟨str, hstr, hcert⟩ := parseCertificate_ok hlogin
    have hjson : J.string (Certificate.toString {}) = json := (List.cons.inj hvalues).1
    rw [← hjson, hJ.getString_string] at hstr
    cases hstr
    -- its header is empty
    obtain ⟨token, htoken, -⟩ := bind_eq_ok.mp hcert
    obtain ⟨-, -, -, -, hheader, -⟩ := TokenFormat.parse_ok htoken
    rw [(TokenFormat.parse_raw htoken).1] at hheader
    exact (TokenFormat.parseHeader_ok hheader).2 rfl
  · exact absurd (congrArg List.length hvalues) (by simp [certificates])

end LegacyCertificateChain
end

end SculkProtocol
