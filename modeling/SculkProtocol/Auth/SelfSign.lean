import SculkProtocol.Auth.Verification

/-!
# A self-signed request is read back and verified

`selfSign` fills in a request, signs its token and its properties and, if asked to, a chain of
one certificate. What is written of it is read back with the texts that were signed and the
fields in them, and `verify` accepts it as self-signed (`selfSign_reads_back`).

A chain that an earlier parse left in the request is written as it is. It is not read back if
it does not have one certificate or three, and neither is a request with a string of `2 ^ 31`
bytes (`selfSign_not_read_back`).
-/

namespace SculkProtocol

/-- The fields that a chain is read with. -/
structure LegacyCertificateChain.HasFields (chain : LegacyCertificateChain) : Prop where
  extraData : chain.mLoginCertificate.mPayload.extraData.isSome = true
  randomNonce : chain.mLoginCertificate.mPayload.randomNonce.isSome = true
  iss : chain.mLoginCertificate.mPayload.iss.isSome = true
  iat : chain.mLoginCertificate.mPayload.iat.isSome = true

/-- Later times have no fewer seconds. -/
theorem TimePoint.seconds_mono {t t' : TimePoint} (h : t ≤ t') : t.seconds ≤ t'.seconds :=
  Int.tdiv_le_tdiv (by decide) h

/-- Times after the epoch have no negative seconds. -/
theorem seconds_nonneg {count : ℤ} (h : 0 ≤ count) : 0 ≤ seconds count :=
  Int.mul_nonneg h (by decide)

namespace ConnectionRequest

variable {J : Jsonc} {S : Signatures} {request signed read : ConnectionRequest}
  {signing : SelfSigning}
  {clientKeyPair : PemKeyPair} {includeLegacyChain : Bool}

/-! ### What is signed -/

/-- What the token is filled in with. -/
theorem ensureAndFillLoginToken_some {filled : ConnectionRequest}
    (h : request.ensureAndFillLoginToken signing = some filled) :
    filled.mLegacyCertificateChain = request.mLegacyCertificateChain ∧
      filled.mLoginToken.mPayload.aud = LoginToken.audience ∧
      filled.mLoginToken.mPayload.leguuid.isSome = true ∧
      filled.mLoginToken.mPayload.nid.isSome = true ∧
      filled.mLoginToken.mPayload.nname.isSome = true ∧
      filled.mLoginToken.mPayload.pid.isSome = true ∧
      filled.mLoginToken.mPayload.pname.isSome = true := by
  obtain ⟨xid, -, h⟩ := Option.bind_eq_some_iff.mp h
  obtain ⟨xname, -, h⟩ := Option.bind_eq_some_iff.mp h
  cases h
  exact ⟨rfl, rfl, rfl, rfl, rfl, rfl, rfl⟩

/-- A chain that is filled in has the fields that it is read with. -/
theorem ensureAndFillLegacyChain_some {chain : LegacyCertificateChain}
    (hfields : ∀ chain, request.mLegacyCertificateChain = some chain → chain.HasFields)
    (h : request.ensureAndFillLegacyChain signing = some chain) : chain.HasFields := by
  unfold ensureAndFillLegacyChain at h
  split at h
  · obtain ⟨displayName, -, h⟩ := Option.bind_eq_some_iff.mp h
    cases h
    exact ⟨rfl, rfl, rfl, rfl⟩
  · next chain' hchain =>
    obtain ⟨extraData, -, h⟩ := Option.bind_eq_some_iff.mp h
    cases h
    obtain ⟨-, hrandomNonce, hiss, hiat⟩ := hfields chain' hchain
    exact ⟨rfl, hrandomNonce, hiss, hiat⟩

/-- The parts of a request that was signed. -/
theorem selfSign_ok
    (h : request.selfSign J signing clientKeyPair includeLegacyChain = some (.ok signed)) :
    ∃ filled, request.ensureAndFillLoginToken signing = some filled ∧
      filled.mLoginToken.selfSign J signing.tokenJose clientKeyPair signing.tokenTime
        = .ok signed.mLoginToken ∧
      filled.mClientProperties.sign J signing.propertiesJose clientKeyPair
        = .ok signed.mClientProperties ∧
      ((includeLegacyChain = false ∧ signed.mLegacyCertificateChain =
        request.mLegacyCertificateChain) ∨
        includeLegacyChain = true ∧ ∃ current chain chain',
          current.mLegacyCertificateChain = request.mLegacyCertificateChain ∧
          ensureAndFillLegacyChain current signing = some chain ∧
          chain.selfSign J signing.chainJose clientKeyPair signing.chainTime = .ok chain' ∧
          signed.mLegacyCertificateChain = some chain') := by
  obtain ⟨filled, hfilled, h⟩ := Option.bind_eq_some_iff.mp h
  have hchain := (ensureAndFillLoginToken_some hfilled).1
  split at h
  · exact absurd h (by simp)
  · next token htoken =>
    -- the token is signed, then the properties, then the chain
    split at h
    · exact absurd h (by simp)
    · next properties hproperties =>
      split at h
      · next hinclude =>
        -- with a chain, which is made where there is none
        obtain ⟨chain, hfill, h⟩ := Option.bind_eq_some_iff.mp h
        split at h
        · exact absurd h (by simp)
        · next chain' hsigned =>
          cases h
          exact ⟨filled, hfilled, htoken, hproperties, .inr ⟨hinclude,
            ⟨.SelfSigned, filled.mLegacyCertificateChain, token, properties⟩, chain, chain', hchain,
            hfill, hsigned, rfl⟩⟩
      · next hinclude =>
        cases h
        exact ⟨filled, hfilled, htoken, hproperties, .inl ⟨Bool.eq_false_iff.mpr hinclude, hchain⟩⟩

/-- A request with the extra data of its chain is filled in. -/
theorem ensureAndFillLoginToken_isSome
    (h : ∀ chain, request.mLegacyCertificateChain = some chain →
      chain.mLoginCertificate.mPayload.extraData.isSome = true) :
    ∃ filled, request.ensureAndFillLoginToken signing = some filled := by
  -- the XUID and the name of the chain are those of its extra data
  have hxid : ∃ xid, request.filledXid = some xid := by
    unfold filledXid
    split
    · next chain hchain =>
      split
      · exact Option.isSome_iff_exists.mp (by rw [LegacyCertificateChain.XUID, Option.isSome_map,
          h chain hchain])
      · exact ⟨_, rfl⟩
    · exact ⟨_, rfl⟩
  have hxname : ∃ xname, request.filledXname = some xname := by
    unfold filledXname getXboxLiveName
    split
    · split
      · exact ⟨_, rfl⟩
      · split
        · next chain hchain =>
          exact Option.isSome_iff_exists.mp (by rw [Option.isSome_map, h chain hchain])
        · exact ⟨_, rfl⟩
    · exact ⟨_, rfl⟩
  obtain ⟨xid, hxid⟩ := hxid
  obtain ⟨xname, hxname⟩ := hxname
  exact ⟨_,
    Option.bind_eq_some_iff.mpr ⟨xid, hxid, Option.bind_eq_some_iff.mpr ⟨xname, hxname, rfl⟩⟩⟩

/-- A request is signed if OpenSSL signs. -/
theorem selfSign_isOk (hfields : ∀ chain, request.mLegacyCertificateChain = some chain →
    chain.HasFields)
    (htoken : ∀ input, (signing.tokenJose input clientKeyPair.mPrivateKeyPem).isSome = true)
    (hproperties : ∀ input, (signing.propertiesJose input clientKeyPair.mPrivateKeyPem).isSome =
      true) :
    ∃ signed, request.selfSign J signing clientKeyPair false = some (.ok signed) := by
  obtain ⟨filled, hfilled⟩ : ∃ filled, request.ensureAndFillLoginToken signing = some filled :=
    ensureAndFillLoginToken_isSome fun chain hchain => (hfields chain hchain).extraData
  obtain ⟨-, -, hleguuid, hnid, hnname, hpid, hpname⟩ := ensureAndFillLoginToken_some hfilled
  obtain ⟨token, htoken⟩ : ∃ token, filled.mLoginToken.selfSign J signing.tokenJose clientKeyPair
      signing.tokenTime = .ok token :=
        LoginToken.selfSign_isOk hleguuid hnid hnname hpid hpname htoken
  obtain ⟨properties, hproperties⟩ : ∃ properties, filled.mClientProperties.sign J
      signing.propertiesJose clientKeyPair = .ok properties :=
        ClientProperties.sign_isOk hproperties
  exact ⟨_, by
    simp only [selfSign, hfilled, htoken, hproperties, bind, Option.bind, Bool.false_eq_true,
      if_false]
    rfl⟩

/-- OpenSSL verifies what it signed with the key of the client. -/
def Matches (S : Signatures) (jose : Bytes → Bytes → Option Bytes) (clientKeyPair : PemKeyPair) :
    Prop :=
  ∀ input signature, es384.signES384Signature jose input clientKeyPair.mPrivateKeyPem =
    some signature →
    S.verifyES384Signature input signature
      (pem_helper.stripPemMarkersAndCompact clientKeyPair.mPublicKeyPem) = true

/-- The signed token is verified until it expires. -/
theorem verifySelfSigned_of_selfSign (hJ : J.Lawful)
    (h : request.selfSign J signing clientKeyPair includeLegacyChain = some (.ok signed))
    (hmatch : Matches S signing.tokenJose clientKeyPair) {leeway : ℤ} {time : TimePoint}
    (hleeway : 0 ≤ leeway) (htime : time.seconds ≤ signed.mLoginToken.mPayload.exp) :
    (LoginToken.signedFields signed.mLoginToken).verifySelfSigned S leeway time = .ok () := by
  obtain ⟨filled, hfilled, htoken, -, -⟩ := selfSign_ok h
  obtain ⟨-, haud, hleguuid, hnid, hnname, hpid, hpname⟩ := ensureAndFillLoginToken_some hfilled
  have hexp : ¬ TimePoint.seconds (signing.tokenTime + seconds 31556952)
      < TimePoint.seconds (time - seconds leeway) := by
    rw [(LoginToken.selfSign_fields htoken).2] at htime
    have hearlier : TimePoint.seconds (time - seconds leeway) ≤ time.seconds :=
      TimePoint.seconds_mono (Int.sub_le_self _ (seconds_nonneg hleeway))
    exact Int.not_lt.mpr (Int.le_trans hearlier htime)
  exact LoginToken.verifySelfSigned_selfSign hJ htoken hexp haud hleguuid hnid hnname hpid hpname
    (hmatch _ _ (LoginToken.selfSign_ok htoken).2.2)

/-- The signed properties are verified under the key in the token. -/
theorem verifyProperties_of_selfSign
    (h : request.selfSign J signing clientKeyPair includeLegacyChain = some (.ok signed))
    (hmatch : Matches S signing.propertiesJose clientKeyPair) :
    signed.mClientProperties.verify S signed.mLoginToken.mPayload.cpk = .ok () := by
  obtain ⟨filled, -, htoken, hproperties, -⟩ := selfSign_ok h
  have hverify := hmatch _ _ (ClientProperties.sign_ok hproperties).2.2.2.2
  rw [(LoginToken.selfSign_fields htoken).2, ClientProperties.verify, failIf_eq_ok, hverify]
  simp

/-! ### What is read back -/

/-- The raw headers, the raw payloads and the signatures of a request. -/
def encoded (request : ConnectionRequest) : List (Bytes × Bytes × Bytes) ×
    Option
      (Option (Bytes × Bytes × Bytes) × Option (Bytes × Bytes × Bytes) × (Bytes × Bytes × Bytes)) :=
  ([(request.mLoginToken.mRawHeader, request.mLoginToken.mRawPayload,
    request.mLoginToken.mSignature),
    (request.mClientProperties.mRawHeader, request.mClientProperties.mRawPayload,
      request.mClientProperties.mSignature)],
    request.mLegacyCertificateChain.map LegacyCertificateChain.encoded)

/-- The request without a chain that was never signed, whose text stands for none. -/
def withoutUnsigned (J : Jsonc) (request : ConnectionRequest) : ConnectionRequest :=
  { request with
    mLegacyCertificateChain := request.mLegacyCertificateChain.filter
      fun chain => chain.toString J ≠ LegacyCertificateChain.unsigned }

/-- The chain of a request is read with its texts, if it is read. -/
theorem createChain_encoded (hJ : J.Lawful) {chain chain' : Option LegacyCertificateChain}
    (h : createChain J (chain.map (·.toString J)) = .ok chain') :
    chain'.map LegacyCertificateChain.encoded
      = (chain.filter fun chain => chain.toString J ≠ LegacyCertificateChain.unsigned).map
        LegacyCertificateChain.encoded := by
  cases chain with
  | none =>
    cases h
    rfl
  | some chain =>
    simp only [Option.map_some, createChain] at h
    split at h
    · next hunsigned =>
      cases h
      simp [Option.filter, hunsigned]
    · next hunsigned =>
      split at h
      · exact absurd h (by simp)
      · next read hread =>
        cases h
        simp [Option.filter, hunsigned, LegacyCertificateChain.fromString_encoded hJ hread]

/-- The chain of a signed request is read: it was signed, or it was readable before. -/
theorem createChain_of_selfSign (hJ : J.Lawful)
    (hfields : ∀ chain, request.mLegacyCertificateChain = some chain → chain.HasFields)
    (h : request.selfSign J signing clientKeyPair includeLegacyChain = some (.ok signed))
    (hretained : includeLegacyChain = false →
      (createChain J (request.mLegacyCertificateChain.map (·.toString J))).isOk = true) :
    ∃ chain, createChain J (signed.mLegacyCertificateChain.map (·.toString J)) = .ok chain ∧
      (includeLegacyChain = true → signed.mLegacyCertificateChain = chain ∧
        ∀ c, chain = some c → c.mClientCertificate = none) := by
  obtain ⟨-, -, -, -, ⟨hinclude, hchain⟩ |
    ⟨-, current, chain, chain', hcurrent, hfill, hsigned, hchain⟩⟩ := selfSign_ok h
  · -- the chain was left as it was
    rw [hchain]
    have hread := hretained hinclude
    cases hresult : createChain J (request.mLegacyCertificateChain.map (·.toString J)) with
    | error message =>
      rw [hresult] at hread; exact absurd hread (by simp [Except.isOk, Except.toBool])
    | ok chain => exact ⟨chain, rfl, fun h => absurd (hinclude.symm.trans h) (by simp)⟩
  · -- the chain is the one that was signed
    obtain ⟨hextraData, hrandomNonce, hiss, hiat⟩ :=
      ensureAndFillLegacyChain_some (fun c hc => hfields c (hcurrent ▸ hc)) hfill
    have hread :=
      LegacyCertificateChain.fromString_selfSign hJ hsigned hextraData hrandomNonce hiss hiat
    refine ⟨some chain', by rw [hchain]; exact createChain_toString hJ hread, fun _ => ⟨hchain, ?_⟩⟩
    rintro c ⟨⟩
    exact (LegacyCertificateChain.selfSign_ok hsigned).1

/-! ### A request that is signed -/

namespace Samples

def keyPair : PemKeyPair := ⟨literal "K", literal "K"⟩

def environment : SelfSigning := ⟨⟨1, 2⟩, 3, 0, 0, echo.jose, echo.jose, echo.jose⟩

/-- What is signed of a request. -/
def signedRequest (request : ConnectionRequest) (includeLegacyChain : Bool) : ConnectionRequest :=
  ((request.selfSign compact environment keyPair includeLegacyChain).bind (·.toOption)).getD {}

/-- The keys of the example match. -/
theorem matches_echo : Matches echo.signatures echo.jose keyPair := by
  intro input signature h
  have hkey : pem_helper.stripPemMarkersAndCompact (literal "K") = literal "K" := by decide
  rw [keyPair, hkey]
  exact echo_verify h

/-- The example is signed. -/
theorem signedRequest_eq
    (hfields : ∀ chain, request.mLegacyCertificateChain = some chain → chain.HasFields) :
    request.selfSign compact environment keyPair false =
      some (.ok (signedRequest request false)) := by
  obtain ⟨s, hs⟩ : ∃ s, request.selfSign compact environment keyPair false = some (.ok s) :=
    selfSign_isOk hfields (fun _ => rfl) (fun _ => rfl)
  rw [signedRequest, hs]
  rfl

/-- A request with a chain of three certificates left in it. -/
def threeCertificates : ConnectionRequest := { mLegacyCertificateChain := some Forged.chain }

/-- Its chain has the fields. -/
theorem threeCertificates_fields : ∀ chain, threeCertificates.mLegacyCertificateChain = some chain →
    chain.HasFields := by
  rintro chain ⟨⟩
  have hpayload := (Certificate.sign_some Forged.certificate_eq).2.2.1
  constructor <;> simp [Forged.chain, hpayload, Forged.unsignedCertificate]

/-- Its chain is read back. -/
theorem threeCertificates_read :
    (createChain compact
      (threeCertificates.mLegacyCertificateChain.map (·.toString compact))).isOk = true := by
  have hread : createChain compact (some (Forged.chain.toString compact)) =
      .ok (some Forged.chain) :=
    createChain_toString compact_lawful Forged.chain_read
  rw [threeCertificates, Option.map_some, hread]
  rfl

end Samples

/-! ### The round trip -/

/-- **A self-signed request is read back and verified.** -/
theorem selfSign_reads_back (hJ : J.Lawful)
    (hfields : ∀ chain, request.mLegacyCertificateChain = some chain → chain.HasFields)
    (htokenMatch : Matches S signing.tokenJose clientKeyPair)
    (hpropertiesMatch : Matches S signing.propertiesJose clientKeyPair)
    (h : request.selfSign J signing clientKeyPair includeLegacyChain = some (.ok signed))
    (hretained : includeLegacyChain = false →
      (createChain J (request.mLegacyCertificateChain.map (·.toString J))).isOk = true)
    (hauthLength : (signed.authJsonStr J).length < 2 ^ 31)
    (hpropertiesLength : signed.mClientProperties.toString.length < 2 ^ 31) :
    ∃ read, fromString J (signed.toString J) = .ok read ∧
      read.encoded = (signed.withoutUnsigned J).encoded ∧
      read.mLoginToken = LoginToken.signedFields signed.mLoginToken ∧
      read.mClientProperties = signed.mClientProperties ∧
      (includeLegacyChain = true → read.mLegacyCertificateChain = signed.mLegacyCertificateChain) ∧
      ∀ (keys : AuthenticationKeyManager) (clock : Clock) (allowLegacy : Bool), 0 ≤ keys.mLeeway →
        clock.tokenSelfSigned.seconds ≤ signed.mLoginToken.mPayload.exp →
        (includeLegacyChain = false → ∀ chain, read.mLegacyCertificateChain = some chain →
          chain.verifyOnline S keys.mLeeway clock.chainOnline ≠ .ok ()) →
        read.verify S keys clock false allowLegacy = .ok .SelfSigned := by
  obtain ⟨chain, hchain, hincluded⟩ := createChain_of_selfSign hJ hfields h hretained
  obtain ⟨filled, -, htoken, hproperties, -⟩ := selfSign_ok h
  let read : ConnectionRequest := ⟨signed.mAuthenticationType, chain,
    LoginToken.signedFields signed.mLoginToken, signed.mClientProperties⟩
  have hnotEmpty : read.mLoginToken.isEmpty = false := by
    rw [LoginToken.isEmpty_signedFields, LoginToken.selfSign_not_empty hJ htoken]
  have hread : fromString J (signed.toString J) = .ok read :=
    fromString_toString hJ rfl hchain (LoginToken.fromString_selfSign hJ htoken)
      (fun ⟨_, hempty⟩ => absurd (hempty.symm.trans hnotEmpty) (by simp))
      (ClientProperties.fromString_sign hJ hproperties) hauthLength hpropertiesLength
  refine ⟨read, hread, ?_, rfl, rfl, fun hinclude => (hincluded hinclude).1.symm, ?_⟩
  · simp only [encoded, withoutUnsigned, LoginToken.signedFields, read,
      createChain_encoded hJ hchain]
  · intro keys clock allowLegacy hleeway htime honline
    have htokenVerified : read.mLoginToken.verifySelfSigned S keys.mLeeway clock.tokenSelfSigned =
        .ok () :=
      verifySelfSigned_of_selfSign hJ h htokenMatch hleeway htime
    have hpropertiesVerified :
        signed.mClientProperties.verify S signed.mLoginToken.mPayload.cpk = .ok () :=
      verifyProperties_of_selfSign h hpropertiesMatch
    have halg : read.mLoginToken.mHeader.alg ≠ literal "RS256" := by
      rw [LoginToken.verifySelfSigned_alg htokenVerified]
      decide
    refine verify_selfSigned halg htokenVerified hpropertiesVerified fun _ c hc => ?_
    cases hinclude : includeLegacyChain with
    | false => exact honline hinclude c hc
    | true =>
      -- the chain that was signed has one certificate
      intro hverify
      obtain ⟨client, -, hclient, -⟩ := LegacyCertificateChain.verifyOnline_certificates hverify
      rw [(hincluded hinclude).2 c hc] at hclient
      exact absurd hclient (by simp)

open Samples in
/-- A request with a retained chain of three certificates. -/
theorem selfSign_reads_back_three :
    ∃ read, fromString compact ((signedRequest threeCertificates false).toString compact) =
      .ok read ∧
      read.encoded = ((signedRequest threeCertificates false).withoutUnsigned compact).encoded ∧
      read.mLoginToken =
        LoginToken.signedFields (signedRequest threeCertificates false).mLoginToken ∧
      read.mClientProperties = (signedRequest threeCertificates false).mClientProperties ∧
      (false = true →
        read.mLegacyCertificateChain =
          (signedRequest threeCertificates false).mLegacyCertificateChain) ∧
      ∀ (keys : AuthenticationKeyManager) (clock : Clock) (allowLegacy : Bool), 0 ≤ keys.mLeeway →
        clock.tokenSelfSigned.seconds
          ≤ (signedRequest threeCertificates false).mLoginToken.mPayload.exp →
        (false = false → ∀ chain, read.mLegacyCertificateChain = some chain →
          chain.verifyOnline echo.signatures keys.mLeeway clock.chainOnline ≠ .ok ()) →
        read.verify echo.signatures keys clock false allowLegacy = .ok .SelfSigned :=
  selfSign_reads_back compact_lawful threeCertificates_fields matches_echo matches_echo
    (signedRequest_eq threeCertificates_fields) (fun _ => threeCertificates_read)
      (by decide +kernel)
    (by decide +kernel)

/-! ### Requests that are not read back -/

/-- Only the PlayFab id of the properties is filled in. -/
theorem ensureAndFillLoginToken_properties {filled : ConnectionRequest}
    (h : request.ensureAndFillLoginToken signing = some filled) :
    filled.mClientProperties.mPayload
      = { request.mClientProperties.mPayload with mPlayFabId := request.getPlayFabID } := by
  obtain ⟨xid, -, h⟩ := Option.bind_eq_some_iff.mp h
  obtain ⟨xname, -, h⟩ := Option.bind_eq_some_iff.mp h
  cases h
  rfl

/-- The text of the properties is at least as long as a string in them. -/
theorem length_properties_selfSign
    (h : request.selfSign compact signing clientKeyPair includeLegacyChain = some (.ok signed)) :
    request.mClientProperties.mPayload.mArmSize.length ≤
      signed.mClientProperties.toString.length := by
  obtain ⟨filled, hfilled, -, hproperties, -⟩ := selfSign_ok h
  obtain ⟨-, -, hpayload, hraw, -⟩ := ClientProperties.sign_ok hproperties
  have hsame : signed.mClientProperties.mPayload.mArmSize =
      request.mClientProperties.mPayload.mArmSize := by
    rw [hpayload, ensureAndFillLoginToken_properties hfilled]
  -- the string is a member of the payload
  have hfield : (ClientProperties.removeLeadingCharacter "mArmSize",
      Json.string signed.mClientProperties.mPayload.mArmSize) ∈ ClientProperties.members compact
        ClientProperties.payloadFields signed.mClientProperties.mPayload :=
    List.mem_map_of_mem (f := fun f : Field _ => (ClientProperties.removeLeadingCharacter f.name,
      f.json compact _)) (List.mem_cons_of_mem _ List.mem_cons_self)
  -- its text is no shorter than it, and a text of members is no shorter than one of them
  have hstring := Json.length_print_string signed.mClientProperties.mPayload.mArmSize
  have hmember : (Json.string signed.mClientProperties.mPayload.mArmSize).print.length
      ≤ (Json.ofMembers (ClientProperties.members compact ClientProperties.payloadFields
      signed.mClientProperties.mPayload)).print.length :=
    Json.length_print_member (List.mem_map_of_mem hfield)
  -- base64 makes a text longer
  have hencoded : signed.mClientProperties.mRawPayload.length
      = ((Json.ofMembers (ClientProperties.members compact ClientProperties.payloadFields
        signed.mClientProperties.mPayload)).print.length * 8 + 5) / 6 := by
    rw [hraw, base64url.encode_length]
    rfl
  have hlength : signed.mClientProperties.mRawPayload.length ≤
      signed.mClientProperties.toString.length := by
    simp only [ClientProperties.toString, StringView.joinDots, List.length_append, List.length_cons]
    omega
  rw [← hsame]
  omega

namespace Samples

/-- A request with a chain that lacks one of its three certificates. -/
def twoCertificates : ConnectionRequest :=
  { mLegacyCertificateChain := some
      { mClientCertificate := some {}
        mLoginCertificate :=
          { mPayload :=
              { randomNonce := some 0
                iss := some (literal "Mojang")
                iat := some 0
                extraData := some {} } } } }

/-- A request whose properties have a string of so many bytes. -/
def longString (length : ℕ) : ConnectionRequest :=
  { mClientProperties := { mPayload := { mArmSize := List.replicate length 65 } } }

/-- The chain of two certificates has the fields. -/
theorem twoCertificates_fields : ∀ chain, twoCertificates.mLegacyCertificateChain = some chain →
    chain.HasFields := by
  rintro chain ⟨⟩
  exact ⟨rfl, rfl, rfl, rfl⟩

/-- There is no chain beside a long string. -/
theorem longString_fields (length : ℕ) :
    ∀ chain, (longString length).mLegacyCertificateChain = some chain →
    chain.HasFields :=
  fun _ h => nomatch h

/-- The chain that was left in the request is refused. -/
theorem twoCertificates_refused (read : ConnectionRequest) :
    fromString compact ((signedRequest twoCertificates false).toString compact) ≠ .ok read := by
  intro hread
  have hchain := createChain_fromString compact_lawful (by decide +kernel) hread
  have hkept : (signedRequest twoCertificates false).mLegacyCertificateChain
      = twoCertificates.mLegacyCertificateChain := by
    obtain ⟨-, -, -, -, ⟨-, hkept⟩ | ⟨hinclude, -⟩⟩ :=
      selfSign_ok (signedRequest_eq twoCertificates_fields)
    · exact hkept
    · exact absurd hinclude (by simp)
  obtain ⟨chain, hchain'⟩ : ∃ chain, twoCertificates.mLegacyCertificateChain = some chain :=
    ⟨_, rfl⟩
  have hunsigned : chain.toString compact ≠ LegacyCertificateChain.unsigned := by
    cases hchain'
    decide +kernel
  -- two certificates are written, and a reader takes one or three
  have hrefused : LegacyCertificateChain.fromString compact (chain.toString compact)
      = .error "Certificate JSON 'chain' field must contain either 1 or 3 certificates" := by
    cases hchain'
    rw [LegacyCertificateChain.fromString_toString compact_lawful]
    rfl
  rw [hkept, hchain', Option.map_some, createChain, if_neg hunsigned, hrefused] at hchain
  exact absurd hchain (by simp)

/-- A string that is too long is not read back. -/
theorem longString_lost {length : ℕ} (hlength : 2 ^ 31 ≤ length) {read : ConnectionRequest}
    (hread : fromString compact ((signedRequest (longString length) false).toString compact) =
      .ok read) :
    read.encoded ≠ (signedRequest (longString length) false).encoded := by
  intro hencoded
  have hlong : (longString length).mClientProperties.mPayload.mArmSize.length ≤ _ :=
    length_properties_selfSign (signedRequest_eq (longString_fields length))
  have hshort := fromString_propertiesLength hread
  have hsame : read.mClientProperties.toString
      = (signedRequest (longString length) false).mClientProperties.toString := by
    simp only [encoded, Prod.mk.injEq, List.cons.injEq] at hencoded
    obtain ⟨⟨-, ⟨hheader, hpayload, hsignature⟩, -⟩, -⟩ := hencoded
    rw [ClientProperties.toString, ClientProperties.toString, hheader, hpayload, hsignature]
  rw [hsame] at hshort
  simp only [longString, List.length_replicate] at hlong
  exact absurd (Nat.le_trans hlength hlong) (Nat.not_le_of_lt hshort)

end Samples

open Samples in
/-- **Not every request is read back**: not one with a chain of two certificates left in it, nor
one with a string of `2 ^ 31` bytes. -/
theorem selfSign_not_read_back :
    Matches echo.signatures echo.jose keyPair ∧
      ((∀ chain, twoCertificates.mLegacyCertificateChain = some chain → chain.HasFields) ∧
        twoCertificates.selfSign compact environment keyPair false
          = some (.ok (signedRequest twoCertificates false)) ∧
        ∀ read, fromString compact ((signedRequest twoCertificates false).toString compact) ≠
          .ok read) ∧
      ∃ request : ConnectionRequest, request.mClientProperties.mPayload.mArmSize.length = 2 ^ 31 ∧
        (∀ chain, request.mLegacyCertificateChain = some chain → chain.HasFields) ∧
        request.selfSign compact environment keyPair false =
          some (.ok (signedRequest request false)) ∧
        ∀ read, fromString compact ((signedRequest request false).toString compact) = .ok read →
          read.encoded ≠ (signedRequest request false).encoded := by
  obtain ⟨length, hlength⟩ : ∃ length, length = 2 ^ 31 := ⟨_, rfl⟩
  refine ⟨matches_echo, ⟨twoCertificates_fields, signedRequest_eq twoCertificates_fields,
    twoCertificates_refused⟩, longString length, ?_, longString_fields length,
    signedRequest_eq (longString_fields length),
    fun read hread => longString_lost (Nat.le_of_eq hlength.symm) hread⟩
  simp only [longString, List.length_replicate, hlength]

end ConnectionRequest
end SculkProtocol
