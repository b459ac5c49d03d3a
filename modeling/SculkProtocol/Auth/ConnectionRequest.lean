import SculkProtocol.Auth.ClientProperties
import SculkProtocol.Auth.Identity
import SculkProtocol.Auth.LegacyCertificateChain
import SculkProtocol.Auth.LoginToken
import SculkProtocol.Utility.BinaryStream

/-!
# `ConnectionRequest`

A login: a token, a legacy chain or both, and the client's properties. `verify` tries the
token first and the chain after it, as Mojang's and then as self-signed, and stops at the
first that passes. Each verification reads the clock itself (`Clock`).

The accessors read the extra data of a chain unchecked; where it is missing the behaviour is
undefined, which is `none`. It is not missing in a request that was read
(`fromString_extraData`).
-/

namespace SculkProtocol

inductive VerificationStatus
  | Online
  | SelfSigned
  | LegacyOnline_Deprecated
  | LegacySelfSigned_Deprecated
  deriving DecidableEq

structure ConnectionRequest where
  mAuthenticationType : AuthenticationType := .Full
  mLegacyCertificateChain : Option LegacyCertificateChain := none
  mLoginToken : LoginToken := {}
  mClientProperties : ClientProperties := {}

/-- What the clock shows in each of the verifications. -/
structure Clock where
  tokenOnline : TimePoint
  chainOnline : TimePoint
  tokenSelfSigned : TimePoint
  chainSelfSigned : TimePoint

/-- What a self-signing draws and reads: random values, the clock and OpenSSL's signatures. -/
structure SelfSigning where
  randomIdentity : Identity
  randomInt : ℤ
  tokenTime : TimePoint
  chainTime : TimePoint
  tokenJose : Bytes → Bytes → Option Bytes
  propertiesJose : Bytes → Bytes → Option Bytes
  chainJose : Bytes → Bytes → Option Bytes

namespace LegacyCertificateChain

variable (chain : LegacyCertificateChain)

/-- The chain has the two certificates a self-signed one is without. -/
def isOnline : Bool := chain.mClientCertificate.isSome && chain.mMojangCertificate.isSome

/-- `mLoginCertificate.mPayload.extraData->XUID` -/
def XUID : Option Bytes := chain.mLoginCertificate.mPayload.extraData.map (·.XUID)

end LegacyCertificateChain

namespace ConnectionRequest

variable (J : Jsonc) (S : Signatures) (request : ConnectionRequest)

/-! ### Accessors -/

def getXboxLiveID : Option (Option Bytes) := do
  let xuid : Bytes :=
    if request.mLoginToken.isEmpty = false ∧ request.mLoginToken.mHeader.alg = literal "RS256" then
      request.mLoginToken.mPayload.xid
    else []
  let xuid ←
    -- the XUID in Mojang's chain comes before the token's
    match request.mLegacyCertificateChain with
    | some chain => if chain.isOnline then chain.XUID else some xuid
    | none => some xuid
  pure (if xuid ≠ [] ∧ Identity.isXuid xuid = true then some xuid else none)

def getXboxLiveName : Option Bytes :=
  if request.mLoginToken.isEmpty = false then some request.mLoginToken.mPayload.xname
  else
    match request.mLegacyCertificateChain with
    | some chain => chain.mLoginCertificate.mPayload.extraData.map (·.displayName)
    | none => some []

/-- `none` also where MD5 fails, which aborts the program. -/
def getIdentity (md5 : Bytes → Option Bytes) : Option Identity := do
  let fromProperties : Option Identity :=
    let selfSignedId := request.mClientProperties.mPayload.mSelfSignedId
    if (Identity.validateString selfSignedId).isOk then Identity.fromString selfSignedId
    else some {}
  match ← request.getXboxLiveID with
  | some xuid => if Identity.isXuid xuid then Identity.fromXuid md5 xuid else fromProperties
  | none => fromProperties

def getPlayFabID : Bytes :=
  if request.mLoginToken.isEmpty = false then request.mLoginToken.mPayload.mid
  else request.mClientProperties.mPayload.mPlayFabId

def getClientPublicKey : Bytes := request.mClientProperties.mHeader.x5u

/-! ### Verification -/

/-- The texts of the errors of a verification. -/
structure VerificationTexts where
  tokenProperties : String
  chainProperties : String
  chain : String
  token : String

/-- The token first and, where it does not pass, the chain. -/
def verifyBy (verifyToken : Except String Unit)
    (verifyChain : LegacyCertificateChain → Except String Unit)
    (tokenStatus chainStatus : VerificationStatus) (texts : VerificationTexts)
    (allowLegacy : Bool) :
    Except String VerificationStatus :=
  if verifyToken.isOk then
    if (request.mClientProperties.verify S request.mLoginToken.getClientPublicKey).isOk then
      .ok tokenStatus
    else .error texts.tokenProperties
  else
    -- the chain is tried only where the token itself fails
    match if allowLegacy then request.mLegacyCertificateChain else none with
    | some chain =>
      if (verifyChain chain).isOk then
        if (request.mClientProperties.verify S chain.mLoginCertificate.mHeader.x5u).isOk then
          .ok chainStatus
        else .error texts.chainProperties
      else .error texts.chain
    | none => .error texts.token

def verifyOnline (keys : AuthenticationKeyManager) (clock : Clock) (allowLegacy : Bool) :
    Except String VerificationStatus :=
  request.verifyBy S (request.mLoginToken.verifyOnline S keys clock.tokenOnline)
    (fun chain => chain.verifyOnline S keys.mLeeway clock.chainOnline) .Online
      .LegacyOnline_Deprecated
    { tokenProperties := "client properties verification failed with login token public key"
      chainProperties :=
        "client properties verification failed with legacy certificate chain public key"
      chain := "legacy certificate chain verification failed"
      token := "login token verification failed" } allowLegacy

def verifySelfSigned (leeway : ℤ) (clock : Clock) (allowLegacy : Bool) :
    Except String VerificationStatus :=
  request.verifyBy S (request.mLoginToken.verifySelfSigned S leeway clock.tokenSelfSigned)
    (fun chain => chain.verifySelfSigned S leeway clock.chainSelfSigned)
    .SelfSigned .LegacySelfSigned_Deprecated
    { tokenProperties :=
        "client properties verification failed with self-signed login token public key"
      chainProperties :=
        "client properties verification failed with legacy self-signed certificate chain public key"
      chain := "legacy certificate chain self-signed verification failed"
      token := "login token self-signed verification failed" } allowLegacy

def verify (keys : AuthenticationKeyManager) (clock : Clock) (onlineMode allowLegacy : Bool) :
    Except String VerificationStatus :=
  if onlineMode then request.verifyOnline S keys clock allowLegacy
  else
    match request.verifyOnline S keys clock allowLegacy with
    | .ok status => .ok status
    | .error _ => request.verifySelfSigned S keys.mLeeway clock allowLegacy

/-! ### Self-signing -/

/-- `payload.xid`, filled in from the chain. -/
def filledXid : Option Bytes :=
  match request.mLegacyCertificateChain with
  | some chain =>
    if request.mLoginToken.mPayload.xid = [] then chain.XUID
    else some request.mLoginToken.mPayload.xid
  | none => some request.mLoginToken.mPayload.xid

/-- `payload.xname`, filled in. -/
def filledXname : Option Bytes :=
  if request.mLoginToken.mPayload.xname = [] then request.getXboxLiveName
  else some request.mLoginToken.mPayload.xname

/-- `none` where the extra data of a chain is missing. -/
def ensureAndFillLoginToken (signing : SelfSigning) : Option ConnectionRequest := do
  let payload := request.mLoginToken.mPayload
  let mid := request.getPlayFabID
  let xid ← request.filledXid
  let xname ← request.filledXname
  pure
    { request with
      mLoginToken := { request.mLoginToken with
        mPayload := { payload with
          mid := mid
          ap := 0
          xid := xid
          xname := xname
          aud := LoginToken.audience
          leguuid := some (payload.leguuid.getD signing.randomIdentity.toString)
          nid := some []
          nname := some []
          pid := some []
          pname := some [] } }
      mClientProperties := { request.mClientProperties with
        mPayload := { request.mClientProperties.mPayload with mPlayFabId := mid } } }

def ensureAndFillLegacyChain (signing : SelfSigning) : Option LegacyCertificateChain :=
  match request.mLegacyCertificateChain with
  | none => do
    let displayName ← request.getXboxLiveName
    let payload : Certificate.Payload :=
      { randomNonce := some signing.randomInt
        iss := some (literal "Mojang")
        iat := some 0
        extraData := some { displayName := displayName, sandBoxId := literal "RETAIL" } }
    pure { mLoginCertificate := { mPayload := payload } }
  | some chain => do
    let extraData ← chain.mLoginCertificate.mPayload.extraData
    pure
      { chain with
        mLoginCertificate := { chain.mLoginCertificate with
          mPayload := { chain.mLoginCertificate.mPayload with
            extraData := some { extraData with identity := [], XUID := [] } } } }

/-- The request after a call that succeeds. -/
def selfSign (signing : SelfSigning) (clientKeyPair : PemKeyPair) (includeLegacyChain : Bool) :
    Option (Except String ConnectionRequest) := do
  let request ← request.ensureAndFillLoginToken signing
  match request.mLoginToken.selfSign J signing.tokenJose clientKeyPair signing.tokenTime with
  | .error _ => pure (.error "Login token signing failed")
  | .ok token =>
    match request.mClientProperties.sign J signing.propertiesJose clientKeyPair with
    | .error _ => pure (.error "Client properties signing failed")
    | .ok properties =>
      let request : ConnectionRequest :=
        { request with
          mAuthenticationType := .SelfSigned
          mLoginToken := token
          mClientProperties := properties }
      if includeLegacyChain then do
        let chain ← request.ensureAndFillLegacyChain signing
        match chain.selfSign J signing.chainJose clientKeyPair signing.chainTime with
        | .error _ => pure (.error "Legacy certificate chain signing failed")
        | .ok chain => pure (.ok { request with mLegacyCertificateChain := some chain })
      else pure (.ok request)

/-! ### Reading and writing -/

def authMembers : List (String × J.Json) :=
  [("AuthenticationType", J.integer request.mAuthenticationType.toInt),
    ("Token", J.string request.mLoginToken.toString)] ++
    request.mLegacyCertificateChain.toList.map fun chain =>
      ("Certificate", J.string (chain.toString J))

/-- The first of the two strings of a request. -/
def authJsonStr : Bytes := J.dump (J.object (request.authMembers J)) ++ literal "\n"

def toString : Bytes :=
  BinaryStream.writeLongString (request.authJsonStr J) ++
    BinaryStream.writeLongString request.mClientProperties.toString

/-- The fields of the authentication JSON. -/
structure Auth where
  authType : AuthenticationType := .Full
  legacyCertificate : Option Bytes := none
  loginToken : Bytes := []

def authFields : List (Field Auth) :=
  [.required "AuthenticationType" .authenticationType Auth.authType
    fun a v => { a with authType := v },
    .optional "Certificate" .string Auth.legacyCertificate fun a v =>
      { a with legacyCertificate := v },
    .required "Token" .string Auth.loginToken fun a v => { a with loginToken := v }]

def authTexts : FieldTexts where
  missing name := "Authentication JSON does not contain a valid '" ++ name ++ "' field"
  failed name := "Failed to deserialize '" ++ name ++ "' field in authentication JSON"
  key := id

/-- The chain of a request; the text of an unsigned one stands for none. -/
def createChain : Option Bytes → Except String (Option LegacyCertificateChain)
  | none => .ok none
  | some str =>
    if str = LegacyCertificateChain.unsigned then .ok none
    else
      match LegacyCertificateChain.fromString J str with
      | .error _ => .error "Failed to parse legacy certificate chain"
      | .ok chain => .ok (some chain)

def create (authenticationType : AuthenticationType) (legacyCertificateChainString : Option Bytes)
    (loginTokenString clientPropertiesString : Bytes) : Except String ConnectionRequest := do
  let chain ← createChain J legacyCertificateChainString
  match LoginToken.fromString J loginTokenString with
  | .error _ => .error "Failed to parse login token"
  | .ok token =>
    if chain = none ∧ token.isEmpty = true then
      .error "ConnectionRequest must have either a legacy certificate chain or a login token"
    else
      match ClientProperties.fromString J clientPropertiesString with
      | .error _ => .error "Failed to parse client properties"
      | .ok properties => .ok ⟨authenticationType, chain, token, properties⟩

def fromString (rawRequest : Bytes) : Except String ConnectionRequest :=
  match (ReadOnlyBinaryStream.ofBuffer rawRequest).readLongString with
  | (_, .error _) => .error "Read ConnectionRequest authentication JSON overflowed"
  | (stream, .ok authJsonStr) => do
    let authJson ← checkField (J.parse authJsonStr)
      "Failed to parse authentication JSON from ConnectionRequest"
    let auth ← readFields J authTexts authJson authFields {}
    match stream.readLongString with
    | (_, .error _) => .error "Read ConnectionRequest client properties overflowed"
    | (_, .ok clientProperties) =>
      create J auth.authType auth.legacyCertificate auth.loginToken clientProperties

/-! ### A request that was read -/

variable {J request}

theorem createChain_extraData {str : Option Bytes} {chain : LegacyCertificateChain}
    (h : createChain J str = .ok (some chain)) :
    chain.mLoginCertificate.mPayload.extraData.isSome = true := by
  unfold createChain at h
  split at h
  · exact absurd h (by simp)
  · split at h
    · exact absurd h (by simp)
    · split at h
      · exact absurd h (by simp)
      · next hchain =>
        cases h
        exact LegacyCertificateChain.fromString_extraData hchain

theorem create_ok {type : AuthenticationType} {certificate : Option Bytes}
    {token properties : Bytes}
    (h : create J type certificate token properties = .ok request) :
    createChain J certificate = .ok request.mLegacyCertificateChain ∧
      LoginToken.fromString J token = .ok request.mLoginToken ∧
      ClientProperties.fromString J properties = .ok request.mClientProperties := by
  obtain ⟨chain, hchain, h⟩ := bind_eq_ok.mp h
  split at h
  · exact absurd h (by simp)
  · next htoken =>
    split at h
    · exact absurd h (by simp)
    · split at h
      · exact absurd h (by simp)
      · next hproperties =>
        cases h
        exact ⟨hchain, htoken, hproperties⟩

/-- The strings of a request that was read. -/
theorem fromString_ok {raw : Bytes} (h : fromString J raw = .ok request) :
    ∃ stream authJsonStr stream' clientProperties json auth,
      (ReadOnlyBinaryStream.ofBuffer raw).readLongString = (stream, .ok authJsonStr) ∧
      J.parse authJsonStr = some json ∧ readFields J authTexts json authFields {} = .ok auth ∧
      stream.readLongString = (stream', .ok clientProperties) ∧
      create J auth.authType auth.legacyCertificate auth.loginToken clientProperties =
        .ok request := by
  unfold fromString at h
  split at h
  · exact absurd h (by simp)
  · next stream authJsonStr hauth =>
    obtain ⟨json, hjson, h⟩ := checkField_bind_eq_ok.mp h
    obtain ⟨auth, hfields, h⟩ := bind_eq_ok.mp h
    split at h
    · exact absurd h (by simp)
    · next stream' clientProperties hproperties =>
      exact ⟨stream, authJsonStr, stream', clientProperties, json, auth, hauth, hjson, hfields,
        hproperties, h⟩

/-- The chain of a request that was read has extra data. -/
theorem fromString_extraData {raw : Bytes} (h : fromString J raw = .ok request)
    {chain : LegacyCertificateChain} (hchain : request.mLegacyCertificateChain = some chain) :
    chain.mLoginCertificate.mPayload.extraData.isSome = true := by
  obtain ⟨_, _, _, _, _, auth, -, -, -, -, hcreate⟩ := fromString_ok h
  have hread := (create_ok hcreate).1
  rw [hchain] at hread
  exact createChain_extraData hread

/-- The properties of a request that was read are not too long. -/
theorem fromString_propertiesLength {raw : Bytes} (h : fromString J raw = .ok request) :
    request.mClientProperties.toString.length < 2 ^ 31 := by
  obtain ⟨_, _, _, clientProperties, _, _, -, -, -, hread, hcreate⟩ := fromString_ok h
  rw [ClientProperties.toString_fromString (create_ok hcreate).2.2]
  exact ReadOnlyBinaryStream.readLongString_lt hread

/-! ### A request that was written -/

theorem createChain_toString (hJ : J.Lawful) {chain chain' : LegacyCertificateChain}
    (h : LegacyCertificateChain.fromString J (chain.toString J) = .ok chain') :
    createChain J (some (chain.toString J)) = .ok (some chain') := by
  have hunsigned : chain.toString J ≠ LegacyCertificateChain.unsigned := fun heq =>
    LegacyCertificateChain.unsigned_refused hJ (heq ▸ h)
  simp only [createChain, if_neg hunsigned, h]

/-- The authentication JSON is read back. -/
theorem readFields_auth (hJ : J.Lawful) (type : AuthenticationType) (certificate : Option Bytes)
    (token : Bytes) :
    readFields J authTexts (J.object ([("AuthenticationType", J.integer type.toInt),
      ("Token", J.string token)] ++ certificate.toList.map fun c => ("Certificate", J.string c)))
      authFields {} = .ok ⟨type, certificate, token⟩ := by
  have hwritten : ∀ f ∈ authFields, f.Written id ⟨type, certificate, token⟩
      ([("AuthenticationType", J.integer type.toInt), ("Token", J.string token)] ++
        certificate.toList.map fun c => ("Certificate", J.string c)) := by
    cases certificate <;>
      simp [authFields, Field.required, Field.optional, Field.Written, Field.valueJson,
        hJ.serialize_string, hJ.serialize_authenticationType]
  rw [readFields_object hJ (by cases certificate <;> simp) hwritten]
  simp (disch := rfl) only [authFields, List.foldl_cons, List.foldl_nil, Field.copy_optional,
    Field.copy_required]

/-- The authentication JSON of a request is read back. -/
theorem readFields_authMembers (hJ : J.Lawful) (request : ConnectionRequest) :
    readFields J authTexts (J.object (request.authMembers J)) authFields {}
      = .ok ⟨request.mAuthenticationType, request.mLegacyCertificateChain.map (·.toString J),
          request.mLoginToken.toString⟩ := by
  have hmap : (request.mLegacyCertificateChain.map (·.toString J)).toList.map
        (fun c => ("Certificate", J.string c))
      = request.mLegacyCertificateChain.toList.map fun chain =>
        ("Certificate", J.string (chain.toString J)) := by
    cases request.mLegacyCertificateChain <;> rfl
  rw [authMembers, ← hmap]
  exact readFields_auth hJ _ _ _

/-- The chain of a request that is read from the text of another is read from that of its
chain. -/
theorem createChain_fromString (hJ : J.Lawful) {request' : ConnectionRequest}
    (hauthLength : (request.authJsonStr J).length < 2 ^ 31)
    (h : fromString J (request.toString J) = .ok request') :
    createChain J (request.mLegacyCertificateChain.map (·.toString J))
      = .ok request'.mLegacyCertificateChain := by
  obtain ⟨stream, str, _, _, json, auth, hauth, hjson, hfields, -, hcreate⟩ := fromString_ok h
  have hread : (ReadOnlyBinaryStream.ofBuffer (request.toString J)).readLongString
      = (_, .ok (request.authJsonStr J)) :=
    ReadOnlyBinaryStream.readLongString_write hauthLength rfl rfl
  have hstr : request.authJsonStr J = str :=
    Except.ok.inj (congrArg Prod.snd (hread.symm.trans hauth))
  rw [← hstr, authJsonStr, hJ.parse_dump_newline] at hjson
  cases hjson
  rw [readFields_authMembers hJ] at hfields
  cases hfields
  exact (create_ok hcreate).1

/-- **A request is read back** from its text if its parts are, and its strings are not too
long. -/
theorem fromString_toString (hJ : J.Lawful) {request' : ConnectionRequest}
    (htype : request'.mAuthenticationType = request.mAuthenticationType)
    (hchain : createChain J (request.mLegacyCertificateChain.map (·.toString J))
      = .ok request'.mLegacyCertificateChain)
    (htoken : LoginToken.fromString J request.mLoginToken.toString = .ok request'.mLoginToken)
    (hsome : ¬ (request'.mLegacyCertificateChain = none ∧ request'.mLoginToken.isEmpty = true))
    (hproperties : ClientProperties.fromString J request.mClientProperties.toString
      = .ok request'.mClientProperties)
    (hauthLength : (request.authJsonStr J).length < 2 ^ 31)
    (hpropertiesLength : request.mClientProperties.toString.length < 2 ^ 31) :
    fromString J (request.toString J) = .ok request' := by
  obtain ⟨s₁, s₂, hauth, hread⟩ :=
    ReadOnlyBinaryStream.readLongString_two hauthLength hpropertiesLength
  rw [fromString, toString, hauth]
  simp only [authJsonStr, hJ.parse_dump_newline, checkField, bind, Except.bind,
    readFields_authMembers hJ, hread, create,
    hchain, htoken, if_neg hsome, hproperties, ← htype]

end ConnectionRequest
end SculkProtocol
