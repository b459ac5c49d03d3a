import SculkProtocol.Auth.Concrete
import SculkProtocol.Auth.ConnectionRequest

/-!
# What a verified request is bound to

`verify` accepts a request by one of its credentials. The accessors look at both: the XUID of
a chain of three certificates overrides that of a token, whichever was verified, and the
client's key is taken from the header of its properties, which no check compares with
anything. So what they report is that of the credential that was verified only under
conditions on the other parts of the request: `reportsVerified_iff` for the XUID and the
identity, `boundKey_iff` for the key.
-/

namespace SculkProtocol
namespace ConnectionRequest

/-! ### The credential that was verified -/

/-- The token is one of Mojang's, by its header. -/
def tokenIsOnline (token : LoginToken) : Bool :=
  !token.isEmpty && token.mHeader.alg == literal "RS256"

inductive Credential
  | token (token : LoginToken)
  | chain (chain : LegacyCertificateChain)

/-- The status a credential can be accepted with. -/
def Credential.status : Credential → VerificationStatus
  | .token t => if tokenIsOnline t then .Online else .SelfSigned
  | .chain c => if c.isOnline then .LegacyOnline_Deprecated else .LegacySelfSigned_Deprecated

/-- The credential a status is about. -/
def credential (request : ConnectionRequest) : VerificationStatus → Option Credential
  | .Online | .SelfSigned => some (.token request.mLoginToken)
  | .LegacyOnline_Deprecated | .LegacySelfSigned_Deprecated =>
    request.mLegacyCertificateChain.map .chain

/-- The checks that have passed where `verify` returns a status. -/
def Verified (S : Signatures) (keys : AuthenticationKeyManager) (clock : Clock)
    (request : ConnectionRequest) : VerificationStatus → Prop
  | .Online =>
    request.mLoginToken.verifyOnline S keys clock.tokenOnline = .ok () ∧
      request.mClientProperties.verify S request.mLoginToken.getClientPublicKey = .ok ()
  | .SelfSigned =>
    request.mLoginToken.verifySelfSigned S keys.mLeeway clock.tokenSelfSigned = .ok () ∧
      request.mClientProperties.verify S request.mLoginToken.getClientPublicKey = .ok ()
  | .LegacyOnline_Deprecated =>
    ∃ chain, request.mLegacyCertificateChain = some chain ∧
      chain.verifyOnline S keys.mLeeway clock.chainOnline = .ok () ∧
      request.mClientProperties.verify S chain.mLoginCertificate.mHeader.x5u = .ok ()
  | .LegacySelfSigned_Deprecated =>
    ∃ chain, request.mLegacyCertificateChain = some chain ∧
      chain.verifySelfSigned S keys.mLeeway clock.chainSelfSigned = .ok () ∧
      request.mClientProperties.verify S chain.mLoginCertificate.mHeader.x5u = .ok ()

/-- A result without a value is a success in one way only. -/
theorem isOk_iff {x : Except String Unit} : x.isOk = true ↔ x = .ok () := by
  cases x <;> simp [Except.isOk, Except.toBool]

variable {J : Jsonc} {S : Signatures} {request request' : ConnectionRequest}
  {status status' : VerificationStatus} {keys : AuthenticationKeyManager} {clock : Clock}
  {onlineMode allowLegacy : Bool}

/-- Which checks pass where the token and the chain are tried. -/
theorem verifyBy_ok {verifyToken : Except String Unit}
    {verifyChain : LegacyCertificateChain → Except String Unit}
    {tokenStatus chainStatus : VerificationStatus}
    {texts : VerificationTexts}
    (h : request.verifyBy S verifyToken verifyChain tokenStatus chainStatus texts allowLegacy =
      .ok status) :
    (status = tokenStatus ∧ verifyToken = .ok () ∧
        request.mClientProperties.verify S request.mLoginToken.getClientPublicKey = .ok ()) ∨
      status = chainStatus ∧ ∃ chain, request.mLegacyCertificateChain = some chain ∧
        verifyChain chain = .ok () ∧
        request.mClientProperties.verify S chain.mLoginCertificate.mHeader.x5u = .ok () := by
  unfold verifyBy at h
  split at h
  · next htoken =>
    split at h
    · next hproperties =>
      cases h
      exact .inl ⟨rfl, isOk_iff.mp htoken, isOk_iff.mp hproperties⟩
    · exact absurd h (by simp)
  · split at h
    · next chain hchain =>
      -- the chain is tried only where it is allowed
      have hchain' : request.mLegacyCertificateChain = some chain := by
        cases allowLegacy
        · exact absurd hchain (by simp)
        · exact hchain
      split at h
      · next hverify =>
        split at h
        · next hproperties =>
          cases h
          exact .inr ⟨rfl, chain, hchain', isOk_iff.mp hverify, isOk_iff.mp hproperties⟩
        · exact absurd h (by simp)
      · exact absurd h (by simp)
    · exact absurd h (by simp)

/-- What is verified online is verified. -/
theorem verifyOnline_ok (h : request.verifyOnline S keys clock allowLegacy = .ok status) :
    request.Verified S keys clock status := by
  obtain ⟨rfl, hverified⟩ | ⟨rfl, hverified⟩ := verifyBy_ok h
  · exact hverified
  · exact hverified

/-- What is verified as self-signed is verified. -/
theorem verifySelfSigned_ok
    (h : request.verifySelfSigned S keys.mLeeway clock allowLegacy = .ok status) :
    request.Verified S keys clock status := by
  obtain ⟨rfl, hverified⟩ | ⟨rfl, hverified⟩ := verifyBy_ok h
  · exact hverified
  · exact hverified

/-- Where `verify` succeeds, the checks of its status have passed. -/
theorem verify_ok (h : request.verify S keys clock onlineMode allowLegacy = .ok status) :
    request.Verified S keys clock status := by
  unfold verify at h
  split at h
  · exact verifyOnline_ok h
  · split at h
    · next honline =>
      cases h
      exact verifyOnline_ok honline
    · exact verifySelfSigned_ok h

/-- A result that is no success is an error. -/
theorem isOk_of_ne {x : Except String Unit} (h : x ≠ .ok ()) : x.isOk = false := by
  rw [Bool.eq_false_iff]
  exact fun hok => h (isOk_iff.mp hok)

/-- A self-signed token is accepted unless the request's chain is verified as Mojang's. -/
theorem verify_selfSigned (halg : request.mLoginToken.mHeader.alg ≠ literal "RS256")
    (htoken : request.mLoginToken.verifySelfSigned S keys.mLeeway clock.tokenSelfSigned = .ok ())
    (hproperties : request.mClientProperties.verify S request.mLoginToken.mPayload.cpk = .ok ())
    (hchain : allowLegacy = true → ∀ chain, request.mLegacyCertificateChain = some chain →
      chain.verifyOnline S keys.mLeeway clock.chainOnline ≠ .ok ()) :
    request.verify S keys clock false allowLegacy = .ok .SelfSigned := by
  -- the token is tried as Mojang's first, and its algorithm refused
  have htokenOnline : (request.mLoginToken.verifyOnline S keys clock.tokenOnline).isOk = false :=
    isOk_of_ne fun h => halg (LoginToken.verifyOnline_alg h).2
  have honline : ∃ message, request.verifyOnline S keys clock allowLegacy = .error message := by
    simp only [verifyOnline, verifyBy, htokenOnline, Bool.false_eq_true, if_false]
    split
    · next chain h =>
      cases allowLegacy
      · exact absurd h (by simp)
      · simp only [isOk_of_ne (hchain rfl chain h), Bool.false_eq_true, if_false]
        exact ⟨_, rfl⟩
    · exact ⟨_, rfl⟩
  obtain ⟨message, honline⟩ := honline
  have hproperties' : request.mClientProperties.verify S request.mLoginToken.getClientPublicKey =
      .ok () :=
    hproperties
  simp only [verify, honline, verifySelfSigned, verifyBy, isOk_iff.mpr htoken,
    isOk_iff.mpr hproperties', Bool.false_eq_true, if_false, if_true]

/-- A request that was read and verified. -/
def Accepted (J : Jsonc) (S : Signatures) (request : ConnectionRequest)
    (status : VerificationStatus) :
    Prop :=
  (∃ raw, fromString J raw = .ok request) ∧
    ∃ keys clock onlineMode allowLegacy, request.verify S keys clock onlineMode allowLegacy =
      .ok status

/-- A request is accepted with the status of its credential. -/
theorem Accepted.credential_status (h : request.Accepted J S status) :
    ∃ credential, request.credential status = some credential ∧ credential.status = status := by
  obtain ⟨-, keys, clock, onlineMode, allowLegacy, h⟩ := h
  have hverified := verify_ok h
  cases status with
  | Online =>
    obtain ⟨hempty, halg⟩ := LoginToken.verifyOnline_alg hverified.1
    exact ⟨_, rfl, by simp [Credential.status, tokenIsOnline, hempty, halg]⟩
  | SelfSigned =>
    have halg := LoginToken.verifySelfSigned_alg hverified.1
    have hne : (literal "ES384" == literal "RS256") = false := by decide
    exact ⟨_, rfl, by simp [Credential.status, tokenIsOnline, halg, hne]⟩
  -- the two kinds of chains differ in the number of certificates
  | LegacyOnline_Deprecated =>
    obtain ⟨chain, hchain, hverify, -⟩ := hverified
    obtain ⟨client, mojang, hclient, hmojang⟩ :=
      LegacyCertificateChain.verifyOnline_certificates hverify
    refine ⟨.chain chain, by rw [credential, hchain, Option.map_some], ?_⟩
    simp [Credential.status, LegacyCertificateChain.isOnline, hclient, hmojang]
  | LegacySelfSigned_Deprecated =>
    obtain ⟨chain, hchain, hverify, -⟩ := hverified
    obtain ⟨hclient, -⟩ := LegacyCertificateChain.verifySelfSigned_certificates hverify
    refine ⟨.chain chain, by rw [credential, hchain, Option.map_some], ?_⟩
    simp [Credential.status, LegacyCertificateChain.isOnline, hclient]

/-- The credential tells the status. -/
theorem Accepted.status_eq (h : request.Accepted J S status) (h' : request'.Accepted J S status')
    (hcredential : request.credential status = request'.credential status') : status = status' := by
  obtain ⟨c, hc, rfl⟩ := h.credential_status
  obtain ⟨c', hc', rfl⟩ := h'.credential_status
  rw [hcredential, hc'] at hc
  exact congrArg Credential.status (Option.some.inj hc).symm

/-! ### What the accessors report -/

/-- The XUID in a chain of three certificates. -/
def chainXuid (request : ConnectionRequest) : Option Bytes :=
  request.mLegacyCertificateChain.bind fun chain => if chain.isOnline then chain.XUID else none

/-- An XUID, if it is one. -/
def asXuid (xuid : Bytes) : Option Bytes := if Identity.isXuid xuid then some xuid else none

/-- `getXboxLiveID` is defined for a request that was read: the chain comes before the token. -/
theorem getXboxLiveID_eq (h : ∃ raw, fromString J raw = .ok request) :
    request.getXboxLiveID = some (match request.chainXuid with
      | some xuid => asXuid xuid
      | none =>
        if tokenIsOnline request.mLoginToken then asXuid request.mLoginToken.mPayload.xid
        else none) := by
  obtain ⟨raw, hraw⟩ := h
  have hxuid : ∀ xuid : Bytes, (if xuid ≠ [] ∧ Identity.isXuid xuid = true then some xuid else none)
      = asXuid xuid := by
    rintro (_ | ⟨c, xuid⟩)
    · simp [asXuid, Identity.isXuid_nil]
    · simp [asXuid]
  have htoken : ∀ token : LoginToken, asXuid (if token.isEmpty = false ∧
    token.mHeader.alg = literal "RS256"
      then token.mPayload.xid else []) = if tokenIsOnline token then asXuid token.mPayload.xid
                                         else none := by
    intro token
    cases hempty : token.isEmpty <;> by_cases halg : token.mHeader.alg = literal "RS256" <;>
      simp [tokenIsOnline, hempty, halg, asXuid, Identity.isXuid_nil]
  simp only [getXboxLiveID, hxuid, chainXuid]
  cases hchain : request.mLegacyCertificateChain with
  | none => simp [htoken]
  | some chain =>
    cases honline : chain.isOnline with
    | false => simp [honline, htoken]
    -- a chain of three certificates that was read has extra data
    | true =>
      obtain ⟨extraData, hextraData⟩ :=
        Option.isSome_iff_exists.mp (fromString_extraData hraw hchain)
      simp [honline, LegacyCertificateChain.XUID, hextraData]

/-- The XUID of the credential that was verified; a self-signed one vouches for none. -/
def credentialXuid (request : ConnectionRequest) : VerificationStatus → Option Bytes
  | .Online => some request.mLoginToken.mPayload.xid
  | .LegacyOnline_Deprecated => request.mLegacyCertificateChain.bind LegacyCertificateChain.XUID
  | .SelfSigned | .LegacySelfSigned_Deprecated => none

/-- `getXboxLiveID` reports the XUID of the credential that was verified, or nothing. -/
def ReportsVerified (request : ConnectionRequest) (status : VerificationStatus) : Prop :=
  request.getXboxLiveID = some none ∨
    ∃ xuid, request.credentialXuid status = some xuid ∧ request.getXboxLiveID = some (some xuid)

/-- The other credential has no valid XUID but that of the one that was verified. -/
def NoOtherXuid (request : ConnectionRequest) : VerificationStatus → Prop
  | .Online =>
    ∀ xuid, request.chainXuid = some xuid → Identity.isXuid xuid = true →
      xuid = request.mLoginToken.mPayload.xid
  | .SelfSigned => ∀ xuid, request.chainXuid = some xuid → Identity.isXuid xuid = false
  | .LegacyOnline_Deprecated => True
  | .LegacySelfSigned_Deprecated =>
    tokenIsOnline request.mLoginToken = true →
      Identity.isXuid request.mLoginToken.mPayload.xid = false

/-- The chain, if it has three certificates, has a valid XUID. -/
def ChainXuidValid (request : ConnectionRequest) : Prop :=
  ∀ xuid, request.chainXuid = some xuid → Identity.isXuid xuid = true

/-- A chain that was not verified does not hide a valid XUID of the token in one request
alone. -/
def HiddenAlike (request request' : ConnectionRequest) : VerificationStatus → Prop
  | .Online =>
    Identity.isXuid request.mLoginToken.mPayload.xid = true →
      (request.ChainXuidValid ↔ request'.ChainXuidValid)
  | _ => True

/-- A text is a XUID if it looks like one. -/
theorem asXuid_eq_some {xuid xuid' : Bytes} :
    asXuid xuid = some xuid' ↔ xuid = xuid' ∧ Identity.isXuid xuid = true := by
  unfold asXuid
  split <;> simp_all

/-- A text that does not look like a XUID is none. -/
theorem asXuid_eq_none {xuid : Bytes} : asXuid xuid = none ↔ Identity.isXuid xuid = false := by
  unfold asXuid
  split <;> simp_all

/-- What is reported where the token was verified as Mojang's. -/
theorem getXboxLiveID_online (h : ∃ raw, fromString J raw = .ok request)
    (htoken : tokenIsOnline request.mLoginToken = true) (hother : request.NoOtherXuid .Online) :
    (request.ChainXuidValid ∧
      request.getXboxLiveID = some (asXuid request.mLoginToken.mPayload.xid)) ∨
    (¬ request.ChainXuidValid ∧ request.getXboxLiveID = some none) := by
  rw [getXboxLiveID_eq h, if_pos htoken]
  cases hxuid : request.chainXuid with
  | none =>
    left
    exact ⟨fun xuid h => absurd (hxuid.symm.trans h) (by simp), rfl⟩
  -- a valid XUID of the chain is the token's
  | some xuid =>
    cases hvalid : Identity.isXuid xuid with
    | true =>
      left
      have heq := hother xuid hxuid hvalid
      refine ⟨fun xuid' h => ?_, by rw [heq]⟩
      rw [← Option.some.inj (hxuid.symm.trans h), hvalid]
    -- a text in the chain that is no XUID hides the token's
    | false =>
      right
      refine ⟨fun h => ?_, congrArg some (asXuid_eq_none.mpr hvalid)⟩
      rw [h xuid hxuid] at hvalid
      exact absurd hvalid (by simp)

/-! The kind of the credential, by the status. -/

/-- A request that is accepted online has an online token. -/
theorem Accepted.online (h : request.Accepted J S .Online) :
    tokenIsOnline request.mLoginToken = true := by
  obtain ⟨c, hc, hstatus⟩ := h.credential_status
  cases hc
  simpa [Credential.status] using hstatus

/-- A request that is accepted as self-signed has no online token. -/
theorem Accepted.selfSigned (h : request.Accepted J S .SelfSigned) :
    tokenIsOnline request.mLoginToken = false := by
  obtain ⟨c, hc, hstatus⟩ := h.credential_status
  cases hc
  simpa [Credential.status] using hstatus

/-- A request that is accepted by its chain has the XUID of the chain. -/
theorem Accepted.legacyOnline (h : request.Accepted J S .LegacyOnline_Deprecated) :
    ∃ xuid, request.chainXuid = some xuid ∧
      request.credentialXuid .LegacyOnline_Deprecated = some xuid := by
  obtain ⟨raw, hraw⟩ := h.1
  obtain ⟨c, hc, hstatus⟩ := h.credential_status
  obtain ⟨chain, hchain, rfl⟩ := Option.map_eq_some_iff.mp hc
  obtain ⟨extraData, hextraData⟩ := Option.isSome_iff_exists.mp (fromString_extraData hraw hchain)
  have honline : chain.isOnline = true := by simpa [Credential.status] using hstatus
  refine ⟨extraData.XUID, ?_, ?_⟩
  · simp [chainXuid, hchain, honline, LegacyCertificateChain.XUID, hextraData]
  · simp [credentialXuid, hchain, LegacyCertificateChain.XUID, hextraData]

/-- A chain that is accepted as self-signed has no XUID. -/
theorem Accepted.legacySelfSigned (h : request.Accepted J S .LegacySelfSigned_Deprecated) :
    request.chainXuid = none := by
  obtain ⟨c, hc, hstatus⟩ := h.credential_status
  obtain ⟨chain, hchain, rfl⟩ := Option.map_eq_some_iff.mp hc
  have honline : chain.isOnline = false := by simpa [Credential.status] using hstatus
  simp [chainXuid, hchain, honline]

/-- What `getXboxLiveID` reports is of the verified credential under the condition on the
other one. -/
theorem reportsVerified_noOther (h : request.Accepted J S status) :
    request.ReportsVerified status ↔ request.NoOtherXuid status := by
  have hid := getXboxLiveID_eq h.1
  cases status with
  | Online =>
    constructor
    · rintro hreports xuid hxuid hvalid
      rw [ReportsVerified, hid, hxuid] at hreports
      rcases hreports with hnone | ⟨xuid', hxuid', hsome⟩
      · -- nothing is reported though the chain has a valid XUID
        rw [asXuid_eq_none.mp (Option.some.inj hnone)] at hvalid
        exact absurd hvalid (by simp)
      · rw [(asXuid_eq_some.mp (Option.some.inj hsome)).1]
        exact (Option.some.inj hxuid').symm
    · intro hother
      rcases getXboxLiveID_online h.1 h.online hother with ⟨-, hget⟩ | ⟨-, hget⟩
      · cases hxid : asXuid request.mLoginToken.mPayload.xid with
        | none => exact .inl (hget.trans (congrArg some hxid))
        | some xid =>
          refine .inr ⟨xid, ?_, hget.trans (congrArg some hxid)⟩
          exact congrArg some (asXuid_eq_some.mp hxid).1
      · exact .inl hget
  | SelfSigned =>
    rw [h.selfSigned] at hid
    simp only [ReportsVerified, hid, credentialXuid, NoOtherXuid]
    cases hxuid : request.chainXuid with
    | none => simp
    | some xuid => simp [asXuid_eq_none]
  | LegacyOnline_Deprecated =>
    -- the chain's XUID is the one that is reported
    obtain ⟨xuid, hxuid, hcredential⟩ := h.legacyOnline
    rw [hxuid] at hid
    refine ⟨fun _ => trivial, fun _ => ?_⟩
    cases hvalid : asXuid xuid with
    | none => exact .inl (hid.trans (congrArg some hvalid))
    | some xuid' =>
      refine .inr ⟨xuid', ?_, hid.trans (congrArg some hvalid)⟩
      rw [hcredential, (asXuid_eq_some.mp hvalid).1]
  | LegacySelfSigned_Deprecated =>
    rw [h.legacySelfSigned] at hid
    simp only [ReportsVerified, hid, credentialXuid, NoOtherXuid]
    cases tokenIsOnline request.mLoginToken <;> simp [asXuid_eq_none]

/-- The identity depends on the XUID and the properties alone. -/
theorem getIdentity_congr {md5 : Bytes → Option Bytes}
    (hid : request.getXboxLiveID = request'.getXboxLiveID)
    (hproperties : request.mClientProperties = request'.mClientProperties) :
    request.getIdentity md5 = request'.getIdentity md5 := by
  rw [getIdentity, getIdentity, hid, hproperties]

/-- A request that reports what was verified reports no XUID if none was. -/
theorem getXboxLiveID_none (h : request.ReportsVerified status)
    (hnone : request.credentialXuid status = none) : request.getXboxLiveID = some none := by
  rcases h with h | ⟨xuid, hxuid, -⟩
  · exact h
  · exact absurd (hnone.symm.trans hxuid) (by simp)

/-- Two requests that report what was verified report the same, if what is hidden is. -/
theorem sameXboxLiveID_iff (h : request.Accepted J S status) (h' : request'.Accepted J S status)
    (hcredential : request.credential status = request'.credential status)
    (hother : request.NoOtherXuid status) (hother' : request'.NoOtherXuid status) :
    request.getXboxLiveID = request'.getXboxLiveID ↔ request.HiddenAlike request' status := by
  have hreports := (reportsVerified_noOther h).mpr hother
  have hreports' := (reportsVerified_noOther h').mpr hother'
  cases status with
  | Online =>
    -- the tokens are the credentials that were verified
    have htoken : request.mLoginToken = request'.mLoginToken := by
      simpa [credential] using hcredential
    have hget := getXboxLiveID_online h.1 h.online hother
    have hget' := getXboxLiveID_online h'.1 h'.online hother'
    rw [← htoken] at hget'
    simp only [HiddenAlike]
    cases hvalid : Identity.isXuid request.mLoginToken.mPayload.xid with
    | false =>
      rw [asXuid_eq_none.mpr hvalid] at hget hget'
      -- without a valid XUID in the token nothing is reported
      have hnone : request.getXboxLiveID = some none := hget.elim And.right And.right
      have hnone' : request'.getXboxLiveID = some none := hget'.elim And.right And.right
      simp [hnone, hnone']
    | true =>
      rw [asXuid_eq_some.mpr ⟨rfl, hvalid⟩] at hget hget'
      -- the token's XUID is reported, or hidden by the chain
      rcases hget with ⟨hv, hget⟩ | ⟨hv, hget⟩ <;> rcases hget' with ⟨hv', hget'⟩ | ⟨hv', hget'⟩ <;>
        simp [hget, hget', hv, hv']
  | SelfSigned =>
    refine ⟨fun _ => trivial, fun _ => ?_⟩
    rw [getXboxLiveID_none hreports rfl, getXboxLiveID_none hreports' rfl]
  | LegacyOnline_Deprecated =>
    have hchain : request.chainXuid = request'.chainXuid := by
      -- the chains are the credentials
      have hmap := Option.map_injective (fun _ _ heq => Credential.chain.inj heq) hcredential
      rw [chainXuid, chainXuid, hmap]
    obtain ⟨xuid, hxuid, -⟩ := h.legacyOnline
    refine ⟨fun _ => trivial, fun _ => ?_⟩
    rw [getXboxLiveID_eq h.1, getXboxLiveID_eq h'.1, ← hchain, hxuid]
  | LegacySelfSigned_Deprecated =>
    refine ⟨fun _ => trivial, fun _ => ?_⟩
    rw [getXboxLiveID_none hreports rfl, getXboxLiveID_none hreports' rfl]

/-! ### The client's key -/

/-- The key the client properties are verified under. -/
def propertiesKey (request : ConnectionRequest) : VerificationStatus → Option Bytes
  | .Online | .SelfSigned => some request.mLoginToken.mPayload.cpk
  | .LegacyOnline_Deprecated | .LegacySelfSigned_Deprecated =>
    request.mLegacyCertificateChain.map fun chain => chain.mLoginCertificate.mHeader.x5u

/-- The client's key that the verified credential certifies. -/
def certifiedKey (request : ConnectionRequest) : VerificationStatus → Option Bytes
  | .Online | .SelfSigned => some request.mLoginToken.mPayload.cpk
  | .LegacyOnline_Deprecated | .LegacySelfSigned_Deprecated =>
    request.mLegacyCertificateChain.map fun chain =>
      chain.mLoginCertificate.mPayload.identityPublicKey

/-- The properties are verified under the certified key, and it is the client's. -/
def KeyBound (request : ConnectionRequest) (status : VerificationStatus) : Prop :=
  ∃ key, request.certifiedKey status = some key ∧ request.propertiesKey status = some key ∧
    request.getClientPublicKey = key

/-- The properties name the key of the token, or that of the login certificate, which an
online chain need not have been signed with. -/
def KeysLinked (request : ConnectionRequest) : VerificationStatus → Prop
  | .Online | .SelfSigned => request.mClientProperties.mHeader.x5u =
      request.mLoginToken.mPayload.cpk
  | .LegacyOnline_Deprecated =>
    ∀ chain, request.mLegacyCertificateChain = some chain →
      request.mClientProperties.mHeader.x5u = chain.mLoginCertificate.mPayload.identityPublicKey ∧
        chain.mLoginCertificate.mHeader.x5u = chain.mLoginCertificate.mPayload.identityPublicKey
  | .LegacySelfSigned_Deprecated =>
    ∀ chain, request.mLegacyCertificateChain = some chain →
      request.mClientProperties.mHeader.x5u = chain.mLoginCertificate.mPayload.identityPublicKey

/-- The properties of an accepted request are verified under some key. -/
theorem Accepted.propertiesKey_verified (h : request.Accepted J S status) :
    ∃ key, request.propertiesKey status = some key ∧ request.mClientProperties.verify S key =
      .ok () := by
  obtain ⟨-, keys, clock, onlineMode, allowLegacy, h⟩ := h
  have hverified := verify_ok h
  cases status with
  | Online => exact ⟨_, rfl, hverified.2⟩
  | SelfSigned => exact ⟨_, rfl, hverified.2⟩
  | LegacyOnline_Deprecated =>
    obtain ⟨chain, hchain, -, hproperties⟩ := hverified
    exact ⟨_, by rw [propertiesKey, hchain, Option.map_some], hproperties⟩
  | LegacySelfSigned_Deprecated =>
    obtain ⟨chain, hchain, -, hproperties⟩ := hverified
    exact ⟨_, by rw [propertiesKey, hchain, Option.map_some], hproperties⟩

/-- The key is bound if it is the certified one, in the properties and for their signature. -/
theorem keyBound_iff {key certified : Bytes} (hproperties : request.propertiesKey status = some key)
    (hcertified : request.certifiedKey status = some certified) :
    request.KeyBound status ↔
      request.mClientProperties.mHeader.x5u = certified ∧ key = certified := by
  simp only [KeyBound, hproperties, hcertified, Option.some.injEq, getClientPublicKey]
  constructor
  · rintro ⟨-, rfl, rfl, rfl⟩
    exact ⟨rfl, rfl⟩
  · rintro ⟨hkey, rfl⟩
    exact ⟨key, rfl, rfl, hkey⟩

/-! ### A self-signed request with a forged chain and a foreign key -/

namespace Forged

def keyPair : PemKeyPair := ⟨literal "K", literal "K"⟩

def unsignedToken : LoginToken :=
  { mPayload :=
      { aud := LoginToken.audience
        leguuid := some []
        nid := some []
        nname := some []
        pid := some []
        pname := some [] } }

def signedToken : LoginToken :=
  (unsignedToken.selfSign compact echo.jose keyPair 0).toOption.getD {}

/-- Properties that are signed with the client's key and name `x5u`. -/
def properties (x5u : Bytes) : ClientProperties :=
  (ClientProperties.sign compact {} echo.jose ⟨x5u, literal "K"⟩).toOption.getD {}

def unsignedCertificate : Certificate :=
  { mHeader := { x5t := some [] }
    mPayload :=
      { certificateAuthority := some true
        randomNonce := some 0
        iss := some (literal "Mojang")
        iat := some 0
        extraData := some { XUID := literal "2535412345678901" } } }

/-- A certificate that the client signed itself. -/
def certificate : Certificate :=
  (unsignedCertificate.sign compact echo.jose (literal "K") 0).getD {}

def chain : LegacyCertificateChain := ⟨some certificate, some certificate, certificate⟩

/-- The one digest that is asked for. -/
def md5 (input : Bytes) : Option Bytes :=
  if input = literal "pocket-auth-1-xuid:2535412345678901" then
    some [111, 144, 39, 27, 249, 224, 157, 89, 112, 87, 20, 7, 107, 52, 219, 99]
  else none

def login (chain : Option LegacyCertificateChain) (x5u : Bytes) : ConnectionRequest :=
  ⟨.SelfSigned, chain, LoginToken.signedFields signedToken, properties x5u⟩

/-- The token is signed. -/
theorem signedToken_eq : unsignedToken.selfSign compact echo.jose keyPair 0 = .ok signedToken := by
  have hsome : ∃ token, unsignedToken.selfSign compact echo.jose keyPair 0 = .ok token :=
    LoginToken.selfSign_isOk rfl rfl rfl rfl rfl fun _ => rfl
  obtain ⟨token, htoken⟩ := hsome
  rw [signedToken, htoken]
  rfl

/-- The properties are signed. -/
theorem properties_eq (x5u : Bytes) :
    ClientProperties.sign compact {} echo.jose ⟨x5u, literal "K"⟩ = .ok (properties x5u) := by
  have hsome : ∃ p, ClientProperties.sign compact {} echo.jose ⟨x5u, literal "K"⟩ = .ok p :=
    ClientProperties.sign_isOk fun _ => rfl
  obtain ⟨p, hp⟩ := hsome
  rw [properties, hp]
  rfl

/-- The certificate is signed. -/
theorem certificate_eq :
    unsignedCertificate.sign compact echo.jose (literal "K") 0 = some certificate := by
  obtain ⟨c, hc⟩ : ∃ c, unsignedCertificate.sign compact echo.jose (literal "K") 0 = some c :=
    Certificate.sign_isSome fun _ => rfl
  rw [certificate, hc]
  rfl

/-- The chain is read back. -/
theorem chain_read :
    LegacyCertificateChain.fromString compact (chain.toString compact) = .ok chain := by
  obtain ⟨hheader, -, hpayload, -⟩ := Certificate.sign_some certificate_eq
  have hparse : ∀ part, LegacyCertificateChain.parseCertificate compact part
      (compact.string certificate.toString) = .ok certificate := fun part =>
    LegacyCertificateChain.parseCertificate_string compact_lawful
      (Certificate.fromString_sign compact_lawful certificate_eq)
  rw [LegacyCertificateChain.fromString_toString compact_lawful]
  simp only [LegacyCertificateChain.certificates, chain, Option.toList_some, List.map_cons,
    List.map_nil, List.cons_append, List.nil_append, LegacyCertificateChain.parseChain, hparse,
    hheader, hpayload, unsignedCertificate, Option.map_some, checkField, bind, Except.bind, pure,
    Except.pure]

/-- A login whose parts are read back is accepted as self-signed. -/
theorem accepted {chain : Option LegacyCertificateChain} {x5u : Bytes}
    (hchain : createChain compact (chain.map (·.toString compact)) = .ok chain)
    (hauth : ((login chain x5u).authJsonStr compact).length < 2 ^ 31)
    (hproperties : (properties x5u).toString.length < 2 ^ 31) :
    (login chain x5u).Accepted compact echo.signatures .SelfSigned := by
  have hkey : pem_helper.stripPemMarkersAndCompact (literal "K") = literal "K" := by decide
  obtain ⟨hheader, hpayload⟩ := LoginToken.selfSign_fields signedToken_eq
  have htokenSigned := echo_verify (LoginToken.selfSign_ok signedToken_eq).2.2
  have hpropertiesSigned := echo_verify (ClientProperties.sign_ok (properties_eq x5u)).2.2.2.2
  -- the text of the token is read as the token that was signed
  have htoken : LoginToken.fromString compact (LoginToken.signedFields signedToken).toString
      = .ok (LoginToken.signedFields signedToken) := by
    rw [LoginToken.toString_signedFields,
      LoginToken.fromString_selfSign compact_lawful signedToken_eq]
  have hnotEmpty : (LoginToken.signedFields signedToken).isEmpty = false := by
    rw [LoginToken.isEmpty_signedFields,
      LoginToken.selfSign_not_empty compact_lawful signedToken_eq]
  refine ⟨⟨_, fromString_toString compact_lawful rfl hchain htoken ?_
    (ClientProperties.fromString_sign compact_lawful (properties_eq x5u)) hauth hproperties⟩,
    {}, ⟨0, 0, 0, 0⟩, false, false, ?_⟩
  · rintro ⟨-, hempty⟩
    exact absurd (hempty.symm.trans hnotEmpty) (by simp)
  · apply verify_selfSigned
    · show signedToken.mHeader.alg ≠ literal "RS256"
      rw [hheader]
      decide
    · exact LoginToken.verifySelfSigned_selfSign compact_lawful signedToken_eq
        (by decide) rfl rfl rfl rfl rfl
        rfl (by rw [keyPair, hkey]; exact htokenSigned)
    · show (properties x5u).verify echo.signatures signedToken.mPayload.cpk = .ok ()
      rw [hpayload, ClientProperties.verify]
      simp only [keyPair, hkey, hpropertiesSigned, failIf_eq_ok, Bool.true_eq_false,
        not_false_eq_true]
    · exact fun h => absurd h (by simp)

/-- The properties are not part of the authentication text. -/
theorem auth_none_short (x5u : Bytes) : ((login none x5u).authJsonStr compact).length < 2 ^ 31 := by
  have hshort : ((login none []).authJsonStr compact).length < 2 ^ 31 := by decide +kernel
  exact hshort

/-- The properties are short enough for a string. -/
theorem properties_short : (properties (literal "K")).toString.length < 2 ^ 31 := by decide +kernel

/-- The login with a chain is accepted. -/
theorem accepted_chain :
    (login (some chain) (literal "K")).Accepted compact echo.signatures .SelfSigned :=
  accepted (createChain_toString compact_lawful chain_read) (by decide +kernel) properties_short

/-- The login without a chain is accepted. -/
theorem accepted_none : (login none (literal "K")).Accepted compact echo.signatures .SelfSigned :=
  accepted rfl (auth_none_short _) properties_short

/-- The login with properties of another key is accepted. -/
theorem accepted_foreign :
    (login none (literal "OTHER")).Accepted compact echo.signatures .SelfSigned :=
  accepted rfl (auth_none_short _) (by decide +kernel)

/-- The chain has a XUID. -/
theorem chainXuid_chain :
    (login (some chain) (literal "K")).chainXuid = some (literal "2535412345678901") := by
  have hpayload := (Certificate.sign_some certificate_eq).2.2.1
  simp [login, chainXuid, chain, LegacyCertificateChain.isOnline, LegacyCertificateChain.XUID,
    hpayload, unsignedCertificate]

end Forged

/-! ### The conditions -/

/-- **What the accessors report.** For two accepted requests with the same verified credential
and the same client properties, `getXboxLiveID` reports only what was verified, and the
XUIDs and the identities are the same, exactly when the other credential has no XUID of its
own in either and does not hide that of the token in one alone. -/
theorem reportsVerified_iff (md5 : Bytes → Option Bytes) (h : request.Accepted J S status)
    (h' : request'.Accepted J S status')
    (hcredential : request.credential status = request'.credential status')
    (hproperties : request.mClientProperties = request'.mClientProperties) :
    (request.ReportsVerified status ∧ request'.ReportsVerified status' ∧
        request.getXboxLiveID = request'.getXboxLiveID ∧
        request.getIdentity md5 = request'.getIdentity md5) ↔
      request.NoOtherXuid status ∧ request'.NoOtherXuid status' ∧
      request.HiddenAlike request' status := by
  obtain rfl := h.status_eq h' hcredential
  rw [reportsVerified_noOther h, reportsVerified_noOther h']
  constructor
  · rintro ⟨hother, hother', hid, -⟩
    exact ⟨hother, hother', (sameXboxLiveID_iff h h' hcredential hother hother').mp hid⟩
  · rintro ⟨hother, hother', hhidden⟩
    have hid := (sameXboxLiveID_iff h h' hcredential hother hother').mpr hhidden
    exact ⟨hother, hother', hid, getIdentity_congr hid hproperties⟩

open Forged in
/-- The condition tells the login with a chain from the one without. -/
theorem reportsVerified_iff_forged :
    ((login (some chain) (literal "K")).ReportsVerified .SelfSigned ∧
        (login none (literal "K")).ReportsVerified .SelfSigned ∧
        (login (some chain) (literal "K")).getXboxLiveID =
        (login none (literal "K")).getXboxLiveID ∧
        (login (some chain) (literal "K")).getIdentity md5 =
        (login none (literal "K")).getIdentity md5) ↔
      (login (some chain) (literal "K")).NoOtherXuid .SelfSigned ∧
        (login none (literal "K")).NoOtherXuid .SelfSigned ∧
        (login (some chain) (literal "K")).HiddenAlike (login none (literal "K")) .SelfSigned :=
  reportsVerified_iff md5 accepted_chain accepted_none rfl rfl

open Forged in
/-- **A forged chain is reported.** Of two requests with the same self-signed token, the one
with a chain that was not verified has the XUID in that chain. -/
theorem forged_chain_reported :
    (login (some chain) (literal "K")).Accepted compact echo.signatures .SelfSigned ∧
      (login none (literal "K")).Accepted compact echo.signatures .SelfSigned ∧
      (login (some chain) (literal "K")).credential .SelfSigned
        = (login none (literal "K")).credential .SelfSigned ∧
      (login (some chain) (literal "K")).mClientProperties
        = (login none (literal "K")).mClientProperties ∧
      (login (some chain) (literal "K")).getXboxLiveID = some (some (literal "2535412345678901")) ∧
      ¬ (login (some chain) (literal "K")).ReportsVerified .SelfSigned ∧
      (login none (literal "K")).getXboxLiveID = some none := by
  have hvalid : Identity.isXuid (literal "2535412345678901") = true := by decide +kernel
  have hget := getXboxLiveID_eq accepted_chain.1
  have hget' := getXboxLiveID_eq accepted_none.1
  simp only [chainXuid_chain, asXuid_eq_some.mpr ⟨rfl, hvalid⟩] at hget
  have hnone : (login none (literal "K")).chainXuid = none := rfl
  simp only [hnone, accepted_none.selfSigned, Bool.false_eq_true, if_false] at hget'
  refine ⟨accepted_chain, accepted_none, rfl, rfl, hget, fun h => ?_, hget'⟩
  have := getXboxLiveID_none h rfl
  rw [hget] at this
  exact absurd this (by simp)

/-- **Which keys are bound.** The properties of an accepted request were verified under
`propertiesKey`. That is the certified key, and the one `getClientPublicKey` returns,
exactly when the properties name it and, on an online chain, the login certificate does. -/
theorem boundKey_iff (h : request.Accepted J S status) :
    (∃ key, request.propertiesKey status = some key ∧
      request.mClientProperties.verify S key = .ok ()) ∧
      (request.KeyBound status ↔ request.KeysLinked status) := by
  refine ⟨h.propertiesKey_verified, ?_⟩
  obtain ⟨-, keys, clock, onlineMode, allowLegacy, h⟩ := h
  have hverified := verify_ok h
  cases status with
  | Online =>
    have hbound : request.KeyBound .Online ↔ _ := keyBound_iff rfl rfl
    simp [hbound, KeysLinked]
  | SelfSigned =>
    have hbound : request.KeyBound .SelfSigned ↔ _ := keyBound_iff rfl rfl
    simp [hbound, KeysLinked]
  | LegacyOnline_Deprecated =>
    obtain ⟨chain, hchain, -⟩ := hverified
    rw [keyBound_iff (by rw [propertiesKey, hchain, Option.map_some])
      (by rw [certifiedKey, hchain, Option.map_some])]
    simp [KeysLinked, hchain]
  | LegacySelfSigned_Deprecated =>
    obtain ⟨chain, hchain, hchainVerified, -⟩ := hverified
    -- a self-signed certificate is checked to be signed with the key it certifies
    have hsame := LegacyCertificateChain.verifySelfSigned_key hchainVerified
    rw [keyBound_iff (by rw [propertiesKey, hchain, Option.map_some])
      (by rw [certifiedKey, hchain, Option.map_some])]
    simp [KeysLinked, hchain, hsame]

open Forged in
/-- The properties of another key are accepted, and the condition tells them. -/
theorem boundKey_iff_foreign :
    (∃ key, (login none (literal "OTHER")).propertiesKey .SelfSigned = some key ∧
        (login none (literal "OTHER")).mClientProperties.verify echo.signatures key = .ok ()) ∧
      ((login none (literal "OTHER")).KeyBound .SelfSigned ↔
        (login none (literal "OTHER")).KeysLinked .SelfSigned) :=
  boundKey_iff accepted_foreign

open Forged in
/-- **A foreign key is returned**: the properties are signed with the key of the token, and
name another. -/
theorem foreign_key_returned :
    (login none (literal "OTHER")).Accepted compact echo.signatures .SelfSigned ∧
      (login none (literal "OTHER")).certifiedKey .SelfSigned = some (literal "K") ∧
      (login none (literal "OTHER")).getClientPublicKey = literal "OTHER" ∧
      ¬ (login none (literal "OTHER")).KeyBound .SelfSigned := by
  have hcpk : signedToken.mPayload.cpk = literal "K" := by
    rw [(LoginToken.selfSign_fields signedToken_eq).2]
    decide
  -- no check compares this with the key that has signed
  have hx5u : (properties (literal "OTHER")).mHeader.x5u = literal "OTHER" := by
    rw [(ClientProperties.sign_ok (properties_eq (literal "OTHER"))).1]
    decide
  have hcertified : (login none (literal "OTHER")).certifiedKey .SelfSigned = some (literal "K") :=
    congrArg some hcpk
  have hreturned : (login none (literal "OTHER")).getClientPublicKey = literal "OTHER" := hx5u
  refine ⟨accepted_foreign, hcertified, hreturned, ?_⟩
  rintro ⟨key, hkey, -, hclient⟩
  rw [hcertified] at hkey
  cases hkey
  rw [hreturned] at hclient
  exact absurd hclient (by decide)

end ConnectionRequest
end SculkProtocol
