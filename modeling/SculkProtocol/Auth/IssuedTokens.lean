import SculkProtocol.Ssl.Rsa

/-!
# Tokens of the issuer

A server refreshes its keys (`AuthenticationKeyManager.initMojangPublicKeyFromNetwork`) and verifies
login tokens under them. After a refresh whose responses were all usable (`Refreshed`) the keys that
count are those of the response, of two with one id the first. `issued_tokens_accepted` brings this
together with the reading of a published key: a token that names such a key is accepted if and only
if it says what the responses ask for (`LoginToken.IssuedFor`) and the key verifies it, as it does
what its owner has signed.
-/

namespace SculkProtocol

open rs256

namespace AuthenticationKeyManager

variable {J : Jsonc} {network : Network J} {keys : AuthenticationKeyManager}
  {service : MojangServiceFetchResult}
  {keyInfos : List KeyInfo} {config : MojangConfigFetchResult}

/-- The responses to the three requests are usable, and so is every key for signatures. -/
structure Refreshed (network : Network J) (service : MojangServiceFetchResult)
    (keyInfos : List KeyInfo)
    (config : MojangConfigFetchResult) : Prop where
  service_ok : fetchService network = .ok service
  keys_ok : fetchKeys network service.serviceUri = .ok keyInfos
  config_ok : fetchConfig network service.serviceUri = .ok config
  converted : ∀ keyInfo ∈ keyInfos, keyInfo.isSignatureKey = true →
    (pem network keyInfo).isSome = true

/-- The first key for signatures with this id. -/
def firstKey (keyInfos : List KeyInfo) (keyId : Bytes) : Option KeyInfo :=
  (keyInfos.filter KeyInfo.isSignatureKey).find? fun keyInfo => keyId == keyInfo.kid

/-- All three responses are assigned. -/
theorem Refreshed.init (h : Refreshed network service keyInfos config)
    (keys : AuthenticationKeyManager) :
    initMojangPublicKeyFromNetwork network keys =
      (.ok (), { keys with
        mExpectedPlayFabTitle := service.playfabTitleId
        mPublicKeysPemByKeyId := (emplaceKeys network keyInfos []).2
        mExpectedIssuer := config.issuer }) := by
  have hconverted := (emplaceKeys_isOk network []).mpr h.converted
  rw [initMojangPublicKeyFromNetwork, h.service_ok]
  simp only [h.keys_ok]
  cases hstatus : (emplaceKeys network keyInfos []).1 with
  | error e =>
    rw [hstatus] at hconverted
    cases hconverted
  | ok _ => simp only [h.config_ok]

/-- The keys of the response are found by their ids. -/
theorem Refreshed.getPublicKeyPemByKeyId (h : Refreshed network service keyInfos config)
    (keys : AuthenticationKeyManager) (keyId : Bytes) :
    (initMojangPublicKeyFromNetwork network keys).2.getPublicKeyPemByKeyId keyId =
      (firstKey keyInfos keyId).bind (pem network) := by
  have hall : convertedKeys network keyInfos = keyInfos.filter KeyInfo.isSignatureKey := by
    rw [convertedKeys, List.takeWhile_eq_self_iff]
    intro keyInfo hkeyInfo
    obtain ⟨hmem, hsignature⟩ := List.mem_filter.mp hkeyInfo
    exact h.converted keyInfo hmem hsignature
  calc (initMojangPublicKeyFromNetwork network keys).2.getPublicKeyPemByKeyId keyId
      = (emplaceKeys network keyInfos []).2.lookup keyId := by rw [h.init keys]; rfl
    _ = convertedPem network keyInfos keyId :=
      (lookup_emplaceKeys network keyInfos [] keyId).trans Option.none_or
    _ = (firstKey keyInfos keyId).bind (pem network) := by rw [convertedPem, hall, firstKey]

end AuthenticationKeyManager

namespace LoginToken

open Certificate (signingInput)

/-- What a token has to say to be accepted as one of this issuer, for this title, at this time. -/
structure IssuedFor (token : LoginToken) (title issuer : Bytes) (leeway : ℤ) (now : TimePoint) :
    Prop where
  exp : TimePoint.seconds (now - seconds leeway) ≤ token.mPayload.exp
  aud : token.mPayload.aud = audience
  alg : token.mHeader.alg = literal "RS256"
  typ : token.mHeader.typ = some (literal "JWT")
  sub : token.mPayload.sub.isSome = true
  ipt : token.mPayload.ipt.isSome = true
  iat : ∃ iat, token.mPayload.iat = some iat ∧ iat ≤ TimePoint.seconds (now + seconds leeway)
  tid : token.mPayload.tid = some title
  pfcd : token.mPayload.pfcd.isSome = true
  iss : token.mPayload.iss = some issuer

/-- **A token is accepted** for what it says and for its signature. -/
theorem verifyOnline_iff (S : Signatures) (token : LoginToken) (keys : AuthenticationKeyManager)
    (now : TimePoint) :
    token.verifyOnline S keys now = .ok () ↔
      token.isEmpty = false ∧
      token.IssuedFor keys.mExpectedPlayFabTitle keys.mExpectedIssuer keys.mLeeway now ∧
      ∃ kid publicKey, token.mHeader.kid = some kid ∧ keys.getPublicKeyPemByKeyId kid =
        some publicKey ∧
        S.verifyRS256Signature (signingInput token.mRawHeader token.mRawPayload) token.mSignature
          publicKey = true := by
  simp only [verifyOnline, failIf_bind_eq_ok, checkField_bind_eq_ok, failIf_eq_ok, Int.not_lt,
    gt_iff_lt, ne_eq, not_not, Bool.not_eq_true, Bool.not_eq_false]
  constructor
  · rintro ⟨hempty, hexp, haud, halg, kid, hkid, htyp, sub, hsub, ipt, hipt, iat, hiat, hlate, tid,
      htid, rfl, pfcd, hpfcd, iss, hiss, rfl, publicKey, hpublicKey, hverify⟩
    refine ⟨hempty, ?_, kid, publicKey, hkid, hpublicKey, hverify⟩
    exact ⟨hexp, haud, halg, htyp, Option.isSome_of_eq_some hsub, Option.isSome_of_eq_some hipt,
      ⟨iat, hiat, hlate⟩, htid, Option.isSome_of_eq_some hpfcd, hiss⟩
  · rintro ⟨hempty, h, kid, publicKey, hkid, hpublicKey, hverify⟩
    obtain ⟨sub, hsub⟩ := Option.isSome_iff_exists.mp h.sub
    obtain ⟨ipt, hipt⟩ := Option.isSome_iff_exists.mp h.ipt
    obtain ⟨iat, hiat, hlate⟩ := h.iat
    obtain ⟨pfcd, hpfcd⟩ := Option.isSome_iff_exists.mp h.pfcd
    exact ⟨hempty, h.exp, h.aud, h.alg, kid, hkid, h.typ, sub, hsub, ipt, hipt, iat, hiat, hlate, _,
      h.tid, rfl, pfcd, hpfcd, _, h.iss, rfl, publicKey, hpublicKey, hverify⟩

/-- A token with a signature is not empty. -/
theorem isEmpty_of_verifies {R : OpensslRsa} {publicKey : R.PKey} {input : Bytes}
    {token : LoginToken}
    (h : R.Verifies publicKey input token.mSignature) : token.isEmpty = false := by
  obtain ⟨-, raw, hraw, -⟩ := h
  have hne : token.mSignature ≠ [] := base64url.decodeChecked_ne_nil hraw
  rw [isEmpty, Bool.and_eq_false_iff]
  exact .inr (by rwa [Bool.eq_false_iff, ne_eq, List.isEmpty_iff])

/-- **The tokens of the issuer are accepted, and no others** that name its key. -/
theorem issued_tokens_accepted {J : Jsonc} {network : Network J} {keys : AuthenticationKeyManager}
    {service : MojangServiceFetchResult} {keyInfos : List KeyInfo}
    {config : MojangConfigFetchResult} {S : Signatures}
    {R : OpensslRsa} {publicKey : R.PKey} {modulus exponent privateKeyPem kid x5t : Bytes}
    (hR : R.Lawful)
    (hnetwork : network.rsaPublicKeyToPem = rsaPublicKeyToPem R)
    (hS : S.verifyRS256Signature = verifyRS256Signature R)
    (hrefreshed : AuthenticationKeyManager.Refreshed network service keyInfos config)
    (hkey : AuthenticationKeyManager.firstKey keyInfos kid =
      some ⟨literal "RSA", literal "sig", kid, x5t, base64url.encode modulus,
        base64url.encode exponent⟩)
    (hpublished : R.Published publicKey modulus exponent)
    (hpair : R.IsKeyPair publicKey privateKeyPem) :
    (AuthenticationKeyManager.initMojangPublicKeyFromNetwork network keys).1 = .ok () ∧
    ∀ (token : LoginToken) (now : TimePoint), token.mHeader.kid = some kid →
      (token.verifyOnline S (AuthenticationKeyManager.initMojangPublicKeyFromNetwork network keys).2
        now = .ok () ↔
        token.IssuedFor service.playfabTitleId config.issuer keys.mLeeway now ∧
        R.Verifies publicKey (signingInput token.mRawHeader token.mRawPayload) token.mSignature) ∧
      (signRS256Signature R (signingInput token.mRawHeader token.mRawPayload) privateKeyPem =
        some token.mSignature →
        R.Verifies publicKey (signingInput token.mRawHeader token.mRawPayload)
          token.mSignature) := by
  have hpem := hrefreshed.getPublicKeyPemByKeyId keys kid
  have hmem := List.mem_filter.mp (List.mem_of_find?_eq_some hkey)
  obtain ⟨pem, hconverted⟩ := Option.isSome_iff_exists.mp (hrefreshed.converted _ hmem.1 hmem.2)
  rw [hkey, Option.bind_some, hconverted] at hpem
  -- the text that was made of the published numbers is read as the key
  have hload : loadPublicKey R pem = some publicKey := by
    apply loadPublicKey_published hR hpublished
    rw [← hnetwork]
    exact hconverted
  rw [hrefreshed.init keys] at hpem ⊢
  refine ⟨rfl, fun token now hkid => ⟨?_, verifies_sign hpair⟩⟩
  rw [verifyOnline_iff, hS]
  constructor
  · rintro ⟨-, hissued, kid', pem', hkid', hpem', hverify⟩
    obtain rfl := Option.some.inj (hkid.symm.trans hkid')
    obtain rfl := Option.some.inj (hpem.symm.trans hpem')
    exact ⟨hissued, (verify_of_loadPublicKey hload).mp hverify⟩
  · rintro ⟨hissued, hverifies⟩
    exact ⟨isEmpty_of_verifies hverifies, hissued, kid, pem, hkid, hpem,
      (verify_of_loadPublicKey hload).mpr hverifies⟩

end LoginToken

/-! ### One key -/

namespace AuthenticationKeyManager

/-- A key set with the least key of 2048 bits. -/
def leastKeyInfo : KeyInfo where
  kty := literal "RSA"
  use := literal "sig"
  kid := literal "N"
  n := base64url.encode (bigEndian 256 leastKey.1)
  e := base64url.encode [1, 0, 1]

/-- All requests are answered. -/
def leastNetwork : Network compact where
  get _ _ := some ⟨200, literal "\x7b\x7d"⟩
  deserializeService _ := some { playfabTitleId := literal "20CA2" }
  deserializeKeys _ := some ⟨[leastKeyInfo]⟩
  deserializeConfig _ := some ⟨literal "https://authorization.franchise.minecraft-services.net/"⟩
  rsaPublicKeyToPem := rsaPublicKeyToPem sumKeys

/-- The network answers everything. -/
theorem fetch_leastNetwork {α : Type} (subject : String) (host path : Bytes)
    {deserialize : compact.Json → Option α}
    {a : α} (h : ∀ json, deserialize json = some a) :
    fetch leastNetwork subject host path deserialize = .ok a := by
  obtain ⟨json, hjson⟩ : ∃ json, compact.parse (literal "\x7b\x7d") = some json :=
    Option.isSome_iff_exists.mp (by decide +kernel)
  have hget : leastNetwork.get host path = some ⟨200, literal "\x7b\x7d"⟩ := rfl
  simp [fetch, hget, hjson, h, checkField, failIf, bind, Except.bind]

/-- The keys are refreshed from it. -/
theorem refreshed_leastNetwork :
    Refreshed leastNetwork { playfabTitleId := literal "20CA2" } [leastKeyInfo]
      ⟨literal "https://authorization.franchise.minecraft-services.net/"⟩ where
  service_ok := fetch_leastNetwork _ _ _ fun _ => rfl
  keys_ok := by
    have hfetch := fetch_leastNetwork "public key" [] (literal "/.well-known/keys")
      (fun json => (rfl : leastNetwork.deserializeKeys json = some ⟨[leastKeyInfo]⟩))
    rw [fetchKeys, hfetch]
    rfl
  config_ok := fetch_leastNetwork _ _ _ fun _ => rfl
  converted := by
    rw [List.forall_mem_singleton]
    intro _
    exact Option.isSome_of_eq_some (sumKeys.jwkRsaPublicKeyToPem_modulus leastKey (by decide))

/-- The one key is found by its id. -/
theorem firstKey_leastKeyInfo : firstKey [leastKeyInfo] (literal "N") = some leastKeyInfo := by
  have hsignature : leastKeyInfo.isSignatureKey = true := by decide
  rw [firstKey, List.filter_cons_of_pos hsignature, List.filter_nil, List.find?_cons_of_pos]
  decide

end AuthenticationKeyManager

namespace LoginToken

/-- A token that the owner of the key has signed. -/
def leastToken : LoginToken where
  mRawHeader := literal "h"
  mHeader := { alg := literal "RS256", kid := some (literal "N"), typ := some (literal "JWT") }
  mRawPayload := literal "p"
  mPayload :=
    { exp := 10, aud := audience, sub := some [], ipt := some [], iat := some 5,
        tid := some (literal "20CA2")
      pfcd := some 0,
        iss := some (literal "https://authorization.franchise.minecraft-services.net/") }
  mSignature :=
    base64url.encode (sumKeys.sign leastKey (Certificate.signingInput (literal "h") (literal "p")))

/-- A token under the key with the least modulus. -/
theorem issued_tokens_accepted_least :
    leastToken.verifyOnline ⟨fun _ _ _ => false, verifyRS256Signature sumKeys⟩
      (AuthenticationKeyManager.initMojangPublicKeyFromNetwork AuthenticationKeyManager.leastNetwork
        {}).2 7000000000 =
      .ok () := by
  have haccepted := (@issued_tokens_accepted compact AuthenticationKeyManager.leastNetwork {} _ _ _
    ⟨fun _ _ _ => false, verifyRS256Signature sumKeys⟩ sumKeys leastKey _ [1, 0, 1] _ (literal "N")
      [] sumKeys.lawful
    rfl rfl AuthenticationKeyManager.refreshed_leastNetwork
      AuthenticationKeyManager.firstKey_leastKeyInfo
    (sumKeys.published leastKey (by decide) (by decide)) (sumKeys.isKeyPair leastKey)).2 leastToken
      7000000000 rfl
  have hsign :=
    sumKeys.signRS256Signature_block leastKey (Certificate.signingInput_ne_nil (literal "h")
      (literal "p"))
  refine haccepted.1.mpr ⟨?_, haccepted.2 hsign⟩
  exact ⟨by decide, rfl, rfl, rfl, rfl, rfl, ⟨5, rfl, by decide⟩, rfl, rfl, rfl⟩

end LoginToken
end SculkProtocol
