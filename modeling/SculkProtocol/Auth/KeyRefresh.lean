import SculkProtocol.Auth.Concrete
import SculkProtocol.Auth.LoginToken

/-!
# Mojang's keys from the network

`initMojangPublicKeyFromNetwork` makes three requests: for the service, whose title it
assigns, for the keys, which it emplaces into the cleared map, and for the configuration,
whose issuer it assigns. The responses, the reflection of the JSON library and OpenSSL's
conversion of a key are parameters (`Network`).

What is assigned before a request stays when that request fails. `fetchedKeys` is what the map
holds then (`lookup_emplaceKeys`), and `initMojangPublicKeyFromNetwork_keeps_iff` says which
responses leave the manager as it was.
-/

namespace SculkProtocol

/-- `result.serviceEnvironments.auth.prod` of the service's response. -/
structure MojangServiceFetchResult where
  serviceUri : Bytes := []
  issuer : Bytes := []
  playfabTitleId : Bytes := []
  eduPlayFabTitleId : Bytes := []

structure MojangConfigFetchResult where
  issuer : Bytes := []

structure KeyInfo where
  kty : Bytes := []
  use : Bytes := []
  kid : Bytes := []
  x5t : Bytes := []
  n : Bytes := []
  e : Bytes := []

/-- `kty` and `use` are those of the keys that are loaded. -/
def KeyInfo.isSignatureKey (keyInfo : KeyInfo) : Bool :=
  keyInfo.kty == literal "RSA" && keyInfo.use == literal "sig"

structure MojangPublicKeyFetchResult where
  keys : List KeyInfo := []

/-- `httplib::Response` -/
structure HttpResponse where
  status : ℤ
  body : Bytes

/-- What is outside the manager. -/
structure Network (J : Jsonc) where
  /-- `httplib::Client(host).Get(path)`, within the timeouts -/
  get : Bytes → Bytes → Option HttpResponse
  deserializeService : J.Json → Option MojangServiceFetchResult
  deserializeKeys : J.Json → Option MojangPublicKeyFetchResult
  deserializeConfig : J.Json → Option MojangConfigFetchResult
  /-- the PEM text of the RSA key with this modulus and exponent -/
  rsaPublicKeyToPem : Bytes → Bytes → Option Bytes

namespace rs256

def jwkRsaPublicKeyToPem (rsaPublicKeyToPem : Bytes → Bytes → Option Bytes)
    (modulusEncoded exponentEncoded : Bytes) : Option Bytes := do
  let modulusDecoded ← (base64url.decodeChecked modulusEncoded).toOption
  let exponentDecoded ← (base64url.decodeChecked exponentEncoded).toOption
  rsaPublicKeyToPem modulusDecoded exponentDecoded

end rs256

namespace AuthenticationKeyManager

variable {J : Jsonc} (network : Network J)

/-! ### Requests -/

/-- A request, of which `subject` is what the errors name. -/
def fetch {α : Type} (subject : String) (host path : Bytes) (deserialize : J.Json → Option α) :
    Except String α := do
  let res ← checkField (network.get host path) ("Failed to fetch Mojang " ++ subject ++
    " from Internet")
  failIf (res.status ≠ 200) ("Failed to fetch Mojang " ++ subject ++ " from Internet")
  let json ← checkField (J.parse res.body) ("Failed to parse Mojang " ++ subject ++
    " response JSON")
  checkField (deserialize json) ("Failed to deserialize Mojang " ++ subject ++ " response JSON")

def fetchService : Except String MojangServiceFetchResult :=
  fetch network "service" (literal "https://client.discovery.minecraft-services.net")
    (literal "/api/v1.0/discovery/MinecraftPE/builds/1.0.0.0") network.deserializeService

def fetchKeys (serviceUri : Bytes) : Except String (List KeyInfo) := do
  let keyFetchResult ← fetch network "public key" serviceUri (literal "/.well-known/keys")
    network.deserializeKeys
  failIf (keyFetchResult.keys = []) "Mojang public key response JSON does not contain any keys"
  pure keyFetchResult.keys

def fetchConfig (serviceUri : Bytes) : Except String MojangConfigFetchResult :=
  fetch network "configuration" serviceUri (literal "/.well-known/openid-configuration")
    network.deserializeConfig

/-! ### The map of keys -/

/-- `mPublicKeysPemByKeyId.emplace(keyId, pem)`: a key that is there stays. -/
def emplace (entries : List (Bytes × Bytes)) (keyId pem : Bytes) : List (Bytes × Bytes) :=
  if (entries.lookup keyId).isSome then entries else entries ++ [(keyId, pem)]

theorem lookup_emplace (entries : List (Bytes × Bytes)) (keyId pem key : Bytes) :
    (emplace entries keyId pem).lookup key =
      (entries.lookup key).or (if key == keyId then some pem else none) := by
  unfold emplace
  split
  · next hsome =>
    split
    · next hkey =>
      -- the key is there and keeps its text
      rw [beq_iff_eq.mp hkey]
      obtain ⟨old, hold⟩ := Option.isSome_iff_exists.mp hsome
      rw [hold, Option.some_or]
    · rw [Option.or_none]
  · rw [List.lookup_append, List.lookup_singleton]

def pem (keyInfo : KeyInfo) : Option Bytes :=
  rs256.jwkRsaPublicKeyToPem network.rsaPublicKeyToPem keyInfo.n keyInfo.e

/-- The loop over the fetched keys, with the map it has filled when it ends. -/
def emplaceKeys : List KeyInfo → List (Bytes × Bytes) → Except String Unit × List (Bytes × Bytes)
  | [], entries => (.ok (), entries)
  | keyInfo :: keyInfos, entries =>
    if keyInfo.isSignatureKey then
      match pem network keyInfo with
      | none => (.error "Failed to convert Mojang public key from JWK to PEM format", entries)
      | some pem => emplaceKeys keyInfos (emplace entries keyInfo.kid pem)
    else emplaceKeys keyInfos entries

/-- The keys for signatures up to the first that cannot be converted. -/
def convertedKeys (keyInfos : List KeyInfo) : List KeyInfo :=
  (keyInfos.filter KeyInfo.isSignatureKey).takeWhile fun keyInfo => (pem network keyInfo).isSome

/-- The PEM text of the first of them with this id. -/
def convertedPem (keyInfos : List KeyInfo) (keyId : Bytes) : Option Bytes :=
  ((convertedKeys network keyInfos).find? fun keyInfo => keyId == keyInfo.kid).bind (pem network)

theorem emplaceKeys_isOk {keyInfos : List KeyInfo} (entries : List (Bytes × Bytes)) :
    (emplaceKeys network keyInfos entries).1.isOk = true ↔
      ∀ keyInfo ∈ keyInfos, keyInfo.isSignatureKey = true →
      (pem network keyInfo).isSome = true := by
  induction keyInfos generalizing entries with
  | nil => simp [emplaceKeys, Except.isOk, Except.toBool]
  | cons keyInfo keyInfos ih =>
    rw [emplaceKeys, List.forall_mem_cons]
    by_cases hkey : keyInfo.isSignatureKey = true
    · rw [if_pos hkey]
      cases hpem : pem network keyInfo with
      | none => simp [hkey, Except.isOk, Except.toBool]
      | some pem => simp [ih]
    · rw [if_neg hkey, ih entries]
      simp [hkey]

theorem lookup_emplaceKeys (keyInfos : List KeyInfo) (entries : List (Bytes × Bytes))
    (keyId : Bytes) :
    (emplaceKeys network keyInfos entries).2.lookup keyId =
      (entries.lookup keyId).or (convertedPem network keyInfos keyId) := by
  induction keyInfos generalizing entries with
  | nil => exact Option.or_none.symm
  | cons keyInfo keyInfos ih =>
    rw [emplaceKeys, convertedPem, convertedKeys]
    by_cases hkey : keyInfo.isSignatureKey = true
    · rw [if_pos hkey, List.filter_cons_of_pos hkey]
      cases hpem : pem network keyInfo with
      | none =>
        -- the loop ends here, and so do the converted keys
        rw [List.takeWhile_cons_of_neg (by simp [hpem])]
        exact Option.or_none.symm
      | some pem =>
        rw [List.takeWhile_cons_of_pos (by simp [hpem]), List.find?_cons, ih, lookup_emplace,
          Option.or_assoc]
        -- of two keys with one id the first is kept
        cases hid : keyId == keyInfo.kid with
        | true => simp [hpem]
        | false => rfl
    · rw [if_neg hkey, List.filter_cons_of_neg hkey, ih]
      rfl

/-! ### The cached keys -/

def modulus1 : Bytes :=
  literal "v6h-mczOLc3EJRuvDf4EmqX6Q5aLVEtJGd-YqbG819Mb5IPdu4-IR4QjlvEBEJlyz-_tLJY4iUtneODo" ++
    literal "andNG0fuROxhwrXGFFt4Gq6kUkp0S7QavKj8jSgBkmgm0ZorTJQW5qN_tXNRlc3Ven3JWU6xHMBWLv1L" ++
    literal "VY3kOQTOxythQiwT6rkw1Kec8T0LJ4dZ1x1vGw47rvBMuy7VRC4SIPtaOcnzFBPDO2TK7oZGEZoEPVpN" ++
    literal "skn7VmKmngSgziQQsG3NLD4AZADT8y3eq3dZYumHiI-mggnqm30yN5Jh7eBZwGJjLlWLYroHbuEen-OS" ++
    literal "h5DZO6J5E3y_MlEvfPi_EQ"

def modulus2 : Bytes :=
  literal "01yUt6cmX3vfduSSYgKPEGxUrTNpWgCcWqvQY0ZO4q_OoWxKR83F3q5hSfVBhM7zCXPfIgwSczi4Aoe9" ++
    literal "vzqiDaT0WtTFtgxKWle2cxpUucweRWIbqjG_Xba4XWX4yf26EvhzWv65ZTTeqgGYeca1K3hon8ytOrWQ" ++
    literal "MlixCfEbWnC5bDwz_nDOkj_pPXHzXGn7VZGDs7NLE2_WUsgWIt_lWvWmkDINmvSznCcGySg9r6DnC7Md" ++
    literal "3BxlEYWjZ-FnkFgl7yuI-0AfpJDPYt6fTU5Gfey1b_DAva88dR84r4FgzcGxR3Zp4f8uPOOBh5xmEXBy" ++
    literal "bl57COEmMOZH_uRsXmRFCQ"

def modulus3 : Bytes :=
  literal "vgK8g_3_D1g0_TW_6GLknn89L1xr7XLlEqbeFT691h2OxmlK1nfuKZBxKpVRWPjFg_zuCXX0ToZS-4WZ" ++
    literal "PR6yRKWrYHgcr2eqeXAhCqDqrG2YjicY69jglN8DntBHAlrvqJrq7LsJ2v4B4Vm3oprcObDCDuS1pLU5" ++
    literal "jHUuJPA4P95yQBUCfRSql7ehmWZtgGUkalGsdgTw7w3UAwJPDQmS3ElfsJgX6_47D9o8JYnuIFjOoluL" ++
    literal "mmZ1uSOTUhZ-bq63E6I5kWIb9FQIMEr10WSwkuubciZjNiBZupib6k5iIFsl7VtjIeCsnFA1QjcgMM3m" ++
    literal "NBmLiGThbruFHG3B2iXNdQ"

def modulus4 : Bytes :=
  literal "xbkxk_g4pFw9Wp0mr43dZdVe4FnY1sKdBBgrgaCs7EfxCmFJmSxOEgh6Ih1NjdpWxMWsrAAxxDyHv_a7" ++
    literal "RvEg9q2Bz3S6moVVcpPnJtP6Ixw5XLFua_gWdfEqkxE3G1rmu9WcXUYolHwRXl_0aN1nOxvkGDBYb70F" ++
    literal "MfJ-PZyVh5VAY0Auch0FB7n0qs2nRW1Pa8IeIm4t_LubDfcjuRhkGR1mMH9snZUggwh_WXYybB75kZmd" ++
    literal "nQOeK7P9LXZsfwYj1eI5NsTVpHq370YAMWfHc6dfj5SG59WuAQ50KXHNReXt2bS7_GIV9hlgHfeHQF7Y" ++
    literal "G0R0TEOyTYuEdJ39qDlwAQ"

/-- `SCULK_CACHED_MOJANG_PUBLIC_KEY_1` to `_4`, with an empty text for a key that cannot be
converted. -/
def cachedKey (modulusEncoded : Bytes) : Bytes :=
  (rs256.jwkRsaPublicKeyToPem network.rsaPublicKeyToPem modulusEncoded (literal "AQAB")).getD []

def initMojangPublicKeyFromCachedKeys (keys : AuthenticationKeyManager) :
    AuthenticationKeyManager :=
  { keys with
    mPublicKeysPemByKeyId :=
      [(literal "C1D78C9429FE3EC5D72000398E256C302D8A7833", cachedKey network modulus1),
        (literal "37959048C139ECD3712923EE3A05B6C3D8DAC402", cachedKey network modulus2),
        (literal "E9544A8594022198E82407994498E38E84A888FD", cachedKey network modulus3),
        (literal "6CD621632CEE45A16374B30445B1FB9B77EC7BF7", cachedKey network modulus4)]
    mExpectedIssuer := literal "https://authorization.franchise.minecraft-services.net/"
    mExpectedPlayFabTitle := literal "20CA2" }

/-! ### The refresh -/

/-- The result and the manager after the call. -/
def initMojangPublicKeyFromNetwork (keys : AuthenticationKeyManager) :
    Except String Unit × AuthenticationKeyManager :=
  match fetchService network with
  | .error e => (.error e, keys)
  | .ok service =>
    let keys := { keys with mExpectedPlayFabTitle := service.playfabTitleId }
    match fetchKeys network service.serviceUri with
    | .error e => (.error e, keys)
    | .ok keyInfos =>
      -- `mPublicKeysPemByKeyId.clear()` comes before the first conversion
      let (status, entries) := emplaceKeys network keyInfos []
      let keys := { keys with mPublicKeysPemByKeyId := entries }
      match status with
      | .error e => (.error e, keys)
      | .ok () =>
        match fetchConfig network service.serviceUri with
        | .error e => (.error e, keys)
        | .ok config => (.ok (), { keys with mExpectedIssuer := config.issuer })

/-- The same keys, issuer and title. -/
structure Same (keys keys' : AuthenticationKeyManager) : Prop where
  pem : ∀ keyId, keys'.getPublicKeyPemByKeyId keyId = keys.getPublicKeyPemByKeyId keyId
  issuer : keys'.mExpectedIssuer = keys.mExpectedIssuer
  title : keys'.mExpectedPlayFabTitle = keys.mExpectedPlayFabTitle

/-- With the same keys, issuer, title and leeway the same tokens are verified. -/
theorem Same.verifyOnline {keys keys' : AuthenticationKeyManager} (h : Same keys keys')
    (hleeway : keys'.mLeeway = keys.mLeeway) (S : Signatures) (token : LoginToken)
    (now : TimePoint) :
    token.verifyOnline S keys' now = token.verifyOnline S keys now := by
  unfold LoginToken.verifyOnline
  rw [hleeway, h.issuer, h.title]
  simp only [h.pem]

/-- The responses with which a failing refresh changes nothing. -/
def KeepsOnError (keys : AuthenticationKeyManager) : Prop :=
  ∀ service, fetchService network = .ok service →
    match fetchKeys network service.serviceUri with
    | .error _ => service.playfabTitleId = keys.mExpectedPlayFabTitle
    | .ok keyInfos =>
      ((∀ keyInfo ∈ keyInfos, keyInfo.isSignatureKey = true → (pem network keyInfo).isSome = true) ∧
        (fetchConfig network service.serviceUri).isOk = true) ∨
      service.playfabTitleId = keys.mExpectedPlayFabTitle ∧
        ∀ keyId, convertedPem network keyInfos keyId = keys.getPublicKeyPemByKeyId keyId

section

variable {network} {keys : AuthenticationKeyManager} {service : MojangServiceFetchResult}
  {keyInfos : List KeyInfo}

/-- With an unusable response to the first request nothing is assigned. -/
theorem init_of_no_service {e : String} (h : fetchService network = .error e) :
    initMojangPublicKeyFromNetwork network keys = (.error e, keys) := by
  rw [initMojangPublicKeyFromNetwork, h]

/-- With an unusable response to the second request the title is assigned. -/
theorem init_of_no_keys {e : String} (hservice : fetchService network = .ok service)
    (h : fetchKeys network service.serviceUri = .error e) :
    initMojangPublicKeyFromNetwork network keys =
      (.error e, { keys with mExpectedPlayFabTitle := service.playfabTitleId }) := by
  rw [initMojangPublicKeyFromNetwork, hservice]
  simp only [h]

/-- With usable responses to both, the title and the map are assigned. The call succeeds if every
key is converted and the third response is usable; otherwise the issuer stays. -/
theorem init_of_keys (keys : AuthenticationKeyManager)
    (hservice : fetchService network = .ok service)
    (h : fetchKeys network service.serviceUri = .ok keyInfos) :
    ∃ (status : Except String Unit) (issuer : Bytes),
      initMojangPublicKeyFromNetwork network keys =
        (status, { keys with
          mExpectedPlayFabTitle := service.playfabTitleId
          mPublicKeysPemByKeyId := (emplaceKeys network keyInfos []).2
          mExpectedIssuer := issuer }) ∧
      (status.isOk = true ↔
        (∀ keyInfo ∈ keyInfos, keyInfo.isSignatureKey = true →
          (pem network keyInfo).isSome = true) ∧
          (fetchConfig network service.serviceUri).isOk = true) ∧
      (status.isOk = false → issuer = keys.mExpectedIssuer) := by
  rw [← emplaceKeys_isOk network [], initMojangPublicKeyFromNetwork, hservice]
  simp only [h]
  cases (emplaceKeys network keyInfos []).1 with
  | error e =>
    -- a key that cannot be converted: the map holds those before it
    exact ⟨.error e, keys.mExpectedIssuer, rfl, by simp [Except.isOk, Except.toBool], fun _ => rfl⟩
  | ok _ =>
    cases fetchConfig network service.serviceUri with
    | error e =>
      exact ⟨.error e, keys.mExpectedIssuer, rfl, by simp [Except.isOk, Except.toBool],
        fun _ => rfl⟩
    | ok config =>
      exact ⟨.ok (), config.issuer, rfl, by simp [Except.isOk, Except.toBool],
        fun h => absurd h (by simp [Except.isOk, Except.toBool])⟩

/-- The leeway is not assigned. -/
theorem init_leeway (network : Network J) (keys : AuthenticationKeyManager) :
    (initMojangPublicKeyFromNetwork network keys).2.mLeeway = keys.mLeeway := by
  cases hservice : fetchService network with
  | error e => rw [init_of_no_service hservice]
  | ok service =>
    cases hkeys : fetchKeys network service.serviceUri with
    | error e => rw [init_of_no_keys hservice hkeys]
    | ok keyInfos =>
      obtain ⟨status, issuer, heq, -⟩ := init_of_keys keys hservice hkeys
      rw [heq]

end

/-- **A failing refresh.** It leaves keys, issuer and title as they were if and only if the title
was assigned its own value and the map, where it was cleared, was filled with what it held. -/
theorem initMojangPublicKeyFromNetwork_keeps_iff (network : Network J)
    (keys : AuthenticationKeyManager) :
    ((initMojangPublicKeyFromNetwork network keys).1.isOk = false →
      Same keys (initMojangPublicKeyFromNetwork network keys).2) ↔ KeepsOnError network keys := by
  unfold KeepsOnError
  -- nothing is assigned before the service is known
  cases hservice : fetchService network with
  | error e =>
    rw [init_of_no_service hservice]
    exact iff_of_true (fun _ => ⟨fun _ => rfl, rfl, rfl⟩) fun service h => absurd h (by simp)
  | ok service =>
    simp only [Except.ok.injEq, forall_eq']
    -- only the title is assigned before the keys are there
    cases hkeys : fetchKeys network service.serviceUri with
    | error e =>
      rw [init_of_no_keys hservice hkeys]
      exact ⟨fun h => (h rfl).title, fun h _ => ⟨fun _ => rfl, rfl, h⟩⟩
    | ok keyInfos =>
      obtain ⟨status, issuer, heq, hok, hissuer⟩ := init_of_keys keys hservice hkeys
      -- the map is cleared, and holds what could be converted since
      have hheld : ∀ keyId, (emplaceKeys network keyInfos []).2.lookup keyId =
          convertedPem network keyInfos keyId :=
        fun keyId => (lookup_emplaceKeys network keyInfos [] keyId).trans Option.none_or
      rw [heq]
      simp only [← hok]
      constructor
      · intro h
        refine or_iff_not_imp_left.mpr fun hne => ?_
        have hsame := h (Bool.eq_false_iff.mpr hne)
        exact ⟨hsame.title, fun keyId => (hheld keyId).symm.trans (hsame.pem keyId)⟩
      · rintro (hsuccess | ⟨htitle, hpem⟩) herror
        · exact absurd hsuccess (by simp [herror])
        · exact ⟨fun keyId => (hheld keyId).trans (hpem keyId), hissuer herror, htitle⟩

/-- After such a failure every token is verified as before. -/
theorem verifyOnline_of_keepsOnError {keys : AuthenticationKeyManager}
    (h : KeepsOnError network keys)
    (herror : (initMojangPublicKeyFromNetwork network keys).1.isOk = false) (S : Signatures)
    (token : LoginToken) (now : TimePoint) :
    token.verifyOnline S (initMojangPublicKeyFromNetwork network keys).2 now =
      token.verifyOnline S keys now :=
  ((initMojangPublicKeyFromNetwork_keeps_iff network keys).mpr h herror).verifyOnline
    (init_leeway network keys) S token now

/-- The third request is not answered; the first two are, with the title that is expected and a new
key. -/
def unansweredConfig : Network compact where
  get _ path :=
    if path = literal "/.well-known/openid-configuration" then none
    else some ⟨200, literal "\x7b\x7d"⟩
  deserializeService _ :=
    some
      { serviceUri := literal "https://authorization.franchise.minecraft-services.net"
        playfabTitleId := literal "20CA2" }
  deserializeKeys _ :=
    some ⟨[{
      kty := literal "RSA", use := literal "sig", kid := literal "N", n := modulus1,
      e := literal "AQAB" }]⟩
  deserializeConfig _ := none
  rsaPublicKeyToPem modulus _ := if 256 ≤ modulus.length then some (literal "K") else none

/-- The call fails, and the cached keys are gone. -/
theorem initMojangPublicKeyFromNetwork_loses_keys :
    (initMojangPublicKeyFromNetwork unansweredConfig
      (initMojangPublicKeyFromCachedKeys unansweredConfig {})).1 =
      .error "Failed to fetch Mojang configuration from Internet" ∧
    (initMojangPublicKeyFromCachedKeys unansweredConfig {}).getPublicKeyPemByKeyId
      (literal "C1D78C9429FE3EC5D72000398E256C302D8A7833") = some (literal "K") ∧
    (initMojangPublicKeyFromNetwork unansweredConfig
        (initMojangPublicKeyFromCachedKeys unansweredConfig {})).2.getPublicKeyPemByKeyId
      (literal "C1D78C9429FE3EC5D72000398E256C302D8A7833") = none := by
  decide +kernel

end AuthenticationKeyManager
end SculkProtocol
