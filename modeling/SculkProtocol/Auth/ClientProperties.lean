import SculkProtocol.Auth.TokenFormat
import SculkProtocol.Ssl.ES384
import SculkProtocol.Ssl.PemHelper

/-!
# `ClientProperties`

What a client says about itself, signed with its own key. Every field has a value, so all of
them are written and read back (`fromString_sign`).
-/

namespace SculkProtocol

open StringView

namespace ClientProperties

open Certificate (signingInput)

/-- The key of a member is without the `m` of its name. -/
def removeLeadingCharacter (key : String) : String :=
  match key.toList with
  | 'm' :: cs => String.ofList cs
  | _ => key

section

open Header

def algFields : List (Field Header) := [.required "alg" .string alg fun h v => { h with alg := v }]

def headerFields : List (Field Header) :=
  [.required "x5u" .string x5u fun h v => { h with x5u := v }]

end

section

open Payload

def payloadFields : List (Field Payload) :=
  [.required "mAnimatedImageData" .animatedImages mAnimatedImageData
     fun p v => { p with mAnimatedImageData := v },
    .required "mArmSize" .string mArmSize fun p v => { p with mArmSize := v },
    .required "mCapeData" .string mCapeData fun p v => { p with mCapeData := v },
    .required "mCapeId" .string mCapeId fun p v => { p with mCapeId := v },
    .required "mCapeImageHeight" .int32 mCapeImageHeight
      fun p v => { p with mCapeImageHeight := v },
    .required "mCapeImageWidth" .int32 mCapeImageWidth fun p v => { p with mCapeImageWidth := v },
    .required "mCapeOnClassicSkin" .bool mCapeOnClassicSkin
      fun p v => { p with mCapeOnClassicSkin := v },
    .required "mClientRandomId" .uint64 mClientRandomId fun p v => { p with mClientRandomId := v },
    .required "mCompatibleWithClientSideChunkGen" .bool mCompatibleWithClientSideChunkGen
      fun p v => { p with mCompatibleWithClientSideChunkGen := v },
    .required "mCurrentInputMode" .int32 mCurrentInputMode
      fun p v => { p with mCurrentInputMode := v },
    .required "mDefaultInputMode" .int32 mDefaultInputMode
      fun p v => { p with mDefaultInputMode := v },
    .required "mDeviceId" .string mDeviceId fun p v => { p with mDeviceId := v },
    .required "mDeviceModel" .string mDeviceModel fun p v => { p with mDeviceModel := v },
    .required "mDeviceOS" .int32 mDeviceOS fun p v => { p with mDeviceOS := v },
    .ifPresent "mFilterProfanity" .bool mFilterProfanity
      fun p v => { p with mFilterProfanity := v },
    .required "mGameVersion" .string mGameVersion fun p v => { p with mGameVersion := v },
    .required "mGraphicsMode" .int32 mGraphicsMode fun p v => { p with mGraphicsMode := v },
    .required "mGuiScale" .int32 mGuiScale fun p v => { p with mGuiScale := v },
    .ifPresent "mIsEditorMode" .bool mIsEditorMode fun p v => { p with mIsEditorMode := v },
    .ifPresent "mIsPartyLeader" .bool mIsPartyLeader fun p v => { p with mIsPartyLeader := v },
    .required "mLanguageCode" .string mLanguageCode fun p v => { p with mLanguageCode := v },
    .required "mMaxViewDistance" .int32 mMaxViewDistance
      fun p v => { p with mMaxViewDistance := v },
    .required "mMemoryTier" .int32 mMemoryTier fun p v => { p with mMemoryTier := v },
    .required "mOverrideSkin" .bool mOverrideSkin fun p v => { p with mOverrideSkin := v },
    .ifPresent "mPartyId" .string mPartyId fun p v => { p with mPartyId := v },
    .required "mPersonaPieces" .personaPieces mPersonaPieces
      fun p v => { p with mPersonaPieces := v },
    .required "mPersonaSkin" .bool mPersonaSkin fun p v => { p with mPersonaSkin := v },
    .required "mPieceTintColors" .pieceTintColors mPieceTintColors
      fun p v => { p with mPieceTintColors := v },
    .required "mPlatformOfflineId" .string mPlatformOfflineId
      fun p v => { p with mPlatformOfflineId := v },
    .required "mPlatformOnlineId" .string mPlatformOnlineId
      fun p v => { p with mPlatformOnlineId := v },
    .required "mPlatformType" .int32 mPlatformType fun p v => { p with mPlatformType := v },
    .ifPresent "mPlayFabId" .string mPlayFabId fun p v => { p with mPlayFabId := v },
    .required "mPremiumSkin" .bool mPremiumSkin fun p v => { p with mPremiumSkin := v },
    .required "mSelfSignedId" .string mSelfSignedId fun p v => { p with mSelfSignedId := v },
    .required "mServerAddress" .string mServerAddress fun p v => { p with mServerAddress := v },
    .required "mSkinAnimationData" .string mSkinAnimationData
      fun p v => { p with mSkinAnimationData := v },
    .required "mSkinColor" .string mSkinColor fun p v => { p with mSkinColor := v },
    .required "mSkinData" .string mSkinData fun p v => { p with mSkinData := v },
    .required "mSkinGeometryData" .string mSkinGeometryData
      fun p v => { p with mSkinGeometryData := v },
    .required "mSkinGeometryDataEngineVersion" .string mSkinGeometryDataEngineVersion
      fun p v => { p with mSkinGeometryDataEngineVersion := v },
    .required "mSkinId" .string mSkinId fun p v => { p with mSkinId := v },
    .required "mSkinImageHeight" .int32 mSkinImageHeight
      fun p v => { p with mSkinImageHeight := v },
    .required "mSkinImageWidth" .int32 mSkinImageWidth fun p v => { p with mSkinImageWidth := v },
    .required "mSkinResourcePatch" .string mSkinResourcePatch
      fun p v => { p with mSkinResourcePatch := v },
    .required "mThirdPartyName" .string mThirdPartyName fun p v => { p with mThirdPartyName := v },
    .required "mTrustedSkin" .bool mTrustedSkin fun p v => { p with mTrustedSkin := v },
    .required "mUIProfile" .int32 mUIProfile fun p v => { p with mUIProfile := v }]

end

def format : TokenFormat Header Payload where
  subject := "client properties"
  missing part name :=
    "Client properties " ++ part ++ " JSON does not contain a valid field '" ++ name ++ "'"
  key := removeLeadingCharacter
  algFields := algFields
  checkAlg h := failIf (h.alg ≠ literal "ES384") "certificate signing algorithm must be ES384"
  headerFields := headerFields
  payloadFields := payloadFields
  noHeader := {}
  noPayload := {}

variable (J : Jsonc) (S : Signatures) (properties : ClientProperties)

def verify (publicKeyPem : Bytes) : Except String Unit :=
  failIf (S.verifyES384Signature (signingInput properties.mRawHeader properties.mRawPayload)
    properties.mSignature publicKeyPem = false) "Failed to verify client properties signature"

/-- The members of an object with all the fields. -/
def members {R : Type} (fields : List (Field R)) (r : R) : List (String × J.Json) :=
  fields.map fun f => (removeLeadingCharacter f.name, f.json J r)

def sign (jose : Bytes → Bytes → Option Bytes) (clientKeyPair : PemKeyPair) :
    Except String ClientProperties := do
  let header : Header :=
    ⟨literal "ES384", pem_helper.stripPemMarkersAndCompact clientKeyPair.mPublicKeyPem⟩
  let rawHeader :=
    base64url.encode (J.dump (J.object (members J (algFields ++ headerFields) header)))
  let rawPayload :=
    base64url.encode (J.dump (J.object (members J payloadFields properties.mPayload)))
  let signature ← checkField
    (es384.signES384Signature jose (signingInput rawHeader rawPayload) clientKeyPair.mPrivateKeyPem)
    "Failed to sign client properties"
  pure ⟨rawHeader, header, rawPayload, properties.mPayload, signature⟩

def toString : Bytes :=
  joinDots properties.mRawHeader properties.mRawPayload properties.mSignature

def fromString (rawClientProperties : Bytes) : Except String ClientProperties := do
  let properties ← format.parse J rawClientProperties
  pure ⟨properties.rawHeader, properties.header, properties.rawPayload, properties.payload,
    properties.signature⟩

/-! ### Signed properties are read back -/

variable {J properties} {properties' : ClientProperties} {jose : Bytes → Bytes → Option Bytes}
  {clientKeyPair : PemKeyPair}

/-- What is read has the raw parts of its text. -/
theorem toString_fromString {raw : Bytes} (h : fromString J raw = .ok properties) :
    properties.toString = raw := by
  obtain ⟨parsed, hparsed, h⟩ := bind_eq_ok.mp h
  cases h
  exact (TokenFormat.parse_ok hparsed).1.symm

/-- The members are named like the fields. -/
theorem keys_members {R : Type} {fields : List (Field R)} {r : R} :
    (members J fields r).map Prod.fst = fields.map fun f => removeLeadingCharacter f.name := by
  rw [members, List.map_map]
  rfl

/-- What properties that were signed have. -/
theorem sign_ok (h : properties.sign J jose clientKeyPair = .ok properties') :
    properties'.mHeader
      = ⟨literal "ES384", pem_helper.stripPemMarkersAndCompact clientKeyPair.mPublicKeyPem⟩ ∧
    properties'.mRawHeader = base64url.encode
      (J.dump (J.object (members J (algFields ++ headerFields) properties'.mHeader))) ∧
    properties'.mPayload = properties.mPayload ∧
    properties'.mRawPayload = base64url.encode
      (J.dump (J.object (members J payloadFields properties'.mPayload))) ∧
    es384.signES384Signature jose (signingInput properties'.mRawHeader properties'.mRawPayload)
      clientKeyPair.mPrivateKeyPem = some properties'.mSignature := by
  obtain ⟨signature, hsignature, h⟩ := checkField_bind_eq_ok.mp h
  cases h
  exact ⟨rfl, rfl, rfl, rfl, hsignature⟩

/-- Properties are signed if OpenSSL signs. -/
theorem sign_isOk (hjose : ∀ input, (jose input clientKeyPair.mPrivateKeyPem).isSome = true) :
    ∃ properties', properties.sign J jose clientKeyPair = .ok properties' := by
  have hsigned := fun rawHeader rawPayload => es384.signES384Signature_isSome
    (Certificate.signingInput_ne_nil rawHeader rawPayload) (hjose _)
  exact ⟨_, checkField_bind_eq_ok.mpr ⟨_, Option.eq_some_of_isSome (hsigned _ _), rfl⟩⟩

/-- Their header is read back. -/
theorem parseHeader_sign (hJ : J.Lawful)
    (h : properties.sign J jose clientKeyPair = .ok properties') :
    format.parseHeader J properties'.mRawHeader = .ok properties'.mHeader := by
  obtain ⟨hheader, hraw, -⟩ := sign_ok h
  have hwritten : ∀ f ∈ algFields ++ headerFields, f.Written removeLeadingCharacter
      properties'.mHeader (members J (algFields ++ headerFields) properties'.mHeader) := fun f hf =>
    written_values (by simp [algFields, headerFields, Field.required, Field.valueJson]) hJ hf
  rw [hraw]
  refine TokenFormat.parseHeader_encode hJ ?_ hwritten rfl ?_
  · rw [keys_members]
    decide
  · simp only [format, algFields, List.foldl_cons, List.foldl_nil, Field.copy_required,
      failIf_eq_ok, hheader, ne_eq, not_true_eq_false, not_false_eq_true]

/-- Every field of a payload has a value. -/
theorem payloadFields_values (payload : Payload) :
    ∀ f ∈ payloadFields, (f.valueJson J payload).isSome = true := by
  simp [payloadFields, Field.required, Field.ifPresent, Field.valueJson]

/-- No two fields have the same name. -/
theorem payloadFields_nodup :
    (payloadFields.map fun f => removeLeadingCharacter f.name).Nodup := by
  decide +kernel

/-- All the fields are copied. -/
theorem payloadFields_copy (payload acc : Payload) :
    payloadFields.foldl (fun acc f => f.copy payload acc) acc = payload := by
  simp only [payloadFields, List.foldl_cons, List.foldl_nil, Field.copy_required,
    Field.copy_ifPresent]

/-- Their payload is read back. -/
theorem parsePayload_sign (hJ : J.Lawful)
    (h : properties.sign J jose clientKeyPair = .ok properties') :
    format.parsePayload J properties'.mRawPayload = .ok properties'.mPayload := by
  obtain ⟨-, -, -, hraw, -⟩ := sign_ok h
  have hwritten : ∀ f ∈ payloadFields, f.Written removeLeadingCharacter properties'.mPayload
      (members J payloadFields properties'.mPayload) := fun f hf =>
    written_values (payloadFields_values _) hJ hf
  rw [hraw]
  refine TokenFormat.parsePayload_encode hJ ?_ hwritten (payloadFields_copy _ _)
  rw [keys_members]
  exact payloadFields_nodup

/-- **Signed properties are read back.** -/
theorem fromString_sign (hJ : J.Lawful)
    (h : properties.sign J jose clientKeyPair = .ok properties') :
    fromString J properties'.toString = .ok properties' := by
  have hsignature := es384.signES384Signature_no_dot (sign_ok h).2.2.2.2
  have hparse :=
    TokenFormat.parse_joinDots (parseHeader_sign hJ h) (parsePayload_sign hJ h) hsignature
  simp only [fromString, toString, hparse, bind, Except.bind, pure, Except.pure]

end ClientProperties

end SculkProtocol
