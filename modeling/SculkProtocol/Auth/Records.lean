import SculkProtocol.Auth.Certificate

/-!
# Login tokens and client properties

The records of a login besides the certificates, each with the encoded texts it was read
from. A `float` is represented by its bits, as nothing is computed with it.
-/

namespace SculkProtocol

inductive AuthenticationType
  | Full
  | Guest
  | SelfSigned
  deriving DecidableEq

/-- `static_cast<int>` -/
def AuthenticationType.toInt : AuthenticationType → ℤ
  | .Full => 0
  | .Guest => 1
  | .SelfSigned => 2

structure PemKeyPair where
  mPublicKeyPem : Bytes := []
  mPrivateKeyPem : Bytes := []

namespace LoginToken

structure Header where
  alg : Bytes := []
  kid : Option Bytes := none
  x5u : Option Bytes := none
  typ : Option Bytes := none
  deriving DecidableEq

structure Payload where
  sub : Option Bytes := none
  ipt : Option Bytes := none
  iat : Option ℤ := none
  mid : Bytes := []
  tid : Option Bytes := none
  pfcd : Option ℤ := none
  cpk : Bytes := []
  ap : Int32 := 0
  xid : Bytes := []
  xname : Bytes := []
  exp : ℤ := 0
  iss : Option Bytes := none
  aud : Bytes := []
  leguuid : Option Bytes := none
  nid : Option Bytes := none
  nname : Option Bytes := none
  pid : Option Bytes := none
  pname : Option Bytes := none
  deriving DecidableEq

end LoginToken

structure LoginToken where
  mRawHeader : Bytes := []
  mHeader : LoginToken.Header := {}
  mRawPayload : Bytes := []
  mPayload : LoginToken.Payload := {}
  mSignature : Bytes := []
  deriving DecidableEq

namespace ClientProperties

structure Header where
  alg : Bytes := []
  x5u : Bytes := []
  deriving DecidableEq

structure AnimatedImage where
  mAnimationExpression : Int32 := 0
  /-- a `float` -/
  mFrames : UInt32 := 0
  mImage : Bytes := []
  mImageHeight : Int32 := 0
  mImageWidth : Int32 := 0
  mType : Int32 := 0
  deriving DecidableEq

structure PersonaPiece where
  mIsDefault : Bool := false
  mPackId : Bytes := []
  mPieceId : Bytes := []
  mPieceType : Bytes := []
  mProductId : Bytes := []
  deriving DecidableEq

structure PieceTintColor where
  mColors : Vector Bytes 4 := Vector.replicate 4 []
  mPieceType : Bytes := []
  deriving DecidableEq

structure Payload where
  mAnimatedImageData : List AnimatedImage := []
  mArmSize : Bytes := []
  mCapeData : Bytes := []
  mCapeId : Bytes := []
  mCapeImageHeight : Int32 := 0
  mCapeImageWidth : Int32 := 0
  mCapeOnClassicSkin : Bool := false
  mClientRandomId : UInt64 := 0
  mCompatibleWithClientSideChunkGen : Bool := false
  mCurrentInputMode : Int32 := 0
  mDefaultInputMode : Int32 := 0
  mDeviceId : Bytes := []
  mDeviceModel : Bytes := []
  mDeviceOS : Int32 := 0
  mFilterProfanity : Bool := false
  mGameVersion : Bytes := []
  mGraphicsMode : Int32 := 0
  mGuiScale : Int32 := 0
  mIsEditorMode : Bool := false
  mIsPartyLeader : Bool := false
  mLanguageCode : Bytes := []
  mMaxViewDistance : Int32 := 0
  mMemoryTier : Int32 := 0
  mOverrideSkin : Bool := false
  mPartyId : Bytes := []
  mPersonaPieces : List PersonaPiece := []
  mPersonaSkin : Bool := false
  mPieceTintColors : List PieceTintColor := []
  mPlatformOfflineId : Bytes := []
  mPlatformOnlineId : Bytes := []
  mPlatformType : Int32 := 0
  mPlayFabId : Bytes := []
  mPremiumSkin : Bool := false
  mSelfSignedId : Bytes := []
  mServerAddress : Bytes := []
  mSkinAnimationData : Bytes := []
  mSkinColor : Bytes := []
  mSkinData : Bytes := []
  mSkinGeometryData : Bytes := []
  mSkinGeometryDataEngineVersion : Bytes := []
  mSkinId : Bytes := []
  mSkinImageHeight : Int32 := 0
  mSkinImageWidth : Int32 := 0
  mSkinResourcePatch : Bytes := []
  mThirdPartyName : Bytes := []
  mTrustedSkin : Bool := false
  mUIProfile : Int32 := 0

end ClientProperties

structure ClientProperties where
  mRawHeader : Bytes := []
  mHeader : ClientProperties.Header := {}
  mRawPayload : Bytes := []
  mPayload : ClientProperties.Payload := {}
  mSignature : Bytes := []

end SculkProtocol
