import Mathlib.Algebra.Ring.Nat
import Mathlib.Data.Int.Basic
import SculkProtocol.Encryption.Keystream

/-!
# `CryptoManager`

Packets are encrypted with AES in counter mode, under one keystream that runs on
from packet to packet, and carry a checksum over a packet counter, the payload and
the key. A manager keeps a counter and a cipher context for each direction; the
context is created by the first packet.

OpenSSL is a parameter (`Evp`): the keystream as a function of the key, the initial
counter block and the byte position, and SHA-256 as a function of its input. How
the EVP calls of one operation come out is an argument of the operation
(`EvpCalls`), so a statement about every `EvpCalls` covers every failure.

The methods return the new manager with their result, an error carrying the text
the source gives it.
-/

namespace SculkProtocol

/-- What the EVP functions compute. -/
structure Evp where
  /-- The AES-CTR keystream of a key and an initial counter block. -/
  keystream : Bytes → Bytes → ℕ → UInt8
  sha256 : Bytes → Option Bytes

/-- An `EVP_CIPHER_CTX`: its keystream position, unless no cipher was set. -/
structure CipherCtx where
  position : Option ℕ
  deriving DecidableEq

/-- How the EVP calls of one operation come out. -/
structure EvpCalls where
  /-- `EVP_CIPHER_CTX_new` returns a context. -/
  ctxNew : Bool
  cipherInit : Bool
  setPadding : Bool
  /-- `EVP_CipherUpdate` fails after consuming so many keystream bytes, or succeeds. -/
  updateFails : Option ℕ
  /-- The context behind a negative length, for which nothing is documented. -/
  negative : CipherCtx

/-- Every call succeeds. -/
def EvpCalls.succeed : EvpCalls := ⟨true, true, true, none, ⟨none⟩⟩

/-- The ciphers `selectAesCtrCipher` chooses from. -/
inductive AesCtr
  | aes128
  | aes192
  | aes256
  deriving DecidableEq

def selectAesCtrCipher (keySize : ℕ) : Option AesCtr :=
  match keySize with
  | 16 => some .aes128
  | 24 => some .aes192
  | 32 => some .aes256
  | _ => none

def writeLittleEndian64 (value : UInt64) : Bytes :=
  (List.range 8).map fun i => ((value >>> (UInt64.ofNat i * 8)) &&& 0xff).toUInt8

/-- `static_cast<int>` of a size: the low 32 bits, read as a signed number. -/
def staticCastInt (n : ℕ) : ℤ := (n : ℤ).bmod (2 ^ 32)

structure CryptoManager where
  mEncryptCounter : UInt64
  mDecryptCounter : UInt64
  mKeyBytes : Bytes
  mInitialCounterBlock : Bytes
  mEncryptCtx : Option CipherCtx
  mDecryptCtx : Option CipherCtx

namespace CryptoManager

def CHECKSUM_SIZE : ℕ := 8

/-- The constructor: the nonce is the start of the key, the last byte is `0x02`. -/
def create (keyBytes : Bytes) : CryptoManager where
  mEncryptCounter := 0
  mDecryptCounter := 0
  mKeyBytes := keyBytes
  mInitialCounterBlock :=
    let nonceSize := min keyBytes.length 12
    keyBytes.take nonceSize ++ List.replicate (15 - nonceSize) 0 ++ [0x02]
  mEncryptCtx := none
  mDecryptCtx := none

variable (E : Evp) (m : CryptoManager) (calls : EvpCalls)

/-- The keystream of this manager. -/
def keystream : ℕ → UInt8 := E.keystream m.mKeyBytes m.mInitialCounterBlock

def checksum (counter : UInt64) (data : Bytes) : Bytes :=
  match E.sha256 (writeLittleEndian64 counter ++ data ++ m.mKeyBytes) with
  | some digest =>
    if digest.length < CHECKSUM_SIZE then List.replicate CHECKSUM_SIZE 0
    else digest.take CHECKSUM_SIZE
  | none => List.replicate CHECKSUM_SIZE 0

/-- The context `initializeCipher` leaves, and whether it succeeded. -/
def initializeCipher (ctx : Option CipherCtx) : Option CipherCtx × Bool :=
  match selectAesCtrCipher m.mKeyBytes.length with
  | none => (ctx, false)
  | some _ =>
    if !calls.ctxNew then (none, false)
    else if !calls.cipherInit then (some ⟨none⟩, false)
    else (some ⟨some 0⟩, calls.setPadding)

/-- `if (!ctx && !initializeCipher(ctx, ..))`: whether the context may be used. -/
def openCipher (ctx : Option CipherCtx) : Option CipherCtx × Bool :=
  match ctx with
  | some c => (some c, true)
  | none => m.initializeCipher calls none

/-- `EVP_CipherUpdate` on the first `inl` of `bytes`. A negative length gives no output, and what it
leaves of the context is open. -/
def cipherUpdate (ctx : CipherCtx) (bytes : Bytes) (inl : ℤ) : CipherCtx × Option Bytes :=
  match ctx.position, calls.updateFails with
  | none, _ => (ctx, none)
  | some p, some k => (⟨some (p + k)⟩, none)
  | some p, none =>
    if inl < 0 then (calls.negative, none)
    else (⟨some (p + inl.toNat)⟩, some (xorFrom (m.keystream E) p (bytes.take inl.toNat)))

/-- `!ok || static_cast<std::size_t>(outLen) != output.size()` -/
def checkOutput (size : ℕ) (r : CipherCtx × Option Bytes) :
    Option CipherCtx × Except String Bytes :=
  match r.2 with
  | none => (some r.1, .error "Failed to process data with cipher")
  | some output =>
    if output.length = size then (some r.1, .ok output)
    else (some r.1, .error "Failed to process data with cipher")

def ctrCrypt (ctx : Option CipherCtx) (bytes : Bytes) : Option CipherCtx × Except String Bytes :=
  if bytes = [] then (ctx, .ok [])
  else
    match ctx with
    | none => (none, .error "Cipher context is not initialized")
    | some c =>
      checkOutput bytes.length (m.cipherUpdate E calls c bytes (staticCastInt bytes.length))

def encrypt (input : Bytes) : CryptoManager × Except String Bytes :=
  if input = [] then (m, .ok [])
  else
    let sum := m.checksum E m.mEncryptCounter input
    let m := { m with mEncryptCounter := m.mEncryptCounter + 1 }
    let opened := m.openCipher calls m.mEncryptCtx
    if !opened.2 then
      ({ m with mEncryptCtx := opened.1 }, .error "Failed to initialize encryption cipher")
    else
      let r := m.ctrCrypt E calls opened.1 (input ++ sum)
      ({ m with mEncryptCtx := r.1 }, r.2)

def verify (input : Bytes) : CryptoManager × Bool :=
  if input.length < CHECKSUM_SIZE then (m, false)
  else
    let payloadSize := input.length - CHECKSUM_SIZE
    let expected := m.checksum E m.mDecryptCounter (input.take payloadSize)
    ({ m with mDecryptCounter := m.mDecryptCounter + 1 }, expected == input.drop payloadSize)

def decrypt (input : Bytes) : CryptoManager × Except String Bytes :=
  if input = [] then (m, .ok [])
  else if input.length < CHECKSUM_SIZE then (m, .ok [])
  else
    let opened := m.openCipher calls m.mDecryptCtx
    if !opened.2 then
      ({ m with mDecryptCtx := opened.1 }, .error "Failed to initialize decryption cipher")
    else
      let r := m.ctrCrypt E calls opened.1 input
      let m := { m with mDecryptCtx := r.1 }
      match r.2 with
      | .error _ => (m, .error "Failed to decrypt data")
      | .ok clear =>
        let verified := m.verify E clear
        if verified.2 then (verified.1, .ok (clear.take (clear.length - CHECKSUM_SIZE)))
        else (verified.1, .error "Failed to verify decrypted data")

end CryptoManager
end SculkProtocol
