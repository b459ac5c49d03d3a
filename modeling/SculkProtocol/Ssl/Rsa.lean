import SculkProtocol.Auth.KeyRefresh
import SculkProtocol.Ssl.Ecdsa

/-!
# Signatures with RSA

The issuer of login tokens publishes its keys as two numbers, highest byte first, in base64url. A
key of at least 2048 bits is made of them and written as a PEM text (`rsaPublicKeyToPem`), and that
text is read again for every signature that is verified under it.

What OpenSSL does is a parameter (`OpensslRsa`), with what is documented of it
(`OpensslRsa.Lawful`). `loadPublicKey_published` says that the key that is read is the key that was
published, and `published_key_verifies` that what the issuer signs is verified under it, and nothing
that this key refuses.
-/

namespace SculkProtocol

/-- What OpenSSL does with RSA keys. A call that fails, for want of memory too, gives nothing. -/
structure OpensslRsa where
  PKey : Type
  /-- `PEM_read_bio_PUBKEY` -/
  readPUBKEY : Bytes → Option PKey
  /-- `PEM_read_bio_PrivateKey` -/
  readPrivateKey : Bytes → Option PKey
  /-- `EVP_PKEY_base_id` is `EVP_PKEY_RSA` -/
  isRSA : PKey → Bool
  /-- `EVP_PKEY_get_bits` -/
  bits : PKey → ℕ
  /-- `EVP_PKEY_get_size` -/
  size : PKey → ℤ
  /-- `BN_bin2bn` of a text, with its size -/
  bin2bn : Bytes → ℤ → Option ℕ
  /-- `EVP_PKEY_fromdata` of a modulus and an exponent -/
  fromData : ℕ → ℕ → Option PKey
  /-- what `PEM_write_bio_PUBKEY` writes -/
  writePUBKEY : PKey → Option Bytes
  /-- the size that `EVP_DigestSignFinal` announces -/
  signLength : PKey → ℕ
  /-- `EVP_DigestSign` with SHA-256 and the padding of PKCS #1 -/
  digestSign : PKey → Bytes → Option Bytes
  /-- `EVP_DigestVerify` with these, of an input and a signature -/
  digestVerify : PKey → Bytes → Bytes → Bool

namespace rs256

open pem_helper

def MinRsaBits : ℕ := 2048

variable (R : OpensslRsa)

def isRs256Key (key : R.PKey) : Bool := R.isRSA key && decide (MinRsaBits ≤ R.bits key)

/-- `jwkRsaPublicKeyToPem` behind the decoding of its arguments. -/
def rsaPublicKeyToPem (modulusDecoded exponentDecoded : Bytes) : Option Bytes := do
  let modulus ← R.bin2bn modulusDecoded (staticCastInt modulusDecoded.length)
  let exponent ← R.bin2bn exponentDecoded (staticCastInt exponentDecoded.length)
  let key ← (R.fromData modulus exponent).filter (isRs256Key R ·)
  (R.writePUBKEY key).filter (· ≠ [])

def loadPublicKey (pem : Bytes) : Option R.PKey :=
  let normalizedPem := normalizePemForRead pem false
  if normalizedPem = [] then none
  else (R.readPUBKEY (bioText normalizedPem)).filter (isRs256Key R ·)

def loadPrivateKey (pem : Bytes) : Option R.PKey :=
  let normalizedPem := normalizePemForRead pem true
  if normalizedPem = [] then none
  else (R.readPrivateKey (bioText normalizedPem)).filter (isRs256Key R ·)

def verifyRS256Signature (signingInput signature publicKeyPem : Bytes) : Bool :=
  if signingInput = [] then false
  else
    match base64url.decodeChecked signature, loadPublicKey R publicKeyPem with
    | .ok rawSignature, some publicKey =>
      if R.size publicKey ≤ 0 ∨ (rawSignature.length : ℤ) ≠ R.size publicKey then false
      else R.digestVerify publicKey signingInput rawSignature
    | _, _ => false

def signRS256Signature (signingInput privateKeyPem : Bytes) : Option Bytes :=
  if signingInput = [] then none
  else do
    let privateKey ← loadPrivateKey R privateKeyPem
    if R.signLength privateKey = 0 then none
    else (R.digestSign privateKey signingInput).map base64url.encode

end rs256

open rs256 pem_helper

/-- What is documented of OpenSSL: a number is read highest byte first, and a key that is written is
a block that is read as the key, also without the end of its last line. -/
structure OpensslRsa.Lawful (R : OpensslRsa) : Prop where
  bin2bn (bs : Bytes) (n : ℕ) : R.bin2bn bs bs.length = some n → n = fromBigEndian bs
  write_block (key : R.PKey) (pem : Bytes) : R.writePUBKEY key = some pem →
    (∃ body, pem = keyBlock false body) ∧ pem.length < 2 ^ 31
  read_written (key : R.PKey) (pem : Bytes) : R.writePUBKEY key = some pem →
    R.readPUBKEY (trimPemContent pem) = some key

/-- A modulus and an exponent are those of the key. -/
structure OpensslRsa.Published (R : OpensslRsa) (publicKey : R.PKey) (modulus exponent : Bytes) :
    Prop where
  ne_nil : modulus ≠ [] ∧ exponent ≠ []
  length_lt : modulus.length < 2 ^ 31 ∧ exponent.length < 2 ^ 31
  fromData : R.fromData (fromBigEndian modulus) (fromBigEndian exponent) = some publicKey

/-- What is signed with the private key is verified under the public key. -/
def OpensslRsa.IsKeyPair (R : OpensslRsa) (publicKey : R.PKey) (privateKeyPem : Bytes) : Prop :=
  ∀ privateKey, loadPrivateKey R privateKeyPem = some privateKey →
    ∀ input raw, R.digestSign privateKey input = some raw →
      raw ≠ [] ∧ (raw.length : ℤ) = R.size publicKey ∧ R.digestVerify publicKey input raw = true

/-- The key verifies a signature. -/
def OpensslRsa.Verifies (R : OpensslRsa) (publicKey : R.PKey) (input signature : Bytes) : Prop :=
  input ≠ [] ∧ ∃ raw, base64url.decodeChecked signature = .ok raw ∧ 0 < R.size publicKey ∧
    (raw.length : ℤ) = R.size publicKey ∧ R.digestVerify publicKey input raw = true

namespace rs256

variable {R : OpensslRsa} {publicKey : R.PKey}
  {modulus exponent pem input signature privateKeyPem : Bytes}

/-! ### A published key -/

/-- A key that is published is read back from its numbers. -/
theorem jwkRsaPublicKeyToPem_encode (toPem : Bytes → Bytes → Option Bytes)
    (hne : modulus ≠ [] ∧ exponent ≠ []) :
    jwkRsaPublicKeyToPem toPem (base64url.encode modulus) (base64url.encode exponent) =
      toPem modulus exponent := by
  rw [jwkRsaPublicKeyToPem, base64url.decodeChecked_encode hne.1,
    base64url.decodeChecked_encode hne.2]
  rfl

/-- **A key that was written is read back.** -/
theorem loadPublicKey_written (hR : R.Lawful) (hwrite : R.writePUBKEY publicKey = some pem)
    (hkey : isRs256Key R publicKey = true) : loadPublicKey R pem = some publicKey := by
  have hread := hR.read_written publicKey pem hwrite
  obtain ⟨⟨body, rfl⟩, hlt⟩ := hR.write_block publicKey pem hwrite
  obtain ⟨hnormal, hne⟩ := normalizePemForRead_keyBlock false false body
  have htext : bioText (trimPemContent (keyBlock false body)) =
      trimPemContent (keyBlock false body) := by
    apply es384.bioText_of_lt
    exact (trimPemContent_length_le _).trans_lt hlt
  simp only [loadPublicKey, hnormal, if_neg hne, htext, hread]
  exact Option.filter_some_pos hkey

/-- **The key that is read is the key that was published.** -/
theorem loadPublicKey_published (hR : R.Lawful)
    (hpublished : R.Published publicKey modulus exponent)
    (h : jwkRsaPublicKeyToPem (rsaPublicKeyToPem R) (base64url.encode modulus)
      (base64url.encode exponent) = some pem) :
    loadPublicKey R pem = some publicKey := by
  rw [jwkRsaPublicKeyToPem_encode _ hpublished.ne_nil] at h
  obtain ⟨m, hm, h⟩ := Option.bind_eq_some_iff.mp h
  obtain ⟨e, he, h⟩ := Option.bind_eq_some_iff.mp h
  rw [CryptoManager.staticCastInt_of_lt hpublished.length_lt.1] at hm
  rw [CryptoManager.staticCastInt_of_lt hpublished.length_lt.2] at he
  rw [hR.bin2bn modulus m hm, hR.bin2bn exponent e he, hpublished.fromData] at h
  obtain ⟨key, hkey, hwrite⟩ := Option.bind_eq_some_iff.mp h
  obtain ⟨hsame, hlarge⟩ := Option.filter_eq_some_iff.mp hkey
  obtain rfl := Option.some.inj hsame
  exact loadPublicKey_written hR (Option.filter_eq_some_iff.mp hwrite).1 hlarge

/-! ### Signatures -/

/-- A signature is verified under the key that is loaded. -/
theorem verify_of_loadPublicKey (h : loadPublicKey R pem = some publicKey) :
    verifyRS256Signature R input signature pem = true ↔ R.Verifies publicKey input signature := by
  rw [verifyRS256Signature, OpensslRsa.Verifies]
  by_cases hinput : input = []
  · simp [hinput]
  · rw [if_neg hinput, h]
    cases hraw : base64url.decodeChecked signature with
    | error e => simp
    | ok raw =>
      by_cases hsize : R.size publicKey ≤ 0 ∨ (raw.length : ℤ) ≠ R.size publicKey
      · simp only [if_pos hsize]
        refine iff_of_false Bool.false_ne_true ?_
        rintro ⟨-, raw', hraw', hpos, hlength, -⟩
        obtain rfl := Except.ok.inj hraw'
        rcases hsize with hle | hne
        · exact absurd hpos (Int.not_lt.mpr hle)
        · exact hne hlength
      · simp only [if_neg hsize]
        obtain ⟨hpos, hlength⟩ := not_or.mp hsize
        constructor
        · intro hverify
          exact ⟨hinput, raw, rfl, Int.not_le.mp hpos, not_not.mp hlength, hverify⟩
        · rintro ⟨-, raw', hraw', -, -, hverify⟩
          obtain rfl := Except.ok.inj hraw'
          exact hverify

/-- What is signed is verified under the key of the pair. -/
theorem verifies_sign (hpair : R.IsKeyPair publicKey privateKeyPem)
    (h : signRS256Signature R input privateKeyPem = some signature) :
    R.Verifies publicKey input signature := by
  rw [signRS256Signature] at h
  by_cases hinput : input = []
  · rw [if_pos hinput] at h
    cases h
  · rw [if_neg hinput] at h
    obtain ⟨privateKey, hprivate, h⟩ := Option.bind_eq_some_iff.mp h
    split at h
    · cases h
    · obtain ⟨raw, hsign, rfl⟩ := Option.map_eq_some_iff.mp h
      obtain ⟨hne, hlength, hverify⟩ := hpair privateKey hprivate input raw hsign
      have hpos : 0 < raw.length := List.length_pos_iff.mpr hne
      exact ⟨hinput, raw, base64url.decodeChecked_encode hne, by omega, hlength, hverify⟩

/-- **Signatures under a published key.** The text that is made of the published numbers verifies
what the issuer signs, and whatever it verifies is verified by the key itself. -/
theorem published_key_verifies (hR : R.Lawful) (hpublished : R.Published publicKey modulus exponent)
    (h : jwkRsaPublicKeyToPem (rsaPublicKeyToPem R) (base64url.encode modulus)
      (base64url.encode exponent) = some pem)
    (hpair : R.IsKeyPair publicKey privateKeyPem) :
    (∀ input signature, signRS256Signature R input privateKeyPem = some signature →
      verifyRS256Signature R input signature pem = true) ∧
    ∀ input signature, verifyRS256Signature R input signature pem = true ↔
    R.Verifies publicKey input signature := by
  have hload := loadPublicKey_published hR hpublished h
  refine ⟨?_, fun input signature => verify_of_loadPublicKey hload⟩
  intro input signature hsign
  rw [verify_of_loadPublicKey hload]
  exact verifies_sign hpair hsign

end rs256

/-! ### Keys that are their modulus -/

namespace sumKeys

/-- The least number of 2048 bits. -/
@[irreducible] def leastModulus : ℕ := 2 ^ 2047

/-- The least modulus has its highest bit alone. -/
theorem two_mul_leastModulus : 2 * leastModulus = 256 ^ 256 := by
  unfold leastModulus
  decide +kernel

/-- A number of 2048 bits. -/
def Modulus : Type := { n : ℕ // leastModulus ≤ n ∧ n < 2 * leastModulus }

/-- The bytes of the modulus, in base64url. -/
def block (isPrivate : Bool) (key : Modulus) : Bytes :=
  keyBlock isPrivate (base64url.encode (bigEndian 256 key.1))

def readKey (text : Bytes) : Option Modulus :=
  match base64url.decodeChecked (stripPemMarkersAndCompact text) with
  | .error _ => none
  | .ok bytes =>
    if h : leastModulus ≤ fromBigEndian bytes ∧ fromBigEndian bytes < 2 * leastModulus then
      some ⟨fromBigEndian bytes, h⟩
    else none

/-- A number that depends on the modulus and on the input. -/
def sign (key : Modulus) (input : Bytes) : Bytes :=
  bigEndian 256 (key.1 + (input.map UInt8.toNat).sum)

end sumKeys

/-- Keys of 2048 bits. A signature has the modulus and the sum of what is signed. -/
def sumKeys : OpensslRsa where
  PKey := sumKeys.Modulus
  readPUBKEY := sumKeys.readKey
  readPrivateKey := sumKeys.readKey
  isRSA _ := true
  bits _ := 2048
  size _ := 256
  bin2bn bytes size := some (fromBigEndian (bytes.take size.toNat))
  fromData modulus _ :=
    if h : sumKeys.leastModulus ≤ modulus ∧
      modulus < 2 * sumKeys.leastModulus then some ⟨modulus, h⟩ else none
  writePUBKEY key := some (sumKeys.block false key)
  signLength _ := 256
  digestSign key input := some (sumKeys.sign key input)
  digestVerify key input signature := signature == sumKeys.sign key input

namespace sumKeys

variable (key : Modulus)

/-- A public key is read by its characters. -/
theorem readPUBKEY_eq (text : Bytes) : sumKeys.readPUBKEY text = readKey text := rfl

/-- So is a private key. -/
theorem readPrivateKey_eq (text : Bytes) : sumKeys.readPrivateKey text = readKey text := rfl

/-- A modulus has bytes. -/
theorem bigEndian_ne_nil (n : ℕ) : bigEndian 256 n ≠ [] := by
  intro hnil
  have hlength := bigEndian_length 256 n
  rw [hnil] at hlength
  cases hlength

/-- A modulus comes back from its bytes. -/
theorem fromBigEndian_modulus : fromBigEndian (bigEndian 256 key.1) = key.1 := by
  apply fromBigEndian_bigEndian
  exact key.2.2.trans_eq two_mul_leastModulus

/-- The block of a key is short. -/
theorem block_length_lt (isPrivate : Bool) : (block isPrivate key).length < 2 ^ 31 := by
  have hbody : (base64url.encode (bigEndian 256 key.1)).length = 342 := by
    rw [base64url.encode_length, bigEndian_length]
  cases isPrivate
  all_goals
    rw [block, keyBlock]
    simp only [if_true, Bool.false_eq_true, if_false, List.length_append, List.length_cons, hbody]
    decide

/-- **A key is read of its block**, trimmed or not. -/
theorem readKey_block (isPrivate : Bool) :
    readKey (trimPemContent (block isPrivate key)) = some key := by
  have hchars : ∀ ch ∈ base64url.encode (bigEndian 256 key.1), ch ∉ whitespace := by
    have hspace : ∀ ch ∈ whitespace, base64url.detail.isEncodedChar ch = false := by
      decide +kernel
    intro ch hch hwhite
    have hcoded := (base64url.mem_encode hch).1
    rw [hspace ch hwhite] at hcoded
    cases hcoded
  have hcompact : stripPemMarkersAndCompact (trimPemContent (block isPrivate key)) =
      base64url.encode (bigEndian 256 key.1) := by
    show compactText (stripPemMarkers (trimPemContent (keyBlock isPrivate _))) = _
    rw [stripPemMarkers_trimPemContent, stripPemMarkers_keyBlock, compactText_trimPemContent,
      compactText_of_not_mem hchars]
  rw [readKey, hcompact, base64url.decodeChecked_encode (bigEndian_ne_nil key.1)]
  simp only [fromBigEndian_modulus, key.2, and_self, dite_true]
  rfl

/-- These keys do what is documented of OpenSSL. -/
theorem lawful : sumKeys.Lawful where
  bin2bn bytes n h := by
    obtain rfl := Option.some.inj h
    rw [Int.toNat_natCast, List.take_length]
  write_block key pem h := by
    obtain rfl := Option.some.inj h
    exact ⟨⟨_, rfl⟩, block_length_lt key false⟩
  read_written key pem h := by
    obtain rfl := Option.some.inj h
    rw [readPUBKEY_eq]
    exact readKey_block key false

/-- The private key is read of its block, and is the key. -/
theorem loadPrivateKey_block : loadPrivateKey sumKeys (block true key) = some key := by
  obtain ⟨hnormal, hne⟩ :=
    normalizePemForRead_keyBlock true true (base64url.encode (bigEndian 256 key.1))
  have htext : bioText (trimPemContent (block true key)) = trimPemContent (block true key) := by
    apply es384.bioText_of_lt
    exact (trimPemContent_length_le _).trans_lt (block_length_lt key true)
  have hread := readKey_block key true
  rw [loadPrivateKey, block, hnormal]
  simp only [if_neg hne]
  rw [← block, htext, readPrivateKey_eq, hread]
  exact Option.filter_some_pos rfl

/-- Every input is signed. -/
theorem signRS256Signature_block {input : Bytes} (hinput : input ≠ []) :
    signRS256Signature sumKeys input (block true key) =
      some (base64url.encode (sign key input)) := by
  rw [signRS256Signature, if_neg hinput, loadPrivateKey_block]
  rfl

/-- The blocks of a key are a pair. -/
theorem isKeyPair : sumKeys.IsKeyPair key (block true key) := by
  intro privateKey hprivate input raw hsign
  obtain rfl := Option.some.inj ((loadPrivateKey_block key).symm.trans hprivate)
  obtain rfl := Option.some.inj hsign
  exact ⟨bigEndian_ne_nil _, by rw [sign, bigEndian_length]; rfl, beq_self_eq_true _⟩

/-- A key with any exponent is published. -/
theorem published {exponent : Bytes} (hne : exponent ≠ []) (hlt : exponent.length < 2 ^ 31) :
    sumKeys.Published key (bigEndian 256 key.1) exponent where
  ne_nil := ⟨bigEndian_ne_nil _, hne⟩
  length_lt := ⟨by rw [bigEndian_length]; decide, hlt⟩
  fromData := by
    rw [fromBigEndian_modulus]
    exact dif_pos key.2

/-- The block is what is made of the published numbers. -/
theorem rsaPublicKeyToPem_modulus (exponent : Bytes) :
    rsaPublicKeyToPem sumKeys (bigEndian 256 key.1) exponent = some (block false key) := by
  have hcast : staticCastInt (bigEndian 256 key.1).length = 256 := by
    rw [bigEndian_length]
    decide
  have hm : sumKeys.bin2bn (bigEndian 256 key.1) 256 = some key.1 := by
    show some (fromBigEndian (List.take 256 (bigEndian 256 key.1))) = _
    rw [List.take_of_length_le (bigEndian_length 256 key.1).le, fromBigEndian_modulus]
  have hne : block false key ≠ [] := by
    intro hnil
    have hread := readKey_block key false
    rw [hnil] at hread
    cases hread
  rw [rsaPublicKeyToPem]
  refine Option.bind_eq_some_iff.mpr ⟨key.1, hcast ▸ hm, ?_⟩
  refine Option.bind_eq_some_iff.mpr ⟨_, rfl, ?_⟩
  refine Option.bind_eq_some_iff.mpr ⟨key, ?_, ?_⟩
  · exact Option.filter_eq_some_iff.mpr ⟨dif_pos key.2, rfl⟩
  · exact Option.filter_eq_some_iff.mpr ⟨rfl, decide_eq_true hne⟩

/-- A published key is the block of its modulus. -/
theorem jwkRsaPublicKeyToPem_modulus {exponent : Bytes} (hne : exponent ≠ []) :
    jwkRsaPublicKeyToPem (rsaPublicKeyToPem sumKeys) (base64url.encode (bigEndian 256 key.1))
      (base64url.encode exponent) = some (block false key) := by
  rw [jwkRsaPublicKeyToPem_encode _ ⟨bigEndian_ne_nil _, hne⟩]
  exact rsaPublicKeyToPem_modulus key exponent

end sumKeys

/-- A key whose modulus is the least of 2048 bits. -/
def leastKey : sumKeys.Modulus := ⟨sumKeys.leastModulus, le_rfl, by
  unfold sumKeys.leastModulus
  decide +kernel⟩

/-- A key with the least modulus. -/
theorem rs256.published_key_verifies_least :
    ∃ signature, signRS256Signature sumKeys [1, 2] (sumKeys.block true leastKey) = some signature ∧
      verifyRS256Signature sumKeys [1, 2] signature (sumKeys.block false leastKey) = true := by
  have hpublished : sumKeys.Published leastKey (bigEndian 256 leastKey.1) [1, 0, 1] :=
    sumKeys.published leastKey (by decide) (by decide)
  have hpem := sumKeys.jwkRsaPublicKeyToPem_modulus leastKey hpublished.ne_nil.2
  have hverifies :=
    (rs256.published_key_verifies sumKeys.lawful hpublished hpem (sumKeys.isKeyPair leastKey)).1
  have hsign := sumKeys.signRS256Signature_block leastKey (List.cons_ne_nil 1 [2])
  exact ⟨_, hsign, hverifies _ _ hsign⟩

end SculkProtocol
