import SculkProtocol.Auth.Records
import SculkProtocol.Encryption.LockStep
import SculkProtocol.Ssl.ES384
import SculkProtocol.Ssl.PemHelper
import SculkProtocol.Utility.Readers

/-!
# Signatures with ECDSA

OpenSSL writes an ECDSA signature in DER, a token carries it in JOSE form: the two numbers, 48 bytes
each, highest byte first. `joseEs384ToDer` and `derToJoseEs384` are the two ways between them, and
keys are read from texts with new markers (`loadPublicKey`, `loadPrivateKey`).

What OpenSSL does is a parameter (`Openssl`). `verify_sign` says, from what is documented of it
(`Openssl.Lawful`), that a signature is verified under the key as it is sent, without its markers
and line breaks. The text of a key is lines of Base64 (`Base64Lines`): a blank line would be read as
the end of a header.
-/

namespace SculkProtocol

/-- What OpenSSL does with keys. A call that fails, for want of memory too, gives nothing. -/
structure Openssl where
  PKey : Type
  /-- `PEM_read_bio_PUBKEY` -/
  readPUBKEY : Bytes → Option PKey
  /-- `PEM_read_bio_PrivateKey` -/
  readPrivateKey : Bytes → Option PKey
  /-- `EVP_PKEY_base_id` is `EVP_PKEY_EC` -/
  isEC : PKey → Bool
  /-- `EVP_PKEY_get_bits` -/
  bits : PKey → ℕ
  /-- `OSSL_PKEY_PARAM_GROUP_NAME` -/
  groupName : PKey → Option Bytes
  /-- `EVP_DigestSign` with SHA-384 -/
  digestSign : PKey → Bytes → Option Bytes
  /-- `EVP_DigestVerify` with SHA-384, of an input and a signature -/
  digestVerify : PKey → Bytes → Bytes → Bool
  /-- the numbers of a signature, and how many bytes were read -/
  d2i_ECDSA_SIG : Bytes → Option ((ℕ × ℕ) × ℕ)
  i2d_ECDSA_SIG : ℕ × ℕ → Bytes
  /-- `EVP_PKEY_derive_set_peer` -/
  setPeer : PKey → PKey → Bool
  /-- the size that `EVP_PKEY_derive` announces -/
  deriveLength : PKey → PKey → ℕ
  /-- what it writes -/
  derive : PKey → PKey → Option Bytes

/-- The text in a `BIO_new_mem_buf`, whose size is an `int`: the text up to a zero if it is
negative. -/
def bioText (text : Bytes) : Bytes :=
  if staticCastInt text.length < 0 then text.takeWhile (· ≠ 0)
  else text.take (staticCastInt text.length).toNat

/-- Highest byte first. -/
def bigEndian (size n : ℕ) : Bytes := (littleEndian size n).reverse

def fromBigEndian (bs : Bytes) : ℕ := fromLittleEndian bs.reverse

/-- A number comes back from its bytes. -/
theorem fromBigEndian_bigEndian {size n : ℕ} (h : n < 256 ^ size) :
    fromBigEndian (bigEndian size n) = n := by
  rw [fromBigEndian, bigEndian, List.reverse_reverse, fromLittleEndian_littleEndian h]

/-- A number has as many bytes as its size. -/
theorem bigEndian_length (size n : ℕ) : (bigEndian size n).length = size := by
  rw [bigEndian, List.length_reverse, littleEndian_length]

namespace es384

open pem_helper

def Es384ScalarSize : ℕ := 48

def Es384JoseSigLen : ℕ := Es384ScalarSize * 2

variable (O : Openssl)

def isEs384Key (key : O.PKey) : Bool :=
  if O.isEC key = false ∨ O.bits key ≠ 384 then false
  else
    match O.groupName key with
    | none => false
    | some curve => decide (curve ≠ [] ∧ (curve = literal "secp384r1" ∨ curve = literal "P-384"))

def loadPublicKey (pem : Bytes) : Option O.PKey :=
  let normalizedPem := normalizePemForRead pem false
  if normalizedPem = [] then none
  else (O.readPUBKEY (bioText normalizedPem)).filter (isEs384Key O ·)

def loadPrivateKey (pem : Bytes) : Option O.PKey :=
  let normalizedPem := normalizePemForRead pem true
  if normalizedPem = [] then none
  else (O.readPrivateKey (bioText normalizedPem)).filter (isEs384Key O ·)

def joseEs384ToDer (joseSig : Bytes) : Option Bytes :=
  if joseSig.length ≠ Es384JoseSigLen then none
  else
    let r := fromBigEndian (joseSig.take Es384ScalarSize)
    let s := fromBigEndian (joseSig.drop Es384ScalarSize)
    if O.i2d_ECDSA_SIG (r, s) = [] then none else some (O.i2d_ECDSA_SIG (r, s))

/-- A number of more than 48 bytes is refused. -/
def derToJoseEs384 (der : Bytes) : Option Bytes :=
  match O.d2i_ECDSA_SIG der with
  | none => none
  | some ((r, s), size) =>
    if size ≠ der.length then none
    else if 256 ^ Es384ScalarSize ≤ r ∨ 256 ^ Es384ScalarSize ≤ s then none
    else some (bigEndian Es384ScalarSize r ++ bigEndian Es384ScalarSize s)

def verifyES384Signature (signingInput signature publicKeyPem : Bytes) : Bool :=
  if signingInput = [] then false
  else
    match base64url.decodeCheckedOfLength signature Es384JoseSigLen with
    | .error _ => false
    | .ok joseSig =>
      match joseEs384ToDer O joseSig, loadPublicKey O publicKeyPem with
      | some derSig, some publicKey => O.digestVerify publicKey signingInput derSig
      | _, _ => false

/-- What `signES384Signature` makes of an input before it is encoded. -/
def joseSignature (signingInput privateKeyPem : Bytes) : Option Bytes := do
  let privateKey ← loadPrivateKey O privateKeyPem
  let derSig ← O.digestSign privateKey signingInput
  if derSig = [] then none else derToJoseEs384 O derSig

end es384

open es384 pem_helper

/-- A character of Base64, or its padding. -/
def isBase64Char (ch : UInt8) : Bool :=
  decide (65 ≤ ch ∧ ch ≤ 90 ∨ 97 ≤ ch ∧ ch ≤ 122 ∨ 48 ≤ ch ∧ ch ≤ 57) || ch == 43 ||
    ch == 47 || ch == 61

/-- Lines of Base64, none of them blank: between the markers, no line break follows another one. -/
structure Base64Lines (body : Bytes) : Prop where
  chars : ∀ ch ∈ body, isBase64Char ch = true ∨ ch = newline
  not_blank : ¬ [newline, newline] <:+: newline :: (body ++ [newline])

/-- What is documented of OpenSSL: a key is Base64, whose lines may be broken anywhere as long as
none is blank, and a signature under a key of the curve is written in the DER form that is read
back. -/
structure Openssl.Lawful (O : Openssl) : Prop where
  readPUBKEY_lines (body : Bytes) : Base64Lines body → (keyBlock false body).length < 2 ^ 31 →
    O.readPUBKEY (keyBlock false (compactText body)) = O.readPUBKEY (keyBlock false body)
  digestSign_der (key : O.PKey) (input der : Bytes) : es384.isEs384Key O key = true →
    O.digestSign key input = some der →
      ∃ numbers, O.d2i_ECDSA_SIG der = some (numbers, der.length) ∧ O.i2d_ECDSA_SIG numbers = der

/-- A pair of keys as they are generated: the public key is a block of lines, and verifies what is
signed. -/
structure Openssl.IsKeyPair (O : Openssl) (keyPair : PemKeyPair) (body : Bytes)
    (publicKey : O.PKey) :
    Prop where
  block : keyPair.mPublicKeyPem = keyBlock false body
  lines : Base64Lines body
  length_lt : keyPair.mPublicKeyPem.length < 2 ^ 31
  readPUBKEY : O.readPUBKEY keyPair.mPublicKeyPem = some publicKey
  isEs384Key : es384.isEs384Key O publicKey = true
  verifies (privateKey : O.PKey) : loadPrivateKey O keyPair.mPrivateKeyPem = some privateKey →
    ∀ input der, O.digestSign privateKey input = some der →
    O.digestVerify publicKey input der = true

/-! ### Lines of Base64 -/

/-- A character of Base64 is no whitespace. -/
theorem not_mem_whitespace_of_isBase64Char {ch : UInt8} (h : isBase64Char ch = true) :
    ch ∉ whitespace := by
  intro hmem
  simp only [whitespace, List.mem_cons, List.not_mem_nil, or_false] at hmem
  rcases hmem with rfl | rfl | rfl | rfl
  all_goals exact absurd h (by decide)

/-- Lines that are not blank have a character. -/
theorem Base64Lines.compactText_ne_nil {body : Bytes} (h : Base64Lines body) :
    compactText body ≠ [] := by
  cases body with
  | nil => exact absurd List.infix_rfl h.not_blank
  | cons ch rest =>
    rcases h.chars ch List.mem_cons_self with hchar | rfl
    · have hmem : ch ∈ compactText (ch :: rest) := by
        refine List.mem_filter.mpr ⟨List.mem_cons_self, ?_⟩
        rw [Bool.not_eq_true', Bool.eq_false_iff]
        exact fun hspace => not_mem_whitespace_of_isBase64Char hchar
          (List.contains_iff_mem.mp hspace)
      exact List.ne_nil_of_mem hmem
    · exact absurd ⟨[], rest ++ [newline], rfl⟩ h.not_blank

/-- The marker has a dash, and lines of Base64 have none. -/
theorem Base64Lines.beginMarker_not_infix {body : Bytes} (h : Base64Lines body) :
    ¬ beginMarker <:+: body := by
  intro hmarker
  have hdash : (45 : UInt8) ∈ beginMarker := by decide
  exact absurd (h.chars 45 (hmarker.subset hdash)) (by decide)

namespace es384

variable {O : Openssl}

/-! ### Signatures in both forms -/

/-- What a conversion that succeeded has read. -/
theorem derToJoseEs384_ok {der joseSig : Bytes} (h : derToJoseEs384 O der = some joseSig) :
    ∃ r s, O.d2i_ECDSA_SIG der = some ((r, s), der.length) ∧ r < 256 ^ Es384ScalarSize ∧
      s < 256 ^ Es384ScalarSize ∧
      joseSig = bigEndian Es384ScalarSize r ++ bigEndian Es384ScalarSize s := by
  unfold derToJoseEs384 at h
  split at h
  · cases h
  · next r s size hread =>
    split at h
    · cases h
    · next hsize =>
      rw [not_not] at hsize
      split at h
      · cases h
      · next hbytes =>
        rw [not_or, Nat.not_le, Nat.not_le] at hbytes
        exact ⟨r, s, hsize ▸ hread, hbytes.1, hbytes.2, (Option.some.inj h).symm⟩

/-- The numbers of a signature in JOSE form. -/
theorem joseEs384ToDer_append {r s : ℕ} (hr : r < 256 ^ Es384ScalarSize)
    (hs : s < 256 ^ Es384ScalarSize)
    (hne : O.i2d_ECDSA_SIG (r, s) ≠ []) :
    joseEs384ToDer O (bigEndian Es384ScalarSize r ++ bigEndian Es384ScalarSize s) =
      some (O.i2d_ECDSA_SIG (r, s)) := by
  have hlength : (bigEndian Es384ScalarSize r ++ bigEndian Es384ScalarSize s).length =
      Es384JoseSigLen := by
    rw [List.length_append, bigEndian_length, bigEndian_length, Es384JoseSigLen, Nat.mul_two]
  have htake : (bigEndian Es384ScalarSize r ++ bigEndian Es384ScalarSize s).take Es384ScalarSize =
      bigEndian Es384ScalarSize r := List.take_left' (bigEndian_length _ _)
  have hdrop : (bigEndian Es384ScalarSize r ++ bigEndian Es384ScalarSize s).drop Es384ScalarSize =
      bigEndian Es384ScalarSize s := List.drop_left' (bigEndian_length _ _)
  rw [joseEs384ToDer, if_neg (not_not.mpr hlength)]
  simp only [htake, hdrop, fromBigEndian_bigEndian hr, fromBigEndian_bigEndian hs, if_neg hne]

/-- A signature that OpenSSL wrote comes back from its JOSE form. -/
theorem joseEs384ToDer_derToJoseEs384 (hO : O.Lawful) {key : O.PKey} {input der joseSig : Bytes}
    (hkey : isEs384Key O key = true) (hsign : O.digestSign key input = some der) (hne : der ≠ [])
    (h : derToJoseEs384 O der = some joseSig) :
    joseEs384ToDer O joseSig = some der ∧ joseSig.length = Es384JoseSigLen := by
  obtain ⟨r, s, hread, hr, hs, rfl⟩ := derToJoseEs384_ok h
  obtain ⟨numbers, hnumbers, hwritten⟩ := hO.digestSign_der _ _ _ hkey hsign
  have hsame : numbers = (r, s) := (Prod.mk.inj (Option.some.inj (hnumbers.symm.trans hread))).1
  rw [hsame] at hwritten
  refine ⟨?_, ?_⟩
  · rw [joseEs384ToDer_append hr hs (hwritten.symm ▸ hne), hwritten]
  · rw [List.length_append, bigEndian_length, bigEndian_length, Es384JoseSigLen, Nat.mul_two]

/-! ### Keys in both forms -/

/-- A text of less than `2 ^ 31` bytes is in the BIO as a whole. -/
theorem bioText_of_lt {text : Bytes} (h : text.length < 2 ^ 31) : bioText text = text := by
  have hcast := CryptoManager.staticCastInt_of_lt h
  rw [bioText, hcast, if_neg (by omega), Int.toNat_natCast, List.take_length]

/-- A shorter key has a shorter block. -/
theorem keyBlock_length (isPrivate : Bool) {s t : Bytes} (h : s.length ≤ t.length) :
    (keyBlock isPrivate s).length ≤ (keyBlock isPrivate t).length := by
  cases isPrivate
  all_goals
    simp only [keyBlock, List.length_append, List.length_cons, if_true, Bool.false_eq_true,
      if_false]
    omega

/-- A compact text stays as it is. -/
theorem compactText_idempotent (s : Bytes) : compactText (compactText s) = compactText s :=
  compactText_of_not_mem fun _ => not_mem_whitespace_of_mem_compactText

/-- A key is loaded from the text that its block is read of. -/
theorem loadPublicKey_of_readPUBKEY {pem : Bytes} {publicKey : O.PKey}
    (hne : trimPemContent pem ≠ [])
    (hmarker : ¬ beginMarker <:+: trimPemContent pem)
    (hlength : (keyBlock false (trimPemContent pem)).length < 2 ^ 31)
    (hread : O.readPUBKEY (keyBlock false (trimPemContent pem)) = some publicKey)
    (hkey : isEs384Key O publicKey = true) : loadPublicKey O pem = some publicKey := by
  have hblock : keyBlock false (trimPemContent pem) ≠ [] := by
    simp [keyBlock]
  simp only [loadPublicKey, normalizePemForRead_of_no_marker hne hmarker, if_neg hblock,
    bioText_of_lt hlength, hread, Option.filter_some, hkey, if_true]

/-- The block of a pair's public key is read without its line breaks. -/
theorem readPUBKEY_compactText (hO : O.Lawful) {keyPair : PemKeyPair} {body : Bytes}
    {publicKey : O.PKey}
    (hpair : O.IsKeyPair keyPair body publicKey) :
    O.readPUBKEY (keyBlock false (compactText body)) = some publicKey := by
  rw [hO.readPUBKEY_lines body hpair.lines (hpair.block ▸ hpair.length_lt), ← hpair.block]
  exact hpair.readPUBKEY

/-- The key of a pair is read from its characters, wherever lines are broken in them. -/
theorem loadPublicKey_of_compactText (hO : O.Lawful) {keyPair : PemKeyPair} {body pem : Bytes}
    {publicKey : O.PKey} (hpair : O.IsKeyPair keyPair body publicKey)
    (hlines : Base64Lines (trimPemContent pem)) (hpem : compactText pem = compactText body)
    (hlength : (keyBlock false (trimPemContent pem)).length < 2 ^ 31) :
    loadPublicKey O pem = some publicKey := by
  have hne : trimPemContent pem ≠ [] := by
    intro hnil
    have hchars := hlines.compactText_ne_nil
    rw [hnil] at hchars
    exact hchars rfl
  refine loadPublicKey_of_readPUBKEY hne hlines.beginMarker_not_infix hlength ?_ hpair.isEs384Key
  -- both texts are read as the one without line breaks
  rw [← hO.readPUBKEY_lines _ hlines hlength, compactText_trimPemContent, hpem]
  exact readPUBKEY_compactText hO hpair

/-- What is sent of a key is its characters. -/
theorem stripPemMarkersAndCompact_pair {keyPair : PemKeyPair} {body : Bytes} {publicKey : O.PKey}
    (hpair : O.IsKeyPair keyPair body publicKey) : stripPemMarkersAndCompact keyPair.mPublicKeyPem =
      compactText body := by
  show compactText (stripPemMarkers keyPair.mPublicKeyPem) = compactText body
  rw [hpair.block, stripPemMarkers_keyBlock, compactText_trimPemContent]

/-- So it is read from what is sent of it. -/
theorem loadPublicKey_stripped (hO : O.Lawful) {keyPair : PemKeyPair} {body : Bytes}
    {publicKey : O.PKey}
    (hpair : O.IsKeyPair keyPair body publicKey) :
    loadPublicKey O (stripPemMarkersAndCompact keyPair.mPublicKeyPem) = some publicKey := by
  have hnone : ∀ ch ∈ compactText body, ch ∉ whitespace :=
    fun _ => not_mem_whitespace_of_mem_compactText
  have htrim : trimPemContent (compactText body) = compactText body :=
    trimPemContent_of_trimmed (trimmed_of_not_mem hnone)
  rw [stripPemMarkersAndCompact_pair hpair]
  refine loadPublicKey_of_readPUBKEY ?_ ?_ ?_ ?_ hpair.isEs384Key
  all_goals rw [htrim]
  · exact hpair.lines.compactText_ne_nil
  · exact beginMarker_not_infix hnone
  · exact Nat.lt_of_le_of_lt (keyBlock_length false (List.length_filter_le _ _))
      (hpair.block ▸ hpair.length_lt)
  · exact readPUBKEY_compactText hO hpair

/-! ### What is signed is verified -/

/-- A private key that is loaded is one of the curve. -/
theorem isEs384Key_of_loadPrivateKey {pem : Bytes} {privateKey : O.PKey}
    (h : loadPrivateKey O pem = some privateKey) : isEs384Key O privateKey = true := by
  unfold loadPrivateKey at h
  dsimp only at h
  split at h
  · cases h
  · exact (Option.filter_eq_some_iff.mp h).2

/-- What a signature that was made has gone through. -/
theorem joseSignature_ok {input privateKeyPem joseSig : Bytes}
    (h : joseSignature O input privateKeyPem = some joseSig) :
    ∃ privateKey der, loadPrivateKey O privateKeyPem = some privateKey ∧
      O.digestSign privateKey input = some der ∧
      der ≠ [] ∧ derToJoseEs384 O der = some joseSig := by
  obtain ⟨privateKey, hload, h⟩ := Option.bind_eq_some_iff.mp h
  obtain ⟨der, hsign, h⟩ := Option.bind_eq_some_iff.mp h
  split at h
  · cases h
  · next hne => exact ⟨privateKey, der, hload, hsign, hne, h⟩

/-- What is signed is verified under every text of the key. -/
theorem verify_of_loadPublicKey (hO : O.Lawful) {keyPair : PemKeyPair} {body pem : Bytes}
    {publicKey : O.PKey}
    (hpair : O.IsKeyPair keyPair body publicKey) (hload : loadPublicKey O pem = some publicKey)
    {input signature : Bytes}
    (h : signES384Signature (joseSignature O) input keyPair.mPrivateKeyPem = some signature) :
    verifyES384Signature O input signature pem = true ∧ signature.length = 128 := by
  unfold signES384Signature at h
  split at h
  · cases h
  · next hinput =>
    obtain ⟨joseSig, hjose, rfl⟩ := Option.map_eq_some_iff.mp h
    obtain ⟨privateKey, der, hprivate, hsign, hne, hjoseSig⟩ := joseSignature_ok hjose
    obtain ⟨hder, hlength⟩ :=
      joseEs384ToDer_derToJoseEs384 hO (isEs384Key_of_loadPrivateKey hprivate) hsign
      hne hjoseSig
    have hjoseNe : joseSig ≠ [] := by
      rintro rfl
      cases hlength
    have hdecode := (base64url.decodeChecked_encode_length hjoseNe).2
    rw [hlength] at hdecode
    constructor
    · simp only [verifyES384Signature, if_neg hinput, hdecode, hder, hload]
      exact hpair.verifies _ hprivate _ _ hsign
    · rw [base64url.encode_length, hlength]
      rfl

/-- What is signed is verified under the key as it is sent. -/
theorem verify_sign (hO : O.Lawful) {keyPair : PemKeyPair} {body : Bytes} {publicKey : O.PKey}
    (hpair : O.IsKeyPair keyPair body publicKey) {input signature : Bytes}
    (h : signES384Signature (joseSignature O) input keyPair.mPrivateKeyPem = some signature) :
    verifyES384Signature O input signature (stripPemMarkersAndCompact keyPair.mPublicKeyPem) =
      true :=
  (verify_of_loadPublicKey hO hpair (loadPublicKey_stripped hO hpair) h).1

/-- **A signature is verified** under every text of the key without markers: the one that is sent,
and any other one with the same characters, wherever its lines are broken, as long as none is blank.
It has 128 characters. -/
theorem signature_verified (hO : O.Lawful) {keyPair : PemKeyPair} {body : Bytes}
    {publicKey : O.PKey}
    (hpair : O.IsKeyPair keyPair body publicKey) {input signature : Bytes}
    (h : signES384Signature (joseSignature O) input keyPair.mPrivateKeyPem = some signature) :
    signature.length = 128 ∧
    verifyES384Signature O input signature
      (stripPemMarkersAndCompact keyPair.mPublicKeyPem) = true ∧
    ∀ pem, Base64Lines (trimPemContent pem) → compactText pem = compactText body →
      (keyBlock false (trimPemContent pem)).length < 2 ^ 31 →
      verifyES384Signature O input signature pem = true := by
  obtain ⟨hverify, hlength⟩ := verify_of_loadPublicKey hO hpair (loadPublicKey_stripped hO hpair) h
  refine ⟨hlength, hverify, fun pem hlines hpem hsize => ?_⟩
  exact (verify_of_loadPublicKey hO hpair
    (loadPublicKey_of_compactText hO hpair hlines hpem hsize) h).1

end es384

/-! ### Small keys -/

namespace smallKeys

open es384 pem_helper

/-- The numbers below 128 in DER. -/
def der (r s : ℕ) : Bytes := [0x30, 6, 2, 1, UInt8.ofNat r, 2, 1, UInt8.ofNat s]

def ofDer : Bytes → Option ((ℕ × ℕ) × ℕ)
  | [0x30, 6, 2, 1, r, 2, 1, s] => some ((r.toNat, s.toNat), 8)
  | _ => none

def readKey (text : Bytes) : Option ℕ := some (fromLittleEndian (stripPemMarkersAndCompact text))

/-- A number that depends on the public key and on the input. -/
def digest (publicKey : ℕ) (input : Bytes) : ℕ := (publicKey + (input.map UInt8.toNat).sum) % 128

/-- Small numbers come back from their DER form. -/
theorem ofDer_der {r s : ℕ} (hr : r < 128) (hs : s < 128) : ofDer (der r s) = some ((r, s), 8) := by
  have hbyte : ∀ n < 128, (UInt8.ofNat n).toNat = n := fun n hn => by
    rw [UInt8.toNat_ofNat', Nat.mod_eq_of_lt (by omega)]
  rw [der, ofDer, hbyte r hr, hbyte s hs]

/-- A block is stripped to its characters. -/
theorem stripped_keyBlock (isPrivate : Bool) (body : Bytes) :
    stripPemMarkersAndCompact (keyBlock isPrivate body) = compactText body := by
  show compactText (stripPemMarkers (keyBlock isPrivate body)) = compactText body
  rw [stripPemMarkers_keyBlock, compactText_trimPemContent]

end smallKeys

/-- Numbers as keys: a public key is twice its private key, and a secret their product. -/
def smallKeys : Openssl where
  PKey := ℕ
  readPUBKEY := smallKeys.readKey
  readPrivateKey := smallKeys.readKey
  isEC _ := true
  bits _ := 384
  groupName _ := some (literal "P-384")
  digestSign key input := some (smallKeys.der (smallKeys.digest (2 * key) input) 1)
  digestVerify key input der := der == smallKeys.der (smallKeys.digest key input) 1
  d2i_ECDSA_SIG := smallKeys.ofDer
  i2d_ECDSA_SIG numbers := smallKeys.der numbers.1 numbers.2
  setPeer _ _ := true
  deriveLength _ _ := 48
  derive key peer := some (bigEndian 48 (key * peer))

namespace smallKeys

open es384 pem_helper

/-- Small keys do what is documented of OpenSSL. -/
theorem lawful : smallKeys.Lawful where
  readPUBKEY_lines body _ _ := by
    show readKey _ = readKey _
    rw [readKey, readKey, stripped_keyBlock, stripped_keyBlock, compactText_idempotent]
  digestSign_der := fun (key : ℕ) input der _ h => by
    obtain rfl : smallKeys.der (digest (2 * key) input) 1 = der := Option.some.inj h
    exact ⟨_, ofDer_der (Nat.mod_lt _ (by decide)) (by decide), rfl⟩

/-- The text of the private key has no markers. -/
def pair (privateKey publicKey : Bytes) : PemKeyPair := ⟨keyBlock false publicKey, privateKey⟩

/-- Characters of Base64, up to a hundred of them. -/
structure Short (text : Bytes) : Prop where
  chars : ∀ ch ∈ text, isBase64Char ch = true
  ne_nil : text ≠ []
  length_le : text.length ≤ 100

variable {privateKey publicKey : Bytes}

/-- A short text has no whitespace. -/
theorem Short.not_mem_whitespace {text : Bytes} (h : Short text) : ∀ ch ∈ text, ch ∉ whitespace :=
  fun ch hch => not_mem_whitespace_of_isBase64Char (h.chars ch hch)

/-- A short text has a short block. -/
theorem Short.keyBlock_lt {text : Bytes} (h : Short text) (isPrivate : Bool) :
    (keyBlock isPrivate text).length < 2 ^ 31 := by
  have hlength := h.length_le
  have hempty : (keyBlock isPrivate []).length ≤ 100 := by
    cases isPrivate
    all_goals decide
  have hblock : (keyBlock isPrivate text).length =
      (keyBlock isPrivate []).length + text.length := by
    cases isPrivate
    all_goals
      simp only [keyBlock, if_true, Bool.false_eq_true, if_false, List.length_append,
        List.length_cons, List.length_nil]
      omega
  omega

/-- What is read of a private key. -/
theorem readPrivateKey_pair (h : Short privateKey) :
    readKey (bioText (normalizePemForRead privateKey true)) = some (fromLittleEndian privateKey) ∧
      normalizePemForRead privateKey true ≠ [] := by
  have htrim : trimPemContent privateKey = privateKey :=
    trimPemContent_of_trimmed (trimmed_of_not_mem h.not_mem_whitespace)
  have hnormal : normalizePemForRead privateKey true = keyBlock true privateKey := by
    rw [normalizePemForRead_of_no_marker]
    · rw [htrim]
    · rw [htrim]
      exact h.ne_nil
    · rw [htrim]
      exact beginMarker_not_infix h.not_mem_whitespace
  rw [hnormal, bioText_of_lt (h.keyBlock_lt true), readKey, stripped_keyBlock,
    compactText_of_not_mem h.not_mem_whitespace]
  exact ⟨rfl, by simp [keyBlock]⟩

/-- Every small key is taken for one of the curve. -/
theorem isEs384Key (key : smallKeys.PKey) : es384.isEs384Key smallKeys key = true := by
  have hcurve : literal "P-384" ≠ [] ∧
      (literal "P-384" = literal "secp384r1" ∨ literal "P-384" = literal "P-384") := by
    decide
  simp [es384.isEs384Key, smallKeys, hcurve]

/-- The private key of a pair is loaded as its number. -/
theorem loadPrivateKey_pair (h : Short privateKey) :
    loadPrivateKey smallKeys privateKey = some (fromLittleEndian privateKey) := by
  obtain ⟨hread, hne⟩ := readPrivateKey_pair h
  have hkey : smallKeys.readPrivateKey (bioText (normalizePemForRead privateKey true)) =
      some (fromLittleEndian privateKey) := hread
  simp only [loadPrivateKey, if_neg hne, hkey]
  exact Option.filter_some_pos (isEs384Key _)

/-- The lines of a public key may be broken anywhere. -/
theorem isKeyPair {body : Bytes} (hprivate : Short privateKey) (hpublic : Base64Lines body)
    (hlength : (keyBlock false body).length < 2 ^ 31)
    (h : fromLittleEndian (compactText body) = 2 * fromLittleEndian privateKey) :
    smallKeys.IsKeyPair (pair privateKey body) body (fromLittleEndian (compactText body)) where
  block := rfl
  lines := hpublic
  length_lt := hlength
  readPUBKEY := by
    show readKey (keyBlock false body) = some (fromLittleEndian (compactText body))
    rw [readKey, stripped_keyBlock]
  isEs384Key := isEs384Key _
  verifies key hload input der hsign := by
    obtain rfl : fromLittleEndian privateKey = key :=
      Option.some.inj ((loadPrivateKey_pair hprivate).symm.trans hload)
    obtain rfl : smallKeys.der (digest (2 * fromLittleEndian privateKey) input) 1 = der :=
      Option.some.inj hsign
    rw [h]
    exact beq_self_eq_true _

end smallKeys

/-- A key whose lines are broken after its first character, and one whose lines are not. -/
theorem es384.signature_verified_small :
    ∃ signature, es384.signES384Signature (es384.joseSignature smallKeys) [1, 2]
        (smallKeys.pair [49, 50] [98, 10, 100]).mPrivateKeyPem = some signature ∧
        signature.length = 128 ∧
      es384.verifyES384Signature smallKeys [1, 2] signature [98, 100] = true ∧
      es384.verifyES384Signature smallKeys [1, 2] signature [10, 98, 10, 100, 32] = true := by
  have hlines : Base64Lines [98, 10, 100] := ⟨by decide +kernel, by decide⟩
  have hpair : smallKeys.IsKeyPair (smallKeys.pair [49, 50] [98, 10, 100]) [98, 10, 100]
      (25698 : ℕ) :=
    smallKeys.isKeyPair ⟨by decide +kernel, by decide, by decide⟩ hlines (by decide) (by decide)
  have hsigned : (es384.signES384Signature (es384.joseSignature smallKeys) [1, 2]
      (smallKeys.pair [49, 50] [98, 10, 100]).mPrivateKeyPem).isSome = true := by
    decide +kernel
  obtain ⟨signature, hsignature⟩ := Option.isSome_iff_exists.mp hsigned
  obtain ⟨hlength, -, hany⟩ := es384.signature_verified smallKeys.lawful hpair hsignature
  exact ⟨signature, hsignature, hlength, hany [98, 100] ⟨by decide +kernel, by decide⟩ (by decide)
    (by decide), hany [10, 98, 10, 100, 32] hlines (by decide) (by decide)⟩

end SculkProtocol
