import Mathlib.Data.Int.Basic
import SculkProtocol.Utility.Result

/-!
# Certificates and the Mojang chain

A legacy login carries a chain of certificates: the client's, Mojang's and the login
certificate, each naming the key it is signed under (`x5u`) and the key it certifies
(`identityPublicKey`). A self-signed login carries the last one alone.

Signature verification is a parameter (`Signatures`), and so is what the clock shows.
Times are integers, so the sums of the time checks do not wrap.

`MojangChain` is what `verifyOnline` is for. It differs from the code in the comparison of
Mojang's key: the source returns its mismatch error when the keys are equal.
`verifyOnline_iff` says for which chains the two agree, and `genuine_chain_refused` that
the genuine ones are not among them.
-/

namespace SculkProtocol

/-- `es384::verifyES384Signature` and `rs256::verifyRS256Signature`, as functions of the
signing input, the signature and the public key. -/
structure Signatures where
  verifyES384Signature : Bytes → Bytes → Bytes → Bool
  verifyRS256Signature : Bytes → Bytes → Bytes → Bool

/-- `std::chrono::system_clock::time_point`, in nanoseconds since the epoch. -/
abbrev TimePoint := ℤ

/-- `std::chrono::duration_cast<std::chrono::seconds>(..).count()` -/
def TimePoint.seconds (t : TimePoint) : ℤ := t.tdiv 1000000000

/-- A duration of so many seconds. -/
def seconds (count : ℤ) : ℤ := count * 1000000000

namespace Certificate

structure Header where
  alg : Bytes := []
  x5u : Bytes := []
  x5t : Option Bytes := none
  deriving DecidableEq

structure ExtraData where
  identity : Bytes := []
  displayName : Bytes := []
  XUID : Bytes := []
  titleId : Bytes := []
  sandBoxId : Bytes := []
  deriving DecidableEq

structure Payload where
  nbf : ℤ := 0
  exp : ℤ := 0
  identityPublicKey : Bytes := []
  certificateAuthority : Option Bool := none
  randomNonce : Option ℤ := none
  iss : Option Bytes := none
  iat : Option ℤ := none
  extraData : Option ExtraData := none
  deriving DecidableEq

end Certificate

structure Certificate where
  mRawHeader : Bytes := []
  mHeader : Certificate.Header := {}
  mRawPayload : Bytes := []
  mPayload : Certificate.Payload := {}
  mSignature : Bytes := []
  deriving DecidableEq

namespace Certificate

variable (S : Signatures) (cert : Certificate)

def checkTimeValidity (leeway : ℤ) (now : TimePoint) : Bool :=
  let nowSec := now.seconds
  if cert.mPayload.nbf > nowSec + leeway then false
  else if nowSec - leeway > cert.mPayload.exp then false
  else
    match cert.mPayload.iat with
    | some iat => !decide (iat > nowSec + leeway)
    | none => true

def checkIssuer (expectedIssuer : Bytes) : Bool := cert.mPayload.iss == some expectedIssuer

/-- `std::format("{}.{}", mRawHeader, mRawPayload)` -/
def signingInput (rawHeader rawPayload : Bytes) : Bytes := rawHeader ++ literal "." ++ rawPayload

theorem signingInput_ne_nil (rawHeader rawPayload : Bytes) :
    signingInput rawHeader rawPayload ≠ [] := by
  have hdot : literal "." ≠ [] := by decide
  simp [signingInput, hdot]

def verify (publicKeyPem : Bytes) : Bool :=
  S.verifyES384Signature (signingInput cert.mRawHeader cert.mRawPayload) cert.mSignature
    publicKeyPem

end Certificate

structure LegacyCertificateChain where
  mClientCertificate : Option Certificate := none
  mMojangCertificate : Option Certificate := none
  mLoginCertificate : Certificate := {}
  deriving DecidableEq

namespace LegacyCertificateChain

@[irreducible] def LEGACY_MOJANG_PUBLIC_KEY_PEM : Bytes :=
  literal "MHYwEAYHKoZIzj0CAQYFK4EEACIDYgAECRXueJeTDqNRRgJi/vlRufByu/2G0i2Ebt6YMar5QX/R0DII" ++
    literal "yrJMcUpruK4QveTfJSTp3Shlq4Gk34cD/4GUWwkv0DVuzeuB+tXija7HBxii03NHDbPAD0AKnLr2wdAp"

variable (S : Signatures) (chain : LegacyCertificateChain) (leeway : ℤ) (now : TimePoint)

def getClientPublicKey : Bytes :=
  match chain.mClientCertificate with
  | some client => client.mPayload.identityPublicKey
  | none => chain.mLoginCertificate.mPayload.identityPublicKey

def verifyOnline : Except String Unit :=
  match chain.mClientCertificate, chain.mMojangCertificate with
  | some client, some mojang => do
    failIf (client.mHeader.x5u ≠ chain.mLoginCertificate.mPayload.identityPublicKey)
      "Client certificate does not match login certificate"
    failIf (client.checkTimeValidity leeway now = false)
      "Client certificate time validity check failed"
    failIf (client.verify S client.mHeader.x5u = false)
      "Client certificate signature verification failed"
    failIf (mojang.mHeader.x5u ≠ client.mPayload.identityPublicKey)
      "Mojang certificate does not match client certificate"
    failIf (mojang.checkTimeValidity leeway now = false)
      "Mojang certificate time validity check failed"
    failIf (mojang.checkIssuer (literal "Mojang") = false)
      "Mojang certificate issuer check failed"
    failIf (mojang.mHeader.x5u = LEGACY_MOJANG_PUBLIC_KEY_PEM)
      "Mojang public key mismatch`"
    failIf (mojang.verify S LEGACY_MOJANG_PUBLIC_KEY_PEM = false)
      "Mojang certificate signature verification failed"
    failIf (chain.mLoginCertificate.mHeader.x5u ≠ mojang.mPayload.identityPublicKey)
      "Login certificate does not match mojang certificate"
    failIf (chain.mLoginCertificate.checkTimeValidity leeway now = false)
      "Login certificate time validity check failed"
    failIf (chain.mLoginCertificate.checkIssuer (literal "Mojang") = false)
      "Login certificate issuer check failed"
    failIf (chain.mLoginCertificate.verify S chain.mLoginCertificate.mHeader.x5u = false)
      "Login certificate signature verification failed"
  | _, _ => .error "Legacy certificate chain must contain both client and Mojang certificates"

def verifySelfSigned : Except String Unit := do
  failIf (chain.mClientCertificate.isSome ∨ chain.mMojangCertificate.isSome)
    ("Self-signed legacy certificate chain should only contains a login certificate, " ++
      "client and Mojang certificates should not be present")
  failIf (chain.mLoginCertificate.mHeader.x5u ≠ chain.mLoginCertificate.mPayload.identityPublicKey)
    "Login certificate does not match itself"
  failIf (chain.mLoginCertificate.checkTimeValidity leeway now = false)
    "Login certificate time validity check failed"
  failIf (chain.mLoginCertificate.verify S chain.mLoginCertificate.mHeader.x5u = false)
    "Login certificate signature verification failed"

/-! ### The Mojang chain -/

/-- All that ties the certificates of a Mojang chain to each other, to the time and to
their issuer, with the Mojang certificate signed under the known key. -/
structure Tied (client mojang login : Certificate) : Prop where
  clientValid : client.checkTimeValidity leeway now = true
  mojangValid : mojang.checkTimeValidity leeway now = true
  loginValid : login.checkTimeValidity leeway now = true
  clientSigned : client.verify S client.mHeader.x5u = true
  clientKey : client.mPayload.identityPublicKey = mojang.mHeader.x5u
  mojangSigned : mojang.verify S LEGACY_MOJANG_PUBLIC_KEY_PEM = true
  mojangKey : mojang.mPayload.identityPublicKey = login.mHeader.x5u
  loginSigned : login.verify S login.mHeader.x5u = true
  mojangIssuer : mojang.checkIssuer (literal "Mojang") = true
  loginIssuer : login.checkIssuer (literal "Mojang") = true
  loginKey : login.mPayload.identityPublicKey = client.mHeader.x5u

/-- **A well-formed Mojang chain**: its three certificates are tied together, and the
Mojang certificate names the known key as its own. -/
def MojangChain : Prop :=
  ∃ client mojang, chain.mClientCertificate = some client ∧
    chain.mMojangCertificate = some mojang ∧
    Tied S leeway now client mojang chain.mLoginCertificate ∧
    mojang.mHeader.x5u = LEGACY_MOJANG_PUBLIC_KEY_PEM

/-- Every check of a chain passes, that of Mojang's key left out. -/
def PassesOtherChecks : Prop :=
  ∃ client mojang, chain.mClientCertificate = some client ∧
    chain.mMojangCertificate = some mojang ∧
    Tied S leeway now client mojang chain.mLoginCertificate

variable {S chain leeway now}

/-- What `verifyOnline` accepts: Mojang's key has to differ from the known one. -/
theorem verifyOnline_ok {client mojang : Certificate}
    (hclient : chain.mClientCertificate = some client)
    (hmojang : chain.mMojangCertificate = some mojang) :
    chain.verifyOnline S leeway now = .ok () ↔
      Tied S leeway now client mojang chain.mLoginCertificate ∧
        mojang.mHeader.x5u ≠ LEGACY_MOJANG_PUBLIC_KEY_PEM := by
  simp only [verifyOnline, hclient, hmojang, failIf_bind_eq_ok, failIf_eq_ok, not_not,
    Bool.not_eq_false]
  constructor
  · rintro ⟨h1, h2, h3, h4, h5, h6, h7, h8, h9, h10, h11, h12⟩
    exact ⟨⟨h2, h5, h10, h3, h4.symm, h8, h9.symm, h12, h6, h11, h1.symm⟩, h7⟩
  · rintro ⟨⟨h2, h5, h10, h3, h4, h8, h9, h12, h6, h11, h1⟩, h7⟩
    exact ⟨h1.symm, h2, h3, h4.symm, h5, h6, h7, h8, h9.symm, h10, h11, h12⟩

/-- A chain that is accepted has all its certificates. -/
theorem verifyOnline_certificates (h : chain.verifyOnline S leeway now = .ok ()) :
    ∃ client mojang, chain.mClientCertificate = some client ∧
      chain.mMojangCertificate = some mojang := by
  cases hclient : chain.mClientCertificate with
  | none => simp [verifyOnline, hclient] at h
  | some client =>
    cases hmojang : chain.mMojangCertificate with
    | none => simp [verifyOnline, hclient, hmojang] at h
    | some mojang => exact ⟨client, mojang, rfl, rfl⟩

/-- A self-signed chain is a login certificate alone. -/
theorem verifySelfSigned_certificates (h : chain.verifySelfSigned S leeway now = .ok ()) :
    chain.mClientCertificate = none ∧ chain.mMojangCertificate = none := by
  simp only [verifySelfSigned, failIf_bind_eq_ok, not_or, Bool.not_eq_true,
    Option.isSome_eq_false_iff, Option.isNone_iff_eq_none] at h
  exact h.1

/-- A self-signed certificate is signed with the key it certifies. -/
theorem verifySelfSigned_key (h : chain.verifySelfSigned S leeway now = .ok ()) :
    chain.mLoginCertificate.mHeader.x5u = chain.mLoginCertificate.mPayload.identityPublicKey := by
  simp only [verifySelfSigned, failIf_bind_eq_ok, not_not] at h
  exact h.2.1

variable (S chain leeway now)

/-- **Which chains are accepted.** `verifyOnline` accepts the well-formed Mojang chains and
no others exactly when one of the other checks fails: of the chains that pass them, it
refuses the well-formed ones and accepts the rest. -/
theorem accepts_mojangChains_iff :
    (chain.verifyOnline S leeway now = .ok () ↔ chain.MojangChain S leeway now) ↔
      ¬ chain.PassesOtherChecks S leeway now := by
  constructor
  · rintro hagree ⟨client, mojang, hclient, hmojang, htied⟩
    have hok : chain.verifyOnline S leeway now = .ok () ↔ _ := verifyOnline_ok hclient hmojang
    by_cases hkey : mojang.mHeader.x5u = LEGACY_MOJANG_PUBLIC_KEY_PEM
    · -- a genuine chain
      exact (hok.mp (hagree.mpr ⟨client, mojang, hclient, hmojang, htied, hkey⟩)).2 hkey
    · -- the Mojang certificate names another key than the one it is signed under
      obtain ⟨client', mojang', -, hmojang', -, hkey'⟩ := hagree.mp (hok.mpr ⟨htied, hkey⟩)
      rw [hmojang] at hmojang'
      cases hmojang'
      exact hkey hkey'
  · intro hother
    constructor
    · intro hok
      obtain ⟨client, mojang, hclient, hmojang⟩ := verifyOnline_certificates hok
      exact absurd ⟨client, mojang, hclient, hmojang,
        ((verifyOnline_ok hclient hmojang).mp hok).1⟩ hother
    · rintro ⟨client, mojang, hclient, hmojang, htied, -⟩
      exact absurd ⟨client, mojang, hclient, hmojang, htied⟩ hother

/-- A genuine chain: each certificate is signed under its own key and certifies the next. -/
def genuine : LegacyCertificateChain :=
  let mojangKey := LEGACY_MOJANG_PUBLIC_KEY_PEM
  { mClientCertificate := some
      { mHeader := { alg := literal "ES384", x5u := literal "client" }
        mPayload :=
          { exp := 100, identityPublicKey := mojangKey, certificateAuthority := some true }
        mSignature := literal "client" }
    mMojangCertificate := some
      { mHeader := { alg := literal "ES384", x5u := mojangKey }
        mPayload :=
          { exp := 100, identityPublicKey := literal "login", iss := some (literal "Mojang") }
        mSignature := mojangKey }
    mLoginCertificate :=
      { mHeader := { alg := literal "ES384", x5u := literal "login" }
        mPayload :=
          { exp := 100, identityPublicKey := literal "client", iss := some (literal "Mojang") }
        mSignature := literal "login" } }

/-- **A genuine chain is refused**, here with signatures that are the key they verify
under. -/
theorem genuine_chain_refused :
    ∃ S, genuine.MojangChain S 60 0 ∧
      genuine.verifyOnline S 60 0 = .error "Mojang public key mismatch`" := by
  refine ⟨⟨fun _ signature key => signature == key, fun _ _ _ => false⟩,
    ⟨_, _, rfl, rfl, ?_, rfl⟩, ?_⟩
  · constructor <;> simp [genuine, Certificate.checkTimeValidity, Certificate.checkIssuer,
      Certificate.verify, TimePoint.seconds]
  · simp [verifyOnline, genuine, failIf, Certificate.checkTimeValidity, Certificate.checkIssuer,
      Certificate.verify, TimePoint.seconds, bind, Except.bind]

end LegacyCertificateChain
end SculkProtocol
