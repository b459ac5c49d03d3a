import SculkProtocol.Ssl.Base64Url
import SculkProtocol.Utility.StringView

/-!
# `es384`

What OpenSSL does with a key is a parameter; the signature it makes is written in Base64Url.
-/

namespace SculkProtocol
namespace es384

open StringView

/-- `jose` is what OpenSSL makes of an input and a private key. -/
def signES384Signature (jose : Bytes → Bytes → Option Bytes) (signingInput privateKeyPem : Bytes) :
    Option Bytes :=
  if signingInput = [] then none else (jose signingInput privateKeyPem).map base64url.encode

theorem signES384Signature_no_dot {jose : Bytes → Bytes → Option Bytes}
    {input key signature : Bytes}
    (h : signES384Signature jose input key = some signature) : dot ∉ signature := by
  unfold signES384Signature at h
  split at h
  · exact absurd h (by simp)
  · obtain ⟨raw, -, rfl⟩ := Option.map_eq_some_iff.mp h
    exact fun hdot => (base64url.mem_encode hdot).2.2 rfl

theorem signES384Signature_isSome {jose : Bytes → Bytes → Option Bytes} {input key : Bytes}
    (hinput : input ≠ []) (h : (jose input key).isSome = true) :
    (signES384Signature jose input key).isSome = true := by
  rw [signES384Signature, if_neg hinput, Option.isSome_map, h]

end es384
end SculkProtocol
