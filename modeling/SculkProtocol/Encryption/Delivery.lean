import SculkProtocol.Encryption.Failure

/-!
# What a successful encryption sends

Whatever the EVP calls of an encryption answered, if it succeeded then every one of them
did, the packet fits an `int` with its checksum, and the result is the one of
`encrypt_ready` (`encrypt_ok`). So a receiver in step with the sender decrypts what was
sent, and the two are in step again (`InStep.delivered`). `decryptAll` is a receiver that
decrypts messages in the order of their arrival.
-/

namespace SculkProtocol
namespace CryptoManager

variable (E : Evp)

/-- A size that survives the cast to `int` is below `2 ^ 31`. -/
theorem lt_of_staticCastInt_eq {n : ℕ} (h : staticCastInt n = n) : n < 2 ^ 31 := by
  unfold staticCastInt at h
  rw [Int.bmod_def] at h
  split at h <;> omega

/-- Data was processed in one piece. -/
theorem ctrCrypt_fits {m : CryptoManager} {calls : EvpCalls} {ctx : Option CipherCtx}
    {bytes output : Bytes} (hne : bytes ≠ [])
    (h : (m.ctrCrypt E calls ctx bytes).2 = .ok output) : bytes.length < 2 ^ 31 := by
  have hle := staticCastInt_le bytes.length
  unfold ctrCrypt at h
  rw [if_neg hne] at h
  cases ctx with
  | none => exact absurd h (by simp)
  | some c =>
    simp only [checkOutput] at h
    split at h
    · exact absurd h (by simp)
    · next out hout =>
      split at h
      · next hlen =>
        -- the output has the length of the input, so nothing was cut off
        have hinl : bytes.length ≤ (staticCastInt bytes.length).toNat := by
          unfold cipherUpdate at hout
          split at hout
          · exact absurd hout (by simp)
          · exact absurd hout (by simp)
          · split at hout
            · exact absurd hout (by simp)
            · rw [← Option.some.inj hout, xorFrom_length, List.length_take] at hlen
              omega
        have hpos : 0 < bytes.length := List.length_pos_iff.mpr hne
        generalize hinl' : staticCastInt bytes.length = inl at hle hinl
        have heq : inl = bytes.length := by omega
        exact lt_of_staticCastInt_eq (hinl'.trans heq)
      · exact absurd h (by simp)

/-- **An encryption that succeeded** is one whose EVP calls all succeeded. -/
theorem encrypt_ok {m : CryptoManager} (hk : m.KeyOk) {calls : EvpCalls} {input cipher : Bytes}
    (hne : input ≠ []) (h : (m.encrypt E calls input).2 = .ok cipher) :
    m.encrypt E calls input = m.encrypt E .succeed input ∧
      input.length + CHECKSUM_SIZE < 2 ^ 31 := by
  have hsum : input ++ m.checksum E m.mEncryptCounter input ≠ [] := by simp [hne]
  have hlen : (input ++ m.checksum E m.mEncryptCounter input).length
      = input.length + CHECKSUM_SIZE := by simp
  have hopened : CryptoManager.openCipher { m with mEncryptCounter := m.mEncryptCounter + 1 }
      calls m.mEncryptCtx = m.openCipher calls m.mEncryptCtx := rfl
  have henc : m.encrypt E calls input = m.encrypt E calls input := rfl
  -- unfolded on one side only
  conv at henc => rhs; rw [encrypt, if_neg hne]
  simp only [hopened] at henc
  cases hopen : (m.openCipher calls m.mEncryptCtx).2 with
  | false =>
    rw [henc] at h
    simp [hopen] at h
  | true =>
    simp only [hopen, Bool.not_true, Bool.false_eq_true, if_false] at henc
    rw [henc] at h
    obtain ⟨p, hp, hcipher, hctx⟩ := ctrCrypt_ok E hsum h
    have hfits := ctrCrypt_fits E hsum h
    rw [hlen] at hfits
    rw [openCipher_ok hopen] at hp
    refine ⟨?_, hfits⟩
    -- both sides are the ciphertext of the same stream at the same position
    have hctx' := hctx
    rw [hlen] at hctx'
    rw [henc, encrypt_ready E hk hp hne hfits]
    dsimp only at h hctx' hcipher
    rw [h, hctx', hcipher]
    rfl

/-- **Delivery.** What was encrypted is decrypted by a receiver in step, and the two are in
step again. -/
theorem InStep.delivered {s r : CryptoManager} (h : InStep s r) {calls : EvpCalls}
    {plain cipher : Bytes} (hok : (s.encrypt E calls plain).2 = .ok cipher) :
    (r.decrypt E .succeed cipher).2 = .ok plain ∧
      InStep (s.encrypt E calls plain).1 (r.decrypt E .succeed cipher).1 := by
  by_cases hne : plain = []
  · subst hne
    cases hok
    exact ⟨rfl, h⟩
  · obtain ⟨heq, hfits⟩ := encrypt_ok E h.keyOk hne hok
    have htransfer := h.transfer E hfits
    rw [heq] at hok ⊢
    simpa only [CryptoManager.transfer, hok] using htransfer

/-- The messages are decrypted in this order. -/
def decryptAll : CryptoManager → List Bytes → CryptoManager × List (Except String Bytes)
  | r, [] => (r, [])
  | r, cipher :: ciphers =>
    let decrypted := r.decrypt E .succeed cipher
    let rest := decryptAll decrypted.1 ciphers
    (rest.1, decrypted.2 :: rest.2)

theorem decryptAll_append (r : CryptoManager) (ciphers more : List Bytes) :
    decryptAll E r (ciphers ++ more) =
      ((decryptAll E (decryptAll E r ciphers).1 more).1,
        (decryptAll E r ciphers).2 ++ (decryptAll E (decryptAll E r ciphers).1 more).2) := by
  induction ciphers generalizing r with
  | nil => rfl
  | cons cipher ciphers ih => simp only [List.cons_append, decryptAll, ih]

@[simp] theorem decryptAll_length (r : CryptoManager) (ciphers : List Bytes) :
    (decryptAll E r ciphers).2.length = ciphers.length := by
  induction ciphers generalizing r with
  | nil => rfl
  | cons cipher ciphers ih => simp only [decryptAll, List.length_cons, ih]

end CryptoManager
end SculkProtocol
