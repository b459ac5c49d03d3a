import SculkProtocol.Encryption.LockStep

/-!
# What a failed operation leaves behind

`decrypt_cases` lists the ways a packet of at least a checksum's length can go,
whatever the EVP calls answer: the cipher cannot be initialised, the data cannot be
processed, or the packet is decrypted and its checksum is compared. In the last
case the counter and the keystream have moved on before the comparison, so a packet
that fails it leaves the receiver where a genuine packet of the same length would
have (`MovedPast`): a sender and a receiver stay in step when the bad packet stood in
the place of a good one. `failure_effects` collects the cases; `refused_packet_moves`
is the plain consequence that a refused packet changes the state.
-/

namespace SculkProtocol
namespace CryptoManager

variable (E : Evp)

theorem staticCastInt_le (n : ℕ) : staticCastInt n ≤ n := by
  unfold staticCastInt
  rw [Int.bmod_def]
  split <;> omega

/-- A context that may be used stands where it stood before it was opened. -/
theorem openCipher_ok {m : CryptoManager} {calls : EvpCalls} {ctx : Option CipherCtx}
    (h : (m.openCipher calls ctx).2 = true) :
    readyAt (m.openCipher calls ctx).1 = readyAt ctx := by
  cases ctx with
  | some c => rfl
  | none =>
    simp only [openCipher, initializeCipher] at h ⊢
    split at h
    · exact absurd h (by simp)
    · split
      · rfl
      · next hinit =>
        split
        · next hnew => rw [if_neg ‹_›, if_pos hnew] at h; exact absurd h (by simp)
        · rfl

/-- A context that failed to open is at the beginning, where it was. -/
theorem openCipher_position (m : CryptoManager) (calls : EvpCalls) (ctx : Option CipherCtx) :
    position (m.openCipher calls ctx).1 = position ctx := by
  cases ctx with
  | some c => rfl
  | none =>
    simp only [openCipher, initializeCipher]
    split
    · rfl
    · split
      · rfl
      · split <;> rfl

/-- Output of the expected size is the keystream combination of the whole input. -/
theorem cipherUpdate_ok {m : CryptoManager} {calls : EvpCalls} {c : CipherCtx}
    {bytes output : Bytes} {inl : ℤ} (hle : inl ≤ bytes.length)
    (h : (checkOutput bytes.length (m.cipherUpdate E calls c bytes inl)).2 = .ok output) :
    ∃ p, c.position = some p ∧ output = xorFrom (m.keystream E) p bytes ∧
      (checkOutput bytes.length (m.cipherUpdate E calls c bytes inl)).1
        = some ⟨some (p + bytes.length)⟩ := by
  obtain ⟨pos⟩ := c
  cases pos with
  | none => exact absurd h (by simp [cipherUpdate, checkOutput])
  | some p =>
    cases hfail : calls.updateFails with
    | some k => exact absurd h (by simp [cipherUpdate, checkOutput, hfail])
    | none =>
      by_cases hneg : inl < 0
      · exact absurd h (by simp [cipherUpdate, checkOutput, hfail, hneg])
      · simp only [cipherUpdate, checkOutput, hfail, if_neg hneg] at h ⊢
        split at h
        · next hlen =>
          -- nothing was cut off, so the whole input was processed
          rw [xorFrom_length, List.length_take] at hlen
          have hall : inl.toNat = bytes.length := by omega
          rw [hall, List.take_length] at h ⊢
          cases h
          exact ⟨p, rfl, rfl, by rw [if_pos (xorFrom_length _ _ _)]⟩
        · exact absurd h (by simp)

/-- Data that was processed is the keystream combination at the old position. -/
theorem ctrCrypt_ok {m : CryptoManager} {calls : EvpCalls} {ctx : Option CipherCtx}
    {bytes output : Bytes} (hne : bytes ≠ [])
    (h : (m.ctrCrypt E calls ctx bytes).2 = .ok output) :
    ∃ p, readyAt ctx = some p ∧ output = xorFrom (m.keystream E) p bytes ∧
      (m.ctrCrypt E calls ctx bytes).1 = some ⟨some (p + bytes.length)⟩ := by
  unfold ctrCrypt at h ⊢
  rw [if_neg hne] at h ⊢
  cases ctx with
  | none => exact absurd h (by simp)
  | some c => exact cipherUpdate_ok E (staticCastInt_le _) h

/-- **How a packet goes** that is at least as long as a checksum. -/
theorem decrypt_cases (m : CryptoManager) (calls : EvpCalls) {input : Bytes}
    (h8 : CHECKSUM_SIZE ≤ input.length) :
    ((m.decrypt E calls input).2 = .error "Failed to initialize decryption cipher" ∧
      (m.decrypt E calls input).1.mDecryptCounter = m.mDecryptCounter ∧
      (m.decrypt E calls input).1.decryptPosition = m.decryptPosition) ∨
    ((m.decrypt E calls input).2 = .error "Failed to decrypt data" ∧
      (m.decrypt E calls input).1.mDecryptCounter = m.mDecryptCounter) ∨
    (∃ p, readyAt m.mDecryptCtx = some p ∧
      (m.decrypt E calls input).1 =
        { m with
          mDecryptCounter := m.mDecryptCounter + 1
          mDecryptCtx := some ⟨some (p + input.length)⟩ } ∧
      let clear := xorFrom (m.keystream E) p input
      let payload := clear.take (input.length - CHECKSUM_SIZE)
      (m.decrypt E calls input).2 =
        if m.checksum E m.mDecryptCounter payload = clear.drop (input.length - CHECKSUM_SIZE)
          then .ok payload else .error "Failed to verify decrypted data") := by
  have hne : input ≠ [] := by
    intro h0
    rw [h0] at h8
    exact absurd h8 (by simp [CHECKSUM_SIZE])
  have hnot : ¬ input.length < CHECKSUM_SIZE := by omega
  unfold decrypt
  rw [if_neg hne, if_neg hnot]
  cases hopen : (m.openCipher calls m.mDecryptCtx).2 with
  | false =>
    -- OpenSSL has refused the context, which is left as it was
    left
    simp only [hopen, Bool.not_false, if_true, decryptPosition, openCipher_position, and_self]
  | true =>
    right
    simp only [hopen, Bool.not_true, Bool.false_eq_true, if_false]
    -- the counter moves on where the text was deciphered, checked or not
    cases hcrypt : (m.ctrCrypt E calls (m.openCipher calls m.mDecryptCtx).1 input).2 with
    | error e => left; simp
    | ok clear =>
      right
      obtain ⟨p, hp, hclear, hctx⟩ := ctrCrypt_ok E hne hcrypt
      rw [openCipher_ok hopen] at hp
      refine ⟨p, hp, ?_⟩
      -- the checksum does not depend on the context
      have hcongr (ctx : Option CipherCtx) (counter : UInt64) (data : Bytes) :
          ({ m with mDecryptCtx := ctx }).checksum E counter data
            = m.checksum E counter data := rfl
      simp only [hctx, hclear, verify, xorFrom_length, if_neg hnot, hcongr, beq_iff_eq]
      split <;> exact ⟨rfl, rfl⟩

/-- The errors of `ctrCrypt` are its own. -/
theorem ctrCrypt_error {m : CryptoManager} {calls : EvpCalls} {ctx : Option CipherCtx}
    {bytes : Bytes} {e : String} (h : (m.ctrCrypt E calls ctx bytes).2 = .error e) :
    e = "Cipher context is not initialized" ∨ e = "Failed to process data with cipher" := by
  unfold ctrCrypt at h
  split at h
  · exact absurd h (by simp)
  · cases ctx with
    | none => cases h; exact Or.inl rfl
    | some c =>
      simp only [checkOutput] at h
      split at h
      · cases h; exact Or.inr rfl
      · split at h
        · exact absurd h (by simp)
        · cases h; exact Or.inr rfl

/-- A failed initialisation leaves the sender's keystream where it was. -/
theorem encrypt_initFailed {m : CryptoManager} {calls : EvpCalls} {input : Bytes}
    (h : (m.encrypt E calls input).2 = .error "Failed to initialize encryption cipher") :
    (m.encrypt E calls input).1.encryptPosition = m.encryptPosition := by
  by_cases hne : input = []
  · rw [encrypt, if_pos hne]
  · have hopened : CryptoManager.openCipher { m with mEncryptCounter := m.mEncryptCounter + 1 }
        calls m.mEncryptCtx = m.openCipher calls m.mEncryptCtx := rfl
    simp only [encrypt, if_neg hne, hopened] at h ⊢
    cases hopen : (m.openCipher calls m.mEncryptCtx).2 with
    | false => simp only [Bool.not_false, if_true, encryptPosition, openCipher_position]
    | true =>
      simp only [hopen, Bool.not_true, Bool.false_eq_true, if_false] at h
      rcases ctrCrypt_error E h with he | he <;> exact absurd he (by decide)

/-- A receiver that has compared a checksum is in step with the sender of any ciphertext
of the same length. -/
theorem InStep.decrypt {s m : CryptoManager} (h : InStep s m) {calls : EvpCalls} {input : Bytes}
    (h8 : CHECKSUM_SIZE ≤ input.length)
    (hcompared : (m.decrypt E calls input).2 = .error "Failed to verify decrypted data")
    {plain : Bytes} (hlt : plain.length + CHECKSUM_SIZE < 2 ^ 31)
    (hlen : input.length = plain.length + CHECKSUM_SIZE) (hne : plain ≠ []) :
    InStep (s.encrypt E .succeed plain).1 (m.decrypt E calls input).1 := by
  have hstep := h.received E hne hlt input hlen
  obtain ⟨hk, hkey, hblock, hcounter, p, hs, hr⟩ := h
  have hkm : m.KeyOk := by unfold KeyOk at hk ⊢; rwa [← hkey]
  -- the checksum is compared after all calls have succeeded
  have hsame : (m.decrypt E calls input).1 = (m.decrypt E .succeed input).1 := by
    rw [decrypt_ready E hkm hr h8 (by omega)]
    rcases decrypt_cases E m calls h8 with ⟨h1, -⟩ | ⟨h1, -⟩ | ⟨q, hq, h1, -⟩
    · exact absurd (h1.symm.trans hcompared) (by simp)
    · exact absurd (h1.symm.trans hcompared) (by simp)
    · rw [hr] at hq
      cases hq
      exact h1
  rw [hsame]
  exact hstep

/-- The receiver has moved past a packet of `length` bytes, and a sender whose packet of
this length it was can go on. -/
structure MovedPast (m m' : CryptoManager) (length : ℕ) : Prop where
  counter : m'.mDecryptCounter = m.mDecryptCounter + 1
  position : m'.decryptPosition = m.decryptPosition + length
  next : ∀ (s : CryptoManager) (plain next : Bytes), InStep s m → plain ≠ [] →
    plain.length + CHECKSUM_SIZE < 2 ^ 31 → length = plain.length + CHECKSUM_SIZE →
    next.length + CHECKSUM_SIZE < 2 ^ 31 →
    (transfer E (s.encrypt E .succeed plain).1 m' next).received = .ok next

/-- **What failures leave behind.** A cipher that cannot be initialised moves nothing; a
packet that cannot be processed does not count; a packet that fails its verification
takes the place of a genuine one. -/
theorem failure_effects (m : CryptoManager) (calls : EvpCalls) (input : Bytes) :
    ((m.encrypt E calls input).2 = .error "Failed to initialize encryption cipher" →
      (m.encrypt E calls input).1.encryptPosition = m.encryptPosition) ∧
    ∀ e, (m.decrypt E calls input).2 = .error e →
      (e = "Failed to initialize decryption cipher" ∧
        (m.decrypt E calls input).1.mDecryptCounter = m.mDecryptCounter ∧
        (m.decrypt E calls input).1.decryptPosition = m.decryptPosition) ∨
      (e = "Failed to decrypt data" ∧
        (m.decrypt E calls input).1.mDecryptCounter = m.mDecryptCounter) ∨
      (e = "Failed to verify decrypted data" ∧
        MovedPast E m (m.decrypt E calls input).1 input.length) := by
  refine ⟨encrypt_initFailed E, fun e he => ?_⟩
  by_cases h8 : CHECKSUM_SIZE ≤ input.length
  · rcases decrypt_cases E m calls h8 with ⟨h1, h2, h3⟩ | ⟨h1, h2⟩ | ⟨p, hp, h1, h2⟩
    · rw [h1] at he
      cases he
      exact Or.inl ⟨rfl, h2, h3⟩
    · rw [h1] at he
      cases he
      exact Or.inr (Or.inl ⟨rfl, h2⟩)
    · have hverify : e = "Failed to verify decrypted data" := by
        dsimp only at h2
        rw [h2] at he
        split at he
        · exact absurd he (by simp)
        · cases he; rfl
      subst hverify
      refine Or.inr (Or.inr ⟨rfl, by rw [h1], ?_, fun s plain next hs hne hlt hlen hnext => ?_⟩)
      · rw [h1]
        simp only [decryptPosition, position, hp]
        rfl
      · exact ((hs.decrypt E h8 he hlt hlen hne).transfer E hnext).1
  · -- a shorter packet is not refused
    rw [decrypt] at he
    split at he
    · exact absurd he (by simp)
    · rw [if_pos (by omega)] at he
      exact absurd he (by simp)

/-! ### A packet that fails its verification -/

/-- What decrypts to a wrong checksum over an empty payload. -/
def forged (m : CryptoManager) : Bytes :=
  xorFrom (m.keystream E) 0 ((m.checksum E 0 []).map (· ^^^ 1))

theorem map_xor_one_ne {bytes : Bytes} (h : bytes ≠ []) : bytes ≠ bytes.map (· ^^^ 1) := by
  cases bytes with
  | nil => exact absurd rfl h
  | cons b bytes =>
    intro heq
    have hb : b = b ^^^ 1 := (List.cons.inj heq).1
    have h1 : b ^^^ b = b ^^^ (b ^^^ 1) := congrArg (b ^^^ ·) hb
    rw [← UInt8.xor_assoc, UInt8.xor_self, UInt8.zero_xor] at h1
    exact absurd h1 (by decide)

theorem forged_length (m : CryptoManager) : (forged E m).length = CHECKSUM_SIZE := by
  simp [forged]

/-- A fresh manager refuses the forged packet. -/
theorem decrypt_forged {key : Bytes} (hk : (create key).KeyOk) :
    ((create key).decrypt E .succeed (forged E (create key))).2
      = .error "Failed to verify decrypted data" := by
  have hlen := forged_length E (create key)
  rw [decrypt_ready E (p := 0) hk rfl (by omega) (by rw [hlen]; decide)]
  simp only [hlen, Nat.sub_self, List.take_zero, List.drop_zero]
  rw [if_neg]
  rw [forged, xorFrom_xorFrom]
  refine map_xor_one_ne fun h0 => ?_
  have := checksum_length E (create key) 0 []
  rw [show (create key).checksum E 0 [] = [] from h0] at this
  exact absurd this (by decide)

/-- A refused packet moves the receiver, whatever the keystream and the hash are. -/
theorem refused_packet_moves :
    ¬ ∃ E : Evp, ∀ (m : CryptoManager) (calls : EvpCalls) (input : Bytes) (e : String),
      (m.decrypt E calls input).2 = .error e →
        (m.decrypt E calls input).1.mDecryptCounter = m.mDecryptCounter ∧
          (m.decrypt E calls input).1.decryptPosition = m.decryptPosition := by
  rintro ⟨E, h⟩
  have hk : (create (List.replicate 16 0)).KeyOk := keyOk_create (Or.inl rfl)
  have hlen := forged_length E (create (List.replicate 16 0))
  have hmoved := (h _ _ _ _ (decrypt_forged E hk)).1
  rw [decrypt_ready E (p := 0) hk rfl (by omega) (by rw [hlen]; decide)] at hmoved
  change (0 : UInt64) + 1 = 0 at hmoved
  exact absurd hmoved (by decide)

/-- The forged packet, on its way to a fresh manager, and a manager without a usable key. -/
theorem failure_effects_forged :
    ∃ key : Bytes, key.length = 16 ∧ ∀ E,
      MovedPast E (create key) ((create key).decrypt E .succeed (forged E (create key))).1 8 ∧
        ((create []).encrypt E .succeed [1]).1.encryptPosition = 0 := by
  refine ⟨List.replicate 16 0, rfl, fun E => ⟨?_, ?_⟩⟩
  · have hk : (create (List.replicate 16 0)).KeyOk := keyOk_create (Or.inl rfl)
    rcases (failure_effects E _ .succeed _).2 _ (decrypt_forged E hk) with h | h | h
    · exact absurd h.1 (by decide)
    · exact absurd h.1 (by decide)
    · rw [forged_length] at h
      exact h.2
  · exact (failure_effects E (create []) .succeed [1]).1 rfl

end CryptoManager
end SculkProtocol
