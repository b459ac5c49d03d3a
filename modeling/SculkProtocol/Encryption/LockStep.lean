import SculkProtocol.Encryption.CryptoManager

/-!
# Two managers in lock-step

A sender that encrypts and a receiver that decrypts are *in step* (`InStep`) when
they share the key, the sender's encrypt counter is the receiver's decrypt counter,
and both directions stand at the same keystream position. `InStep.transfer` is the
step lemma: one packet reaches the receiver unchanged and the two are in step again;
`transfers_lockstep` is the run lemma, from two managers built from one key.

The length of a packet passes through an `int` on its way to `EVP_CipherUpdate`, so
it has to be below `2 ^ 31` with its checksum; `transfer_too_long` shows a packet
that is refused for its length.
-/

namespace SculkProtocol
namespace CryptoManager

variable (E : Evp)

/-- Where a context would process its next byte, if it can: a context that does not
exist yet starts at the beginning. -/
def readyAt (ctx : Option CipherCtx) : Option ℕ := ctx.elim (some 0) CipherCtx.position

/-- The keystream position of a context. -/
def position (ctx : Option CipherCtx) : ℕ := (readyAt ctx).getD 0

def encryptPosition (m : CryptoManager) : ℕ := position m.mEncryptCtx

def decryptPosition (m : CryptoManager) : ℕ := position m.mDecryptCtx

/-- The key size is one AES knows. -/
def KeyOk (m : CryptoManager) : Prop := (selectAesCtrCipher m.mKeyBytes.length).isSome = true

/-- A size below `2 ^ 31` is cast to itself. -/
theorem staticCastInt_of_lt {n : ℕ} (h : n < 2 ^ 31) : staticCastInt n = n := by
  unfold staticCastInt
  refine Int.bmod_eq_of_le ?_ ?_ <;> omega

/-- A checksum has eight bytes. -/
@[simp] theorem checksum_length (m : CryptoManager) (counter : UInt64) (data : Bytes) :
    (m.checksum E counter data).length = CHECKSUM_SIZE := by
  unfold checksum
  split
  · split
    · simp
    · next h => simp only [List.length_take]; omega
  · simp

/-- The checksum depends on the manager through its key. -/
theorem checksum_congr {m m' : CryptoManager} (h : m.mKeyBytes = m'.mKeyBytes) (counter : UInt64)
    (data : Bytes) : m.checksum E counter data = m'.checksum E counter data := by
  unfold checksum
  rw [h]

/-- The keystream depends on the key and the counter block. -/
theorem keystream_congr {m m' : CryptoManager} (h : m.mKeyBytes = m'.mKeyBytes)
    (hb : m.mInitialCounterBlock = m'.mInitialCounterBlock) :
    m.keystream E = m'.keystream E := by
  unfold keystream
  rw [h, hb]

/-! ### One packet, when every EVP call succeeds -/

/-- A key that is right opens the cipher, once. -/
theorem openCipher_ready {m : CryptoManager} (hk : m.KeyOk) {ctx : Option CipherCtx} {p : ℕ}
    (hp : readyAt ctx = some p) : m.openCipher .succeed ctx = (some ⟨some p⟩, true) := by
  cases ctx with
  | none =>
    obtain ⟨cipher, hc⟩ := Option.isSome_iff_exists.mp hk
    cases hp
    simp [openCipher, initializeCipher, hc, EvpCalls.succeed]
  | some c => cases c; cases hp; rfl

/-- The next bytes are added to the keystream. -/
theorem cipherUpdate_ready (m : CryptoManager) (p : ℕ) (bytes : Bytes) :
    m.cipherUpdate E .succeed ⟨some p⟩ bytes bytes.length =
      (⟨some (p + bytes.length)⟩, some (xorFrom (m.keystream E) p bytes)) := by
  have h0 : ¬ ((bytes.length : ℤ) < 0) := by omega
  simp only [cipherUpdate, EvpCalls.succeed, if_neg h0, Int.toNat_natCast, List.take_length]

/-- So is a buffer that is not empty. -/
theorem ctrCrypt_ready (m : CryptoManager) (p : ℕ) (bytes : Bytes) (hne : bytes ≠ [])
    (hlt : bytes.length < 2 ^ 31) :
    m.ctrCrypt E .succeed (some ⟨some p⟩) bytes =
      (some ⟨some (p + bytes.length)⟩, .ok (xorFrom (m.keystream E) p bytes)) := by
  have hcast : staticCastInt bytes.length = bytes.length := staticCastInt_of_lt hlt
  rw [ctrCrypt, if_neg hne, hcast, cipherUpdate_ready, checkOutput]
  exact if_pos (xorFrom_length _ _ _)

/-- **Encryption** of a packet that fits. -/
theorem encrypt_ready {m : CryptoManager} (hk : m.KeyOk) {p : ℕ}
    (hp : readyAt m.mEncryptCtx = some p) {input : Bytes} (hne : input ≠ [])
    (hlt : input.length + CHECKSUM_SIZE < 2 ^ 31) :
    m.encrypt E .succeed input =
      ({ m with
          mEncryptCounter := m.mEncryptCounter + 1
          mEncryptCtx := some ⟨some (p + (input.length + CHECKSUM_SIZE))⟩ },
        .ok (xorFrom (m.keystream E) p (input ++ m.checksum E m.mEncryptCounter input))) := by
  have hlen : (input ++ m.checksum E m.mEncryptCounter input).length
      = input.length + CHECKSUM_SIZE := by simp
  have hcrypt := ctrCrypt_ready E { m with mEncryptCounter := m.mEncryptCounter + 1 } p
    (input ++ m.checksum E m.mEncryptCounter input) (by simp [hne]) (by omega)
  rw [hlen] at hcrypt
  have hopen : CryptoManager.openCipher { m with mEncryptCounter := m.mEncryptCounter + 1 } .succeed
      m.mEncryptCtx = (some ⟨some p⟩, true) := openCipher_ready hk hp
  simp only [encrypt, if_neg hne, hopen, hcrypt]
  rfl

/-- **Decryption** of a packet that fits: the counter and the position move on whether
or not the checksum matches. -/
theorem decrypt_ready {m : CryptoManager} (hk : m.KeyOk) {p : ℕ}
    (hp : readyAt m.mDecryptCtx = some p) {input : Bytes} (h8 : CHECKSUM_SIZE ≤ input.length)
    (hlt : input.length < 2 ^ 31) :
    m.decrypt E .succeed input =
      (let clear := xorFrom (m.keystream E) p input
       let payload := clear.take (input.length - CHECKSUM_SIZE)
       ({ m with
          mDecryptCounter := m.mDecryptCounter + 1
          mDecryptCtx := some ⟨some (p + input.length)⟩ },
        if m.checksum E m.mDecryptCounter payload = clear.drop (input.length - CHECKSUM_SIZE)
          then .ok payload else .error "Failed to verify decrypted data")) := by
  have hne : input ≠ [] := by
    intro h0
    rw [h0] at h8
    simp [CHECKSUM_SIZE] at h8
  have hcrypt := ctrCrypt_ready E m p input hne hlt
  have hopen := openCipher_ready hk hp
  have hnot : ¬ input.length < CHECKSUM_SIZE := by omega
  simp only [decrypt, if_neg hne, if_neg hnot, hopen, hcrypt, verify, xorFrom_length, beq_iff_eq]
  -- the checksum does not depend on the cipher's position
  have hcongr (ctx : Option CipherCtx) (counter : UInt64) (data : Bytes) :
      ({ m with mDecryptCtx := ctx }).checksum E counter data = m.checksum E counter data := rfl
  simp only [hcongr, Bool.not_true, Bool.false_eq_true, if_false]
  split <;> rfl

/-! ### Sender and receiver -/

/-- A sender and a receiver in step. -/
structure InStep (s r : CryptoManager) : Prop where
  keyOk : s.KeyOk
  key : s.mKeyBytes = r.mKeyBytes
  block : s.mInitialCounterBlock = r.mInitialCounterBlock
  counter : s.mEncryptCounter = r.mDecryptCounter
  position : ∃ p, readyAt s.mEncryptCtx = some p ∧ readyAt r.mDecryptCtx = some p

/-- One packet on its way: what was sent, what came out, and both managers afterwards. -/
structure Transfer where
  plain : Bytes
  received : Except String Bytes
  sender : CryptoManager
  receiver : CryptoManager

/-- The sender encrypts `plain`; the receiver decrypts the ciphertext, if there is one. -/
def transfer (s r : CryptoManager) (plain : Bytes) : Transfer :=
  let sent := s.encrypt E .succeed plain
  match sent.2 with
  | .ok cipher =>
    let d := r.decrypt E .succeed cipher
    ⟨plain, d.2, sent.1, d.1⟩
  | .error e => ⟨plain, .error e, sent.1, r⟩

/-- A sequence of packets. -/
def transfers : CryptoManager → CryptoManager → List Bytes → List Transfer
  | _, _, [] => []
  | s, r, plain :: plains =>
    let t := transfer E s r plain
    t :: transfers t.sender t.receiver plains

/-- Two managers of one key begin in step. -/
theorem inStep_create {key : Bytes} (hk : (create key).KeyOk) :
    InStep (create key) (create key) :=
  ⟨hk, rfl, rfl, rfl, 0, rfl, rfl⟩

/-- A ciphertext moves a sender by its length. -/
theorem InStep.received {s r : CryptoManager} (h : InStep s r) {plain : Bytes}
    (hne : plain ≠ []) (hlt : plain.length + CHECKSUM_SIZE < 2 ^ 31) (cipher : Bytes)
    (hlen : cipher.length = plain.length + CHECKSUM_SIZE) :
    InStep (s.encrypt E .succeed plain).1 (r.decrypt E .succeed cipher).1 := by
  obtain ⟨hk, hkey, hblock, hcounter, p, hs, hr⟩ := h
  have hkr : r.KeyOk := by unfold KeyOk at hk ⊢; rwa [← hkey]
  rw [encrypt_ready E hk hs hne hlt, decrypt_ready E hkr hr (by omega) (by omega)]
  refine ⟨hk, hkey, hblock, ?_, p + (plain.length + CHECKSUM_SIZE), rfl, ?_⟩
  · simp only [hcounter]
  · simp only [readyAt, Option.elim_some, hlen]

/-- **Step lemma.** A packet that fits arrives unchanged and leaves the two in step. -/
theorem InStep.transfer {s r : CryptoManager} (h : InStep s r) {plain : Bytes}
    (hlt : plain.length + CHECKSUM_SIZE < 2 ^ 31) :
    (transfer E s r plain).received = .ok plain ∧
      InStep (transfer E s r plain).sender (transfer E s r plain).receiver := by
  by_cases hne : plain = []
  · subst hne
    exact ⟨rfl, h⟩
  · have hstep := h.received E hne hlt
    obtain ⟨hk, hkey, hblock, hcounter, p, hs, hr⟩ := h
    have hkr : r.KeyOk := by unfold KeyOk at hk ⊢; rwa [← hkey]
    have henc := encrypt_ready E hk hs hne hlt
    have hcipher : (s.encrypt E .succeed plain).2
        = .ok (xorFrom (s.keystream E) p (plain ++ s.checksum E s.mEncryptCounter plain)) := by
      rw [henc]
    have hlen : (xorFrom (s.keystream E) p
        (plain ++ s.checksum E s.mEncryptCounter plain)).length = plain.length + CHECKSUM_SIZE := by
      simp
    have hrec : (r.decrypt E .succeed
        (xorFrom (s.keystream E) p (plain ++ s.checksum E s.mEncryptCounter plain))).2
          = .ok plain := by
      rw [decrypt_ready E hkr hr (by omega) (by omega)]
      -- both sides produce the same keystream at `p`, so the receiver sees the sent bytes
      simp only [hlen, ← keystream_congr E hkey hblock, xorFrom_xorFrom, Nat.add_sub_cancel]
      rw [List.take_left' rfl, List.drop_left' rfl, ← hcounter, checksum_congr E hkey, if_pos rfl]
    simp only [CryptoManager.transfer, hcipher]
    exact ⟨hrec, hstep _ hlen⟩

/-- **Run lemma.** Any sequence of packets that fit. -/
theorem InStep.transfers {s r : CryptoManager} (h : InStep s r) {plains : List Bytes}
    (hlt : ∀ plain ∈ plains, plain.length + CHECKSUM_SIZE < 2 ^ 31) :
    (transfers E s r plains).map Transfer.received = plains.map .ok ∧
      ∀ t ∈ transfers E s r plains, InStep t.sender t.receiver := by
  induction plains generalizing s r with
  | nil => exact ⟨rfl, fun t ht => absurd ht List.not_mem_nil⟩
  | cons plain plains ih =>
    obtain ⟨hrec, hstep⟩ := h.transfer E (hlt plain List.mem_cons_self)
    obtain ⟨hrest, hsteps⟩ := ih hstep fun q hq => hlt q (List.mem_cons_of_mem _ hq)
    refine ⟨?_, fun t ht => ?_⟩
    · simp only [CryptoManager.transfers, List.map_cons, hrec, hrest]
    · rcases List.mem_cons.mp ht with rfl | ht
      · exact hstep
      · exact hsteps t ht

/-- Managers in step are at the same position. -/
theorem InStep.position_eq {s r : CryptoManager} (h : InStep s r) :
    s.encryptPosition = r.decryptPosition := by
  obtain ⟨p, hs, hr⟩ := h.position
  simp only [encryptPosition, decryptPosition, CryptoManager.position, hs, hr]

/-- A key of 16, 24 or 32 bytes selects a cipher. -/
theorem keyOk_create {key : Bytes}
    (hk : key.length = 16 ∨ key.length = 24 ∨ key.length = 32) : (create key).KeyOk := by
  rcases hk with hk | hk | hk <;> simp [KeyOk, create, hk, selectAesCtrCipher]

/-- **Lock-step.** Two managers built from one key: every packet that fits arrives
unchanged, and after each of them the counters and the positions agree. -/
theorem transfers_lockstep {key : Bytes}
    (hk : key.length = 16 ∨ key.length = 24 ∨ key.length = 32) {plains : List Bytes}
    (hlt : ∀ plain ∈ plains, plain.length + CHECKSUM_SIZE < 2 ^ 31) :
    (transfers E (create key) (create key) plains).map Transfer.received = plains.map .ok ∧
      ∀ t ∈ transfers E (create key) (create key) plains,
        t.sender.mEncryptCounter = t.receiver.mDecryptCounter ∧
          t.sender.encryptPosition = t.receiver.decryptPosition := by
  obtain ⟨hrec, hsteps⟩ := (inStep_create (keyOk_create hk)).transfers E hlt
  exact ⟨hrec, fun t ht => ⟨(hsteps t ht).counter, (hsteps t ht).position_eq⟩⟩

/-- Three packets under a key of 16 bytes. -/
theorem transfers_lockstep_three :
    ∃ key : Bytes, key.length = 16 ∧ ∀ E, (transfers E (create key) (create key)
      [[1, 2, 3], [], [255]]).map Transfer.received = [.ok [1, 2, 3], .ok [], .ok [255]] :=
  ⟨List.replicate 16 0, rfl, fun E => (transfers_lockstep E (Or.inl rfl)
    (fun plain hp => by
      simp only [List.mem_cons, List.not_mem_nil, or_false] at hp
      rcases hp with rfl | rfl | rfl <;> decide)).1⟩

/-! ### A packet that does not fit -/

/-- The cipher processes fewer bytes than there are, and the difference is noticed. -/
theorem ctrCrypt_truncated (m : CryptoManager) (p : ℕ) {bytes : Bytes} {inl : ℕ}
    (hcast : staticCastInt bytes.length = inl) (hlt : inl < bytes.length) :
    (m.ctrCrypt E .succeed (some ⟨some p⟩) bytes).2
      = .error "Failed to process data with cipher" := by
  have hne : bytes ≠ [] := by
    intro h0
    rw [h0] at hlt
    exact absurd hlt (Nat.not_lt_zero _)
  have h0 : ¬ ((inl : ℤ) < 0) := by omega
  have hlen : (xorFrom (m.keystream E) p (bytes.take inl)).length ≠ bytes.length := by
    rw [xorFrom_length, List.length_take]
    omega
  rw [ctrCrypt, if_neg hne, hcast]
  simp only [cipherUpdate, checkOutput, EvpCalls.succeed, if_neg h0, Int.toNat_natCast, if_neg hlen]

/-- An input that the cast length does not cover is refused. -/
theorem encrypt_truncated {m : CryptoManager} (hk : m.KeyOk) {p : ℕ}
    (hp : readyAt m.mEncryptCtx = some p) {input : Bytes} {inl : ℕ}
    (hcast : staticCastInt (input.length + CHECKSUM_SIZE) = inl) (hlt : inl ≤ input.length) :
    (m.encrypt E .succeed input).2 = .error "Failed to process data with cipher" ∨ input = [] := by
  by_cases hne : input = []
  · exact Or.inr hne
  · left
    have hlen : (input ++ m.checksum E m.mEncryptCounter input).length
        = input.length + CHECKSUM_SIZE := by simp
    have hopen : CryptoManager.openCipher { m with mEncryptCounter := m.mEncryptCounter + 1 }
        .succeed m.mEncryptCtx = (some ⟨some p⟩, true) := openCipher_ready hk hp
    simp only [encrypt, if_neg hne, hopen, Bool.not_true, Bool.false_eq_true, if_false]
    exact ctrCrypt_truncated E _ p (hlen ▸ hcast) (by rw [hlen, CHECKSUM_SIZE]; omega)

/-- **A packet of `2 ^ 32` bytes** is refused by the sender: with its checksum it has the
length 8 as an `int`. -/
theorem transfer_too_long :
    ¬ ∃ E, ∀ (key : Bytes) (plains : List Bytes),
      key.length = 16 ∨ key.length = 24 ∨ key.length = 32 →
        (transfers E (create key) (create key) plains).map Transfer.received
          = plains.map .ok := by
  rintro ⟨E, h⟩
  have hk : (create (List.replicate 16 0)).KeyOk := keyOk_create (Or.inl rfl)
  obtain ⟨plain, hlen⟩ : ∃ plain : Bytes, plain.length = 2 ^ 32 :=
    ⟨List.replicate (2 ^ 32) 0, List.length_replicate⟩
  -- the length with its checksum is cut to 32 bits
  have hcast : staticCastInt (plain.length + CHECKSUM_SIZE) = (8 : ℕ) := by rw [hlen]; decide
  have hall := h (List.replicate 16 0) [plain] (Or.inl rfl)
  have hsent : ((create (List.replicate 16 0)).encrypt E .succeed plain).2
      = .error "Failed to process data with cipher" := by
    rcases encrypt_truncated E (p := 0) hk rfl hcast (by omega) with hsent | h0
    · exact hsent
    · rw [h0] at hlen
      exact absurd hlen (by simp)
  simp only [transfers, transfer, hsent, List.map_cons, List.map_nil, List.cons.injEq] at hall
  exact absurd hall.1 (by simp)

end CryptoManager
end SculkProtocol
