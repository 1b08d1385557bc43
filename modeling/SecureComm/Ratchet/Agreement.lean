import SecureComm.Ratchet.Chains

/-!
# Agreement after a ratchet round

In a round both ends install chains, each against the other's public key, by
`ratchet_step` or by the DH branch of a delivery. They agree on the shared
secret and so on the new root key; but both derive their send chain under one
info string and their receive chain under the other, so that the send chains
are equal and neither is the other end's receive chain.
-/

namespace SecureComm.Ratchet

variable {S : Sodium}

/-- HKDF gives different keys for the two info strings. -/
def InfoSeparates (S : Sodium) : Prop :=
  ∀ prk, hkdfExpand S 32 prk sendInfo ≠ hkdfExpand S 32 prk recvInfo

def KeyPair (S : Sodium) (r : Ratchet) : Prop := r.dhPublicKey = S.scalarmultBase r.dhPrivateKey

/-- Chains are installed against a public key, by `ratchet_step` or by the DH
branch on a header that carries it. -/
inductive Ratchets (S : Sodium) (r : Ratchet) (pub : Bytes) : Ratchet → Prop where
  | step {r' : Ratchet} : r.ratchetStep S pub = .ok r' → Ratchets S r pub r'
  | header {r' : Ratchet} {env : Envelope} {n : UInt32} :
      parseHeader env.associatedData = some (n, pub) → r.installedBy S env = some r' →
      Ratchets S r pub r'

/-- Both ends ratchet against each other's public key. -/
def Round (S : Sodium) (a b a' b' : Ratchet) : Prop :=
  a.Ratchets S b.dhPublicKey.val a' ∧ b.Ratchets S a.dhPublicKey.val b'

/-- No chains are installed, and the key pair stays. -/
structure Quiet (r r' : Ratchet) : Prop where
  rootKey : r'.rootKey = r.rootKey
  dhPrivateKey : r'.dhPrivateKey = r.dhPrivateKey
  dhPublicKey : r'.dhPublicKey = r.dhPublicKey

/-- Any number of rounds, with anything between them that installs no chains. -/
inductive Rounds (S : Sodium) (a b : Ratchet) : Ratchet → Ratchet → Prop where
  | refl : Rounds S a b a b
  | quiet {a₁ b₁ a₂ b₂ : Ratchet} :
      Rounds S a b a₁ b₁ → a₁.Quiet a₂ → b₁.Quiet b₂ → Rounds S a b a₂ b₂
  | round {a₁ b₁ a₂ b₂ : Ratchet} :
      Rounds S a b a₁ b₁ → Round S a₁ b₁ a₂ b₂ → Rounds S a b a₂ b₂

theorem Quiet.trans {r r' r'' : Ratchet} (h : r.Quiet r') (h' : r'.Quiet r'') : r.Quiet r'' :=
  ⟨h'.rootKey.trans h.rootKey, h'.dhPrivateKey.trans h.dhPrivateKey,
    h'.dhPublicKey.trans h.dhPublicKey⟩

theorem quiet_encrypt (r : Ratchet) (pt : Bytes) (draw : Draw) :
    r.Quiet (r.encryptEnvelope S pt draw).1 := by
  rw [encryptEnvelope_eq]; exact ⟨rfl, rfl, rfl⟩

theorem quiet_openMessage (r : Ratchet) (n : UInt32) (env : Envelope) :
    r.Quiet ((r.skipTo S n).openMessage S n env).1 := by
  rw [openMessage_frame, skipTo_frame]; exact ⟨rfl, rfl, rfl⟩

/-- A delivery that installs no chains is quiet, and one that does is quiet
from there on. -/
theorem quiet_decrypt (r : Ratchet) (env : Envelope) :
    ((r.installedBy S env).getD r).Quiet (r.decryptEnvelope S env).1 := by
  rcases r.decryptEnvelope_cases (S := S) env with
    ⟨ha, he⟩ | ⟨r1, ha, he, hexit⟩ | ⟨r1, n, pub, q, ha, hp, hd, he⟩
  · rw [he, installedBy, ha]; exact ⟨rfl, rfl, rfl⟩
  · rw [he, installedBy_exit ha hexit, adoptSession_cases ha]
    exact ⟨rfl, rfl, rfl⟩
  · rw [he]
    obtain ⟨s, ht, -, rfl⟩ | ⟨ht, rfl⟩ := dhBranch_cases hd
    · rw [installedBy_taken ha hp ht hd]
      exact quiet_openMessage _ n env
    · have hr : r.Quiet { r1 with lastRemotePub := pub } := by
        rw [adoptSession_cases ha]; exact ⟨rfl, rfl, rfl⟩
      rw [installedBy_not_taken ha hp ht]
      exact hr.trans (quiet_openMessage _ n env)

theorem Ratchets.eq {r r' : Ratchet} {pub : Bytes} (h : r.Ratchets S pub r') :
    ∃ s, r.dhCompute S pub = .ok s ∧
      r'.rootKey = hkdfExtract S r.rootKey s.val ∧
      r'.sendChainKey = hkdfExpand S 32 (hkdfExtract S r.rootKey s.val) sendInfo ∧
      r'.recvChainKey = hkdfExpand S 32 (hkdfExtract S r.rootKey s.val) recvInfo ∧
      r'.dhPrivateKey = r.dhPrivateKey ∧ r'.dhPublicKey = r.dhPublicKey := by
  cases h with
  | step h =>
    obtain ⟨s, hs, rfl⟩ := ratchetStep_ok_iff.mp h
    exact ⟨s, hs, rfl, rfl, rfl, rfl, rfl⟩
  | @header env n hp h =>
    rcases ha : r.adoptSession env with _ | r1
    · simp [installedBy, ha] at h
    · by_cases ht : r1.DhTaken pub
      · have hr1 := adoptSession_cases ha
        simp only [installedBy, ha, hp, Option.bind_eq_bind, Option.bind_some, if_pos ht,
          dhBranch_taken ht] at h
        rcases hs : r1.dhCompute S pub with e | s
        · rw [hs] at h; cases h
        · rw [hs] at h
          cases h
          rw [hr1] at hs ⊢
          exact ⟨s, hs, rfl, rfl, rfl, rfl, rfl⟩
      · rw [installedBy_not_taken ha hp ht] at h
        cases h

theorem Ratchets.of_installedBy {r r' : Ratchet} {env : Envelope}
    (h : r.installedBy S env = some r') : ∃ pub, r.Ratchets S pub r' := by
  rcases ha : r.adoptSession env with _ | r1
  · simp [installedBy, ha] at h
  · rcases hp : parseHeader env.associatedData with _ | ⟨n, pub⟩
    · simp [installedBy, ha, hp] at h
    · exact ⟨pub, .header hp h⟩

/-- **What a call does**: it installs chains or not, and is quiet from there on. -/
theorem apply_quiet (r : Ratchet) (op : Op) :
    r.Quiet (r.apply S op) ∨ ∃ pub r', r.Ratchets S pub r' ∧ r'.Quiet (r.apply S op) := by
  cases op with
  | encrypt pt draw => exact .inl (quiet_encrypt r pt draw)
  | decrypt env =>
    have hq := quiet_decrypt (S := S) r env
    rcases hi : r.installedBy S env with _ | r'
    · rw [hi] at hq
      exact .inl hq
    · rw [hi] at hq
      obtain ⟨pub, hr⟩ := Ratchets.of_installedBy hi
      exact .inr ⟨pub, r', hr, hq⟩
  | ratchetStep pub =>
    rcases hr : r.ratchetStep S pub with e | r'
    · simp only [apply, hr]
      exact .inl ⟨rfl, rfl, rfl⟩
    · simp only [apply, hr]
      exact .inr ⟨pub, r', .step hr, rfl, rfl, rfl⟩

/-- The two ends of a session that can ratchet against each other. -/
structure Ends (S : Sodium) (a b : Ratchet) : Prop where
  rootKey : a.rootKey = b.rootKey
  left : a.KeyPair S
  right : b.KeyPair S
  agrees : S.Agrees a.dhPrivateKey b.dhPrivateKey

/-- **One round**: the ends agree on the root key, and on nothing else. -/
theorem Ends.round (hinfo : InfoSeparates S) {a b a' b' : Ratchet} (h : Ends S a b)
    (hr : Round S a b a' b') :
    Ends S a' b' ∧ a'.sendChainKey ≠ b'.recvChainKey ∧ b'.sendChainKey ≠ a'.recvChainKey := by
  obtain ⟨s, hs, hroot, hsend, hrecv, hpriv, hpub⟩ := hr.1.eq
  obtain ⟨s', hs', hroot', hsend', hrecv', hpriv', hpub'⟩ := hr.2.eq
  have hss : s = s' := by
    rw [dhCompute_eq, h.right] at hs
    rw [dhCompute_eq, h.left, ← h.agrees, hs] at hs'
    exact Option.some.inj hs'
  subst hss
  rw [← h.rootKey] at hroot' hsend' hrecv'
  refine ⟨⟨hroot.trans hroot'.symm, ?_, ?_, ?_⟩, ?_, ?_⟩
  · rw [KeyPair, hpub, hpriv]; exact h.left
  · rw [KeyPair, hpub', hpriv']; exact h.right
  · rw [hpriv, hpriv']; exact h.agrees
  · rw [hsend, hrecv']; exact hinfo _
  · rw [hsend', hrecv]; exact hinfo _

theorem Ends.rounds (hinfo : InfoSeparates S) {a b a' b' : Ratchet} (h : Ends S a b)
    (hr : Rounds S a b a' b') : Ends S a' b' := by
  induction hr with
  | refl => exact h
  | quiet _ ha hb ih =>
    refine ⟨ha.rootKey.trans (ih.rootKey.trans hb.rootKey.symm), ?_, ?_, ?_⟩
    · rw [KeyPair, ha.dhPublicKey, ha.dhPrivateKey]; exact ih.left
    · rw [KeyPair, hb.dhPublicKey, hb.dhPrivateKey]; exact ih.right
    · rw [ha.dhPrivateKey, hb.dhPrivateKey]; exact ih.agrees
  | round _ hr ih => exact (ih.round hinfo hr).1

/-- **The chains never agree**: after every round, whatever rounds and messages
came before it, the send chain of neither end is the receive chain of the other. -/
theorem chains_never_agree (hinfo : InfoSeparates S) {a b a₁ b₁ a' b' : Ratchet} (h : Ends S a b)
    (hrs : Rounds S a b a₁ b₁) (hr : Round S a₁ b₁ a' b') :
    a'.rootKey = b'.rootKey ∧ a'.sendChainKey ≠ b'.recvChainKey ∧
      b'.sendChainKey ≠ a'.recvChainKey :=
  have hround := (h.rounds hinfo hrs).round hinfo hr
  ⟨hround.1.rootKey, hround.2⟩

theorem sample_infoSeparates : InfoSeparates Sodium.sample := by
  intro prk he
  rw [hkdfExpand_block, hkdfExpand_block] at he
  have hd : ¬ Sodium.Sample.digest (sendInfo ++ [1]) ≡ Sodium.Sample.digest (recvInfo ++ [1])
    [MOD 256 ^ 32] := by decide +kernel
  exact hd (Sodium.Sample.block_add_inj (Subtype.ext he))

/-- The two ends of the concrete session after both have called `ratchet_step`. -/
def sampleRatcheted (seed peer : Nat) : Ratchet :=
  (sample 7 seed).apply Sodium.sample (.ratchetStep (sample 7 peer).dhPublicKey.val)

theorem sample_round : Round Sodium.sample (sample 7 1) (sample 7 2) (sampleRatcheted 1 2)
    (sampleRatcheted 2 1) :=
  ⟨.step (apply_ratchetStep (by decide +kernel)), .step (apply_ratchetStep (by decide +kernel))⟩

theorem sample_ends : Ends Sodium.sample (sample 7 1) (sample 7 2) where
  rootKey := rfl
  left := rfl
  right := rfl
  agrees := by unfold Sodium.Agrees; decide +kernel

theorem chains_never_agree_sample :
    (sampleRatcheted 1 2).rootKey = (sampleRatcheted 2 1).rootKey ∧
      (sampleRatcheted 1 2).sendChainKey ≠ (sampleRatcheted 2 1).recvChainKey ∧
      (sampleRatcheted 2 1).sendChainKey ≠ (sampleRatcheted 1 2).recvChainKey :=
  chains_never_agree sample_infoSeparates sample_ends .refl sample_round

/-- After one round neither end opens the first message of the other. -/
theorem ratcheted_ends_cannot_talk :
    (sampleRatcheted 1 2).sendChainKey ≠ (sampleRatcheted 2 1).recvChainKey ∧
      ∀ env, ((sampleRatcheted 1 2).encryptEnvelope Sodium.sample [5] sampleDraw).2 = .ok env →
        ((sampleRatcheted 2 1).decryptEnvelope Sodium.sample env).2 = none := by
  refine ⟨by decide +kernel, fun env he => ?_⟩
  rw [encryptEnvelope_eq] at he
  cases he
  decide +kernel

end SecureComm.Ratchet
