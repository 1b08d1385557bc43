import SecureComm.Ratchet.Spec

/-!
# Failed deliveries

When does a rejected envelope leave the object as it was? `decrypt_envelope`
writes before it authenticates: it adopts the session id and the remote key,
installs new chains and caches skipped keys, all on the strength of the header.
`FailsClean` is the exact condition under which none of these happens.
-/

namespace SecureComm.Ratchet

variable {S : Sodium}

/-- The same object, up to the scratch key of the AEAD wrapper. -/
def Unchanged (r r' : Ratchet) : Prop := r' = { r with aead := r'.aead }

instance (r r' : Ratchet) : Decidable (r.Unchanged r') := inferInstanceAs (Decidable (_ = _))

/-- A failed delivery is atomic: the object is unchanged, so every envelope
fares as it would have before. -/
def Atomic (S : Sodium) (r : Ratchet) (env : Envelope) : Prop :=
  r.Unchanged (r.decryptEnvelope S env).1 ∧
    ∀ env', ((r.decryptEnvelope S env).1.decryptEnvelope S env').2 = (r.decryptEnvelope S env').2

/-- Nothing is written before the rejection: the session id is refused; or none
is adopted, and the header is too short, or its key fails the key agreement, or
it carries the known remote key and a number not ahead of the counter. -/
def FailsClean (S : Sodium) (r : Ratchet) (env : Envelope) : Prop :=
  r.adoptSession env = none ∨
    (r.sessionId = [] → env.sessionId = []) ∧
      ∀ n pub, parseHeader env.associatedData = some (n, pub) →
        (r.DhTaken pub ∧ ∃ e, r.dhCompute S pub = .error e) ∨
          (pub = r.lastRemotePub ∧ ¬ r.recvMessageNumber < n)

/-! ## The scratch key is not read -/

theorem skipTo_aead (n : UInt32) (r : Ratchet) (a : AEAD) :
    ({ r with aead := a } : Ratchet).skipTo S n = { r.skipTo S n with aead := a } := by
  have hc : Function.Commute (fun q : Ratchet => { q with aead := a }) (skipOne S) := fun _ => rfl
  exact (hc.iterate_right (n.toNat - r.recvMessageNumber.toNat) r).symm

theorem openMessage_snd (n : UInt32) (env : Envelope) (r : Ratchet) :
    (r.openMessage S n env).2 = (r.tryKey S (r.keyFor S n) env).2 := by
  unfold openMessage keyFor
  rcases r.skippedMessageKeys.lookup n with _ | key
  · simp only [Option.getD_none]
    split <;> simp_all
  · simp only [Option.getD_some]
    split <;> simp_all

theorem tryKey_snd_aead (r : Ratchet) (a : AEAD) (key : Bytes) (env : Envelope) :
    (({ r with aead := a } : Ratchet).tryKey S key env).2 = (r.tryKey S key env).2 := by
  unfold tryKey
  split <;> rfl

theorem openMessage_snd_aead (n : UInt32) (env : Envelope) (r : Ratchet) (a : AEAD) :
    (({ r with aead := a } : Ratchet).openMessage S n env).2 = (r.openMessage S n env).2 := by
  rw [openMessage_snd, openMessage_snd, tryKey_snd_aead]
  rfl

theorem dhBranch_aead (r : Ratchet) (a : AEAD) (pub : Bytes) :
    ∃ f : Ratchet → AEAD, ({ r with aead := a } : Ratchet).dhBranch S pub =
      (r.dhBranch S pub).map fun q => { q with aead := f q } := by
  by_cases h : r.DhTaken pub
  · refine ⟨fun q => q.aead, ?_⟩
    have h' : ({ r with aead := a } : Ratchet).DhTaken pub := h
    rw [dhBranch_taken h, dhBranch_taken h']
    have hd : ({ r with aead := a } : Ratchet).dhCompute S pub = r.dhCompute S pub := rfl
    rw [hd]
    rcases r.dhCompute S pub with e | s <;> rfl
  · refine ⟨fun _ => a, ?_⟩
    have h' : ¬ ({ r with aead := a } : Ratchet).DhTaken pub := h
    rw [dhBranch_not_taken h, dhBranch_not_taken h']
    rfl

/-- **The result of a delivery does not depend on the scratch key.** -/
theorem decryptEnvelope_snd_aead (r : Ratchet) (a : AEAD) (env : Envelope) :
    (({ r with aead := a } : Ratchet).decryptEnvelope S env).2 = (r.decryptEnvelope S env).2 := by
  have hadopt : ({ r with aead := a } : Ratchet).adoptSession env =
      (r.adoptSession env).map fun q => { q with aead := a } := by
    unfold adoptSession
    dsimp only
    split
    · rfl
    · split <;> rfl
  unfold decryptEnvelope
  rw [hadopt]
  rcases r.adoptSession env with _ | r1
  · rfl
  rcases parseHeader env.associatedData with _ | ⟨n, pub⟩
  · rfl
  obtain ⟨f, hf⟩ := r1.dhBranch_aead (S := S) a pub
  simp only [Option.map_some, hf]
  rcases r1.dhBranch S pub with e | r2
  · rfl
  · simp only [Except.map, skipTo_aead, openMessage_snd_aead]

theorem Unchanged.decryptEnvelope_snd {r r' : Ratchet} (h : r.Unchanged r') (env : Envelope) :
    (r'.decryptEnvelope S env).2 = (r.decryptEnvelope S env).2 := by
  rw [h]; exact decryptEnvelope_snd_aead r _ env

/-! ## The exact condition -/

theorem dhBranch_lastRemotePub {r r' : Ratchet} {pub : Bytes} (h : r.dhBranch S pub = .ok r') :
    r'.lastRemotePub = pub := by
  obtain ⟨s, -, -, rfl⟩ | ⟨-, rfl⟩ := dhBranch_cases h <;> rfl

theorem adoptSession_unchanged {r r1 : Ratchet} {env : Envelope} (ha : r.adoptSession env = some r1)
    (h : r.sessionId = [] → env.sessionId = []) : r1 = r := by
  rw [adoptSession_cases ha]
  by_cases hs : r.sessionId = []
  · rw [if_pos hs, h hs, ← hs]
  · rw [if_neg hs]

/-- Giving up at the header leaves the object as it was, unless a session id was adopted. -/
theorem unchanged_exit_iff {r r1 : Ratchet} {env : Envelope} (ha : r.adoptSession env = some r1)
    (hexit : parseHeader env.associatedData = none ∨ ∃ n pub e,
      parseHeader env.associatedData = some (n, pub) ∧ r1.dhBranch S pub = .error e) :
    r.Unchanged r1 ↔ r.FailsClean S env := by
  have hr1 := adoptSession_cases ha
  constructor
  · intro hu
    refine .inr ⟨fun hs => ?_, fun n pub hp => .inl ?_⟩
    · have hsid := congrArg sessionId hu
      rw [hr1] at hsid
      simpa [hs] using hsid
    · obtain hn | ⟨n', pub', e, hp', hd⟩ := hexit
      · rw [hn] at hp
        cases hp
      · rw [hp'] at hp
        cases hp
        have ht : r1.DhTaken pub := by
          by_contra hc
          rw [dhBranch_not_taken hc] at hd
          cases hd
        rw [dhBranch_taken ht] at hd
        rw [hr1] at ht hd
        refine ⟨ht, ?_⟩
        rcases hc : r.dhCompute S pub with e' | s
        · exact ⟨e', rfl⟩
        · have hc' : dhCompute S { r with
              sessionId := if r.sessionId = [] then env.sessionId else r.sessionId } pub = .ok s := hc
          rw [hc'] at hd
          cases hd
  · rintro (hn | ⟨hs, -⟩)
    · rw [ha] at hn
      cases hn
    · obtain rfl := adoptSession_unchanged ha hs
      rfl

/-- A message that was looked up and does not open leaves the object as the
skip loop left it. -/
theorem unchanged_skipTo_iff {r r1 r2 : Ratchet} {env : Envelope} {n : UInt32} {pub : Bytes}
    (ha : r.adoptSession env = some r1) (hp : parseHeader env.associatedData = some (n, pub))
    (hd : r1.dhBranch S pub = .ok r2) (a : AEAD) :
    r.Unchanged { r2.skipTo S n with aead := a } ↔ r.FailsClean S env := by
  have hr1 := adoptSession_cases ha
  constructor
  · intro hu
    have hlast : pub = r.lastRemotePub := by
      have hpub := congrArg lastRemotePub hu
      rw [skipTo_frame] at hpub
      exact (dhBranch_lastRemotePub hd).symm.trans hpub
    have hnt : ¬ r1.DhTaken pub := by
      rw [hr1]
      exact fun ht => ht.2 hlast
    rw [dhBranch_not_taken hnt] at hd
    cases hd
    refine .inr ⟨fun hs => ?_, fun n' pub' hp' => ?_⟩
    · have hsid := congrArg sessionId hu
      rw [skipTo_frame, hr1] at hsid
      simpa [hs] using hsid
    · rw [hp] at hp'
      cases hp'
      refine .inr ⟨hlast, fun hlt => ?_⟩
      have hn := congrArg recvMessageNumber hu
      have hr1n : r1.recvMessageNumber = r.recvMessageNumber := by rw [hr1]
      rw [skipTo_recvMessageNumber] at hn
      simp only [hr1n, if_pos hlt] at hn
      rw [hn] at hlt
      exact UInt32.lt_irrefl _ hlt
  · rintro (hn | ⟨hs, hclean⟩)
    · rw [ha] at hn
      cases hn
    · obtain rfl := adoptSession_unchanged ha hs
      obtain ⟨ht, e, hc⟩ | ⟨hlast, hle⟩ := hclean n pub hp
      · rw [dhBranch_taken ht, hc] at hd
        cases hd
      · rw [dhBranch_not_taken fun ht => ht.2 hlast] at hd
        cases hd
        subst hlast
        rw [skipTo_done hle]
        rfl

/-- A rejection that comes after the object was written changes it, and one
that comes before does not. -/
theorem unchanged_iff_failsClean {r : Ratchet} {env : Envelope}
    (hfail : (r.decryptEnvelope S env).2 = none) :
    r.Unchanged (r.decryptEnvelope S env).1 ↔ r.FailsClean S env := by
  rcases r.decryptEnvelope_cases (S := S) env with
    ⟨ha, he⟩ | ⟨r1, ha, he, hexit⟩ | ⟨r1, n, pub, r2, ha, hp, hd, he⟩
  · rw [he]
    exact ⟨fun _ => .inl ha, fun _ => rfl⟩
  · rw [he]
    exact unchanged_exit_iff ha hexit
  · rw [he] at hfail ⊢
    obtain ⟨a, ho, -⟩ | ⟨key, pt, -, -, ho⟩ | ⟨pt, -, -, ho⟩ :=
      openMessage_cases (S := S) n env (r2.skipTo S n)
    · rw [ho]
      exact unchanged_skipTo_iff ha hp hd a
    · rw [ho] at hfail
      cases hfail
    · rw [ho] at hfail
      cases hfail

/-- **Failed deliveries are atomic exactly when they fail clean.** -/
theorem atomic_iff_failsClean (r : Ratchet) (env : Envelope)
    (hfail : (r.decryptEnvelope S env).2 = none) : r.Atomic S env ↔ r.FailsClean S env :=
  ⟨fun h => (unchanged_iff_failsClean hfail).mp h.1, fun h =>
    have hu := (unchanged_iff_failsClean hfail).mpr h
    ⟨hu, hu.decryptEnvelope_snd⟩⟩

/-- An end that has opened the first message of the other. -/
def sampleReceived : Ratchet :=
  ((sample 7 1).decryptEnvelope Sodium.sample (sampleMessage 7 2 0)).1

/-- A header that is too short leaves nothing behind, and neither does a forgery under the
known key with an old number; one with a number ahead runs the skip loop. -/
theorem atomic_iff_failsClean_forged :
    (sample 7 1).Atomic Sodium.sample (forged 3 []) ∧
      sampleReceived.Atomic Sodium.sample (forged 0 (sample 7 2).dhPublicKey.val) ∧
      ¬ sampleReceived.Atomic Sodium.sample (forged 5 (sample 7 2).dhPublicKey.val) := by
  have hshort : parseHeader (forged 3 []).associatedData = none := by decide +kernel
  have hold : parseHeader (forged 0 (sample 7 2).dhPublicKey.val).associatedData =
      some (0, (sample 7 2).dhPublicKey.val) := by decide +kernel
  have hahead : parseHeader (forged 5 (sample 7 2).dhPublicKey.val).associatedData =
      some (5, (sample 7 2).dhPublicKey.val) := by decide +kernel
  have hknown : sampleReceived.lastRemotePub = (sample 7 2).dhPublicKey.val := by decide +kernel
  refine ⟨(atomic_iff_failsClean _ _ (by decide +kernel)).mpr (.inr ⟨by decide, fun n pub h => ?_⟩),
    (atomic_iff_failsClean _ _ (by decide +kernel)).mpr (.inr ⟨by decide +kernel, fun n pub h => ?_⟩),
    fun h => ?_⟩
  · rw [hshort] at h
    cases h
  · rw [hold] at h
    obtain ⟨rfl, rfl⟩ := Prod.mk.inj (Option.some.inj h)
    exact .inr ⟨hknown.symm, by decide +kernel⟩
  · rcases (atomic_iff_failsClean _ _ (by decide +kernel)).mp h with ha | ⟨-, hclean⟩
    · exact absurd ha (by decide +kernel)
    · rcases hclean 5 _ hahead with ⟨ht, -⟩ | ⟨-, hn⟩
      · exact ht.2 hknown.symm
      · exact hn (by decide +kernel)

/-- A forged header is rejected and its public key stays behind as the remote
key, so the genuine first message, which would have decrypted, no longer does. -/
theorem forged_header_not_atomic :
    ((sample 7 1).decryptEnvelope Sodium.sample (forged 0 (zeros 32))).2 = none ∧
      ((sample 7 1).decryptEnvelope Sodium.sample (sampleMessage 7 2 0)).2 = some [0] ∧
      (((sample 7 1).decryptEnvelope Sodium.sample (forged 0 (zeros 32))).1.decryptEnvelope
        Sodium.sample (sampleMessage 7 2 0)).2 = none ∧
      ¬ (sample 7 1).Atomic Sodium.sample (forged 0 (zeros 32)) := by
  refine ⟨by decide +kernel, by decide +kernel, by decide +kernel, fun h => ?_⟩
  have hu : ¬ (sample 7 1).Unchanged
      ((sample 7 1).decryptEnvelope Sodium.sample (forged 0 (zeros 32))).1 := by decide +kernel
  exact hu h.1

end SecureComm.Ratchet
