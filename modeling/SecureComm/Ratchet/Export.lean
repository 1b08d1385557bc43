import SecureComm.Ratchet.Chains

/-!
# Export and import

A state carries the keys, the counters and the key pair. It does not carry the
session id, the skipped keys or the remote key, so importing it into a new
object gives the old one with these forgotten, which shows as soon as it sends.
-/

namespace SecureComm.Ratchet

variable {S : Sodium} {r : Ratchet}

/-- All three keys have the size a state has room for. -/
structure Wide (r : Ratchet) : Prop where
  rootKey : r.rootKey.length = 32
  sendChainKey : r.sendChainKey.length = 32
  recvChainKey : r.recvChainKey.length = 32

theorem wide_install (r : Ratchet) (s pub : Bytes) : (r.install S s pub).Wide :=
  ⟨hkdfExtract_length S r.rootKey s, hkdfExpand_length S _ sendInfo, hkdfExpand_length S _ recvInfo⟩

theorem Wide.decrypt (h : r.Wide) (env : Envelope) : (r.decryptEnvelope S env).1.Wide := by
  refine decryptEnvelope_induct (fun q sid _ hq => ⟨hq.1, hq.2, hq.3⟩) (fun q q' pub hd hq => ?_)
    (fun q _ hq => ⟨hq.1, hq.2, advanceChainKey_length S _⟩) (fun q n env hq => ?_) env h
  · obtain ⟨s, -, -, rfl⟩ | ⟨-, rfl⟩ := dhBranch_cases hd
    · exact wide_install q s.val pub
    · exact ⟨hq.1, hq.2, hq.3⟩
  · obtain ⟨a, he, -⟩ | ⟨key, pt, -, -, he⟩ | ⟨pt, -, -, he⟩ := q.openMessage_cases (S := S) n env
    · rw [he]; exact ⟨hq.1, hq.2, hq.3⟩
    · rw [he]; exact ⟨hq.1, hq.2, hq.3⟩
    · rw [he]; exact ⟨hq.1, hq.2, advanceChainKey_length S _⟩

theorem Wide.apply (h : r.Wide) (op : Op) : (r.apply S op).Wide := by
  cases op with
  | encrypt pt draw =>
    simp only [Ratchet.apply, encryptEnvelope_eq]
    exact ⟨h.1, advanceChainKey_length S _, h.3⟩
  | decrypt env => exact h.decrypt env
  | ratchetStep pub =>
    rcases hs : r.ratchetStep S pub with e | r'
    · simp only [Ratchet.apply, hs]; exact h
    · obtain ⟨s, -, rfl⟩ := ratchetStep_ok_iff.mp hs
      simp only [Ratchet.apply, hs]
      have hw := wide_install (S := S) r s.val pub
      exact ⟨hw.1, hw.2, hw.3⟩

theorem apply_sessionId {sid : Bytes} (hsid : sid ≠ []) (h : r.sessionId = sid) (op : Op) :
    (r.apply S op).sessionId = sid := by
  cases op with
  | encrypt pt draw =>
    simp only [Ratchet.apply, encryptEnvelope_eq]
    rw [sendSession, h, if_neg hsid]
  | decrypt env =>
    refine decryptEnvelope_induct (I := fun q => q.sessionId = sid)
      (fun q sid' h0 hq => absurd (hq.symm.trans h0) hsid) (fun q q' pub hd hq => ?_)
      (fun q _ hq => hq) (fun q n env hq => ?_) env h
    · obtain ⟨s, -, -, rfl⟩ | ⟨-, rfl⟩ := dhBranch_cases hd <;> exact hq
    · rw [openMessage_frame]; exact hq
  | ratchetStep pub =>
    rcases hs : r.ratchetStep S pub with e | r'
    · simp only [Ratchet.apply, hs]; exact h
    · obtain ⟨s, -, rfl⟩ := ratchetStep_ok_iff.mp hs
      simp only [Ratchet.apply, hs]; exact h

/-! ## The round trip -/

theorem stateField_at {state part rest : Bytes} {off : Nat} (h : At state off (part ++ rest))
    (hn : part.length = 32) (hl : ¬ state.length < 168) (hoff : off ≤ 136) :
    (stateField state off hl hoff).val = part := h.take hn

/-- What a state carries of an object: not the session id, the skipped keys and
the remote key. -/
def carried (r : Ratchet) : Ratchet :=
  { r with sessionId := [], skippedMessageKeys := ∅, lastRemotePub := [], aead := ⟨r.sendChainKey⟩ }

/-- **Round trip**: importing an exported state gives what it carries. -/
theorem importState_exportState (h : r.Wide) (dhPrivateKey : BytesN 32) :
    (new S dhPrivateKey).importState r.exportState = .ok r.carried := by
  have hlen : r.exportState.length = 168 := by
    simp only [exportState, pushU32Be, List.length_append, BigEndian.be32_length, h.rootKey,
      h.sendChainKey, h.recvChainKey, r.dhPrivateKey.property, r.dhPublicKey.property]
  have d0 : At r.exportState 0 (r.rootKey ++ (r.sendChainKey ++ (r.recvChainKey ++
      (BigEndian.be32 r.sendMessageNumber ++ (BigEndian.be32 r.recvMessageNumber ++
        (r.dhPrivateKey.val ++ (r.dhPublicKey.val ++ []))))))) := by
    refine ⟨Nat.zero_le _, ?_⟩
    simp only [exportState, pushU32Be, List.drop_zero, List.append_assoc, List.append_nil]
  have d32 := d0.next h.rootKey
  have d64 := d32.next h.sendChainKey
  have d96 := d64.next h.recvChainKey
  have d100 := d96.next (BigEndian.be32_length _)
  have d104 := d100.next (BigEndian.be32_length _)
  have d136 := d104.next r.dhPrivateKey.property
  obtain ⟨hs, -⟩ | ⟨hl, sn, rn, hsn, hrn, he⟩ := (new S dhPrivateKey).importState_cases r.exportState
  · omega
  · rw [d96.readU32Be] at hsn
    rw [d100.readU32Be] at hrn
    cases hsn
    cases hrn
    rw [he, stateField_at d0 h.rootKey, stateField_at d32 h.sendChainKey,
      stateField_at d64 h.recvChainKey,
      Subtype.ext (stateField_at d104 r.dhPrivateKey.property hl _),
      Subtype.ext (stateField_at d136 r.dhPublicKey.property hl _)]
    rfl

/-! ## Behaviour -/

inductive Call where
  | encrypt (plaintext : Bytes) (draw : Draw)
  | decrypt (env : Envelope)

inductive Output where
  | envelope (result : Except String Envelope)
  | plaintext (result : Option Bytes)

def outputs (S : Sodium) (r : Ratchet) : List Call → List Output
  | [] => []
  | .encrypt plaintext draw :: calls =>
    .envelope (r.encryptEnvelope S plaintext draw).2 ::
      outputs S (r.encryptEnvelope S plaintext draw).1 calls
  | .decrypt env :: calls =>
    .plaintext (r.decryptEnvelope S env).2 :: outputs S (r.decryptEnvelope S env).1 calls

/-- One object behaves as the other from now on. -/
def SameBehaviour (S : Sodium) (r r' : Ratchet) : Prop :=
  ∀ calls, outputs S r calls = outputs S r' calls

/-- **An imported object never behaves as the exported one**: it sends under a
session id that it draws. -/
theorem imported_behaves_otherwise {r₀ : Ratchet} {root sid : Bytes} (hsid : sid ≠ [])
    {key key' : BytesN 32} (hi : (new S key).initializeWith root sid = .ok r₀) (ops : List Op) :
    ∃ r', (new S key').importState (ops.foldl (apply S) r₀).exportState = .ok r' ∧
      ¬ SameBehaviour S (ops.foldl (apply S) r₀) r' := by
  have hreach : (ops.foldl (apply S) r₀).Wide ∧ (ops.foldl (apply S) r₀).sessionId = sid := by
    have hroot := initializeWith_length hi
    rw [initializeWith_ok _ hroot, Except.ok.injEq] at hi
    refine List.foldlRecOn (motive := fun r => r.Wide ∧ r.sessionId = sid) ops (apply S) ?_
      fun r hr op _ => ⟨hr.1.apply op, apply_sessionId hsid hr.2 op⟩
    rw [← hi]
    exact ⟨⟨hroot, hroot, hroot⟩, rfl⟩
  generalize ops.foldl (apply S) r₀ = r at hreach
  obtain ⟨hw, hs⟩ := hreach
  refine ⟨_, importState_exportState hw key', fun h => ?_⟩
  obtain ⟨fresh, hfresh⟩ : ∃ fresh : BytesN 16, fresh.val ≠ sid := by
    by_cases hz : sid = zeros 16
    · exact ⟨⟨List.replicate 16 1, rfl⟩, by rw [hz]; decide⟩
    · exact ⟨⟨zeros 16, rfl⟩, fun hc => hz hc.symm⟩
  have he := h [.encrypt [] ⟨fresh, ⟨zeros 12, rfl⟩, 0⟩]
  simp only [outputs, encryptEnvelope_eq, carried, List.cons.injEq, Output.envelope.injEq, Except.ok.injEq,
    Envelope.mk.injEq, sendSession, hs, if_neg hsid, if_true] at he
  exact hfresh he.1.1.symm

/-- The concrete session after message 1, exported and imported. -/
theorem imported_behaves_otherwise_sample :
    ∃ r', (new Sodium.sample (Sodium.Sample.block 3)).importState
        (([.decrypt (sampleMessage 7 2 1)] : List Op).foldl (apply Sodium.sample)
          (sample 7 1)).exportState = .ok r' ∧
      ¬ SameBehaviour Sodium.sample (([.decrypt (sampleMessage 7 2 1)] : List Op).foldl
        (apply Sodium.sample) (sample 7 1)) r' :=
  imported_behaves_otherwise (by decide) (sample_initialized 7 1) _

/-- Message 0, whose key was cached, no longer opens after export and import. -/
theorem imported_loses_skipped_key :
    let r := ((sample 7 1).decryptEnvelope Sodium.sample (sampleMessage 7 2 1)).1
    (r.decryptEnvelope Sodium.sample (sampleMessage 7 2 0)).2 = some [0] ∧
      ∀ r', (new Sodium.sample (Sodium.Sample.block 3)).importState r.exportState = .ok r' →
        (r'.decryptEnvelope Sodium.sample (sampleMessage 7 2 0)).2 = none ∧
          ¬ SameBehaviour Sodium.sample r r' := by
  have hw : ((sample 7 1).decryptEnvelope Sodium.sample (sampleMessage 7 2 1)).1.Wide :=
    Wide.decrypt ⟨(Sodium.Sample.block 7).property, (Sodium.Sample.block 7).property,
      (Sodium.Sample.block 7).property⟩ _
  have h0 : (((sample 7 1).decryptEnvelope Sodium.sample (sampleMessage 7 2 1)).1.decryptEnvelope
      Sodium.sample (sampleMessage 7 2 0)).2 = some [0] := by decide +kernel
  refine ⟨h0, fun r' hr => ?_⟩
  obtain rfl := Except.ok.inj ((importState_exportState hw _).symm.trans hr)
  have h1 : (((sample 7 1).decryptEnvelope Sodium.sample (sampleMessage 7 2 1)).1.carried.decryptEnvelope
      Sodium.sample (sampleMessage 7 2 0)).2 = none := by decide +kernel
  refine ⟨h1, fun hsame => ?_⟩
  have he := hsame [.decrypt (sampleMessage 7 2 0)]
  simp only [outputs, h0, h1] at he
  exact Option.some_ne_none _ (Output.plaintext.inj (List.cons.inj he).1)

end SecureComm.Ratchet
