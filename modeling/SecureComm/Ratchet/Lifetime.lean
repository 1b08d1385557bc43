import SecureComm.Ratchet.Chains

/-!
# The skipped keys over a lifetime

Besides a delivery, three methods replace the receive chain: `initialize`,
`ratchet_step` and `import_state`. None of them clears the skipped keys, so the
keys of the old chain stay in the map and stand in the way of the new chain's
messages. `KeepsSkipped` says when a call does no such harm.
-/

namespace SecureComm.Ratchet

variable {S : Sodium}

/-- What is done with an object over its lifetime. An imported state comes with
the numbers that were accepted on its receive chain before it was exported. -/
inductive Life where
  | initializeWith (rootKey sessionId : Bytes)
  | importState (state : Bytes) (accepted : List UInt32)
  | op (op : Op)

/-- The state to be imported carries the receive chain that is in force. -/
def SameChain (r : Ratchet) (state : Bytes) : Prop :=
  (state.drop 64).take 32 = r.recvChainKey ∧ readU32Be state 100 = .ok (r.recvMessageNumber, 104)

instance (r : Ratchet) (state : Bytes) : Decidable (r.SameChain state) := by
  unfold SameChain; infer_instance

def live (S : Sodium) (x : Ratchet × Chains) : Life → Ratchet × Chains
  | .initializeWith root sid =>
    match x.1.initializeWith root sid with
    | .ok r' => (r', r'.chains)
    | .error _ => x
  | .importState state accepted =>
    match x.1.importState state with
    | .ok r' =>
      if x.1.SameChain state then (r', x.2)
      else (r', { r'.chains with recvFrom := r'.recvMessageNumber.toNat, accepted })
    | .error _ => x
  | .op op => observe S x op

/-- A call that keeps the skipped keys in line: what replaces the receive chain
finds no skipped key, and an imported state leaves no number behind. -/
def KeepsSkipped (S : Sodium) (r : Ratchet) : Life → Prop
  | .initializeWith root _ => root.length = 32 → r.skippedMessageKeys = ∅
  | .importState state accepted => r.SameChain state ∨ state.length < 168 ∨
      r.skippedMessageKeys = ∅ ∧
        ∀ n, readU32Be state 100 = .ok (n, 104) → ∀ i, i < n → i ∈ accepted
  | .op (.encrypt _ _) => True
  | .op (.decrypt env) => r.Delivers S (fun r => r.skippedMessageKeys = ∅) env
  | .op (.ratchetStep pub) => (∃ s, r.dhCompute S pub = .ok s) → r.skippedMessageKeys = ∅

theorem skippedInv_decrypt {r : Ratchet} {c : Chains} {env : Envelope}
    (hg : r.Delivers S (fun r => r.skippedMessageKeys = ∅) env) (h : SkippedInv S c r) :
    SkippedInv S (observe S (r, c) (.decrypt env)).2 (observe S (r, c) (.decrypt env)).1 := by
  obtain ⟨sid, he⟩ | ⟨n, q, c', hq, ho, he⟩ := hg.cases c
  · rw [he]; exact h
  · rw [he]
    refine RecvInv.openMessage (RecvInv.skipTo ?_ n) ho
    obtain ⟨rfl, sid, pub, rfl⟩ | ⟨s, sid, pub, h0, rfl, rfl⟩ := hq
    · exact h
    · have hi := RecvInv.installed S (r.install S s pub).chains (n := 0) rfl
        fun i hi => absurd hi UInt32.not_lt_zero
      rw [← h0] at hi
      exact hi

theorem skippedInv_import {r : Ratchet} {c : Chains} {state : Bytes} {acc : List UInt32}
    (hg : r.KeepsSkipped S (.importState state acc)) (h : SkippedInv S c r) :
    SkippedInv S (live S (r, c) (.importState state acc)).2
      (live S (r, c) (.importState state acc)).1 := by
  obtain ⟨-, he⟩ | ⟨hl, sn, rn, -, hrn, he⟩ := r.importState_cases state
  · simp only [live, he]; exact h
  · simp only [live, he]
    by_cases hs : r.SameChain state
    · obtain ⟨hk, hn⟩ := hs
      rw [if_pos ⟨hk, hn⟩]
      rw [hrn] at hn
      cases hn
      have hkey : (stateField state 64 hl (by decide)).val = r.recvChainKey := hk
      show RecvInv S c (stateField state 64 hl (by decide)).val _ _
      rw [hkey]
      exact h
    · rw [if_neg hs]
      obtain hs' | hl' | ⟨h0, hacc⟩ := hg
      · exact absurd hs' hs
      · exact absurd hl' hl
      · show RecvInv S _ _ rn r.skippedMessageKeys
        rw [h0]
        exact RecvInv.installed S { sendBase := _, recvBase := _, recvFrom := rn.toNat, accepted := acc }
          rfl (hacc rn hrn)

theorem skippedInv_live {x : Ratchet × Chains} {e : Life} (hg : x.1.KeepsSkipped S e)
    (h : SkippedInv S x.2 x.1) : SkippedInv S (live S x e).2 (live S x e).1 := by
  obtain ⟨r, c⟩ := x
  have hzero : ∀ (c : Chains) (i : UInt32), i < 0 → i ∈ c.accepted :=
    fun _ i hi => absurd hi UInt32.not_lt_zero
  cases e with
  | initializeWith root sid =>
    by_cases hl : root.length = 32
    · have h0 : r.skippedMessageKeys = ∅ := hg hl
      simp only [live, initializeWith_ok r hl]
      show RecvInv S _ root 0 r.skippedMessageKeys
      rw [h0]
      exact RecvInv.installed S { sendBase := root, recvBase := root } rfl (hzero _)
    · simp only [live, initializeWith_error r hl]; exact h
  | importState state acc => exact skippedInv_import hg h
  | op op =>
    cases op with
    | encrypt pt draw => simp only [live, observe, apply, Chains.after, encryptEnvelope_eq]; exact h
    | decrypt env => exact skippedInv_decrypt hg h
    | ratchetStep pub =>
      obtain he | ⟨s, hs, he⟩ := observe_ratchetStep (S := S) r c pub
      · simp only [live, he]; exact h
      · have h0 : r.skippedMessageKeys = ∅ := hg ⟨s, hs⟩
        simp only [live, he]
        show RecvInv S _ _ 0 r.skippedMessageKeys
        rw [h0]
        exact RecvInv.installed S (r.install S s.val pub).chains rfl (hzero _)

/-- **The skipped keys are those of the chain in force**, along every run whose
calls keep them so: an entry is the message key of a number below the counter,
every such number not accepted has one, and each number not accepted is tried
with its own key on the chain in force. -/
theorem skipped_keys_in_force (dhPrivateKey : BytesN 32) {es : List Life}
    (hg : Run.Along (live S) (fun x e => x.1.KeepsSkipped S e)
      (new S dhPrivateKey, (new S dhPrivateKey).chains) es) :
    let x := es.foldl (live S) (new S dhPrivateKey, (new S dhPrivateKey).chains)
    (∀ i k, x.1.skippedMessageKeys.lookup i = some k →
        x.2.recvFrom ≤ i.toNat ∧ i < x.1.recvMessageNumber ∧
          k = deriveMessageKey S (x.2.keyAt S i)) ∧
      (∀ i, i < x.1.recvMessageNumber → i ∉ x.2.accepted →
        x.1.skippedMessageKeys.lookup i ≠ none) ∧
      ∀ i, i ∉ x.2.accepted →
        (x.1.skipTo S i).keyFor S i = deriveMessageKey S (x.2.keyAt S i) := by
  have h : SkippedInv S _ _ := hg.invariant (I := fun x => SkippedInv S x.2 x.1)
    (fun x e => skippedInv_live) (RecvInv.installed S _ rfl fun i hi => absurd hi UInt32.not_lt_zero)
  exact ⟨h.sound, h.complete, fun i hi => h.keyFor hi⟩

/-- After message 1 of the concrete session, the key of message 0 is there. -/
theorem skipped_keys_in_force_sample :
    (([.initializeWith (Sodium.Sample.block 7).val (zeros 16),
        .op (.decrypt (sampleMessage 7 2 1))] : List Life).foldl (live Sodium.sample)
      (new Sodium.sample (Sodium.Sample.block 1),
        (new Sodium.sample (Sodium.Sample.block 1)).chains)).1.skippedMessageKeys.lookup 0 ≠ none := by
  have hh : parseHeader (sampleMessage 7 2 1).associatedData =
      some (1, (sample 7 2).dhPublicKey.val) := by decide +kernel
  have hg : Run.Along (live Sodium.sample) (fun x e => x.1.KeepsSkipped Sodium.sample e)
      (new Sodium.sample (Sodium.Sample.block 1), (new Sodium.sample (Sodium.Sample.block 1)).chains)
      [.initializeWith (Sodium.Sample.block 7).val (zeros 16),
        .op (.decrypt (sampleMessage 7 2 1))] := by
    refine ⟨fun _ => rfl, fun n pub _ hp => ?_, trivial⟩
    rw [hh] at hp
    cases hp
    exact ⟨fun _ _ => ⟨UInt32.zero_le, by decide⟩, fun s ht => absurd rfl ht.1⟩
  exact (skipped_keys_in_force (Sodium.Sample.block 1) hg).2.1 0 (by decide +kernel)
    (by decide +kernel)

/-- A key cached in one session is still there after `initialize` has started
another, and the first message of that is tried with it and rejected. -/
theorem stale_key_blocks :
    let x := ([.initializeWith (Sodium.Sample.block 8).val (zeros 16),
        .op (.decrypt (sampleMessage 8 2 1)),
        .initializeWith (Sodium.Sample.block 7).val (zeros 16)] : List Life).foldl
      (live Sodium.sample)
      (new Sodium.sample (Sodium.Sample.block 1), (new Sodium.sample (Sodium.Sample.block 1)).chains)
    (x.1.skippedMessageKeys.lookup 0 ≠ none ∧ ¬ 0 < x.1.recvMessageNumber) ∧
      (x.1.decryptEnvelope Sodium.sample (sampleMessage 7 2 0)).2 = none ∧
      ((sample 7 1).decryptEnvelope Sodium.sample (sampleMessage 7 2 0)).2 = some [0] := by
  decide +kernel

end SecureComm.Ratchet
