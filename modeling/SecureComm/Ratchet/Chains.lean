import SecureComm.Lib.Run
import SecureComm.Ratchet.Spec

/-!
# Chains, counters and skipped keys

A `Chains` is what an observer of one object knows: the keys of the chains in
force where they were installed, and the numbers accepted on the receive chain.
`InStep` says that both chain keys are as many steps from their base as the
counters say. `RecvInv` says the same of the receive chain and that the skipped
keys are exactly those of the numbers it has passed over.

Neither survives every delivery: the DH branch leaves the send counter and the
skipped keys of the chains it replaces, and a number below the counter that
opens under the chain key moves the counter back. `Delivers` excludes these.
-/

namespace SecureComm.Ratchet

variable {S : Sodium}

/-! ## Events -/

inductive Op where
  | encrypt (plaintext : Bytes) (draw : Draw)
  | decrypt (env : Envelope)
  | ratchetStep (remoteDhPublic : Bytes)

/-- The object after a call. `ratchet_step` throws before it writes. -/
def apply (S : Sodium) (r : Ratchet) : Op → Ratchet
  | .encrypt plaintext draw => (r.encryptEnvelope S plaintext draw).1
  | .decrypt env => (r.decryptEnvelope S env).1
  | .ratchetStep pub =>
    match r.ratchetStep S pub with
    | .ok r' => r'
    | .error _ => r

theorem apply_ratchetStep {r : Ratchet} {pub : Bytes} (h : (r.ratchetStep S pub).isOk) :
    r.ratchetStep S pub = .ok (r.apply S (.ratchetStep pub)) := by
  rcases hs : r.ratchetStep S pub with e | r'
  · rw [hs] at h; cases h
  · simp only [apply, hs]

/-- The chains in force. `recvFrom` is the number of the message that
`recvBase` is for: 0, unless the chain was imported. -/
structure Chains where
  sendBase : Bytes
  recvBase : Bytes
  recvFrom : Nat := 0
  accepted : List UInt32 := []
  deriving DecidableEq

def chains (r : Ratchet) : Chains := { sendBase := r.sendChainKey, recvBase := r.recvChainKey }

/-- The object just after the DH branch of a delivery has installed chains. -/
def installedBy (S : Sodium) (r : Ratchet) (env : Envelope) : Option Ratchet := do
  let r ← r.adoptSession env
  let (_, pub) ← parseHeader env.associatedData
  if r.DhTaken pub then (r.dhBranch S pub).toOption else none

theorem installedBy_exit {r r1 : Ratchet} {env : Envelope} (ha : r.adoptSession env = some r1)
    (hexit : parseHeader env.associatedData = none ∨ ∃ n pub e,
      parseHeader env.associatedData = some (n, pub) ∧ r1.dhBranch S pub = .error e) :
    r.installedBy S env = none := by
  obtain hn | ⟨n, pub, e, hp, hd⟩ := hexit
  · simp [installedBy, ha, hn]
  · simp [installedBy, ha, hp, hd, Except.toOption]

theorem installedBy_taken {r r1 q : Ratchet} {env : Envelope} {n : UInt32} {pub : Bytes}
    (ha : r.adoptSession env = some r1) (hp : parseHeader env.associatedData = some (n, pub))
    (ht : r1.DhTaken pub) (hd : r1.dhBranch S pub = .ok q) : r.installedBy S env = some q := by
  simp [installedBy, ha, hp, hd, ht, Except.toOption]

theorem installedBy_not_taken {r r1 : Ratchet} {env : Envelope} {n : UInt32} {pub : Bytes}
    (ha : r.adoptSession env = some r1) (hp : parseHeader env.associatedData = some (n, pub))
    (ht : ¬ r1.DhTaken pub) : r.installedBy S env = none := by
  simp [installedBy, ha, hp, ht]

def acceptedBy (S : Sodium) (r : Ratchet) (env : Envelope) : List UInt32 :=
  match (r.decryptEnvelope S env).2, parseHeader env.associatedData with
  | some _, some (n, _) => [n]
  | _, _ => []

/-- The chains in force after a call. -/
def Chains.after (S : Sodium) (c : Chains) (r : Ratchet) : Op → Chains
  | .encrypt _ _ => c
  | .decrypt env =>
    let c := ((r.installedBy S env).map chains).getD c
    { c with accepted := r.acceptedBy S env ++ c.accepted }
  | .ratchetStep pub =>
    match r.ratchetStep S pub with
    | .ok r' => r'.chains
    | .error _ => c

def observe (S : Sodium) (x : Ratchet × Chains) (op : Op) : Ratchet × Chains :=
  (x.1.apply S op, x.2.after S x.1 op)

theorem observe_ratchetStep (r : Ratchet) (c : Chains) (pub : Bytes) :
    observe S (r, c) (.ratchetStep pub) = (r, c) ∨
      ∃ s, r.dhCompute S pub = .ok s ∧ observe S (r, c) (.ratchetStep pub) =
        ({ r.install S s.val pub with sendMessageNumber := 0 }, (r.install S s.val pub).chains) := by
  simp only [observe, apply, Chains.after]
  rcases hs : r.ratchetStep S pub with e | r'
  · exact .inl rfl
  · obtain ⟨s, hd, rfl⟩ := ratchetStep_ok_iff.mp hs
    exact .inr ⟨s, hd, rfl⟩

/-! ## One delivery -/

theorem skipTo_recvChainKey (n : UInt32) (r : Ratchet) :
    (r.skipTo S n).recvChainKey =
      chainKey S r.recvChainKey (n.toNat - r.recvMessageNumber.toNat) := by
  have hc : ∀ (k : Nat) (q : Ratchet),
      ((skipOne S)^[k] q).recvChainKey = chainKey S q.recvChainKey k := by
    intro k
    induction k with
    | zero => exact fun q => rfl
    | succ k ih =>
      intro q
      rw [Function.iterate_succ_apply', chainKey_succ, ← ih]
      rfl
  exact hc _ _

/-- The loop caches numbers below the one it stops at. -/
theorem skipTo_lookup (n : UInt32) (r : Ratchet) :
    (r.skipTo S n).skippedMessageKeys.lookup n = r.skippedMessageKeys.lookup n :=
  skipTo_induct (I := fun q => q.skippedMessageKeys.lookup n = r.skippedMessageKeys.lookup n)
    (fun q hq hi => by
      have hne : n ≠ q.recvMessageNumber := fun h => UInt32.lt_irrefl _ (h ▸ hq)
      exact (Table.lookup_emplace_ne _ _ hne).trans hi) rfl

/-- No skipped key is there for the number, and the receive chain, moved up to
it, opens the envelope. -/
def ChainOpens (S : Sodium) (r : Ratchet) (n : UInt32) (env : Envelope) : Prop :=
  r.skippedMessageKeys.lookup n = none ∧ ∃ pt, Opens S
    (deriveMessageKey S (chainKey S r.recvChainKey (n.toNat - r.recvMessageNumber.toNat))) env pt

/-- A delivery on a receive chain whose counter stays in line: `Fresh` is what
the DH branch must find, and a message that the chain itself opens is not
behind the counter and not the last that has a number. -/
def Delivers (S : Sodium) (Fresh : Ratchet → Prop) (r : Ratchet) (env : Envelope) : Prop :=
  ∀ n pub, r.adoptSession env ≠ none → parseHeader env.associatedData = some (n, pub) →
    (¬ r.DhTaken pub → r.ChainOpens S n env → r.recvMessageNumber ≤ n ∧ n.toNat + 1 < 2 ^ 32) ∧
    ∀ s, r.DhTaken pub → r.dhCompute S pub = .ok s →
      Fresh r ∧ ((r.install S s.val pub).ChainOpens S n env → n.toNat + 1 < 2 ^ 32)

/-- **One delivery, observed**: nothing of the chains changes; or the loop runs
and a message is opened, on the chains in force or on those just installed. -/
theorem delivery_cases (r : Ratchet) (c : Chains) (env : Envelope) :
    (∃ sid, observe S (r, c) (.decrypt env) = ({ r with sessionId := sid }, c)) ∨
    ∃ n pub q c', r.adoptSession env ≠ none ∧ parseHeader env.associatedData = some (n, pub) ∧
      ((¬ r.DhTaken pub ∧ c' = c ∧ ∃ sid, q = { r with sessionId := sid, lastRemotePub := pub }) ∨
        ∃ s sid, r.DhTaken pub ∧ r.dhCompute S pub = .ok s ∧
          q = { r.install S s.val pub with sessionId := sid } ∧ c' = q.chains) ∧
      observe S (r, c) (.decrypt env) =
        (((q.skipTo S n).openMessage S n env).1,
          { c' with accepted :=
              (if ((q.skipTo S n).openMessage S n env).2 = none then [] else [n]) ++ c'.accepted }) := by
  rcases r.decryptEnvelope_cases (S := S) env with
    ⟨ha, he⟩ | ⟨r1, ha, he, hexit⟩ | ⟨r1, n, pub, q, ha, hp, hd, he⟩
  · refine .inl ⟨r.sessionId, ?_⟩
    simp [observe, apply, Chains.after, installedBy, acceptedBy, he, ha]
  · refine .inl ⟨r1.sessionId, ?_⟩
    have hi := installedBy_exit ha hexit
    have hr1 := adoptSession_cases ha
    simp only [observe, apply, Chains.after, acceptedBy, he, hi, Option.map_none, Option.getD_none,
      List.nil_append]
    rw [hr1]
  · have hr1 := adoptSession_cases ha
    refine .inr ⟨n, pub, q, ((r.installedBy S env).map chains).getD c, by rw [ha]; simp, hp, ?_, ?_⟩
    · obtain ⟨s, ht, hs, rfl⟩ | ⟨ht, rfl⟩ := dhBranch_cases hd
      · have hi := installedBy_taken ha hp ht hd
        rw [hr1] at ht hs
        refine .inr ⟨s, r1.sessionId, ht, hs, ?_, by rw [hi]; rfl⟩
        rw [hr1]; rfl
      · have hi := installedBy_not_taken (S := S) ha hp ht
        rw [hr1] at ht
        refine .inl ⟨ht, by rw [hi]; rfl, r1.sessionId, ?_⟩
        rw [hr1]
    · simp only [observe, apply, Chains.after, acceptedBy, he, hp]
      rcases ((q.skipTo S n).openMessage S n env).2 with _ | pt <;> rfl

/-- A message that the chain itself opens has the number of the counter. -/
def OpensInOrder (S : Sodium) (q : Ratchet) (n : UInt32) (env : Envelope) : Prop :=
  q.skippedMessageKeys.lookup n = none →
    (∃ pt, Opens S (deriveMessageKey S q.recvChainKey) env pt) →
      q.recvMessageNumber = n ∧ n.toNat + 1 < 2 ^ 32

theorem opensInOrder_skipTo {q : Ratchet} {n : UInt32} {env : Envelope}
    (h : q.ChainOpens S n env → q.recvMessageNumber ≤ n ∧ n.toNat + 1 < 2 ^ 32) :
    (q.skipTo S n).OpensInOrder S n env := by
  intro hl ho
  rw [skipTo_lookup] at hl
  rw [skipTo_recvChainKey] at ho
  obtain ⟨hle, hn⟩ := h ⟨hl, ho⟩
  refine ⟨?_, hn⟩
  rw [skipTo_recvMessageNumber]
  split
  · rfl
  · rename_i hlt
    exact UInt32.le_antisymm hle (UInt32.not_lt.mp hlt)

/-- **A delivery in line, observed**. -/
theorem Delivers.cases {Fresh : Ratchet → Prop} {r : Ratchet} {env : Envelope}
    (h : Delivers S Fresh r env) (c : Chains) :
    (∃ sid, observe S (r, c) (.decrypt env) = ({ r with sessionId := sid }, c)) ∨
    ∃ n q c', ((c' = c ∧ ∃ sid pub, q = { r with sessionId := sid, lastRemotePub := pub }) ∨
        ∃ s sid pub, Fresh r ∧ q = { r.install S s pub with sessionId := sid } ∧ c' = q.chains) ∧
      (q.skipTo S n).OpensInOrder S n env ∧
      observe S (r, c) (.decrypt env) =
        (((q.skipTo S n).openMessage S n env).1,
          { c' with accepted :=
              (if ((q.skipTo S n).openMessage S n env).2 = none then [] else [n]) ++ c'.accepted }) := by
  obtain hsid | ⟨n, pub, q, c', ha, hp, hq, he⟩ := delivery_cases r c env
  · exact .inl hsid
  · refine .inr ⟨n, q, c', ?_, opensInOrder_skipTo ?_, he⟩
    · obtain ⟨-, hc, sid, hq⟩ | ⟨s, sid, ht, hs, hq, hc⟩ := hq
      · exact .inl ⟨hc, sid, pub, hq⟩
      · exact .inr ⟨s.val, sid, pub, ((h n pub ha hp).2 s ht hs).1, hq, hc⟩
    · intro ho
      obtain ⟨ht, -, sid, rfl⟩ | ⟨s, sid, ht, hs, rfl, -⟩ := hq
      · exact (h n pub ha hp).1 ht ho
      · exact ⟨UInt32.zero_le, ((h n pub ha hp).2 s ht hs).2 ho⟩

/-! ## Chains and counters -/

/-- Both chain keys are as many steps from their base as the counters say. -/
structure InStep (S : Sodium) (c : Chains) (r : Ratchet) : Prop where
  send : r.sendChainKey = chainKey S c.sendBase r.sendMessageNumber.toNat
  recv : r.recvChainKey = chainKey S c.recvBase r.recvMessageNumber.toNat

theorem InStep.skipTo {c : Chains} {r : Ratchet} (h : InStep S c r) (n : UInt32) :
    InStep S c (r.skipTo S n) :=
  skipTo_induct (I := InStep S c) (fun q hq hi => by
    refine ⟨hi.send, ?_⟩
    show advanceChainKey S q.recvChainKey = chainKey S c.recvBase (q.recvMessageNumber + 1).toNat
    rw [toNat_add_one_of_lt hq, chainKey_succ, hi.recv]) h

theorem InStep.openMessage {c : Chains} {r : Ratchet} {n : UInt32} {env : Envelope}
    (h : InStep S c r) (ho : r.OpensInOrder S n env) (acc : List UInt32) :
    InStep S { c with accepted := acc } (r.openMessage S n env).1 := by
  obtain ⟨a, he, -⟩ | ⟨key, pt, -, -, he⟩ | ⟨pt, hl, hpt, he⟩ := r.openMessage_cases (S := S) n env
  · rw [he]; exact ⟨h.send, h.recv⟩
  · rw [he]; exact ⟨h.send, h.recv⟩
  · obtain ⟨hn, hlt⟩ := ho hl ⟨pt, hpt⟩
    rw [he]
    refine ⟨h.send, ?_⟩
    show advanceChainKey S r.recvChainKey = chainKey S c.recvBase (n + 1).toNat
    rw [toNat_add_one hlt, chainKey_succ, h.recv, hn]

/-- A call that keeps chains and counters in step: the send counter does not
wrap, and the DH branch finds it at 0. -/
def KeepsStep (S : Sodium) (r : Ratchet) : Op → Prop
  | .encrypt _ _ => r.sendMessageNumber.toNat + 1 < 2 ^ 32
  | .decrypt env => r.Delivers S (fun r => r.sendMessageNumber = 0) env
  | .ratchetStep _ => True

theorem inStep_observe {x : Ratchet × Chains} {op : Op} (hg : x.1.KeepsStep S op)
    (h : InStep S x.2 x.1) : InStep S (observe S x op).2 (observe S x op).1 := by
  obtain ⟨r, c⟩ := x
  cases op with
  | encrypt pt draw =>
    have hn := toNat_add_one hg
    simp only [observe, apply, Chains.after, encryptEnvelope_eq]
    refine ⟨?_, h.recv⟩
    rw [hn, chainKey_succ, ← h.send]
  | decrypt env =>
    have hd : r.Delivers S (fun r => r.sendMessageNumber = 0) env := hg
    obtain ⟨sid, he⟩ | ⟨n, q, c', hq, ho, he⟩ := hd.cases c
    · rw [he]; exact ⟨h.send, h.recv⟩
    · rw [he]
      refine InStep.openMessage (InStep.skipTo ?_ n) ho _
      obtain ⟨rfl, sid, pub, rfl⟩ | ⟨s, sid, pub, h0, rfl, rfl⟩ := hq
      · exact ⟨h.send, h.recv⟩
      · refine ⟨?_, rfl⟩
        show _ = chainKey S _ r.sendMessageNumber.toNat
        rw [h0]; rfl
  | ratchetStep pub =>
    obtain he | ⟨s, -, he⟩ := observe_ratchetStep (S := S) r c pub
    · rw [he]; exact h
    · rw [he]; exact ⟨rfl, rfl⟩

/-- **Chains and counters stay in step** along every run whose calls keep them so. -/
theorem chains_in_step {r₀ r : Ratchet} {root sid : Bytes} {ops : List Op}
    (hi : r₀.initializeWith root sid = .ok r)
    (hg : Run.Along (observe S) (fun x op => x.1.KeepsStep S op) (r, r.chains) ops) :
    InStep S (ops.foldl (observe S) (r, r.chains)).2 (ops.foldl (observe S) (r, r.chains)).1 := by
  refine hg.invariant (I := fun x => InStep S x.2 x.1) (fun x op => inStep_observe) ?_
  rw [initializeWith_ok _ (initializeWith_length hi)] at hi
  cases hi
  exact ⟨rfl, rfl⟩

/-- A message out of order, then one of the other end, on the concrete session. -/
theorem chains_in_step_sample :
    InStep Sodium.sample
      (([.decrypt (sampleMessage 7 2 1), .encrypt [] sampleDraw] : List Op).foldl
        (observe Sodium.sample) (sample 7 1, (sample 7 1).chains)).2
      (([.decrypt (sampleMessage 7 2 1), .encrypt [] sampleDraw] : List Op).foldl
        (observe Sodium.sample) (sample 7 1, (sample 7 1).chains)).1 := by
  refine chains_in_step (sample_initialized 7 1) ⟨fun n pub _ hp => ?_,
    by show (_ : UInt32).toNat + 1 < 2 ^ 32; decide +kernel, trivial⟩
  have hh : parseHeader (sampleMessage 7 2 1).associatedData =
      some (1, (sample 7 2).dhPublicKey.val) := by decide +kernel
  rw [hh] at hp
  cases hp
  exact ⟨fun _ _ => ⟨UInt32.zero_le, by decide⟩, fun s ht => absurd rfl ht.1⟩

/-- A header with another public key makes the DH branch install a send chain,
and the send counter still counts on the old one. -/
theorem dh_branch_keeps_send_counter :
    ¬ InStep Sodium.sample
      (([.decrypt (sampleMessage 7 2 0), .encrypt [] sampleDraw,
          .decrypt (forged 0 (Sodium.Sample.block 5).val)] : List Op).foldl
        (observe Sodium.sample) (sample 7 1, (sample 7 1).chains)).2
      (([.decrypt (sampleMessage 7 2 0), .encrypt [] sampleDraw,
          .decrypt (forged 0 (Sodium.Sample.block 5).val)] : List Op).foldl
        (observe Sodium.sample) (sample 7 1, (sample 7 1).chains)).1 := by
  intro h
  exact absurd h.send (by decide +kernel)

/-! ## Skipped keys -/

/-- The chain key of a number. -/
def Chains.keyAt (S : Sodium) (c : Chains) (n : UInt32) : Bytes :=
  chainKey S c.recvBase (n.toNat - c.recvFrom)

/-- The receive side of an object, given by its chain key, its counter and its
skipped keys: the skipped keys are the message keys of the numbers below the
counter that have not been accepted. -/
structure RecvInv (S : Sodium) (c : Chains) (key : Bytes) (number : UInt32)
    (skipped : Table UInt32 Bytes) : Prop where
  from_le : c.recvFrom ≤ number.toNat
  chain : key = chainKey S c.recvBase (number.toNat - c.recvFrom)
  sound : ∀ i k, skipped.lookup i = some k →
    c.recvFrom ≤ i.toNat ∧ i < number ∧ k = deriveMessageKey S (c.keyAt S i)
  complete : ∀ i, i < number → i ∉ c.accepted → skipped.lookup i ≠ none

/-- The skipped keys of an object are those of the receive chain in force. -/
abbrev SkippedInv (S : Sodium) (c : Chains) (r : Ratchet) : Prop :=
  RecvInv S c r.recvChainKey r.recvMessageNumber r.skippedMessageKeys

theorem RecvInv.installed (S : Sodium) (c : Chains) {n : UInt32} (hc : c.recvFrom = n.toNat)
    (h : ∀ i, i < n → i ∈ c.accepted) : RecvInv S c c.recvBase n ∅ where
  from_le := by omega
  chain := by rw [hc, Nat.sub_self]; rfl
  sound i k hk := by rw [AList.lookup_empty] at hk; cases hk
  complete i hi hna := absurd (h i hi) hna

theorem RecvInv.skipOne {c : Chains} {r : Ratchet} (h : SkippedInv S c r)
    (hn : r.recvMessageNumber.toNat + 1 < 2 ^ 32) : SkippedInv S c (r.skipOne S) := by
  have hs := toNat_add_one hn
  have hle := h.from_le
  have hnew : r.skippedMessageKeys.lookup r.recvMessageNumber = none := by
    by_contra hc
    obtain ⟨k, hk⟩ := Option.ne_none_iff_exists'.mp hc
    exact UInt32.lt_irrefl _ (h.sound _ _ hk).2.1
  have hlt : ∀ i : UInt32, i < r.recvMessageNumber + 1 ↔
      i = r.recvMessageNumber ∨ i < r.recvMessageNumber := fun i => by
    rw [UInt32.lt_iff_toNat_lt, UInt32.lt_iff_toNat_lt, ← UInt32.toNat_inj, hs]; omega
  refine ⟨?_, ?_, ?_, ?_⟩
  · show _ ≤ (r.recvMessageNumber + 1).toNat
    omega
  · show advanceChainKey S r.recvChainKey = chainKey S _ ((r.recvMessageNumber + 1).toNat - _)
    rw [hs, Nat.sub_add_comm hle, chainKey_succ, ← h.chain]
  · intro i k hk
    have hk' : (Table.emplace r.skippedMessageKeys r.recvMessageNumber
      (deriveMessageKey S r.recvChainKey)).lookup i = some k := hk
    rw [Table.lookup_emplace, hnew] at hk'
    split at hk'
    · rename_i hi
      cases hk'
      subst hi
      refine ⟨hle, (hlt _).mpr (.inl rfl), ?_⟩
      rw [Chains.keyAt, ← h.chain]; rfl
    · obtain ⟨h1, h2, h3⟩ := h.sound i k hk'
      exact ⟨h1, (hlt i).mpr (.inr h2), h3⟩
  · intro i hi hna
    show (Table.emplace r.skippedMessageKeys r.recvMessageNumber _).lookup i ≠ none
    rw [Table.lookup_emplace]
    split
    · exact Option.some_ne_none _
    · rename_i hne
      exact h.complete i (((hlt i).mp hi).resolve_left hne) hna

theorem RecvInv.skipTo {c : Chains} {r : Ratchet} (h : SkippedInv S c r) (n : UInt32) :
    SkippedInv S c (r.skipTo S n) :=
  skipTo_induct (I := SkippedInv S c) (fun q hq hi => hi.skipOne (by
    have := UInt32.lt_iff_toNat_lt.mp hq
    have := n.toNat_lt
    omega)) h

theorem RecvInv.erase {c : Chains} {r : Ratchet} (h : SkippedInv S c r) (n : UInt32) :
    RecvInv S { c with accepted := n :: c.accepted } r.recvChainKey r.recvMessageNumber
      (r.skippedMessageKeys.erase n) := by
  refine ⟨h.from_le, h.chain, fun i k hk => ?_, fun i hi hna => ?_⟩
  · rw [Table.lookup_erase_eq] at hk
    split at hk
    · cases hk
    · exact h.sound i k hk
  · rw [List.mem_cons, not_or] at hna
    rw [Table.lookup_erase_eq, if_neg hna.1]
    exact h.complete i hi hna.2

theorem RecvInv.next {c : Chains} {r : Ratchet} (h : SkippedInv S c r)
    (hn : r.recvMessageNumber.toNat + 1 < 2 ^ 32) :
    RecvInv S { c with accepted := r.recvMessageNumber :: c.accepted }
      (advanceChainKey S r.recvChainKey) (r.recvMessageNumber + 1) r.skippedMessageKeys := by
  have hs := toNat_add_one hn
  have hle := h.from_le
  refine ⟨?_, ?_, fun i k hk => ?_, fun i hi hna => ?_⟩
  · show c.recvFrom ≤ _
    omega
  · show _ = chainKey S c.recvBase _
    rw [hs, Nat.sub_add_comm hle, chainKey_succ, ← h.chain]
  · obtain ⟨h1, h2, h3⟩ := h.sound i k hk
    refine ⟨h1, ?_, h3⟩
    rw [UInt32.lt_iff_toNat_lt] at h2 ⊢
    omega
  · rw [List.mem_cons, not_or, ← UInt32.toNat_inj] at hna
    refine h.complete i ?_ hna.2
    rw [UInt32.lt_iff_toNat_lt] at hi ⊢
    omega

theorem RecvInv.openMessage {c : Chains} {r : Ratchet} {n : UInt32} {env : Envelope}
    (h : SkippedInv S c r) (ho : r.OpensInOrder S n env) :
    SkippedInv S { c with accepted :=
        (if (r.openMessage S n env).2 = none then [] else [n]) ++ c.accepted }
      (r.openMessage S n env).1 := by
  obtain ⟨a, he, -⟩ | ⟨key, pt, -, -, he⟩ | ⟨pt, hl, hpt, he⟩ := r.openMessage_cases (S := S) n env
  · rw [he]; exact h
  · rw [he]; exact h.erase n
  · obtain ⟨rfl, hlt⟩ := ho hl ⟨pt, hpt⟩
    rw [he]; exact h.next hlt

/-- A number not accepted yet that has no skipped key is the one of the counter. -/
theorem RecvInv.number_of_none {c : Chains} {r : Ratchet} (h : SkippedInv S c r) {n : UInt32}
    (hna : n ∉ c.accepted) (hl : (r.skipTo S n).skippedMessageKeys.lookup n = none) :
    (r.skipTo S n).recvMessageNumber = n := by
  have hnlt : ¬ n < (r.skipTo S n).recvMessageNumber :=
    fun hlt => (h.skipTo n).complete n hlt hna hl
  rw [skipTo_recvMessageNumber] at hnlt ⊢
  split
  · rfl
  · rename_i hge
    rw [if_neg hge] at hnlt
    exact UInt32.le_antisymm (UInt32.not_lt.mp hnlt) (UInt32.not_lt.mp hge)

/-- **The key that is tried** for a number not accepted yet is the message key
of its chain key, on the chain in force. -/
theorem RecvInv.keyFor {c : Chains} {r : Ratchet} (h : SkippedInv S c r) {n : UInt32}
    (hna : n ∉ c.accepted) : (r.skipTo S n).keyFor S n = deriveMessageKey S (c.keyAt S n) := by
  have hq := h.skipTo n
  unfold Ratchet.keyFor
  rcases hl : (r.skipTo S n).skippedMessageKeys.lookup n with _ | k
  · rw [Option.getD_none, hq.chain, h.number_of_none hna hl]
    rfl
  · exact (hq.sound n k hl).2.2

end SecureComm.Ratchet
