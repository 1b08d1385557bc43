import SecureComm.Ratchet.Basic

/-!
# What the methods of a ratchet do

One lemma for each method, which later modules cite in place of the method's
body. `decryptEnvelope_cases` and `openMessage_cases` say everything one
delivery can do to the object: adopt a session id, adopt or ratchet on a
remote key, move the receive chain, consume one key.
-/

namespace SecureComm.Ratchet

variable {S : Sodium}

/-! ## Chain installation -/

/-- A ratchet with the chains of a new root installed, as the DH branch leaves it. -/
def install (S : Sodium) (r : Ratchet) (dhSharedSecret remotePub : Bytes) : Ratchet :=
  let prk := hkdfExtract S r.rootKey dhSharedSecret
  { r with
    rootKey := prk, sendChainKey := hkdfExpand S 32 prk sendInfo
    recvChainKey := hkdfExpand S 32 prk recvInfo, aead := ⟨hkdfExpand S 32 prk recvInfo⟩
    recvMessageNumber := 0, lastRemotePub := remotePub }

theorem hkdfRootChain_eq (r : Ratchet) (s : Bytes) :
    r.hkdfRootChain S s = .ok { r with
      rootKey := hkdfExtract S r.rootKey s
      sendChainKey := hkdfExpand S 32 (hkdfExtract S r.rootKey s) sendInfo
      recvChainKey := hkdfExpand S 32 (hkdfExtract S r.rootKey s) recvInfo
      aead := ⟨hkdfExpand S 32 (hkdfExtract S r.rootKey s) sendInfo⟩ } := by
  simp [hkdfRootChain, bind, Except.bind, pure, Except.pure]

theorem initializeWith_ok (r : Ratchet) {root : Bytes} (h : root.length = 32) (sid : Bytes) :
    r.initializeWith root sid = .ok { r with
      rootKey := root, sendChainKey := root, recvChainKey := root, sendMessageNumber := 0
      recvMessageNumber := 0, aead := ⟨root⟩, sessionId := sid, lastRemotePub := [] } := by
  simp [initializeWith, h, bind, Except.bind, pure, Except.pure]

theorem initializeWith_error (r : Ratchet) {root : Bytes} (h : root.length ≠ 32) (sid : Bytes) :
    r.initializeWith root sid = .error "Root key must be 32 bytes" := by
  simp [initializeWith, h, bind, Except.bind, throw, throwThe, MonadExceptOf.throw]

theorem initializeWith_length {r r' : Ratchet} {root sid : Bytes}
    (h : r.initializeWith root sid = .ok r') : root.length = 32 := by
  by_contra hl
  rw [initializeWith_error _ hl] at h
  cases h

theorem dhCompute_ok {r : Ratchet} {pub : Bytes} {s : BytesN 32} (h : r.dhCompute S pub = .ok s) :
    pub.length = 32 := by
  unfold dhCompute at h
  split at h
  · assumption
  · cases h

theorem dhCompute_eq {r : Ratchet} {pub s : BytesN 32} :
    r.dhCompute S pub.val = .ok s ↔ S.scalarmult r.dhPrivateKey pub = some s := by
  rw [dhCompute, dif_pos pub.property]
  rcases S.scalarmult r.dhPrivateKey ⟨pub.val, pub.property⟩ with _ | s' <;> simp

/-- **`ratchet_step`** computes a shared secret, installs its chains and resets
both counters, or leaves the object as it is. -/
theorem ratchetStep_ok_iff {r r' : Ratchet} {pub : Bytes} :
    r.ratchetStep S pub = .ok r' ↔
      ∃ s, r.dhCompute S pub = .ok s ∧ r' = { r.install S s.val pub with sendMessageNumber := 0 } := by
  by_cases hl : pub.length = 32
  · rcases hd : r.dhCompute S pub with e | s
    · simp [ratchetStep, hl, hd, bind, Except.bind]
    · simp [ratchetStep, hl, hd, hkdfRootChain_eq, install, bind, Except.bind, pure, Except.pure,
        eq_comm]
  · have hd : ∀ s, r.dhCompute S pub ≠ .ok s := fun s h => hl (dhCompute_ok h)
    simp [ratchetStep, hl, hd, bind, Except.bind, throw, throwThe, MonadExceptOf.throw]

/-- The DH branch is taken: a remote key is known and the header's is another. -/
def DhTaken (r : Ratchet) (remotePub : Bytes) : Prop :=
  r.lastRemotePub ≠ [] ∧ remotePub ≠ r.lastRemotePub

instance (r : Ratchet) (remotePub : Bytes) : Decidable (r.DhTaken remotePub) :=
  inferInstanceAs (Decidable (_ ∧ _))

theorem dhBranch_taken {r : Ratchet} {pub : Bytes} (h : r.DhTaken pub) :
    r.dhBranch S pub = (r.dhCompute S pub).map fun s => r.install S s.val pub := by
  unfold DhTaken at h
  rw [dhBranch, if_pos h]
  rcases hd : r.dhCompute S pub with e | s
  · simp [bind, Except.bind, Except.map]
  · simp [hkdfRootChain_eq, install, bind, Except.bind, pure, Except.pure, Except.map]

theorem dhBranch_not_taken {r : Ratchet} {pub : Bytes} (h : ¬ r.DhTaken pub) :
    r.dhBranch S pub = .ok { r with lastRemotePub := pub } := by
  unfold DhTaken at h
  rw [dhBranch, if_neg h]
  split
  · rfl
  · rename_i hne
    have hpub : pub = r.lastRemotePub := by by_contra hc; exact h ⟨hne, hc⟩
    rw [hpub]

/-- **The DH branch**: installs chains, or only remembers the remote key. -/
theorem dhBranch_cases {r r' : Ratchet} {pub : Bytes} (h : r.dhBranch S pub = .ok r') :
    (∃ s, r.DhTaken pub ∧ r.dhCompute S pub = .ok s ∧ r' = r.install S s.val pub) ∨
      (¬ r.DhTaken pub ∧ r' = { r with lastRemotePub := pub }) := by
  by_cases ht : r.DhTaken pub
  · rw [dhBranch_taken ht] at h
    rcases hd : r.dhCompute S pub with e | s
    · rw [hd] at h; cases h
    · rw [hd] at h; cases h; exact .inl ⟨s, ht, rfl, rfl⟩
  · rw [dhBranch_not_taken ht] at h
    cases h
    exact .inr ⟨ht, rfl⟩

/-! ## Sending -/

/-- The session id an object sends under: its own, or the one it draws. -/
def sendSession (r : Ratchet) (draw : Draw) : Bytes :=
  if r.sessionId = [] then draw.sessionId.val else r.sessionId

/-- **`encrypt_envelope`** never throws: it seals under the next message key of
the send chain and advances that chain. -/
theorem encryptEnvelope_eq (r : Ratchet) (plaintext : Bytes) (draw : Draw) :
    r.encryptEnvelope S plaintext draw =
      ({ r with
          sessionId := r.sendSession draw, aead := ⟨deriveMessageKey S r.sendChainKey⟩
          sendChainKey := advanceChainKey S r.sendChainKey
          sendMessageNumber := r.sendMessageNumber + 1 },
        .ok {
          sessionId := r.sendSession draw, messageIndex := r.sendMessageNumber
          previousCounter := r.recvMessageNumber, timestamp := draw.now
          associatedData := r.header
          ciphertext := draw.nonce.val ++
            S.aeadEncrypt (deriveMessageKey S r.sendChainKey) draw.nonce.val r.header plaintext }) := by
  by_cases h : r.sessionId = []
  · simp [encryptEnvelope, sendSession, h, AEAD.encrypt_ok, header]
  · simp [encryptEnvelope, sendSession, h, AEAD.encrypt_ok]

theorem encryptEnvelope_dhPublicKey (r : Ratchet) (plaintext : Bytes) (draw : Draw) :
    (r.encryptEnvelope S plaintext draw).1.dhPublicKey = r.dhPublicKey := by
  rw [encryptEnvelope_eq]

/-! ## The skip loop -/

/-- The condition of the `while` holds: one more round. -/
theorem skipTo_step {n : UInt32} {r : Ratchet} (h : r.recvMessageNumber < n) :
    r.skipTo S n = (r.skipOne S).skipTo S n := by
  have hlt := UInt32.lt_iff_toNat_lt.mp h
  have hn : (r.skipOne S).recvMessageNumber.toNat = r.recvMessageNumber.toNat + 1 :=
    toNat_add_one_of_lt h
  unfold skipTo
  rw [hn, show n.toNat - r.recvMessageNumber.toNat =
    (n.toNat - (r.recvMessageNumber.toNat + 1)) + 1 by omega, Function.iterate_succ_apply]

/-- The condition of the `while` fails: the loop is over. -/
theorem skipTo_done {n : UInt32} {r : Ratchet} (h : ¬ r.recvMessageNumber < n) :
    r.skipTo S n = r := by
  have hle : ¬ r.recvMessageNumber.toNat < n.toNat := fun hc => h (UInt32.lt_iff_toNat_lt.mpr hc)
  unfold skipTo
  rw [show n.toNat - r.recvMessageNumber.toNat = 0 by omega, Function.iterate_zero_apply]

/-- **Loop rule**: what each round preserves, the loop preserves, and it stops
where its condition fails. -/
theorem skipTo_while {n : UInt32} {I : Ratchet → Prop}
    (hstep : ∀ r, r.recvMessageNumber < n → I r → I (r.skipOne S)) {r : Ratchet} (h : I r) :
    I (r.skipTo S n) ∧ ¬ (r.skipTo S n).recvMessageNumber < n := by
  suffices ∀ (k : Nat) (r : Ratchet), n.toNat - r.recvMessageNumber.toNat = k → I r →
      I (r.skipTo S n) ∧ ¬ (r.skipTo S n).recvMessageNumber < n from this _ r rfl h
  intro k
  induction k with
  | zero =>
    intro r hk hr
    have hdone : ¬ r.recvMessageNumber < n := fun hc => by
      have := UInt32.lt_iff_toNat_lt.mp hc; omega
    rw [skipTo_done hdone]
    exact ⟨hr, hdone⟩
  | succ k ih =>
    intro r hk hr
    have hlt : r.recvMessageNumber < n := UInt32.lt_iff_toNat_lt.mpr (by omega)
    have hn : (r.skipOne S).recvMessageNumber.toNat = r.recvMessageNumber.toNat + 1 :=
      toNat_add_one_of_lt hlt
    rw [skipTo_step hlt]
    exact ih _ (by rw [hn]; omega) (hstep r hlt hr)

theorem skipTo_induct {n : UInt32} {I : Ratchet → Prop}
    (hstep : ∀ r, r.recvMessageNumber < n → I r → I (r.skipOne S)) {r : Ratchet} (h : I r) :
    I (r.skipTo S n) := (skipTo_while hstep h).1

/-- The loop touches the receive chain, its counter and the skipped keys only. -/
theorem skipTo_frame (n : UInt32) (r : Ratchet) :
    r.skipTo S n = { r with
      skippedMessageKeys := (r.skipTo S n).skippedMessageKeys
      recvChainKey := (r.skipTo S n).recvChainKey
      recvMessageNumber := (r.skipTo S n).recvMessageNumber } :=
  skipTo_induct (I := fun q => q = { r with
      skippedMessageKeys := q.skippedMessageKeys, recvChainKey := q.recvChainKey
      recvMessageNumber := q.recvMessageNumber })
    (fun q _ hq => by unfold skipOne; rw [hq]) rfl

theorem skipTo_recvMessageNumber (n : UInt32) (r : Ratchet) :
    (r.skipTo S n).recvMessageNumber =
      if r.recvMessageNumber < n then n else r.recvMessageNumber := by
  by_cases h : r.recvMessageNumber < n
  · obtain ⟨hle, hge⟩ := skipTo_while (S := S) (n := n)
      (I := fun q => q.recvMessageNumber.toNat ≤ n.toNat)
      (fun q hq _ => by
        have := UInt32.lt_iff_toNat_lt.mp hq
        show (q.recvMessageNumber + 1).toNat ≤ _
        rw [toNat_add_one_of_lt hq]; omega)
      (r := r) (by have := UInt32.lt_iff_toNat_lt.mp h; omega)
    rw [if_pos h]
    rw [UInt32.lt_iff_toNat_lt] at hge
    exact UInt32.toNat_inj.mp (by omega)
  · rw [if_neg h, skipTo_done h]

/-! ## Opening -/

/-- The key a message number is tried with: the skipped one, or the next of the chain. -/
def keyFor (S : Sodium) (r : Ratchet) (n : UInt32) : Bytes :=
  (r.skippedMessageKeys.lookup n).getD (deriveMessageKey S r.recvChainKey)

def Opens (S : Sodium) (key : Bytes) (env : Envelope) (pt : Bytes) : Prop :=
  key.length = 32 ∧ AEAD.decrypt S ⟨key⟩ env.ciphertext env.associatedData = some pt

theorem tryKey_cases (r : Ratchet) (key : Bytes) (env : Envelope) :
    (∃ a, r.tryKey S key env = ({ r with aead := a }, none) ∧ ∀ pt, ¬ Opens S key env pt) ∨
      ∃ pt, r.tryKey S key env = ({ r with aead := ⟨key⟩ }, some pt) ∧ Opens S key env pt := by
  by_cases hl : key.length = 32
  · rcases hd : AEAD.decrypt S ⟨key⟩ env.ciphertext env.associatedData with _ | pt
    · exact .inl ⟨⟨key⟩, by simp [tryKey, hl, hd], fun pt h => by have := h.2; rw [hd] at this; cases this⟩
    · exact .inr ⟨pt, by simp [tryKey, hl, hd], hl, hd⟩
  · exact .inl ⟨r.aead, by simp [tryKey, AEAD.setKey, hl], fun pt h => hl h.1⟩

/-- **What opening does**: nothing but the scratch key changes, or a skipped key
is consumed, or the receive chain moves past the message. -/
theorem openMessage_cases (n : UInt32) (env : Envelope) (r : Ratchet) :
    (∃ a, r.openMessage S n env = ({ r with aead := a }, none) ∧
      ∀ pt, ¬ Opens S (r.keyFor S n) env pt) ∨
    (∃ key pt, r.skippedMessageKeys.lookup n = some key ∧ Opens S key env pt ∧
      r.openMessage S n env = ({ r with
        aead := ⟨key⟩, skippedMessageKeys := r.skippedMessageKeys.erase n }, some pt)) ∨
    (∃ pt, r.skippedMessageKeys.lookup n = none ∧
      Opens S (deriveMessageKey S r.recvChainKey) env pt ∧
      r.openMessage S n env = ({ r with
        aead := ⟨deriveMessageKey S r.recvChainKey⟩
        recvChainKey := advanceChainKey S r.recvChainKey, recvMessageNumber := n + 1 },
        some pt)) := by
  unfold keyFor
  rcases hl : r.skippedMessageKeys.lookup n with _ | key
  · rcases r.tryKey_cases (deriveMessageKey S r.recvChainKey) env with ⟨a, ht, hn⟩ | ⟨pt, ht, ho⟩
    · exact .inl ⟨a, by simp [openMessage, hl, ht], hn⟩
    · exact .inr (.inr ⟨pt, rfl, ho, by simp [openMessage, hl, ht]⟩)
  · rcases r.tryKey_cases key env with ⟨a, ht, hn⟩ | ⟨pt, ht, ho⟩
    · exact .inl ⟨a, by simp [openMessage, hl, ht], hn⟩
    · exact .inr (.inl ⟨key, pt, rfl, ho, by simp [openMessage, hl, ht]⟩)

theorem openMessage_frame (n : UInt32) (env : Envelope) (r : Ratchet) :
    (r.openMessage S n env).1 = { r with
      aead := (r.openMessage S n env).1.aead
      skippedMessageKeys := (r.openMessage S n env).1.skippedMessageKeys
      recvChainKey := (r.openMessage S n env).1.recvChainKey
      recvMessageNumber := (r.openMessage S n env).1.recvMessageNumber } := by
  obtain ⟨a, he, -⟩ | ⟨key, pt, -, -, he⟩ | ⟨pt, -, -, he⟩ := r.openMessage_cases (S := S) n env <;>
    rw [he]

theorem openMessage_opens {n : UInt32} {env : Envelope} {r : Ratchet} {pt : Bytes}
    (h : Opens S (r.keyFor S n) env pt) : (r.openMessage S n env).2 = some pt := by
  obtain ⟨a, -, hn⟩ | ⟨key, pt', hl, ho, he⟩ | ⟨pt', hl, ho, he⟩ :=
    r.openMessage_cases (S := S) n env
  · exact absurd h (hn pt)
  · rw [keyFor, hl] at h
    rw [he, ← h.2]
    exact ho.2.symm
  · rw [keyFor, hl] at h
    rw [he, ← h.2]
    exact ho.2.symm

/-! ## Receiving -/

theorem parseHeader_append (n : UInt32) {pub : Bytes} (h : pub.length = 32) :
    parseHeader (pushU32Be [] n ++ pub) = some (n, pub) := by
  have hr : readU32Be (pushU32Be [] n ++ pub) 0 = .ok (n, 0 + 4) :=
    At.readU32Be (At.start _)
  have hd : (pushU32Be [] n ++ pub).drop 4 = pub := rfl
  rw [parseHeader, hr]
  dsimp only
  rw [hd, if_neg (by simp [pushU32Be, h]), List.take_of_length_le (Nat.le_of_eq h)]

theorem adoptSession_cases {r r' : Ratchet} {env : Envelope} (h : r.adoptSession env = some r') :
    r' = { r with sessionId := if r.sessionId = [] then env.sessionId else r.sessionId } := by
  unfold adoptSession at h
  split at h
  · cases h
  · by_cases hs : r.sessionId = []
    · rw [if_pos hs] at h ⊢; cases h; rfl
    · rw [if_neg hs] at h ⊢; cases h; rfl

theorem adoptSession_own {r : Ratchet} {env : Envelope} (h : env.sessionId = r.sessionId) :
    r.adoptSession env = some r := by
  unfold adoptSession
  rw [if_neg fun hc => hc.2 h, h]
  split <;> rfl

/-- A message of the session that does not take the DH branch. -/
theorem decryptEnvelope_own {r : Ratchet} {env : Envelope} {n : UInt32} {pub : Bytes}
    (h : env.sessionId = r.sessionId) (hp : parseHeader env.associatedData = some (n, pub))
    (ht : ¬ r.DhTaken pub) :
    r.decryptEnvelope S env =
      (({ r with lastRemotePub := pub } : Ratchet).skipTo S n).openMessage S n env := by
  simp only [decryptEnvelope, adoptSession_own h, hp, dhBranch_not_taken ht]

/-- **What a delivery does**: it exits early, before anything but the session id
is written, or goes on to open the message. -/
theorem decryptEnvelope_cases (r : Ratchet) (env : Envelope) :
    (r.adoptSession env = none ∧ r.decryptEnvelope S env = (r, none)) ∨
    (∃ r1, r.adoptSession env = some r1 ∧ r.decryptEnvelope S env = (r1, none) ∧
      (parseHeader env.associatedData = none ∨ ∃ n pub e,
        parseHeader env.associatedData = some (n, pub) ∧ r1.dhBranch S pub = .error e)) ∨
    (∃ r1 n pub r2, r.adoptSession env = some r1 ∧
      parseHeader env.associatedData = some (n, pub) ∧ r1.dhBranch S pub = .ok r2 ∧
      r.decryptEnvelope S env = (r2.skipTo S n).openMessage S n env) := by
  rcases ha : r.adoptSession env with _ | r1
  · exact .inl ⟨rfl, by simp [decryptEnvelope, ha]⟩
  rcases hp : parseHeader env.associatedData with _ | ⟨n, pub⟩
  · exact .inr (.inl ⟨r1, rfl, by simp [decryptEnvelope, ha, hp], .inl rfl⟩)
  rcases hd : r1.dhBranch S pub with e | r2
  · exact .inr (.inl ⟨r1, rfl, by simp [decryptEnvelope, ha, hp, hd], .inr ⟨n, pub, e, rfl, hd⟩⟩)
  · exact .inr (.inr ⟨r1, n, pub, r2, rfl, rfl, hd, by simp [decryptEnvelope, ha, hp, hd]⟩)

/-- **Delivery rule**: an invariant of the five things a delivery can do holds
after every delivery. -/
theorem decryptEnvelope_induct {I : Ratchet → Prop}
    (hsession : ∀ r sid, r.sessionId = [] → I r → I { r with sessionId := sid })
    (hdh : ∀ r r' pub, r.dhBranch S pub = .ok r' → I r → I r')
    (hskip : ∀ r, r.recvMessageNumber.toNat + 1 < 2 ^ 32 → I r → I (r.skipOne S))
    (hopen : ∀ r n env, I r → I (r.openMessage S n env).1)
    {r : Ratchet} (env : Envelope) (h : I r) : I (r.decryptEnvelope S env).1 := by
  have hadopt : ∀ {r1}, r.adoptSession env = some r1 → I r1 := fun {r1} ha => by
    rw [adoptSession_cases ha]
    by_cases hs : r.sessionId = []
    · exact hsession r _ hs h
    · rw [if_neg hs]; exact h
  rcases r.decryptEnvelope_cases (S := S) env with
    ⟨-, he⟩ | ⟨r1, ha, he, -⟩ | ⟨r1, n, pub, r2, ha, -, hd, he⟩
  · rw [he]; exact h
  · rw [he]; exact hadopt ha
  · rw [he]
    refine hopen _ n env (skipTo_induct (fun q hq hi => hskip q ?_ hi) (hdh r1 r2 pub hd (hadopt ha)))
    have := UInt32.lt_iff_toNat_lt.mp hq
    have := n.toNat_lt
    omega

theorem decryptEnvelope_dhPublicKey (r : Ratchet) (env : Envelope) :
    (r.decryptEnvelope S env).1.dhPublicKey = r.dhPublicKey := by
  refine decryptEnvelope_induct (I := fun q => q.dhPublicKey = r.dhPublicKey)
    (fun _ _ _ h => h) (fun q q' pub hd h => ?_) (fun _ _ h => h) (fun q n env h => ?_) env rfl
  · obtain ⟨s, -, -, rfl⟩ | ⟨-, rfl⟩ := dhBranch_cases hd
    · exact h
    · exact h
  · rw [openMessage_frame]
    exact h

/-! ## Import -/

/-- **`import_state`** reads its fields from fixed offsets, or the state is too
short and it throws. -/
theorem importState_cases (r : Ratchet) (state : Bytes) :
    (state.length < 168 ∧ r.importState state = .error "import_state: too small") ∨
    ∃ (h : ¬ state.length < 168) (sn rn : UInt32), readU32Be state 96 = .ok (sn, 100) ∧
      readU32Be state 100 = .ok (rn, 104) ∧ r.importState state = .ok { r with
        rootKey := (stateField state 0 h (by decide)).val
        sendChainKey := (stateField state 32 h (by decide)).val
        recvChainKey := (stateField state 64 h (by decide)).val
        sendMessageNumber := sn, recvMessageNumber := rn
        dhPrivateKey := stateField state 104 h (by decide)
        dhPublicKey := stateField state 136 h (by decide)
        aead := ⟨(stateField state 32 h (by decide)).val⟩, lastRemotePub := [] } := by
  by_cases h : state.length < 168
  · exact .inl ⟨h, by rw [importState, dif_pos h]⟩
  · obtain ⟨sn, hsn⟩ : ∃ v, readU32Be state 96 = .ok (v, 100) := readU32Be_ok (by omega)
    obtain ⟨rn, hrn⟩ : ∃ v, readU32Be state 100 = .ok (v, 104) := readU32Be_ok (by omega)
    refine .inr ⟨h, sn, rn, hsn, hrn, ?_⟩
    have hk : AEAD.setKey (stateField state 32 h (by decide)).val =
        .ok ⟨(stateField state 32 h (by decide)).val⟩ :=
      AEAD.setKey_ok (stateField state 32 h (by decide)).property
    rw [importState, dif_neg h, hsn]
    simp only [bind, Except.bind, hrn, hk, pure, Except.pure]

/-! ## A concrete session -/

/-- A session on the concrete primitives: the root key and the key pair of two
seeds, and an all-zero session id. -/
def sample (root seed : Nat) : Ratchet :=
  let root := (Sodium.Sample.block root).val
  { new Sodium.sample (Sodium.Sample.block seed) with
    rootKey := root, sendChainKey := root, recvChainKey := root, aead := ⟨root⟩
    sessionId := zeros 16 }

theorem sample_initialized (root seed : Nat) :
    (new Sodium.sample (Sodium.Sample.block seed)).initializeWith (Sodium.Sample.block root).val
      (zeros 16) = .ok (sample root seed) :=
  initializeWith_ok _ (Sodium.Sample.block root).property _

def sampleDraw : Draw := ⟨⟨zeros 16, rfl⟩, ⟨zeros 12, rfl⟩, 0⟩

/-- Message `n` of a concrete session. -/
def sampleMessage (root seed n : Nat) : Envelope :=
  let r := (fun r => (r.encryptEnvelope Sodium.sample [] sampleDraw).1)^[n] (sample root seed)
  match (r.encryptEnvelope Sodium.sample [UInt8.ofNat n] sampleDraw).2 with
  | .ok env => env
  | .error _ => {}

/-- An envelope anyone can build who knows the session id: number `n`, a public
key of his own, no ciphertext. -/
def forged (n : UInt32) (pub : Bytes) : Envelope :=
  { sessionId := zeros 16, associatedData := pushU32Be [] n ++ pub }

end SecureComm.Ratchet
