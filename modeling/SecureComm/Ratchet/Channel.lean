import SecureComm.Ratchet.Chains

/-!
# One direction of a session

`Outbound` is the sending end of a direction with the messages it has produced,
`Inbound` the receiving end with the numbers it has accepted. Each is a
property of one object, so a session is two directions side by side: sending
keeps the inbound half of the sender and receiving keeps the outbound half of
the receiver.
-/

namespace SecureComm.Ratchet

variable {S : Sodium} {base sid pub : Bytes} {r : Ratchet}

/-- Message `n` of a send chain: the envelope that carries the plaintext. -/
structure SealedAs (S : Sodium) (base sid pub : Bytes) (n : UInt32) (pt : Bytes) (env : Envelope) :
    Prop where
  session : env.sessionId = sid
  header : env.associatedData = pushU32Be [] n ++ pub
  ciphertext : ∃ nonce : BytesN 12, env.ciphertext = nonce.val ++
    S.aeadEncrypt (deriveMessageKey S (chainKey S base n.toNat)) nonce.val env.associatedData pt

/-- The sending end, which has produced the listed messages. -/
structure Outbound (S : Sodium) (base sid : Bytes) (r : Ratchet) (sent : List (Bytes × Envelope)) :
    Prop where
  session : r.sessionId = sid
  chain : r.sendChainKey = chainKey S base sent.length
  number : r.sendMessageNumber.toNat = sent.length
  sealed : ∀ i pt env, sent[i]? = some (pt, env) →
    SealedAs S base sid r.dhPublicKey.val (UInt32.ofNat i) pt env

/-- The receiving end, which has accepted the listed numbers. -/
structure Inbound (S : Sodium) (base sid pub : Bytes) (r : Ratchet) (taken : List UInt32) :
    Prop where
  session : r.sessionId = sid
  remote : r.lastRemotePub = [] ∨ r.lastRemotePub = pub
  skipped : SkippedInv S { sendBase := base, recvBase := base, accepted := taken } r

theorem Outbound.encrypt {sent : List (Bytes × Envelope)} (h : Outbound S base sid r sent)
    (hsid : sid ≠ []) (hn : sent.length + 1 < 2 ^ 32) (pt : Bytes) (draw : Draw) :
    ∃ env, (r.encryptEnvelope S pt draw).2 = .ok env ∧
      Outbound S base sid (r.encryptEnvelope S pt draw).1 (sent ++ [(pt, env)]) := by
  have hs : r.sendSession draw = sid := by
    rw [sendSession, h.session, if_neg hsid]
  have hnum := h.number
  rw [encryptEnvelope_eq]
  refine ⟨_, rfl, hs, ?_, ?_, fun i pt' env' hi => ?_⟩
  · rw [List.length_append, List.length_singleton, chainKey_succ, ← h.chain]
  · rw [List.length_append, List.length_singleton, ← hnum]
    exact toNat_add_one (by omega)
  · rcases Nat.lt_or_ge i sent.length with hlt | hge
    · rw [List.getElem?_append_left hlt] at hi
      exact h.sealed i pt' env' hi
    · rw [List.getElem?_append_right hge] at hi
      have hi0 : i = sent.length := by
        by_contra hne
        rw [List.getElem?_eq_none (by rw [List.length_singleton]; omega)] at hi
        cases hi
      subst hi0
      rw [Nat.sub_self] at hi
      cases hi
      have hof : UInt32.ofNat sent.length = r.sendMessageNumber := by
        rw [← hnum]; exact UInt32.ofNat_toNat
      refine ⟨hs, ?_, draw.nonce, ?_⟩
      · rw [hof]; rfl
      · rw [hof, hnum, ← h.chain]

theorem Inbound.encrypt {taken : List UInt32} (h : Inbound S base sid pub r taken) (hsid : sid ≠ [])
    (pt : Bytes) (draw : Draw) :
    Inbound S base sid pub (r.encryptEnvelope S pt draw).1 taken := by
  rw [encryptEnvelope_eq]
  refine ⟨?_, h.remote, h.skipped⟩
  show r.sendSession draw = sid
  rw [sendSession, h.session, if_neg hsid]

/-- **A genuine message**, accepted for the first time, opens to its plaintext;
the receiving end goes on with one number more, and its sending side is as it was. -/
theorem Inbound.decrypt {taken : List UInt32} (hS : S.AeadOpens)
    (h : Inbound S base sid pub r taken) (hpub : pub.length = 32) {n : UInt32} {pt : Bytes}
    {env : Envelope} (henv : SealedAs S base sid pub n pt env) (hna : n ∉ taken)
    (hn : n.toNat + 1 < 2 ^ 32) :
    ∃ r', r.decryptEnvelope S env = (r', some pt) ∧ Inbound S base sid pub r' (n :: taken) ∧
      r' = { r with
        aead := r'.aead, skippedMessageKeys := r'.skippedMessageKeys
        recvChainKey := r'.recvChainKey, recvMessageNumber := r'.recvMessageNumber
        lastRemotePub := pub } := by
  have hp : parseHeader env.associatedData = some (n, pub) := by
    rw [henv.header]; exact parseHeader_append n hpub
  have ht : ¬ r.DhTaken pub := fun ht => h.remote.elim ht.1 fun hr => ht.2 hr.symm
  have he := decryptEnvelope_own (S := S) (henv.session.trans h.session.symm) hp ht
  have hq : SkippedInv S { sendBase := base, recvBase := base, accepted := taken }
      ({ r with lastRemotePub := pub } : Ratchet) := h.skipped
  have hopen : Opens S ((({ r with lastRemotePub := pub } : Ratchet).skipTo S n).keyFor S n) env pt := by
    rw [hq.keyFor hna]
    obtain ⟨nonce, hc⟩ := henv.ciphertext
    refine ⟨deriveMessageKey_length _ _, ?_⟩
    rw [hc]
    exact AEAD.decrypt_sealed hS (deriveMessageKey_length _ _) nonce _ pt
  have hpt := openMessage_opens hopen
  have horder : (({ r with lastRemotePub := pub } : Ratchet).skipTo S n).OpensInOrder S n env :=
    fun hl _ => ⟨hq.number_of_none hna hl, hn⟩
  have hinv := (hq.skipTo n).openMessage horder
  rw [hpt, if_neg (Option.some_ne_none pt)] at hinv
  have hf := openMessage_frame (S := S) n env (({ r with lastRemotePub := pub } : Ratchet).skipTo S n)
  rcases hx : (({ r with lastRemotePub := pub } : Ratchet).skipTo S n).openMessage S n env with ⟨r', o⟩
  rw [hx] at he hpt hinv hf
  rw [skipTo_frame] at hf
  refine ⟨r', by rw [he, ← hpt], ⟨?_, ?_, hinv⟩, hf⟩
  · exact (congrArg sessionId hf).trans h.session
  · exact .inr (congrArg lastRemotePub hf)

theorem Outbound.decrypt {sent : List (Bytes × Envelope)} {r' : Ratchet}
    (h : Outbound S base sid r sent)
    (hf : r' = { r with
        aead := r'.aead, skippedMessageKeys := r'.skippedMessageKeys
        recvChainKey := r'.recvChainKey, recvMessageNumber := r'.recvMessageNumber
        lastRemotePub := pub }) : Outbound S base sid r' sent := by
  rw [hf]; exact ⟨h.session, h.chain, h.number, h.sealed⟩

/-! ## The first message of a session -/

/-- **First message**: an object that has just been initialised opens the first
message of a chain only if the session is its own and so is the message key. -/
theorem first_message_own (hS : S.AeadIdeal) {base sid root ownSid pub pt pt' : Bytes}
    {priv : BytesN 32} {r : Ratchet} {env : Envelope} (hroot : root.length = 32)
    (hsid : ownSid ≠ []) (hinit : (new S priv).initializeWith root ownSid = .ok r)
    (hpub : pub.length = 32) (henv : SealedAs S base sid pub 0 pt env)
    (hd : (r.decryptEnvelope S env).2 = some pt') :
    sid = ownSid ∧ deriveMessageKey S base = deriveMessageKey S root := by
  rw [initializeWith_ok _ hroot] at hinit
  cases hinit
  have hown : env.sessionId = ownSid := by
    by_contra hne
    rw [decryptEnvelope, adoptSession, if_pos ⟨hsid, hne⟩] at hd
    cases hd
  refine ⟨henv.session.symm.trans hown, ?_⟩
  have hp : parseHeader env.associatedData = some (0, pub) := by
    rw [henv.header]; exact parseHeader_append 0 hpub
  rw [decryptEnvelope_own hown hp fun ht => ht.1 rfl, skipTo_done UInt32.not_lt_zero] at hd
  obtain ⟨a, he, -⟩ | ⟨key, _, hl, -, -⟩ | ⟨q, -, ho, -⟩ := openMessage_cases (S := S) 0 env _
  · rw [he] at hd
    cases hd
  · cases hl
  · obtain ⟨nonce, hc⟩ := henv.ciphertext
    have hopen : AEAD.decrypt S ⟨deriveMessageKey S root⟩ env.ciphertext env.associatedData =
        some q := ho.2
    have hsealed : AEAD.decrypt S ⟨deriveMessageKey S base⟩ env.ciphertext env.associatedData =
        some pt := by
      rw [hc]
      exact AEAD.decrypt_sealed hS.opens (deriveMessageKey_length _ _) nonce _ pt
    exact AEAD.decrypt_key_unique hS hsealed hopen

end SecureComm.Ratchet
