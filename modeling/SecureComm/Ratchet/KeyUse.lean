import SecureComm.Ratchet.Delivery
import SecureComm.Ratchet.Tracking

/-!
# Use of message keys by two parties

Two parties encrypt, decrypt each other's envelopes and call `ratchet_step` with
each other's public key. A party's key is decided by its slot: the number of its
ratchet steps, and of its messages since. A party never returns to a slot, but
the two send chains are one and the same, so that both parties use the same key
when they come to the same slot.
-/

namespace SecureComm

open Function KeyPath Ratchet

/-- A party of a session: its object, the envelopes it has sent, and of each
`encrypt_envelope` the AEAD key and the slot, the last one first. -/
structure Party where
  ratchet : Ratchet
  sent : List Envelope := []
  keys : List Bytes := []
  slot : Slot := ⟨0, 0⟩
  slots : List Slot := []

abbrev Talk := Side → Party

namespace Talk

inductive Event where
  | encrypt (side : Side) (plaintext : Bytes) (draw : Draw)
  | decrypt (side : Side) (i : Nat)
  | ratchetStep (side : Side)

def step (S : Sodium) (c : Talk) : Event → Talk
  | .encrypt side plaintext draw =>
    match (c side).ratchet.encryptEnvelope S plaintext draw with
    | (ratchet, .ok env) =>
      update c side { c side with
        ratchet, sent := (c side).sent ++ [env], keys := ratchet.aead.key :: (c side).keys
        slot := ⟨(c side).slot.epoch, (c side).slot.index + 1⟩
        slots := (c side).slot :: (c side).slots }
    | (ratchet, .error _) => update c side { c side with ratchet }
  | .decrypt side i =>
    match (c side.peer).sent[i]? with
    | some env =>
      update c side { c side with ratchet := ((c side).ratchet.decryptEnvelope S env).1 }
    | none => c
  | .ratchetStep side =>
    match (c side).ratchet.ratchetStep S (c side.peer).ratchet.dhPublicKey.val with
    | .ok ratchet =>
      update c side { c side with ratchet, slot := ⟨(c side).slot.epoch + 1, 0⟩ }
    | .error _ => c

/-- The secret that the key pairs of both parties agree on, if they do. -/
def sharedSecret (S : Sodium) (priv : Side → BytesN 32) : BytesN 32 :=
  (S.scalarmult (priv .alice) (S.scalarmultBase (priv .bob))).getD ⟨zeros 32, List.length_replicate⟩

/-- The path of a party's key: every ratchet step mixes in the one shared secret. -/
def slotPath (s : BytesN 32) (p : Slot) : List Bytes :=
  keyPath .send (List.replicate p.epoch s) p

theorem slotPath_injective (s : BytesN 32) : Injective (slotPath s) := by
  intro p q h
  have hlen : ∀ p : Slot, p.epoch ≤ (List.replicate p.epoch s).length :=
    fun p => Nat.le_of_eq List.length_replicate.symm
  unfold slotPath at h
  have he : p.epoch = q.epoch := by
    rw [← countP_keyPath (d := .send) (hlen p), h, countP_keyPath (hlen q)]
  rw [he] at h
  exact keyPath_injective (he ▸ hlen q) (hlen q) h

/-! ## One party -/

structure PartyInv (S : Sodium) (root : Bytes) (s priv pub peerPub : BytesN 32) (e : Party) :
    Prop where
  dhPrivateKey : e.ratchet.dhPrivateKey = priv
  dhPublicKey : e.ratchet.dhPublicKey = pub
  remote : e.ratchet.lastRemotePub = [] ∨ e.ratchet.lastRemotePub = peerPub.val
  sent : ∀ env ∈ e.sent, ∃ n, parseHeader env.associatedData = some (n, pub.val)
  rootKey : e.ratchet.rootKey = eval (mac S) root ((List.replicate e.slot.epoch s).map Subtype.val)
  chain : e.ratchet.sendChainKey =
    eval (mac S) root (chainPath .send (List.replicate e.slot.epoch s) e.slot)
  keys : e.keys = e.slots.map fun p => eval (mac S) root (slotPath s p)
  before : ∀ p ∈ e.slots, p.Before e.slot
  nodup : e.slots.Nodup

variable {S : Sodium} {root sid : Bytes} {s priv pub peerPub : BytesN 32} {e : Party}

theorem PartyInv.start {r : Ratchet} (hroot : root.length = 32)
    (hi : (new S priv).initializeWith root sid = .ok r) :
    PartyInv S root s priv (S.scalarmultBase priv) peerPub { ratchet := r } := by
  rw [initializeWith_ok _ hroot] at hi
  cases hi
  have hchain : root = eval (mac S) root (chainPath .send [] ⟨0, 0⟩) := by rw [chainPath_zero]; rfl
  exact {
    dhPrivateKey := rfl, dhPublicKey := rfl, remote := .inl rfl, rootKey := rfl, chain := hchain
    keys := rfl, nodup := .nil
    sent := fun _ he => absurd he List.not_mem_nil
    before := fun _ hp => absurd hp List.not_mem_nil }

theorem PartyInv.encrypt (h : PartyInv S root s priv pub peerPub e) (pt : Bytes) (draw : Draw) :
    ∃ r env, e.ratchet.encryptEnvelope S pt draw = (r, .ok env) ∧
      PartyInv S root s priv pub peerPub { e with
        ratchet := r, sent := e.sent ++ [env], keys := r.aead.key :: e.keys
        slot := ⟨e.slot.epoch, e.slot.index + 1⟩, slots := e.slot :: e.slots } := by
  refine ⟨_, _, encryptEnvelope_eq _ _ _, ?_⟩
  refine { h with
    sent := fun env he => ?_, chain := ?_, keys := ?_, before := fun p hp => ?_
    nodup := List.nodup_cons.mpr ⟨fun hc => Slot.not_before_self _ (h.before _ hc), h.nodup⟩ }
  · obtain he | he := List.mem_append.mp he
    · exact h.sent env he
    · rw [List.mem_singleton.mp he]
      refine ⟨e.ratchet.sendMessageNumber, ?_⟩
      rw [← h.dhPublicKey]
      exact parseHeader_append _ e.ratchet.dhPublicKey.property
  · show advanceChainKey S e.ratchet.sendChainKey = _
    rw [h.chain]
    exact advanceChainKey_eval
  · show deriveMessageKey S e.ratchet.sendChainKey :: e.keys = _
    rw [h.chain, deriveMessageKey_eval, List.map_cons, h.keys]
    rfl
  · refine Schedule.before_next ?_
    obtain rfl | hp := List.mem_cons.mp hp
    · exact .inr rfl
    · exact .inl (h.before p hp)

/-- The envelopes of the peer carry the public key the party expects, so the
DH branch is not taken and the send chain stays. -/
theorem PartyInv.decrypt (h : PartyInv S root s priv pub peerPub e) {env : Envelope} {n : UInt32}
    (hp : parseHeader env.associatedData = some (n, peerPub.val)) :
    PartyInv S root s priv pub peerPub
      { e with ratchet := (e.ratchet.decryptEnvelope S env).1 } := by
  have hnt : ∀ r1, e.ratchet.adoptSession env = some r1 → ¬ r1.DhTaken peerPub.val := by
    intro r1 ha ht
    rw [adoptSession_cases ha] at ht
    exact h.remote.elim ht.1 fun hr => ht.2 hr.symm
  rcases e.ratchet.decryptEnvelope_cases (S := S) env with
    ⟨-, he⟩ | ⟨r1, ha, he, -⟩ | ⟨r1, n', pub', q, ha, hp', hd, he⟩
  · rw [he]; exact h
  · rw [he, adoptSession_cases ha]; exact { h with }
  · rw [hp] at hp'
    cases hp'
    rw [dhBranch_not_taken (hnt r1 ha), Except.ok.injEq] at hd
    rw [he, openMessage_frame, skipTo_frame, ← hd, adoptSession_cases ha]
    exact { h with remote := .inr rfl }

theorem PartyInv.ratchetStep (hroot : root.length = 32) {r' : Ratchet}
    (h : PartyInv S root s priv pub peerPub e)
    (hs : ∀ s', S.scalarmult priv peerPub = some s' → s' = s)
    (hr : e.ratchet.ratchetStep S peerPub.val = .ok r') :
    PartyInv S root s priv pub peerPub { e with ratchet := r', slot := ⟨e.slot.epoch + 1, 0⟩ } := by
  obtain ⟨s', hd, rfl⟩ := ratchetStep_ok_iff.mp hr
  rw [dhCompute_eq, h.dhPrivateKey] at hd
  obtain rfl := hs s' hd
  obtain ⟨hrk, hsend, -⟩ := install_eval hroot h.rootKey s' peerPub.val
  rw [← List.replicate_succ'] at hrk hsend
  rw [List.length_replicate] at hsend
  refine { h with
    remote := .inr rfl, rootKey := hrk, chain := hsend
    before := fun p hp => ?_ }
  have hb := h.before p hp
  unfold Slot.Before at *
  dsimp only at *
  omega

/-! ## Two parties -/

/-- Both parties on the slots of one secret. -/
abbrev Inv (S : Sodium) (root : Bytes) (priv : Side → BytesN 32) (c : Talk) : Prop :=
  ∀ side, PartyInv S root (sharedSecret S priv) (priv side) (S.scalarmultBase (priv side))
    (S.scalarmultBase (priv side.peer)) (c side)

variable {priv : Side → BytesN 32} {c : Talk}

theorem sharedSecret_eq (ha : S.Agrees (priv .alice) (priv .bob)) (side : Side) {s' : BytesN 32}
    (h : S.scalarmult (priv side) (S.scalarmultBase (priv side.peer)) = some s') :
    s' = sharedSecret S priv := by
  unfold sharedSecret
  cases side with
  | alice =>
    have h' : S.scalarmult (priv .alice) (S.scalarmultBase (priv .bob)) = some s' := h
    rw [h']; rfl
  | bob =>
    have h' : S.scalarmult (priv .bob) (S.scalarmultBase (priv .alice)) = some s' := h
    rw [ha, h']; rfl

theorem Inv.update (h : Inv S root priv c) {side : Side} {e : Party}
    (he : PartyInv S root (sharedSecret S priv) (priv side) (S.scalarmultBase (priv side))
      (S.scalarmultBase (priv side.peer)) e) : Inv S root priv (Function.update c side e) :=
  (forall_update_iff c fun s e => PartyInv S root (sharedSecret S priv) (priv s)
    (S.scalarmultBase (priv s)) (S.scalarmultBase (priv s.peer)) e).mpr ⟨he, fun s _ => h s⟩

theorem Inv.step (hroot : root.length = 32) (ha : S.Agrees (priv .alice) (priv .bob))
    (h : Inv S root priv c) (ev : Event) : Inv S root priv (c.step S ev) := by
  cases ev with
  | encrypt side pt draw =>
    obtain ⟨r, env, he, hp⟩ := (h side).encrypt pt draw
    simp only [Talk.step, he]
    exact h.update hp
  | decrypt side i =>
    rcases hi : (c side.peer).sent[i]? with _ | env
    · simp only [Talk.step, hi]; exact h
    · obtain ⟨n, hp⟩ := (h side.peer).sent env (List.mem_of_getElem? hi)
      simp only [Talk.step, hi]
      exact h.update ((h side).decrypt hp)
  | ratchetStep side =>
    rcases hr : (c side).ratchet.ratchetStep S (c side.peer).ratchet.dhPublicKey.val with err | r'
    · simp only [Talk.step, hr]; exact h
    · simp only [Talk.step, hr]
      rw [(h side.peer).dhPublicKey] at hr
      exact h.update ((h side).ratchetStep hroot (fun s' => sharedSecret_eq ha side) hr)

theorem Inv.run (hroot : root.length = 32) (ha : S.Agrees (priv .alice) (priv .bob))
    (h : Inv S root priv c) (es : List Event) : Inv S root priv (es.foldl (Talk.step S) c) :=
  List.foldlRecOn (motive := Inv S root priv) es (Talk.step S) h fun _ h e _ => h.step hroot ha e

/-- **Key reuse**: the keys of all encryptions are distinct exactly when the two
parties never encrypt at the same slot. -/
theorem keys_nodup_iff {r : Side → Ratchet}
    (hi : ∀ side, (new S (priv side)).initializeWith root sid = .ok (r side))
    (ha : S.Agrees (priv .alice) (priv .bob)) (es : List Event) :
    let c := es.foldl (Talk.step S) fun side => { ratchet := r side }
    CollisionFree (mac S) root
      (prefixes (((c .alice).slots ++ (c .bob).slots).map (slotPath (sharedSecret S priv)))) →
    (((c .alice).keys ++ (c .bob).keys).Nodup ↔ ∀ p ∈ (c .alice).slots, p ∉ (c .bob).slots) := by
  have hroot := initializeWith_length (hi .alice)
  have h : Inv S root priv (es.foldl (Talk.step S) fun side => { ratchet := r side }) :=
    Inv.run hroot ha (fun side => .start hroot (hi side)) es
  generalize (es.foldl (Talk.step S) fun side => { ratchet := r side }) = c at h ⊢
  intro c hfree
  rw [(h .alice).keys, (h .bob).keys, ← List.map_append]
  constructor
  · intro hn p hp hp'
    exact (List.disjoint_of_nodup_append hn.of_map) hp hp'
  · intro hd
    have hslots : ((c .alice).slots ++ (c .bob).slots).Nodup :=
      (h .alice).nodup.append (h .bob).nodup fun p hp hp' => hd p hp hp'
    refine hslots.map_on fun p hp q hq he => slotPath_injective _ (injOn_prefixes hfree ?_ ?_ he)
    · exact mem_prefixes (List.mem_map_of_mem hp)
    · exact mem_prefixes (List.mem_map_of_mem hq)

/-- Bob listens only. -/
theorem keys_nodup_iff_sample :
    let c := ([.encrypt .alice [] sampleDraw, .encrypt .alice [] sampleDraw, .decrypt .bob 1,
        .ratchetStep .alice, .encrypt .alice [] sampleDraw] : List Event).foldl
      (Talk.step Sodium.sample) fun side => { ratchet := sample 7 side.seed }
    ((c .alice).keys ++ (c .bob).keys).Nodup := by
  refine (keys_nodup_iff (fun side => sample_initialized 7 side.seed) ?_ _
    (collisionFree_of_inits ?_)).mpr ?_
  · unfold Sodium.Agrees; decide +kernel
  · decide +kernel
  · decide +kernel

/-- The first message of each party is encrypted under one key. -/
theorem first_messages_share_key :
    let c := ([.encrypt .alice [] sampleDraw, .encrypt .bob [1] sampleDraw] : List Event).foldl
      (Talk.step Sodium.sample) fun side => { ratchet := sample 7 side.seed }
    ¬ ((c .alice).keys ++ (c .bob).keys).Nodup := by
  decide +kernel

end Talk

end SecureComm
