import SecureComm.Ratchet.Tracking

/-!
# Replay protection

The envelopes an object accepts correspond one to one to the slots its schedule
consumes, each opened by the key of its slot. Slots are consumed once, distinct
slots have distinct keys, and a ciphertext opens under one key only.
-/

namespace SecureComm.Ratchet

open KeyPath Schedule

variable {S : Sodium} {root : Bytes} {r : Ratchet} {σ : Schedule}

/-- An object and the envelopes it has accepted, the last one first. -/
def receive (S : Sodium) (x : Ratchet × List Envelope) (op : Op) : Ratchet × List Envelope :=
  (x.1.apply S op,
    match op with
    | .decrypt env => if (x.1.decryptEnvelope S env).2 = none then x.2 else env :: x.2
    | _ => x.2)

def OpensAt (S : Sodium) (root : Bytes) (secrets : List (BytesN 32)) (env : Envelope) (p : Slot) :
    Prop :=
  p.epoch ≤ secrets.length ∧ ∃ pt, Opens S (eval (mac S) root (keyPath .recv secrets p)) env pt

theorem OpensAt.mono {secrets secrets' : List (BytesN 32)} (hs : secrets <+: secrets')
    {env : Envelope} {p : Slot} (h : OpensAt S root secrets env p) :
    OpensAt S root secrets' env p := by
  obtain ⟨more, rfl⟩ := hs
  refine ⟨?_, ?_⟩
  · rw [List.length_append]; exact Nat.le_add_right_of_le h.1
  · rw [keyPath_append more h.1]; exact h.2

/-- The accepted envelopes, and the slots whose keys opened them. -/
abbrev Explains (S : Sodium) (root : Bytes) (σ : Schedule) (accepted : List Envelope) : Prop :=
  List.Forall₂ (OpensAt S root σ.secrets) accepted σ.received

theorem Explains.of_prefix {σ' : Schedule} {accepted : List Envelope}
    (h : Explains S root σ accepted) (hr : σ'.received = σ.received)
    (hs : σ.secrets <+: σ'.secrets) : Explains S root σ' accepted := by
  unfold Explains
  rw [hr]
  exact h.imp fun _ _ => OpensAt.mono hs

theorem Explains.skips {accepted : List Envelope} (h : Explains S root σ accepted) (k : Nat) :
    Explains S root ((List.replicate k Act.skip).foldl act σ) accepted := by
  induction k generalizing σ with
  | zero => exact h
  | succ k ih =>
    rw [List.replicate_succ, List.foldl_cons]
    exact ih (h.of_prefix rfl (List.prefix_refl _))

theorem Explains.installs {accepted : List Envelope} (h : Explains S root σ accepted)
    {pre : List Act} (hp : pre = [] ∨ ∃ s, pre = [.install s]) :
    Explains S root (pre.foldl act σ) accepted := by
  obtain rfl | ⟨s, rfl⟩ := hp
  · exact h
  · exact h.of_prefix rfl (List.prefix_append σ.secrets [s])

/-- **Opening**: the slot that is consumed is the one whose key opened the envelope. -/
theorem Explains.openMessage {accepted : List Envelope} (h : Explains S root σ accepted)
    (ht : Tracks S root r σ) (n : UInt32) (env : Envelope) :
    Explains S root ((openActs S r n env).foldl act σ)
      (if (r.openMessage S n env).2 = none then accepted else env :: accepted) := by
  unfold openActs
  obtain ⟨a, he, -⟩ | ⟨key, pt, hl, ho, he⟩ | ⟨pt, hl, ho, he⟩ := r.openMessage_cases (S := S) n env
  · rw [he, if_pos rfl, if_pos rfl]
    exact h
  · rw [he, if_neg (Option.some_ne_none pt), if_neg (Option.some_ne_none pt),
      if_neg (by rw [hl]; exact Option.some_ne_none key)]
    rw [ht.cached] at hl
    rcases hp : σ.cached.lookup n with _ | p
    · rw [hp] at hl; cases hl
    · rw [hp] at hl
      cases hl
      simp only [List.foldl_cons, List.foldl_nil, act, hp]
      exact .cons ⟨(ht.inv.cached_before n p hp).epoch_le, pt, ho⟩ h
  · rw [he, if_neg (Option.some_ne_none pt), if_neg (Option.some_ne_none pt), if_pos hl]
    rw [ht.recv, deriveMessageKey_eval] at ho
    exact .cons ⟨Nat.le_refl _, pt, ho⟩ h

theorem Explains.track (hroot : root.length = 32) {accepted : List Envelope}
    (h : Explains S root σ accepted) (ht : Tracks S root r σ) (op : Op) :
    Explains S root (track S (r, σ) op).2 (receive S (r, accepted) op).2 := by
  cases op with
  | encrypt pt draw => exact h.of_prefix rfl (List.prefix_refl _)
  | ratchetStep pub =>
    obtain ⟨-, ha⟩ | ⟨s, -, ha⟩ := acts_ratchetStep_cases S r pub
    · exact h.installs (.inl ha)
    · exact h.installs (.inr ⟨s, ha⟩)
  | decrypt env =>
    show Explains S root ((decryptActs S r env).foldl act σ)
      (if (r.decryptEnvelope S env).2 = none then accepted else env :: accepted)
    obtain ⟨hn, ha, -⟩ | ⟨q, n, pre, he, ha, hp, hq⟩ := ht.decrypt_cases hroot env
    · rw [ha, if_pos hn]; exact h
    · rw [ha, he, List.foldl_append, List.foldl_append]
      exact Explains.openMessage ((h.installs hp).skips _) (hq.skipTo n) n env

theorem Explains.run (hroot : root.length = 32) {accepted : List Envelope}
    (h : Explains S root σ accepted) (ht : Tracks S root r σ) (ops : List Op) :
    Explains S root (ops.foldl (Ratchet.track S) (r, σ)).2
      (ops.foldl (receive S) (r, accepted)).2 := by
  induction ops generalizing r σ accepted with
  | nil => exact h
  | cons op ops ih => exact ih (h.track hroot ht op) (ht.track hroot op)

theorem exists_of_forall₂ {α β : Type*} {R : α → β → Prop} {as : List α} {bs : List β}
    (h : List.Forall₂ R as bs) {a : α} (ha : a ∈ as) : ∃ b ∈ bs, R a b := by
  induction h with
  | nil => cases ha
  | cons hr _ ih =>
    obtain rfl | ha := List.mem_cons.mp ha
    · exact ⟨_, List.mem_cons_self, hr⟩
    · obtain ⟨b, hb, hr⟩ := ih ha
      exact ⟨b, List.mem_cons_of_mem _ hb, hr⟩

theorem nodup_map_of_forall₂ {α β γ : Type*} {R : α → β → Prop} {f : α → γ} {as : List α}
    {bs : List β} (h : List.Forall₂ R as bs) (hb : bs.Nodup)
    (hR : ∀ a a' b b', b ∈ bs → b' ∈ bs → R a b → R a' b' → f a = f a' → b = b') :
    (as.map f).Nodup := by
  induction h with
  | nil => exact .nil
  | @cons a b as bs hab h ih =>
    obtain ⟨hnew, hb⟩ := List.nodup_cons.mp hb
    refine List.nodup_cons.mpr ⟨fun hc => ?_, ih hb fun a a' b b' hm hm' =>
      hR a a' b b' (List.mem_cons_of_mem _ hm) (List.mem_cons_of_mem _ hm')⟩
    obtain ⟨a', ha', he⟩ := List.mem_map.mp hc
    obtain ⟨b', hb', hab'⟩ := exists_of_forall₂ h ha'
    have := hR a a' b b' List.mem_cons_self (List.mem_cons_of_mem _ hb') hab hab' he.symm
    exact hnew (this ▸ hb')

/-- **Replay protection**: among the envelopes an object accepts no header and
ciphertext occurs twice, whatever is delivered to it and in whatever order. -/
theorem accepted_at_most_once (hS : S.AeadIdeal) {dhPrivateKey : BytesN 32} {sid : Bytes}
    (hi : (new S dhPrivateKey).initializeWith root sid = .ok r) (ops : List Op)
    (hfree : CollisionFree (mac S) root (prefixes
      ((ops.foldl (track S) (r, {})).2.received.map
        (keyPath .recv (ops.foldl (track S) (r, {})).2.secrets)))) :
    ((ops.foldl (receive S) (r, [])).2.map fun env => (env.associatedData, env.ciphertext)).Nodup := by
  have hroot := initializeWith_length hi
  have ht : Tracks S root r {} := .init hroot rfl hi
  have hinv := (ht.run hroot (x := (r, {})) ops).inv
  have hexplains : Explains S root {} [] := .nil
  refine nodup_map_of_forall₂ (hexplains.run hroot ht ops) hinv.received_nodup ?_
  rintro env env' p p' hp hp' ⟨hle, pt, ho⟩ ⟨hle', pt', ho'⟩ he
  obtain ⟨had, hct⟩ := Prod.mk.inj he
  have hpaths := injOn_prefixes hfree (mem_prefixes (List.mem_map_of_mem hp))
    (mem_prefixes (List.mem_map_of_mem hp'))
  refine keyPath_injective hle hle' (hpaths ?_)
  have ho2 := ho'.2
  rw [← had, ← hct] at ho2
  exact AEAD.decrypt_key_unique hS ho.2 ho2

/-- Message 1, message 0, and message 1 again. -/
theorem accepted_at_most_once_sample :
    ((([.decrypt (sampleMessage 7 2 1), .decrypt (sampleMessage 7 2 0),
        .decrypt (sampleMessage 7 2 1)] : List Op).foldl (receive Sodium.sample)
      (sample 7 1, [])).2.map fun env => (env.associatedData, env.ciphertext)).Nodup :=
  accepted_at_most_once Sodium.sample_ideal (sample_initialized 7 1) _
    (collisionFree_of_inits (by decide +kernel))

end SecureComm.Ratchet
