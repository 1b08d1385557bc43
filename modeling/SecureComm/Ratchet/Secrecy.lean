import SecureComm.Ratchet.KeyLog

/-!
# Forward secrecy

In the symbolic model a key is the path it is derived along, and an observer of
the state derives every key whose path extends a held one by public messages.
The root key is held, so every key of the chains in force can be derived; the
keys of earlier installations cannot, for the shared secrets stand between.
-/

namespace SecureComm

open KeyPath

namespace Schedule

def held (σ : Schedule) : Set (List Bytes) :=
  {p | p = σ.secrets.map Subtype.val ∨ p = chainPath .send σ.secrets σ.sendSlot ∨
    p = chainPath .recv σ.secrets σ.recvSlot ∨
    ∃ n s, σ.cached.lookup n = some s ∧ p = keyPath .recv σ.secrets s}

/-- The message keys used to encrypt, or consumed to decrypt. -/
def spent (σ : Schedule) : Set (List Bytes) :=
  {p | (∃ s ∈ σ.used, p = keyPath .send σ.secrets s) ∨
    ∃ s ∈ σ.received, p = keyPath .recv σ.secrets s}

/-- What `derive_message_key`, `advance_chain_key` and `hkdf_expand` hash. -/
def publicLabels : Set Bytes := {msgLabel, ckLabel, sendInfo ++ [1], recvInfo ++ [1]}

/-- No spent key can be derived from the keys held. -/
def ForwardSecret (σ : Schedule) : Prop := ∀ p ∈ σ.spent, ¬ Derivable publicLabels σ.held p

variable {σ : Schedule}

theorem derivable_in_force (d : Direction) {s : Slot} (h : s.epoch = σ.secrets.length) :
    Derivable publicLabels σ.held (keyPath d σ.secrets s) := by
  refine derivable_iff.mpr ⟨_, .inl rfl, (if s.epoch = 0 then [] else [d.info ++ [1]]) ++
    List.replicate s.index ckLabel ++ [msgLabel], fun m hm => ?_, ?_⟩
  · rw [List.mem_append, List.mem_append, List.mem_singleton] at hm
    obtain (hm | hm) | rfl := hm
    · split at hm
      · cases hm
      · rw [List.mem_singleton] at hm
        subst hm
        cases d
        · exact .inr (.inr (.inl rfl))
        · exact .inr (.inr (.inr rfl))
    · rw [List.eq_of_mem_replicate hm]
      exact .inr (.inl rfl)
    · exact .inl rfl
  · rw [keyPath, chainPath, h, List.take_length, List.append_assoc, List.append_assoc]

/-- A message key on a path that goes through all secrets is one of the chains in force. -/
theorem epoch_of_extends {d : Direction} {s : Slot} {p w : List Bytes}
    (hs : s.epoch ≤ σ.secrets.length) (h : keyPath d σ.secrets s = p ++ w)
    (hp : σ.secrets.length ≤ p.countP fun m => m.length = 32) : s.epoch = σ.secrets.length := by
  have hc := countP_keyPath (d := d) hs
  rw [h, List.countP_append] at hc
  omega

theorem eq_of_extends_keyPath {d d' : Direction} {s t : Slot} {w : List Bytes}
    (h : keyPath d σ.secrets s = keyPath d' σ.secrets t ++ w) : w = [] := by
  have hc : (keyPath d σ.secrets s).count msgLabel = 1 := count_msgLabel s
  rw [h, List.count_append, count_msgLabel] at hc
  have hw : w.count msgLabel = 0 := by omega
  rcases List.eq_nil_or_concat w with rfl | ⟨w', m, rfl⟩
  · rfl
  · rw [List.concat_eq_append] at h hw
    rw [← List.append_assoc] at h
    obtain ⟨-, hm⟩ := List.append_inj' h rfl
    rw [← hm, List.count_append, List.count_singleton_self] at hw
    omega

/-- What a derivable message key is: one of the chains in force, or a cached one. -/
theorem derivable_keyPath (d : Direction) {s : Slot} (hs : s.epoch ≤ σ.secrets.length)
    (h : Derivable publicLabels σ.held (keyPath d σ.secrets s)) :
    s.epoch = σ.secrets.length ∨
      ∃ n t, σ.cached.lookup n = some t ∧ keyPath d σ.secrets s = keyPath .recv σ.secrets t := by
  have hsecrets : σ.secrets.length ≤ (σ.secrets.map Subtype.val).countP fun m => m.length = 32 := by
    rw [List.countP_map, List.countP_eq_length.mpr]
    exact fun s _ => decide_eq_true s.property
  have hchain : ∀ (d : Direction) (i : Nat), σ.secrets.length ≤
      (chainPath d σ.secrets ⟨σ.secrets.length, i⟩).countP fun m => m.length = 32 := by
    intro d i
    rw [chainPath, List.take_length, List.countP_append]
    exact Nat.le_add_right_of_le hsecrets
  obtain ⟨p, hp, w, -, he⟩ := derivable_iff.mp h
  obtain rfl | rfl | rfl | ⟨n, t, ht, rfl⟩ := hp
  · exact .inl (epoch_of_extends hs he hsecrets)
  · exact .inl (epoch_of_extends hs he (hchain .send σ.sent))
  · exact .inl (epoch_of_extends hs he (hchain .recv σ.moved))
  · rw [eq_of_extends_keyPath he, List.append_nil] at he
    exact .inr ⟨n, t, ht, he⟩

/-- **When a schedule is forward secret.** -/
theorem forwardSecret_iff (h : σ.Inv) :
    σ.ForwardSecret ↔ (∀ s ∈ σ.used, s.epoch ≠ σ.secrets.length) ∧
      (∀ s ∈ σ.received, s.epoch ≠ σ.secrets.length) ∧
      ∀ n s, σ.cached.lookup n = some s → s.epoch = 0 → s ∉ σ.used := by
  constructor
  · intro hf
    refine ⟨fun s hs he => ?_, fun s hs he => ?_, fun n s hl h0 hs => ?_⟩
    · exact hf _ (.inl ⟨s, hs, rfl⟩) (derivable_in_force .send he)
    · exact hf _ (.inr ⟨s, hs, rfl⟩) (derivable_in_force .recv he)
    · refine hf _ (.inl ⟨s, hs, rfl⟩) (.held (.inr (.inr (.inr ⟨n, s, hl, ?_⟩))))
      exact keyPath_direction.mpr h0
  · rintro ⟨hused, hreceived, hcached⟩ p (⟨s, hs, rfl⟩ | ⟨s, hs, rfl⟩) hd
    · have hle : s.epoch ≤ σ.secrets.length := (h.used_before s hs).epoch_le
      obtain he | ⟨n, t, ht, he⟩ := derivable_keyPath .send hle hd
      · exact hused s hs he
      · obtain rfl := keyPath_injective hle (h.cached_before n t ht).epoch_le he
        exact hcached n s ht (keyPath_direction.mp he) hs
    · have hle : s.epoch ≤ σ.secrets.length := (h.received_before s hs).epoch_le
      obtain he | ⟨n, t, ht, he⟩ := derivable_keyPath .recv hle hd
      · exact hreceived s hs he
      · obtain rfl := keyPath_injective hle (h.cached_before n t ht).epoch_le he
        exact h.cached_fresh n s ht hs

end Schedule

namespace Ratchet

variable {S : Sodium} {root sid : Bytes} {r : Ratchet}

/-- **Forward secrecy.** The keys an object used are those of the slots its schedule logs. No
used key can be derived from its state exactly when no key of the chains in force was used, and
no key cached before the first installation, when both directions are one chain, is one the
object encrypted with. -/
theorem forward_secret_iff {dhPrivateKey : BytesN 32}
    (hi : (new S dhPrivateKey).initializeWith root sid = .ok r) (ops : List Op) :
    let x := trackAll S r ops
    Tracks S root x.1 x.2 ∧
      (keyLog S r ops).ratchet = x.1 ∧ (keyLog S r ops).Follows S root x.2 ∧
      (x.2.ForwardSecret ↔ (∀ s ∈ x.2.used, s.epoch ≠ x.2.secrets.length) ∧
        (∀ s ∈ x.2.received, s.epoch ≠ x.2.secrets.length) ∧
        ∀ n s, x.2.cached.lookup n = some s → s.epoch = 0 → s ∉ x.2.used) := by
  obtain ⟨hr, hl⟩ := keyLog_follows hi ops
  exact ⟨hr ▸ hl.tracks, hr, hl, Schedule.forwardSecret_iff hl.tracks.inv⟩

/-- A state after a ratchet step: what was spent before it stays secret. -/
theorem forward_secret_iff_sample :
    (trackAll Sodium.sample (sample 7 1) [.encrypt [] sampleDraw, .decrypt (sampleMessage 7 2 0),
      .ratchetStep (sample 7 2).dhPublicKey.val]).2.ForwardSecret := by
  refine (forward_secret_iff (sample_initialized 7 1) _).2.2.2.mpr ⟨?_, ?_, ?_⟩
  · decide +kernel
  · decide +kernel
  · have he : (trackAll Sodium.sample (sample 7 1) [.encrypt [] sampleDraw,
        .decrypt (sampleMessage 7 2 0),
        .ratchetStep (sample 7 2).dhPublicKey.val]).2.cached.keys = [] := by decide +kernel
    intro n s hl
    have hm := AList.mem_keys.mp (AList.lookup_isSome.mp (Option.isSome_of_eq_some hl))
    rw [he] at hm
    cases hm

/-- The first message key is derived from the root key, which is still there. -/
theorem root_key_reveals :
    let x := trackAll Sodium.sample (sample 7 1) [.encrypt [] sampleDraw]
    x.1.aead.key = deriveMessageKey Sodium.sample x.1.rootKey ∧ ¬ x.2.ForwardSecret := by
  refine ⟨by decide +kernel, fun h => h [msgLabel] (.inl ⟨⟨0, 0⟩, ?_, rfl⟩) ?_⟩
  · exact List.mem_cons_self
  · exact .hash (p := []) (.held (.inl rfl)) (.inl rfl)

end Ratchet

end SecureComm
