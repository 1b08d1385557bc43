import SecureComm.Ratchet.Agreement
import SecureComm.Ratchet.Secrecy

/-!
# A compromised state

What a thief of the keys of an object can read, in the symbolic model: later
installations mix in shared secrets, and the thief gets as far as the first one
that is not known (`leak_exposes_iff`). The key pair of an object is drawn when
it is constructed and no message or ratchet step replaces it, so to a thief of
the private key every shared secret is known, and nothing heals
(`leak_never_heals`).
-/

namespace SecureComm

open KeyPath

namespace Schedule

/-- What is hashed on a path after its shared secrets. -/
def labels (d : Direction) (s : Slot) : List Bytes :=
  (if s.epoch = 0 then [] else [d.info ++ [1]]) ++ List.replicate s.index ckLabel

/-- What the thief hashes: the public labels, and the shared secrets that are known. -/
def labelsWith (known : Set (BytesN 32)) : Set Bytes := publicLabels ∪ Subtype.val '' known

variable {σ σ' : Schedule} {d : Direction} {s : Slot} {known : Set (BytesN 32)}

theorem mem_publicLabels_of_mem_labels {m : Bytes} (h : m ∈ labels d s) : m ∈ publicLabels := by
  unfold labels at h
  rcases List.mem_append.mp h with h | h
  · split at h
    · cases h
    · rw [List.mem_singleton] at h
      subst h
      cases d
      · exact .inr (.inr (.inl rfl))
      · exact .inr (.inr (.inr rfl))
  · rw [List.eq_of_mem_replicate h]
    exact .inr (.inl rfl)

theorem val_mem_labelsWith {z : BytesN 32} : z.val ∈ labelsWith known ↔ z ∈ known := by
  constructor
  · rintro (h | ⟨z', hz, he⟩)
    · have hl := z.property
      rcases h with h | h | h | h
      all_goals rw [h] at hl; cases hl
    · rwa [← Subtype.ext he]
  · exact fun h => .inr ⟨z, h, rfl⟩

theorem keyPath_split {more : List (BytesN 32)} (hm : σ'.secrets = σ.secrets ++ more)
    (h : σ.secrets.length ≤ s.epoch) :
    keyPath d σ'.secrets s = σ.secrets.map Subtype.val ++
      (((σ'.secrets.take s.epoch).drop σ.secrets.length).map Subtype.val ++
        (labels d s ++ [msgLabel])) := by
  have ht : (σ'.secrets.take s.epoch).take σ.secrets.length = σ.secrets := by
    rw [List.take_take, Nat.min_eq_left h, hm, List.take_left]
  conv_lhs => rw [keyPath, chainPath, ← List.take_append_drop σ.secrets.length
    (σ'.secrets.take s.epoch), ht, List.map_append]
  rw [labels, List.append_assoc, List.append_assoc]

/-- What is held beside the cached keys comes from the root key by public labels. -/
theorem held_cases {p : List Bytes} (h : p ∈ σ.held) :
    (∃ t, (∀ m ∈ t, m ∈ publicLabels) ∧ p = σ.secrets.map Subtype.val ++ t) ∨
      ∃ n t, σ.cached.lookup n = some t ∧ p = keyPath .recv σ.secrets t := by
  have hchain : ∀ (d : Direction) (i : ℕ), ∃ t, (∀ m ∈ t, m ∈ publicLabels) ∧
      chainPath d σ.secrets ⟨σ.secrets.length, i⟩ = σ.secrets.map Subtype.val ++ t := fun d i =>
    ⟨labels d ⟨σ.secrets.length, i⟩, fun _ => mem_publicLabels_of_mem_labels, by
      rw [chainPath, List.take_length, labels]⟩
  obtain rfl | rfl | rfl | ⟨n, t, ht, rfl⟩ := h
  · exact .inl ⟨[], fun _ hm => absurd hm List.not_mem_nil, (List.append_nil _).symm⟩
  · exact .inl (hchain .send σ.sent)
  · exact .inl (hchain .recv σ.moved)
  · exact .inr ⟨n, t, ht, rfl⟩

/-- **What a thief of the keys of `σ` reads later**: the installations up to the first
shared secret that is not known, and the messages whose keys were cached. -/
theorem derivable_later_iff (hσ : σ.Inv) {more : List (BytesN 32)}
    (hm : σ'.secrets = σ.secrets ++ more) (hs : s.epoch ≤ σ'.secrets.length) :
    Derivable (labelsWith known) σ.held (keyPath d σ'.secrets s) ↔
      (σ.secrets.length ≤ s.epoch ∧
        ∀ z ∈ (σ'.secrets.take s.epoch).drop σ.secrets.length, z ∈ known) ∨
      ∃ n, σ.cached.lookup n = some s ∧ (d = .recv ∨ s.epoch = 0) := by
  have hcached : ∀ {n t}, σ.cached.lookup n = some t →
      keyPath .recv σ'.secrets t = keyPath .recv σ.secrets t := fun ht => by
    rw [hm, keyPath_append more (hσ.cached_before _ _ ht).epoch_le]
  rw [derivable_iff]
  constructor
  · rintro ⟨p, hp, w, hw, he⟩
    rcases held_cases hp with ⟨t, ht, rfl⟩ | ⟨n, t, ht, rfl⟩
    · have hle : σ.secrets.length ≤ s.epoch := by
        have hc := countP_keyPath (d := d) hs
        have hroot : (σ.secrets.map Subtype.val).countP (fun m => m.length = 32) =
            σ.secrets.length := by
          rw [List.countP_map, List.countP_eq_length.mpr]
          exact fun z _ => decide_eq_true z.property
        rw [he, List.append_assoc, List.countP_append, hroot] at hc
        omega
      refine .inl ⟨hle, fun z hz => ?_⟩
      rw [keyPath_split hm hle, List.append_assoc, List.append_cancel_left_eq] at he
      have hz' : z.val ∈ t ++ w := he ▸ List.mem_append_left _ (List.mem_map_of_mem hz)
      refine val_mem_labelsWith.mp ?_
      rcases List.mem_append.mp hz' with h | h
      · exact .inl (ht _ h)
      · exact hw _ h
    · -- a message key ends its path, so the thief has the key itself
      rw [← hcached ht] at he
      rw [eq_of_extends_keyPath (σ := σ') he, List.append_nil] at he
      have hle : t.epoch ≤ σ'.secrets.length := by
        have := (hσ.cached_before n t ht).epoch_le
        rw [hm, List.length_append]
        exact Nat.le_add_right_of_le this
      obtain rfl := keyPath_injective hs hle he
      refine .inr ⟨n, ht, ?_⟩
      cases d with
      | recv => exact .inl rfl
      | send => exact .inr (keyPath_direction.mp he)
  · rintro (⟨hle, hknown⟩ | ⟨n, ht, hd⟩)
    · refine ⟨_, .inl rfl, _, fun m hmem => ?_, keyPath_split hm hle⟩
      rcases List.mem_append.mp hmem with hmem | hmem
      · obtain ⟨z, hz, rfl⟩ := List.mem_map.mp hmem
        exact val_mem_labelsWith.mpr (hknown z hz)
      · rcases List.mem_append.mp hmem with hmem | hmem
        · exact .inl (mem_publicLabels_of_mem_labels hmem)
        · rw [List.mem_singleton.mp hmem]
          exact .inl (.inl rfl)
    · refine ⟨keyPath .recv σ.secrets s, .inr (.inr (.inr ⟨n, s, ht, rfl⟩)), [],
        fun _ h => absurd h List.not_mem_nil, ?_⟩
      rw [List.append_nil, ← hcached ht]
      rcases hd with rfl | h0
      · rfl
      · cases d with
        | recv => rfl
        | send => exact keyPath_direction.mpr h0

end Schedule

namespace Ratchet

open Schedule

variable {S : Sodium} {root sid : Bytes} {r : Ratchet}

/-- The remote public key that a call is given; it is on the wire. -/
def Op.remotePub : Op → Option Bytes
  | .encrypt _ _ => none
  | .decrypt env => (parseHeader env.associatedData).map Prod.snd
  | .ratchetStep pub => some pub

/-- The shared secrets that the private key gives with the public keys of later calls. -/
def sharedSecrets (S : Sodium) (r : Ratchet) (later : List Op) : Set (BytesN 32) :=
  {z | ∃ op ∈ later, ∃ pub, op.remotePub = some pub ∧ r.dhCompute S pub = .ok z}

/-- **No call replaces the key pair.** -/
theorem apply_dhKeys (S : Sodium) (r : Ratchet) (op : Op) :
    (r.apply S op).dhPrivateKey = r.dhPrivateKey ∧
      (r.apply S op).dhPublicKey = r.dhPublicKey := by
  obtain hq | ⟨pub, r', hr, hq⟩ := apply_quiet (S := S) r op
  · exact ⟨hq.dhPrivateKey, hq.dhPublicKey⟩
  · obtain ⟨s, -, -, -, -, hpriv, hpub⟩ := hr.eq
    exact ⟨hq.dhPrivateKey.trans hpriv, hq.dhPublicKey.trans hpub⟩

theorem trackAll_dhKeys (S : Sodium) (r : Ratchet) (ops : List Op) :
    (trackAll S r ops).1.dhPrivateKey = r.dhPrivateKey ∧
      (trackAll S r ops).1.dhPublicKey = r.dhPublicKey :=
  List.foldlRecOn
    (motive := fun x => x.1.dhPrivateKey = r.dhPrivateKey ∧ x.1.dhPublicKey = r.dhPublicKey)
    ops (track S) ⟨rfl, rfl⟩ fun x hx op _ =>
      ⟨(apply_dhKeys S x.1 op).1.trans hx.1, (apply_dhKeys S x.1 op).2.trans hx.2⟩

/-- A call installs a shared secret of its private key and a public key it is given. -/
theorem acts_secret {op : Op} {z : BytesN 32} (h : z ∈ (acts S r op).flatMap Act.secret) :
    ∃ pub, op.remotePub = some pub ∧ r.dhCompute S pub = .ok z := by
  obtain ⟨a, ha, hz⟩ := List.mem_flatMap.mp h
  obtain rfl : a = .install z := by
    cases a with
    | install z' => rw [List.mem_singleton.mp hz]
    | _ => cases hz
  have hinstall : ∀ {e : Except String (BytesN 32)},
      Act.install z ∈ e.toOption.toList.map .install → e = .ok z := fun {e} h => by
    cases e with
    | error _ => cases h
    | ok z' => rw [Act.install.inj (List.mem_singleton.mp h)]
  cases op with
  | encrypt pt draw => cases List.mem_singleton.mp ha
  | ratchetStep pub => exact ⟨pub, rfl, hinstall ha⟩
  | decrypt env =>
    have ha : Act.install z ∈ decryptActs S r env := ha
    unfold decryptActs at ha
    split at ha
    · rename_i r1 n pub hadopt hparse
      split at ha
      · rcases List.mem_append.mp ha with ha | ha
        · split at ha
          · refine ⟨pub, by rw [Op.remotePub, hparse]; rfl, ?_⟩
            have hz := hinstall ha
            rwa [adoptSession_cases hadopt] at hz
          · cases ha
        · rcases List.mem_append.mp ha with ha | ha
          · cases List.eq_of_mem_replicate ha
          · unfold openActs at ha
            split at ha
            · cases ha
            · split at ha <;> cases List.mem_singleton.mp ha
      · cases ha
    · cases ha

/-- **A run mixes in shared secrets of the one private key.** -/
theorem track_secrets (x : Ratchet × Schedule) (later : List Op) :
    ∃ more, (later.foldl (track S) x).2.secrets = x.2.secrets ++ more ∧
      ∀ z ∈ more, z ∈ sharedSecrets S x.1 later := by
  induction later generalizing x with
  | nil => exact ⟨[], (List.append_nil _).symm, fun _ h => absurd h List.not_mem_nil⟩
  | cons op later ih =>
    obtain ⟨more, hmore, hz⟩ := ih (track S x op)
    refine ⟨(acts S x.1 op).flatMap Act.secret ++ more, ?_, fun z hmem => ?_⟩
    · rw [List.foldl_cons, hmore, ← List.append_assoc]
      exact congrArg (· ++ more) (foldl_act_secrets _ _)
    · rcases List.mem_append.mp hmem with h | h
      · obtain ⟨pub, hp, hd⟩ := acts_secret h
        exact ⟨op, List.mem_cons_self, pub, hp, hd⟩
      · obtain ⟨op', hop, pub, hp, hd⟩ := hz z h
        refine ⟨op', List.mem_cons_of_mem _ hop, pub, hp, ?_⟩
        rwa [dhCompute, track, (apply_dhKeys S x.1 op).1] at hd

theorem trackAll_secrets (S : Sodium) (r : Ratchet) (ops later : List Op) :
    ∃ more, (trackAll S r (ops ++ later)).2.secrets = (trackAll S r ops).2.secrets ++ more ∧
      ∀ z ∈ more, z ∈ sharedSecrets S (trackAll S r ops).1 later := by
  unfold trackAll
  rw [List.foldl_append]
  exact track_secrets _ later

section Leak

variable {dhPrivateKey : BytesN 32} (hi : (new S dhPrivateKey).initializeWith root sid = .ok r)
  (ops later : List Op)
include hi

/-- **A leak of the keys of a state** exposes, of the messages of the whole run, those of the
installation in force and of the later ones up to the first whose shared secret is not known,
and those whose keys are cached. The keys of the messages are those the object used. -/
theorem leak_exposes_iff (known : Set (BytesN 32)) :
    let x : Ratchet × Schedule := trackAll S r ops
    let y : Ratchet × Schedule := trackAll S r (ops ++ later)
    Tracks S root x.1 x.2 ∧ (keyLog S r (ops ++ later)).Follows S root y.2 ∧
      ∀ (d : Direction) (s : Slot), s.epoch ≤ y.2.secrets.length →
        (Derivable (labelsWith known) x.2.held (keyPath d y.2.secrets s) ↔
          (x.2.secrets.length ≤ s.epoch ∧
            ∀ z ∈ (y.2.secrets.take s.epoch).drop x.2.secrets.length, z ∈ known) ∨
          ∃ n, x.2.cached.lookup n = some s ∧ (d = .recv ∨ s.epoch = 0)) := by
  obtain ⟨hr, hx⟩ := keyLog_follows hi ops
  obtain ⟨more, hmore, -⟩ := trackAll_secrets S r ops later
  exact ⟨hr ▸ hx.tracks, (keyLog_follows hi (ops ++ later)).2,
    fun d s hs => derivable_later_iff hx.tracks.inv hmore hs⟩

/-- **A leak of the keys and of the private key** exposes every later message, whatever the
object ratchets against: the key pair stays the one of the constructor. -/
theorem leak_never_heals :
    let x : Ratchet × Schedule := trackAll S r ops
    let y : Ratchet × Schedule := trackAll S r (ops ++ later)
    Tracks S root x.1 x.2 ∧ (keyLog S r (ops ++ later)).Follows S root y.2 ∧
      y.1.dhPrivateKey = dhPrivateKey ∧ y.1.dhPublicKey = S.scalarmultBase dhPrivateKey ∧
      ∀ (d : Direction) (s : Slot), s.epoch ≤ y.2.secrets.length →
        (Derivable (labelsWith (sharedSecrets S x.1 later)) x.2.held (keyPath d y.2.secrets s) ↔
          x.2.secrets.length ≤ s.epoch ∨
            ∃ n, x.2.cached.lookup n = some s ∧ (d = .recv ∨ s.epoch = 0)) := by
  obtain ⟨hr, hx⟩ := keyLog_follows hi ops
  obtain ⟨more, hmore, hz⟩ := trackAll_secrets S r ops later
  obtain ⟨hpriv, hpub⟩ := trackAll_dhKeys S r (ops ++ later)
  have hy := (keyLog_follows hi (ops ++ later)).2
  have hnew : r.dhPrivateKey = dhPrivateKey ∧ r.dhPublicKey = S.scalarmultBase dhPrivateKey := by
    rw [initializeWith_ok _ (initializeWith_length hi)] at hi
    cases hi
    exact ⟨rfl, rfl⟩
  refine ⟨hr ▸ hx.tracks, hy, hpriv.trans hnew.1, hpub.trans hnew.2, fun d s hs => ?_⟩
  rw [derivable_later_iff hx.tracks.inv hmore hs]
  refine or_congr_left (and_iff_left_of_imp fun hle z hmem => hz z ?_)
  have hdrop := List.mem_of_mem_take (List.drop_take ▸ hmem)
  rwa [hmore, List.drop_left] at hdrop

end Leak

/-- A leak that a ratchet step heals: the first message after it stays secret. -/
theorem leak_exposes_iff_sample :
    ¬ Derivable (labelsWith ∅) (trackAll Sodium.sample (sample 7 1) [.encrypt [] sampleDraw]).2.held
      (keyPath .send (trackAll Sodium.sample (sample 7 1)
        [.encrypt [] sampleDraw, .ratchetStep (sample 7 2).dhPublicKey.val]).2.secrets ⟨1, 0⟩) := by
  intro h
  have hread := ((leak_exposes_iff (sample_initialized 7 1) [.encrypt [] sampleDraw]
    [.ratchetStep (sample 7 2).dhPublicKey.val] ∅).2.2 .send ⟨1, 0⟩ (by decide +kernel)).mp h
  have hmore : ((trackAll Sodium.sample (sample 7 1) ([.encrypt [] sampleDraw] ++
      [.ratchetStep (sample 7 2).dhPublicKey.val])).2.secrets.take 1).drop
      (trackAll Sodium.sample (sample 7 1) [.encrypt [] sampleDraw]).2.secrets.length ≠ [] := by
    decide +kernel
  have hkeys : (trackAll Sodium.sample (sample 7 1) [.encrypt [] sampleDraw]).2.cached.keys = [] :=
    by decide +kernel
  rcases hread with ⟨-, hknown⟩ | ⟨n, hl, -⟩
  · obtain ⟨z, rest, hz⟩ := List.exists_cons_of_ne_nil hmore
    exact hknown z (hz ▸ List.mem_cons_self)
  · have hm := AList.mem_keys.mp (AList.lookup_isSome.mp (Option.isSome_of_eq_some hl))
    rw [hkeys] at hm
    cases hm

/-- The same message, to a thief of the private key. -/
theorem leak_never_heals_sample :
    Derivable (labelsWith (sharedSecrets Sodium.sample
          (trackAll Sodium.sample (sample 7 1) [.encrypt [] sampleDraw]).1
          [.ratchetStep (sample 7 2).dhPublicKey.val]))
      (trackAll Sodium.sample (sample 7 1) [.encrypt [] sampleDraw]).2.held
      (keyPath .send (trackAll Sodium.sample (sample 7 1)
        [.encrypt [] sampleDraw, .ratchetStep (sample 7 2).dhPublicKey.val]).2.secrets ⟨1, 0⟩) :=
  ((leak_never_heals (sample_initialized 7 1) [.encrypt [] sampleDraw]
    [.ratchetStep (sample 7 2).dhPublicKey.val]).2.2.2.2 .send ⟨1, 0⟩ (by decide +kernel)).mpr
    (.inl (by decide +kernel))

end Ratchet

end SecureComm
