import Mathlib.Data.List.Induction
import SecureComm.Mls.Epochs

/-!
# Several managers

A manager draws the leaves of its groups itself, and no call takes a leaf in or
gives one out. So what one manager encrypts opens at another only for a group
without leaves (`opens_elsewhere_iff`), and the key of such a group can be
computed from the envelope alone (`eavesdropper_opens_iff`).
-/

namespace SecureComm

namespace MLSManager

variable {S : Sodium} {m : MLSManager} {gid : Bytes} {g g' : Group}

/-! ## Leaves -/

def drawn (gid : Bytes) (ops : List Op) : List Bytes :=
  ops.flatMap fun
    | .add groupId _ leaf => if groupId = gid then [leaf.val] else []
    | _ => []

/-- The leaves of a group were drawn, as 32 bytes each. -/
structure Group.Grown (l : List Bytes) (g : Group) : Prop where
  drawn : ∀ leaf ∈ g.leafSecrets, leaf ∈ l
  length : ∀ leaf ∈ g.leafSecrets, leaf.length = 32

theorem Group.created_grown (l : List Bytes) : (Group.created S gid).Grown l :=
  ⟨fun _ h => absurd h List.not_mem_nil, fun _ h => absurd h List.not_mem_nil⟩

theorem Group.Grown.apply {l : List Bytes} (h : g.Grown l) (op : Op) :
    (g.apply S gid op).Grown (l ++ MLSManager.drawn gid [op]) := by
  have hold : ∀ {g' : Group}, (∀ leaf ∈ g'.leafSecrets, leaf ∈ g.leafSecrets) →
      g'.Grown (l ++ MLSManager.drawn gid [op]) := fun hsub =>
    ⟨fun leaf hl => List.mem_append_left _ (h.drawn leaf (hsub leaf hl)),
      fun leaf hl => h.length leaf (hsub leaf hl)⟩
  cases op with
  | add groupId memberId leaf =>
    by_cases hx : groupId = gid
    · rw [Group.apply, if_pos hx]
      have hdrawn : MLSManager.drawn gid [.add groupId memberId leaf] = [leaf.val] := by
        show (if groupId = gid then [leaf.val] else []) ++ [] = _
        rw [if_pos hx, List.append_nil]
      refine ⟨fun x hl => ?_, fun x hl => ?_⟩
      · rw [hdrawn]
        rcases List.mem_append.mp hl with hl | hl
        · exact List.mem_append_left _ (h.drawn x hl)
        · exact List.mem_append_right _ hl
      · rcases List.mem_append.mp hl with hl | hl
        · exact h.length x hl
        · rw [List.mem_singleton.mp hl]
          exact leaf.property
    · rw [Group.apply, if_neg hx]
      exact hold fun _ hl => hl
  | remove groupId memberId =>
    by_cases hx : groupId = gid
    · rw [Group.apply, if_pos hx, Group.removeMember]
      split
      · exact hold fun _ hl => hl
      · exact hold fun _ hl => List.mem_of_mem_eraseIdx hl
    · rw [Group.apply, if_neg hx]
      exact hold fun _ hl => hl
  | create => exact hold fun _ hl => hl
  | encrypt => exact hold fun _ hl => hl
  | decrypt => exact hold fun _ hl => hl

/-- **No leaf comes from elsewhere.** -/
theorem run_grown (S : Sodium) (gid : Bytes) (ops : List Op)
    (hg : (ops.foldl (step S) {}).groups.lookup gid = some g) : g.Grown (drawn gid ops) := by
  induction ops using List.reverseRecOn generalizing g with
  | nil => cases hg
  | append_singleton ops op ih =>
    rw [List.foldl_append] at hg
    have hdrawn : drawn gid (ops ++ [op]) = drawn gid ops ++ drawn gid [op] := List.flatMap_append
    rw [hdrawn]
    rcases hl : (ops.foldl (step S) {}).groups.lookup gid with _ | g₀
    · rcases step_lookup_none (S := S) hl op with hn | hc
      · cases hn.symm.trans hg
      · rw [Option.some.inj (hg.symm.trans hc)]
        exact Group.created_grown _
    · rw [← Option.some.inj ((step_lookup hl op).symm.trans hg)]
      exact (ih hl).apply op

theorem flatten_inj : ∀ {l l' : List Bytes}, (∀ x ∈ l, x.length = 32) → (∀ x ∈ l', x.length = 32) →
    l.flatten = l'.flatten → l = l'
  | [], [], _, _, _ => rfl
  | [], x :: l', _, h', he => by
    have hlen := congrArg List.length he
    rw [List.flatten_cons, List.length_append, h' x List.mem_cons_self] at hlen
    simp at hlen
    omega
  | x :: l, [], h, _, he => by
    have hlen := congrArg List.length he
    rw [List.flatten_cons, List.length_append, h x List.mem_cons_self] at hlen
    simp at hlen
  | x :: l, y :: l', h, h', he => by
    rw [List.flatten_cons, List.flatten_cons] at he
    obtain ⟨rfl, hrest⟩ := List.append_inj he
      ((h x List.mem_cons_self).trans (h' y List.mem_cons_self).symm)
    rw [flatten_inj (fun z hz => h z (List.mem_cons_of_mem _ hz))
      (fun z hz => h' z (List.mem_cons_of_mem _ hz)) hrest]

/-! ## Keys of two managers -/

/-- The hash does not collide on the inputs of the secrets and of the keys of two groups. -/
structure Group.NoCollision (S : Sodium) (g g' : Group) : Prop where
  key : Group.Apart S g g'
  secret : g.epochSecret = g'.epochSecret → g.leafSecrets.flatten = g'.leafSecrets.flatten

/-- **One key** is one epoch and the same leaves. -/
theorem Group.key_eq_iff (hs : g.Sound S gid) (hs' : g'.Sound S gid) {l l' : List Bytes}
    (hg : g.Grown l) (hg' : g'.Grown l') (hn : Group.NoCollision S g g') :
    g'.key S = g.key S ↔ g'.epoch = g.epoch ∧ g'.leafSecrets = g.leafSecrets := by
  constructor
  · intro hk
    obtain ⟨hsecret, hinfo⟩ := hn.key hk.symm
    refine ⟨?_, flatten_inj hg'.length hg.length (hn.secret hsecret).symm⟩
    by_contra hne
    exact Group.key_ne hn.key (hs.id.trans hs'.id.symm) hne hk
  · rintro ⟨hepoch, hleaves⟩
    rw [Group.key, Group.key, hs.epochSecret_eq hs' hleaves, hepoch, hs.id, hs'.id]

/-- Both managers have the group, in one epoch and without leaves. -/
def BothVacant (m m' : MLSManager) (gid : Bytes) : Prop :=
  ∃ g g', m.groups.lookup gid = some g ∧ m'.groups.lookup gid = some g' ∧
    g.leafSecrets = [] ∧ g'.leafSecrets = [] ∧ g'.epoch = g.epoch

/-- **A message opens elsewhere** only for a group without leaves: the managers draw different
leaves, and a key of one is a key of the other only without any. -/
theorem opens_elsewhere_iff (hS : S.AeadIdeal) (ops ops' : List Op) {senderId pt : Bytes}
    {nonce : BytesN 12} {now now' : UInt64} {m' : MLSManager} {env : Envelope}
    (henc : (ops.foldl (step S) {}).encryptGroupMessage S gid senderId pt nonce now now' =
      .ok (m', env))
    (hdrawn : ∀ leaf ∈ drawn gid ops, leaf ∉ drawn gid ops')
    (hhash : ∀ g g', (ops.foldl (step S) {}).groups.lookup gid = some g →
      (ops'.foldl (step S) {}).groups.lookup gid = some g' → Group.NoCollision S g g')
    (gid' memberId pt' : Bytes) :
    ((ops'.foldl (step S) {}).decryptGroupMessageAs S gid' memberId env).2 = some pt' ↔
      pt' = pt ∧ gid' = gid ∧ BothVacant (ops.foldl (step S) {}) (ops'.foldl (step S) {}) gid := by
  obtain ⟨g, hg, -, hsession, -, hct⟩ := encryptGroupMessage_cases henc
  have hs := run_sound ops gid g hg
  rcases hl : (ops'.foldl (step S) {}).groups.lookup gid' with _ | g'
  · rw [decryptGroupMessageAs_none hl]
    refine iff_of_false (fun h => by cases h) ?_
    rintro ⟨-, rfl, -, g', -, hl', -⟩
    cases hl.symm.trans hl'
  have hs' := run_sound ops' gid' g' hl
  rw [decryptGroupMessageAs_some hl hs'.id]
  by_cases hx : gid' = gid
  swap
  · rw [if_neg fun h => hx (h.symm.trans (hsession.trans hs.id))]
    exact iff_of_false (fun h => by cases h) fun h => hx h.2.1
  subst hx
  have hgrown := run_grown S gid' ops hg
  have hgrown' := run_grown S gid' ops' hl
  have hkey := Group.key_eq_iff hs hs' hgrown hgrown' (hhash g g' hg hl)
  rw [if_pos (hsession.trans hs.id), hct]
  by_cases hk : g'.key S = g.key S
  · obtain ⟨hepoch, hleaves⟩ := hkey.mp hk
    have hnil : g.leafSecrets = [] := List.eq_nil_iff_forall_not_mem.mpr fun leaf hm =>
      hdrawn leaf (hgrown.drawn leaf hm) (hgrown'.drawn leaf (hleaves ▸ hm))
    rw [hk, AEAD.decrypt_sealed hS.opens g.key_length]
    constructor
    · intro h
      exact ⟨(Option.some.inj h).symm, rfl, g, g', hg, hl, hnil, hleaves.trans hnil, hepoch⟩
    · rintro ⟨rfl, -⟩
      rfl
  · rw [AEAD.decrypt_other hS hk]
    refine iff_of_false (fun h => by cases h) ?_
    rintro ⟨-, -, g₁, g₁', hg₁, hl₁, hnil, hnil', hepoch⟩
    obtain rfl := Option.some.inj (hg.symm.trans hg₁)
    obtain rfl := Option.some.inj (hl.symm.trans hl₁)
    exact hk (hkey.mpr ⟨hepoch, hnil'.trans hnil.symm⟩)

/-! ## A listener -/

/-- The key that anybody can make of an envelope. -/
def publicKey (S : Sodium) (env : Envelope) : Bytes :=
  (S.genericHash (zeros 32) env.associatedData).val

/-- A group in its epoch, without any leaves. -/
def Group.vacant (S : Sodium) (g : Group) : Group :=
  { Group.created S g.id with epoch := g.epoch }

theorem Group.vacant_sound (hs : g.Sound S gid) : (g.vacant S).Sound S gid := ⟨hs.id, rfl⟩

theorem Group.vacant_grown (g : Group) (l : List Bytes) : (g.vacant S).Grown l :=
  ⟨fun _ h => absurd h List.not_mem_nil, fun _ h => absurd h List.not_mem_nil⟩

/-- **A listener opens a message** of a group without leaves, and no other. -/
theorem eavesdropper_opens_iff (hS : S.AeadIdeal) (ops : List Op) {senderId pt : Bytes}
    {nonce : BytesN 12} {now now' : UInt64} {m' : MLSManager} {env : Envelope}
    (henc : (ops.foldl (step S) {}).encryptGroupMessage S gid senderId pt nonce now now' =
      .ok (m', env))
    (hhash : ∀ g, (ops.foldl (step S) {}).groups.lookup gid = some g →
      Group.NoCollision S g (g.vacant S)) (pt' : Bytes) :
    AEAD.decrypt S ⟨publicKey S env⟩ env.ciphertext env.associatedData = some pt' ↔
      pt' = pt ∧ ∃ g, (ops.foldl (step S) {}).groups.lookup gid = some g ∧
        g.leafSecrets = [] := by
  obtain ⟨g, hg, -, -, haad, hct⟩ := encryptGroupMessage_cases henc
  have hs := run_sound ops gid g hg
  have hkey := Group.key_eq_iff hs (Group.vacant_sound hs) (run_grown S gid ops hg)
    (Group.vacant_grown g []) (hhash g hg)
  have hpublic : publicKey S env = (g.vacant S).key S := by
    rw [publicKey, haad]
    rfl
  rw [hct, hpublic]
  by_cases hnil : g.leafSecrets = []
  · rw [hkey.mpr ⟨rfl, hnil.symm⟩, AEAD.decrypt_sealed hS.opens g.key_length]
    constructor
    · exact fun h => ⟨(Option.some.inj h).symm, g, hg, hnil⟩
    · rintro ⟨rfl, -⟩
      rfl
  · rw [AEAD.decrypt_other hS fun hk => hnil (hkey.mp hk).2.symm]
    refine iff_of_false (fun h => by cases h) ?_
    rintro ⟨-, g₁, hg₁, hnil₁⟩
    obtain rfl := Option.some.inj (hg.symm.trans hg₁)
    exact hnil hnil₁

open Sample in
/-- A group that has lost its members. -/
theorem opens_elsewhere_iff_sample :
    ∃ m' env,
      ([.create team, .add team.val alice (Sodium.Sample.block 1), .remove team.val alice].foldl
        (step Sodium.sample) {}).encryptGroupMessage Sodium.sample team.val alice [7] nonce 0 0 =
          .ok (m', env) ∧
      (([.create team, .add team.val bob (Sodium.Sample.block 2), .remove team.val bob].foldl
        (step Sodium.sample) {}).decryptGroupMessageAs Sodium.sample team.val bob env).2 =
          some [7] := by
  have hg := lookup_created [.add team.val alice (Sodium.Sample.block 1), .remove team.val alice]
  have hg' := lookup_created [.add team.val bob (Sodium.Sample.block 2), .remove team.val bob]
  refine ⟨_, _, encryptGroupMessage_eq hg .., ?_⟩
  refine (opens_elsewhere_iff Sodium.sample_ideal _ _ (encryptGroupMessage_eq hg ..)
    (by decide +kernel) (fun g g' h h' => ?_) team.val bob [7]).mpr
    ⟨rfl, rfl, _, _, hg, hg', by decide +kernel, by decide +kernel, by decide +kernel⟩
  rw [Option.some.inj (h.symm.trans hg), Option.some.inj (h'.symm.trans hg')]
  exact ⟨fun _ => ⟨by decide +kernel, by decide +kernel⟩, fun _ => by decide +kernel⟩

open Sample in
theorem eavesdropper_opens_iff_sample :
    ∃ m' env,
      ([.create team].foldl (step Sodium.sample) {}).encryptGroupMessage Sodium.sample team.val
        alice [7] nonce 0 0 = .ok (m', env) ∧
      AEAD.decrypt Sodium.sample ⟨publicKey Sodium.sample env⟩ env.ciphertext env.associatedData =
        some [7] := by
  have hg := lookup_created []
  refine ⟨_, _, encryptGroupMessage_eq hg .., ?_⟩
  refine (eavesdropper_opens_iff Sodium.sample_ideal _ (encryptGroupMessage_eq hg ..)
    (fun g h => ?_) [7]).mpr ⟨rfl, _, hg, rfl⟩
  rw [Option.some.inj (h.symm.trans hg)]
  exact ⟨fun _ => ⟨rfl, rfl⟩, fun _ => rfl⟩

end MLSManager

end SecureComm
