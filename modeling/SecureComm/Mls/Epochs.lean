import SecureComm.Mls.Groups

/-!
# Epochs

Who may encrypt and decrypt is decided by the group alone: neither function
reads whether an id is a member (`access_by_group`). What an envelope is opened
with is the key of the current epoch, and every change of members starts a new
epoch, so an envelope opens, for anyone, until the next change of its group
(`epochs_isolate`).
-/

namespace SecureComm

namespace MLSManager

variable {S : Sodium} {m : MLSManager} {gid : Bytes} {g : Group}

/-! ## What the two functions consult -/

def Group.key (S : Sodium) (g : Group) : Bytes := (deriveEpochKey S g.epochSecret g.id g.epoch).val

theorem Group.key_length (g : Group) : (g.key S).length = 32 :=
  (deriveEpochKey S g.epochSecret g.id g.epoch).property

theorem encryptGroupMessage_cases {senderId pt : Bytes} {nonce : BytesN 12} {now now' : UInt64}
    {m' : MLSManager} {env : Envelope}
    (h : m.encryptGroupMessage S gid senderId pt nonce now now' = .ok (m', env)) :
    ∃ g, m.groups.lookup gid = some g ∧ m'.groups = m.groups ∧ env.sessionId = g.id ∧
      env.associatedData = g.id ++ BigEndian.be64 g.epoch ∧
      env.ciphertext = nonce.val ++ S.aeadEncrypt (g.key S) nonce.val env.associatedData pt := by
  rcases hl : m.groups.lookup gid with _ | g
  · simp only [encryptGroupMessage, hl] at h
    cases h
  · rw [encryptGroupMessage_eq hl] at h
    cases h
    exact ⟨g, rfl, rfl, rfl, rfl, rfl⟩

theorem decryptGroupMessageAs_some (hg : m.groups.lookup gid = some g) (hid : g.id = gid)
    (memberId : Bytes) (env : Envelope) :
    (m.decryptGroupMessageAs S gid memberId env).2 =
      if env.sessionId = gid then
        AEAD.decrypt S ⟨g.key S⟩ env.ciphertext env.associatedData
      else none := by
  unfold decryptGroupMessageAs decryptGroupMessage
  simp only [hg, hid]
  by_cases hs : env.sessionId = gid
  · rw [if_neg (not_not_intro hs), if_pos hs, Group.key, hid]
  · rw [if_pos hs, if_neg hs]

theorem decryptGroupMessageAs_none (hg : m.groups.lookup gid = none) (memberId : Bytes)
    (env : Envelope) : (m.decryptGroupMessageAs S gid memberId env).2 = none := by
  unfold decryptGroupMessageAs decryptGroupMessage
  simp only [hg]

/-- **Access is by group**: after any calls, anyone encrypts for a group that is
there, and anyone decrypts what carries its id and opens under the key of its epoch. -/
theorem access_by_group (S : Sodium) (ops : List Op) (gid : Bytes) :
    let m := ops.foldl (step S) {}
    (∀ senderId pt nonce now now',
      (∃ sent, m.encryptGroupMessage S gid senderId pt nonce now now' = .ok sent) ↔
        gid ∈ m.groups) ∧
    ∀ memberId env pt, (m.decryptGroupMessageAs S gid memberId env).2 = some pt ↔
      ∃ g, m.groups.lookup gid = some g ∧ env.sessionId = gid ∧
        AEAD.decrypt S ⟨g.key S⟩ env.ciphertext env.associatedData = some pt := by
  intro m
  have hsound : AllSound S m := run_sound ops
  rcases hl : m.groups.lookup gid with _ | g
  · have hno := AList.lookup_eq_none.mp hl
    refine ⟨fun senderId pt nonce now now' => ⟨fun ⟨sent, h⟩ => ?_, fun h => absurd h hno⟩,
      fun memberId env pt => ⟨fun h => ?_, fun ⟨g, hg, _⟩ => by cases hg⟩⟩
    · simp only [encryptGroupMessage, hl] at h
      cases h
    · rw [decryptGroupMessageAs_none hl] at h
      cases h
  · have hyes : gid ∈ m.groups := AList.lookup_isSome.mp (by rw [hl]; rfl)
    refine ⟨fun senderId pt nonce now now' => ⟨fun _ => hyes, fun _ =>
      ⟨_, encryptGroupMessage_eq hl senderId pt nonce now now'⟩⟩, fun memberId env pt => ?_⟩
    rw [decryptGroupMessageAs_some hl (hsound gid g hl).id]
    constructor
    · intro h
      split at h
      · rename_i hs
        exact ⟨g, rfl, hs, h⟩
      · cases h
    · rintro ⟨_, hg, hs, h⟩
      cases hg
      rw [if_pos hs]
      exact h

open Sample in
/-- Alice was added and removed, and still writes to the group and reads from it. -/
theorem removed_member_has_access :
    ∃ m' env,
      ([.create team, .add team.val alice (Sodium.Sample.block 1), .remove team.val alice].foldl
        (step Sodium.sample) {}).encryptGroupMessage Sodium.sample team.val alice [7] nonce 0 0 =
          .ok (m', env) ∧
      (m'.decryptGroupMessageAs Sodium.sample team.val alice env).2 = some [7] ∧
      ∀ g, m'.groups.lookup team.val = some g → alice ∉ g.memberIndex := by
  have hg := lookup_created [.add team.val alice (Sodium.Sample.block 1), .remove team.val alice]
  refine ⟨_, _, encryptGroupMessage_eq hg .., by decide +kernel, fun g h => ?_⟩
  rw [Option.some.inj (h.symm.trans hg)]
  decide +kernel

/-! ## Changes of members -/

/-- The call changes the members of the group: it adds one, or removes one who is there. -/
def Group.Changes (gid : Bytes) (g : Group) : Op → Prop
  | .add groupId _ _ => groupId = gid
  | .remove groupId memberId => groupId = gid ∧ memberId ∈ g.memberIndex
  | _ => False

instance (gid : Bytes) (g : Group) : ∀ op, Decidable (g.Changes gid op)
  | .create _ => .isFalse id
  | .add groupId _ _ => inferInstanceAs (Decidable (groupId = gid))
  | .remove groupId memberId =>
    inferInstanceAs (Decidable (groupId = gid ∧ memberId ∈ g.memberIndex))
  | .encrypt .. => .isFalse id
  | .decrypt .. => .isFalse id

def Group.changes (S : Sodium) (gid : Bytes) : Group → List Op → Nat
  | _, [] => 0
  | g, op :: ops => (if g.Changes gid op then 1 else 0) + (g.apply S gid op).changes S gid ops

def changes (S : Sodium) (gid : Bytes) (m : MLSManager) (ops : List Op) : Nat :=
  match m.groups.lookup gid with
  | some g => g.changes S gid ops
  | none => 0

theorem Group.apply_unchanged {op : Op} (h : ¬ g.Changes gid op) : g.apply S gid op = g := by
  cases op with
  | create => rfl
  | add groupId memberId leaf => exact if_neg h
  | remove groupId memberId =>
    by_cases hx : groupId = gid
    · have hm : memberId ∉ g.memberIndex := fun hm => h ⟨hx, hm⟩
      simp only [apply, if_pos hx, removeMember, AList.lookup_eq_none.mpr hm]
    · exact if_neg hx
  | encrypt => rfl
  | decrypt => rfl

theorem Group.apply_epoch {op : Op} (h : g.Changes gid op) :
    (g.apply S gid op).epoch = g.epoch + 1 := by
  cases op with
  | create => exact h.elim
  | add groupId memberId leaf =>
    have hx : groupId = gid := h
    rw [apply, if_pos hx]
    rfl
  | remove groupId memberId =>
    obtain ⟨idx, hm⟩ := Option.isSome_iff_exists.mp (AList.lookup_isSome.mpr h.2)
    simp only [apply, if_pos h.1, removeMember, hm, advance]
  | encrypt => exact h.elim
  | decrypt => exact h.elim

/-- **Epochs count the changes.** -/
theorem Group.run_epoch (ops : List Op) :
    (ops.foldl (Group.apply S gid) g).epoch = g.epoch + UInt64.ofNat (g.changes S gid ops) := by
  induction ops generalizing g with
  | nil => simp [changes]
  | cons op ops ih =>
    rw [List.foldl_cons, ih, changes]
    split
    · rename_i h
      rw [apply_epoch h, UInt64.ofNat_add, UInt64.add_assoc]
      rfl
    · rename_i h
      rw [apply_unchanged h, Nat.zero_add]

theorem Group.run_unchanged {ops : List Op} (h : g.changes S gid ops = 0) :
    ops.foldl (Group.apply S gid) g = g := by
  induction ops with
  | nil => rfl
  | cons op ops ih =>
    rw [changes] at h
    split at h
    · omega
    · rename_i hc
      rw [apply_unchanged hc, Nat.zero_add] at h
      rw [List.foldl_cons, apply_unchanged hc, ih h]

/-- Fewer than 2^64 changes do not lead back to the epoch. -/
theorem Group.run_epoch_ne {ops : List Op} (h : g.changes S gid ops ≠ 0)
    (hlt : g.changes S gid ops < 2 ^ 64) :
    (ops.foldl (Group.apply S gid) g).epoch ≠ g.epoch := by
  rw [run_epoch]
  intro he
  have hz : UInt64.ofNat (g.changes S gid ops) = 0 := by simpa using he
  have := congrArg UInt64.toNat hz
  rw [UInt64.toNat_ofNat_of_lt' hlt] at this
  exact h this

/-! ## Isolation -/

/-- The hash does not collide on the inputs of the keys of two epochs. -/
def Group.Apart (S : Sodium) (g g' : Group) : Prop :=
  g.key S = g'.key S →
    g.epochSecret = g'.epochSecret ∧ g.id ++ BigEndian.be64 g.epoch = g'.id ++ BigEndian.be64 g'.epoch

theorem Group.key_ne {g' : Group} (h : Group.Apart S g g') (hid : g.id = g'.id)
    (hne : g'.epoch ≠ g.epoch) : g'.key S ≠ g.key S := fun hk => by
  have hin := (h hk.symm).2
  rw [hid] at hin
  have he := congrArg BigEndian.word64 (List.append_cancel_left hin)
  rw [BigEndian.word64_be64, BigEndian.word64_be64] at he
  exact hne he.symm

/-- **Epochs isolate messages**: what was encrypted for a group opens, and to its
plaintext, exactly for that group and as long as its members have not changed. -/
theorem epochs_isolate (hS : S.AeadIdeal) (ops ops' : List Op) {senderId pt : Bytes}
    {nonce : BytesN 12} {now now' : UInt64} {m' : MLSManager} {env : Envelope}
    (henc : (ops.foldl (step S) {}).encryptGroupMessage S gid senderId pt nonce now now' =
      .ok (m', env))
    (hfew : changes S gid m' ops' < 2 ^ 64)
    (hhash : ∀ g g', m'.groups.lookup gid = some g →
      (ops'.foldl (step S) m').groups.lookup gid = some g' → Group.Apart S g g')
    (gid' memberId : Bytes) :
    ((ops'.foldl (step S) m').decryptGroupMessageAs S gid' memberId env).2 =
      if gid' = gid ∧ changes S gid m' ops' = 0 then some pt else none := by
  obtain ⟨g, hg, hm', hsession, -, hct⟩ := encryptGroupMessage_cases henc
  have hid : g.id = gid := (run_sound ops gid g hg).id
  have hsound : AllSound S m' := fun x gx hx => run_sound ops x gx (hm' ▸ hx)
  rw [← hm'] at hg
  have hrun := run_lookup (S := S) hg ops'
  have hchanges : changes S gid m' ops' = g.changes S gid ops' := by rw [changes, hg]
  by_cases hx : gid' = gid
  · subst hx
    have hid' := (hsound.run ops' gid' _ hrun).id
    rw [decryptGroupMessageAs_some hrun hid', if_pos (hsession.trans hid), hct]
    by_cases hc : changes S gid' m' ops' = 0
    · rw [if_pos ⟨rfl, hc⟩, Group.run_unchanged (hchanges ▸ hc)]
      exact AEAD.decrypt_sealed hS.opens g.key_length nonce _ pt
    · rw [if_neg fun h => hc h.2]
      rw [hchanges] at hc hfew
      exact AEAD.decrypt_other hS (Group.key_ne (hhash g _ hg hrun) (hid.trans hid'.symm)
        (Group.run_epoch_ne hc hfew)) nonce _ pt
  · rw [if_neg fun h => hx h.1]
    rcases hl : (ops'.foldl (step S) m').groups.lookup gid' with _ | g'
    · exact decryptGroupMessageAs_none hl memberId env
    · have hid' := (hsound.run ops' gid' g' hl).id
      rw [decryptGroupMessageAs_some hl hid', if_neg]
      rw [hsession, hid]
      exact Ne.symm hx

open Sample in
/-- Removing Bob, who is not a member, does not matter; removing Alice does. -/
theorem epochs_isolate_sample :
    ∃ m' env,
      ([.create team, .add team.val alice (Sodium.Sample.block 1)].foldl
        (step Sodium.sample) {}).encryptGroupMessage Sodium.sample team.val alice [7] nonce 0 0 =
          .ok (m', env) ∧
      (([.remove team.val bob].foldl (step Sodium.sample) m').decryptGroupMessageAs Sodium.sample
        team.val bob env).2 = some [7] ∧
      (([.remove team.val alice].foldl (step Sodium.sample) m').decryptGroupMessageAs Sodium.sample
        team.val bob env).2 = none := by
  have hg := lookup_created [.add team.val alice (Sodium.Sample.block 1)]
  refine ⟨_, _, encryptGroupMessage_eq hg .., ?_, ?_⟩
  · refine (epochs_isolate Sodium.sample_ideal _ [.remove team.val bob]
      (encryptGroupMessage_eq hg ..) (by decide +kernel) (fun g g' h h' _ => ?_) team.val bob).trans
      (if_pos (by decide +kernel))
    have hrun := (run_lookup h [.remove team.val bob]).symm.trans h'
    have hnone : g.changes Sodium.sample team.val [.remove team.val bob] = 0 := by
      rw [Option.some.inj (h.symm.trans hg)]
      decide +kernel
    rw [Group.run_unchanged hnone] at hrun
    rw [Option.some.inj hrun]
    exact ⟨rfl, rfl⟩
  · refine (epochs_isolate Sodium.sample_ideal _ [.remove team.val alice]
      (encryptGroupMessage_eq hg ..) (by decide +kernel) (fun g g' h h' hk => ?_) team.val
      bob).trans (if_neg (by decide +kernel))
    have hrun := (run_lookup h [.remove team.val alice]).symm.trans h'
    rw [← Option.some.inj hrun, Option.some.inj (h.symm.trans hg)] at hk
    exact absurd hk (by decide +kernel)

end MLSManager

end SecureComm
