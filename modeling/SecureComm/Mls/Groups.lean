import SecureComm.Lib.Run
import SecureComm.Mls.Basic

/-!
# Runs of the group manager

A run is any sequence of calls. One call does one thing to the group of an id
(`Group.apply`), whatever it does to the others, so a run of the manager is a
run of each group by itself (`run_lookup`).
-/

namespace SecureComm

namespace MLSManager

variable (S : Sodium)

/-- `decrypt_group_message` with the member id it is given, which it does not read. -/
def decryptGroupMessageAs (m : MLSManager) (groupId _memberId : Bytes) (env : Envelope) :
    MLSManager × Option Bytes := m.decryptGroupMessage S groupId env

inductive Op where
  | create (gid : BytesN 16)
  | add (groupId memberId : Bytes) (leaf : BytesN 32)
  | remove (groupId memberId : Bytes)
  | encrypt (groupId senderId plaintext : Bytes) (nonce : BytesN 12) (now now' : UInt64)
  | decrypt (groupId memberId : Bytes) (env : Envelope)

def Op.groupId : Op → Bytes
  | .create gid => gid.val
  | .add groupId .. | .remove groupId .. | .encrypt groupId .. | .decrypt groupId .. => groupId

/-- A call that throws leaves the manager as it is. -/
def step (m : MLSManager) : Op → MLSManager
  | .create gid => (m.createGroup S gid).1
  | .add groupId memberId leaf =>
    match m.addMember S groupId memberId leaf with
    | .ok m => m
    | .error _ => m
  | .remove groupId memberId =>
    match m.removeMember S groupId memberId with
    | .ok m => m
    | .error _ => m
  | .encrypt groupId senderId plaintext nonce now now' =>
    match m.encryptGroupMessage S groupId senderId plaintext nonce now now' with
    | .ok (m, _) => m
    | .error _ => m
  | .decrypt groupId memberId env => (m.decryptGroupMessageAs S groupId memberId env).1

/-! ## One group -/

def Group.created (gid : Bytes) : Group :=
  { id := gid, epoch := 1, epochSecret := deriveEpochSecret S { id := gid, epoch := 1 } }

def Group.addMember (g : Group) (memberId : Bytes) (leaf : BytesN 32) : Group :=
  Group.advance S { g with
    leafSecrets := g.leafSecrets ++ [leaf.val]
    memberIndex := Table.emplace g.memberIndex memberId g.leafSecrets.length }

def Group.removeMember (g : Group) (memberId : Bytes) : Group :=
  match g.memberIndex.lookup memberId with
  | none => g
  | some idx =>
    Group.advance S { g with
      memberIndex := Table.mapValues (g.memberIndex.erase memberId)
        fun i => if i > idx then i - 1 else i
      leafSecrets := g.leafSecrets.eraseIdx idx }

def Group.apply (gid : Bytes) (g : Group) : Op → Group
  | .add groupId memberId leaf => if groupId = gid then g.addMember S memberId leaf else g
  | .remove groupId memberId => if groupId = gid then g.removeMember S memberId else g
  | _ => g

variable {S} {m : MLSManager} {gid : Bytes} {g : Group}

theorem addMember_eq (hg : m.groups.lookup gid = some g) (memberId : Bytes) (leaf : BytesN 32) :
    m.addMember S gid memberId leaf =
      .ok { m with groups := m.groups.insert gid (g.addMember S memberId leaf) } := by
  simp only [addMember, hg, Group.addMember]

theorem removeMember_lookup (hg : m.groups.lookup gid = some g) (memberId : Bytes) :
    ∃ m', m.removeMember S gid memberId = .ok m' ∧
      ∀ x, m'.groups.lookup x =
        if x = gid then some (g.removeMember S memberId) else m.groups.lookup x := by
  rcases hm : g.memberIndex.lookup memberId with _ | idx
  · refine ⟨m, by simp only [removeMember, hg, hm], fun x => ?_⟩
    simp only [Group.removeMember, hm]
    split
    · rename_i hx
      rw [hx, hg]
    · rfl
  · refine ⟨{ m with groups := m.groups.insert gid (g.removeMember S memberId) }, ?_, fun x => ?_⟩
    · simp only [removeMember, hg, hm, Group.removeMember]
    · split
      · rename_i hx
        rw [hx, AList.lookup_insert]
      · rename_i hx
        exact AList.lookup_insert_ne hx

theorem encrypt_groups (groupId senderId pt : Bytes) (nonce : BytesN 12) (now now' : UInt64) :
    (m.step S (.encrypt groupId senderId pt nonce now now')).groups = m.groups := by
  rcases hl : m.groups.lookup groupId with _ | g
  · simp only [step, encryptGroupMessage, hl]
  · simp only [step, encryptGroupMessage_eq hl]

theorem step_lookup_ne {op : Op} (hne : op.groupId ≠ gid) :
    (m.step S op).groups.lookup gid = m.groups.lookup gid := by
  cases op with
  | create gid' => exact (Table.lookup_emplace ..).trans (if_neg (Ne.symm hne))
  | add groupId memberId leaf =>
    rcases hl : m.groups.lookup groupId with _ | g
    · simp only [step, addMember, hl]
    · simp only [step, addMember_eq hl]
      exact AList.lookup_insert_ne (Ne.symm hne)
  | remove groupId memberId =>
    rcases hl : m.groups.lookup groupId with _ | g
    · simp only [step, removeMember, hl]
    · obtain ⟨m', he, hm'⟩ := removeMember_lookup (S := S) hl memberId
      simp only [step, he]
      exact (hm' gid).trans (if_neg (Ne.symm hne))
  | encrypt groupId senderId pt nonce now now' => rw [encrypt_groups]
  | decrypt groupId memberId env =>
    exact congrArg (AList.lookup gid) (decryptGroupMessage_groups groupId env)

/-- **One call**: the group of an id that is there is changed by `Group.apply`. -/
theorem step_lookup (hg : m.groups.lookup gid = some g) (op : Op) :
    (m.step S op).groups.lookup gid = some (g.apply S gid op) := by
  by_cases hx : op.groupId = gid
  · cases op with
    | create gid' =>
      obtain rfl : gid'.val = gid := hx
      show (Table.emplace m.groups gid'.val _).lookup gid'.val = some g
      rw [Table.lookup_emplace, if_pos rfl, hg]
      rfl
    | add groupId memberId leaf =>
      obtain rfl : groupId = gid := hx
      simp only [step, addMember_eq hg, AList.lookup_insert, Group.apply, if_pos]
    | remove groupId memberId =>
      obtain rfl : groupId = gid := hx
      obtain ⟨m', he, hm'⟩ := removeMember_lookup (S := S) hg memberId
      simp only [step, he, hm', Group.apply, if_pos]
    | encrypt groupId senderId pt nonce now now' =>
      rw [encrypt_groups, hg]
      rfl
    | decrypt groupId memberId env =>
      exact (congrArg (AList.lookup gid) (decryptGroupMessage_groups groupId env)).trans hg
  · rw [step_lookup_ne hx, hg]
    cases op with
    | add => exact congrArg some (if_neg hx).symm
    | remove => exact congrArg some (if_neg hx).symm
    | create => rfl
    | encrypt => rfl
    | decrypt => rfl

theorem createGroup_lookup {gid : BytesN 16} (h : gid.val ∉ m.groups) :
    (m.createGroup S gid).1.groups.lookup gid.val = some (Group.created S gid.val) := by
  show (Table.emplace m.groups gid.val _).lookup gid.val = _
  rw [Table.lookup_emplace, if_pos rfl, AList.lookup_eq_none.mpr h]
  rfl

theorem step_lookup_not_create (hg : m.groups.lookup gid = none) {op : Op}
    (hc : ∀ gid' : BytesN 16, op = .create gid' → gid'.val ≠ gid) :
    (m.step S op).groups.lookup gid = none := by
  by_cases hx : op.groupId = gid
  · cases op with
    | create gid' => exact absurd hx (hc gid' rfl)
    | add groupId memberId leaf =>
      obtain rfl : groupId = gid := hx
      simp only [step, addMember, hg]
    | remove groupId memberId =>
      obtain rfl : groupId = gid := hx
      simp only [step, removeMember, hg]
    | encrypt groupId senderId pt nonce now now' => rw [encrypt_groups, hg]
    | decrypt groupId memberId env =>
      exact (congrArg (AList.lookup gid) (decryptGroupMessage_groups groupId env)).trans hg
  · exact (step_lookup_ne hx).trans hg

theorem step_lookup_none (hg : m.groups.lookup gid = none) (op : Op) :
    (m.step S op).groups.lookup gid = none ∨
      (m.step S op).groups.lookup gid = some (Group.created S gid) := by
  by_cases hc : ∃ gid' : BytesN 16, op = .create gid' ∧ gid'.val = gid
  · obtain ⟨gid', rfl, rfl⟩ := hc
    exact .inr (createGroup_lookup (AList.lookup_eq_none.mp hg))
  · exact .inl (step_lookup_not_create hg fun gid' ho hx => hc ⟨gid', ho, hx⟩)

/-- **A run of the manager is a run of each group.** -/
theorem run_lookup (hg : m.groups.lookup gid = some g) (ops : List Op) :
    (ops.foldl (step S) m).groups.lookup gid = some (ops.foldl (Group.apply S gid) g) := by
  induction ops generalizing m g with
  | nil => exact hg
  | cons op ops ih => exact ih (step_lookup hg op)

/-! ## What holds of every group -/

/-- A group is kept under its id, and its secret is that of its leaves. -/
structure Group.Sound (S : Sodium) (gid : Bytes) (g : Group) : Prop where
  id : g.id = gid
  epochSecret : g.epochSecret = deriveEpochSecret S g

theorem Group.created_sound (gid : Bytes) : (Group.created S gid).Sound S gid := ⟨rfl, rfl⟩

theorem Group.Sound.advance (h : g.Sound S gid) (leafSecrets : List Bytes)
    (memberIndex : Table Bytes Nat) :
    (Group.advance S { g with leafSecrets, memberIndex }).Sound S gid := ⟨h.id, rfl⟩

theorem Group.Sound.apply (h : g.Sound S gid) (op : Op) : (g.apply S gid op).Sound S gid := by
  cases op with
  | add groupId memberId leaf =>
    simp only [Group.apply]
    split
    · exact h.advance _ _
    · exact h
  | remove groupId memberId =>
    simp only [Group.apply, Group.removeMember]
    split
    · split
      · exact h
      · exact h.advance _ _
    · exact h
  | create => exact h
  | encrypt => exact h
  | decrypt => exact h

theorem Group.Sound.run (h : g.Sound S gid) (ops : List Op) :
    (ops.foldl (Group.apply S gid) g).Sound S gid :=
  Run.invariant (fun _ op h => h.apply op) ops h

theorem Group.Sound.epochSecret_eq {g' : Group} (h : g.Sound S gid) (h' : g'.Sound S gid)
    (hl : g'.leafSecrets = g.leafSecrets) : g'.epochSecret = g.epochSecret := by
  rw [h.epochSecret, h'.epochSecret, deriveEpochSecret, deriveEpochSecret, hl]

def AllSound (S : Sodium) (m : MLSManager) : Prop :=
  ∀ gid g, m.groups.lookup gid = some g → g.Sound S gid

theorem AllSound.step (h : AllSound S m) (op : Op) : AllSound S (m.step S op) := by
  intro gid g hg
  rcases hl : m.groups.lookup gid with _ | g₀
  · rcases step_lookup_none (S := S) hl op with hn | hc
    · rw [hn] at hg
      cases hg
    · rw [hc] at hg
      cases hg
      exact Group.created_sound gid
  · rw [step_lookup hl] at hg
    cases hg
    exact (h gid g₀ hl).apply op

theorem AllSound.run (h : AllSound S m) (ops : List Op) :
    AllSound S (ops.foldl (MLSManager.step S) m) :=
  Run.invariant (fun _ op h => h.step op) ops h

/-- **Every reachable manager**, whatever was called on it. -/
theorem run_sound (ops : List Op) : AllSound S (ops.foldl (MLSManager.step S) {}) :=
  AllSound.run (fun _ _ hg => by cases hg) ops

/-! ## A concrete group -/

namespace Sample

def team : BytesN 16 := ⟨zeros 16, List.length_replicate⟩

def nonce : BytesN 12 := ⟨zeros 12, List.length_replicate⟩

def alice : Bytes := octets ['a']

def bob : Bytes := octets ['b']

theorem lookup_created (ops : List Op) :
    ((.create team :: ops).foldl (step Sodium.sample) {}).groups.lookup team.val =
      some (ops.foldl (Group.apply Sodium.sample team.val) (Group.created Sodium.sample team.val)) :=
  run_lookup (createGroup_lookup (AList.notMem_empty _)) ops

end Sample

end MLSManager

end SecureComm
