import SecureComm.Lib.Slots
import SecureComm.Mls.Groups

/-!
# The leaf of a member

What a group is for: a table from the members to the leaf each was entered with
(`entered`), where adding a member again changes nothing and a removal takes one
entry away. The group keeps the leaves in a vector and moves the positions of the
later members down with every removal; in every run it stores the table
(`run_stores`), so a removal erases the leaf of its member and no other
(`leaves_kept`). The leaves are arguments of the calls: what holds whatever they
are tells any two of them apart.
-/

namespace SecureComm

namespace MLSManager

variable {S : Sodium} {m : MLSManager} {gid : Bytes} {g : Group} {t : Table Bytes Bytes}

/-- The members of the group and the leaf each was entered with; `none` until the
group is created. -/
def entered (gid : Bytes) (t : Option (Table Bytes Bytes)) : Op → Option (Table Bytes Bytes)
  | .create gid' => if gid'.val = gid then some (t.getD ∅) else t
  | .add groupId memberId leaf => if groupId = gid then t.map (·.emplace memberId leaf.val) else t
  | .remove groupId memberId => if groupId = gid then t.map (·.erase memberId) else t
  | .encrypt .. | .decrypt .. => t

def Group.Stores (g : Group) (t : Table Bytes Bytes) : Prop :=
  Slots.Stores g.memberIndex g.leafSecrets t

theorem Group.created_stores (S : Sodium) (gid : Bytes) : (Group.created S gid).Stores ∅ :=
  Slots.Stores.empty

theorem Group.Stores.addMember (h : g.Stores t) (memberId : Bytes) (leaf : BytesN 32) :
    (g.addMember S memberId leaf).Stores (t.emplace memberId leaf.val) :=
  Slots.Stores.emplace h memberId leaf.val

theorem Group.Stores.removeMember (h : g.Stores t) (memberId : Bytes) :
    (g.removeMember S memberId).Stores (t.erase memberId) := by
  unfold Group.removeMember
  split
  · rename_i hm
    refine ⟨fun x hx => ?_, fun x i hi => ?_, h.inj⟩
    · rw [Table.lookup_erase_eq]
      split
      · rfl
      · exact h.none x hx
    · have hne : x ≠ memberId := by
        rintro rfl
        rw [hm] at hi
        cases hi
      rw [AList.lookup_erase_ne hne]
      exact h.slot x i hi
  · rename_i idx hm
    exact Slots.Stores.release h hm

/-- **One call**, on a group that is there. -/
theorem Group.Stores.step (h : g.Stores t) (hg : m.groups.lookup gid = some g) (op : Op) :
    Option.Rel Group.Stores ((m.step S op).groups.lookup gid) (entered gid (some t) op) := by
  rw [step_lookup hg op]
  cases op with
  | create gid' =>
    have he : entered gid (some t) (.create gid') = some t := ite_self _
    rw [he]
    exact .some h
  | add groupId memberId leaf =>
    simp only [Group.apply, entered]
    split
    · exact .some (h.addMember memberId leaf)
    · exact .some h
  | remove groupId memberId =>
    simp only [Group.apply, entered]
    split
    · exact .some (h.removeMember memberId)
    · exact .some h
  | encrypt => exact .some h
  | decrypt => exact .some h

theorem step_stores_none (hg : m.groups.lookup gid = none) (op : Op) :
    Option.Rel Group.Stores ((m.step S op).groups.lookup gid) (entered gid none op) := by
  by_cases hc : ∃ gid' : BytesN 16, op = .create gid' ∧ gid'.val = gid
  · obtain ⟨gid', rfl, rfl⟩ := hc
    have he : entered gid'.val none (.create gid') = some ∅ := if_pos rfl
    have hl : (m.step S (.create gid')).groups.lookup gid'.val = some (Group.created S gid'.val) :=
      createGroup_lookup (AList.lookup_eq_none.mp hg)
    rw [he, hl]
    exact .some (Group.created_stores S gid'.val)
  · have he : entered gid none op = none := by
      cases op with
      | create gid' => exact if_neg fun hx => hc ⟨gid', rfl, hx⟩
      | add => exact ite_self _
      | remove => exact ite_self _
      | encrypt => rfl
      | decrypt => rfl
    rw [he, step_lookup_not_create hg fun gid' ho hx => hc ⟨gid', ho, hx⟩]
    exact .none

/-- **One call** on a manager whose group stores the table. -/
theorem step_stores {t : Option (Table Bytes Bytes)}
    (h : Option.Rel Group.Stores (m.groups.lookup gid) t) (op : Op) :
    Option.Rel Group.Stores ((m.step S op).groups.lookup gid) (entered gid t op) := by
  rcases hg : m.groups.lookup gid with _ | g
  · rw [hg] at h
    cases h
    exact step_stores_none hg op
  · rw [hg] at h
    cases h with
    | some h => exact h.step hg op

/-- **Every run**: a group stores the table of what its members were entered with. -/
theorem run_stores {t : Option (Table Bytes Bytes)}
    (h : Option.Rel Group.Stores (m.groups.lookup gid) t) (ops : List Op) :
    Option.Rel Group.Stores ((ops.foldl (step S) m).groups.lookup gid)
      (ops.foldl (entered gid) t) := by
  induction ops generalizing m t with
  | nil => exact h
  | cons op ops ih => exact ih (step_stores h op)

/-! ## Bookkeeping -/

def Group.leafOf (g : Group) (memberId : Bytes) : Option Bytes :=
  (g.memberIndex.lookup memberId).bind fun i => g.leafSecrets[i]?

/-- The members are those that were entered, the positions are in range and distinct, and
each points at the leaf its member was entered with. -/
structure Group.Bookkept (g : Group) (t : Table Bytes Bytes) : Prop where
  members : ∀ x, x ∈ g.memberIndex ↔ x ∈ t
  inRange : ∀ x i, g.memberIndex.lookup x = some i → i < g.leafSecrets.length
  distinct : ∀ x y i, g.memberIndex.lookup x = some i → g.memberIndex.lookup y = some i → x = y
  leaf : ∀ x i, g.memberIndex.lookup x = some i → g.leafSecrets[i]? = t.lookup x

/-- What a removal makes of a group: the leaf of the member is erased, if it is one,
and every other member has its leaf. -/
structure Group.Erased (memberId : Bytes) (g g' : Group) : Prop where
  gone : memberId ∉ g'.memberIndex
  erased : ∀ i, g.memberIndex.lookup memberId = some i →
    g'.leafSecrets = g.leafSecrets.eraseIdx i
  kept : memberId ∉ g.memberIndex → g'.leafSecrets = g.leafSecrets
  others : ∀ x, x ≠ memberId → (x ∈ g'.memberIndex ↔ x ∈ g.memberIndex) ∧ g'.leafOf x = g.leafOf x

theorem Group.Stores.bookkept (h : g.Stores t) : g.Bookkept t :=
  ⟨fun x => (h.mem_iff x).symm, fun _ _ hi => h.lt_length hi, h.inj, fun _ _ hi => h.getElem?_eq hi⟩

theorem Group.Stores.leafOf_eq (h : g.Stores t) (x : Bytes) : g.leafOf x = t.lookup x :=
  (h.lookup_eq x).symm

theorem Group.Stores.erased (h : g.Stores t) (memberId : Bytes) :
    Group.Erased memberId g (g.removeMember S memberId) := by
  have h' := h.removeMember (S := S) memberId
  refine ⟨fun hm => ?_, fun i hi => ?_, fun hm => ?_, fun x hx => ⟨?_, ?_⟩⟩
  · rw [← h'.mem_iff, AList.mem_erase] at hm
    exact hm.1 rfl
  · simp only [Group.removeMember, hi]
    rfl
  · simp only [Group.removeMember, AList.lookup_eq_none.mpr hm]
  · rw [← h'.mem_iff, ← h.mem_iff, AList.mem_erase]
    exact and_iff_right hx
  · rw [h'.leafOf_eq, h.leafOf_eq, AList.lookup_erase_ne hx]

/-- The bookkeeping of every group after the calls, and what removing any member
from it would do. -/
def LeavesKept (S : Sodium) (ops : List Op) : Prop :=
  ∀ gid g, (ops.foldl (step S) {}).groups.lookup gid = some g →
    (∃ t, ops.foldl (entered gid) none = some t ∧ g.Bookkept t) ∧
    ∀ memberId, ∃ g',
      ((ops ++ [Op.remove gid memberId]).foldl (step S) {}).groups.lookup gid = some g' ∧
        Group.Erased memberId g g'

/-- **Leaf bookkeeping** survives every sequence of calls. -/
theorem leaves_kept (S : Sodium) (ops : List Op) : LeavesKept S ops := by
  intro gid g hg
  have hrun : Option.Rel Group.Stores ((ops.foldl (step S) {}).groups.lookup gid)
      (ops.foldl (entered gid) none) := run_stores .none ops
  rw [hg] at hrun
  rcases ht : ops.foldl (entered gid) none with _ | t
  · rw [ht] at hrun
    cases hrun
  · rw [ht] at hrun
    cases hrun with
    | some h =>
      refine ⟨⟨t, rfl, h.bookkept⟩, fun memberId => ?_⟩
      refine ⟨g.removeMember S memberId, ?_, h.erased memberId⟩
      rw [List.foldl_concat, step_lookup hg]
      simp only [Group.apply, if_pos]

open Sample in
/-- Alice is removed from before Bob, whose index moves down to his leaf. -/
theorem leaves_kept_sample :
    let ops : List Op := [.create team, .add team.val alice (Sodium.Sample.block 1),
      .add team.val bob (Sodium.Sample.block 2), .remove team.val alice]
    ∃ g t, (ops.foldl (step Sodium.sample) {}).groups.lookup team.val = some g ∧
      ops.foldl (entered team.val) none = some t ∧ g.Bookkept t ∧
      g.leafOf alice = none ∧ g.leafOf bob = some (Sodium.Sample.block 2).val := by
  intro ops
  have hg := lookup_created [.add team.val alice (Sodium.Sample.block 1),
    .add team.val bob (Sodium.Sample.block 2), .remove team.val alice]
  obtain ⟨⟨t, ht, hbook⟩, -⟩ := leaves_kept Sodium.sample ops team.val _ hg
  exact ⟨_, t, hg, ht, hbook, by decide +kernel, by decide +kernel⟩

end MLSManager

end SecureComm
