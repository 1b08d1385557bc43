import SecureComm.Lib.Slots
import SecureComm.Mls.Groups

/-!
# Members and leaves

`Roster` follows a group with the id that each leaf was generated for, and with
the ids that were added while they were members. The member index of the group
and the roster are named slots, so the leaves of the group are those of its
members and, for good, one for each repetition: removing a member purges its
leaves if and only if it was never added twice (`purged_iff_fresh`).
-/

namespace SecureComm

namespace MLSManager

variable (S : Sodium) (gid : Bytes)

structure Roster where
  group : Group
  /-- Whom each leaf was generated for, and the leaf. -/
  leaves : List (Bytes × BytesN 32) := []
  /-- The ids that were added while they were members. -/
  repeated : List Bytes := []

namespace Roster

def owners (t : Roster) : List Bytes := t.leaves.map Prod.fst

def step (t : Roster) (op : Op) : Roster :=
  let group := t.group.apply S gid op
  match op with
  | .add groupId memberId leaf =>
    if groupId = gid then {
      group
      leaves := t.leaves ++ [(memberId, leaf)]
      repeated := if memberId ∈ t.group.memberIndex then memberId :: t.repeated else t.repeated }
    else t
  | .remove groupId memberId =>
    if groupId = gid then
      match t.group.memberIndex.lookup memberId with
      | some idx => { t with group, leaves := t.leaves.eraseIdx idx }
      | none => t
    else t
  | _ => t

variable {S gid} {t : Roster}

theorem step_group (t : Roster) (op : Op) : (t.step S gid op).group = t.group.apply S gid op := by
  cases op with
  | add groupId memberId leaf =>
    by_cases hx : groupId = gid
    · simp only [step, if_pos hx]
    · simp only [step, if_neg hx, Group.apply]
  | remove groupId memberId =>
    by_cases hx : groupId = gid
    · rcases hm : t.group.memberIndex.lookup memberId with _ | idx
      · simp only [step, if_pos hx, hm, Group.apply, Group.removeMember]
      · simp only [step, if_pos hx, hm]
    · simp only [step, if_neg hx, Group.apply]
  | create => rfl
  | encrypt => rfl
  | decrypt => rfl

theorem run_group (t : Roster) (ops : List Op) :
    (ops.foldl (step S gid) t).group = ops.foldl (Group.apply S gid) t.group := by
  induction ops generalizing t with
  | nil => rfl
  | cons op ops ih => rw [List.foldl_cons, ih, step_group]; rfl

/-- The leaves of the roster are those of the group, and the member index names them. -/
structure Inv (t : Roster) : Prop where
  secrets : t.group.leafSecrets = t.leaves.map fun p => p.2.val
  slots : Slots.Holds t.group.memberIndex t.owners t.repeated

theorem Inv.length (h : t.Inv) : t.group.leafSecrets.length = t.owners.length := by
  rw [h.secrets, owners, List.length_map, List.length_map]

def created (S : Sodium) (gid : Bytes) : Roster := { group := Group.created S gid }

theorem created_inv : (created S gid).Inv := ⟨rfl, Slots.Holds.empty⟩

theorem Inv.step (h : t.Inv) (op : Op) : (t.step S gid op).Inv := by
  cases op with
  | add groupId memberId leaf =>
    by_cases hx : groupId = gid
    · simp only [Roster.step, if_pos hx, Group.apply]
      have hlen := h.length
      refine ⟨?_, ?_⟩
      · show t.group.leafSecrets ++ [leaf.val] = _
        rw [h.secrets, List.map_append]
        rfl
      · show Slots.Holds (Table.emplace t.group.memberIndex memberId t.group.leafSecrets.length)
          ((t.leaves ++ [(memberId, leaf)]).map Prod.fst) _
        rw [hlen, List.map_append]
        split
        · rename_i hm
          exact h.slots.enterAgain hm
        · rename_i hm
          exact h.slots.enter hm
    · simpa only [Roster.step, if_neg hx] using h
  | remove groupId memberId =>
    by_cases hx : groupId = gid
    · rcases hm : t.group.memberIndex.lookup memberId with _ | idx
      · simpa only [Roster.step, if_pos hx, hm] using h
      · simp only [Roster.step, if_pos hx, hm, Group.apply, Group.removeMember]
        refine ⟨?_, ?_⟩
        · show t.group.leafSecrets.eraseIdx idx = _
          rw [h.secrets, List.eraseIdx_map]
        · show Slots.Holds (Slots.release t.group.memberIndex memberId idx)
            ((t.leaves.eraseIdx idx).map Prod.fst) _
          rw [← List.eraseIdx_map]
          exact h.slots.release hm
    · simpa only [Roster.step, if_neg hx] using h
  | create => exact h
  | encrypt => exact h
  | decrypt => exact h

theorem run_inv (S : Sodium) (gid : Bytes) (ops : List Op) :
    (ops.foldl (Roster.step S gid) (created S gid)).Inv :=
  Run.invariant (fun _ op h => h.step op) ops created_inv

/-! ## Repetitions -/

theorem step_repeated_nil (t : Roster) (op : Op) :
    (t.step S gid op).repeated = [] ↔ t.repeated = [] ∧
      ∀ memberId leaf, op = .add gid memberId leaf → memberId ∉ t.group.memberIndex := by
  cases op with
  | add groupId memberId leaf =>
    by_cases hx : groupId = gid
    · subst hx
      simp only [step, if_pos]
      split
      · rename_i hm
        constructor
        · exact fun h => by cases h
        · exact fun h => absurd hm (h.2 memberId leaf rfl)
      · rename_i hm
        refine ⟨fun h => ⟨h, fun memberId' leaf' he => ?_⟩, And.left⟩
        cases he
        exact hm
    · simp only [step, if_neg hx]
      exact ⟨fun h => ⟨h, fun _ _ he => by cases he; exact absurd rfl hx⟩, And.left⟩
  | remove groupId memberId =>
    have hsame : (t.step S gid (.remove groupId memberId)).repeated = t.repeated := by
      simp only [step]
      split
      · split <;> rfl
      · rfl
    rw [hsame]
    exact ⟨fun h => ⟨h, fun _ _ he => by cases he⟩, And.left⟩
  | create => exact ⟨fun h => ⟨h, fun _ _ he => by cases he⟩, And.left⟩
  | encrypt => exact ⟨fun h => ⟨h, fun _ _ he => by cases he⟩, And.left⟩
  | decrypt => exact ⟨fun h => ⟨h, fun _ _ he => by cases he⟩, And.left⟩

theorem step_remove (S : Sodium) (gid : Bytes) (t : Roster) (memberId : Bytes) :
    (t.step S gid (.remove gid memberId)).repeated = t.repeated ∧
      memberId ∉ (t.step S gid (.remove gid memberId)).group.memberIndex := by
  rcases hm : t.group.memberIndex.lookup memberId with _ | idx
  · simp only [step, if_pos, hm]
    exact ⟨trivial, AList.lookup_eq_none.mp hm⟩
  · simp only [step, if_pos, hm, Group.apply, Group.removeMember]
    refine ⟨trivial, AList.lookup_eq_none.mp ?_⟩
    show (Slots.release t.group.memberIndex memberId idx).lookup memberId = none
    rw [Slots.lookup_release, if_pos rfl]

end Roster

/-! ## Secrets of a member -/

variable {S gid} {m : MLSManager}

/-- The two calls are one, but for the leaf that is generated for the member. -/
def OtherLeaf (gid memberId : Bytes) (op op' : Op) : Prop :=
  op = op' ∨ ∃ leaf leaf', op = .add gid memberId leaf ∧ op' = .add gid memberId leaf'

namespace Roster

/-- Two rosters that differ at most in the leaves of the member. -/
structure Alike (memberId : Bytes) (t t' : Roster) : Prop where
  index : t.group.memberIndex = t'.group.memberIndex
  leaves : List.Forall₂ (fun p q => p.1 = q.1 ∧ (p.1 ≠ memberId → p.2 = q.2)) t.leaves t'.leaves

variable {memberId : Bytes} {t t' : Roster}

theorem Alike.add (h : Alike memberId t t') (ht : t.Inv) (ht' : t'.Inv) (x : Bytes)
    {leaf leaf' : BytesN 32} (hl : x ≠ memberId → leaf = leaf') :
    Alike memberId (t.step S gid (.add gid x leaf)) (t'.step S gid (.add gid x leaf')) := by
  simp only [step, if_pos]
  have hlen : t.group.leafSecrets.length = t'.group.leafSecrets.length := by
    rw [ht.secrets, ht'.secrets, List.length_map, List.length_map, h.leaves.length_eq]
  refine ⟨?_, List.rel_append h.leaves (.cons ⟨rfl, hl⟩ .nil)⟩
  simp only [Group.apply, if_pos]
  show Table.emplace t.group.memberIndex x _ = Table.emplace t'.group.memberIndex x _
  rw [h.index, hlen]

theorem Alike.remove (h : Alike memberId t t') (x : Bytes) :
    Alike memberId (t.step S gid (.remove gid x)) (t'.step S gid (.remove gid x)) := by
  have hindex := h.index
  rcases hm : t'.group.memberIndex.lookup x with _ | idx
  · have hm' : t.group.memberIndex.lookup x = none := by rw [hindex, hm]
    simpa only [step, if_pos, hm, hm'] using h
  · have hm' : t.group.memberIndex.lookup x = some idx := by rw [hindex, hm]
    simp only [step, if_pos, hm, hm', Group.apply, Group.removeMember]
    refine ⟨?_, Slots.forall₂_eraseIdx h.leaves idx⟩
    show Slots.release t.group.memberIndex x idx = Slots.release t'.group.memberIndex x idx
    rw [hindex]

theorem Alike.step (h : Alike memberId t t') (ht : t.Inv) (ht' : t'.Inv) {op op' : Op}
    (ho : OtherLeaf gid memberId op op') : Alike memberId (t.step S gid op) (t'.step S gid op') := by
  obtain rfl | ⟨leaf, leaf', rfl, rfl⟩ := ho
  · cases op with
    | add groupId x leaf =>
      by_cases hx : groupId = gid
      · subst hx
        exact h.add ht ht' x fun _ => rfl
      · simpa only [Roster.step, if_neg hx] using h
    | remove groupId x =>
      by_cases hx : groupId = gid
      · subst hx
        exact h.remove x
      · simpa only [Roster.step, if_neg hx] using h
    | create => exact h
    | encrypt => exact h
    | decrypt => exact h
  · exact h.add ht ht' memberId fun hne => absurd rfl hne

theorem Alike.run (h : Alike memberId t t') (ht : t.Inv) (ht' : t'.Inv) {ops ops' : List Op}
    (ho : List.Forall₂ (OtherLeaf gid memberId) ops ops') :
    Alike memberId (ops.foldl (Roster.step S gid) t) (ops'.foldl (Roster.step S gid) t') := by
  induction ho generalizing t t' with
  | nil => exact h
  | cons ho _ ih => exact ih (h.step ht ht' ho) (ht.step _) (ht'.step _)

theorem Alike.leaves_eq (h : Alike memberId t t') (hno : ∀ p ∈ t.leaves, p.1 ≠ memberId) :
    t.leaves = t'.leaves := by
  obtain ⟨-, hl⟩ := h
  revert hno hl
  generalize t.leaves = l
  generalize t'.leaves = l'
  intro hno hl
  induction hl with
  | nil => rfl
  | @cons p q l l' hpq _ ih =>
    rw [Prod.ext hpq.1 (hpq.2 (hno p List.mem_cons_self)),
      ih fun x hx => hno x (List.mem_cons_of_mem p hx)]

end Roster

/-! ## Removal -/

/-- The call does not add an id to the group that is a member already. -/
def FreshAdd (gid : Bytes) (m : MLSManager) (op : Op) : Prop :=
  ∀ memberId leaf, op = .add gid memberId leaf →
    ∀ g, m.groups.lookup gid = some g → memberId ∉ g.memberIndex

/-- **Purged**: after the calls and the removal of the member, no leaf of the group
was generated for the member, there are as many leaves as members, and the epoch
secret is the same whatever leaves were generated for the member. -/
def Purged (S : Sodium) (gid : Bytes) (m : MLSManager) (ops : List Op) (memberId : Bytes) : Prop :=
  let calls := ops ++ [Op.remove gid memberId]
  let t := calls.foldl (Roster.step S gid) (Roster.created S gid)
  ∃ g, (calls.foldl (step S) m).groups.lookup gid = some g ∧
    (g.leafSecrets = t.leaves.map (fun p => p.2.val) ∧ ∀ p ∈ t.leaves, p.1 ≠ memberId) ∧
    g.leafSecrets.length = g.memberIndex.keys.length ∧
    ∀ ops' g', List.Forall₂ (OtherLeaf gid memberId) ops ops' →
      ((ops' ++ [Op.remove gid memberId]).foldl (step S) m).groups.lookup gid = some g' →
      g'.epochSecret = g.epochSecret

/-- Nothing was repeated in a run whose every addition is of an id that is not a member. -/
theorem repeated_nil_iff {t : Roster} (hg : m.groups.lookup gid = some t.group) (ops : List Op) :
    (ops.foldl (Roster.step S gid) t).repeated = [] ↔
      t.repeated = [] ∧ Run.Along (step S) (FreshAdd gid) m ops := by
  induction ops generalizing m t with
  | nil => exact (and_iff_left trivial).symm
  | cons op ops ih =>
    have hg' := step_lookup (S := S) hg op
    rw [← Roster.step_group] at hg'
    have hfresh : (∀ memberId leaf, op = .add gid memberId leaf → memberId ∉ t.group.memberIndex) ↔
        FreshAdd gid m op :=
      ⟨fun h x leaf he g hx => Option.some.inj (hg.symm.trans hx) ▸ h x leaf he,
        fun h x leaf he => h x leaf he t.group hg⟩
    rw [List.foldl_cons, ih hg', Roster.step_repeated_nil, hfresh]
    exact and_assoc

/-- Where no id was added twice, removing a member leaves nothing of it. -/
theorem purged_of_no_repetition {ops : List Op}
    (hg : m.groups.lookup gid = some (Group.created S gid))
    (hr : (ops.foldl (Roster.step S gid) (Roster.created S gid)).repeated = []) (memberId : Bytes) :
    Purged S gid m ops memberId := by
  let run (ops : List Op) : Roster :=
    (ops ++ [Op.remove gid memberId]).foldl (Roster.step S gid) (Roster.created S gid)
  have hinv : ∀ ops, (run ops).Inv := fun ops => Roster.run_inv S gid _
  have hlookup : ∀ ops, ((ops ++ [Op.remove gid memberId]).foldl (step S) m).groups.lookup gid =
      some (run ops).group := fun ops => by
    rw [run_lookup hg, Roster.run_group]
    rfl
  have hsound : ∀ ops, (run ops).group.Sound S gid := fun ops => by
    rw [Roster.run_group]
    exact (Group.created_sound gid).run _
  have hlast : (run ops).repeated = [] ∧ memberId ∉ (run ops).group.memberIndex := by
    have h := Roster.step_remove S gid
      (ops.foldl (Roster.step S gid) (Roster.created S gid)) memberId
    rw [hr] at h
    simpa only [run, List.foldl_append, List.foldl_cons, List.foldl_nil] using h
  have hno : ∀ p ∈ (run ops).leaves, p.1 ≠ memberId := fun p hp he => by
    have hown : memberId ∈ (run ops).owners := List.mem_map.mpr ⟨p, hp, he⟩
    rcases (hinv ops).slots.mem_owners.mp hown with hm | hm
    · exact hlast.2 hm
    · rw [hlast.1] at hm
      cases hm
  refine ⟨(run ops).group, hlookup ops, ⟨(hinv ops).secrets, hno⟩, ?_, fun ops' g' ho hg' => ?_⟩
  · rw [(hinv ops).length, (hinv ops).slots.length_eq, hlast.1]
    rfl
  · obtain rfl := Option.some.inj (hg'.symm.trans (hlookup ops'))
    have halike : Roster.Alike memberId (run ops) (run ops') :=
      Roster.Alike.run ⟨rfl, .nil⟩ Roster.created_inv Roster.created_inv
        (List.rel_append ho (.cons (.inl rfl) .nil))
    refine (hsound ops).epochSecret_eq (hsound ops') ?_
    rw [(hinv ops).secrets, (hinv ops').secrets, halike.leaves_eq hno]

/-- **Removal purges** every member's secrets if and only if no id was added while
it was a member. -/
theorem purged_iff_fresh {m₀ : MLSManager} {gid : BytesN 16} (hnew : gid.val ∉ m₀.groups)
    (ops : List Op) :
    (∀ memberId, Purged S gid.val (m₀.createGroup S gid).1 ops memberId) ↔
      Run.Along (step S) (FreshAdd gid.val) (m₀.createGroup S gid).1 ops := by
  have hcreated := createGroup_lookup (S := S) hnew
  generalize (m₀.createGroup S gid).1 = m at hcreated ⊢
  generalize gid.val = gid at hcreated ⊢
  have hnil : (ops.foldl (Roster.step S gid) (Roster.created S gid)).repeated = [] ↔
      Run.Along (step S) (FreshAdd gid) m ops :=
    (repeated_nil_iff hcreated ops).trans (and_iff_right rfl)
  rw [← hnil]
  constructor
  · intro h
    by_contra hne
    obtain ⟨x, hx⟩ := List.exists_mem_of_ne_nil _ hne
    obtain ⟨g, -, ⟨-, hno⟩, -⟩ := h x
    have hinv := Roster.run_inv S gid (ops ++ [Op.remove gid x])
    rw [List.foldl_append, List.foldl_cons, List.foldl_nil] at hinv hno
    have hown := hinv.slots.mem_owners.mpr (.inr ((Roster.step_remove S gid _ x).1.symm ▸ hx))
    obtain ⟨p, hp, hpx⟩ := List.mem_map.mp hown
    exact hno p hp hpx
  · intro hr memberId
    exact purged_of_no_repetition hcreated hr memberId

namespace Sample

/-- Alice is added twice. -/
def added : List Op :=
  [.add team.val alice (Sodium.Sample.block 1), .add team.val alice (Sodium.Sample.block 2)]

end Sample

open Sample in
theorem purged_iff_fresh_sample :
    (∀ memberId, Purged Sodium.sample team.val
      (({} : MLSManager).createGroup Sodium.sample team).1 added memberId) ↔
      Run.Along (step Sodium.sample) (FreshAdd team.val)
        (({} : MLSManager).createGroup Sodium.sample team).1 added :=
  purged_iff_fresh (AList.notMem_empty _) added

open Sample in
/-- Alice was added twice and removed: she is no member, and a leaf of hers stays. -/
theorem leaf_left_behind :
    ¬ Purged Sodium.sample team.val (({} : MLSManager).createGroup Sodium.sample team).1 added
      alice := by
  rintro ⟨g, -, ⟨-, hno⟩, -⟩
  exact absurd rfl (hno (alice, Sodium.Sample.block 2) (by decide +kernel))

end MLSManager

end SecureComm
