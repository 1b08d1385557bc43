import Mathlib.Data.List.Forall2
import Mathlib.Data.List.Perm.Basic
import SecureComm.Lib.Table

/-!
# Named slots

A vector with an index: a table that gives each name the position of its slot.
A slot is added at the end, and the name that goes by it is entered unless it
is there already; a slot is erased by its name, and every later position moves
down by one. `Holds` relates the index to the names the slots were added under,
`Stores` to the table of what each name was entered with.
-/

namespace SecureComm.Slots

open scoped List

variable {α : Type} [DecidableEq α]

/-- Where a position has gone when the one at `i` is erased. -/
def moveDown (i j : Nat) : Nat := if j > i then j - 1 else j

theorem getElem?_eraseIdx_moveDown {β : Type} {l : List β} {i j : Nat} (h : j ≠ i) :
    (l.eraseIdx i)[moveDown i j]? = l[j]? := by
  unfold moveDown
  split
  · rw [List.getElem?_eraseIdx_of_ge (by omega), Nat.sub_add_cancel (by omega)]
  · rw [List.getElem?_eraseIdx_of_lt (by omega)]

theorem moveDown_inj {i j k : Nat} (hj : j ≠ i) (hk : k ≠ i) (h : moveDown i j = moveDown i k) :
    j = k := by
  unfold moveDown at h
  split at h <;> split at h <;> omega

theorem forall₂_eraseIdx {β γ : Type} {R : β → γ → Prop} {l : List β} {l' : List γ}
    (h : List.Forall₂ R l l') (i : Nat) : List.Forall₂ R (l.eraseIdx i) (l'.eraseIdx i) := by
  induction h generalizing i with
  | nil => exact .nil
  | cons hr h ih =>
    cases i with
    | zero => exact h
    | succ i => exact .cons hr (ih i)

/-- The index after the slot of a name is erased. -/
def release (index : Table α Nat) (a : α) (i : Nat) : Table α Nat :=
  Table.mapValues (index.erase a) (moveDown i)

theorem lookup_release (index : Table α Nat) (a : α) (i : Nat) (x : α) :
    (release index a i).lookup x = if x = a then none else (index.lookup x).map (moveDown i) := by
  rw [release, Table.lookup_mapValues, Table.lookup_erase_eq]
  split <;> rfl

/-- A position after a release was another name's, and has moved down. -/
theorem lookup_release_eq_some {index : Table α Nat} {a x : α} {i j : Nat}
    (h : (release index a i).lookup x = some j) :
    x ≠ a ∧ ∃ k, index.lookup x = some k ∧ moveDown i k = j := by
  rw [lookup_release] at h
  split at h
  · cases h
  · rename_i hx
    exact ⟨hx, Option.map_eq_some_iff.mp h⟩

theorem keys_release (index : Table α Nat) (a : α) (i : Nat) :
    (release index a i).keys = index.keys.erase a := by
  rw [release, Table.keys_mapValues, AList.keys_erase]

/-- The slots were added under the names `owners`, those of `repeated` when the
name had a slot already. Each name in the index stands at its position, and the
other slots are those of the repetitions. -/
structure Holds (index : Table α Nat) (owners repeated : List α) : Prop where
  points : ∀ a i, index.lookup a = some i → owners[i]? = some a
  perm : owners.Perm (index.keys ++ repeated)

namespace Holds

variable {index : Table α Nat} {owners repeated : List α} {a : α}

theorem empty : Holds (∅ : Table α Nat) [] [] :=
  ⟨fun _ _ h => (by cases h), .nil⟩

theorem append (h : Holds index owners repeated) :
    ∀ b j, index.lookup b = some j → (owners ++ [a])[j]? = some b := fun b j hj => by
  have hb := h.points b j hj
  rw [List.getElem?_append_left (List.getElem?_eq_some_iff.mp hb).1]
  exact hb

theorem enter (h : Holds index owners repeated) (ha : a ∉ index) :
    Holds (index.emplace a owners.length) (owners ++ [a]) repeated := by
  have he : index.emplace a owners.length = index.insert a owners.length := if_neg ha
  rw [he]
  refine ⟨fun b j hj => ?_, ?_⟩
  · by_cases hb : b = a
    · subst hb
      rw [AList.lookup_insert] at hj
      cases hj
      exact List.getElem?_concat_length
    · rw [AList.lookup_insert_ne hb] at hj
      exact h.append b j hj
  · rw [AList.keys_insert, List.erase_of_not_mem ha]
    exact (List.perm_append_singleton a owners).trans (h.perm.cons a)

theorem enterAgain (h : Holds index owners repeated) (ha : a ∈ index) :
    Holds (index.emplace a owners.length) (owners ++ [a]) (a :: repeated) := by
  have he : index.emplace a owners.length = index := if_pos ha
  rw [he]
  refine ⟨h.append, ?_⟩
  calc owners ++ [a]
    _ ~ a :: owners := List.perm_append_singleton a owners
    _ ~ a :: (index.keys ++ repeated) := h.perm.cons a
    _ ~ index.keys ++ a :: repeated := List.perm_middle.symm

theorem lt_length (h : Holds index owners repeated) {i : Nat} (hi : index.lookup a = some i) :
    i < owners.length := (List.getElem?_eq_some_iff.mp (h.points a i hi)).1

theorem position_inj (h : Holds index owners repeated) {b : α} {i : Nat}
    (ha : index.lookup a = some i) (hb : index.lookup b = some i) : a = b :=
  Option.some.inj ((h.points a i ha).symm.trans (h.points b i hb))

theorem release (h : Holds index owners repeated) {i : Nat} (hi : index.lookup a = some i) :
    Holds (Slots.release index a i) (owners.eraseIdx i) repeated := by
  have hlt := h.lt_length hi
  have hai : owners[i] = a := (List.getElem?_eq_some_iff.mp (h.points a i hi)).2
  refine ⟨fun b j hj => ?_, ?_⟩
  · obtain ⟨hb, k, hk, rfl⟩ := lookup_release_eq_some hj
    have hki : k ≠ i := fun he => hb (h.position_inj (he ▸ hk) hi)
    rw [getElem?_eraseIdx_moveDown hki]
    exact h.points b k hk
  · have hkeys : index.keys.Perm (a :: index.keys.erase a) :=
      List.perm_cons_erase (AList.mem_keys.mp (AList.lookup_isSome.mp (by rw [hi]; rfl)))
    rw [keys_release]
    refine (List.perm_cons a).mp ?_
    calc a :: owners.eraseIdx i
      _ ~ owners := hai ▸ List.getElem_cons_eraseIdx_perm hlt
      _ ~ index.keys ++ repeated := h.perm
      _ ~ a :: (index.keys.erase a ++ repeated) := hkeys.append_right repeated

theorem length_eq (h : Holds index owners repeated) :
    owners.length = index.keys.length + repeated.length := by
  rw [h.perm.length_eq, List.length_append]

theorem mem_owners (h : Holds index owners repeated) : a ∈ owners ↔ a ∈ index ∨ a ∈ repeated := by
  rw [h.perm.mem_iff, List.mem_append, AList.mem_keys]

end Holds

/-! ## What the slots store -/

/-- The index finds, for every name, what the name was entered with, and has no
two names at one position. -/
structure Stores {β : Type} (index : Table α Nat) (slots : List β) (entries : Table α β) :
    Prop where
  none : ∀ a, index.lookup a = none → entries.lookup a = none
  slot : ∀ a i, index.lookup a = some i → ∃ b, slots[i]? = some b ∧ entries.lookup a = some b
  inj : ∀ a b i, index.lookup a = some i → index.lookup b = some i → a = b

namespace Stores

variable {β : Type} {index : Table α Nat} {slots : List β} {entries : Table α β} {a : α}

theorem empty : Stores (∅ : Table α Nat) ([] : List β) ∅ :=
  ⟨fun _ _ => rfl, fun _ _ h => (by cases h), fun _ _ _ h => (by cases h)⟩

theorem lt_length (h : Stores index slots entries) {i : Nat} (hi : index.lookup a = some i) :
    i < slots.length := by
  obtain ⟨b, hb, -⟩ := h.slot a i hi
  exact (List.getElem?_eq_some_iff.mp hb).1

theorem getElem?_eq (h : Stores index slots entries) {i : Nat} (hi : index.lookup a = some i) :
    slots[i]? = entries.lookup a := by
  obtain ⟨b, hb, he⟩ := h.slot a i hi
  rw [hb, he]

theorem lookup_eq (h : Stores index slots entries) (a : α) :
    entries.lookup a = (index.lookup a).bind fun i => slots[i]? := by
  rcases hi : index.lookup a with _ | i
  · exact h.none a hi
  · exact (h.getElem?_eq hi).symm

theorem mem_iff (h : Stores index slots entries) (a : α) : a ∈ entries ↔ a ∈ index := by
  rw [← AList.lookup_isSome, ← AList.lookup_isSome]
  rcases hi : index.lookup a with _ | i
  · rw [h.none a hi]
    exact Iff.rfl
  · obtain ⟨b, -, he⟩ := h.slot a i hi
    rw [he]
    exact Iff.rfl

theorem emplace (h : Stores index slots entries) (a : α) (b : β) :
    Stores (index.emplace a slots.length) (slots ++ [b]) (entries.emplace a b) := by
  refine ⟨fun x hx => ?_, fun x i hi => ?_, fun x y i hx hy => ?_⟩
  · rw [Table.lookup_emplace] at hx ⊢
    split at hx
    · cases hx
    · rename_i hne
      rw [if_neg hne]
      exact h.none x hx
  · obtain hold | ⟨rfl, hnone, rfl⟩ := Table.lookup_emplace_eq_some hi
    · obtain ⟨c, hc, he⟩ := h.slot x i hold
      refine ⟨c, ?_, ?_⟩
      · rw [List.getElem?_append_left (h.lt_length hold), hc]
      · rw [Table.lookup_emplace]
        split
        · rename_i hx
          rw [← hx, he]
          rfl
        · exact he
    · refine ⟨b, List.getElem?_concat_length, ?_⟩
      rw [Table.lookup_emplace, if_pos rfl, h.none x hnone]
      rfl
  · -- the new position is behind all others
    obtain hox | ⟨rfl, -, rfl⟩ := Table.lookup_emplace_eq_some hx
    · obtain hoy | ⟨-, -, rfl⟩ := Table.lookup_emplace_eq_some hy
      · exact h.inj x y i hox hoy
      · exact absurd (h.lt_length hox) (Nat.lt_irrefl _)
    · obtain hoy | ⟨rfl, -, -⟩ := Table.lookup_emplace_eq_some hy
      · exact absurd (h.lt_length hoy) (Nat.lt_irrefl _)
      · rfl

theorem release (h : Stores index slots entries) {i : Nat} (hi : index.lookup a = some i) :
    Stores (Slots.release index a i) (slots.eraseIdx i) (entries.erase a) := by
  have hne : ∀ {x k}, x ≠ a → index.lookup x = some k → k ≠ i := fun hx hk he =>
    hx (h.inj _ a i (he ▸ hk) hi)
  refine ⟨fun x hx => ?_, fun x j hj => ?_, fun x y j hx hy => ?_⟩
  · rw [lookup_release] at hx
    rw [Table.lookup_erase_eq]
    split
    · rfl
    · rename_i hxa
      rw [if_neg hxa] at hx
      exact h.none x (Option.map_eq_none_iff.mp hx)
  · obtain ⟨hxa, k, hk, rfl⟩ := lookup_release_eq_some hj
    rw [getElem?_eraseIdx_moveDown (hne hxa hk), AList.lookup_erase_ne hxa]
    exact h.slot x k hk
  · obtain ⟨hxa, k, hk, rfl⟩ := lookup_release_eq_some hx
    obtain ⟨hya, l, hl, he⟩ := lookup_release_eq_some hy
    exact h.inj x y k hk (moveDown_inj (hne hya hl) (hne hxa hk) he ▸ hl)

end Stores

end SecureComm.Slots
