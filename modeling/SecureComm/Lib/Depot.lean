import Mathlib.Data.List.Nodup
import Mathlib.Data.Set.Insert

/-!
# Depots

A clerk takes in a token that was not issued before, and what it does with it
comes last: it puts the token out, lays it on a shelf, or drops it. A shelf is
cleared at once; as many tokens as fit go out, the others are gone. Whatever
the clerks do, a token is in one place at most (`Once.step`), and a step loses
the tokens it drops and those that do not fit, and no others
(`Once.present_drop`, `Once.present_clear`).
-/

namespace SecureComm

open Function

/-- Clerks `κ` with the tokens they hold, shelves `ι`, and what was put out. -/
structure Depot (κ τ ι : Type*) where
  held : κ → Option τ
  shelf : ι → List τ
  out : List τ
  issued : Set τ

namespace Depot

variable {κ τ ι : Type*}

/-- The token is somewhere. -/
def Present (d : Depot κ τ ι) (t : τ) : Prop :=
  (∃ k, d.held k = some t) ∨ t ∈ d.out ∨ ∃ i, t ∈ d.shelf i

/-- **A token is in one place at most**, and issued. -/
structure Once (d : Depot κ τ ι) : Prop where
  issued : ∀ t, d.Present t → t ∈ d.issued
  held : ∀ k k' t, d.held k = some t → d.held k' = some t → k = k'
  away : ∀ k t, d.held k = some t → t ∉ d.out ∧ ∀ i, t ∉ d.shelf i
  shelf : ∀ i j t, t ∈ d.shelf i → t ∈ d.shelf j → i = j
  nodup : ∀ i, (d.out ++ d.shelf i).Nodup

section Clerks

variable [DecidableEq κ]

def take (d : Depot κ τ ι) (k : κ) (t : τ) : Depot κ τ ι :=
  { d with held := update d.held k (some t), issued := insert t d.issued }

def drop (d : Depot κ τ ι) (k : κ) : Depot κ τ ι := { d with held := update d.held k none }

def put (d : Depot κ τ ι) (k : κ) (t : τ) : Depot κ τ ι :=
  { d with held := update d.held k none, out := d.out ++ [t] }

end Clerks

section Shelves

variable [DecidableEq ι]

def clear (d : Depot κ τ ι) (i : ι) (n : ℕ) : Depot κ τ ι :=
  { d with out := d.out ++ (d.shelf i).take n, shelf := update d.shelf i [] }

end Shelves

section Both

variable [DecidableEq κ] [DecidableEq ι]

def lay (d : Depot κ τ ι) (k : κ) (t : τ) (i : ι) : Depot κ τ ι :=
  { d with held := update d.held k none, shelf := update d.shelf i (d.shelf i ++ [t]) }

inductive Step (d : Depot κ τ ι) : Depot κ τ ι → Prop where
  | take {k : κ} {t : τ} (hk : d.held k = none) (ht : t ∉ d.issued) : Step d (d.take k t)
  | drop (k : κ) : Step d (d.drop k)
  | put {k : κ} {t : τ} (hk : d.held k = some t) : Step d (d.put k t)
  | lay {k : κ} {t : τ} (i : ι) (hk : d.held k = some t) : Step d (d.lay k t i)
  | clear (i : ι) (n : ℕ) : Step d (d.clear i n)

end Both

variable {d d' : Depot κ τ ι}

theorem Once.ne_of_held (h : d.Once) {k k' : κ} {t u : τ} (hk : d.held k = some t)
    (hk' : d.held k' = some u) (hne : k' ≠ k) : u ≠ t := fun he =>
  hne (h.held k' k t (he ▸ hk') hk)

section Clerks

variable [DecidableEq κ]

theorem held_update {k k' : κ} {o : Option τ} {t : τ} (h : update d.held k o k' = some t) :
    (k' = k ∧ o = some t) ∨ (k' ≠ k ∧ d.held k' = some t) := by
  by_cases hk : k' = k
  · subst hk
    rw [update_self] at h
    exact .inl ⟨rfl, h⟩
  · rw [update_of_ne hk] at h
    exact .inr ⟨hk, h⟩

theorem exists_held_update_none {k : κ} {t : τ} :
    (∃ k', update d.held k none k' = some t) ↔ ∃ k', k' ≠ k ∧ d.held k' = some t := by
  constructor
  · rintro ⟨k', h⟩
    rcases held_update h with ⟨-, h⟩ | h
    · cases h
    · exact ⟨k', h⟩
  · rintro ⟨k', hk, h⟩
    exact ⟨k', by rwa [update_of_ne hk]⟩

theorem Once.take (h : d.Once) {k : κ} {t : τ} (ht : t ∉ d.issued) :
    (d.take k t).Once where
  issued u hu := by
    rcases hu with ⟨k', hk'⟩ | hu
    · rcases held_update hk' with ⟨-, hu⟩ | ⟨-, hu⟩
      · exact .inl (Option.some.inj hu).symm
      · exact .inr (h.issued u (.inl ⟨k', hu⟩))
    · exact .inr (h.issued u (.inr hu))
  held k₁ k₂ u h₁ h₂ := by
    have hnew : ∀ {k'}, d.held k' ≠ some t := fun hk' => ht (h.issued t (.inl ⟨_, hk'⟩))
    rcases held_update h₁ with ⟨e₁, u₁⟩ | ⟨-, u₁⟩ <;> rcases held_update h₂ with ⟨e₂, u₂⟩ | ⟨-, u₂⟩
    · exact e₁.trans e₂.symm
    · exact absurd (u₂.trans u₁.symm) hnew
    · exact absurd (u₁.trans u₂.symm) hnew
    · exact h.held k₁ k₂ u u₁ u₂
  away k' u hu := by
    rcases held_update hu with ⟨-, hu⟩ | ⟨-, hu⟩
    · obtain rfl := Option.some.inj hu
      exact ⟨fun hm => ht (h.issued t (.inr (.inl hm))),
        fun i hm => ht (h.issued t (.inr (.inr ⟨i, hm⟩)))⟩
    · exact h.away k' u hu
  shelf := h.shelf
  nodup := h.nodup

theorem Once.drop (h : d.Once) (k : κ) : (d.drop k).Once where
  issued u hu := by
    rcases hu with hu | hu
    · obtain ⟨k', -, hk'⟩ := exists_held_update_none.mp hu
      exact h.issued u (.inl ⟨k', hk'⟩)
    · exact h.issued u (.inr hu)
  held k₁ k₂ u h₁ h₂ := by
    rcases held_update h₁ with ⟨-, h₁⟩ | ⟨-, h₁⟩
    · cases h₁
    rcases held_update h₂ with ⟨-, h₂⟩ | ⟨-, h₂⟩
    · cases h₂
    exact h.held k₁ k₂ u h₁ h₂
  away k' u hu := by
    rcases held_update hu with ⟨-, hu⟩ | ⟨-, hu⟩
    · cases hu
    · exact h.away k' u hu
  shelf := h.shelf
  nodup := h.nodup

theorem Once.put (h : d.Once) {k : κ} {t : τ} (hk : d.held k = some t) : (d.put k t).Once where
  issued u hu := by
    rcases hu with hu | hu | hu
    · exact (h.drop k).issued u (.inl hu)
    · rcases List.mem_append.mp hu with hu | hu
      · exact h.issued u (.inr (.inl hu))
      · obtain rfl := List.mem_singleton.mp hu
        exact h.issued u (.inl ⟨k, hk⟩)
    · exact h.issued u (.inr (.inr hu))
  held := (h.drop k).held
  away k' u hu := by
    obtain ⟨hout, hshelf⟩ := (h.drop k).away k' u hu
    refine ⟨fun hm => ?_, hshelf⟩
    rcases List.mem_append.mp hm with hm | hm
    · exact hout hm
    · rcases held_update hu with ⟨-, hu⟩ | ⟨hne, hu⟩
      · cases hu
      · exact h.ne_of_held hk hu hne (List.mem_singleton.mp hm)
  shelf := h.shelf
  nodup i := by
    have hperm : (d.out ++ [t] ++ d.shelf i).Perm (t :: (d.out ++ d.shelf i)) := by
      rw [List.append_assoc]
      exact List.perm_middle
    refine hperm.nodup_iff.mpr (List.nodup_cons.mpr ⟨fun hm => ?_, h.nodup i⟩)
    rcases List.mem_append.mp hm with hm | hm
    · exact (h.away k t hk).1 hm
    · exact (h.away k t hk).2 i hm

theorem present_take {k : κ} {t u : τ} (hk : d.held k = none) :
    (d.take k t).Present u ↔ d.Present u ∨ u = t := by
  constructor
  · rintro (⟨k', hu⟩ | hu)
    · rcases held_update hu with ⟨-, hu⟩ | ⟨-, hu⟩
      · exact .inr (Option.some.inj hu).symm
      · exact .inl (.inl ⟨k', hu⟩)
    · exact .inl (.inr hu)
  · rintro ((⟨k', hu⟩ | hu) | rfl)
    · have hne : k' ≠ k := fun he => by rw [he, hk] at hu; cases hu
      exact .inl ⟨k', (update_of_ne hne ..).trans hu⟩
    · exact .inr hu
    · exact .inl ⟨k, update_self ..⟩

/-- What is dropped is gone, and nothing else. -/
theorem Once.present_drop (h : d.Once) {k : κ} {u : τ} :
    (d.drop k).Present u ↔ d.Present u ∧ d.held k ≠ some u := by
  constructor
  · rintro (hu | hu)
    · obtain ⟨k', hne, hu⟩ := exists_held_update_none.mp hu
      exact ⟨.inl ⟨k', hu⟩, fun hk => hne (h.held k' k u hu hk)⟩
    · refine ⟨.inr hu, fun hk => ?_⟩
      rcases hu with hu | ⟨i, hu⟩
      · exact (h.away k u hk).1 hu
      · exact (h.away k u hk).2 i hu
  · rintro ⟨⟨k', hu⟩ | hu, hne⟩
    · exact .inl (exists_held_update_none.mpr ⟨k', fun he => hne (he ▸ hu), hu⟩)
    · exact .inr hu

theorem present_put {k : κ} {t u : τ} (hk : d.held k = some t) :
    (d.put k t).Present u ↔ d.Present u := by
  have hcase : (∃ k', d.held k' = some u) ↔ (∃ k', k' ≠ k ∧ d.held k' = some u) ∨ u = t := by
    constructor
    · rintro ⟨k', hu⟩
      by_cases hne : k' = k
      · exact .inr (Option.some.inj ((hne ▸ hu).symm.trans hk))
      · exact .inl ⟨k', hne, hu⟩
    · rintro (⟨k', -, hu⟩ | rfl)
      · exact ⟨k', hu⟩
      · exact ⟨k, hk⟩
  show ((∃ k', update d.held k none k' = some u) ∨ u ∈ d.out ++ [t] ∨ ∃ i, u ∈ d.shelf i) ↔
    ((∃ k', d.held k' = some u) ∨ u ∈ d.out ∨ ∃ i, u ∈ d.shelf i)
  rw [exists_held_update_none, hcase, List.mem_append, List.mem_singleton]
  exact (or_congr_right or_assoc).trans ((or_congr_right or_left_comm).trans or_assoc.symm)

end Clerks

section Shelves

variable [DecidableEq ι]

theorem mem_shelf_update {i j : ι} {ts : List τ} {t : τ} :
    t ∈ update d.shelf i ts j ↔ (j = i ∧ t ∈ ts) ∨ (j ≠ i ∧ t ∈ d.shelf j) := by
  by_cases hj : j = i
  · subst hj
    simp
  · simp [hj]

theorem Once.clear (h : d.Once) (i : ι) (n : ℕ) : (d.clear i n).Once := by
  have hmem : ∀ {j u}, u ∈ (d.clear i n).shelf j → j ≠ i ∧ u ∈ d.shelf j := fun hu => by
    rcases mem_shelf_update.mp hu with ⟨-, hu⟩ | hu
    · cases hu
    · exact hu
  exact
    { issued := fun u hu => by
        rcases hu with hu | hu | ⟨j, hu⟩
        · exact h.issued u (.inl hu)
        · rcases List.mem_append.mp hu with hu | hu
          · exact h.issued u (.inr (.inl hu))
          · exact h.issued u (.inr (.inr ⟨i, List.mem_of_mem_take hu⟩))
        · exact h.issued u (.inr (.inr ⟨j, (hmem hu).2⟩))
      held := h.held
      away := fun k u hu => by
        obtain ⟨hout, hshelf⟩ := h.away k u hu
        refine ⟨fun hm => ?_, fun j hm => hshelf j (hmem hm).2⟩
        rcases List.mem_append.mp hm with hm | hm
        · exact hout hm
        · exact hshelf i (List.mem_of_mem_take hm)
      shelf := fun j j' u hu hu' => h.shelf j j' u (hmem hu).2 (hmem hu').2
      nodup := fun j => by
        have hput : (d.out ++ (d.shelf i).take n).Nodup :=
          (h.nodup i).sublist ((List.take_sublist n _).append_left d.out)
        refine List.nodup_append.mpr ⟨hput, ?_, ?_⟩
        · refine (List.nodup_append.mp (h.nodup j)).2.1.sublist ?_
          show (update d.shelf i [] j).Sublist (d.shelf j)
          by_cases hj : j = i
          · subst hj
            rw [update_self]
            exact List.nil_sublist _
          · rw [update_of_ne hj]
        · rintro u hu v hv rfl
          obtain ⟨hj, hv⟩ := hmem hv
          rcases List.mem_append.mp hu with hu | hu
          · exact (List.nodup_append.mp (h.nodup j)).2.2 u hu u hv rfl
          · exact hj (h.shelf j i u hv (List.mem_of_mem_take hu)) }

/-- What does not fit when a shelf is cleared is gone, and nothing else. -/
theorem Once.present_clear (h : d.Once) {i : ι} {n : ℕ} {u : τ} :
    (d.clear i n).Present u ↔ d.Present u ∧ u ∉ (d.shelf i).drop n := by
  have hsplit := List.take_append_drop n (d.shelf i)
  have hnodup := (List.nodup_append.mp (h.nodup i)).2.1
  rw [← hsplit] at hnodup
  obtain ⟨-, -, hapart⟩ := List.nodup_append.mp hnodup
  constructor
  · rintro (⟨k, hu⟩ | hu | ⟨j, hu⟩)
    · exact ⟨.inl ⟨k, hu⟩, fun hm => (h.away k u hu).2 i (List.mem_of_mem_drop hm)⟩
    · rcases List.mem_append.mp hu with hu | hu
      · refine ⟨.inr (.inl hu), fun hm => ?_⟩
        exact (List.nodup_append.mp (h.nodup i)).2.2 u hu u (List.mem_of_mem_drop hm) rfl
      · exact ⟨.inr (.inr ⟨i, List.mem_of_mem_take hu⟩), fun hm => hapart u hu u hm rfl⟩
    · rcases mem_shelf_update.mp hu with ⟨-, hu⟩ | ⟨hj, hu⟩
      · cases hu
      · exact ⟨.inr (.inr ⟨j, hu⟩), fun hm => hj (h.shelf j i u hu (List.mem_of_mem_drop hm))⟩
  · rintro ⟨hu | hu | ⟨j, hu⟩, hfit⟩
    · exact .inl hu
    · exact .inr (.inl (List.mem_append_left _ hu))
    · by_cases hj : j = i
      · subst hj
        rw [← hsplit] at hu
        rcases List.mem_append.mp hu with hu | hu
        · exact .inr (.inl (List.mem_append_right _ hu))
        · exact absurd hu hfit
      · exact .inr (.inr ⟨j, mem_shelf_update.mpr (.inr ⟨hj, hu⟩)⟩)

end Shelves

section Both

variable [DecidableEq κ] [DecidableEq ι]

theorem Once.lay (h : d.Once) {k : κ} {t : τ} (hk : d.held k = some t) (i : ι) :
    (d.lay k t i).Once := by
  have hmem : ∀ {j u}, u ∈ (d.lay k t i).shelf j → u ∈ d.shelf j ∨ j = i ∧ u = t := fun hu => by
    rcases mem_shelf_update.mp hu with ⟨rfl, hu⟩ | ⟨-, hu⟩
    · exact (List.mem_append.mp hu).imp_right fun hu => ⟨rfl, List.mem_singleton.mp hu⟩
    · exact .inl hu
  obtain ⟨hout, hshelf⟩ := h.away k t hk
  exact
    { issued := fun u hu => by
        rcases hu with hu | hu | ⟨j, hu⟩
        · exact (h.drop k).issued u (.inl hu)
        · exact h.issued u (.inr (.inl hu))
        · rcases hmem hu with hu | ⟨-, rfl⟩
          · exact h.issued u (.inr (.inr ⟨j, hu⟩))
          · exact h.issued u (.inl ⟨k, hk⟩)
      held := (h.drop k).held
      away := fun k' u hu => by
        obtain ⟨h₁, h₂⟩ := (h.drop k).away k' u hu
        refine ⟨h₁, fun j hm => ?_⟩
        rcases hmem hm with hm | ⟨-, rfl⟩
        · exact h₂ j hm
        · rcases held_update hu with ⟨-, hu⟩ | ⟨hne, hu⟩
          · cases hu
          · exact h.ne_of_held hk hu hne rfl
      shelf := fun j j' u hu hu' => by
        rcases hmem hu with hu | ⟨hj, hu⟩ <;> rcases hmem hu' with hu' | ⟨hj', hu'⟩
        · exact h.shelf j j' u hu hu'
        · exact absurd (hu' ▸ hu) (hshelf j)
        · exact absurd (hu ▸ hu') (hshelf j')
        · exact hj.trans hj'.symm
      nodup := fun j => by
        show (d.out ++ update d.shelf i (d.shelf i ++ [t]) j).Nodup
        by_cases hj : j = i
        · subst hj
          rw [update_self, ← List.append_assoc]
          refine List.nodup_append.mpr ⟨h.nodup j, List.nodup_singleton t, ?_⟩
          rintro u hu v hv rfl
          obtain rfl := List.mem_singleton.mp hv
          rcases List.mem_append.mp hu with hu | hu
          · exact hout hu
          · exact hshelf j hu
        · rw [update_of_ne hj]
          exact h.nodup j }

theorem present_lay {k : κ} {t u : τ} (i : ι) (hk : d.held k = some t) :
    (d.lay k t i).Present u ↔ d.Present u := by
  have hshelf : (∃ j, u ∈ update d.shelf i (d.shelf i ++ [t]) j) ↔
      u = t ∨ ∃ j, u ∈ d.shelf j := by
    constructor
    · rintro ⟨j, hu⟩
      rcases mem_shelf_update.mp hu with ⟨-, hu⟩ | ⟨-, hu⟩
      · rcases List.mem_append.mp hu with hu | hu
        · exact .inr ⟨i, hu⟩
        · exact .inl (List.mem_singleton.mp hu)
      · exact .inr ⟨j, hu⟩
    · rintro (rfl | ⟨j, hu⟩)
      · exact ⟨i, by simp⟩
      · by_cases hj : j = i
        · subst hj
          exact ⟨j, by simp [hu]⟩
        · exact ⟨j, by simpa [hj] using hu⟩
  have hput := present_put (u := u) hk
  show ((∃ k', update d.held k none k' = some u) ∨ u ∈ d.out ∨
    ∃ j, u ∈ update d.shelf i (d.shelf i ++ [t]) j) ↔ d.Present u
  rw [← hput, hshelf]
  show _ ↔ ((∃ k', update d.held k none k' = some u) ∨ u ∈ d.out ++ [t] ∨ ∃ i, u ∈ d.shelf i)
  rw [List.mem_append, List.mem_singleton]
  exact or_congr_right or_assoc.symm

/-- **Every step keeps it.** -/
theorem Once.step (h : d.Once) (hs : d.Step d') : d'.Once := by
  cases hs with
  | take _ ht => exact h.take ht
  | drop k => exact h.drop k
  | put hk => exact h.put hk
  | lay i hk => exact h.lay hk i
  | clear i n => exact h.clear i n

end Both

end Depot

end SecureComm
