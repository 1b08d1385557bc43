import Mathlib.Data.List.AList

/-!
# Tables

A finite map with the operations of an ordered map of the standard library: a
list of entries with distinct keys, `emplace` (which keeps an entry that is
there), `erase`, `lookup`. That keys are distinct is part of the type.
-/

namespace SecureComm

abbrev Table (α β : Type) [DecidableEq α] := AList (fun _ : α => β)

namespace Table

variable {α β : Type} [DecidableEq α]

/-- Add an entry unless the key has one. -/
def emplace (t : Table α β) (a : α) (b : β) : Table α β := if a ∈ t then t else t.insert a b

def mapValues (t : Table α β) (f : β → β) : Table α β :=
  ⟨t.entries.map fun e => ⟨e.1, f e.2⟩, by
    rw [List.NodupKeys, List.keys, List.map_map]; exact t.nodupKeys⟩

theorem dlookup_map (f : β → β) (x : α) (es : List (Σ _ : α, β)) :
    List.dlookup x (es.map fun e => ⟨e.1, f e.2⟩ : List (Σ _ : α, β)) =
      (List.dlookup x es).map f := by
  induction es with
  | nil => rfl
  | cons e es ih =>
    obtain ⟨k, v⟩ := e
    by_cases h : x = k
    · subst h
      rw [List.map_cons, List.dlookup_cons_eq, List.dlookup_cons_eq]
      rfl
    · rw [List.map_cons, List.dlookup_cons_ne _ _ h, List.dlookup_cons_ne _ _ h]
      exact ih

theorem lookup_mapValues (t : Table α β) (f : β → β) (x : α) :
    (t.mapValues f).lookup x = (t.lookup x).map f := dlookup_map f x t.entries

@[simp] theorem keys_mapValues (t : Table α β) (f : β → β) : (t.mapValues f).keys = t.keys := by
  show List.map Sigma.fst (t.entries.map _) = List.map Sigma.fst t.entries
  rw [List.map_map]
  rfl

theorem lookup_emplace (t : Table α β) (a : α) (b : β) (x : α) :
    (t.emplace a b).lookup x = if x = a then some ((t.lookup a).getD b) else t.lookup x := by
  unfold emplace
  by_cases hx : x = a
  · subst hx
    by_cases h : x ∈ t
    · obtain ⟨v, hv⟩ := Option.isSome_iff_exists.mp (AList.lookup_isSome.mpr h)
      simp [h, hv]
    · simp [h, AList.lookup_eq_none.mpr h]
  · rw [if_neg hx]
    split
    · rfl
    · exact AList.lookup_insert_ne hx

/-- What is found after an `emplace` was there before, or is the new entry of a key that had none. -/
theorem lookup_emplace_eq_some {t : Table α β} {a x : α} {b v : β}
    (h : (t.emplace a b).lookup x = some v) :
    t.lookup x = some v ∨ x = a ∧ t.lookup a = none ∧ v = b := by
  rw [lookup_emplace] at h
  split at h
  · rename_i hx
    subst hx
    rcases hl : t.lookup x with _ | w
    · rw [hl] at h
      exact .inr ⟨rfl, rfl, (Option.some.inj h).symm⟩
    · rw [hl] at h
      exact .inl h
  · exact .inl h

@[simp] theorem lookup_emplace_ne (t : Table α β) {a x : α} (b : β) (h : x ≠ a) :
    (t.emplace a b).lookup x = t.lookup x := by rw [lookup_emplace, if_neg h]

theorem lookup_erase_eq (t : Table α β) (a x : α) :
    (t.erase a).lookup x = if x = a then none else t.lookup x := by
  by_cases h : x = a
  · subst h; simp
  · rw [if_neg h]; exact AList.lookup_erase_ne h

end Table

end SecureComm
