import Mathlib.Data.List.Nodup

/-!
# Dictionaries

A finite map that keeps its keys in the order in which they came. To set a key
that is there changes its value in place; a key that is deleted and set again
comes last.
-/

namespace SecureComm

structure Dict (κ τ : Type*) where
  entries : List (κ × τ) := []
  nodup : (entries.map Prod.fst).Nodup := by exact List.nodup_nil

namespace Dict

variable {κ τ : Type*}

def keys (d : Dict κ τ) : List κ := d.entries.map Prod.fst

def values (d : Dict κ τ) : List τ := d.entries.map Prod.snd

variable [DecidableEq κ] {d : Dict κ τ} {k x : κ} {v : τ}

def get (d : Dict κ τ) (k : κ) : Option τ := (d.entries.find? fun e => e.1 = k).map Prod.snd

def put (k : κ) (v : τ) (e : κ × τ) : κ × τ := if e.1 = k then (k, v) else e

theorem put_fst (k : κ) (v : τ) (e : κ × τ) : (put k v e).1 = e.1 := by
  unfold put
  split
  · rename_i h
    exact h.symm
  · rfl

theorem map_put_fst (k : κ) (v : τ) (es : List (κ × τ)) :
    (es.map (put k v)).map Prod.fst = es.map Prod.fst := by
  rw [List.map_map]
  exact List.map_congr_left fun e _ => put_fst k v e

def set (d : Dict κ τ) (k : κ) (v : τ) : Dict κ τ :=
  if h : k ∈ d.keys then
    { entries := d.entries.map (put k v)
      nodup := by rw [map_put_fst]; exact d.nodup }
  else
    { entries := d.entries ++ [(k, v)]
      nodup := by
        rw [List.map_append, List.nodup_append]
        refine ⟨d.nodup, List.nodup_singleton _, ?_⟩
        rintro a ha b hb rfl
        obtain rfl : a = k := List.mem_singleton.mp hb
        exact h ha }

def delete (d : Dict κ τ) (k : κ) : Dict κ τ where
  entries := d.entries.filter fun e => e.1 ≠ k
  nodup := d.nodup.sublist (List.filter_sublist.map _)

theorem get_eq_some_iff : d.get k = some v ↔ (k, v) ∈ d.entries := by
  unfold get
  constructor
  · intro h
    obtain ⟨e, hfind, rfl⟩ := Option.map_eq_some_iff.mp h
    obtain rfl : e.1 = k := by simpa using List.find?_some hfind
    exact List.mem_of_find?_eq_some hfind
  · intro h
    have hsome : (d.entries.find? fun e => e.1 = k).isSome :=
      List.find?_isSome.mpr ⟨(k, v), h, decide_eq_true rfl⟩
    obtain ⟨e, hfind⟩ := Option.isSome_iff_exists.mp hsome
    have hk : e.1 = k := by simpa using List.find?_some hfind
    rw [hfind, List.inj_on_of_nodup_map d.nodup (List.mem_of_find?_eq_some hfind) h hk]
    rfl

theorem get_eq_none_iff : d.get k = none ↔ k ∉ d.keys := by
  unfold get keys
  rw [Option.map_eq_none_iff, List.find?_eq_none]
  constructor
  · intro h hk
    obtain ⟨e, he, rfl⟩ := List.mem_map.mp hk
    exact h e he (decide_eq_true rfl)
  · intro h e he hk
    exact h (List.mem_map.mpr ⟨e, he, by simpa using hk⟩)

theorem mem_keys_iff : k ∈ d.keys ↔ ∃ v, d.get k = some v := by
  rw [← Option.ne_none_iff_exists', ne_eq, get_eq_none_iff, not_not]

theorem mem_values_iff : v ∈ d.values ↔ ∃ k, d.get k = some v := by
  constructor
  · intro h
    obtain ⟨e, he, rfl⟩ := List.mem_map.mp h
    exact ⟨e.1, get_eq_some_iff.mpr he⟩
  · rintro ⟨k, h⟩
    exact List.mem_map.mpr ⟨(k, v), get_eq_some_iff.mp h, rfl⟩

theorem keys_set (d : Dict κ τ) (k : κ) (v : τ) :
    (d.set k v).keys = if k ∈ d.keys then d.keys else d.keys ++ [k] := by
  unfold set
  by_cases h : k ∈ d.keys
  · rw [dif_pos h, if_pos h]
    exact map_put_fst k v d.entries
  · rw [dif_neg h, if_neg h]
    exact List.map_append

theorem keys_delete (d : Dict κ τ) (k : κ) : (d.delete k).keys = d.keys.filter (· ≠ k) := by
  show (d.entries.filter _).map Prod.fst = (d.entries.map Prod.fst).filter _
  rw [List.filter_map]
  rfl

theorem get_set (d : Dict κ τ) (k : κ) (v : τ) (x : κ) :
    (d.set k v).get x = if x = k then some v else d.get x := by
  have hkeys := keys_set d k v
  split
  · rename_i hx
    subst hx
    refine get_eq_some_iff.mpr ?_
    unfold set
    split
    · rename_i h
      obtain ⟨e, he, rfl⟩ := List.mem_map.mp h
      exact List.mem_map.mpr ⟨e, he, if_pos rfl⟩
    · exact List.mem_append_right _ (List.mem_singleton_self _)
  · rename_i hx
    refine Option.ext fun w => ?_
    rw [get_eq_some_iff, get_eq_some_iff]
    unfold set
    split
    · constructor
      · intro h
        obtain ⟨e, he, hput⟩ := List.mem_map.mp h
        have hne : e.1 ≠ k := fun hk => hx ((congrArg Prod.fst hput).symm.trans
          ((put_fst k v e).trans hk))
        rw [put, if_neg hne] at hput
        exact hput ▸ he
      · exact fun h => List.mem_map.mpr ⟨_, h, if_neg hx⟩
    · rw [List.mem_append, List.mem_singleton]
      exact or_iff_left fun h => hx (congrArg Prod.fst h)

theorem get_delete (d : Dict κ τ) (k x : κ) :
    (d.delete k).get x = if x = k then none else d.get x := by
  split
  · rename_i hx
    subst hx
    refine get_eq_none_iff.mpr ?_
    rw [keys_delete, List.mem_filter]
    exact fun h => of_decide_eq_true h.2 rfl
  · rename_i hx
    refine Option.ext fun w => ?_
    rw [get_eq_some_iff, get_eq_some_iff, delete, List.mem_filter]
    exact and_iff_left (decide_eq_true hx)

end Dict

end SecureComm
