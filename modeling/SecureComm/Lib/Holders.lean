import Mathlib.Data.List.Nodup

/-!
# Holders of keys

A list of holders in the order in which they came, each with the key it holds.
Several may hold one key; `latest` is the one that came last and has not left.
-/

namespace SecureComm.Holders

variable {η κ : Type*} {holders : List (η × κ)} {h h' : η} {k x : κ}

section Holder

variable [DecidableEq η]

def keyOf (holders : List (η × κ)) (h : η) : Option κ :=
  (holders.find? fun e => e.1 = h).map Prod.snd

def leave (holders : List (η × κ)) (h : η) : List (η × κ) := holders.filter fun e => e.1 ≠ h

theorem mem_leave : (h', k) ∈ leave holders h ↔ (h', k) ∈ holders ∧ h' ≠ h := by
  rw [leave, List.mem_filter, decide_eq_true_eq]

theorem mem_of_keyOf (hk : keyOf holders h = some k) : (h, k) ∈ holders := by
  obtain ⟨e, hfind, rfl⟩ := Option.map_eq_some_iff.mp hk
  obtain rfl : e.1 = h := by simpa using List.find?_some hfind
  exact List.mem_of_find?_eq_some hfind

theorem keyOf_eq_none_iff : keyOf holders h = none ↔ ∀ k, (h, k) ∉ holders := by
  rw [keyOf, Option.map_eq_none_iff, List.find?_eq_none]
  constructor
  · exact fun hn k hk => hn _ hk (decide_eq_true rfl)
  · rintro hn ⟨h', k⟩ he heq
    obtain rfl : h' = h := by simpa using heq
    exact hn k he

theorem keyOf_eq_some_iff (hnodup : (holders.map Prod.fst).Nodup) :
    keyOf holders h = some k ↔ (h, k) ∈ holders := by
  refine ⟨mem_of_keyOf, fun hmem => ?_⟩
  rcases hkey : keyOf holders h with _ | k'
  · exact absurd hmem (keyOf_eq_none_iff.mp hkey k)
  · have hsame := List.inj_on_of_nodup_map hnodup (mem_of_keyOf hkey) hmem rfl
    exact congrArg some (Prod.ext_iff.mp hsame).2

end Holder

variable [DecidableEq κ]

def latest (holders : List (η × κ)) (k : κ) : Option η :=
  ((holders.filter fun e => e.2 = k).getLast?).map Prod.fst

theorem latest_eq_none_iff : latest holders k = none ↔ ∀ h, (h, k) ∉ holders := by
  rw [latest, Option.map_eq_none_iff, List.getLast?_eq_none_iff, List.filter_eq_nil_iff]
  constructor
  · exact fun hn h hm => hn _ hm (decide_eq_true rfl)
  · rintro hn ⟨h, k'⟩ he heq
    obtain rfl : k' = k := by simpa using heq
    exact hn h he

theorem latest_isSome_iff : (latest holders k).isSome ↔ ∃ h, (h, k) ∈ holders := by
  rw [Option.isSome_iff_ne_none, ne_eq, latest_eq_none_iff, not_forall_not]

theorem latest_append :
    latest (holders ++ [(h, k)]) x = if x = k then some h else latest holders x := by
  unfold latest
  rw [List.filter_append]
  by_cases hx : x = k
  · subst hx
    simp only [List.filter_cons, decide_true, if_true, List.filter_nil, List.getLast?_concat,
      Option.map_some]
  · simp only [List.filter_cons, decide_eq_true_eq, Ne.symm hx, hx, if_false, List.filter_nil,
      List.append_nil]

variable [DecidableEq η]

theorem latest_leave_ne (hx : ∀ k, (h, k) ∈ holders → x ≠ k) :
    latest (leave holders h) x = latest holders x := by
  unfold latest leave
  rw [List.filter_filter]
  congr 2
  refine List.filter_congr fun e he => ?_
  by_cases hek : e.2 = x
  · have hne : e.1 ≠ h := fun heq => hx e.2 (heq ▸ he) hek.symm
    simp only [hek, hne, decide_true, ne_eq, not_false_eq_true, Bool.and_self]
  · simp only [hek, decide_false, Bool.false_and]

/-- A key is free after a holder has left if and only if nobody else holds it. -/
theorem latest_leave_eq_none_iff :
    latest (leave holders h) k = none ↔ ∀ h', (h', k) ∈ holders → h' = h := by
  rw [latest_eq_none_iff]
  exact forall_congr' fun h' => by rw [mem_leave, not_and, not_not]

end SecureComm.Holders
