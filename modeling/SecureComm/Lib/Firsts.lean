import Mathlib.Data.List.Basic

/-!
# First of their key

Items come one after the other, each with a key, and only the first of a key
counts. `Emits` says of a machine that it puts one thing out for each first item
that passes a test, and nothing else.
-/

namespace SecureComm.Firsts

variable {α β κ : Type*} {key : α → κ} {items : List α} {a b : α}

theorem exists_key_append_iff {k : κ} :
    (∃ c ∈ items ++ [b], key c = k) ↔ (∃ c ∈ items, key c = k) ∨ k = key b := by
  constructor
  · rintro ⟨c, hc, rfl⟩
    rcases List.mem_append.mp hc with hc | hc
    · exact .inl ⟨c, hc, rfl⟩
    · exact .inr (congrArg key (List.mem_singleton.mp hc))
  · rintro (⟨c, hc, rfl⟩ | rfl)
    · exact ⟨c, List.mem_append_left _ hc, rfl⟩
    · exact ⟨b, List.mem_append_right _ (List.mem_singleton_self b), rfl⟩

variable [DecidableEq κ]

/-- No item before this one has its key. -/
def First (key : α → κ) (items : List α) (a : α) : Prop :=
  items.find? (fun b => key b = key a) = some a

theorem First.mem (h : First key items a) : a ∈ items := List.mem_of_find?_eq_some h

theorem First.unique (h : First key items a) (h' : First key items b) (hk : key a = key b) :
    a = b := by
  rw [First, hk] at h
  exact Option.some.inj (h.symm.trans h')

theorem first_append_iff : First key (items ++ [b]) a ↔
    First key items a ∨ a = b ∧ ∀ c ∈ items, key c ≠ key b := by
  unfold First
  rw [List.find?_append]
  rcases hfind : items.find? fun c => key c = key a with _ | c
  · have hnone : ∀ c ∈ items, key c ≠ key a := by simpa using hfind
    rw [Option.none_or, List.find?_singleton]
    split
    · refine ⟨fun h => ?_, fun h => ?_⟩
      · obtain rfl := Option.some.inj h
        exact .inr ⟨rfl, hnone⟩
      · obtain ⟨rfl, -⟩ := h.resolve_left nofun
        rfl
    · rename_i hne
      refine iff_of_false nofun fun h => ?_
      obtain ⟨rfl, -⟩ := h.resolve_left nofun
      exact hne (decide_eq_true rfl)
  · rw [Option.some_or]
    refine ⟨.inl, fun h => h.resolve_right fun ⟨hab, hfresh⟩ => ?_⟩
    have hc : key c = key a := by simpa using List.find?_some hfind
    exact hfresh c (List.mem_of_find?_eq_some hfind) (hab ▸ hc)

/-- One thing is put out for every first item that passes, and nothing else is: `made`
says what may be put out for an item, `of` for which key a thing was put out. -/
structure Emits (key : α → κ) (of : β → κ) (pass : α → Prop) (made : α → β → Prop)
    (items : List α) (out : List β) : Prop where
  once : ∀ a, First key items a → pass a → (out.filter fun b => of b = key a).length = 1
  only : ∀ b ∈ out, ∃ a, First key items a ∧ pass a ∧ made a b ∧ of b = key a

namespace Emits

variable {of : β → κ} {pass pass' : α → Prop} {made : α → β → Prop} {out : List β} {c : β}

theorem nil : Emits key of pass made [] [] :=
  ⟨fun _ h => (absurd h.mem List.not_mem_nil), fun _ h => absurd h List.not_mem_nil⟩

theorem filter_eq_nil (h : Emits key of pass made items out)
    (hfresh : ∀ a ∈ items, key a ≠ key b) : (out.filter fun c => of c = key b) = [] := by
  refine List.filter_eq_nil_iff.mpr fun c hc heq => ?_
  obtain ⟨a, ha, -, -, hof⟩ := h.only c hc
  exact hfresh a ha.mem (hof.symm.trans (by simpa using heq))

theorem skip (h : Emits key of pass made items out) (hseen : ∃ a ∈ items, key a = key b) :
    Emits key of pass made (items ++ [b]) out := by
  have hfirst : ∀ a, First key (items ++ [b]) a ↔ First key items a := fun a =>
    first_append_iff.trans (or_iff_left fun ⟨_, hfresh⟩ =>
      hseen.elim fun c hc => hfresh c hc.1 hc.2)
  exact ⟨fun a ha => h.once a ((hfirst a).mp ha),
    fun c hc => (h.only c hc).imp fun a ha => ⟨(hfirst a).mpr ha.1, ha.2⟩⟩

theorem drop (h : Emits key of pass made items out) (hno : ¬ pass b) :
    Emits key of pass made (items ++ [b]) out := by
  refine ⟨fun a ha hp => ?_, fun c hc => ?_⟩
  · rcases first_append_iff.mp ha with ha | ⟨rfl, -⟩
    · exact h.once a ha hp
    · exact absurd hp hno
  · exact (h.only c hc).imp fun a ha => ⟨first_append_iff.mpr (.inl ha.1), ha.2⟩

theorem put (h : Emits key of pass made items out) (hfresh : ∀ a ∈ items, key a ≠ key b)
    (hpass : pass b) (hmade : made b c) (hof : of c = key b) :
    Emits key of pass made (items ++ [b]) (out ++ [c]) := by
  refine ⟨fun a ha hp => ?_, fun d hd => ?_⟩
  · rw [List.filter_append, List.length_append]
    rcases first_append_iff.mp ha with ha | ⟨rfl, -⟩
    · have hne : ¬ of c = key a := fun heq => hfresh a ha.mem (heq.symm.trans hof)
      rw [h.once a ha hp, List.filter_cons_of_neg (by simpa using hne)]
      rfl
    · rw [h.filter_eq_nil hfresh, List.filter_cons, if_pos (decide_eq_true hof)]
      rfl
  · rcases List.mem_append.mp hd with hd | hd
    · exact (h.only d hd).imp fun a ha => ⟨first_append_iff.mpr (.inl ha.1), ha.2⟩
    · obtain rfl := List.mem_singleton.mp hd
      exact ⟨b, first_append_iff.mpr (.inr ⟨rfl, hfresh⟩), hpass, hmade, hof⟩

/-- **A weaker test** is met by the same things exactly if no first item tells the two apart. -/
theorem weaken_iff (h : Emits key of pass made items out) (hpass : ∀ a, pass a → pass' a) :
    Emits key of pass' made items out ↔ ∀ a, First key items a → pass' a → pass a := by
  constructor
  · intro h' a ha hp
    have hone := h'.once a ha hp
    obtain ⟨c, hc⟩ := List.exists_mem_of_length_pos (Nat.lt_of_lt_of_eq Nat.one_pos hone.symm)
    obtain ⟨hmem, heq⟩ := List.mem_filter.mp hc
    obtain ⟨b, hb, hpb, -, hof⟩ := h.only c hmem
    have hkey : key b = key a := hof.symm.trans (by simpa using heq)
    exact hb.unique ha hkey ▸ hpb
  · intro hsame
    exact ⟨fun a ha hp => h.once a ha (hsame a ha hp),
      fun c hc => (h.only c hc).imp fun a ha => ⟨ha.1, hpass a ha.2.1, ha.2.2⟩⟩

end Emits

end SecureComm.Firsts
