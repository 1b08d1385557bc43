import Mathlib.Data.List.Basic

/-!
# Precedence in a list

`Precedes p q l`: whenever something with `q` stands in the list, something with
`p` stands before it.
-/

namespace SecureComm

variable {α β : Type*} {p q : α → Prop} {l l' : List α}

def Precedes (p q : α → Prop) (l : List α) : Prop :=
  ∀ l₁ x l₂, l = l₁ ++ x :: l₂ → q x → ∃ y ∈ l₁, p y

namespace Precedes

theorem of_none (h : ∀ x ∈ l, ¬ q x) : Precedes p q l := by
  rintro l₁ x l₂ rfl hq
  exact absurd hq (h x (List.mem_append_right _ List.mem_cons_self))

theorem nil : Precedes p q [] := of_none fun _ h => absurd h List.not_mem_nil

theorem cons_iff {x : α} : Precedes p q (x :: l) ↔ ¬ q x ∧ (p x ∨ Precedes p q l) := by
  constructor
  · intro h
    refine ⟨fun hq => ?_, ?_⟩
    · obtain ⟨y, hy, -⟩ := h [] x l rfl hq
      exact absurd hy List.not_mem_nil
    · by_cases hp : p x
      · exact .inl hp
      · refine .inr ?_
        rintro l₁ z l₂ rfl hq
        obtain ⟨y, hy, hpy⟩ := h (x :: l₁) z l₂ rfl hq
        rcases List.mem_cons.mp hy with rfl | hy
        · exact absurd hpy hp
        · exact ⟨y, hy, hpy⟩
  · rintro ⟨hnq, h⟩ l₁ z l₂ hl hq
    cases l₁ with
    | nil =>
      obtain ⟨rfl, -⟩ := List.cons.inj hl
      exact absurd hq hnq
    | cons w l₁ =>
      obtain ⟨rfl, rfl⟩ := List.cons.inj hl
      rcases h with hp | h
      · exact ⟨x, List.mem_cons_self, hp⟩
      · obtain ⟨y, hy, hpy⟩ := h l₁ z l₂ rfl hq
        exact ⟨y, List.mem_cons_of_mem _ hy, hpy⟩

/-- **Appending**: the second part may lean on the first. -/
theorem append (h : Precedes p q l) (h' : (∃ y ∈ l, p y) ∨ Precedes p q l') :
    Precedes p q (l ++ l') := by
  induction l with
  | nil =>
    rcases h' with ⟨y, hy, -⟩ | h'
    · exact absurd hy List.not_mem_nil
    · exact h'
  | cons x l ih =>
    obtain ⟨hnq, hx⟩ := cons_iff.mp h
    refine cons_iff.mpr ⟨hnq, ?_⟩
    by_cases hp : p x
    · exact .inl hp
    · refine .inr (ih (hx.resolve_left hp) (h'.imp_left ?_))
      rintro ⟨y, hy, hpy⟩
      rcases List.mem_cons.mp hy with rfl | hy
      · exact absurd hpy hp
      · exact ⟨y, hy, hpy⟩

theorem take (h : Precedes p q l) (n : ℕ) : Precedes p q (l.take n) := by
  intro l₁ x l₂ hl hq
  refine h l₁ x (l₂ ++ l.drop n) ?_ hq
  rw [← List.cons_append, ← List.append_assoc, ← hl, List.take_append_drop]

/-- Dropping values keeps precedence where it keeps, with something that needs
to be preceded, everything that may precede it. -/
theorem filter {keep : α → Bool} (h : Precedes p q l)
    (hkeep : ∀ x ∈ l, ∀ y ∈ l, q x → p y → keep x = true → keep y = true) :
    Precedes p q (l.filter keep) := by
  induction l with
  | nil => exact h
  | cons x l ih =>
    obtain ⟨hnq, hx⟩ := cons_iff.mp h
    have hrest : ∀ a ∈ l, ∀ b ∈ l, q a → p b → keep a = true → keep b = true := fun a ha b hb =>
      hkeep a (List.mem_cons_of_mem _ ha) b (List.mem_cons_of_mem _ hb)
    cases hk : keep x with
    | true =>
      rw [List.filter_cons_of_pos hk]
      exact cons_iff.mpr ⟨hnq, hx.imp_right fun hl => ih hl hrest⟩
    | false =>
      rw [List.filter_cons_of_neg (by rw [hk]; exact Bool.false_ne_true)]
      rcases hx with hp | hl
      · -- the value dropped may precede others, which are then dropped as well
        refine of_none fun y hy hq => ?_
        obtain ⟨hy, hky⟩ := List.mem_filter.mp hy
        have := hkeep y (List.mem_cons_of_mem _ hy) x List.mem_cons_self hq hp hky
        rw [hk] at this
        exact Bool.false_ne_true this
      · exact ih hl hrest

theorem of_map {f : β → α} {l : List β} (h : Precedes p q (l.map f)) :
    Precedes (fun b => p (f b)) (fun b => q (f b)) l := by
  rintro l₁ x l₂ rfl hq
  obtain ⟨y, hy, hp⟩ := h (l₁.map f) (f x) (l₂.map f) (by rw [List.map_append, List.map_cons]) hq
  obtain ⟨b, hb, rfl⟩ := List.mem_map.mp hy
  exact ⟨b, hb, hp⟩

theorem map {f : β → α} {l : List β} (h : Precedes (fun b => p (f b)) (fun b => q (f b)) l) :
    Precedes p q (l.map f) := by
  intro l₁ x l₂ hl hq
  obtain ⟨m₁, m₂, rfl, rfl, hm⟩ := List.map_eq_append_iff.mp hl
  obtain ⟨b, m₃, rfl, rfl, rfl⟩ := List.map_eq_cons_iff.mp hm
  obtain ⟨y, hy, hp⟩ := h m₁ b m₃ rfl hq
  exact ⟨f y, List.mem_map_of_mem hy, hp⟩

end Precedes

end SecureComm
