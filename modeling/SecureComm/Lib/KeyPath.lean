import Mathlib.Data.Set.Function
import Mathlib.Data.List.Induction
import Mathlib.Data.List.Infix

/-!
# Keys along derivation paths

A keyed hash `H` derives keys from a root key `k0`. A key is named by its
**path**, the list of messages hashed on the way from the root, and `eval`
computes it. Two facts carry everything that is said about such keys: distinct
paths give distinct keys as long as the hash calls made on them do not collide
(`CollisionFree.injOn`), and what an observer can compute from the keys it
holds are the paths that extend a held one by public messages
(`derivable_iff`).
-/

namespace SecureComm.KeyPath

variable {K M : Type*}

def eval (H : K → M → K) (k0 : K) (p : List M) : K := p.foldl H k0

section Eval

variable {H : K → M → K} {k0 : K}

@[simp] theorem eval_nil : eval H k0 [] = k0 := rfl

@[simp] theorem eval_concat (p : List M) (m : M) : eval H k0 (p ++ [m]) = H (eval H k0 p) m := by
  simp [eval]

end Eval

/-! ## Distinct paths, distinct keys -/

/-- The paths passed through on the way to the listed ones. -/
def prefixes (ps : List (List M)) : Set (List M) := {p | ∃ q ∈ ps, p <+: q}

theorem mem_prefixes {ps : List (List M)} {p : List M} (h : p ∈ ps) : p ∈ prefixes ps :=
  ⟨p, h, List.prefix_refl p⟩

theorem prefixes_closed {ps : List (List M)} {p : List M} {m : M} (h : p ++ [m] ∈ prefixes ps) :
    p ∈ prefixes ps :=
  let ⟨q, hq, hp⟩ := h; ⟨q, hq, (List.prefix_append p [m]).trans hp⟩

/-- The hash calls made on the way to the paths `P` do not collide, and none
of them gives back the root key. -/
structure CollisionFree (H : K → M → K) (k0 : K) (P : Set (List M)) : Prop where
  inj : ∀ p m q n, p ++ [m] ∈ P → q ++ [n] ∈ P →
    H (eval H k0 p) m = H (eval H k0 q) n → eval H k0 p = eval H k0 q ∧ m = n
  fresh : ∀ p m, p ++ [m] ∈ P → H (eval H k0 p) m ≠ k0

/-- **Distinct paths give distinct keys** when the hash does not collide on
them. Both paths are peeled from the end: equal keys have equal last messages
and equal keys before them, and a path cannot run out before the other. -/
theorem CollisionFree.injOn {H : K → M → K} {k0 : K} {P : Set (List M)}
    (hP : ∀ p m, p ++ [m] ∈ P → p ∈ P) (h : CollisionFree H k0 P) :
    Set.InjOn (eval H k0) P := by
  intro p hp
  induction p using List.reverseRecOn with
  | nil =>
    intro q hq he
    rcases List.eq_nil_or_concat q with rfl | ⟨q, n, rfl⟩
    · rfl
    · rw [List.concat_eq_append] at hq he
      rw [eval_nil, eval_concat] at he
      exact absurd he.symm (h.fresh q n hq)
  | append_singleton p m ih =>
    intro q hq he
    rcases List.eq_nil_or_concat q with rfl | ⟨q, n, rfl⟩
    · rw [eval_nil, eval_concat] at he
      exact absurd he (h.fresh p m hp)
    · rw [List.concat_eq_append] at hq he ⊢
      rw [eval_concat, eval_concat] at he
      obtain ⟨hk, rfl⟩ := h.inj p m q n hp hq he
      rw [ih (hP p m hp) (hP q m hq) hk]

theorem injOn_prefixes {H : K → M → K} {k0 : K} {ps : List (List M)}
    (h : CollisionFree H k0 (prefixes ps)) : Set.InjOn (eval H k0) (prefixes ps) :=
  h.injOn fun _ _ => prefixes_closed

/-- A finite set of paths can be checked for collisions: it is enough that the
keys passed through are distinct. -/
theorem collisionFree_of_inits {H : K → M → K} {k0 : K} {ps : List (List M)}
    (h : ∀ p ∈ ps.flatMap List.inits, ∀ q ∈ ps.flatMap List.inits,
      eval H k0 p = eval H k0 q → p = q) : CollisionFree H k0 (prefixes ps) := by
  have hmem : ∀ p, p ∈ prefixes ps → p ∈ ps.flatMap List.inits := fun p ⟨q, hq, hp⟩ =>
    List.mem_flatMap.mpr ⟨q, hq, (List.mem_inits p q).mpr hp⟩
  constructor
  · intro p m q n hp hq he
    have he' : eval H k0 (p ++ [m]) = eval H k0 (q ++ [n]) := by rw [eval_concat, eval_concat, he]
    obtain ⟨rfl, hmn⟩ := List.append_inj' (h _ (hmem _ hp) _ (hmem _ hq) he') rfl
    exact ⟨rfl, (List.cons.inj hmn).1⟩
  · intro p m hp he
    have hnil : [] ∈ prefixes ps := let ⟨q, hq, _⟩ := hp; ⟨q, hq, List.nil_prefix⟩
    have he' : eval H k0 (p ++ [m]) = eval H k0 [] := by rw [eval_concat, he, eval_nil]
    exact absurd (h _ (hmem _ hp) _ (hmem _ hnil) he') (by simp)

/-! ## What can be derived -/

/-- Paths whose keys follow from the keys at `held` by hashing the messages
`pub`, in the free model: nothing else is known about the hash. -/
inductive Derivable (pub : Set M) (held : Set (List M)) : List M → Prop where
  | held {p : List M} : p ∈ held → Derivable pub held p
  | hash {p : List M} {m : M} : Derivable pub held p → m ∈ pub → Derivable pub held (p ++ [m])

/-- **Derivable keys extend held ones by public messages.** -/
theorem derivable_iff {pub : Set M} {held : Set (List M)} {p : List M} :
    Derivable pub held p ↔ ∃ h ∈ held, ∃ w, (∀ m ∈ w, m ∈ pub) ∧ p = h ++ w := by
  constructor
  · intro h
    induction h with
    | held hp => exact ⟨_, hp, [], by simp, by simp⟩
    | hash _ hm ih =>
      obtain ⟨h, hh, w, hw, rfl⟩ := ih
      refine ⟨h, hh, w ++ [_], fun x hx => ?_, by rw [List.append_assoc]⟩
      rcases List.mem_append.mp hx with hx | hx
      · exact hw x hx
      · rw [List.mem_singleton.mp hx]; exact hm
  · rintro ⟨h, hh, w, hw, rfl⟩
    induction w using List.reverseRecOn with
    | nil => simpa using Derivable.held hh
    | append_singleton w m ih =>
      rw [← List.append_assoc]
      exact .hash (ih fun x hx => hw x (List.mem_append_left _ hx)) (hw m (by simp))

end SecureComm.KeyPath
