import Mathlib.Logic.Function.Basic
import SecureComm.Lib.Run

/-!
# Traffic between machines

Machines of one kind, with states `σ`, take calls `ε` one after the other. A
call may put something out (`α`) and may accept something (`β`); `Traffic`
keeps both, each with the machine. What carries things from one machine to
another is not part of it: a call is handed whatever its caller pleases, and
what is known of it is said by a guard.

`Holds.run` is the rule for such systems: an invariant of the machines, a
property of all that is put out, and a relation of what is accepted to what was
put out before it.
-/

namespace SecureComm

/-- What a call does to a machine, what it puts out, and what it accepts. -/
structure Machine (σ ε α β : Type*) where
  step : σ → ε → σ
  emits : σ → ε → List α
  accepts : σ → ε → List β

structure Traffic (ι σ α β : Type*) where
  node : ι → σ
  emitted : List (ι × α) := []
  accepted : List (ι × β) := []

namespace Traffic

open Function

variable {ι σ ε α β : Type*}

/-- An invariant `I` of the machines, a property `Q` of what was put out, and a
relation `R` of each thing accepted to all that was put out. -/
structure Holds (I : ι → σ → Prop) (Q : ι → α → Prop) (R : List (ι × α) → ι → β → Prop)
    (w : Traffic ι σ α β) : Prop where
  node : ∀ i, I i (w.node i)
  emitted : ∀ x ∈ w.emitted, Q x.1 x.2
  accepted : ∀ y ∈ w.accepted, R w.emitted y.1 y.2

variable {I : ι → σ → Prop} {Q : ι → α → Prop} {R : List (ι × α) → ι → β → Prop}

theorem Holds.start {node : ι → σ} (h : ∀ i, I i (node i)) :
    Holds I Q R ({ node } : Traffic ι σ α β) :=
  ⟨h, fun _ hx => absurd hx List.not_mem_nil, fun _ hy => absurd hy List.not_mem_nil⟩

variable [DecidableEq ι]

def step (M : Machine σ ε α β) (w : Traffic ι σ α β) (e : ι × ε) : Traffic ι σ α β where
  node := update w.node e.1 (M.step (w.node e.1) e.2)
  emitted := (M.emits (w.node e.1) e.2).map (e.1, ·) ++ w.emitted
  accepted := (M.accepts (w.node e.1) e.2).map (e.1, ·) ++ w.accepted

variable {M : Machine σ ε α β} {G : Traffic ι σ α β → ι × ε → Prop} {w : Traffic ι σ α β}

theorem Holds.step (hmono : ∀ l l' i b, l ⊆ l' → R l i b → R l' i b)
    (hnode : ∀ i s c, I i s → I i (M.step s c))
    (hemits : ∀ i s c, I i s → ∀ a ∈ M.emits s c, Q i a) {e : ι × ε}
    (haccepts : Holds I Q R w → ∀ b ∈ M.accepts (w.node e.1) e.2, R w.emitted e.1 b)
    (h : Holds I Q R w) : Holds I Q R (w.step M e) where
  node := (forall_update_iff w.node I).mpr ⟨hnode _ _ _ (h.node _), fun i _ => h.node i⟩
  emitted x hx := by
    obtain hx | hx := List.mem_append.mp hx
    · obtain ⟨a, ha, rfl⟩ := List.mem_map.mp hx
      exact hemits _ _ _ (h.node _) a ha
    · exact h.emitted x hx
  accepted y hy := by
    refine hmono _ _ _ _ (List.subset_append_right _ _) ?_
    obtain hy | hy := List.mem_append.mp hy
    · obtain ⟨b, hb, rfl⟩ := List.mem_map.mp hy
      exact haccepts h b hb
    · exact h.accepted y hy

/-- **Traffic rule**: what every guarded call keeps, a guarded run keeps. -/
theorem Holds.run (hmono : ∀ l l' i b, l ⊆ l' → R l i b → R l' i b)
    (hnode : ∀ i s c, I i s → I i (M.step s c))
    (hemits : ∀ i s c, I i s → ∀ a ∈ M.emits s c, Q i a)
    (haccepts : ∀ w e, G w e → Holds I Q R w →
      ∀ b ∈ M.accepts (w.node e.1) e.2, R w.emitted e.1 b)
    {es : List (ι × ε)} (hg : Run.Along (Traffic.step M) G w es) (h : Holds I Q R w) :
    Holds I Q R (es.foldl (Traffic.step M) w) :=
  hg.invariant (I := Holds I Q R)
    (fun w e hg h => h.step hmono hnode hemits (haccepts w e hg)) h

end Traffic

end SecureComm
