import Mathlib.Algebra.Ring.Nat
import Mathlib.Data.List.Basic

/-!
# Runs

A system with states `σ` takes events `ε` one after the other; `step` says what
each does, and a run is the fold of `step` over a list of events. `Along` is a
run whose every event meets a guard in the state it finds, `Throughout` one
whose every state has a property.
-/

namespace SecureComm.Run

variable {σ ε : Type*}

/-- Every event of the run meets the guard in the state it finds. -/
def Along (step : σ → ε → σ) (G : σ → ε → Prop) : σ → List ε → Prop
  | _, [] => True
  | s, e :: es => G s e ∧ Along step G (step s e) es

instance decidableAlong (step : σ → ε → σ) (G : σ → ε → Prop) [∀ s e, Decidable (G s e)] :
    ∀ s es, Decidable (Along step G s es)
  | _, [] => .isTrue trivial
  | s, e :: es =>
    have := decidableAlong step G (step s e) es
    inferInstanceAs (Decidable (_ ∧ _))

variable {step : σ → ε → σ} {G : σ → ε → Prop} {I : σ → Prop}

/-- **Run rule**: what a guarded step preserves, a guarded run preserves. -/
theorem Along.invariant (hstep : ∀ s e, G s e → I s → I (step s e)) {s : σ} {es : List ε}
    (h : Along step G s es) (hs : I s) : I (es.foldl step s) := by
  induction es generalizing s with
  | nil => exact hs
  | cons e es ih => exact ih h.2 (hstep s e h.1 hs)

/-- **Rank rule**: as long as a rank is not zero a step takes off what it works and adds
at most what it costs, and zero it stays. A guarded run that works as much as the rank and all
it costs brings the rank to zero. -/
theorem Along.rank_zero {rank : σ → ℕ} {work cost : ε → ℕ}
    (hI : ∀ s e, G s e → I s → I (step s e))
    (hzero : ∀ s e, G s e → I s → rank s = 0 → rank (step s e) = 0)
    (hrank : ∀ s e, G s e → I s → rank s ≠ 0 → rank (step s e) + work e ≤ rank s + cost e) {s : σ}
    {es : List ε} (h : Along step G s es) (hs : I s)
    (hle : rank s + (es.map cost).sum ≤ (es.map work).sum) : rank (es.foldl step s) = 0 := by
  induction es generalizing s with
  | nil => simpa using hle
  | cons e es ih =>
    rw [List.map_cons, List.sum_cons, List.map_cons, List.sum_cons] at hle
    by_cases hr : rank s = 0
    · -- done already: the rest of the run costs nothing
      have hinv := h.2.invariant (I := fun s => I s ∧ rank s = 0)
        (fun s e hg hs => ⟨hI s e hg hs.1, hzero s e hg hs.1 hs.2⟩)
        ⟨hI s e h.1 hs, hzero s e h.1 hs hr⟩
      exact hinv.2
    · have hstep := hrank s e h.1 hs hr
      exact ih h.2 (hI s e h.1 hs) (by omega)

/-- A run whose every step lowers a rank is no longer than the rank. -/
theorem Along.length_le {rank : σ → ℕ} (hI : ∀ s e, G s e → I s → I (step s e))
    (hrank : ∀ s e, G s e → I s → rank (step s e) < rank s) {s : σ} {es : List ε}
    (h : Along step G s es) (hs : I s) : es.length ≤ rank s := by
  induction es generalizing s with
  | nil => exact Nat.zero_le _
  | cons e es ih =>
    exact Nat.le_trans (Nat.succ_le_succ (ih h.2 (hI s e h.1 hs))) (hrank s e h.1 hs)

/-- A guarded run may use what every step preserves, guarded or not. -/
theorem Along.invariant_with {Q : σ → Prop} (hQ : ∀ s e, Q s → Q (step s e))
    (hstep : ∀ s e, Q s → G s e → I s → I (step s e)) {s : σ} {es : List ε}
    (h : Along step G s es) (hq : Q s) (hs : I s) : Q (es.foldl step s) ∧ I (es.foldl step s) :=
  h.invariant (I := fun s => Q s ∧ I s)
    (fun s e hg hI => ⟨hQ s e hI.1, hstep s e hI.1 hg hI.2⟩) ⟨hq, hs⟩

theorem along_append {s : σ} {es es' : List ε} :
    Along step G s (es ++ es') ↔ Along step G s es ∧ Along step G (es.foldl step s) es' := by
  induction es generalizing s with
  | nil => exact (and_iff_right trivial).symm
  | cons e es ih => exact (and_congr_right fun _ => ih).trans and_assoc.symm

/-- The guard met by the event that follows the first part of a run. -/
theorem Along.at {s : σ} {es es' : List ε} {e : ε} (h : Along step G s (es ++ e :: es')) :
    Along step G s es ∧ G (es.foldl step s) e :=
  ⟨(along_append.mp h).1, (along_append.mp h).2.1⟩

theorem Along.imp {G' : σ → ε → Prop} (hG : ∀ s e, G s e → G' s e) {s : σ} {es : List ε}
    (h : Along step G s es) : Along step G' s es := by
  induction es generalizing s with
  | nil => trivial
  | cons e es ih => exact ⟨hG s e h.1, ih h.2⟩

/-- Two guards that agree wherever an invariant holds that guarded steps keep. -/
theorem along_iff_along {G' : σ → ε → Prop} (hI : ∀ s e, I s → G s e → I (step s e))
    (hG : ∀ s e, I s → (G' s e ↔ G s e)) {s : σ} {es : List ε} (hs : I s) :
    Along step G' s es ↔ Along step G s es := by
  induction es generalizing s with
  | nil => exact Iff.rfl
  | cons e es ih =>
    constructor
    · rintro ⟨hg', h⟩
      have hg := (hG s e hs).mp hg'
      exact ⟨hg, (ih (hI s e hs hg)).mp h⟩
    · rintro ⟨hg, h⟩
      exact ⟨(hG s e hs).mpr hg, (ih (hI s e hs hg)).mpr h⟩

/-- There was an event of one kind, and every event since meets the guard. -/
def Since (step : σ → ε → σ) (P G : σ → ε → Prop) (s : σ) (es : List ε) : Prop :=
  ∃ before e after, es = before ++ e :: after ∧ P (before.foldl step s) e ∧
    Along step G (step (before.foldl step s) e) after

namespace Since

variable {P : σ → ε → Prop} {s : σ} {es : List ε} {e : ε}

theorem last (h : P (es.foldl step s) e) : Since step P G s (es ++ [e]) :=
  ⟨es, e, [], rfl, h, trivial⟩

theorem snoc (h : Since step P G s es) (he : G (es.foldl step s) e) :
    Since step P G s (es ++ [e]) := by
  obtain ⟨before, e', after, rfl, hp, hg⟩ := h
  refine ⟨before, e', after ++ [e], by simp, hp, along_append.mpr ⟨hg, ?_, trivial⟩⟩
  rwa [List.foldl_append] at he

theorem imp {G' : σ → ε → Prop} (hG : ∀ s e, G s e → G' s e) (h : Since step P G s es) :
    Since step P G' s es := by
  obtain ⟨before, e', after, he, hp, hg⟩ := h
  exact ⟨before, e', after, he, hp, hg.imp hG⟩

end Since

theorem invariant (hstep : ∀ s e, I s → I (step s e)) {s : σ} (es : List ε) (hs : I s) :
    I (es.foldl step s) := by
  induction es generalizing s with
  | nil => exact hs
  | cons e es ih => exact ih (hstep s e hs)

/-- The property holds in every state of the run, the first and the last included. -/
def Throughout (step : σ → ε → σ) (P : σ → Prop) : σ → List ε → Prop
  | s, [] => P s
  | s, e :: es => P s ∧ Throughout step P (step s e) es

variable {P : σ → Prop}

theorem Throughout.first {s : σ} {es : List ε} (h : Throughout step P s es) : P s := by
  cases es with
  | nil => exact h
  | cons => exact h.1

/-- **Exact guards** within a domain: where a step of the domain keeps the property if
and only if it meets the guard, a run in the domain has the property throughout if and
only if it meets the guard. Of the invariant it is enough that guarded steps keep it. -/
theorem Along.throughout_iff {D : σ → ε → Prop}
    (hI : ∀ s e, D s e → I s → G s e → I (step s e))
    (hP : ∀ s e, D s e → I s → P s → (P (step s e) ↔ G s e)) {s : σ} {es : List ε}
    (hD : Along step D s es) (hs : I s) (hp : P s) :
    Throughout step P s es ↔ Along step G s es := by
  induction es generalizing s with
  | nil => exact ⟨fun _ => trivial, fun _ => hp⟩
  | cons e es ih =>
    have hstep := hP s e hD.1 hs hp
    constructor
    · rintro ⟨-, h⟩
      have hp' := h.first
      have hg := hstep.mp hp'
      exact ⟨hg, (ih hD.2 (hI s e hD.1 hs hg) hp').mp h⟩
    · rintro ⟨hg, h⟩
      have hp' := hstep.mpr hg
      exact ⟨hp, (ih hD.2 (hI s e hD.1 hs hg) hp').mpr h⟩

theorem along_of_forall (hG : ∀ s e, G s e) (s : σ) (es : List ε) : Along step G s es := by
  induction es generalizing s with
  | nil => trivial
  | cons e es ih => exact ⟨hG s e, ih (step s e)⟩

theorem along_of_mem {G : ε → Prop} {es : List ε} (hG : ∀ e ∈ es, G e) (s : σ) :
    Along step (fun _ e => G e) s es := by
  induction es generalizing s with
  | nil => trivial
  | cons e es ih =>
    exact ⟨hG e List.mem_cons_self, ih (fun e' he => hG e' (List.mem_cons_of_mem _ he)) (step s e)⟩

/-- **Exact guards**: where a step keeps the property if and only if it meets the
guard, a run has the property throughout if and only if it meets the guard. -/
theorem throughout_iff_along (hI : ∀ s e, I s → I (step s e))
    (hP : ∀ s e, I s → P s → (P (step s e) ↔ G s e)) {s : σ} {es : List ε} (hs : I s) (hp : P s) :
    Throughout step P s es ↔ Along step G s es :=
  (along_of_forall (G := fun _ _ => True) (fun _ _ => trivial) s es).throughout_iff
    (fun s e _ hs _ => hI s e hs) (fun s e _ => hP s e) hs hp

/-- A property that is never regained holds throughout if it holds at the end. -/
theorem throughout_iff_last (hback : ∀ s e, P (step s e) → P s) {s : σ} {es : List ε} :
    Throughout step P s es ↔ P (es.foldl step s) := by
  induction es generalizing s with
  | nil => exact Iff.rfl
  | cons e es ih =>
    constructor
    · exact fun h => ih.mp h.2
    · intro h
      have hall := ih.mpr h
      exact ⟨hback s e hall.first, hall⟩

end SecureComm.Run
