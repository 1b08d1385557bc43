import Mathlib.Data.List.GetD
import Mathlib.Data.List.OfFn
import SecureComm.Lib.Cursor

/-!
# Reads through raw pointers

A `Raw` program is given named buffers. It may ask for the size of one, and it
reads cells from the start of one, as many as it pleases. `checked` is the run
that ends at the first read that is not inside its buffer. `exec` is the run on
a memory, where such a read finds whatever lies behind the buffer. As long as
every read is inside, the two agree, and what lies behind makes no difference
(`Contained`).
-/

namespace SecureComm

open Cursor (Fault)

inductive Raw (ι β ε α : Type) where
  | ret (a : α)
  | throw (e : ε)
  | size (b : ι) (next : ℕ → Raw ι β ε α)
  | read (b : ι) (n : ℕ) (next : {l : List β // l.length = n} → Raw ι β ε α)

namespace Raw

variable {ι β ε α γ : Type}

def andThen : Raw ι β ε α → (α → Raw ι β ε γ) → Raw ι β ε γ
  | ret a, f => f a
  | throw e, _ => throw e
  | size b next, f => size b fun n => (next n).andThen f
  | read b n next, f => read b n fun l => (next l).andThen f

instance : Monad (Raw ι β ε) where
  pure := ret
  bind := andThen

def cells (b : ι) (n : ℕ) : Raw ι β ε {l : List β // l.length = n} := read b n ret

def length (b : ι) : Raw ι β ε ℕ := size b ret

/-- As many cells as are wanted from the start of a list, and then those behind it. -/
def readPast (l : List β) (behind : ℕ → β) (n : ℕ) : {l : List β // l.length = n} :=
  ⟨List.ofFn fun i : Fin n => l.getD i (behind (i - l.length)), List.length_ofFn⟩

variable (m : ι → List β)

def checked : Raw ι β ε α → Except (Fault ε) α
  | ret a => .ok a
  | throw e => .error (.rejected e)
  | size b next => (next (m b).length).checked
  | read b n next =>
    if h : n ≤ (m b).length then (next ⟨(m b).take n, List.length_take_of_le h⟩).checked
    else .error (.stray 0 n)

def exec (behind : ι → ℕ → β) : Raw ι β ε α → Except ε α
  | ret a => .ok a
  | throw e => .error e
  | size b next => (next (m b).length).exec behind
  | read b n next => (next (readPast (m b) (behind b) n)).exec behind

/-- **The reads stay inside**: the run throws or returns without a read past a buffer,
and what lies behind the buffers makes no difference to it. -/
structure Contained (p : Raw ι β ε α) : Prop where
  inside : ∀ start stop, p.checked m ≠ .error (.stray start stop)
  determined : ∀ behind behind', p.exec m behind = p.exec m behind'

variable {m} {p : Raw ι β ε α}

theorem checked_bind (f : α → Raw ι β ε γ) :
    (p >>= f).checked m = p.checked m >>= fun a => (f a).checked m := by
  show (p.andThen f).checked m = _
  induction p with
  | ret a => rfl
  | throw e => rfl
  | size b next ih => exact ih _
  | read b n next ih =>
    rw [andThen, checked, checked]
    split
    · exact ih _
    · rfl

theorem checked_cells (b : ι) (n : ℕ) (f : {l : List β // l.length = n} → Raw ι β ε γ) :
    (cells b n >>= f).checked m =
      if h : n ≤ (m b).length then (f ⟨(m b).take n, List.length_take_of_le h⟩).checked m
      else .error (.stray 0 n) := rfl

theorem exec_bind (behind : ι → ℕ → β) (f : α → Raw ι β ε γ) :
    (p >>= f).exec m behind = p.exec m behind >>= fun a => (f a).exec m behind := by
  show (p.andThen f).exec m behind = _
  induction p with
  | ret a => rfl
  | throw e => rfl
  | size b next ih => exact ih _
  | read b n next ih => exact ih _

theorem readPast_of_le {l : List β} {n : ℕ} (h : n ≤ l.length) (behind : ℕ → β) :
    readPast l behind n = ⟨l.take n, List.length_take_of_le h⟩ := by
  refine Subtype.ext (List.ext_getElem ?_ fun i hi hi' => ?_)
  · rw [List.length_take_of_le h]
    exact List.length_ofFn
  · rw [List.length_take_of_le h] at hi'
    simp only [readPast, List.getElem_ofFn, List.getElem_take]
    exact List.getD_eq_getElem _ _ (by omega)

theorem readPast_of_ge {l : List β} {n : ℕ} (h : l.length ≤ n) (behind : ℕ → β) :
    (readPast l behind n).val = l ++ List.ofFn fun i : Fin (n - l.length) => behind i := by
  refine List.ext_getElem ?_ fun i hi hi' => ?_
  · rw [List.length_append, List.length_ofFn, Nat.add_sub_cancel' h]
    exact List.length_ofFn
  · simp only [readPast, List.getElem_ofFn]
    rcases Nat.lt_or_ge i l.length with hil | hil
    · rw [List.getElem_append_left hil, List.getD_eq_getElem _ _ hil]
    · rw [List.getElem_append_right hil, List.getElem_ofFn, List.getD_eq_default _ _ hil]

/-- **A run whose reads are inside** ends on every memory as it does when they are checked. -/
theorem exec_of_checked (behind : ι → ℕ → β) :
    (∀ a, p.checked m = .ok a → p.exec m behind = .ok a) ∧
      ∀ e, p.checked m = .error (.rejected e) → p.exec m behind = .error e := by
  induction p with
  | ret a => exact ⟨fun _ h => by cases h; rfl, nofun⟩
  | throw e => exact ⟨nofun, fun _ h => by cases h; rfl⟩
  | size b next ih => exact ih _
  | read b n next ih =>
    rw [checked, exec]
    split
    · rename_i hn
      rw [readPast_of_le hn]
      exact ih _
    · exact ⟨nofun, nofun⟩

theorem contained_iff :
    Contained m p ↔ ∀ start stop, p.checked m ≠ .error (.stray start stop) := by
  refine ⟨Contained.inside, fun h => ⟨h, fun behind behind' => ?_⟩⟩
  rcases hp : p.checked m with (e | ⟨start, stop⟩) | a
  · rw [(exec_of_checked behind).2 e hp, (exec_of_checked behind').2 e hp]
  · exact absurd hp (h start stop)
  · rw [(exec_of_checked behind).1 a hp, (exec_of_checked behind').1 a hp]

end Raw

end SecureComm
