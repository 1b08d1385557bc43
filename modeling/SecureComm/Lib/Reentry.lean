import Mathlib.Logic.Basic

/-!
# Calls back into a monitor

A monitor is an object with states `σ` and methods `μ`, some of which lock its
mutex from their start to their end; the mutex is not recursive. A callback is a
`Program` of method calls, each chosen by the results (`ρ`) of those before it.
It is run while its thread holds the mutex, or while it does not; a thread that
locks a mutex it holds goes no further.
-/

namespace SecureComm

inductive Program (μ ρ : Type*) where
  | done
  /-- It ends with an exception. -/
  | raise
  | call (method : μ) (next : ρ → Program μ ρ)

structure Monitor (σ μ ρ : Type*) where
  exec : σ → μ → σ × ρ
  locks : μ → Bool

inductive Ending (σ : Type*) where
  | returned (s : σ)
  | raised (s : σ)
  /-- The thread waits for a mutex that it holds. -/
  | stuck

namespace Ending

variable {σ : Type*}

def Completes : Ending σ → Prop
  | .returned _ | .raised _ => True
  | .stuck => False

instance : ∀ o : Ending σ, Decidable o.Completes
  | .returned _ | .raised _ => .isTrue trivial
  | .stuck => .isFalse id

end Ending

namespace Program

variable {σ μ ρ : Type*} (M : Monitor σ μ ρ)

/-- The program run by a thread that holds the mutex, or does not. -/
def run (held : Bool) : Program μ ρ → σ → Ending σ
  | .done, s => .returned s
  | .raise, s => .raised s
  | .call m next, s =>
    if held && M.locks m then .stuck else (next (M.exec s m).2).run held (M.exec s m).1

/-- The program where some calls do not return: it goes as far as the first of these. -/
def cut (returns : ρ → Bool) : Program μ ρ → Program μ ρ
  | .done => .done
  | .raise => .raise
  | .call m next => .call m fun r => if returns r then (next r).cut returns else .raise

/-- From the state on, the program calls only methods that do not lock. -/
def LockFree : Program μ ρ → σ → Prop
  | .done, _ | .raise, _ => True
  | .call m next, s => M.locks m = false ∧ (next (M.exec s m).2).LockFree (M.exec s m).1

variable {M}

theorem run_free_completes (p : Program μ ρ) (s : σ) : (p.run M false s).Completes := by
  induction p generalizing s with
  | done => trivial
  | raise => trivial
  | call m next ih =>
    rw [run, Bool.false_and, if_neg Bool.false_ne_true]
    exact ih _ _

/-- **A thread that holds the mutex** completes a program if and only if it locks nothing. -/
theorem run_held_completes_iff (p : Program μ ρ) (s : σ) :
    (p.run M true s).Completes ↔ p.LockFree M s := by
  induction p generalizing s with
  | done => exact Iff.rfl
  | raise => exact Iff.rfl
  | call m next ih =>
    rw [run, Bool.true_and, LockFree]
    rcases hm : M.locks m with _ | _
    · rw [if_neg Bool.false_ne_true, and_iff_right rfl]
      exact ih _ _
    · rw [if_pos rfl]
      exact iff_of_false id fun h => nomatch h.1

end Program

end SecureComm
