import Mathlib.Data.Set.Insert
import Mathlib.Order.BooleanAlgebra.Set

/-!
# Condition variables

A thread waits on a condition variable until a predicate holds. It tests the
predicate under the mutex and goes to sleep, which releases the mutex; the threads
that make the predicate true notify it afterwards. A notification that comes
between the test and the sleep reaches nobody. Where the predicate is only ever
made true under the mutex, that is no loss: the test then saw it, or the
notification is yet to come (`Seen.heard`).
-/

namespace SecureComm

/-- Where the waiting thread is. -/
inductive Waiter where
  | away
  /-- It has found the predicate false and still holds the mutex. -/
  | testing
  | blocked
  deriving DecidableEq

namespace Waiter

def notified : Waiter → Waiter
  | blocked => away
  | w => w

theorem notified_eq_away {w : Waiter} : w.notified = away ↔ w ≠ testing := by
  cases w <;> simp [notified]

end Waiter

/-- The predicate that is waited for, and the threads that have made it true and
have yet to notify. -/
structure Condition (κ : Type*) where
  waiter : Waiter
  holds : Prop
  pending : Set κ

namespace Condition

variable {κ : Type*}

inductive Event (κ : Type*) where
  | test
  | block
  /-- A wake-up that nobody here has sent. -/
  | wake
  | raise (k : κ)
  | notify (k : κ)
  /-- The predicate changes while the thread does not wait. -/
  | assign (holds : Prop)
  | idle

inductive Step (c : Condition κ) : Event κ → Condition κ → Prop where
  | test (hw : c.waiter = .away) (hp : ¬ c.holds) : Step c .test { c with waiter := .testing }
  | block (hw : c.waiter = .testing) : Step c .block { c with waiter := .blocked }
  | wake (hw : c.waiter = .blocked) : Step c .wake { c with waiter := .away }
  | raise (k : κ) : Step c (.raise k) { c with holds := True, pending := insert k c.pending }
  | notify (k : κ) (hk : k ∈ c.pending) :
      Step c (.notify k) { c with waiter := c.waiter.notified, pending := c.pending \ {k} }
  | assign (P : Prop) (hw : c.waiter = .away) : Step c (.assign P) { c with holds := P }
  | idle : Step c .idle c

/-- The thread waits for what is already true, and nobody is going to wake it. -/
structure Lost (c : Condition κ) : Prop where
  waits : c.waiter ≠ .away
  holds : c.holds
  nobody : c.pending = ∅

/-- The last notification does not come between the test and the sleep of a thread
whose predicate has become true there. -/
def Heard (c : Condition κ) : Event κ → Prop
  | .notify k => c.waiter = .testing → c.holds → ¬ c.pending ⊆ {k}
  | _ => True

/-- The predicate is made true under the mutex. -/
def Locked (c : Condition κ) : Event κ → Prop
  | .raise _ => c.waiter ≠ .testing
  | _ => True

/-- What the test has seen is still so. -/
def Seen (c : Condition κ) : Prop := c.waiter = .testing → ¬ c.holds

variable {c c' : Condition κ} {e : Event κ}

/-- **A step loses the wake-up** if and only if it is a notification that is not heard. -/
theorem Step.lost_iff (h : Step c e c') (hc : ¬ c.Lost) : ¬ c'.Lost ↔ c.Heard e := by
  cases h with
  | test hw hp => exact iff_of_true (fun hl => hp hl.holds) trivial
  | block hw => exact iff_of_true (fun hl => hc ⟨by simp [hw], hl.holds, hl.nobody⟩) trivial
  | wake hw => exact iff_of_true (fun hl => hl.waits rfl) trivial
  | raise k =>
    exact iff_of_true (fun hl => (Set.insert_nonempty k c.pending).ne_empty hl.nobody) trivial
  | notify k hk =>
    constructor
    · intro hno hw hp hsub
      refine hno ⟨?_, hp, Set.sdiff_eq_empty.mpr hsub⟩
      simp [hw, Waiter.notified]
    · intro hheard hl
      have hw : c.waiter = .testing := by
        by_contra hne
        exact hl.waits (Waiter.notified_eq_away.mpr hne)
      exact hheard hw hl.holds (Set.sdiff_eq_empty.mp hl.nobody)
  | assign P hw => exact iff_of_true (fun hl => hl.waits hw) trivial
  | idle => exact iff_of_true hc trivial

theorem Step.seen (h : Step c e c') (hlock : c.Locked e) (hc : c.Seen) : c'.Seen := by
  cases h with
  | test hw hp => exact fun _ => hp
  | block hw => exact nofun
  | wake hw => exact nofun
  | raise k => exact fun hw => absurd hw hlock
  | notify k hk =>
    intro hw
    have hw' : c.waiter = .testing := by
      cases hc' : c.waiter <;> simp [hc', Waiter.notified] at hw ⊢
    exact hc hw'
  | assign P hw => exact fun hw' => absurd (hw.symm.trans hw') nofun
  | idle => exact hc

/-- **Under the mutex** no notification goes unheard. -/
theorem Seen.heard (hc : c.Seen) : c.Heard e := by
  cases e with
  | notify k => exact fun hw hp => absurd hp (hc hw)
  | _ => trivial

/-- A lost wake-up stays lost until the predicate is made true again or the thread
wakes up by itself. -/
theorem Step.lost (h : Step c e c') (hraise : ∀ k, e ≠ .raise k) (hwake : e ≠ .wake) (hc : c.Lost) :
    c'.Lost := by
  cases h with
  | test hw hp => exact absurd hw hc.waits
  | block hw => exact ⟨nofun, hc.holds, hc.nobody⟩
  | wake hw => exact absurd rfl hwake
  | raise k => exact absurd rfl (hraise k)
  | notify k hk => exact absurd (hc.nobody ▸ hk) (Set.notMem_empty k)
  | assign P hw => exact absurd hw hc.waits
  | idle => exact hc

end Condition

end SecureComm
