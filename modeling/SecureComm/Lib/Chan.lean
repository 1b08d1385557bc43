import Mathlib.Data.List.Basic

/-!
# Buffered channels

A channel holds at most `cap` values, first in, first out; that it never holds
more is part of the type. `offer` is a send that does not block: it reports
whether there was room. What a closed channel still holds can be received.
-/

namespace SecureComm

structure Chan (α : Type*) (cap : ℕ) where
  buf : List α
  closed : Bool
  le_cap : buf.length ≤ cap

namespace Chan

variable {α : Type*} {cap : ℕ}

/-- An open, empty channel. -/
def make : Chan α cap := ⟨[], false, Nat.zero_le _⟩

instance : Inhabited (Chan α cap) := ⟨make⟩

def room (ch : Chan α cap) : ℕ := cap - ch.buf.length

/-- A send that does not block; a full channel refuses the value. -/
def offer (ch : Chan α cap) (x : α) : Chan α cap × Bool :=
  if h : ch.buf.length < cap then
    ({ ch with buf := ch.buf ++ [x], le_cap := by simpa [Nat.succ_le_iff] using h }, true)
  else (ch, false)

def offerAll (ch : Chan α cap) (xs : List α) : Chan α cap :=
  xs.foldl (fun ch x => (ch.offer x).1) ch

def recv (ch : Chan α cap) : Option (α × Chan α cap) :=
  match h : ch.buf with
  | [] => none
  | x :: rest =>
    some (x, { ch with
      buf := rest
      le_cap := by have := ch.le_cap; rw [h, List.length_cons] at this; omega })

def close (ch : Chan α cap) : Chan α cap := { ch with closed := true }

@[simp] theorem make_buf : (make : Chan α cap).buf = [] := rfl
@[simp] theorem make_closed : (make : Chan α cap).closed = false := rfl
@[simp] theorem close_buf (ch : Chan α cap) : ch.close.buf = ch.buf := rfl
@[simp] theorem close_closed (ch : Chan α cap) : ch.close.closed = true := rfl

theorem offer_accepted {ch : Chan α cap} {x : α} (h : (ch.offer x).2 = true) :
    (ch.offer x).1.buf = ch.buf ++ [x] := by
  unfold offer at h ⊢
  split
  · rfl
  · rename_i hf; rw [dif_neg hf] at h; exact absurd h Bool.false_ne_true

theorem offer_refused {ch : Chan α cap} {x : α} (h : (ch.offer x).2 = false) :
    (ch.offer x).1 = ch := by
  unfold offer at h ⊢
  split
  · rename_i hf; rw [dif_pos hf] at h; exact absurd h.symm Bool.false_ne_true
  · rfl

@[simp] theorem offer_closed (ch : Chan α cap) (x : α) : (ch.offer x).1.closed = ch.closed := by
  unfold offer; split <;> rfl

theorem offer_eq_true_iff {ch : Chan α cap} {x : α} :
    (ch.offer x).2 = true ↔ ch.buf.length < cap := by
  unfold offer
  split <;> simp [*]

@[simp] theorem offerAll_closed (ch : Chan α cap) (xs : List α) :
    (ch.offerAll xs).closed = ch.closed := by
  unfold offerAll
  induction xs generalizing ch with
  | nil => rfl
  | cons x xs ih => rw [List.foldl_cons, ih, offer_closed]

/-- **What offering a list does**: the channel takes as many as it has room
for, from the front of the list; the rest is dropped. -/
theorem offerAll_buf (ch : Chan α cap) (xs : List α) :
    (ch.offerAll xs).buf = ch.buf ++ xs.take ch.room := by
  unfold offerAll
  induction xs generalizing ch with
  | nil => simp
  | cons x xs ih =>
    rw [List.foldl_cons, ih]
    unfold room
    cases h : (ch.offer x).2 with
    | true =>
      have hlt := offer_eq_true_iff.mp h
      rw [offer_accepted h, List.length_append, List.length_singleton,
        show cap - ch.buf.length = cap - (ch.buf.length + 1) + 1 by omega, List.take_succ_cons,
        List.append_assoc, List.singleton_append]
    | false =>
      have hfull : ¬ ch.buf.length < cap := fun hlt => by
        rw [offer_eq_true_iff.mpr hlt] at h; exact absurd h.symm Bool.false_ne_true
      rw [offer_refused h, show cap - ch.buf.length = 0 by omega, List.take_zero, List.take_zero]

theorem recv_eq_some {ch rest : Chan α cap} {x : α} (h : ch.recv = some (x, rest)) :
    ch.buf = x :: rest.buf ∧ rest.closed = ch.closed := by
  unfold recv at h
  split at h
  · exact absurd h (by simp)
  · rename_i hb
    obtain ⟨rfl, rfl⟩ := Prod.mk.inj (Option.some.inj h)
    exact ⟨hb, rfl⟩

end Chan

end SecureComm
