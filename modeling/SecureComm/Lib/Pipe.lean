import Mathlib.Data.List.Basic

/-!
# Pipes

A first-in first-out pipe that remembers all that was put in, with the number of
values that have come out.
-/

namespace SecureComm

structure Pipe (α : Type*) where
  put : List α := []
  got : ℕ := 0
  got_le : got ≤ put.length := by exact Nat.zero_le _

namespace Pipe

variable {α : Type*} {p q : Pipe α} {x : α}

def out (p : Pipe α) : List α := p.put.take p.got

def inside (p : Pipe α) : List α := p.put.drop p.got

def push (p : Pipe α) (xs : List α) : Pipe α where
  put := p.put ++ xs
  got := p.got
  got_le := by
    rw [List.length_append]
    exact Nat.le_add_right_of_le p.got_le

def pop (p : Pipe α) : Option (α × Pipe α) :=
  if h : p.got < p.put.length then some (p.put[p.got], { p with got := p.got + 1, got_le := h })
  else none

theorem out_append_inside (p : Pipe α) : p.out ++ p.inside = p.put := List.take_append_drop _ _

@[simp] theorem push_put (p : Pipe α) (xs : List α) : (p.push xs).put = p.put ++ xs := rfl

@[simp] theorem push_nil (p : Pipe α) : p.push [] = p := by
  obtain ⟨put, got, h⟩ := p
  simp [push]

@[simp] theorem out_push (p : Pipe α) (xs : List α) : (p.push xs).out = p.out :=
  List.take_append_of_le_length p.got_le

@[simp] theorem inside_push (p : Pipe α) (xs : List α) : (p.push xs).inside = p.inside ++ xs :=
  List.drop_append_of_le_length p.got_le

theorem pop_eq_some (h : p.pop = some (x, q)) :
    q.put = p.put ∧ q.out = p.out ++ [x] ∧ p.inside = x :: q.inside := by
  unfold pop at h
  split at h
  · rename_i hlt
    obtain ⟨rfl, rfl⟩ := Prod.mk.inj (Option.some.inj h)
    exact ⟨rfl, (List.take_append_getElem hlt).symm, List.drop_eq_getElem_cons hlt⟩
  · cases h

end Pipe

end SecureComm
