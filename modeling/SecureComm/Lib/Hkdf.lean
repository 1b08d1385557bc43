import Mathlib.Data.List.Basic

/-!
# HKDF

Key derivation from a keyed hash whose output has `w` cells. `extract` hashes
the keying material under a salt. `expand` takes as many cells as are wanted
from a stream of blocks: each block is the hash of the one before, an info
string and the number of the block, and the first has none before it.
-/

namespace SecureComm.Hkdf

variable {β : Type*} {w : ℕ} (hash : List β → List β → {b : List β // b.length = w})

/-- Without a salt, or with an empty one, `zero` stands for it. -/
def extract (zero : List β) (salt : Option (List β)) (ikm : List β) : List β :=
  (hash
    (match salt with
    | none | some [] => zero
    | some salt => salt) ikm).val

variable (byte : ℕ → β) (prk info : List β)

/-- `T(i)`, of which `T(0)` is empty. -/
def block : ℕ → List β
  | 0 => []
  | i + 1 => (hash prk (block i ++ info ++ [byte (i + 1)])).val

/-- `T(1) | T(2) | ... | T(n)`. -/
def stream : ℕ → List β
  | 0 => []
  | n + 1 => stream n ++ block hash byte prk info (n + 1)

/-- How many blocks make `len` cells. -/
def blocks (w len : ℕ) : ℕ := (len + w - 1) / w

def expand (len : ℕ) : List β := (stream hash byte prk info (blocks w len)).take len

variable {hash byte prk info}

theorem length_block (i : ℕ) : (block hash byte prk info (i + 1)).length = w := (hash _ _).property

theorem length_stream (n : ℕ) : (stream hash byte prk info n).length = n * w := by
  induction n with
  | zero => rw [Nat.zero_mul]; rfl
  | succ n ih => rw [stream, List.length_append, ih, length_block, Nat.add_mul, Nat.one_mul]

/-- The next block, or what is wanted of it, goes behind the blocks before it. -/
theorem take_stream_succ (n len : ℕ) :
    (stream hash byte prk info (n + 1)).take len =
      (stream hash byte prk info n).take len ++
        (block hash byte prk info (n + 1)).take (len - n * w) := by
  rw [stream, List.take_append, length_stream]

theorem take_stream_of_le {m n len : ℕ} (hmn : m ≤ n) (hlen : len ≤ m * w) :
    (stream hash byte prk info n).take len = (stream hash byte prk info m).take len := by
  induction hmn with
  | refl => rfl
  | @step n hmn ih =>
    have hle : m * w ≤ n * w := Nat.mul_le_mul_right w hmn
    rw [take_stream_succ, Nat.sub_eq_zero_of_le (by omega), List.take_zero, List.append_nil, ih]

theorem le_blocks_mul (hw : 0 < w) (len : ℕ) : len ≤ blocks w len * w := by
  have hdiv := Nat.div_add_mod (len + w - 1) w
  have hmod := Nat.mod_lt (len + w - 1) hw
  rw [blocks, Nat.mul_comm]
  omega

/-- **Any number of blocks** that is enough gives the same output. -/
theorem expand_eq_take (hw : 0 < w) {n len : ℕ} (hlen : len ≤ n * w) :
    expand hash byte prk info len = (stream hash byte prk info n).take len := by
  rcases Nat.le_total n (blocks w len) with hn | hn
  · exact take_stream_of_le hn hlen
  · exact (take_stream_of_le hn (le_blocks_mul hw len)).symm

theorem length_expand (hw : 0 < w) (len : ℕ) : (expand hash byte prk info len).length = len := by
  rw [expand, List.length_take, length_stream, Nat.min_eq_left (le_blocks_mul hw len)]

end SecureComm.Hkdf
