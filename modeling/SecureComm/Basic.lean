import SecureComm.Lib.BigEndian

/-!
# Byte buffers

`std::vector<uint8_t>` and `std::string` are byte lists. A buffer of fixed
size carries its size (`BytesN`). `pushU32Be` and `readU32Be` are the helpers
every wire format of the library shares; reading past the end throws.
-/

namespace SecureComm

abbrev BytesN (n : Nat) := {b : Bytes // b.length = n}

def octets (cs : List Char) : Bytes := cs.map fun c => UInt8.ofNat c.toNat

def zeros (n : Nat) : Bytes := List.replicate n 0

theorem toNat_add_one {n : UInt32} (h : n.toNat + 1 < 2 ^ 32) : (n + 1).toNat = n.toNat + 1 := by
  rw [UInt32.toNat_add]; exact Nat.mod_eq_of_lt h

theorem toNat_add_one_of_lt {n m : UInt32} (h : n < m) : (n + 1).toNat = n.toNat + 1 := by
  have := UInt32.lt_iff_toNat_lt.mp h
  have := m.toNat_lt
  exact toNat_add_one (by omega)

def pushU32Be (out : Bytes) (v : UInt32) : Bytes := out ++ BigEndian.be32 v

/-- Read a word at an offset and move past it. -/
def readU32Be (input : Bytes) (offset : Nat) : Except String (UInt32 × Nat) :=
  match input.drop offset with
  | b0 :: b1 :: b2 :: b3 :: _ => .ok (BigEndian.word32 b0 b1 b2 b3, offset + 4)
  | _ => .error "read_u32_be: out of bounds"

theorem readU32Be_ok {input : Bytes} {offset : Nat} (h : offset + 4 ≤ input.length) :
    ∃ v, readU32Be input offset = .ok (v, offset + 4) := by
  have hl : (input.drop offset).length = input.length - offset := List.length_drop
  unfold readU32Be
  split
  · exact ⟨_, rfl⟩
  · rename_i hne
    rcases hd : input.drop offset with _ | ⟨b0, _ | ⟨b1, _ | ⟨b2, _ | ⟨b3, t⟩⟩⟩⟩
    case cons.cons.cons.cons => exact absurd hd (hne b0 b1 b2 b3 t)
    all_goals rw [hd] at hl; simp only [List.length_cons, List.length_nil] at hl; omega

/-! ## Reading back -/

/-- From the offset on, the buffer holds the given bytes. -/
def At (input : Bytes) (offset : Nat) (rest : Bytes) : Prop :=
  offset ≤ input.length ∧ input.drop offset = rest

namespace At

variable {input part rest : Bytes} {offset n : Nat}

theorem start (input : Bytes) : At input 0 input := ⟨Nat.zero_le _, rfl⟩

theorem le (h : At input offset (part ++ rest)) (hn : part.length = n) :
    offset + n ≤ input.length := by
  have hl := congrArg List.length h.2
  have := h.1
  rw [List.length_drop, List.length_append] at hl
  omega

theorem next (h : At input offset (part ++ rest)) (hn : part.length = n) :
    At input (offset + n) rest :=
  ⟨h.le hn, by rw [← List.drop_drop, h.2, List.drop_left' hn]⟩

theorem take (h : At input offset (part ++ rest)) (hn : part.length = n) :
    (input.drop offset).take n = part := by rw [h.2, List.take_left' hn]

theorem readU32Be {v : UInt32} (h : At input offset (BigEndian.be32 v ++ rest)) :
    SecureComm.readU32Be input offset = .ok (v, offset + 4) := by
  unfold SecureComm.readU32Be
  rw [h.2]
  simp only [BigEndian.be32, List.cons_append, List.nil_append, BigEndian.word32_be32]

end At

end SecureComm
