import SecureComm.Lib.BigEndian
import SecureComm.Lib.Cursor

/-!
# Reading big-endian words

`word32` checks for its four bytes, `word64` shifts in eight bytes without a
check. Both make of given bytes the word that is written as them. A field of
variable size is written behind its length (`lengthPrefixed`).
-/

namespace SecureComm.Cursor.Reader

universe v

variable {ε : Type v} {w : ℕ}

def fourBytes : Reader UInt8 w ε UInt32 := do
  let b0 ← fetch
  let b1 ← fetch
  let b2 ← fetch
  let b3 ← fetch
  return BigEndian.word32 b0 b1 b2 b3

def word32 (e : ε) : Reader UInt8 w ε UInt32 := do
  require 4 e
  fourBytes

def word64 : Reader UInt8 w ε UInt64 := foldFetch BigEndian.shiftIn 8 0

theorem fourBytes_reads (b0 b1 b2 b3 : UInt8) :
    Reads (fourBytes : Reader UInt8 w ε UInt32) ([b0] ++ ([b1] ++ ([b2] ++ ([b3] ++ []))))
      (BigEndian.word32 b0 b1 b2 b3) :=
  (Reads.fetch b0).bind <| (Reads.fetch b1).bind <| (Reads.fetch b2).bind <|
    (Reads.fetch b3).bind <| .pure _

theorem fourBytes_codes :
    Codes (fourBytes : Reader UInt8 w ε UInt32) (fun _ => True) BigEndian.be32 where
  reads v _ := by
    have hv : Reads (fourBytes : Reader UInt8 w ε UInt32) (BigEndian.be32 v) _ :=
      fourBytes_reads ((v >>> 24) &&& 0xFF).toUInt8 ((v >>> 16) &&& 0xFF).toUInt8
        ((v >>> 8) &&& 0xFF).toUInt8 (v &&& 0xFF).toUInt8
    rwa [BigEndian.word32_be32 v] at hv
  yields := by
    refine (Yields.fetch.bind fun b0 => Yields.fetch.bind fun b1 => Yields.fetch.bind fun b2 =>
      Yields.fetch.bind fun b3 => Yields.pure (BigEndian.word32 b0 b1 b2 b3)).mono ?_
    rintro v zs ⟨b0, _, _, rfl, rfl, b1, _, _, rfl, rfl, b2, _, _, rfl, rfl, b3, _, _, rfl, rfl, rfl, rfl⟩
    exact ⟨trivial, (BigEndian.be32_word32 b0 b1 b2 b3).symm⟩

theorem fourBytes_within : Within (fourBytes : Reader UInt8 w ε UInt32) 4 :=
  have hone : ∀ (x : UInt8) xs, xs = [x] → xs.length = 1 := fun _ _ h => by rw [h]; rfl
  Within.fetch.bind .fetch hone fun b0 => Within.fetch.bind .fetch hone fun b1 =>
    Within.fetch.bind .fetch hone fun b2 => Within.fetch.bind .fetch hone fun b3 =>
    .pure (BigEndian.word32 b0 b1 b2 b3)

theorem word32_codes (e : ε) :
    Codes (word32 e : Reader UInt8 w ε UInt32) (fun _ => True) BigEndian.be32 :=
  fourBytes_codes.checked e fun _ _ => Nat.le_refl 4

theorem word32_within (e : ε) (hw : 3 ≤ w) : Within (word32 e : Reader UInt8 w ε UInt32) 0 := by
  have hroom : 2 ^ 2 ≤ 2 ^ (w - 1) := Nat.pow_le_pow_right Nat.two_pos (by omega)
  exact fourBytes_within.require hroom (by omega)

theorem word32_cases (e : ε) (hw : 3 ≤ w) {b : Buffer UInt8 w} {off : ℕ}
    (hle : off ≤ b.cells.length) :
    (∃ b0 b1 b2 b3 rest, b.cells.drop off = b0 :: b1 :: b2 :: b3 :: rest ∧
      off + 4 ≤ b.cells.length ∧ b.cells.drop (off + 4) = rest ∧ word32 e b off = .ok (BigEndian.word32 b0 b1 b2 b3, off + 4)) ∨
    (b.cells.drop off).length < 4 ∧ word32 e b off = .error (.rejected e) := by
  have hroom : 2 ^ 2 ≤ 2 ^ (w - 1) := Nat.pow_le_pow_right Nat.two_pos (by omega)
  have hl : (b.cells.drop off).length = b.cells.length - off := List.length_drop
  rcases hd : b.cells.drop off with _ | ⟨b0, _ | ⟨b1, _ | ⟨b2, _ | ⟨b3, rest⟩⟩⟩⟩
  case cons.cons.cons.cons =>
    have hpast : b.cells.drop (off + 4) = rest := by rw [← List.drop_drop, hd]; rfl
    rw [hd] at hl
    simp only [List.length_cons] at hl
    refine .inl ⟨b0, b1, b2, b3, rest, rfl, by omega, hpast, ?_⟩
    exact (word32_codes e).reads (BigEndian.word32 b0 b1 b2 b3) trivial b off rest hle
      (by rw [hd, BigEndian.be32_word32]; rfl)
  all_goals
    rw [hd] at hl
    simp only [List.length_cons, List.length_nil] at hl ⊢
    exact .inr ⟨by omega, bind_error (require_fails e hroom (by omega) hle (by omega))⟩

theorem word64_codes :
    Codes (word64 : Reader UInt8 w ε UInt64) (fun _ => True) BigEndian.be64 where
  reads v _ := by
    have h : Reads (word64 : Reader UInt8 w ε UInt64) (BigEndian.be64 v) _ :=
      Reads.foldFetch BigEndian.shiftIn (BigEndian.be64 v) 0
    rwa [show (BigEndian.be64 v).foldl BigEndian.shiftIn 0 = v from BigEndian.word64_be64 v] at h
  yields := by
    refine (Yields.foldFetch BigEndian.shiftIn 8 0).mono ?_
    rintro v xs ⟨rfl, hl⟩
    exact ⟨trivial, (BigEndian.be64_word64 hl).symm⟩

theorem word64_ok {b : Buffer UInt8 w} {off : ℕ} (h : off + 8 ≤ b.cells.length) :
    (word64 : Reader UInt8 w ε UInt64) b off =
      .ok (BigEndian.word64 ((b.cells.drop off).take 8), off + 8) := by
  have hl : ((b.cells.drop off).take 8).length = 8 := by
    rw [List.length_take, List.length_drop]
    omega
  exact word64_codes.reads _ trivial b off ((b.cells.drop off).drop 8) (by omega)
    (by rw [BigEndian.be64_word64 hl, List.take_append_drop])

theorem word64_within : Within (word64 : Reader UInt8 w ε UInt64) 8 := .foldFetch _ 8 0

/-! ## Fields of variable size -/

def lengthPrefixed (field : List UInt8) : List UInt8 :=
  BigEndian.be32 (UInt32.ofNat field.length) ++ field

@[simp] theorem lengthPrefixed_length (field : List UInt8) :
    (lengthPrefixed field).length = 4 + field.length := by
  rw [lengthPrefixed, List.length_append, BigEndian.be32_length]

theorem slice_codes (n : ℕ) : Codes (slice n : Reader UInt8 w ε (List UInt8))
    (fun field => field.length = n) id where
  reads field hl := hl ▸ Reads.slice field
  yields := (Yields.slice n).mono fun _ _ ⟨hx, hl⟩ => ⟨hl, hx⟩

theorem lengthPrefixed_codes {r : Reader UInt8 w ε UInt32}
    {f : UInt32 → Reader UInt8 w ε (List UInt8)} (h : Codes r (fun _ => True) BigEndian.be32)
    (h' : ∀ len, Codes (f len) (fun field => field.length = len.toNat) id) :
    Codes (r >>= f) (fun field => field.length < 2 ^ 32) lengthPrefixed where
  reads field hl := by
    have hn : (UInt32.ofNat field.length).toNat = field.length := UInt32.toNat_ofNat_of_lt' hl
    exact (h.reads _ trivial).bind ((h' _).reads field hn.symm)
  yields := by
    refine (h.yields.bind fun len => (h' len).yields).mono ?_
    rintro field zs ⟨len, _, _, rfl, ⟨-, rfl⟩, hl, rfl⟩
    have hlen := len.toNat_lt
    exact ⟨hl ▸ hlen, by rw [lengthPrefixed, hl, UInt32.ofNat_toNat]⟩

end SecureComm.Cursor.Reader
