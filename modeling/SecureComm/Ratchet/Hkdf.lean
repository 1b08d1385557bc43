import SecureComm.Lib.Hkdf
import SecureComm.Ratchet.Kdf

/-!
# The helpers of HKDF

`hkdf_extract` and `hkdf_expand` against HKDF over HMAC-SHA256. The state of the
loop after `i` rounds is a function of `i`: the counter is `i + 1`, the previous
block is `T(i)`, and what was generated is the start of `T(1) | ... | T(i)`. The
counter is a byte, so this holds for 255 rounds, and no output of up to 255
blocks needs more.
-/

namespace SecureComm

open Hkdf

variable (S : Sodium)

/-- `T(1) | ... | T(n)` over HMAC-SHA256, numbered with one byte. -/
abbrev hkdfStream (prk info : Bytes) (n : Nat) : Bytes := stream S.hmac UInt8.ofNat prk info n

variable {okmLen i : Nat}

theorem counter_gt_one_iff (h : i < 255) : UInt8.ofNat (i + 1) > 1 ↔ 0 < i := by
  rw [gt_iff_lt, UInt8.lt_iff_toNat_lt, UInt8.toNat_ofNat_of_lt' (by show i + 1 < 256; omega)]
  show 1 < i + 1 ↔ 0 < i
  omega

theorem counter_succ (i : Nat) : UInt8.ofNat (i + 1) + 1 = UInt8.ofNat (i + 1 + 1) :=
  (UInt8.ofNat_add (i + 1) 1).symm

theorem round_block (prk info : Bytes) {previous : Bytes} (h : i < 255)
    (hprev : 0 < i → previous = block S.hmac UInt8.ofNat prk info i) :
    (S.hmac prk ((if UInt8.ofNat (i + 1) > 1 then previous else []) ++ info ++
      [UInt8.ofNat (i + 1)])).val = block S.hmac UInt8.ofNat prk info (i + 1) := by
  have hfirst : (if UInt8.ofNat (i + 1) > 1 then previous else []) =
      block S.hmac UInt8.ofNat prk info i := by
    by_cases hi : 0 < i
    · rw [if_pos ((counter_gt_one_iff h).mpr hi), hprev hi]
    · obtain rfl : i = 0 := by omega
      rw [if_neg (mt (counter_gt_one_iff h).mp hi)]
      rfl
  rw [hfirst, block]

/-- **The loop** from its state after `i` rounds. -/
theorem hkdfExpandLoop_eq (prk info : Bytes) (hlen : okmLen ≤ 255 * 32) (fuel : Nat)
    (hfuel : okmLen ≤ fuel + i * 32) (previous : Bytes)
    (hprev : 0 < i → previous = block S.hmac UInt8.ofNat prk info i) :
    hkdfExpandLoop S prk info okmLen fuel (min okmLen (i * 32)) (UInt8.ofNat (i + 1)) previous
      ((hkdfStream S prk info i).take okmLen) = expand S.hmac UInt8.ofNat prk info okmLen := by
  induction fuel generalizing i previous with
  | zero => exact (expand_eq_take (by decide) (by omega)).symm
  | succ fuel ih =>
    rcases Nat.lt_or_ge (i * 32) okmLen with hi | hi
    · have hround := round_block S prk info (by omega) hprev
      have hcopied : min okmLen (i * 32) + min (okmLen - min okmLen (i * 32)) 32 =
          min okmLen ((i + 1) * 32) := by omega
      have hcopy : (block S.hmac UInt8.ofNat prk info (i + 1)).take
          (min (okmLen - min okmLen (i * 32)) 32) =
            (block S.hmac UInt8.ofNat prk info (i + 1)).take (okmLen - i * 32) := by
        rw [Nat.min_eq_right (Nat.le_of_lt hi), ← List.take_take, List.take_of_length_le
          (l := block S.hmac UInt8.ofNat prk info (i + 1)) (Nat.le_of_eq (length_block i))]
      rw [hkdfExpandLoop, if_pos (by omega)]
      simp only [hround, hcopied, hcopy, counter_succ]
      rw [← take_stream_succ]
      exact ih (by omega) _ fun _ => rfl
    · rw [hkdfExpandLoop_done S prk info (by omega)]
      exact (expand_eq_take (by decide) hi).symm

/-- **The helpers are HKDF**: `hkdf_extract` for every salt, absent or not, and
`hkdf_expand` for every length of up to 255 blocks. The loop comes to its end
by itself, however many more rounds it is given, and writes exactly `okmLen` bytes. -/
theorem hkdf_correct (S : Sodium) :
    (∀ (salt : Option Bytes) (ikm : Bytes),
      hkdfExtract S (salt.getD []) ikm = extract S.hmac (zeros 32) salt ikm) ∧
    ∀ (prk info : Bytes) (okmLen : Nat), okmLen ≤ 255 * 32 →
      (∀ fuel, okmLen ≤ fuel → hkdfExpandLoop S prk info okmLen fuel 0 1 (zeros 32) [] =
        hkdfExpand S okmLen prk info) ∧
      (hkdfExpand S okmLen prk info).length = okmLen ∧
      ∀ n, okmLen ≤ n * 32 →
        hkdfExpand S okmLen prk info = (hkdfStream S prk info n).take okmLen := by
  refine ⟨fun salt ikm => ?_, fun prk info okmLen hlen => ?_⟩
  · rcases salt with _ | _ | ⟨b, salt⟩
    · rfl
    · rfl
    · exact hkdfExtract_salt S (List.cons_ne_nil b salt) ikm
  · have hloop : ∀ fuel, okmLen ≤ fuel → hkdfExpandLoop S prk info okmLen fuel 0 1 (zeros 32) [] =
        expand S.hmac UInt8.ofNat prk info okmLen := fun fuel hfuel => by
      have hnone : (hkdfStream S prk info 0).take okmLen = [] := List.take_nil
      have h := hkdfExpandLoop_eq S (i := 0) prk info hlen fuel hfuel (zeros 32) nofun
      rw [Nat.zero_mul, Nat.min_zero, hnone] at h
      exact h
    have hexpand : hkdfExpand S okmLen prk info = expand S.hmac UInt8.ofNat prk info okmLen :=
      hloop okmLen (Nat.le_refl okmLen)
    rw [hexpand]
    exact ⟨hloop, length_expand (by decide) okmLen, fun n => expand_eq_take (by decide)⟩

/-- 48 bytes are the first of two blocks. -/
theorem hkdf_correct_two_blocks :
    (hkdfExpand Sodium.sample 48 [1] [2]).length = 48 ∧
      hkdfExpand Sodium.sample 48 [1] [2] = (hkdfStream Sodium.sample [1] [2] 2).take 48 := by
  obtain ⟨-, hlength, hstream⟩ := (hkdf_correct Sodium.sample).2 [1] [2] 48 (by decide)
  exact ⟨hlength, hstream 2 (by decide)⟩

end SecureComm
