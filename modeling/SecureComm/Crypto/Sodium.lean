import Mathlib.Data.Nat.ModEq
import SecureComm.Basic

/-!
# The primitives of libsodium

The library calls libsodium for every primitive; the calls are parameters. A
`Sodium` fixes one function for each, with the output sizes in the types. What
is assumed of them beyond that is named here and taken as a hypothesis where a
result needs it.

`sample` is a concrete instance to evaluate the definitions on: keys are
hashed by adding a polynomial of the message, key agreement adds the scalars,
and sealing frames the key, nonce and header in front of the message.
-/

namespace SecureComm

structure Sodium where
  /-- `crypto_auth_hmacsha256` (in one call or init, update and final): key, message. -/
  hmac : Bytes → Bytes → BytesN 32
  /-- `crypto_generichash` with 32 bytes of output: key, message. -/
  genericHash : Bytes → Bytes → BytesN 32
  /-- `crypto_scalarmult`: scalar, point; `none` is a nonzero return. -/
  scalarmult : BytesN 32 → BytesN 32 → Option (BytesN 32)
  /-- `crypto_scalarmult_base`. -/
  scalarmultBase : BytesN 32 → BytesN 32
  /-- `crypto_aead_chacha20poly1305_ietf_encrypt`: key, nonce, additional data, message. -/
  aeadEncrypt : Bytes → Bytes → Bytes → Bytes → Bytes
  /-- `crypto_aead_chacha20poly1305_ietf_decrypt`; `none` is a nonzero return. -/
  aeadDecrypt : Bytes → Bytes → Bytes → Bytes → Option Bytes
  aeadEncrypt_length : ∀ k n a m, 16 ≤ (aeadEncrypt k n a m).length

namespace Sodium

/-- Opening undoes sealing under the same key, nonce and header. -/
def AeadOpens (S : Sodium) : Prop :=
  ∀ k n a m, S.aeadDecrypt k n a (S.aeadEncrypt k n a m) = some m

/-- **Ideal AEAD**: opening undoes sealing, and otherwise fails: what opens was
sealed, and under one key and header only. -/
structure AeadIdeal (S : Sodium) : Prop where
  opens : S.AeadOpens
  sealed : ∀ k n a c m, S.aeadDecrypt k n a c = some m → c = S.aeadEncrypt k n a m
  binding : ∀ k k' n a a' m m', S.aeadEncrypt k n a m = S.aeadEncrypt k' n a' m' → k = k' ∧ a = a'

theorem AeadIdeal.key_unique {S : Sodium} (h : S.AeadIdeal) {k k' n a c m m' : Bytes}
    (hk : S.aeadDecrypt k n a c = some m) (hk' : S.aeadDecrypt k' n a c = some m') : k = k' :=
  (h.binding k k' n a a m m' ((h.sealed k n a c m hk).symm.trans (h.sealed k' n a c m' hk'))).1

/-- Two key pairs agree: each scalar with the other's public point gives one
result (also when it is a failure). -/
def Agrees (S : Sodium) (a b : BytesN 32) : Prop :=
  S.scalarmult a (S.scalarmultBase b) = S.scalarmult b (S.scalarmultBase a)

/-! ## A concrete instance -/

namespace Sample

/-- The number of a byte string, most significant byte first. -/
def natOf (b : Bytes) : Nat := b.foldl (fun n b => n * 256 + b.toNat) 0

/-- The last `len` base-256 digits of a number. -/
def bytesOf : Nat → Nat → Bytes
  | 0, _ => []
  | len + 1, n => bytesOf len (n / 256) ++ [UInt8.ofNat n]

theorem bytesOf_length (len n : Nat) : (bytesOf len n).length = len := by
  induction len generalizing n with
  | zero => rfl
  | succ len ih => simp [bytesOf, ih]

theorem natOf_bytesOf (len n : Nat) : natOf (bytesOf len n) = n % 256 ^ len := by
  induction len generalizing n with
  | zero => simp [bytesOf, natOf, Nat.mod_one]
  | succ len ih =>
    have hstep : natOf (bytesOf (len + 1) n) = natOf (bytesOf len (n / 256)) * 256 + n % 256 := by
      simp [natOf, bytesOf, List.foldl_append]
    rw [hstep, ih, Nat.pow_succ', Nat.mod_mul]
    omega

/-- A polynomial of a message. -/
def digest (m : Bytes) : Nat := m.foldl (fun h b => h * 257 + b.toNat + 1) 0

def block (n : Nat) : BytesN 32 := ⟨bytesOf 32 n, bytesOf_length 32 n⟩

theorem natOf_block (n : Nat) : natOf (block n).val = n % 256 ^ 32 := natOf_bytesOf 32 n

theorem block_add_inj {k a b : Nat} (h : block (k + a) = block (k + b)) :
    a ≡ b [MOD 256 ^ 32] := by
  have hn := congrArg natOf (congrArg Subtype.val h)
  rw [natOf_block, natOf_block] at hn
  exact Nat.ModEq.add_left_cancel' k hn

def frame : Bytes → Bytes
  | [] => [0]
  | b :: bs => 1 :: b :: frame bs

theorem frame_length (bs : Bytes) : (frame bs).length = 2 * bs.length + 1 := by
  induction bs with
  | nil => rfl
  | cons b bs ih =>
    simp only [frame, List.length_cons, ih]
    omega

theorem frame_append_inj : ∀ {xs ys s t : Bytes}, frame xs ++ s = frame ys ++ t → xs = ys ∧ s = t
  | [], [], _, _, h => ⟨rfl, List.cons.inj h |>.2⟩
  | [], _ :: _, _, _, h => by simp [frame] at h
  | _ :: _, [], _, _, h => by simp [frame] at h
  | x :: xs, y :: ys, s, t, h => by
    simp only [frame, List.cons_append, List.cons.injEq, true_and] at h
    obtain ⟨rfl, h⟩ := h
    obtain ⟨rfl, rfl⟩ := frame_append_inj h
    exact ⟨rfl, rfl⟩

/-- What sealing puts in front of the message: an empty tag, then the inputs. -/
def label (k n a : Bytes) : Bytes := zeros 16 ++ (frame k ++ (frame n ++ frame a))

def openFramed (k n a c : Bytes) : Option Bytes :=
  if label k n a <+: c then some (c.drop (label k n a).length) else none

end Sample

open Sample in
def sample : Sodium where
  hmac k m := block (natOf k + digest m)
  genericHash k m := block (natOf k + digest m)
  scalarmult n p := if p.val = zeros 32 then none else some (block (natOf n.val + natOf p.val))
  scalarmultBase n := block (natOf n.val + 9)
  aeadEncrypt k n a m := label k n a ++ m
  aeadDecrypt := openFramed
  aeadEncrypt_length k n a m := by simp [label, zeros]

theorem sample_ideal : sample.AeadIdeal where
  opens k n a m := by simp [sample, Sample.openFramed]
  sealed k n a c m h := by
    simp only [sample, Sample.openFramed] at h ⊢
    split at h
    · rename_i hp
      cases h
      obtain ⟨t, rfl⟩ := hp
      simp
    · cases h
  binding k k' n a a' m m' h := by
    simp only [sample, Sample.label, List.append_assoc, List.append_cancel_left_eq] at h
    obtain ⟨hk, hrest⟩ := Sample.frame_append_inj h
    exact ⟨hk, (Sample.frame_append_inj (Sample.frame_append_inj hrest).2).1⟩

end Sodium

end SecureComm
