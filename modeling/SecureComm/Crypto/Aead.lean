import SecureComm.Crypto.Sodium

/-!
# The AEAD wrapper

`AEAD` holds one key, empty until `setKey`. `encrypt` puts a fresh nonce in
front of the sealed message, `decrypt` takes it off again. The 12 bytes of the
nonce are drawn by the caller's environment and passed in.
-/

namespace SecureComm

structure AEAD where
  key : Bytes := []
  deriving DecidableEq, Repr

namespace AEAD

def setKey (key : Bytes) : Except String AEAD :=
  if key.length ≠ 32 then .error "AEAD key must be 32 bytes" else .ok ⟨key⟩

def encrypt (S : Sodium) (a : AEAD) (plaintext aad : Bytes) (nonce : BytesN 12) :
    Except String Bytes :=
  if a.key = [] then .error "AEAD key not set"
  else .ok (nonce.val ++ S.aeadEncrypt a.key nonce.val aad plaintext)

def decrypt (S : Sodium) (a : AEAD) (ciphertext aad : Bytes) : Option Bytes :=
  if a.key = [] then none
  else if ciphertext.length < 12 + 16 then none
  else S.aeadDecrypt a.key (ciphertext.take 12) aad (ciphertext.drop 12)

@[simp] theorem setKey_ok {key : Bytes} (h : key.length = 32) : setKey key = .ok ⟨key⟩ := by
  simp [setKey, h]

theorem ne_nil_of_length {n : Nat} {key : Bytes} (h : key.length = n + 1) : key ≠ [] := by
  rintro rfl; cases h

theorem encrypt_ok (S : Sodium) {key : Bytes} (h : key.length = 32) (plaintext aad : Bytes)
    (nonce : BytesN 12) : encrypt S ⟨key⟩ plaintext aad nonce =
      .ok (nonce.val ++ S.aeadEncrypt key nonce.val aad plaintext) := by
  rw [encrypt, if_neg (ne_nil_of_length h)]

theorem decrypt_eq_some {S : Sodium} {a : AEAD} {ciphertext aad m : Bytes}
    (h : a.decrypt S ciphertext aad = some m) :
    S.aeadDecrypt a.key (ciphertext.take 12) aad (ciphertext.drop 12) = some m := by
  unfold decrypt at h
  split at h
  · cases h
  · split at h
    · cases h
    · exact h

theorem decrypt_sealed {S : Sodium} (hS : S.AeadOpens) {key : Bytes} (h : key.length = 32)
    (nonce : BytesN 12) (aad m : Bytes) :
    decrypt S ⟨key⟩ (nonce.val ++ S.aeadEncrypt key nonce.val aad m) aad = some m := by
  have hl := S.aeadEncrypt_length key nonce.val aad m
  have hn := nonce.property
  rw [decrypt, if_neg (ne_nil_of_length h), if_neg (by rw [List.length_append]; omega),
    List.take_left' hn, List.drop_left' hn]
  exact hS key nonce.val aad m

theorem decrypt_other {S : Sodium} (hS : S.AeadIdeal) {key key' : Bytes} (hne : key' ≠ key)
    (nonce : BytesN 12) (aad m : Bytes) :
    decrypt S ⟨key'⟩ (nonce.val ++ S.aeadEncrypt key nonce.val aad m) aad = none := by
  rcases hd : decrypt S ⟨key'⟩ (nonce.val ++ S.aeadEncrypt key nonce.val aad m) aad with _ | m'
  · rfl
  · have := decrypt_eq_some hd
    rw [List.take_left' nonce.property, List.drop_left' nonce.property] at this
    exact absurd (hS.key_unique this (hS.opens key nonce.val aad m)) hne

theorem decrypt_key_unique {S : Sodium} (hS : S.AeadIdeal) {a a' : AEAD} {c aad m m' : Bytes}
    (h : a.decrypt S c aad = some m) (h' : a'.decrypt S c aad = some m') : a.key = a'.key :=
  hS.key_unique (decrypt_eq_some h) (decrypt_eq_some h')

end AEAD

end SecureComm
