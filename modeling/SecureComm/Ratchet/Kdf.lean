import SecureComm.Crypto.Aead

/-!
# Key derivation

The static helpers of the ratchet: the symmetric chain (`deriveMessageKey`,
`advanceChainKey`) and HKDF over HMAC-SHA256.
-/

namespace SecureComm

def msgLabel : Bytes := octets ['m', 's', 'g']

def ckLabel : Bytes := octets ['c', 'k']

def sendInfo : Bytes := octets ['S', 'e', 'n', 'd', 'C', 'h', 'a', 'i', 'n']

def recvInfo : Bytes := octets ['R', 'e', 'c', 'v', 'C', 'h', 'a', 'i', 'n']

def deriveMessageKey (S : Sodium) (chainKey : Bytes) : Bytes := (S.hmac chainKey msgLabel).val

def advanceChainKey (S : Sodium) (chainKey : Bytes) : Bytes := (S.hmac chainKey ckLabel).val

def hkdfExtract (S : Sodium) (salt ikm : Bytes) : Bytes :=
  (S.hmac (if salt = [] then zeros 32 else salt) ikm).val

/-- The `while` of `hkdf_expand`. Each round generates at least one byte, so
`okmLen` rounds are enough. -/
def hkdfExpandLoop (S : Sodium) (prk info : Bytes) (okmLen : Nat) :
    Nat → Nat → UInt8 → Bytes → Bytes → Bytes
  | 0, _, _, _, okm => okm
  | fuel + 1, generated, counter, previous, okm =>
    if generated < okmLen then
      let previous := (S.hmac prk ((if counter > 1 then previous else []) ++ info ++ [counter])).val
      let toCopy := min (okmLen - generated) 32
      hkdfExpandLoop S prk info okmLen fuel (generated + toCopy) (counter + 1) previous
        (okm ++ previous.take toCopy)
    else okm

def hkdfExpand (S : Sodium) (okmLen : Nat) (prk info : Bytes) : Bytes :=
  hkdfExpandLoop S prk info okmLen okmLen 0 1 (zeros 32) []

@[simp] theorem deriveMessageKey_length (S : Sodium) (k : Bytes) :
    (deriveMessageKey S k).length = 32 := (S.hmac k msgLabel).property

@[simp] theorem advanceChainKey_length (S : Sodium) (k : Bytes) :
    (advanceChainKey S k).length = 32 := (S.hmac k ckLabel).property

@[simp] theorem hkdfExtract_length (S : Sodium) (salt ikm : Bytes) :
    (hkdfExtract S salt ikm).length = 32 := (S.hmac _ ikm).property

theorem hkdfExtract_salt (S : Sodium) {salt : Bytes} (h : salt ≠ []) (ikm : Bytes) :
    hkdfExtract S salt ikm = (S.hmac salt ikm).val := by rw [hkdfExtract, if_neg h]

theorem hkdfExpandLoop_done (S : Sodium) (prk info : Bytes) {okmLen generated : Nat}
    (h : okmLen ≤ generated) (fuel : Nat) (counter : UInt8) (previous okm : Bytes) :
    hkdfExpandLoop S prk info okmLen fuel generated counter previous okm = okm := by
  cases fuel with
  | zero => rfl
  | succ fuel => rw [hkdfExpandLoop, if_neg (by omega)]

theorem hkdfExpand_block (S : Sodium) (prk info : Bytes) :
    hkdfExpand S 32 prk info = (S.hmac prk (info ++ [1])).val := by
  have h := (S.hmac prk (info ++ [1])).property
  have hc : ¬ (1 : UInt8) > 1 := by decide
  rw [hkdfExpand, hkdfExpandLoop, if_pos (by decide), hkdfExpandLoop_done _ _ _ (by decide)]
  simp only [hc, if_false, List.nil_append]
  exact List.take_of_length_le (Nat.le_of_eq h)

@[simp] theorem hkdfExpand_length (S : Sodium) (prk info : Bytes) :
    (hkdfExpand S 32 prk info).length = 32 := by
  rw [hkdfExpand_block]; exact (S.hmac prk _).property

/-- The chain key `n` messages after `k`. -/
abbrev chainKey (S : Sodium) (k : Bytes) (n : Nat) : Bytes := (advanceChainKey S)^[n] k

theorem chainKey_succ (S : Sodium) (k : Bytes) (n : Nat) :
    chainKey S k (n + 1) = advanceChainKey S (chainKey S k n) :=
  Function.iterate_succ_apply' ..

end SecureComm
