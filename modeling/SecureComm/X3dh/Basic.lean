import SecureComm.Envelope
import SecureComm.Crypto.Sodium
import SecureComm.Lib.Cursor

/-!
# X3DH

The two handshake functions. Each computes three Diffie-Hellman values, and a
fourth when it is given a one-time prekey, puts them one after the other and
keys HMAC with a label to get the root, which is handed out as the ciphertext
of an envelope.

The functions take buffers of any size and read 32 bytes of each through raw
pointers: a shorter one is a stray read. The label is a literal of twelve bytes
(with the one that ends it), and HMAC reads 32; what lies behind the literal is
taken from the surroundings (`Surroundings.pastLabel`).
-/

namespace SecureComm

namespace X3dh

open Cursor (Fault)

/-- What one handshake takes from its surroundings: bytes for a session id, the
clock in milliseconds, and what the memory holds behind the label. -/
structure Surroundings where
  sessionId : BytesN 16
  now : UInt64
  pastLabel : BytesN 20

/-- `X3DHRootKey`, as it lies in memory. -/
def rootKeyLabel : Bytes :=
  octets ['X', '3', 'D', 'H', 'R', 'o', 'o', 't', 'K', 'e', 'y', '\x00']

/-- The 32 bytes HMAC is keyed with. -/
def Surroundings.rootKey (around : Surroundings) : Bytes := rootKeyLabel ++ around.pastLabel.val

variable (S : Sodium)

/-! ## Key pairs -/

structure KeyPair where
  priv : BytesN 32
  pub : BytesN 32
  generated : pub = S.scalarmultBase priv

/-- The three generators draw 32 bytes and multiply the base point. -/
def generateKeypair (drawn : BytesN 32) : KeyPair S := ⟨drawn, S.scalarmultBase drawn, rfl⟩

def generateIdentityKeypair (drawn : BytesN 32) : KeyPair S := generateKeypair S drawn

/-- The identity key it is given is not used: the prekey is not signed. -/
def generateSignedPrekey (_ikPriv drawn : BytesN 32) : KeyPair S := generateKeypair S drawn

def generateOneTimePrekey (drawn : BytesN 32) : KeyPair S := generateKeypair S drawn

/-! ## Roots -/

/-- The 32 bytes read at the start of a buffer. -/
def front (b : Bytes) (h : 32 ≤ b.length) : BytesN 32 := ⟨b.take 32, List.length_take_of_le h⟩

theorem front_val (k : BytesN 32) (h : 32 ≤ k.val.length) : front k.val h = k :=
  Subtype.ext (List.take_of_length_le (Nat.le_of_eq k.property))

/-- `crypto_scalarmult` on two buffers, and the exception when it fails. -/
def dh (scalar point : Bytes) (failure : String) : Except (Fault String) (BytesN 32) :=
  if h : 32 ≤ scalar.length ∧ 32 ≤ point.length then
    match S.scalarmult (front scalar h.1) (front point h.2) with
    | some shared => .ok shared
    | none => .error (.rejected failure)
  else .error (.stray 0 32)

def combinedInitiator (aliceIkPriv aliceEphPriv bobIkPub bobSpkPub bobOpkPub : Bytes) :
    Except (Fault String) Bytes := do
  let dh1 ← dh S aliceIkPriv bobSpkPub "DH1 failed"
  let dh2 ← dh S aliceEphPriv bobIkPub "DH2 failed"
  let dh3 ← dh S aliceEphPriv bobSpkPub "DH3 failed"
  let combined := dh1.val ++ dh2.val ++ dh3.val
  if bobOpkPub ≠ [] then
    let dh4 ← dh S aliceEphPriv bobOpkPub "DH4 failed"
    return combined ++ dh4.val
  else return combined

def combinedResponder (bobIkPriv bobSpkPriv aliceIkPub aliceEphPub bobOpkPriv : Bytes) :
    Except (Fault String) Bytes := do
  let dh1 ← dh S bobSpkPriv aliceIkPub "DH1 failed"
  let dh2 ← dh S bobIkPriv aliceEphPub "DH2 failed"
  let dh3 ← dh S bobSpkPriv aliceEphPub "DH3 failed"
  let combined := dh1.val ++ dh2.val ++ dh3.val
  if bobOpkPriv ≠ [] then
    let dh4 ← dh S bobOpkPriv aliceEphPub "DH4 failed"
    return combined ++ dh4.val
  else return combined

def x3dhComputeRootInitiator (aliceIkPriv aliceEphPriv bobIkPub bobSpkPub bobOpkPub : Bytes)
    (around : Surroundings) : Except (Fault String) (BytesN 32) := do
  let combined ← combinedInitiator S aliceIkPriv aliceEphPriv bobIkPub bobSpkPub bobOpkPub
  return S.hmac around.rootKey combined

def x3dhComputeRootResponder (bobIkPriv bobSpkPriv aliceIkPub aliceEphPub bobOpkPriv : Bytes)
    (around : Surroundings) : Except (Fault String) (BytesN 32) := do
  let combined ← combinedResponder S bobIkPriv bobSpkPriv aliceIkPub aliceEphPub bobOpkPriv
  return S.hmac around.rootKey combined

/-! ## Handshakes -/

/-- The envelope of a root: the session id is drawn by the call itself. -/
def handshakeEnvelope (around : Surroundings) (root : BytesN 32) (senderDeviceId : Bytes) :
    Envelope where
  sessionId := around.sessionId.val
  messageIndex := 0
  timestamp := around.now
  ciphertext := root.val
  senderDeviceId

def initiateHandshake
    (initiatorIkPriv initiatorEphPriv responderIkPub responderSpkPub responderOpkPub : Bytes)
    (around : Surroundings) : Except (Fault String) Envelope := do
  let root ← x3dhComputeRootInitiator S initiatorIkPriv initiatorEphPriv responderIkPub
    responderSpkPub responderOpkPub around
  return handshakeEnvelope around root (octets ['i', 'n', 'i', 't', 'i', 'a', 't', 'o', 'r'])

def respondHandshake
    (responderIkPriv responderSpkPriv initiatorIkPub initiatorEphPub responderOpkPriv : Bytes)
    (around : Surroundings) : Except (Fault String) Envelope := do
  let root ← x3dhComputeRootResponder S responderIkPriv responderSpkPriv initiatorIkPub
    initiatorEphPub responderOpkPriv around
  return handshakeEnvelope around root (octets ['r', 'e', 's', 'p', 'o', 'n', 'd', 'e', 'r'])

end X3dh

end SecureComm
