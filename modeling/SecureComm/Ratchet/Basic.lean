import SecureComm.Envelope
import SecureComm.Lib.Table
import SecureComm.Ratchet.Kdf

/-!
# The ratchet

`Ratchet` is the state of one end of a session and the functions here are its
methods. A method that may throw returns an `Except`; the ones that throw
after they have written to the object also return the object as it is left.
The random bytes and the clock a method reads are arguments (`Draw`).

`decryptEnvelope` runs the branches of the source in its order: session check,
header, DH branch (`dhBranch`), skip loop (`skipTo`), skipped-key lookup and
chain decrypt (`openMessage`). Everything before `openMessage` happens before
any authentication.
-/

namespace SecureComm

structure Ratchet where
  rootKey : Bytes := []
  sendChainKey : Bytes := []
  recvChainKey : Bytes := []
  sendMessageNumber : UInt32 := 0
  recvMessageNumber : UInt32 := 0
  lastRemotePub : Bytes := []
  sessionId : Bytes := []
  dhPrivateKey : BytesN 32
  dhPublicKey : BytesN 32
  skippedMessageKeys : Table UInt32 Bytes := ∅
  aead : AEAD := {}
  deriving DecidableEq

/-- What one `encrypt_envelope` takes from its surroundings: bytes for a
session id, a nonce, and the clock in milliseconds. -/
structure Draw where
  sessionId : BytesN 16
  nonce : BytesN 12
  now : UInt64

namespace Ratchet

variable (S : Sodium)

/-- The constructor, given the private key it draws. -/
def new (dhPrivateKey : BytesN 32) : Ratchet :=
  { dhPrivateKey, dhPublicKey := S.scalarmultBase dhPrivateKey }

def hkdfRootChain (r : Ratchet) (dhSharedSecret : Bytes) : Except String Ratchet := do
  let prk := hkdfExtract S r.rootKey dhSharedSecret
  let sendOkm := hkdfExpand S 32 prk sendInfo
  let recvOkm := hkdfExpand S 32 prk recvInfo
  let aead ← AEAD.setKey sendOkm
  return { r with rootKey := prk, sendChainKey := sendOkm, recvChainKey := recvOkm, aead }

def dhCompute (r : Ratchet) (remotePublic : Bytes) : Except String (BytesN 32) :=
  if h : remotePublic.length = 32 then
    match S.scalarmult r.dhPrivateKey ⟨remotePublic, h⟩ with
    | some dhShared => .ok dhShared
    | none => .error "dh_compute failed"
  else .error "dh_compute: invalid public key size"

/-- `initialize`: neither the skipped keys nor the key pair is touched. -/
def initializeWith (r : Ratchet) (rootKey sessionId : Bytes) : Except String Ratchet := do
  if rootKey.length ≠ 32 then throw "Root key must be 32 bytes"
  let aead ← AEAD.setKey rootKey
  return { r with
    rootKey, sendChainKey := rootKey, recvChainKey := rootKey, sendMessageNumber := 0,
    recvMessageNumber := 0, aead, sessionId, lastRemotePub := [] }

def ratchetStep (r : Ratchet) (remoteDhPublic : Bytes) : Except String Ratchet := do
  if remoteDhPublic.length ≠ 32 then throw "ratchet_step: invalid size"
  let dhShared ← r.dhCompute S remoteDhPublic
  let r ← r.hkdfRootChain S dhShared.val
  let aead ← AEAD.setKey r.recvChainKey
  return { r with
    aead, sendMessageNumber := 0, recvMessageNumber := 0, lastRemotePub := remoteDhPublic }

/-- The header of the next message: its number and the public key. -/
def header (r : Ratchet) : Bytes := pushU32Be [] r.sendMessageNumber ++ r.dhPublicKey.val

def encryptEnvelope (r : Ratchet) (plaintext : Bytes) (draw : Draw) :
    Ratchet × Except String Envelope :=
  let r := if r.sessionId = [] then { r with sessionId := draw.sessionId.val } else r
  let msgKey := deriveMessageKey S r.sendChainKey
  match AEAD.setKey msgKey with
  | .error e => (r, .error e)
  | .ok aead =>
    match aead.encrypt S plaintext r.header draw.nonce with
    | .error e => ({ r with aead }, .error e)
    | .ok ct =>
      ({ r with
          aead, sendChainKey := advanceChainKey S r.sendChainKey,
          sendMessageNumber := r.sendMessageNumber + 1 },
        .ok {
          sessionId := r.sessionId, messageIndex := r.sendMessageNumber,
          previousCounter := r.recvMessageNumber, timestamp := draw.now,
          associatedData := r.header, ciphertext := ct })

/-- The DH ratchet of `decrypt_envelope`: taken when a remote key is known and
the header carries another one. It leaves `send_message_number_` and the
skipped keys as they are. -/
def dhBranch (r : Ratchet) (remotePub : Bytes) : Except String Ratchet :=
  if r.lastRemotePub ≠ [] ∧ remotePub ≠ r.lastRemotePub then do
    let dhShared ← r.dhCompute S remotePub
    let r ← r.hkdfRootChain S dhShared.val
    let aead ← AEAD.setKey r.recvChainKey
    return { r with aead, recvMessageNumber := 0, lastRemotePub := remotePub }
  else if r.lastRemotePub = [] then .ok { r with lastRemotePub := remotePub }
  else .ok r

def skipOne (r : Ratchet) : Ratchet :=
  { r with
    skippedMessageKeys :=
      Table.emplace r.skippedMessageKeys r.recvMessageNumber (deriveMessageKey S r.recvChainKey)
    recvChainKey := advanceChainKey S r.recvChainKey
    recvMessageNumber := r.recvMessageNumber + 1 }

/-- The skip loop, `while (recv_message_number_ < msg_num)`. -/
def skipTo (msgNum : UInt32) (r : Ratchet) : Ratchet :=
  (skipOne S)^[msgNum.toNat - r.recvMessageNumber.toNat] r

/-- Set the key and open the envelope. -/
def tryKey (r : Ratchet) (key : Bytes) (env : Envelope) : Ratchet × Option Bytes :=
  match AEAD.setKey key with
  | .error _ => (r, none)
  | .ok aead => ({ r with aead }, aead.decrypt S env.ciphertext env.associatedData)

/-- The lookup of a skipped key and, when there is none, the chain decrypt. -/
def openMessage (msgNum : UInt32) (env : Envelope) (r : Ratchet) : Ratchet × Option Bytes :=
  match r.skippedMessageKeys.lookup msgNum with
  | some key =>
    match r.tryKey S key env with
    | (r, some pt) =>
      ({ r with skippedMessageKeys := r.skippedMessageKeys.erase msgNum }, some pt)
    | (r, none) => (r, none)
  | none =>
    match r.tryKey S (deriveMessageKey S r.recvChainKey) env with
    | (r, some pt) =>
      ({ r with
          recvChainKey := advanceChainKey S r.recvChainKey
          recvMessageNumber := msgNum + 1 }, some pt)
    | (r, none) => (r, none)

/-- The number and the public key of a header; `none` when it is too short. -/
def parseHeader (header : Bytes) : Option (UInt32 × Bytes) :=
  match readU32Be header 0 with
  | .error _ => none
  | .ok (msgNum, off) =>
    if off + 32 > header.length then none else some (msgNum, (header.drop off).take 32)

/-- A fixed session id rejects every other; an empty one adopts the first. -/
def adoptSession (r : Ratchet) (env : Envelope) : Option Ratchet :=
  if r.sessionId ≠ [] ∧ env.sessionId ≠ r.sessionId then none
  else if r.sessionId = [] then some { r with sessionId := env.sessionId }
  else some r

def decryptEnvelope (r : Ratchet) (env : Envelope) : Ratchet × Option Bytes :=
  match r.adoptSession env with
  | none => (r, none)
  | some r =>
    match parseHeader env.associatedData with
    | none => (r, none)
    | some (msgNum, remotePub) =>
      match r.dhBranch S remotePub with
      | .error _ => (r, none)
      | .ok r => (r.skipTo S msgNum).openMessage S msgNum env

def exportState (r : Ratchet) : Bytes :=
  let s := r.rootKey ++ r.sendChainKey ++ r.recvChainKey
  let s := pushU32Be s r.sendMessageNumber
  let s := pushU32Be s r.recvMessageNumber
  s ++ r.dhPrivateKey.val ++ r.dhPublicKey.val

/-- The bytes of a state from an offset on. -/
def stateField (state : Bytes) (off : Nat) (h : ¬ state.length < 168) (hoff : off ≤ 136) :
    BytesN 32 :=
  ⟨(state.drop off).take 32, by rw [List.length_take, List.length_drop]; omega⟩

/-- The session id and the skipped keys are not part of a state. -/
def importState (r : Ratchet) (state : Bytes) : Except String Ratchet :=
  if h : state.length < 168 then .error "import_state: too small"
  else do
    let rootKey := (stateField state 0 h (by decide)).val
    let sendChainKey := (stateField state 32 h (by decide)).val
    let recvChainKey := (stateField state 64 h (by decide)).val
    let (sendMessageNumber, _) ← readU32Be state 96
    let (recvMessageNumber, _) ← readU32Be state 100
    let dhPrivateKey := stateField state 104 h (by decide)
    let dhPublicKey := stateField state 136 h (by decide)
    let aead ← AEAD.setKey sendChainKey
    return { r with
      rootKey, sendChainKey, recvChainKey, sendMessageNumber, recvMessageNumber,
      dhPrivateKey, dhPublicKey, aead, lastRemotePub := [] }

end Ratchet

end SecureComm
