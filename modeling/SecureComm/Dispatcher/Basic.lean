import SecureComm.Dispatcher.Wire
import SecureComm.Mls.Basic
import SecureComm.Ratchet.Basic

/-!
# The dispatcher

A dispatcher holds one ratchet for each remote device. What it hands to the
transport is returned as a frame, and what it hands to the inbound callback as
a list of envelopes, which is empty while no callback is set.
-/

namespace SecureComm

structure SessionState where
  ratchet : Ratchet
  initialized : Bool := false

structure Dispatcher where
  deviceId : Bytes := []
  sessions : Table Bytes SessionState := ∅
  mls : MLSManager := {}
  onInbound : Bool := false

namespace Dispatcher

variable (S : Sodium)

def registerDevice (d : Dispatcher) (deviceId : Bytes) : Dispatcher := { d with deviceId }

def setOnInbound (d : Dispatcher) : Dispatcher := { d with onInbound := true }

/-- Both device ids in their order, then the root key. -/
def sessionIdInput (deviceId remoteDeviceId rootKey : Bytes) : Bytes :=
  (if deviceId < remoteDeviceId then deviceId ++ remoteDeviceId else remoteDeviceId ++ deviceId) ++
    rootKey

/-- The first half of an HMAC of the input. -/
def sessionIdFor (deviceId remoteDeviceId rootKey : Bytes) : Bytes :=
  (S.hmac rootKey (sessionIdInput deviceId remoteDeviceId rootKey)).val.take 16

/-- `sessions_[remote_device_id]` inserts an object for a device that has none,
with the private key that its constructor draws, and that stays when
`initialize` throws. -/
def createSessionWith (d : Dispatcher) (remoteDeviceId rootKey : Bytes) (dhPrivateKey : BytesN 32) :
    Dispatcher × Except String Unit :=
  let s := (d.sessions.lookup remoteDeviceId).getD { ratchet := Ratchet.new S dhPrivateKey }
  match s.ratchet.initializeWith rootKey (sessionIdFor S d.deviceId remoteDeviceId rootKey) with
  | .error e => ({ d with sessions := d.sessions.insert remoteDeviceId s }, .error e)
  | .ok ratchet =>
    ({ d with sessions := d.sessions.insert remoteDeviceId { ratchet, initialized := true } }, .ok ())

def sendMessageToDevice (d : Dispatcher) (remoteDeviceId plaintext : Bytes) (draw : Draw) :
    Dispatcher × Except String Bytes :=
  match d.sessions.lookup remoteDeviceId with
  | none => (d, .error "session not initialized")
  | some s =>
    if !s.initialized then (d, .error "session not initialized")
    else
      match s.ratchet.encryptEnvelope S plaintext draw with
      | (ratchet, .error e) =>
        ({ d with sessions := d.sessions.insert remoteDeviceId { s with ratchet } }, .error e)
      | (ratchet, .ok env) =>
        ({ d with sessions := d.sessions.insert remoteDeviceId { s with ratchet } },
          .ok (serializeEnvelope { env with senderDeviceId := d.deviceId }))

/-- A message to a group; the sender id that the envelope carries is the device's own. -/
def sendGroupMessage (d : Dispatcher) (groupId senderId plaintext : Bytes) (nonce : BytesN 12)
    (now now' : UInt64) : Except String (Dispatcher × Bytes) := do
  let (mls, env) ← d.mls.encryptGroupMessage S groupId senderId plaintext nonce now now'
  return ({ d with mls }, serializeEnvelope { env with senderDeviceId := d.deviceId })

/-- Group messages are told by the session id, direct ones go to the session
of their sender. The envelopes are those the callback is invoked with. -/
def onRawMessage (d : Dispatcher) (bytes : Bytes) : Dispatcher × List Envelope :=
  match deserializeEnvelope bytes with
  | none => (d, [])
  | some env =>
    if env.sessionId ≠ [] ∧ d.mls.getGroupEpoch env.sessionId ≠ 0 then
      match d.mls.decryptGroupMessage S env.sessionId env with
      | (mls, some _) => ({ d with mls }, if d.onInbound then [env] else [])
      | (mls, none) => ({ d with mls }, [])
    else
      match d.sessions.lookup env.senderDeviceId with
      | none => (d, [])
      | some s =>
        match s.ratchet.decryptEnvelope S env with
        | (ratchet, some pt) =>
          ({ d with sessions := d.sessions.insert env.senderDeviceId { s with ratchet } },
            if d.onInbound then [{ env with ciphertext := pt }] else [])
        | (ratchet, none) =>
          ({ d with sessions := d.sessions.insert env.senderDeviceId { s with ratchet } }, [])

end Dispatcher

end SecureComm
