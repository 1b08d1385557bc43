import SecureComm.Basic

/-! # Envelopes -/

namespace SecureComm

structure Envelope where
  sessionId : Bytes := []
  messageIndex : UInt32 := 0
  previousCounter : UInt32 := 0
  /-- Milliseconds since the epoch. -/
  timestamp : UInt64 := 0
  senderDeviceId : Bytes := []
  /-- The header: bound by the AEAD. -/
  associatedData : Bytes := []
  ciphertext : Bytes := []
  version : UInt32 := 1
  signature : Bytes := []
  aad : Bytes := []
  deriving DecidableEq, Repr

/-- Every length that a frame announces fits its 32 bits. -/
structure Envelope.Fits (env : Envelope) : Prop where
  sessionId : env.sessionId.length < 2 ^ 32
  senderDeviceId : env.senderDeviceId.length < 2 ^ 32
  associatedData : env.associatedData.length < 2 ^ 32
  ciphertext : env.ciphertext.length < 2 ^ 32

def Envelope.sample : Envelope where
  sessionId := [1, 2]
  messageIndex := 3
  previousCounter := 4
  timestamp := 1700000000000
  senderDeviceId := octets ['a']
  associatedData := [0, 0, 0, 3]
  ciphertext := [9, 8, 7]
  signature := [6]
  aad := [5]

theorem Envelope.sample_fits : Envelope.sample.Fits :=
  ⟨by decide, by decide, by decide, by decide⟩

end SecureComm
