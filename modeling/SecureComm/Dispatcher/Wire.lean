import SecureComm.Envelope

/-!
# The dispatcher's wire format

A frame is the fields of an envelope one after the other, each of variable
size behind its length. `version`, `signature` and `aad` are not part of it.
Reading is with an offset into the frame, and fails at its end.
-/

namespace SecureComm

namespace Dispatcher

/-- A field behind its length, which is cast to 32 bits. -/
def pushField (out field : Bytes) : Bytes :=
  pushU32Be out (UInt32.ofNat field.length) ++ field

def serializeEnvelope (env : Envelope) : Bytes :=
  let out := pushField [] env.sessionId
  let out := pushU32Be out env.messageIndex
  let out := pushU32Be out env.previousCounter
  let out := out ++ BigEndian.be64 env.timestamp
  let out := pushField out env.senderDeviceId
  let out := pushField out env.associatedData
  pushField out env.ciphertext

def readU32 (bytes : Bytes) (off : Nat) : Option (UInt32 × Nat) := (readU32Be bytes off).toOption

def readBytes (bytes : Bytes) (off len : Nat) : Option (Bytes × Nat) :=
  if off + len > bytes.length then none else some ((bytes.drop off).take len, off + len)

def readField (bytes : Bytes) (off : Nat) : Option (Bytes × Nat) := do
  let (len, off) ← readU32 bytes off
  readBytes bytes off len.toNat

def deserializeEnvelope (bytes : Bytes) : Option Envelope := do
  if bytes.length < 4 then none
  let (sessionId, off) ← readField bytes 0
  let (messageIndex, off) ← readU32 bytes off
  let (previousCounter, off) ← readU32 bytes off
  let (ts, off) ← readBytes bytes off 8
  let (senderDeviceId, off) ← readField bytes off
  let (associatedData, off) ← readField bytes off
  let (ciphertext, _) ← readField bytes off
  return {
    sessionId, messageIndex, previousCounter, timestamp := BigEndian.word64 ts, senderDeviceId
    associatedData, ciphertext }

end Dispatcher

/-- What a frame carries of an envelope. -/
def Envelope.onWire (env : Envelope) : Envelope :=
  { env with version := 1, signature := [], aad := [] }

namespace Dispatcher

variable {bytes rest : Bytes} {off : Nat}

theorem readU32_at {v : UInt32} (h : At bytes off (BigEndian.be32 v ++ rest)) :
    readU32 bytes off = some (v, off + 4) := by rw [readU32, h.readU32Be]; rfl

theorem readBytes_at {part : Bytes} {n : Nat} (h : At bytes off (part ++ rest))
    (hn : part.length = n) : readBytes bytes off n = some (part, off + n) := by
  rw [readBytes, if_neg (Nat.not_lt.mpr (h.le hn)), h.take hn]

theorem readField_at {field : Bytes} (hlen : field.length < 2 ^ 32)
    (h : At bytes off (BigEndian.be32 (UInt32.ofNat field.length) ++ (field ++ rest))) :
    readField bytes off = some (field, off + 4 + field.length) := by
  have hn : (UInt32.ofNat field.length).toNat = field.length := UInt32.toNat_ofNat_of_lt' hlen
  have hf := readBytes_at (h.next (BigEndian.be32_length _)) rfl
  simp only [readField, readU32_at h, hn, hf, Option.bind_eq_bind, Option.bind_some]

/-- **Round trip**: a frame gives back what it carries. -/
theorem deserialize_serialize {env : Envelope} (h : env.Fits) :
    deserializeEnvelope (serializeEnvelope env) = some env.onWire := by
  have a0 : At (serializeEnvelope env) 0
      (BigEndian.be32 (UInt32.ofNat env.sessionId.length) ++ (env.sessionId ++
        (BigEndian.be32 env.messageIndex ++ (BigEndian.be32 env.previousCounter ++
        (BigEndian.be64 env.timestamp ++
        (BigEndian.be32 (UInt32.ofNat env.senderDeviceId.length) ++ (env.senderDeviceId ++
        (BigEndian.be32 (UInt32.ofNat env.associatedData.length) ++ (env.associatedData ++
        (BigEndian.be32 (UInt32.ofNat env.ciphertext.length) ++ (env.ciphertext ++ []))))))))))) := by
    refine ⟨Nat.zero_le _, ?_⟩
    simp only [serializeEnvelope, pushField, pushU32Be, List.drop_zero, List.append_assoc,
      List.append_nil, List.nil_append]
  have a1 := (a0.next (BigEndian.be32_length _)).next rfl
  have a2 := a1.next (BigEndian.be32_length _)
  have a3 := a2.next (BigEndian.be32_length _)
  have a4 := a3.next (BigEndian.be64_length _)
  have a5 := (a4.next (BigEndian.be32_length _)).next rfl
  have a6 := (a5.next (BigEndian.be32_length _)).next rfl
  have hlen := a0.le (BigEndian.be32_length _)
  unfold deserializeEnvelope
  rw [if_neg (by omega)]
  simp only [readField_at h.sessionId a0, readU32_at a1, readU32_at a2,
    readBytes_at a3 (BigEndian.be64_length _), readField_at h.senderDeviceId a4,
    readField_at h.associatedData a5, readField_at h.ciphertext a6, Option.bind_eq_bind,
    Option.bind_some, BigEndian.word64_be64]
  rfl

end Dispatcher

end SecureComm
