import SecureComm.Envelope
import SecureComm.Lib.WordReader

/-!
# The serialised envelope

`serialize` writes all ten fields, `deserialize` reads them back. Of its reads
only those of 32-bit words are checked: the blocks and the timestamp are taken
from the buffer as they come. What was written is read back, and a result was
always written that way; but the reads stay inside the buffer only where every
announced length is honest (`deserialize_safe_iff`).
-/

namespace SecureComm.Envelope

open Cursor Cursor.Reader

/-- `push_u32`. -/
def pushU32 (out : Bytes) (v : UInt32) : Bytes := pushU32Be out v

/-- A field behind its length, which is cast to 32 bits. -/
def pushField (out field : Bytes) : Bytes := pushU32 out (UInt32.ofNat field.length) ++ field

def serialize (env : Envelope) : Bytes :=
  let out := pushU32 [] env.version
  let out := pushField out env.sessionId
  let out := pushU32 out env.messageIndex
  let out := pushU32 out env.previousCounter
  let out := out ++ BigEndian.be64 env.timestamp
  let out := pushField out env.senderDeviceId
  let out := pushField out env.associatedData
  let out := pushField out env.ciphertext
  let out := pushField out env.signature
  pushField out env.aad

/-- `read_u32`. -/
def readU32 : Reader UInt8 64 String UInt32 := word32 "Envelope: invalid length"

/-- A length, and as many bytes, which are not checked for. -/
def readField : Reader UInt8 64 String Bytes := do
  let len ← readU32
  slice len.toNat

def readEnvelope : Reader UInt8 64 String Envelope := do
  let version ← readU32
  let sessionId ← readField
  let messageIndex ← readU32
  let previousCounter ← readU32
  let timestamp ← word64
  let senderDeviceId ← readField
  let associatedData ← readField
  let ciphertext ← readField
  let signature ← readField
  let aad ← readField
  return {
    sessionId, messageIndex, previousCounter, timestamp, senderDeviceId, associatedData, ciphertext
    version, signature, aad }

def deserialize (input : Buffer UInt8 64) : Except (Fault String) Envelope := readEnvelope.run input

/-! ## Round trip -/

structure Sized (env : Envelope) : Prop extends env.Fits where
  signature : env.signature.length < 2 ^ 32
  aad : env.aad.length < 2 ^ 32

theorem serialize_eq (env : Envelope) : env.serialize =
    BigEndian.be32 env.version ++ (lengthPrefixed env.sessionId ++
      (BigEndian.be32 env.messageIndex ++ (BigEndian.be32 env.previousCounter ++
      (BigEndian.be64 env.timestamp ++ (lengthPrefixed env.senderDeviceId ++
      (lengthPrefixed env.associatedData ++ (lengthPrefixed env.ciphertext ++
      (lengthPrefixed env.signature ++ (lengthPrefixed env.aad ++ []))))))))) := by
  simp only [serialize, lengthPrefixed, pushField, pushU32, pushU32Be, List.append_assoc,
    List.append_nil, List.nil_append]

theorem Sized.serialize_lt {env : Envelope} (h : env.Sized) : env.serialize.length < 2 ^ 63 := by
  have := h.sessionId
  have := h.senderDeviceId
  have := h.associatedData
  have := h.ciphertext
  have := h.signature
  have := h.aad
  rw [serialize_eq]
  simp only [List.length_append, lengthPrefixed_length, BigEndian.be32_length,
    BigEndian.be64_length, List.length_nil]
  omega

theorem readU32_codes : Codes readU32 (fun _ => True) BigEndian.be32 := word32_codes _

theorem readField_codes :
    Codes readField (fun field => field.length < 2 ^ 32) lengthPrefixed :=
  lengthPrefixed_codes readU32_codes fun _ => slice_codes _

theorem readEnvelope_codes : Codes readEnvelope Sized serialize := by
  have hlast : ∀ version sessionId messageIndex previousCounter timestamp senderDeviceId
      associatedData ciphertext signature aad, Codes (pure {
          sessionId, messageIndex, previousCounter, timestamp, senderDeviceId, associatedData
          ciphertext, version, signature, aad } : Reader UInt8 64 String Envelope)
        (fun env => (env.aad = aad ∧ env.signature = signature ∧ env.ciphertext = ciphertext ∧
          env.associatedData = associatedData ∧ env.senderDeviceId = senderDeviceId ∧
          env.timestamp = timestamp ∧ env.previousCounter = previousCounter ∧
          env.messageIndex = messageIndex ∧ env.sessionId = sessionId ∧ env.version = version ∧
          True) ∧ True) fun _ => [] := by
    intros
    refine (Codes.pure _).congr (fun env => ⟨?_, ?_⟩) fun _ => rfl
    · rintro rfl
      exact ⟨⟨rfl, rfl, rfl, rfl, rfl, rfl, rfl, rfl, rfl, rfl, trivial⟩, trivial⟩
    · rintro ⟨⟨rfl, rfl, rfl, rfl, rfl, rfl, rfl, rfl, rfl, rfl, -⟩, -⟩
      rfl
  refine (readU32_codes.field Envelope.version fun version =>
    readField_codes.field Envelope.sessionId fun sessionId =>
    readU32_codes.field Envelope.messageIndex fun messageIndex =>
    readU32_codes.field Envelope.previousCounter fun previousCounter =>
    word64_codes.field Envelope.timestamp fun timestamp =>
    readField_codes.field Envelope.senderDeviceId fun senderDeviceId =>
    readField_codes.field Envelope.associatedData fun associatedData =>
    readField_codes.field Envelope.ciphertext fun ciphertext =>
    readField_codes.field Envelope.signature fun signature =>
    readField_codes.field Envelope.aad fun aad =>
    hlast version sessionId messageIndex previousCounter timestamp senderDeviceId associatedData
      ciphertext signature aad).congr (fun env => ⟨?_, ?_⟩) fun env => (serialize_eq env).symm
  · rintro ⟨-, -, hsid, -, -, -, hid, had, hct, hsig, haad, -⟩
    exact ⟨⟨hsid, hid, had, hct⟩, hsig, haad⟩
  · intro h
    exact ⟨trivial, trivial, h.sessionId, trivial, trivial, trivial, h.senderDeviceId,
      h.associatedData, h.ciphertext, h.signature, h.aad, trivial⟩

def buffer (env : Envelope) (h : env.Sized) : Buffer UInt8 64 := ⟨env.serialize, h.serialize_lt⟩

/-- **Round trip**: a serialised envelope gives back all its fields, so no two
envelopes are serialised alike. -/
theorem round_trip (env : Envelope) (h : env.Sized) :
    deserialize (env.buffer h) = .ok env ∧
      ∀ env' : Envelope, env'.Sized → env'.serialize = env.serialize → env' = env := by
  refine ⟨readEnvelope_codes.run_eq_ok.mpr ⟨h, List.prefix_refl _⟩, fun env' h' he => ?_⟩
  have hpre : env'.serialize <+: env.serialize := by rw [he]
  exact readEnvelope_codes.eq_of_prefix h' h h.serialize_lt hpre

theorem sample_sized : sample.Sized := ⟨sample_fits, by decide, by decide⟩

theorem round_trip_sample : deserialize (sample.buffer sample_sized) = .ok sample :=
  (round_trip sample sample_sized).1

end SecureComm.Envelope
