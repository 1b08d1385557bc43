import SecureComm.Dispatcher.Wire
import SecureComm.Lib.WordReader

/-!
# Reading a frame

`deserialize_envelope` with its accesses to the buffer: every check and every
read at its offset, with sizes in 64 bits. A frame is accepted exactly if it
begins with the bytes of an envelope, no byte at or past the end is touched,
and `deserializeEnvelope` of the wire format is the same function
(`deserializeEnvelope_eq`).
-/

namespace SecureComm.Dispatcher.Frame

open Cursor Cursor.Reader

/-- The local `read_u32`. -/
def readU32 : Reader UInt8 64 Unit UInt32 := word32 ()

def readField : Reader UInt8 64 Unit Bytes := do
  let len ← readU32
  require len.toNat ()
  slice len.toNat

def readTimestamp : Reader UInt8 64 Unit UInt64 := do
  require 8 ()
  word64

def readEnvelope : Reader UInt8 64 Unit Envelope := do
  let sessionId ← readField
  let messageIndex ← readU32
  let previousCounter ← readU32
  let timestamp ← readTimestamp
  let senderDeviceId ← readField
  let associatedData ← readField
  let ciphertext ← readField
  return {
    sessionId, messageIndex, previousCounter, timestamp, senderDeviceId, associatedData, ciphertext }

def readFrame : Reader UInt8 64 Unit Envelope := do
  require 4 ()
  readEnvelope

/-- `deserialize_envelope`; a rejection is its empty result. -/
def deserializeEnvelope (bytes : Buffer UInt8 64) : Except (Fault Unit) Envelope := readFrame.run bytes

/-! ## What is accepted -/

theorem readU32_codes : Codes readU32 (fun _ => True) BigEndian.be32 := word32_codes ()

theorem readU32_within : Within readU32 0 := word32_within () (by decide)

theorem readField_codes :
    Codes readField (fun field => field.length < 2 ^ 32) lengthPrefixed :=
  lengthPrefixed_codes readU32_codes fun _ => (slice_codes _).checked () fun _ hf => hf.ge

theorem readField_within : Within readField 0 :=
  readU32_within.andThen readU32_codes.yields fun len =>
    have hlen := len.toNat_lt
    (Within.slice _).require (show len.toNat ≤ 2 ^ 63 by omega) (by decide)

theorem readTimestamp_codes : Codes readTimestamp (fun _ => True) BigEndian.be64 :=
  word64_codes.checked () fun _ _ => Nat.le_refl 8

theorem readTimestamp_within : Within readTimestamp 0 := word64_within.require (by decide) (by decide)

theorem serializeEnvelope_eq (env : Envelope) : serializeEnvelope env =
    lengthPrefixed env.sessionId ++ (BigEndian.be32 env.messageIndex ++
      (BigEndian.be32 env.previousCounter ++ (BigEndian.be64 env.timestamp ++
      (lengthPrefixed env.senderDeviceId ++ (lengthPrefixed env.associatedData ++
      (lengthPrefixed env.ciphertext ++ [])))))) := by
  simp only [serializeEnvelope, lengthPrefixed, pushField, pushU32Be, List.append_assoc,
    List.append_nil, List.nil_append]

theorem serializeEnvelope_length (env : Envelope) : (serializeEnvelope env).length =
    env.sessionId.length + env.senderDeviceId.length + env.associatedData.length +
      env.ciphertext.length + 32 := by
  rw [serializeEnvelope_eq]
  simp only [List.length_append, lengthPrefixed_length, BigEndian.be32_length,
    BigEndian.be64_length, List.length_nil]
  omega

theorem readEnvelope_codes :
    Codes readEnvelope (fun env => env.Fits ∧ env.onWire = env) serializeEnvelope := by
  have hlast : ∀ sessionId messageIndex previousCounter timestamp senderDeviceId associatedData
      ciphertext, Codes (pure {
          sessionId, messageIndex, previousCounter, timestamp, senderDeviceId, associatedData
          ciphertext } : Reader UInt8 64 Unit Envelope)
        (fun env => (env.ciphertext = ciphertext ∧ env.associatedData = associatedData ∧
          env.senderDeviceId = senderDeviceId ∧ env.timestamp = timestamp ∧
          env.previousCounter = previousCounter ∧ env.messageIndex = messageIndex ∧
          env.sessionId = sessionId ∧ True) ∧ env.onWire = env) fun _ => [] := by
    intros
    refine (Codes.pure _).congr (fun env => ⟨?_, ?_⟩) fun _ => rfl
    · rintro rfl
      exact ⟨⟨rfl, rfl, rfl, rfl, rfl, rfl, rfl, trivial⟩, rfl⟩
    · rintro ⟨⟨rfl, rfl, rfl, rfl, rfl, rfl, rfl, -⟩, hw⟩
      exact hw.symm
  refine (readField_codes.field Envelope.sessionId fun sessionId =>
    readU32_codes.field Envelope.messageIndex fun messageIndex =>
    readU32_codes.field Envelope.previousCounter fun previousCounter =>
    readTimestamp_codes.field Envelope.timestamp fun timestamp =>
    readField_codes.field Envelope.senderDeviceId fun senderDeviceId =>
    readField_codes.field Envelope.associatedData fun associatedData =>
    readField_codes.field Envelope.ciphertext fun ciphertext =>
    hlast sessionId messageIndex previousCounter timestamp senderDeviceId associatedData
      ciphertext).congr (fun env => ⟨?_, ?_⟩) fun env => (serializeEnvelope_eq env).symm
  · rintro ⟨-, hsid, -, -, -, hid, had, hct, hw⟩
    exact ⟨⟨hsid, hid, had, hct⟩, hw⟩
  · rintro ⟨hf, hw⟩
    exact ⟨trivial, hf.sessionId, trivial, trivial, trivial, hf.senderDeviceId, hf.associatedData,
      hf.ciphertext, hw⟩

theorem readEnvelope_within : Within readEnvelope 0 :=
  readField_within.andThen readField_codes.yields fun _ =>
    readU32_within.andThen readU32_codes.yields fun _ =>
    readU32_within.andThen readU32_codes.yields fun _ =>
    readTimestamp_within.andThen readTimestamp_codes.yields fun _ =>
    readField_within.andThen readField_codes.yields fun _ =>
    readField_within.andThen readField_codes.yields fun _ =>
    readField_within.andThen readField_codes.yields fun _ => .pure _

theorem readFrame_codes :
    Codes readFrame (fun env => env.Fits ∧ env.onWire = env) serializeEnvelope :=
  readEnvelope_codes.checked () fun env _ => by
    rw [serializeEnvelope_length]
    omega

theorem readFrame_within : Within readFrame 0 :=
  (readEnvelope_within.mono (Nat.zero_le 4)).require (by decide) (by decide)

theorem fits_onWire {env : Envelope} (h : env.Fits) : env.onWire.Fits :=
  ⟨h.sessionId, h.senderDeviceId, h.associatedData, h.ciphertext⟩

theorem serializeEnvelope_lt {env : Envelope} (h : env.Fits) :
    (serializeEnvelope env).length < 2 ^ 63 := by
  have := h.sessionId
  have := h.senderDeviceId
  have := h.associatedData
  have := h.ciphertext
  rw [serializeEnvelope_length]
  omega

/-- **The wire format is exact**: a frame gives back what it carries, whatever
follows it, a frame that is cut short is rejected, what is accepted begins with
the frame of the result, and no read is past the end. -/
theorem deserializeEnvelope_exact :
    (∀ env : Envelope, env.Fits → ∀ (bytes : Buffer UInt8 64) (rest : Bytes),
      bytes.cells = serializeEnvelope env ++ rest →
        deserializeEnvelope bytes = .ok env.onWire) ∧
    (∀ env : Envelope, env.Fits → ∀ bytes : Buffer UInt8 64,
      bytes.cells <+: serializeEnvelope env → bytes.cells ≠ serializeEnvelope env →
        deserializeEnvelope bytes = .error (.rejected ())) ∧
    (∀ (bytes : Buffer UInt8 64) (env : Envelope), deserializeEnvelope bytes = .ok env →
      serializeEnvelope env <+: bytes.cells) ∧
    ∀ (bytes : Buffer UInt8 64) (start stop : ℕ),
      deserializeEnvelope bytes ≠ .error (.stray start stop) := by
  refine ⟨fun env hf bytes rest hb => ?_, fun env hf bytes hpre hne => ?_, fun bytes env hr => ?_,
    fun bytes => run_safe readFrame_within⟩
  · exact readFrame_codes.run_eq_ok.mpr ⟨⟨fits_onWire hf, rfl⟩, rest, hb.symm⟩
  · obtain ⟨_, hr⟩ := readFrame_codes.rejects_prefix readFrame_within ⟨fits_onWire hf, rfl⟩
      (serializeEnvelope_lt (fits_onWire hf)) hpre hne
    exact hr
  · exact (readFrame_codes.run_eq_ok.mp hr).2

/-- The frame of an envelope, and one byte more. -/
theorem deserializeEnvelope_exact_sample :
    deserializeEnvelope ⟨serializeEnvelope .sample ++ [0], by decide⟩ = .ok Envelope.sample.onWire :=
  deserializeEnvelope_exact.1 .sample Envelope.sample_fits _ [0] rfl

/-! ## The wire format without accesses -/

/-- `p` is the reader on buffers without their accesses. -/
def Follows {α : Type} (r : Reader UInt8 64 Unit α) (p : Bytes → ℕ → Option (α × ℕ)) : Prop :=
  ∀ (b : Buffer UInt8 64) (off : ℕ), off ≤ b.cells.length → p b.cells off = (r b off).toOption

theorem Follows.pure {α : Type} (a : α) :
    Follows (Pure.pure a) fun _ off => some (a, off) := fun _ _ _ => rfl

theorem Follows.bind {α γ : Type} {r : Reader UInt8 64 Unit α} {p : Bytes → ℕ → Option (α × ℕ)}
    {P : α → Bytes → Prop} {f : α → Reader UInt8 64 Unit γ}
    {g : α → Bytes → ℕ → Option (γ × ℕ)} (h : Follows r p) (hy : Yields r P)
    (h' : ∀ a, Follows (f a) (g a)) :
    Follows (r >>= f) fun bytes off => (p bytes off).bind fun x => g x.1 bytes x.2 := by
  intro b off hle
  change (p b.cells off).bind _ = _
  rw [h b off hle]
  cases hr : r b off with
  | error e => rw [bind_error hr]; rfl
  | ok x =>
    rw [bind_ok hr]
    exact h' x.1 b x.2 (hy b off x.1 x.2 hle hr).1

theorem readBytes_follows {n : ℕ} (hn : n ≤ 2 ^ 63) :
    Follows (require n () >>= fun _ => slice n) fun bytes off => readBytes bytes off n := by
  intro b off hle
  change readBytes b.cells off n = _
  unfold readBytes
  split
  · rename_i hgt
    rw [bind_error (require_fails () hn (by decide) hle hgt)]
    rfl
  · rename_i hle'
    rw [bind_ok (require_passes () (by omega)), slice, if_pos (by omega)]
    rfl

theorem readU32_follows : Follows readU32 Dispatcher.readU32 := by
  intro b off hle
  unfold Dispatcher.readU32 readU32Be
  rcases word32_cases () (by decide) hle with ⟨b0, b1, b2, b3, rest, hd, -, -, hr⟩ | ⟨hshort, hr⟩
  · rw [hd, readU32, hr]
    rfl
  · rw [readU32, hr]
    split
    · rename_i hd
      rw [hd] at hshort
      simp only [List.length_cons] at hshort
      omega
    · rfl

theorem readField_follows : Follows readField Dispatcher.readField :=
  readU32_follows.bind readU32_codes.yields fun len =>
    have hlen := len.toNat_lt
    readBytes_follows (by omega)

theorem readTimestamp_follows : Follows readTimestamp fun bytes off =>
    (readBytes bytes off 8).bind fun x => some (BigEndian.word64 x.1, x.2) := by
  intro b off hle
  change (readBytes b.cells off 8).bind _ = _
  unfold readBytes
  split
  · rename_i hgt
    have hr : readTimestamp b off = .error (.rejected ()) :=
      bind_error (require_fails () (by decide) (by decide) hle hgt)
    rw [hr]
    rfl
  · have hr : readTimestamp b off = _ :=
      (bind_ok (require_passes () (by omega))).trans (word64_ok (by omega))
    rw [hr]
    rfl

/-- **The wire format is what is read**: without the accesses to the buffer the
reader is the function of the wire format. -/
theorem deserializeEnvelope_eq (bytes : Buffer UInt8 64) :
    Dispatcher.deserializeEnvelope bytes.cells = (deserializeEnvelope bytes).toOption := by
  have h : Follows readEnvelope _ :=
    readField_follows.bind readField_codes.yields fun sessionId =>
    readU32_follows.bind readU32_codes.yields fun messageIndex =>
    readU32_follows.bind readU32_codes.yields fun previousCounter =>
    readTimestamp_follows.bind readTimestamp_codes.yields fun timestamp =>
    readField_follows.bind readField_codes.yields fun senderDeviceId =>
    readField_follows.bind readField_codes.yields fun associatedData =>
    readField_follows.bind readField_codes.yields fun ciphertext => .pure _
  have h0 := h bytes 0 (Nat.zero_le _)
  unfold Dispatcher.deserializeEnvelope deserializeEnvelope Reader.run readFrame
  split
  · rename_i hgt
    rw [bind_error (require_fails () (by decide) (by decide) (Nat.zero_le _) (by omega))]
    rfl
  · rename_i hle
    rw [bind_ok (require_passes () (by omega))]
    have hmap : ((readEnvelope bytes 0).map Prod.fst).toOption =
        (readEnvelope bytes 0).toOption.map Prod.fst := by
      cases readEnvelope bytes 0 <;> rfl
    rw [hmap, ← h0]
    simp only [Option.bind_eq_bind, Option.map_bind, Option.bind_assoc, Option.bind_some,
      Function.comp_def, Option.map_some]
    rfl

end SecureComm.Dispatcher.Frame
