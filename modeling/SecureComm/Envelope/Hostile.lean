import SecureComm.Envelope.Serialize

/-!
# Deserialising what anyone may have sent

`layout` is the order of the parts of a serialised envelope, and `Honest` says
of bytes that no length among them announces more than there is. Exactly on
honest input do the reads of `deserialize` stay inside the buffer.
-/

namespace SecureComm.Envelope

open Cursor Cursor.Reader

inductive Part where
  /-- A 32-bit word. -/
  | word
  /-- A 64-bit word. -/
  | long
  /-- A length and as many bytes. -/
  | block

def layout : List Part :=
  [.word, .block, .word, .word, .long, .block, .block, .block, .block, .block]

/-- Every length is at most what comes after it, and a 64-bit word is there.
Bytes that end before or within a word or a length are honest from there on. -/
def Honest : List Part → Bytes → Prop
  | [], _ => True
  | .word :: ps, _ :: _ :: _ :: _ :: rest => Honest ps rest
  | .word :: _, _ => True
  | .long :: ps, bytes => 8 ≤ bytes.length ∧ Honest ps (bytes.drop 8)
  | .block :: ps, b0 :: b1 :: b2 :: b3 :: rest =>
    (BigEndian.word32 b0 b1 b2 b3).toNat ≤ rest.length ∧
      Honest ps (rest.drop (BigEndian.word32 b0 b1 b2 b3).toNat)
  | .block :: _, _ => True

theorem honest_word_short {ps : List Part} {bytes : Bytes} (h : bytes.length < 4) :
    Honest (.word :: ps) bytes := by
  rcases bytes with _ | ⟨b0, _ | ⟨b1, _ | ⟨b2, _ | ⟨b3, rest⟩⟩⟩⟩
  case cons.cons.cons.cons => simp only [List.length_cons] at h; omega
  all_goals exact trivial

theorem honest_block_short {ps : List Part} {bytes : Bytes} (h : bytes.length < 4) :
    Honest (.block :: ps) bytes := by
  rcases bytes with _ | ⟨b0, _ | ⟨b1, _ | ⟨b2, _ | ⟨b3, rest⟩⟩⟩⟩
  case cons.cons.cons.cons => simp only [List.length_cons] at h; omega
  all_goals exact trivial

/-- The reader goes through the parts, and stays inside exactly where what is
ahead is honest. -/
def Walks {α : Type} (r : Reader UInt8 64 String α) (ps : List Part) : Prop :=
  ∀ (b : Buffer UInt8 64) (off : ℕ), off ≤ b.cells.length →
    (Safe r b off ↔ Honest ps (b.cells.drop off))

namespace Walks

variable {α γ : Type} {ps : List Part}

theorem pure (a : α) : Walks (Pure.pure a) [] := fun _ _ _ =>
  iff_of_true (safe_of_ok rfl) trivial

theorem word {f : UInt32 → Reader UInt8 64 String γ} (h : ∀ v, Walks (f v) ps) :
    Walks (readU32 >>= f) (.word :: ps) := by
  intro b off hle
  rcases word32_cases "Envelope: invalid length" (by decide) hle with
    ⟨b0, b1, b2, b3, rest, hd, hle', hd', hr⟩ | ⟨hshort, hr⟩
  · have hnext := h (BigEndian.word32 b0 b1 b2 b3) b (off + 4) hle'
    rw [hd'] at hnext
    rw [hd]
    exact (safe_bind_of_ok hr).trans hnext
  · exact iff_of_true (safe_of_rejected (bind_error hr)) (honest_word_short hshort)

theorem long {f : UInt64 → Reader UInt8 64 String γ} (h : ∀ v, Walks (f v) ps) :
    Walks (word64 >>= f) (.long :: ps) := by
  intro b off hle
  have hl : (b.cells.drop off).length = b.cells.length - off := List.length_drop
  by_cases hroom : off + 8 ≤ b.cells.length
  · rw [safe_bind_of_ok (word64_ok hroom), h _ b _ hroom, ← List.drop_drop]
    exact (and_iff_right (by omega)).symm
  · refine iff_of_false (fun hs => ?_) fun hh => hroom (by have := hh.1; omega)
    exact foldFetch_strays 0 hle (by omega) (safe_bind.mp hs).1

theorem block {f : Bytes → Reader UInt8 64 String γ} (h : ∀ field, Walks (f field) ps) :
    Walks (readField >>= f) (.block :: ps) := by
  intro b off hle
  rcases word32_cases "Envelope: invalid length" (by decide) hle with
    ⟨b0, b1, b2, b3, rest, hd, hle', hd', hr⟩ | ⟨hshort, hr⟩
  · have hl : rest.length = b.cells.length - (off + 4) := by rw [← hd', List.length_drop]
    have hfield : readField b off = slice (BigEndian.word32 b0 b1 b2 b3).toNat b (off + 4) :=
      bind_ok hr
    rw [hd]
    by_cases hroom : (BigEndian.word32 b0 b1 b2 b3).toNat ≤ rest.length
    · rw [slice, if_pos (by omega)] at hfield
      rw [safe_bind_of_ok hfield, h _ b _ (by omega), ← List.drop_drop, hd']
      exact (and_iff_right hroom).symm
    · rw [slice, if_neg (by omega)] at hfield
      exact iff_of_false (not_safe (bind_error hfield)) fun hh => hroom hh.1
  · have hfield : readField b off = .error (.rejected "Envelope: invalid length") := bind_error hr
    exact iff_of_true (safe_of_rejected (bind_error hfield)) (honest_block_short hshort)

end Walks

theorem readEnvelope_walks : Walks readEnvelope layout :=
  .word fun _ => .block fun _ => .word fun _ => .word fun _ => .long fun _ => .block fun _ =>
    .block fun _ => .block fun _ => .block fun _ => .block fun _ => .pure _

/-- Every read is inside the input, and what comes out was written at its start. -/
def Contained (input : Buffer UInt8 64) : Prop :=
  (∀ start stop, deserialize input ≠ .error (.stray start stop)) ∧
    ∀ env, deserialize input = .ok env → env.serialize <+: input.cells

theorem run_stray_iff {input : Buffer UInt8 64} :
    (∀ start stop, deserialize input ≠ .error (.stray start stop)) ↔ Safe readEnvelope input 0 := by
  unfold deserialize Reader.run Safe
  cases readEnvelope input 0 with
  | error e =>
    refine forall₂_congr fun start stop => not_congr ⟨fun h => ?_, fun h => ?_⟩
    · cases h; rfl
    · cases h; rfl
  | ok p => exact iff_of_true (fun _ _ h => by cases h) fun _ _ h => by cases h

/-- **Only honest input is read safely.** -/
theorem contained_iff_honest (input : Buffer UInt8 64) :
    Contained input ↔ Honest layout input.cells := by
  have hwalk := readEnvelope_walks input 0 (Nat.zero_le _)
  rw [List.drop_zero, ← run_stray_iff] at hwalk
  refine ⟨fun h => hwalk.mp h.1, fun h => ⟨hwalk.mpr h, fun env hr => ?_⟩⟩
  exact (readEnvelope_codes.run_eq_ok.mp hr).2

/-- A version, and a session id that is said to have 255 bytes and has one. -/
def hostile : Buffer UInt8 64 := ⟨[0, 0, 0, 1, 0, 0, 0, 255, 7], by decide⟩

/-- **A length is believed**: the read of the session id goes past the end. -/
theorem hostile_strays : deserialize hostile = .error (.stray 8 263) ∧ ¬ Contained hostile := by
  have hr : deserialize hostile = .error (.stray 8 263) := by decide +kernel
  exact ⟨hr, fun h => h.1 8 263 hr⟩

end SecureComm.Envelope
