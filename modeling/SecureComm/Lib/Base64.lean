import Mathlib.Data.List.Nodup
import SecureComm.Lib.BigEndian

/-!
# Base64

The encodings of three bytes by four characters of an alphabet, with or without
padding. Decoding ignores line breaks, demands padding exactly if the encoding
has it, and returns what came before an error together with the error. Each
encoding decodes what it encodes (`decodeString_encodeToString`). Without padding
what the padded encoding makes is decoded if and only if there was nothing to
pad (`raw_decodeString`).
-/

namespace SecureComm.Base64

/-- An alphabet of 64 characters and the padding character, if there is one. -/
structure Encoding where
  alphabet : List Char
  pad : Option Char
  size : alphabet.length = 64
  nodup : alphabet.Nodup
  pad_not_mem : ∀ c ∈ pad, c ∉ alphabet
  noBreak : '\r' ∉ alphabet ++ pad.toList ∧ '\n' ∉ alphabet ++ pad.toList

def Encoding.char (E : Encoding) (n : ℕ) : Char := E.alphabet.getD (n % 64) 'A'

def Encoding.value (E : Encoding) (c : Char) : Option ℕ :=
  if c ∈ E.alphabet then some (E.alphabet.idxOf c) else none

/-- Three bytes in one number. -/
def word (x y z : UInt8) : ℕ := x.toNat * 65536 + y.toNat * 256 + z.toNat

/-- Four times six bits in one number. -/
def join (p q r s : ℕ) : ℕ := p * 262144 + q * 4096 + r * 64 + s

/-- The bytes of such a number. -/
def split (v : ℕ) : UInt8 × UInt8 × UInt8 :=
  (UInt8.ofNat (v / 65536), UInt8.ofNat (v / 256), UInt8.ofNat v)

def Encoding.encode (E : Encoding) : Bytes → List Char
  | x :: y :: z :: rest =>
    let v := word x y z
    E.char (v / 262144) :: E.char (v / 4096) :: E.char (v / 64) :: E.char v :: E.encode rest
  | [x, y] =>
    let v := word x y 0
    [E.char (v / 262144), E.char (v / 4096), E.char (v / 64)] ++ E.pad.toList
  | [x] =>
    let v := word x 0 0
    [E.char (v / 262144), E.char (v / 4096)] ++ E.pad.toList ++ E.pad.toList
  | [] => []

/-- The bytes up to an error, and whether there was none. -/
def Encoding.decode (E : Encoding) : List Char → Bytes × Bool
  | [] => ([], true)
  | [_] => ([], false)
  | [a, b] =>
    match E.pad, E.value a, E.value b with
    | none, some p, some q => ([(split (join p q 0 0)).1], true)
    | _, _, _ => ([], false)
  | [a, b, c] =>
    match E.pad, E.value a, E.value b, E.value c with
    | none, some p, some q, some r =>
      let (x, y, _) := split (join p q r 0)
      ([x, y], true)
    | _, _, _, _ => ([], false)
  | a :: b :: c :: d :: rest =>
    match E.value a, E.value b with
    | some p, some q =>
      match E.value c, E.value d with
      | some r, some s =>
        let (x, y, z) := split (join p q r s)
        let (bytes, ok) := E.decode rest
        (x :: y :: z :: bytes, ok)
      | some r, none =>
        let (x, y, _) := split (join p q r 0)
        if E.pad = some d then ([x, y], rest.isEmpty) else ([], false)
      | none, _ =>
        if E.pad = some c ∧ E.pad = some d then ([(split (join p q 0 0)).1], rest.isEmpty)
        else ([], false)
    | _, _ => ([], false)

def Encoding.encodeToString (E : Encoding) (src : Bytes) : String := String.ofList (E.encode src)

/-- Line breaks are skipped wherever they are. -/
def Encoding.decodeString (E : Encoding) (s : String) : Bytes × Bool :=
  E.decode (s.toList.filter fun c => c ≠ '\r' ∧ c ≠ '\n')

/-- The same alphabet without padding. -/
def Encoding.raw (E : Encoding) : Encoding :=
  { E with
    pad := none
    pad_not_mem := fun _ h => by cases h
    noBreak := E.noBreak.imp
      (fun hn h => hn (List.mem_append_left _ (by simpa using h)))
      fun hn h => hn (List.mem_append_left _ (by simpa using h)) }

def stdEncoding : Encoding where
  alphabet := [
    'A', 'B', 'C', 'D', 'E', 'F', 'G', 'H', 'I', 'J', 'K', 'L', 'M', 'N', 'O', 'P',
    'Q', 'R', 'S', 'T', 'U', 'V', 'W', 'X', 'Y', 'Z', 'a', 'b', 'c', 'd', 'e', 'f',
    'g', 'h', 'i', 'j', 'k', 'l', 'm', 'n', 'o', 'p', 'q', 'r', 's', 't', 'u', 'v',
    'w', 'x', 'y', 'z', '0', '1', '2', '3', '4', '5', '6', '7', '8', '9', '+', '/']
  pad := some '='
  size := by decide +kernel
  nodup := by decide +kernel
  pad_not_mem := fun c hc => by cases hc; decide +kernel
  noBreak := by decide +kernel

def rawStdEncoding : Encoding := stdEncoding.raw

example : stdEncoding.encodeToString (BigEndian.be32 0x666f6f62) = "Zm9vYg==" := by decide +kernel

/-! ## Round trip -/

variable {E : Encoding}

theorem char_mem (E : Encoding) (n : ℕ) : E.char n ∈ E.alphabet := by
  have hlt : n % 64 < E.alphabet.length := by rw [E.size]; exact Nat.mod_lt _ (by decide)
  rw [Encoding.char, List.getD_eq_getElem _ _ hlt]
  exact List.getElem_mem hlt

theorem value_char (E : Encoding) (n : ℕ) : E.value (E.char n) = some (n % 64) := by
  have hlt : n % 64 < E.alphabet.length := by rw [E.size]; exact Nat.mod_lt _ (by decide)
  rw [Encoding.value, if_pos (char_mem E n), Encoding.char, List.getD_eq_getElem _ _ hlt,
    E.nodup.idxOf_getElem]

theorem value_pad {p : Char} (hp : E.pad = some p) : E.value p = none :=
  if_neg (E.pad_not_mem p hp)

theorem ofNat_eq {n : ℕ} {x : UInt8} (h : n % 256 = x.toNat) : UInt8.ofNat n = x :=
  UInt8.toNat_inj.mp (UInt8.toNat_ofNat'.trans h)

theorem split_word (x y z : UInt8) : split (word x y z) = (x, y, z) := by
  have hx := x.toNat_lt
  have hy := y.toNat_lt
  have hz := z.toNat_lt
  have h₀ : word x y z / 65536 % 256 = x.toNat := by unfold word; omega
  have h₁ : word x y z / 256 % 256 = y.toNat := by unfold word; omega
  have h₂ : word x y z % 256 = z.toNat := by unfold word; omega
  rw [split, ofNat_eq h₀, ofNat_eq h₁, ofNat_eq h₂]

theorem join_word (x y z : UInt8) :
    join (word x y z / 262144 % 64) (word x y z / 4096 % 64) (word x y z / 64 % 64)
      (word x y z % 64) = word x y z := by
  have hx := x.toNat_lt
  have hy := y.toNat_lt
  have hz := z.toNat_lt
  have hv : word x y z < 16777216 := by unfold word; omega
  unfold join
  omega

/-- The last character of two bytes has two bits to spare, that of one has four. -/
theorem word_low (x y : UInt8) : word x y 0 % 64 = 0 ∧ word x 0 0 / 64 % 64 = 0 ∧
    word x 0 0 % 64 = 0 := by
  have h0 : (0 : UInt8).toNat = 0 := rfl
  unfold word
  rw [h0]
  omega

theorem decode_group (E : Encoding) (x y z : UInt8) (rest : List Char) :
    let v := word x y z
    E.decode (E.char (v / 262144) :: E.char (v / 4096) :: E.char (v / 64) :: E.char v :: rest) =
      (x :: y :: z :: (E.decode rest).1, (E.decode rest).2) := by
  simp only [Encoding.decode, value_char, join_word, split_word]

/-- **Round trip**, in characters. -/
theorem decode_encode (E : Encoding) (src : Bytes) : E.decode (E.encode src) = (src, true) := by
  induction src using Encoding.encode.induct with
  | case1 x y z rest ih =>
    rw [Encoding.encode, decode_group, ih]
  | case2 x y =>
    obtain ⟨hlow, -⟩ := word_low x y
    have hjoin := join_word x y 0
    rw [hlow] at hjoin
    rcases hp : E.pad with _ | p
    · simp [Encoding.encode, Encoding.decode, hp, value_char, hjoin, split_word]
    · simp [Encoding.encode, Encoding.decode, hp, value_char, value_pad hp, hjoin, split_word]
  | case3 x =>
    obtain ⟨-, hmid, hlow⟩ := word_low x 0
    have hjoin := join_word x 0 0
    rw [hmid, hlow] at hjoin
    rcases hp : E.pad with _ | p
    · simp [Encoding.encode, Encoding.decode, hp, value_char, hjoin, split_word]
    · simp [Encoding.encode, Encoding.decode, hp, value_char, value_pad hp, hjoin, split_word]
  | case4 => rfl

theorem value_raw (E : Encoding) (c : Char) : E.raw.value c = E.value c := rfl

theorem pad_raw (E : Encoding) : E.raw.pad = none := rfl

/-- Without padding, groups of three bytes are decoded and a padded rest is an error. -/
theorem raw_decode_encode {p : Char} (hp : E.pad = some p) (src : Bytes) :
    E.raw.decode (E.encode src) =
      (src.take (src.length / 3 * 3), decide (src.length % 3 = 0)) := by
  induction src using Encoding.encode.induct with
  | case1 x y z rest ih =>
    have hgroup := decode_group E.raw x y z (E.encode rest)
    rw [ih] at hgroup
    rw [Encoding.encode]
    refine hgroup.trans ?_
    have hlen : (x :: y :: z :: rest).length / 3 * 3 = rest.length / 3 * 3 + 3 := by
      simp only [List.length_cons]
      omega
    have hmod : (x :: y :: z :: rest).length % 3 = rest.length % 3 := by
      simp only [List.length_cons]
      omega
    rw [hlen, hmod]
    rfl
  | case2 x y =>
    simp [Encoding.encode, Encoding.decode, hp, value_raw, pad_raw, value_char, value_pad hp]
  | case3 x =>
    simp [Encoding.encode, Encoding.decode, hp, value_raw, pad_raw, value_char, value_pad hp]
  | case4 => rfl

theorem mem_encode {src : Bytes} {c : Char} (h : c ∈ E.encode src) :
    c ∈ E.alphabet ++ E.pad.toList := by
  have hchar : ∀ n, E.char n ∈ E.alphabet ++ E.pad.toList := fun n =>
    List.mem_append_left _ (char_mem E n)
  have hpad : c ∈ E.pad.toList → c ∈ E.alphabet ++ E.pad.toList := List.mem_append_right _
  induction src using Encoding.encode.induct with
  | case1 x y z rest ih =>
    simp only [Encoding.encode, List.mem_cons] at h
    obtain rfl | rfl | rfl | rfl | h := h
    · exact hchar _
    · exact hchar _
    · exact hchar _
    · exact hchar _
    · exact ih h
  | case2 x y =>
    simp only [Encoding.encode, List.mem_append, List.mem_cons, List.not_mem_nil, or_false] at h
    obtain (rfl | rfl | rfl) | h := h
    · exact hchar _
    · exact hchar _
    · exact hchar _
    · exact hpad h
  | case3 x =>
    simp only [Encoding.encode, List.mem_append, List.mem_cons, List.not_mem_nil, or_false] at h
    obtain ((rfl | rfl) | h) | h := h
    · exact hchar _
    · exact hchar _
    · exact hpad h
    · exact hpad h
  | case4 => cases h

theorem filter_encode (E : Encoding) (src : Bytes) :
    (E.encode src).filter (fun c => c ≠ '\r' ∧ c ≠ '\n') = E.encode src :=
  List.filter_eq_self.mpr fun _ hc => decide_eq_true
    ⟨fun he => E.noBreak.1 (he ▸ mem_encode hc), fun he => E.noBreak.2 (he ▸ mem_encode hc)⟩

/-- **Round trip.** -/
theorem decodeString_encodeToString (E : Encoding) (src : Bytes) :
    E.decodeString (E.encodeToString src) = (src, true) := by
  rw [Encoding.decodeString, Encoding.encodeToString, String.toList_ofList, filter_encode,
    decode_encode]

/-- **Padding is an error** where there is to be none, and it is there unless the
length is divisible by three. -/
theorem raw_decodeString {p : Char} (hp : E.pad = some p) (src : Bytes) :
    E.raw.decodeString (E.encodeToString src) =
      (src.take (src.length / 3 * 3), decide (src.length % 3 = 0)) := by
  rw [Encoding.decodeString, Encoding.encodeToString, String.toList_ofList, filter_encode,
    raw_decode_encode hp]

end SecureComm.Base64
