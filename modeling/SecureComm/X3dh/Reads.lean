import SecureComm.Lib.RawReads
import SecureComm.X3dh.Agreement

/-!
# The reads of a handshake

The two handshake functions again, read by read. `crypto_scalarmult` reads 32
bytes of each buffer it is given and HMAC 32 of its key, whatever the sizes; the
key is the label, of twelve bytes. So a handshake stays inside its buffers only
where it does not get as far as HMAC: where it throws before that, and every
buffer it has read by then is long enough (`reads_contained_iff`).
-/

namespace SecureComm

namespace X3dh

open Cursor (Fault)

variable (S : Sodium)

/-! ## The functions, read by read -/

inductive InitiatorBuffer where
  | aliceIkPriv
  | aliceEphPriv
  | bobIkPub
  | bobSpkPub
  | bobOpkPub
  | label

inductive ResponderBuffer where
  | bobIkPriv
  | bobSpkPriv
  | aliceIkPub
  | aliceEphPub
  | bobOpkPriv
  | label

/-- The buffers that one side multiplies: scalar and point. -/
structure Plan (ι : Type) where
  dh1 : ι × ι
  dh2 : ι × ι
  dh3 : ι × ι
  dh4 : ι × ι
  opk : ι
  label : ι

namespace Plan

def initiator : Plan InitiatorBuffer where
  dh1 := (.aliceIkPriv, .bobSpkPub)
  dh2 := (.aliceEphPriv, .bobIkPub)
  dh3 := (.aliceEphPriv, .bobSpkPub)
  dh4 := (.aliceEphPriv, .bobOpkPub)
  opk := .bobOpkPub
  label := .label

def responder : Plan ResponderBuffer where
  dh1 := (.bobSpkPriv, .aliceIkPub)
  dh2 := (.bobIkPriv, .aliceEphPub)
  dh3 := (.bobSpkPriv, .aliceEphPub)
  dh4 := (.bobOpkPriv, .aliceEphPub)
  opk := .bobOpkPriv
  label := .label

variable {ι : Type}

def dh (keys : ι × ι) (failure : String) : Raw ι UInt8 String (BytesN 32) := do
  let scalar ← Raw.cells keys.1 32
  let point ← Raw.cells keys.2 32
  match S.scalarmult scalar point with
  | some shared => return shared
  | none => .throw failure

def combined (k : Plan ι) : Raw ι UInt8 String Bytes := do
  let dh1 ← dh S k.dh1 "DH1 failed"
  let dh2 ← dh S k.dh2 "DH2 failed"
  let dh3 ← dh S k.dh3 "DH3 failed"
  let combined := dh1.val ++ dh2.val ++ dh3.val
  if (← Raw.length k.opk) ≠ 0 then
    let dh4 ← dh S k.dh4 "DH4 failed"
    return combined ++ dh4.val
  else return combined

def computeRoot (k : Plan ι) : Raw ι UInt8 String (BytesN 32) := do
  let combined ← k.combined S
  let key ← Raw.cells k.label 32
  return S.hmac key.val combined

/-- The handshake function of a side; of the surroundings only the draw and the clock are used. -/
def handshake (k : Plan ι) (around : Surroundings) (senderDeviceId : Bytes) :
    Raw ι UInt8 String Envelope := do
  let root ← k.computeRoot S
  return handshakeEnvelope around root senderDeviceId

end Plan

namespace Pointers

def initiateHandshake (around : Surroundings) : Raw InitiatorBuffer UInt8 String Envelope :=
  Plan.initiator.handshake S around (octets ['i', 'n', 'i', 't', 'i', 'a', 't', 'o', 'r'])

def respondHandshake (around : Surroundings) : Raw ResponderBuffer UInt8 String Envelope :=
  Plan.responder.handshake S around (octets ['r', 'e', 's', 'p', 'o', 'n', 'd', 'e', 'r'])

end Pointers

/-- The vectors a call is given, and the label. -/
def initiatorBuffers (ikPriv ephPriv ikPub spkPub opkPub : Bytes) : InitiatorBuffer → Bytes
  | .aliceIkPriv => ikPriv
  | .aliceEphPriv => ephPriv
  | .bobIkPub => ikPub
  | .bobSpkPub => spkPub
  | .bobOpkPub => opkPub
  | .label => rootKeyLabel

def responderBuffers (ikPriv spkPriv ikPub ephPub opkPriv : Bytes) : ResponderBuffer → Bytes
  | .bobIkPriv => ikPriv
  | .bobSpkPriv => spkPriv
  | .aliceIkPub => ikPub
  | .aliceEphPub => ephPub
  | .bobOpkPriv => opkPriv
  | .label => rootKeyLabel

/-! ## The reads, checked -/

namespace Plan

variable {S} {ι : Type} {k : Plan ι} {m : ι → Bytes} {around : Surroundings} {sender : Bytes}

theorem checked_dh (m : ι → Bytes) (keys : ι × ι) (failure : String) :
    (dh S keys failure).checked m = X3dh.dh S (m keys.1) (m keys.2) failure := by
  rw [dh, Raw.checked_cells, X3dh.dh]
  by_cases h1 : 32 ≤ (m keys.1).length
  · rw [dif_pos h1, Raw.checked_cells]
    by_cases h2 : 32 ≤ (m keys.2).length
    · rw [dif_pos h2, dif_pos ⟨h1, h2⟩, front, front]
      split
      · rename_i hk
        rw [hk]
        rfl
      · rename_i hk
        rw [hk]
        rfl
    · rw [dif_neg h2, dif_neg fun h => h2 h.2]
  · rw [dif_neg h1, dif_neg fun h => h1 h.1]

theorem checked_combined (k : Plan ι) (m : ι → Bytes) :
    (k.combined S).checked m = (do
      let dh1 ← X3dh.dh S (m k.dh1.1) (m k.dh1.2) "DH1 failed"
      let dh2 ← X3dh.dh S (m k.dh2.1) (m k.dh2.2) "DH2 failed"
      let dh3 ← X3dh.dh S (m k.dh3.1) (m k.dh3.2) "DH3 failed"
      let combined := dh1.val ++ dh2.val ++ dh3.val
      if m k.opk ≠ [] then
        let dh4 ← X3dh.dh S (m k.dh4.1) (m k.dh4.2) "DH4 failed"
        return combined ++ dh4.val
      else return combined) := by
  rw [combined, Raw.checked_bind, checked_dh]
  refine bind_congr fun dh1 => ?_
  rw [Raw.checked_bind, checked_dh]
  refine bind_congr fun dh2 => ?_
  rw [Raw.checked_bind, checked_dh]
  refine bind_congr fun dh3 => ?_
  rw [Raw.checked_bind]
  show (if (m k.opk).length ≠ 0 then _ else _ : Raw ι UInt8 String Bytes).checked m = _
  by_cases hopk : m k.opk = []
  · rw [if_neg fun h => h (congrArg List.length hopk), if_neg fun h => h hopk]
    rfl
  · rw [if_pos hopk, if_pos fun h => hopk (List.length_eq_zero_iff.mp h), Raw.checked_bind,
      checked_dh]
    rfl

/-- A handshake that gets as far as HMAC reads past the label. -/
theorem checked_handshake (hlabel : (m k.label).length < 32) :
    (k.handshake S around sender).checked m =
      (k.combined S).checked m >>= fun _ => .error (.stray 0 32) := by
  rw [handshake, computeRoot, Raw.checked_bind, Raw.checked_bind]
  rcases (k.combined S).checked m with e | c
  · rfl
  · show (Raw.checked m _ >>= _) = _
    rw [Raw.checked_cells, dif_neg (by omega)]
    rfl

theorem contained_iff_rejected (hlabel : (m k.label).length < 32) :
    Raw.Contained m (k.handshake S around sender) ↔
      ∃ e, (k.combined S).checked m = .error (.rejected e) := by
  rw [Raw.contained_iff, checked_handshake hlabel]
  rcases (k.combined S).checked m with (e | ⟨start, stop⟩) | c
  · exact iff_of_true (fun _ _ h => nomatch h) ⟨e, rfl⟩
  · exact iff_of_false (fun h => h start stop rfl) fun ⟨e, h⟩ => nomatch h
  · exact iff_of_false (fun h => h 0 32 rfl) fun ⟨e, h⟩ => nomatch h

/-- On a memory, a handshake whose multiplications stay inside takes its key from the
label and the bytes behind it. -/
theorem exec_handshake {c : Bytes} (hc : (k.combined S).checked m = .ok c)
    {behind : ι → ℕ → UInt8}
    (hkey : (Raw.readPast (m k.label) (behind k.label) 32).val = around.rootKey) :
    (k.handshake S around sender).exec m behind =
      .ok (handshakeEnvelope around (S.hmac around.rootKey c) sender) := by
  rw [handshake, computeRoot, Raw.exec_bind, Raw.exec_bind,
    (Raw.exec_of_checked behind).1 c hc, ← hkey]
  rfl

end Plan

/-! ## Where the reads stay inside -/

/-- One of the pairs, each of two buffers that are long enough, is refused by
`crypto_scalarmult`, and so are the pairs before it long enough. -/
def Refused (S : Sodium) : List (Bytes × Bytes) → Prop
  | [] => False
  | keys :: rest =>
    ∃ h : 32 ≤ keys.1.length ∧ 32 ≤ keys.2.length,
      S.scalarmult (front keys.1 h.1) (front keys.2 h.2) = none ∨ Refused S rest

/-- The pairs of buffers that a side multiplies, in order. -/
def Plan.pairs {ι : Type} (k : Plan ι) (m : ι → Bytes) : List (Bytes × Bytes) :=
  [(m k.dh1.1, m k.dh1.2), (m k.dh2.1, m k.dh2.2), (m k.dh3.1, m k.dh3.2)] ++
    if m k.opk ≠ [] then [(m k.dh4.1, m k.dh4.2)] else []

variable {S}

theorem rejected_bind_iff {γ : Type} (scalar point : Bytes) (failure : String)
    {next : BytesN 32 → Except (Fault String) γ} {rest : List (Bytes × Bytes)}
    (hnext : ∀ shared, (∃ e, next shared = .error (.rejected e)) ↔ Refused S rest) :
    (∃ e, (dh S scalar point failure >>= next) = .error (.rejected e)) ↔
      Refused S ((scalar, point) :: rest) := by
  rw [dh, Refused]
  by_cases h : 32 ≤ scalar.length ∧ 32 ≤ point.length
  · rw [dif_pos h, exists_prop_of_true h]
    rcases hk : S.scalarmult (front scalar h.1) (front point h.2) with _ | shared
    · exact iff_of_true ⟨failure, rfl⟩ (.inl rfl)
    · refine (hnext shared).trans ⟨.inr, fun hr => hr.resolve_left ?_⟩
      exact Option.some_ne_none shared
  · rw [dif_neg h]
    constructor
    · rintro ⟨e, he⟩
      cases he
    · rintro ⟨hlong, -⟩
      exact absurd hlong h

theorem rejected_iff_refused {ι : Type} (k : Plan ι) (m : ι → Bytes) :
    (∃ e, (k.combined S).checked m = .error (.rejected e)) ↔ Refused S (k.pairs m) := by
  rw [Plan.checked_combined]
  refine rejected_bind_iff _ _ _ fun dh1 => rejected_bind_iff _ _ _ fun dh2 =>
    rejected_bind_iff _ _ _ fun dh3 => ?_
  split
  · exact rejected_bind_iff _ _ _ fun dh4 => iff_of_false (fun ⟨_, he⟩ => nomatch he) id
  · exact iff_of_false (fun ⟨_, he⟩ => nomatch he) id

theorem label_short : rootKeyLabel.length < 32 := by decide

/-- **The reads of a handshake stay inside** their buffers if and only if one of the
multiplications is refused, and no buffer is too short up to that one. -/
theorem reads_contained_iff (S : Sodium) (around : Surroundings)
    (aliceIkPriv aliceEphPriv bobIkPub bobSpkPub bobOpkPub : Bytes)
    (bobIkPriv bobSpkPriv aliceIkPub aliceEphPub bobOpkPriv : Bytes) :
    (Raw.Contained (initiatorBuffers aliceIkPriv aliceEphPriv bobIkPub bobSpkPub bobOpkPub)
        (Pointers.initiateHandshake S around) ↔
      Refused S ([(aliceIkPriv, bobSpkPub), (aliceEphPriv, bobIkPub), (aliceEphPriv, bobSpkPub)] ++
        if bobOpkPub ≠ [] then [(aliceEphPriv, bobOpkPub)] else [])) ∧
    (Raw.Contained (responderBuffers bobIkPriv bobSpkPriv aliceIkPub aliceEphPub bobOpkPriv)
        (Pointers.respondHandshake S around) ↔
      Refused S ([(bobSpkPriv, aliceIkPub), (bobIkPriv, aliceEphPub), (bobSpkPriv, aliceEphPub)] ++
        if bobOpkPriv ≠ [] then [(bobOpkPriv, aliceEphPub)] else [])) :=
  ⟨(Plan.contained_iff_rejected label_short).trans (rejected_iff_refused Plan.initiator _),
    (Plan.contained_iff_rejected label_short).trans (rejected_iff_refused Plan.responder _)⟩

theorem key_of_past {around : Surroundings} {behind : ℕ → UInt8}
    (hpast : around.pastLabel.val = List.ofFn fun i : Fin 20 => behind i) :
    (Raw.readPast rootKeyLabel behind 32).val = around.rootKey := by
  rw [Raw.readPast_of_ge (Nat.le_of_lt label_short), Surroundings.rootKey, hpast]
  rfl

/-- **One function, two models**: on a memory with the given bytes behind the label, the
call gives the envelope that `initiateHandshake` gives. -/
theorem exec_initiateHandshake {around : Surroundings} {env : Envelope}
    {ikPriv ephPriv ikPub spkPub opkPub : Bytes} {behind : InitiatorBuffer → ℕ → UInt8}
    (hpast : around.pastLabel.val = List.ofFn fun i : Fin 20 => behind .label i)
    (h : X3dh.initiateHandshake S ikPriv ephPriv ikPub spkPub opkPub around = .ok env) :
    (Pointers.initiateHandshake S around).exec
      (initiatorBuffers ikPriv ephPriv ikPub spkPub opkPub) behind = .ok env := by
  have hchecked := Plan.checked_combined (S := S) Plan.initiator
    (initiatorBuffers ikPriv ephPriv ikPub spkPub opkPub)
  rw [X3dh.initiateHandshake, x3dhComputeRootInitiator] at h
  rcases hc : combinedInitiator S ikPriv ephPriv ikPub spkPub opkPub with e | c
  · rw [hc] at h
    cases h
  · rw [hc] at h
    cases h
    exact Plan.exec_handshake (hchecked.trans hc) (key_of_past hpast)

theorem exec_respondHandshake {around : Surroundings} {env : Envelope}
    {ikPriv spkPriv ikPub ephPub opkPriv : Bytes} {behind : ResponderBuffer → ℕ → UInt8}
    (hpast : around.pastLabel.val = List.ofFn fun i : Fin 20 => behind .label i)
    (h : X3dh.respondHandshake S ikPriv spkPriv ikPub ephPub opkPriv around = .ok env) :
    (Pointers.respondHandshake S around).exec
      (responderBuffers ikPriv spkPriv ikPub ephPub opkPriv) behind = .ok env := by
  have hchecked := Plan.checked_combined (S := S) Plan.responder
    (responderBuffers ikPriv spkPriv ikPub ephPub opkPriv)
  rw [X3dh.respondHandshake, x3dhComputeRootResponder] at h
  rcases hc : combinedResponder S ikPriv spkPriv ikPub ephPub opkPriv with e | c
  · rw [hc] at h
    cases h
  · rw [hc] at h
    cases h
    exact Plan.exec_handshake (hchecked.trans hc) (key_of_past hpast)

namespace Handshake

def sampleBuffers : InitiatorBuffer → Bytes :=
  initiatorBuffers sample.aliceIk.priv.val sample.aliceEph.priv.val sample.bobIk.pub.val
    sample.bobSpk.pub.val (orEmpty KeyPair.pub sample.offered)

/-- **The root depends on what lies behind the label**, with five keys of the right size. -/
theorem root_depends_on_memory :
    ((Pointers.initiateHandshake Sodium.sample (sampleSurroundings 0)).exec sampleBuffers
      fun _ _ => 0).map Envelope.ciphertext ≠
    ((Pointers.initiateHandshake Sodium.sample (sampleSurroundings 0)).exec sampleBuffers
      fun _ _ => 1).map Envelope.ciphertext ∧
    ¬ Raw.Contained sampleBuffers
      (Pointers.initiateHandshake Sodium.sample (sampleSurroundings 0)) := by
  have hne : ((Pointers.initiateHandshake Sodium.sample (sampleSurroundings 0)).exec sampleBuffers
      fun _ _ => 0).map Envelope.ciphertext ≠
    ((Pointers.initiateHandshake Sodium.sample (sampleSurroundings 0)).exec sampleBuffers
      fun _ _ => 1).map Envelope.ciphertext := by decide +kernel
  exact ⟨hne, fun h => hne (congrArg _ (h.determined _ _))⟩

end Handshake

end X3dh

end SecureComm
