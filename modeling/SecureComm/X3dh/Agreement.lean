import Mathlib.Data.Option.Basic
import SecureComm.X3dh.Basic

/-!
# Agreement of the roots

`Handshake` is the choice of keys of the two sides: each holds the private
halves of its own pairs and the public halves of the other's. Where the pairs
exchange (`Exchanged`), both functions succeed, and what the two put into HMAC
is the same three values followed by what each makes of its one-time prekey
(`initiatorInput_ok`, `responderInput_ok`).
-/

namespace SecureComm

namespace X3dh

open Cursor (Fault)

variable {S : Sodium}

/-! ## Exchanges -/

/-- Each private key with the other public key gives one result, and no failure. -/
def Exchanges (S : Sodium) (a b : KeyPair S) : Prop :=
  ∃ k, S.scalarmult a.priv b.pub = some k ∧ S.scalarmult b.priv a.pub = some k

/-- The value two pairs share. -/
def shared (a b : KeyPair S) : Bytes := ((S.scalarmult a.priv b.pub).elim [] Subtype.val)

theorem Exchanges.shared_length {a b : KeyPair S} (h : Exchanges S a b) :
    (shared a b).length = 32 := by
  obtain ⟨k, hk, -⟩ := h
  rw [shared, hk]
  exact k.property

theorem dh_keys (a b : BytesN 32) (failure : String) :
    dh S a.val b.val failure =
      (S.scalarmult a b).elim (.error (.rejected failure)) Except.ok := by
  rw [dh, dif_pos ⟨Nat.le_of_eq a.property.symm, Nat.le_of_eq b.property.symm⟩, front_val, front_val]
  cases S.scalarmult a b <;> rfl

theorem Exchanges.dh {a b : KeyPair S} (h : Exchanges S a b) (failure : String) :
    ∃ k : BytesN 32, k.val = shared a b ∧ X3dh.dh S a.priv.val b.pub.val failure = .ok k ∧
      X3dh.dh S b.priv.val a.pub.val failure = .ok k := by
  obtain ⟨k, hab, hba⟩ := h
  refine ⟨k, ?_, ?_, ?_⟩
  · rw [shared, hab]; rfl
  · rw [dh_keys, hab]; rfl
  · rw [dh_keys, hba]; rfl

/-- Two exchanges of one private key share the same value if and only if the
scalar multiplications have one result. -/
theorem Exchanges.shared_inj {e a b : KeyPair S} (ha : Exchanges S e a) (hb : Exchanges S e b)
    (h : shared e a = shared e b) : S.scalarmult e.priv a.pub = S.scalarmult e.priv b.pub := by
  obtain ⟨k, hk, -⟩ := ha
  obtain ⟨l, hl, -⟩ := hb
  rw [shared, shared, hk, hl] at h
  rw [hk, hl, Subtype.ext h]

/-! ## The keys of a handshake -/

/-- The pairs of Alice, who initiates, and of Bob, who responds. `offered` is the
one-time prekey Alice was given, `used` the one Bob answers with. -/
structure Handshake (S : Sodium) where
  aliceIk : KeyPair S
  aliceEph : KeyPair S
  bobIk : KeyPair S
  bobSpk : KeyPair S
  offered : Option (KeyPair S)
  used : Option (KeyPair S)

namespace Handshake

variable (h : Handshake S)

/-- An empty buffer stands for no one-time prekey. -/
def orEmpty (key : KeyPair S → BytesN 32) (opk : Option (KeyPair S)) : Bytes :=
  opk.elim [] fun k => (key k).val

def initiatorInput : Except (Fault String) Bytes :=
  combinedInitiator S h.aliceIk.priv.val h.aliceEph.priv.val h.bobIk.pub.val h.bobSpk.pub.val
    (orEmpty KeyPair.pub h.offered)

def responderInput : Except (Fault String) Bytes :=
  combinedResponder S h.bobIk.priv.val h.bobSpk.priv.val h.aliceIk.pub.val h.aliceEph.pub.val
    (orEmpty KeyPair.priv h.used)

def initiate (around : Surroundings) : Except (Fault String) Envelope :=
  initiateHandshake S h.aliceIk.priv.val h.aliceEph.priv.val h.bobIk.pub.val h.bobSpk.pub.val
    (orEmpty KeyPair.pub h.offered) around

def respond (around : Surroundings) : Except (Fault String) Envelope :=
  respondHandshake S h.bobIk.priv.val h.bobSpk.priv.val h.aliceIk.pub.val h.aliceEph.pub.val
    (orEmpty KeyPair.priv h.used) around

/-- The pairs that meet in a handshake exchange. -/
structure Exchanged : Prop where
  ikSpk : Exchanges S h.aliceIk h.bobSpk
  ephIk : Exchanges S h.aliceEph h.bobIk
  ephSpk : Exchanges S h.aliceEph h.bobSpk
  offered : ∀ k ∈ h.offered, Exchanges S h.aliceEph k
  used : ∀ k ∈ h.used, Exchanges S h.aliceEph k

/-- Both sides use one pair, which its public key names, or neither uses any. -/
def SamePrekey : Prop := h.offered.map KeyPair.pub = h.used.map KeyPair.pub

/-- Two one-time prekeys of one shared value have one public key. -/
def DhCollisionFree : Prop :=
  ∀ a ∈ h.offered, ∀ b ∈ h.used,
    S.scalarmult h.aliceEph.priv a.pub = S.scalarmult h.aliceEph.priv b.pub → a.pub = b.pub

/-- HMAC under the key tells the inputs of the two sides apart. -/
def HmacCollisionFree (key : Bytes) : Prop :=
  ∀ x y, h.initiatorInput = .ok x → h.responderInput = .ok y → S.hmac key x = S.hmac key y → x = y

/-! ## The two inputs of HMAC -/

def common : Bytes :=
  shared h.aliceIk h.bobSpk ++ shared h.aliceEph h.bobIk ++ shared h.aliceEph h.bobSpk

def last (opk : Option (KeyPair S)) : Bytes := opk.elim [] (shared h.aliceEph)

variable {h}

theorem orEmpty_ne_nil (key : KeyPair S → BytesN 32) (k : KeyPair S) :
    orEmpty key (some k) ≠ [] := fun he => by
  have hl := (key k).property
  rw [orEmpty, Option.elim_some] at he
  rw [he] at hl
  cases hl

theorem combined_ok {first second third fourth : Except (Fault String) (BytesN 32)}
    {dh1 dh2 dh3 : BytesN 32} (key : KeyPair S → BytesN 32) {opk : Option (KeyPair S)}
    (h1 : first = .ok dh1) (h2 : second = .ok dh2) (h3 : third = .ok dh3)
    (h4 : ∀ k ∈ opk, ∃ dh4 : BytesN 32, dh4.val = shared h.aliceEph k ∧ fourth = .ok dh4) :
    (do
      let dh1 ← first
      let dh2 ← second
      let dh3 ← third
      let combined := dh1.val ++ dh2.val ++ dh3.val
      if orEmpty key opk ≠ [] then
        let dh4 ← fourth
        return combined ++ dh4.val
      else return combined) = Except.ok (dh1.val ++ dh2.val ++ dh3.val ++ h.last opk) := by
  rw [h1, h2, h3]
  cases opk with
  | none => simp [orEmpty, last, bind, Except.bind, pure, Except.pure]
  | some k =>
    obtain ⟨dh4, hv4, h4⟩ := h4 k rfl
    simp only [bind, Except.bind, if_pos (orEmpty_ne_nil key k), h4, pure, Except.pure, last,
      Option.elim_some, ← hv4]

theorem initiatorInput_ok (hx : h.Exchanged) :
    h.initiatorInput = .ok (h.common ++ h.last h.offered) := by
  obtain ⟨dh1, hv1, h1, -⟩ := hx.ikSpk.dh "DH1 failed"
  obtain ⟨dh2, hv2, h2, -⟩ := hx.ephIk.dh "DH2 failed"
  obtain ⟨dh3, hv3, h3, -⟩ := hx.ephSpk.dh "DH3 failed"
  rw [common, ← hv1, ← hv2, ← hv3]
  refine combined_ok KeyPair.pub h1 h2 h3 fun k hk => ?_
  obtain ⟨dh4, hv4, h4, -⟩ := (hx.offered k hk).dh "DH4 failed"
  rw [hk]
  exact ⟨dh4, hv4, h4⟩

theorem responderInput_ok (hx : h.Exchanged) :
    h.responderInput = .ok (h.common ++ h.last h.used) := by
  obtain ⟨dh1, hv1, -, h1⟩ := hx.ikSpk.dh "DH1 failed"
  obtain ⟨dh2, hv2, -, h2⟩ := hx.ephIk.dh "DH2 failed"
  obtain ⟨dh3, hv3, -, h3⟩ := hx.ephSpk.dh "DH3 failed"
  rw [common, ← hv1, ← hv2, ← hv3]
  refine combined_ok KeyPair.priv h1 h2 h3 fun k hk => ?_
  obtain ⟨dh4, hv4, -, h4⟩ := (hx.used k hk).dh "DH4 failed"
  rw [hk]
  exact ⟨dh4, hv4, h4⟩

theorem initiate_ok (hx : h.Exchanged) (around : Surroundings) :
    h.initiate around = .ok (handshakeEnvelope around
      (S.hmac around.rootKey (h.common ++ h.last h.offered))
      (octets ['i', 'n', 'i', 't', 'i', 'a', 't', 'o', 'r'])) := by
  have hc := initiatorInput_ok hx
  rw [initiatorInput] at hc
  rw [initiate, initiateHandshake, x3dhComputeRootInitiator, hc]
  rfl

theorem respond_ok (hx : h.Exchanged) (around : Surroundings) :
    h.respond around = .ok (handshakeEnvelope around
      (S.hmac around.rootKey (h.common ++ h.last h.used))
      (octets ['r', 'e', 's', 'p', 'o', 'n', 'd', 'e', 'r'])) := by
  have hc := responderInput_ok hx
  rw [responderInput] at hc
  rw [respond, respondHandshake, x3dhComputeRootResponder, hc]
  rfl

theorem last_eq_of_same (hk : h.SamePrekey) : h.last h.offered = h.last h.used := by
  unfold SamePrekey at hk
  unfold last
  cases ho : h.offered with
  | none =>
    rw [ho] at hk
    rw [Option.map_eq_none_iff.mp hk.symm]
  | some a =>
    rw [ho] at hk
    obtain ⟨b, hb, hab⟩ := Option.map_eq_some_iff.mp hk.symm
    rw [hb]
    show shared _ a = shared _ b
    rw [shared, shared, hab]

theorem last_eq_iff (hx : h.Exchanged) (hdh : h.DhCollisionFree) :
    h.last h.offered = h.last h.used ↔ h.SamePrekey := by
  refine ⟨fun he => ?_, last_eq_of_same⟩
  unfold SamePrekey
  unfold last at he
  cases ho : h.offered with
  | none =>
    cases hu : h.used with
    | none => rfl
    | some b =>
      have hb := (hx.used b hu).shared_length
      rw [ho, hu, Option.elim_none, Option.elim_some] at he
      rw [← he] at hb
      cases hb
  | some a =>
    have ha := hx.offered a ho
    cases hu : h.used with
    | none =>
      have hl := ha.shared_length
      rw [ho, hu, Option.elim_some, Option.elim_none] at he
      rw [he] at hl
      cases hl
    | some b =>
      rw [ho, hu, Option.elim_some, Option.elim_some] at he
      exact congrArg some (hdh a ho b hu (ha.shared_inj (hx.used b hu) he))

/-- Under one key, the same one-time prekey makes the same root. -/
theorem roots_eq (hk : h.SamePrekey) {around around' : Surroundings}
    (hkey : around.rootKey = around'.rootKey) :
    S.hmac around.rootKey (h.common ++ h.last h.offered) =
      S.hmac around'.rootKey (h.common ++ h.last h.used) := by
  rw [hkey, last_eq_of_same hk]

/-- **Agreement**: both calls succeed, and they put the same root in their
envelopes if and only if they used the same one-time prekey or none. -/
theorem roots_agree_iff (h : Handshake S) (hx : h.Exchanged) (hdh : h.DhCollisionFree)
    (around around' : Surroundings) (hkey : around.rootKey = around'.rootKey)
    (hmac : h.HmacCollisionFree around.rootKey) :
    ∃ env env', h.initiate around = .ok env ∧ h.respond around' = .ok env' ∧
      (env.ciphertext = env'.ciphertext ↔ h.SamePrekey) := by
  refine ⟨_, _, initiate_ok hx around, respond_ok hx around', ?_⟩
  constructor
  · intro hroot
    have hroot : S.hmac around.rootKey _ = S.hmac around.rootKey _ :=
      Subtype.ext (hroot.trans (by rw [← hkey]; rfl))
    have hin := hmac _ _ (initiatorInput_ok hx) (responderInput_ok hx) hroot
    exact (last_eq_iff hx hdh).mp (List.append_cancel_left hin)
  · exact fun hk => congrArg Subtype.val (roots_eq hk hkey)

def sample : Handshake Sodium.sample where
  aliceIk := generateIdentityKeypair _ (Sodium.Sample.block 1)
  aliceEph := generateOneTimePrekey _ (Sodium.Sample.block 2)
  bobIk := generateIdentityKeypair _ (Sodium.Sample.block 3)
  bobSpk := generateSignedPrekey _ (Sodium.Sample.block 3) (Sodium.Sample.block 4)
  offered := some (generateOneTimePrekey _ (Sodium.Sample.block 5))
  used := some (generateOneTimePrekey _ (Sodium.Sample.block 5))

theorem sample_exchanged : sample.Exchanged where
  ikSpk := ⟨Sodium.Sample.block 14, by decide +kernel, by decide +kernel⟩
  ephIk := ⟨Sodium.Sample.block 14, by decide +kernel, by decide +kernel⟩
  ephSpk := ⟨Sodium.Sample.block 15, by decide +kernel, by decide +kernel⟩
  offered := fun k hk => by
    cases hk
    exact ⟨Sodium.Sample.block 16, by decide +kernel, by decide +kernel⟩
  used := fun k hk => by
    cases hk
    exact ⟨Sodium.Sample.block 16, by decide +kernel, by decide +kernel⟩

theorem sample_samePrekey : sample.SamePrekey := rfl

/-- What a call draws here: sixteen bytes `drawn`. -/
def sampleSurroundings (drawn : UInt8) : Surroundings where
  sessionId := ⟨List.replicate 16 drawn, List.length_replicate⟩
  now := 0
  pastLabel := ⟨zeros 20, List.length_replicate⟩

theorem sampleSurroundings_rootKey (a b : UInt8) :
    (sampleSurroundings a).rootKey = (sampleSurroundings b).rootKey := rfl

theorem roots_agree_iff_sample :
    ∃ env env', sample.initiate (sampleSurroundings 0) = .ok env ∧
      sample.respond (sampleSurroundings 1) = .ok env' ∧
      (env.ciphertext = env'.ciphertext ↔ sample.SamePrekey) := by
  refine roots_agree_iff sample sample_exchanged ?_ (sampleSurroundings 0) (sampleSurroundings 1)
    (sampleSurroundings_rootKey 0 1) ?_
  · intro a ha b hb _
    cases ha
    cases hb
    rfl
  · intro x y hx hy _
    rw [initiatorInput_ok sample_exchanged] at hx
    rw [responderInput_ok sample_exchanged] at hy
    cases hx
    cases hy
    rfl

end Handshake

end X3dh

end SecureComm
