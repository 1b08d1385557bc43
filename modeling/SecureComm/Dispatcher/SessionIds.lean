import Mathlib.Data.Set.Insert
import SecureComm.Dispatcher.Spec

/-!
# What a session id identifies

A session id is an HMAC of both device ids, the smaller one first, and the root
key. Nothing stands between the two ids, so what is hashed does not say where
the first one ends. Ids of pairs and keys are equal exactly where they should be
as long as no two pairs run together into one string (`identifies_iff`).
-/

namespace SecureComm.Dispatcher

variable {S : Sodium}

def lowerId (deviceId remoteDeviceId : Bytes) : Bytes :=
  if deviceId < remoteDeviceId then deviceId else remoteDeviceId

def upperId (deviceId remoteDeviceId : Bytes) : Bytes :=
  if deviceId < remoteDeviceId then remoteDeviceId else deviceId

theorem sessionIdInput_eq (deviceId remoteDeviceId rootKey : Bytes) :
    sessionIdInput deviceId remoteDeviceId rootKey =
      lowerId deviceId remoteDeviceId ++ upperId deviceId remoteDeviceId ++ rootKey := by
  unfold sessionIdInput lowerId upperId
  split
  · rfl
  · rfl

/-! ## Pairs of device ids -/

theorem pair_lower_upper (a b : Bytes) : ({lowerId a b, upperId a b} : Set Bytes) = {a, b} := by
  unfold lowerId upperId
  split
  · rfl
  · exact Set.pair_comm b a

theorem lower_upper_comm (a b : Bytes) : lowerId a b = lowerId b a ∧ upperId a b = upperId b a := by
  unfold lowerId upperId
  by_cases hab : a < b
  · rw [if_pos hab, if_pos hab, if_neg (List.lt_asymm hab), if_neg (List.lt_asymm hab)]
    exact ⟨rfl, rfl⟩
  · by_cases hba : b < a
    · rw [if_neg hab, if_neg hab, if_pos hba, if_pos hba]
      exact ⟨rfl, rfl⟩
    · obtain rfl := List.le_antisymm hba hab
      exact ⟨rfl, rfl⟩

theorem pair_eq_iff {a b c d : Bytes} :
    ({a, b} : Set Bytes) = {c, d} ↔ lowerId a b = lowerId c d ∧ upperId a b = upperId c d := by
  constructor
  · intro h
    rcases Set.pair_eq_pair_iff.mp h with ⟨rfl, rfl⟩ | ⟨rfl, rfl⟩
    · exact ⟨rfl, rfl⟩
    · exact lower_upper_comm _ _
  · rintro ⟨hlower, hupper⟩
    rw [← pair_lower_upper a b, hlower, hupper, pair_lower_upper]

/-! ## Session ids -/

def createdSessionId (S : Sodium) (d : Dispatcher) (p : Peering) : Option Bytes :=
  ((d.create S p).sessions.lookup p.remote).map fun s => s.ratchet.sessionId

theorem createdSessionId_eq (d : Dispatcher) {p : Peering} (h : p.rootKey.length = 32) :
    d.createdSessionId S p = some (sessionIdFor S d.deviceId p.remote p.rootKey) := by
  simp only [createdSessionId, create, createSessionWith, Ratchet.initializeWith_ok _ h]
  rw [AList.lookup_insert]
  rfl

/-- The truncated HMAC does not collide on the two inputs. -/
def Separates (S : Sodium) (key msg key' msg' : Bytes) : Prop :=
  (S.hmac key msg).val.take 16 = (S.hmac key' msg').val.take 16 → key = key' ∧ msg = msg'

/-- The two session ids are equal if and only if pair and key are. -/
def Identifies (S : Sodium) (d d' : Dispatcher) (p p' : Peering) : Prop :=
  d.createdSessionId S p = d'.createdSessionId S p' ↔
    ({d.deviceId, p.remote} : Set Bytes) = {d'.deviceId, p'.remote} ∧ p.rootKey = p'.rootKey

/-- Two pairs under one key that run together into one string are split in one place. -/
def Unambiguous (d d' : Dispatcher) (p p' : Peering) : Prop :=
  p.rootKey = p'.rootKey →
    lowerId d.deviceId p.remote ++ upperId d.deviceId p.remote =
      lowerId d'.deviceId p'.remote ++ upperId d'.deviceId p'.remote →
    (lowerId d.deviceId p.remote).length = (lowerId d'.deviceId p'.remote).length

/-- Session ids are equal where the keys are and the ids run together into one string. -/
theorem sessionIdFor_eq_iff {a b c d k k' : Bytes}
    (hs : Separates S k (sessionIdInput a b k) k' (sessionIdInput c d k')) :
    sessionIdFor S a b k = sessionIdFor S c d k' ↔
      k = k' ∧ lowerId a b ++ upperId a b = lowerId c d ++ upperId c d := by
  rw [Separates, sessionIdInput_eq, sessionIdInput_eq] at hs
  rw [sessionIdFor, sessionIdFor, sessionIdInput_eq, sessionIdInput_eq]
  constructor
  · intro h
    obtain ⟨rfl, hinput⟩ := hs h
    exact ⟨rfl, List.append_cancel_right hinput⟩
  · rintro ⟨rfl, hids⟩
    rw [hids]

/-- **Session ids identify pair and key** except where two pairs of device ids under one key run
together into one string. -/
theorem identifies_iff {d d' : Dispatcher} {p p' : Peering} (h : p.rootKey.length = 32)
    (h' : p'.rootKey.length = 32)
    (hs : Separates S p.rootKey (sessionIdInput d.deviceId p.remote p.rootKey) p'.rootKey
      (sessionIdInput d'.deviceId p'.remote p'.rootKey)) :
    Identifies S d d' p p' ↔ Unambiguous d d' p p' := by
  rw [Identifies, createdSessionId_eq d h, createdSessionId_eq d' h', Option.some_inj,
    sessionIdFor_eq_iff hs, pair_eq_iff]
  constructor
  · intro hiff hkey hids
    rw [(hiff.mp ⟨hkey, hids⟩).1.1]
  · intro hu
    constructor
    · rintro ⟨hkey, hids⟩
      obtain ⟨hlower, hupper⟩ := List.append_inj hids (hu hkey hids)
      exact ⟨⟨hlower, hupper⟩, hkey⟩
    · rintro ⟨⟨hlower, hupper⟩, hkey⟩
      exact ⟨hkey, by rw [hlower, hupper]⟩

def samplePeering (remote : List Char) : Peering :=
  ⟨octets remote, (Sodium.Sample.block 7).val, Sodium.Sample.block 7⟩

def sampleDevice (id : List Char) : Dispatcher := { deviceId := octets id }

/-- The ids `a` and `bc` run together like `ab` and `c`. -/
theorem sample_separates :
    Separates Sodium.sample (samplePeering ['b', 'c']).rootKey
      (sessionIdInput (octets ['a']) (octets ['b', 'c']) (samplePeering ['b', 'c']).rootKey)
      (samplePeering ['c']).rootKey
      (sessionIdInput (octets ['a', 'b']) (octets ['c']) (samplePeering ['c']).rootKey) :=
  fun _ => ⟨rfl, by decide +kernel⟩

theorem identifies_iff_sample :
    Identifies Sodium.sample (sampleDevice ['a']) (sampleDevice ['a', 'b'])
        (samplePeering ['b', 'c']) (samplePeering ['c']) ↔
      Unambiguous (sampleDevice ['a']) (sampleDevice ['a', 'b']) (samplePeering ['b', 'c'])
        (samplePeering ['c']) :=
  identifies_iff (Sodium.Sample.block 7).property (Sodium.Sample.block 7).property sample_separates

/-- **Two pairs of devices with one session id.** -/
theorem two_pairs_one_sessionId :
    Separates Sodium.sample (samplePeering ['b', 'c']).rootKey
        (sessionIdInput (octets ['a']) (octets ['b', 'c']) (samplePeering ['b', 'c']).rootKey)
        (samplePeering ['c']).rootKey
        (sessionIdInput (octets ['a', 'b']) (octets ['c']) (samplePeering ['c']).rootKey) ∧
      (sampleDevice ['a']).createdSessionId Sodium.sample (samplePeering ['b', 'c']) =
        (sampleDevice ['a', 'b']).createdSessionId Sodium.sample (samplePeering ['c']) ∧
      ¬ Identifies Sodium.sample (sampleDevice ['a']) (sampleDevice ['a', 'b'])
        (samplePeering ['b', 'c']) (samplePeering ['c']) := by
  have hsame : (sampleDevice ['a']).createdSessionId Sodium.sample (samplePeering ['b', 'c']) =
      (sampleDevice ['a', 'b']).createdSessionId Sodium.sample (samplePeering ['c']) := by
    decide +kernel
  refine ⟨sample_separates, hsame, fun h => ?_⟩
  rcases Set.pair_eq_pair_iff.mp (h.mp hsame).1 with ⟨hid, -⟩ | ⟨hid, -⟩
  · exact absurd hid (by decide)
  · exact absurd hid (by decide)

end SecureComm.Dispatcher
