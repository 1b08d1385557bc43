import SecureComm.Dispatcher.Basic
import SecureComm.Ratchet.Spec

/-!
# What the calls of a dispatcher do

A device registers, sets its callback and creates its sessions (`setUp`). The
session id does not depend on which end computes it, and a session that was
created, always with one root key, is a ratchet just initialised (`Ready`).
-/

namespace SecureComm

/-- One `create_session_with` call, with the private key that a new object draws. -/
structure Peering where
  remote : Bytes
  rootKey : Bytes
  dhPrivateKey : BytesN 32

namespace Dispatcher

open Function Ratchet

variable {S : Sodium}

def create (S : Sodium) (d : Dispatcher) (p : Peering) : Dispatcher :=
  (d.createSessionWith S p.remote p.rootKey p.dhPrivateKey).1

def setUp (S : Sodium) (mls : MLSManager) (id : Bytes) (calls : List Peering) : Dispatcher :=
  calls.foldl (create S) (({ mls } : Dispatcher).registerDevice id).setOnInbound

/-- The session with a device is initialised and was not used yet. -/
def Ready (S : Sodium) (d : Dispatcher) (remote root : Bytes) : Prop :=
  ∃ key r, d.sessions.lookup remote = some { ratchet := r, initialized := true } ∧
    (new S key).initializeWith root (sessionIdFor S d.deviceId remote root) = .ok r

/-! ## Session ids -/

/-- **Both ends compute one session id.** -/
theorem sessionIdFor_comm {a b : Bytes} (h : a ≠ b) (root : Bytes) :
    sessionIdFor S a b root = sessionIdFor S b a root := by
  have hinput : sessionIdInput a b root = sessionIdInput b a root := by
    unfold sessionIdInput
    by_cases hab : a < b
    · rw [if_pos hab, if_neg (List.lt_asymm hab)]
    · have hba : b < a := by
        by_contra hba
        exact h (List.le_antisymm hba hab)
      rw [if_neg hab, if_pos hba]
  rw [sessionIdFor, sessionIdFor, hinput]

theorem sessionIdFor_ne_nil (a b root : Bytes) : sessionIdFor S a b root ≠ [] := by
  refine AEAD.ne_nil_of_length (n := 15) ?_
  have := (S.hmac root (sessionIdInput a b root)).property
  rw [sessionIdFor, List.length_take, this]
  rfl

/-! ## Creating sessions -/

theorem create_frame (d : Dispatcher) (p : Peering) :
    d.create S p = { d with sessions := (d.create S p).sessions } := by
  unfold create createSessionWith
  dsimp only
  split <;> rfl

theorem create_lookup_ne (d : Dispatcher) (p : Peering) {remote : Bytes} (h : remote ≠ p.remote) :
    (d.create S p).sessions.lookup remote = d.sessions.lookup remote := by
  unfold create createSessionWith
  dsimp only
  split <;> exact AList.lookup_insert_ne h

/-- Initialising a session that was not used yet once more changes nothing. -/
theorem create_ready {d : Dispatcher} {remote root : Bytes} (hroot : root.length = 32)
    (h : d.sessions.lookup remote = none ∨ d.Ready S remote root) (key : BytesN 32) :
    (d.create S ⟨remote, root, key⟩).Ready S remote root := by
  have hstart : ∃ key' r, (new S key').initializeWith root (sessionIdFor S d.deviceId remote root) =
      .ok r ∧ ((d.sessions.lookup remote).getD { ratchet := new S key }).ratchet.initializeWith root
        (sessionIdFor S d.deviceId remote root) = .ok r := by
    obtain hn | ⟨key', r, hl, hr⟩ := h
    · rw [hn]
      exact ⟨key, _, initializeWith_ok _ hroot _, initializeWith_ok _ hroot _⟩
    · rw [hl]
      refine ⟨key', r, hr, ?_⟩
      rw [initializeWith_ok _ hroot] at hr
      obtain rfl := Except.ok.inj hr
      exact initializeWith_ok _ hroot _
  obtain ⟨key', r, hnew, hr⟩ := hstart
  refine ⟨key', r, ?_, by rw [create_frame]; exact hnew⟩
  simp only [create, createSessionWith, hr]
  exact AList.lookup_insert _

theorem create_keeps_ready {d : Dispatcher} {remote root : Bytes} {p : Peering}
    (hroot : root.length = 32) (hp : p.remote = remote → p.rootKey = root)
    (h : d.Ready S remote root) : (d.create S p).Ready S remote root := by
  by_cases hr : remote = p.remote
  · have hk := hp hr.symm
    obtain ⟨remote', rootKey, key⟩ := p
    cases hr
    cases hk
    exact create_ready hroot (.inr h) key
  · obtain ⟨key, r, hl, hi⟩ := h
    exact ⟨key, r, by rw [create_lookup_ne d p hr, hl], by rw [create_frame]; exact hi⟩

/-- **Set-up**: a session that was created, always with one root key, is ready. -/
theorem foldl_create_ready {calls : List Peering} {remote root : Bytes} (hroot : root.length = 32)
    (hcalls : ∀ p ∈ calls, p.remote = remote → p.rootKey = root) {d : Dispatcher}
    (h : d.Ready S remote root ∨
      d.sessions.lookup remote = none ∧ ∃ p ∈ calls, p.remote = remote) :
    (calls.foldl (create S) d).Ready S remote root := by
  induction calls generalizing d with
  | nil =>
    obtain h | ⟨-, p, hp, -⟩ := h
    · exact h
    · cases hp
  | cons p calls ih =>
    have hp := hcalls p List.mem_cons_self
    refine ih (fun q hq => hcalls q (List.mem_cons_of_mem _ hq)) ?_
    obtain h | ⟨hn, q, hq, hqr⟩ := h
    · exact .inl (create_keeps_ready hroot hp h)
    · by_cases hr : remote = p.remote
      · have hk := hp hr.symm
        obtain ⟨remote', rootKey, key⟩ := p
        cases hr
        cases hk
        exact .inl (create_ready hroot (.inl hn) key)
      · refine .inr ⟨by rw [create_lookup_ne d p hr, hn], q, ?_, hqr⟩
        obtain rfl | hq := List.mem_cons.mp hq
        · exact absurd hqr.symm hr
        · exact hq

theorem foldl_create_frame (calls : List Peering) (d : Dispatcher) :
    (calls.foldl (create S) d).deviceId = d.deviceId ∧
      (calls.foldl (create S) d).onInbound = d.onInbound ∧
      (calls.foldl (create S) d).mls = d.mls := by
  refine List.foldlRecOn (motive := fun d' => d'.deviceId = d.deviceId ∧
    d'.onInbound = d.onInbound ∧ d'.mls = d.mls) calls (create S) ⟨rfl, rfl, rfl⟩ fun d' h p _ => ?_
  rw [create_frame]
  exact h

/-! ## One call -/

theorem sendMessageToDevice_ok {d : Dispatcher} {remote pt : Bytes} {draw : Draw} {r r' : Ratchet}
    {env : Envelope} (hl : d.sessions.lookup remote = some { ratchet := r, initialized := true })
    (he : r.encryptEnvelope S pt draw = (r', .ok env)) :
    d.sendMessageToDevice S remote pt draw =
      ({ d with sessions := d.sessions.insert remote { ratchet := r', initialized := true } },
        .ok (serializeEnvelope { env with senderDeviceId := d.deviceId })) := by
  simp only [sendMessageToDevice, hl, he, Bool.not_true, Bool.false_eq_true, if_false]

theorem onRawMessage_direct {d : Dispatcher} {bytes pt : Bytes} {env : Envelope} {r r' : Ratchet}
    (hin : d.onInbound = true) (hb : deserializeEnvelope bytes = some env)
    (hg : d.mls.getGroupEpoch env.sessionId = 0)
    (hl : d.sessions.lookup env.senderDeviceId = some { ratchet := r, initialized := true })
    (he : r.decryptEnvelope S env = (r', some pt)) :
    d.onRawMessage S bytes =
      ({ d with
          sessions := d.sessions.insert env.senderDeviceId { ratchet := r', initialized := true } },
        [{ env with ciphertext := pt }]) := by
  have hng : ¬ (env.sessionId ≠ [] ∧ d.mls.getGroupEpoch env.sessionId ≠ 0) := fun h => h.2 hg
  simp only [onRawMessage, hb, if_neg hng, hl, he, hin, if_true]

theorem onRawMessage_rejected {d : Dispatcher} {bytes : Bytes} {env : Envelope} {s : SessionState}
    (hb : deserializeEnvelope bytes = some env) (hg : d.mls.getGroupEpoch env.sessionId = 0)
    (hl : d.sessions.lookup env.senderDeviceId = some s)
    (he : (s.ratchet.decryptEnvelope S env).2 = none) : (d.onRawMessage S bytes).2 = [] := by
  have hng : ¬ (env.sessionId ≠ [] ∧ d.mls.getGroupEpoch env.sessionId ≠ 0) := fun h => h.2 hg
  rcases hd : s.ratchet.decryptEnvelope S env with ⟨r', o⟩
  rw [hd] at he
  cases he
  simp only [onRawMessage, hb, if_neg hng, hl, hd]

end Dispatcher

end SecureComm
