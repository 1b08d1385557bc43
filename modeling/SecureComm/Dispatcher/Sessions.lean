import SecureComm.Dispatcher.Ledger
import SecureComm.Ratchet.Export

/-!
# The sessions of a dispatcher

`apply_sessions` says what a call does to the sessions: it puts one back, as a
ratchet call or `create_session_with` leaves it, or touches none. A session is
entered before its root key is looked at, and receiving does not ask whether it
was initialised, so the sessions that a message can reach have chain keys of the
right size as long as no first `create_session_with` for a device throws
(`guarded_iff_prepared`).
-/

namespace SecureComm

open Run

namespace Dispatcher

variable {S : Sodium} {d : Dispatcher} {c : Call}

/-- A message that is not to a group of the dispatcher. -/
def Direct (d : Dispatcher) (env : Envelope) : Prop :=
  ¬ (env.sessionId ≠ [] ∧ d.mls.getGroupEpoch env.sessionId ≠ 0)

instance (env : Envelope) : Decidable (d.Direct env) := inferInstanceAs (Decidable (¬ _))

/-! ## What a call does to the sessions -/

theorem create_sessions (d : Dispatcher) (p : Peering) :
    ∃ s, (d.create S p).sessions = d.sessions.insert p.remote s ∧
      ((∃ r, s = { ratchet := r, initialized := true } ∧ p.rootKey.length = 32 ∧
          ((d.sessions.lookup p.remote).getD { ratchet := .new S p.dhPrivateKey }).ratchet.initializeWith
            p.rootKey (sessionIdFor S d.deviceId p.remote p.rootKey) = .ok r) ∨
        (p.rootKey.length ≠ 32 ∧
          s = (d.sessions.lookup p.remote).getD { ratchet := .new S p.dhPrivateKey })) := by
  by_cases hlen : p.rootKey.length = 32
  · have hok := Ratchet.initializeWith_ok
      ((d.sessions.lookup p.remote).getD { ratchet := .new S p.dhPrivateKey }).ratchet hlen
      (sessionIdFor S d.deviceId p.remote p.rootKey)
    refine ⟨_, ?_, .inl ⟨_, rfl, hlen, hok⟩⟩
    simp only [create, createSessionWith, hok]
  · have herr := Ratchet.initializeWith_error
      ((d.sessions.lookup p.remote).getD { ratchet := .new S p.dhPrivateKey }).ratchet hlen
      (sessionIdFor S d.deviceId p.remote p.rootKey)
    refine ⟨_, ?_, .inr ⟨hlen, rfl⟩⟩
    simp only [create, createSessionWith, herr]

/-- **What a call does to the sessions.** -/
theorem apply_sessions (d : Dispatcher) (c : Call) :
    (d.apply S c).sessions = d.sessions ∨
    (∃ p, c = .create p) ∨
    (∃ remote pt draw s, c = .send remote pt draw ∧ d.sessions.lookup remote = some s ∧
      (d.apply S c).sessions =
        d.sessions.insert remote { s with ratchet := (s.ratchet.encryptEnvelope S pt draw).1 }) ∨
    (∃ bytes env s, c = .receive bytes ∧ deserializeEnvelope bytes = some env ∧ d.Direct env ∧
      d.sessions.lookup env.senderDeviceId = some s ∧ (d.apply S c).sessions =
        d.sessions.insert env.senderDeviceId
          { s with ratchet := (s.ratchet.decryptEnvelope S env).1 }) := by
  cases c with
  | register deviceId => exact .inl rfl
  | setOnInbound => exact .inl rfl
  | create p => exact .inr (.inl ⟨p, rfl⟩)
  | send remote pt draw =>
    rcases hl : d.sessions.lookup remote with _ | s
    · exact .inl (by simp only [apply, sendMessageToDevice, hl])
    by_cases hi : s.initialized = true
    · refine .inr (.inr (.inl ⟨remote, pt, draw, s, rfl, hl, ?_⟩))
      rcases he : s.ratchet.encryptEnvelope S pt draw with ⟨r, _ | env⟩ <;>
        simp only [apply, sendMessageToDevice, hl, hi, he, Bool.not_true, Bool.false_eq_true, if_false]
    · refine .inl ?_
      simp only [apply, sendMessageToDevice, hl, hi, Bool.not_false, if_true]
  | sendGroup groupId senderId pt nonce now now' =>
    refine .inl ?_
    rcases hg : d.mls.groups.lookup groupId with _ | g
    · simp only [apply, sendGroupMessage, MLSManager.encryptGroupMessage, hg, bind, Except.bind]
    · simp only [apply, sendGroupMessage, MLSManager.encryptGroupMessage_eq hg, bind, Except.bind,
        pure, Except.pure]
  | receive bytes =>
    rcases hb : deserializeEnvelope bytes with _ | env
    · exact .inl (by simp only [apply, onRawMessage, hb])
    by_cases hg : env.sessionId ≠ [] ∧ d.mls.getGroupEpoch env.sessionId ≠ 0
    · refine .inl ?_
      simp only [apply, onRawMessage, hb, if_pos hg]
      split <;> rfl
    rcases hl : d.sessions.lookup env.senderDeviceId with _ | s
    · exact .inl (by simp only [apply, onRawMessage, hb, if_neg hg, hl])
    refine .inr (.inr (.inr ⟨bytes, env, s, rfl, hb, hg, hl, ?_⟩))
    rcases hd : s.ratchet.decryptEnvelope S env with ⟨r, _ | pt⟩ <;>
      simp only [apply, onRawMessage, hb, if_neg hg, hl, hd]

/-! ## Sessions that a message can reach -/

def AllWide (d : Dispatcher) : Prop :=
  ∀ id s, d.sessions.lookup id = some s → s.ratchet.Wide

/-- A `create_session_with` that throws leaves the sessions as they were, and
`decrypt_envelope` runs on a ratchet whose chain keys have 32 bytes. -/
def Guarded (S : Sodium) (d : Dispatcher) : Call → Prop
  | .create p =>
    ∀ e, (d.createSessionWith S p.remote p.rootKey p.dhPrivateKey).2 = .error e →
      ∀ id, (d.create S p).sessions.lookup id = d.sessions.lookup id
  | .receive bytes =>
    ∀ env s, deserializeEnvelope bytes = some env → d.Direct env →
      d.sessions.lookup env.senderDeviceId = some s →
      s.ratchet.sendChainKey.length = 32 ∧ s.ratchet.recvChainKey.length = 32
  | _ => True

/-- A root key of another size comes only for a device that has a session already. -/
def Prepared (d : Dispatcher) : Call → Prop
  | .create p => p.rootKey.length = 32 ∨ (d.sessions.lookup p.remote).isSome
  | _ => True

theorem AllWide.insert (h : d.AllWide) {d' : Dispatcher} {id : Bytes} {s : SessionState}
    (hd : d'.sessions = d.sessions.insert id s) (hs : s.ratchet.Wide) : d'.AllWide := by
  intro id' s' hl
  rw [hd] at hl
  by_cases hid : id' = id
  · subst hid
    rw [AList.lookup_insert] at hl
    exact Option.some.inj hl ▸ hs
  · rw [AList.lookup_insert_ne hid] at hl
    exact h id' s' hl

theorem AllWide.apply (h : d.AllWide) (hp : d.Prepared c) : (d.apply S c).AllWide := by
  rcases d.apply_sessions (S := S) c with
    hd | ⟨p, rfl⟩ | ⟨remote, pt, draw, s, rfl, hl, hd⟩ | ⟨bytes, env, s, rfl, -, -, hl, hd⟩
  · exact fun id s hl => h id s (hd ▸ hl)
  · obtain ⟨s, hd, ⟨r, rfl, hlen, hr⟩ | ⟨hlen, rfl⟩⟩ := d.create_sessions (S := S) p
    · refine h.insert hd ?_
      rw [Ratchet.initializeWith_ok _ hlen] at hr
      cases hr
      exact ⟨hlen, hlen, hlen⟩
    · obtain ⟨s, hl⟩ := Option.isSome_iff_exists.mp (hp.resolve_left hlen)
      rw [hl] at hd
      exact h.insert hd (h _ s hl)
  · exact h.insert hd ((h _ s hl).apply (.encrypt pt draw))
  · exact h.insert hd ((h _ s hl).decrypt env)

/-- **A throwing `create_session_with`** leaves the sessions as they were if and only if the device
has one. -/
theorem guarded_create_iff (d : Dispatcher) (p : Peering) :
    Guarded S d (.create p) ↔ Prepared d (.create p) := by
  by_cases hlen : p.rootKey.length = 32
  · refine iff_of_true (fun e he => ?_) (.inl hlen)
    simp only [createSessionWith, Ratchet.initializeWith_ok _ hlen] at he
    cases he
  · have herr := Ratchet.initializeWith_error
      ((d.sessions.lookup p.remote).getD { ratchet := .new S p.dhPrivateKey }).ratchet hlen
      (sessionIdFor S d.deviceId p.remote p.rootKey)
    have hthrows : (d.createSessionWith S p.remote p.rootKey p.dhPrivateKey).2 =
        .error "Root key must be 32 bytes" := by
      simp only [createSessionWith, herr]
    obtain ⟨s, hd, ⟨-, -, hok, -⟩ | ⟨-, rfl⟩⟩ := d.create_sessions (S := S) p
    · exact absurd hok hlen
    have hiff : Guarded S d (.create p) ↔
        ∀ id, (d.create S p).sessions.lookup id = d.sessions.lookup id :=
      ⟨fun h => h _ hthrows, fun h _ _ => h⟩
    rw [hiff, hd, Prepared, or_iff_right hlen]
    rcases hl : d.sessions.lookup p.remote with _ | s
    · refine iff_of_false (fun h => ?_) Bool.false_ne_true
      have hnew := h p.remote
      rw [AList.lookup_insert, hl] at hnew
      cases hnew
    · refine iff_of_true (fun id => ?_) rfl
      by_cases hid : id = p.remote
      · subst hid
        rw [AList.lookup_insert, hl]
        rfl
      · rw [AList.lookup_insert_ne hid]

/-- **Inbound frames only reach sessions with keys**, and a `create_session_with` that throws
changes nothing, in exactly the runs of calls in which a root key that is not of 32 bytes comes
only for devices that have a session already. -/
theorem guarded_iff_prepared (S : Sodium) (mls : MLSManager) (calls : List Call) :
    Along (apply S) (Guarded S) ({ mls } : Dispatcher) calls ↔
      Along (apply S) Prepared ({ mls } : Dispatcher) calls := by
  refine along_iff_along (I := AllWide) (fun d c h hp => h.apply hp) (fun d c h => ?_)
    (fun id s hl => by cases hl)
  cases c with
  | create p => exact guarded_create_iff d p
  | receive bytes =>
    refine iff_of_true (fun env s _ _ hl => ?_) trivial
    have hwide := h _ s hl
    exact ⟨hwide.sendChainKey, hwide.recvChainKey⟩
  | register deviceId => exact Iff.rfl
  | setOnInbound => exact Iff.rfl
  | send remote pt draw => exact Iff.rfl
  | sendGroup groupId senderId pt nonce now now' => exact Iff.rfl

def sampleEmptyKey : Peering := ⟨octets ['b'], [], Sodium.Sample.block 1⟩

/-- A message with a header that anyone can write, in the name of the device. -/
def sampleEnvelope : Envelope := { Ratchet.forged 0 (zeros 32) with senderDeviceId := octets ['b'] }

theorem sampleEnvelope_fits : sampleEnvelope.Fits :=
  ⟨by decide, by decide, by decide, by decide⟩

/-- **A message reaches a session without keys**: the call that entered the session threw, and the
message is opened with a key that is derived from no bytes at all. -/
theorem message_reaches_empty_session :
    ¬ Guarded Sodium.sample {} (.create sampleEmptyKey) ∧
      (∃ s, (({} : Dispatcher).create Sodium.sample sampleEmptyKey).sessions.lookup (octets ['b']) =
          some s ∧ s.ratchet.recvChainKey = [] ∧
        (s.ratchet.decryptEnvelope Sodium.sample sampleEnvelope).1.aead.key =
          deriveMessageKey Sodium.sample []) ∧
      ¬ Guarded Sodium.sample (({} : Dispatcher).create Sodium.sample sampleEmptyKey)
        (.receive (serializeEnvelope sampleEnvelope)) ∧
      ¬ Along (apply Sodium.sample) (Guarded Sodium.sample) {}
        [.create sampleEmptyKey, .receive (serializeEnvelope sampleEnvelope)] := by
  have hthrows : ¬ Guarded Sodium.sample {} (.create sampleEmptyKey) := fun h => by
    rcases (guarded_create_iff {} sampleEmptyKey).mp h with hlen | hl
    · exact absurd hlen (by decide)
    · cases hl
  have hsession : (({} : Dispatcher).create Sodium.sample sampleEmptyKey).sessions.lookup
      (octets ['b']) = some { ratchet := Ratchet.new Sodium.sample (Sodium.Sample.block 1) } := rfl
  refine ⟨hthrows, ⟨_, hsession, rfl, by decide +kernel⟩, fun h => ?_, fun h => hthrows h.1⟩
  have hchain := (h _ _ (deserialize_serialize sampleEnvelope_fits) (fun hg => hg.2 rfl) hsession).2
  cases hchain

end Dispatcher

end SecureComm
