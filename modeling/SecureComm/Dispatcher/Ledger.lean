import SecureComm.Dispatcher.Spec
import SecureComm.Lib.Traffic
import SecureComm.Ratchet.Chains

/-!
# What is sealed and what is opened

The calls of ratchets, group managers and dispatchers as machines: an
`Emission` is an envelope that a call puts out, with the call of the AEAD that
sealed it, an `Acceptance` one that a call opens, with the key it opened under
and what the inbound callback is handed for it.

The network may hand any envelope to any call. What it cannot do is forge
(`Unforged`): a ciphertext that opens under a key was the output of a sealing
call under that key. That binds the additional data, the ciphertext and the
plaintext (`Emission.Sealed.bound`) and no other field of an envelope.
-/

namespace SecureComm

/-- One call of the AEAD that seals. -/
structure SealCall where
  key : Bytes
  nonce : Bytes
  aad : Bytes
  plaintext : Bytes
  deriving DecidableEq

/-- What the key of an epoch is hashed from. -/
structure EpochName where
  secret : Bytes
  id : Bytes
  epoch : UInt64
  deriving DecidableEq

/-- An envelope that was put out. `remote` is the device it was sent to, `epoch`
the epoch of a group message. -/
structure Emission where
  call : SealCall
  env : Envelope
  remote : Option Bytes := none
  epoch : Option EpochName := none

/-- An envelope that was opened. `own` is the session id that the object went
by before, empty if it had none; `handed` is what the callback gets. -/
structure Acceptance where
  key : Bytes
  plaintext : Bytes
  env : Envelope
  own : Bytes
  epoch : Option EpochName := none
  handed : List Envelope := []

variable (S : Sodium)

/-! ## The machines -/

namespace Ratchet

def emits (r : Ratchet) : Op → List Emission
  | .encrypt plaintext draw =>
    match r.encryptEnvelope S plaintext draw with
    | (r', .ok env) => [{ call := ⟨r'.aead.key, draw.nonce.val, r.header, plaintext⟩, env }]
    | (_, .error _) => []
  | _ => []

def accepts (r : Ratchet) : Op → List Acceptance
  | .decrypt env =>
    match r.decryptEnvelope S env with
    | (r', some pt) => [{ key := r'.aead.key, plaintext := pt, env, own := r.sessionId }]
    | (_, none) => []
  | _ => []

end Ratchet

namespace MLSManager

def Group.epochName (g : Group) : EpochName := ⟨g.epochSecret, g.id, g.epoch⟩

inductive Call where
  | encrypt (groupId senderId plaintext : Bytes) (nonce : BytesN 12) (now now' : UInt64)
  | decrypt (groupId : Bytes) (env : Envelope)

def apply (m : MLSManager) : Call → MLSManager
  | .encrypt groupId senderId plaintext nonce now now' =>
    match m.encryptGroupMessage S groupId senderId plaintext nonce now now' with
    | .ok (m, _) => m
    | .error _ => m
  | .decrypt groupId env => (m.decryptGroupMessage S groupId env).1

def emits (m : MLSManager) : Call → List Emission
  | .encrypt groupId senderId plaintext nonce now now' =>
    match m.groups.lookup groupId,
      m.encryptGroupMessage S groupId senderId plaintext nonce now now' with
    | some g, .ok (m', env) =>
      [{  call := ⟨m'.aead.key, nonce.val, g.id ++ BigEndian.be64 g.epoch, plaintext⟩, env
          epoch := some g.epochName }]
    | _, _ => []
  | .decrypt _ _ => []

def accepts (m : MLSManager) : Call → List Acceptance
  | .encrypt .. => []
  | .decrypt groupId env =>
    match m.groups.lookup groupId, m.decryptGroupMessage S groupId env with
    | some g, (m', some pt) =>
      [{ key := m'.aead.key, plaintext := pt, env, own := g.id, epoch := some g.epochName }]
    | _, _ => []

end MLSManager

namespace Dispatcher

inductive Call where
  | register (deviceId : Bytes)
  | setOnInbound
  | create (p : Peering)
  | send (remote plaintext : Bytes) (draw : Draw)
  | sendGroup (groupId senderId plaintext : Bytes) (nonce : BytesN 12) (now now' : UInt64)
  | receive (bytes : Bytes)

def apply (d : Dispatcher) : Call → Dispatcher
  | .register deviceId => d.registerDevice deviceId
  | .setOnInbound => d.setOnInbound
  | .create p => d.create S p
  | .send remote plaintext draw => (d.sendMessageToDevice S remote plaintext draw).1
  | .sendGroup groupId senderId plaintext nonce now now' =>
    match d.sendGroupMessage S groupId senderId plaintext nonce now now' with
    | .ok (d, _) => d
    | .error _ => d
  | .receive bytes => (d.onRawMessage S bytes).1

/-- The dispatcher puts its own id into the envelope. -/
def emits (d : Dispatcher) : Call → List Emission
  | .send remote plaintext draw =>
    match d.sessions.lookup remote with
    | none => []
    | some s =>
      if !s.initialized then []
      else
        (s.ratchet.emits S (.encrypt plaintext draw)).map fun e =>
          { e with env := { e.env with senderDeviceId := d.deviceId }, remote := some remote }
  | .sendGroup groupId senderId plaintext nonce now now' =>
    (d.mls.emits S (.encrypt groupId senderId plaintext nonce now now')).map fun e =>
      { e with env := { e.env with senderDeviceId := d.deviceId } }
  | _ => []

/-- What `on_raw_message` opens: with the group manager, or with the session of the sender. -/
def opening (d : Dispatcher) (env : Envelope) : List Acceptance :=
  if env.sessionId ≠ [] ∧ d.mls.getGroupEpoch env.sessionId ≠ 0 then
    d.mls.accepts S (.decrypt env.sessionId env)
  else
    match d.sessions.lookup env.senderDeviceId with
    | none => []
    | some s => s.ratchet.accepts S (.decrypt env)

def accepts (d : Dispatcher) : Call → List Acceptance
  | .receive bytes =>
    match deserializeEnvelope bytes with
    | none => []
    | some env => (d.opening S env).map fun o => { o with handed := (d.onRawMessage S bytes).2 }
  | _ => []

end Dispatcher

/-! ## What a call puts out -/

namespace Emission

/-- The envelope carries what the sealing call was given and what it returned. -/
structure Sealed (e : Emission) : Prop where
  header : e.env.associatedData = e.call.aad
  ciphertext : e.env.ciphertext = e.call.nonce ++
    S.aeadEncrypt e.call.key e.call.nonce e.call.aad e.call.plaintext
  nonce : e.call.nonce.length = 12
  group : ∀ n ∈ e.epoch, e.env.sessionId = n.id ∧
    e.env.associatedData = n.id ++ BigEndian.be64 n.epoch

end Emission

namespace Acceptance

/-- The envelope opened under the key and was of the session or the group of the
object, and the callback gets it, a direct message with its plaintext. -/
structure Opened (o : Acceptance) : Prop where
  opens : AEAD.decrypt S ⟨o.key⟩ o.env.ciphertext o.env.associatedData = some o.plaintext
  session : o.own ≠ [] → o.env.sessionId = o.own
  group : ∀ n ∈ o.epoch, o.env.sessionId = n.id
  handed : ∀ v ∈ o.handed,
    v = if o.epoch = none then { o.env with ciphertext := o.plaintext } else o.env

end Acceptance

variable {S : Sodium}

theorem Ratchet.emits_sealed {r : Ratchet} {op : Op} : ∀ e ∈ r.emits S op, e.Sealed S := by
  cases op with
  | encrypt pt draw =>
    intro e he
    rw [emits, encryptEnvelope_eq] at he
    obtain rfl := List.mem_singleton.mp he
    exact ⟨rfl, rfl, draw.nonce.property, fun n hn => by cases hn⟩
  | decrypt env => exact fun e he => absurd he List.not_mem_nil
  | ratchetStep pub => exact fun e he => absurd he List.not_mem_nil

theorem MLSManager.emits_sealed {m : MLSManager} {c : Call} : ∀ e ∈ m.emits S c, e.Sealed S := by
  cases c with
  | decrypt groupId env => exact fun e he => absurd he List.not_mem_nil
  | encrypt groupId senderId pt nonce now now' =>
    intro e he
    rcases hg : m.groups.lookup groupId with _ | g
    · simp only [emits, hg] at he
      cases he
    · simp only [emits, hg, encryptGroupMessage_eq hg, List.mem_singleton] at he
      subst he
      exact ⟨rfl, rfl, nonce.property, fun n hn => by cases hn; exact ⟨rfl, rfl⟩⟩

/-- **What a dispatcher puts out** was sealed by the ratchet of a session or by the
group manager, and carries the dispatcher's own id. -/
theorem Dispatcher.emits_cases {d : Dispatcher} {c : Call} {e : Emission} (h : e ∈ d.emits S c) :
    (∃ remote pt draw s, ∃ e' ∈ s.ratchet.emits S (.encrypt pt draw),
      d.sessions.lookup remote = some s ∧
      e = { e' with
        env := { e'.env with senderDeviceId := d.deviceId }, remote := some remote }) ∨
    ∃ groupId senderId pt nonce now now',
      ∃ e' ∈ d.mls.emits S (.encrypt groupId senderId pt nonce now now'),
      e = { e' with env := { e'.env with senderDeviceId := d.deviceId } } := by
  cases c with
  | send remote pt draw =>
    rcases hl : d.sessions.lookup remote with _ | s
    · simp only [emits, hl] at h
      cases h
    · simp only [emits, hl] at h
      split at h
      · cases h
      · obtain ⟨e', he', rfl⟩ := List.mem_map.mp h
        exact .inl ⟨remote, pt, draw, s, e', he', hl, rfl⟩
  | sendGroup groupId senderId pt nonce now now' =>
    obtain ⟨e', he', rfl⟩ := List.mem_map.mp h
    exact .inr ⟨groupId, senderId, pt, nonce, now, now', e', he', rfl⟩
  | register deviceId => cases h
  | setOnInbound => cases h
  | create p => cases h
  | receive bytes => cases h

theorem Dispatcher.emits_sealed {d : Dispatcher} {c : Call} : ∀ e ∈ d.emits S c, e.Sealed S := by
  intro e he
  obtain ⟨remote, pt, draw, s, e', he', -, rfl⟩ |
    ⟨groupId, senderId, pt, nonce, now, now', e', he', rfl⟩ := emits_cases he
  · have h := Ratchet.emits_sealed e' he'
    exact ⟨h.header, h.ciphertext, h.nonce, h.group⟩
  · have h := MLSManager.emits_sealed e' he'
    exact ⟨h.header, h.ciphertext, h.nonce, h.group⟩

/-- **The frames of direct messages** are the envelopes put out, serialized. -/
theorem Dispatcher.emits_send (d : Dispatcher) (remote pt : Bytes) (draw : Draw) :
    (d.sendMessageToDevice S remote pt draw).2.toOption.toList =
      (d.emits S (.send remote pt draw)).map fun e => serializeEnvelope e.env := by
  rcases hl : d.sessions.lookup remote with _ | s
  · simp only [sendMessageToDevice, emits, hl, Except.toOption, Option.toList, List.map_nil]
  · by_cases hi : s.initialized
    · simp [sendMessageToDevice, emits, Ratchet.emits, hl, hi, Ratchet.encryptEnvelope_eq,
        Except.toOption]
    · simp [sendMessageToDevice, emits, hl, hi, Except.toOption]

theorem Dispatcher.emits_sendGroup (d : Dispatcher) (groupId senderId pt : Bytes)
    (nonce : BytesN 12) (now now' : UInt64) :
    (d.sendGroupMessage S groupId senderId pt nonce now now').toOption.toList.map Prod.snd =
      (d.emits S (.sendGroup groupId senderId pt nonce now now')).map fun e =>
        serializeEnvelope e.env := by
  rcases hg : d.mls.groups.lookup groupId with _ | g
  · simp [sendGroupMessage, emits, MLSManager.emits, MLSManager.encryptGroupMessage, hg,
      Except.toOption, bind, Except.bind]
  · simp [sendGroupMessage, emits, MLSManager.emits, MLSManager.encryptGroupMessage_eq hg, hg,
      Except.toOption, bind, Except.bind, pure, Except.pure]

/-! ## What a call opens -/

theorem Ratchet.adoptSession_accepts {r r' : Ratchet} {env : Envelope}
    (h : r.adoptSession env = some r') (hs : r.sessionId ≠ []) : env.sessionId = r.sessionId := by
  by_contra hne
  rw [adoptSession, if_pos ⟨hs, hne⟩] at h
  cases h

theorem Ratchet.openMessage_key {r r' : Ratchet} {n : UInt32} {env : Envelope} {pt : Bytes}
    (h : r.openMessage S n env = (r', some pt)) : Opens S r'.aead.key env pt := by
  obtain ⟨a, he, -⟩ | ⟨key, pt', -, ho, he⟩ | ⟨pt', -, ho, he⟩ := r.openMessage_cases (S := S) n env
  · rw [he] at h; cases h
  · rw [he] at h; cases h; exact ho
  · rw [he] at h; cases h; exact ho

/-- **An accepted envelope** opens under the key that is left, and is of the
session if there is one. -/
theorem Ratchet.decryptEnvelope_accepts {r r' : Ratchet} {env : Envelope} {pt : Bytes}
    (h : r.decryptEnvelope S env = (r', some pt)) :
    Opens S r'.aead.key env pt ∧ (r.sessionId ≠ [] → env.sessionId = r.sessionId) := by
  rcases r.decryptEnvelope_cases (S := S) env with
    ⟨-, he⟩ | ⟨r1, -, he, -⟩ | ⟨r1, n, pub, q, ha, -, -, he⟩
  · rw [he] at h; cases h
  · rw [he] at h; cases h
  · rw [he] at h
    exact ⟨openMessage_key h, adoptSession_accepts ha⟩

theorem Ratchet.accepts_opened {r : Ratchet} {op : Op} :
    ∀ o ∈ r.accepts S op, o.Opened S ∧ o.handed = [] := by
  intro o ho
  cases op with
  | encrypt pt draw => cases ho
  | ratchetStep pub => cases ho
  | decrypt env =>
    rcases hd : r.decryptEnvelope S env with ⟨r', _ | pt⟩
    · simp only [accepts, hd] at ho
      cases ho
    · simp only [accepts, hd, List.mem_singleton] at ho
      subst ho
      obtain ⟨hopen, hsid⟩ := decryptEnvelope_accepts hd
      exact ⟨⟨hopen.2, hsid, (fun n hn => by cases hn), fun v hv => absurd hv List.not_mem_nil⟩,
        rfl⟩

theorem MLSManager.accepts_opened {m : MLSManager} {c : Call} :
    ∀ o ∈ m.accepts S c, o.Opened S ∧ o.handed = [] := by
  intro o ho
  cases c with
  | encrypt groupId senderId pt nonce now now' => cases ho
  | decrypt groupId env =>
    rcases hg : m.groups.lookup groupId with _ | g
    · simp only [accepts, hg] at ho
      cases ho
    · rcases hd : m.decryptGroupMessage S groupId env with ⟨m', _ | pt⟩
      · simp only [accepts, hg, hd] at ho
        cases ho
      · simp only [accepts, hg, hd, List.mem_singleton] at ho
        subst ho
        simp only [decryptGroupMessage, hg] at hd
        split at hd
        · cases hd
        · rename_i hsid
          obtain ⟨rfl, hopen⟩ := Prod.mk.inj hd
          have hid : env.sessionId = g.id := not_not.mp hsid
          exact ⟨⟨hopen, fun _ => hid, fun n hn => by cases hn; exact hid,
            fun v hv => absurd hv List.not_mem_nil⟩, rfl⟩

namespace Dispatcher

variable {d : Dispatcher} {env : Envelope} {bytes : Bytes}

theorem opening_opened : ∀ o ∈ d.opening S env, o.Opened S ∧ o.env = env := by
  intro o ho
  unfold opening at ho
  split at ho
  · refine ⟨(MLSManager.accepts_opened o ho).1, ?_⟩
    simp only [MLSManager.accepts] at ho
    split at ho
    · obtain rfl := List.mem_singleton.mp ho; rfl
    · cases ho
  · split at ho
    · cases ho
    · refine ⟨(Ratchet.accepts_opened o ho).1, ?_⟩
      simp only [Ratchet.accepts] at ho
      split at ho
      · obtain rfl := List.mem_singleton.mp ho; rfl
      · cases ho

/-- The callback gets nothing for a frame that no object of the dispatcher opens. -/
theorem onRawMessage_cases (hb : deserializeEnvelope bytes = some env) :
    (d.opening S env = [] ∧ (d.onRawMessage S bytes).2 = []) ∨
      ∃ o, d.opening S env = [o] ∧ ∀ v ∈ (d.onRawMessage S bytes).2,
        v = if o.epoch = none then { env with ciphertext := o.plaintext } else env := by
  unfold opening
  simp only [onRawMessage, hb]
  by_cases hg : env.sessionId ≠ [] ∧ d.mls.getGroupEpoch env.sessionId ≠ 0
  · rw [if_pos hg, if_pos hg]
    rcases hl : d.mls.groups.lookup env.sessionId with _ | g
    · simp [MLSManager.accepts, MLSManager.decryptGroupMessage, hl]
    · rcases hd : d.mls.decryptGroupMessage S env.sessionId env with ⟨m, _ | pt⟩
      · simp [MLSManager.accepts, hl, hd]
      · simp only [MLSManager.accepts, hl, hd]
        refine .inr ⟨_, rfl, fun v hv => ?_⟩
        split at hv
        · exact List.mem_singleton.mp hv
        · cases hv
  · rw [if_neg hg, if_neg hg]
    rcases hl : d.sessions.lookup env.senderDeviceId with _ | s
    · simp
    · rcases hd : s.ratchet.decryptEnvelope S env with ⟨r, _ | pt⟩
      · simp [Ratchet.accepts, hd]
      · simp only [Ratchet.accepts, hd]
        refine .inr ⟨_, rfl, fun v hv => ?_⟩
        split at hv
        · exact List.mem_singleton.mp hv
        · cases hv

/-- **All that the callback gets** is handed over with an envelope that was opened. -/
theorem onRawMessage_handed (d : Dispatcher) (bytes : Bytes) :
    (d.onRawMessage S bytes).2 = (d.accepts S (.receive bytes)).flatMap Acceptance.handed := by
  rcases hb : deserializeEnvelope bytes with _ | env
  · simp [onRawMessage, accepts, hb]
  · obtain ⟨ho, he⟩ | ⟨o, ho, -⟩ := onRawMessage_cases (S := S) (d := d) hb
    · simp only [accepts, hb, ho, he, List.map_nil, List.flatMap_nil]
    · simp only [accepts, hb, ho, List.map_cons, List.map_nil, List.flatMap_cons, List.flatMap_nil,
        List.append_nil]

/-- **What a dispatcher accepts** is the envelope of a frame, opened by one of its objects. -/
theorem accepts_cases {c : Call} {o : Acceptance} (h : o ∈ d.accepts S c) : ∃ bytes env,
    c = .receive bytes ∧ deserializeEnvelope bytes = some env ∧ ∃ o' ∈ d.opening S env,
      o = { o' with handed := (d.onRawMessage S bytes).2 } := by
  cases c with
  | register deviceId => cases h
  | setOnInbound => cases h
  | create p => cases h
  | send remote pt draw => cases h
  | sendGroup groupId senderId pt nonce now now' => cases h
  | receive bytes =>
    rcases hb : deserializeEnvelope bytes with _ | env
    · simp only [accepts, hb] at h
      cases h
    · simp only [accepts, hb, List.mem_map] at h
      obtain ⟨o', ho', rfl⟩ := h
      exact ⟨bytes, env, rfl, hb, o', ho', rfl⟩

theorem accepts_opened {c : Call} : ∀ o ∈ d.accepts S c, o.Opened S := by
  intro o ho
  obtain ⟨bytes, env, -, hb, o', ho', rfl⟩ := accepts_cases ho
  obtain ⟨hopen, henv⟩ := opening_opened o' ho'
  obtain ⟨hn, -⟩ | ⟨o'', hone, hhanded⟩ := onRawMessage_cases (S := S) (d := d) hb
  · rw [hn] at ho'; cases ho'
  · rw [hone] at ho'
    obtain rfl := List.mem_singleton.mp ho'
    exact ⟨hopen.opens, hopen.session, hopen.group, by rw [henv]; exact hhanded⟩

end Dispatcher

/-! ## Nothing is forged -/

/-- The output of the sealing call is what was opened, under the key it was opened with. -/
def SealCall.Produced (S : Sodium) (c : SealCall) (o : Acceptance) : Prop :=
  c.key = o.key ∧ c.nonce = o.env.ciphertext.take 12 ∧ c.aad = o.env.associatedData ∧
    S.aeadEncrypt c.key c.nonce c.aad c.plaintext = o.env.ciphertext.drop 12

instance (c : SealCall) (o : Acceptance) : Decidable (c.Produced S o) :=
  inferInstanceAs (Decidable (_ ∧ _))

/-- **Nothing is forged**: what a call opens is the output of a sealing call
made before under the same key. -/
def Unforged {ι σ ε : Type} (S : Sodium) (M : Machine σ ε Emission Acceptance)
    (w : Traffic ι σ Emission Acceptance) (e : ι × ε) : Prop :=
  ∀ o ∈ M.accepts (w.node e.1) e.2, ∃ x ∈ w.emitted, x.2.call.Produced S o

instance {ι σ ε : Type} (M : Machine σ ε Emission Acceptance)
    (w : Traffic ι σ Emission Acceptance) (e : ι × ε) : Decidable (Unforged S M w e) :=
  inferInstanceAs (Decidable (∀ o ∈ _, ∃ x ∈ _, _))

/-- The header and the ciphertext of one are those of the other. -/
def Emission.SameFrame (e : Emission) (o : Acceptance) : Prop :=
  e.env.associatedData = o.env.associatedData ∧ e.env.ciphertext = o.env.ciphertext

instance (e : Emission) (o : Acceptance) : Decidable (e.SameFrame o) :=
  inferInstanceAs (Decidable (_ ∧ _))

/-- **What a key binds**: the header, the ciphertext and the plaintext. -/
theorem Emission.Sealed.bound {e : Emission} {o : Acceptance} (hS : S.AeadOpens)
    (he : e.Sealed S) (ho : o.Opened S) (h : e.call.Produced S o) :
    e.SameFrame o ∧ e.call.plaintext = o.plaintext := by
  obtain ⟨hkey, hnonce, haad, hout⟩ := h
  refine ⟨⟨he.header.trans haad, ?_⟩, ?_⟩
  · rw [he.ciphertext, hout, hnonce, List.take_append_drop]
  · have hd := AEAD.decrypt_eq_some ho.opens
    rw [← hout, ← hnonce, ← haad] at hd
    have hopen := hS e.call.key e.call.nonce e.call.aad e.call.plaintext
    rw [hkey] at hopen hd
    exact Option.some.inj (hopen.symm.trans hd)

end SecureComm
