import SecureComm.Ratchet.Convergence

/-!
# The raw interface

`encrypt` and `decrypt` carry a header and a ciphertext in one byte string, and
take additional data of the caller. A raw conversation is a conversation of
envelopes under any session id (`Exchange.lift`), since `decrypt` fills in the
object's own; so every ciphertext opens, and it does whatever additional data
comes with it (`binds_iff`).
-/

namespace SecureComm

open Function

namespace Ratchet

variable (S : Sodium)

/-- The additional data is not read. -/
def encrypt (r : Ratchet) (plaintext _aad : Bytes) (draw : Draw) : Ratchet × Except String Bytes :=
  match r.encryptEnvelope S plaintext draw with
  | (r, .ok env) => (r, .ok (env.associatedData ++ env.ciphertext))
  | (r, .error e) => (r, .error e)

/-- The envelope that `decrypt` makes of a ciphertext. -/
def rawEnvelope (sessionId ciphertext : Bytes) : Envelope where
  sessionId := sessionId
  associatedData := ciphertext.take 36
  ciphertext := ciphertext.drop 36

/-- The additional data is not read. -/
def decrypt (r : Ratchet) (ciphertext _aad : Bytes) : Ratchet × Option Bytes :=
  if ciphertext.length < 4 + 32 then (r, none)
  else r.decryptEnvelope S (rawEnvelope r.sessionId ciphertext)

variable {S} {base sid pub pt : Bytes} {n : UInt32} {env : Envelope}

theorem SealedAs.header_length (h : SealedAs S base sid pub n pt env) (hpub : pub.length = 32) :
    env.associatedData.length = 36 := by
  rw [h.header, List.length_append, hpub]
  rfl

theorem SealedAs.raw (h : SealedAs S base sid pub n pt env) (hpub : pub.length = 32) :
    SealedAs S base sid pub n pt (rawEnvelope sid (env.associatedData ++ env.ciphertext)) := by
  have hlen := h.header_length hpub
  obtain ⟨nonce, hc⟩ := h.ciphertext
  refine ⟨rfl, ?_, nonce, ?_⟩
  · rw [rawEnvelope, List.take_left' hlen]
    exact h.header
  · rw [rawEnvelope, List.take_left' hlen, List.drop_left' hlen]
    exact hc

theorem Outbound.replace_last {r : Ratchet} {sent : List (Bytes × Envelope)} {env' : Envelope}
    (h : Outbound S base sid r (sent ++ [(pt, env)]))
    (henv : ∀ n, SealedAs S base sid r.dhPublicKey.val n pt env →
      SealedAs S base sid r.dhPublicKey.val n pt env') :
    Outbound S base sid r (sent ++ [(pt, env')]) where
  session := h.session
  chain := by
    rw [List.length_append, h.chain, List.length_append]
    rfl
  number := by
    rw [List.length_append, h.number, List.length_append]
    rfl
  sealed i pt' e hi := by
    rcases Nat.lt_or_ge i sent.length with hlt | hge
    · rw [List.getElem?_append_left hlt] at hi
      exact h.sealed i pt' e (by rwa [List.getElem?_append_left hlt])
    · have hat : ∀ e : Envelope, (sent ++ [(pt, e)])[i]? = [(pt, e)][i - sent.length]? :=
        fun e => List.getElem?_append_right hge
      rw [hat] at hi
      obtain rfl | hpos : i = sent.length ∨ 0 < i - sent.length := by omega
      · rw [Nat.sub_self] at hi
        cases hi
        exact henv _ (h.sealed _ _ _ (by rw [hat, Nat.sub_self]; rfl))
      · rw [List.getElem?_eq_none hpos] at hi
        cases hi

end Ratchet

open Ratchet

/-- A ciphertext with what was encrypted and the additional data it was encrypted with. -/
structure RawMessage where
  plaintext : Bytes
  aad : Bytes
  ciphertext : Bytes
  deriving DecidableEq

/-- One object, the ciphertexts it has produced, and the positions of the ciphertexts of its
peer that it was handed. -/
structure RawEnd where
  ratchet : Ratchet
  sent : List RawMessage := []
  taken : List Nat := []

def RawEnd.lift (sid : Bytes) (e : RawEnd) : End where
  ratchet := e.ratchet.settle sid
  sent := e.sent.map fun m => (m.plaintext, rawEnvelope sid m.ciphertext)
  taken := e.taken

abbrev Exchange := Side → RawEnd

namespace Exchange

variable {S : Sodium} {root sid : Bytes} {pub : Side → BytesN 32} {c : Exchange}

inductive Event where
  | encrypt (side : Side) (plaintext aad : Bytes) (draw : Draw)
  | decrypt (side : Side) (i : Nat) (aad : Bytes)

/-- `side` encrypts a message, or is handed ciphertext `i` of its peer. -/
def step (S : Sodium) (c : Exchange) : Event → Exchange
  | .encrypt side plaintext aad draw =>
    match (c side).ratchet.encrypt S plaintext aad draw with
    | (ratchet, .ok ciphertext) =>
      update c side { c side with
        ratchet, sent := (c side).sent ++ [⟨plaintext, aad, ciphertext⟩] }
    | (ratchet, .error _) => update c side { c side with ratchet }
  | .decrypt side i aad =>
    match (c side.peer).sent[i]? with
    | some m =>
      update c side { c side with
        ratchet := ((c side).ratchet.decrypt S m.ciphertext aad).1, taken := i :: (c side).taken }
    | none => c

/-- Fewer than 2^32 messages a side, and each handed over at most once. -/
def Allowed (c : Exchange) : Event → Prop
  | .encrypt side _ _ _ => (c side).sent.length + 1 < 2 ^ 32
  | .decrypt side i _ => i < (c side.peer).sent.length ∧ i ∉ (c side).taken

/-- Under any session id the exchange is a conversation. -/
def Inv (S : Sodium) (root : Bytes) (pub : Side → BytesN 32) (c : Exchange) : Prop :=
  ∀ sid, Conversation.Inv S root sid pub fun s => (c s).lift sid

theorem inv_of_lift (h : Conversation.Inv S root sid pub fun s => (c s).lift sid) :
    Inv S root pub c := by
  intro sid'
  have hrelabel := h.relabel sid'
  have hsame : ∀ s, ((c s).lift sid).relabel sid' = (c s).lift sid' := fun s => by
    rw [End.relabel, RawEnd.lift, List.map_map]
    rfl
  rwa [funext hsame] at hrelabel

theorem lift_update (c : Exchange) (side : Side) (e : RawEnd) (sid : Bytes) :
    (fun s => (update c side e s).lift sid) = update (fun s => (c s).lift sid) side (e.lift sid) :=
  comp_update (RawEnd.lift sid) c side e

theorem inv_replace {side : Side} {e : RawEnd}
    (h : Conversation.Inv S root sid pub
      (update (fun s => (c s).lift sid) side { e.lift sid with ratchet := e.ratchet })) :
    Inv S root pub (update c side e) := by
  have he : e.ratchet.sessionId = sid := by
    have hend := h.ends side
    rw [update_self] at hend
    exact hend.outbound.session
  have hlift : e.lift sid = { e.lift sid with ratchet := e.ratchet } := by
    rw [RawEnd.lift, settle_own he]
  refine inv_of_lift (?_ : Conversation.Inv S root sid pub _)
  rwa [lift_update, hlift]

/-- **Encrypting** goes on with one message more. -/
theorem Inv.encrypt (h : Inv S root pub c) {side : Side} {pt aad : Bytes} {draw : Draw}
    (hn : (c side).sent.length + 1 < 2 ^ 32) :
    Inv S root pub (c.step S (.encrypt side pt aad draw)) := by
  obtain ⟨sid, hsid, hown⟩ : ∃ sid, sid ≠ [] ∧ ((c side).ratchet.sessionId = sid ∨
      (c side).ratchet.sessionId = [] ∧ draw.sessionId.val = sid) := by
    by_cases hs : (c side).ratchet.sessionId = []
    · exact ⟨_, Conversation.draw_ne_nil draw, .inr ⟨hs, rfl⟩⟩
    · exact ⟨_, hs, .inl rfl⟩
  have hlift := h sid
  obtain ⟨r, env, he, hend⟩ := (hlift.ends side).send hsid
    (by rwa [RawEnd.lift, List.length_map]) pt draw
  have henc := (encryptEnvelope_settle hsid hown pt).symm.trans he
  have hstep : c.step S (.encrypt side pt aad draw) = update c side { c side with
      ratchet := r
      sent := (c side).sent ++ [⟨pt, aad, env.associatedData ++ env.ciphertext⟩] } := by
    simp only [step, Ratchet.encrypt, henc]
  rw [hstep]
  have hsent : ((c side).sent ++ [RawMessage.mk pt aad (env.associatedData ++ env.ciphertext)]).map
      (fun m => (m.plaintext, rawEnvelope sid m.ciphertext)) =
      ((c side).lift sid).sent ++
        [(pt, rawEnvelope sid (env.associatedData ++ env.ciphertext))] := List.map_append
  refine inv_replace (?_ : Conversation.Inv S root sid pub _)
  simp only [RawEnd.lift, hsent]
  refine hlift.update ⟨hend.pub_eq, ?_, ?_, hend.inbound⟩ ?_ (hlift.taken_lt side)
  · have hbound := hend.bound
    rw [List.length_append] at hbound ⊢
    exact hbound
  · exact hend.outbound.replace_last fun n hs => hs.raw r.dhPublicKey.property
  · rw [List.length_append]
    exact Nat.le_add_right _ _

/-- **Decrypting** a ciphertext that was not handed over yet opens it, whatever additional
data it is handed over with. -/
theorem Inv.decrypt (hS : S.AeadOpens) (h : Inv S root pub c) {side : Side} {i : Nat}
    {m : RawMessage} (hi : (c side.peer).sent[i]? = some m) (hna : i ∉ (c side).taken) (aad : Bytes) :
    ((c side).ratchet.decrypt S m.ciphertext aad).2 = some m.plaintext ∧
      Inv S root pub (c.step S (.decrypt side i aad)) := by
  -- under the object's own session id nothing has to be filled in
  obtain ⟨sid, hsid⟩ : ∃ sid, (c side).ratchet.sessionId = sid := ⟨_, rfl⟩
  have hlift := h sid
  have hget : ((c side.peer).lift sid).sent[i]? =
      some (m.plaintext, rawEnvelope sid m.ciphertext) := by
    rw [RawEnd.lift, List.getElem?_map, hi]
    rfl
  have hown : ((c side).lift sid).ratchet = (c side).ratchet := settle_own hsid
  have hsealed := (hlift.ends side.peer).outbound.sealed i _ _ hget
  have hlen : ¬ m.ciphertext.length < 4 + 32 := by
    have hheader := hsealed.header_length ((c side.peer).lift sid).ratchet.dhPublicKey.property
    rw [rawEnvelope, List.length_take] at hheader
    omega
  have hdec : (c side).ratchet.decrypt S m.ciphertext aad =
      ((c side).lift sid).ratchet.decryptEnvelope S (rawEnvelope sid m.ciphertext) := by
    rw [Ratchet.decrypt, if_neg hlen, hown, hsid]
  obtain ⟨hopens, hinv⟩ := hlift.deliver hS hget hna
  refine ⟨by rw [hdec, hopens], ?_⟩
  simp only [Conversation.step, hget] at hinv
  have hstep : c.step S (.decrypt side i aad) = update c side { c side with
      ratchet := (((c side).lift sid).ratchet.decryptEnvelope S (rawEnvelope sid m.ciphertext)).1
      taken := i :: (c side).taken } := by
    simp only [step, hi, hdec]
  rw [hstep]
  exact inv_replace hinv

theorem Inv.step (hS : S.AeadOpens) (h : Inv S root pub c) {e : Event} (ha : Allowed c e) :
    Inv S root pub (c.step S e) := by
  cases e with
  | encrypt side pt aad draw => exact h.encrypt ha
  | decrypt side i aad =>
    exact (h.decrypt hS (List.getElem?_eq_getElem ha.1) ha.2 aad).2

theorem inv_start (hroot : root.length = 32) {priv : Side → BytesN 32} {sids : Side → Bytes}
    {r : Side → Ratchet} (hinit : ∀ s, (new S (priv s)).initializeWith root (sids s) = .ok (r s)) :
    Inv S root (fun s => S.scalarmultBase (priv s)) fun s => { ratchet := r s } :=
  fun sid => ⟨fun s => (Conversation.EndInv.start hroot (hinit s)).relabel sid,
    fun _ _ hi => absurd hi List.not_mem_nil⟩

/-- Handed over with the additional data it was encrypted with the ciphertext opens, and with
any other it does not. -/
def Binds (S : Sodium) (c : Exchange) (side : Side) (m : RawMessage) (aad : Bytes) : Prop :=
  ((c side).ratchet.decrypt S m.ciphertext aad).2 = if aad = m.aad then some m.plaintext else none

/-- **Additional data is bound** to a ciphertext only where nobody gets it wrong: at every point
of every run, a ciphertext that was not handed over yet opens with any additional data. -/
theorem binds_iff (hS : S.AeadOpens) (hroot : root.length = 32) {priv : Side → BytesN 32}
    {sids : Side → Bytes} {r : Side → Ratchet}
    (hinit : ∀ s, (new S (priv s)).initializeWith root (sids s) = .ok (r s)) {es : List Event}
    (hg : Run.Along (step S) Allowed (fun s => { ratchet := r s }) es) {side : Side} {i : Nat}
    {m : RawMessage} (hi : ((es.foldl (step S) fun s => { ratchet := r s }) side.peer).sent[i]? = some m)
    (hna : i ∉ ((es.foldl (step S) fun s => { ratchet := r s }) side).taken) (aad : Bytes) :
    Binds S (es.foldl (step S) fun s => { ratchet := r s }) side m aad ↔ aad = m.aad := by
  have hinv := hg.invariant (I := Inv S root fun s => S.scalarmultBase (priv s))
    (fun _ _ ha h => h.step hS ha) (inv_start hroot hinit)
  have hopens := (hinv.decrypt hS hi hna aad).1
  rw [Binds, hopens]
  by_cases haad : aad = m.aad
  · exact iff_of_true (if_pos haad).symm haad
  · rw [if_neg haad]
    exact iff_of_false nofun haad

def sampleEvents : List Event := [.encrypt .alice [1] [9] sampleDraw]

def sampleRun : Exchange :=
  sampleEvents.foldl (step Sodium.sample) fun s => { ratchet := sample 7 s.seed }

theorem sampleEvents_allowed :
    Run.Along (step Sodium.sample) Allowed (fun s => { ratchet := sample 7 s.seed }) sampleEvents := by
  refine ⟨?_, trivial⟩
  show List.length _ + 1 < 2 ^ 32
  decide +kernel

def sampleSent : RawMessage := (sampleRun .alice).sent[0]?.getD ⟨[], [], []⟩

theorem sampleSent_at : (sampleRun .alice).sent[0]? = some sampleSent := by decide +kernel

theorem binds_iff_sample :
    Binds Sodium.sample sampleRun .bob sampleSent [9] ↔ [9] = sampleSent.aad :=
  binds_iff Sodium.sample_ideal.opens (Sodium.Sample.block 7).property
    (fun s => sample_initialized 7 s.seed) sampleEvents_allowed sampleSent_at List.not_mem_nil [9]

/-- **Wrong additional data is accepted.** -/
theorem wrong_aad_opens :
    (sampleRun .alice).sent[0]? = some sampleSent ∧ sampleSent.aad = [9] ∧
      ((sampleRun .bob).ratchet.decrypt Sodium.sample sampleSent.ciphertext [8]).2 = some [1] ∧
      ¬ Binds Sodium.sample sampleRun .bob sampleSent [8] := by
  have haad : sampleSent.aad = [9] := by decide +kernel
  have hopens : ((sampleRun .bob).ratchet.decrypt Sodium.sample sampleSent.ciphertext [8]).2 =
      some [1] := by decide +kernel
  refine ⟨sampleSent_at, haad, hopens, fun h => ?_⟩
  rw [Binds, hopens, haad, if_neg (by decide)] at h
  cases h

end Exchange

end SecureComm
