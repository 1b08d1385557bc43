import SecureComm.Dispatcher.Ledger
import SecureComm.Dispatcher.Network
import SecureComm.Dispatcher.Sessions

/-!
# Where a direct message comes from

Two dispatchers with a session between them, each with any other sessions, and
a network that hands over what it pleases but forges nothing in that session.
Both directions start from one key, and the sender of a frame is not sealed, so
a frame that comes back to its author opens there. What tells the two authors
apart is the public key in the header: every ratchet has its own and keeps it,
and its header is sealed. So a receiver that is never handed its own public key
under its peer's name accepts only what the peer has sent it.
-/

namespace SecureComm.Dispatcher

open Network
open Ratchet (parseHeader parseHeader_append)

variable {S : Sodium} {d : Dispatcher} {c : Call}

def machine (S : Sodium) : Machine Dispatcher Call Emission Acceptance where
  step := apply S
  emits := emits S
  accepts := accepts S

/-! ## What a call leaves as it was -/

theorem apply_groups : (d.apply S c).mls.groups = d.mls.groups := by
  cases c with
  | register deviceId => rfl
  | setOnInbound => rfl
  | create p =>
    simp only [apply]
    rw [create_frame]
  | send remote pt draw =>
    simp only [apply, sendMessageToDevice]
    split
    · rfl
    · split
      · rfl
      · split <;> rfl
  | sendGroup groupId senderId pt nonce now now' =>
    rcases hg : d.mls.groups.lookup groupId with _ | g
    · simp only [apply, sendGroupMessage, MLSManager.encryptGroupMessage, hg, bind, Except.bind]
    · simp only [apply, sendGroupMessage, MLSManager.encryptGroupMessage_eq hg, bind, Except.bind,
        pure, Except.pure]
  | receive bytes =>
    simp only [apply, onRawMessage]
    split
    · rfl
    · split
      · split <;> rename_i he
        · exact (congrArg (fun p => p.1.groups) he).symm.trans (MLSManager.decryptGroupMessage_groups _ _)
        · exact (congrArg (fun p => p.1.groups) he).symm.trans (MLSManager.decryptGroupMessage_groups _ _)
      · split
        · rfl
        · split <;> rfl

theorem lookup_putBack {t : Table Bytes SessionState} {a b : Bytes} {s s₀ s₁ : SessionState}
    (ha : t.lookup a = some s) (hb : t.lookup b = some s₀)
    (hs : s₁.ratchet.dhPublicKey = s₀.ratchet.dhPublicKey) :
    ∃ s', (t.insert b s₁).lookup a = some s' ∧ s'.ratchet.dhPublicKey = s.ratchet.dhPublicKey := by
  by_cases h : a = b
  · subst h
    rw [ha] at hb
    cases hb
    exact ⟨s₁, AList.lookup_insert _, hs⟩
  · exact ⟨s, (AList.lookup_insert_ne h).trans ha, rfl⟩

theorem create_session {remote : Bytes} {s : SessionState} (h : d.sessions.lookup remote = some s)
    (p : Peering) : ∃ s', (d.create S p).sessions.lookup remote = some s' ∧
      s'.ratchet.dhPublicKey = s.ratchet.dhPublicKey := by
  by_cases hr : remote = p.remote
  · subst hr
    simp only [create, createSessionWith, h, Option.getD_some]
    split
    · exact ⟨s, AList.lookup_insert _, rfl⟩
    · rename_i r hi
      rw [Ratchet.initializeWith_ok _ (Ratchet.initializeWith_length hi)] at hi
      cases hi
      exact ⟨_, AList.lookup_insert _, rfl⟩
  · exact ⟨s, (create_lookup_ne d p hr).trans h, rfl⟩

/-- **A session keeps its public key.** -/
theorem apply_session {remote : Bytes} {s : SessionState} (h : d.sessions.lookup remote = some s) :
    ∃ s', (d.apply S c).sessions.lookup remote = some s' ∧
      s'.ratchet.dhPublicKey = s.ratchet.dhPublicKey := by
  rcases d.apply_sessions (S := S) c with
    hd | ⟨p, rfl⟩ | ⟨remote', pt, draw, s₀, rfl, hl, hd⟩ | ⟨bytes, env, s₀, rfl, -, -, hl, hd⟩
  · exact ⟨s, hd ▸ h, rfl⟩
  · exact create_session h p
  · rw [hd]
    exact lookup_putBack h hl (s₀.ratchet.encryptEnvelope_dhPublicKey (S := S) pt draw)
  · rw [hd]
    exact lookup_putBack h hl (s₀.ratchet.decryptEnvelope_dhPublicKey (S := S) env)

/-! ## A dispatcher without groups -/

theorem emits_direct (hg : d.mls.groups = ∅) : ∀ e ∈ d.emits S c, ∃ remote s n,
    e.remote = some remote ∧ d.sessions.lookup remote = some s ∧
      e.env.associatedData = pushU32Be [] n ++ s.ratchet.dhPublicKey.val := by
  intro e he
  obtain ⟨remote, pt, draw, s, e', he', hl, rfl⟩ |
    ⟨groupId, senderId, pt, nonce, now, now', e', he', -⟩ := emits_cases he
  · rw [Ratchet.emits, Ratchet.encryptEnvelope_eq] at he'
    obtain rfl := List.mem_singleton.mp he'
    exact ⟨remote, s, s.ratchet.sendMessageNumber, rfl, hl, rfl⟩
  · simp only [MLSManager.emits, hg, AList.lookup_empty] at he'
    cases he'

theorem accepts_direct (hg : d.mls.groups = ∅) : ∀ o ∈ d.accepts S c, ∃ bytes,
    c = .receive bytes ∧ deserializeEnvelope bytes = some o.env ∧ o.epoch = none := by
  intro o ho
  obtain ⟨bytes, env, hc, hb, o', ho', rfl⟩ := accepts_cases ho
  refine ⟨bytes, hc, hb.trans (congrArg some (opening_opened o' ho').2.symm), ?_⟩
  have hng : ¬ (env.sessionId ≠ [] ∧ d.mls.getGroupEpoch env.sessionId ≠ 0) := fun h =>
    h.2 (by simp only [MLSManager.getGroupEpoch, hg, AList.lookup_empty])
  rw [opening, if_neg hng] at ho'
  split at ho'
  · cases ho'
  · simp only [Ratchet.accepts] at ho'
    split at ho'
    · obtain rfl := List.mem_singleton.mp ho'
      rfl
    · cases ho'

/-! ## Two dispatchers -/

/-- Two dispatchers, and what they have put out and accepted. -/
abbrev Pair := Traffic Side Dispatcher Emission Acceptance

def pairStart (S : Sodium) (ids : Side → Bytes) (calls : Side → List Peering) : Pair :=
  { node := fun i => setUp S {} (ids i) (calls i) }

/-- The sessions that a side creates, in the set-up and in the run. -/
def peerings (calls : Side → List Peering) (es : List (Side × Call)) (i : Side) : List Peering :=
  calls i ++ es.filterMap fun e =>
    match e.2 with
    | .create p => if e.1 = i then some p else none
    | _ => none

/-- No other session of the two is created with the root key of theirs. -/
def Sole (ids : Side → Bytes) (calls : Side → List Peering) (root : Bytes) : Prop :=
  ∀ i, ∀ p ∈ calls i, p.rootKey = root → p.remote = ids i.peer

def FromPeer (ids : Side → Bytes) (i : Side) (env : Envelope) : Prop :=
  env.senderDeviceId = ids i.peer

instance (ids : Side → Bytes) (i : Side) (env : Envelope) : Decidable (FromPeer ids i env) :=
  inferInstanceAs (Decidable (_ = _))

/-- Nothing is forged in the session of the two: what opens there was sealed
before under the same key. -/
def SessionUnforged (S : Sodium) (ids : Side → Bytes) (w : Pair) (e : Side × Call) : Prop :=
  ∀ o ∈ (machine S).accepts (w.node e.1) e.2, FromPeer ids e.1 o.env →
    ∃ x ∈ w.emitted, x.2.call.Produced S o

/-- A frame in the peer's name does not carry the public key of the receiving session. -/
def Foreign (ids : Side → Bytes) (w : Pair) : Side × Call → Prop
  | (i, .receive bytes) => ∀ env ∈ deserializeEnvelope bytes, FromPeer ids i env →
      ∀ s ∈ (w.node i).sessions.lookup (ids i.peer),
        (parseHeader env.associatedData).map Prod.snd ≠ some s.ratchet.dhPublicKey.val
  | _ => True

/-- A session under another root key seals under no key that the session of the two opens with. -/
def RootsApart (ids : Side → Bytes) (calls : Side → List Peering) (root : Bytes) (w : Pair) :
    Prop :=
  ∀ x ∈ w.emitted, ∀ y ∈ w.accepted, FromPeer ids y.1 y.2.env → x.2.call.key = y.2.key →
    ∀ remote ∈ x.2.remote, ∃ p ∈ calls x.1, p.remote = remote ∧ p.rootKey = root

/-- What the callback gets in the peer's name, the peer has sent to the receiver. -/
def OriginAuthentic (ids : Side → Bytes) (w : Pair) : Prop :=
  ∀ y ∈ w.accepted, ∀ v ∈ y.2.handed, FromPeer ids y.1 v → ∃ x ∈ w.emitted,
    x.1 = y.1.peer ∧ x.2.remote = some (ids y.1) ∧ x.2.call.plaintext = v.ciphertext

/-- No frame is accepted in the peer's name by the one that put it out. -/
def NotReflected (ids : Side → Bytes) (w : Pair) : Prop :=
  ∀ y ∈ w.accepted, FromPeer ids y.1 y.2.env → ∀ x ∈ w.emitted, x.1 = y.1 → ¬ x.2.SameFrame y.2

variable {ids : Side → Bytes} {calls : Side → List Peering} {root : Bytes} {pub : Side → BytesN 32}

/-- The dispatcher has no group, and a session with its peer under the public key. -/
structure HasSession (ids : Side → Bytes) (pub : Side → BytesN 32) (i : Side) (d : Dispatcher) :
    Prop where
  groups : d.mls.groups = ∅
  session : ∃ s, d.sessions.lookup (ids i.peer) = some s ∧ s.ratchet.dhPublicKey = pub i

/-- What is put out for the peer carries the public key. -/
structure Marked (S : Sodium) (ids : Side → Bytes) (pub : Side → BytesN 32) (i : Side)
    (e : Emission) : Prop where
  sealed : e.Sealed S
  direct : e.remote ≠ none
  header : e.remote = some (ids i.peer) →
    (parseHeader e.env.associatedData).map Prod.snd = some (pub i).val

/-- What is accepted from the peer was sealed, and does not carry the receiver's public key. -/
structure Traced (S : Sodium) (ids : Side → Bytes) (pub : Side → BytesN 32)
    (emitted : List (Side × Emission)) (i : Side) (o : Acceptance) : Prop where
  opened : o.Opened S
  direct : o.epoch = none
  sealed : FromPeer ids i o.env → ∃ x ∈ emitted, x.2.call.Produced S o
  header : FromPeer ids i o.env → (parseHeader o.env.associatedData).map Prod.snd ≠ some (pub i).val

theorem pairStart_session (hp : ∀ i, Peered ids calls root i i.peer) : ∃ pub, ∀ i,
    HasSession ids pub i ((pairStart S ids calls).node i) := by
  have hs : ∀ i, ∃ s, (setUp S {} (ids i) (calls i)).sessions.lookup (ids i.peer) = some s := by
    intro i
    obtain ⟨key, r, hl, -⟩ := setUp_ready (S := S) {} (hp i)
    exact ⟨_, hl⟩
  choose s hs using hs
  exact ⟨fun i => (s i).ratchet.dhPublicKey, fun i =>
    ⟨congrArg MLSManager.groups (setUp_frame (S := S) {} (ids i) (calls i)).2.2, s i, hs i, rfl⟩⟩

theorem HasSession.apply {i : Side} (h : HasSession ids pub i d) (c : Call) :
    HasSession ids pub i (d.apply S c) := by
  obtain ⟨s, hl, hpub⟩ := h.session
  obtain ⟨s', hl', hpub'⟩ := apply_session (S := S) (c := c) hl
  exact ⟨apply_groups.trans h.groups, s', hl', hpub'.trans hpub⟩

theorem HasSession.marked {i : Side} (h : HasSession ids pub i d) {c : Call} :
    ∀ e ∈ d.emits S c, Marked S ids pub i e := by
  intro e he
  obtain ⟨remote, s, n, hr, hl, hhead⟩ := emits_direct h.groups e he
  refine ⟨emits_sealed e he, by rw [hr]; exact Option.some_ne_none _, fun hpeer => ?_⟩
  obtain ⟨s', hl', hpub⟩ := h.session
  rw [hr] at hpeer
  cases hpeer
  rw [hl] at hl'
  cases hl'
  rw [hhead, parseHeader_append n s.ratchet.dhPublicKey.property, hpub]
  rfl

theorem HasSession.traced {w : Pair} {e : Side × Call} (h : HasSession ids pub e.1 (w.node e.1))
    (hu : SessionUnforged S ids w e) (hf : Foreign ids w e) :
    ∀ o ∈ (machine S).accepts (w.node e.1) e.2, Traced S ids pub w.emitted e.1 o := by
  intro o ho
  obtain ⟨i, c⟩ := e
  have ho' : o ∈ (w.node i).accepts S c := ho
  obtain ⟨bytes, rfl, hb, hdirect⟩ := accepts_direct h.groups o ho'
  refine ⟨accepts_opened o ho', hdirect, hu o ho, fun hpeer => ?_⟩
  obtain ⟨s, hl, hpub⟩ := h.session
  rw [← hpub]
  exact hf o.env hb hpeer s hl

theorem traced_run (hp : ∀ i, Peered ids calls root i i.peer) {es : List (Side × Call)}
    (hg : Run.Along (Traffic.step (machine S))
      (fun w e => SessionUnforged S ids w e ∧ Foreign ids w e) (pairStart S ids calls) es) :
    ∃ pub, (es.foldl (Traffic.step (machine S)) (pairStart S ids calls)).Holds
      (HasSession ids pub) (Marked S ids pub) (Traced S ids pub) := by
  obtain ⟨pub, hpub⟩ := pairStart_session (S := S) hp
  refine ⟨pub, Traffic.Holds.run (fun l l' i o hl h => ?_) (fun i d c h => h.apply c)
    (fun i d c h => h.marked) (fun w e hg h => (h.node e.1).traced hg.1 hg.2) hg (.start hpub)⟩
  refine { h with sealed := fun hpeer => ?_ }
  obtain ⟨x, hx, hprod⟩ := h.sealed hpeer
  exact ⟨x, hl hx, hprod⟩

/-- **The public key tells the author**: what was sealed in the session of the two
and does not carry the receiver's public key was put out by the peer. -/
theorem Marked.author {i j : Side} {e : Emission} {o : Acceptance} (he : Marked S ids pub j e)
    (hsame : e.SameFrame o) (hremote : ∀ remote ∈ e.remote, remote = ids j.peer)
    (hhead : (parseHeader o.env.associatedData).map Prod.snd ≠ some (pub i).val) :
    j = i.peer ∧ e.remote = some (ids i) := by
  obtain ⟨remote, hr⟩ := Option.ne_none_iff_exists'.mp he.direct
  have hpeer := hremote remote hr
  subst hpeer
  have hj : j ≠ i := by
    rintro rfl
    exact hhead (hsame.1 ▸ he.header hr)
  obtain rfl := Side.peer_of_ne hj.symm
  exact ⟨rfl, by rw [hr, Side.peer_peer]⟩

/-- The nonces and the sealed parts agree, so the keys do. -/
theorem key_of_sameFrame (hS : S.AeadIdeal) {e e' : Emission} {o : Acceptance} (he : e.Sealed S)
    (he' : e'.Sealed S) (h : e.SameFrame o) (h' : e'.SameFrame o) : e'.call.key = e.call.key := by
  have hct := h'.2.trans h.2.symm
  rw [he.ciphertext, he'.ciphertext] at hct
  obtain ⟨hn, hsealed⟩ := List.append_inj hct (he'.nonce.trans he.nonce.symm)
  rw [hn] at hsealed
  exact (hS.binding _ _ _ _ _ _ _ hsealed).1

/-- **Origin authenticity**: in a run without forgery in which neither side is
handed its own public key in its peer's name, all that the callback gets in the
peer's name was sent by the peer to the receiver, and no frame is accepted by
the side that put it out. -/
theorem origin_authentic (hS : S.AeadIdeal) (hp : ∀ i, Peered ids calls root i i.peer)
    {es : List (Side × Call)} (hsole : Sole ids (peerings calls es) root)
    (hg : Run.Along (Traffic.step (machine S))
      (fun w e => SessionUnforged S ids w e ∧ Foreign ids w e) (pairStart S ids calls) es) :
    let w := es.foldl (Traffic.step (machine S)) (pairStart S ids calls)
    RootsApart ids (peerings calls es) root w → OriginAuthentic ids w ∧ NotReflected ids w := by
  intro w hroots
  obtain ⟨pub, hw⟩ := traced_run hp hg
  have hremote : ∀ x ∈ w.emitted, ∀ y ∈ w.accepted, FromPeer ids y.1 y.2.env →
      x.2.call.key = y.2.key → ∀ remote ∈ x.2.remote, remote = ids x.1.peer := by
    intro x hx y hy hpeer hkey remote hr
    obtain ⟨p, hpc, rfl, hroot⟩ := hroots x hx y hy hpeer hkey remote hr
    exact hsole x.1 p hpc hroot
  have hsealed : ∀ y ∈ w.accepted, FromPeer ids y.1 y.2.env → ∃ x ∈ w.emitted,
      x.2.call.key = y.2.key ∧ x.2.SameFrame y.2 ∧ x.2.call.plaintext = y.2.plaintext := by
    intro y hy hpeer
    obtain ⟨x, hx, hprod⟩ := (hw.accepted y hy).sealed hpeer
    exact ⟨x, hx, hprod.1,
      (hw.emitted x hx).sealed.bound hS.opens (hw.accepted y hy).opened hprod⟩
  refine ⟨fun y hy v hv hpeer => ?_, fun y hy hpeer x hx hself hsame => ?_⟩
  · have hy' := hw.accepted y hy
    have hv' := hy'.opened.handed v hv
    rw [if_pos hy'.direct] at hv'
    subst hv'
    obtain ⟨x, hx, hkey, hsame, hpt⟩ := hsealed y hy hpeer
    obtain ⟨hi, hr⟩ := (hw.emitted x hx).author hsame (hremote x hx y hy hpeer hkey)
      (hy'.header hpeer)
    exact ⟨x, hx, hi, hr, hpt⟩
  · obtain ⟨x', hx', hkey, hsame', -⟩ := hsealed y hy hpeer
    have hkey' : x.2.call.key = y.2.key := (key_of_sameFrame hS (hw.emitted x' hx').sealed
      (hw.emitted x hx).sealed hsame' hsame).trans hkey
    obtain ⟨hi, -⟩ := (hw.emitted x hx).author hsame (hremote x hx y hy hpeer hkey')
      ((hw.accepted y hy).header hpeer)
    exact Side.peer_ne y.1 (hi.symm.trans hself)

/-! ## A frame that comes back -/

instance (ids : Side → Bytes) (w : Pair) (e : Side × Call) : Decidable (Foreign ids w e) :=
  match e with
  | (i, .receive bytes) => inferInstanceAs (Decidable (∀ env ∈ deserializeEnvelope bytes,
      FromPeer ids i env → ∀ s ∈ (w.node i).sessions.lookup (ids i.peer),
        (parseHeader env.associatedData).map Prod.snd ≠ some s.ratchet.dhPublicKey.val))
  | (_, .register _) | (_, .setOnInbound) | (_, .create _) | (_, .send ..) | (_, .sendGroup ..) =>
    .isTrue trivial

instance (S : Sodium) (ids : Side → Bytes) (w : Pair) (e : Side × Call) :
    Decidable (SessionUnforged S ids w e) :=
  inferInstanceAs (Decidable (∀ o ∈ _, _ → ∃ x ∈ _, _))

def samplePair : Pair := pairStart Sodium.sample sampleIds sampleCalls

def sampleCall : Side × Call := (.alice, .send (sampleIds .bob) samplePlaintext Ratchet.sampleDraw)

/-- What alice puts out for bob, handed to `i` in the name of its peer. -/
def sampleHanded (i : Side) : List (Side × Call) :=
  ((samplePair.node .alice).emits Sodium.sample sampleCall.2).map fun e =>
    (i, .receive (serializeEnvelope { e.env with senderDeviceId := sampleIds i.peer }))

theorem sample_peers : ∀ i, Peered sampleIds sampleCalls sampleRoot.val i i.peer
  | .alice => sample_peered
  | .bob => sample_peered.symm

/-- Alice's frame, handed to bob. -/
theorem origin_authentic_sample :
    let es := sampleCall :: sampleHanded .bob
    let w := es.foldl (Traffic.step (machine Sodium.sample)) samplePair
    w.accepted.length = 1 ∧ OriginAuthentic sampleIds w ∧ NotReflected sampleIds w := by
  refine ⟨by decide +kernel, origin_authentic Sodium.sample_ideal sample_peers ?_ ?_ ?_⟩
  · intro i
    cases i <;> decide +kernel
  · decide +kernel
  · unfold RootsApart
    decide +kernel

/-- **Reflection**: alice's frame for bob, handed back to her in bob's name, reaches
her callback. -/
theorem reflected_frame_accepted :
    let es := sampleCall :: sampleHanded .alice
    let w := es.foldl (Traffic.step (machine Sodium.sample)) samplePair
    (∀ i, Peered sampleIds sampleCalls sampleRoot.val i i.peer) ∧
      Sole sampleIds (peerings sampleCalls es) sampleRoot.val ∧
      Run.Along (Traffic.step (machine Sodium.sample)) (SessionUnforged Sodium.sample sampleIds)
        samplePair es ∧
      RootsApart sampleIds (peerings sampleCalls es) sampleRoot.val w ∧
      ¬ OriginAuthentic sampleIds w ∧ ¬ NotReflected sampleIds w := by
  unfold RootsApart OriginAuthentic NotReflected
  refine ⟨sample_peers, ?_, by decide +kernel, by decide +kernel, by decide +kernel,
    by decide +kernel⟩
  intro i
  cases i <;> decide +kernel

end SecureComm.Dispatcher
