import SecureComm.Ratchet.Delivery

/-!
# Default session ids

Two objects are initialised without a session id. The one that sends first draws
an id, and the other takes it over with the first message it is handed. Until
then they differ only in the id (`settle`), so the run is one of two objects that
had the id from the start, unless both draw one (`converges_iff_yields`).
-/

namespace SecureComm

open Function

namespace Ratchet

variable {S : Sodium} {r : Ratchet} {sid : Bytes}

/-- The object with its session id fixed. -/
def settle (sid : Bytes) (r : Ratchet) : Ratchet := { r with sessionId := sid }

theorem settle_own (h : r.sessionId = sid) : r.settle sid = r := by
  rw [settle, ← h]

/-- An object that draws the id sends like one that has it. -/
theorem encryptEnvelope_settle {draw : Draw} (hsid : sid ≠ [])
    (h : r.sessionId = sid ∨ r.sessionId = [] ∧ draw.sessionId.val = sid) (pt : Bytes) :
    (r.settle sid).encryptEnvelope S pt draw = r.encryptEnvelope S pt draw := by
  have hown : r.sendSession draw = sid := by
    unfold sendSession
    rcases h with h | ⟨h, hdraw⟩
    · rw [h, if_neg hsid]
    · rw [if_pos h, hdraw]
  have hsettled : (r.settle sid).sendSession draw = sid := if_neg hsid
  rw [encryptEnvelope_eq, encryptEnvelope_eq, hown, hsettled]
  rfl

/-- An object without an id receives like one that has the id of the message. -/
theorem decryptEnvelope_settle {env : Envelope} (henv : env.sessionId = sid)
    (h : r.sessionId = sid ∨ r.sessionId = []) :
    (r.settle sid).decryptEnvelope S env = r.decryptEnvelope S env := by
  rcases h with h | h
  · rw [settle_own h]
  · have hadopt : r.adoptSession env = some (r.settle sid) := by
      rw [adoptSession, if_neg fun hc => hc.1 h, if_pos h, henv, settle]
    simp only [decryptEnvelope, hadopt, adoptSession_own (r := r.settle sid) henv]

/-- An object with another id does not open the message. -/
theorem decryptEnvelope_other {env : Envelope} (h : r.sessionId ≠ [])
    (henv : env.sessionId ≠ r.sessionId) : (r.decryptEnvelope S env).2 = none := by
  rw [decryptEnvelope, adoptSession, if_pos ⟨h, henv⟩]

end Ratchet

/-- The messages and the object of an end under another session id. -/
def End.relabel (sid : Bytes) (e : End) : End where
  ratchet := e.ratchet.settle sid
  sent := e.sent.map fun m => (m.1, { m.2 with sessionId := sid })
  taken := e.taken

/-- The object of an end with its session id fixed. -/
def End.settle (sid : Bytes) (e : End) : End := { e with ratchet := e.ratchet.settle sid }

namespace Conversation

open Ratchet

variable {S : Sodium} {root sid : Bytes} {pub : Side → BytesN 32} {c : Conversation}

/-! ## What is said of one session id holds under any -/

theorem EndInv.relabel {pub peerPub : BytesN 32} {e : End} (h : EndInv S root sid pub peerPub e)
    (sid' : Bytes) : EndInv S root sid' pub peerPub (e.relabel sid') where
  pub_eq := h.pub_eq
  bound := by
    rw [End.relabel, List.length_map]
    exact h.bound
  outbound := by
    refine ⟨rfl, ?_, ?_, fun i pt env hi => ?_⟩
    · rw [End.relabel, List.length_map]
      exact h.outbound.chain
    · rw [End.relabel, List.length_map]
      exact h.outbound.number
    · rw [End.relabel, List.getElem?_map] at hi
      obtain ⟨⟨pt', env'⟩, hold, hm⟩ := Option.map_eq_some_iff.mp hi
      cases hm
      have hsealed := h.outbound.sealed i _ env' hold
      exact ⟨rfl, hsealed.header, hsealed.ciphertext⟩
  inbound := ⟨rfl, h.inbound.remote, h.inbound.skipped⟩

theorem Inv.relabel (h : Inv S root sid pub c) (sid' : Bytes) :
    Inv S root sid' pub fun s => (c s).relabel sid' where
  ends s := (h.ends s).relabel sid'
  taken_lt s i hi := by
    rw [End.relabel, List.length_map]
    exact h.taken_lt s i hi

/-! ## One session id -/

/-- With the session id `sid` everywhere, the conversation is one that had it from the start; an
end that does not have it yet has neither sent nor taken anything. -/
structure Settled (S : Sodium) (root : Bytes) (pub : Side → BytesN 32) (sid : Bytes)
    (c : Conversation) : Prop where
  inv : Inv S root sid pub fun s => (c s).settle sid
  session : ∀ s, (c s).ratchet.sessionId = sid ∨
    (c s).ratchet.sessionId = [] ∧ (c s).sent = [] ∧ (c s).taken = []

/-- Every message that was not handed over yet would open to its plaintext, and once both
ends have taken a message they have one session id. -/
structure Converges (S : Sodium) (c : Conversation) : Prop where
  opens : ∀ side i pt env, (c side.peer).sent[i]? = some (pt, env) → i ∉ (c side).taken →
    ((c side).ratchet.decryptEnvelope S env).2 = some pt
  same : (∀ s, (c s).taken ≠ []) →
    (c .alice).ratchet.sessionId = (c .bob).ratchet.sessionId

/-- An end that has no session id when it sends draws the one that its peer has, if its peer
has one. -/
def Yields (c : Conversation) : Event → Prop
  | .send side _ draw => (c side).ratchet.sessionId = [] →
    (c side.peer).ratchet.sessionId = [] ∨ (c side.peer).ratchet.sessionId = draw.sessionId.val
  | .deliver _ _ => True

theorem Settled.session_of_ne_nil (h : Settled S root pub sid c) {s : Side}
    (hs : (c s).sent ≠ [] ∨ (c s).taken ≠ []) : (c s).ratchet.sessionId = sid := by
  rcases h.session s with hsid | ⟨-, hsent, htaken⟩
  · exact hsid
  · exact absurd hs (by simp [hsent, htaken])

theorem Settled.converges (hS : S.AeadOpens) (h : Settled S root pub sid c) : Converges S c where
  opens side i pt env hi hna := by
    have henv : env.sessionId = sid :=
      ((h.inv.ends side.peer).outbound.sealed i pt env hi).session
    have hside : (c side).ratchet.sessionId = sid ∨ (c side).ratchet.sessionId = [] :=
      (h.session side).imp_right And.left
    rw [← decryptEnvelope_settle henv hside]
    exact (h.inv.deliver hS hi hna).1
  same htaken := by
    rw [h.session_of_ne_nil (.inr (htaken .alice)), h.session_of_ne_nil (.inr (htaken .bob))]

theorem Settled.any (h : Settled S root pub sid c) (hnone : ∀ s, (c s).ratchet.sessionId = [])
    (hsid : sid ≠ []) (sid' : Bytes) : Settled S root pub sid' c := by
  have hunused : ∀ s, (c s).sent = [] ∧ (c s).taken = [] := fun s => by
    rcases h.session s with hs | ⟨-, hunused⟩
    · exact absurd (hs.symm.trans (hnone s)) hsid
    · exact hunused
  refine ⟨?_, fun s => .inr ⟨hnone s, hunused s⟩⟩
  have hrelabel := h.inv.relabel sid'
  have hsame : ∀ s, ((c s).settle sid).relabel sid' = (c s).settle sid' := fun s => by
    rw [End.relabel, End.settle, End.settle, (hunused s).1]
    rfl
  rwa [funext hsame] at hrelabel

/-! ## One event -/

theorem settle_update (c : Conversation) (side : Side) (e : End) :
    (fun s => (update c side e s).settle sid) = update (fun s => (c s).settle sid) side (e.settle sid) :=
  comp_update (End.settle sid) c side e

theorem Settled.replace (h : Settled S root pub sid c) {side : Side} {e : End}
    (hinv : Inv S root sid pub (update (fun s => (c s).settle sid) side e)) :
    Settled S root pub sid (update c side e) := by
  have he : e.ratchet.sessionId = sid := by
    have hend := hinv.ends side
    rw [update_self] at hend
    exact hend.outbound.session
  refine ⟨?_, fun s => ?_⟩
  · rw [settle_update, End.settle, settle_own he]
    exact hinv
  · by_cases hs : s = side
    · subst hs
      rw [update_self]
      exact .inl he
    · rw [update_of_ne hs]
      exact h.session s

theorem Settled.send (h : Settled S root pub sid c) (hsid : sid ≠ []) {side : Side} {pt : Bytes}
    {draw : Draw} (hn : (c side).sent.length + 1 < 2 ^ 32)
    (hside : (c side).ratchet.sessionId = sid ∨
      (c side).ratchet.sessionId = [] ∧ draw.sessionId.val = sid) :
    Settled S root pub sid (c.step S (.send side pt draw)) := by
  obtain ⟨r, env, he, hend⟩ := (h.inv.ends side).send hsid hn pt draw
  have hown : (c side).ratchet.encryptEnvelope S pt draw = (r, .ok env) :=
    (encryptEnvelope_settle hsid hside pt).symm.trans he
  have hstep : c.step S (.send side pt draw) =
      update c side { c side with ratchet := r, sent := (c side).sent ++ [(pt, env)] } := by
    simp only [step, hown]
  rw [hstep]
  refine h.replace (h.inv.update hend ?_ (h.inv.taken_lt side))
  rw [List.length_append]
  exact Nat.le_add_right _ _

theorem Settled.deliver (hS : S.AeadOpens) (h : Settled S root pub sid c) {side : Side} {i : Nat}
    (hi : i < (c side.peer).sent.length) (hna : i ∉ (c side).taken) :
    Settled S root pub sid (c.step S (.deliver side i)) := by
  obtain ⟨⟨pt, env⟩, hget⟩ : ∃ m, (c side.peer).sent[i]? = some m :=
    ⟨_, List.getElem?_eq_getElem hi⟩
  have henv : env.sessionId = sid :=
    ((h.inv.ends side.peer).outbound.sealed i pt env hget).session
  have hside : (c side).ratchet.sessionId = sid ∨ (c side).ratchet.sessionId = [] :=
    (h.session side).imp_right And.left
  have hown := decryptEnvelope_settle (S := S) henv hside
  have hinv := (h.inv.deliver hS hget hna).2
  have hstep : c.step S (.deliver side i) = update c side { c side with
      ratchet := ((c side).ratchet.decryptEnvelope S env).1, taken := i :: (c side).taken } := by
    simp only [step, hget]
  have hsettled : step S (fun s => (c s).settle sid) (.deliver side i) =
      update (fun s => (c s).settle sid) side { (c side).settle sid with
        ratchet := ((c side).ratchet.decryptEnvelope S env).1, taken := i :: (c side).taken } := by
    have hget' : ((c side.peer).settle sid).sent[i]? = some (pt, env) := hget
    simp only [step, hget', ← hown]
    rfl
  rw [hsettled] at hinv
  rw [hstep]
  exact h.replace hinv

theorem draw_ne_nil (draw : Draw) : draw.sessionId.val ≠ [] :=
  AEAD.ne_nil_of_length (n := 15) draw.sessionId.property

/-- **A yielding event** leaves at most one session id in the conversation. -/
theorem Settled.step (hS : S.AeadOpens) (h : ∃ sid, sid ≠ [] ∧ Settled S root pub sid c) {e : Event}
    (ha : Allowed c e) (hy : Yields c e) :
    ∃ sid, sid ≠ [] ∧ Settled S root pub sid (c.step S e) := by
  obtain ⟨sid, hsid, h⟩ := h
  cases e with
  | deliver side i => exact ⟨sid, hsid, h.deliver hS ha.1 ha.2⟩
  | send side pt draw =>
    by_cases hside : (c side).ratchet.sessionId = []
    · refine ⟨draw.sessionId.val, draw_ne_nil draw, Settled.send ?_ (draw_ne_nil draw) ha
        (.inr ⟨hside, rfl⟩)⟩
      rcases hy hside with hpeer | hpeer
      · refine h.any (fun s => ?_) hsid _
        by_cases hs : s = side
        · rw [hs, hside]
        · rw [← Side.peer_of_ne (Ne.symm hs), hpeer]
      · rcases h.session side.peer with hown | ⟨hnone, -⟩
        · rwa [← hpeer, hown]
        · exact absurd (hpeer.symm.trans hnone) (draw_ne_nil draw)
    · have hown := (h.session side).resolve_right fun hn => hside hn.1
      exact ⟨sid, hsid, h.send hsid ha (.inl hown)⟩

/-- **Crossing first messages**: the peer of an end that draws another id would not open its
message. -/
theorem Settled.yields_of_converges (h : Settled S root pub sid c) (hsid : sid ≠ []) {e : Event}
    (hstep : Converges S (c.step S e)) : Yields c e := by
  cases e with
  | deliver side i => trivial
  | send side pt draw =>
    intro hside
    obtain ⟨hsent, -⟩ : (c side).sent = [] ∧ (c side).taken = [] :=
      ((h.session side).resolve_left fun hs => hsid (hs.symm.trans hside)).2
    by_contra hpeer
    rw [not_or] at hpeer
    obtain ⟨r, env, he, henv⟩ : ∃ r env, (c side).ratchet.encryptEnvelope S pt draw = (r, .ok env) ∧
        env.sessionId = draw.sessionId.val := ⟨_, _, encryptEnvelope_eq _ _ _, if_pos hside⟩
    have hnew : c.step S (.send side pt draw) =
        update c side { c side with ratchet := r, sent := [(pt, env)] } := by
      simp only [Conversation.step, he, hsent, List.nil_append]
    rw [hnew] at hstep
    -- the peer has been handed nothing, so the message is one that it could be handed next
    have hna : 0 ∉ (c side.peer).taken := fun hin => by
      have hlt := h.inv.taken_lt side.peer 0 hin
      rw [Side.peer_peer] at hlt
      exact absurd hlt (by simp [End.settle, hsent])
    have hopens := hstep.opens side.peer 0 pt env
      (by rw [Side.peer_peer, update_self]; rfl) (by rwa [update_of_ne side.peer_ne])
    rw [update_of_ne side.peer_ne, decryptEnvelope_other hpeer.1
      fun heq => hpeer.2 (heq.symm.trans henv)] at hopens
    cases hopens

theorem Settled.start (hroot : root.length = 32) {priv : Side → BytesN 32} {r : Side → Ratchet}
    (hinit : ∀ s, (new S (priv s)).initializeWith root [] = .ok (r s)) (sid : Bytes) :
    Settled S root (fun s => S.scalarmultBase (priv s)) sid fun s => { ratchet := r s } where
  inv := by
    have h : Inv S root [] (fun s => S.scalarmultBase (priv s)) fun s => { ratchet := r s } :=
      ⟨fun s => .start hroot (hinit s), fun _ _ hi => absurd hi List.not_mem_nil⟩
    exact h.relabel sid
  session s := by
    have hr := hinit s
    rw [initializeWith_ok _ hroot] at hr
    exact .inr ⟨by rw [← Except.ok.inj hr], rfl, rfl⟩

/-- **Default session ids converge** in exactly the runs in which no end draws a session id
after its peer has one. -/
theorem converges_iff_yields (hS : S.AeadOpens) (hroot : root.length = 32)
    {priv : Side → BytesN 32} {r : Side → Ratchet}
    (hinit : ∀ s, (new S (priv s)).initializeWith root [] = .ok (r s)) {es : List Event}
    (hg : Run.Along (step S) Allowed (fun s => { ratchet := r s }) es) :
    Run.Throughout (step S) (Converges S) (fun s => { ratchet := r s }) es ↔
      Run.Along (step S) Yields (fun s => { ratchet := r s }) es := by
  have hstart := Settled.start hroot hinit [0]
  refine hg.throughout_iff
    (I := fun c => ∃ sid, sid ≠ [] ∧ Settled S root (fun s => S.scalarmultBase (priv s)) sid c)
    (fun c e ha h hy => Settled.step hS h ha hy) (fun c e ha h _ => ?_)
    ⟨[0], List.cons_ne_nil _ _, hstart⟩ (hstart.converges hS)
  constructor
  · obtain ⟨sid, hsid, h⟩ := h
    exact h.yields_of_converges hsid
  · intro hy
    obtain ⟨sid, -, h⟩ := Settled.step hS h ha hy
    exact h.converges hS

/-- The object of a side in a concrete session, without a session id. -/
def unnamed (s : Side) : Ratchet := { sample 7 s.seed with sessionId := [] }

theorem unnamed_initialized (s : Side) :
    (new Sodium.sample (Sodium.Sample.block s.seed)).initializeWith (Sodium.Sample.block 7).val [] =
      .ok (unnamed s) :=
  initializeWith_ok _ (Sodium.Sample.block 7).property _

/-- A draw with another session id. -/
def otherDraw : Draw := { sampleDraw with sessionId := ⟨List.replicate 16 1, List.length_replicate⟩ }

/-- Both sides send before either has received. -/
def crossing : List Event := [.send .alice [1] sampleDraw, .send .bob [2] otherDraw]

theorem crossing_allowed :
    Run.Along (step Sodium.sample) Allowed (fun s => { ratchet := unnamed s }) crossing := by
  refine ⟨?_, ?_, trivial⟩
  · show List.length _ + 1 < 2 ^ 32
    decide +kernel
  · show List.length _ + 1 < 2 ^ 32
    decide +kernel

theorem converges_iff_yields_sample :
    Run.Throughout (step Sodium.sample) (Converges Sodium.sample)
        (fun s => { ratchet := unnamed s }) crossing ↔
      Run.Along (step Sodium.sample) Yields (fun s => { ratchet := unnamed s }) crossing :=
  converges_iff_yields Sodium.sample_ideal.opens (Sodium.Sample.block 7).property
    unnamed_initialized crossing_allowed

/-- **Crossing first messages are both lost.** -/
theorem crossing_not_converges :
    Run.Along (step Sodium.sample) Allowed (fun s => { ratchet := unnamed s }) crossing ∧
      ¬ Run.Throughout (step Sodium.sample) (Converges Sodium.sample)
        (fun s => { ratchet := unnamed s }) crossing := by
  refine ⟨crossing_allowed, fun ⟨_, _, h⟩ => ?_⟩
  have hlost : (((crossing.foldl (step Sodium.sample) fun s => { ratchet := unnamed s })
      .alice).sent[0]?.map fun m => (((crossing.foldl (step Sodium.sample)
        fun s => { ratchet := unnamed s }) .bob).ratchet.decryptEnvelope Sodium.sample m.2).2) =
      some none := by
    decide +kernel
  obtain ⟨⟨pt, env⟩, hsent, hnone⟩ := Option.map_eq_some_iff.mp hlost
  have hopens := h.opens .bob 0 pt env hsent List.not_mem_nil
  exact nomatch hnone.symm.trans hopens

end Conversation

end SecureComm
