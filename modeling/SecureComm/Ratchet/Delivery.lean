import Mathlib.Logic.Function.Basic
import SecureComm.Ratchet.Channel

/-!
# Two-way delivery

Two objects hold one root key and session id and send each other messages. The
network keeps every message produced and hands each over at most once, in any
order; it may lose any of them. `Conversation.Inv` puts the two directions side
by side, and every message handed over opens to its plaintext.
-/

namespace SecureComm

inductive Side where
  | alice
  | bob
  deriving DecidableEq

def Side.peer : Side → Side
  | .alice => .bob
  | .bob => .alice

def Side.seed : Side → Nat
  | .alice => 1
  | .bob => 2

theorem Side.peer_ne (s : Side) : s.peer ≠ s := by cases s <;> decide

theorem Side.peer_peer (s : Side) : s.peer.peer = s := by cases s <;> rfl

theorem Side.peer_of_ne {s t : Side} (h : s ≠ t) : s.peer = t := by
  cases s <;> cases t <;> first | rfl | exact absurd rfl h

/-- One object, the messages it has produced with their plaintexts, and the
positions of the messages of its peer that were handed over to it. -/
structure End where
  ratchet : Ratchet
  sent : List (Bytes × Envelope) := []
  taken : List Nat := []

abbrev Conversation := Side → End

namespace Conversation

open Function Ratchet

inductive Event where
  | send (side : Side) (plaintext : Bytes) (draw : Draw)
  | deliver (side : Side) (i : Nat)

/-- `side` encrypts a message, or is handed message `i` of its peer. -/
def step (S : Sodium) (c : Conversation) : Event → Conversation
  | .send side plaintext draw =>
    match (c side).ratchet.encryptEnvelope S plaintext draw with
    | (ratchet, .ok env) =>
      update c side { c side with ratchet, sent := (c side).sent ++ [(plaintext, env)] }
    | (ratchet, .error _) => update c side { c side with ratchet }
  | .deliver side i =>
    match (c side.peer).sent[i]? with
    | some (_, env) =>
      update c side { c side with
        ratchet := ((c side).ratchet.decryptEnvelope S env).1, taken := i :: (c side).taken }
    | none => c

/-- Fewer than 2^32 messages a side, and each handed over at most once. -/
def Allowed (c : Conversation) : Event → Prop
  | .send side _ _ => (c side).sent.length + 1 < 2 ^ 32
  | .deliver side i => i < (c side.peer).sent.length ∧ i ∉ (c side).taken

variable {S : Sodium} {root sid : Bytes} {pub : Side → BytesN 32} {c : Conversation}

/-- An end sends on the chain of the root key and receives on it. -/
structure EndInv (S : Sodium) (root sid : Bytes) (pub peerPub : BytesN 32) (e : End) : Prop where
  pub_eq : e.ratchet.dhPublicKey = pub
  bound : e.sent.length < 2 ^ 32
  outbound : Outbound S root sid e.ratchet e.sent
  inbound : Inbound S root sid peerPub.val e.ratchet (e.taken.map UInt32.ofNat)

theorem EndInv.send {pub peerPub : BytesN 32} {e : End} (h : EndInv S root sid pub peerPub e)
    (hsid : sid ≠ []) (hn : e.sent.length + 1 < 2 ^ 32) (pt : Bytes) (draw : Draw) :
    ∃ r env, e.ratchet.encryptEnvelope S pt draw = (r, .ok env) ∧
      EndInv S root sid pub peerPub { e with ratchet := r, sent := e.sent ++ [(pt, env)] } := by
  obtain ⟨env, he, ho⟩ := h.outbound.encrypt hsid hn pt draw
  have hi := h.inbound.encrypt hsid pt draw
  have hp := (e.ratchet.encryptEnvelope_dhPublicKey (S := S) pt draw).trans h.pub_eq
  refine ⟨_, env, Prod.ext rfl he, hp, ?_, ho, hi⟩
  rw [List.length_append]
  exact hn

theorem EndInv.deliver (hS : S.AeadOpens) {pub peerPub : BytesN 32} {e peer : End}
    (h : EndInv S root sid pub peerPub e) (hpeer : EndInv S root sid peerPub pub peer)
    (htaken : ∀ j ∈ e.taken, j < peer.sent.length) {i : Nat} {pt : Bytes} {env : Envelope}
    (hi : peer.sent[i]? = some (pt, env)) (hna : i ∉ e.taken) :
    ∃ r, e.ratchet.decryptEnvelope S env = (r, some pt) ∧
      EndInv S root sid pub peerPub { e with ratchet := r, taken := i :: e.taken } := by
  have hb := hpeer.bound
  have hnat : ∀ j, j < peer.sent.length → (UInt32.ofNat j).toNat = j :=
    fun j hj => UInt32.toNat_ofNat_of_lt' (Nat.lt_trans hj hb)
  have hlt : i < peer.sent.length := (List.getElem?_eq_some_iff.mp hi).1
  have henv : SealedAs S root sid peerPub.val (UInt32.ofNat i) pt env :=
    hpeer.pub_eq ▸ hpeer.outbound.sealed i pt env hi
  -- positions below 2^32 and numbers are the same thing
  have hnew : UInt32.ofNat i ∉ e.taken.map UInt32.ofNat := fun hc => by
    obtain ⟨j, hj, he⟩ := List.mem_map.mp hc
    have hji : j = i := by rw [← hnat j (htaken j hj), he, hnat i hlt]
    exact hna (hji ▸ hj)
  have hn := hnat i hlt
  obtain ⟨r, he, hin, hf⟩ := h.inbound.decrypt hS peerPub.property henv hnew (by omega)
  exact ⟨r, he, (congrArg dhPublicKey hf).trans h.pub_eq, h.bound, h.outbound.decrypt hf, hin⟩

theorem EndInv.start (hroot : root.length = 32) {priv peerPub : BytesN 32} {r : Ratchet}
    (hi : (new S priv).initializeWith root sid = .ok r) :
    EndInv S root sid (S.scalarmultBase priv) peerPub { ratchet := r } := by
  rw [initializeWith_ok _ hroot] at hi
  cases hi
  have hsk := RecvInv.installed S { sendBase := root, recvBase := root } (n := 0) rfl
    fun i hi => absurd hi UInt32.not_lt_zero
  exact ⟨rfl, Nat.two_pow_pos 32, ⟨rfl, rfl, rfl, fun i pt env hi => by cases hi⟩, ⟨rfl, .inl rfl, hsk⟩⟩

structure Inv (S : Sodium) (root sid : Bytes) (pub : Side → BytesN 32) (c : Conversation) :
    Prop where
  ends : ∀ s, EndInv S root sid (pub s) (pub s.peer) (c s)
  taken_lt : ∀ s, ∀ i ∈ (c s).taken, i < (c s.peer).sent.length

theorem Inv.update (h : Inv S root sid pub c) {side : Side} {e : End}
    (he : EndInv S root sid (pub side) (pub side.peer) e) (hlen : (c side).sent.length ≤ e.sent.length)
    (htaken : ∀ i ∈ e.taken, i < (c side.peer).sent.length) :
    Inv S root sid pub (update c side e) := by
  refine ⟨(forall_update_iff c fun s e => EndInv S root sid (pub s) (pub s.peer) e).mpr
    ⟨he, fun s _ => h.ends s⟩, fun s i hi => ?_⟩
  by_cases hs : s = side
  · subst hs
    rw [update_self] at hi
    rw [update_of_ne s.peer_ne]
    exact htaken i hi
  · rw [update_of_ne hs] at hi
    have hi := h.taken_lt s i hi
    rw [Side.peer_of_ne hs] at hi ⊢
    rw [update_self]
    exact Nat.lt_of_lt_of_le hi hlen

theorem Inv.send (h : Inv S root sid pub c) (hsid : sid ≠ []) {side : Side}
    (hn : (c side).sent.length + 1 < 2 ^ 32) (pt : Bytes) (draw : Draw) :
    Inv S root sid pub (c.step S (.send side pt draw)) := by
  obtain ⟨r, env, he, hend⟩ := (h.ends side).send hsid hn pt draw
  simp only [step, he]
  refine h.update hend ?_ (h.taken_lt side)
  rw [List.length_append]
  omega

/-- **Handing over**: the message opens, and the invariant goes on. -/
theorem Inv.deliver (hS : S.AeadOpens) (h : Inv S root sid pub c) {side : Side} {i : Nat}
    {pt : Bytes} {env : Envelope} (hi : (c side.peer).sent[i]? = some (pt, env))
    (hna : i ∉ (c side).taken) :
    ((c side).ratchet.decryptEnvelope S env).2 = some pt ∧
      Inv S root sid pub (c.step S (.deliver side i)) := by
  have hpeer := h.ends side.peer
  rw [Side.peer_peer] at hpeer
  obtain ⟨r, he, hend⟩ := (h.ends side).deliver hS hpeer (h.taken_lt side) hi hna
  simp only [step, hi, he]
  refine ⟨trivial, h.update hend (Nat.le_refl _) fun j hj => ?_⟩
  obtain rfl | hj := List.mem_cons.mp hj
  · exact (List.getElem?_eq_some_iff.mp hi).1
  · exact h.taken_lt side j hj

theorem Inv.step (hS : S.AeadOpens) (hsid : sid ≠ []) {e : Event} (ha : Allowed c e)
    (h : Inv S root sid pub c) : Inv S root sid pub (c.step S e) := by
  cases e with
  | send side pt draw => exact h.send hsid ha pt draw
  | deliver side i =>
    have hi : (c side.peer).sent[i]? = some (_, _) := List.getElem?_eq_getElem ha.1
    exact (h.deliver hS hi ha.2).2

theorem inv_of_along (hS : S.AeadOpens) (hroot : root.length = 32) (hsid : sid ≠ [])
    {priv : Side → BytesN 32} {r : Side → Ratchet}
    (hinit : ∀ s, (new S (priv s)).initializeWith root sid = .ok (r s)) {es : List Event}
    (hg : Run.Along (step S) Allowed (fun s => { ratchet := r s }) es) :
    Inv S root sid (fun s => S.scalarmultBase (priv s))
      (es.foldl (step S) fun s => { ratchet := r s }) :=
  hg.invariant (fun _ _ ha h => h.step hS hsid ha)
    ⟨fun s => .start hroot (hinit s), fun _ _ hi => absurd hi List.not_mem_nil⟩

/-- **Two-way delivery in any order**: whatever was sent, lost and handed over
before, a message that is handed over for the first time opens to its plaintext. -/
theorem delivered_in_any_order (hS : S.AeadOpens) (hroot : root.length = 32) (hsid : sid ≠ [])
    {priv : Side → BytesN 32} {r : Side → Ratchet}
    (hinit : ∀ s, (new S (priv s)).initializeWith root sid = .ok (r s)) {es : List Event}
    (hg : Run.Along (step S) Allowed (fun s => { ratchet := r s }) es) {side : Side} {i : Nat}
    {pt : Bytes} {env : Envelope}
    (hi : ((es.foldl (step S) fun s => { ratchet := r s }) side.peer).sent[i]? = some (pt, env))
    (hna : i ∉ ((es.foldl (step S) fun s => { ratchet := r s }) side).taken) :
    (((es.foldl (step S) fun s => { ratchet := r s }) side).ratchet.decryptEnvelope S env).2 =
      some pt :=
  ((inv_of_along hS hroot hsid hinit hg).deliver hS hi hna).1

/-- Bob has been handed message 1, then message 0 opens. -/
theorem delivered_in_any_order_sample :
    ((([.send .alice [0] sampleDraw, .send .alice [1] sampleDraw, .send .bob [2] sampleDraw,
        .deliver .bob 1] : List Event).foldl (step Sodium.sample)
        (fun s => { ratchet := sample 7 s.seed }) .bob).ratchet.decryptEnvelope
      Sodium.sample (sampleMessage 7 1 0)).2 = some [0] := by
  refine delivered_in_any_order Sodium.sample_ideal.opens (Sodium.Sample.block 7).property
    (by decide) (fun s => sample_initialized 7 s.seed) ?_ (i := 0) ?_ ?_
  · refine ⟨?_, ?_, ?_, ⟨?_, ?_⟩, trivial⟩
    · show List.length _ + 1 < 2 ^ 32
      decide +kernel
    · show List.length _ + 1 < 2 ^ 32
      decide +kernel
    · show List.length _ + 1 < 2 ^ 32
      decide +kernel
    · decide +kernel
    · decide +kernel
  · decide +kernel
  · decide +kernel

end Conversation

end SecureComm
