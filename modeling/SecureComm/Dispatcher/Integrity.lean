import SecureComm.Dispatcher.Ledger
import SecureComm.Ratchet.Delivery

/-!
# What an accepted envelope is bound to

Ratchets, group managers and dispatchers, in any number and in any state, take
calls in any order, and the network hands each of them what it pleases but
forges nothing. The header, the ciphertext and the plaintext of an accepted
envelope are those of one that was put out under the same key, and a session id
that the object goes by is checked. The other fields are not sealed: the
counter fields, the timestamp and the sender are whatever the network wrote.
-/

namespace SecureComm

inductive Endpoint where
  | ratchet (r : Ratchet)
  | manager (m : MLSManager)
  | dispatcher (d : Dispatcher)

namespace Endpoint

/-- `other` is any call that neither seals nor opens, with what it leaves. -/
inductive Call where
  | ratchet (op : Ratchet.Op)
  | manager (c : MLSManager.Call)
  | dispatcher (c : Dispatcher.Call)
  | other (p : Endpoint)

variable (S : Sodium)

def apply : Endpoint → Call → Endpoint
  | .ratchet r, .ratchet op => .ratchet (r.apply S op)
  | .manager m, .manager c => .manager (m.apply S c)
  | .dispatcher d, .dispatcher c => .dispatcher (d.apply S c)
  | _, .other p => p
  | p, _ => p

def emits : Endpoint → Call → List Emission
  | .ratchet r, .ratchet op => r.emits S op
  | .manager m, .manager c => m.emits S c
  | .dispatcher d, .dispatcher c => d.emits S c
  | _, _ => []

def accepts : Endpoint → Call → List Acceptance
  | .ratchet r, .ratchet op => r.accepts S op
  | .manager m, .manager c => m.accepts S c
  | .dispatcher d, .dispatcher c => d.accepts S c
  | _, _ => []

def machine : Machine Endpoint Call Emission Acceptance where
  step := apply S
  emits := emits S
  accepts := accepts S

variable {S}

theorem emits_sealed {p : Endpoint} {c : Call} : ∀ e ∈ p.emits S c, e.Sealed S := by
  intro e he
  cases p <;> cases c
  case ratchet.ratchet => exact Ratchet.emits_sealed e he
  case manager.manager => exact MLSManager.emits_sealed e he
  case dispatcher.dispatcher => exact Dispatcher.emits_sealed e he
  all_goals cases he

theorem accepts_opened {p : Endpoint} {c : Call} : ∀ o ∈ p.accepts S c, o.Opened S := by
  intro o ho
  cases p <;> cases c
  case ratchet.ratchet => exact (Ratchet.accepts_opened o ho).1
  case manager.manager => exact (MLSManager.accepts_opened o ho).1
  case dispatcher.dispatcher => exact Dispatcher.accepts_opened o ho
  all_goals cases ho

end Endpoint

/-- What of an accepted envelope is bound to one that was put out. -/
structure Bound (e : Emission) (o : Acceptance) : Prop where
  key : e.call.key = o.key
  frame : e.SameFrame o
  plaintext : e.call.plaintext = o.plaintext
  session : o.own ≠ [] → o.env.sessionId = o.own
  group : o.epoch ≠ none → o.env.sessionId = e.env.sessionId
  handed : ∀ v ∈ o.handed, v.sessionId = o.env.sessionId ∧
    v.associatedData = e.env.associatedData ∧
    (v.ciphertext = e.env.ciphertext ∨ v.ciphertext = e.call.plaintext)

/-- Every field of every accepted envelope is that of one put out under its key. -/
def Intact {ι : Type} (w : Traffic ι Endpoint Emission Acceptance) : Prop :=
  ∀ y ∈ w.accepted, ∃ x ∈ w.emitted, x.2.call.key = y.2.key ∧ x.2.env.onWire = y.2.env.onWire

/-- The keyed hash that derives the keys of epochs does not collide on those of
the run, nor with a key of a ratchet. -/
def EpochsApart {ι : Type} (w : Traffic ι Endpoint Emission Acceptance) : Prop :=
  ∀ x ∈ w.emitted, ∀ y ∈ w.accepted, x.2.call.key = y.2.key → x.2.epoch = y.2.epoch

variable {S : Sodium}

theorem Acceptance.Opened.bound {e : Emission} {o : Acceptance} (ho : o.Opened S)
    (hS : S.AeadOpens) (he : e.Sealed S) (h : e.call.Produced S o)
    (hepoch : e.call.key = o.key → e.epoch = o.epoch) : Bound e o := by
  obtain ⟨hframe, hpt⟩ := he.bound hS ho h
  refine ⟨h.1, hframe, hpt, ho.session, fun hn => ?_, fun v hv => ?_⟩
  · obtain ⟨n, hn⟩ := Option.ne_none_iff_exists'.mp hn
    rw [ho.group n hn, (he.group n ((hepoch h.1).trans hn)).1]
  · rw [ho.handed v hv]
    split
    · exact ⟨rfl, hframe.1.symm, .inr hpt.symm⟩
    · exact ⟨rfl, hframe.1.symm, .inl hframe.2.symm⟩

variable {ι : Type} [DecidableEq ι]

/-- **What the header binds**: in every run without forgery, each accepted envelope
has the header, the ciphertext and the plaintext of one that was put out under the
same key, and the session id that its object goes by; so has what the callback gets. -/
theorem accepted_bound (hS : S.AeadOpens) {node : ι → Endpoint} {es : List (ι × Endpoint.Call)}
    (hg : Run.Along (Traffic.step (Endpoint.machine S)) (Unforged S (Endpoint.machine S))
      { node } es) :
    let w := es.foldl (Traffic.step (Endpoint.machine S)) { node }
    EpochsApart w → ∀ y ∈ w.accepted, ∃ x ∈ w.emitted, Bound x.2 y.2 := by
  intro w hepoch y hy
  have hw : w.Holds (fun _ _ => True) (fun _ e => e.Sealed S)
      (fun l _ o => o.Opened S ∧ ∃ x ∈ l, x.2.call.Produced S o) := by
    refine Traffic.Holds.run ?_ (fun _ _ _ _ => trivial) (fun _ _ _ _ => Endpoint.emits_sealed)
      ?_ hg (.start (I := fun _ _ => True) fun _ => trivial)
    · rintro l l' i o hl ⟨ho, x, hx, hp⟩
      exact ⟨ho, x, hl hx, hp⟩
    · rintro w e hu - o ho
      exact ⟨Endpoint.accepts_opened o ho, hu o ho⟩
  obtain ⟨ho, x, hx, hp⟩ := hw.accepted y hy
  exact ⟨x, hx, ho.bound hS (hw.emitted x hx) hp (hepoch x hx y hy)⟩

/-! ## Rewritten envelopes -/

namespace Endpoint

/-- Two ratchets with one root key and no session id, and two managers of one group. -/
def sampleNode : Side ⊕ Side → Endpoint
  | .inl i => .ratchet { Ratchet.sample 7 i.seed with sessionId := [] }
  | .inr _ => .manager (({} : MLSManager).createGroup Sodium.sample Ratchet.sampleDraw.sessionId).1

def sampleEncrypt : List ((Side ⊕ Side) × Call) :=
  [(.inl .alice, .ratchet (.encrypt [1] Ratchet.sampleDraw)),
    (.inr .alice, .manager (.encrypt (zeros 16) [7] [2] Ratchet.sampleDraw.nonce 3 3))]

def sampleSealed : List Envelope :=
  (sampleEncrypt.foldl (Traffic.step (machine Sodium.sample))
    { node := sampleNode }).emitted.map fun x => x.2.env

def rewrite (env : Envelope) (sessionId : Bytes) : Envelope :=
  { env with
    sessionId, messageIndex := env.messageIndex + 1, previousCounter := env.previousCounter + 1
    timestamp := env.timestamp + 1, senderDeviceId := 9 :: env.senderDeviceId }

def sampleDecrypt : List ((Side ⊕ Side) × Call) :=
  match sampleSealed with
  | [g, r] =>
    [(.inr .bob, .manager (.decrypt (zeros 16) (rewrite g g.sessionId))),
      (.inl .bob, .ratchet (.decrypt (rewrite r [5])))]
  | _ => []

end Endpoint

/-- The genuine envelopes, accepted with their unsealed fields rewritten. -/
theorem accepted_bound_sample :
    let w := (Endpoint.sampleEncrypt ++ Endpoint.sampleDecrypt).foldl
      (Traffic.step (Endpoint.machine Sodium.sample)) { node := Endpoint.sampleNode }
    w.accepted.length = 2 ∧ ∀ y ∈ w.accepted, ∃ x ∈ w.emitted, Bound x.2 y.2 := by
  refine ⟨by decide +kernel, accepted_bound Sodium.sample_ideal.opens ?_ ?_⟩
  · decide +kernel
  · unfold EpochsApart
    decide +kernel

/-- **Metadata is malleable**: both envelopes are accepted with another counter,
timestamp and sender than any that was put out, the ratchet's also with another
session id. -/
theorem metadata_rewritten :
    let w := (Endpoint.sampleEncrypt ++ Endpoint.sampleDecrypt).foldl
      (Traffic.step (Endpoint.machine Sodium.sample)) { node := Endpoint.sampleNode }
    Run.Along (Traffic.step (Endpoint.machine Sodium.sample))
        (Unforged Sodium.sample (Endpoint.machine Sodium.sample)) { node := Endpoint.sampleNode }
        (Endpoint.sampleEncrypt ++ Endpoint.sampleDecrypt) ∧
      ¬ Intact w ∧ w.accepted.length = 2 ∧ ∀ y ∈ w.accepted, ∀ x ∈ w.emitted,
        x.2.env.messageIndex ≠ y.2.env.messageIndex ∧
        x.2.env.previousCounter ≠ y.2.env.previousCounter ∧
        x.2.env.timestamp ≠ y.2.env.timestamp ∧
        x.2.env.senderDeviceId ≠ y.2.env.senderDeviceId ∧
        (y.2.epoch = none → x.2.env.sessionId ≠ y.2.env.sessionId) := by
  refine ⟨by decide +kernel, ?_, by decide +kernel, by decide +kernel⟩
  unfold Intact
  decide +kernel

end SecureComm
