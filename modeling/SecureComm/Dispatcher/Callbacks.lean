import SecureComm.Dispatcher.Network
import SecureComm.Dispatcher.Sessions
import SecureComm.Lib.Reentry

/-!
# Callbacks of a dispatcher

Every public method locks the dispatcher's mutex but `start`, `stop` and
`send_group_message`. `on_raw_message` holds it from the lookup of a session to
its end, so also while it invokes the callback with a direct message, and does
not hold it while it invokes the callback with a group message. Callbacks are
named by `κ`, and `callbacks` says what each does with an envelope.
-/

namespace SecureComm

/-- The public methods that a callback may call, with what they draw; `start` and
`stop` with whether the transport's call returns. -/
inductive Method (κ : Type) where
  | start (ok : Bool)
  | stop (ok : Bool)
  | registerDevice (deviceId : Bytes)
  | setOnInbound (callback : κ)
  | createSessionWith (p : Peering)
  | sendMessageToDevice (remote plaintext : Bytes) (draw : Draw)
  | sendGroupMessage (groupId senderId plaintext : Bytes) (nonce : BytesN 12) (now now' : UInt64)

/-- A dispatcher with its callback, which counts once one is set, and the frames it has
handed to the transport. -/
structure Hosted (κ : Type) where
  dispatcher : Dispatcher
  callback : κ
  sent : List Bytes := []

namespace Hosted

open Dispatcher (deserializeEnvelope)

variable (S : Sodium) {κ : Type}

def exec (h : Hosted κ) : Method κ → Hosted κ × Bool
  | .start ok => (h, ok)
  | .stop ok => (h, ok)
  | .registerDevice deviceId => ({ h with dispatcher := h.dispatcher.registerDevice deviceId }, true)
  | .setOnInbound callback =>
    ({ h with dispatcher := h.dispatcher.setOnInbound, callback }, true)
  | .createSessionWith p =>
    match h.dispatcher.createSessionWith S p.remote p.rootKey p.dhPrivateKey with
    | (dispatcher, .ok _) => ({ h with dispatcher }, true)
    | (dispatcher, .error _) => ({ h with dispatcher }, false)
  | .sendMessageToDevice remote plaintext draw =>
    match h.dispatcher.sendMessageToDevice S remote plaintext draw with
    | (dispatcher, .ok frame) => ({ h with dispatcher, sent := h.sent ++ [frame] }, true)
    | (dispatcher, .error _) => ({ h with dispatcher }, false)
  | .sendGroupMessage groupId senderId plaintext nonce now now' =>
    match h.dispatcher.sendGroupMessage S groupId senderId plaintext nonce now now' with
    | .ok (dispatcher, frame) => ({ h with dispatcher, sent := h.sent ++ [frame] }, true)
    | .error _ => (h, false)

def monitor : Monitor (Hosted κ) (Method κ) Bool where
  exec := exec S
  locks
    | .start _ | .stop _ | .sendGroupMessage .. => false
    | _ => true

variable (callbacks : κ → Envelope → Program (Method κ) Bool)

/-- `on_raw_message`, with the callback that it invokes. -/
def onRawMessage (h : Hosted κ) (bytes : Bytes) : Ending (Hosted κ) :=
  match deserializeEnvelope bytes with
  | none => .returned h
  | some env =>
    let (dispatcher, handed) := h.dispatcher.onRawMessage S bytes
    -- a direct message is handled under the mutex, a group message is not
    let held := decide (h.dispatcher.Direct env)
    match handed with
    | [] => .returned { h with dispatcher }
    | env :: _ => (callbacks h.callback env).run (monitor S) held { h with dispatcher }

/-- The direct message opens in its session and is handed to the callback, and the dispatcher
has got as far as `d'`. -/
structure HandsDirect (d d' : Dispatcher) (bytes : Bytes) (env : Envelope) : Prop where
  callback : d.onInbound = true
  opens : ∃ env₀ s r pt, deserializeEnvelope bytes = some env₀ ∧ d.Direct env₀ ∧
    d.sessions.lookup env₀.senderDeviceId = some s ∧ s.ratchet.decryptEnvelope S env₀ = (r, some pt) ∧
    d' = { d with sessions := d.sessions.insert env₀.senderDeviceId { s with ratchet := r } } ∧
    env = { env₀ with ciphertext := pt }

variable {S callbacks} {h : Hosted κ} {d d' : Dispatcher} {bytes : Bytes} {env : Envelope}

theorem HandsDirect.onRawMessage (hands : HandsDirect S d d' bytes env) :
    d.onRawMessage S bytes = (d', [env]) := by
  obtain ⟨hcallback, env₀, s, r, pt, hb, hdirect, hl, hd, rfl, rfl⟩ := hands
  unfold Dispatcher.Direct at hdirect
  simp only [Dispatcher.onRawMessage, hb, if_neg hdirect, hl, hd, hcallback, if_true]

theorem exists_handsDirect {env₀ : Envelope} (hb : deserializeEnvelope bytes = some env₀)
    (hdirect : d.Direct env₀) (hne : (d.onRawMessage S bytes).2 ≠ []) :
    ∃ d' env, HandsDirect S d d' bytes env := by
  have hng := hdirect
  unfold Dispatcher.Direct at hng
  simp only [Dispatcher.onRawMessage, hb, if_neg hng] at hne
  rcases hl : d.sessions.lookup env₀.senderDeviceId with _ | s
  · simp only [hl] at hne
    exact absurd rfl hne
  rcases hd : s.ratchet.decryptEnvelope S env₀ with ⟨r, _ | pt⟩
  · simp only [hl, hd] at hne
    exact absurd rfl hne
  rcases hcallback : d.onInbound with _ | _
  · simp only [hl, hd, hcallback, Bool.false_eq_true, if_false] at hne
    exact absurd rfl hne
  · exact ⟨_, _, hcallback, env₀, s, r, pt, hb, hdirect, hl, hd, rfl, rfl⟩

theorem onRawMessage_unhanded (hnone : (h.dispatcher.onRawMessage S bytes).2 = []) :
    (h.onRawMessage S callbacks bytes).Completes := by
  unfold onRawMessage
  split
  · trivial
  · simp only [hnone]
    trivial

theorem onRawMessage_group (hb : deserializeEnvelope bytes = some env)
    (hg : ¬ h.dispatcher.Direct env) : (h.onRawMessage S callbacks bytes).Completes := by
  simp only [onRawMessage, hb, decide_eq_false hg]
  split
  · trivial
  · exact Program.run_free_completes _ _

theorem onRawMessage_direct (hands : HandsDirect S h.dispatcher d' bytes env) :
    h.onRawMessage S callbacks bytes =
      (callbacks h.callback env).run (monitor S) true { h with dispatcher := d' } := by
  obtain ⟨env₀, -, -, -, hb, hdirect, -⟩ := hands.opens
  simp only [onRawMessage, hb, decide_eq_true hdirect, hands.onRawMessage]

/-- **A callback that calls back**: `on_raw_message` completes if and only if it hands no direct
message over or the callback, on that message, locks nothing. -/
theorem onRawMessage_completes_iff (S : Sodium)
    (callbacks : κ → Envelope → Program (Method κ) Bool) (h : Hosted κ) (bytes : Bytes) :
    (h.onRawMessage S callbacks bytes).Completes ↔
      ∀ d' env, HandsDirect S h.dispatcher d' bytes env →
        (callbacks h.callback env).LockFree (monitor S) { h with dispatcher := d' } := by
  by_cases hands : ∃ d' env, HandsDirect S h.dispatcher d' bytes env
  · obtain ⟨d', env, hands⟩ := hands
    rw [onRawMessage_direct hands, Program.run_held_completes_iff]
    refine ⟨fun hfree d'' env' hands' => ?_, fun hall => hall d' env hands⟩
    -- the code hands one message over
    cases hands.onRawMessage.symm.trans hands'.onRawMessage
    exact hfree
  · refine iff_of_true ?_ fun d' env hands' => absurd ⟨d', env, hands'⟩ hands
    rcases hb : deserializeEnvelope bytes with _ | env₀
    · simp only [onRawMessage, hb]
      trivial
    by_cases hdirect : h.dispatcher.Direct env₀
    · refine onRawMessage_unhanded ?_
      by_contra hne
      exact hands (exists_handsDirect hb hdirect hne)
    · exact onRawMessage_group hb hdirect

def sampleReply : Unit → Envelope → Program (Method Unit) Bool := fun _ env =>
  .call (.sendMessageToDevice env.senderDeviceId env.ciphertext Ratchet.sampleDraw) fun _ => .done

def sampleDevice (s : Side) : Dispatcher :=
  Dispatcher.setUp Sodium.sample {} (Network.sampleIds s) (Network.sampleCalls s)

def sampleFrame : Bytes :=
  match (sampleDevice .alice).sendMessageToDevice Sodium.sample (Network.sampleIds .bob) [1]
    Ratchet.sampleDraw with
  | (_, .ok frame) => frame
  | (_, .error _) => []

/-- **Answering a message deadlocks.** -/
theorem reply_deadlocks :
    ((sampleDevice .bob).onRawMessage Sodium.sample sampleFrame).2.map
        (fun env => (env.senderDeviceId, env.ciphertext)) = [(octets ['a'], [1])] ∧
      ¬ (onRawMessage Sodium.sample sampleReply ⟨sampleDevice .bob, (), []⟩ sampleFrame).Completes := by
  decide +kernel

end Hosted

end SecureComm
