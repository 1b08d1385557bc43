import Mathlib.Data.List.TakeWhile
import SecureComm.Dispatcher.Basic
import SecureComm.Offline.Queue

/-!
# The enhanced dispatcher

A dispatcher with an offline queue: a message whose send throws is queued, and a
thread goes through the pending messages again and again. A pass of that thread
takes one snapshot of the queue and then handles the messages of the snapshot
one after the other, while other threads go on sending.
-/

namespace SecureComm

/-- An integer as a stream writes it. -/
def decimal : Int → Bytes
  | .ofNat n => octets (Nat.toDigits 10 n)
  | .negSucc n => octets ('-' :: Nat.toDigits 10 (n + 1))

inductive ConnectionState where
  | offline
  | meshOnly
  | connecting
  | online
  deriving DecidableEq

structure EnhancedDispatcher where
  dispatcher : Dispatcher := {}
  offlineQueue : OfflineQueue := .empty
  deviceId : Bytes := []
  connectionState : ConnectionState := .offline
  offlineMode : Bool := false
  /-- The messages that the pass under way has still to handle. -/
  pending : List QueuedMessage := []

/-- What a send meets: what the ratchet draws, and whether the transport takes the frame. -/
structure Attempt where
  draw : Draw
  taken : Bool

/-- `Dispatcher::send_message_to_device`, and whether it returns. -/
def Dispatcher.attempt (S : Sodium) (d : Dispatcher) (remoteDeviceId plaintext : Bytes)
    (a : Attempt) : Dispatcher × Bool :=
  match d.sendMessageToDevice S remoteDeviceId plaintext a.draw with
  | (d, .ok _) => (d, a.taken)
  | (d, .error _) => (d, false)

namespace EnhancedDispatcher

variable (S : Sodium)

def registerDevice (e : EnhancedDispatcher) (deviceId : Bytes) : EnhancedDispatcher :=
  { e with deviceId, dispatcher := e.dispatcher.registerDevice deviceId }

def createSessionWith (e : EnhancedDispatcher) (remoteDeviceId rootKey : Bytes)
    (dhPrivateKey : BytesN 32) : EnhancedDispatcher :=
  { e with dispatcher := (e.dispatcher.createSessionWith S remoteDeviceId rootKey dhPrivateKey).1 }

/-- The id under which a message is queued; `timestamp` is in milliseconds. -/
def messageId (deviceId remoteDeviceId : Bytes) (timestamp : Int64) : Bytes :=
  deviceId ++ octets ['-'] ++ remoteDeviceId ++ octets ['-'] ++ decimal timestamp.toInt

/-- The id is made before the send; `now` and `ok` are for the statement that queues. -/
def sendMessageToDevice (e : EnhancedDispatcher) (remoteDeviceId plaintext : Bytes)
    (timestamp : Int64) (a : Attempt) (now : Int64) (ok : Bool) : EnhancedDispatcher :=
  let msgId := messageId e.deviceId remoteDeviceId timestamp
  match e.dispatcher.attempt S remoteDeviceId plaintext a with
  | (dispatcher, true) => { e with dispatcher }
  | (dispatcher, false) =>
    { e with
      dispatcher
      offlineQueue := (e.offlineQueue.queueMessage msgId remoteDeviceId plaintext now ok).1 }

def setOfflineMode (e : EnhancedDispatcher) (offline : Bool) : EnhancedDispatcher :=
  { e with offlineMode := offline }

/-- The transport is taken to be connected. -/
def checkConnectivity (e : EnhancedDispatcher) (meshHasInternet : Bool) : EnhancedDispatcher :=
  { e with
    connectionState :=
      if !e.offlineMode then .online else if meshHasInternet then .meshOnly else .offline }

/-- The start of `retry_queued_messages`: no pass is under way. -/
def beginRetry (e : EnhancedDispatcher) (ok : Bool) : EnhancedDispatcher :=
  if e.connectionState = .offline ∨ e.pending ≠ [] then e
  else { e with pending := e.offlineQueue.getPendingMessages ok }

/-- One round of the loop of `retry_queued_messages`. -/
def retryNext (e : EnhancedDispatcher) (a : Attempt) (now : Int64) (ok : Bool) :
    EnhancedDispatcher :=
  match e.pending with
  | [] => e
  | msg :: pending =>
    if msg.retryCount > 10 then
      { e with pending, offlineQueue := e.offlineQueue.markFailed msg.messageId now ok }
    else
      match e.dispatcher.attempt S msg.recipientId msg.envelope a with
      | (dispatcher, true) =>
        { e with
          pending, dispatcher, offlineQueue := e.offlineQueue.markDelivered msg.messageId ok }
      | (dispatcher, false) =>
        { e with
          pending, dispatcher, offlineQueue := e.offlineQueue.markFailed msg.messageId now ok }

inductive Event where
  | registerDevice (deviceId : Bytes)
  | createSessionWith (remoteDeviceId rootKey : Bytes) (dhPrivateKey : BytesN 32)
  | send (remoteDeviceId plaintext : Bytes) (timestamp : Int64) (a : Attempt) (now : Int64)
    (ok : Bool)
  | receive (bytes : Bytes)
  | setOfflineMode (offline : Bool)
  | checkConnectivity (meshHasInternet : Bool)
  | beginRetry (ok : Bool)
  | retryNext (a : Attempt) (now : Int64) (ok : Bool)
  | cleanup (daysToKeep : Int32) (now : Int64) (ok : Bool)

def step (e : EnhancedDispatcher) : Event → EnhancedDispatcher
  | .registerDevice deviceId => e.registerDevice deviceId
  | .createSessionWith remoteDeviceId rootKey dhPrivateKey =>
    e.createSessionWith S remoteDeviceId rootKey dhPrivateKey
  | .send remoteDeviceId plaintext timestamp a now ok =>
    e.sendMessageToDevice S remoteDeviceId plaintext timestamp a now ok
  | .receive bytes => { e with dispatcher := (e.dispatcher.onRawMessage S bytes).1 }
  | .setOfflineMode offline => e.setOfflineMode offline
  | .checkConnectivity meshHasInternet => e.checkConnectivity meshHasInternet
  | .beginRetry ok => e.beginRetry ok
  | .retryNext a now ok => e.retryNext S a now ok
  | .cleanup daysToKeep now ok =>
    { e with offlineQueue := e.offlineQueue.cleanupOldMessages daysToKeep now ok }

/-! ## Message ids -/

theorem octet_digit {c : Char} (h : c.isDigit = true) :
    48 ≤ (UInt8.ofNat c.toNat).toNat ∧ Char.ofNat (UInt8.ofNat c.toNat).toNat = c := by
  obtain ⟨hlo, hhi⟩ : 48 ≤ c.toNat ∧ c.toNat ≤ 57 := by
    simp only [Char.isDigit, Bool.and_eq_true, decide_eq_true_eq] at h
    exact ⟨UInt32.le_iff_toNat_le.mp h.1, UInt32.le_iff_toNat_le.mp h.2⟩
  rw [UInt8.toNat_ofNat_of_lt' (Nat.lt_of_le_of_lt hhi (by decide))]
  exact ⟨hlo, Char.ofNat_toNat c⟩

theorem decimal_toNat {i : Int} (h : 0 ≤ i) : decimal i = octets (Nat.toDigits 10 i.toNat) := by
  obtain ⟨n, rfl⟩ := Int.eq_ofNat_of_zero_le h
  rfl

theorem le_of_mem_decimal {i : Int} (h : 0 ≤ i) {b : UInt8} (hb : b ∈ decimal i) :
    48 ≤ b.toNat := by
  rw [decimal_toNat h] at hb
  obtain ⟨c, hc, rfl⟩ := List.mem_map.mp hb
  exact (octet_digit (Nat.isDigit_of_mem_toDigits (by decide) (by decide) hc)).1

theorem decimal_inj {i j : Int} (hi : 0 ≤ i) (hj : 0 ≤ j) (h : decimal i = decimal j) : i = j := by
  have hread : ∀ n, (octets (Nat.toDigits 10 n)).map (fun b => Char.ofNat b.toNat) =
      Nat.toDigits 10 n := fun n => by
    rw [octets, List.map_map]
    refine (List.map_congr_left fun c hc => ?_).trans (List.map_id _)
    exact (octet_digit (Nat.isDigit_of_mem_toDigits (by decide) (by decide) hc)).2
  rw [decimal_toNat hi, decimal_toNat hj] at h
  have hdigits := congrArg (List.map fun b : UInt8 => Char.ofNat b.toNat) h
  rw [hread, hread] at hdigits
  have hn := congrArg (Nat.ofDigitChars 10 · 0) hdigits
  simp only [Nat.ofDigitChars_ten_toDigits] at hn
  omega

theorem cText_of_notMem {text : Bytes} (h : 0 ∉ text) : cText text = text :=
  List.takeWhile_eq_self_iff.mpr fun b hb => by
    simp only [ne_eq, decide_eq_true_eq]
    rintro rfl
    exact h hb

theorem split_inj {a : UInt8} : ∀ {xs ys s t : Bytes}, a ∉ xs → a ∉ ys →
    xs ++ ([a] ++ s) = ys ++ ([a] ++ t) → xs = ys ∧ s = t
  | [], [], _, _, _, _, h => ⟨rfl, (List.cons.inj h).2⟩
  | [], y :: _, _, _, _, hy, h => absurd ((List.cons.inj h).1 ▸ List.mem_cons_self) hy
  | x :: _, [], _, _, hx, _, h => absurd ((List.cons.inj h).1 ▸ List.mem_cons_self) hx
  | x :: xs, y :: ys, _, _, hx, hy, h => by
    obtain ⟨rfl, htail⟩ := List.cons.inj h
    obtain ⟨rfl, hs⟩ := split_inj (fun hm => hx (List.mem_cons_of_mem x hm))
      (fun hm => hy (List.mem_cons_of_mem x hm)) htail
    exact ⟨rfl, hs⟩

/-- **What a message id says**: two messages of a device have one message id if and
only if they go to one device and fall in one millisecond. -/
theorem messageId_eq_iff {deviceId remote remote' : Bytes} {t t' : Int64} (hd : 0 ∉ deviceId)
    (hr : 0 ∉ remote) (hr' : 0 ∉ remote') (ht : 0 ≤ t.toInt) (ht' : 0 ≤ t'.toInt) :
    cText (messageId deviceId remote t) = cText (messageId deviceId remote' t') ↔
      remote = remote' ∧ t = t' := by
  have hdash : octets ['-'] = [45] := by decide
  have hdigits : ∀ {t : Int64} {b : UInt8}, 0 ≤ t.toInt → b.toNat < 48 → b ∉ decimal t.toInt :=
    fun ht hb hmem => absurd (le_of_mem_decimal ht hmem) (by omega)
  have hwhole : ∀ {r : Bytes} {t : Int64}, 0 ∉ r → 0 ≤ t.toInt →
      cText (messageId deviceId r t) = messageId deviceId r t := fun {r t} hr ht => by
    refine cText_of_notMem ?_
    simp only [messageId, hdash, List.mem_append, List.mem_singleton]
    rintro ((((h | h) | h) | h) | h)
    · exact hd h
    · cases h
    · exact hr h
    · cases h
    · exact hdigits ht (by decide) h
  rw [hwhole hr ht, hwhole hr' ht']
  refine ⟨fun h => ?_, fun ⟨h, h'⟩ => by rw [h, h']⟩
  simp only [messageId, hdash, List.append_assoc, List.append_cancel_left_eq] at h
  -- read from the end, the first dash is the one before the clock
  have hrev := congrArg List.reverse h
  simp only [List.reverse_append, List.reverse_singleton, List.append_assoc] at hrev
  obtain ⟨hclock, hremote⟩ := split_inj
    (fun hm => hdigits ht (by decide) (List.mem_reverse.mp hm))
    (fun hm => hdigits ht' (by decide) (List.mem_reverse.mp hm)) hrev
  exact ⟨List.reverse_injective hremote,
    Int64.toInt_inj.mp (decimal_inj ht ht' (List.reverse_injective hclock))⟩

end EnhancedDispatcher

end SecureComm
