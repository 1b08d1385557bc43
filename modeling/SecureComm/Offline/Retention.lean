import SecureComm.Lib.Run
import SecureComm.Offline.Dispatcher
import SecureComm.Ratchet.Spec

/-!
# What the queue keeps

`Watched` follows a dispatcher with the messages it owes: those that its queue
held at the start and those whose send has thrown since, each with the row that
is its own, until a cleanup deletes that row. Nothing but `queueMessage` can take
a row from its message, and it does so exactly where the row of another message
has the message id of the new one (`kept_iff_fresh`).
-/

namespace SecureComm

open Run

/-! ## Statements and rows -/

/-- The two rows are of one message. -/
structure QueuedMessage.Same (r s : QueuedMessage) : Prop where
  id : s.id = r.id
  messageId : s.messageId = r.messageId
  recipientId : s.recipientId = r.recipientId
  envelope : s.envelope = r.envelope

namespace OfflineQueue

variable {q : OfflineQueue}

theorem eq_of_id {r s : QueuedMessage} (hr : r ∈ q.rows) (hs : s ∈ q.rows) (h : r.id = s.id) :
    r = s := by
  have hnodup : (q.rows.map QueuedMessage.id).Nodup :=
    List.pairwise_map.mpr (q.sorted.imp fun {a b} hab => Nat.ne_of_lt hab)
  exact List.inj_on_of_nodup_map hnodup hr hs h

/-- The rows go on as rows of the same messages, and no other row is there. -/
structure Retains (q q' : OfflineQueue) : Prop where
  keeps : ∀ r ∈ q.rows, ∃ s ∈ q'.rows, QueuedMessage.Same r s
  only : ∀ s ∈ q'.rows, ∃ r ∈ q.rows, QueuedMessage.Same r s

theorem Retains.refl (q : OfflineQueue) : Retains q q :=
  ⟨fun r hr => ⟨r, hr, rfl, rfl, rfl, rfl⟩, fun r hr => ⟨r, hr, rfl, rfl, rfl, rfl⟩⟩

theorem retains_update (messageId : Bytes) {f : QueuedMessage → QueuedMessage}
    (hf : ∀ r, (f r).id = r.id ∧ (f r).messageId = r.messageId)
    (hsame : ∀ r, QueuedMessage.Same r (f r)) : Retains q (q.update messageId f hf) := by
  have hrow : ∀ r, QueuedMessage.Same r (if r.messageId = messageId then f r else r) := fun r => by
    split
    · exact hsame r
    · exact ⟨rfl, rfl, rfl, rfl⟩
  refine ⟨fun r hr => ⟨_, List.mem_map_of_mem hr, hrow r⟩, fun s hs => ?_⟩
  obtain ⟨r, hr, rfl⟩ := List.mem_map.mp hs
  exact ⟨r, hr, hrow r⟩

theorem retains_markDelivered (messageId : Bytes) (ok : Bool) :
    Retains q (q.markDelivered messageId ok) := by
  unfold markDelivered
  split
  · exact retains_update _ _ fun _ => ⟨rfl, rfl, rfl, rfl⟩
  · exact .refl q

theorem retains_markFailed (messageId : Bytes) (now : Int64) (ok : Bool) :
    Retains q (q.markFailed messageId now ok) := by
  unfold markFailed
  split
  · exact retains_update _ _ fun _ => ⟨rfl, rfl, rfl, rfl⟩
  · exact .refl q

theorem mem_queueMessage {messageId recipientId envelope : Bytes} {now : Int64}
    {r : QueuedMessage} :
    r ∈ (q.queueMessage messageId recipientId envelope now true).1.rows ↔
      (r ∈ q.rows ∧ r.messageId ≠ cText messageId) ∨
      r = { id := q.next, messageId := cText messageId, recipientId := cText recipientId, envelope,
            createdAt := now, lastAttempt := now } := by
  unfold queueMessage insert delete
  simp [List.mem_append, List.mem_filter]

theorem mem_cleanup {daysToKeep : Int32} {now : Int64} {r : QueuedMessage} :
    r ∈ (q.cleanupOldMessages daysToKeep now true).rows ↔
      r ∈ q.rows ∧ Old (cutoff now daysToKeep) r = false := by
  unfold cleanupOldMessages delete
  simp [List.mem_filter]

end OfflineQueue

/-! ## What an event does to the queue -/

namespace EnhancedDispatcher

variable {S : Sodium}

def Throws (S : Sodium) (e : EnhancedDispatcher) (remoteDeviceId plaintext : Bytes) (a : Attempt) :
    Prop :=
  (e.dispatcher.attempt S remoteDeviceId plaintext a).2 = false

instance (e : EnhancedDispatcher) (remoteDeviceId plaintext : Bytes) (a : Attempt) :
    Decidable (Throws S e remoteDeviceId plaintext a) :=
  inferInstanceAs (Decidable (_ = false))

theorem send_queue (e : EnhancedDispatcher) (remoteDeviceId plaintext : Bytes) (timestamp : Int64)
    (a : Attempt) (now : Int64) (ok : Bool) :
    (e.sendMessageToDevice S remoteDeviceId plaintext timestamp a now ok).offlineQueue =
      if Throws S e remoteDeviceId plaintext a then
        (e.offlineQueue.queueMessage (messageId e.deviceId remoteDeviceId timestamp) remoteDeviceId
          plaintext now ok).1
      else e.offlineQueue := by
  rcases h : e.dispatcher.attempt S remoteDeviceId plaintext a with ⟨dispatcher, _ | _⟩
  · have ht : Throws S e remoteDeviceId plaintext a := congrArg Prod.snd h
    rw [if_pos ht]
    simp only [sendMessageToDevice, h]
  · rw [if_neg fun ht => by rw [Throws, h] at ht; cases ht]
    simp only [sendMessageToDevice, h]

theorem retryNext_retains (e : EnhancedDispatcher) (a : Attempt) (now : Int64) (ok : Bool) :
    e.offlineQueue.Retains (e.retryNext S a now ok).offlineQueue := by
  unfold retryNext
  split
  · exact .refl _
  · rename_i msg pending _
    split
    · exact OfflineQueue.retains_markFailed _ now ok
    · rcases e.dispatcher.attempt S msg.recipientId msg.envelope a with ⟨dispatcher, _ | _⟩
      · exact OfflineQueue.retains_markFailed _ now ok
      · exact OfflineQueue.retains_markDelivered _ ok

end EnhancedDispatcher

/-! ## Messages that are owed -/

/-- A message with the row that is its own. -/
structure Owed where
  row : ℕ
  recipientId : Bytes
  envelope : Bytes
  deriving DecidableEq

def QueuedMessage.owed (r : QueuedMessage) : Owed := ⟨r.id, r.recipientId, r.envelope⟩

structure Watched where
  system : EnhancedDispatcher
  owed : List Owed

namespace Watched

open EnhancedDispatcher (Event Throws)

variable (S : Sodium)

def start (e : EnhancedDispatcher) : Watched := ⟨e, e.offlineQueue.rows.map QueuedMessage.owed⟩

def step (w : Watched) (ev : Event) : Watched where
  system := w.system.step S ev
  owed :=
    match ev with
    | .send remoteDeviceId plaintext _ a _ _ =>
      if Throws S w.system remoteDeviceId plaintext a then
        w.owed ++ [⟨w.system.offlineQueue.next, cText remoteDeviceId, plaintext⟩]
      else w.owed
    | .cleanup daysToKeep now ok =>
      if ok then
        w.owed.filter fun o => w.system.offlineQueue.rows.all fun r =>
          r.id ≠ o.row || !OfflineQueue.Old (OfflineQueue.cutoff now daysToKeep) r
      else w.owed
    | _ => w.owed

/-- **Every message that is owed has a row of its own**, with its recipient and its
plaintext. -/
structure Kept (w : Watched) : Prop where
  own : (w.owed.map Owed.row).Nodup
  row : ∀ o ∈ w.owed, ∃ r ∈ w.system.offlineQueue.rows, r.owed = o

/-- Every row belongs to a message that is owed. -/
def Covered (w : Watched) : Prop :=
  ∀ r ∈ w.system.offlineQueue.rows, ∃ o ∈ w.owed, o.row = r.id

/-- When a send throws, the message is inserted, and no row has its message id. -/
def Fresh (S : Sodium) (w : Watched) : Event → Prop
  | .send remoteDeviceId plaintext timestamp a _ ok =>
    Throws S w.system remoteDeviceId plaintext a → ok = true ∧
      ∀ r ∈ w.system.offlineQueue.rows, r.messageId ≠
        cText (EnhancedDispatcher.messageId w.system.deviceId remoteDeviceId timestamp)
  | _ => True

variable {S}

theorem start_kept (e : EnhancedDispatcher) : Kept (start e) where
  own := by
    rw [start, List.map_map]
    exact List.pairwise_map.mpr (e.offlineQueue.sorted.imp fun {a b} hab => Nat.ne_of_lt hab)
  row o ho := List.mem_map.mp ho

theorem start_covered (e : EnhancedDispatcher) : Covered (start e) :=
  fun r hr => ⟨r.owed, List.mem_map_of_mem hr, rfl⟩

/-! ## One event -/

/-- **What an event does to the queue**: only a send that throws and a cleanup take
rows away or add them. -/
theorem step_cases (w : Watched) (ev : Event) :
    (w.system.offlineQueue.Retains (w.step S ev).system.offlineQueue ∧
      (w.step S ev).owed = w.owed ∧ Fresh S w ev) ∨
    (∃ remoteDeviceId plaintext timestamp a now ok,
      ev = .send remoteDeviceId plaintext timestamp a now ok ∧
      Throws S w.system remoteDeviceId plaintext a ∧
      (w.step S ev).system.offlineQueue = (w.system.offlineQueue.queueMessage
        (EnhancedDispatcher.messageId w.system.deviceId remoteDeviceId timestamp) remoteDeviceId
        plaintext now ok).1 ∧
      (w.step S ev).owed =
        w.owed ++ [⟨w.system.offlineQueue.next, cText remoteDeviceId, plaintext⟩]) ∨
    ∃ daysToKeep now, ev = .cleanup daysToKeep now true := by
  cases ev with
  | send remoteDeviceId plaintext timestamp a now ok =>
    have hq := w.system.send_queue (S := S) remoteDeviceId plaintext timestamp a now ok
    by_cases ht : Throws S w.system remoteDeviceId plaintext a
    · refine .inr (.inl ⟨_, _, _, _, _, _, rfl, ht, hq.trans (if_pos ht), if_pos ht⟩)
    · rw [if_neg ht] at hq
      refine .inl ⟨?_, if_neg ht, fun h => absurd h ht⟩
      show w.system.offlineQueue.Retains (w.system.sendMessageToDevice S _ _ _ _ _ _).offlineQueue
      rw [hq]
      exact .refl _
  | cleanup daysToKeep now ok =>
    cases ok with
    | true => exact .inr (.inr ⟨_, _, rfl⟩)
    | false => exact .inl ⟨.refl _, rfl, trivial⟩
  | retryNext a now ok => exact .inl ⟨EnhancedDispatcher.retryNext_retains _ a now ok, rfl, trivial⟩
  | beginRetry ok =>
    refine .inl ⟨?_, rfl, trivial⟩
    simp only [step, EnhancedDispatcher.step, EnhancedDispatcher.beginRetry]
    split
    · exact .refl _
    · exact .refl _
  | registerDevice deviceId => exact .inl ⟨.refl _, rfl, trivial⟩
  | createSessionWith remoteDeviceId rootKey dhPrivateKey => exact .inl ⟨.refl _, rfl, trivial⟩
  | receive bytes => exact .inl ⟨.refl _, rfl, trivial⟩
  | setOfflineMode offline => exact .inl ⟨.refl _, rfl, trivial⟩
  | checkConnectivity meshHasInternet => exact .inl ⟨.refl _, rfl, trivial⟩

variable {w w' : Watched}

theorem Kept.of_retains (h : Kept w) (howed : w'.owed = w.owed)
    (hr : w.system.offlineQueue.Retains w'.system.offlineQueue) : Kept w' where
  own := howed ▸ h.own
  row o ho := by
    obtain ⟨r, hrow, rfl⟩ := h.row o (howed ▸ ho)
    obtain ⟨s, hs, hsame⟩ := hr.keeps r hrow
    exact ⟨s, hs, by rw [QueuedMessage.owed, hsame.id, hsame.recipientId, hsame.envelope]; rfl⟩

theorem Covered.of_retains (h : Covered w) (howed : w'.owed = w.owed)
    (hr : w.system.offlineQueue.Retains w'.system.offlineQueue) : Covered w' := by
  intro s hs
  obtain ⟨r, hrow, hsame⟩ := hr.only s hs
  obtain ⟨o, ho, hid⟩ := h r hrow
  exact ⟨o, howed.symm ▸ ho, hid.trans hsame.id.symm⟩

theorem Kept.lt_next (h : Kept w) {o : Owed} (ho : o ∈ w.owed) :
    o.row < w.system.offlineQueue.next := by
  obtain ⟨r, hr, rfl⟩ := h.row o ho
  exact w.system.offlineQueue.lt_next r hr

/-- A cleanup lets go of what it deletes, and of nothing else. -/
theorem mem_cleanup_owed {daysToKeep : Int32} {now : Int64} {o : Owed} :
    o ∈ (w.step S (.cleanup daysToKeep now true)).owed ↔ o ∈ w.owed ∧
      ∀ r ∈ w.system.offlineQueue.rows, r.id = o.row →
        OfflineQueue.Old (OfflineQueue.cutoff now daysToKeep) r = false := by
  show o ∈ w.owed.filter _ ↔ _
  rw [List.mem_filter, List.all_eq_true]
  refine and_congr_right fun _ => forall₂_congr fun r _ => ?_
  rw [Bool.or_eq_true, decide_eq_true_iff, Bool.not_eq_true']
  exact imp_iff_not_or.symm

theorem Covered.step (h : Covered w) (ev : Event) : Covered (w.step S ev) := by
  rcases w.step_cases (S := S) ev with
    ⟨hr, howed, -⟩ | ⟨remote, pt, timestamp, a, now, ok, rfl, -, hq, howed⟩ | ⟨days, now, rfl⟩
  · exact h.of_retains howed hr
  · intro r hr
    rw [hq] at hr
    rw [howed]
    have hold : ∀ os : List Owed, ∀ r ∈ w.system.offlineQueue.rows, ∃ o ∈ w.owed ++ os,
        o.row = r.id := fun os r hr => by
      obtain ⟨o, ho, hid⟩ := h r hr
      exact ⟨o, List.mem_append_left os ho, hid⟩
    cases ok with
    | false => exact hold _ r hr
    | true =>
      rcases OfflineQueue.mem_queueMessage.mp hr with ⟨hr, -⟩ | rfl
      · exact hold _ r hr
      · exact ⟨_, List.mem_append_right _ (List.mem_singleton_self _), rfl⟩
  · intro r hr
    obtain ⟨hr, hyoung⟩ := OfflineQueue.mem_cleanup.mp hr
    obtain ⟨o, ho, hid⟩ := h r hr
    refine ⟨o, mem_cleanup_owed.mpr ⟨ho, fun s hs hsid => ?_⟩, hid⟩
    rw [OfflineQueue.eq_of_id hs hr (hsid.trans hid)]
    exact hyoung

section Send

variable {messageId remote pt : Bytes} {now : Int64} {ok : Bool}

theorem Kept.send (h : Kept w)
    (hno : ∀ r ∈ w.system.offlineQueue.rows, r.messageId ≠ cText messageId)
    (hq : w'.system.offlineQueue =
      (w.system.offlineQueue.queueMessage messageId remote pt now true).1)
    (howed : w'.owed = w.owed ++ [⟨w.system.offlineQueue.next, cText remote, pt⟩]) : Kept w' where
  own := by
    rw [howed, List.map_append, List.nodup_append]
    refine ⟨h.own, List.nodup_singleton _, ?_⟩
    rintro a ha b hb rfl
    obtain ⟨o, ho, rfl⟩ := List.mem_map.mp ha
    exact Nat.ne_of_lt (h.lt_next ho) (List.mem_singleton.mp hb)
  row o ho := by
    rw [howed] at ho
    rw [hq]
    rcases List.mem_append.mp ho with ho | ho
    · obtain ⟨r, hr, rfl⟩ := h.row o ho
      exact ⟨r, OfflineQueue.mem_queueMessage.mpr (.inl ⟨hr, hno r hr⟩), rfl⟩
    · obtain rfl := List.mem_singleton.mp ho
      exact ⟨_, OfflineQueue.mem_queueMessage.mpr (.inr rfl), rfl⟩

/-- Where the new message has a row and all others still have theirs, the
statement succeeded and no row had the message id. -/
theorem Kept.fresh_of_send (h : Kept w') (hc : Covered w)
    (hq : w'.system.offlineQueue = (w.system.offlineQueue.queueMessage messageId remote pt now ok).1)
    (howed : w'.owed = w.owed ++ [⟨w.system.offlineQueue.next, cText remote, pt⟩]) :
    ok = true ∧ ∀ r ∈ w.system.offlineQueue.rows, r.messageId ≠ cText messageId := by
  have hlt := w.system.offlineQueue.lt_next
  cases ok with
  | false =>
    obtain ⟨r, hr, hnew⟩ := h.row ⟨w.system.offlineQueue.next, cText remote, pt⟩
      (howed ▸ List.mem_append_right _ (List.mem_singleton_self _))
    rw [hq] at hr
    exact absurd (congrArg Owed.row hnew) (Nat.ne_of_lt (hlt r hr))
  | true =>
    refine ⟨rfl, fun r hr hid => ?_⟩
    obtain ⟨o, ho, hrow⟩ := hc r hr
    obtain ⟨s, hs, rfl⟩ := h.row o (howed ▸ List.mem_append_left _ ho)
    rw [hq] at hs
    rcases OfflineQueue.mem_queueMessage.mp hs with ⟨hs, hne⟩ | rfl
    · rw [OfflineQueue.eq_of_id hs hr hrow] at hne
      exact hne hid
    · exact absurd hrow (Nat.ne_of_gt (hlt r hr))

end Send

/-- **An event keeps what is owed** if and only if it is fresh. -/
theorem kept_step_iff (hc : Covered w) (h : Kept w) (ev : Event) :
    Kept (w.step S ev) ↔ Fresh S w ev := by
  rcases w.step_cases (S := S) ev with
    ⟨hr, howed, hf⟩ | ⟨remote, pt, timestamp, a, now, ok, rfl, ht, hq, howed⟩ | ⟨days, now, rfl⟩
  · exact iff_of_true (h.of_retains howed hr) hf
  · constructor
    · exact fun hk _ => hk.fresh_of_send hc hq howed
    · intro hf
      obtain ⟨rfl, hno⟩ := hf ht
      exact h.send hno hq howed
  · refine iff_of_true ⟨?_, fun o ho => ?_⟩ trivial
    · exact h.own.sublist (List.filter_sublist.map _)
    · obtain ⟨ho, hyoung⟩ := mem_cleanup_owed.mp ho
      obtain ⟨r, hr, rfl⟩ := h.row o ho
      exact ⟨r, OfflineQueue.mem_cleanup.mpr ⟨hr, hyoung r hr rfl⟩, rfl⟩

/-- **Nothing is overwritten** in exactly the runs in which every message that is
queued is inserted under a message id that no row has. -/
theorem kept_iff_fresh (S : Sodium) (e : EnhancedDispatcher) (evs : List Event) :
    Throughout (step S) Kept (start e) evs ↔ Along (step S) (Fresh S) (start e) evs :=
  throughout_iff_along (I := Covered) (fun _ ev h => h.step ev)
    (fun _ ev hc h => kept_step_iff hc h ev) (start_covered e) (start_kept e)

/-- A device without sessions: every send throws. -/
def sample : EnhancedDispatcher := { deviceId := octets ['d'] }

def sampleAttempt : Attempt := ⟨Ratchet.sampleDraw, true⟩

/-- Two messages to one device in one millisecond. -/
def sampleEvents : List Event :=
  [.send (octets ['b']) [1] 1700000000000 sampleAttempt 1700000000 true,
    .send (octets ['b']) [2] 1700000000000 sampleAttempt 1700000000 true]

/-- **The second message takes the row of the first.** -/
theorem overwritten_in_one_millisecond :
    (sampleEvents.foldl (step Sodium.sample) (start sample)).system.offlineQueue.rows.map
      QueuedMessage.envelope = [[2]] ∧
    ¬ Throughout (step Sodium.sample) Kept (start sample) sampleEvents := by
  refine ⟨by decide +kernel, fun ⟨_, _, h⟩ => ?_⟩
  obtain ⟨r, hr, hfirst⟩ := h.row ⟨1, octets ['b'], [1]⟩ (by decide +kernel)
  have hrows : ∀ r ∈ (sampleEvents.foldl (step Sodium.sample) (start sample)).system.offlineQueue.rows,
      r.envelope = [2] := by decide +kernel
  have henv := congrArg Owed.envelope hfirst
  rw [show r.owed.envelope = r.envelope from rfl, hrows r hr] at henv
  cases henv

end Watched

end SecureComm
