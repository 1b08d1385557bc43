import SecureComm.Mesh.Basic
import SecureComm.Offline.Retry

/-!
# The books of the offline queue

`Ledger` runs an enhanced dispatcher with its counters, and keeps books of what
became of its messages. The counters are `int`s that wrap. Between the sends the
statistics agree with the books in every run, as numbers as long as these fit
(`stats_exact`), and the loop of the retry thread hands a message to the
transport once, and once more for every statement of its that failed
(`run_once`).
-/

namespace SecureComm

open Run

namespace OfflineQueue

structure Stats where
  pendingCount : Int32
  deliveredCount : Int32
  failedCount : Int32
  totalRetries : Int32
  deriving DecidableEq

/-- `sqlite3_column_int` gives the low half of a column. -/
def getStats (q : OfflineQueue) (ok : Bool) : Stats :=
  if ok then
    { pendingCount := .ofNat (q.rows.countP fun r => r.status = .pending)
      deliveredCount := .ofNat (q.rows.countP fun r => r.status = .delivered)
      failedCount := .ofNat (q.rows.countP fun r => r.status = .failed)
      totalRetries := .ofNat (q.rows.map QueuedMessage.retryCount).sum }
  else ⟨0, 0, 0, 0⟩

end OfflineQueue

structure EnhancedStats where
  messagesSent : Int32
  messagesReceived : Int32
  messagesQueued : Int32
  messagesDeliveredViaMesh : Int32
  queueStats : OfflineQueue.Stats
  deriving DecidableEq

/-- An enhanced dispatcher with its counters, which are atomic and wrap. The books: how many
sends went through at once and how many threw, how many messages were refused by the table,
replaced in it and cleaned up, and the rows of the rounds of the retry loop whose message was
handed to the transport (`taken`), or whose statement failed (`missed`). -/
structure Ledger where
  system : EnhancedDispatcher := {}
  messagesSent : Int32 := 0
  messagesReceived : Int32 := 0
  messagesQueued : Int32 := 0
  /-- Nothing counts here. -/
  messagesDeliveredViaMesh : Int32 := 0
  direct : ℕ := 0
  queued : ℕ := 0
  refused : ℕ := 0
  replaced : ℕ := 0
  cleaned : ℕ := 0
  taken : List ℕ := []
  missed : List ℕ := []

namespace Ledger

open EnhancedDispatcher (Throws)

inductive Event where
  | call (ev : EnhancedDispatcher.Event)
  /-- The mesh hands over a packet. -/
  | meshPacket (packet : MeshPacket)

variable (S : Sodium)

/-- `process_mesh_packet`, of which the queue sees nothing. -/
def processMeshPacket (l : Ledger) (packet : MeshPacket) : Ledger :=
  if packet.recipientDeviceId = l.system.deviceId ∨ packet.recipientDeviceId = broadcastId then
    { l with messagesReceived := l.messagesReceived + 1 }
  else l

def replacing (l : Ledger) (remoteDeviceId : Bytes) (timestamp : Int64) : ℕ :=
  l.system.offlineQueue.rows.countP fun r =>
    r.messageId = cText (EnhancedDispatcher.messageId l.system.deviceId remoteDeviceId timestamp)

/-- A send that throws queues its message. Both counters are taken to be raised at once. -/
def send (l : Ledger) (remoteDeviceId plaintext : Bytes) (timestamp : Int64) (a : Attempt)
    (ok : Bool) : Ledger :=
  if Throws S l.system remoteDeviceId plaintext a then
    { l with
      messagesSent := l.messagesSent + 1
      messagesQueued := l.messagesQueued + 1
      queued := l.queued + 1
      refused := l.refused + if ok then 0 else 1
      replaced := l.replaced + if ok then l.replacing remoteDeviceId timestamp else 0 }
  else { l with messagesSent := l.messagesSent + 1, direct := l.direct + 1 }

def round (l : Ledger) (m : QueuedMessage) (a : Attempt) (ok : Bool) : Ledger :=
  { l with
    taken := if m.retryCount ≤ 10 ∧ l.system.sends S m a then m.id :: l.taken else l.taken
    missed := if ok then l.missed else m.id :: l.missed }

def record (l : Ledger) (ev : EnhancedDispatcher.Event) : Ledger :=
  match ev, l.system.pending with
  | .send remoteDeviceId plaintext timestamp a _ ok, _ =>
    l.send S remoteDeviceId plaintext timestamp a ok
  | .retryNext a _ ok, m :: _ => l.round S m a ok
  | .cleanup daysToKeep now ok, _ =>
    { l with
      cleaned := l.cleaned + if ok then
        l.system.offlineQueue.rows.countP (OfflineQueue.Old (OfflineQueue.cutoff now daysToKeep))
      else 0 }
  | _, _ => l

def step (l : Ledger) : Event → Ledger
  | .call ev => { l.record S ev with system := l.system.step S ev }
  | .meshPacket packet => l.processMeshPacket packet

def getStats (l : Ledger) (ok : Bool) : EnhancedStats where
  messagesSent := l.messagesSent
  messagesReceived := l.messagesReceived
  messagesQueued := l.messagesQueued
  messagesDeliveredViaMesh := l.messagesDeliveredViaMesh
  queueStats := l.system.offlineQueue.getStats ok

/-! ## Rows -/

end Ledger

/-- The row has been tried once if its message failed, and never otherwise. -/
def QueuedMessage.Tried (r : QueuedMessage) : Prop :=
  r.retryCount = if r.status = .failed then 1 else 0

/-- What the program makes of a table that it started empty: a message that waits for its round
has only pending rows under its message id. -/
structure EnhancedDispatcher.Orderly (e : EnhancedDispatcher) : Prop where
  text : ∀ r ∈ e.offlineQueue.rows, cText r.messageId = r.messageId
  tried : ∀ r ∈ e.offlineQueue.rows, r.Tried
  distinct : e.pending.Pairwise fun m m' => m.id ≠ m'.id ∧ m.messageId ≠ m'.messageId
  waiting : ∀ m ∈ e.pending, cText m.messageId = m.messageId ∧ m.retryCount = 0 ∧
    m.id < e.offlineQueue.next
  untried : ∀ m ∈ e.pending, ∀ r ∈ e.offlineQueue.rows, r.messageId = m.messageId →
    r.status = .pending
  own : ∀ m ∈ e.pending, ∀ r ∈ e.offlineQueue.rows, r.id = m.id → r.messageId = m.messageId

namespace OfflineQueue

variable {q : OfflineQueue} {m r : QueuedMessage} {sent ok : Bool} {now : Int64}

/-- A row after a round: it is as it was, or it had the message id and is handled. -/
theorem mem_handle {r' : QueuedMessage} :
    r' ∈ (q.handle m sent now ok).rows ↔ ∃ r ∈ q.rows,
      r' = if ok = true ∧ r.messageId = cText m.messageId then handled m sent now r else r := by
  unfold handle
  cases ok with
  | false => simp
  | true =>
    simp only [if_true, update, List.mem_map, true_and]
    exact exists_congr fun r => and_congr_right fun _ => eq_comm

theorem handled_tried (hr : r.Tried) (hpending : r.status = .pending) :
    (handled m sent now r).Tried ∧ (handled m sent now r).status ≠ .pending := by
  have hcount : r.retryCount = 0 := by
    rw [QueuedMessage.Tried, hpending] at hr
    exact hr
  unfold handled QueuedMessage.Tried
  split
  · exact ⟨hcount, nofun⟩
  · exact ⟨by simp only [hcount, if_true], nofun⟩

end OfflineQueue

namespace EnhancedDispatcher.Orderly

variable {S : Sodium} {e e' : EnhancedDispatcher}

theorem turns (h : e.Orderly) (hq : Retried.Turns e.offlineQueue e'.offlineQueue)
    (hpending : e'.pending = e.pending) : e'.Orderly where
  text r hr := by
    rcases hq.rows r hr with hr | ⟨-, htext, -⟩
    · exact h.text r hr
    · exact htext
  tried r hr := by
    rcases hq.rows r hr with hr | ⟨-, -, hcount, hstatus⟩
    · exact h.tried r hr
    · rw [QueuedMessage.Tried, hcount, hstatus]
      rfl
  distinct := hpending ▸ h.distinct
  waiting m hm := by
    obtain ⟨htext, hcount, hlt⟩ := h.waiting m (hpending ▸ hm)
    exact ⟨htext, hcount, hlt.trans_le hq.next⟩
  untried m hm r hr hmsg := by
    rcases hq.rows r hr with hr | ⟨-, -, -, hstatus⟩
    · exact h.untried m (hpending ▸ hm) r hr hmsg
    · exact hstatus
  own m hm r hr hid := by
    rw [hpending] at hm
    rcases hq.rows r hr with hr | ⟨hnew, -⟩
    · exact h.own m hm r hr hid
    · exact absurd (hid.symm.trans hnew) (Nat.ne_of_lt (h.waiting m hm).2.2)

theorem begin (h : e.Orderly) (ok : Bool) :
    ({ e with pending := e.offlineQueue.getPendingMessages ok } : EnhancedDispatcher).Orderly := by
  have hrow : ∀ m ∈ e.offlineQueue.getPendingMessages ok,
      m ∈ e.offlineQueue.rows ∧ m.status = .pending :=
    fun m hm => (Retried.mem_getPendingMessages hm).2
  refine ⟨h.text, h.tried, Retried.pairwise_getPendingMessages _ _, fun m hm => ?_,
    fun m hm r hr hmsg => ?_, fun m hm r hr hid => ?_⟩
  · obtain ⟨hm, hstatus⟩ := hrow m hm
    refine ⟨h.text m hm, ?_, e.offlineQueue.lt_next m hm⟩
    have htried := h.tried m hm
    rwa [QueuedMessage.Tried, hstatus] at htried
  · obtain ⟨hm, hstatus⟩ := hrow m hm
    rw [List.inj_on_of_nodup_map e.offlineQueue.nodup hr hm hmsg]
    exact hstatus
  · rw [OfflineQueue.eq_of_id hr (hrow m hm).1 hid]

/-- **A row after a round**: the message of the round is not pending any more, and other rows are
as they were. -/
theorem handle_row (h : e.Orderly) {m : QueuedMessage} (hm : m ∈ e.pending) {sent ok : Bool}
    {now : Int64} {r' : QueuedMessage} (hr' : r' ∈ (e.offlineQueue.handle m sent now ok).rows) :
    ∃ r ∈ e.offlineQueue.rows, r.Same r' ∧ r'.Tried ∧ (r.messageId ≠ m.messageId → r' = r) ∧
      (r'.status = .pending → r' = r ∧ (ok = true → r.id ≠ m.id)) := by
  obtain ⟨r, hr, rfl⟩ := OfflineQueue.mem_handle.mp hr'
  rw [(h.waiting m hm).1]
  refine ⟨r, hr, ?_⟩
  by_cases hfound : ok = true ∧ r.messageId = m.messageId
  · rw [if_pos hfound]
    obtain ⟨htried, hstatus⟩ := OfflineQueue.handled_tried (m := m)
      (h.tried r hr) (h.untried m hm r hr hfound.2)
    refine ⟨?_, htried, fun hne => absurd hfound.2 hne, fun hpending => absurd hpending hstatus⟩
    unfold OfflineQueue.handled
    split <;> exact ⟨rfl, rfl, rfl, rfl⟩
  · rw [if_neg hfound]
    exact ⟨⟨rfl, rfl, rfl, rfl⟩, h.tried r hr, fun _ => rfl, fun _ =>
      ⟨rfl, fun hok hid => hfound ⟨hok, h.own m hm r hr hid⟩⟩⟩

theorem round (h : e.Orderly) {m : QueuedMessage} {rest : List QueuedMessage}
    (hp : e.pending = m :: rest) (hpending : e'.pending = rest) {sent ok : Bool} {now : Int64}
    (hq : e'.offlineQueue = e.offlineQueue.handle m sent now ok) : e'.Orderly := by
  have hm : m ∈ e.pending := hp ▸ List.mem_cons_self
  have hrest : ∀ m' ∈ rest, m' ∈ e.pending := fun m' hm' => hp ▸ List.mem_cons_of_mem m hm'
  have hdistinct := h.distinct
  rw [hp, List.pairwise_cons] at hdistinct
  refine ⟨fun r' hr' => ?_, fun r' hr' => ?_, hpending ▸ hdistinct.2, fun m' hm' => ?_,
    fun m' hm' r' hr' hmsg' => ?_, fun m' hm' r' hr' hid' => ?_⟩
  · obtain ⟨r, hr, hsame, -⟩ := h.handle_row hm (hq ▸ hr')
    rw [hsame.messageId]
    exact h.text r hr
  · obtain ⟨-, -, -, htried, -⟩ := h.handle_row hm (hq ▸ hr')
    exact htried
  · have hnext : e'.offlineQueue.next = e.offlineQueue.next := by
      rw [hq, OfflineQueue.handle]
      split <;> rfl
    rw [hnext]
    exact h.waiting m' (hrest m' (hpending ▸ hm'))
  · obtain ⟨r, hr, hsame, -, hother, -⟩ := h.handle_row hm (hq ▸ hr')
    have hm' := hpending ▸ hm'
    have hmsg := hsame.messageId.symm.trans hmsg'
    rw [hother fun he => (hdistinct.1 m' hm').2 (he.symm.trans hmsg)]
    exact h.untried m' (hrest m' hm') r hr hmsg
  · obtain ⟨r, hr, hsame, -⟩ := h.handle_row hm (hq ▸ hr')
    rw [hsame.messageId]
    exact h.own m' (hrest m' (hpending ▸ hm')) r hr (hsame.id.symm.trans hid')

/-- **Every event keeps the table in order.** -/
theorem step (h : e.Orderly) (ev : Event) : (e.step S ev).Orderly := by
  rcases Retried.step_cases (S := S) ⟨e, fun _ => {}, []⟩ ev with
    ⟨hq, hpending, -⟩ | ⟨ok, rfl, hc, hp⟩ | ⟨a, now, ok, m, rest, rfl, hp⟩
  · exact h.turns hq hpending
  · have hbegin : e.beginRetry ok = { e with pending := e.offlineQueue.getPendingMessages ok } :=
      if_neg (not_or.mpr ⟨hc, not_not.mpr hp⟩)
    show (e.beginRetry ok).Orderly
    rw [hbegin]
    exact h.begin ok
  · obtain ⟨hpending, hq⟩ := retryNext_cons (S := S) hp a now ok
    exact h.round hp hpending hq

end EnhancedDispatcher.Orderly

namespace OfflineQueue

theorem length_queueMessage (q : OfflineQueue) (messageId remote pt : Bytes) (now : Int64)
    (ok : Bool) :
    (q.queueMessage messageId remote pt now ok).1.rows.length + (if ok then
      q.rows.countP fun r => r.messageId = cText messageId else 0) + (if ok then 0 else 1) =
        q.rows.length + 1 := by
  cases ok with
  | false => rfl
  | true =>
    have hcount := q.rows.length_eq_countP_add_countP fun r => r.messageId = cText messageId
    have hrows : (q.queueMessage messageId remote pt now true).1.rows.length =
        (q.rows.filter fun r => !decide (r.messageId = cText messageId)).length + 1 := by
      simp [queueMessage, insert, delete]
    have hrest : (q.rows.filter fun r => !decide (r.messageId = cText messageId)).length =
        q.rows.countP fun r => ¬ (decide (r.messageId = cText messageId)) := by
      rw [List.countP_eq_length_filter]
      simp
    simp only [if_true]
    omega

theorem length_cleanup (q : OfflineQueue) (daysToKeep : Int32) (now : Int64) (ok : Bool) :
    (q.cleanupOldMessages daysToKeep now ok).rows.length + (if ok then
      q.rows.countP (Old (cutoff now daysToKeep)) else 0) = q.rows.length := by
  cases ok with
  | false => rfl
  | true =>
    have hcount := q.rows.length_eq_countP_add_countP (Old (cutoff now daysToKeep))
    have hrows : (q.cleanupOldMessages daysToKeep now true).rows.length =
        (q.rows.filter fun r => !Old (cutoff now daysToKeep) r).length := by
      simp [cleanupOldMessages, delete]
    have hrest : (q.rows.filter fun r => !Old (cutoff now daysToKeep) r).length =
        q.rows.countP fun r => ¬ Old (cutoff now daysToKeep) r := by
      rw [List.countP_eq_length_filter]
      simp
    simp only [if_true]
    omega

theorem length_handle (q : OfflineQueue) (m : QueuedMessage) (sent : Bool) (now : Int64)
    (ok : Bool) : (q.handle m sent now ok).rows.length = q.rows.length := by
  unfold handle
  split
  · exact List.length_map _
  · rfl

/-- The statuses count every row once, and the retries are the rows that failed. -/
theorem counts_of_tried : ∀ {rows : List QueuedMessage}, (∀ r ∈ rows, r.Tried) →
    (rows.countP fun r => r.status = .pending) + (rows.countP fun r => r.status = .delivered) +
      (rows.countP fun r => r.status = .failed) = rows.length ∧
    (rows.map QueuedMessage.retryCount).sum = rows.countP fun r => r.status = .failed
  | [], _ => ⟨rfl, rfl⟩
  | r :: rows, h => by
    obtain ⟨hlen, hsum⟩ := counts_of_tried fun r hr => h r (List.mem_cons_of_mem _ hr)
    have hr : r.retryCount = if r.status = .failed then 1 else 0 := h r List.mem_cons_self
    simp only [List.countP_cons, List.map_cons, List.sum_cons, List.length_cons, hr, hsum]
    cases r.status <;> simp <;> omega

end OfflineQueue

namespace Ledger

open EnhancedDispatcher (Throws)

variable {S : Sodium} {l : Ledger} {base : ℕ}

/-! ## The counters -/

/-- The books balance; `base` rows were there at the start. -/
structure Balanced (base : ℕ) (l : Ledger) : Prop where
  sent : l.messagesSent = .ofNat (l.direct + l.queued)
  queued : l.messagesQueued = .ofNat l.queued
  rows : base + l.queued =
    l.system.offlineQueue.rows.length + l.replaced + l.cleaned + l.refused
  viaMesh : l.messagesDeliveredViaMesh = 0

/-- What does not touch the books or the number of rows. -/
theorem Balanced.same (h : Balanced base l) {l' : Ledger} (hsent : l'.messagesSent = l.messagesSent)
    (hqueued : l'.messagesQueued = l.messagesQueued)
    (hmesh : l'.messagesDeliveredViaMesh = l.messagesDeliveredViaMesh)
    (hdirect : l'.direct = l.direct) (hbook : l'.queued = l.queued)
    (hgone : l'.replaced + l'.cleaned + l'.refused = l.replaced + l.cleaned + l.refused)
    (hlen : l'.system.offlineQueue.rows.length = l.system.offlineQueue.rows.length) :
    Balanced base l' where
  sent := by rw [hsent, hdirect, hbook, h.sent]
  queued := by rw [hqueued, hbook, h.queued]
  rows := by have := h.rows; omega
  viaMesh := hmesh.trans h.viaMesh

theorem Balanced.send (h : Balanced base l) (remote pt : Bytes) (timestamp : Int64) (a : Attempt)
    (now : Int64) (ok : Bool) :
    Balanced base (l.step S (.call (.send remote pt timestamp a now ok))) := by
  have hqueue := l.system.send_queue (S := S) remote pt timestamp a now ok
  have hlen := l.system.offlineQueue.length_queueMessage
    (EnhancedDispatcher.messageId l.system.deviceId remote timestamp) remote pt now ok
  have hrows := h.rows
  unfold Ledger.step record Ledger.send replacing
  by_cases ht : Throws S l.system remote pt a
  · rw [if_pos ht] at hqueue
    simp only [if_pos ht]
    refine ⟨?_, ?_, ?_, h.viaMesh⟩
    · rw [h.sent, ← Nat.add_assoc]
      exact (Int32.ofNat_add _ 1).symm
    · rw [h.queued]
      exact (Int32.ofNat_add _ 1).symm
    · show _ = (l.system.sendMessageToDevice S remote pt timestamp a now ok).offlineQueue.rows.length
        + _ + _ + _
      rw [hqueue]
      simp only
      omega
  · rw [if_neg ht] at hqueue
    simp only [if_neg ht]
    refine ⟨?_, h.queued, ?_, h.viaMesh⟩
    · rw [h.sent, Nat.add_right_comm]
      exact (Int32.ofNat_add _ 1).symm
    · show _ = (l.system.sendMessageToDevice S remote pt timestamp a now ok).offlineQueue.rows.length
        + _ + _ + _
      rw [hqueue]
      exact hrows

theorem Balanced.retryNext (h : Balanced base l) (a : Attempt) (now : Int64) (ok : Bool) :
    Balanced base (l.step S (.call (.retryNext a now ok))) := by
  rcases hp : l.system.pending with _ | ⟨m, rest⟩
  · have hl : l.record S (.retryNext a now ok) = l := by simp only [record, hp]
    rw [Ledger.step, hl]
    refine h.same rfl rfl rfl rfl rfl rfl ?_
    show (l.system.retryNext S a now ok).offlineQueue.rows.length = _
    rw [EnhancedDispatcher.retryNext, hp]
  · simp only [Ledger.step, record, hp]
    refine h.same rfl rfl rfl rfl rfl rfl ?_
    show (l.system.retryNext S a now ok).offlineQueue.rows.length = _
    rw [(EnhancedDispatcher.retryNext_cons hp a now ok).2, OfflineQueue.length_handle]

theorem Balanced.cleanup (h : Balanced base l) (daysToKeep : Int32) (now : Int64) (ok : Bool) :
    Balanced base (l.step S (.call (.cleanup daysToKeep now ok))) := by
  have hlen := l.system.offlineQueue.length_cleanup daysToKeep now ok
  have hrows := h.rows
  refine ⟨h.sent, h.queued, ?_, h.viaMesh⟩
  show base + l.queued = (l.system.offlineQueue.cleanupOldMessages daysToKeep now ok).rows.length +
    l.replaced + (l.cleaned + _) + l.refused
  omega

theorem Balanced.step (h : Balanced base l) (ev : Event) : Balanced base (l.step S ev) := by
  cases ev with
  | meshPacket packet =>
    show Balanced base (l.processMeshPacket packet)
    unfold processMeshPacket
    split
    · exact h.same rfl rfl rfl rfl rfl rfl rfl
    · exact h
  | call ev =>
    cases ev with
    | send remote pt timestamp a now ok => exact h.send remote pt timestamp a now ok
    | cleanup daysToKeep now ok => exact h.cleanup daysToKeep now ok
    | retryNext a now ok => exact h.retryNext a now ok
    | beginRetry ok =>
      refine h.same rfl rfl rfl rfl rfl rfl ?_
      show (l.system.beginRetry ok).offlineQueue.rows.length = _
      unfold EnhancedDispatcher.beginRetry
      split <;> rfl
    | registerDevice | createSessionWith | receive | setOfflineMode | checkConnectivity =>
      exact h.same rfl rfl rfl rfl rfl rfl rfl

/-! ## Rounds -/

/-- A message is handed over no more often than its statements fail, and once more when its row
is pending no longer. -/
structure Once (l : Ledger) : Prop where
  all : ∀ i, l.taken.count i ≤ 1 + l.missed.count i
  pending : ∀ r ∈ l.system.offlineQueue.rows, r.status = .pending →
    l.taken.count r.id ≤ l.missed.count r.id
  waiting : ∀ m ∈ l.system.pending, l.taken.count m.id ≤ l.missed.count m.id
  fresh : ∀ i, l.system.offlineQueue.next ≤ i → l.taken.count i = 0

theorem record_marks (l : Ledger) (ev : EnhancedDispatcher.Event)
    (hev : ∀ a now ok m rest, ev = .retryNext a now ok → l.system.pending ≠ m :: rest) :
    (l.record S ev).taken = l.taken ∧ (l.record S ev).missed = l.missed := by
  cases ev with
  | send remote pt timestamp a now ok =>
    show (l.send S remote pt timestamp a ok).taken = _ ∧ (l.send S remote pt timestamp a ok).missed = _
    unfold send
    split <;> exact ⟨rfl, rfl⟩
  | retryNext a now ok =>
    rcases hp : l.system.pending with _ | ⟨m, rest⟩
    · simp only [record, hp, and_self]
    · exact absurd hp (hev a now ok m rest rfl)
  | registerDevice | createSessionWith | receive | setOfflineMode | checkConnectivity | beginRetry
  | cleanup => exact ⟨rfl, rfl⟩

theorem Once.turns (h : Once l) {l' : Ledger}
    (hq : Retried.Turns l.system.offlineQueue l'.system.offlineQueue)
    (hpending : ∀ m ∈ l'.system.pending, m ∈ l.system.pending ∨
      m ∈ l.system.offlineQueue.rows ∧ m.status = .pending)
    (htaken : l'.taken = l.taken) (hmissed : l'.missed = l.missed) : Once l' := by
  refine ⟨fun i => ?_, fun r hr hstatus => ?_, fun m hm => ?_, fun i hi => ?_⟩ <;>
    rw [htaken] <;> try rw [hmissed]
  · exact h.all i
  · rcases hq.rows r hr with hr | ⟨hnew, -⟩
    · exact h.pending r hr hstatus
    · rw [h.fresh r.id hnew.ge]
      exact Nat.zero_le _
  · rcases hpending m hm with hm | ⟨hm, hstatus⟩
    · exact h.waiting m hm
    · exact h.pending m hm hstatus
  · exact h.fresh i (hq.next.trans hi)

theorem round_count_ne (l : Ledger) {m : QueuedMessage} (a : Attempt) (ok : Bool) {i : ℕ}
    (hi : i ≠ m.id) : (l.round S m a ok).taken.count i = l.taken.count i ∧
      (l.round S m a ok).missed.count i = l.missed.count i := by
  unfold Ledger.round
  constructor
  · simp only
    split
    · exact List.count_cons_of_ne hi.symm
    · rfl
  · cases ok with
    | true => rfl
    | false => exact List.count_cons_of_ne hi.symm

theorem round_taken_le (l : Ledger) (m : QueuedMessage) (a : Attempt) (ok : Bool) :
    (l.round S m a ok).taken.count m.id ≤ 1 + l.taken.count m.id := by
  unfold Ledger.round
  simp only
  split
  · rw [List.count_cons_self]
    omega
  · omega

theorem round_missed (l : Ledger) (m : QueuedMessage) (a : Attempt) (ok : Bool) :
    (l.round S m a ok).missed.count m.id = l.missed.count m.id + if ok then 0 else 1 := by
  unfold Ledger.round
  cases ok with
  | true => rfl
  | false => exact List.count_cons_self

theorem Once.round (h : Once l) (ho : l.system.Orderly) {m : QueuedMessage}
    {rest : List QueuedMessage} (hp : l.system.pending = m :: rest) (a : Attempt) (now : Int64)
    (ok : Bool) : Once (l.step S (.call (.retryNext a now ok))) := by
  obtain ⟨hpending, hqueue⟩ := EnhancedDispatcher.retryNext_cons (S := S) hp a now ok
  have hm : m ∈ l.system.pending := hp ▸ List.mem_cons_self
  have hdistinct := ho.distinct
  rw [hp, List.pairwise_cons] at hdistinct
  have hone := l.round_taken_le (S := S) m a ok
  have hmissed := l.round_missed (S := S) m a ok
  have hwaiting := h.waiting m hm
  have hstep : l.step S (.call (.retryNext a now ok)) =
      { l.round S m a ok with system := l.system.retryNext S a now ok } := by
    simp only [Ledger.step, record, hp]
    rfl
  rw [hstep]
  refine ⟨fun i => ?_, fun r' hr' hstatus => ?_, fun m' hm' => ?_, fun i hi => ?_⟩
  · show (l.round S m a ok).taken.count i ≤ 1 + (l.round S m a ok).missed.count i
    by_cases hi : i = m.id
    · rw [hi]
      omega
    · obtain ⟨htaken, hmissed⟩ := l.round_count_ne (S := S) a ok hi
      rw [htaken, hmissed]
      exact h.all i
  · show (l.round S m a ok).taken.count r'.id ≤ (l.round S m a ok).missed.count r'.id
    have hr' : r' ∈ (l.system.retryNext S a now ok).offlineQueue.rows := hr'
    rw [hqueue] at hr'
    obtain ⟨r, hr, -, -, -, hback⟩ := ho.handle_row hm hr'
    obtain ⟨rfl, hid⟩ := hback hstatus
    by_cases hi : r'.id = m.id
    · have hok : (if ok then 0 else 1) = 1 := if_neg fun hok => hid hok hi
      rw [hi]
      omega
    · obtain ⟨htaken, hmissed⟩ := l.round_count_ne (S := S) a ok hi
      rw [htaken, hmissed]
      exact h.pending r' hr hstatus
  · show (l.round S m a ok).taken.count m'.id ≤ (l.round S m a ok).missed.count m'.id
    have hm' : m' ∈ rest := hpending ▸ hm'
    obtain ⟨htaken, hmissed⟩ := l.round_count_ne (S := S) a ok (hdistinct.1 m' hm').1.symm
    rw [htaken, hmissed]
    exact h.waiting m' (hp ▸ List.mem_cons_of_mem m hm')
  · show (l.round S m a ok).taken.count i = 0
    have hnext : (l.system.retryNext S a now ok).offlineQueue.next = l.system.offlineQueue.next := by
      rw [hqueue, OfflineQueue.handle]
      split <;> rfl
    have hi : l.system.offlineQueue.next ≤ i := hnext ▸ hi
    have hlt := (ho.waiting m hm).2.2
    rw [(l.round_count_ne (S := S) a ok (by omega)).1]
    exact h.fresh i hi

theorem Once.step (h : Once l) (ho : l.system.Orderly) (ev : Event) : Once (l.step S ev) := by
  cases ev with
  | meshPacket packet =>
    show Once (l.processMeshPacket packet)
    unfold processMeshPacket
    split
    · exact ⟨h.all, h.pending, h.waiting, h.fresh⟩
    · exact h
  | call ev =>
    by_cases hround : ∃ a now ok m rest, ev = .retryNext a now ok ∧ l.system.pending = m :: rest
    · obtain ⟨a, now, ok, m, rest, rfl, hp⟩ := hround
      exact h.round ho hp a now ok
    · obtain ⟨htaken, hmissed⟩ := record_marks (S := S) l ev fun a now ok m rest he hp =>
        hround ⟨a, now, ok, m, rest, he, hp⟩
      rcases Retried.step_cases (S := S) ⟨l.system, fun _ => {}, []⟩ ev with
        ⟨hq, hpending, -⟩ | ⟨ok, rfl, hc, hp⟩ | hr
      · exact h.turns hq (fun m hm => .inl (hpending ▸ hm)) htaken hmissed
      · have hbegin : l.system.beginRetry ok =
            { l.system with pending := l.system.offlineQueue.getPendingMessages ok } :=
          if_neg (not_or.mpr ⟨hc, not_not.mpr hp⟩)
        refine h.turns ?_ (fun m hm => ?_) htaken hmissed
        · show Retried.Turns _ (l.system.beginRetry ok).offlineQueue
          rw [hbegin]
          exact ⟨le_rfl, fun r hr => .inl hr⟩
        · have hm : m ∈ (l.system.beginRetry ok).pending := hm
          rw [hbegin] at hm
          exact .inr (Retried.mem_getPendingMessages hm).2
      · exact absurd hr hround

/-! ## Runs -/

def start (e : EnhancedDispatcher) : Ledger := { system := e }

/-- The statistics agree with the books, modulo the width of an `int`; `base` rows were there at
the start. -/
structure Exact (base : ℕ) (l : Ledger) : Prop where
  sent : (l.getStats true).messagesSent = .ofNat l.direct + (l.getStats true).messagesQueued
  queued : .ofNat base + (l.getStats true).messagesQueued =
    (l.getStats true).queueStats.pendingCount + (l.getStats true).queueStats.deliveredCount +
      (l.getStats true).queueStats.failedCount + .ofNat (l.replaced + l.cleaned + l.refused)
  retries : (l.getStats true).queueStats.totalRetries = (l.getStats true).queueStats.failedCount
  viaMesh : (l.getStats true).messagesDeliveredViaMesh = 0
  /-- No round finds a message over the limit. -/
  limit : ∀ m ∈ l.system.pending, m.retryCount ≤ 10

/-- They agree with the books as numbers. -/
structure Plain (base : ℕ) (l : Ledger) : Prop where
  sent : (l.getStats true).messagesSent.toInt =
    l.direct + (l.getStats true).messagesQueued.toInt
  queued : base + (l.getStats true).messagesQueued.toInt =
    (l.getStats true).queueStats.pendingCount.toInt +
      (l.getStats true).queueStats.deliveredCount.toInt +
      (l.getStats true).queueStats.failedCount.toInt + l.replaced + l.cleaned + l.refused
  all : (l.getStats true).messagesQueued.toInt = l.queued

/-- A dispatcher as the program starts it, over a table that the program has left. -/
structure Resting (e : EnhancedDispatcher) : Prop where
  idle : e.pending = []
  text : ∀ r ∈ e.offlineQueue.rows, cText r.messageId = r.messageId
  tried : ∀ r ∈ e.offlineQueue.rows, r.Tried

theorem Resting.orderly {e : EnhancedDispatcher} (h : Resting e) : e.Orderly := by
  obtain ⟨hidle, htext, htried⟩ := h
  refine ⟨htext, htried, ?_, ?_, ?_, ?_⟩ <;> rw [hidle]
  · exact .nil
  all_goals exact fun m hm => absurd hm List.not_mem_nil

theorem step_orderly (h : l.system.Orderly) (ev : Event) : (l.step S ev).system.Orderly := by
  cases ev with
  | call ev => exact h.step ev
  | meshPacket packet =>
    show (l.processMeshPacket packet).system.Orderly
    unfold processMeshPacket
    split <;> exact h

theorem run_orderly {e : EnhancedDispatcher} (he : Resting e) (evs : List Event) :
    (evs.foldl (Ledger.step S) (start e)).system.Orderly :=
  Run.invariant (I := fun l : Ledger => l.system.Orderly) (fun _ ev h => step_orderly h ev) evs
    he.orderly

theorem Balanced.exact (h : Balanced base l) (ho : l.system.Orderly) : Exact base l := by
  obtain ⟨hlen, hsum⟩ := OfflineQueue.counts_of_tried ho.tried
  refine ⟨?_, ?_, congrArg Int32.ofNat hsum, h.viaMesh, fun m hm => ?_⟩
  · exact h.sent.trans (by rw [Int32.ofNat_add, ← h.queued]; rfl)
  · show Int32.ofNat base + l.messagesQueued = Int32.ofNat _ + Int32.ofNat _ + Int32.ofNat _ + _
    rw [h.queued, ← Int32.ofNat_add, ← Int32.ofNat_add, ← Int32.ofNat_add, ← Int32.ofNat_add,
      h.rows, hlen, Nat.add_assoc, Nat.add_assoc, ← Nat.add_assoc l.replaced]
  · rw [(ho.waiting m hm).2.1]
    exact Nat.zero_le _

theorem Balanced.plain (h : Balanced base l) (ho : l.system.Orderly)
    (hfew : base + l.direct + l.queued < 2 ^ 31) : Plain base l := by
  obtain ⟨hlen, -⟩ := OfflineQueue.counts_of_tried ho.tried
  have hrows := h.rows
  have hnum : ∀ {n : ℕ}, n ≤ base + l.direct + l.queued → (Int32.ofNat n).toInt = n := fun hn =>
    Int32.toInt_ofNat_of_lt (hn.trans_lt hfew)
  have hsent : (l.getStats true).messagesSent.toInt = (l.direct + l.queued : ℕ) := by
    rw [getStats, h.sent, hnum (by omega)]
  have hqueued : (l.getStats true).messagesQueued.toInt = l.queued := by
    rw [getStats, h.queued, hnum (by omega)]
  refine ⟨by rw [hsent, hqueued]; omega, ?_, hqueued⟩
  rw [hqueued]
  show _ = (Int32.ofNat _).toInt + (Int32.ofNat _).toInt + (Int32.ofNat _).toInt + _ + _ + _
  rw [hnum (by omega), hnum (by omega), hnum (by omega)]
  omega

/-- **The statistics are exact** in every run: what was sent and not at once is in a row, or was
refused, replaced or cleaned up; a row that has failed was tried once, so the limit on retries is
never reached. The counters wrap, so this is so modulo `2 ^ 32`, and of the numbers themselves as
long as fewer than `2 ^ 31` messages were sent or in the table at the start. -/
theorem stats_exact {e : EnhancedDispatcher} (he : Resting e) (evs : List Event) :
    let l := evs.foldl (Ledger.step S) (start e)
    Exact e.offlineQueue.rows.length l ∧
      (e.offlineQueue.rows.length + l.direct + l.queued < 2 ^ 31 →
        Plain e.offlineQueue.rows.length l) := by
  have ho := run_orderly (S := S) he evs
  have hb : Balanced e.offlineQueue.rows.length (evs.foldl (Ledger.step S) (start e)) :=
    Run.invariant (I := Balanced e.offlineQueue.rows.length) (fun _ ev h => h.step ev) evs
      ⟨rfl, rfl, rfl, rfl⟩
  exact ⟨hb.exact ho, hb.plain ho⟩

/-- **At most once**: in every run a queued message is handed to the transport once, and once more
for every statement of its rounds that failed. -/
theorem run_once {e : EnhancedDispatcher} (he : Resting e) (evs : List Event) (i : ℕ) :
    (evs.foldl (Ledger.step S) (start e)).taken.count i ≤
      1 + (evs.foldl (Ledger.step S) (start e)).missed.count i := by
  have h := Run.invariant (I := fun l : Ledger => l.system.Orderly ∧ Once l)
    (fun _ ev h => ⟨step_orderly h.1 ev, h.2.step (S := S) h.1 ev⟩) evs (s := start e)
    ⟨he.orderly, fun i => Nat.zero_le _, fun _ _ _ => Nat.zero_le _, fun _ _ => Nat.zero_le _,
      fun _ _ => rfl⟩
  exact h.2.all i

/-- Without a connection a message is queued. A pass sends it and cannot say so in the table, and
the next pass sends it again. -/
def sampleEvents : List Event :=
  [.call (.registerDevice (octets ['d'])),
    .call (.createSessionWith (octets ['b']) (Sodium.Sample.block 7).val (Sodium.Sample.block 1)),
    .call (.checkConnectivity false),
    .call (.send (octets ['b']) [1] 1700000000000 { Watched.sampleAttempt with taken := false }
      1700000000 true),
    .call (.beginRetry true),
    .call (.retryNext Watched.sampleAttempt 1700000030 false),
    .call (.beginRetry true),
    .call (.retryNext Watched.sampleAttempt 1700000060 true)]

theorem resting_empty : Resting {} := ⟨rfl, nofun, nofun⟩

theorem stats_exact_sample :
    (sampleEvents.foldl (Ledger.step Sodium.sample) (start {})).getStats true =
        ⟨1, 0, 1, 0, ⟨0, 1, 0, 0⟩⟩ ∧
      Exact 0 (sampleEvents.foldl (Ledger.step Sodium.sample) (start {})) ∧
      Plain 0 (sampleEvents.foldl (Ledger.step Sodium.sample) (start {})) := by
  obtain ⟨hexact, hplain⟩ := stats_exact (S := Sodium.sample) resting_empty sampleEvents
  exact ⟨by decide +kernel, hexact, hplain (by decide +kernel)⟩

theorem run_once_sample :
    (sampleEvents.foldl (Ledger.step Sodium.sample) (start {})).taken.count 1 = 2 ∧
      (sampleEvents.foldl (Ledger.step Sodium.sample) (start {})).taken.count 1 ≤
        1 + (sampleEvents.foldl (Ledger.step Sodium.sample) (start {})).missed.count 1 :=
  ⟨by decide +kernel, run_once resting_empty sampleEvents 1⟩

end Ledger

end SecureComm
