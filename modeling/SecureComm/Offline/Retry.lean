import Mathlib.Logic.Function.Basic
import SecureComm.Offline.Retention

/-!
# The retry policy

`Retried` runs a dispatcher beside the policy that its retry loop is for: a
message whose send fails stays pending and is sent again in the next pass, until
its count is over the limit, and one that was sent is never sent again. The
statement that counts a failed send also takes the row out of the pending ones,
so the rows follow the policy exactly as long as no send fails below the limit
(`followed_iff_clear`).
-/

namespace SecureComm

open Run

/-! ## The policy -/

/-- What the policy knows of a message. -/
structure Progress where
  retryCount : ℕ := 0
  status : Status := .pending
  deriving DecidableEq

namespace Progress

/-- A pass comes to the message, and a send of it would end as `sent` says. -/
def tried (p : Progress) (sent : Bool) : Progress :=
  if p.retryCount > 10 then { retryCount := p.retryCount + 1, status := .failed }
  else if sent then { p with status := .delivered }
  else { p with retryCount := p.retryCount + 1 }

def Due (p : Progress) : Prop := p.status = .pending ∧ p.retryCount ≤ 10

instance (p : Progress) : Decidable p.Due := inferInstanceAs (Decidable (_ ∧ _))

/-- The row shows the progress; it may be failed as soon as the count is over the limit. -/
structure Shown (p : Progress) (r : QueuedMessage) : Prop where
  retryCount : r.retryCount = p.retryCount
  status : r.status = p.status ∨ p.status = .pending ∧ 10 < p.retryCount ∧ r.status = .failed

theorem tried_limit {p : Progress} (h : p.status = .failed → 10 < p.retryCount) (sent : Bool) :
    (p.tried sent).status = .failed → 10 < (p.tried sent).retryCount := by
  unfold tried
  split
  · rename_i hover
    exact fun _ => Nat.lt_succ_of_lt hover
  · split
    · nofun
    · exact fun hf => Nat.lt_succ_of_lt (h hf)

variable {p : Progress} {r : QueuedMessage}

theorem Shown.failed (h : p.Shown r) (hp : p.status = .failed → 10 < p.retryCount)
    (hr : r.status = .failed) : 10 < r.retryCount := by
  rw [h.retryCount]
  rcases h.status with hs | ⟨-, hover, -⟩
  · exact hp (hs.symm.trans hr)
  · exact hover

theorem Shown.pending (h : p.Shown r) (hr : r.status = .pending) : p.status = .pending := by
  rcases h.status with hs | ⟨hs, -, -⟩
  · exact hs.symm.trans hr
  · exact hs

theorem Shown.due (h : p.Shown r) (hp : p.Due) : r.status = .pending ∧ r.retryCount ≤ 10 := by
  refine ⟨?_, h.retryCount.trans_le hp.2⟩
  rcases h.status with hs | ⟨-, hover, -⟩
  · exact hs.trans hp.1
  · exact absurd hover (Nat.not_lt.mpr hp.2)

theorem shown_new (hcount : r.retryCount = 0) (hstatus : r.status = .pending) :
    Shown {} r := ⟨hcount, .inl hstatus⟩

end Progress

/-! ## One round of the loop -/

namespace OfflineQueue

/-- What a round for the message `m` does to a row that its statement finds. -/
def handled (m : QueuedMessage) (sent : Bool) (now : Int64) (r : QueuedMessage) : QueuedMessage :=
  if m.retryCount ≤ 10 ∧ sent then { r with status := .delivered }
  else { r with status := .failed, lastAttempt := now, retryCount := r.retryCount + 1 }

theorem handled_id (m : QueuedMessage) (sent : Bool) (now : Int64) (r : QueuedMessage) :
    (handled m sent now r).id = r.id ∧ (handled m sent now r).messageId = r.messageId := by
  unfold handled
  split
  · exact ⟨rfl, rfl⟩
  · exact ⟨rfl, rfl⟩

/-- The table after a round for the message `m`. -/
def handle (q : OfflineQueue) (m : QueuedMessage) (sent : Bool) (now : Int64) (ok : Bool) :
    OfflineQueue :=
  if ok then q.update (cText m.messageId) (handled m sent now) (handled_id m sent now) else q

theorem markFailed_eq_handle (q : OfflineQueue) {m : QueuedMessage} {sent : Bool} {now : Int64}
    (ok : Bool) (h : ¬ (m.retryCount ≤ 10 ∧ sent)) :
    q.markFailed m.messageId now ok = q.handle m sent now ok := by
  unfold markFailed handle handled
  simp only [if_neg h]

theorem markDelivered_eq_handle (q : OfflineQueue) {m : QueuedMessage} {sent : Bool} {now : Int64}
    (ok : Bool) (h : m.retryCount ≤ 10 ∧ sent) :
    q.markDelivered m.messageId ok = q.handle m sent now ok := by
  unfold markDelivered handle handled
  simp only [if_pos h]

variable {p : Progress} {m r : QueuedMessage} {sent : Bool} {now : Int64}

/-- The row of a message that is handled shows what the policy makes of it, unless a
send failed below the limit. -/
theorem shown_handled_iff (hp : p.status = .pending) (hshown : p.Shown m) :
    (p.tried sent).Shown (handled m sent now m) ↔ (m.retryCount < 10 → sent = true) := by
  have hcount := hshown.retryCount
  unfold Progress.tried handled
  rw [← hcount]
  by_cases hover : m.retryCount > 10
  · rw [if_pos hover, if_neg fun h => absurd hover (Nat.not_lt.mpr h.1)]
    exact iff_of_true ⟨rfl, .inl rfl⟩ fun hlt => absurd hlt (by omega)
  · have hle : m.retryCount ≤ 10 := Nat.not_lt.mp hover
    cases sent with
    | true =>
      rw [if_neg hover, if_pos rfl, if_pos ⟨hle, rfl⟩]
      exact iff_of_true ⟨rfl, .inl rfl⟩ fun _ => rfl
    | false =>
      rw [if_neg hover, if_neg Bool.false_ne_true, if_neg fun h => Bool.false_ne_true h.2]
      constructor
      · rintro ⟨-, hstatus⟩ hlt
        rcases hstatus with hs | ⟨-, hten, -⟩
        · cases hs.trans hp
        · exact absurd hten (by simp only; omega)
      · intro h
        have hten : m.retryCount = 10 := by
          by_contra hne
          exact Bool.false_ne_true (h (by omega))
        exact ⟨rfl, .inr ⟨hp, by simp only; omega, rfl⟩⟩

/-- A round that leaves no trace in the row is not what the policy says. -/
theorem not_shown_tried (hm : m.status = .pending) (hshown : p.Shown m) :
    ¬ (p.tried sent).Shown m := by
  have hcount := hshown.retryCount
  rintro ⟨hcount', hstatus⟩
  unfold Progress.tried at hcount' hstatus
  split at hcount'
  · exact absurd (hcount.symm.trans hcount') (Nat.ne_of_lt (Nat.lt_succ_self _))
  · split at hcount'
    · rename_i hover hsent
      rw [if_neg hover, if_pos hsent, hm] at hstatus
      rcases hstatus with hs | ⟨hs, -, -⟩ <;> cases hs
    · exact absurd (hcount.symm.trans hcount') (Nat.ne_of_lt (Nat.lt_succ_self _))

/-- No round may handle a row that no pass has come to. -/
theorem not_shown_handled_new : ¬ ({} : Progress).Shown (handled m sent now r) := by
  unfold handled
  split
  · rintro ⟨-, hs | ⟨-, hlt, -⟩⟩
    · cases hs
    · exact Nat.not_lt_zero _ hlt
  · exact fun h => Nat.succ_ne_zero _ h.retryCount

end OfflineQueue

namespace EnhancedDispatcher

variable {S : Sodium} {e : EnhancedDispatcher} {m : QueuedMessage} {rest : List QueuedMessage}

def sends (S : Sodium) (e : EnhancedDispatcher) (m : QueuedMessage) (a : Attempt) : Bool :=
  (e.dispatcher.attempt S m.recipientId m.envelope a).2

/-- **A round of the loop** handles the first message of the snapshot. -/
theorem retryNext_cons (h : e.pending = m :: rest) (a : Attempt) (now : Int64) (ok : Bool) :
    (e.retryNext S a now ok).pending = rest ∧
      (e.retryNext S a now ok).offlineQueue = e.offlineQueue.handle m (e.sends S m a) now ok := by
  unfold retryNext
  rw [h]
  by_cases hover : m.retryCount > 10
  · simp only [if_pos hover]
    exact ⟨trivial, OfflineQueue.markFailed_eq_handle _ ok fun hs => absurd hover (Nat.not_lt.mpr hs.1)⟩
  · simp only [if_neg hover]
    rcases hs : e.dispatcher.attempt S m.recipientId m.envelope a with ⟨dispatcher, _ | _⟩
    · refine ⟨rfl, OfflineQueue.markFailed_eq_handle _ ok fun h => ?_⟩
      rw [sends, hs] at h
      cases h.2
    · refine ⟨rfl, OfflineQueue.markDelivered_eq_handle _ ok ⟨Nat.not_lt.mp hover, ?_⟩⟩
      rw [sends, hs]

end EnhancedDispatcher

/-! ## The policy beside the code -/

/-- The progress of the message of each row, and the rows whose message the pass under
way has still to send. -/
structure Retried where
  system : EnhancedDispatcher
  progress : ℕ → Progress
  owed : List ℕ

namespace Retried

open EnhancedDispatcher (Event)

/-- At the start a message has come as far as its row says. -/
def start (e : EnhancedDispatcher) : Retried where
  system := e
  progress i := ((e.offlineQueue.rows.find? fun r => r.id = i).map fun r =>
    ⟨r.retryCount, r.status⟩).getD {}
  owed := []

def due (s : Retried) : List ℕ :=
  (s.system.offlineQueue.rows.filter fun r => (s.progress r.id).Due).map QueuedMessage.id

variable (S : Sodium)

def step (s : Retried) (ev : Event) : Retried where
  system := s.system.step S ev
  progress :=
    match ev, s.system.pending with
    | .retryNext a _ _, m :: _ =>
      Function.update s.progress m.id ((s.progress m.id).tried (s.system.sends S m a))
    | _, _ => s.progress
  owed :=
    match ev, s.system.pending with
    | .beginRetry _, [] => if s.system.connectionState = .offline then s.owed else s.due
    | .retryNext _ _ _, m :: _ =>
      if m.retryCount > 10 then s.owed else s.owed.filter fun i => i ≠ m.id
    | _, _ => s.owed

/-- **The retry policy is followed.** -/
structure Followed (s : Retried) : Prop where
  /-- A row is pending, delivered or failed as the policy says. -/
  shown : ∀ r ∈ s.system.offlineQueue.rows, (s.progress r.id).Shown r
  /-- Only a message over the limit has failed. -/
  failed : ∀ r ∈ s.system.offlineQueue.rows, r.status = .failed → 10 < r.retryCount
  /-- Every message that was due when the pass began is sent before the pass is over. -/
  owed : ∀ i ∈ s.owed, ∃ m ∈ s.system.pending, m.id = i ∧ m.retryCount ≤ 10
  /-- No message is sent again that was sent already or has failed. -/
  once : ∀ m ∈ s.system.pending, (s.progress m.id).status = .pending

/-- When a pass begins, at most a hundred rows are pending. -/
def Few (s : Retried) : Event → Prop
  | .beginRetry _ =>
    (s.system.offlineQueue.rows.filter fun r => r.status = .pending).length ≤ 100
  | _ => True

instance (s : Retried) : ∀ ev, Decidable (s.Few ev)
  | .beginRetry _ => inferInstanceAs (Decidable (_ ≤ _))
  | .registerDevice _ | .createSessionWith .. | .send .. | .receive _ | .setOfflineMode _
  | .checkConnectivity _ | .retryNext .. | .cleanup .. => .isTrue trivial

/-- A pass that finds a message to send reads it. A round for a message below the limit
sends it, and its statement succeeds; the statement of a round whose row was replaced does
not find the row that replaced it. -/
def Clear (s : Retried) : Event → Prop
  | .beginRetry ok =>
    s.system.connectionState ≠ .offline → s.system.pending = [] →
      ∀ r ∈ s.system.offlineQueue.rows, r.status = .pending → r.retryCount ≤ 10 → ok = true
  | .retryNext a _ ok =>
    ∀ m ∈ s.system.pending.head?, ∀ r ∈ s.system.offlineQueue.rows, r.messageId = m.messageId →
      (r.id = m.id → ok = true ∧ (r.retryCount < 10 → s.system.sends S m a)) ∧
      (r.id ≠ m.id → ok = false)
  | _ => True

/-- A dispatcher at rest, whose table holds texts and no message that failed too early. -/
structure AtRest (e : EnhancedDispatcher) : Prop where
  idle : e.pending = []
  text : ∀ r ∈ e.offlineQueue.rows, cText r.messageId = r.messageId
  failed : ∀ r ∈ e.offlineQueue.rows, r.status = .failed → 10 < r.retryCount

/-! ## What every run keeps -/

/-- A message of the snapshot has its row as it was read, or the row was replaced by one
that no pass has come to. -/
structure Inv (s : Retried) : Prop where
  text : ∀ r ∈ s.system.offlineQueue.rows, cText r.messageId = r.messageId
  distinct : s.system.pending.Pairwise fun m m' => m.id ≠ m'.id ∧ m.messageId ≠ m'.messageId
  waiting : ∀ m ∈ s.system.pending, cText m.messageId = m.messageId ∧ m.status = .pending ∧
    m.id < s.system.offlineQueue.next
  own : ∀ m ∈ s.system.pending, ∀ r ∈ s.system.offlineQueue.rows, r.id = m.id → r = m
  other : ∀ m ∈ s.system.pending, ∀ r ∈ s.system.offlineQueue.rows,
    r.messageId = m.messageId → r.id ≠ m.id → s.progress r.id = {}
  fresh : ∀ i, s.system.offlineQueue.next ≤ i → s.progress i = {}
  limit : ∀ i, (s.progress i).status = .failed → 10 < (s.progress i).retryCount

/-- Rows are deleted, and new ones are pending. -/
structure Turns (q q' : OfflineQueue) : Prop where
  next : q.next ≤ q'.next
  rows : ∀ r ∈ q'.rows, r ∈ q.rows ∨
    (r.id = q.next ∧ cText r.messageId = r.messageId ∧ r.retryCount = 0 ∧ r.status = .pending)

variable {S} {s : Retried}

theorem turns_queueMessage (q : OfflineQueue) (messageId remote pt : Bytes) (now : Int64)
    (ok : Bool) : Turns q (q.queueMessage messageId remote pt now ok).1 := by
  cases ok with
  | false => exact ⟨le_rfl, fun r hr => .inl hr⟩
  | true =>
    refine ⟨Nat.le_succ _, fun r hr => ?_⟩
    rcases OfflineQueue.mem_queueMessage.mp hr with ⟨hr, -⟩ | rfl
    · exact .inl hr
    · exact .inr ⟨rfl, List.takeWhile_idem, rfl, rfl⟩

theorem turns_cleanup (q : OfflineQueue) (daysToKeep : Int32) (now : Int64) (ok : Bool) :
    Turns q (q.cleanupOldMessages daysToKeep now ok) := by
  cases ok with
  | false => exact ⟨le_rfl, fun r hr => .inl hr⟩
  | true => exact ⟨le_rfl, fun r hr => .inl (OfflineQueue.mem_cleanup.mp hr).1⟩

/-- **What an event does**: only the start of a pass and a round of the loop do more than
to delete rows and to add pending ones. -/
theorem step_cases (s : Retried) (ev : Event) :
    (Turns s.system.offlineQueue (s.step S ev).system.offlineQueue ∧
      (s.step S ev).system.pending = s.system.pending ∧ (s.step S ev).progress = s.progress ∧
      (s.step S ev).owed = s.owed ∧ Clear S s ev) ∨
    (∃ ok, ev = .beginRetry ok ∧ s.system.connectionState ≠ .offline ∧ s.system.pending = []) ∨
    ∃ a now ok m rest, ev = .retryNext a now ok ∧ s.system.pending = m :: rest := by
  have hrefl : ∀ q : OfflineQueue, Turns q q := fun q => ⟨le_rfl, fun r hr => .inl hr⟩
  cases ev with
  | send remoteDeviceId plaintext timestamp a now ok =>
    have hq := s.system.send_queue (S := S) remoteDeviceId plaintext timestamp a now ok
    refine .inl ⟨?_, ?_, rfl, rfl, trivial⟩
    · show Turns _ (s.system.sendMessageToDevice S _ _ _ _ _ _).offlineQueue
      rw [hq]
      split
      · exact turns_queueMessage _ _ _ _ _ _
      · exact hrefl _
    · show (s.system.sendMessageToDevice S _ _ _ _ _ _).pending = _
      unfold EnhancedDispatcher.sendMessageToDevice
      rcases s.system.dispatcher.attempt S remoteDeviceId plaintext a with ⟨_, _ | _⟩ <;> rfl
  | cleanup daysToKeep now ok =>
    exact .inl ⟨turns_cleanup _ _ _ _, rfl, rfl, rfl, trivial⟩
  | beginRetry ok =>
    by_cases hidle : s.system.connectionState ≠ .offline ∧ s.system.pending = []
    · exact .inr (.inl ⟨ok, rfl, hidle⟩)
    · have hstays : s.system.beginRetry ok = s.system := if_pos (by tauto)
      refine .inl ⟨?_, congrArg _ hstays, rfl, ?_, fun hc hp => absurd ⟨hc, hp⟩ hidle⟩
      · show Turns _ (s.system.beginRetry ok).offlineQueue
        rw [hstays]
        exact hrefl _
      · rcases hp : s.system.pending with _ | ⟨m, rest⟩
        · simp only [step, hp, if_pos (not_not.mp fun hc => hidle ⟨hc, hp⟩)]
        · simp only [step, hp]
  | retryNext a now ok =>
    rcases hp : s.system.pending with _ | ⟨m, rest⟩
    · have hstays : s.system.retryNext S a now ok = s.system := by
        rw [EnhancedDispatcher.retryNext, hp]
      refine .inl ⟨?_, (congrArg _ hstays).trans hp, by simp only [step, hp], by simp only [step, hp],
        fun m hm => ?_⟩
      · show Turns _ (s.system.retryNext S a now ok).offlineQueue
        rw [hstays]
        exact hrefl _
      · rw [hp] at hm
        cases hm
    · exact .inr (.inr ⟨a, now, ok, m, rest, rfl, rfl⟩)
  | registerDevice deviceId => exact .inl ⟨hrefl _, rfl, rfl, rfl, trivial⟩
  | createSessionWith remote rootKey dhPrivateKey =>
    exact .inl ⟨hrefl _, rfl, rfl, rfl, trivial⟩
  | receive bytes => exact .inl ⟨hrefl _, rfl, rfl, rfl, trivial⟩
  | setOfflineMode offline => exact .inl ⟨hrefl _, rfl, rfl, rfl, trivial⟩
  | checkConnectivity meshHasInternet => exact .inl ⟨hrefl _, rfl, rfl, rfl, trivial⟩

/-! ## Rows that come and go -/

variable {s' : Retried}

theorem Inv.turns (h : Inv s) (hq : Turns s.system.offlineQueue s'.system.offlineQueue)
    (hpending : s'.system.pending = s.system.pending) (hprogress : s'.progress = s.progress) :
    Inv s' where
  text r hr := by
    rcases hq.rows r hr with hr | ⟨-, htext, -⟩
    · exact h.text r hr
    · exact htext
  distinct := hpending ▸ h.distinct
  waiting m hm := by
    obtain ⟨htext, hstatus, hlt⟩ := h.waiting m (hpending ▸ hm)
    exact ⟨htext, hstatus, hlt.trans_le hq.next⟩
  own m hm r hr hid := by
    rw [hpending] at hm
    rcases hq.rows r hr with hr | ⟨hnew, -⟩
    · exact h.own m hm r hr hid
    · exact absurd (hid.symm.trans hnew) (Nat.ne_of_lt (h.waiting m hm).2.2)
  other m hm r hr hmsg hid := by
    rw [hprogress]
    rcases hq.rows r hr with hr | ⟨hnew, -⟩
    · exact h.other m (hpending ▸ hm) r hr hmsg hid
    · exact h.fresh _ hnew.ge
  fresh i hi := by
    rw [hprogress]
    exact h.fresh i (hq.next.trans hi)
  limit i := hprogress ▸ h.limit i

theorem Followed.turns (h : Followed s) (hi : Inv s)
    (hq : Turns s.system.offlineQueue s'.system.offlineQueue)
    (hpending : s'.system.pending = s.system.pending) (hprogress : s'.progress = s.progress)
    (howed : s'.owed = s.owed) : Followed s' where
  shown r hr := by
    rw [hprogress]
    rcases hq.rows r hr with hr | ⟨hnew, -, hcount, hstatus⟩
    · exact h.shown r hr
    · rw [hi.fresh _ hnew.ge]
      exact Progress.shown_new hcount hstatus
  failed r hr hf := by
    rcases hq.rows r hr with hr | ⟨-, -, -, hstatus⟩
    · exact h.failed r hr hf
    · rw [hstatus] at hf
      cases hf
  owed := by
    rw [hpending, howed]
    exact h.owed
  once := by
    rw [hpending, hprogress]
    exact h.once

/-! ## The start of a pass -/

theorem mem_getPendingMessages {q : OfflineQueue} {ok : Bool} {m : QueuedMessage}
    (h : m ∈ q.getPendingMessages ok) : ok = true ∧ m ∈ q.rows ∧ m.status = .pending := by
  unfold OfflineQueue.getPendingMessages at h
  split at h
  · rename_i hok
    obtain ⟨hm, hstatus⟩ := List.mem_filter.mp ((List.mem_insertionSort _).mp (List.mem_of_mem_take h))
    exact ⟨hok, hm, of_decide_eq_true hstatus⟩
  · cases h

theorem mem_getPendingMessages_of_few {q : OfflineQueue} {m : QueuedMessage}
    (hfew : (q.rows.filter fun r => r.status = .pending).length ≤ 100) (hm : m ∈ q.rows)
    (hstatus : m.status = .pending) : m ∈ q.getPendingMessages true := by
  unfold OfflineQueue.getPendingMessages
  rw [if_pos rfl, List.take_of_length_le (by rwa [List.length_insertionSort])]
  exact (List.mem_insertionSort _).mpr (List.mem_filter.mpr ⟨hm, decide_eq_true hstatus⟩)

theorem pairwise_getPendingMessages (q : OfflineQueue) (ok : Bool) :
    (q.getPendingMessages ok).Pairwise fun m m' => m.id ≠ m'.id ∧ m.messageId ≠ m'.messageId := by
  unfold OfflineQueue.getPendingMessages
  split
  · have hrows : q.rows.Pairwise fun r r' => r.id ≠ r'.id ∧ r.messageId ≠ r'.messageId :=
      (q.sorted.imp fun {_ _} h => Nat.ne_of_lt h).and (List.pairwise_map.mp q.nodup)
    refine List.Pairwise.take ?_
    refine (List.perm_insertionSort _ _).pairwise_iff (fun h => ⟨h.1.symm, h.2.symm⟩) |>.mpr ?_
    exact hrows.filter _
  · exact .nil

section Begin

variable {ok : Bool}

theorem begin_system (ok : Bool) (hc : s.system.connectionState ≠ .offline) (hp : s.system.pending = []) :
    (s.step S (.beginRetry ok)).system =
      { s.system with pending := s.system.offlineQueue.getPendingMessages ok } :=
  if_neg (by tauto)

theorem begin_owed (ok : Bool) (hc : s.system.connectionState ≠ .offline) (hp : s.system.pending = []) :
    (s.step S (.beginRetry ok)).owed = s.due := by
  simp only [step, hp, if_neg hc]

theorem Inv.begin (h : Inv s) (hc : s.system.connectionState ≠ .offline)
    (hp : s.system.pending = []) : Inv (s.step S (.beginRetry ok)) := by
  have hsys := begin_system (S := S) ok hc hp
  have hrow : ∀ m ∈ s.system.offlineQueue.getPendingMessages ok, m ∈ s.system.offlineQueue.rows :=
    fun m hm => (mem_getPendingMessages hm).2.1
  refine ⟨?_, ?_, ?_, ?_, ?_, ?_, h.limit⟩ <;> rw [hsys]
  · exact h.text
  · exact pairwise_getPendingMessages _ _
  · exact fun m hm => ⟨h.text m (hrow m hm), (mem_getPendingMessages hm).2.2,
      s.system.offlineQueue.lt_next m (hrow m hm)⟩
  · exact fun m hm r hr hid => OfflineQueue.eq_of_id hr (hrow m hm) hid
  · intro m hm r hr hmsg hid
    exact absurd (congrArg _ (List.inj_on_of_nodup_map s.system.offlineQueue.nodup hr (hrow m hm) hmsg))
      hid
  · exact h.fresh

/-- **The start of a pass** keeps to the policy if and only if the snapshot is read
where there is a message to send. -/
theorem begin_iff (h : Followed s) (hfew : Few s (.beginRetry ok))
    (hc : s.system.connectionState ≠ .offline) (hp : s.system.pending = []) :
    Followed (s.step S (.beginRetry ok)) ↔ Clear S s (.beginRetry ok) := by
  have hsys := begin_system (S := S) ok hc hp
  have howed := begin_owed (S := S) ok hc hp
  constructor
  · intro h' _ _ r hr hstatus hle
    have hshown := h.shown r hr
    have hdue : (s.progress r.id).Due := ⟨hshown.pending hstatus, hshown.retryCount ▸ hle⟩
    obtain ⟨m, hm, -⟩ := h'.owed r.id (howed ▸ List.mem_map_of_mem
      (List.mem_filter.mpr ⟨hr, decide_eq_true hdue⟩))
    rw [hsys] at hm
    exact (mem_getPendingMessages hm).1
  · intro hclear
    refine ⟨?_, ?_, ?_, ?_⟩
    · rw [hsys]
      exact h.shown
    · rw [hsys]
      exact h.failed
    · intro i hin
      rw [howed] at hin
      obtain ⟨r, hr, rfl⟩ := List.mem_map.mp hin
      obtain ⟨hr, hdue⟩ := List.mem_filter.mp hr
      obtain ⟨hstatus, hle⟩ := (h.shown r hr).due (of_decide_eq_true hdue)
      obtain rfl := hclear hc hp r hr hstatus hle
      rw [hsys]
      exact ⟨r, mem_getPendingMessages_of_few hfew hr hstatus, rfl, hle⟩
    · rw [hsys]
      intro m hm
      obtain ⟨-, hm, hstatus⟩ := mem_getPendingMessages hm
      exact (h.shown m hm).pending hstatus

end Begin

/-! ## A round of the loop -/

section Round

variable {a : Attempt} {now : Int64} {ok : Bool} {m : QueuedMessage} {rest : List QueuedMessage}

theorem round_pending (hp : s.system.pending = m :: rest) :
    (s.step S (.retryNext a now ok)).system.pending = rest :=
  (EnhancedDispatcher.retryNext_cons hp a now ok).1

theorem round_progress (hp : s.system.pending = m :: rest) :
    (s.step S (.retryNext a now ok)).progress =
      Function.update s.progress m.id ((s.progress m.id).tried (s.system.sends S m a)) := by
  simp only [step, hp]

theorem round_progress_ne (hp : s.system.pending = m :: rest) {i : ℕ} (hne : i ≠ m.id) :
    (s.step S (.retryNext a now ok)).progress i = s.progress i := by
  rw [round_progress hp, Function.update_of_ne hne]

/-- A row after the round: it is as it was, or it had the message id and is handled. -/
theorem mem_round (hi : Inv s) (hp : s.system.pending = m :: rest) {r' : QueuedMessage} :
    r' ∈ (s.step S (.retryNext a now ok)).system.offlineQueue.rows ↔
      ∃ r ∈ s.system.offlineQueue.rows,
        r' = if ok = true ∧ r.messageId = m.messageId then
          OfflineQueue.handled m (s.system.sends S m a) now r else r := by
  have htext : cText m.messageId = m.messageId := (hi.waiting m (hp ▸ List.mem_cons_self)).1
  show r' ∈ (s.system.retryNext S a now ok).offlineQueue.rows ↔ _
  rw [(EnhancedDispatcher.retryNext_cons hp a now ok).2]
  unfold OfflineQueue.handle
  cases ok with
  | false => simp
  | true =>
    rw [if_pos rfl, htext]
    simp only [OfflineQueue.update, List.mem_map, true_and]
    exact exists_congr fun r => and_congr_right fun _ => eq_comm

theorem round_next (hp : s.system.pending = m :: rest) :
    (s.step S (.retryNext a now ok)).system.offlineQueue.next = s.system.offlineQueue.next := by
  show (s.system.retryNext S a now ok).offlineQueue.next = _
  rw [(EnhancedDispatcher.retryNext_cons hp a now ok).2]
  unfold OfflineQueue.handle
  split <;> rfl

theorem Inv.ne_of_rest (h : Inv s) (hp : s.system.pending = m :: rest) {m' r : QueuedMessage}
    (hm' : m' ∈ rest) (hr : r ∈ s.system.offlineQueue.rows) (hmsg : r.messageId = m'.messageId) :
    r.messageId ≠ m.messageId ∧ r.id ≠ m.id := by
  have hdistinct := h.distinct
  rw [hp, List.pairwise_cons] at hdistinct
  have hne : r.messageId ≠ m.messageId := hmsg ▸ (hdistinct.1 m' hm').2.symm
  exact ⟨hne, fun hid => hne (congrArg _ (h.own m (hp ▸ List.mem_cons_self) r hr hid))⟩

theorem Inv.round (h : Inv s) (hp : s.system.pending = m :: rest) :
    Inv (s.step S (.retryNext a now ok)) := by
  have hm : m ∈ s.system.pending := hp ▸ List.mem_cons_self
  have hrest : ∀ m' ∈ rest, m' ∈ s.system.pending := fun m' hm' => hp ▸ List.mem_cons_of_mem m hm'
  have hkeys : ∀ r, ∀ r' : QueuedMessage, (r' = if ok = true ∧ r.messageId = m.messageId then
      OfflineQueue.handled m (s.system.sends S m a) now r else r) →
      r'.id = r.id ∧ r'.messageId = r.messageId := by
    rintro r r' rfl
    split
    · exact OfflineQueue.handled_id m _ now r
    · exact ⟨rfl, rfl⟩
  refine ⟨?_, ?_, ?_, ?_, ?_, ?_, ?_⟩
  · intro r' hr'
    obtain ⟨r, hr, heq⟩ := (mem_round h hp).mp hr'
    rw [(hkeys r r' heq).2]
    exact h.text r hr
  · rw [round_pending hp]
    exact (List.pairwise_cons.mp (hp ▸ h.distinct)).2
  · rw [round_pending hp, round_next hp]
    exact fun m' hm' => h.waiting m' (hrest m' hm')
  · rw [round_pending hp]
    intro m' hm' r' hr' hid
    obtain ⟨r, hr, heq⟩ := (mem_round h hp).mp hr'
    obtain rfl := h.own m' (hrest m' hm') r hr ((hkeys r r' heq).1 ▸ hid)
    rwa [if_neg fun hmsg => (h.ne_of_rest hp hm' hr rfl).1 hmsg.2] at heq
  · rw [round_pending hp]
    intro m' hm' r' hr' hmsg hid
    obtain ⟨r, hr, heq⟩ := (mem_round h hp).mp hr'
    obtain ⟨hrid, hrmsg⟩ := hkeys r r' heq
    rw [hrid] at hid ⊢
    rw [hrmsg] at hmsg
    rw [round_progress_ne hp (h.ne_of_rest hp hm' hr hmsg).2]
    exact h.other m' (hrest m' hm') r hr hmsg hid
  · rw [round_next hp]
    intro i hle
    rw [round_progress_ne hp (Nat.ne_of_gt ((h.waiting m hm).2.2.trans_le hle))]
    exact h.fresh i hle
  · intro i
    rw [round_progress hp]
    by_cases hid : i = m.id
    · rw [hid, Function.update_self]
      exact Progress.tried_limit (h.limit m.id) _
    · rw [Function.update_of_ne hid]
      exact h.limit i

theorem round_progress_self (hp : s.system.pending = m :: rest) :
    (s.step S (.retryNext a now ok)).progress m.id =
      (s.progress m.id).tried (s.system.sends S m a) := by
  rw [round_progress hp, Function.update_self]

/-- A round that keeps to the policy handles the row of its message, and no other row. -/
theorem Followed.clear_of_round (h' : Followed (s.step S (.retryNext a now ok))) (hi : Inv s)
    (h : Followed s) (hp : s.system.pending = m :: rest) : Clear S s (.retryNext a now ok) := by
  have hm : m ∈ s.system.pending := hp ▸ List.mem_cons_self
  rintro _ hm' r hr hmsg
  rw [hp] at hm'
  obtain rfl := Option.some.inj hm'
  constructor
  · intro hid
    obtain rfl := hi.own m hm r hr hid
    cases ok with
    | false =>
      have hshown := h'.shown r ((mem_round hi hp).mpr ⟨r, hr, (if_neg (by simp)).symm⟩)
      rw [round_progress_self hp] at hshown
      exact absurd hshown (OfflineQueue.not_shown_tried (hi.waiting r hm).2.1 (h.shown r hr))
    | true =>
      have hshown := h'.shown _ ((mem_round hi hp).mpr ⟨r, hr, (if_pos ⟨rfl, rfl⟩).symm⟩)
      rw [(OfflineQueue.handled_id r _ now r).1, round_progress_self hp] at hshown
      exact ⟨rfl, (OfflineQueue.shown_handled_iff (h.once r hm) (h.shown r hr)).mp hshown⟩
  · intro hid
    cases ok with
    | false => rfl
    | true =>
      have hshown := h'.shown _ ((mem_round hi hp).mpr ⟨r, hr, (if_pos ⟨rfl, hmsg⟩).symm⟩)
      rw [(OfflineQueue.handled_id m _ now r).1, round_progress_ne hp hid,
        hi.other m hm r hr hmsg hid] at hshown
      exact absurd hshown OfflineQueue.not_shown_handled_new

theorem Followed.shown_of_round (h : Followed s) (hi : Inv s) (hp : s.system.pending = m :: rest)
    (hclear : Clear S s (.retryNext a now ok)) {r' : QueuedMessage}
    (hr' : r' ∈ (s.step S (.retryNext a now ok)).system.offlineQueue.rows) :
    ((s.step S (.retryNext a now ok)).progress r'.id).Shown r' := by
  have hm : m ∈ s.system.pending := hp ▸ List.mem_cons_self
  have hclear := hclear m (by rw [hp]; rfl)
  obtain ⟨r, hr, rfl⟩ := (mem_round hi hp).mp hr'
  split
  · rename_i hfound
    obtain ⟨hid, hother⟩ := hclear r hr hfound.2
    have hrid : r.id = m.id := by
      by_contra hne
      exact absurd (hother hne) (by simp [hfound.1])
    obtain rfl := hi.own m hm r hr hrid
    rw [(OfflineQueue.handled_id r _ now r).1, round_progress_self hp]
    exact (OfflineQueue.shown_handled_iff (h.once r hm) (h.shown r hr)).mpr (hid rfl).2
  · rename_i hnot
    have hrid : r.id ≠ m.id := by
      intro hrid
      obtain rfl := hi.own m hm r hr hrid
      exact hnot ⟨((hclear r hr rfl).1 rfl).1, rfl⟩
    rw [round_progress_ne hp hrid]
    exact h.shown r hr

theorem mem_round_owed (hp : s.system.pending = m :: rest) {i : ℕ}
    (hin : i ∈ (s.step S (.retryNext a now ok)).owed) :
    i ∈ s.owed ∧ (m.retryCount ≤ 10 → i ≠ m.id) := by
  simp only [step, hp] at hin
  split at hin
  · rename_i hover
    exact ⟨hin, fun hle => absurd hover (Nat.not_lt.mpr hle)⟩
  · obtain ⟨hin, hne⟩ := List.mem_filter.mp hin
    exact ⟨hin, fun _ => of_decide_eq_true hne⟩

theorem Followed.round (h : Followed s) (hi : Inv s) (hp : s.system.pending = m :: rest)
    (hclear : Clear S s (.retryNext a now ok)) : Followed (s.step S (.retryNext a now ok)) where
  shown _ hr' := h.shown_of_round hi hp hclear hr'
  failed r' hr' := (h.shown_of_round hi hp hclear hr').failed ((hi.round hp).limit r'.id)
  owed i hin := by
    obtain ⟨hin, hne⟩ := mem_round_owed hp hin
    obtain ⟨m', hm', hid, hle⟩ := h.owed i hin
    rw [hp] at hm'
    rw [round_pending hp]
    rcases List.mem_cons.mp hm' with rfl | hm'
    · exact absurd hid.symm (hne hle)
    · exact ⟨m', hm', hid, hle⟩
  once := by
    rw [round_pending hp]
    intro m' hm'
    have hne := ((List.pairwise_cons.mp (hp ▸ hi.distinct)).1 m' hm').1
    rw [round_progress_ne hp hne.symm]
    exact h.once m' (hp ▸ List.mem_cons_of_mem m hm')

/-- **A round of the loop** keeps to the policy if and only if its send goes through
or the message is at the limit, the statement succeeds, and no other row is found. -/
theorem round_iff (hi : Inv s) (h : Followed s) (hp : s.system.pending = m :: rest) :
    Followed (s.step S (.retryNext a now ok)) ↔ Clear S s (.retryNext a now ok) :=
  ⟨fun h' => h'.clear_of_round hi h hp, h.round hi hp⟩

end Round

/-! ## Runs -/

theorem Inv.step (h : Inv s) (ev : Event) : Inv (s.step S ev) := by
  rcases s.step_cases (S := S) ev with
    ⟨hq, hpending, hprogress, -⟩ | ⟨ok, rfl, hc, hp⟩ | ⟨a, now, ok, m, rest, rfl, hp⟩
  · exact h.turns hq hpending hprogress
  · exact h.begin hc hp
  · exact h.round hp

theorem followed_step_iff (ev : Event) (hfew : Few s ev) (hi : Inv s) (h : Followed s) :
    Followed (s.step S ev) ↔ Clear S s ev := by
  rcases s.step_cases (S := S) ev with
    ⟨hq, hpending, hprogress, howed, hclear⟩ | ⟨ok, rfl, hc, hp⟩ | ⟨a, now, ok, m, rest, rfl, hp⟩
  · exact iff_of_true (h.turns hi hq hpending hprogress howed) hclear
  · exact begin_iff h hfew hc hp
  · exact round_iff hi h hp

theorem start_progress {e : EnhancedDispatcher} {r : QueuedMessage}
    (hr : r ∈ e.offlineQueue.rows) : (start e).progress r.id = ⟨r.retryCount, r.status⟩ := by
  obtain ⟨r', hfind⟩ : ∃ r', (e.offlineQueue.rows.find? fun s => s.id = r.id) = some r' :=
    Option.isSome_iff_exists.mp (List.find?_isSome.mpr ⟨r, hr, decide_eq_true rfl⟩)
  have hid : r'.id = r.id := by simpa using List.find?_some hfind
  obtain rfl := OfflineQueue.eq_of_id (List.mem_of_find?_eq_some hfind) hr hid
  simp only [start, hfind]
  rfl

theorem start_progress_of_no_row {e : EnhancedDispatcher} {i : ℕ}
    (hi : ∀ r ∈ e.offlineQueue.rows, r.id ≠ i) : (start e).progress i = {} := by
  have hfind : (e.offlineQueue.rows.find? fun s => s.id = i) = none :=
    List.find?_eq_none.mpr fun r hr h => hi r hr (of_decide_eq_true h)
  simp only [start, hfind]
  rfl

theorem AtRest.inv {e : EnhancedDispatcher} (h : AtRest e) : Inv (start e) where
  text := h.text
  distinct := h.idle ▸ .nil
  waiting m hm := absurd (h.idle ▸ hm) List.not_mem_nil
  own m hm := absurd (h.idle ▸ hm) List.not_mem_nil
  other m hm := absurd (h.idle ▸ hm) List.not_mem_nil
  fresh i hi := start_progress_of_no_row fun r hr =>
    Nat.ne_of_lt ((e.offlineQueue.lt_next r hr).trans_le hi)
  limit i hi := by
    by_cases hrow : ∃ r ∈ e.offlineQueue.rows, r.id = i
    · obtain ⟨r, hr, rfl⟩ := hrow
      rw [start_progress hr] at hi ⊢
      exact h.failed r hr hi
    · rw [start_progress_of_no_row fun r hr hid => hrow ⟨r, hr, hid⟩] at hi
      cases hi

theorem AtRest.followed {e : EnhancedDispatcher} (h : AtRest e) : Followed (start e) where
  shown r hr := by
    have hprogress := start_progress (e := e) hr
    rw [hprogress]
    exact ⟨rfl, .inl rfl⟩
  failed := h.failed
  owed := nofun
  once m hm := absurd (h.idle ▸ hm) List.not_mem_nil

/-- **The retry policy is followed** in exactly the runs in which no send fails that the
policy would repeat, every statement of a pass succeeds, and none finds the row of a
message that was queued since under the same id. -/
theorem followed_iff_clear (S : Sodium) {e : EnhancedDispatcher} (he : AtRest e)
    {evs : List Event} (hfew : Along (step S) Few (start e) evs) :
    Throughout (step S) Followed (start e) evs ↔ Along (step S) (Clear S) (start e) evs :=
  hfew.throughout_iff (I := Inv) (fun _ ev _ h _ => h.step ev)
    (fun _ ev hfew hi h => followed_step_iff ev hfew hi h) he.inv he.followed

/-- A dispatcher that is online and has no session: every send throws. -/
def sample : EnhancedDispatcher := { deviceId := octets ['d'], connectionState := .online }

def sampleEvents : List Event :=
  [.send (octets ['b']) [1] 1700000000000 Watched.sampleAttempt 1700000000 true, .beginRetry true,
    .retryNext Watched.sampleAttempt 1700000030 true]

theorem sample_atRest : AtRest sample := ⟨rfl, nofun, nofun⟩

theorem followed_iff_clear_sample :
    AtRest sample ∧ Along (step Sodium.sample) Few (start sample) sampleEvents ∧
      (Throughout (step Sodium.sample) Followed (start sample) sampleEvents ↔
        Along (step Sodium.sample) (Clear Sodium.sample) (start sample) sampleEvents) := by
  have hfew : Along (step Sodium.sample) Few (start sample) sampleEvents := by decide +kernel
  exact ⟨sample_atRest, hfew, followed_iff_clear Sodium.sample sample_atRest hfew⟩

/-- **The first failed retry is the last one.** -/
theorem failed_after_one_retry :
    AtRest sample ∧ Along (step Sodium.sample) Few (start sample) sampleEvents ∧
      ((sampleEvents.foldl (step Sodium.sample) (start sample)).system.offlineQueue.rows.map
        fun r => (r.retryCount, r.status)) = [(1, .failed)] ∧
      ¬ Throughout (step Sodium.sample) Followed (start sample) sampleEvents := by
  refine ⟨sample_atRest, by decide +kernel, by decide +kernel, fun ⟨_, _, _, h⟩ => ?_⟩
  have hrow : ∃ r ∈ (sampleEvents.foldl (step Sodium.sample) (start sample)).system.offlineQueue.rows,
      r.status = .failed ∧ r.retryCount = 1 := by decide +kernel
  obtain ⟨r, hr, hstatus, hcount⟩ := hrow
  exact absurd (h.failed r hr hstatus) (by omega)

end Retried

end SecureComm
