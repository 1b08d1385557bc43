import Mathlib.Data.List.Nodup
import Mathlib.Data.List.Sort
import SecureComm.Basic

/-!
# The offline queue

The table `queued_messages` as a list of rows in the order of their ids, with
one definition for each statement. That `message_id` is unique and that ids are
handed out in increasing order and not used twice is part of the type. What the
clock shows and whether a statement succeeds (`ok`) are arguments; a statement
that fails changes nothing.
-/

namespace SecureComm

/-- What a statement reads of a text that is bound with length `-1`. -/
def cText (text : Bytes) : Bytes := text.takeWhile (· ≠ 0)

inductive Status where
  | pending
  | delivered
  | failed
  deriving DecidableEq

/-- A row of `queued_messages`. Nothing writes `error_message`. -/
structure QueuedMessage where
  id : ℕ
  messageId : Bytes
  recipientId : Bytes
  envelope : Bytes
  /-- Seconds since the epoch, as is `lastAttempt`. -/
  createdAt : Int64
  lastAttempt : Int64
  retryCount : ℕ := 0
  status : Status := .pending
  deriving DecidableEq

structure OfflineQueue where
  rows : List QueuedMessage
  next : ℕ
  nodup : (rows.map QueuedMessage.messageId).Nodup
  sorted : rows.Pairwise fun r s => r.id < s.id
  lt_next : ∀ r ∈ rows, r.id < next

namespace OfflineQueue

def empty : OfflineQueue := ⟨[], 1, List.nodup_nil, .nil, by simp⟩

/-! ## Statements -/

/-- `DELETE FROM queued_messages WHERE ...`. -/
def delete (q : OfflineQueue) (p : QueuedMessage → Bool) : OfflineQueue where
  rows := q.rows.filter fun r => !p r
  next := q.next
  nodup := q.nodup.sublist (List.filter_sublist.map _)
  sorted := q.sorted.filter _
  lt_next r hr := q.lt_next r (List.mem_filter.mp hr).1

/-- `INSERT INTO queued_messages ...` of a message id that is not there. -/
def insert (q : OfflineQueue) (messageId recipientId envelope : Bytes) (now : Int64)
    (h : ∀ r ∈ q.rows, r.messageId ≠ messageId) : OfflineQueue where
  rows := q.rows ++
    [{ id := q.next, messageId, recipientId, envelope, createdAt := now, lastAttempt := now }]
  next := q.next + 1
  nodup := by
    rw [List.map_append, List.nodup_append]
    refine ⟨q.nodup, List.nodup_singleton _, ?_⟩
    rintro a ha b hb rfl
    obtain ⟨r, hr, rfl⟩ := List.mem_map.mp ha
    exact h r hr (List.mem_singleton.mp hb)
  sorted := by
    rw [List.pairwise_append]
    refine ⟨q.sorted, List.pairwise_singleton _ _, fun r hr s hs => ?_⟩
    obtain rfl := List.mem_singleton.mp hs
    exact q.lt_next r hr
  lt_next r hr := by
    rcases List.mem_append.mp hr with hr | hr
    · have := q.lt_next r hr
      omega
    · obtain rfl := List.mem_singleton.mp hr
      exact Nat.lt_succ_self _

/-- `UPDATE queued_messages SET ... WHERE message_id = ?`, of columns that are no key. -/
def update (q : OfflineQueue) (messageId : Bytes) (f : QueuedMessage → QueuedMessage)
    (hf : ∀ r, (f r).id = r.id ∧ (f r).messageId = r.messageId) : OfflineQueue where
  rows := q.rows.map fun r => if r.messageId = messageId then f r else r
  next := q.next
  nodup := by
    rw [List.map_map]
    refine (List.map_congr_left fun r _ => ?_).symm ▸ q.nodup
    simp only [Function.comp_apply]
    split
    · exact (hf r).2
    · rfl
  sorted := by
    refine List.pairwise_map.mpr (q.sorted.imp fun {r s} hrs => ?_)
    have hid : ∀ r : QueuedMessage, (if r.messageId = messageId then f r else r).id = r.id :=
      fun r => by split; exacts [(hf r).1, rfl]
    rw [hid, hid]
    exact hrs
  lt_next r hr := by
    obtain ⟨s, hs, rfl⟩ := List.mem_map.mp hr
    split
    · rw [(hf s).1]
      exact q.lt_next s hs
    · exact q.lt_next s hs

/-! ## Methods -/

/-- `INSERT OR REPLACE`: a row with the message id is deleted first. (An envelope
without storage is bound as NULL, which the column refuses.) -/
def queueMessage (q : OfflineQueue) (messageId recipientId envelope : Bytes) (now : Int64)
    (ok : Bool) : OfflineQueue × Bool :=
  if ok then
    ((q.delete fun r => r.messageId = cText messageId).insert (cText messageId) (cText recipientId)
      envelope now fun r hr => by simpa using (List.mem_filter.mp hr).2, true)
  else (q, false)

/-- The oldest hundred pending messages; those of one second in the order of their ids. -/
def getPendingMessages (q : OfflineQueue) (ok : Bool) : List QueuedMessage :=
  if ok then
    ((q.rows.filter fun r => r.status = .pending).insertionSort
      fun r s => r.createdAt ≤ s.createdAt).take 100
  else []

def markDelivered (q : OfflineQueue) (messageId : Bytes) (ok : Bool) : OfflineQueue :=
  if ok then
    q.update (cText messageId) (fun r => { r with status := .delivered }) fun _ => ⟨rfl, rfl⟩
  else q

def markFailed (q : OfflineQueue) (messageId : Bytes) (now : Int64) (ok : Bool) : OfflineQueue :=
  if ok then
    q.update (cText messageId)
      (fun r => { r with status := .failed, lastAttempt := now, retryCount := r.retryCount + 1 })
      fun _ => ⟨rfl, rfl⟩
  else q

/-- The product is one of two `int`s. -/
def cutoff (now : Int64) (daysToKeep : Int32) : Int64 := now - (daysToKeep * 86400).toInt64

/-- The rows that a cleanup deletes. -/
def Old (cutoff : Int64) (r : QueuedMessage) : Bool :=
  r.createdAt < cutoff && (r.status = .delivered || r.status = .failed)

def cleanupOldMessages (q : OfflineQueue) (daysToKeep : Int32) (now : Int64) (ok : Bool) :
    OfflineQueue :=
  if ok then q.delete (Old (cutoff now daysToKeep)) else q

end OfflineQueue

end SecureComm
