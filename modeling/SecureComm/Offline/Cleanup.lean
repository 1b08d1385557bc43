import SecureComm.Offline.Queue

/-!
# The cutoff of a cleanup

`cleanup_old_messages` multiplies days and seconds as `int`s and takes the
product from a 64-bit clock. Up to 24855 days the product fits, and the cutoff
is the exact one; from there on it wraps to a smaller number, and the cutoff
moves to where rows are still to be kept (`cleanup_honours_iff`).
-/

namespace SecureComm

namespace OfflineQueue

/-- The clock in seconds; `system_clock` counts nanoseconds. -/
def seconds (sinceEpoch : Int64) : Int64 := sinceEpoch / 1000000000

/-- A message that is done with and older than the days to keep, in exact arithmetic. -/
def Expired (now : Int64) (daysToKeep : Int32) (r : QueuedMessage) : Prop :=
  (r.status = .delivered ∨ r.status = .failed) ∧
    r.createdAt.toInt < now.toInt - daysToKeep.toInt * 86400

instance (now : Int64) (daysToKeep : Int32) : DecidablePred (Expired now daysToKeep) :=
  fun _ => inferInstanceAs (Decidable (_ ∧ _))

/-- **The cleanup honours its cutoff**: it deletes exactly the expired rows, and no pending one. -/
structure Honours (q q' : OfflineQueue) (now : Int64) (daysToKeep : Int32) : Prop where
  rows : q'.rows = q.rows.filter fun r => ¬ Expired now daysToKeep r
  pending : ∀ r ∈ q.rows, r.status = .pending → r ∈ q'.rows

variable {sinceEpoch now : Int64} {daysToKeep : Int32} {q : OfflineQueue}

theorem seconds_range (sinceEpoch : Int64) :
    -9223372036 ≤ (seconds sinceEpoch).toInt ∧ (seconds sinceEpoch).toInt ≤ 9223372036 := by
  have hlo := sinceEpoch.le_toInt
  have hhi := sinceEpoch.toInt_lt
  have hdiv : (seconds sinceEpoch).toInt = sinceEpoch.toInt.tdiv 1000000000 :=
    Int64.toInt_div_of_ne_right _ _ (by decide)
  rw [hdiv]
  rcases Int.le_total 0 sinceEpoch.toInt with h | h
  · rw [Int.tdiv_eq_ediv_of_nonneg h]
    omega
  · have hneg : (-sinceEpoch.toInt).tdiv 1000000000 = -sinceEpoch.toInt.tdiv 1000000000 :=
      Int.neg_tdiv ..
    rw [Int.tdiv_eq_ediv_of_nonneg (by omega)] at hneg
    omega

theorem product_toInt (daysToKeep : Int32) :
    (daysToKeep * 86400).toInt = (daysToKeep.toInt * 86400).bmod (2 ^ 32) := Int32.toInt_mul ..

theorem cutoff_toInt (hnow : -9223372036 ≤ now.toInt ∧ now.toInt ≤ 9223372036) :
    (cutoff now daysToKeep).toInt = now.toInt - (daysToKeep.toInt * 86400).bmod (2 ^ 32) := by
  have hlo := (daysToKeep * 86400).le_toInt
  have hhi := (daysToKeep * 86400).toInt_lt
  rw [cutoff, Int64.toInt_sub, Int32.toInt_toInt64, ← product_toInt]
  exact Int.bmod_eq_of_le (by omega) (by omega)

theorem product_fits (h : 0 ≤ daysToKeep.toInt) (hfits : daysToKeep.toInt ≤ 24855) :
    (daysToKeep.toInt * 86400).bmod (2 ^ 32) = daysToKeep.toInt * 86400 :=
  Int.bmod_eq_of_le (by omega) (by omega)

/-- Where it does not fit, it comes out smaller. -/
theorem product_wraps (hwraps : 24855 < daysToKeep.toInt) :
    (daysToKeep.toInt * 86400).bmod (2 ^ 32) < daysToKeep.toInt * 86400 := by
  have hlt : (daysToKeep.toInt * 86400).bmod (2 ^ 32) < (2 ^ 32 + 1) / 2 := Int.bmod_lt (by decide)
  omega

/-- Whatever the cutoff, a pending row is not old. -/
theorem not_old_of_pending {c : Int64} {r : QueuedMessage} (h : r.status = .pending) :
    Old c r = false := by
  rw [Old, h]
  exact Bool.and_false _

/-- **The exact cutoff** deletes what has expired. -/
theorem honours_of_cutoff (q : OfflineQueue)
    (h : (cutoff now daysToKeep).toInt = now.toInt - daysToKeep.toInt * 86400) :
    Honours q (q.cleanupOldMessages daysToKeep now true) now daysToKeep where
  rows := by
    refine List.filter_congr fun r _ => ?_
    rw [Bool.eq_iff_iff]
    simp only [Old, Bool.not_eq_true', Bool.and_eq_false_imp, Bool.or_eq_false_iff,
      decide_eq_true_eq, decide_eq_false_iff_not, Expired, Int64.lt_iff_toInt_lt, h, not_and,
      not_lt]
    constructor
    · intro hkeep hdone
      by_contra hlt
      obtain ⟨hdelivered, hfailed⟩ := hkeep (by omega)
      exact hdone.elim hdelivered hfailed
    · intro hkeep hlt
      exact ⟨fun hd => absurd (hkeep (.inl hd)) (by omega),
        fun hf => absurd (hkeep (.inr hf)) (by omega)⟩
  pending r hr hp := List.mem_filter.mpr ⟨hr, by rw [not_old_of_pending hp]; rfl⟩

def delivered (createdAt : Int64) : OfflineQueue :=
  (empty.queueMessage [1] [2] [3] createdAt true).1.markDelivered [1] true

theorem delivered_rows (createdAt : Int64) : (delivered createdAt).rows =
    [{ id := 1, messageId := [1], recipientId := [2], envelope := [3], createdAt,
       lastAttempt := createdAt, status := .delivered }] := rfl

theorem Honours.expired (h : Honours q (q.cleanupOldMessages daysToKeep now true) now daysToKeep)
    {r : QueuedMessage} (hr : r ∈ q.rows) (hold : Old (cutoff now daysToKeep) r = true) :
    Expired now daysToKeep r := by
  by_contra hkeep
  have hmem : r ∈ (q.cleanupOldMessages daysToKeep now true).rows := by
    rw [h.rows]
    exact List.mem_filter.mpr ⟨hr, decide_eq_true hkeep⟩
  have hyoung := (List.mem_filter.mp hmem).2
  rw [hold] at hyoung
  cases hyoung

/-- **A later cutoff** deletes a row that has not expired. -/
theorem not_honours_of_wraps (hnow : -9223372036 ≤ now.toInt ∧ now.toInt ≤ 9223372036)
    (hwraps : 24855 < daysToKeep.toInt) :
    ¬ Honours (delivered (cutoff now daysToKeep - 1))
      ((delivered (cutoff now daysToKeep - 1)).cleanupOldMessages daysToKeep now true) now
      daysToKeep := by
  have hcutoff : (cutoff now daysToKeep).toInt =
      now.toInt - (daysToKeep.toInt * 86400).bmod (2 ^ 32) := cutoff_toInt hnow
  have hsmaller := product_wraps hwraps
  have hlo : -(2 ^ 32 / 2) ≤ (daysToKeep.toInt * 86400).bmod (2 ^ 32) := Int.le_bmod (by decide)
  have hhi : (daysToKeep.toInt * 86400).bmod (2 ^ 32) < (2 ^ 32 + 1) / 2 := Int.bmod_lt (by decide)
  have hcreated : (cutoff now daysToKeep - 1).toInt = (cutoff now daysToKeep).toInt - 1 := by
    rw [Int64.toInt_sub]
    exact Int.bmod_eq_of_le (by show _ ≤ _ - 1; omega) (by show _ - 1 < _; omega)
  have hold : cutoff now daysToKeep - 1 < cutoff now daysToKeep := by
    rw [Int64.lt_iff_toInt_lt]
    omega
  intro h
  obtain ⟨-, hexpired⟩ := h.expired (delivered_rows _ ▸ List.mem_singleton_self _)
    (by simp only [Old, decide_eq_true hold, decide_true, Bool.true_or, Bool.and_self])
  simp only [hcreated] at hexpired
  omega

/-- **The cleanup honours its cutoff**, whatever the queue, if and only if the days
to keep are 24855 at most: the seconds of so many days fit into an `int`. -/
theorem cleanup_honours_iff (sinceEpoch : Int64) (daysToKeep : Int32) (h : 0 ≤ daysToKeep.toInt) :
    (∀ q : OfflineQueue, Honours q (q.cleanupOldMessages daysToKeep (seconds sinceEpoch) true)
      (seconds sinceEpoch) daysToKeep) ↔ daysToKeep.toInt ≤ 24855 := by
  have hnow := seconds_range sinceEpoch
  constructor
  · intro hall
    by_contra hwraps
    exact not_honours_of_wraps hnow (by omega) (hall _)
  · intro hfits q
    refine honours_of_cutoff q ?_
    rw [cutoff_toInt hnow, product_fits h hfits]

theorem cleanup_honours_iff_default :
    (∀ q : OfflineQueue, Honours q (q.cleanupOldMessages 30 (seconds 1700000000000000000) true)
      (seconds 1700000000000000000) 30) ↔ (30 : Int32).toInt ≤ 24855 :=
  cleanup_honours_iff 1700000000000000000 30 (by decide)

/-- **A message delivered this second** is deleted by a cleanup that is to keep 24856 days. -/
theorem delivered_today_deleted :
    ((delivered (seconds 1700000000000000000)).cleanupOldMessages 24856
      (seconds 1700000000000000000) true).rows = [] ∧
    ¬ Honours (delivered (seconds 1700000000000000000))
      ((delivered (seconds 1700000000000000000)).cleanupOldMessages 24856
        (seconds 1700000000000000000) true) (seconds 1700000000000000000) 24856 := by
  refine ⟨by decide +kernel, fun h => ?_⟩
  obtain ⟨-, hexpired⟩ := h.expired (delivered_rows _ ▸ List.mem_singleton_self _)
    (by decide +kernel)
  exact absurd hexpired (by decide +kernel)

end OfflineQueue

end SecureComm
