import SecureComm.Lib.Condition
import SecureComm.Transport.Delivery

/-!
# Wake-ups of the in-memory transport

`deliver` pushes under the mutex, so no worker sleeps beside a queue that is not
empty without a thread about to wake it. `stop` stores `running_` without the mutex:
a `notify_all` that comes between the worker's test and its sleep wakes nobody, and
`stop` waits for a worker that sleeps on.
-/

namespace SecureComm

open Function Run

/-- The worker as a thread that waits on a condition variable. -/
def Place.waiter : Place → Waiter
  | testing => .testing
  | blocked => .blocked
  | _ => .away

theorem Place.waiter_notified (p : Place) : p.notified.waiter = p.waiter.notified := by
  cases p <;> rfl

theorem Place.waiter_unlocked {p : Place} (h : p.locks = false) : p.waiter ≠ .testing := by
  cases p <;> simp [locks, waiter] at h ⊢

namespace Transports

variable {ι τ : Type}

/-- What the worker of a transport waits for: a message or, where `stop` counts too, the
end of `running_`. -/
def condition (stop : Prop) (s : Transports ι τ) (j : ι) : Condition τ where
  waiter := (s.transport j).worker.waiter
  holds := (s.transport j).queue ≠ [] ∨ stop ∧ (s.transport j).running = false
  pending := {t | s.caller t = .pushed j}

variable {stop : Prop} {s : Transports ι τ} {j : ι}

/-- **The worker** tests, goes to sleep, or does not wait. -/
theorem work_condition (stop : Prop) (t : InMemoryTransport) (P : Set τ) :
    ∃ ev, (∀ k, ev ≠ .raise k) ∧ ev ≠ .wake ∧
      Condition.Step ⟨t.worker.waiter, t.queue ≠ [] ∨ stop ∧ t.running = false, P⟩ ev
        ⟨t.work.worker.waiter, t.work.queue ≠ [] ∨ stop ∧ t.work.running = false, P⟩ := by
  cases hw : t.worker with
  | testing =>
    refine ⟨.block, by simp, by simp, ?_⟩
    simp only [InMemoryTransport.work, hw]
    exact .block rfl
  | checking =>
    by_cases hc : t.queue ≠ [] ∨ t.running = false
    · refine ⟨.idle, by simp, by simp, ?_⟩
      simp only [InMemoryTransport.work, hw, if_pos hc]
      exact .idle
    · refine ⟨.test, by simp, by simp, ?_⟩
      simp only [InMemoryTransport.work, hw, if_neg hc]
      exact .test rfl fun h => hc (h.imp_right And.right)
  | looping =>
    refine ⟨.idle, by simp, by simp, ?_⟩
    cases hr : t.running <;> simp only [InMemoryTransport.work, hw, hr] <;> exact .idle
  | draining =>
    cases hq : t.queue with
    | nil =>
      refine ⟨.idle, by simp, by simp, ?_⟩
      simp only [InMemoryTransport.work, hw, hq]
      exact .idle
    | cons msg rest =>
      refine ⟨.assign (rest ≠ [] ∨ stop ∧ t.running = false), by simp, by simp, ?_⟩
      simp only [InMemoryTransport.work, hw, hq]
      exact .assign _ rfl
  | _ =>
    refine ⟨.idle, by simp, by simp, ?_⟩
    simp only [InMemoryTransport.work, hw]
    exact .idle

/-- A thread is at the push to the transport. -/
def PushesTo (s : Transports ι τ) (j : ι) : Event ι τ → Prop
  | .push t => ∃ bytes, s.caller t = .routed j bytes
  | _ => False

/-- What an event is for the condition variable of a transport. -/
structure Seen (stop : Prop) (s s' : Transports ι τ) (j : ι) (e : Event ι τ)
    (ev : Condition.Event τ) : Prop where
  step : Condition.Step (condition stop s j) ev (condition stop s' j)
  locked : (condition stop s j).Locked ev
  raise : ∀ k, ev = .raise k → PushesTo s j e
  wake : ev = .wake → e = .wake j ∨ e = .notifyAll j

theorem Seen.idle {s' : Transports ι τ} {e : Event ι τ}
    (h : condition stop s' j = condition stop s j) : Seen stop s s' j e .idle :=
  ⟨h ▸ .idle, trivial, by simp, by simp⟩

theorem Seen.notified {s' : Transports ι τ} {e : Event ι τ}
    (he : e = .wake j ∨ e = .notifyAll j)
    (h : s'.transport j = (s.transport j).notify) (hc : s'.caller = s.caller) :
    ∃ ev, Seen stop s s' j e ev := by
  have hcond : condition stop s' j =
      { condition stop s j with waiter := (condition stop s j).waiter.notified } := by
    simp only [condition, h, hc, InMemoryTransport.notify, Place.waiter_notified]
  by_cases hw : (condition stop s j).waiter = .blocked
  · refine ⟨.wake, ?_, trivial, by simp, fun _ => he⟩
    rw [hcond, hw]
    exact .wake hw
  · refine ⟨.idle, .idle ?_⟩
    rw [hcond]
    cases hw' : (condition stop s j).waiter <;> simp [hw', Waiter.notified] at hw ⊢
    all_goals rw [← hw']

/-- Under the mutex no wake-up for a message is lost. -/
structure Attended (s : Transports ι τ) (j : ι) : Prop where
  owned : s.Owned
  seen : (condition False s j).Seen
  kept : ¬ (condition False s j).Lost

theorem start_attended (j : ι) : ({} : Transports ι τ).Attended j :=
  ⟨Accounted.start_owned, fun hw => absurd hw (by simp [condition, Place.waiter]), fun h => h.waits rfl⟩

section modify

variable [DecidableEq ι]

theorem condition_modify_ne (s : Transports ι τ) {i : ι} (hj : j ≠ i)
    (f : InMemoryTransport → InMemoryTransport) :
    condition stop (s.modify i f) j = condition stop s j := by
  simp only [condition, modify_transport_ne s f hj, modify_caller]

theorem Seen.modified {s' : Transports ι τ} {e : Event ι τ} {i : ι}
    {f : InMemoryTransport → InMemoryTransport} (ht : s'.transport = (s.modify i f).transport)
    (hc : s'.caller = s.caller)
    (h : j = i → s'.transport j = f (s.transport j) → ∃ ev, Seen stop s s' j e ev) :
    ∃ ev, Seen stop s s' j e ev := by
  by_cases hj : j = i
  · refine h hj ?_
    subst hj
    rw [ht, modify_transport_self]
  · refine ⟨.idle, .idle ?_⟩
    rw [condition, ht, hc]
    exact condition_modify_ne s hj f

end modify

variable [DecidableEq τ]

theorem pending_same {t : τ} {c : Caller ι} (ht : s.caller t ≠ .pushed j) (hc : c ≠ .pushed j) :
    {k | update s.caller t c k = .pushed j} = {k | s.caller k = .pushed j} := by
  ext k
  by_cases hk : k = t
  · subst hk
    simp [hc, ht]
  · simp [update_of_ne hk]

theorem pending_insert (t : τ) :
    {k | update s.caller t (.pushed j) k = .pushed j} = insert t {k | s.caller k = .pushed j} := by
  ext k
  by_cases hk : k = t
  · simp [hk]
  · simp [hk]

theorem pending_remove (t : τ) :
    {k | update s.caller t .idle k = .pushed j} = {k | s.caller k = .pushed j} \ {t} := by
  ext k
  by_cases hk : k = t
  · simp [hk]
  · simp [hk]

variable [DecidableEq ι]

theorem Seen.pushed {t : τ} {i : ι} {bytes : Bytes} (hc : s.caller t = .routed i bytes)
    (hl : (s.transport i).worker.locks = false) :
    ∃ ev, Seen stop s (s.step (.push t)) j (.push t) ev := by
  have hstep : s.step (.push t) =
      { s.modify i (·.push bytes) with caller := update s.caller t (.pushed i) } := by
    simp [Transports.step, hc, hl]
  rw [hstep]
  by_cases hj : j = i
  · subst hj
    refine ⟨.raise t, ?_, Place.waiter_unlocked hl, fun _ _ => ⟨bytes, hc⟩, by simp⟩
    simp only [condition, modify_transport_self, InMemoryTransport.push, pending_insert]
    convert Condition.Step.raise t using 2
    simp
  · refine ⟨.idle, .idle ?_⟩
    simp only [condition, modify_transport_ne s _ hj]
    rw [pending_same (by simp [hc]) (by simpa using Ne.symm hj)]

theorem Seen.woken {t : τ} {i : ι} (hc : s.caller t = .pushed i) :
    ∃ ev, Seen stop s (s.step (.notify t)) j (.notify t) ev := by
  have hstep : s.step (.notify t) =
      { s.modify i .notify with caller := update s.caller t .idle } := by
    simp [Transports.step, hc]
  rw [hstep]
  by_cases hj : j = i
  · subst hj
    refine ⟨.notify t, ?_, trivial, by simp, by simp⟩
    simp only [condition, modify_transport_self, InMemoryTransport.notify, pending_remove,
      Place.waiter_notified]
    exact .notify t hc
  · refine ⟨.idle, .idle ?_⟩
    simp only [condition, modify_transport_ne s _ hj]
    rw [pending_same (by simpa [hc] using Ne.symm hj) (by simp)]

theorem Seen.send (t : τ) (i : ι) (bytes : Bytes) :
    Seen stop s (s.step (.send t i bytes)) j (.send t i bytes) .idle := by
  refine .idle ?_
  rcases hc : s.caller t with _ | _ | _
  · simp only [condition, Transports.step, hc]
    rw [pending_same (by simp [hc]) (by simp)]
  · simp [Transports.step, hc]
  · simp [Transports.step, hc]

theorem Seen.push (t : τ) : ∃ ev, Seen stop s (s.step (.push t)) j (.push t) ev := by
  rcases hc : s.caller t with _ | ⟨i, bytes⟩ | _
  · exact ⟨.idle, .idle (by simp [Transports.step, hc])⟩
  · by_cases hl : (s.transport i).worker.locks = true
    · exact ⟨.idle, .idle (by simp [Transports.step, hc, hl])⟩
    · exact Seen.pushed hc (by simpa using hl)
  · exact ⟨.idle, .idle (by simp [Transports.step, hc])⟩

theorem Seen.notify (t : τ) : ∃ ev, Seen stop s (s.step (.notify t)) j (.notify t) ev := by
  rcases hc : s.caller t with _ | _ | i
  · exact ⟨.idle, .idle (by simp [Transports.step, hc])⟩
  · exact ⟨.idle, .idle (by simp [Transports.step, hc])⟩
  · exact Seen.woken hc

theorem Seen.started (hs : s.Owned) (hstop : stop → s.owner j ≠ .idle) (i : ι) :
    ∃ ev, Seen stop s (s.step (.start i)) j (.start i) ev := by
  simp only [Transports.step]
  split
  · rename_i ho
    refine Seen.modified rfl rfl fun hj ht => ⟨.idle, .idle ?_⟩
    subst hj
    have hi := hs j
    rw [ho] at hi
    rw [condition, ht, modify_caller, InMemoryTransport.start]
    split
    · rfl
    · rename_i hr
      simp [condition, hi.absent (by simpa using hr), Place.waiter, mt hstop (not_not.mpr ho)]
  · exact ⟨.idle, .idle rfl⟩

theorem Seen.stopped (hstop : stop → s.owner j ≠ .idle) (i : ι) :
    ∃ ev, Seen stop s (s.step (.stop i)) j (.stop i) ev := by
  simp only [Transports.step]
  split
  · rename_i ho
    refine Seen.modified rfl rfl fun hj ht => ⟨.idle, .idle ?_⟩
    subst hj
    rw [condition, ht]
    simp [condition, InMemoryTransport.stop, mt hstop (not_not.mpr ho)]
  · exact ⟨.idle, .idle rfl⟩

theorem Seen.joined (i : ι) : ∃ ev, Seen stop s (s.step (.join i)) j (.join i) ev := by
  simp only [Transports.step]
  split
  · rename_i ho
    refine Seen.modified rfl rfl fun hj ht => ⟨.idle, .idle ?_⟩
    subst hj
    have hw : (s.transport j).worker.waiter = .away := by
      rcases (by simpa [InMemoryTransport.joinable] using ho.2 :
        (s.transport j).worker = .absent ∨ (s.transport j).worker = .exited) with hw | hw <;>
        simp [hw, Place.waiter]
    rw [condition, ht, condition, hw]
    rfl
  · exact ⟨.idle, .idle rfl⟩

theorem Seen.worked (i : ι) : ∃ ev, Seen stop s (s.step (.work i)) j (.work i) ev :=
  Seen.modified rfl rfl fun hj ht => by
    subst hj
    obtain ⟨ev, hraise, hwake, hstep⟩ := work_condition stop (s.transport j)
      {t | s.caller t = .pushed j}
    refine ⟨ev, ?_, ?_, fun k hk => absurd hk (hraise k), fun hk => absurd hk hwake⟩
    · rw [condition, condition, ht]
      exact hstep
    · cases ev <;> first | trivial | exact absurd rfl (hraise _)

/-- **What the worker's condition variable sees of an event**: the predicate is made true
under the mutex only, as long as `stop` does not count or is under way. -/
theorem Owned.seen (stop : Prop) (hs : s.Owned) (hstop : stop → s.owner j ≠ .idle) (e : Event ι τ) :
    ∃ ev, Seen stop s (s.step e) j e ev := by
  cases e with
  | connect | disconnect | expire => exact ⟨.idle, .idle rfl⟩
  | setOnMessage i =>
    refine Seen.modified rfl rfl fun _ ht => ⟨.idle, .idle ?_⟩
    rw [condition, ht]
    rfl
  | send t i bytes => exact ⟨.idle, .send t i bytes⟩
  | push t => exact Seen.push t
  | notify t => exact Seen.notify t
  | start i => exact Seen.started hs hstop i
  | stop i => exact Seen.stopped hstop i
  | notifyAll i =>
    simp only [Transports.step]
    split
    · exact Seen.modified rfl rfl fun hj ht => Seen.notified (.inr (hj ▸ rfl)) ht rfl
    · exact ⟨.idle, .idle rfl⟩
  | join i => exact Seen.joined i
  | work i => exact Seen.worked i
  | wake i => exact Seen.modified rfl rfl fun hj ht => Seen.notified (.inl (hj ▸ rfl)) ht rfl

/-! ## Messages -/

theorem Attended.step (h : s.Attended j) (e : Event ι τ) : (s.step e).Attended j := by
  obtain ⟨ev, hev⟩ := h.owned.seen False (j := j) False.elim e
  exact ⟨h.owned.step e, hev.step.seen hev.locked h.seen, (hev.step.lost_iff h.kept).mpr h.seen.heard⟩

/-- **No message is stranded**: in whatever order the threads take their steps, a worker that
sleeps, or is about to, beside a queue that is not empty is going to be woken by a thread that
has pushed. -/
theorem not_stranded (es : List (Event ι τ)) (j : ι) :
    let s : Transports ι τ := es.foldl step {}
    (s.transport j).worker.waiter ≠ .away → (s.transport j).queue ≠ [] →
      ∃ t, s.caller t = .pushed j := by
  intro s hw hq
  have h : s.Attended j :=
    invariant (I := fun s : Transports ι τ => s.Attended j) (fun _ e h => h.step e) es
      (start_attended j)
  by_contra hno
  exact h.kept ⟨hw, .inl hq, Set.eq_empty_of_forall_notMem fun t ht => hno ⟨t, ht⟩⟩

def samplePushed : List (Event Unit Unit) :=
  [.start (), .work (), .work (), .work (), .work (), .send () () [1], .push ()]

theorem not_stranded_sample :
    ∃ t, ((samplePushed.foldl step {} : Transports Unit Unit)).caller t = .pushed () :=
  not_stranded samplePushed () (by decide) (by decide)

/-! ## Stopping -/

end Transports

/-- How many steps a worker has left once `running_` is false. -/
def InMemoryTransport.rank (t : InMemoryTransport) : ℕ :=
  match t.worker with
  | .absent | .exited => 0
  | .looping | .testing | .blocked => 1
  | .starting => 2
  | .draining => 2 + 2 * t.queue.length
  | .calling _ | .checking => 3 + 2 * t.queue.length
  | .woken => 4 + 2 * t.queue.length

namespace InMemoryTransport

variable {t : InMemoryTransport}

theorem running_work (t : InMemoryTransport) : t.work.running = t.running := by
  unfold work
  split <;> first | rfl | (split <;> rfl)

/-- Stopped, a worker that does not wait comes a step nearer to its end. -/
theorem rank_work (hr : t.running = false) (hw : t.worker.waiter = .away) (h0 : t.rank ≠ 0) :
    t.work.rank + 1 ≤ t.rank := by
  cases h : t.worker with
  | draining =>
    cases hq : t.queue with
    | nil => simp [rank, work, h, hq]
    | cons msg rest =>
      simp [rank, work, h, hq]
      omega
  | testing | blocked => simp [h, Place.waiter] at hw
  | absent | exited => simp [rank, h] at h0
  | looping | checking => simp [rank, work, h, hr]; try omega
  | _ =>
    simp [rank, work, h]
    try omega

theorem waiter_work (hr : t.running = false) (hw : t.worker.waiter = .away) :
    t.work.worker.waiter = .away := by
  cases h : t.worker with
  | draining => cases hq : t.queue <;> simp [work, h, hq, Place.waiter]
  | testing | blocked => simp [h, Place.waiter] at hw
  | _ => simp [work, h, hr, Place.waiter]

theorem rank_push (bytes : Bytes) : (t.push bytes).rank ≤ t.rank + 2 := by
  cases h : t.worker <;> simp [rank, push, h] <;> omega

theorem notify_away (hw : t.worker.waiter = .away) : t.notify = t := by
  have hn : t.worker.notified = t.worker := by
    cases h : t.worker <;> simp [h, Place.waiter] at hw <;> rfl
  rw [notify, hn]

theorem rank_eq_zero (h : t.rank = 0) : t.joinable = true := by
  cases hw : t.worker <;> simp [rank, hw] at h <;> simp [joinable, hw]

end InMemoryTransport

namespace Transports

variable {ι τ : Type} [DecidableEq ι] [DecidableEq τ] {s : Transports ι τ} {j : ι}

def Event.works (j : ι) : Event ι τ → ℕ
  | .work i => if i = j then 1 else 0
  | _ => 0

/-- A message that comes in costs the worker two steps. -/
def Event.cost : Event ι τ → ℕ
  | .push _ => 2
  | _ => 0

/-- `stop` waits for a worker that does not wait itself. -/
structure Stopping (s : Transports ι τ) (j : ι) : Prop where
  owner : s.owner j = .joining
  running : (s.transport j).running = false
  away : (s.transport j).worker.waiter = .away

theorem Stopping.step (h : s.Stopping j) {e : Event ι τ} (he : e ≠ .join j) :
    (s.step e).Stopping j := by
  have hdoes := does s j e
  suffices hnext : (s.step e).owner j = .joining ∧ ((s.step e).transport j).running = false ∧
      ((s.step e).transport j).worker.waiter = .away from ⟨hnext.1, hnext.2.1, hnext.2.2⟩
  generalize (s.step e).transport j = t', (s.step e).owner j = o' at hdoes ⊢
  cases hdoes with
  | same => exact ⟨h.owner, h.running, h.away⟩
  | setOnMessage | push => exact ⟨h.owner, h.running, h.away⟩
  | notify | wake =>
    rw [InMemoryTransport.notify_away h.away]
    exact ⟨h.owner, h.running, h.away⟩
  | start ho | stop ho | notifyAll ho => simp [h.owner] at ho
  | join => exact absurd rfl he
  | work =>
    exact ⟨h.owner, (s.transport j).running_work.trans h.running,
      InMemoryTransport.waiter_work h.running h.away⟩

/-- **The way to the end**: a step of the worker brings it nearer, a push puts it off. -/
theorem Stopping.rank_step (h : s.Stopping j) {e : Event ι τ} (he : e ≠ .join j)
    (h0 : (s.transport j).rank ≠ 0) :
    ((s.step e).transport j).rank + e.works j ≤ (s.transport j).rank + e.cost := by
  have hdoes := does s j e
  generalize (s.step e).transport j = t', (s.step e).owner j = o' at hdoes ⊢
  cases hdoes with
  | same hne =>
    have hw : e.works j = 0 := by
      cases e with
      | work i => simpa [Event.works] using hne
      | _ => rfl
    omega
  | setOnMessage => simp [InMemoryTransport.rank, InMemoryTransport.setOnMessage, Event.works]
  | push => exact InMemoryTransport.rank_push _
  | notify | wake =>
    rw [InMemoryTransport.notify_away h.away]
    simp [Event.works]
  | start ho | stop ho | notifyAll ho => simp [h.owner] at ho
  | join => exact absurd rfl he
  | work => simpa [Event.works, Event.cost] using InMemoryTransport.rank_work h.running h.away h0

theorem Stopping.rank_zero (h : s.Stopping j) {e : Event ι τ} (he : e ≠ .join j)
    (h0 : (s.transport j).rank = 0) : ((s.step e).transport j).rank = 0 := by
  have hdoes := does s j e
  generalize (s.step e).transport j = t', (s.step e).owner j = o' at hdoes ⊢
  cases hdoes with
  | same | setOnMessage => exact h0
  | push => cases hw : (s.transport j).worker <;> simp_all [InMemoryTransport.rank, InMemoryTransport.push]
  | notify | wake => rwa [InMemoryTransport.notify_away h.away]
  | start ho | stop ho | notifyAll ho => simp [h.owner] at ho
  | join => exact absurd rfl he
  | work =>
    cases hw : (s.transport j).worker <;>
      simp_all [InMemoryTransport.rank, InMemoryTransport.work]

/-- **A worker that does not sleep comes to its end**. -/
theorem Stopping.joinable (h : s.Stopping j) {es : List (Event ι τ)} (hes : ∀ e ∈ es, e ≠ .join j)
    (hle : (s.transport j).rank + (es.map Event.cost).sum ≤ (es.map (Event.works j)).sum) :
    (es.foldl Transports.step s).Stopping j ∧
      ((es.foldl Transports.step s).transport j).joinable = true := by
  have halong : Along Transports.step (fun _ e => e ≠ .join j) s es := along_of_mem hes s
  refine ⟨halong.invariant (I := fun s => s.Stopping j) (fun s e he h => Stopping.step h he) h, ?_⟩
  exact InMemoryTransport.rank_eq_zero (halong.rank_zero (I := fun s => s.Stopping j)
    (fun s e he h => Stopping.step h he) (fun s e he h => Stopping.rank_zero h he)
    (fun s e he h => Stopping.rank_step h he) h hle)

/-- `stop` waits for a worker that sleeps, or is about to, and that nobody will wake. -/
structure Asleep (s : Transports ι τ) (j : ι) : Prop where
  owned : s.Owned
  owner : s.owner j = .joining
  lost : (condition True s j).Lost

/-- Nothing comes to the transport, and its worker does not wake up by itself. -/
def Undisturbed (j : ι) (s : Transports ι τ) (e : Event ι τ) : Prop := ¬ PushesTo s j e ∧ e ≠ .wake j

theorem Asleep.step (h : s.Asleep j) {e : Event ι τ} (he : Undisturbed j s e) :
    (s.step e).Asleep j := by
  have howner : (s.step e).owner j = .joining := by
    have hdoes := does s j e
    generalize (s.step e).transport j = t', (s.step e).owner j = o' at hdoes ⊢
    cases hdoes with
    | start ho | stop ho => simp [h.owner] at ho
    | notifyAll => rfl
    | join _ hj =>
      have hw := h.lost.waits
      rcases (by simpa [InMemoryTransport.joinable] using hj :
        (s.transport j).worker = .absent ∨ (s.transport j).worker = .exited) with hw' | hw' <;>
        simp [condition, hw', Place.waiter] at hw
    | _ => exact h.owner
  obtain ⟨ev, hev⟩ := h.owned.seen True (j := j) (fun _ => by simp [h.owner]) e
  refine ⟨h.owned.step e, howner, ?_⟩
  by_cases hn : e = .notifyAll j
  · subst hn
    have hsame : s.step (.notifyAll j) = s := by simp [Transports.step, h.owner]
    rw [hsame]
    exact h.lost
  · refine hev.step.lost (fun k hk => he.1 (hev.raise k hk)) (fun hw => ?_) h.lost
    exact (hev.wake hw).elim he.2 hn

/-- A worker that does not sleep ends, and `stop` returns. -/
theorem Owned.stop_returns (hs : s.Owned) (ho : s.owner j = .joining)
    (haway : (s.transport j).worker.waiter = .away) {es : List (Event ι τ)}
    (hes : ∀ e ∈ es, e ≠ .join j)
    (hle : (s.transport j).rank + (es.map Event.cost).sum ≤ (es.map (Event.works j)).sum) :
    ((es.foldl Transports.step s).step (.join j)).owner j = .idle := by
  have hstopping : s.Stopping j := ⟨ho, (hs j).busy (by simp [ho]), haway⟩
  obtain ⟨hlast, hj⟩ := hstopping.joinable hes hle
  rw [Transports.step, if_pos ⟨hlast.owner, hj⟩, advance_owner_self]

/-- **When `stop` returns**. It has stored `running_` and calls `notify_all`. If that does not
come between the worker's test and its sleep, the worker ends after a number of its own steps
that its queue and the pushes since bound, and `stop` returns. If it does, and no thread has
pushed and is still to notify, `stop` never returns, whatever the threads do, unless another
message comes or the worker wakes up by itself; and if the worker is woken after all, `stop`
returns as in the first case. -/
theorem stop_returns_iff (es : List (Event ι τ)) (j : ι) :
    let s : Transports ι τ := es.foldl step {}
    s.owner j = .stored →
      let s' := s.step (.notifyAll j)
      ((s.transport j).worker ≠ .testing → ∀ fs : List (Event ι τ), (∀ e ∈ fs, e ≠ .join j) →
        (s'.transport j).rank + (fs.map Event.cost).sum ≤ (fs.map (Event.works j)).sum →
          ((fs.foldl step s').step (.join j)).owner j = .idle) ∧
      ((s.transport j).worker = .testing → (∀ t, s.caller t ≠ .pushed j) →
        ∀ fs : List (Event ι τ), Along step (Undisturbed j) s' fs →
          (fs.foldl step s').owner j = .joining) ∧
      ∀ fs : List (Event ι τ), (fs.foldl step s').owner j = .joining →
        ((fs.foldl step s').transport j).worker.waiter = .away →
        ∀ gs : List (Event ι τ), (∀ e ∈ gs, e ≠ .join j) →
          ((fs.foldl step s').transport j).rank + (gs.map Event.cost).sum ≤
            (gs.map (Event.works j)).sum →
          ((gs.foldl step (fs.foldl step s')).step (.join j)).owner j = .idle := by
  intro s ho s'
  have howned : ∀ {s : Transports ι τ}, s.Owned → ∀ fs : List (Event ι τ), (fs.foldl step s).Owned :=
    fun hs fs => invariant (I := fun s : Transports ι τ => s.Owned) (fun _ e h => h.step e) fs hs
  have hs : s.Owned := howned Accounted.start_owned es
  have hs' : s' = s.advance j .notify .joining := by simp [s', step, ho]
  have howner : s'.owner j = .joining := by rw [hs', advance_owner_self]
  have htransport : s'.transport j = (s.transport j).notify := by
    rw [hs', advance_transport, modify_transport_self]
  refine ⟨fun hw fs hfs hle => ?_, fun hw hquiet fs hfs => ?_, fun fs hf haway gs hgs hle => ?_⟩
  · refine (hs.step _).stop_returns howner ?_ hfs hle
    rw [htransport, InMemoryTransport.notify, Place.waiter_notified, Waiter.notified_eq_away]
    cases hp : (s.transport j).worker <;> simp [hp, Place.waiter] at hw ⊢
  · have hlost : (condition True s' j).Lost := by
      refine ⟨?_, .inr ⟨trivial, htransport ▸ (hs j).busy (by simp [ho])⟩, ?_⟩
      · simp [condition, htransport, InMemoryTransport.notify, hw, Place.notified, Place.waiter]
      · refine Set.eq_empty_of_forall_notMem fun t ht => hquiet t ?_
        rw [hs'] at ht
        exact ht
    exact (hfs.invariant (I := fun s : Transports ι τ => s.Asleep j) (fun _ _ he h => h.step he)
      ⟨hs.step _, howner, hlost⟩).owner
  · exact (howned (hs.step _) fs).stop_returns hf haway hgs hle

/-- The store and the notification of `stop` both come after the worker's test. -/
def sampleStop : List (Event Unit Unit) :=
  [.start (), .work (), .work (), .work (), .stop ()]

/-- **`stop` waits for ever**: the worker has tested `running_` and is not yet asleep. -/
theorem stop_returns_iff_sample :
    let s : Transports Unit Unit := (sampleStop.foldl step {}).step (.notifyAll ())
    ∀ n, ((List.replicate n (.work ())).foldl step s).owner () = .joining := by
  intro s n
  refine (stop_returns_iff sampleStop () rfl).2.1 rfl (fun t => by cases t; decide)
    (List.replicate n (.work ())) ?_
  refine (along_of_mem (G := fun e : Event Unit Unit => e = .work ())
    (fun e he => (List.mem_replicate.mp he).2) s).imp ?_
  rintro s e rfl
  exact ⟨id, by simp⟩

end Transports

end SecureComm
