import SecureComm.Transport.InMemory

/-!
# Delivery between in-memory transports

Whatever the threads do, and however often the transports are started, stopped and
connected anew: what a thread has sent to a transport reaches its callback once and
in the order of the sends, or is still on the way (`conserved_iff_handles`).
-/

namespace SecureComm

open Function Run

def InMemoryTransport.content (t : InMemoryTransport) : List Bytes := t.worker.inHand ++ t.queue

namespace InMemoryTransport

theorem content_push (t : InMemoryTransport) (bytes : Bytes) :
    (t.push bytes).content = t.content ++ [bytes] := by
  simp [content, push]

theorem content_notify (t : InMemoryTransport) : t.notify.content = t.content := by
  cases h : t.worker <;> simp [content, notify, h, Place.notified, Place.inHand]

theorem content_start (t : InMemoryTransport) (h : t.running = false → t.worker.inHand = []) :
    t.start.content = t.content := by
  unfold start
  split
  · rfl
  · rename_i hr
    have hw := h (by simpa using hr)
    simp [content, hw]
    rfl

theorem content_join (t : InMemoryTransport) (h : t.joinable = true) :
    t.join.content = t.content := by
  cases hw : t.worker <;> simp [joinable, hw] at h
  · simp [content, join, hw]
  · simp [content, join, hw, Place.inHand]

/-- **The worker** hands over what it has in its hands and keeps the rest. -/
theorem content_work (t : InMemoryTransport) : t.content = t.worker.inHand ++ t.work.content := by
  cases h : t.worker with
  | draining => cases hq : t.queue <;> simp [content, work, h, hq, Place.inHand]
  | looping => cases hr : t.running <;> simp [content, work, h, hr, Place.inHand]
  | checking =>
    by_cases hc : t.queue ≠ [] ∨ t.running = false
    · simp [content, work, h, hc, Place.inHand]
    · simp [content, work, h, if_neg hc, Place.inHand]
  | _ => simp [content, work, h, Place.inHand]

end InMemoryTransport

namespace Transports

variable {ι τ : Type}

/-- `start` and `stop` of a transport are one thread's: while that thread is in
neither, the flag tells whether there is a worker. -/
structure OwnedBy (o : Owner) (t : InMemoryTransport) : Prop where
  idle : o = .idle → (t.running = true ↔ t.worker ≠ .absent)
  busy : o ≠ .idle → t.running = false
  exited : t.worker = .exited → t.running = false

namespace OwnedBy

variable {o : Owner} {t : InMemoryTransport}

theorem notify (h : OwnedBy o t) : OwnedBy o t.notify := by
  have hw : t.notify.worker = .absent ↔ t.worker = .absent := by
    cases hw : t.worker <;> simp [InMemoryTransport.notify, hw, Place.notified]
  refine ⟨fun ho => (h.idle ho).trans (not_congr hw).symm, h.busy, fun he => h.exited ?_⟩
  cases hw' : t.worker <;> simp [InMemoryTransport.notify, hw', Place.notified] at he ⊢

theorem work (h : OwnedBy o t) : OwnedBy o t.work := by
  have hrun : t.work.running = t.running := by
    unfold InMemoryTransport.work
    split <;> first | rfl | (split <;> rfl)
  have hw : t.work.worker = .absent ↔ t.worker = .absent := by
    unfold InMemoryTransport.work
    split <;> (try split) <;> simp [*]
  refine ⟨fun ho => ?_, fun ho => hrun.trans (h.busy ho), fun he => hrun.trans ?_⟩
  · rw [hrun, ne_eq, hw]
    exact h.idle ho
  · cases hp : t.worker with
    | looping =>
      cases hr : t.running with
      | false => rfl
      | true => simp [InMemoryTransport.work, hp, hr] at he
    | checking =>
      simp only [InMemoryTransport.work, hp] at he
      split at he <;> cases he
    | draining => cases hq : t.queue <;> simp [InMemoryTransport.work, hp, hq] at he
    | exited => exact h.exited hp
    | _ => simp [InMemoryTransport.work, hp] at he

theorem start (h : OwnedBy .idle t) : OwnedBy .idle t.start := by
  unfold InMemoryTransport.start
  split
  · exact h
  · exact ⟨fun _ => by simp, fun hn => absurd rfl hn, fun he => by cases he⟩

theorem stop : OwnedBy .stored t.stop :=
  ⟨fun hn => absurd hn (by simp), fun _ => rfl, fun _ => rfl⟩

theorem join (h : OwnedBy .joining t) : OwnedBy .idle t.join := by
  have hrun : t.join.running = false := h.busy (by simp)
  refine ⟨fun _ => iff_of_false (by simp [hrun]) (by simp [InMemoryTransport.join]), fun hn => absurd rfl hn, ?_⟩
  exact fun _ => hrun

theorem absent (h : OwnedBy .idle t) (hr : t.running = false) : t.worker = .absent := by
  by_contra hne
  exact absurd ((h.idle rfl).mpr hne) (by simp [hr])

end OwnedBy

/-- Every transport is its owner's. -/
def Owned (s : Transports ι τ) : Prop := ∀ i, OwnedBy (s.owner i) (s.transport i)

variable [DecidableEq ι] {s : Transports ι τ}

variable [DecidableEq τ]

theorem Owned.step (h : Owned s) (e : Event ι τ) : Owned (s.step e) := by
  intro i
  have hi := h i
  have hdoes := does s i e
  generalize (s.step e).transport i = t', (s.step e).owner i = o' at hdoes ⊢
  cases hdoes with
  | same => exact hi
  | setOnMessage => exact ⟨hi.idle, hi.busy, hi.exited⟩
  | push => exact ⟨hi.idle, hi.busy, hi.exited⟩
  | notify | wake => exact hi.notify
  | start ho => exact (ho ▸ hi : OwnedBy .idle _).start
  | stop => exact .stop
  | notifyAll ho =>
    have hn := hi.notify
    exact ⟨fun ho' => absurd ho' (by simp), fun _ => hn.busy (by simp [ho]), hn.exited⟩
  | join ho => exact (ho ▸ hi : OwnedBy .joining _).join
  | work => exact hi.work

end Transports

/-- What the thread is to push. -/
def Caller.carried {ι : Type} : Caller ι → List (ι × Bytes)
  | routed j bytes => [(j, bytes)]
  | idle | pushed _ => []

namespace Transports

/-- The values that a list has at one key, in their order. -/
def entries {κ β : Type} [DecidableEq κ] (k : κ) (l : List (κ × β)) : List β :=
  (l.filter (·.1 = k)).map Prod.snd

theorem entries_append {κ β : Type} [DecidableEq κ] (k : κ) (l l' : List (κ × β)) :
    entries k (l ++ l') = entries k l ++ entries k l' := by
  simp [entries]

theorem entries_update {ι κ β : Type} [DecidableEq ι] [DecidableEq κ] (l : ι → List (κ × β))
    (i j : ι) (k k' : κ) (b : β) : entries k (update l i (l i ++ [(k', b)]) j) =
      entries k (l j) ++ if i = j ∧ k' = k then [b] else [] := by
  by_cases hij : i = j
  · subst hij
    by_cases hk : k' = k <;> simp [entries, hk]
  · simp [update_of_ne (Ne.symm hij), hij]

/-- What each thread has sent and where to, what came to each transport and from
which thread, and what its callback was handed. -/
structure Accounted (ι τ : Type) where
  sys : Transports ι τ := {}
  sent : τ → List (ι × Bytes) := fun _ => []
  arrived : ι → List (τ × Bytes) := fun _ => []
  handed : ι → List Bytes := fun _ => []

namespace Accounted

def start : Accounted ι τ := {}

theorem start_owned : (start : Accounted ι τ).sys.Owned := fun _ =>
  ⟨fun _ => iff_of_false (by simp [start]) (by simp [start]), fun hn => absurd rfl hn,
    fun he => by cases he⟩

variable [DecidableEq ι] [DecidableEq τ]

def step (w : Accounted ι τ) (e : Event ι τ) : Accounted ι τ where
  sys := w.sys.step e
  sent :=
    match e with
    | .send t i bytes =>
      if w.sys.caller t = .idle then
        update w.sent t (w.sent t ++ [(w.sys.bridge.target i, bytes)])
      else w.sent
    | _ => w.sent
  arrived :=
    match e with
    | .push t =>
      match w.sys.caller t with
      | .routed j bytes =>
        if (w.sys.transport j).worker.locks then w.arrived
        else update w.arrived j (w.arrived j ++ [(t, bytes)])
      | _ => w.arrived
    | _ => w.arrived
  handed :=
    match e with
    | .work i => update w.handed i (w.handed i ++ (w.sys.transport i).called)
    | _ => w.handed

/-- What came to a transport was handed over or is there. -/
def Kept (w : Accounted ι τ) : Prop :=
  ∀ j, (w.arrived j).map Prod.snd = w.handed j ++ (w.sys.transport j).content

/-- What a thread has sent to a transport came to it or is in the thread's hands. -/
def Routed (w : Accounted ι τ) : Prop :=
  ∀ t j, entries j (w.sent t) = entries t (w.arrived j) ++ entries j (w.sys.caller t).carried

/-- **Once and in order**: what a thread has sent to a transport was handed over, is
in the transport or in the hands of the thread. -/
def Conserved (w : Accounted ι τ) : Prop := w.Kept ∧ w.Routed

/-- A worker that has taken a message out finds a callback. -/
def Handles (w : Accounted ι τ) : Event ι τ → Prop
  | .work i => (w.sys.transport i).worker.inHand ≠ [] → (w.sys.transport i).onMessage = true
  | _ => True

variable {w : Accounted ι τ}

/-- An event that pushes nothing and is no worker's. -/
def Still : Event ι τ → Prop
  | .push _ | .work _ => False
  | _ => True

/-- **Frame**: only a push and a worker change what the transports hold. -/
theorem content_step {s : Transports ι τ} (hs : s.Owned) {e : Event ι τ} (he : Still e) (j : ι) :
    ((s.step e).transport j).content = (s.transport j).content := by
  have hdoes := does s j e
  generalize (s.step e).transport j = t', (s.step e).owner j = o' at hdoes ⊢
  cases hdoes with
  | same | setOnMessage | stop => rfl
  | push | work => exact he.elim
  | notify | wake | notifyAll => exact InMemoryTransport.content_notify _
  | start ho =>
    refine InMemoryTransport.content_start _ fun hr => ?_
    rw [(ho ▸ hs j : OwnedBy .idle _).absent hr]
    rfl
  | join _ hj => exact InMemoryTransport.content_join _ hj

theorem Kept.push (h : w.Kept) (t : τ) : (w.step (.push t)).Kept := by
  intro j
  rcases hc : w.sys.caller t with _ | ⟨i, bytes⟩ | i
  · simpa [Accounted.step, Transports.step, hc] using h j
  · by_cases hl : (w.sys.transport i).worker.locks = true
    · simpa [Accounted.step, Transports.step, hc, hl] using h j
    · simp only [Accounted.step, Transports.step, hc, if_neg hl]
      by_cases hj : j = i
      · subst hj
        rw [update_self, modify_transport_self, InMemoryTransport.content_push, List.map_append, h j,
          List.append_assoc]
        rfl
      · rw [update_of_ne hj, modify_transport_ne _ _ hj]
        exact h j
  · simpa [Accounted.step, Transports.step, hc] using h j

/-- **A worker keeps count** if and only if there is a callback for what it has taken. -/
theorem kept_work_iff (h : w.Kept) (i : ι) : (w.step (.work i)).Kept ↔ w.Handles (.work i) := by
  have hi := h i
  rw [InMemoryTransport.content_work] at hi
  have hself : (w.arrived i).map Prod.snd = (w.step (.work i)).handed i ++
      ((w.step (.work i)).sys.transport i).content ↔ w.Handles (.work i) := by
    simp only [Accounted.step, Transports.step, update_self, modify_transport_self, hi, Handles,
      InMemoryTransport.called]
    cases hm : (w.sys.transport i).onMessage with
    | true => simp
    | false => simp
  refine ⟨fun hk => hself.mp (hk i), fun hh j => ?_⟩
  by_cases hj : j = i
  · subst hj
    exact hself.mpr hh
  · simp only [Accounted.step, Transports.step, update_of_ne hj, modify_transport_ne _ _ hj]
    exact h j

theorem kept_step_iff (hs : w.sys.Owned) (h : w.Kept) (e : Event ι τ) :
    (w.step e).Kept ↔ w.Handles e := by
  by_cases he : Still e
  · have hcontent := content_step hs he
    cases e with
    | push | work => exact he.elim
    | _ => exact iff_of_true (fun j => (h j).trans (congrArg _ (hcontent j).symm)) trivial
  · cases e with
    | push t => exact iff_of_true (h.push t) trivial
    | work i => exact kept_work_iff h i
    | _ => exact absurd trivial he

/-- **The threads** send, push and notify; nothing of what they carry is lost or swapped. -/
theorem Routed.step (h : w.Routed) (e : Event ι τ) : (w.step e).Routed := by
  intro t j
  have hj := h t j
  cases e with
  | send t' i bytes =>
    rcases hc : w.sys.caller t' with _ | _ | _
    · simp only [Accounted.step, Transports.step, hc, if_true]
      by_cases ht : t = t'
      · subst ht
        rw [update_self, update_self, entries_append, hj, hc]
        simp [Caller.carried, entries]
      · rw [update_of_ne ht, update_of_ne ht]
        exact hj
    · simpa [Accounted.step, Transports.step, hc] using hj
    · simpa [Accounted.step, Transports.step, hc] using hj
  | push t' =>
    rcases hc : w.sys.caller t' with _ | ⟨i, bytes⟩ | i
    · simpa [Accounted.step, Transports.step, hc] using hj
    · by_cases hl : (w.sys.transport i).worker.locks = true
      · simpa [Accounted.step, Transports.step, hc, hl] using hj
      · simp only [Accounted.step, Transports.step, hc, if_neg hl, entries_update]
        by_cases ht : t = t'
        · subst ht
          rw [hj, hc, update_self]
          by_cases hij : i = j <;> simp [Caller.carried, entries, hij]
        · rw [update_of_ne ht, if_neg fun hc => ht hc.2.symm, List.append_nil]
          exact hj
    · simpa [Accounted.step, Transports.step, hc] using hj
  | notify t' =>
    rcases hc : w.sys.caller t' with _ | _ | _
    · simpa [Accounted.step, Transports.step, hc] using hj
    · simpa [Accounted.step, Transports.step, hc] using hj
    · simp only [Accounted.step, Transports.step, hc]
      by_cases ht : t = t'
      · subst ht
        rw [update_self, hj, hc]
        rfl
      · rw [update_of_ne ht]
        exact hj
  | start i | stop i | notifyAll i | join i =>
    simp only [Accounted.step, Transports.step]
    split <;> exact hj
  | _ => exact hj

/-- **Delivery**: in whatever order the threads take their steps, every message reaches the
callback of the transport it was sent to once, and those of a thread in the order in which it
sent them, or is still there or in the thread's hands; this holds throughout a run if and only
if no worker takes a message out while its transport has no callback. -/
theorem conserved_iff_handles (es : List (Event ι τ)) :
    Throughout step Conserved start es ↔ Along step Handles start es :=
  throughout_iff_along (I := fun w : Accounted ι τ => Owned w.sys) (fun _ e hs => Owned.step hs e)
    (fun _ e hs h => (and_iff_left (Routed.step h.2 e)).trans (kept_step_iff hs h.1 e)) start_owned
    ⟨fun _ => rfl, fun _ _ => rfl⟩

end Accounted

end Transports

end SecureComm
