import SecureComm.Transport.WebSocket

/-!
# Wake-ups of the send thread

The send thread and the receive thread wait on one condition variable for
different things, and `send` wakes one thread. Where both wait and the receive
thread is the one that is woken, it finds its own queue empty and waits again,
and the send thread sleeps on beside a queue that is not empty (`Stranded`).
-/

namespace SecureComm.WebSocketTransport

open Run

/-- There is something to send, and the send thread waits: it has not been woken. -/
structure Stranded (t : WebSocketTransport) : Prop where
  queue : t.sendQueue ≠ []
  waits : t.sender = .blocked

/-- **No lost wake-up.** -/
def NoLostWakeup (t : WebSocketTransport) : Prop := ¬ t.Stranded

/-- Where both threads wait, a send wakes the send thread. -/
def WakesSender (t : WebSocketTransport) : Event → Prop
  | .send _ first => t.sender = .blocked → t.receiver = .blocked → first = true
  | _ => True

/-- A step of one of the threads. -/
def Event.OfThread : Event → Prop
  | .send .. => False
  | _ => True

/-- The send thread sleeps through a `notify_one` that wakes the other thread. -/
theorem notifyOne_blocked_iff (t : WebSocketTransport) (first : Bool) :
    (t.notifyOne first).sender = .blocked ↔
      t.sender = .blocked ∧ t.receiver = .blocked ∧ first = false := by
  unfold notifyOne
  split
  · rename_i h
    refine iff_of_false nofun fun ⟨_, hr, hf⟩ => ?_
    exact h.2.elim (fun hfirst => absurd (hfirst.symm.trans hf) nofun) fun hne => hne hr
  · rename_i h
    have hsleeps : t.sender = .blocked → t.receiver = .blocked ∧ first = false := fun hs => by
      by_contra hwakes
      refine h ⟨hs, ?_⟩
      rcases hf : first with _ | _
      · exact .inr fun hr => hwakes ⟨hr, hf⟩
      · exact .inl rfl
    split
    · exact ⟨fun hs => ⟨hs, hsleeps hs⟩, fun hs => hs.1⟩
    · exact ⟨fun hs => ⟨hs, hsleeps hs⟩, fun hs => hs.1⟩

theorem send_stranded_iff (t : WebSocketTransport) (bytes : Bytes) (first : Bool) :
    (t.send bytes first).Stranded ↔
      t.sender = .blocked ∧ t.receiver = .blocked ∧ first = false := by
  have hwoken := notifyOne_blocked_iff { t with sendQueue := t.sendQueue ++ [bytes] } first
  refine ⟨fun h => hwoken.mp h.waits, fun h => ⟨?_, hwoken.mpr h⟩⟩
  rw [send, (Accounted.notifyOne_sending _ first).1]
  exact List.append_ne_nil_of_right_ne_nil _ (List.cons_ne_nil bytes [])

theorem sendThread_stranded_iff (t : WebSocketTransport) : t.sendThread.Stranded ↔ t.Stranded := by
  rcases hs : t.sender with _ | _ | data | data
  · constructor
    · intro h
      rcases hq : t.sendQueue with _ | ⟨data, rest⟩
      · refine absurd ?_ h.queue
        simp only [sendThread, hs, hq]
      · have hw := h.waits
        simp only [sendThread, hs, hq] at hw
        cases hw
    · intro h
      cases hs.symm.trans h.waits
  · rw [show t.sendThread = t by simp only [sendThread, hs]]
  · constructor
    · intro h
      have hw := h.waits
      simp only [sendThread, hs] at hw
      by_cases hpost : data ≠ [] ∧ t.connected
      · rw [if_pos hpost] at hw
        cases hw
      · rw [if_neg hpost] at hw
        cases hw
    · intro h
      cases hs.symm.trans h.waits
  · rw [show t.sendThread = t by simp only [sendThread, hs]]

theorem posted_stranded_iff (t : WebSocketTransport) (o : Outcome) :
    (t.posted o).Stranded ↔ t.Stranded := by
  unfold posted
  split
  · rename_i data hs
    exact iff_of_false (fun h => nomatch h.waits) fun h => absurd (hs.symm.trans h.waits) nofun
  · exact Iff.rfl

/-- **The threads** neither strand a message nor find one that is stranded. -/
theorem step_stranded_iff (t : WebSocketTransport) {ev : Event} (h : ev.OfThread) :
    (t.step ev).Stranded ↔ t.Stranded := by
  cases ev with
  | send bytes first => exact h.elim
  | poll o => exact ⟨fun h => ⟨h.queue, h.waits⟩, fun h => ⟨h.queue, h.waits⟩⟩
  | sendThread => exact sendThread_stranded_iff t
  | posted o => exact posted_stranded_iff t o
  | receiveThread =>
    obtain ⟨hqueue, hsender⟩ := Accounted.receiveThread_sending t
    exact ⟨fun h => ⟨hqueue ▸ h.queue, hsender ▸ h.waits⟩,
      fun h => ⟨hqueue.symm ▸ h.queue, hsender.symm ▸ h.waits⟩⟩

/-- What is stranded stays so until the next send, whatever the threads do. -/
theorem Stranded.run {t : WebSocketTransport} (h : t.Stranded) {evs : List Event}
    (hno : ∀ ev ∈ evs, ev.OfThread) : (evs.foldl step t).Stranded := by
  induction evs generalizing t with
  | nil => exact h
  | cons ev evs ih =>
    exact ih ((step_stranded_iff t (hno ev List.mem_cons_self)).mpr h)
      fun ev hev => hno ev (List.mem_cons_of_mem _ hev)

theorem NoLostWakeup.step {t : WebSocketTransport} (h : t.NoLostWakeup) {ev : Event}
    (hev : ev.OfThread) : (t.step ev).NoLostWakeup := mt (step_stranded_iff t hev).mp h

theorem noLostWakeup_step_iff (t : WebSocketTransport) (ev : Event) (h : t.NoLostWakeup) :
    (t.step ev).NoLostWakeup ↔ t.WakesSender ev := by
  cases ev with
  | send bytes first =>
    refine (not_congr (send_stranded_iff t bytes first)).trans ?_
    rw [WakesSender, not_and, not_and]
    exact forall₂_congr fun _ _ => Bool.not_eq_false first ▸ Iff.rfl
  | poll o => exact iff_of_true (h.step trivial) trivial
  | sendThread => exact iff_of_true (h.step trivial) trivial
  | posted o => exact iff_of_true (h.step trivial) trivial
  | receiveThread => exact iff_of_true (h.step trivial) trivial

/-- **No wake-up is lost** in exactly the runs in which every send that finds both
threads waiting wakes the send thread. -/
theorem noLostWakeup_iff_wakesSender (t : WebSocketTransport) (evs : List Event) :
    Throughout step NoLostWakeup t.start evs ↔ Along step WakesSender t.start evs :=
  throughout_iff_along (I := fun _ => True) (fun _ _ _ => trivial)
    (fun t ev _ h => noLostWakeup_step_iff t ev h) trivial fun h => nomatch h.waits

/-- Both threads go to sleep, and the first send wakes the receive thread. -/
def sleepsThrough : List Event := [.receiveThread, .sendThread, .send [1] false, .receiveThread]

theorem sleepsThrough_stranded : (sleepsThrough.foldl step (start {})).Stranded :=
  ⟨List.cons_ne_nil _ _, rfl⟩

/-- **A lost wake-up**: both threads wait, the message is in the queue, and so it stays
whatever the threads do. -/
theorem wakeup_lost :
    (sleepsThrough.foldl step (start {})).sendQueue = [[1]] ∧
      (sleepsThrough.foldl step (start {})).receiver = .blocked ∧
      (∀ evs : List Event, (∀ ev ∈ evs, ev.OfThread) →
        (evs.foldl step (sleepsThrough.foldl step (start {}))).Stranded) ∧
      ¬ Throughout step NoLostWakeup (start {}) sleepsThrough :=
  ⟨rfl, rfl, fun _ hev => sleepsThrough_stranded.run hev,
    fun h => h.2.2.2.1 ⟨List.cons_ne_nil _ _, rfl⟩⟩

end SecureComm.WebSocketTransport
