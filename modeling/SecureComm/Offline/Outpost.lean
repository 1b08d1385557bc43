import Mathlib.Logic.Function.Basic
import SecureComm.Offline.Ledger

/-!
# From a call to a frame

An enhanced dispatcher with the calls of `send_message_to_device` on it and the
frames that its dispatcher has made for them, at once or in a pass of the retry
thread. As long as what the transport has taken is also marked in the table, it
takes one frame for a call at most.
-/

namespace SecureComm

open Function

/-- A frame, with the number of the call it was made for, and whether the transport took it. -/
structure Made where
  recipient : Bytes
  plaintext : Bytes
  frame : Bytes
  call : ℕ
  taken : Bool

structure Trial where
  recipient : Bytes
  plaintext : Bytes
  call : ℕ
  attempt : Attempt

/-- `calls` are the recipients and plaintexts of the calls, and `caller` says of which call
a row is. -/
structure Outpost where
  system : EnhancedDispatcher := {}
  calls : List (Bytes × Bytes) := []
  caller : ℕ → ℕ := fun _ => 0
  made : List Made := []

namespace Outpost

open EnhancedDispatcher (Event Throws)

variable (S : Sodium)

def trial (o : Outpost) (ev : Event) : Option Trial :=
  match ev, o.system.pending with
  | .send remoteDeviceId plaintext _ a _ _, _ => some ⟨remoteDeviceId, plaintext, o.calls.length, a⟩
  | .retryNext a _ _, m :: _ =>
    if m.retryCount ≤ 10 then some ⟨m.recipientId, m.envelope, o.caller m.id, a⟩ else none
  | _, _ => none

/-- The frame that comes of an attempt, unless the dispatcher throws. -/
def makes (o : Outpost) (t : Trial) : List Made :=
  match (o.system.dispatcher.sendMessageToDevice S t.recipient t.plaintext t.attempt.draw).2 with
  | .ok frame => [⟨t.recipient, t.plaintext, frame, t.call, t.attempt.taken⟩]
  | .error _ => []

def step (o : Outpost) (ev : Event) : Outpost where
  system := o.system.step S ev
  calls :=
    match ev with
    | .send remoteDeviceId plaintext _ _ _ _ => o.calls ++ [(remoteDeviceId, plaintext)]
    | _ => o.calls
  caller :=
    match ev with
    | .send _ _ _ _ _ _ => update o.caller o.system.offlineQueue.next o.calls.length
    | _ => o.caller
  made := o.made ++ ((o.trial ev).map (o.makes S)).getD []

/-- The statement of a round whose message was sent succeeds. -/
def Marks (o : Outpost) : Event → Prop
  | .retryNext a _ ok => ∀ m ∈ o.system.pending.head?, o.system.sends S m a = true → ok = true
  | _ => True

def Of (o : Outpost) (r : QueuedMessage) : Prop :=
  ∃ remote, o.calls[o.caller r.id]? = some (remote, r.envelope) ∧ r.recipientId = cText remote

/-- The transport has taken no frame for the call. -/
def Open (o : Outpost) (call : ℕ) : Prop := ∀ f ∈ o.made, f.taken = true → f.call ≠ call

/-- The frame is for the recipient of its call, or for what the table has kept of it. -/
def Genuine (o : Outpost) (f : Made) : Prop :=
  ∃ remote, o.calls[f.call]? = some (remote, f.plaintext) ∧
    (f.recipient = remote ∨ f.recipient = cText remote)

/-- The row is in the table or in the snapshot of the pass under way. -/
def Known (o : Outpost) (r : QueuedMessage) : Prop :=
  r ∈ o.system.offlineQueue.rows ∨ r ∈ o.system.pending

/-- The message of the row is still to be sent. -/
def Waits (o : Outpost) (r : QueuedMessage) : Prop :=
  (r ∈ o.system.offlineQueue.rows ∧ r.status = .pending) ∨ r ∈ o.system.pending

/-- Every frame is of its call, and no two that were taken are of one; what is still to be sent
has not been taken. -/
structure Sound (o : Outpost) : Prop where
  orderly : o.system.Orderly
  once : ((o.made.filter Made.taken).map Made.call).Nodup
  genuine : ∀ f ∈ o.made, o.Genuine f
  of : ∀ r, o.Known r → o.Of r
  distinct : ∀ r s, o.Known r → o.Known s → o.caller r.id = o.caller s.id → r.id = s.id
  waits : ∀ r, o.Waits r → o.Open (o.caller r.id)

/-- At the start the messages in the table are those of calls. -/
def start (e : EnhancedDispatcher) : Outpost where
  system := e
  calls := e.offlineQueue.rows.map fun r => (r.recipientId, r.envelope)
  caller i := e.offlineQueue.rows.findIdx fun r => r.id = i

variable {S} {o : Outpost}

/-- A dispatcher as the program starts it. -/
structure Fresh (e : EnhancedDispatcher) : Prop where
  resting : Ledger.Resting e
  recipient : ∀ r ∈ e.offlineQueue.rows, cText r.recipientId = r.recipientId

theorem sound_start {e : EnhancedDispatcher} (he : Fresh e) : Sound (start e) := by
  have hknown : ∀ r, (start e).Known r → r ∈ e.offlineQueue.rows := by
    rintro r (hr | hr)
    · exact hr
    · have hr : r ∈ e.pending := hr
      rw [he.resting.idle] at hr
      cases hr
  have hcall : ∀ r ∈ e.offlineQueue.rows,
      e.offlineQueue.rows[e.offlineQueue.rows.findIdx fun s => s.id = r.id]? = some r := by
    intro r hr
    have hlt : e.offlineQueue.rows.findIdx (fun s => s.id = r.id) < e.offlineQueue.rows.length :=
      List.findIdx_lt_length_of_exists ⟨r, hr, decide_eq_true rfl⟩
    have hid := List.findIdx_getElem (w := hlt)
    rw [List.getElem?_eq_getElem hlt]
    exact congrArg some
      (OfflineQueue.eq_of_id (List.getElem_mem hlt) hr (of_decide_eq_true hid))
  refine ⟨he.resting.orderly, .nil, nofun, fun r hr => ?_, fun r s hr hs hrs => ?_, fun _ _ => nofun⟩
  · have hr := hknown r hr
    refine ⟨r.recipientId, ?_, (he.recipient r hr).symm⟩
    show (e.offlineQueue.rows.map _)[_]? = _
    rw [List.getElem?_map]
    exact congrArg (Option.map _) (hcall r hr)
  · have hrs : (e.offlineQueue.rows.findIdx fun s => s.id = r.id) =
        e.offlineQueue.rows.findIdx fun t => t.id = s.id := hrs
    have hsame := (hcall r (hknown r hr)).symm.trans (hrs ▸ hcall s (hknown s hs))
    rw [Option.some.inj hsame]

/-! ## One event -/

variable {o' : Outpost}

theorem trial_retryNext {m : QueuedMessage} {rest : List QueuedMessage}
    (hp : o.system.pending = m :: rest) (hle : m.retryCount ≤ 10) (a : Attempt) (now : Int64)
    (ok : Bool) :
    o.trial (.retryNext a now ok) = some ⟨m.recipientId, m.envelope, o.caller m.id, a⟩ := by
  simp only [trial, hp, if_pos hle]

/-- An attempt makes a frame or none; the send goes through if the transport takes the frame. -/
theorem makes_cases (o : Outpost) (t : Trial) :
    (o.makes S t = [] ∧
      (o.system.dispatcher.attempt S t.recipient t.plaintext t.attempt).2 = false) ∨
    ∃ frame, o.makes S t = [⟨t.recipient, t.plaintext, frame, t.call, t.attempt.taken⟩] ∧
      (o.system.dispatcher.attempt S t.recipient t.plaintext t.attempt).2 = t.attempt.taken := by
  unfold makes Dispatcher.attempt
  rcases o.system.dispatcher.sendMessageToDevice S t.recipient t.plaintext t.attempt.draw with
    ⟨d, err | frame⟩
  · exact .inl ⟨rfl, rfl⟩
  · exact .inr ⟨frame, rfl, rfl⟩

theorem Sound.call_lt (h : o.Sound) {f : Made} (hf : f ∈ o.made) : f.call < o.calls.length := by
  obtain ⟨remote, hcall, -⟩ := h.genuine f hf
  exact (List.getElem?_eq_some_iff.mp hcall).1

theorem Of.lt {r : QueuedMessage} (h : o.Of r) : o.caller r.id < o.calls.length := by
  obtain ⟨remote, hcall, -⟩ := h
  exact (List.getElem?_eq_some_iff.mp hcall).1

/-- **One more frame**: rows go on as rows of their calls, and a frame that is taken is for a call
that was open and waits no longer. -/
theorem Sound.go (h : o.Sound) (ho : o'.system.Orderly) (hcalls : o'.calls = o.calls)
    (hcaller : o'.caller = o.caller)
    (hknown : ∀ r', o'.Known r' → ∃ r, o.Known r ∧ QueuedMessage.Same r r')
    (hwaits : ∀ r', o'.Waits r' → ∃ r, o.Waits r ∧ QueuedMessage.Same r r')
    (hmade : o'.made = o.made ∨ ∃ f, o'.made = o.made ++ [f] ∧ o.Genuine f ∧
      (f.taken = true → o.Open f.call ∧ ∀ r', o'.Waits r' → o.caller r'.id ≠ f.call)) :
    o'.Sound := by
  have hgenuine : ∀ f, o.Genuine f → o'.Genuine f := fun f hf => by
    rw [Genuine, hcalls]
    exact hf
  have hof : ∀ r', o'.Known r' → o'.Of r' := fun r' hr' => by
    obtain ⟨r, hr, hsame⟩ := hknown r' hr'
    obtain ⟨remote, hcall, hremote⟩ := h.of r hr
    refine ⟨remote, ?_, hsame.recipientId.trans hremote⟩
    rw [hcalls, hcaller, hsame.id, hsame.envelope]
    exact hcall
  have hdistinct : ∀ r' s', o'.Known r' → o'.Known s' → o'.caller r'.id = o'.caller s'.id →
      r'.id = s'.id := fun r' s' hr' hs' he => by
    obtain ⟨r, hr, hrsame⟩ := hknown r' hr'
    obtain ⟨s, hs, hssame⟩ := hknown s' hs'
    rw [hcaller, hrsame.id, hssame.id] at he
    rw [hrsame.id, hssame.id]
    exact h.distinct r s hr hs he
  have hopen : ∀ r', o'.Waits r' → o.Open (o'.caller r'.id) := fun r' hr' => by
    obtain ⟨r, hr, hsame⟩ := hwaits r' hr'
    rw [hcaller, hsame.id]
    exact h.waits r hr
  rcases hmade with hmade | ⟨f, hmade, hf, htaken⟩
  · refine ⟨ho, hmade ▸ h.once, fun f hf => hgenuine f (h.genuine f (hmade ▸ hf)), hof, hdistinct,
      fun r' hr' f hf => hopen r' hr' f (hmade ▸ hf)⟩
  · refine ⟨ho, ?_, fun g hg => ?_, hof, hdistinct, fun r' hr' g hg hgt => ?_⟩
    · rw [hmade, List.filter_append, List.map_append, List.nodup_append]
      refine ⟨h.once, ?_, fun n hn n' hn' he => ?_⟩
      · rw [List.filter_singleton]
        cases f.taken <;> simp
      · obtain ⟨g, hg, rfl⟩ := List.mem_map.mp hn
        obtain ⟨hg, hgt⟩ := List.mem_filter.mp hg
        obtain ⟨g', hg', rfl⟩ := List.mem_map.mp hn'
        obtain ⟨hg', hgt'⟩ := List.mem_filter.mp hg'
        obtain rfl := List.mem_singleton.mp hg'
        exact (htaken hgt').1 g hg hgt he
    · rw [hmade] at hg
      rcases List.mem_append.mp hg with hg | hg
      · exact hgenuine g (h.genuine g hg)
      · obtain rfl := List.mem_singleton.mp hg
        exact hgenuine g hf
    · rw [hmade] at hg
      rcases List.mem_append.mp hg with hg | hg
      · exact hopen r' hr' g hg hgt
      · obtain rfl := List.mem_singleton.mp hg
        rw [hcaller]
        exact ((htaken hgt).2 r' hr').symm

/-- A message of the snapshot is sent, or not; what was sent is marked in the table. -/
theorem Sound.round (h : o.Sound) {m : QueuedMessage} {rest : List QueuedMessage}
    (hp : o.system.pending = m :: rest) {a : Attempt} {now : Int64} {ok : Bool}
    (hmarks : o.Marks S (.retryNext a now ok)) : (o.step S (.retryNext a now ok)).Sound := by
  obtain ⟨hpending, hqueue⟩ := EnhancedDispatcher.retryNext_cons (S := S) hp a now ok
  have hm : m ∈ o.system.pending := hp ▸ List.mem_cons_self
  have ho := h.orderly
  have hrest : ∀ r, r ∈ rest → r ∈ o.system.pending ∧ r.id ≠ m.id := fun r hr => by
    have hdistinct := ho.distinct
    rw [hp, List.pairwise_cons] at hdistinct
    exact ⟨hp ▸ List.mem_cons_of_mem m hr, (hdistinct.1 r hr).1.symm⟩
  have hrows : ∀ r' ∈ (o.step S (.retryNext a now ok)).system.offlineQueue.rows,
      ∃ r ∈ o.system.offlineQueue.rows, QueuedMessage.Same r r' ∧
        (r'.status = .pending → r' = r ∧ (ok = true → r.id ≠ m.id)) := by
    intro r' hr'
    have hr' : r' ∈ (o.system.retryNext S a now ok).offlineQueue.rows := hr'
    rw [hqueue] at hr'
    obtain ⟨r, hr, hsame, -, -, hback⟩ := ho.handle_row hm hr'
    exact ⟨r, hr, hsame, hback⟩
  have hwaits : ∀ r', (o.step S (.retryNext a now ok)).Waits r' → ∃ r, o.Waits r ∧
      QueuedMessage.Same r r' ∧ (ok = true → r.id ≠ m.id) := by
    rintro r' (⟨hr', hstatus⟩ | hr')
    · obtain ⟨r, hr, hsame, hback⟩ := hrows r' hr'
      obtain ⟨rfl, hid⟩ := hback hstatus
      exact ⟨r', .inl ⟨hr, hstatus⟩, hsame, hid⟩
    · have hr' : r' ∈ rest := hpending ▸ hr'
      exact ⟨r', .inr (hrest r' hr').1, ⟨rfl, rfl, rfl, rfl⟩, fun _ => (hrest r' hr').2⟩
  have horderly : (o.step S (.retryNext a now ok)).system.Orderly :=
    EnhancedDispatcher.Orderly.step (S := S) ho (.retryNext a now ok)
  refine h.go horderly rfl rfl (fun r' hr' => ?_)
    (fun r' hr' => (hwaits r' hr').imp fun _ hr => ⟨hr.1, hr.2.1⟩) ?_
  · rcases hr' with hr' | hr'
    · obtain ⟨r, hr, hsame, -⟩ := hrows r' hr'
      exact ⟨r, .inl hr, hsame⟩
    · have hr' : r' ∈ rest := hpending ▸ hr'
      exact ⟨r', .inr (hrest r' hr').1, ⟨rfl, rfl, rfl, rfl⟩⟩
  · have hle : m.retryCount ≤ 10 := by rw [(ho.waiting m hm).2.1]; exact Nat.zero_le _
    have hmade : (o.step S (.retryNext a now ok)).made =
        o.made ++ o.makes S ⟨m.recipientId, m.envelope, o.caller m.id, a⟩ := by
      show o.made ++ ((o.trial _).map (o.makes S)).getD [] = _
      rw [trial_retryNext hp hle]
      rfl
    rcases o.makes_cases (S := S) ⟨m.recipientId, m.envelope, o.caller m.id, a⟩ with
      ⟨hnone, -⟩ | ⟨frame, hone, hsends⟩
    · exact .inl (by rw [hmade, hnone, List.append_nil])
    · refine .inr ⟨_, by rw [hmade, hone], ?_, fun htaken => ⟨h.waits m (.inr hm), fun r' hr' he => ?_⟩⟩
      · obtain ⟨remote, hcall, hremote⟩ := h.of m (.inr hm)
        exact ⟨remote, hcall, .inr hremote⟩
      · have hok : ok = true := hmarks m (by rw [hp]; rfl) (hsends.trans htaken)
        obtain ⟨r, hr, hsame, hid⟩ := hwaits r' hr'
        have hknown : o.Known r := hr.imp_left And.left
        rw [hsame.id] at he
        exact hid hok (h.distinct r m hknown (.inr hm) he)

/-! ### A call

A call is one more; if its send throws, its message gets a row, which waits. -/

section Call

variable {remote pt : Bytes} {timestamp : Int64} {a : Attempt} {now : Int64} {ok : Bool}

/-- The row is that of the call, whose send threw. -/
structure OfCall (S : Sodium) (o : Outpost) (remote pt : Bytes) (a : Attempt) (r : QueuedMessage) :
    Prop where
  id : r.id = o.system.offlineQueue.next
  recipientId : r.recipientId = cText remote
  envelope : r.envelope = pt
  throws : Throws S o.system remote pt a

theorem send_pending (o : Outpost) (remote pt : Bytes) (timestamp : Int64) (a : Attempt)
    (now : Int64) (ok : Bool) :
    (o.step S (.send remote pt timestamp a now ok)).system.pending = o.system.pending := by
  show (o.system.sendMessageToDevice S remote pt timestamp a now ok).pending = _
  unfold EnhancedDispatcher.sendMessageToDevice
  rcases o.system.dispatcher.attempt S remote pt a with ⟨_, _ | _⟩ <;> rfl

theorem send_rows {r : QueuedMessage}
    (hr : r ∈ (o.step S (.send remote pt timestamp a now ok)).system.offlineQueue.rows) :
    r ∈ o.system.offlineQueue.rows ∨ OfCall S o remote pt a r := by
  have hr : r ∈ (o.system.sendMessageToDevice S remote pt timestamp a now ok).offlineQueue.rows :=
    hr
  rw [o.system.send_queue (S := S) remote pt timestamp a now ok] at hr
  split at hr
  · rename_i hthrows
    cases ok with
    | false => exact .inl hr
    | true =>
      rcases OfflineQueue.mem_queueMessage.mp hr with ⟨hr, -⟩ | rfl
      · exact .inl hr
      · exact .inr ⟨rfl, rfl, rfl, hthrows⟩
  · exact .inl hr

theorem send_known {r : QueuedMessage}
    (hr : (o.step S (.send remote pt timestamp a now ok)).Known r) :
    o.Known r ∨ OfCall S o remote pt a r := by
  rcases hr with hr | hr
  · exact (send_rows hr).imp_left .inl
  · exact .inl (.inr (send_pending o remote pt timestamp a now ok ▸ hr))

theorem send_waits {r : QueuedMessage}
    (hr : (o.step S (.send remote pt timestamp a now ok)).Waits r) :
    o.Waits r ∨ OfCall S o remote pt a r := by
  rcases hr with ⟨hr, hstatus⟩ | hr
  · exact (send_rows hr).imp_left fun hr => .inl ⟨hr, hstatus⟩
  · exact .inl (.inr (send_pending o remote pt timestamp a now ok ▸ hr))

theorem Sound.send_caller (h : o.Sound) {r : QueuedMessage} (hr : o.Known r) :
    (o.step S (.send remote pt timestamp a now ok)).caller r.id = o.caller r.id := by
  have hlt : r.id < o.system.offlineQueue.next := by
    rcases hr with hr | hr
    · exact o.system.offlineQueue.lt_next r hr
    · exact (h.orderly.waiting r hr).2.2
  exact update_of_ne (Nat.ne_of_lt hlt) ..

theorem OfCall.caller {r : QueuedMessage} (hr : OfCall S o remote pt a r) :
    (o.step S (.send remote pt timestamp a now ok)).caller r.id = o.calls.length := by
  rw [hr.id]
  exact update_self ..

theorem send_calls {n : ℕ} (hn : n < o.calls.length) :
    (o.step S (.send remote pt timestamp a now ok)).calls[n]? = o.calls[n]? :=
  List.getElem?_append_left hn

theorem send_calls_last :
    (o.step S (.send remote pt timestamp a now ok)).calls[o.calls.length]? = some (remote, pt) :=
  List.getElem?_concat_length

/-- A frame of the call: if it was taken, the send did not throw. -/
structure ForCall (S : Sodium) (o : Outpost) (remote pt : Bytes) (a : Attempt) (f : Made) :
    Prop where
  call : f.call = o.calls.length
  plaintext : f.plaintext = pt
  recipient : f.recipient = remote
  taken : f.taken = true → ¬ Throws S o.system remote pt a

theorem send_made {f : Made} (hf : f ∈ (o.step S (.send remote pt timestamp a now ok)).made) :
    f ∈ o.made ∨ ForCall S o remote pt a f := by
  have hf : f ∈ o.made ++ o.makes S ⟨remote, pt, o.calls.length, a⟩ := hf
  refine (List.mem_append.mp hf).imp_right fun hf => ?_
  rcases o.makes_cases (S := S) ⟨remote, pt, o.calls.length, a⟩ with
    ⟨hnone, -⟩ | ⟨frame, hone, hsends⟩
  · rw [hnone] at hf
    cases hf
  · rw [hone] at hf
    obtain rfl := List.mem_singleton.mp hf
    exact ⟨rfl, rfl, rfl, fun htaken hthrows =>
      Bool.noConfusion (hthrows.symm.trans (hsends.trans htaken))⟩

theorem Sound.send_once (h : o.Sound) :
    (((o.step S (.send remote pt timestamp a now ok)).made.filter Made.taken).map
      Made.call).Nodup := by
  show (((o.made ++ o.makes S ⟨remote, pt, o.calls.length, a⟩).filter _).map _).Nodup
  rcases o.makes_cases (S := S) ⟨remote, pt, o.calls.length, a⟩ with ⟨hnone, -⟩ | ⟨frame, hone, -⟩
  · rw [hnone, List.append_nil]
    exact h.once
  · rw [hone, List.filter_append, List.map_append, List.nodup_append]
    refine ⟨h.once, ?_, fun n hn n' hn' he => ?_⟩
    · rw [List.filter_singleton]
      cases a.taken <;> simp
    · obtain ⟨f, hf, rfl⟩ := List.mem_map.mp hn
      obtain ⟨f', hf', rfl⟩ := List.mem_map.mp hn'
      have hlt := h.call_lt (List.mem_filter.mp hf).1
      rw [he, List.mem_singleton.mp (List.mem_filter.mp hf').1] at hlt
      exact absurd hlt (Nat.lt_irrefl _)

theorem Sound.send_genuine (h : o.Sound) :
    ∀ f ∈ (o.step S (.send remote pt timestamp a now ok)).made,
      (o.step S (.send remote pt timestamp a now ok)).Genuine f := by
  intro f hf
  rcases send_made hf with hf | hf
  · obtain ⟨who, hc, hto⟩ := h.genuine f hf
    exact ⟨who, (send_calls (h.call_lt hf)).trans hc, hto⟩
  · refine ⟨remote, ?_, .inl hf.recipient⟩
    rw [hf.call, hf.plaintext]
    exact send_calls_last

theorem Sound.send_of (h : o.Sound) {r : QueuedMessage}
    (hr : (o.step S (.send remote pt timestamp a now ok)).Known r) :
    (o.step S (.send remote pt timestamp a now ok)).Of r := by
  rcases send_known hr with hr | hr
  · obtain ⟨who, hc, hto⟩ := h.of r hr
    refine ⟨who, ?_, hto⟩
    rw [h.send_caller hr, send_calls (h.of r hr).lt]
    exact hc
  · refine ⟨remote, ?_, hr.recipientId⟩
    rw [hr.caller, hr.envelope]
    exact send_calls_last

theorem Sound.send_distinct (h : o.Sound) {r s : QueuedMessage}
    (hr : (o.step S (.send remote pt timestamp a now ok)).Known r)
    (hs : (o.step S (.send remote pt timestamp a now ok)).Known s)
    (he : (o.step S (.send remote pt timestamp a now ok)).caller r.id =
      (o.step S (.send remote pt timestamp a now ok)).caller s.id) : r.id = s.id := by
  rcases send_known hr with hr | hr <;> rcases send_known hs with hs | hs
  · rw [h.send_caller hr, h.send_caller hs] at he
    exact h.distinct r s hr hs he
  · rw [h.send_caller hr, hs.caller] at he
    exact absurd he (Nat.ne_of_lt (h.of r hr).lt)
  · rw [h.send_caller hs, hr.caller] at he
    exact absurd he.symm (Nat.ne_of_lt (h.of s hs).lt)
  · rw [hr.id, hs.id]

/-- The call is open if its message waits: its send threw, so that no frame of it was taken. -/
theorem Sound.send_open (h : o.Sound) {r : QueuedMessage}
    (hr : (o.step S (.send remote pt timestamp a now ok)).Waits r) :
    (o.step S (.send remote pt timestamp a now ok)).Open
      ((o.step S (.send remote pt timestamp a now ok)).caller r.id) := by
  intro f hf ht
  rcases send_waits hr with hr | hr
  · have hknown : o.Known r := hr.imp_left And.left
    rw [h.send_caller hknown]
    rcases send_made hf with hf | hf
    · exact h.waits r hr f hf ht
    · rw [hf.call]
      exact (Nat.ne_of_lt (h.of r hknown).lt).symm
  · rw [hr.caller]
    rcases send_made hf with hf | hf
    · exact Nat.ne_of_lt (h.call_lt hf)
    · exact absurd hr.throws (hf.taken ht)

theorem Sound.send (h : o.Sound) (remote pt : Bytes) (timestamp : Int64) (a : Attempt) (now : Int64)
    (ok : Bool) : (o.step S (.send remote pt timestamp a now ok)).Sound where
  orderly := EnhancedDispatcher.Orderly.step (S := S) h.orderly (.send remote pt timestamp a now ok)
  once := h.send_once
  genuine := h.send_genuine
  of _ := h.send_of
  distinct _ _ := h.send_distinct
  waits _ := h.send_open

end Call

/-- The rows and the snapshot are read again, or rows are deleted. -/
theorem Sound.keep (h : o.Sound) (ho : o'.system.Orderly) (hcalls : o'.calls = o.calls)
    (hcaller : o'.caller = o.caller) (hmade : o'.made = o.made)
    (hrows : ∀ r ∈ o'.system.offlineQueue.rows, r ∈ o.system.offlineQueue.rows)
    (hpending : ∀ r ∈ o'.system.pending, o.Waits r) : o'.Sound := by
  have hwaits : ∀ r, o'.Waits r → o.Waits r := by
    rintro r (⟨hr, hstatus⟩ | hr)
    · exact .inl ⟨hrows r hr, hstatus⟩
    · exact hpending r hr
  refine h.go ho hcalls hcaller (fun r hr => ⟨r, ?_, rfl, rfl, rfl, rfl⟩)
    (fun r hr => ⟨r, hwaits r hr, rfl, rfl, rfl, rfl⟩) (.inl hmade)
  rcases hr with hr | hr
  · exact .inl (hrows r hr)
  · exact (hpending r hr).imp_left And.left

/-- **An event keeps the books of a device sound**, if what it sends again it also marks. -/
theorem Sound.step (h : o.Sound) {ev : Event} (hmarks : o.Marks S ev) : (o.step S ev).Sound := by
  have horderly : (o.step S ev).system.Orderly := EnhancedDispatcher.Orderly.step (S := S) h.orderly ev
  have hmade : o.trial ev = none → (o.step S ev).made = o.made := fun hnone => by
    show o.made ++ ((o.trial ev).map (o.makes S)).getD [] = _
    rw [hnone]
    exact List.append_nil _
  cases ev with
  | send remote pt timestamp a now ok => exact h.send remote pt timestamp a now ok
  | retryNext a now ok =>
    rcases hp : o.system.pending with _ | ⟨m, rest⟩
    · have hstays : (o.step S (.retryNext a now ok)).system = o.system := by
        show o.system.retryNext S a now ok = o.system
        rw [EnhancedDispatcher.retryNext, hp]
      refine h.keep horderly rfl rfl (hmade (by simp only [trial, hp])) ?_ ?_ <;> rw [hstays]
      · exact fun r hr => hr
      · exact fun r hr => .inr hr
    · exact h.round hp hmarks
  | beginRetry ok =>
    by_cases hidle : o.system.connectionState = .offline ∨ o.system.pending ≠ []
    · have hstays : (o.step S (.beginRetry ok)).system = o.system := if_pos hidle
      refine h.keep horderly rfl rfl (hmade rfl) ?_ ?_ <;> rw [hstays]
      · exact fun r hr => hr
      · exact fun r hr => .inr hr
    · have hbegin : (o.step S (.beginRetry ok)).system =
          { o.system with pending := o.system.offlineQueue.getPendingMessages ok } := if_neg hidle
      refine h.keep horderly rfl rfl (hmade rfl) ?_ ?_ <;> rw [hbegin]
      · exact fun r hr => hr
      · exact fun r hr => .inl (Retried.mem_getPendingMessages hr).2
  | cleanup daysToKeep now ok =>
    refine h.keep horderly rfl rfl (hmade rfl) (fun r hr => ?_) fun r hr => .inr hr
    cases ok with
    | false => exact hr
    | true => exact (OfflineQueue.mem_cleanup.mp hr).1
  | registerDevice | createSessionWith | receive | setOfflineMode | checkConnectivity =>
    exact h.keep horderly rfl rfl (hmade rfl) (fun r hr => hr) fun r hr => .inr hr

end Outpost

end SecureComm
