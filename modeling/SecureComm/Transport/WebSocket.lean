import SecureComm.Basic
import SecureComm.Lib.Run

/-!
# The WebSocket transport

Between `start` and `stop`: a region under the mutex is one step, as is the
result of a request. The send thread and the receive thread wait on one
condition variable, and `notify_one` wakes whichever of the waiting threads it
pleases. The send thread takes a message out of the queue before it looks
whether there is a connection, so a message is accounted for exactly as long as
there is one and the server takes every POST (`conserved_iff_clear`).
-/

namespace SecureComm

open Run

inductive Worker where
  /-- It is to lock the mutex and look at its queue, for the first time or after a wake-up. -/
  | ready
  /-- It is in `wait`. -/
  | blocked
  | popped (data : Bytes)
  /-- The send thread is in a POST of the data. -/
  | posting (data : Bytes)
  deriving DecidableEq

inductive Outcome where
  /-- The status of the response is 200. -/
  | ok
  | failed
  | threw
  deriving DecidableEq

structure WebSocketTransport where
  sendQueue : List Bytes := []
  /-- Nothing is ever pushed to it. -/
  receiveQueue : List Bytes := []
  connected : Bool := false
  sender : Worker := .ready
  receiver : Worker := .ready

namespace WebSocketTransport

def start (t : WebSocketTransport) : WebSocketTransport :=
  { t with sender := .ready, receiver := .ready }

/-- One waiting thread is woken; `first` chooses the send thread where both wait. -/
def notifyOne (t : WebSocketTransport) (first : Bool) : WebSocketTransport :=
  if t.sender = .blocked ∧ (first ∨ t.receiver ≠ .blocked) then { t with sender := .ready }
  else if t.receiver = .blocked then { t with receiver := .ready }
  else t

def send (t : WebSocketTransport) (bytes : Bytes) (first : Bool) : WebSocketTransport :=
  { t with sendQueue := t.sendQueue ++ [bytes] }.notifyOne first

/-- A round of `poll_server`, by the result of `GET /health`. -/
def pollServer (t : WebSocketTransport) (o : Outcome) : WebSocketTransport :=
  { t with connected := o = .ok }

/-- The send thread, up to the POST in `send_impl`. -/
def sendThread (t : WebSocketTransport) : WebSocketTransport :=
  match t.sender with
  | .ready =>
    match t.sendQueue with
    | [] => { t with sender := .blocked }
    | data :: sendQueue => { t with sendQueue, sender := .popped data }
  | .popped data =>
    if data ≠ [] ∧ t.connected then { t with sender := .posting data }
    else { t with sender := .ready }
  | .blocked | .posting _ => t

/-- The POST of `send_impl` ends. -/
def posted (t : WebSocketTransport) (o : Outcome) : WebSocketTransport :=
  match t.sender with
  | .posting _ => { t with sender := .ready, connected := t.connected && o ≠ .threw }
  | _ => t

/-- The receive thread; the callback is handed what was popped. -/
def receiveThread (t : WebSocketTransport) : WebSocketTransport :=
  match t.receiver with
  | .ready =>
    match t.receiveQueue with
    | [] => { t with receiver := .blocked }
    | data :: receiveQueue => { t with receiveQueue, receiver := .popped data }
  | .popped _ => { t with receiver := .ready }
  | .blocked | .posting _ => t

inductive Event where
  | send (bytes : Bytes) (first : Bool)
  | poll (o : Outcome)
  | sendThread
  | posted (o : Outcome)
  | receiveThread

def step (t : WebSocketTransport) : Event → WebSocketTransport
  | .send bytes first => t.send bytes first
  | .poll o => t.pollServer o
  | .sendThread => t.sendThread
  | .posted o => t.posted o
  | .receiveThread => t.receiveThread

/-! ## The messages of a transport -/

/-- A transport with the messages that were passed to `send`, and those that the server
has taken, each in order. -/
structure Accounted where
  transport : WebSocketTransport
  accepted : List Bytes
  taken : List Bytes

end WebSocketTransport

def Worker.inHand : Worker → List Bytes
  | .popped data | .posting data => [data]
  | .ready | .blocked => []

namespace WebSocketTransport.Accounted

open WebSocketTransport (Event)

def start (t : WebSocketTransport) : Accounted := ⟨t.start, t.sendQueue, []⟩

def step (w : Accounted) (ev : Event) : Accounted where
  transport := w.transport.step ev
  accepted :=
    match ev with
    | .send bytes _ => w.accepted ++ [bytes]
    | _ => w.accepted
  taken :=
    match ev, w.transport.sender with
    | .posted .ok, .posting data => w.taken ++ [data]
    | _, _ => w.taken

/-- **Nothing is dropped**: every message is still in the queue, in the hands of the
send thread, or was taken by the server, and all in the order of `send`. -/
def Conserved (w : Accounted) : Prop :=
  w.accepted = w.taken ++ w.transport.sender.inHand ++ w.transport.sendQueue

/-- Only data that is not empty is sent. -/
def NonEmpty (_ : Accounted) : Event → Prop
  | .send bytes _ => bytes ≠ []
  | _ => True

/-- When the send thread has a message in its hands there is a connection, and the
server takes the message. -/
def Clear (w : Accounted) : Event → Prop
  | .sendThread => ∀ data, w.transport.sender = .popped data → w.transport.connected = true
  | .posted o => ∀ data, w.transport.sender = .posting data → o = .ok
  | _ => True

def Filled (w : Accounted) : Prop :=
  ∀ data ∈ w.transport.sender.inHand ++ w.transport.sendQueue, data ≠ []

variable {w : Accounted}

theorem notifyOne_sending (t : WebSocketTransport) (first : Bool) :
    (t.notifyOne first).sendQueue = t.sendQueue ∧
      (t.notifyOne first).sender.inHand = t.sender.inHand := by
  unfold notifyOne
  split
  · rename_i h
    exact ⟨rfl, by rw [h.1]; rfl⟩
  · split
    · exact ⟨rfl, rfl⟩
    · exact ⟨rfl, rfl⟩

theorem receiveThread_sending (t : WebSocketTransport) :
    t.receiveThread.sendQueue = t.sendQueue ∧ t.receiveThread.sender = t.sender := by
  unfold receiveThread
  split
  · split <;> exact ⟨rfl, rfl⟩
  · exact ⟨rfl, rfl⟩
  · exact ⟨rfl, rfl⟩
  · exact ⟨rfl, rfl⟩

/-- An event hands a message on, or does not touch one. -/
structure Moves (w w' : Accounted) : Prop where
  accepted : w'.accepted = w.accepted
  taken : w'.taken = w.taken
  sending : w'.transport.sender.inHand ++ w'.transport.sendQueue =
    w.transport.sender.inHand ++ w.transport.sendQueue

/-- A message comes in at the end of the queue. -/
structure Accepts (w w' : Accounted) (bytes : Bytes) : Prop where
  accepted : w'.accepted = w.accepted ++ [bytes]
  taken : w'.taken = w.taken
  sending : w'.transport.sender.inHand ++ w'.transport.sendQueue =
    w.transport.sender.inHand ++ w.transport.sendQueue ++ [bytes]

/-- The send thread is done with the message in its hands; the server has it or not. -/
structure Finishes (w w' : Accounted) (data : Bytes) (posted : Prop) : Prop where
  accepted : w'.accepted = w.accepted
  before : w.transport.sender.inHand = [data]
  after : w'.transport.sender.inHand = []
  queue : w'.transport.sendQueue = w.transport.sendQueue
  taken : posted ∧ w'.taken = w.taken ++ [data] ∨ ¬ posted ∧ w'.taken = w.taken

theorem sendThread_cases (h : Filled w) :
    Moves w (w.step .sendThread) ∧ Clear w .sendThread ∨
      ∃ data, Finishes w (w.step .sendThread) data (Clear w .sendThread) := by
  rcases hs : w.transport.sender with _ | _ | data | data
  · refine .inl ⟨⟨rfl, rfl, ?_⟩, fun data hd => absurd (hs.symm.trans hd) nofun⟩
    show w.transport.sendThread.sender.inHand ++ w.transport.sendThread.sendQueue = _
    rcases hq : w.transport.sendQueue with _ | ⟨data, rest⟩
    · simp only [sendThread, hs, hq, Worker.inHand]
    · simp only [sendThread, hs, hq, Worker.inHand, List.singleton_append, List.nil_append]
  · have hstays : w.transport.sendThread = w.transport := by simp only [sendThread, hs]
    refine .inl ⟨⟨rfl, rfl, ?_⟩, fun data hd => absurd (hs.symm.trans hd) nofun⟩
    show w.transport.sendThread.sender.inHand ++ w.transport.sendThread.sendQueue = _
    rw [hstays]
  · have hdata : data ≠ [] := h data (by simp [hs, Worker.inHand])
    by_cases hc : w.transport.connected = true
    · refine .inl ⟨⟨rfl, rfl, ?_⟩, fun _ _ => hc⟩
      show w.transport.sendThread.sender.inHand ++ w.transport.sendThread.sendQueue = _
      simp only [sendThread, hs, if_pos (And.intro hdata hc), Worker.inHand]
    · have hlost : w.transport.sendThread = { w.transport with sender := .ready } := by
        simp only [sendThread, hs, if_neg fun h : data ≠ [] ∧ _ => hc h.2]
      refine .inr ⟨data, rfl, by rw [hs]; rfl, ?_, ?_, .inr ⟨fun hclear => hc (hclear data hs), rfl⟩⟩
      · exact congrArg (·.sender.inHand) hlost
      · exact congrArg (·.sendQueue) hlost
  · have hstays : w.transport.sendThread = w.transport := by simp only [sendThread, hs]
    refine .inl ⟨⟨rfl, rfl, ?_⟩, fun data hd => absurd (hs.symm.trans hd) nofun⟩
    show w.transport.sendThread.sender.inHand ++ w.transport.sendThread.sendQueue = _
    rw [hstays]

theorem posted_cases (w : Accounted) (o : Outcome) :
    Moves w (w.step (.posted o)) ∧ Clear w (.posted o) ∨
      ∃ data, Finishes w (w.step (.posted o)) data (Clear w (.posted o)) := by
  by_cases hs : ∃ data, w.transport.sender = .posting data
  · obtain ⟨data, hs⟩ := hs
    have hdone : w.transport.posted o =
        { w.transport with sender := .ready, connected := w.transport.connected && o ≠ .threw } := by
      simp only [posted, hs]
    refine .inr ⟨data, rfl, by rw [hs]; rfl, congrArg (·.sender.inHand) hdone,
      congrArg (·.sendQueue) hdone, ?_⟩
    cases o with
    | ok => exact .inl ⟨fun _ _ => rfl, by simp only [step, hs]⟩
    | failed => exact .inr ⟨fun hclear => absurd (hclear data hs) nofun, rfl⟩
    | threw => exact .inr ⟨fun hclear => absurd (hclear data hs) nofun, rfl⟩
  · have hstays : w.transport.posted o = w.transport := by
      unfold posted
      split
      · rename_i data hs'
        exact absurd ⟨data, hs'⟩ hs
      · rfl
    refine .inl ⟨⟨rfl, ?_, ?_⟩, fun data hd => absurd ⟨data, hd⟩ hs⟩
    · simp only [step]
      split
      · rename_i data _ hs'
        exact absurd ⟨data, hs'⟩ hs
      · rfl
    · show (w.transport.posted o).sender.inHand ++ (w.transport.posted o).sendQueue = _
      rw [hstays]

/-- **What an event does to a message**: it comes in at the end of the queue, goes on to the
hands of the send thread, or leaves them. -/
theorem step_cases (h : Filled w) (ev : Event) (hne : NonEmpty w ev) :
    Moves w (w.step ev) ∧ Clear w ev ∨
    (∃ bytes, bytes ≠ [] ∧ Accepts w (w.step ev) bytes ∧ Clear w ev) ∨
    ∃ data, Finishes w (w.step ev) data (Clear w ev) := by
  cases ev with
  | send bytes first =>
    obtain ⟨hqueue, hhand⟩ :=
      notifyOne_sending { w.transport with sendQueue := w.transport.sendQueue ++ [bytes] } first
    refine .inr (.inl ⟨bytes, hne, ⟨rfl, rfl, ?_⟩, trivial⟩)
    show (w.transport.send bytes first).sender.inHand ++ (w.transport.send bytes first).sendQueue = _
    rw [send, hqueue, hhand, List.append_assoc]
  | poll o => exact .inl ⟨⟨rfl, rfl, rfl⟩, trivial⟩
  | receiveThread =>
    obtain ⟨hqueue, hsender⟩ := receiveThread_sending w.transport
    refine .inl ⟨⟨rfl, rfl, ?_⟩, trivial⟩
    show w.transport.receiveThread.sender.inHand ++ w.transport.receiveThread.sendQueue = _
    rw [hqueue, hsender]
  | sendThread => exact (sendThread_cases h).imp_right .inr
  | posted o => exact (posted_cases w o).imp_right .inr

theorem Filled.step (h : Filled w) (ev : Event) (hne : NonEmpty w ev) : Filled (w.step ev) := by
  unfold Filled at h ⊢
  rcases step_cases h ev hne with ⟨hmoves, -⟩ | ⟨bytes, hbytes, haccepts, -⟩ | ⟨data, hfin⟩
  · rwa [hmoves.sending]
  · rw [haccepts.sending]
    intro data hd
    rcases List.mem_append.mp hd with hd | hd
    · exact h data hd
    · rwa [List.mem_singleton.mp hd]
  · rw [hfin.after, hfin.queue]
    exact fun data hd => h data (List.mem_append_right _ hd)

/-- **An event drops nothing** if and only if the message in hand can go and is taken. -/
theorem conserved_step_iff (ev : Event) (hne : NonEmpty w ev) (hf : Filled w) (h : Conserved w) :
    Conserved (w.step ev) ↔ Clear w ev := by
  unfold Conserved at h ⊢
  rw [List.append_assoc] at h ⊢
  rcases step_cases hf ev hne with
    ⟨hmoves, hclear⟩ | ⟨bytes, -, haccepts, hclear⟩ | ⟨data, hfin⟩
  · refine iff_of_true ?_ hclear
    rw [hmoves.accepted, hmoves.taken, hmoves.sending, h]
  · refine iff_of_true ?_ hclear
    rw [haccepts.accepted, haccepts.taken, haccepts.sending, h, List.append_assoc, List.append_assoc]
  · rw [hfin.accepted, hfin.after, hfin.queue, h, hfin.before]
    rcases hfin.taken with ⟨hclear, htaken⟩ | ⟨hclear, htaken⟩
    · refine iff_of_true ?_ hclear
      rw [htaken, List.nil_append, List.append_assoc]
    · refine iff_of_false (fun heq => ?_) hclear
      rw [htaken, List.nil_append] at heq
      exact List.cons_ne_self data _ (List.append_cancel_left heq)

/-- **The transport drops nothing** in exactly the runs in which, whenever the send thread has
taken a message out of the queue, there is a connection and the server takes it. -/
theorem conserved_iff_clear {t : WebSocketTransport} (ht : ∀ data ∈ t.sendQueue, data ≠ [])
    {evs : List Event} (hne : Along step NonEmpty (start t) evs) :
    Throughout step Conserved (start t) evs ↔ Along step Clear (start t) evs :=
  hne.throughout_iff (I := Filled) (fun _ ev hne h _ => h.step ev hne)
    (fun _ ev hne hf h => conserved_step_iff ev hne hf h) ht rfl

/-- A message is sent before the first poll has found the server. -/
def sampleEvents : List Event := [.send [1] true, .sendThread, .sendThread]

theorem conserved_iff_clear_sample :
    Along step NonEmpty (start {}) sampleEvents ∧
      (Throughout step Conserved (start {}) sampleEvents ↔ Along step Clear (start {}) sampleEvents) :=
  have hne : Along step NonEmpty (start {}) sampleEvents := ⟨nofun, trivial, trivial, trivial⟩
  ⟨hne, conserved_iff_clear (fun _ hd => absurd hd List.not_mem_nil) hne⟩

/-- **A message without a connection is lost**: it is in no queue, and no server has it. -/
theorem dropped_without_connection :
    Along step NonEmpty (start {}) sampleEvents ∧
      (sampleEvents.foldl step (start {})).accepted = [[1]] ∧
      (sampleEvents.foldl step (start {})).taken = [] ∧
      (sampleEvents.foldl step (start {})).transport.sendQueue = [] ∧
      (sampleEvents.foldl step (start {})).transport.sender = .ready ∧
      ¬ Throughout step Conserved (start {}) sampleEvents :=
  ⟨⟨nofun, trivial, trivial, trivial⟩, rfl, rfl, rfl, rfl,
    fun ⟨_, _, _, h⟩ => List.cons_ne_nil _ _ h⟩

end WebSocketTransport.Accounted

end SecureComm
