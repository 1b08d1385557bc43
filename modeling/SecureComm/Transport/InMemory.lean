import Mathlib.Logic.Function.Basic
import SecureComm.Basic
import SecureComm.Lib.Run

/-!
# The in-memory transport

`send` puts the bytes into the queue of the transport that the bridge names as the
peer, and a worker thread of that transport hands them to its callback. The threads
that send, the workers and the threads that start and stop the transports take
turns at the grain of the mutex: what is done under it is cut at its reads of
`running_`, which `stop` stores without the mutex.
-/

namespace SecureComm

open Function

inductive Place where
  /-- There is none, or it has been joined. -/
  | absent
  /-- It has started and is to lock the mutex. -/
  | starting
  /-- At `while (running_)`. -/
  | looping
  /-- In `wait`, at the predicate. -/
  | checking
  /-- The predicate was false: it is to go to sleep. -/
  | testing
  | blocked
  /-- Woken, it is to lock the mutex and go back to the predicate. -/
  | woken
  /-- At `while (!queue_.empty())`. -/
  | draining
  /-- It has released the mutex for the callback. -/
  | calling (msg : Bytes)
  | exited
  deriving DecidableEq

namespace Place

def locks : Place → Bool
  | looping | checking | testing | draining => true
  | _ => false

def inHand : Place → List Bytes
  | calling msg => [msg]
  | _ => []

/-- What a notification does to the worker. -/
def notified : Place → Place
  | blocked => woken
  | p => p

end Place

structure InMemoryTransport where
  queue : List Bytes := []
  onMessage : Bool := false
  running : Bool := false
  worker : Place := .absent

namespace InMemoryTransport

/-- Already started, it stays as it is; otherwise there is a new worker. -/
def start (t : InMemoryTransport) : InMemoryTransport :=
  if t.running then t else { t with running := true, worker := .starting }

/-- The store of `stop`. -/
def stop (t : InMemoryTransport) : InMemoryTransport := { t with running := false }

/-- `notify_one` and `notify_all` alike: nobody waits but the worker. -/
def notify (t : InMemoryTransport) : InMemoryTransport := { t with worker := t.worker.notified }

/-- The push of `deliver`, which waits while the worker has the mutex. -/
def push (t : InMemoryTransport) (bytes : Bytes) : InMemoryTransport :=
  { t with queue := t.queue ++ [bytes] }

def setOnMessage (t : InMemoryTransport) : InMemoryTransport := { t with onMessage := true }

/-- One step of the worker. -/
def work (t : InMemoryTransport) : InMemoryTransport :=
  match t.worker with
  | .starting => { t with worker := .looping }
  | .looping => { t with worker := if t.running then .checking else .exited }
  | .checking =>
    { t with worker := if t.queue ≠ [] ∨ t.running = false then .draining else .testing }
  | .testing => { t with worker := .blocked }
  | .woken => { t with worker := .checking }
  | .draining =>
    match t.queue with
    | [] => { t with worker := .looping }
    | msg :: queue => { t with queue, worker := .calling msg }
  | .calling _ => { t with worker := .draining }
  | .absent | .blocked | .exited => t

/-- What that step hands to the callback. -/
def called (t : InMemoryTransport) : List Bytes := if t.onMessage then t.worker.inHand else []

/-- The end of `stop`: a worker that is done is joined. -/
def join (t : InMemoryTransport) : InMemoryTransport := { t with worker := .absent }

/-- `stop` has nothing to wait for. -/
def joinable (t : InMemoryTransport) : Bool := t.worker = .absent ∨ t.worker = .exited

end InMemoryTransport

/-- The peers of transports; `expired` are those whose owner is gone. -/
structure TransportBridge (ι : Type) where
  connections : ι → Option ι := fun _ => none
  expired : ι → Bool := fun _ => false

namespace TransportBridge

variable {ι : Type} [DecidableEq ι]

def connect (b : TransportBridge ι) (i j : ι) : TransportBridge ι :=
  { b with connections := update b.connections i (some j) }

def disconnect (b : TransportBridge ι) (i : ι) : TransportBridge ι :=
  { b with connections := update b.connections i none }

def getPeer (b : TransportBridge ι) (i : ι) : Option ι :=
  (b.connections i).filter fun j => !b.expired j

/-- Where `send` delivers: without a peer, to the transport itself. -/
def target (b : TransportBridge ι) (i : ι) : ι := (b.getPeer i).getD i

end TransportBridge

inductive Caller (ι : Type) where
  | idle
  /-- `get_peer` has returned: the bytes are to be pushed. -/
  | routed (target : ι) (bytes : Bytes)
  /-- They are in the queue: the worker is to be notified. -/
  | pushed (target : ι)
  deriving DecidableEq

inductive Owner where
  | idle
  | stored
  | joining
  deriving DecidableEq

/-- Transports `ι` that threads `τ` send on. -/
structure Transports (ι τ : Type) where
  bridge : TransportBridge ι := {}
  transport : ι → InMemoryTransport := fun _ => {}
  caller : τ → Caller ι := fun _ => .idle
  owner : ι → Owner := fun _ => .idle

namespace Transports

variable {ι τ : Type}

inductive Event (ι τ : Type) where
  | connect (i j : ι)
  | disconnect (i : ι)
  | expire (i : ι)
  | setOnMessage (i : ι)
  | send (t : τ) (i : ι) (bytes : Bytes)
  | push (t : τ)
  | notify (t : τ)
  | start (i : ι)
  | stop (i : ι)
  | notifyAll (i : ι)
  | join (i : ι)
  | work (i : ι)
  /-- A worker wakes up that nobody has notified. -/
  | wake (i : ι)

variable [DecidableEq ι]

def modify (s : Transports ι τ) (i : ι) (f : InMemoryTransport → InMemoryTransport) : Transports ι τ :=
  { s with transport := update s.transport i (f (s.transport i)) }

def advance (s : Transports ι τ) (i : ι) (f : InMemoryTransport → InMemoryTransport) (o : Owner) :
    Transports ι τ := { s.modify i f with owner := update s.owner i o }

section modify

variable (s : Transports ι τ) {i j : ι} (f : InMemoryTransport → InMemoryTransport) (o : Owner)

@[simp] theorem modify_caller : (s.modify i f).caller = s.caller := rfl
@[simp] theorem modify_owner : (s.modify i f).owner = s.owner := rfl
@[simp] theorem modify_bridge : (s.modify i f).bridge = s.bridge := rfl

theorem modify_transport_self : (s.modify i f).transport i = f (s.transport i) := update_self _ _ _

theorem modify_transport_ne (hj : j ≠ i) : (s.modify i f).transport j = s.transport j :=
  update_of_ne hj _ _

@[simp] theorem advance_transport : (s.advance i f o).transport = (s.modify i f).transport := rfl
@[simp] theorem advance_caller : (s.advance i f o).caller = s.caller := rfl

theorem advance_owner_self : (s.advance i f o).owner i = o := update_self _ _ _

theorem advance_owner_ne (hj : j ≠ i) : (s.advance i f o).owner j = s.owner j := update_of_ne hj _ _

end modify

variable [DecidableEq τ]

/-- A thread that is not where the event finds it, or waits there, does nothing. -/
def step (s : Transports ι τ) : Event ι τ → Transports ι τ
  | .connect i j => { s with bridge := s.bridge.connect i j }
  | .disconnect i => { s with bridge := s.bridge.disconnect i }
  | .expire i => { s with bridge := { s.bridge with expired := update s.bridge.expired i true } }
  | .setOnMessage i => s.modify i .setOnMessage
  | .send t i bytes =>
    match s.caller t with
    | .idle => { s with caller := update s.caller t (.routed (s.bridge.target i) bytes) }
    | _ => s
  | .push t =>
    match s.caller t with
    | .routed j bytes =>
      if (s.transport j).worker.locks then s
      else { s.modify j (·.push bytes) with caller := update s.caller t (.pushed j) }
    | _ => s
  | .notify t =>
    match s.caller t with
    | .pushed j => { s.modify j .notify with caller := update s.caller t .idle }
    | _ => s
  | .start i => if s.owner i = .idle then s.modify i .start else s
  | .stop i => if s.owner i = .idle then s.advance i .stop .stored else s
  | .notifyAll i => if s.owner i = .stored then s.advance i .notify .joining else s
  | .join i =>
    if s.owner i = .joining ∧ (s.transport i).joinable then s.advance i .join .idle else s
  | .work i => s.modify i .work
  | .wake i => s.modify i .notify

variable (s : Transports ι τ) (j : ι)

/-- What an event makes of a transport and its owner. -/
inductive Does : Event ι τ → InMemoryTransport → Owner → Prop where
  | same {e} (he : e ≠ .work j) : Does e (s.transport j) (s.owner j)
  | setOnMessage : Does (.setOnMessage j) (s.transport j).setOnMessage (s.owner j)
  | push {t bytes} (hc : s.caller t = .routed j bytes) (hl : (s.transport j).worker.locks = false) :
      Does (.push t) ((s.transport j).push bytes) (s.owner j)
  | notify {t} (hc : s.caller t = .pushed j) : Does (.notify t) (s.transport j).notify (s.owner j)
  | start (ho : s.owner j = .idle) : Does (.start j) (s.transport j).start .idle
  | stop (ho : s.owner j = .idle) : Does (.stop j) (s.transport j).stop .stored
  | notifyAll (ho : s.owner j = .stored) : Does (.notifyAll j) (s.transport j).notify .joining
  | join (ho : s.owner j = .joining) (hj : (s.transport j).joinable = true) :
      Does (.join j) (s.transport j).join .idle
  | work : Does (.work j) (s.transport j).work (s.owner j)
  | wake : Does (.wake j) (s.transport j).notify (s.owner j)

variable {s j}

omit [DecidableEq τ] in
theorem Does.modify {e : Event ι τ} {i : ι} {f : InMemoryTransport → InMemoryTransport}
    (hself : j = i → Does s j e (f (s.transport j)) (s.owner j)) (hsame : j ≠ i → e ≠ .work j) :
    Does s j e ((s.modify i f).transport j) (s.owner j) := by
  by_cases hj : j = i
  · subst hj
    rw [modify_transport_self]
    exact hself rfl
  · rw [modify_transport_ne s _ hj]
    exact .same (hsame hj)

omit [DecidableEq τ] in
theorem Does.advance {e : Event ι τ} {i : ι} {f : InMemoryTransport → InMemoryTransport} {o : Owner}
    (hself : j = i → Does s j e (f (s.transport j)) o) (hsame : e ≠ .work j) :
    Does s j e ((s.advance i f o).transport j) ((s.advance i f o).owner j) := by
  rw [advance_transport]
  by_cases hj : j = i
  · subst hj
    rw [modify_transport_self, advance_owner_self]
    exact hself rfl
  · rw [modify_transport_ne s _ hj, advance_owner_ne s _ _ hj]
    exact .same hsame

variable (s j)

/-- **What one event does** to any of the transports. -/
theorem does (e : Event ι τ) : Does s j e ((s.step e).transport j) ((s.step e).owner j) := by
  cases e with
  | connect | disconnect | expire => exact .same (by simp)
  | setOnMessage i => exact .modify (fun hj => hj ▸ .setOnMessage) (by simp)
  | work i => exact .modify (fun hj => hj ▸ .work) (by simpa using fun hj => Ne.symm hj)
  | wake i => exact .modify (fun hj => hj ▸ .wake) (by simp)
  | send t i bytes =>
    rw [step]
    split <;> exact .same (by simp)
  | push t =>
    rw [step]
    split
    · rename_i i bytes hc
      split
      · exact .same (by simp)
      · rename_i hl
        refine .modify (i := i) (f := (·.push bytes)) (fun hj => ?_) (by simp)
        subst hj
        exact .push hc (by simpa using hl)
    · exact .same (by simp)
  | notify t =>
    rw [step]
    split
    · rename_i i hc
      refine .modify (i := i) (fun hj => ?_) (by simp)
      subst hj
      exact .notify hc
    · exact .same (by simp)
  | start i =>
    rw [step]
    split
    · rename_i ho
      exact .modify (fun hj => by subst hj; exact ho ▸ .start ho) (by simp)
    · exact .same (by simp)
  | stop i =>
    rw [step]
    split
    · rename_i ho
      exact .advance (fun hj => hj ▸ .stop (hj ▸ ho)) (by simp)
    · exact .same (by simp)
  | notifyAll i =>
    rw [step]
    split
    · rename_i ho
      exact .advance (fun hj => hj ▸ .notifyAll (hj ▸ ho)) (by simp)
    · exact .same (by simp)
  | join i =>
    rw [step]
    split
    · rename_i ho
      exact .advance (fun hj => by subst hj; exact .join ho.1 ho.2) (by simp)
    · exact .same (by simp)

end Transports

end SecureComm
