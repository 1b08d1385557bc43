import Mathlib.Logic.Function.Basic
import SecureComm.Lib.Chan
import SecureComm.Lib.Run
import SecureComm.Server.Database

/-!
# The relay

`serveWS` and the `Hub` as a transition system. Every connection has the
goroutine that runs `serveWS` up to `hub.register` and then the read loop, and
a writer; every payment has a goroutine of its own. A step is one operation of
one of them on what they share: a statement on the database, what `Hub` does
under its mutex, a look at `client.Online`, a send on a channel. Everything
between two such operations is part of the step before.

What happens outside is chosen by the step: what a client sends and when it
hangs up, which statements fail, the clock, how far the writers get.
-/

namespace SecureComm.Server

open Function

/-- Which copy of which frame a datum is: the frame as it was read, what
`processMessage` made of it, or the answer to a payment. Frames and payments
are numbered as they come. The program does not see tags. -/
inductive Tag
  | raw (frame : ℕ)
  | own (frame : ℕ)
  | ack (payment : ℕ)
deriving DecidableEq

structure Item where
  tag : Tag
  data : Bytes
deriving DecidableEq

def sendCap : ℕ := 256

/-- `Client`, with whether its writer runs and what that has written to `Conn`. -/
structure Client where
  id : String := ""
  send : Chan Item sendCap := .make
  online : Bool := false
  writing : Bool := false
  written : List Item := []

/-- A row of `queued_messages`. -/
structure QueuedMessage where
  frame : ℕ
  recipient : String
  sender : String
  payload : Bytes
  type : String
  messageID : String
  timestamp : Int64
deriving DecidableEq

/-- The message that `serveWS` scans a row into. -/
def QueuedMessage.message (r : QueuedMessage) : Message :=
  { type := r.type
    messageID := r.messageID
    senderID := r.sender
    recipient := r.recipient
    payload := r.payload
    timestamp := r.timestamp }

def QueuedMessage.item (J : Json) (r : QueuedMessage) : Item := ⟨.raw r.frame, J.marshal r.message⟩

/-- An element of `h.queue[id]`. -/
structure Queued where
  tag : Tag
  message : Message
deriving DecidableEq

def Queued.item (J : Json) (e : Queued) : Item := ⟨e.tag, J.marshal e.message⟩

/-- Where `Hub.send` is called. -/
inductive Caller
  | readLoop
  | processMessage
  | processPayment
deriving DecidableEq

/-- A call of `Hub.send`: the message, the bytes that are sent for it, and the
number of the frame or payment it is about. -/
structure Send where
  caller : Caller
  number : ℕ
  message : Message
  data : Bytes

def Send.tag (s : Send) : Tag :=
  match s.caller with
  | .readLoop => .raw s.number
  | .processMessage => .own s.number
  | .processPayment => .ack s.number

def Send.item (s : Send) : Item := ⟨s.tag, s.data⟩

/-- The row that the read loop inserts for a message it could not send. -/
def Send.row (s : Send) (now : Int64) : QueuedMessage :=
  { frame := s.number
    recipient := s.message.recipient
    sender := s.message.senderID
    payload := s.message.payload
    type := s.message.type
    messageID := s.message.messageID
    timestamp := now }

/-- The next shared operation of a goroutine. -/
inductive Pc
  | idle
  | querying
  | deleting
  | registering
  | reading
  | lookup (s : Send)
  | check (s : Send) (client : Option ℕ)
  | push (s : Send) (client : ℕ)
  | refused (s : Send)
  | processing (frame : ℕ) (data : Bytes)
  | paying (payment : ℕ) (request : PaymentRequest) (senderID : String)
  | leaving
  | finished

/-- Where a goroutine goes on when its call of `Hub.send`, and what it does if
that fails, is over. -/
def Send.next (s : Send) : Pc :=
  match s.caller with
  | .readLoop => .processing s.number s.data
  | .processMessage => .reading
  | .processPayment => .finished

inductive Goroutine
  | serve (conn : ℕ)
  | pay (payment : ℕ)
deriving DecidableEq

/-- A frame, and the connection it was read from. -/
structure Frame where
  conn : ℕ
  data : Bytes
deriving DecidableEq

/-- A call of `processPayment`, and the frame it was made for. -/
structure Payment where
  frame : ℕ
  request : PaymentRequest
  senderID : String

/-- A value placed on the `Send` channel of a connection. -/
structure Handing where
  conn : ℕ
  item : Item

inductive Panic
  | sendOnClosed
  | closeOfClosed
deriving DecidableEq

/-- `clients` and `queue` are those of the `Hub`, where a connection stands for
its `Client`. `frames`, `payments`, `handed` and `registrations` record what
was read, paid, placed on channels and registered; nothing depends on them. -/
structure Relay where
  users : Users := .empty
  queuedMessages : List QueuedMessage := []
  clients : String → Option ℕ := fun _ => none
  queue : String → List Queued := fun _ => []
  client : ℕ → Client := fun _ => {}
  conns : ℕ := 0
  pc : Goroutine → Pc := fun _ => .idle
  frames : List Frame := []
  payments : List Payment := []
  handed : List Handing := []
  registrations : List ℕ := []
  crash : Option Panic := none

namespace Relay

/-- `NewHub` over an empty database. -/
def start : Relay := {}

def goto (st : Relay) (g : Goroutine) (p : Pc) : Relay := { st with pc := update st.pc g p }

/-- Offer values to the `Send` channel of a connection, dropping what does not fit. -/
def handAll (st : Relay) (c : ℕ) (items : List Item) : Relay :=
  { st with
    client := update st.client c
      { st.client c with send := (st.client c).send.offerAll items }
    handed := st.handed ++ (items.take (st.client c).send.room).map (Handing.mk c) }

/-! ## serveWS -/

/-- Authentication and upgrade succeed; a client is made for the user. -/
def accept (st : Relay) (userID : String) : Relay :=
  { st with
    client := update st.client st.conns { id := userID }
    conns := st.conns + 1
    pc := update st.pc (.serve st.conns) .querying }

/-- The rows `serveWS` selects for a user. -/
def backlog (st : Relay) (id : String) : List QueuedMessage :=
  st.queuedMessages.filter fun r => r.recipient = id

/-- The query for the backlog of the user, and the loop that offers it to the
channel. Nothing is deleted where nothing was selected. -/
def drain (J : Json) (st : Relay) (c : ℕ) (ok : Bool) : Relay :=
  if ok then
    let msgs := st.backlog (st.client c).id
    (st.handAll c (msgs.map (QueuedMessage.item J))).goto (.serve c)
      (if msgs = [] then .registering else .deleting)
  else st.goto (.serve c) .registering

/-- `DELETE FROM queued_messages WHERE recipient = ?`. -/
def delete (st : Relay) (c : ℕ) (ok : Bool) : Relay :=
  if ok then
    { st with
      queuedMessages := st.queuedMessages.filter fun r => r.recipient ≠ (st.client c).id
      }.goto (.serve c) .registering
  else st.goto (.serve c) .registering

/-- A frame is read; the read loop sends it on if it is well formed. -/
def readFrame (J : Json) (st : Relay) (c : ℕ) (data : Bytes) : Relay :=
  { st with frames := st.frames ++ [Frame.mk c data] }.goto (.serve c)
    (match J.unmarshal data with
      | some msg => .lookup ⟨.readLoop, st.frames.length, msg, data⟩
      | none => .processing st.frames.length data)

/-! ## Hub -/

/-- `Hub.register`. -/
def register (J : Json) (st : Relay) (c : ℕ) : Relay :=
  let id := (st.client c).id
  { { st with
        client := update st.client c { st.client c with online := true, writing := true }
      }.handAll c ((st.queue id).map (Queued.item J)) with
    clients := update st.clients id (some c)
    queue := update st.queue id []
    registrations := st.registrations ++ [c] }.goto (.serve c) .reading

/-- `Hub.unregister`, with which the read loop ends. -/
def unregister (st : Relay) (c : ℕ) : Relay :=
  let id := (st.client c).id
  match st.clients id with
  | none => st.goto (.serve c) .finished
  | some d =>
    if (st.client d).send.closed then { st with crash := some .closeOfClosed }
    else
      { st with
        clients := update st.clients id none
        client := update st.client d
          { st.client d with online := false, send := (st.client d).send.close }
        }.goto (.serve c) .finished

/-- `Hub.send` after the lookup: whether it goes on to the channel. -/
def checked (st : Relay) (s : Send) : Option ℕ → Pc
  | some c => if (st.client c).online then .push s c else .refused s
  | none => .refused s

/-- The send on the channel in `Hub.send`. -/
def push (st : Relay) (g : Goroutine) (s : Send) (c : ℕ) : Relay :=
  if (st.client c).send.closed then { st with crash := some .sendOnClosed }
  else if ((st.client c).send.offer s.item).2 then (st.handAll c [s.item]).goto g s.next
  else st.goto g (.refused s)

/-- `Hub.queueMessage`. -/
def queueMessage (st : Relay) (tag : Tag) (msg : Message) : Relay :=
  { st with queue := update st.queue msg.recipient (st.queue msg.recipient ++ [⟨tag, msg⟩]) }

/-- What follows a `Hub.send` that returned false: the read loop inserts a row,
the others queue the message. -/
def fallBack (st : Relay) (g : Goroutine) (s : Send) (ok : Bool) (now : Int64) : Relay :=
  match s.caller with
  | .readLoop =>
    if ok then { st with queuedMessages := st.queuedMessages ++ [s.row now] }.goto g s.next
    else st.goto g s.next
  | _ => (st.queueMessage s.tag s.message).goto g s.next

/-- `Hub.processMessage` up to its call of `Hub.send`. -/
def processMessage (J : Json) (st : Relay) (g : Goroutine) (k : ℕ) (data : Bytes) (now : Int64) :
    Relay :=
  match J.unmarshal data with
  | none => st.goto g .reading
  | some m =>
    let msg := m.stamped now
    if msg.IsPayment then
      match J.unmarshalPayment msg.payload with
      | some payment =>
        { st with
          payments := st.payments ++ [⟨k, payment, msg.senderID⟩]
          pc := update (update st.pc g .reading) (.pay st.payments.length)
            (.paying st.payments.length payment msg.senderID) }
      | none => st.goto g .reading
    else st.goto g (.lookup ⟨.processMessage, k, msg, J.marshal msg⟩)

/-- `Hub.processPayment` up to its call of `Hub.send`. -/
def processPayment (J : Json) (st : Relay) (g : Goroutine) (j : ℕ) (payment : PaymentRequest)
    (senderID : String) (now : Int64) : Relay :=
  let msg := paymentAck J payment senderID now
  st.goto g (.lookup ⟨.processPayment, j, msg, J.marshal msg⟩)

/-- The writer takes the next value off the channel and writes it; it stops
when that fails. -/
def write (st : Relay) (c : ℕ) (ok : Bool) : Relay :=
  if (st.client c).writing then
    match (st.client c).send.recv with
    | some (x, rest) =>
      { st with
        client := update st.client c
          (if ok then
            { st.client c with send := rest, written := (st.client c).written ++ [x] }
          else { st.client c with send := rest, writing := false }) }
    | none => st
  else st

/-! ## Steps -/

/-- What happens next: another handler writes the table of users, a client
connects, sends a frame or hangs up, a goroutine does its next operation (`ok`:
the statement succeeds), a writer writes (`ok`: the write succeeds). -/
inductive Act
  | accounts (users : Users)
  | connect (token : String)
  | read (c : ℕ) (frame : Option Bytes)
  | next (g : Goroutine) (ok : Bool) (now : Int64)
  | write (c : ℕ) (ok : Bool)

def next (J : Json) (st : Relay) (g : Goroutine) (ok : Bool) (now : Int64) : Relay :=
  match g, st.pc g with
  | .serve c, .querying => st.drain J c ok
  | .serve c, .deleting => st.delete c ok
  | .serve c, .registering => st.register J c
  | .serve c, .leaving => st.unregister c
  | g, .lookup s => st.goto g (.check s (st.clients s.message.recipient))
  | g, .check s client => st.goto g (st.checked s client)
  | g, .push s c => st.push g s c
  | g, .refused s => st.fallBack g s ok now
  | g, .processing k data => st.processMessage J g k data now
  | g, .paying j payment senderID => st.processPayment J g j payment senderID now
  | _, _ => st

/-- A panic ends the process; an act that is not possible does nothing. -/
def step (J : Json) (st : Relay) (a : Act) : Relay :=
  if st.crash.isSome then st
  else match a with
    | .accounts users => { st with users := users }
    | .connect token =>
      match getUserByToken st.users token with
      | some userID => if userID = "" then st else st.accept userID
      | none => st
    | .read c frame =>
      match st.pc (.serve c), frame with
      | .reading, some data => st.readFrame J c data
      | .reading, none => st.goto (.serve c) .leaving
      | _, _ => st
    | .next g ok now => st.next J g ok now
    | .write c ok => st.write c ok

end Relay

end SecureComm.Server
