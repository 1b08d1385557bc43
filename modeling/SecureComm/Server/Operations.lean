import SecureComm.Server.Relay

/-!
# What a step of the relay does

`Op` lists the operations a step can be, each with the program counter it
needs and the state it leads to; `step_op` says that every step is one of them.
Invariants are proved by cases on it.
-/

namespace SecureComm.Server

/-- The `Hub.send` that a goroutine is in, or has just failed. -/
def Pc.send? : Pc → Option Send
  | .lookup s | .check s _ | .push s _ | .refused s => some s
  | _ => none

namespace Relay

open Function

variable {J : Json} {st st' : Relay}

/-- The operation that an act is in a state. -/
inductive Op (J : Json) (st : Relay) : Act → Relay → Prop
  | none {a : Act}
    (hpc : st.crash = .none → ∀ g ok now, a = .next g ok now →
      (st.pc g).send? = .none ∧ ∀ c, g = .serve c → st.pc g ≠ .leaving) : Op J st a st
  | accounts (users : Users) : Op J st (.accounts users) { st with users := users }
  | accept {token userID : String} (hu : getUserByToken st.users token = some userID) :
    Op J st (.connect token) (st.accept userID)
  | hangup {c : ℕ} (hpc : st.pc (.serve c) = .reading) :
    Op J st (.read c none) (st.goto (.serve c) .leaving)
  | readFrame {c : ℕ} {data : Bytes} (hpc : st.pc (.serve c) = .reading) :
    Op J st (.read c (some data)) (st.readFrame J c data)
  | drain {c : ℕ} {ok : Bool} {now : Int64} (hpc : st.pc (.serve c) = .querying) :
    Op J st (.next (.serve c) ok now) (st.drain J c ok)
  | delete {c : ℕ} {ok : Bool} {now : Int64} (hpc : st.pc (.serve c) = .deleting) :
    Op J st (.next (.serve c) ok now) (st.delete c ok)
  | register {c : ℕ} {ok : Bool} {now : Int64} (hpc : st.pc (.serve c) = .registering) :
    Op J st (.next (.serve c) ok now) (st.register J c)
  | lookup {g : Goroutine} {s : Send} {ok : Bool} {now : Int64} (hpc : st.pc g = .lookup s) :
    Op J st (.next g ok now) (st.goto g (.check s (st.clients s.message.recipient)))
  | check {g : Goroutine} {s : Send} {t : Option ℕ} {ok : Bool} {now : Int64}
    (hpc : st.pc g = .check s t) : Op J st (.next g ok now) (st.goto g (st.checked s t))
  | push {g : Goroutine} {s : Send} {c : ℕ} {ok : Bool} {now : Int64} (hpc : st.pc g = .push s c) :
    Op J st (.next g ok now) (st.push g s c)
  | fallBack {g : Goroutine} {s : Send} {ok : Bool} {now : Int64} (hpc : st.pc g = .refused s) :
    Op J st (.next g ok now) (st.fallBack g s ok now)
  | process {g : Goroutine} {k : ℕ} {data : Bytes} {ok : Bool} {now : Int64}
    (hpc : st.pc g = .processing k data) :
    Op J st (.next g ok now) (st.processMessage J g k data now)
  | pay {g : Goroutine} {j : ℕ} {payment : PaymentRequest} {senderID : String} {ok : Bool}
    {now : Int64} (hpc : st.pc g = .paying j payment senderID) :
    Op J st (.next g ok now) (st.processPayment J g j payment senderID now)
  | unregister {c : ℕ} {ok : Bool} {now : Int64} (hpc : st.pc (.serve c) = .leaving) :
    Op J st (.next (.serve c) ok now) (st.unregister c)
  | write (c : ℕ) (ok : Bool) : Op J st (.write c ok) (st.write c ok)

theorem next_op (st : Relay) (g : Goroutine) (ok : Bool) (now : Int64) :
    Op J st (.next g ok now) (st.next J g ok now) := by
  unfold next
  split
  case h_1 => exact .drain ‹_›
  case h_2 => exact .delete ‹_›
  case h_3 => exact .register ‹_›
  case h_4 => exact .unregister ‹_›
  case h_5 => exact .lookup ‹_›
  case h_6 => exact .check ‹_›
  case h_7 => exact .push ‹_›
  case h_8 => exact .fallBack ‹_›
  case h_9 => exact .process ‹_›
  case h_10 => exact .pay ‹_›
  case h_11 =>
    rename_i p hlookup hcheck hpush hrefused _ _ _ _ _ hleaving
    refine .none fun _ _ _ _ he => ?_
    obtain ⟨rfl, -, -⟩ := Act.next.inj he
    refine ⟨?_, fun c hg hpc => hleaving c hg hpc⟩
    match hpc : st.pc _ with
    | .lookup s => exact (hlookup s hpc).elim
    | .check s t => exact (hcheck s t hpc).elim
    | .push s c => exact (hpush s c hpc).elim
    | .refused s => exact (hrefused s hpc).elim
    | .idle | .querying | .deleting | .registering | .reading | .processing .. | .paying ..
    | .leaving | .finished => rfl

/-- **Every step is one operation.** -/
theorem step_op (J : Json) (st : Relay) (a : Act) : Op J st a (step J st a) := by
  unfold step
  split
  · rename_i hc
    exact .none fun hn => by rw [hn] at hc; cases hc
  cases a with
  | accounts users => exact .accounts users
  | connect token =>
    simp only
    split
    · split
      · exact .none fun _ _ _ _ he => by cases he
      · exact .accept ‹_›
    · exact .none fun _ _ _ _ he => by cases he
  | read c frame =>
    simp only
    split
    · exact .readFrame ‹_›
    · exact .hangup ‹_›
    · exact .none fun _ _ _ _ he => by cases he
  | next g ok now => exact next_op st g ok now
  | write c ok => exact .write c ok

theorem step_crashed {a : Act} (h : st.crash ≠ none) : st.step J a = st := by
  unfold step; rw [if_pos (Option.isSome_iff_ne_none.mpr h)]

/-! ## Fields that operations leave alone -/

section Frames

variable {c k : ℕ} {g : Goroutine} {p : Pc} {items : List Item}

@[simp] theorem goto_pc : (st.goto g p).pc = update st.pc g p := rfl
@[simp] theorem goto_users : (st.goto g p).users = st.users := rfl
@[simp] theorem goto_queuedMessages : (st.goto g p).queuedMessages = st.queuedMessages := rfl
@[simp] theorem goto_clients : (st.goto g p).clients = st.clients := rfl
@[simp] theorem goto_queue : (st.goto g p).queue = st.queue := rfl
@[simp] theorem goto_client : (st.goto g p).client = st.client := rfl
@[simp] theorem goto_conns : (st.goto g p).conns = st.conns := rfl
@[simp] theorem goto_frames : (st.goto g p).frames = st.frames := rfl
@[simp] theorem goto_payments : (st.goto g p).payments = st.payments := rfl
@[simp] theorem goto_handed : (st.goto g p).handed = st.handed := rfl
@[simp] theorem goto_registrations : (st.goto g p).registrations = st.registrations := rfl
@[simp] theorem goto_crash : (st.goto g p).crash = st.crash := rfl

@[simp] theorem handAll_pc : (st.handAll c items).pc = st.pc := rfl
@[simp] theorem handAll_users : (st.handAll c items).users = st.users := rfl
@[simp] theorem handAll_queuedMessages :
    (st.handAll c items).queuedMessages = st.queuedMessages := rfl
@[simp] theorem handAll_clients : (st.handAll c items).clients = st.clients := rfl
@[simp] theorem handAll_queue : (st.handAll c items).queue = st.queue := rfl
@[simp] theorem handAll_conns : (st.handAll c items).conns = st.conns := rfl
@[simp] theorem handAll_frames : (st.handAll c items).frames = st.frames := rfl
@[simp] theorem handAll_payments : (st.handAll c items).payments = st.payments := rfl
@[simp] theorem handAll_registrations :
    (st.handAll c items).registrations = st.registrations := rfl
@[simp] theorem handAll_crash : (st.handAll c items).crash = st.crash := rfl

variable {d : ℕ}

theorem handAll_client_self :
    (st.handAll c items).client c =
      { st.client c with send := (st.client c).send.offerAll items } := by
  unfold handAll; exact update_self ..

theorem handAll_client_ne (h : d ≠ c) : (st.handAll c items).client d = st.client d := by
  unfold handAll; exact update_of_ne h ..

theorem queueMessage_queue (tag : Tag) (msg : Message) (id : String) :
    (st.queueMessage tag msg).queue id =
      st.queue id ++ if id = msg.recipient then [⟨tag, msg⟩] else [] := by
  unfold queueMessage
  by_cases hid : id = msg.recipient
  · subst hid
    rw [if_pos rfl]
    exact update_self ..
  · rw [if_neg hid, List.append_nil]
    exact update_of_ne hid ..

theorem handAll_client_eq :
    (st.handAll c items).client d = { st.client d with send := ((st.handAll c items).client d).send } := by
  by_cases h : d = c
  · subst h; rw [handAll_client_self]
  · rw [handAll_client_ne h]

@[simp] theorem handAll_id : ((st.handAll c items).client d).id = (st.client d).id := by
  rw [handAll_client_eq]
@[simp] theorem handAll_online :
    ((st.handAll c items).client d).online = (st.client d).online := by rw [handAll_client_eq]
@[simp] theorem handAll_writing :
    ((st.handAll c items).client d).writing = (st.client d).writing := by rw [handAll_client_eq]
@[simp] theorem handAll_written :
    ((st.handAll c items).client d).written = (st.client d).written := by rw [handAll_client_eq]

@[simp] theorem handAll_closed :
    ((st.handAll c items).client d).send.closed = (st.client d).send.closed := by
  by_cases h : d = c
  · subst h; rw [handAll_client_self]; exact Chan.offerAll_closed ..
  · rw [handAll_client_ne h]

end Frames

end Relay

end SecureComm.Server
