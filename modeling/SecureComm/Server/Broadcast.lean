import Mathlib.Logic.Function.Basic
import SecureComm.Lib.Dict
import SecureComm.Server.Node

/-!
# What the Node relay writes

The handlers of `server.js` with all that they write to the sockets. A frame is
known after `JSON.parse`; what is no object reads as one without fields. Presence
is that of `Node.Server` in every run (`run_mirrors`).
-/

namespace SecureComm.Node

open Function

/-- A JSON value: a text, or another by whether JavaScript takes it for true and by what
Java writes it as. -/
inductive Value where
  | text (s : String)
  | other (truthy : Bool) (shown : String)
  deriving DecidableEq

def Value.truthy : Value → Bool
  | .text s => s ≠ ""
  | .other truthy _ => truthy

def Value.shown : Value → String
  | .text s => s
  | .other _ shown => shown

/-- The fields of a frame that the apps write; a field that is absent is undefined. -/
structure Frame where
  type : Option Value := none
  messageId : Option Value := none
  senderId : Option Value := none
  senderName : Option Value := none
  recipient : Option Value := none
  timestamp : Option Value := none
  payload : Option Value := none
  deriving DecidableEq

structure OnlineUser where
  userId : Option ClientId
  displayName : Option String
  deriving DecidableEq

structure Relayed where
  type : Value
  senderId : Option Value
  messageId : Option Value
  payload : Option Value
  timestamp : ℤ
  deriving DecidableEq

inductive Out where
  | onlineUsers (users : List OnlineUser)
  | relayed (m : Relayed)
  deriving DecidableEq

/-- The maps in the order of their keys, and the sockets. -/
structure Relay where
  clients : Dict ClientId ℕ := {}
  userIds : Dict ClientId ClientId := {}
  userDisplayNames : Dict ClientId String := {}
  /-- The accepted sockets that have not closed, with the id that their close handler deletes. -/
  sockets : List (ℕ × ClientId) := []
  /-- The sockets whose `readyState` is `OPEN`. -/
  ready : ℕ → Bool := fun _ => false
  exited : Bool := false

namespace Relay

def online (s : Relay) : List OnlineUser :=
  s.userIds.keys.map fun cid => ⟨s.userIds.get cid, s.userDisplayNames.get cid⟩

def broadcastOnlineUsers (s : Relay) : List (ℕ × Out) :=
  (s.clients.values.filter s.ready).map fun wsClient => (wsClient, .onlineUsers s.online)

def connection (s : Relay) (ws : ℕ) (token : Token) : Relay × List (ℕ × Out) :=
  match parse ws token with
  | .refused => (s, [])
  | .throws => ({ exited := true }, [])
  | .accepted userId displayName =>
    let clientId := userId
    let s := { s with
      clients := s.clients.set clientId ws
      userIds := s.userIds.set clientId userId
      userDisplayNames := s.userDisplayNames.set clientId displayName
      sockets := s.sockets ++ [(ws, clientId)]
      ready := update s.ready ws true }
    (s, s.broadcastOnlineUsers)

/-- A map finds what `JSON.parse` gave only by a text. -/
def key : Option Value → Option ClientId
  | some (.text s) => some (.text s)
  | _ => none

/-- `obj.type || 'chat'`. -/
def typeOf : Option Value → Value
  | some v => if v.truthy then v else .text "chat"
  | none => .text "chat"

def relayed (obj : Frame) (now : ℤ) : Relayed where
  type := typeOf obj.type
  senderId := obj.senderId
  messageId := obj.messageId
  payload := obj.payload
  timestamp := now

/-- The socket that a frame goes to. `frame` is `none` where reading it throws; what is
sent on a socket that is not open is dropped. -/
def message (s : Relay) (frame : Option Frame) (now : ℤ) : Option (ℕ × Relayed) :=
  match frame with
  | none => none
  | some obj =>
    match (key obj.recipient).bind s.clients.get with
    | none => none
    | some ws => if s.ready ws then some (ws, relayed obj now) else none

/-- The socket is not open any more, and its event `close` is still to come. -/
def closing (s : Relay) (ws : ℕ) : Relay := { s with ready := update s.ready ws false }

def close (s : Relay) (ws : ℕ) : Relay × List (ℕ × Out) :=
  match Holders.keyOf s.sockets ws with
  | none => (s.closing ws, [])
  | some clientId =>
    let s := { s.closing ws with
      clients := s.clients.delete clientId
      userIds := s.userIds.delete clientId
      userDisplayNames := s.userDisplayNames.delete clientId
      sockets := Holders.leave s.sockets ws }
    (s, s.broadcastOnlineUsers)

variable {s s' : Relay} {ws : ℕ} {outs : List (ℕ × Out)}

def Listens (s : Relay) (ws : ℕ) : Prop := ws ∈ s.clients.values ∧ s.ready ws = true

/-- **What the connection and close handlers do**: the maps change and all are told, or they do
not change and nobody is told, or the process ends. -/
inductive Updates (s : Relay) : Relay → List (ℕ × Out) → Prop where
  | tells {s' : Relay} : Updates s s' s'.broadcastOnlineUsers
  | quiet {s' : Relay} (hclients : s'.clients = s.clients) (honline : s'.online = s.online)
      (hready : ∀ ws, s'.ready ws = true → s.ready ws = true) : Updates s s' []
  | exits : Updates s { exited := true } []

theorem connection_updates (s : Relay) (ws : ℕ) (token : Token) :
    Updates s (s.connection ws token).1 (s.connection ws token).2 := by
  unfold connection
  split
  · exact .quiet rfl rfl fun _ h => h
  · exact .exits
  · exact .tells

theorem ready_of_closing {ws ws' : ℕ} (h : (s.closing ws).ready ws' = true) :
    s.ready ws' = true := by
  unfold closing at h
  simp only at h
  by_cases hw : ws' = ws
  · subst hw
    rw [update_self] at h
    cases h
  · rwa [update_of_ne hw] at h

theorem closing_updates (s : Relay) (ws : ℕ) : Updates s (s.closing ws) [] :=
  .quiet rfl rfl fun _ => ready_of_closing

theorem close_updates (s : Relay) (ws : ℕ) : Updates s (s.close ws).1 (s.close ws).2 := by
  unfold close
  split
  · exact closing_updates s ws
  · exact .tells

theorem mem_broadcast {out : Out} : (ws, out) ∈ s.broadcastOnlineUsers ↔
    s.Listens ws ∧ out = .onlineUsers s.online := by
  unfold broadcastOnlineUsers Listens
  rw [List.mem_map]
  constructor
  · rintro ⟨w, hw, he⟩
    obtain ⟨rfl, rfl⟩ := Prod.mk.inj he
    exact ⟨List.mem_filter.mp hw, rfl⟩
  · rintro ⟨h, rfl⟩
    exact ⟨ws, List.mem_filter.mpr h, rfl⟩

theorem message_eq_some {frame : Option Frame} {now : ℤ} {m : Relayed}
    (h : s.message frame now = some (ws, m)) :
    ∃ obj r, frame = some obj ∧ obj.recipient = some (.text r) ∧
      s.clients.get (.text r) = some ws ∧ s.ready ws = true ∧ m = relayed obj now := by
  unfold message at h
  split at h
  · cases h
  · rename_i obj
    split at h
    · cases h
    · rename_i w hw
      split at h
      · rename_i hready
        obtain ⟨rfl, rfl⟩ := Prod.mk.inj (Option.some.inj h)
        obtain ⟨k, hk, hget⟩ := Option.bind_eq_some_iff.mp hw
        unfold key at hk
        split at hk
        · rename_i r hr
          obtain rfl := Option.some.inj hk
          exact ⟨obj, r, rfl, hr, hget, hready, rfl⟩
        · cases hk
      · cases h

/-! ### The relay that keeps presence -/

/-- What the two accounts of `server.js` have in common: `Server` keeps no order of the keys
and does not say which sockets are open. -/
structure Mirrors (r : Relay) (s : Server) : Prop where
  clients : ∀ k, r.clients.get k = s.clients.lookup k
  userIds : ∀ k, r.userIds.get k = s.userIds.lookup k
  userDisplayNames : ∀ k, r.userDisplayNames.get k = s.userDisplayNames.lookup k
  sockets : r.sockets = s.sockets
  exited : r.exited = s.exited

theorem mirrors_empty (exited : Bool) : Mirrors { exited } { exited } :=
  ⟨fun _ => rfl, fun _ => rfl, fun _ => rfl, rfl, rfl⟩

theorem get_set_eq_lookup {κ τ : Type} [DecidableEq κ] {d : Dict κ τ} {m : Table κ τ}
    (h : ∀ k, d.get k = m.lookup k) (k : κ) (v : τ) (x : κ) :
    (d.set k v).get x = (m.insert k v).lookup x := by
  rw [Dict.get_set]
  split
  · rename_i hx
    rw [hx, AList.lookup_insert]
  · rename_i hx
    rw [AList.lookup_insert_ne hx, h]

theorem get_delete_eq_lookup {κ τ : Type} [DecidableEq κ] {d : Dict κ τ} {m : Table κ τ}
    (h : ∀ k, d.get k = m.lookup k) (k x : κ) :
    (d.delete k).get x = (m.erase k).lookup x := by
  rw [Dict.get_delete, Table.lookup_erase_eq, h]

namespace Mirrors

variable {r : Relay} {s : Server}

theorem connection (h : Mirrors r s) (token : Token) :
    Mirrors (r.connection s.next token).1 (s.connection token) := by
  unfold Relay.connection Server.connection
  cases parse s.next token with
  | refused => exact ⟨h.clients, h.userIds, h.userDisplayNames, h.sockets, h.exited⟩
  | throws => exact mirrors_empty true
  | accepted userId displayName =>
    exact ⟨get_set_eq_lookup h.clients userId _, get_set_eq_lookup h.userIds userId _,
      get_set_eq_lookup h.userDisplayNames userId _,
      congrArg (· ++ [(s.next, userId)]) h.sockets, h.exited⟩

theorem closing (h : Mirrors r s) (ws : ℕ) : Mirrors (r.closing ws) s :=
  ⟨h.clients, h.userIds, h.userDisplayNames, h.sockets, h.exited⟩

theorem close (h : Mirrors r s) (ws : ℕ) : Mirrors (r.close ws).1 (s.close ws) := by
  unfold Relay.close Server.close
  rw [h.sockets]
  cases Holders.keyOf s.sockets ws with
  | none => exact h.closing ws
  | some clientId =>
    exact ⟨get_delete_eq_lookup h.clients clientId, get_delete_eq_lookup h.userIds clientId,
      get_delete_eq_lookup h.userDisplayNames clientId, rfl, h.exited⟩

/-- A frame that names a user goes to the socket that `Server` names, if that is open. -/
theorem message (h : Mirrors r s) {obj : Frame} {user : String}
    (hr : obj.recipient = some (.text user)) (now : ℤ) :
    r.message (some obj) now =
      ((s.message user).filter r.ready).map fun ws => (ws, relayed obj now) := by
  have hget : (key obj.recipient).bind r.clients.get = s.message user := by
    rw [hr]
    exact h.clients _
  unfold Relay.message
  simp only [hget]
  cases s.message user with
  | none => rfl
  | some ws =>
    simp only [Option.filter_some]
    by_cases hready : r.ready ws = true
    · rw [if_pos hready, if_pos hready, Option.map_some]
    · rw [if_neg hready, if_neg hready, Option.map_none]

end Mirrors

/-- What happens to the relay: a handler of `Server` runs, or a socket stops being open. -/
inductive Event where
  | handler (ev : Server.Event)
  | closing (ws : ℕ)

def Event.handled : Event → Option Server.Event
  | .handler ev => some ev
  | .closing _ => none

/-- One event in both accounts; a connection has the number that `Server` gives it. -/
def both (st : Relay × Server) : Event → Relay × Server
  | .handler (.connection token) =>
    (if st.1.exited then st.1 else (st.1.connection st.2.next token).1,
      st.2.step (.connection token))
  | .handler (.close ws) => ((st.1.close ws).1, st.2.step (.close ws))
  | .closing ws => (st.1.closing ws, st.2)

theorem Mirrors.both {st : Relay × Server} (h : Mirrors st.1 st.2) (ev : Event) :
    Mirrors (Relay.both st ev).1 (Relay.both st ev).2 := by
  cases ev with
  | closing ws => exact h.closing ws
  | handler ev =>
    cases ev with
    | close ws => exact h.close ws
    | connection token =>
      unfold Relay.both Server.step
      simp only [h.exited]
      split
      · exact h
      · exact h.connection token

theorem run_both_snd (st : Relay × Server) (evs : List Event) :
    (evs.foldl both st).2 = (evs.filterMap Event.handled).foldl Server.step st.2 := by
  induction evs generalizing st with
  | nil => rfl
  | cons ev evs ih =>
    rw [List.foldl_cons, ih]
    rcases ev with (_ | _) | _ <;> rfl

/-- **The two accounts of the relay agree** in every run: the maps, the sockets and the process
are those of `Server`, whenever a socket stops being open. -/
theorem run_mirrors (evs : List Event) : Mirrors (evs.foldl both ({}, {})).1
    ((evs.filterMap Event.handled).foldl Server.step {}) := by
  have h : Mirrors (evs.foldl both ({}, {})).1 (evs.foldl both ({}, {})).2 :=
    Run.invariant (I := fun st : Relay × Server => Mirrors st.1 st.2) (fun _ ev h => h.both ev)
      evs (mirrors_empty false)
  rwa [run_both_snd] at h

end Relay

end SecureComm.Node
