import SecureComm.Lib.Holders
import SecureComm.Lib.Run
import SecureComm.Lib.Table

/-!
# The Node relay

`server.js` keeps three maps by client id, which is the user id in the token of
the socket. A connection enters its socket in place of any other of its user;
when a socket closes, the entry of its user is deleted, whichever socket it
holds. So presence is right exactly as long as no socket closes while its user
has another (`accurate_iff_onlySocket`).
-/

namespace SecureComm.Node

open Run Holders

/-- The query parameter `token`. Where it is given more than once it is an array. -/
inductive Token where
  | absent
  | text (s : String)
  | repeated (ss : List String)

/-- A client id. A map finds a string by its text and an array only as the object it
is, that of one connection. -/
inductive ClientId where
  | text (s : String)
  | array (ws : ℕ)
  deriving DecidableEq

inductive Parsed where
  /-- The socket is closed with `No token`. -/
  | refused
  /-- An array has `includes`, and no `split`. -/
  | throws
  | accepted (userId : ClientId) (displayName : String)

/-- The token of the connection `ws`: `userId:displayName:random`. -/
def parse (ws : ℕ) : Token → Parsed
  | .absent => .refused
  | .text token =>
    if token = "" then .refused
    else if ':' ∈ token.toList then
      let parts := (token.toList.splitOn ':').map String.ofList
      .accepted (.text (parts.getD 0 "")) (parts.getD 1 "")
    else .accepted (.text token) ""
  | .repeated tokens => if ":" ∈ tokens then .throws else .accepted (.array ws) ""

/-- Sockets are numbered in the order in which they connect. -/
structure Server where
  clients : Table ClientId ℕ := ∅
  userIds : Table ClientId ClientId := ∅
  userDisplayNames : Table ClientId String := ∅
  /-- The accepted sockets that have not closed, in order, with the id that their
  close handler deletes. -/
  sockets : List (ℕ × ClientId) := []
  next : ℕ := 0
  /-- An exception in a handler of the server ends the process. -/
  exited : Bool := false

namespace Server

def connection (s : Server) (token : Token) : Server :=
  match parse s.next token with
  | .refused => { s with next := s.next + 1 }
  | .throws => { exited := true }
  | .accepted userId displayName =>
    let clientId := userId
    { s with
      clients := s.clients.insert clientId s.next
      userIds := s.userIds.insert clientId userId
      userDisplayNames := s.userDisplayNames.insert clientId displayName
      sockets := s.sockets ++ [(s.next, clientId)]
      next := s.next + 1 }

/-- The event `close` of a socket; one that was not accepted has no handler. -/
def close (s : Server) (ws : ℕ) : Server :=
  match keyOf s.sockets ws with
  | none => s
  | some clientId =>
    { s with
      clients := s.clients.erase clientId
      userIds := s.userIds.erase clientId
      userDisplayNames := s.userDisplayNames.erase clientId
      sockets := leave s.sockets ws }

/-- The socket that a message goes to; without one it is dropped as offline. -/
def message (s : Server) (recipient : String) : Option ℕ := s.clients.lookup (.text recipient)

inductive Event where
  | connection (token : Token)
  | close (ws : ℕ)

def step (s : Server) : Event → Server
  | .connection token => if s.exited then s else s.connection token
  | .close ws => s.close ws

/-- **Presence is accurate.** -/
structure Accurate (s : Server) : Prop where
  userIds : ∀ k, k ∈ s.userIds ↔ k ∈ s.clients
  userDisplayNames : ∀ k, k ∈ s.userDisplayNames ↔ k ∈ s.clients
  online : ∀ k, k ∈ s.clients ↔ ∃ ws, (ws, k) ∈ s.sockets
  latest : ∀ k, s.clients.lookup k = latest s.sockets k
  delivered : ∀ user, (∃ ws, (ws, .text user) ∈ s.sockets) → s.message user ≠ none

/-- A socket that closes is the only one of its user. -/
def OnlySocket (s : Server) : Event → Prop
  | .connection _ => True
  | .close ws => ∀ k, (ws, k) ∈ s.sockets → ∀ ws', (ws', k) ∈ s.sockets → ws' = ws

/-- What every run keeps: one set of keys, and a number of its own for every socket. -/
structure Wired (s : Server) : Prop where
  userIds : ∀ k, k ∈ s.userIds ↔ k ∈ s.clients
  userDisplayNames : ∀ k, k ∈ s.userDisplayNames ↔ k ∈ s.clients
  nodup : (s.sockets.map Prod.fst).Nodup
  lt_next : ∀ e ∈ s.sockets, e.1 < s.next

variable {s : Server}

/-- With one set of keys, presence is accurate if the map has the latest sockets. -/
theorem Wired.accurate_iff (h : Wired s) :
    Accurate s ↔ ∀ k, s.clients.lookup k = Holders.latest s.sockets k := by
  refine ⟨Accurate.latest, fun hlatest => ?_⟩
  have honline : ∀ k, k ∈ s.clients ↔ ∃ ws, (ws, k) ∈ s.sockets := fun k => by
    rw [← AList.lookup_isSome, hlatest, latest_isSome_iff]
  refine ⟨h.userIds, h.userDisplayNames, honline, hlatest, fun user hon => ?_⟩
  rw [message, ne_eq, AList.lookup_eq_none, not_not]
  exact (honline _).mpr hon

theorem connection_cases (s : Server) (token : Token) :
    s.connection token = { s with next := s.next + 1 } ∨
      s.connection token = { exited := true } ∨
      ∃ k displayName, s.connection token =
        { s with
          clients := s.clients.insert k s.next
          userIds := s.userIds.insert k k
          userDisplayNames := s.userDisplayNames.insert k displayName
          sockets := s.sockets ++ [(s.next, k)]
          next := s.next + 1 } := by
  unfold connection
  split
  · exact .inl rfl
  · exact .inr (.inl rfl)
  · exact .inr (.inr ⟨_, _, rfl⟩)

theorem wired_empty (exited : Bool) : Wired { exited } where
  userIds _ := Iff.rfl
  userDisplayNames _ := Iff.rfl
  nodup := List.nodup_nil
  lt_next _ h := absurd h List.not_mem_nil

theorem Wired.connection (h : Wired s) (token : Token) : Wired (s.connection token) := by
  obtain hs | hs | ⟨k, displayName, hs⟩ := s.connection_cases token
  · rw [hs]
    exact ⟨h.userIds, h.userDisplayNames, h.nodup, fun e he => Nat.lt_succ_of_lt (h.lt_next e he)⟩
  · rw [hs]
    exact wired_empty true
  · rw [hs]
    refine ⟨fun x => ?_, fun x => ?_, ?_, fun e he => ?_⟩
    · rw [AList.mem_insert, AList.mem_insert, h.userIds]
    · rw [AList.mem_insert, AList.mem_insert, h.userDisplayNames]
    · rw [List.map_append, List.nodup_append]
      refine ⟨h.nodup, List.nodup_singleton _, ?_⟩
      rintro a ha b hb rfl
      obtain ⟨e, he, rfl⟩ := List.mem_map.mp ha
      exact Nat.ne_of_lt (h.lt_next e he) (List.mem_singleton.mp hb)
    · rcases List.mem_append.mp he with he | he
      · exact Nat.lt_succ_of_lt (h.lt_next e he)
      · obtain rfl := List.mem_singleton.mp he
        exact Nat.lt_succ_self _

theorem Wired.close (h : Wired s) (ws : ℕ) : Wired (s.close ws) := by
  unfold Server.close
  split
  · exact h
  · refine ⟨fun x => ?_, fun x => ?_, h.nodup.sublist (List.filter_sublist.map _), fun e he => ?_⟩
    · rw [AList.mem_erase, AList.mem_erase, h.userIds]
    · rw [AList.mem_erase, AList.mem_erase, h.userDisplayNames]
    · exact h.lt_next e (List.mem_filter.mp he).1

theorem Wired.step (h : Wired s) (ev : Event) : Wired (s.step ev) := by
  cases ev with
  | connection token =>
    show Wired (if s.exited then s else s.connection token)
    split
    · exact h
    · exact h.connection token
  | close ws => exact h.close ws

theorem Accurate.connection (h : Accurate s) (hw : Wired s) (token : Token) :
    Accurate (s.connection token) := by
  rw [(hw.connection token).accurate_iff]
  obtain hs | hs | ⟨k, displayName, hs⟩ := s.connection_cases token
  · rw [hs]
    exact h.latest
  · rw [hs]
    exact fun _ => rfl
  · rw [hs]
    intro x
    rw [latest_append]
    by_cases hx : x = k
    · subst hx
      rw [if_pos rfl]
      exact AList.lookup_insert _
    · rw [if_neg hx]
      exact (AList.lookup_insert_ne hx).trans (h.latest x)

/-- **A close is right** if and only if no other socket of the user is open. -/
theorem accurate_close_iff (h : Accurate s) (hw : Wired s) (ws : ℕ) :
    Accurate (s.close ws) ↔ OnlySocket s (.close ws) := by
  rw [(hw.close ws).accurate_iff]
  rcases hk : keyOf s.sockets ws with _ | k
  · rw [show s.close ws = s by unfold Server.close; rw [hk]]
    exact iff_of_true h.latest fun k hmem => absurd hmem (keyOf_eq_none_iff.mp hk k)
  · have hmem := (keyOf_eq_some_iff hw.nodup).mp hk
    have honly : ∀ {k'}, (ws, k') ∈ s.sockets → k' = k := fun hk' =>
      Option.some.inj (((keyOf_eq_some_iff hw.nodup).mpr hk').symm.trans hk)
    have hclose : (s.close ws).clients = s.clients.erase k ∧
        (s.close ws).sockets = leave s.sockets ws := by
      unfold Server.close
      rw [hk]
      exact ⟨rfl, rfl⟩
    rw [hclose.1, hclose.2]
    constructor
    · intro hlatest k' hk'
      obtain rfl := honly hk'
      refine latest_leave_eq_none_iff.mp ((hlatest k').symm.trans ?_)
      rw [Table.lookup_erase_eq, if_pos rfl]
    · intro hguard x
      rw [Table.lookup_erase_eq]
      split
      · rename_i hx
        subst hx
        exact (latest_leave_eq_none_iff.mpr (hguard x hmem)).symm
      · rename_i hx
        rw [h.latest, latest_leave_ne fun k' hk' => honly hk' ▸ hx]

theorem accurate_empty (exited : Bool) : Accurate { exited } :=
  (wired_empty exited).accurate_iff.mpr fun _ => rfl

theorem accurate_step_iff (h : Accurate s) (hw : Wired s) (ev : Event) :
    Accurate (s.step ev) ↔ OnlySocket s ev := by
  cases ev with
  | connection token =>
    refine iff_of_true ?_ trivial
    show Accurate (if s.exited then s else s.connection token)
    split
    · exact h
    · exact h.connection hw token
  | close ws => exact accurate_close_iff h hw ws

/-- **Presence is accurate** in exactly the runs in which every socket that closes is
the only open one of its user. -/
theorem accurate_iff_onlySocket (evs : List Event) :
    Throughout step Accurate {} evs ↔ Along step OnlySocket {} evs :=
  throughout_iff_along (fun _ ev hw => hw.step ev)
    (fun _ ev hw h => accurate_step_iff h hw ev) (wired_empty false) (accurate_empty false)

/-- Alice connects, connects again, and her first socket closes. -/
def reconnects : List Event :=
  [.connection (.text "alice:Alice:1"), .connection (.text "alice:Alice:2"), .close 0]

/-- **An online user is dropped as offline.** -/
theorem reconnected_offline :
    (reconnects.foldl step {}).sockets = [(1, .text "alice")] ∧
      (reconnects.foldl step {}).message "alice" = none ∧
      ¬ Throughout step Accurate {} reconnects := by
  have hsockets : (reconnects.foldl step {}).sockets = [(1, .text "alice")] := by decide +kernel
  have hdropped : (reconnects.foldl step {}).message "alice" = none := by decide +kernel
  refine ⟨hsockets, hdropped, fun ⟨_, _, _, h⟩ => ?_⟩
  exact h.delivered "alice" ⟨1, hsockets ▸ List.mem_singleton_self _⟩ hdropped

end Server

end SecureComm.Node
