import Mathlib.Data.List.Induction
import SecureComm.Server.Contacts
import SecureComm.Server.Writing

/-!
# Access

The handlers of accounts and the relay in one process, over one table of users.
A reply of the handlers tells a client its id and token; with a token a
connection is made to the relay. So who gets at what the relay writes is decided
by the replies: `run_authenticated`.
-/

namespace SecureComm.Server

open Function

/-- The token of a request to `/ws`: the bearer token, or else that of the query. -/
def serveToken (T : Text) (auth query : String) : String :=
  if "bearer ".toList <+: (T.toLower auth).toList then bearerToken T auth else query

/-- The account that a reply is about, with its token. -/
def Reply.account : Reply → Option (String × String)
  | .error .. => none
  | .json fields => do
    let id ← (fields.lookup "id").or (fields.lookup "user_id")
    let token ← (fields.lookup "token").or (fields.lookup "auth_token")
    return (id, token)

/-- The handlers and the relay. `issued` records the accounts that replies were about, the
last one first; nothing depends on it. -/
structure GoServer where
  auth : AuthServer := {}
  relay : Relay := {}
  issued : List (String × String) := []

namespace GoServer

/-- A request to the handlers, one to `/ws` with its header `Authorization` and the token of
its query, and what happens in the relay. -/
inductive Event
  | request (r : AuthServer.Request)
  | connect (auth query : String)
  | read (c : ℕ) (frame : Option Bytes)
  | next (g : Goroutine) (ok : Bool) (now : Int64)
  | write (c : ℕ) (ok : Bool)

def act (T : Text) (st : GoServer) : Event → Option Relay.Act
  | .request r => some (.accounts (st.auth.step r).db.users)
  | .connect auth query =>
    if serveToken T auth query = "" then none else some (.connect (serveToken T auth query))
  | .read c frame => some (.read c frame)
  | .next g ok now => some (.next g ok now)
  | .write c ok => some (.write c ok)

/-- A panic of the relay ends the handlers as well. -/
def step (T : Text) (J : Json) (st : GoServer) (ev : Event) : GoServer :=
  if st.relay.crash.isSome then st
  else
    let relay := (st.act T ev).elim st.relay (st.relay.step J)
    match ev with
    | .request r =>
      { auth := st.auth.step r, relay, issued := (st.auth.handle r).2.account.toList ++ st.issued }
    | _ => { st with relay }

def run (T : Text) (J : Json) (evs : List Event) : GoServer := evs.foldl (step T J) {}

end GoServer

/-! ## Replies and rows -/

/-- **A reply is about the row that the request wrote**, and there is none otherwise. -/
theorem AuthServer.handle_account (st : AuthServer) (r : AuthServer.Request) :
    ((st.handle r).2.account = none ∧ (st.step r).db.users = st.db.users) ∨
    ∃ u t, u.token = some t ∧ (st.handle r).2.account = some (u.id, t) ∧
      (st.step r).db.users = st.db.users.replace u := by
  have hsignup : ∀ (kind : Contact) body secret now ok,
      (st.registerContact kind r.method body secret now ok).2.account = none := by
    intro kind body secret now ok
    unfold registerContact
    split
    · rfl
    cases body with
    | none => rfl
    | some req =>
      simp only
      split
      · rfl
      · split
        · cases kind <;> rfl
        · rfl
  have hverify : ∀ (kind : Contact) body clock token ok marked,
      let out := st.verifyContact kind r.method body clock token ok marked
      (out.2.account = none ∧ out.1.db.users = st.db.users) ∨
      ∃ u t, u.token = some t ∧ out.2.account = some (u.id, t) ∧
        out.1.db.users = st.db.users.replace u := by
    intro kind body clock token ok marked
    simp only
    unfold verifyContact
    split
    · exact .inl ⟨rfl, rfl⟩
    cases body with
    | none => exact .inl ⟨rfl, rfl⟩
    | some req =>
      simp only
      split
      · exact .inl ⟨rfl, rfl⟩
      · split
        · refine .inr ⟨_, _, rfl, ?_, rfl⟩
          cases kind <;> rfl
        · exact .inl ⟨rfl, rfl⟩
  unfold step handle
  cases r.call with
  | register body token ok =>
    simp only
    unfold v1Register
    split
    · exact .inl ⟨rfl, rfl⟩
    cases body with
    | none => exact .inl ⟨rfl, rfl⟩
    | some req =>
      simp only
      split
      · exact .inr ⟨_, _, rfl, rfl, rfl⟩
      · exact .inl ⟨rfl, rfl⟩
  | registerPhone => exact .inl ⟨hsignup .., congrArg Database.users (registerContact_db ..)⟩
  | registerEmail => exact .inl ⟨hsignup .., congrArg Database.users (registerContact_db ..)⟩
  | verifyPhone => exact hverify ..
  | verifyEmail => exact hverify ..

/-! ## Connections -/

/-- Only another handler writes the table of users, and only a request to `/ws` makes a
connection. -/
theorem Relay.step_users_conns (J : Json) (st : Relay) (a : Relay.Act) :
    (∃ users, a = .accounts users) ∨
    (∃ token userID, a = .connect token ∧ st.step J a = st.accept userID) ∨
    (st.step J a).users = st.users ∧ (st.step J a).conns = st.conns := by
  have hop := step_op J st a
  generalize st.step J a = st' at hop ⊢
  cases hop with
  | none | hangup | readFrame | lookup | check | pay => exact .inr (.inr ⟨rfl, rfl⟩)
  | accounts users => exact .inl ⟨users, rfl⟩
  | accept => exact .inr (.inl ⟨_, _, rfl, rfl⟩)
  | drain => refine .inr (.inr ?_); unfold drain; split <;> exact ⟨rfl, rfl⟩
  | delete => refine .inr (.inr ?_); unfold delete; split <;> exact ⟨rfl, rfl⟩
  | register => exact .inr (.inr ⟨rfl, rfl⟩)
  | push =>
    refine .inr (.inr ?_)
    unfold push
    split
    · exact ⟨rfl, rfl⟩
    · split <;> exact ⟨rfl, rfl⟩
  | fallBack =>
    refine .inr (.inr ?_)
    unfold fallBack
    split
    · split <;> exact ⟨rfl, rfl⟩
    · exact ⟨rfl, rfl⟩
  | process =>
    refine .inr (.inr ?_)
    unfold processMessage
    split
    · exact ⟨rfl, rfl⟩
    · simp only
      split
      · split <;> exact ⟨rfl, rfl⟩
      · exact ⟨rfl, rfl⟩
  | unregister =>
    refine .inr (.inr ?_)
    unfold unregister
    simp only
    split
    · exact ⟨rfl, rfl⟩
    · split <;> exact ⟨rfl, rfl⟩
  | write =>
    refine .inr (.inr ?_)
    unfold write
    split
    · split <;> exact ⟨rfl, rfl⟩
    · exact ⟨rfl, rfl⟩

namespace GoServer

variable {T : Text} {J : Json} {st : GoServer}

theorem mem_of_lookup {l : List (String × String)} {id t : String} (h : l.lookup id = some t) :
    (id, t) ∈ l := by
  obtain ⟨l₁, l₂, rfl, -⟩ := List.lookup_eq_some_iff.mp h
  exact List.mem_append_right _ List.mem_cons_self

/-- The relay reads the table that the handlers write, and each account has the token of the
last reply about it. -/
structure Books (J : Json) (st : GoServer) : Prop where
  users : st.relay.users = st.auth.db.users
  issued : ∀ id, (st.auth.db.users.find id).bind User.token = st.issued.lookup id
  reached : ∃ acts, st.relay = Relay.run J acts

theorem start_books (J : Json) : Books J {} := ⟨rfl, fun _ => rfl, [], rfl⟩

theorem step_cases (T : Text) (J : Json) (st : GoServer) (ev : Event) :
    step T J st ev = st ∨
    (∃ r, ev = .request r ∧ st.relay.crash.isSome = false ∧ step T J st ev =
      { auth := st.auth.step r, relay := { st.relay with users := (st.auth.step r).db.users }
        issued := (st.auth.handle r).2.account.toList ++ st.issued }) ∨
    ∃ a, st.act T ev = some a ∧ (∀ users, a ≠ .accounts users) ∧
      step T J st ev = { st with relay := st.relay.step J a } := by
  unfold step
  split
  · exact .inl rfl
  rename_i hcrash
  cases ev with
  | request r =>
    refine .inr (.inl ⟨r, rfl, eq_false_of_ne_true hcrash, ?_⟩)
    simp only [act, Option.elim_some, Relay.step, if_neg hcrash]
  | connect auth query =>
    by_cases ht : serveToken T auth query = ""
    · refine .inl ?_
      simp only [act, if_pos ht, Option.elim_none]
    · refine .inr (.inr ⟨.connect _, if_neg ht, nofun, ?_⟩)
      simp only [act, if_neg ht, Option.elim_some]
  | read c frame => exact .inr (.inr ⟨_, rfl, nofun, rfl⟩)
  | next g ok now => exact .inr (.inr ⟨_, rfl, nofun, rfl⟩)
  | write c ok => exact .inr (.inr ⟨_, rfl, nofun, rfl⟩)

theorem Books.request (h : Books J st) (r : AuthServer.Request) (id : String) :
    ((st.auth.step r).db.users.find id).bind User.token =
      ((st.auth.handle r).2.account.toList ++ st.issued).lookup id := by
  rcases st.auth.handle_account r with ⟨hnone, husers⟩ | ⟨u, t, hu, hsome, husers⟩
  · rw [hnone, husers]
    exact h.issued id
  · rw [hsome, husers, Users.find_replace]
    show _ = List.lookup id ((u.id, t) :: st.issued)
    rw [List.lookup_cons]
    by_cases hid : id = u.id
    · rw [if_pos hid, beq_iff_eq.mpr hid]
      exact hu
    · rw [if_neg hid, beq_false_of_ne hid]
      exact h.issued id

theorem Books.step (h : Books J st) (ev : Event) : Books J (step T J st ev) := by
  obtain ⟨acts, hacts⟩ := h.reached
  have hreached : ∀ a, st.relay.step J a = Relay.run J (acts ++ [a]) := fun a => by
    rw [hacts, Relay.run, Relay.run, List.foldl_append]
    rfl
  rcases step_cases T J st ev with he | ⟨r, -, hcrash, he⟩ | ⟨a, ha, hne, he⟩
  · rw [he]
    exact h
  · rw [he]
    refine ⟨rfl, h.request r, acts ++ [.accounts (st.auth.step r).db.users], ?_⟩
    rw [← hreached, Relay.step, if_neg (by rw [hcrash]; exact Bool.false_ne_true)]
  · rw [he]
    refine ⟨?_, h.issued, acts ++ [a], hreached a⟩
    show (st.relay.step J a).users = _
    rw [← h.users]
    rcases st.relay.step_users_conns J a with ⟨users, hu⟩ | ⟨token, userID, -, hstep⟩ | ⟨hu, -⟩
    · exact absurd hu (hne users)
    · rw [hstep]
      rfl
    · exact hu

/-- **A token leads to the account it was the last one for**, where no token is drawn twice. -/
theorem Books.getUserByToken_iff (h : Books J st) (hfresh : (st.issued.map Prod.snd).Nodup)
    {t id : String} :
    getUserByToken st.relay.users t = some id ↔ st.issued.lookup id = some t := by
  have hrow : ∀ {u : User}, u ∈ st.auth.db.users.rows → u.token = some t →
      st.issued.lookup u.id = some t := fun {u} hu ht => by
    rw [← h.issued, Users.find_eq_some.mpr ⟨hu, rfl⟩]
    exact ht
  rw [h.users, getUserByToken]
  constructor
  · intro hget
    obtain ⟨u, hu, rfl⟩ := Option.map_eq_some_iff.mp hget
    exact hrow (List.mem_of_find?_eq_some hu) (by simpa using List.find?_some hu)
  · intro hlast
    have hbind := (h.issued id).trans hlast
    obtain ⟨u, hu, htoken⟩ := Option.bind_eq_some_iff.mp hbind
    obtain ⟨hmem, rfl⟩ := Users.find_eq_some.mp hu
    cases hfind : st.auth.db.users.rows.find? fun u => u.token = some t with
    | none => exact absurd htoken (by simpa using List.find?_eq_none.mp hfind u hmem)
    | some v =>
      -- both accounts were told of with the token, which was drawn once
      have hv := hrow (List.mem_of_find?_eq_some hfind) (by simpa using List.find?_some hfind)
      have hpair := List.inj_on_of_nodup_map hfresh (mem_of_lookup hv) (mem_of_lookup hlast) rfl
      rw [Option.map_some, (Prod.mk.inj hpair).1]

theorem issued_step (T : Text) (J : Json) (st : GoServer) (ev : Event) :
    st.issued <:+ (step T J st ev).issued := by
  rcases step_cases T J st ev with he | ⟨r, -, -, he⟩ | ⟨a, -, -, he⟩
  · exact ⟨[], (congrArg GoServer.issued he).symm⟩
  · rw [he]
    exact List.suffix_append ..
  · exact ⟨[], (congrArg GoServer.issued he).symm⟩

/-! ## Runs -/

theorem run_concat (T : Text) (J : Json) (evs : List Event) (ev : Event) :
    run T J (evs ++ [ev]) = step T J (run T J evs) ev := List.foldl_append

theorem run_books (T : Text) (J : Json) (evs : List Event) : Books J (run T J evs) :=
  Run.invariant (I := Books J) (fun _ ev h => h.step ev) evs (start_books J)

/-- No reply had a token of an earlier one. -/
def Fresh (T : Text) (J : Json) (evs : List Event) : Prop :=
  ((run T J evs).issued.map Prod.snd).Nodup

theorem Fresh.before {before after : List Event} (h : Fresh T J (before ++ after)) :
    Fresh T J before := by
  induction after using List.reverseRecOn with
  | nil => simpa using h
  | append_singleton after ev ih =>
    refine ih ?_
    rw [← List.append_assoc, Fresh, run_concat] at h
    exact h.sublist ((issued_step T J _ ev).sublist.map _)

/-- Connection `c` was made by a request with the token of the last reply about the account. -/
def OpenedFor (T : Text) (J : Json) (evs : List Event) (c : ℕ) (id : String) : Prop :=
  ∃ before auth query after, evs = before ++ .connect auth query :: after ∧
    (run T J before).relay.conns = c ∧
    (run T J before).issued.lookup id = some (serveToken T auth query)

theorem OpenedFor.append {evs : List Event} {c : ℕ} {id : String} (h : OpenedFor T J evs c id)
    (ev : Event) : OpenedFor T J (evs ++ [ev]) c id := by
  obtain ⟨before, auth, query, after, rfl, hc, hid⟩ := h
  exact ⟨before, auth, query, after ++ [ev], by rw [List.append_assoc]; rfl, hc, hid⟩

/-- **A step makes a connection** if and only if it is a request to `/ws` with the token of
the last reply about an account; the connection is that account's. -/
theorem Books.connect (h : Books J st) (hfresh : (st.issued.map Prod.snd).Nodup)
    (hcrash : st.relay.crash = none) (auth query : String) :
    ((GoServer.step T J st (.connect auth query)).relay = st.relay ∧ ¬ (serveToken T auth query ≠ "" ∧
      ∃ id ≠ "", st.issued.lookup id = some (serveToken T auth query))) ∨
    ∃ id, id ≠ "" ∧ serveToken T auth query ≠ "" ∧
      st.issued.lookup id = some (serveToken T auth query) ∧
      (GoServer.step T J st (.connect auth query)).relay = st.relay.accept id := by
  have hnot : ¬ st.relay.crash.isSome := by rw [hcrash]; exact Bool.false_ne_true
  unfold GoServer.step
  rw [if_neg hnot]
  by_cases ht : serveToken T auth query = ""
  · refine .inl ⟨?_, fun hc => hc.1 ht⟩
    simp only [act, if_pos ht, Option.elim_none]
  simp only [act, if_neg ht, Option.elim_some, Relay.step, if_neg hnot]
  cases hget : getUserByToken st.relay.users (serveToken T auth query) with
  | none =>
    refine .inl ⟨rfl, ?_⟩
    rintro ⟨-, id, -, hid⟩
    cases hget.symm.trans ((h.getUserByToken_iff hfresh).mpr hid)
  | some id =>
    by_cases hempty : id = ""
    · refine .inl ⟨if_pos hempty, ?_⟩
      rintro ⟨-, id', hne, hid'⟩
      have hsame := hget.symm.trans ((h.getUserByToken_iff hfresh).mpr hid')
      exact hne ((Option.some.inj hsame).symm.trans hempty)
    · exact .inr ⟨id, hempty, ht, (h.getUserByToken_iff hfresh).mp hget, if_neg hempty⟩

theorem step_extends (T : Text) (J : Json) (st : GoServer) (ev : Event) :
    Relay.Extends st.relay (step T J st ev).relay := by
  rcases step_cases T J st ev with he | ⟨r, -, -, he⟩ | ⟨a, -, -, he⟩
  · rw [he]
    exact .refl _
  · rw [he]
    exact .of_eq rfl rfl rfl fun _ => rfl
  · rw [he]
    exact Relay.step_extends J st.relay a

theorem step_conns (T : Text) (J : Json) (st : GoServer) {ev : Event}
    (hev : ∀ auth query, ev ≠ .connect auth query) :
    (step T J st ev).relay.conns = st.relay.conns := by
  rcases step_cases T J st ev with he | ⟨r, -, -, he⟩ | ⟨a, ha, hne, he⟩
  · rw [he]
  · rw [he]
  · rw [he]
    rcases st.relay.step_users_conns J a with ⟨users, hu⟩ | ⟨token, userID, rfl, -⟩ | ⟨-, hc⟩
    · exact absurd hu (hne users)
    · cases ev with
      | connect auth query => exact absurd rfl (hev auth query)
      | request | read | next | write => cases ha
    · exact hc

/-- **Every connection was made with a token of its user.** -/
theorem run_opened (evs : List Event) (hfresh : Fresh T J evs) :
    ∀ c < (run T J evs).relay.conns, OpenedFor T J evs c ((run T J evs).relay.client c).id := by
  induction evs using List.reverseRecOn with
  | nil => exact fun c hc => absurd hc (Nat.not_lt_zero c)
  | append_singleton evs ev ih =>
    have hbefore : Fresh T J evs := hfresh.before
    intro c hc
    rw [run_concat] at hc ⊢
    by_cases hlt : c < (run T J evs).relay.conns
    · rw [(step_extends T J (run T J evs) ev).id c hlt]
      exact (ih hbefore c hlt).append ev
    -- the connection is new
    cases ev with
    | connect auth query =>
      by_cases hcrash : (run T J evs).relay.crash = none
      · rcases (run_books T J evs).connect hbefore hcrash auth query with
          ⟨hrelay, -⟩ | ⟨id, -, -, hid, hrelay⟩
        · rw [hrelay] at hc
          exact absurd hc hlt
        · rw [hrelay] at hc ⊢
          obtain rfl : c = (run T J evs).relay.conns :=
            Nat.le_antisymm (Nat.lt_succ_iff.mp hc) (Nat.le_of_not_lt hlt)
          have hself : ((run T J evs).relay.accept id).client (run T J evs).relay.conns =
            { id := id } := update_self ..
          rw [hself]
          exact ⟨evs, auth, query, [], rfl, rfl, hid⟩
      · rw [step, if_pos (Option.isSome_iff_ne_none.mpr hcrash)] at hc
        exact absurd hc hlt
    | request | read | next | write =>
      rw [step_conns T J _ fun _ _ he => by cases he] at hc
      exact absurd hc hlt

/-- What the server guarantees of its connections: a request to `/ws` makes one if and only if it
presents the token of the last reply about an account, and what is written on a connection is
for the account that it was made with. -/
structure Authenticated (T : Text) (J : Json) (evs : List Event) : Prop where
  accepts : ∀ before auth query after, evs = before ++ .connect auth query :: after →
    (run T J before).relay.crash = none →
    ((run T J (before ++ [.connect auth query])).relay.conns ≠ (run T J before).relay.conns ↔
      serveToken T auth query ≠ "" ∧
        ∃ id ≠ "", (run T J before).issued.lookup id = some (serveToken T auth query))
  opened : ∀ c < (run T J evs).relay.conns,
    OpenedFor T J evs c ((run T J evs).relay.client c).id
  addressed : ∀ c, ∀ x ∈ ((run T J evs).relay.client c).written,
    ∃ m, Encodes J x.data m ∧ Relay.Copy J (run T J evs).relay x.tag m ∧
      OpenedFor T J evs c m.recipient

/-- **Who gets at what the relay writes**, in every run in which no token is drawn twice. -/
theorem run_authenticated (evs : List Event) (hfresh : Fresh T J evs) : Authenticated T J evs := by
  have hopened := run_opened evs hfresh
  refine ⟨?_, hopened, ?_⟩
  · rintro before auth query after rfl hcrash
    rw [run_concat]
    rcases (run_books T J before).connect hfresh.before hcrash auth query with
      ⟨hrelay, hnot⟩ | ⟨id, hne, ht, hid, hrelay⟩
    · rw [hrelay]
      exact iff_of_false (fun h => h rfl) hnot
    · rw [hrelay]
      exact iff_of_true (Nat.succ_ne_self _) ⟨ht, id, hne, hid⟩
  · obtain ⟨acts, hacts⟩ := (run_books T J evs).reached
    intro c x hx
    have hhanded : ⟨c, x⟩ ∈ (run T J evs).relay.handed := by
      rw [hacts] at hx ⊢
      exact Relay.mem_onChannel.mp (((Relay.run_written J acts).first c).subset hx)
    obtain ⟨hc, m, hm, hcopy, hr⟩ : Relay.Handed J (run T J evs).relay ⟨c, x⟩ := by
      rw [hacts] at hhanded ⊢
      exact (Relay.run_provenance J acts).handed _ hhanded
    exact ⟨m, hm, hcopy, hr ▸ hopened c hc⟩

end GoServer

namespace Sample

open GoServer

def registersBob : AuthServer.Request :=
  ⟨"POST", none, .register (some ⟨"bob", "+2", "Bob", [3], [4], []⟩) (some "tb") true⟩

def serves (c n : ℕ) : List Event := List.replicate n (.next (.serve c) true 0)

/-- Alice connects, and her id is registered again, so that her token is void; on her old
connection she sends a message to Bob, who has connected. -/
def reconnectsAlice : List Event :=
  [.request (registersAs 1 "ta"), .connect "Bearer ta" "", .request (registersAs 2 "tm"),
    .connect "" "ta", .request registersBob, .connect "" "tb"] ++
    serves 0 2 ++ serves 1 2 ++ [.read 0 (some (text (hello "alice" "1")))] ++ serves 0 8 ++
    [.write 1 true, .write 1 true]

theorem run_authenticated_reconnectsAlice :
    (run goText json reconnectsAlice).relay.conns = 2 ∧
      ((run goText json reconnectsAlice).relay.client 1).written.map Item.tag = [.raw 0, .own 0] ∧
      Authenticated goText json reconnectsAlice :=
  ⟨by decide +kernel, by decide +kernel,
    run_authenticated reconnectsAlice (by unfold Fresh; decide +kernel)⟩

end Sample

end SecureComm.Server
