import SecureComm.Lib.Run
import SecureComm.Server.Database

/-!
# Key bundles

`registerUser` and the handler of `/v1/keys/` over one database. The handler
reads the keys of the user in one transaction and takes a one-time prekey in
another, so a request is two steps, and steps of requests and registrations
come in any order.
-/

namespace SecureComm.Server

open Function Run
open OneTimePrekeys (numbered mem_numbered nodup_numbered insertAll_rows first_eq_some first_eq_none)

/-- `path.Base`. -/
def pathBase (path : String) : String :=
  if path = "" then "."
  else
    let base := ((path.toList.reverse.dropWhile (· = '/')).takeWhile (· ≠ '/')).reverse
    if base = [] then "/" else String.ofList base

/-- The keys in the answer to a request; in the answer they are in base64. -/
structure Bundle where
  identityPub : Option Bytes
  signedPrekey : Option Bytes
  oneTimePrekey : Option Bytes
deriving DecidableEq

inductive KeysReply
  | methodNotAllowed
  | missingUser
  | notFound
  | internal
  | bundle (b : Bundle)
deriving DecidableEq

/-- The user that a request to `/v1/keys/` asks for. -/
def keysUser (method path : String) : Except KeysReply String :=
  if method ≠ "GET" then .error .methodNotAllowed
  else if pathBase path = "" ∨ pathBase path = "keys" then .error .missingUser
  else .ok (pathBase path)

/-- A call of `registerUser`, with the rows inserted for its prekeys. -/
structure Registration where
  user : String
  identityPub : Bytes
  signedPrekey : Bytes
  prekeys : List OneTimePrekey

/-- A request whose keys were read, or one that is over. `registration` is the
number of the registration that the keys are from. -/
inductive Request
  | fetching (user : String) (identityPub signedPrekey : Option Bytes) (registration : Option ℕ)
  | answered (reply : KeysReply)

/-- A bundle that was served, with the row its prekey is from. -/
structure Served where
  user : String
  bundle : Bundle
  registration : Option ℕ
  row : Option OneTimePrekey

/-- `registrations`, `current` (the number of the latest one of each user) and
`served` record what happened; nothing depends on them. -/
structure KeyServer where
  db : Database := {}
  requests : List Request := []
  registrations : List Registration := []
  current : String → Option ℕ := fun _ => none
  served : List Served := []

namespace KeyServer

def start : KeyServer := {}

def register (st : KeyServer) (token id phone displayName : String)
    (identityPub signedPrekey : Bytes) (oneTimePrekeys : List Bytes) : KeyServer :=
  { st with
    db := registerUser st.db token id phone displayName identityPub signedPrekey oneTimePrekeys
    registrations := st.registrations ++
      [⟨id, identityPub, signedPrekey, numbered id st.db.oneTimePrekeys.next oneTimePrekeys⟩]
    current := update st.current id (some st.registrations.length) }

/-- A request to `/v1/keys/` comes in, and the keys of the user are read. -/
def request (st : KeyServer) (method path : String) (ok : Bool) : KeyServer :=
  { st with
    requests := st.requests ++ [match keysUser method path with
      | .error reply => .answered reply
      | .ok user =>
        match (if ok then st.db.users.find user else none) with
        | none => .answered .notFound
        | some u => .fetching user u.identityPub u.signedPrekey (st.current user)] }

/-- The request takes a one-time prekey and is answered. -/
def fetch (st : KeyServer) (n : ℕ) (ok : Bool) : KeyServer :=
  match st.requests[n]? with
  | some (.fetching user identityPub signedPrekey registration) =>
    if ok then
      let (db, opk) := fetchOneTimePrekey st.db user
      let bundle := ⟨identityPub, signedPrekey, opk⟩
      { st with
        db := db
        requests := st.requests.set n (.answered (.bundle bundle))
        served := st.served ++ [⟨user, bundle, registration, st.db.oneTimePrekeys.first user⟩] }
    else { st with requests := st.requests.set n (.answered .internal) }
  | _ => st

/-- A user registers, a request comes in, a request takes its prekey (`ok`: the
transaction succeeds). -/
inductive Act
  | register (token id phone displayName : String) (identityPub signedPrekey : Bytes)
    (oneTimePrekeys : List Bytes)
  | request (method path : String) (ok : Bool)
  | fetch (n : ℕ) (ok : Bool)

def step (st : KeyServer) : Act → KeyServer
  | .register token id phone displayName identityPub signedPrekey oneTimePrekeys =>
    st.register token id phone displayName identityPub signedPrekey oneTimePrekeys
  | .request method path ok => st.request method path ok
  | .fetch n ok => st.fetch n ok

def run (acts : List Act) : KeyServer := acts.foldl step start

/-! ## Consistent bundles -/

def handed (served : List Served) : List OneTimePrekey := served.filterMap Served.row

/-- The keys are those of the registration. -/
def Names (st : KeyServer) (user : String) (identityPub signedPrekey : Option Bytes)
    (registration : Option ℕ) (R : Registration) : Prop :=
  (∃ j, registration = some j ∧ st.registrations[j]? = some R) ∧ R.user = user ∧
    identityPub = some R.identityPub ∧ signedPrekey = some R.signedPrekey

/-- The bundle carries the keys of one registration of the user, and a prekey of
that registration unless all were handed out before. -/
def Fits (st : KeyServer) (before : List Served) (b : Served) : Prop :=
  ∃ R, Names st b.user b.bundle.identityPub b.bundle.signedPrekey b.registration R ∧
    b.bundle.oneTimePrekey = b.row.map OneTimePrekey.prekey ∧ (∀ r ∈ b.row, r ∈ R.prekeys) ∧
    (b.row = none ↔ ∀ r ∈ R.prekeys, r ∈ handed before)

/-- Every bundle fits; the prekeys of a registration are handed out in the order
in which they were uploaded, each at most once. -/
structure Consistent (st : KeyServer) : Prop where
  fits : ∀ i b, st.served[i]? = some b → Fits st (st.served.take i) b
  ordered : ∀ R ∈ st.registrations, (handed st.served).filter (· ∈ R.prekeys) <+: R.prekeys
  once : (handed st.served).Nodup

/-- A user registers only when all earlier prekeys of that user are used up, and
not while a request that has read the user's keys has yet to take a prekey. -/
def Unmixed (st : KeyServer) : Act → Prop
  | .register _ id .. => st.db.oneTimePrekeys.ofUser id = []
  | .request .. => True
  | .fetch n _ => ∀ r ∈ st.requests[n]?, match r with
    | .fetching user _ _ registration => registration = st.current user
    | .answered _ => True

instance (st : KeyServer) : ∀ a, Decidable (Unmixed st a)
  | .register _ id .. => inferInstanceAs (Decidable (st.db.oneTimePrekeys.ofUser id = []))
  | .request .. => .isTrue trivial
  | .fetch n _ => @Option.decidableForallMem _ (fun r : Request => match r with
      | .fetching user _ _ registration => registration = st.current user
      | .answered _ => True) (fun r => match r with
      | .fetching .. => inferInstanceAs (Decidable (_ = _))
      | .answered _ => .isTrue trivial) st.requests[n]?

/-! ## What every run keeps -/

variable {st st' : KeyServer}

def pool (st : KeyServer) : List OneTimePrekey := handed st.served ++ st.db.oneTimePrekeys.rows

/-- Every registration has its prekeys in the pool, in the order in which they
were uploaded, and all keys that are read are those of the latest registration. -/
structure Ledger (st : KeyServer) : Prop where
  user : ∀ R ∈ st.registrations, ∀ r ∈ R.prekeys, r.userID = R.user
  lt_next : ∀ r ∈ st.pool, r.id < st.db.oneTimePrekeys.next
  account : ∀ R ∈ st.registrations, st.pool.filter (· ∈ R.prekeys) = R.prekeys
  once : st.pool.Nodup
  users : ∀ id u, st.db.users.find id = some u →
    ∃ R, Names st id u.identityPub u.signedPrekey (st.current id) R
  pending : ∀ (n : ℕ) id identityPub signedPrekey registration,
    st.requests[n]? = some (.fetching id identityPub signedPrekey registration) →
      ∃ R, Names st id identityPub signedPrekey registration R

theorem start_ledger : Ledger start where
  user _ h := by cases h
  lt_next _ h := by cases h
  account _ h := by cases h
  once := List.nodup_nil
  users _ _ h := by cases h
  pending _ _ _ _ _ h := by cases h

theorem Names.mono {id : String} {identityPub signedPrekey : Option Bytes} {j : Option ℕ}
    {R : Registration} (h : Names st id identityPub signedPrekey j R)
    (hp : st.registrations <+: st'.registrations) : Names st' id identityPub signedPrekey j R := by
  obtain ⟨⟨i, hi, hR⟩, hrest⟩ := h
  obtain ⟨l, hl⟩ := hp
  refine ⟨⟨i, hi, ?_⟩, hrest⟩
  rw [← hl, List.getElem?_append_left (List.getElem?_eq_some_iff.mp hR).1]
  exact hR

theorem Names.mem {id : String} {identityPub signedPrekey : Option Bytes} {j : Option ℕ}
    {R : Registration} (h : Names st id identityPub signedPrekey j R) : R ∈ st.registrations := by
  obtain ⟨⟨i, -, hR⟩, -⟩ := h
  exact List.mem_of_getElem? hR

namespace Ledger

theorem mem_pool (h : Ledger st) {R : Registration} (hR : R ∈ st.registrations)
    {r : OneTimePrekey} (hr : r ∈ R.prekeys) : r ∈ st.pool := by
  rw [← h.account R hR] at hr
  exact (List.mem_filter.mp hr).1

theorem register (h : Ledger st) (token id phone displayName : String)
    (identityPub signedPrekey : Bytes) (oneTimePrekeys : List Bytes) :
    Ledger (st.register token id phone displayName identityPub signedPrekey oneTimePrekeys) := by
  obtain ⟨hrows, hnext⟩ := insertAll_rows st.db.oneTimePrekeys id oneTimePrekeys
  have hpool : (st.register token id phone displayName identityPub signedPrekey oneTimePrekeys).pool =
      st.pool ++ numbered id st.db.oneTimePrekeys.next oneTimePrekeys := by
    unfold pool
    rw [List.append_assoc, ← hrows]
    rfl
  have hprefix : st.registrations <+: (st.register token id phone displayName identityPub
      signedPrekey oneTimePrekeys).registrations := List.prefix_append _ _
  -- the ids of the new rows are new
  have hdisjoint : ∀ r ∈ st.pool, r ∉ numbered id st.db.oneTimePrekeys.next oneTimePrekeys :=
    fun r hr hn => (h.lt_next r hr).not_ge (mem_numbered hn).2.1
  refine ⟨fun R hR r hr => ?_, fun r hr => ?_, fun R hR => ?_, ?_, fun id' u hu => ?_,
    fun n _ _ _ _ hn => ?_⟩
  · rcases List.mem_append.mp hR with hR | hR
    · exact h.user R hR r hr
    · obtain rfl := List.mem_singleton.mp hR
      exact (mem_numbered hr).1
  · rw [hpool] at hr
    refine Nat.lt_of_lt_of_eq ?_ hnext.symm
    rcases List.mem_append.mp hr with hr | hr
    · exact (h.lt_next r hr).trans_le (Nat.le_add_right _ _)
    · exact (mem_numbered hr).2.2
  · rw [hpool, List.filter_append]
    rcases List.mem_append.mp hR with hR | hR
    · rw [h.account R hR, List.filter_eq_nil_iff.mpr, List.append_nil]
      exact fun r hn hr => hdisjoint r (h.mem_pool hR (of_decide_eq_true hr)) hn
    · obtain rfl := List.mem_singleton.mp hR
      rw [List.filter_eq_nil_iff.mpr fun r hr hn => hdisjoint r hr (of_decide_eq_true hn),
        List.nil_append]
      exact List.filter_eq_self.mpr fun r hr => decide_eq_true hr
  · rw [hpool]
    exact h.once.append (nodup_numbered _ _ _) fun r hr hn => hdisjoint r hr hn
  · have hu' : (st.db.users.replace ⟨id, some phone, some displayName, none, some identityPub,
        some signedPrekey, some token, none, 0, none⟩).find id' = some u := hu
    rw [Users.find_replace] at hu'
    split at hu'
    · rename_i hid
      obtain rfl := Option.some.inj hu'
      subst hid
      exact ⟨_, ⟨_, update_self .., List.getElem?_concat_length⟩, rfl, rfl, rfl⟩
    · rename_i hid
      obtain ⟨R, hR⟩ := h.users id' u hu'
      refine ⟨R, ?_⟩
      rw [show (st.register token id phone displayName identityPub signedPrekey
        oneTimePrekeys).current id' = st.current id' from update_of_ne hid ..]
      exact hR.mono hprefix
  · obtain ⟨R, hR⟩ := h.pending n _ _ _ _ hn
    exact ⟨R, hR.mono hprefix⟩

theorem request (h : Ledger st) (method path : String) (ok : Bool) :
    Ledger (st.request method path ok) where
  user := h.user
  lt_next := h.lt_next
  account := h.account
  once := h.once
  users := h.users
  pending n id identityPub signedPrekey registration hn := by
    rcases Nat.lt_or_ge n st.requests.length with hlt | hge
    · refine h.pending n id identityPub signedPrekey registration ?_
      rw [← hn]
      exact (List.getElem?_append_left hlt).symm
    have hlen : n = st.requests.length := by
      have := (List.getElem?_eq_some_iff.mp hn).1
      rw [KeyServer.request, List.length_append, List.length_singleton] at this
      omega
    rw [KeyServer.request, hlen, List.getElem?_concat_length, Option.some.injEq] at hn
    -- the keys of a user are read
    split at hn
    · cases hn
    · split at hn
      · cases hn
      · rename_i u hu
        obtain ⟨rfl, rfl, rfl, rfl⟩ := Request.fetching.inj hn
        split at hu
        · exact h.users _ u hu
        · cases hu

theorem answer (h : Ledger st) (n : ℕ) (reply : KeysReply) {served : List Served}
    (hserved : handed served = handed st.served) :
    Ledger { st with requests := st.requests.set n (.answered reply), served := served } := by
  have hpool : pool { st with requests := st.requests.set n (.answered reply), served := served } =
      st.pool := by unfold pool; rw [hserved]
  refine ⟨h.user, by rw [hpool]; exact h.lt_next, by rw [hpool]; exact h.account,
    by rw [hpool]; exact h.once, h.users, fun m _ _ _ _ hm => ?_⟩
  have hm' : (st.requests.set n (.answered reply))[m]? = some (.fetching _ _ _ _) := hm
  rw [List.getElem?_set] at hm'
  split at hm'
  · split at hm' <;> cases hm'
  · exact h.pending m _ _ _ _ hm'

/-- **A prekey that is taken moves to the end of what was handed out**, past
rows of other users only. -/
theorem take (h : Ledger st) {userID : String} {r : OneTimePrekey} {b : Served}
    (hr : st.db.oneTimePrekeys.first userID = some r) (hb : b.row = some r) :
    Ledger { st with
      db := { st.db with oneTimePrekeys := st.db.oneTimePrekeys.delete r.id }
      served := st.served ++ [b] } := by
  obtain ⟨hu, l₁, l₂, hrows, hdelete, hbefore⟩ := first_eq_some hr
  have hold : st.pool = handed st.served ++ (l₁ ++ r :: l₂) := by unfold pool; rw [hrows]
  have hnew : pool { st with
      db := { st.db with oneTimePrekeys := st.db.oneTimePrekeys.delete r.id }
      served := st.served ++ [b] } = handed st.served ++ (r :: (l₁ ++ l₂)) := by
    unfold pool handed
    rw [hdelete, List.filterMap_append, List.append_assoc, List.filterMap_cons_some hb]
    rfl
  have hperm : List.Perm (handed st.served ++ (r :: (l₁ ++ l₂))) st.pool := by
    rw [hold]
    exact (List.perm_middle.symm).append_left _
  refine ⟨h.user, fun s hs => ?_, fun R hR => ?_, ?_, h.users, h.pending⟩
  · rw [hnew] at hs
    exact h.lt_next s (hperm.mem_iff.mp hs)
  · refine Eq.trans ?_ (h.account R hR)
    rw [hnew, hold]
    simp only [List.filter_append, List.filter_cons]
    split
    · -- the rows before are of other users, so of other registrations
      rename_i hmem
      have hnone : l₁.filter (fun s => s ∈ R.prekeys) = [] := List.filter_eq_nil_iff.mpr
        fun s hs hsR => hbefore s hs (by
          rw [h.user R hR s (of_decide_eq_true hsR), ← h.user R hR r (of_decide_eq_true hmem), hu])
      rw [hnone]
      rfl
    · rfl
  · rw [hnew]
    exact hperm.nodup_iff.mpr h.once

theorem fetch (h : Ledger st) (n : ℕ) (ok : Bool) : Ledger (st.fetch n ok) := by
  unfold KeyServer.fetch
  split
  · split
    · rename_i user identityPub signedPrekey registration _ _
      unfold fetchOneTimePrekey
      cases hr : st.db.oneTimePrekeys.first user with
      | none =>
        refine h.answer n _ ?_
        unfold handed
        rw [List.filterMap_append]
        exact List.append_nil _
      | some r =>
        exact (h.take hr (b := ⟨user, ⟨identityPub, signedPrekey, some r.prekey⟩, registration,
          some r⟩) rfl).answer n _ rfl
    · exact h.answer n _ rfl
  · exact h

theorem step (h : Ledger st) (a : Act) : Ledger (st.step a) := by
  cases a with
  | register => exact h.register ..
  | request => exact h.request ..
  | fetch => exact h.fetch ..

end Ledger

theorem run_ledger (acts : List Act) : Ledger (run acts) :=
  Run.invariant (fun _ a h => h.step a) acts start_ledger

/-- **Prekeys are single use**: in every run those of a registration are handed
out in the order in which they were uploaded, each at most once. -/
theorem run_single_use (acts : List Act) :
    (∀ R ∈ (run acts).registrations, (handed (run acts).served).filter (· ∈ R.prekeys) <+: R.prekeys) ∧
      (handed (run acts).served).Nodup := by
  have h := run_ledger acts
  refine ⟨fun R hR => ?_, h.once.sublist (List.sublist_append_left _ _)⟩
  have haccount := h.account R hR
  unfold pool at haccount
  rw [List.filter_append] at haccount
  exact ⟨_, haccount⟩

/-! ## What a run keeps that mixes no registrations -/

theorem fetch_frame (st : KeyServer) (n : ℕ) (ok : Bool) :
    (st.fetch n ok).registrations = st.registrations ∧ (st.fetch n ok).current = st.current := by
  unfold fetch
  split
  · split <;> exact ⟨rfl, rfl⟩
  · exact ⟨rfl, rfl⟩

/-- Either nothing is served, or what the keys of the request and the first row
of its user make. -/
theorem fetch_cases (st : KeyServer) (n : ℕ) (ok : Bool) :
    ((st.fetch n ok).served = st.served ∧ (st.fetch n ok).db = st.db) ∨
    ∃ user identityPub signedPrekey registration,
      st.requests[n]? = some (.fetching user identityPub signedPrekey registration) ∧
      (st.fetch n ok).served = st.served ++ [⟨user,
        ⟨identityPub, signedPrekey, (st.db.oneTimePrekeys.first user).map OneTimePrekey.prekey⟩,
        registration, st.db.oneTimePrekeys.first user⟩] ∧
      ∀ r ∈ (st.fetch n ok).db.oneTimePrekeys.rows, r ∈ st.db.oneTimePrekeys.rows := by
  unfold fetch
  split
  · split
    · rename_i user identityPub signedPrekey registration hn _
      refine .inr ⟨user, identityPub, signedPrekey, registration, hn, ?_⟩
      unfold fetchOneTimePrekey
      cases st.db.oneTimePrekeys.first user with
      | none => exact ⟨rfl, fun _ hr => hr⟩
      | some r => exact ⟨rfl, fun _ hr => (List.mem_filter.mp hr).1⟩
    · exact .inl ⟨rfl, rfl⟩
  · exact .inl ⟨rfl, rfl⟩

/-- The rows of a user are of the latest registration, and every bundle fits. -/
structure Stocked (st : KeyServer) : Prop where
  latest : ∀ r ∈ st.db.oneTimePrekeys.rows, ∃ j R, st.current r.userID = some j ∧
    st.registrations[j]? = some R ∧ r ∈ R.prekeys
  fits : ∀ i b, st.served[i]? = some b → Fits st (st.served.take i) b

theorem start_stocked : Stocked start where
  latest _ h := by cases h
  fits _ _ h := by cases h

theorem Fits.mono {before : List Served} {b : Served} (h : Fits st before b)
    (hp : st.registrations <+: st'.registrations) : Fits st' before b := by
  obtain ⟨R, hR, hrest⟩ := h
  exact ⟨R, hR.mono hp, hrest⟩

namespace Stocked

theorem register (h : Stocked st) (token id phone displayName : String)
    (identityPub signedPrekey : Bytes) (oneTimePrekeys : List Bytes)
    (hused : st.db.oneTimePrekeys.ofUser id = []) :
    Stocked (st.register token id phone displayName identityPub signedPrekey oneTimePrekeys) := by
  have hprefix : st.registrations <+: (st.register token id phone displayName identityPub
      signedPrekey oneTimePrekeys).registrations := List.prefix_append _ _
  refine ⟨fun r hr => ?_, fun i b hb => (h.fits i b hb).mono hprefix⟩
  have hr' : r ∈ st.db.oneTimePrekeys.rows ++ numbered id st.db.oneTimePrekeys.next oneTimePrekeys :=
    (insertAll_rows st.db.oneTimePrekeys id oneTimePrekeys).1 ▸ hr
  rcases List.mem_append.mp hr' with hold | hnew
  · obtain ⟨j, R, hj, hR, hmem⟩ := h.latest r hold
    have hne : r.userID ≠ id := fun hid => by
      have : r ∈ st.db.oneTimePrekeys.ofUser id := List.mem_filter.mpr ⟨hold, decide_eq_true hid⟩
      rw [hused] at this
      cases this
    refine ⟨j, R, (update_of_ne hne ..).trans hj, ?_, hmem⟩
    exact (List.getElem?_append_left (List.getElem?_eq_some_iff.mp hR).1).trans hR
  · rw [(mem_numbered hnew).1]
    exact ⟨_, _, update_self .., List.getElem?_concat_length, hnew⟩

/-- **What is served fits**: the first row of the user is of the registration
that the keys are from, and there is none only if all were handed out. -/
theorem served_fits (h : Stocked st) (hl : Ledger st) {n : ℕ} {user : String}
    {identityPub signedPrekey : Option Bytes} {registration : Option ℕ}
    (hn : st.requests[n]? = some (.fetching user identityPub signedPrekey registration))
    (hcur : registration = st.current user) :
    Fits st st.served ⟨user,
      ⟨identityPub, signedPrekey, (st.db.oneTimePrekeys.first user).map OneTimePrekey.prekey⟩,
      registration, st.db.oneTimePrekeys.first user⟩ := by
  obtain ⟨R, hR⟩ := hl.pending n _ _ _ _ hn
  refine ⟨R, hR, rfl, fun r hr => ?_, ?_⟩
  · obtain ⟨hu, l₁, l₂, hrows, -⟩ := first_eq_some hr
    obtain ⟨j, R', hj, hR', hmem⟩ := h.latest r (by
      rw [hrows]; exact List.mem_append_right _ List.mem_cons_self)
    obtain ⟨⟨i, hi, hRi⟩, -⟩ := hR
    rw [hu, ← hcur, hi] at hj
    obtain rfl := Option.some.inj hj
    obtain rfl := Option.some.inj (hRi.symm.trans hR')
    exact hmem
  · constructor
    · intro hnone r hr
      rcases List.mem_append.mp (hl.mem_pool hR.mem hr) with hhanded | hrow
      · exact hhanded
      · exact absurd ((hl.user R hR.mem r hr).trans hR.2.1) (first_eq_none hnone hrow)
    · intro hall
      cases hr : st.db.oneTimePrekeys.first user with
      | none => rfl
      | some r =>
        -- a row still in the table was not handed out
        obtain ⟨hu, l₁, l₂, hrows, -⟩ := first_eq_some hr
        have hrow : r ∈ st.db.oneTimePrekeys.rows := by
          rw [hrows]; exact List.mem_append_right _ List.mem_cons_self
        obtain ⟨j, R', hj, hR', hmem⟩ := h.latest r hrow
        obtain ⟨⟨i, hi, hRi⟩, -⟩ := hR
        rw [hu, ← hcur, hi] at hj
        obtain rfl := Option.some.inj hj
        obtain rfl := Option.some.inj (hRi.symm.trans hR')
        exact absurd rfl ((List.nodup_append.mp hl.once).2.2 r (hall r hmem) r hrow)

theorem fetch (h : Stocked st) (hl : Ledger st) (n : ℕ) (ok : Bool)
    (hg : Unmixed st (.fetch n ok)) : Stocked (st.fetch n ok) := by
  have hregs := fetch_frame st n ok
  have hmono : ∀ {before b}, Fits st before b → Fits (st.fetch n ok) before b := fun hf =>
    hf.mono (hregs.1 ▸ List.prefix_refl _)
  rcases fetch_cases st n ok with ⟨hserved, hdb⟩ | ⟨user, ip, sp, registration, hn, hserved, hrows⟩
  · refine ⟨fun r hr => ?_, fun i b hb => ?_⟩
    · rw [hregs.1, hregs.2]
      exact h.latest r (hdb ▸ hr)
    · rw [hserved] at hb ⊢
      exact hmono (h.fits i b hb)
  · refine ⟨fun r hr => ?_, fun i b hb => ?_⟩
    · rw [hregs.1, hregs.2]
      exact h.latest r (hrows r hr)
    · rw [hserved] at hb ⊢
      rcases Nat.lt_or_ge i st.served.length with hlt | hge
      · rw [List.getElem?_append_left hlt] at hb
        rw [List.take_append_of_le_length hlt.le]
        exact hmono (h.fits i b hb)
      · -- the bundle served last
        have hlen : i = st.served.length := by
          have := (List.getElem?_eq_some_iff.mp hb).1
          rw [List.length_append, List.length_singleton] at this
          omega
        rw [hlen, List.getElem?_concat_length] at hb
        obtain rfl := Option.some.inj hb
        rw [hlen, List.take_left]
        exact hmono (h.served_fits hl hn (hg _ hn))

theorem step (h : Stocked st) (hl : Ledger st) {a : Act} (hg : Unmixed st a) :
    Stocked (st.step a) := by
  cases a with
  | register => exact h.register _ _ _ _ _ _ _ hg
  | request => exact ⟨h.latest, h.fits⟩
  | fetch n ok => exact h.fetch hl n ok hg

end Stocked

/-- **Where no registration is mixed with an earlier one, bundles are consistent.** -/
theorem consistent_of_unmixed (acts : List Act) (h : Along step Unmixed start acts) :
    Consistent (run acts) := by
  obtain ⟨-, hstocked⟩ := h.invariant_with (fun _ a hl => hl.step a)
    (fun _ _ hl hg hs => hs.step hl hg) start_ledger start_stocked
  obtain ⟨hordered, honce⟩ := run_single_use acts
  exact ⟨hstocked.fits, hordered, honce⟩

end KeyServer

namespace Sample

open KeyServer

def registers (n : UInt8) : KeyServer.Act :=
  .register "t" "alice" "" "" [n, 0] [n, 1] [[n, 2]]

def asks (n : ℕ) : List KeyServer.Act := [.request "GET" "/v1/keys/alice" true, .fetch n true]

/-- Alice registers again once her prekey is used up. -/
def renewed : List KeyServer.Act := registers 1 :: asks 0 ++ registers 2 :: asks 1 ++ asks 2

theorem consistent_of_unmixed_renewed :
    Along KeyServer.step Unmixed KeyServer.start renewed ∧
      (KeyServer.run renewed).served.map Served.bundle =
        [⟨some [1, 0], some [1, 1], some [1, 2]⟩, ⟨some [2, 0], some [2, 1], some [2, 2]⟩,
          ⟨some [2, 0], some [2, 1], none⟩] ∧
      Consistent (KeyServer.run renewed) :=
  ⟨by decide +kernel, by decide +kernel, consistent_of_unmixed renewed (by decide +kernel)⟩

/-- Alice registers again before anyone has asked for her prekey. -/
def reregistered : List KeyServer.Act := registers 1 :: registers 2 :: asks 0

/-- **A prekey of the earlier registration is served with the keys of the later one.** -/
theorem stale_prekey_served :
    (KeyServer.run reregistered).served.map Served.bundle = [⟨some [2, 0], some [2, 1], some [1, 2]⟩] ∧
      ¬ Consistent (KeyServer.run reregistered) := by
  have hserved : (KeyServer.run reregistered).served.map Served.bundle =
      [⟨some [2, 0], some [2, 1], some [1, 2]⟩] := by decide +kernel
  refine ⟨hserved, fun h => ?_⟩
  obtain ⟨b, rest, hb, hbundle, -⟩ := List.map_eq_cons_iff.mp hserved
  obtain ⟨R, ⟨⟨j, -, hj⟩, -, hidentity, -⟩, hprekey, hrow, -⟩ := h.fits 0 b (by rw [hb]; rfl)
  rw [hbundle] at hidentity hprekey
  obtain ⟨r, hr, hbytes⟩ := Option.map_eq_some_iff.mp hprekey.symm
  have hall : ∀ R ∈ (KeyServer.run reregistered).registrations, R.identityPub = [2, 0] →
      ∀ r ∈ R.prekeys, r.prekey ≠ [1, 2] := by decide +kernel
  exact hall R (List.mem_of_getElem? hj) (Option.some.inj hidentity).symm r (hrow r hr) hbytes

end Sample

end SecureComm.Server
