import Mathlib.Logic.Function.Basic
import SecureComm.Lib.Run
import SecureComm.Server.Database

/-!
# Accounts

The handlers that write the table `users`: `/v1/register`, and registration and
verification of phone numbers and email addresses. Requests are handled one
after the other; what the clock, the generator of tokens and the statements
return is part of a request. None of the handlers looks at the bearer token.
-/

namespace SecureComm.Server

open Function Run

inductive Reply
  | error (status : ℕ) (text : String)
  | json (fields : List (String × String))
deriving DecidableEq

inductive Contact
  | phone
  | email
deriving DecidableEq

/-- A row of `otp_requests` or `email_verifications`. The column `verified` is
written but never read. -/
structure Verification where
  secret : String
  createdAt : Int64
  verified : Bool := false

/-- `verifications` are the two tables of verifications, by their primary keys. -/
structure AuthServer where
  db : Database := {}
  verifications : Contact → String → Option Verification := fun _ _ => none

/-- The body of `/v1/register`, with keys decoded from base64. -/
structure RegisterReq where
  id : String
  phone : String
  displayName : String
  identityPub : Bytes
  signedPrekey : Bytes
  oneTimePrekeys : List Bytes

structure SignupReq where
  contact : String
  displayName : String

structure VerifyReq where
  contact : String
  secret : String
  displayName : String

/-- What the clock shows in a verification: `Unix` when the age is checked,
`UnixNano`, and `Unix` for two columns of the row. -/
structure Clock where
  now : Int64
  nanos : Int64
  createdAt : Int64
  lastSeen : Int64

/-- A one-time password from four random bytes. -/
def otp (b₀ b₁ b₂ b₃ : UInt8) : String :=
  let n := (b₀.toUInt32 <<< 24 ||| b₁.toUInt32 <<< 16 ||| b₂.toUInt32 <<< 8 ||| b₃.toUInt32) % 1000000
  toString (if n < 100000 then n.toNat + 100000 else n.toNat)

/-- The id under which a verified user is created. -/
def generatedID (nanos : Int64) : String := "user_" ++ toString nanos.toInt

namespace Contact

def name : Contact → String
  | phone => "phone"
  | email => "email"

/-- For how many seconds a secret can be used. -/
def lifetime : Contact → Int64
  | phone => 300
  | email => 86400

def required : Contact → String
  | phone => "phone is required"
  | email => "email is required"

def notFound : Contact → String
  | phone => "otp request not found"
  | email => "email verification not found"

def expired : Contact → String
  | phone => "otp expired"
  | email => "verification token expired"

def invalid : Contact → String
  | phone => "invalid otp"
  | email => "invalid verification token"

def sent : Contact → String → List (String × String)
  | phone, otp => [("status", "ok"), ("otp", otp), ("message", "OTP: " ++ otp)]
  | email, token =>
    [("status", "ok"), ("message", "Verification link sent to email (token: " ++ token ++ ")")]

def column : Contact → User → Option String
  | phone, u => u.phone
  | email, u => u.email

/-- The row that is inserted for a verified user. -/
def user (kind : Contact) (req : VerifyReq) (token : String) (clock : Clock) : User :=
  { id := generatedID clock.nanos
    phone := if kind = phone then some req.contact else none
    email := if kind = email then some req.contact else none
    displayName := some req.displayName
    token := some token
    createdAt := some clock.createdAt
    online := 0
    lastSeen := some clock.lastSeen }

theorem user_contacts (kind : Contact) (req : VerifyReq) (token : String) (clock : Clock) :
    (kind.user req token clock).phone = none ∨ (kind.user req token clock).email = none := by
  cases kind with
  | phone => exact .inr rfl
  | email => exact .inl rfl

/-- What is wrong with a secret, if anything. -/
def check (kind : Contact) (stored : Option Verification) (secret : String) (now : Int64) :
    Option String :=
  match stored with
  | none => some kind.notFound
  | some v =>
    if now - v.createdAt > kind.lifetime then some kind.expired
    else if v.secret ≠ secret then some kind.invalid
    else none

end Contact

namespace AuthServer

def start : AuthServer := {}

/-! ## Handlers -/

/-- `/v1/register`. -/
def v1Register (st : AuthServer) (method : String) (body : Option RegisterReq)
    (token : Option String) (ok : Bool) : AuthServer × Reply :=
  if method ≠ "POST" then (st, .error 405 "method not allowed")
  else
    match body with
    | none => (st, .error 400 "bad request")
    | some req =>
      match token, ok with
      | some token, true =>
        ({ st with
          db := registerUser st.db token req.id req.phone req.displayName req.identityPub
            req.signedPrekey req.oneTimePrekeys },
          .json [("status", "ok"), ("id", req.id), ("token", token)])
      | _, _ => (st, .error 500 "internal error")

/-- A secret is stored for the contact, in place of an earlier one. -/
def registerContact (kind : Contact) (st : AuthServer) (method : String) (body : Option SignupReq)
    (secret : Option String) (now : Int64) (ok : Bool) : AuthServer × Reply :=
  if method ≠ "POST" then (st, .error 405 "method not allowed")
  else
    match body with
    | none => (st, .error 400 "bad request")
    | some req =>
      if req.contact = "" then (st, .error 400 kind.required)
      else
        match secret, ok with
        | some secret, true =>
          ({ st with
            verifications := update st.verifications kind
              (update (st.verifications kind) req.contact (some { secret, createdAt := now })) },
            .json (kind.sent secret))
        | _, _ => (st, .error 500 "internal error")

/-- `UPDATE ... SET verified = 1`, whose failure is ignored. -/
def mark (st : AuthServer) (kind : Contact) (contact : String) (marked : Bool) :
    Contact → String → Option Verification :=
  if marked then
    update st.verifications kind (update (st.verifications kind) contact
      ((st.verifications kind contact).map fun v => { v with verified := true }))
  else st.verifications

/-- A user is created for a contact whose secret is presented. -/
def verifyContact (kind : Contact) (st : AuthServer) (method : String) (body : Option VerifyReq)
    (clock : Clock) (token : Option String) (ok marked : Bool) : AuthServer × Reply :=
  if method ≠ "POST" then (st, .error 405 "method not allowed")
  else
    match body with
    | none => (st, .error 400 "bad request")
    | some req =>
      match kind.check (st.verifications kind req.contact) req.secret clock.now with
      | some text => (st, .error 400 text)
      | none =>
        match token, ok with
        | some token, true =>
          ({  db := { st.db with users := st.db.users.replace (kind.user req token clock) }
              verifications := st.mark kind req.contact marked },
            .json [("status", "ok"), ("user_id", generatedID clock.nanos), ("auth_token", token),
              (kind.name, req.contact), ("display_name", req.displayName)])
        | _, _ => (st, .error 500 "internal error")

/-- `/api/auth/register/phone`. -/
def registerPhone (st : AuthServer) (method : String) (body : Option SignupReq)
    (b₀ b₁ b₂ b₃ : UInt8) (now : Int64) (ok : Bool) : AuthServer × Reply :=
  st.registerContact .phone method body (some (otp b₀ b₁ b₂ b₃)) now ok

/-- `/api/auth/verify/phone`. -/
def verifyPhone (st : AuthServer) (method : String) (body : Option VerifyReq) (clock : Clock)
    (token : Option String) (ok marked : Bool) : AuthServer × Reply :=
  st.verifyContact .phone method body clock token ok marked

/-- `/api/auth/register/email`. -/
def registerEmail (st : AuthServer) (method : String) (body : Option SignupReq)
    (token : Option String) (now : Int64) (ok : Bool) : AuthServer × Reply :=
  st.registerContact .email method body token now ok

/-- `/api/auth/verify/email`. -/
def verifyEmail (st : AuthServer) (method : String) (body : Option VerifyReq) (clock : Clock)
    (token : Option String) (ok marked : Bool) : AuthServer × Reply :=
  st.verifyContact .email method body clock token ok marked

/-- A request to one of the handlers (`token`: what `genToken` returns, `ok`:
the statement succeeds, `marked`: so does the update of `verified`). -/
inductive Call
  | register (body : Option RegisterReq) (token : Option String) (ok : Bool)
  | registerPhone (body : Option SignupReq) (b₀ b₁ b₂ b₃ : UInt8) (now : Int64) (ok : Bool)
  | verifyPhone (body : Option VerifyReq) (clock : Clock) (token : Option String) (ok marked : Bool)
  | registerEmail (body : Option SignupReq) (token : Option String) (now : Int64) (ok : Bool)
  | verifyEmail (body : Option VerifyReq) (clock : Clock) (token : Option String) (ok marked : Bool)

structure Request where
  method : String
  bearer : Option String
  call : Call

def handle (st : AuthServer) (r : Request) : AuthServer × Reply :=
  match r.call with
  | .register body token ok => st.v1Register r.method body token ok
  | .registerPhone body b₀ b₁ b₂ b₃ now ok => st.registerPhone r.method body b₀ b₁ b₂ b₃ now ok
  | .verifyPhone body clock token ok marked => st.verifyPhone r.method body clock token ok marked
  | .registerEmail body token now ok => st.registerEmail r.method body token now ok
  | .verifyEmail body clock token ok marked => st.verifyEmail r.method body clock token ok marked

def step (st : AuthServer) (r : Request) : AuthServer := (st.handle r).1

def run (rs : List Request) : AuthServer := rs.foldl step start

/-! ## Isolation -/

/-- The account keeps its token and its keys, and the token keeps leading to it. -/
structure Keeps (st st' : AuthServer) (id : String) : Prop where
  keys : ∀ u, st.db.users.find id = some u → ∃ u', st'.db.users.find id = some u' ∧
    u'.token = u.token ∧ u'.identityPub = u.identityPub ∧ u'.signedPrekey = u.signedPrekey
  oneTimePrekeys : st'.db.oneTimePrekeys.ofUser id = st.db.oneTimePrekeys.ofUser id
  token : ∀ t, getUserByToken st.db.users t = some id → getUserByToken st'.db.users t = some id

/-- What is verified, with what and when. -/
def Call.verification? : Call → Option (Contact × Option VerifyReq × Int64)
  | .verifyPhone body clock _ _ _ => some (.phone, body, clock.now)
  | .verifyEmail body clock _ _ _ => some (.email, body, clock.now)
  | .register .. | .registerPhone .. | .registerEmail .. => none

/-- A verification succeeds for the contact that the account has. -/
def Verifies (kind : Contact) (st : AuthServer) (body : Option VerifyReq) (now : Int64)
    (id : String) : Prop :=
  ∃ req ∈ body, kind.check (st.verifications kind req.contact) req.secret now = none ∧
    ∃ u ∈ st.db.users.find id, kind.column u = some req.contact

/-- The request presents proof of owning the account: its token, or the secret
issued for its phone number or email address. -/
def Proves (st : AuthServer) (r : Request) (id : String) : Prop :=
  (∃ t ∈ r.bearer, getUserByToken st.db.users t = some id) ∨
  ∃ kind body now, r.call.verification? = some (kind, body, now) ∧ Verifies kind st body now id

/-- From any point of a run on, an account that exists is kept by requests that
present no proof of owning it. -/
def Isolated (rs : List Request) : Prop :=
  ∀ before after, rs = before ++ after → ∀ id, (run before).db.users.find id ≠ none →
    Along step (fun st r => ¬ Proves st r id) (run before) after → Keeps (run before) (run rs) id

def created (kind : Contact) (st : AuthServer) (r : Request) (body : Option VerifyReq)
    (clock : Clock) (token : Option String) (ok : Bool) : Option String :=
  body.bind fun req =>
    if r.method = "POST" ∧ token.isSome ∧ ok = true ∧
        kind.check (st.verifications kind req.contact) req.secret clock.now = none then
      some (generatedID clock.nanos)
    else none

/-- The id of the row of `users` that the request inserts: that which it names,
or the one generated for it. -/
def inserts (st : AuthServer) (r : Request) : Option String :=
  match r.call with
  | .register body token ok =>
    body.bind fun req => if r.method = "POST" ∧ token.isSome ∧ ok = true then some req.id else none
  | .verifyPhone body clock token ok _ => created .phone st r body clock token ok
  | .verifyEmail body clock token ok _ => created .email st r body clock token ok
  | .registerPhone .. | .registerEmail .. => none

/-- A row is inserted under an id that has none, or by a request that presents
proof of owning that account. -/
def Entitled (st : AuthServer) (r : Request) : Prop :=
  ∀ id ∈ inserts st r, st.db.users.find id ≠ none → Proves st r id

instance (kind : Contact) (st : AuthServer) (body : Option VerifyReq) (now : Int64) (id : String) :
    Decidable (Verifies kind st body now id) :=
  inferInstanceAs (Decidable (∃ req ∈ body, _ ∧ ∃ u ∈ st.db.users.find id, _))

instance (st : AuthServer) (r : Request) (id : String) : Decidable (Proves st r id) :=
  decidable_of_iff ((∃ t ∈ r.bearer, getUserByToken st.db.users t = some id) ∨
      ∃ v ∈ r.call.verification?, Verifies v.1 st v.2.1 v.2.2 id)
    (or_congr_right ⟨fun ⟨v, hv, h⟩ => ⟨v.1, v.2.1, v.2.2, hv, h⟩,
      fun ⟨kind, body, now, hv, h⟩ => ⟨(kind, body, now), hv, h⟩⟩)

instance (st : AuthServer) (r : Request) : Decidable (Entitled st r) :=
  inferInstanceAs (Decidable (∀ id ∈ inserts st r, _))

theorem Keeps.refl (st : AuthServer) (id : String) : Keeps st st id :=
  ⟨fun u hu => ⟨u, hu, rfl, rfl, rfl⟩, rfl, fun _ h => h⟩

theorem Keeps.trans {st₁ st₂ st₃ : AuthServer} {id : String} (h : Keeps st₁ st₂ id)
    (h' : Keeps st₂ st₃ id) : Keeps st₁ st₃ id where
  keys u hu := by
    obtain ⟨u', hu', ht, hi, hs⟩ := h.keys u hu
    obtain ⟨u'', hu'', ht', hi', hs'⟩ := h'.keys u' hu'
    exact ⟨u'', hu'', ht'.trans ht, hi'.trans hi, hs'.trans hs⟩
  oneTimePrekeys := h'.oneTimePrekeys.trans h.oneTimePrekeys
  token t ht := h'.token t (h.token t ht)

/-- A token leads to the first row that has it; replacing the row of another
account leaves that row, and the rows before it, where they are. -/
theorem getUserByToken_replace {users : Users} {u : User} {t id : String}
    (h : getUserByToken users t = some id) (hne : u.id ≠ id) :
    getUserByToken (users.replace u) t = some id := by
  unfold getUserByToken at h ⊢
  obtain ⟨v, hv, rfl⟩ := Option.map_eq_some_iff.mp h
  obtain ⟨htok, as, bs, hrows, hbefore⟩ := List.find?_eq_some_iff_append.mp hv
  refine Option.map_eq_some_iff.mpr ⟨v, List.find?_eq_some_iff_append.mpr
    ⟨htok, as.filter (fun w => w.id ≠ u.id), bs.filter (fun w => w.id ≠ u.id) ++ [u], ?_,
      fun w hw => hbefore w (List.mem_filter.mp hw).1⟩, rfl⟩
  have hcons : (v :: bs).filter (fun w => w.id ≠ u.id) = v :: bs.filter fun w => w.id ≠ u.id :=
    List.filter_cons_of_pos (decide_eq_true fun he => hne he.symm)
  unfold Users.replace
  simp only [hrows, List.filter_append]
  rw [List.append_assoc, hcons, List.cons_append]

theorem verifyContact_cases (kind : Contact) (st : AuthServer) (r : Request)
    (body : Option VerifyReq) (clock : Clock) (token : Option String) (ok marked : Bool) :
    (∃ status text,
      st.verifyContact kind r.method body clock token ok marked = (st, .error status text)) ∨
    ∃ req u fields, body = some req ∧
      kind.check (st.verifications kind req.contact) req.secret clock.now = none ∧
      created kind st r body clock token ok = some u.id ∧ (u.phone = none ∨ u.email = none) ∧
      st.verifyContact kind r.method body clock token ok marked =
        ({ db := { st.db with users := st.db.users.replace u }
           verifications := st.mark kind req.contact marked }, .json fields) := by
  unfold verifyContact created
  split
  · exact .inl ⟨_, _, rfl⟩
  rename_i hm
  cases body with
  | none => exact .inl ⟨_, _, rfl⟩
  | some req =>
    simp only
    split
    · exact .inl ⟨_, _, rfl⟩
    · rename_i hcheck
      split
      · refine .inr ⟨req, kind.user req _ clock, _, rfl, hcheck, ?_, kind.user_contacts req _ clock,
          rfl⟩
        rw [Option.bind_some, if_pos ⟨not_not.mp hm, rfl, rfl, hcheck⟩]
        rfl
      · exact .inl ⟨_, _, rfl⟩

theorem registerContact_cases (kind : Contact) (st : AuthServer) (method : String)
    (body : Option SignupReq) (secret : Option String) (now : Int64) (ok : Bool) :
    (∃ status text, st.registerContact kind method body secret now ok = (st, .error status text)) ∨
    ∃ req s fields, body = some req ∧ secret = some s ∧
      st.registerContact kind method body secret now ok = ({ st with
        verifications := update st.verifications kind
          (update (st.verifications kind) req.contact (some { secret := s, createdAt := now })) },
        .json fields) := by
  unfold registerContact
  split
  · exact .inl ⟨_, _, rfl⟩
  cases body with
  | none => exact .inl ⟨_, _, rfl⟩
  | some req =>
    simp only
    split
    · exact .inl ⟨_, _, rfl⟩
    · split
      · exact .inr ⟨req, _, _, rfl, rfl, rfl⟩
      · exact .inl ⟨_, _, rfl⟩

theorem registerContact_db (kind : Contact) (st : AuthServer) (method : String)
    (body : Option SignupReq) (secret : Option String) (now : Int64) (ok : Bool) :
    (st.registerContact kind method body secret now ok).1.db = st.db := by
  rcases registerContact_cases kind st method body secret now ok with
    ⟨_, _, he⟩ | ⟨_, _, _, -, -, he⟩
  · rw [he]
  · rw [he]

theorem verifyContact_db (kind : Contact) (st : AuthServer) (r : Request)
    (body : Option VerifyReq) (clock : Clock) (token : Option String) (ok marked : Bool) :
    let st' := (st.verifyContact kind r.method body clock token ok marked).1
    st'.db = st.db ∨ ∃ u, created kind st r body clock token ok = some u.id ∧
      (u.phone = none ∨ u.email = none) ∧ st'.db.users = st.db.users.replace u ∧
      ∀ id, id ≠ u.id → st'.db.oneTimePrekeys.ofUser id = st.db.oneTimePrekeys.ofUser id := by
  rcases verifyContact_cases kind st r body clock token ok marked with
    ⟨_, _, h⟩ | ⟨_, u, _, -, -, hu, hc, h⟩
  · exact .inl (by rw [h])
  · exact .inr ⟨u, hu, hc, by rw [h], fun _ _ => by rw [h]⟩

/-- **What a request does to accounts**: nothing, or it replaces the row of one id. -/
theorem step_cases (st : AuthServer) (r : Request) : (st.step r).db = st.db ∨
    ∃ u, inserts st r = some u.id ∧ (u.phone = none ∨ u.email = none) ∧
      (st.step r).db.users = st.db.users.replace u ∧ ∀ id, id ≠ u.id →
        (st.step r).db.oneTimePrekeys.ofUser id = st.db.oneTimePrekeys.ofUser id := by
  unfold step handle inserts
  cases r.call with
  | register body token ok =>
    simp only
    unfold v1Register
    split
    · exact .inl rfl
    rename_i hm
    cases body with
    | none => exact .inl rfl
    | some req =>
      simp only
      split
      · refine .inr ⟨_, by rw [Option.bind_some, if_pos ⟨not_not.mp hm, rfl, rfl⟩], .inr rfl, rfl,
          fun id hid => ?_⟩
        exact st.db.oneTimePrekeys.ofUser_insertAll_ne hid req.oneTimePrekeys
      · exact .inl rfl
  | registerPhone => exact .inl (registerContact_db ..)
  | registerEmail => exact .inl (registerContact_db ..)
  | verifyPhone body clock token ok marked => exact verifyContact_db ..
  | verifyEmail body clock token ok marked => exact verifyContact_db ..

/-- **A request keeps the accounts it is not entitled to change.** -/
theorem step_keeps {st : AuthServer} {r : Request} (h : Entitled st r) {id : String}
    (hid : st.db.users.find id ≠ none) (hnot : ¬ Proves st r id) : Keeps st (st.step r) id := by
  rcases step_cases st r with hdb | ⟨u, hins, -, husers, hprekeys⟩
  · refine ⟨fun u hu => ⟨u, by rw [hdb]; exact hu, rfl, rfl, rfl⟩, by rw [hdb], fun t ht => ?_⟩
    rw [hdb]
    exact ht
  · have hne : u.id ≠ id := by
      rintro rfl
      exact hnot (h u.id hins hid)
    refine ⟨fun v hv => ⟨v, ?_, rfl, rfl, rfl⟩, hprekeys id hne.symm, fun t ht => ?_⟩
    · rw [husers, Users.find_replace, if_neg hne.symm]
      exact hv
    · rw [husers]
      exact getUserByToken_replace ht hne

theorem Keeps.exists {st st' : AuthServer} {id : String} (h : Keeps st st' id)
    (hid : st.db.users.find id ≠ none) : st'.db.users.find id ≠ none := by
  obtain ⟨u, hu⟩ := Option.ne_none_iff_exists'.mp hid
  obtain ⟨u', hu', -⟩ := h.keys u hu
  rw [hu']
  exact Option.some_ne_none u'

/-- From any state on, requests that are entitled to what they change and present
no proof of owning an account keep it. -/
theorem keeps_of_entitled {st : AuthServer} {rs : List Request} {id : String}
    (h : Along step Entitled st rs) (hid : st.db.users.find id ≠ none)
    (hnot : Along step (fun st r => ¬ Proves st r id) st rs) : Keeps st (rs.foldl step st) id := by
  induction rs generalizing st with
  | nil => exact .refl st id
  | cons r rs ih =>
    have hkeep := step_keeps h.1 hid hnot.1
    exact hkeep.trans (ih h.2 (hkeep.exists hid) hnot.2)

/-- **Where every request inserts only rows it is entitled to, accounts are isolated.** -/
theorem isolated_of_entitled (rs : List Request) (h : Along step Entitled start rs) :
    Isolated rs := by
  rintro before after rfl id hid hnot
  unfold run
  rw [List.foldl_append]
  exact keeps_of_entitled (along_append.mp h).2 hid hnot

end AuthServer

namespace Sample

open AuthServer

/-- A request to register Alice with keys that start with `n`, without a bearer token. -/
def registersAs (n : UInt8) (token : String) : AuthServer.Request :=
  ⟨"POST", none, .register (some ⟨"alice", "+1", "Alice", [n, 0], [n, 1], [[n, 2]]⟩) (some token) true⟩

/-- Alice registers; someone signs up with a phone number, and verifies it. -/
def signsUp : List AuthServer.Request :=
  [registersAs 1 "ta",
    ⟨"POST", none, .registerPhone (some ⟨"+2", "Bob"⟩) 0 0 0 7 1000 true⟩,
    ⟨"POST", none, .verifyPhone (some ⟨"+2", "100007", "Bob"⟩) ⟨1300, 1300000000000, 1300, 1300⟩
      (some "tb") true true⟩]

theorem isolated_of_entitled_signsUp :
    Along AuthServer.step Entitled AuthServer.start signsUp ∧
      getUserByToken (AuthServer.run signsUp).db.users "tb" = some "user_1300000000000" ∧
      Isolated signsUp :=
  ⟨by decide +kernel, by decide +kernel, isolated_of_entitled signsUp (by decide +kernel)⟩

/-- Someone else registers the id of Alice. -/
def takesOver : List AuthServer.Request := [registersAs 1 "ta", registersAs 2 "tm"]

/-- **Alice's token is void, and her keys are replaced.** -/
theorem account_taken_over :
    getUserByToken (AuthServer.run takesOver).db.users "ta" = none ∧
      ((AuthServer.run takesOver).db.users.find "alice").map User.identityPub = some (some [2, 0]) ∧
      ¬ Isolated takesOver := by
  have hgone : getUserByToken (AuthServer.run takesOver).db.users "ta" = none := by decide +kernel
  refine ⟨hgone, by decide +kernel, fun h => ?_⟩
  have hkeeps := h [registersAs 1 "ta"] [registersAs 2 "tm"] rfl "alice" (by decide +kernel)
    ⟨by decide +kernel, trivial⟩
  have htoken := hkeeps.token "ta" (by decide +kernel)
  rw [hgone] at htoken
  cases htoken

end Sample

end SecureComm.Server
