import SecureComm.Lib.Dict

/-!
# One-time passwords of the Node server

The request handler of `server.js` and the map that it keeps by phone. A request
is known after `JSON.parse`. A password stands until the next one is made for
its phone, whoever asks for that and however often it is used.
-/

namespace SecureComm.Node

/-- A field as JavaScript reads it; what is neither a text nor an object goes by how it is written. -/
inductive Field where
  | absent
  | text (s : String)
  | scalar (shown : String)
  | object
  deriving DecidableEq

/-- A key of the map. An object is found only as the object it is, that of one request. -/
inductive PhoneKey where
  | absent
  | text (s : String)
  | scalar (shown : String)
  | object (request : ℕ)
  deriving DecidableEq

def Field.key (request : ℕ) : Field → PhoneKey
  | .absent => .absent
  | .text s => .text s
  | .scalar shown => .scalar shown
  | .object => .object request

structure Body where
  phone : Field := .absent
  otp : Field := .absent
  displayName : Field := .absent
  deriving DecidableEq

structure Response where
  code : ℕ
  status : Option String := none
  message : Option String := none
  otp : Option String := none
  userId : Option String := none
  authToken : Option String := none
  phone : Field := .absent
  displayName : Field := .absent
  clients : Option ℕ := none
  deriving DecidableEq

/-- What a handler draws: the random numbers and the clock. -/
structure OtpDraw where
  otp : Fin 900000
  now : ℕ
  user : String
  token : String

def OtpDraw.text (d : OtpDraw) : String := toString (100000 + d.otp.val)

def OtpDraw.userId (d : OtpDraw) : String := "user_" ++ toString d.now ++ "_" ++ d.user

abbrev OtpStore := Dict PhoneKey String

namespace OtpStore

/-- `body` is `none` where it throws to read it. -/
def registerPhone (otpStore : OtpStore) (request : ℕ) (body : Option Body) (d : OtpDraw) :
    OtpStore × Response :=
  match body with
  | some data =>
    (otpStore.set (data.phone.key request) d.text,
      { code := 200, status := some "ok", otp := some d.text })
  | none => (otpStore, { code := 400, status := some "error" })

def verifyPhone (otpStore : OtpStore) (request : ℕ) (body : Option Body) (d : OtpDraw) : Response :=
  match body with
  | some data =>
    let storedOtp := (otpStore.get (data.phone.key request)).getD ""
    if storedOtp ≠ "" ∧ .text storedOtp = data.otp then
      { code := 200, status := some "ok", userId := some d.userId, authToken := some d.token
        phone := data.phone, displayName := data.displayName }
    else { code := 400, status := some "error", message := some "Invalid OTP" }
  | none => { code := 400, status := some "error" }

def registerUrl : String := "/api/auth/register/phone"

def verifyUrl : String := "/api/auth/verify/phone"

/-- The handler of a request; `clients` is how many clients the relay has. -/
def handle (otpStore : OtpStore) (request : ℕ) (method url : String) (body : Option Body)
    (clients : ℕ) (d : OtpDraw) : OtpStore × Response :=
  if method = "OPTIONS" then (otpStore, { code := 200 })
  else if url = registerUrl ∧ method = "POST" then otpStore.registerPhone request body d
  else if url = verifyUrl ∧ method = "POST" then (otpStore, otpStore.verifyPhone request body d)
  else if url = "/health" ∧ method = "GET" then
    (otpStore, { code := 200, status := some "healthy", clients := some clients })
  else (otpStore, { code := 404, status := some "not found" })

theorem text_ne_empty (d : OtpDraw) : d.text ≠ "" := fun h => by
  have hdigits : (100000 + d.otp.val).repr.toList = [] := congrArg String.toList h
  rw [Nat.toList_repr] at hdigits
  exact Nat.toDigits_ne_nil hdigits

/-- **What a request does to the passwords**: it makes one for its phone, and no other is changed,
or none at all. -/
theorem handle_cases (otpStore : OtpStore) (request : ℕ) (method url : String) (body : Option Body)
    (clients : ℕ) (d : OtpDraw) :
    (∃ data, body = some data ∧ otpStore.handle request method url body clients d =
      (otpStore.set (data.phone.key request) d.text,
        { code := 200, status := some "ok", otp := some d.text })) ∨
    ((otpStore.handle request method url body clients d).1 = otpStore ∧
      (otpStore.handle request method url body clients d).2.otp = none) := by
  unfold handle
  by_cases hoptions : method = "OPTIONS"
  · rw [if_pos hoptions]
    exact .inr ⟨rfl, rfl⟩
  rw [if_neg hoptions]
  by_cases hregister : url = registerUrl ∧ method = "POST"
  · rw [if_pos hregister]
    rcases body with _ | data
    · exact .inr ⟨rfl, rfl⟩
    · exact .inl ⟨data, rfl, rfl⟩
  rw [if_neg hregister]
  by_cases hverify : url = verifyUrl ∧ method = "POST"
  · rw [if_pos hverify]
    refine .inr ⟨rfl, ?_⟩
    unfold verifyPhone
    split
    · dsimp only
      split <;> rfl
    · rfl
  rw [if_neg hverify]
  split <;> exact .inr ⟨rfl, rfl⟩

theorem handle_verify (otpStore : OtpStore) (request : ℕ) (body : Option Body) (clients : ℕ)
    (d : OtpDraw) : otpStore.handle request "POST" verifyUrl body clients d =
      (otpStore, otpStore.verifyPhone request body d) := by
  unfold handle
  rw [if_neg (by decide), if_neg (by decide), if_pos ⟨rfl, rfl⟩]

theorem verifyPhone_ok {otpStore : OtpStore} {request : ℕ} {body : Option Body} {d : OtpDraw}
    (h : (otpStore.verifyPhone request body d).status = some "ok") :
    (otpStore.verifyPhone request body d).code = 200 ∧
      (otpStore.verifyPhone request body d).userId = some d.userId ∧
      (otpStore.verifyPhone request body d).authToken = some d.token := by
  have hstatus : some "error" ≠ some "ok" := by decide
  rcases body with _ | data
  · exact absurd h hstatus
  by_cases hstands : (otpStore.get (data.phone.key request)).getD "" ≠ "" ∧
      .text ((otpStore.get (data.phone.key request)).getD "") = data.otp
  · have haccepts : otpStore.verifyPhone request (some data) d = _ := if_pos hstands
    rw [haccepts]
    exact ⟨rfl, rfl, rfl⟩
  · have hrejects : otpStore.verifyPhone request (some data) d = _ := if_neg hstands
    rw [hrejects] at h
    exact absurd h hstatus

/-- Only a password that stands is accepted. -/
theorem verifyPhone_accepts_iff {otpStore : OtpStore} (hne : ∀ k v, otpStore.get k = some v → v ≠ "")
    (request : ℕ) (body : Option Body) (d : OtpDraw) :
    (otpStore.verifyPhone request body d).code = 200 ↔ ∃ data otp, body = some data ∧
      otpStore.get (data.phone.key request) = some otp ∧ data.otp = .text otp := by
  rcases body with _ | data
  · have hcode : (400 : ℕ) ≠ 200 := by decide
    exact iff_of_false hcode fun ⟨_, _, h, _⟩ => nomatch h
  show (if _ then _ else _ : Response).code = 200 ↔ _
  split
  · rename_i h
    refine iff_of_true rfl ?_
    rcases hget : otpStore.get (data.phone.key request) with _ | otp
    · rw [hget] at h
      exact absurd rfl h.1
    · rw [hget] at h
      exact ⟨data, otp, rfl, hget, h.2.symm⟩
  · rename_i h
    refine iff_of_false (by decide) ?_
    rintro ⟨_, otp, hdata, hget, hotp⟩
    obtain rfl := Option.some.inj hdata
    rw [hget, Option.getD_some] at h
    exact h ⟨hne _ _ hget, hotp.symm⟩

end OtpStore

end SecureComm.Node
