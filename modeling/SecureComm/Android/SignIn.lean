import SecureComm.Android.ChatScreen
import SecureComm.Server.Otp

/-!
# Signing in

Any number of apps and of other clients that ask the Node server for passwords
and send them back; requests and responses pass each other in any order and get
lost. A password is accepted exactly if it is the last that was made for its
phone, and an app is signed in as the user that the server made when it accepted
the password of that app (`run_signedIn`).
-/

namespace SecureComm.Android

open Function Node

structure AuthViewModel where
  phone : String := ""
  displayName : String := ""
  otp : String := ""
  userId : Option String := none
  token : Option String := none
  status : Option String := none

structure Prefs extends Profile where
  authToken : Option String

inductive Form where
  | register
  | verify

/-- A request; one of an app comes from one of its two buttons. -/
structure Asked (α : Type) where
  sender : Option (α × Form) := none
  method : String
  url : String
  body : Option Body := none

/-- A request that the server has handled, by its number. -/
structure Handled (α : Type) where
  number : ℕ
  asked : Asked α
  response : Response

/-- `requests` are in the order of their numbers, `handled` the last first. An app waits for the
response to a request as long as it is `waiting`. -/
structure SignIn (α : Type) where
  otpStore : OtpStore := {}
  requests : List (Asked α) := []
  handled : List (Handled α) := []
  waiting : ℕ → Bool := fun _ => false
  model : α → AuthViewModel := fun _ => {}
  prefs : α → Prefs

variable {α : Type}

/-- The password that a request has made for a phone. -/
def Handled.made (k : PhoneKey) (h : Handled α) : Option String :=
  if h.asked.body.map (fun data => data.phone.key h.number) = some k then h.response.otp else none

/-- The request carries the last password that had been made for its phone. -/
def Handled.Current (h : Handled α) (before : List (Handled α)) : Prop :=
  ∃ data otp, h.asked.body = some data ∧
    before.findSome? (Handled.made (data.phone.key h.number)) = some otp ∧ data.otp = .text otp

namespace AuthViewModel

/-- The bodies of the two requests; the server does not read the name when it makes a password. -/
def registerBody (m : AuthViewModel) : Body where
  phone := .text m.phone
  displayName := .text m.displayName

def verifyBody (m : AuthViewModel) : Body where
  phone := .text m.phone
  otp := .text m.otp
  displayName := .text m.displayName

/-- `NetworkClient::postJson`, of a response that has come or has not. -/
def postJson (resp : Option Response) : Option Response :=
  resp.filter fun resp => 200 ≤ resp.code ∧ resp.code < 300

/-- The texts of a response that is no success; `raw` is what an object is written as. -/
def shown (raw : Response → String) (resp : Option Response) : String :=
  (resp.map raw).getD "null"

def otpResponse (raw : Response → String) (m : AuthViewModel) (resp : Option Response) :
    AuthViewModel :=
  match resp with
  | some r =>
    if r.status.getD "" = "ok" then
      let otpFromServer := r.otp.getD ""
      { m with otp := otpFromServer, status := some ("otp_sent: " ++ otpFromServer) }
    else { m with status := some ("failed: " ++ shown raw resp) }
  | none => { m with status := some ("failed: " ++ shown raw resp) }

/-- What `verifyOtp` does with a response, and what it puts into the preferences. -/
def verifyResponse (raw : Response → String) (m : AuthViewModel) (prefs : Prefs)
    (resp : Option Response) : AuthViewModel × Prefs :=
  match resp with
  | some r =>
    if r.status.getD "" = "ok" then
      let u := r.userId.getD ""
      let t := r.authToken.getD ""
      ({ m with userId := some u, token := some t, status := some "ok" },
        { userId := some u, authToken := some t, displayName := m.displayName })
    else ({ m with status := some ("invalid: " ++ shown raw resp) }, prefs)
  | none => ({ m with status := some ("invalid: " ++ shown raw resp) }, prefs)

end AuthViewModel

namespace SignIn

variable [DecidableEq α]

inductive Event (α : Type) where
  /-- What is typed into the fields. -/
  | edit (a : α) (phone displayName otp : String)
  /-- The name is changed in the settings. -/
  | settings (a : α) (displayName : String)
  /-- A button is pressed; `found` says whether there is a server. -/
  | press (a : α) (form : Form) (found : Bool)
  | stranger (method url : String) (body : Option Body)
  | handle (number clients : ℕ) (d : OtpDraw)
  /-- The response has come, or the request has failed. -/
  | respond (number : ℕ) (arrived : Bool)

def press (st : SignIn α) (a : α) (form : Form) (found : Bool) : SignIn α :=
  let m := st.model a
  match form, found with
  | .register, true =>
    { st with
      requests := st.requests ++
        [⟨some (a, form), "POST", OtpStore.registerUrl, some m.registerBody⟩]
      waiting := update st.waiting st.requests.length true
      model := update st.model a { m with status := some "discovering_server..." } }
  | .register, false =>
    { st with model := update st.model a { m with status := some "error: server not found" } }
  | .verify, true =>
    { st with
      requests := st.requests ++
        [⟨some (a, form), "POST", OtpStore.verifyUrl, some m.verifyBody⟩]
      waiting := update st.waiting st.requests.length true
      model := update st.model a { m with status := some "verifying..." } }
  | .verify, false =>
    { st with model := update st.model a { m with status := some "invalid: null" } }

/-- A request is handled once. -/
def handle (st : SignIn α) (number clients : ℕ) (d : OtpDraw) : SignIn α :=
  match st.requests[number]?, st.handled.find? fun h => h.number = number with
  | some asked, none =>
    let answer := st.otpStore.handle number asked.method asked.url asked.body clients d
    { st with otpStore := answer.1, handled := ⟨number, asked, answer.2⟩ :: st.handled }
  | _, _ => st

def response (st : SignIn α) (number : ℕ) : Option Response :=
  (st.handled.find? fun h => h.number = number).map Handled.response

def respond (raw : Response → String) (st : SignIn α) (number : ℕ) (arrived : Bool) : SignIn α :=
  match st.requests[number]?.bind Asked.sender, st.waiting number with
  | some (a, form), true =>
    if arrived = true ∧ st.response number = none then st
    else
      let resp := AuthViewModel.postJson (if arrived then st.response number else none)
      let st := { st with waiting := update st.waiting number false }
      match form with
      | .register =>
        { st with model := update st.model a ((st.model a).otpResponse raw resp) }
      | .verify =>
        { st with
          model := update st.model a ((st.model a).verifyResponse raw (st.prefs a) resp).1
          prefs := update st.prefs a ((st.model a).verifyResponse raw (st.prefs a) resp).2 }
  | _, _ => st

def step (raw : Response → String) (st : SignIn α) : Event α → SignIn α
  | .edit a phone displayName otp =>
    { st with model := update st.model a { st.model a with phone, displayName, otp } }
  | .settings a displayName =>
    { st with prefs := update st.prefs a { st.prefs a with displayName } }
  | .press a form found => st.press a form found
  | .stranger method url body => { st with requests := st.requests ++ [{ method, url, body }] }
  | .handle number clients d => st.handle number clients d
  | .respond number arrived => st.respond raw number arrived

def start (names : α → String) : SignIn α where
  prefs a := { userId := none, displayName := names a, authToken := none }

/-- **Who is signed in**: a request to verify is accepted exactly if its password is the last one of
its phone; an app is signed in as the user of such a request of its own; and no two apps are signed
in as one user, unless the server has drawn a user twice. -/
structure Honest (st : SignIn α) : Prop where
  accepts : ∀ after h before, st.handled = after ++ h :: before → h.asked.method = "POST" →
    h.asked.url = OtpStore.verifyUrl → (h.response.code = 200 ↔ h.Current before)
  signedIn : ∀ a u, (st.prefs a).userId = some u → ∃ after h before,
    st.handled = after ++ h :: before ∧ h.asked.sender = some (a, .verify) ∧ h.Current before ∧
      h.response.userId = some u ∧ (st.prefs a).authToken = h.response.authToken
  apart : (∀ h ∈ st.handled, ∀ h' ∈ st.handled, ∀ u, h.response.userId = some u →
    h'.response.userId = some u → h.number = h'.number) →
      ∀ a b u, (st.prefs a).userId = some u → (st.prefs b).userId = some u → a = b

structure Inv (st : SignIn α) : Prop where
  store : ∀ k, st.otpStore.get k = st.handled.findSome? (Handled.made k)
  texts : ∀ k v, st.otpStore.get k = some v → v ≠ ""
  asked : ∀ h ∈ st.handled, st.requests[h.number]? = some h.asked
  answered : ∀ h ∈ st.handled, ∃ otpStore clients d, h.response =
    (OtpStore.handle otpStore h.number h.asked.method h.asked.url h.asked.body clients d).2
  form : ∀ r ∈ st.requests, ∀ a, r.sender = some (a, .verify) →
    r.method = "POST" ∧ r.url = OtpStore.verifyUrl
  accepts : ∀ after h before, st.handled = after ++ h :: before → h.asked.method = "POST" →
    h.asked.url = OtpStore.verifyUrl → (h.response.code = 200 ↔ h.Current before)
  prefs : ∀ a u, (st.prefs a).userId = some u → ∃ h ∈ st.handled,
    h.asked.sender = some (a, .verify) ∧ h.response.code = 200 ∧
      h.response.userId = some u ∧ (st.prefs a).authToken = h.response.authToken

variable {raw : Response → String} {st : SignIn α}

omit [DecidableEq α] in
theorem Inv.honest (h : Inv st) : Honest st where
  accepts := h.accepts
  signedIn a u hu := by
    obtain ⟨e, he, hsender, hcode, huser, htoken⟩ := h.prefs a u hu
    obtain ⟨after, before, hsplit⟩ := List.append_of_mem he
    obtain ⟨hmethod, hurl⟩ := h.form e.asked (List.mem_of_getElem? (h.asked e he)) a hsender
    exact ⟨after, e, before, hsplit, hsender,
      (h.accepts after e before hsplit hmethod hurl).mp hcode, huser, htoken⟩
  apart hdrawn a b u ha hb := by
    obtain ⟨e, he, hsender, -, huser, -⟩ := h.prefs a u ha
    obtain ⟨e', he', hsender', -, huser', -⟩ := h.prefs b u hb
    have hasked := h.asked e he
    rw [hdrawn e he e' he' u huser huser', h.asked e' he'] at hasked
    rw [Option.some.inj hasked, hsender] at hsender'
    exact (Prod.mk.inj (Option.some.inj hsender')).1

omit [DecidableEq α] in
theorem Inv.of_eq (h : Inv st) {st' : SignIn α} (hstore : st'.otpStore = st.otpStore)
    (hhandled : st'.handled = st.handled)
    (hrequests : ∀ (n : ℕ) (r : Asked α), st.requests[n]? = some r → st'.requests[n]? = some r)
    (hform : ∀ r ∈ st'.requests, ∀ a, r.sender = some (a, .verify) →
      r.method = "POST" ∧ r.url = OtpStore.verifyUrl)
    (hprefs : ∀ a, (st'.prefs a).userId = (st.prefs a).userId ∧
      (st'.prefs a).authToken = (st.prefs a).authToken) : Inv st' where
  store := by
    rw [hstore, hhandled]
    exact h.store
  texts := by
    rw [hstore]
    exact h.texts
  asked e he := by
    rw [hhandled] at he
    exact hrequests _ _ (h.asked e he)
  answered := by
    rw [hhandled]
    exact h.answered
  form := hform
  accepts := by
    rw [hhandled]
    exact h.accepts
  prefs a u hu := by
    rw [(hprefs a).1] at hu
    rw [hhandled, (hprefs a).2]
    exact h.prefs a u hu

omit [DecidableEq α] in
theorem Inv.handle (h : Inv st) (number clients : ℕ) (d : OtpDraw) :
    Inv (st.handle number clients d) := by
  unfold SignIn.handle
  split
  rotate_left
  · exact h
  rename_i asked hasked hnew
  obtain ⟨otpStore, response, hanswer⟩ : ∃ otpStore response, st.otpStore.handle number asked.method
    asked.url asked.body clients d = (otpStore, response) := ⟨_, _, rfl⟩
  have hcases := st.otpStore.handle_cases number asked.method asked.url asked.body clients d
  simp only [hanswer] at hcases ⊢
  refine ⟨fun k => ?_, fun k v hv => ?_, fun e he => ?_, fun e he => ?_, h.form,
    fun after e before hsplit hm hu => ?_, fun a u hu => ?_⟩
  · rw [List.findSome?_cons]
    rcases hcases with ⟨data, hbody, heq⟩ | ⟨hstore, hnone⟩
    · obtain ⟨rfl, rfl⟩ := Prod.mk.inj heq
      rw [Dict.get_set, h.store]
      by_cases hk : k = data.phone.key number
      · simp only [Handled.made, hbody, Option.map_some, hk, if_true]
      · have hne : some (data.phone.key number) ≠ some k := fun he => hk (Option.some.inj he).symm
        simp only [Handled.made, hbody, Option.map_some, if_neg hk, if_neg hne]
    · have hmade : Handled.made k (⟨number, asked, response⟩ : Handled α) = none := by
        simp only [Handled.made, hnone, ite_self]
      rw [hmade, hstore]
      exact h.store k
  · rcases hcases with ⟨data, -, heq⟩ | ⟨hstore, -⟩
    · obtain ⟨rfl, -⟩ := Prod.mk.inj heq
      rw [Dict.get_set] at hv
      split at hv
      · rw [← Option.some.inj hv]
        exact OtpStore.text_ne_empty d
      · exact h.texts k v hv
    · exact h.texts k v (hstore ▸ hv)
  · rcases List.mem_cons.mp he with rfl | he
    · exact hasked
    · exact h.asked e he
  · rcases List.mem_cons.mp he with rfl | he
    · exact ⟨st.otpStore, clients, d, (congrArg Prod.snd hanswer).symm⟩
    · exact h.answered e he
  · rcases after with _ | ⟨e', after⟩
    · obtain ⟨rfl, rfl⟩ := List.cons.inj hsplit
      have hm : asked.method = "POST" := hm
      have hu : asked.url = OtpStore.verifyUrl := hu
      rw [hm, hu, OtpStore.handle_verify] at hanswer
      obtain ⟨-, rfl⟩ := Prod.mk.inj hanswer
      refine (OtpStore.verifyPhone_accepts_iff h.texts number asked.body d).trans ?_
      simp only [h.store]
      rfl
    · exact h.accepts after e before (List.cons.inj hsplit).2 hm hu
  · obtain ⟨e, he, hrest⟩ := h.prefs a u hu
    exact ⟨e, List.mem_cons_of_mem _ he, hrest⟩

theorem Inv.press (h : Inv st) (a : α) (form : Form) (found : Bool) :
    Inv (st.press a form found) := by
  have hmore : ∀ r : Asked α, (∀ b, r.sender = some (b, .verify) →
      r.method = "POST" ∧ r.url = OtpStore.verifyUrl) → ∀ waiting model,
        Inv { st with requests := st.requests ++ [r], waiting, model } := by
    intro r hr waiting model
    refine h.of_eq rfl rfl (fun n r' hn => ?_) (fun r' hr' b hb => ?_) fun _ => ⟨rfl, rfl⟩
    · rw [List.getElem?_append_left (List.getElem?_eq_some_iff.mp hn).1]
      exact hn
    · rcases List.mem_append.mp hr' with hr' | hr'
      · exact h.form r' hr' b hb
      · obtain rfl := List.mem_singleton.mp hr'
        exact hr b hb
  cases form <;> cases found
  · exact h.of_eq rfl rfl (fun _ _ hn => hn) h.form fun _ => ⟨rfl, rfl⟩
  · refine hmore _ (fun b hb => ?_) _ _
    cases (Prod.mk.inj (Option.some.inj hb)).2
  · exact h.of_eq rfl rfl (fun _ _ hn => hn) h.form fun _ => ⟨rfl, rfl⟩
  · exact hmore _ (fun b _ => ⟨rfl, rfl⟩) _ _

omit [DecidableEq α] in
/-- What `verifyOtp` makes of the preferences: they are those of a response that has come, or what
they were. -/
theorem verifyResponse_prefs (raw : Response → String) (m : AuthViewModel) (prefs : Prefs)
    (resp : Option Response) :
    (∃ r, resp = some r ∧ r.status.getD "" = "ok" ∧ (m.verifyResponse raw prefs resp).2 =
      { userId := some (r.userId.getD ""), authToken := some (r.authToken.getD "")
        displayName := m.displayName }) ∨
    (m.verifyResponse raw prefs resp).2 = prefs := by
  rcases resp with _ | r
  · exact .inr rfl
  · by_cases hok : r.status.getD "" = "ok"
    · exact .inl ⟨r, rfl, hok, by simp only [AuthViewModel.verifyResponse, if_pos hok]⟩
    · exact .inr (by simp only [AuthViewModel.verifyResponse, if_neg hok])

omit [DecidableEq α] in
theorem exists_of_postJson {number : ℕ} {arrived : Bool} {r : Response}
    (hr : AuthViewModel.postJson (if arrived then st.response number else none) = some r) :
    ∃ e ∈ st.handled, e.number = number ∧ e.response = r := by
  obtain ⟨hr, -⟩ := Option.filter_eq_some_iff.mp hr
  cases arrived with
  | false => cases hr
  | true =>
    obtain ⟨e, hfind, he⟩ := Option.map_eq_some_iff.mp hr
    exact ⟨e, List.mem_of_find?_eq_some hfind, by simpa using List.find?_some hfind, he⟩

theorem Inv.respond (h : Inv st) (number : ℕ) (arrived : Bool) :
    Inv (st.respond raw number arrived) := by
  unfold SignIn.respond
  split
  rotate_left
  · exact h
  rename_i a form hsender _
  split
  · exact h
  rcases form with _ | _
  · exact h.of_eq rfl rfl (fun _ _ hn => hn) h.form fun _ => ⟨rfl, rfl⟩
  -- the preferences change only by a response that has come
  refine ⟨h.store, h.texts, h.asked, h.answered, h.form, h.accepts, fun b u hu => ?_⟩
  by_cases hb : b = a
  · subst hb
    simp only [update_self] at hu ⊢
    rcases verifyResponse_prefs raw (st.model b) (st.prefs b)
      (AuthViewModel.postJson (if arrived then st.response number else none)) with
      ⟨r, hr, hok, hprefs⟩ | hprefs
    · obtain ⟨e, he, hnumber, rfl⟩ := exists_of_postJson hr
      obtain ⟨asked, hasked, hsender⟩ := Option.bind_eq_some_iff.mp hsender
      obtain rfl : asked = e.asked := by
        rw [← hnumber, h.asked e he] at hasked
        exact (Option.some.inj hasked).symm
      obtain ⟨hmethod, hurl⟩ := h.form e.asked (List.mem_of_getElem? (h.asked e he)) b hsender
      obtain ⟨otpStore, clients, d, hresponse⟩ := h.answered e he
      rw [hmethod, hurl, OtpStore.handle_verify] at hresponse
      have hresponse : e.response = otpStore.verifyPhone e.number e.asked.body d := hresponse
      have hstatus : e.response.status = some "ok" := by
        rcases hs : e.response.status with _ | s
        · rw [hs] at hok
          exact absurd hok (by decide)
        · rw [hs] at hok
          exact congrArg some hok
      have hverified := OtpStore.verifyPhone_ok (hresponse ▸ hstatus)
      rw [← hresponse] at hverified
      obtain ⟨hcode, huser, htoken⟩ := hverified
      rw [hprefs] at hu ⊢
      refine ⟨e, he, hsender, hcode, ?_, ?_⟩
      · rw [← hu, huser]
        rfl
      · show some (e.response.authToken.getD "") = _
        rw [htoken]
        rfl
    · rw [hprefs] at hu ⊢
      exact h.prefs b u hu
  · simp only [update_of_ne hb] at hu ⊢
    exact h.prefs b u hu

theorem Inv.step (h : Inv st) (ev : Event α) : Inv (st.step raw ev) := by
  cases ev with
  | edit => exact h.of_eq rfl rfl (fun _ _ hn => hn) h.form fun _ => ⟨rfl, rfl⟩
  | settings a name =>
    refine h.of_eq rfl rfl (fun _ _ hn => hn) h.form fun b => ?_
    by_cases hb : b = a
    · subst hb
      simp only [SignIn.step, update_self, and_self]
    · simp only [SignIn.step, update_of_ne hb, and_self]
  | press a form found => exact h.press a form found
  | stranger method url body =>
    refine h.of_eq rfl rfl (fun n r hn => ?_) (fun r hr b hb => ?_) fun _ => ⟨rfl, rfl⟩
    · exact (List.getElem?_append_left (List.getElem?_eq_some_iff.mp hn).1).trans hn
    · rcases List.mem_append.mp hr with hr | hr
      · exact h.form r hr b hb
      · obtain rfl := List.mem_singleton.mp hr
        cases hb
  | handle number clients d => exact h.handle number clients d
  | respond number arrived => exact h.respond number arrived

omit [DecidableEq α] in
theorem inv_start (names : α → String) : Inv (start names) where
  store _ := rfl
  texts _ _ hv := by cases hv
  asked _ he := absurd he List.not_mem_nil
  answered _ he := absurd he List.not_mem_nil
  form _ hr := absurd hr List.not_mem_nil
  accepts _ _ _ h := absurd h.symm (List.append_ne_nil_of_right_ne_nil _ (List.cons_ne_nil _ _))
  prefs _ _ hu := by cases hu

theorem run_signedIn (raw : Response → String) (names : α → String) (evs : List (Event α)) :
    Honest (evs.foldl (SignIn.step raw) (start names)) :=
  (Run.invariant (I := Inv) (fun _ ev h => h.step ev) evs (inv_start names)).honest

end SignIn

end SecureComm.Android
