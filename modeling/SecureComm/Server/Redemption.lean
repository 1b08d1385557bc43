import Mathlib.Data.List.Induction
import SecureComm.Server.Accounts

/-!
# Verification secrets

A secret is issued by a request to register a phone number or an email address
and redeemed by a request to verify it. Each redemption is held against the
history: `SingleUse` asks for the issue it goes back to, with nothing issued or
redeemed for the contact since. A newer secret takes the place of an older one,
and the age is checked; but `verified` is not, nor whether the contact belongs
to a user, so it takes `FirstUse` at every redemption.
-/

namespace SecureComm.Server

open Function Run

namespace AuthServer

/-! ## Issue and redemption -/

/-- What is registered: the contact, the secret generated for it, and when. -/
def Call.signup? : Call → Option (Contact × Option SignupReq × Option String × Int64)
  | .registerPhone body b₀ b₁ b₂ b₃ now _ => some (.phone, body, some (otp b₀ b₁ b₂ b₃), now)
  | .registerEmail body token now _ => some (.email, body, token, now)
  | .register .. | .verifyPhone .. | .verifyEmail .. => none

def Call.marked : Call → Bool
  | .verifyPhone _ _ _ _ marked => marked
  | .verifyEmail _ _ _ _ marked => marked
  | .register .. | .registerPhone .. | .registerEmail .. => false

/-- The request is answered with success, and `secret` has been issued for the contact. -/
def Issues (kind : Contact) (contact secret : String) (now : Int64) (st : AuthServer)
    (r : Request) : Prop :=
  ∃ req fields, r.call.signup? = some (kind, some req, some secret, now) ∧
    req.contact = contact ∧ (st.handle r).2 = .json fields

/-- The request presents `secret` for the contact and is answered with an account. -/
def Redeems (kind : Contact) (contact secret : String) (now : Int64)
    (fields : List (String × String)) (st : AuthServer) (r : Request) : Prop :=
  ∃ req, r.call.verification? = some (kind, some req, now) ∧ req.contact = contact ∧
    req.secret = secret ∧ (st.handle r).2 = .json fields

def NotIssued (kind : Contact) (contact : String) (st : AuthServer) (r : Request) : Prop :=
  ∀ secret now, ¬ Issues kind contact secret now st r

def NotRedeemed (kind : Contact) (contact : String) (st : AuthServer) (r : Request) : Prop :=
  ∀ secret now fields, ¬ Redeems kind contact secret now fields st r

/-- **Single use**: what is redeemed was issued for the contact, nothing has been
issued or redeemed for it since, its time has not run out, and a user who has
the contact is the one that is returned. -/
def SingleUse (rs : List Request) : Prop :=
  ∀ before r after, rs = before ++ r :: after → ∀ kind contact secret now fields,
    Redeems kind contact secret now fields (run before) r →
    (∃ issuedAt : Int64, now.toInt - issuedAt.toInt ≤ kind.lifetime.toInt ∧
      Since step (Issues kind contact secret issuedAt)
        (fun st r => NotIssued kind contact st r ∧ NotRedeemed kind contact st r) start before) ∧
    ∀ u ∈ (run before).db.users.rows, kind.column u = some contact → ("user_id", u.id) ∈ fields

/-- A request that gets as far as inserting a user for a contact: the row of the
secret is not marked, and is marked now; the age does not overflow; and no user
has the contact. -/
def FirstUse (st : AuthServer) (r : Request) : Prop :=
  ∀ w ∈ r.call.verification?, ∀ req ∈ w.2.1, inserts st r ≠ none →
    (∀ v ∈ st.verifications w.1 req.contact, v.verified = false ∧
      (w.2.2 - v.createdAt).toInt = w.2.2.toInt - v.createdAt.toInt) ∧
    r.call.marked = true ∧ ∀ u ∈ st.db.users.rows, w.1.column u ≠ some req.contact

instance (st : AuthServer) (r : Request) : Decidable (FirstUse st r) :=
  inferInstanceAs (Decidable (∀ w ∈ r.call.verification?, ∀ req ∈ w.2.1, inserts st r ≠ none → _))

/-! ## What a request does to secrets -/

/-- **What a request does to the secret of a contact**: it issues a new one, or
redeems it and marks its row, or leaves the row alone. -/
def Outcome (kind : Contact) (contact : String) (st : AuthServer) (r : Request) : Prop :=
  (∃ secret now, Issues kind contact secret now st r ∧
    (st.step r).verifications kind contact = some { secret, createdAt := now }) ∨
  (NotIssued kind contact st r ∧ inserts st r ≠ none ∧
    (∃ req now, r.call.verification? = some (kind, some req, now) ∧ req.contact = contact ∧
      kind.check (st.verifications kind contact) req.secret now = none) ∧
    (st.step r).verifications kind contact = st.mark kind contact r.call.marked kind contact) ∨
  (NotIssued kind contact st r ∧ NotRedeemed kind contact st r ∧
    (st.step r).verifications kind contact = st.verifications kind contact)

theorem notIssued_of_none {kind : Contact} {contact : String} {st : AuthServer} {r : Request}
    (h : r.call.signup? = none) : NotIssued kind contact st r := by
  rintro secret now ⟨req, fields, hc, -⟩
  rw [h] at hc
  cases hc

theorem notRedeemed_of_none {kind : Contact} {contact : String} {st : AuthServer} {r : Request}
    (h : r.call.verification? = none) : NotRedeemed kind contact st r := by
  rintro secret now fields ⟨req, hc, -⟩
  rw [h] at hc
  cases hc

theorem outcome_signup {st : AuthServer} {r : Request} {kind' : Contact} {body : Option SignupReq}
    {secret : Option String} {now : Int64} {ok : Bool}
    (hcall : r.call.signup? = some (kind', body, secret, now)) (hv : r.call.verification? = none)
    (hh : st.handle r = st.registerContact kind' r.method body secret now ok) (kind : Contact)
    (contact : String) : Outcome kind contact st r := by
  rcases registerContact_cases kind' st r.method body secret now ok with
    ⟨status, text, he⟩ | ⟨req, s, fields, rfl, rfl, he⟩
  · rw [he] at hh
    refine .inr (.inr ⟨?_, notRedeemed_of_none hv, by rw [step, hh]⟩)
    rintro secret' now' ⟨req, fields, -, -, hr⟩
    rw [hh] at hr
    cases hr
  · rw [he] at hh
    by_cases hk : kind = kind' ∧ contact = req.contact
    · obtain ⟨rfl, rfl⟩ := hk
      refine .inl ⟨s, now, ⟨req, fields, hcall, rfl, by rw [hh]⟩, ?_⟩
      simp only [step, hh, update_self]
    · refine .inr (.inr ⟨?_, notRedeemed_of_none hv, ?_⟩)
      · rintro secret' now' ⟨req', fields', hc, rfl, -⟩
        rw [hcall] at hc
        cases hc
        exact hk ⟨rfl, rfl⟩
      · simp only [step, hh]
        by_cases hk' : kind = kind'
        · subst hk'
          rw [update_self, update_of_ne fun hc => hk ⟨rfl, hc⟩]
        · rw [update_of_ne hk']

theorem outcome_verification {st : AuthServer} {r : Request} {kind' : Contact}
    {body : Option VerifyReq} {clock : Clock} {token : Option String} {ok : Bool}
    (hcall : r.call.verification? = some (kind', body, clock.now)) (hs : r.call.signup? = none)
    (hi : inserts st r = created kind' st r body clock token ok)
    (hh : st.handle r = st.verifyContact kind' r.method body clock token ok r.call.marked)
    (kind : Contact) (contact : String) : Outcome kind contact st r := by
  rcases verifyContact_cases kind' st r body clock token ok r.call.marked with
    ⟨status, text, he⟩ | ⟨req, u, fields, rfl, hcheck, hcreated, -, he⟩
  · rw [he] at hh
    refine .inr (.inr ⟨notIssued_of_none hs, ?_, by rw [step, hh]⟩)
    rintro secret' now' fields ⟨req, -, -, -, hr⟩
    rw [hh] at hr
    cases hr
  · rw [he] at hh
    have hstep : (st.step r).verifications = st.mark kind' req.contact r.call.marked := by
      rw [step, hh]
    by_cases hk : kind = kind' ∧ contact = req.contact
    · obtain ⟨rfl, rfl⟩ := hk
      refine .inr (.inl ⟨notIssued_of_none hs, ?_, ⟨req, clock.now, hcall, rfl, hcheck⟩, ?_⟩)
      · rw [hi, hcreated]
        exact Option.some_ne_none _
      · rw [hstep]
    · refine .inr (.inr ⟨notIssued_of_none hs, ?_, ?_⟩)
      · rintro secret' now' fields' ⟨req', hc, rfl, -⟩
        rw [hcall] at hc
        cases hc
        exact hk ⟨rfl, rfl⟩
      · rw [hstep]
        unfold mark
        split
        · by_cases hk' : kind = kind'
          · subst hk'
            rw [update_self, update_of_ne fun hc => hk ⟨rfl, hc⟩]
          · rw [update_of_ne hk']
        · rfl

theorem outcome (kind : Contact) (contact : String) (st : AuthServer) (r : Request) :
    Outcome kind contact st r := by
  obtain ⟨method, bearer, call⟩ := r
  cases call with
  | register body token ok =>
    refine .inr (.inr ⟨notIssued_of_none rfl, notRedeemed_of_none rfl, ?_⟩)
    simp only [step, handle, v1Register]
    repeat' split
    all_goals rfl
  | registerPhone body b₀ b₁ b₂ b₃ now ok => exact outcome_signup rfl rfl rfl kind contact
  | registerEmail body token now ok => exact outcome_signup rfl rfl rfl kind contact
  | verifyPhone body clock token ok marked => exact outcome_verification rfl rfl rfl rfl kind contact
  | verifyEmail body clock token ok marked => exact outcome_verification rfl rfl rfl rfl kind contact

/-! ## Every run -/

/-- The row of a contact goes back to its last issue, and as long as it is not
marked nothing was redeemed since. -/
def Kept (kind : Contact) (contact : String) (v : Verification) (st : AuthServer) (r : Request) :
    Prop :=
  NotIssued kind contact st r ∧ (v.verified = false → NotRedeemed kind contact st r)

theorem stored_since {rs : List Request} (h : Along step FirstUse start rs) {kind : Contact}
    {contact : String} {v : Verification} (hv : (run rs).verifications kind contact = some v) :
    Since step (Issues kind contact v.secret v.createdAt) (Kept kind contact v) start rs := by
  induction rs using List.reverseRecOn generalizing v with
  | nil => cases hv
  | append_singleton rs r ih =>
    obtain ⟨hrs, hr, -⟩ := along_append.mp h
    have hrun : run (rs ++ [r]) = (run rs).step r := by
      rw [run, List.foldl_append]
      rfl
    rw [hrun] at hv
    rcases outcome kind contact (run rs) r with
      ⟨secret, now, hi, he⟩ | ⟨hni, hins, ⟨req, now, hc, rfl, -⟩, he⟩ | ⟨hni, hnr, he⟩
    · rw [he] at hv
      cases hv
      exact Since.last hi
    · have hmarked : r.call.marked = true := (hr _ hc req rfl hins).2.1
      rw [he, mark, if_pos hmarked, update_self, update_self] at hv
      obtain ⟨w, hw, rfl⟩ := Option.map_eq_some_iff.mp hv
      refine ((ih hrs hw).imp fun _ _ hk => ⟨hk.1, ?_⟩).snoc ⟨hni, ?_⟩
      · exact fun hf => by cases hf
      · exact fun hf => by cases hf
    · rw [he] at hv
      exact (ih hrs hv).snoc ⟨hni, fun _ => hnr⟩

theorem check_eq_none {kind : Contact} {stored : Option Verification} {secret : String}
    {now : Int64} (h : kind.check stored secret now = none) :
    ∃ v, stored = some v ∧ v.secret = secret ∧ ¬ now - v.createdAt > kind.lifetime := by
  cases stored with
  | none => cases h
  | some v =>
    unfold Contact.check at h
    simp only at h
    split at h
    · cases h
    · rename_i hage
      split at h
      · cases h
      · rename_i hs
        exact ⟨v, rfl, not_not.mp hs, hage⟩

theorem redeems_verified {st : AuthServer} {r : Request} {kind kind' : Contact}
    {body : Option VerifyReq} {clock : Clock} {token : Option String} {ok : Bool}
    {contact secret : String} {now : Int64} {fields : List (String × String)}
    (h : Redeems kind contact secret now fields st r)
    (hcall : r.call.verification? = some (kind', body, clock.now))
    (hi : inserts st r = created kind' st r body clock token ok)
    (hh : st.handle r = st.verifyContact kind' r.method body clock token ok r.call.marked) :
    inserts st r ≠ none ∧ kind.check (st.verifications kind contact) secret now = none := by
  obtain ⟨req, hc, rfl, rfl, hr⟩ := h
  rw [hcall] at hc
  cases hc
  rcases verifyContact_cases kind st r (some req) clock token ok r.call.marked with
    ⟨status, text, he⟩ | ⟨req, u, fields, hreq, hcheck, hcreated, -, he⟩
  · rw [hh, he] at hr
    cases hr
  · cases hreq
    rw [hi, hcreated]
    exact ⟨Option.some_ne_none _, hcheck⟩

theorem Redeems.passed {st : AuthServer} {r : Request} {kind : Contact} {contact secret : String}
    {now : Int64} {fields : List (String × String)}
    (h : Redeems kind contact secret now fields st r) :
    inserts st r ≠ none ∧ kind.check (st.verifications kind contact) secret now = none := by
  obtain ⟨method, bearer, call⟩ := r
  cases call with
  | verifyPhone body clock token ok marked => exact redeems_verified h rfl rfl rfl
  | verifyEmail body clock token ok marked => exact redeems_verified h rfl rfl rfl
  | register => exact absurd h (notRedeemed_of_none rfl _ _ _)
  | registerPhone => exact absurd h (notRedeemed_of_none rfl _ _ _)
  | registerEmail => exact absurd h (notRedeemed_of_none rfl _ _ _)

/-- **Where every redemption is a first use, secrets are single-use.** -/
theorem singleUse_of_firstUse (rs : List Request) (h : Along step FirstUse start rs) :
    SingleUse rs := by
  rintro before r after rfl kind contact secret now fields hred
  obtain ⟨hbefore, hr⟩ := h.at
  obtain ⟨hins, hcheck⟩ := hred.passed
  obtain ⟨v, hv, rfl, hage⟩ := check_eq_none hcheck
  obtain ⟨req, hc, rfl, -, -⟩ := hred
  obtain ⟨hrow, -, hknown⟩ := hr _ hc req rfl hins
  obtain ⟨hunmarked, hsub⟩ := hrow v hv
  refine ⟨⟨v.createdAt, ?_, ?_⟩, fun u hu hcol => absurd hcol (hknown u hu)⟩
  · rw [← hsub]
    exact Int64.le_iff_toInt_le.mp (Int64.not_lt.mp hage)
  · exact (stored_since hbefore hv).imp fun _ _ hk => ⟨hk.1, hk.2 hunmarked⟩

end AuthServer

namespace Sample

open AuthServer

theorem singleUse_of_firstUse_signsUp :
    Along AuthServer.step FirstUse AuthServer.start signsUp ∧ SingleUse signsUp :=
  ⟨by decide +kernel, singleUse_of_firstUse signsUp (by decide +kernel)⟩

def verifiesTwice : List AuthServer.Request :=
  signsUp ++ [⟨"POST", none, .verifyPhone (some ⟨"+2", "100007", "Eve"⟩)
    ⟨1300, 1300000000001, 1300, 1300⟩ (some "te") true true⟩]

/-- **One password makes two accounts for one phone number.** -/
theorem redeemed_twice :
    ((AuthServer.run verifiesTwice).db.users.rows.filter fun u => u.phone = some "+2").map User.id =
      ["user_1300000000000", "user_1300000000001"] ∧ ¬ SingleUse verifiesTwice := by
  refine ⟨by decide +kernel, fun h => ?_⟩
  obtain ⟨-, hknown⟩ := h signsUp _ [] rfl .phone "+2" "100007" 1300 _ ⟨_, rfl, rfl, rfl, rfl⟩
  have hbob : Contact.phone.user ⟨"+2", "100007", "Bob"⟩ "tb" ⟨1300, 1300000000000, 1300, 1300⟩ ∈
      (AuthServer.run signsUp).db.users.rows := by decide +kernel
  exact absurd (hknown _ hbob rfl) (by decide +kernel)

end Sample

end SecureComm.Server
