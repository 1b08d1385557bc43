import SecureComm.Lib.Base64
import SecureComm.Server.Accounts
import SecureComm.Server.Keys

/-!
# One-time prekeys

The client encodes every key with padding. `/v1/register` decodes the identity
key and the signed prekey with padding and the one-time prekeys without, and
drops those it cannot decode; `/v1/keys/` serves what was stored with padding.
What is stored is served as it was uploaded in every run (`run_answers`), but
only prekeys whose length is divisible by three are stored.
-/

namespace SecureComm.Server

open Base64 Run

/-- The body of `/v1/register`, as the client sends it and the handler decodes it. -/
structure RegisterBody where
  id : String
  phone : String
  displayName : String
  identityPubB64 : String
  signedPrekeyB64 : String
  oneTimePrekeysB64 : List String

/-- The body that `doRegister` sends, which has one prekey in its list. -/
def doRegister (id phone display : String) (idPub spkPub : Bytes) (otkPubs : List Bytes) :
    RegisterBody where
  id := id
  phone := phone
  displayName := display
  identityPubB64 := stdEncoding.encodeToString idPub
  signedPrekeyB64 := stdEncoding.encodeToString spkPub
  oneTimePrekeysB64 := otkPubs.map stdEncoding.encodeToString

/-- What the handler passes to `registerUser`. The errors of the two keys are
ignored, and so are the prekeys that have one. -/
def RegisterBody.decoded (req : RegisterBody) : RegisterReq where
  id := req.id
  phone := req.phone
  displayName := req.displayName
  identityPub := (stdEncoding.decodeString req.identityPubB64).1
  signedPrekey := (stdEncoding.decodeString req.signedPrekeyB64).1
  oneTimePrekeys := req.oneTimePrekeysB64.filterMap fun s =>
    match rawStdEncoding.decodeString s with
    | (b, true) => some b
    | (_, false) => none

/-- `/v1/register` on a body as it is sent. -/
def AuthServer.register (st : AuthServer) (method : String) (body : Option RegisterBody)
    (token : Option String) (ok : Bool) : AuthServer × Reply :=
  st.v1Register method (body.map RegisterBody.decoded) token ok

/-- The JSON object that `/v1/keys/` answers with, and that the client decodes. -/
structure KeysResp where
  identityPub : String
  signedPrekey : String
  oneTimePrekey : Option String
deriving DecidableEq

/-- A NULL key is a nil slice, which is encoded like an empty one. -/
def Bundle.resp (b : Bundle) : KeysResp where
  identityPub := stdEncoding.encodeToString (b.identityPub.getD [])
  signedPrekey := stdEncoding.encodeToString (b.signedPrekey.getD [])
  oneTimePrekey := b.oneTimePrekey.map stdEncoding.encodeToString

/-! ## Upload -/

theorem decoded_keys (id phone display : String) (idPub spkPub : Bytes) (otkPubs : List Bytes) :
    (doRegister id phone display idPub spkPub otkPubs).decoded.identityPub = idPub ∧
      (doRegister id phone display idPub spkPub otkPubs).decoded.signedPrekey = spkPub := by
  simp only [RegisterBody.decoded, doRegister, decodeString_encodeToString, and_self]

/-- **The prekeys that arrive** are those of a length divisible by three. -/
theorem decoded_oneTimePrekeys (id phone display : String) (idPub spkPub : Bytes)
    (otkPubs : List Bytes) :
    (doRegister id phone display idPub spkPub otkPubs).decoded.oneTimePrekeys =
      otkPubs.filter fun pk => 3 ∣ pk.length := by
  simp only [RegisterBody.decoded, doRegister, List.filterMap_map]
  rw [← List.filterMap_eq_filter]
  refine List.filterMap_congr fun pk _ => ?_
  have hraw : rawStdEncoding.decodeString (stdEncoding.encodeToString pk) =
      (pk.take (pk.length / 3 * 3), decide (pk.length % 3 = 0)) := raw_decodeString rfl pk
  rw [Function.comp_apply, hraw]
  by_cases h : 3 ∣ pk.length
  · rw [Nat.div_mul_cancel h, Nat.mod_eq_zero_of_dvd h, List.take_length]
    simp [h]
  · have hne : pk.length % 3 ≠ 0 := fun hz => h (Nat.dvd_of_mod_eq_zero hz)
    simp [Option.guard, h, hne]

/-! ## Answers -/

namespace KeyServer

/-- A registration that succeeds is the step of the key server with the decoded keys. -/
theorem register_db (auth : AuthServer) (st : KeyServer) (h : auth.db = st.db) (req : RegisterBody)
    (token : String) :
    (auth.register "POST" (some req) (some token) true).1.db =
      (st.register token req.decoded.id req.decoded.phone req.decoded.displayName
        req.decoded.identityPub req.decoded.signedPrekey req.decoded.oneTimePrekeys).db := by
  show registerUser auth.db _ _ _ _ _ _ _ = registerUser st.db _ _ _ _ _ _ _
  rw [h]

/-- The prekey in an answer, as the client decodes it. -/
def decodes (b : Served) : Option (Bytes × Bool) :=
  b.bundle.resp.oneTimePrekey.map stdEncoding.decodeString

def answers (R : Registration) (served : List Served) : List (Bytes × Bool) :=
  (served.filter fun b => ∃ r ∈ b.row, r ∈ R.prekeys).filterMap decodes

theorem run_rows (acts : List Act) :
    ∀ b ∈ (run acts).served, b.bundle.oneTimePrekey = b.row.map OneTimePrekey.prekey := by
  refine Run.invariant
    (I := fun st : KeyServer => ∀ b ∈ st.served,
      b.bundle.oneTimePrekey = b.row.map OneTimePrekey.prekey)
    (fun st a h => ?_) acts fun b hb => by cases hb
  cases a with
  | register => exact h
  | request => exact h
  | fetch n ok =>
    rcases fetch_cases st n ok with ⟨hserved, -⟩ | ⟨user, identityPub, signedPrekey, j, -, hserved, -⟩
    · exact fun b hb => h b (hserved ▸ hb)
    · intro b hb
      rw [step, hserved, List.mem_append, List.mem_singleton] at hb
      rcases hb with hb | rfl
      · exact h b hb
      · rfl

theorem registrations_prefix (st : KeyServer) (acts : List Act) :
    st.registrations <+: (acts.foldl step st).registrations := by
  induction acts generalizing st with
  | nil => exact List.prefix_rfl
  | cons a acts ih =>
    have hstep : st.registrations <+: (st.step a).registrations := by
      cases a with
      | register => exact List.prefix_append _ _
      | request => exact List.prefix_rfl
      | fetch n ok => exact (fetch_frame st n ok).1.symm ▸ List.prefix_rfl
    exact hstep.trans (ih (st.step a))

theorem answers_eq {served : List Served} (R : Registration)
    (h : ∀ b ∈ served, b.bundle.oneTimePrekey = b.row.map OneTimePrekey.prekey) :
    answers R served =
      ((handed served).filter (· ∈ R.prekeys)).map fun r => (r.prekey, true) := by
  induction served with
  | nil => rfl
  | cons b served ih =>
    have htail := ih fun c hc => h c (List.mem_cons_of_mem b hc)
    have hb := h b List.mem_cons_self
    unfold answers handed at htail ⊢
    rcases hrow : b.row with _ | r
    · rw [List.filterMap_cons_none hrow, List.filter_cons_of_neg (by simp [hrow]), htail]
    · rw [hrow] at hb
      rw [List.filterMap_cons_some hrow]
      by_cases hr : r ∈ R.prekeys
      · have hserved : decodes b = some (r.prekey, true) := by
          simp [decodes, Bundle.resp, hb, decodeString_encodeToString]
        rw [List.filter_cons_of_pos (by simp [hrow, hr]), List.filterMap_cons_some hserved, htail,
          List.filter_cons_of_pos (by simp [hr]), List.map_cons]
      · rw [List.filter_cons_of_neg (by simp [hrow, hr]), List.filter_cons_of_neg (by simp [hr]),
          htail]

/-- What the client uploads as prekeys is what the handler passes on, and in the
run in which the keys are registered after `before`, what is served of the
registration decodes to what was uploaded, in order, and the rest is still there. -/
def Arrive (before after : List Act) (token id phone display : String) (idPub spkPub : Bytes)
    (otkPubs : List Bytes) : Prop :=
  let req := (doRegister id phone display idPub spkPub otkPubs).decoded
  let registers : Act := .register token req.id req.phone req.displayName req.identityPub
    req.signedPrekey req.oneTimePrekeys
  let st := run (before ++ registers :: after)
  req.oneTimePrekeys = otkPubs ∧
  ∃ R, st.registrations[(run before).registrations.length]? = some R ∧
    answers R st.served ++ (st.db.oneTimePrekeys.rows.filter (· ∈ R.prekeys)).map
      (fun r => (r.prekey, true)) = otkPubs.map fun pk => (pk, true)

/-- **What is stored is served**: in every run, the prekeys of a registration that
were served and those that are left are those that were passed to `registerUser`. -/
theorem run_answers (before after : List Act) (token id phone displayName : String)
    (identityPub signedPrekey : Bytes) (oneTimePrekeys : List Bytes) :
    let st := run (before ++
      .register token id phone displayName identityPub signedPrekey oneTimePrekeys :: after)
    ∃ R, st.registrations[(run before).registrations.length]? = some R ∧
      answers R st.served ++ (st.db.oneTimePrekeys.rows.filter (· ∈ R.prekeys)).map
        (fun r => (r.prekey, true)) = oneTimePrekeys.map fun pk => (pk, true) := by
  intro st
  let R : Registration := ⟨id, identityPub, signedPrekey,
    OneTimePrekeys.numbered id (run before).db.oneTimePrekeys.next oneTimePrekeys⟩
  have hR : st.registrations[(run before).registrations.length]? = some R := by
    obtain ⟨l, hl⟩ := registrations_prefix ((run before).register token id phone displayName
      identityPub signedPrekey oneTimePrekeys) after
    have hst : st.registrations = ((run before).registrations ++ [R]) ++ l := by
      rw [show (run before).registrations ++ [R] = ((run before).register token id phone displayName
        identityPub signedPrekey oneTimePrekeys).registrations from rfl, hl]
      simp only [st, run, List.foldl_append, List.foldl_cons, step]
    rw [hst, List.getElem?_append_left (by simp), List.getElem?_concat_length]
  refine ⟨R, hR, ?_⟩
  have haccount := (run_ledger _ : Ledger st).account R (List.mem_of_getElem? hR)
  rw [answers_eq R (run_rows _), ← List.map_append, ← List.filter_append]
  unfold pool at haccount
  rw [haccount]
  calc R.prekeys.map (fun r => (r.prekey, true))
    _ = (R.prekeys.map OneTimePrekey.prekey).map fun pk => (pk, true) := by
      rw [List.map_map]
      rfl
    _ = oneTimePrekeys.map fun pk => (pk, true) := by rw [OneTimePrekeys.map_numbered]

/-- **Prekeys arrive** in a run if and only if every length is divisible by three. -/
theorem arrive_iff_divisible (before after : List Act) (token id phone display : String)
    (idPub spkPub : Bytes) (otkPubs : List Bytes) :
    Arrive before after token id phone display idPub spkPub otkPubs ↔
      ∀ pk ∈ otkPubs, 3 ∣ pk.length := by
  have hdecoded := decoded_oneTimePrekeys id phone display idPub spkPub otkPubs
  constructor
  · rintro ⟨hreq, -⟩ pk hpk
    rw [hdecoded] at hreq
    exact of_decide_eq_true (List.filter_eq_self.mp hreq pk hpk)
  · intro h
    have hreq := hdecoded.trans (List.filter_eq_self.mpr fun pk hpk => decide_eq_true (h pk hpk))
    obtain ⟨R, hR, hanswers⟩ := run_answers before after token id phone display
      (doRegister id phone display idPub spkPub otkPubs).decoded.identityPub
      (doRegister id phone display idPub spkPub otkPubs).decoded.signedPrekey
      (doRegister id phone display idPub spkPub otkPubs).decoded.oneTimePrekeys
    exact ⟨hreq, R, hR, hanswers.trans (congrArg _ hreq)⟩

end KeyServer

namespace Sample

/-- **A key of 32 bytes is dropped**, as the client sends it. -/
theorem curve_prekey_dropped :
    (doRegister "alice" "+1" "Alice" (zeros 32) (zeros 32) [zeros 32]).decoded.oneTimePrekeys = [] ∧
      ¬ KeyServer.Arrive [] [] "ta" "alice" "+1" "Alice" (zeros 32) (zeros 32) [zeros 32] := by
  have hdropped : (doRegister "alice" "+1" "Alice" (zeros 32) (zeros 32)
      [zeros 32]).decoded.oneTimePrekeys = [] := by decide +kernel
  refine ⟨hdropped, fun h => ?_⟩
  have hreq := h.1
  rw [hdropped] at hreq
  cases hreq

end Sample

end SecureComm.Server
