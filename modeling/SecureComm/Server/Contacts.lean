import SecureComm.Server.Accounts

/-!
# Contact discovery

`/api/contacts/discover` reads the table `users` row by row and skips a row it
cannot scan, which is every row with a NULL column. Whatever the table, it finds
each listed user once, and no other, exactly if no listed user is skipped
(`exact_iff_scanned`). The handlers that insert users leave the phone number or
the email address of each NULL (`run_contacts`), so none is ever found.
-/

namespace SecureComm.Server

open List

/-- `strings.ToLower`, `strings.TrimSpace` and `sha256.Sum256`. -/
structure Text where
  toLower : String → String
  trimSpace : String → String
  sum256 : Bytes → BytesN 32

/-- `hex.EncodeToString`. -/
def encodeHex (src : Bytes) : String :=
  let digits := "0123456789abcdef".toList
  String.ofList (src.flatMap fun (b : UInt8) =>
    [digits.getD (b >>> 4).toNat '0', digits.getD (b &&& 0x0f).toNat '0'])

variable (T : Text)

def hashContact (contact : String) : String :=
  if contact = "" then ""
  else encodeHex (T.sum256 (T.toLower contact).toUTF8.toList).val

/-- The token in the header `Authorization`, if it is of the bearer scheme. The
scheme and the blank are seven bytes. -/
def bearerToken (auth : String) : String :=
  if "bearer ".toList <+: (T.toLower auth).toList then
    T.trimSpace (String.ofList (auth.toList.drop 7))
  else ""

/-- The columns of a row that the handler reads. -/
structure Scanned where
  id : String
  phone : String
  email : String
  displayName : String
  online : Int64
  lastSeen : Int64

/-- `rows.Scan`: an error (`none`) where a column is NULL. -/
def User.scan (u : User) : Option Scanned := do
  let phone ← u.phone
  let email ← u.email
  let displayName ← u.displayName
  let lastSeen ← u.lastSeen
  return { id := u.id, phone, email, displayName, online := u.online, lastSeen }

structure AvailableContact where
  userID : String
  displayName : String
  phone : String
  email : String
  online : Bool
  lastSeen : Int64
deriving DecidableEq

def Scanned.contact (row : Scanned) : AvailableContact :=
  { userID := row.id, displayName := row.displayName, phone := row.phone, email := row.email
    online := row.online ≠ 0, lastSeen := row.lastSeen }

/-- The inner loop, which ends at the first hash of the row. -/
def Scanned.search (row : Scanned) (phoneHash emailHash : String) (found : List AvailableContact) :
    List String → List AvailableContact
  | [] => found
  | hash :: hashes =>
    if (row.phone ≠ "" ∧ phoneHash = hash) ∨ (row.email ≠ "" ∧ emailHash = hash) then
      found ++ [row.contact]
    else row.search phoneHash emailHash found hashes

/-- The loop over the rows. -/
def availableContacts (users : Users) (hashes : List String) : List AvailableContact :=
  users.rows.foldl (fun found u =>
    match u.scan with
    | none => found
    | some row =>
      row.search (hashContact T row.phone) (hashContact T row.email) found hashes) []

/-- A request, with the header `Authorization`, the hashes that the body lists, and
whether the query succeeds. -/
structure DiscoverRequest where
  method : String
  authorization : String
  body : Option (List String)
  ok : Bool

/-- The contacts are a slice, which is encoded as `null` where it is nil. -/
inductive DiscoverReply
  | error (status : ℕ) (text : String)
  | ok (contacts : Option (List AvailableContact))
deriving DecidableEq

/-- `/api/contacts/discover`. -/
def discover (users : Users) (r : DiscoverRequest) : DiscoverReply :=
  if r.method ≠ "POST" then .error 405 "method not allowed"
  else
    let token := bearerToken T r.authorization
    if token = "" then .error 401 "missing authorization"
    else
      match getUserByToken users token with
      | none | some "" => .error 401 "invalid token"
      | some _ =>
        match r.body with
        | none => .error 400 "bad request"
        | some [] => .ok (some [])
        | some hashes =>
          if r.ok then
            .ok (match availableContacts T users hashes with
              | [] => none
              | contacts => some contacts)
          else .error 500 "internal error"

/-! ## The loop -/

variable {T} {users : Users} {hashes : List String} {u : User}

/-- The user has a phone number or an email address whose hash is listed. -/
def User.Listed (T : Text) (hashes : List String) (u : User) : Prop :=
  (∃ phone ∈ u.phone, phone ≠ "" ∧ hashContact T phone ∈ hashes) ∨
  (∃ email ∈ u.email, email ≠ "" ∧ hashContact T email ∈ hashes)

instance : Decidable (u.Listed T hashes) :=
  inferInstanceAs (Decidable ((∃ phone ∈ u.phone, _) ∨ (∃ email ∈ u.email, _)))

/-- What the loop finds for one row. -/
def User.entry (T : Text) (hashes : List String) (u : User) : Option AvailableContact :=
  if u.Listed T hashes then u.scan.map Scanned.contact else none

theorem User.scan_eq_some {row : Scanned} (h : u.scan = some row) :
    row.id = u.id ∧ u.phone = some row.phone ∧ u.email = some row.email := by
  unfold User.scan at h
  obtain ⟨phone, hp, h⟩ := Option.bind_eq_some_iff.mp h
  obtain ⟨email, he, h⟩ := Option.bind_eq_some_iff.mp h
  obtain ⟨displayName, -, h⟩ := Option.bind_eq_some_iff.mp h
  obtain ⟨lastSeen, -, h⟩ := Option.bind_eq_some_iff.mp h
  cases h
  exact ⟨rfl, hp, he⟩

theorem User.scan_eq_none (h : u.phone = none ∨ u.email = none) : u.scan = none := by
  rcases hs : u.scan with _ | row
  · rfl
  · obtain ⟨-, hp, he⟩ := User.scan_eq_some hs
    rw [hp, he] at h
    rcases h with h | h
    · cases h
    · cases h

/-- The inner loop appends the row once, whatever the hashes and however often they match. -/
theorem Scanned.search_eq (row : Scanned) (phoneHash emailHash : String)
    (found : List AvailableContact) (hashes : List String) :
    row.search phoneHash emailHash found hashes =
      if (row.phone ≠ "" ∧ phoneHash ∈ hashes) ∨ (row.email ≠ "" ∧ emailHash ∈ hashes) then
        found ++ [row.contact]
      else found := by
  induction hashes with
  | nil => simp [Scanned.search]
  | cons hash hashes ih =>
    simp only [Scanned.search, List.mem_cons, ih]
    grind

theorem User.entry_of_scan {row : Scanned} (h : u.scan = some row) (found : List AvailableContact) :
    row.search (hashContact T row.phone) (hashContact T row.email) found hashes =
      found ++ (u.entry T hashes).toList := by
  obtain ⟨-, hp, he⟩ := User.scan_eq_some h
  have hlisted : u.Listed T hashes ↔
      (row.phone ≠ "" ∧ hashContact T row.phone ∈ hashes) ∨
        (row.email ≠ "" ∧ hashContact T row.email ∈ hashes) := by
    simp [User.Listed, hp, he]
  rw [Scanned.search_eq, User.entry, h]
  by_cases hl : u.Listed T hashes
  · rw [if_pos (hlisted.mp hl), if_pos hl]
    rfl
  · rw [if_neg fun hc => hl (hlisted.mpr hc), if_neg hl]
    exact (List.append_nil found).symm

/-- **What the loop over the rows finds.** -/
theorem availableContacts_eq (T : Text) (users : Users) (hashes : List String) :
    availableContacts T users hashes = users.rows.filterMap (User.entry T hashes) := by
  have hloop : ∀ (rows : List User) (found : List AvailableContact),
      rows.foldl (fun found u =>
        match u.scan with
        | none => found
        | some row =>
          row.search (hashContact T row.phone) (hashContact T row.email) found hashes) found =
        found ++ rows.filterMap (User.entry T hashes) := by
    intro rows
    induction rows with
    | nil => exact fun found => (List.append_nil found).symm
    | cons u rows ih =>
      intro found
      rw [List.foldl_cons, ih]
      rcases hs : u.scan with _ | row
      · have he : u.entry T hashes = none := by
          rw [User.entry, hs]
          exact ite_self _
        rw [List.filterMap_cons_none he]
      · simp only
        rw [User.entry_of_scan hs, List.append_assoc]
        rcases he : u.entry T hashes with _ | c
        · rw [List.filterMap_cons_none he]
          rfl
        · rw [List.filterMap_cons_some he]
          rfl
  exact hloop users.rows []

/-! ## Exactness -/

/-- Every listed user is found once, and no other. -/
structure Exact (T : Text) (users : Users) (hashes : List String)
    (found : List AvailableContact) : Prop where
  once : ∀ u ∈ users.rows, u.Listed T hashes →
    (found.map AvailableContact.userID).count u.id = 1
  only : ∀ c ∈ found, ∃ u ∈ users.rows, u.Listed T hashes ∧ c.userID = u.id

theorem User.entry_eq_some {c : AvailableContact} (h : u.entry T hashes = some c) :
    u.Listed T hashes ∧ u.scan ≠ none ∧ c.userID = u.id := by
  unfold User.entry at h
  split at h
  · rename_i hl
    obtain ⟨row, hrow, rfl⟩ := Option.map_eq_some_iff.mp h
    refine ⟨hl, ?_, (User.scan_eq_some hrow).1⟩
    rw [hrow]
    exact Option.some_ne_none row
  · cases h

theorem entries_sublist (T : Text) (hashes : List String) (rows : List User) :
    (rows.filterMap (User.entry T hashes)).map AvailableContact.userID <+ rows.map User.id := by
  induction rows with
  | nil => exact .slnil
  | cons u rows ih =>
    rcases he : u.entry T hashes with _ | c
    · rw [List.filterMap_cons_none he]
      exact ih.cons _
    · rw [List.filterMap_cons_some he, List.map_cons, List.map_cons, (User.entry_eq_some he).2.2]
      exact ih.cons_cons _

/-- **Discovery is exact on a table** if and only if every listed user can be scanned. -/
theorem exact_iff_scanned : Exact T users hashes (availableContacts T users hashes) ↔
    ∀ u ∈ users.rows, u.Listed T hashes → u.scan ≠ none := by
  rw [availableContacts_eq]
  constructor
  · intro h u hu hl
    have hmem := List.count_pos_iff.mp ((h.once u hu hl).symm ▸ Nat.one_pos)
    obtain ⟨c, hc, hid⟩ := List.mem_map.mp hmem
    obtain ⟨v, hv, he⟩ := List.mem_filterMap.mp hc
    obtain ⟨-, hscan, hvid⟩ := User.entry_eq_some he
    have huv : v = u := List.inj_on_of_nodup_map users.nodup hv hu (hvid.symm.trans hid)
    exact huv ▸ hscan
  · intro h
    refine ⟨fun u hu hl => ?_, fun c hc => ?_⟩
    · obtain ⟨row, hrow⟩ := Option.ne_none_iff_exists'.mp (h u hu hl)
      have he : u.entry T hashes = some row.contact := by
        rw [User.entry, if_pos hl, hrow]
        rfl
      refine List.count_eq_one_of_mem (users.nodup.sublist (entries_sublist T hashes users.rows)) ?_
      exact List.mem_map.mpr ⟨row.contact, List.mem_filterMap.mpr ⟨u, hu, he⟩,
        (User.entry_eq_some he).2.2⟩
    · obtain ⟨u, hu, he⟩ := List.mem_filterMap.mp hc
      obtain ⟨hl, -, hid⟩ := User.entry_eq_some he
      exact ⟨u, hu, hl, hid⟩

/-! ## Reachable tables -/

/-- The request asks for the hashes, is authorized, and the query succeeds. -/
structure DiscoverRequest.Admitted (T : Text) (users : Users) (hashes : List String)
    (r : DiscoverRequest) : Prop where
  method : r.method = "POST"
  token : bearerToken T r.authorization ≠ ""
  user : ∃ id, getUserByToken users (bearerToken T r.authorization) = some id ∧ id ≠ ""
  body : r.body = some hashes
  ok : r.ok = true

/-- The request is answered with the contacts of the listed users. -/
def DiscoversExactly (T : Text) (users : Users) (hashes : List String) (r : DiscoverRequest) :
    Prop :=
  ∃ contacts, discover T users r = .ok contacts ∧ Exact T users hashes (contacts.getD [])

theorem discover_of_admitted {r : DiscoverRequest} (h : r.Admitted T users hashes) :
    ∃ contacts, discover T users r = .ok contacts ∧
      contacts.getD [] = availableContacts T users hashes := by
  obtain ⟨id, hid, hne⟩ := h.user
  unfold discover
  rw [if_neg (not_not.mpr h.method)]
  simp only
  rw [if_neg h.token, hid, h.body, h.ok]
  split
  · rename_i he
    cases he
  · rename_i he
    exact absurd (Option.some.inj he) hne
  · cases hashes with
    | nil =>
      refine ⟨some [], rfl, ?_⟩
      rw [availableContacts_eq]
      refine (List.filterMap_eq_nil_iff.mpr fun u _ => if_neg ?_).symm
      rintro (⟨_, -, -, hm⟩ | ⟨_, -, -, hm⟩)
      · cases hm
      · cases hm
    | cons hash hashes =>
      refine ⟨_, rfl, ?_⟩
      split
      · rename_i hnil
        exact hnil.symm
      · rfl

namespace AuthServer

/-- **No user has both** a phone number and an email address. -/
theorem run_contacts (rs : List Request) :
    ∀ u ∈ (run rs).db.users.rows, u.phone = none ∨ u.email = none := by
  refine Run.invariant
    (I := fun st : AuthServer => ∀ u ∈ st.db.users.rows, u.phone = none ∨ u.email = none)
    (fun st r h u hu => ?_) rs fun u hu => ?_
  · rcases step_cases st r with hdb | ⟨v, -, hv, husers, -⟩
    · rw [hdb] at hu
      exact h u hu
    · rw [husers, Users.mem_replace] at hu
      rcases hu with ⟨hu, -⟩ | rfl
      · exact h u hu
      · exact hv
  · cases hu

/-- **Discovery is exact** on a reachable table if and only if no user of it is listed. -/
theorem discovers_iff_unlisted (rs : List Request) {r : DiscoverRequest}
    (h : r.Admitted T (run rs).db.users hashes) :
    DiscoversExactly T (run rs).db.users hashes r ↔
      ∀ u ∈ (run rs).db.users.rows, ¬ u.Listed T hashes := by
  obtain ⟨contacts, hreply, hfound⟩ := discover_of_admitted h
  have hexact : DiscoversExactly T (run rs).db.users hashes r ↔
      Exact T (run rs).db.users hashes (availableContacts T (run rs).db.users hashes) := by
    rw [← hfound]
    refine ⟨fun ⟨contacts', hreply', hx⟩ => ?_, fun hx => ⟨contacts, hreply, hx⟩⟩
    rw [hreply] at hreply'
    cases hreply'
    exact hx
  rw [hexact, exact_iff_scanned]
  refine forall₂_congr fun u hu => ?_
  rw [User.scan_eq_none (run_contacts rs u hu)]
  exact ⟨fun hs hl => hs hl rfl, fun hs hl => absurd hl hs⟩

end AuthServer

namespace Sample

open AuthServer

/-- The digest of `+2`. -/
def digest : BytesN 32 :=
  ⟨[0x31, 0x17, 0x11, 0x79, 0x54, 0x0e, 0xc3, 0x20, 0x2f, 0x5e, 0x18, 0x9f, 0x82, 0x29, 0x8f, 0x6f,
    0x2b, 0x41, 0xce, 0xaa, 0x8f, 0xd3, 0x39, 0xf5, 0x7e, 0x0e, 0xa0, 0xe6, 0x39, 0x77, 0x41, 0x1b],
    rfl⟩

/-- Lower case and blanks of ASCII texts, and the digest of the sample contact. -/
def goText : Text where
  toLower s := String.ofList (s.toList.map Char.toLower)
  trimSpace s :=
    let trimLeft := List.dropWhile Char.isWhitespace
    String.ofList (trimLeft (trimLeft s.toList).reverse).reverse
  sum256
    | [0x2b, 0x32] => digest
    | _ => ⟨List.replicate 32 0xff, List.length_replicate⟩

example : hashContact goText "+2" =
    "31171179540ec3202f5e189f82298f6f2b41ceaa8fd339f57e0ea0e63977411b" := by decide +kernel

/-- Alice looks for the phone number that Bob has verified. -/
def looksForBob : DiscoverRequest :=
  { method := "POST"
    authorization := "Bearer ta"
    body := some [hashContact goText "+2"]
    ok := true }

theorem looksForBob_admitted :
    looksForBob.Admitted goText (run signsUp).db.users [hashContact goText "+2"] :=
  ⟨rfl, by decide +kernel, ⟨"alice", by decide +kernel, by decide +kernel⟩, rfl, rfl⟩

theorem discovers_iff_unlisted_looksForBob :
    DiscoversExactly goText (run signsUp).db.users [hashContact goText "+2"] looksForBob ↔
      ∀ u ∈ (run signsUp).db.users.rows, ¬ u.Listed goText [hashContact goText "+2"] :=
  discovers_iff_unlisted signsUp looksForBob_admitted

/-- **Bob is listed and not found**: his email address is NULL, so his row is skipped. -/
theorem verified_phone_not_found :
    discover goText (run signsUp).db.users looksForBob = .ok none ∧
      (∃ u ∈ (run signsUp).db.users.rows, u.Listed goText [hashContact goText "+2"]) ∧
      ¬ DiscoversExactly goText (run signsUp).db.users [hashContact goText "+2"] looksForBob := by
  have hreply : discover goText (run signsUp).db.users looksForBob = .ok none := by decide +kernel
  have hlisted : ∃ u ∈ (run signsUp).db.users.rows,
      u.Listed goText [hashContact goText "+2"] := by decide +kernel
  refine ⟨hreply, hlisted, fun ⟨contacts, hr, hx⟩ => ?_⟩
  rw [hreply] at hr
  cases hr
  obtain ⟨u, hu, hl⟩ := hlisted
  cases hx.once u hu hl

end Sample

end SecureComm.Server
