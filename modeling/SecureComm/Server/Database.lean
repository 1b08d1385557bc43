import Mathlib.Data.List.Nodup
import SecureComm.Server.Message

/-!
# The database of the relay

The tables `users` and `one_time_prekeys` as lists of rows in the order of
their row ids, with one definition for each statement that reads or writes
them. That a primary key is unique, and that row ids are handed out in
increasing order, is part of the type of a table. A statement that fails
changes nothing.
-/

namespace SecureComm.Server

/-- A row of `users`. A column that the statement inserting the row leaves out
has its default, NULL but for `online`. -/
structure User where
  id : String
  phone : Option String := none
  displayName : Option String := none
  email : Option String := none
  identityPub : Option Bytes := none
  signedPrekey : Option Bytes := none
  token : Option String := none
  createdAt : Option Int64 := none
  online : Int64 := 0
  lastSeen : Option Int64 := none
deriving DecidableEq

/-- The table `users`, with primary key `id`. -/
structure Users where
  rows : List User
  nodup : (rows.map User.id).Nodup

namespace Users

def empty : Users := ⟨[], List.nodup_nil⟩

/-- `SELECT ... FROM users WHERE id = ?`. -/
def find (t : Users) (id : String) : Option User := t.rows.find? fun u => u.id = id

/-- `INSERT OR REPLACE INTO users ...`: a row with the same key is deleted
first, so no column of it survives. -/
def replace (t : Users) (u : User) : Users where
  rows := t.rows.filter (fun v => v.id ≠ u.id) ++ [u]
  nodup := by
    rw [List.map_append, List.nodup_append]
    refine ⟨t.nodup.sublist (List.filter_sublist.map _), List.nodup_singleton _, ?_⟩
    rintro a ha b hb rfl
    obtain ⟨v, hv, rfl⟩ := List.mem_map.mp ha
    simp only [List.map_cons, List.map_nil, List.mem_singleton] at hb
    simpa [hb] using (List.mem_filter.mp hv).2

theorem mem_replace {t : Users} {u v : User} :
    v ∈ (t.replace u).rows ↔ (v ∈ t.rows ∧ v.id ≠ u.id) ∨ v = u := by
  unfold replace
  simp [List.mem_append, List.mem_filter]

theorem find_eq_some {t : Users} {id : String} {u : User} :
    t.find id = some u ↔ u ∈ t.rows ∧ u.id = id := by
  constructor
  · intro h
    exact ⟨List.mem_of_find?_eq_some h, by simpa using List.find?_some h⟩
  · rintro ⟨hu, rfl⟩
    cases h : t.find u.id with
    | none => simpa using List.find?_eq_none.mp h u hu
    | some v =>
      have hv := List.mem_of_find?_eq_some h
      have hid : v.id = u.id := by simpa using List.find?_some h
      rw [List.inj_on_of_nodup_map t.nodup hv hu hid]

theorem find_replace (t : Users) (u : User) (id : String) :
    (t.replace u).find id = if id = u.id then some u else t.find id := by
  split
  · rename_i h
    exact find_eq_some.mpr ⟨mem_replace.mpr (.inr rfl), h.symm⟩
  · rename_i h
    refine Option.ext fun v => ?_
    rw [find_eq_some, find_eq_some, mem_replace]
    constructor
    · rintro ⟨⟨hv, -⟩ | rfl, hid⟩
      · exact ⟨hv, hid⟩
      · exact absurd hid.symm h
    · rintro ⟨hv, rfl⟩
      exact ⟨.inl ⟨hv, h⟩, rfl⟩

end Users

/-- `getUserByToken`: `SELECT id FROM users WHERE token = ?`, of which the
first row is read. -/
def getUserByToken (users : Users) (token : String) : Option String :=
  (users.rows.find? fun u => u.token = some token).map User.id

/-- A row of `one_time_prekeys`. -/
structure OneTimePrekey where
  id : ℕ
  userID : String
  prekey : Bytes
deriving DecidableEq

/-- The table `one_time_prekeys`, whose ids are never used twice. -/
structure OneTimePrekeys where
  rows : List OneTimePrekey
  next : ℕ
  sorted : rows.Pairwise fun r s => r.id < s.id
  lt_next : ∀ r ∈ rows, r.id < next

namespace OneTimePrekeys

def empty : OneTimePrekeys := ⟨[], 1, .nil, by simp⟩

/-- `INSERT INTO one_time_prekeys (user_id, prekey) VALUES (?, ?)`. -/
def insert (t : OneTimePrekeys) (userID : String) (prekey : Bytes) : OneTimePrekeys where
  rows := t.rows ++ [⟨t.next, userID, prekey⟩]
  next := t.next + 1
  sorted := by
    rw [List.pairwise_append]
    refine ⟨t.sorted, List.pairwise_singleton _ _, fun r hr s hs => ?_⟩
    obtain rfl := List.mem_singleton.mp hs
    exact t.lt_next r hr
  lt_next r hr := by
    rcases List.mem_append.mp hr with hr | hr
    · have := t.lt_next r hr; omega
    · obtain rfl := List.mem_singleton.mp hr; exact Nat.lt_succ_self _

/-- `DELETE FROM one_time_prekeys WHERE id = ?`. -/
def delete (t : OneTimePrekeys) (id : ℕ) : OneTimePrekeys where
  rows := t.rows.filter fun r => r.id ≠ id
  next := t.next
  sorted := t.sorted.filter _
  lt_next r hr := t.lt_next r (List.mem_filter.mp hr).1

def ofUser (t : OneTimePrekeys) (userID : String) : List OneTimePrekey :=
  t.rows.filter fun r => r.userID = userID

/-- `SELECT id, prekey FROM one_time_prekeys WHERE user_id = ? ORDER BY id LIMIT 1`. -/
def first (t : OneTimePrekeys) (userID : String) : Option OneTimePrekey :=
  (t.ofUser userID).head?

/-- The prekeys of an upload as rows, with ids from `n` on. -/
def numbered (userID : String) : ℕ → List Bytes → List OneTimePrekey
  | _, [] => []
  | n, pk :: pks => ⟨n, userID, pk⟩ :: numbered userID (n + 1) pks

theorem map_numbered (userID : String) (n : ℕ) (pks : List Bytes) :
    (numbered userID n pks).map OneTimePrekey.prekey = pks := by
  induction pks generalizing n with
  | nil => rfl
  | cons pk pks ih => rw [numbered, List.map_cons, ih]

theorem mem_numbered {userID : String} {n : ℕ} {pks : List Bytes} {r : OneTimePrekey}
    (h : r ∈ numbered userID n pks) : r.userID = userID ∧ n ≤ r.id ∧ r.id < n + pks.length := by
  induction pks generalizing n with
  | nil => cases h
  | cons pk pks ih =>
    rw [List.length_cons]
    rcases List.mem_cons.mp h with rfl | h
    · exact ⟨rfl, Nat.le_refl n, by simp only; omega⟩
    · obtain ⟨hu, hle, hlt⟩ := ih h
      exact ⟨hu, by omega, by omega⟩

theorem nodup_numbered (userID : String) (n : ℕ) (pks : List Bytes) :
    (numbered userID n pks).Nodup := by
  induction pks generalizing n with
  | nil => exact List.nodup_nil
  | cons pk pks ih =>
    refine List.nodup_cons.mpr ⟨fun h => ?_, ih (n + 1)⟩
    exact (Nat.not_succ_le_self n) (mem_numbered h).2.1

/-- The statements of `registerUser` insert the prekeys as rows of their own. -/
theorem insertAll_rows (t : OneTimePrekeys) (userID : String) (pks : List Bytes) :
    (pks.foldl (fun t pk => t.insert userID pk) t).rows = t.rows ++ numbered userID t.next pks ∧
      (pks.foldl (fun t pk => t.insert userID pk) t).next = t.next + pks.length := by
  induction pks generalizing t with
  | nil => exact ⟨(List.append_nil _).symm, rfl⟩
  | cons pk pks ih =>
    obtain ⟨hrows, hnext⟩ := ih (t.insert userID pk)
    rw [List.foldl_cons, hrows, hnext, List.length_cons]
    refine ⟨?_, ?_⟩
    · rw [show (t.insert userID pk).rows = t.rows ++ [⟨t.next, userID, pk⟩] from rfl,
        List.append_assoc, List.singleton_append]
      rfl
    · rw [show (t.insert userID pk).next = t.next + 1 from rfl]
      omega

theorem ofUser_insertAll_ne (t : OneTimePrekeys) {id userID : String} (h : id ≠ userID)
    (pks : List Bytes) :
    (pks.foldl (fun t pk => t.insert userID pk) t).ofUser id = t.ofUser id := by
  unfold ofUser
  rw [(insertAll_rows t userID pks).1, List.filter_append]
  refine (congrArg _ (List.filter_eq_nil_iff.mpr fun p hp hu => h ?_)).trans (List.append_nil _)
  exact (of_decide_eq_true hu).symm.trans (mem_numbered hp).1

theorem first_eq_some {t : OneTimePrekeys} {userID : String} {r : OneTimePrekey}
    (h : t.first userID = some r) : r.userID = userID ∧ ∃ l₁ l₂, t.rows = l₁ ++ r :: l₂ ∧
      (t.delete r.id).rows = l₁ ++ l₂ ∧ ∀ s ∈ l₁, s.userID ≠ userID := by
  unfold first ofUser at h
  rw [List.head?_filter, List.find?_eq_some_iff_append] at h
  obtain ⟨hu, l₁, l₂, hrows, hbefore⟩ := h
  refine ⟨of_decide_eq_true hu, l₁, l₂, hrows, ?_, fun s hs hid => ?_⟩
  · have hsorted := t.sorted
    rw [hrows, List.pairwise_append, List.pairwise_cons] at hsorted
    obtain ⟨-, ⟨hafter, -⟩, hcross⟩ := hsorted
    have hl₁ : l₁.filter (fun s => s.id ≠ r.id) = l₁ := List.filter_eq_self.mpr fun s hs =>
      decide_eq_true (hcross s hs r List.mem_cons_self).ne
    have hl₂ : l₂.filter (fun s => s.id ≠ r.id) = l₂ := List.filter_eq_self.mpr fun s hs =>
      decide_eq_true (hafter s hs).ne'
    change t.rows.filter (fun s => s.id ≠ r.id) = l₁ ++ l₂
    rw [hrows, List.filter_append, hl₁, List.filter_cons_of_neg (by simp), hl₂]
  · have := hbefore s hs
    rw [hid] at this
    simp at this

theorem first_eq_none {t : OneTimePrekeys} {userID : String} (h : t.first userID = none)
    {r : OneTimePrekey} (hr : r ∈ t.rows) : r.userID ≠ userID := fun hid => by
  unfold first at h
  have hmem : r ∈ t.ofUser userID := List.mem_filter.mpr ⟨hr, decide_eq_true hid⟩
  rw [List.head?_eq_none_iff.mp h] at hmem
  cases hmem

end OneTimePrekeys

/-- The tables that accounts and key bundles are kept in. -/
structure Database where
  users : Users := .empty
  oneTimePrekeys : OneTimePrekeys := .empty

/-- The transaction of `registerUser`, with the token `genToken` returned. -/
def registerUser (db : Database) (token id phone displayName : String)
    (identityPub signedPrekey : Bytes) (oneTimePrekeys : List Bytes) : Database where
  users := db.users.replace
    { id := id
      phone := some phone
      displayName := some displayName
      identityPub := some identityPub
      signedPrekey := some signedPrekey
      token := some token }
  oneTimePrekeys := oneTimePrekeys.foldl (fun t pk => t.insert id pk) db.oneTimePrekeys

/-- The transaction of `fetchOneTimePrekey`. -/
def fetchOneTimePrekey (db : Database) (userID : String) : Database × Option Bytes :=
  match db.oneTimePrekeys.first userID with
  | none => (db, none)
  | some row => ({ db with oneTimePrekeys := db.oneTimePrekeys.delete row.id }, some row.prekey)

end SecureComm.Server
