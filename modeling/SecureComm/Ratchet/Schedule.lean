import Mathlib.Data.List.Count
import SecureComm.Lib.KeyPath
import SecureComm.Lib.Table
import SecureComm.Ratchet.Kdf

/-!
# The key schedule

The keys of one object, without their bytes. Every key is derived from the root
key along a path of hashed messages: the shared secrets of the installations,
the info string of a direction, one label for each message of the chain. A
`Slot` is a place on a chain, and a `Schedule` says which slot each chain
stands at, which slots have a cached key, and which were used.

An object never returns to a slot: chains move forward only, a cached slot is
behind its chain, and a slot whose key was consumed is not cached any more.
-/

namespace SecureComm

/-- The two chains of an installation. -/
inductive Direction where
  | send
  | recv
  deriving DecidableEq

/-- The info string a direction is expanded with. -/
def Direction.info : Direction → Bytes
  | .send => sendInfo
  | .recv => recvInfo

/-- A place on a chain: how many installations came before, and how many
messages since the last one. -/
structure Slot where
  epoch : Nat
  index : Nat
  deriving DecidableEq

/-- A slot of an earlier installation, or earlier on the same chain. -/
def Slot.Before (p q : Slot) : Prop :=
  p.epoch < q.epoch ∨ p.epoch = q.epoch ∧ p.index < q.index

theorem Slot.Before.trans {p q r : Slot} (h : p.Before q) (h' : q.Before r) : p.Before r := by
  unfold Before at *; omega

theorem Slot.Before.epoch_le {p q : Slot} (h : p.Before q) : p.epoch ≤ q.epoch := by
  unfold Before at h; omega

theorem Slot.not_before_self (p : Slot) : ¬ p.Before p := by unfold Before; omega

/-! ## Paths -/

/-- The path of a chain key. Before the first installation both chains are the
root key itself. -/
def chainPath (d : Direction) (secrets : List (BytesN 32)) (p : Slot) : List Bytes :=
  (secrets.take p.epoch).map Subtype.val ++
    ((if p.epoch = 0 then [] else [d.info ++ [1]]) ++ List.replicate p.index ckLabel)

def keyPath (d : Direction) (secrets : List (BytesN 32)) (p : Slot) : List Bytes :=
  chainPath d secrets p ++ [msgLabel]

section Paths

variable {d : Direction} {secrets : List (BytesN 32)}

theorem chainPath_succ (e i : Nat) :
    chainPath d secrets ⟨e, i + 1⟩ = chainPath d secrets ⟨e, i⟩ ++ [ckLabel] := by
  simp [chainPath, List.replicate_succ']

theorem chainPath_zero : chainPath d secrets ⟨0, 0⟩ = [] := by simp [chainPath]

theorem chainPath_install (s : BytesN 32) :
    chainPath d (secrets ++ [s]) ⟨secrets.length + 1, 0⟩ =
      secrets.map Subtype.val ++ [s.val] ++ [d.info ++ [1]] := by
  have ht : (secrets ++ [s]).take (secrets.length + 1) = secrets ++ [s] :=
    List.take_of_length_le (by rw [List.length_append]; exact Nat.le_refl _)
  rw [chainPath, ht, if_neg (Nat.succ_ne_zero _), List.map_append]
  simp

theorem chainPath_append (more : List (BytesN 32)) {p : Slot} (hp : p.epoch ≤ secrets.length) :
    chainPath d (secrets ++ more) p = chainPath d secrets p := by
  rw [chainPath, List.take_append_of_le_length hp, chainPath]

theorem keyPath_append (more : List (BytesN 32)) {p : Slot} (hp : p.epoch ≤ secrets.length) :
    keyPath d (secrets ++ more) p = keyPath d secrets p := by
  rw [keyPath, chainPath_append more hp, keyPath]

theorem countP_keyPath {p : Slot} (hp : p.epoch ≤ secrets.length) :
    (keyPath d secrets p).countP (fun m => m.length = 32) = p.epoch := by
  have hs : ((secrets.take p.epoch).map Subtype.val).countP (fun m => m.length = 32) =
      p.epoch := by
    rw [List.countP_map, List.countP_eq_length.mpr, List.length_take, Nat.min_eq_left hp]
    exact fun s _ => decide_eq_true s.property
  have hi : (if p.epoch = 0 then [] else [d.info ++ [1]]).countP (fun m => m.length = 32) = 0 := by
    split
    · rfl
    · cases d <;> decide
  rw [keyPath, chainPath, List.countP_append, List.countP_append, List.countP_append, hs, hi,
    List.countP_replicate, if_neg (by decide)]
  rfl

/-- A short message occurs on a chain path as often as it is a chain label. -/
theorem count_chainPath (p : Slot) {m : Bytes} (hm : m.length ≠ 32)
    (hi : ∀ d : Direction, m ≠ d.info ++ [1]) :
    (chainPath d secrets p).count m = if m = ckLabel then p.index else 0 := by
  have hs : ((secrets.take p.epoch).map Subtype.val).count m = 0 := by
    refine List.count_eq_zero.mpr fun hc => ?_
    obtain ⟨s, -, rfl⟩ := List.mem_map.mp hc
    exact hm s.property
  have hinfo : (if p.epoch = 0 then [] else [d.info ++ [1]]).count m = 0 := by
    split
    · rfl
    · exact List.count_eq_zero.mpr fun hc => hi d (List.mem_singleton.mp hc)
  rw [chainPath, List.count_append, List.count_append, hs, hinfo, List.count_replicate]
  by_cases h : m = ckLabel
  · rw [h, if_pos rfl, if_pos (beq_self_eq_true _)]
    omega
  · rw [if_neg h, if_neg fun hc => h (eq_of_beq hc).symm]

theorem count_ckLabel (p : Slot) : (keyPath d secrets p).count ckLabel = p.index := by
  rw [keyPath, List.count_append, count_chainPath p (by decide) (by intro d; cases d <;> decide),
    if_pos rfl]
  rfl

theorem count_msgLabel (p : Slot) : (keyPath d secrets p).count msgLabel = 1 := by
  rw [keyPath, List.count_append, count_chainPath p (by decide) (by intro d; cases d <;> decide),
    if_neg (by decide), List.count_singleton_self]

/-- **A path names its slot.** -/
theorem keyPath_injective {d' : Direction} {p q : Slot} (hp : p.epoch ≤ secrets.length)
    (hq : q.epoch ≤ secrets.length) (h : keyPath d secrets p = keyPath d' secrets q) : p = q := by
  have he : p.epoch = q.epoch := by rw [← countP_keyPath hp, h, countP_keyPath hq]
  have hi : p.index = q.index := by rw [← count_ckLabel p, h, count_ckLabel q]
  cases p; cases q; cases he; cases hi; rfl

/-- Before the first installation the two directions are one chain, after it
they are apart. -/
theorem keyPath_direction {p : Slot} :
    keyPath .send secrets p = keyPath .recv secrets p ↔ p.epoch = 0 := by
  have hne : sendInfo ≠ recvInfo := by decide
  by_cases he : p.epoch = 0 <;> simp [keyPath, chainPath, he, Direction.info, hne]

end Paths

/-! ## Schedules -/

structure Schedule where
  secrets : List (BytesN 32) := []
  /-- The messages sent since the last installation. -/
  sent : Nat := 0
  /-- The messages the receive chain has moved past since then. -/
  moved : Nat := 0
  number : UInt32 := 0
  cached : Table UInt32 Slot := ∅
  used : List Slot := []
  received : List Slot := []
  deriving DecidableEq

namespace Schedule

def sendSlot (σ : Schedule) : Slot := ⟨σ.secrets.length, σ.sent⟩

def recvSlot (σ : Schedule) : Slot := ⟨σ.secrets.length, σ.moved⟩

inductive Act where
  | send
  | install (secret : BytesN 32)
  | skip
  | takeCached (n : UInt32)
  | takeNext (n : UInt32)

def act (σ : Schedule) : Act → Schedule
  | .send => { σ with used := σ.sendSlot :: σ.used, sent := σ.sent + 1 }
  | .install s => { σ with secrets := σ.secrets ++ [s], sent := 0, moved := 0, number := 0 }
  | .skip =>
    { σ with
      cached := σ.cached.emplace σ.number σ.recvSlot
      moved := σ.moved + 1, number := σ.number + 1 }
  | .takeCached n =>
    match σ.cached.lookup n with
    | some p => { σ with cached := σ.cached.erase n, received := p :: σ.received }
    | none => σ
  | .takeNext n =>
    { σ with received := σ.recvSlot :: σ.received, moved := σ.moved + 1, number := n + 1 }

def Act.secret : Act → List (BytesN 32)
  | .install z => [z]
  | _ => []

theorem act_secrets (a : Act) (σ : Schedule) : (σ.act a).secrets = σ.secrets ++ a.secret := by
  cases a with
  | takeCached n =>
    simp only [act, Act.secret, List.append_nil]
    split <;> rfl
  | install z => rfl
  | _ => exact (List.append_nil _).symm

theorem act_used {a : Act} (ha : a ≠ .send) (σ : Schedule) : (σ.act a).used = σ.used := by
  cases a with
  | send => exact absurd rfl ha
  | takeCached n => rw [act]; split <;> rfl
  | _ => rfl

theorem foldl_act_secrets (acts : List Act) (σ : Schedule) :
    (acts.foldl act σ).secrets = σ.secrets ++ acts.flatMap Act.secret := by
  induction acts generalizing σ with
  | nil => exact (List.append_nil _).symm
  | cons a acts ih =>
    rw [List.foldl_cons, ih, act_secrets, List.flatMap_cons, List.append_assoc]

theorem foldl_skip (k : ℕ) (σ : Schedule) :
    ((List.replicate k .skip).foldl act σ).secrets = σ.secrets ∧
      ((List.replicate k .skip).foldl act σ).used = σ.used ∧
      ((List.replicate k .skip).foldl act σ).received = σ.received := by
  induction k generalizing σ with
  | zero => exact ⟨rfl, rfl, rfl⟩
  | succ k ih => exact ih (σ.act .skip)

/-- No slot is used twice: what was used, consumed or cached is behind its
chain, and a cached slot is cached once and not consumed. -/
structure Inv (σ : Schedule) : Prop where
  used_before : ∀ p ∈ σ.used, p.Before σ.sendSlot
  used_nodup : σ.used.Nodup
  received_before : ∀ p ∈ σ.received, p.Before σ.recvSlot
  received_nodup : σ.received.Nodup
  cached_before : ∀ n p, σ.cached.lookup n = some p → p.Before σ.recvSlot
  cached_fresh : ∀ n p, σ.cached.lookup n = some p → p ∉ σ.received
  cached_once : ∀ n m p, σ.cached.lookup n = some p → σ.cached.lookup m = some p → n = m

variable {σ : Schedule}

theorem Inv.init : Inv {} where
  used_before p hp := by cases hp
  used_nodup := .nil
  received_before p hp := by cases hp
  received_nodup := .nil
  cached_before n p hp := by rw [AList.lookup_empty] at hp; cases hp
  cached_fresh n p hp := by rw [AList.lookup_empty] at hp; cases hp
  cached_once n m p hp := by rw [AList.lookup_empty] at hp; cases hp

theorem sendSlot_install (p : Slot) (s : BytesN 32) (h : p.Before σ.sendSlot) :
    p.Before (σ.act (.install s)).sendSlot := by
  have hl : (σ.secrets ++ [s]).length = σ.secrets.length + 1 := by simp
  unfold Slot.Before sendSlot act at *
  dsimp only at *
  omega

theorem recvSlot_install (p : Slot) (s : BytesN 32) (h : p.Before σ.recvSlot) :
    p.Before (σ.act (.install s)).recvSlot := by
  have hl : (σ.secrets ++ [s]).length = σ.secrets.length + 1 := by simp
  unfold Slot.Before recvSlot act at *
  dsimp only at *
  omega

theorem before_next {e i : Nat} {p : Slot} (h : p.Before ⟨e, i⟩ ∨ p = ⟨e, i⟩) :
    p.Before ⟨e, i + 1⟩ := by
  obtain h | rfl := h
  · unfold Slot.Before at *
    dsimp only at *
    omega
  · exact .inr ⟨rfl, Nat.lt_succ_self i⟩

theorem Inv.send (h : Inv σ) : Inv (σ.act .send) :=
  { h with
    used_before := fun p hp => before_next <| by
      obtain rfl | hp := List.mem_cons.mp hp
      · exact .inr rfl
      · exact .inl (h.used_before p hp)
    used_nodup := List.nodup_cons.mpr
      ⟨fun hc => Slot.not_before_self _ (h.used_before _ hc), h.used_nodup⟩ }

theorem Inv.install (h : Inv σ) (s : BytesN 32) : Inv (σ.act (.install s)) :=
  { h with
    used_before := fun p hp => sendSlot_install p s (h.used_before p hp)
    received_before := fun p hp => recvSlot_install p s (h.received_before p hp)
    cached_before := fun n p hp => recvSlot_install p s (h.cached_before n p hp) }

/-- A skipped slot is cached unless its number has another, which stays. -/
theorem lookup_skip {n : UInt32} {p : Slot} (hp : (σ.act .skip).cached.lookup n = some p) :
    σ.cached.lookup n = some p ∨ n = σ.number ∧ p = σ.recvSlot := by
  have hp' : (σ.cached.emplace σ.number σ.recvSlot).lookup n = some p := hp
  rw [Table.lookup_emplace] at hp'
  split at hp'
  · rename_i hn
    rcases hl : σ.cached.lookup σ.number with _ | q
    · rw [hl, Option.getD_none] at hp'
      cases hp'
      exact .inr ⟨hn, rfl⟩
    · rw [hl, Option.getD_some] at hp'
      rw [hn, hl]
      exact .inl hp'
  · exact .inl hp'

theorem Inv.skip (h : Inv σ) : Inv (σ.act .skip) where
  used_before := h.used_before
  used_nodup := h.used_nodup
  received_before p hp := before_next (.inl (h.received_before p hp))
  received_nodup := h.received_nodup
  cached_before n p hp := before_next <| by
    obtain hp | ⟨-, rfl⟩ := lookup_skip hp
    · exact .inl (h.cached_before n p hp)
    · exact .inr rfl
  cached_fresh n p hp := by
    obtain hp | ⟨-, rfl⟩ := lookup_skip hp
    · exact h.cached_fresh n p hp
    · exact fun hc => Slot.not_before_self _ (h.received_before _ hc)
  cached_once n m p hn hm := by
    obtain hn | ⟨rfl, rfl⟩ := lookup_skip hn <;> obtain hm | ⟨rfl, hp⟩ := lookup_skip hm
    · exact h.cached_once n m p hn hm
    · subst hp; exact absurd (h.cached_before n _ hn) (Slot.not_before_self _)
    · exact absurd (h.cached_before m _ hm) (Slot.not_before_self _)
    · rfl

theorem Inv.takeCached (h : Inv σ) (n : UInt32) : Inv (σ.act (.takeCached n)) := by
  rcases hl : σ.cached.lookup n with _ | p
  · simp only [Schedule.act, hl]
    exact h
  simp only [Schedule.act, hl]
  have herase : ∀ m q, (σ.cached.erase n).lookup m = some q →
      m ≠ n ∧ σ.cached.lookup m = some q := by
    intro m q hm
    rw [Table.lookup_erase_eq] at hm
    split at hm
    · cases hm
    · rename_i hne; exact ⟨hne, hm⟩
  refine { h with
    received_before := fun q hq => ?_
    received_nodup := List.nodup_cons.mpr ⟨h.cached_fresh n p hl, h.received_nodup⟩
    cached_before := fun m q hm => h.cached_before m q (herase m q hm).2
    cached_fresh := fun m q hm hq => ?_
    cached_once := fun m m' q hm hm' => h.cached_once m m' q (herase m q hm).2 (herase m' q hm').2 }
  · obtain rfl | hq := List.mem_cons.mp hq
    · exact h.cached_before n _ hl
    · exact h.received_before q hq
  · obtain ⟨hne, hlm⟩ := herase m q hm
    obtain rfl | hq := List.mem_cons.mp hq
    · exact hne (h.cached_once m n _ hlm hl)
    · exact h.cached_fresh m q hlm hq

theorem Inv.takeNext (h : Inv σ) (n : UInt32) : Inv (σ.act (.takeNext n)) :=
  { h with
    received_before := fun p hp => before_next <| by
      obtain rfl | hp := List.mem_cons.mp hp
      · exact .inr rfl
      · exact .inl (h.received_before p hp)
    received_nodup := List.nodup_cons.mpr
      ⟨fun hc => Slot.not_before_self _ (h.received_before _ hc), h.received_nodup⟩
    cached_before := fun m p hp => before_next (.inl (h.cached_before m p hp))
    cached_fresh := fun m p hp hc => by
      obtain rfl | hc := List.mem_cons.mp hc
      · exact Slot.not_before_self _ (h.cached_before m _ hp)
      · exact h.cached_fresh m p hp hc }

/-- **No slot is used twice**, whatever the object does. -/
theorem Inv.act (h : Inv σ) (a : Act) : Inv (σ.act a) := by
  cases a with
  | send => exact h.send
  | install s => exact h.install s
  | skip => exact h.skip
  | takeCached n => exact h.takeCached n
  | takeNext n => exact h.takeNext n

end Schedule

end SecureComm
