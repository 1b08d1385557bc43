import Mathlib.Algebra.Group.Nat.Defs
import Mathlib.Data.List.Infix
import Mathlib.Tactic.Common

/-!
# Reading a buffer with an offset

A reader moves an offset through a buffer. It may give up (`rejected`), and it
may touch cells that the buffer does not have (`stray`), after which nothing is
said about it. `require` is the check before a read, `fetch` and `slice` are
the reads, neither of which checks anything. Sizes and offsets are words of `w`
bits; a buffer has less than half as many cells as a word has values.

`Reads` says what a reader makes of given cells, `Yields` which cells a result
was made of, and `Within` how many cells it needs ahead not to stray. Each goes
through `bind`, so that a reader is treated like the sequence of its parts.
`Codes` is a reader with its writer; the fields of a record are put together
by `Codes.field`.
-/

namespace SecureComm.Cursor

universe u v

structure Buffer (β : Type*) (w : ℕ) where
  cells : List β
  fits : cells.length < 2 ^ (w - 1)

inductive Fault (ε : Type*) where
  | rejected (e : ε)
  /-- The cells from `start` to `stop` are not all in the buffer. -/
  | stray (start stop : ℕ)
  deriving DecidableEq

/-- From an offset into a buffer, a value and the offset past what was read. -/
def Reader (β : Type u) (w : ℕ) (ε : Type v) (α : Type u) :=
  Buffer β w → ℕ → Except (Fault ε) (α × ℕ)

namespace Reader

variable {β α γ : Type u} {ε : Type v} {w : ℕ}

/-- Go on from the offset that the first reader leaves. -/
def andThen (r : Reader β w ε α) (f : α → Reader β w ε γ) : Reader β w ε γ := fun b off =>
  match r b off with
  | .error e => .error e
  | .ok (a, off) => f a b off

instance : Monad (Reader β w ε) where
  pure a := fun _ off => .ok (a, off)
  bind := andThen

/-- Give up unless `n` cells are ahead; the sum is computed in a word. -/
def require (n : ℕ) (e : ε) : Reader β w ε PUnit := fun b off =>
  if (off + n) % 2 ^ w > b.cells.length then .error (.rejected e) else .ok (⟨⟩, off)

def fetch : Reader β w ε β := fun b off =>
  match b.cells[off]? with
  | some x => .ok (x, off + 1)
  | none => .error (.stray off (off + 1))

/-- The next `n` cells. -/
def slice (n : ℕ) : Reader β w ε (List β) := fun b off =>
  if off + n ≤ b.cells.length then .ok ((b.cells.drop off).take n, off + n)
  else .error (.stray off (off + n))

/-- The next `n` cells, one after the other. -/
def foldFetch (f : α → β → α) : ℕ → α → Reader β w ε α
  | 0, a => pure a
  | n + 1, a => do
    let x ← fetch
    foldFetch f n (f a x)

def run (r : Reader β w ε α) (b : Buffer β w) : Except (Fault ε) α := (r b 0).map Prod.fst

variable {r : Reader β w ε α} {f : α → Reader β w ε γ} {b : Buffer β w} {off : ℕ}

theorem bind_ok {a : α} {off' : ℕ} (h : r b off = .ok (a, off')) :
    (r >>= f) b off = f a b off' := by
  change r.andThen f b off = _
  rw [andThen, h]

theorem bind_error {e : Fault ε} (h : r b off = .error e) : (r >>= f) b off = .error e := by
  change r.andThen f b off = _
  rw [andThen, h]

theorem bind_eq_ok {c : γ} {off'' : ℕ} (h : (r >>= f) b off = .ok (c, off'')) :
    ∃ a off', r b off = .ok (a, off') ∧ f a b off' = .ok (c, off'') := by
  cases hr : r b off with
  | error e => rw [bind_error hr] at h; cases h
  | ok p => exact ⟨p.1, p.2, rfl, (bind_ok hr).symm.trans h⟩

/-- Where the cells are there, the check passes: the sum does not wrap. -/
theorem require_passes {n : ℕ} (e : ε) (h : off + n ≤ b.cells.length) :
    (require n e : Reader β w ε PUnit) b off = .ok (⟨⟩, off) := by
  have hword := Nat.lt_of_lt_of_le b.fits (Nat.pow_le_pow_right Nat.two_pos (Nat.sub_le w 1))
  unfold require
  rw [Nat.mod_eq_of_lt (by omega), if_neg (by omega)]

/-- Where they are not there, it does not, for a count that is small enough for
the sum not to wrap. -/
theorem require_fails {n : ℕ} (e : ε) (hn : n ≤ 2 ^ (w - 1)) (hw : w ≠ 0)
    (hle : off ≤ b.cells.length) (h : b.cells.length < off + n) :
    (require n e : Reader β w ε PUnit) b off = .error (.rejected e) := by
  have hfits := b.fits
  have hword : 2 ^ w = 2 ^ (w - 1) + 2 ^ (w - 1) := by
    rw [← Nat.mul_two, ← Nat.pow_succ, Nat.succ_eq_add_one, Nat.sub_add_cancel (by omega)]
  unfold require
  rw [Nat.mod_eq_of_lt (by omega), if_pos h]

/-! ## What is made of given cells -/

/-- The cells `xs` are read as `a`, whatever comes after them. -/
def Reads (r : Reader β w ε α) (xs : List β) (a : α) : Prop :=
  ∀ (b : Buffer β w) (off : ℕ) (rest : List β), off ≤ b.cells.length →
    b.cells.drop off = xs ++ rest → r b off = .ok (a, off + xs.length)

theorem length_of_drop {xs rest : List β} (hle : off ≤ b.cells.length)
    (h : b.cells.drop off = xs ++ rest) : off + xs.length + rest.length = b.cells.length := by
  have hl := congrArg List.length h
  rw [List.length_drop, List.length_append] at hl
  omega

theorem drop_past {xs rest : List β} (h : b.cells.drop off = xs ++ rest) :
    b.cells.drop (off + xs.length) = rest := by
  rw [← List.drop_drop, h, List.drop_left]

namespace Reads

variable {xs ys : List β} {a : α} {c : γ}

theorem pure (a : α) : Reads (Pure.pure a : Reader β w ε α) [] a := fun _ _ _ _ _ => rfl

theorem bind (h : Reads r xs a) (h' : Reads (f a) ys c) : Reads (r >>= f) (xs ++ ys) c := by
  intro b off rest hle hd
  rw [List.append_assoc] at hd
  have hlen := length_of_drop hle hd
  rw [bind_ok (h b off _ hle hd), h' b _ rest (by omega) (drop_past hd), List.length_append,
    Nat.add_assoc]

theorem fetch (x : β) : Reads (fetch : Reader β w ε β) [x] x := by
  intro b off rest _ hd
  have hx : b.cells[off]? = some x := by
    rw [← List.head?_drop, hd]; rfl
  unfold Reader.fetch
  rw [hx]
  rfl

theorem slice (xs : List β) : Reads (slice xs.length : Reader β w ε _) xs xs := by
  intro b off rest hle hd
  have hlen := length_of_drop hle hd
  unfold Reader.slice
  rw [if_pos (by omega), hd, List.take_left]

theorem require {n : ℕ} {e : ε} (hn : n ≤ xs.length) (h : Reads r xs a) :
    Reads (require n e >>= fun _ => r) xs a := by
  intro b off rest hle hd
  have hlen := length_of_drop hle hd
  rw [bind_ok (require_passes e (by omega))]
  exact h b off rest hle hd

theorem foldFetch (f : α → β → α) (xs : List β) (a : α) :
    Reads (foldFetch f xs.length a : Reader β w ε α) xs (xs.foldl f a) := by
  induction xs generalizing a with
  | nil => exact .pure a
  | cons x xs ih => exact (Reads.fetch x).bind (ih (f a x))

theorem run {rest : List β} (h : Reads r xs a) (hb : b.cells = xs ++ rest) : r.run b = .ok a := by
  unfold Reader.run
  rw [h b 0 rest (Nat.zero_le _) hb]
  rfl

end Reads

/-! ## What a result was made of -/

/-- Between the offsets before and after lie cells of which `P` holds. -/
def Yields (r : Reader β w ε α) (P : α → List β → Prop) : Prop :=
  ∀ (b : Buffer β w) (off : ℕ) (a : α) (off' : ℕ), off ≤ b.cells.length →
    r b off = .ok (a, off') → off' ≤ b.cells.length ∧
      ∃ xs, b.cells.drop off = xs ++ b.cells.drop off' ∧ P a xs

namespace Yields

variable {P : α → List β → Prop} {Q : α → γ → List β → Prop}

theorem mono {P' : α → List β → Prop} (h : Yields r P) (hP : ∀ a xs, P a xs → P' a xs) :
    Yields r P' := by
  intro b off a off' hle hr
  obtain ⟨hle', xs, hd, hx⟩ := h b off a off' hle hr
  exact ⟨hle', xs, hd, hP a xs hx⟩

theorem pure (a : α) : Yields (Pure.pure a : Reader β w ε α) fun c xs => c = a ∧ xs = [] := by
  intro b off c off' hle hr
  cases hr
  exact ⟨hle, [], rfl, rfl, rfl⟩

theorem bind (h : Yields r P) (h' : ∀ a, Yields (f a) (Q a)) :
    Yields (r >>= f) fun c zs => ∃ a xs ys, zs = xs ++ ys ∧ P a xs ∧ Q a c ys := by
  intro b off c off'' hle hr
  obtain ⟨a, off', hr, hf⟩ := bind_eq_ok hr
  obtain ⟨hle', xs, hd, hx⟩ := h b off a off' hle hr
  obtain ⟨hle'', ys, hd', hy⟩ := h' a b off' c off'' hle' hf
  exact ⟨hle'', xs ++ ys, by rw [hd, hd', List.append_assoc], a, xs, ys, rfl, hx, hy⟩

theorem fetch : Yields (fetch : Reader β w ε β) fun x xs => xs = [x] := by
  intro b off x off' _ hr
  unfold Reader.fetch at hr
  split at hr
  · rename_i y hy
    cases hr
    obtain ⟨hlt, rfl⟩ := List.getElem?_eq_some_iff.mp hy
    exact ⟨hlt, _, List.drop_eq_getElem_cons hlt, rfl⟩
  · cases hr

theorem slice (n : ℕ) : Yields (slice n : Reader β w ε _) fun ys xs => xs = ys ∧ ys.length = n := by
  intro b off ys off' _ hr
  unfold Reader.slice at hr
  split at hr
  · rename_i hn
    cases hr
    refine ⟨hn, _, ?_, rfl, ?_⟩
    · rw [← List.drop_drop, List.take_append_drop]
    · rw [List.length_take, List.length_drop]
      omega
  · cases hr

theorem require (n : ℕ) (e : ε) :
    Yields (require n e : Reader β w ε PUnit) fun _ xs => xs = [] := by
  intro b off c off' hle hr
  unfold Reader.require at hr
  split at hr
  · cases hr
  · cases hr
    exact ⟨hle, [], rfl, rfl⟩

theorem foldFetch (f : α → β → α) (n : ℕ) (a : α) :
    Yields (foldFetch f n a : Reader β w ε α) fun c xs => c = xs.foldl f a ∧ xs.length = n := by
  induction n generalizing a with
  | zero => exact (Yields.pure a).mono fun c xs ⟨hc, hx⟩ => by subst hx; exact ⟨hc, rfl⟩
  | succ n ih =>
    refine (Yields.fetch.bind fun x => ih (f a x)).mono ?_
    rintro c zs ⟨x, xs, ys, rfl, rfl, rfl, hl⟩
    exact ⟨rfl, congrArg (· + 1) hl⟩

theorem run {a : α} (h : Yields r P) (hr : r.run b = .ok a) : ∃ xs, xs <+: b.cells ∧ P a xs := by
  unfold Reader.run at hr
  cases hb : r b 0 with
  | error e => rw [hb] at hr; cases hr
  | ok p =>
    rw [hb] at hr
    cases hr
    obtain ⟨-, xs, hd, hx⟩ := h b 0 p.1 p.2 (Nat.zero_le _) hb
    exact ⟨xs, ⟨_, hd.symm⟩, hx⟩

end Yields

/-! ## Staying inside -/

/-- The reader touches only cells of the buffer. -/
def Safe (r : Reader β w ε α) (b : Buffer β w) (off : ℕ) : Prop :=
  ∀ start stop, r b off ≠ .error (.stray start stop)

theorem safe_of_ok {a : α} {off' : ℕ} (h : r b off = .ok (a, off')) : Safe r b off :=
  fun _ _ hs => by rw [h] at hs; cases hs

theorem safe_of_rejected {e : ε} (h : r b off = .error (.rejected e)) : Safe r b off :=
  fun _ _ hs => by rw [h] at hs; cases hs

theorem safe_bind : Safe (r >>= f) b off ↔
    Safe r b off ∧ ∀ a off', r b off = .ok (a, off') → Safe (f a) b off' := by
  unfold Safe
  cases hr : r b off with
  | error e =>
    rw [bind_error hr]
    constructor
    · intro h
      refine ⟨fun start stop hs => ?_, fun _ _ ha => by cases ha⟩
      cases hs
      exact h start stop rfl
    · rintro ⟨h, -⟩ start stop hs
      cases hs
      exact h start stop rfl
  | ok p =>
    rw [bind_ok hr]
    constructor
    · intro h
      refine ⟨fun _ _ hs => (by cases hs), fun a off' ha => ?_⟩
      cases ha
      exact h
    · exact fun h => h.2 p.1 p.2 rfl

theorem safe_bind_of_ok {a : α} {off' : ℕ} (h : r b off = .ok (a, off')) :
    Safe (r >>= f) b off ↔ Safe (f a) b off' := by
  unfold Safe
  rw [bind_ok h]

theorem not_safe {start stop : ℕ} (h : r b off = .error (.stray start stop)) : ¬ Safe r b off :=
  fun hs => hs start stop h

theorem foldFetch_strays {g : α → β → α} {n : ℕ} (a : α) (hle : off ≤ b.cells.length)
    (h : b.cells.length < off + n) : ¬ Safe (foldFetch g n a : Reader β w ε α) b off := by
  induction n generalizing a off with
  | zero => omega
  | succ n ih =>
    change ¬ Safe (fetch >>= fun x => foldFetch g n (g a x) : Reader β w ε α) b off
    rcases hle.lt_or_eq with hlt | heq
    · have hx : (fetch : Reader β w ε β) b off = .ok (b.cells[off], off + 1) := by
        rw [fetch, List.getElem?_eq_getElem hlt]
      rw [safe_bind_of_ok hx]
      exact ih _ hlt (by omega)
    · have hx : (fetch : Reader β w ε β) b off = .error (.stray off (off + 1)) := by
        rw [fetch, List.getElem?_eq_none heq.ge]
      exact not_safe (bind_error hx)

/-- The reader stays inside where `n` cells are ahead. -/
def Within (r : Reader β w ε α) (n : ℕ) : Prop :=
  ∀ (b : Buffer β w) (off : ℕ), off + n ≤ b.cells.length → Safe r b off

namespace Within

variable {m n : ℕ}

theorem pure (a : α) : Within (Pure.pure a : Reader β w ε α) 0 := fun _ _ _ => safe_of_ok rfl

theorem fetch : Within (fetch : Reader β w ε β) 1 := fun b off h => by
  have hx : b.cells[off]? = some b.cells[off] := List.getElem?_eq_getElem h
  exact safe_of_ok (show Reader.fetch b off = _ by unfold Reader.fetch; rw [hx])

theorem slice (n : ℕ) : Within (slice n : Reader β w ε _) n := fun b off h =>
  safe_of_ok (show Reader.slice n b off = _ by unfold Reader.slice; rw [if_pos h])

theorem mono (h : Within r m) (hmn : m ≤ n) : Within r n := fun b off hle => h b off (by omega)

theorem bind {P : α → List β → Prop} (h : Within r m) (hy : Yields r P)
    (hP : ∀ a xs, P a xs → xs.length = m) (h' : ∀ a, Within (f a) n) :
    Within (r >>= f) (m + n) := by
  intro b off hle
  refine safe_bind.mpr ⟨h b off (by omega), fun a off' hr => ?_⟩
  obtain ⟨hle', xs, hd, hx⟩ := hy b off a off' (by omega) hr
  have hlen := length_of_drop (by omega) hd
  have hm := hP a xs hx
  rw [List.length_drop] at hlen
  exact h' a b off' (by omega)

theorem andThen {P : α → List β → Prop} (h : Within r 0) (hy : Yields r P)
    (h' : ∀ a, Within (f a) 0) : Within (r >>= f) 0 := fun b off hle =>
  safe_bind.mpr ⟨h b off hle, fun a off' hr => h' a b off' (hy b off a off' hle hr).1⟩

theorem foldFetch (f : α → β → α) (n : ℕ) (a : α) :
    Within (foldFetch f n a : Reader β w ε α) n := by
  induction n generalizing a with
  | zero => exact .pure a
  | succ n ih =>
    have hstep : Within (Reader.fetch >>= fun x => Reader.foldFetch f n (f a x)) (1 + n) :=
      Within.fetch.bind .fetch (fun x xs hx => by rw [hx]; rfl) fun x => ih (f a x)
    rwa [Nat.add_comm] at hstep

theorem require {e : ε} (hn : n ≤ 2 ^ (w - 1)) (hw : w ≠ 0) (h : Within r n) :
    Within (require n e >>= fun _ => r) 0 := by
  intro b off hle
  by_cases hlen : off + n ≤ b.cells.length
  · have hpass := require_passes (w := w) e hlen
    refine safe_bind.mpr ⟨safe_of_ok hpass, fun c off' hr => ?_⟩
    rw [hpass] at hr
    cases hr
    exact h b off hlen
  · exact safe_of_rejected (bind_error (require_fails e hn hw hle (by omega)))

end Within

/-! ## Readers and writers -/

/-- The reader undoes `write` on the values that are `ok`, and reads nothing
but what was written for one of them. -/
structure Codes (r : Reader β w ε α) (ok : α → Prop) (write : α → List β) : Prop where
  reads : ∀ a, ok a → Reads r (write a) a
  yields : Yields r fun a xs => ok a ∧ xs = write a

namespace Codes

variable {ok : α → Prop} {write : α → List β}

theorem congr {ok' : α → Prop} {write' : α → List β} (h : Codes r ok write)
    (hok : ∀ a, ok a ↔ ok' a) (hwrite : ∀ a, write a = write' a) : Codes r ok' write' := by
  obtain rfl : write = write' := funext hwrite
  obtain rfl : ok = ok' := funext fun a => propext (hok a)
  exact h

theorem pure (a : α) : Codes (Pure.pure a : Reader β w ε α) (· = a) fun _ => [] where
  reads := by rintro c rfl; exact .pure c
  yields := .pure a

/-- A field of a record, then the rest: `get` is what the record has there, and
`E` is what is known of the fields before. -/
theorem field {E ok' : γ → Prop} {write' : γ → List β} (get : γ → α) (h : Codes r ok write)
    (h' : ∀ a, Codes (f a) (fun c => (get c = a ∧ E c) ∧ ok' c) write') :
    Codes (r >>= f) (fun c => E c ∧ ok (get c) ∧ ok' c) fun c => write (get c) ++ write' c where
  reads c := fun ⟨he, hg, hc⟩ => (h.reads _ hg).bind ((h' (get c)).reads c ⟨⟨rfl, he⟩, hc⟩)
  yields := (h.yields.bind fun a => (h' a).yields).mono (by
    rintro c zs ⟨a, xs, ys, rfl, ⟨ha, rfl⟩, ⟨⟨rfl, he⟩, hc⟩, rfl⟩
    exact ⟨⟨he, ha, hc⟩, rfl⟩)

/-- A check for no more than is written makes no difference. -/
theorem checked (h : Codes r ok write) {n : ℕ} (e : ε) (hn : ∀ a, ok a → n ≤ (write a).length) :
    Codes (Reader.require n e >>= fun _ => r) ok write where
  reads a ha := .require (hn a ha) (h.reads a ha)
  yields := ((Yields.require n e).bind fun _ => h.yields).mono (by
    rintro a zs ⟨-, xs, ys, rfl, rfl, hy⟩
    exact hy)

theorem run_eq_ok (h : Codes r ok write) {a : α} :
    r.run b = .ok a ↔ ok a ∧ write a <+: b.cells := by
  constructor
  · intro hr
    obtain ⟨xs, hpre, ha, rfl⟩ := h.yields.run hr
    exact ⟨ha, hpre⟩
  · rintro ⟨ha, rest, hb⟩
    exact (h.reads a ha).run hb.symm

/-- Cells written for one value do not begin with those written for another. -/
theorem eq_of_prefix (h : Codes r ok write) {a a' : α} (ha : ok a) (ha' : ok a')
    (hfits : (write a').length < 2 ^ (w - 1)) (hpre : write a <+: write a') : a = a' := by
  have hlong := h.run_eq_ok.mpr ⟨ha', List.prefix_refl (Buffer.mk (write a') hfits).cells⟩
  have hshort := h.run_eq_ok (b := ⟨write a', hfits⟩).mpr ⟨ha, hpre⟩
  exact Except.ok.inj (hshort.symm.trans hlong)

end Codes

theorem run_safe (h : Within r 0) (start stop : ℕ) : r.run b ≠ .error (.stray start stop) := by
  intro hr
  unfold Reader.run at hr
  cases hb : r b 0 with
  | error e =>
    rw [hb] at hr
    cases hr
    exact h b 0 (Nat.zero_le _) start stop hb
  | ok p => rw [hb] at hr; cases hr

/-- **Truncated cells are rejected** by a reader that stays inside. -/
theorem Codes.rejects_prefix {ok : α → Prop} {write : α → List β} (h : Codes r ok write)
    (hin : Within r 0) {a : α} (ha : ok a) (hfits : (write a).length < 2 ^ (w - 1))
    (hb : b.cells <+: write a) (hne : b.cells ≠ write a) :
    ∃ e, r.run b = .error (.rejected e) := by
  cases hr : r.run b with
  | error e =>
    cases e with
    | rejected e => exact ⟨e, rfl⟩
    | stray start stop => exact absurd hr (run_safe hin start stop)
  | ok a' =>
    obtain ⟨ha', hpre⟩ := h.run_eq_ok.mp hr
    obtain rfl := h.eq_of_prefix ha' ha hfits (hpre.trans hb)
    exact absurd (hb.eq_of_length_le hpre.length_le) hne

end Reader

end SecureComm.Cursor
