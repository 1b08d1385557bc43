import SecureComm.Ratchet.Tracking

/-!
# The keys an object uses

A schedule logs slots. A `KeyLog` logs bytes: the AEAD key of every message the
object seals and of every message it opens. `KeyLog.Follows` says that the two
logs are one, slot for slot, and every call keeps it (`KeyLog.Follows.step`), so
what is said about the slots of a schedule is said about the keys of the object.
-/

namespace SecureComm.Ratchet

open KeyPath Schedule

/-- An object, and the AEAD keys of what it sealed and opened, the last one first. -/
structure KeyLog where
  ratchet : Ratchet
  sealedWith : List Bytes := []
  openedWith : List Bytes := []

/-- A message that does not open leaves its key in `aead_`, but has not used it. -/
def KeyLog.opened (l : KeyLog) : Ratchet × Option Bytes → KeyLog
  | (ratchet, some _) => { l with ratchet, openedWith := ratchet.aead.key :: l.openedWith }
  | (ratchet, none) => { l with ratchet }

def KeyLog.step (S : Sodium) (l : KeyLog) : Op → KeyLog
  | .encrypt plaintext draw =>
    match l.ratchet.encryptEnvelope S plaintext draw with
    | (ratchet, .ok _) => { l with ratchet, sealedWith := ratchet.aead.key :: l.sealedWith }
    | (ratchet, .error _) => { l with ratchet }
  | .decrypt env => l.opened (l.ratchet.decryptEnvelope S env)
  | .ratchetStep remoteDhPublic =>
    { l with ratchet := l.ratchet.apply S (.ratchetStep remoteDhPublic) }

def keyLog (S : Sodium) (r : Ratchet) (ops : List Op) : KeyLog :=
  ops.foldl (KeyLog.step S) { ratchet := r }

def trackAll (S : Sodium) (r : Ratchet) (ops : List Op) : Ratchet × Schedule :=
  ops.foldl (track S) (r, {})

section Keys

variable {S : Sodium} {root : Bytes} {r : Ratchet} {σ : Schedule}

/-- **The key of a message that is sealed** is the one of the slot the send chain stands at. -/
theorem Tracks.encrypt_key (h : Tracks S root r σ) (pt : Bytes) (draw : Draw) :
    (r.encryptEnvelope S pt draw).1.aead.key =
      eval (mac S) root (keyPath .send σ.secrets σ.sendSlot) := by
  rw [encryptEnvelope_eq, ← deriveMessageKey_eval]
  exact congrArg (deriveMessageKey S) h.send

theorem openActs_quiet (S : Sodium) (r : Ratchet) (n : UInt32) (env : Envelope) (σ : Schedule) :
    ((openActs S r n env).foldl act σ).secrets = σ.secrets ∧
      ((openActs S r n env).foldl act σ).used = σ.used := by
  have hact : ∀ a : Act, a.secret = [] → a ≠ .send → ([a].foldl act σ).secrets = σ.secrets ∧
      ([a].foldl act σ).used = σ.used := fun a hs hne =>
    ⟨by rw [List.foldl_cons, List.foldl_nil, act_secrets, hs, List.append_nil], act_used hne σ⟩
  unfold openActs
  split
  · exact ⟨rfl, rfl⟩
  · split
    · exact hact (.takeNext n) rfl nofun
    · exact hact (.takeCached n) rfl nofun

/-- **The key of a message that is opened** is the one of the slot its acts log. -/
theorem Tracks.openMessage_key (h : Tracks S root r σ) {n : UInt32} {env : Envelope}
    (ho : (r.openMessage S n env).2 ≠ none) :
    ∃ p, ((openActs S r n env).foldl act σ).received = p :: σ.received ∧
      (r.openMessage S n env).1.aead.key = eval (mac S) root (keyPath .recv σ.secrets p) := by
  rw [openActs, if_neg ho]
  obtain ⟨a, he, -⟩ | ⟨key, pt, hl, -, he⟩ | ⟨pt, hl, -, he⟩ := r.openMessage_cases (S := S) n env
  · rw [he] at ho; exact absurd rfl ho
  · -- a skipped message: the key is the cached one, and the slot is cached with it
    rw [if_neg (by rw [hl]; exact Option.some_ne_none key), he]
    rw [h.cached] at hl
    obtain ⟨p, hp, hkey⟩ := Option.map_eq_some_iff.mp hl
    refine ⟨p, ?_, hkey.symm⟩
    simp only [List.foldl_cons, List.foldl_nil, act, hp]
  · rw [if_pos hl, he]
    refine ⟨σ.recvSlot, rfl, ?_⟩
    rw [← deriveMessageKey_eval]
    exact congrArg (deriveMessageKey S) h.recv

end Keys

/-! ## The two logs -/

namespace KeyLog

/-- The object is on its schedule, and the keys it used are those of the slots logged. -/
structure Follows (S : Sodium) (root : Bytes) (l : KeyLog) (σ : Schedule) : Prop where
  tracks : Tracks S root l.ratchet σ
  sealedWith : l.sealedWith = σ.used.map fun p => eval (mac S) root (keyPath .send σ.secrets p)
  openedWith : l.openedWith = σ.received.map fun p => eval (mac S) root (keyPath .recv σ.secrets p)

variable {S : Sodium} {root : Bytes} {l : KeyLog} {σ : Schedule}

theorem opened_ratchet (l : KeyLog) (x : Ratchet × Option Bytes) : (l.opened x).ratchet = x.1 := by
  rcases x with ⟨r, _ | pt⟩ <;> rfl

theorem step_ratchet (l : KeyLog) (op : Op) : (l.step S op).ratchet = l.ratchet.apply S op := by
  cases op with
  | encrypt pt draw => rw [step, encryptEnvelope_eq, apply, encryptEnvelope_eq]
  | decrypt env => exact opened_ratchet l _
  | ratchetStep pub => rfl

/-- What uses no key keeps the logs: slots that were logged stay where they are
when more secrets are installed. -/
theorem Follows.quiet (h : Follows S root l σ) {r : Ratchet} {σ' : Schedule}
    {more : List (BytesN 32)} (ht : Tracks S root r σ') (hs : σ'.secrets = σ.secrets ++ more)
    (hu : σ'.used = σ.used) (hr : σ'.received = σ.received) :
    Follows S root { l with ratchet := r } σ' where
  tracks := ht
  sealedWith := by
    rw [hu, hs, h.sealedWith]
    refine List.map_congr_left fun p hp => ?_
    rw [keyPath_append more (h.tracks.inv.used_before p hp).epoch_le]
  openedWith := by
    rw [hr, hs, h.openedWith]
    refine List.map_congr_left fun p hp => ?_
    rw [keyPath_append more (h.tracks.inv.received_before p hp).epoch_le]

theorem step_encrypt (l : KeyLog) (pt : Bytes) (draw : Draw) :
    l.step S (.encrypt pt draw) =
      { l with
        ratchet := (l.ratchet.encryptEnvelope S pt draw).1
        sealedWith := (l.ratchet.encryptEnvelope S pt draw).1.aead.key :: l.sealedWith } := by
  simp only [step, encryptEnvelope_eq]

theorem Follows.encrypt (h : Follows S root l σ) (pt : Bytes) (draw : Draw) :
    Follows S root (l.step S (.encrypt pt draw)) (σ.act .send) := by
  rw [step_encrypt, h.tracks.encrypt_key]
  exact ⟨h.tracks.encrypt pt draw, congrArg (_ :: ·) h.sealedWith, h.openedWith⟩

theorem Follows.openMessage (h : Follows S root l σ) (n : UInt32) (env : Envelope) :
    Follows S root (l.opened (l.ratchet.openMessage S n env))
      ((openActs S l.ratchet n env).foldl act σ) := by
  have ht := h.tracks.openMessage n env
  have hkey := fun ho : (l.ratchet.openMessage S n env).2 ≠ none => h.tracks.openMessage_key ho
  obtain ⟨hs, hu⟩ := openActs_quiet S l.ratchet n env σ
  rcases ho : l.ratchet.openMessage S n env with ⟨r, _ | pt⟩
  · rw [ho] at ht
    have ha : openActs S l.ratchet n env = [] := by rw [openActs, ho, if_pos rfl]
    rw [ha] at ht ⊢
    exact h.quiet ht (List.append_nil _).symm rfl rfl
  · rw [ho] at ht hkey
    obtain ⟨p, hp, hk⟩ := hkey nofun
    refine ⟨ht, ?_, ?_⟩
    · rw [hu, hs]; exact h.sealedWith
    · rw [hp, hs, List.map_cons, ← h.openedWith]
      exact congrArg (· :: l.openedWith) hk

/-- **A delivery** installs and skips, which uses no key, and opens. -/
theorem Follows.decrypt (hroot : root.length = 32) (h : Follows S root l σ) (env : Envelope) :
    Follows S root (l.step S (.decrypt env)) ((decryptActs S l.ratchet env).foldl act σ) := by
  rw [step]
  obtain ⟨hn, ha, ht⟩ | ⟨q, n, pre, he, ha, hpre, ht⟩ := h.tracks.decrypt_cases hroot env
  · rw [ha]
    rcases hd : l.ratchet.decryptEnvelope S env with ⟨r, _ | pt⟩
    · rw [hd] at ht
      exact h.quiet ht (List.append_nil _).symm rfl rfl
    · rw [hd] at hn; cases hn
  · obtain ⟨hu, hr⟩ : (pre.foldl act σ).used = σ.used ∧
        (pre.foldl act σ).received = σ.received := by
      obtain rfl | ⟨s, rfl⟩ := hpre <;> exact ⟨rfl, rfl⟩
    have hskip := foldl_skip (n.toNat - q.recvMessageNumber.toNat) (pre.foldl act σ)
    have hq := h.quiet (ht.skipTo n) (hskip.1.trans (foldl_act_secrets pre σ))
      (hskip.2.1.trans hu) (hskip.2.2.trans hr)
    rw [he, ha, List.foldl_append, List.foldl_append]
    exact hq.openMessage n env

theorem Follows.ratchetStep (hroot : root.length = 32) (h : Follows S root l σ) (pub : Bytes) :
    Follows S root (l.step S (.ratchetStep pub))
      ((acts S l.ratchet (.ratchetStep pub)).foldl act σ) := by
  have ht := h.tracks.ratchetStep hroot pub
  obtain ⟨-, ha⟩ | ⟨s, -, ha⟩ := acts_ratchetStep_cases S l.ratchet pub
  · rw [ha] at ht ⊢
    exact h.quiet ht (List.append_nil _).symm rfl rfl
  · rw [ha] at ht ⊢
    exact h.quiet ht (foldl_act_secrets _ σ) rfl rfl

/-- **Every call logs the key of the slot it logs.** -/
theorem Follows.step (hroot : root.length = 32) (h : Follows S root l σ) (op : Op) :
    Follows S root (l.step S op) ((acts S l.ratchet op).foldl act σ) := by
  cases op with
  | encrypt pt draw => exact h.encrypt pt draw
  | decrypt env => exact h.decrypt hroot env
  | ratchetStep pub => exact h.ratchetStep hroot pub

theorem Follows.run (hroot : root.length = 32) {x : Ratchet × Schedule} (hx : l.ratchet = x.1)
    (h : Follows S root l x.2) (ops : List Op) :
    (ops.foldl (KeyLog.step S) l).ratchet = (ops.foldl (track S) x).1 ∧
      Follows S root (ops.foldl (KeyLog.step S) l) (ops.foldl (track S) x).2 := by
  induction ops generalizing l x with
  | nil => exact ⟨hx, h⟩
  | cons op ops ih =>
    have h' := h.step hroot op
    rw [hx] at h'
    exact ih ((step_ratchet l op).trans (congrArg (Ratchet.apply S · op) hx)) h'

end KeyLog

/-- **The keys of a run are those of the slots of its schedule.** -/
theorem keyLog_follows {S : Sodium} {dhPrivateKey : BytesN 32} {root sid : Bytes} {r : Ratchet}
    (hi : (new S dhPrivateKey).initializeWith root sid = .ok r) (ops : List Op) :
    (keyLog S r ops).ratchet = (trackAll S r ops).1 ∧
      (keyLog S r ops).Follows S root (trackAll S r ops).2 :=
  have hroot := initializeWith_length hi
  KeyLog.Follows.run hroot (x := (r, {})) rfl ⟨.init hroot rfl hi, rfl, rfl⟩ ops

end SecureComm.Ratchet
