import SecureComm.Ratchet.Chains
import SecureComm.Ratchet.Schedule

/-!
# An object follows its key schedule

`acts` says what a call does to the key schedule, and `Tracks` that every key an
object holds is the key of the path its schedule names. Each call keeps this
(`Tracks.track`), so what holds of all schedules holds of the keys of an object.
-/

namespace SecureComm.Ratchet

open KeyPath Schedule

variable {S : Sodium} {root : Bytes} {r : Ratchet} {σ : Schedule}

/-- One step of a path: every derivation is one call of HMAC. -/
def mac (S : Sodium) (k m : Bytes) : Bytes := (S.hmac k m).val

/-- Every key the object holds is the key of the path its schedule names. -/
structure Tracks (S : Sodium) (root : Bytes) (r : Ratchet) (σ : Schedule) : Prop where
  inv : σ.Inv
  rootKey : r.rootKey = eval (mac S) root (σ.secrets.map Subtype.val)
  send : r.sendChainKey = eval (mac S) root (chainPath .send σ.secrets σ.sendSlot)
  recv : r.recvChainKey = eval (mac S) root (chainPath .recv σ.secrets σ.recvSlot)
  number : r.recvMessageNumber = σ.number
  cached : ∀ n, r.skippedMessageKeys.lookup n =
    (σ.cached.lookup n).map fun p => eval (mac S) root (keyPath .recv σ.secrets p)

theorem eval_mac_length (h : root.length = 32) (p : List Bytes) :
    (eval (mac S) root p).length = 32 := by
  induction p using List.reverseRecOn with
  | nil => exact h
  | append_singleton p m => rw [eval_concat]; exact (S.hmac _ m).property

theorem deriveMessageKey_eval {d : Direction} {secrets : List (BytesN 32)} {p : Slot} :
    deriveMessageKey S (eval (mac S) root (chainPath d secrets p)) =
      eval (mac S) root (keyPath d secrets p) := by rw [keyPath, eval_concat]; rfl

theorem advanceChainKey_eval {d : Direction} {secrets : List (BytesN 32)} {e i : Nat} :
    advanceChainKey S (eval (mac S) root (chainPath d secrets ⟨e, i⟩)) =
      eval (mac S) root (chainPath d secrets ⟨e, i + 1⟩) := by rw [chainPath_succ, eval_concat]; rfl

/-! ## What a call does to the schedule -/

/-- A delivery consumes the key it finds, if it opens the envelope. -/
def openActs (S : Sodium) (r : Ratchet) (n : UInt32) (env : Envelope) : List Act :=
  if (r.openMessage S n env).2 = none then []
  else if r.skippedMessageKeys.lookup n = none then [.takeNext n] else [.takeCached n]

/-- A delivery installs chains, skips up to the number, and opens. -/
def decryptActs (S : Sodium) (r : Ratchet) (env : Envelope) : List Act :=
  match r.adoptSession env, parseHeader env.associatedData with
  | some r, some (n, pub) =>
    match r.dhBranch S pub with
    | .ok q =>
      (if r.DhTaken pub then (r.dhCompute S pub).toOption.toList.map .install else []) ++
        (List.replicate (n.toNat - q.recvMessageNumber.toNat) .skip ++
          openActs S (q.skipTo S n) n env)
    | .error _ => []
  | _, _ => []

def acts (S : Sodium) (r : Ratchet) : Op → List Act
  | .encrypt _ _ => [.send]
  | .decrypt env => decryptActs S r env
  | .ratchetStep pub => (r.dhCompute S pub).toOption.toList.map .install

def track (S : Sodium) (x : Ratchet × Schedule) (op : Op) : Ratchet × Schedule :=
  (x.1.apply S op, (acts S x.1 op).foldl act x.2)

/-! ## Every act is followed -/

theorem Tracks.init (h : root.length = 32) {r₀ : Ratchet} {sid : Bytes}
    (h₀ : r₀.skippedMessageKeys = ∅) (hi : r₀.initializeWith root sid = .ok r) :
    Tracks S root r {} := by
  rw [initializeWith_ok _ h] at hi
  cases hi
  refine ⟨.init, rfl, ?_, ?_, rfl, fun n => ?_⟩
  · show root = eval (mac S) root (chainPath .send [] ⟨0, 0⟩)
    rw [chainPath_zero]; rfl
  · show root = eval (mac S) root (chainPath .recv [] ⟨0, 0⟩)
    rw [chainPath_zero]; rfl
  · show r₀.skippedMessageKeys.lookup n = _
    rw [h₀]; rfl

/-- What is not a key or the receive counter does not matter. -/
theorem Tracks.congr {r' : Ratchet} (h : Tracks S root r σ) (hroot : r'.rootKey = r.rootKey)
    (hsend : r'.sendChainKey = r.sendChainKey) (hrecv : r'.recvChainKey = r.recvChainKey)
    (hn : r'.recvMessageNumber = r.recvMessageNumber)
    (hc : r'.skippedMessageKeys = r.skippedMessageKeys) : Tracks S root r' σ :=
  ⟨h.inv, hroot.trans h.rootKey, hsend.trans h.send, hrecv.trans h.recv, hn.trans h.number,
    fun n => hc ▸ h.cached n⟩

theorem Tracks.encrypt (h : Tracks S root r σ) (pt : Bytes) (draw : Draw) :
    Tracks S root (r.encryptEnvelope S pt draw).1 (σ.act .send) := by
  rw [encryptEnvelope_eq]
  refine ⟨h.inv.send, h.rootKey, ?_, h.recv, h.number, h.cached⟩
  show advanceChainKey S r.sendChainKey = _
  rw [h.send]
  exact advanceChainKey_eval

/-- **Installation** extends every path by the secret, and starts both chains. -/
theorem install_eval (hroot : root.length = 32) {secrets : List (BytesN 32)}
    (h : r.rootKey = eval (mac S) root (secrets.map Subtype.val)) (s : BytesN 32) (pub : Bytes) :
    (r.install S s.val pub).rootKey = eval (mac S) root ((secrets ++ [s]).map Subtype.val) ∧
      (r.install S s.val pub).sendChainKey =
        eval (mac S) root (chainPath .send (secrets ++ [s]) ⟨secrets.length + 1, 0⟩) ∧
      (r.install S s.val pub).recvChainKey =
        eval (mac S) root (chainPath .recv (secrets ++ [s]) ⟨secrets.length + 1, 0⟩) := by
  have hprk : hkdfExtract S r.rootKey s.val =
      eval (mac S) root (secrets.map Subtype.val ++ [s.val]) := by
    rw [hkdfExtract_salt S, eval_concat, ← h]
    · rfl
    · rw [h]; exact AEAD.ne_nil_of_length (eval_mac_length hroot _)
  have hexpand : ∀ d : Direction, hkdfExpand S 32 (hkdfExtract S r.rootKey s.val) d.info =
      eval (mac S) root (chainPath d (secrets ++ [s]) ⟨secrets.length + 1, 0⟩) := by
    intro d
    rw [chainPath_install, eval_concat, ← hprk, hkdfExpand_block]
    rfl
  refine ⟨?_, hexpand .send, hexpand .recv⟩
  rw [List.map_append]
  exact hprk

theorem Tracks.install (hroot : root.length = 32) (h : Tracks S root r σ) (s : BytesN 32)
    (pub : Bytes) : Tracks S root (r.install S s.val pub) (σ.act (.install s)) := by
  obtain ⟨hr, hsend, hrecv⟩ := install_eval hroot h.rootKey s pub
  have hlen : (σ.secrets ++ [s]).length = σ.secrets.length + 1 := List.length_append
  refine ⟨h.inv.install s, hr, ?_, ?_, rfl, fun n => ?_⟩
  · show _ = eval (mac S) root (chainPath .send (σ.secrets ++ [s]) ⟨(σ.secrets ++ [s]).length, 0⟩)
    rw [hsend, hlen]
  · show _ = eval (mac S) root (chainPath .recv (σ.secrets ++ [s]) ⟨(σ.secrets ++ [s]).length, 0⟩)
    rw [hrecv, hlen]
  · show r.skippedMessageKeys.lookup n = (σ.cached.lookup n).map fun p =>
      eval (mac S) root (keyPath .recv (σ.secrets ++ [s]) p)
    rw [h.cached]
    refine Option.map_congr fun p hp => ?_
    rw [keyPath_append [s] (h.inv.cached_before n p hp).epoch_le]

theorem Tracks.skip (h : Tracks S root r σ) : Tracks S root (r.skipOne S) (σ.act .skip) := by
  refine ⟨h.inv.skip, h.rootKey, h.send, ?_, congrArg (· + 1) h.number, fun n => ?_⟩
  · show advanceChainKey S r.recvChainKey = _
    rw [h.recv]
    exact advanceChainKey_eval
  · show (Table.emplace r.skippedMessageKeys r.recvMessageNumber _).lookup n =
      ((σ.cached.emplace σ.number σ.recvSlot).lookup n).map _
    rw [Table.lookup_emplace, Table.lookup_emplace, h.number, h.recv, deriveMessageKey_eval,
      h.cached σ.number, h.cached n]
    split
    · rcases σ.cached.lookup σ.number with _ | p <;> rfl
    · rfl

theorem Tracks.skipTo (h : Tracks S root r σ) (n : UInt32) :
    Tracks S root (r.skipTo S n)
      ((List.replicate (n.toNat - r.recvMessageNumber.toNat) Act.skip).foldl act σ) := by
  unfold Ratchet.skipTo
  generalize n.toNat - r.recvMessageNumber.toNat = k
  induction k generalizing r σ with
  | zero => exact h
  | succ k ih =>
    rw [Function.iterate_succ_apply, List.replicate_succ, List.foldl_cons]
    exact ih h.skip

theorem Tracks.takeCached (h : Tracks S root r σ) {n : UInt32} {key : Bytes}
    (hl : r.skippedMessageKeys.lookup n = some key) (a : AEAD) :
    Tracks S root { r with aead := a, skippedMessageKeys := r.skippedMessageKeys.erase n }
      (σ.act (.takeCached n)) := by
  have hinv := h.inv.takeCached n
  rw [h.cached] at hl
  rcases hp : σ.cached.lookup n with _ | p
  · rw [hp] at hl; cases hl
  simp only [act, hp] at hinv ⊢
  refine ⟨hinv, h.rootKey, h.send, h.recv, h.number, fun m => ?_⟩
  show (r.skippedMessageKeys.erase n).lookup m = ((σ.cached.erase n).lookup m).map _
  rw [Table.lookup_erase_eq, Table.lookup_erase_eq, h.cached]
  split <;> rfl

theorem Tracks.takeNext (h : Tracks S root r σ) (n : UInt32) (a : AEAD) :
    Tracks S root { r with
      aead := a, recvChainKey := advanceChainKey S r.recvChainKey, recvMessageNumber := n + 1 }
      (σ.act (.takeNext n)) := by
  refine ⟨h.inv.takeNext n, h.rootKey, h.send, ?_, rfl, h.cached⟩
  show advanceChainKey S r.recvChainKey = _
  rw [h.recv]
  exact advanceChainKey_eval

/-- **Opening** consumes the key of the slot it takes. -/
theorem Tracks.openMessage (h : Tracks S root r σ) (n : UInt32) (env : Envelope) :
    Tracks S root (r.openMessage S n env).1 ((openActs S r n env).foldl act σ) := by
  unfold openActs
  obtain ⟨a, he, -⟩ | ⟨key, pt, hl, -, he⟩ | ⟨pt, hl, -, he⟩ := r.openMessage_cases (S := S) n env
  · rw [he, if_pos rfl]
    exact h.congr rfl rfl rfl rfl rfl
  · rw [he, if_neg (Option.some_ne_none pt), if_neg (by rw [hl]; exact Option.some_ne_none key)]
    exact h.takeCached hl _
  · rw [he, if_neg (Option.some_ne_none pt), if_pos hl]
    exact h.takeNext n _

/-- **A delivery and its acts**: nothing, or chains are installed or not, then
slots are skipped, then the message is opened. -/
theorem Tracks.decrypt_cases (hroot : root.length = 32) (h : Tracks S root r σ) (env : Envelope) :
    ((r.decryptEnvelope S env).2 = none ∧ decryptActs S r env = [] ∧
      Tracks S root (r.decryptEnvelope S env).1 σ) ∨
    ∃ q n pre, r.decryptEnvelope S env = (q.skipTo S n).openMessage S n env ∧
      decryptActs S r env = pre ++ (List.replicate (n.toNat - q.recvMessageNumber.toNat) .skip ++
        openActs S (q.skipTo S n) n env) ∧
      (pre = [] ∨ ∃ s, pre = [.install s]) ∧ Tracks S root q (pre.foldl act σ) := by
  rcases r.decryptEnvelope_cases (S := S) env with
    ⟨ha, he⟩ | ⟨r1, ha, he, hexit⟩ | ⟨r1, n, pub, q, ha, hp, hd, he⟩
  · refine .inl ⟨by rw [he], by simp only [decryptActs, ha], ?_⟩
    rw [he]
    exact h
  · have hacts : decryptActs S r env = [] := by
      obtain hn | ⟨n, pub, e, hp, hd⟩ := hexit
      · simp only [decryptActs, ha, hn]
      · simp only [decryptActs, ha, hp, hd]
    refine .inl ⟨by rw [he], hacts, ?_⟩
    rw [he, adoptSession_cases ha]
    exact h.congr rfl rfl rfl rfl rfl
  · have h1 : Tracks S root r1 σ := by
      rw [adoptSession_cases ha]; exact h.congr rfl rfl rfl rfl rfl
    obtain ⟨s, ht, hs, rfl⟩ | ⟨ht, rfl⟩ := dhBranch_cases hd
    · refine .inr ⟨_, n, [.install s], he, ?_, .inr ⟨s, rfl⟩, h1.install hroot s pub⟩
      simp only [decryptActs, ha, hp, hd, if_pos ht, hs]
      rfl
    · refine .inr ⟨_, n, [], he, ?_, .inl rfl, h1.congr rfl rfl rfl rfl rfl⟩
      simp only [decryptActs, ha, hp, hd, if_neg ht]

theorem Tracks.decrypt (hroot : root.length = 32) (h : Tracks S root r σ) (env : Envelope) :
    Tracks S root (r.decryptEnvelope S env).1 ((decryptActs S r env).foldl act σ) := by
  obtain ⟨-, ha, ht⟩ | ⟨q, n, pre, he, ha, -, ht⟩ := h.decrypt_cases hroot env
  · rw [ha]; exact ht
  · rw [he, ha, List.foldl_append, List.foldl_append]
    exact (ht.skipTo n).openMessage n env

theorem acts_ratchetStep_cases (S : Sodium) (r : Ratchet) (pub : Bytes) :
    (r.apply S (.ratchetStep pub) = r ∧ acts S r (.ratchetStep pub) = []) ∨
      ∃ s, r.apply S (.ratchetStep pub) = { r.install S s.val pub with sendMessageNumber := 0 } ∧
        acts S r (.ratchetStep pub) = [.install s] := by
  rcases hd : r.dhCompute S pub with e | s
  · refine .inl ⟨?_, by simp [acts, hd, Except.toOption]⟩
    rcases hs : r.ratchetStep S pub with e | r'
    · simp only [apply, hs]
    · obtain ⟨s, hs', -⟩ := ratchetStep_ok_iff.mp hs
      rw [hd] at hs'; cases hs'
  · refine .inr ⟨s, ?_, by simp [acts, hd, Except.toOption]⟩
    simp only [apply, ratchetStep_ok_iff.mpr ⟨s, hd, rfl⟩]

theorem Tracks.ratchetStep (hroot : root.length = 32) (h : Tracks S root r σ) (pub : Bytes) :
    Tracks S root (r.apply S (.ratchetStep pub)) ((acts S r (.ratchetStep pub)).foldl act σ) := by
  obtain ⟨he, ha⟩ | ⟨s, he, ha⟩ := acts_ratchetStep_cases S r pub
  · rw [he, ha]; exact h
  · rw [he, ha]; exact (h.install hroot s pub).congr rfl rfl rfl rfl rfl

/-- **Every call keeps the object on its schedule.** -/
theorem Tracks.track (hroot : root.length = 32) (h : Tracks S root r σ) (op : Op) :
    Tracks S root (track S (r, σ) op).1 (track S (r, σ) op).2 := by
  cases op with
  | encrypt pt draw => exact h.encrypt pt draw
  | decrypt env => exact h.decrypt hroot env
  | ratchetStep pub => exact h.ratchetStep hroot pub

theorem Tracks.run (hroot : root.length = 32) {x : Ratchet × Schedule}
    (h : Tracks S root x.1 x.2) (ops : List Op) :
    Tracks S root (ops.foldl (Ratchet.track S) x).1 (ops.foldl (Ratchet.track S) x).2 :=
  List.foldlRecOn (motive := fun x => Tracks S root x.1 x.2) ops (Ratchet.track S) h
    fun _ h op _ => h.track hroot op

end SecureComm.Ratchet
