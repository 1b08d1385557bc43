import SecureComm.Ratchet.Delivery
import SecureComm.X3dh.Agreement

/-!
# Sessions from a handshake

Each side initialises a ratchet with the root and the session id of its own
handshake envelope. The two roots are the same, but each call draws a session
id for itself, and a ratchet refuses every envelope of another session: the two
ends can talk if and only if the draws happen to be equal
(`usable_iff_same_draw`).
-/

namespace SecureComm

namespace X3dh

open Ratchet Conversation

/-- A ratchet on each side, initialised with the side's handshake envelope. -/
def Initialised (S : Sodium) (env : Side → Envelope) (priv : Side → BytesN 32)
    (r : Side → Ratchet) : Prop :=
  ∀ s, (new S (priv s)).initializeWith (env s).ciphertext (env s).sessionId = .ok (r s)

/-- **A usable session**: the two ratchets are there, and whatever they send each
other, in whatever order it arrives, a message that is handed over for the
first time opens to its plaintext. -/
def Usable (S : Sodium) (env : Side → Envelope) : Prop :=
  ∀ priv, ∃ r, Initialised S env priv r ∧ ∀ es : List Event,
    Run.Along (step S) Allowed (fun s => { ratchet := r s }) es →
      let c := es.foldl (step S) fun s => { ratchet := r s }
      ∀ side i pt e, (c side.peer).sent[i]? = some (pt, e) → i ∉ (c side).taken →
        ((c side).ratchet.decryptEnvelope S e).2 = some pt

def ends (env env' : Envelope) : Side → Envelope
  | .alice => env
  | .bob => env'

variable {S : Sodium}

theorem usable_of_same (hS : S.AeadOpens) {env : Side → Envelope} {root sid : Bytes}
    (hroot : root.length = 32) (hsid : sid ≠ [])
    (henv : ∀ s, (env s).ciphertext = root ∧ (env s).sessionId = sid) : Usable S env := by
  intro priv
  have hinit : ∀ s, ∃ r, (new S (priv s)).initializeWith root sid = .ok r :=
    fun s => ⟨_, initializeWith_ok _ hroot sid⟩
  choose r hr using hinit
  refine ⟨r, fun s => ?_, fun es hg side i pt e hi hna => ?_⟩
  · rw [(henv s).1, (henv s).2]
    exact hr s
  · exact ((inv_of_along hS hroot hsid hr hg).deliver hS hi hna).1

theorem Usable.same_session (hS : S.AeadIdeal) {env : Side → Envelope} (h : Usable S env)
    (hroot : ∀ s, (env s).ciphertext.length = 32) (hsid : ∀ s, (env s).sessionId ≠ []) :
    (env .alice).sessionId = (env .bob).sessionId ∧
      deriveMessageKey S (env .alice).ciphertext = deriveMessageKey S (env .bob).ciphertext := by
  obtain ⟨r, hr, hopen⟩ := h fun _ => Sodium.Sample.block 0
  have hstart : EndInv S (env .alice).ciphertext (env .alice).sessionId _ (Sodium.Sample.block 0)
      ({ ratchet := r .alice } : End) := .start (hroot .alice) (hr .alice)
  obtain ⟨q, e, he, hend⟩ := hstart.send (hsid .alice) (by show 0 + 1 < 2 ^ 32; decide) []
    sampleDraw
  have hseal := hend.outbound.sealed 0 [] e rfl
  -- Alice sends one message, and Bob has been handed none
  let c : Conversation := fun s => { ratchet := r s }
  let c' : Conversation := c.step S (.send .alice [] sampleDraw)
  have hsent : (c' .alice).sent = [([], e)] := by
    simp only [c', c, step, he, Function.update_self, List.nil_append]
  have hbob : c' .bob = { ratchet := r .bob } := by
    simp only [c', c, step, he]
    exact Function.update_of_ne (by decide) ..
  have hd : ((c' .bob).ratchet.decryptEnvelope S e).2 = some [] :=
    hopen [.send .alice [] sampleDraw] ⟨by show 0 + 1 < 2 ^ 32; decide, trivial⟩ .bob 0 [] e
      (by show (c' .alice).sent[0]? = _; rw [hsent]; rfl)
      (by show 0 ∉ (c' .bob).taken; rw [hbob]; exact List.not_mem_nil)
  rw [hbob] at hd
  exact first_message_own hS (hroot .bob) (hsid .bob) (hr .bob) q.dhPublicKey.property hseal hd

/-- HMAC of `m` tells two keys apart. -/
def TellsApart (S : Sodium) (m k k' : Bytes) : Prop := S.hmac k m = S.hmac k' m → k = k'

/-- **A usable session is a coincidence**: with matching keys, both calls
succeed, and the session they hand over is usable if and only if they drew the
same session id and found the same bytes behind the label. -/
theorem usable_iff_same_draw (hS : S.AeadIdeal) (h : Handshake S) (hx : h.Exchanged)
    (hk : h.SamePrekey) (around around' : Surroundings)
    (hroot : ∀ x, h.initiatorInput = .ok x → TellsApart S x around.rootKey around'.rootKey)
    (hfirst : ∀ env env', h.initiate around = .ok env → h.respond around' = .ok env' →
      TellsApart S msgLabel env.ciphertext env'.ciphertext) :
    ∃ env env', h.initiate around = .ok env ∧ h.respond around' = .ok env' ∧
      (Usable S (ends env env') ↔
        around.sessionId = around'.sessionId ∧ around.pastLabel = around'.pastLabel) := by
  have hlast := Handshake.last_eq_of_same hk
  refine ⟨_, _, Handshake.initiate_ok hx around, Handshake.respond_ok hx around', ?_⟩
  have hne : ∀ k : BytesN 16, k.val ≠ [] := fun k => AEAD.ne_nil_of_length k.property
  constructor
  · intro hu
    obtain ⟨hsid, hkey⟩ := hu.same_session hS
      (fun s => by cases s <;> exact (S.hmac _ _).property)
      (fun s => by cases s <;> exact hne _)
    refine ⟨Subtype.ext hsid, ?_⟩
    have hroots := hfirst _ _ (Handshake.initiate_ok hx around) (Handshake.respond_ok hx around')
      (Subtype.ext hkey)
    have hlabels := hroot _ (Handshake.initiatorInput_ok hx)
      (Subtype.ext (hroots.trans (by rw [hlast]; rfl)))
    exact Subtype.ext (List.append_cancel_left hlabels)
  · rintro ⟨hsid, hpast⟩
    refine usable_of_same hS.opens (S.hmac around.rootKey (h.common ++ h.last h.offered)).property
      (hne around.sessionId) fun s => ?_
    cases s with
    | alice => exact ⟨rfl, rfl⟩
    | bob =>
      have hkey : around.rootKey = around'.rootKey := by
        rw [Surroundings.rootKey, Surroundings.rootKey, hpast]
      have hroots := Handshake.roots_eq hk hkey
      exact ⟨congrArg Subtype.val hroots.symm, congrArg Subtype.val hsid.symm⟩

open Handshake (sample sample_exchanged sample_samePrekey sampleSurroundings
  sampleSurroundings_rootKey)

theorem usable_iff_same_draw_sample :
    ∃ env env', sample.initiate (sampleSurroundings 0) = .ok env ∧
      sample.respond (sampleSurroundings 1) = .ok env' ∧
      (Usable Sodium.sample (ends env env') ↔
        (sampleSurroundings 0).sessionId = (sampleSurroundings 1).sessionId ∧
        (sampleSurroundings 0).pastLabel = (sampleSurroundings 1).pastLabel) := by
  refine usable_iff_same_draw Sodium.sample_ideal sample sample_exchanged sample_samePrekey _ _
    (fun _ _ _ => rfl) fun env env' he he' _ => ?_
  rw [Handshake.initiate_ok sample_exchanged] at he
  rw [Handshake.respond_ok sample_exchanged] at he'
  cases he
  cases he'
  exact congrArg Subtype.val (Handshake.roots_eq sample_samePrekey (sampleSurroundings_rootKey 0 1))

/-- Both handshakes succeed with one root, and what Alice sends Bob cannot open. -/
theorem session_ids_differ :
    ∃ env env', sample.initiate (sampleSurroundings 0) = .ok env ∧
      sample.respond (sampleSurroundings 1) = .ok env' ∧ env.ciphertext = env'.ciphertext ∧
      ¬ Usable Sodium.sample (ends env env') := by
  refine ⟨_, _, Handshake.initiate_ok sample_exchanged _, Handshake.respond_ok sample_exchanged _,
    congrArg Subtype.val (Handshake.roots_eq sample_samePrekey (sampleSurroundings_rootKey 0 1)),
    fun hu => ?_⟩
  obtain ⟨hsid, -⟩ := hu.same_session Sodium.sample_ideal
    (fun s => by cases s <;> exact (Sodium.sample.hmac _ _).property)
    (fun s => by cases s <;> exact List.cons_ne_nil _ _)
  exact absurd hsid (by decide)

end X3dh

end SecureComm
