import Mathlib.Logic.Function.Basic
import SecureComm.Dispatcher.Spec
import SecureComm.Ratchet.Delivery

/-!
# Delivery between dispatchers

Any number of dispatchers, each registered under its own id and with its
sessions created, send each other messages; the network hands every frame over
at most once, in any order. Of each pair that has created a session with one
root key, the two ratchets are the ends of a conversation, so every frame opens
at the session of its sender, and no other session is touched.
-/

namespace SecureComm

/-- The dispatchers, what `i` has sent for `j` at `(i, j)`, each frame with its
plaintext, and the positions in that list that `j` was handed. -/
structure Network (ι : Type) where
  node : ι → Dispatcher
  sent : ι × ι → List (Bytes × Bytes) := fun _ => []
  taken : ι × ι → List Nat := fun _ => []

namespace Network

open Function Dispatcher Ratchet Conversation

variable {ι : Type}

inductive Event (ι : Type) where
  | send (i j : ι) (plaintext : Bytes) (draw : Draw)
  | deliver (i j : ι) (k : Nat)

def start (S : Sodium) (ids : ι → Bytes) (mls : ι → MLSManager) (calls : ι → List Peering) :
    Network ι where
  node i := setUp S (mls i) (ids i) (calls i)

/-- `create_session_with` was called for the device, always with one root key. -/
def Created (calls : List Peering) (remote root : Bytes) : Prop :=
  (∃ p ∈ calls, p.remote = remote) ∧ ∀ p ∈ calls, p.remote = remote → p.rootKey = root

structure Peered (ids : ι → Bytes) (calls : ι → List Peering) (root : Bytes) (i j : ι) : Prop where
  ne : i ≠ j
  length : root.length = 32
  there : Created (calls i) (ids j) root
  back : Created (calls j) (ids i) root

variable {S : Sodium} {ids : ι → Bytes} {mls : ι → MLSManager} {calls : ι → List Peering}

theorem Peered.symm {root : Bytes} {i j : ι} (h : Peered ids calls root i j) :
    Peered ids calls root j i := ⟨h.ne.symm, h.length, h.back, h.there⟩

theorem Peered.root_unique {root root' : Bytes} {i j : ι} (h : Peered ids calls root i j)
    (h' : Peered ids calls root' i j) : root' = root := by
  obtain ⟨p, hp, hr⟩ := h.there.1
  rw [← h.there.2 p hp hr, h'.there.2 p hp hr]

theorem setUp_frame (m : MLSManager) (id : Bytes) (calls : List Peering) :
    (setUp S m id calls).deviceId = id ∧ (setUp S m id calls).onInbound = true ∧
      (setUp S m id calls).mls = m := foldl_create_frame calls _

theorem setUp_ready (m : MLSManager) {i j : ι} {root : Bytes} (hp : Peered ids calls root i j) :
    (setUp S m (ids i) (calls i)).Ready S (ids j) root :=
  foldl_create_ready hp.length hp.there.2 (.inr ⟨rfl, hp.there.1⟩)

/-! ## Runs -/

/-- `i` sends `j` a message, or `j` is handed frame `k` of those `i` has sent it. -/
def step [DecidableEq ι] (S : Sodium) (ids : ι → Bytes) (net : Network ι) :
    Event ι → Network ι
  | .send i j plaintext draw =>
    match (net.node i).sendMessageToDevice S (ids j) plaintext draw with
    | (d, .ok frame) =>
      { net with
        node := update net.node i d
        sent := update net.sent (i, j) (net.sent (i, j) ++ [(plaintext, frame)]) }
    | (d, .error _) => { net with node := update net.node i d }
  | .deliver i j k =>
    match (net.sent (i, j))[k]? with
    | some (_, frame) =>
      { net with
        node := update net.node j ((net.node j).onRawMessage S frame).1
        taken := update net.taken (i, j) (k :: net.taken (i, j)) }
    | none => net

/-- Messages are between devices that have a session and have fields that fit,
and a frame is handed over once at most. -/
def Genuine (S : Sodium) (ids : ι → Bytes) (calls : ι → List Peering) (net : Network ι) :
    Event ι → Prop
  | .send i j plaintext draw => (∃ root, Peered ids calls root i j) ∧
      ∀ s env, (net.node i).sessions.lookup (ids j) = some s →
        (s.ratchet.encryptEnvelope S plaintext draw).2 = .ok env →
        ({ env with senderDeviceId := ids i } : Envelope).Fits
  | .deliver i j k => k < (net.sent (i, j)).length ∧ k ∉ net.taken (i, j)

/-- Fewer than 2^32 messages from one device to another. -/
def Numbered (net : Network ι) : Event ι → Prop
  | .send i j _ _ => (net.sent (i, j)).length + 1 < 2 ^ 32
  | .deliver _ _ _ => True

/-! ## The invariant -/

variable {pub : ι → ι → BytesN 32} {net : Network ι} {envs : ι × ι → List (Bytes × Envelope)}

def frameBy (ids : ι → Bytes) (i : ι) (m : Bytes × Envelope) : Bytes × Bytes :=
  (m.1, serializeEnvelope { m.2 with senderDeviceId := ids i })

/-- The session of `i` with `j` is one end of a conversation: `envs (i, j)` are
the messages it has produced. -/
def IsEnd (S : Sodium) (ids : ι → Bytes) (pub : ι → ι → BytesN 32) (net : Network ι)
    (envs : ι × ι → List (Bytes × Envelope)) (root : Bytes) (i j : ι) : Prop :=
  ∃ r, (net.node i).sessions.lookup (ids j) = some { ratchet := r, initialized := true } ∧
    EndInv S root (sessionIdFor S (ids i) (ids j) root) (pub i j) (pub j i)
      { ratchet := r, sent := envs (i, j), taken := net.taken (j, i) }

structure Inv (S : Sodium) (ids : ι → Bytes) (mls : ι → MLSManager) (calls : ι → List Peering)
    (pub : ι → ι → BytesN 32) (net : Network ι) (envs : ι × ι → List (Bytes × Envelope)) :
    Prop where
  device : ∀ i, (net.node i).deviceId = ids i ∧ (net.node i).onInbound = true ∧
    (net.node i).mls = mls i
  sent_eq : ∀ p, net.sent p = (envs p).map (frameBy ids p.1)
  fits : ∀ p, ∀ m ∈ envs p, ({ m.2 with senderDeviceId := ids p.1 } : Envelope).Fits
  ends : ∀ i j root, Peered ids calls root i j → IsEnd S ids pub net envs root i j
  silent : ∀ i j, envs (i, j) = [] ∨ ∃ root, Peered ids calls root i j
  taken_lt : ∀ p, ∀ k ∈ net.taken p, k < (envs p).length

/-- **Set-up establishes the invariant.** -/
theorem start_inv (S : Sodium) (ids : ι → Bytes) (mls : ι → MLSManager) (calls : ι → List Peering) :
    ∃ pub, Inv S ids mls calls pub (start S ids mls calls) fun _ => [] := by
  have hready : ∀ i j, ∃ priv, ∀ root, Peered ids calls root i j → ∃ r,
      (setUp S (mls i) (ids i) (calls i)).sessions.lookup (ids j) =
        some { ratchet := r, initialized := true } ∧
      (new S priv).initializeWith root (sessionIdFor S (ids i) (ids j) root) = .ok r := by
    intro i j
    by_cases hp : ∃ root, Peered ids calls root i j
    · obtain ⟨root, hp⟩ := hp
      obtain ⟨priv, r, hl, hr⟩ := setUp_ready (S := S) (mls i) hp
      rw [(setUp_frame (mls i) (ids i) (calls i)).1] at hr
      refine ⟨priv, fun root' hp' => ?_⟩
      cases hp.root_unique hp'
      exact ⟨r, hl, hr⟩
    · exact ⟨S.hmac [] [], fun root hp' => absurd ⟨root, hp'⟩ hp⟩
  choose priv hready using hready
  refine ⟨fun i j => S.scalarmultBase (priv i j), ⟨fun i => setUp_frame _ _ _, fun p => rfl,
    fun p m hm => absurd hm List.not_mem_nil, fun i j root hp => ?_, fun i j => .inl rfl,
    fun p k hk => absurd hk List.not_mem_nil⟩⟩
  obtain ⟨r, hl, hr⟩ := hready i j root hp
  exact ⟨r, hl, EndInv.start hp.length hr⟩

/-! ## One step -/

variable [DecidableEq ι]

/-- What one step replaces: the session of `i` with `j`, what it has produced
and what it was handed. -/
def setEnd (ids : ι → Bytes) (net : Network ι) (i j : ι) (r : Ratchet)
    (sent : List (Bytes × Envelope)) (taken : List Nat) : Network ι where
  node := update net.node i { net.node i with
    sessions := (net.node i).sessions.insert (ids j) { ratchet := r, initialized := true } }
  sent := update net.sent (i, j) (sent.map (frameBy ids i))
  taken := update net.taken (j, i) taken

theorem setEnd_lookup_ne (hids : Injective ids) {i j a b : ι} (hab : (a, b) ≠ (i, j)) (r : Ratchet)
    (sent : List (Bytes × Envelope)) (taken : List Nat) :
    ((setEnd ids net i j r sent taken).node a).sessions.lookup (ids b) =
      (net.node a).sessions.lookup (ids b) := by
  by_cases ha : a = i
  · subst ha
    have hb : b ≠ j := fun hb => hab (hb ▸ rfl)
    simp only [setEnd, update_self]
    exact AList.lookup_insert_ne fun h => hb (hids h)
  · simp only [setEnd, update_of_ne ha]

/-- **Frame**: an end that goes on takes the network with it; the sessions of
every other pair are as they were. -/
theorem Inv.setEnd (h : Inv S ids mls calls pub net envs) (hids : Injective ids) {i j : ι}
    {root : Bytes} (hp : Peered ids calls root i j) {e : End}
    (he : EndInv S root (sessionIdFor S (ids i) (ids j) root) (pub i j) (pub j i) e)
    (hlen : (envs (i, j)).length ≤ e.sent.length)
    (hfits : ∀ m ∈ e.sent, ({ m.2 with senderDeviceId := ids i } : Envelope).Fits)
    (htaken : ∀ k ∈ e.taken, k < (envs (j, i)).length) :
    Inv S ids mls calls pub (net.setEnd ids i j e.ratchet e.sent e.taken)
      (update envs (i, j) e.sent) := by
  have hji : (j, i) ≠ (i, j) := fun hc => hp.ne (Prod.mk.inj hc).2
  refine ⟨?_, fun p => ?_, ?_, fun a b root' hp' => ?_, fun a b => ?_, fun p => ?_⟩
  · exact (forall_update_iff net.node fun a d =>
      d.deviceId = ids a ∧ d.onInbound = true ∧ d.mls = mls a).mpr
        ⟨h.device i, fun a _ => h.device a⟩
  · by_cases hpe : p = (i, j)
    · subst hpe
      simp only [Network.setEnd, update_self]
    · simp only [Network.setEnd, update_of_ne hpe]
      exact h.sent_eq p
  · exact (forall_update_iff envs fun p l =>
      ∀ m ∈ l, ({ m.2 with senderDeviceId := ids p.1 } : Envelope).Fits).mpr
        ⟨hfits, fun p _ => h.fits p⟩
  · by_cases hpe : (a, b) = (i, j)
    · cases hpe
      cases hp.root_unique hp'
      refine ⟨e.ratchet, ?_, ?_⟩
      · simp only [Network.setEnd, update_self]
        exact AList.lookup_insert _
      · simp only [Network.setEnd, update_self]
        exact he
    · obtain ⟨r, hl, hr⟩ := h.ends a b root' hp'
      have hpe' : (b, a) ≠ (j, i) := fun hc => hpe (by cases hc; rfl)
      refine ⟨r, (setEnd_lookup_ne hids hpe _ _ _).trans hl, ?_⟩
      simp only [Network.setEnd, update_of_ne hpe, update_of_ne hpe']
      exact hr
  · by_cases hpe : (a, b) = (i, j)
    · cases hpe
      exact .inr ⟨root, hp⟩
    · rw [update_of_ne hpe]
      exact h.silent a b
  · have hmono : (envs p).length ≤ (update envs (i, j) e.sent p).length := by
      by_cases hpe : p = (i, j)
      · subst hpe
        rw [update_self]
        exact hlen
      · rw [update_of_ne hpe]
    by_cases hpe : p = (j, i)
    · subst hpe
      simp only [Network.setEnd, update_self, update_of_ne hji]
      exact htaken
    · simp only [Network.setEnd, update_of_ne hpe]
      exact fun k hk => Nat.lt_of_lt_of_le (h.taken_lt p k hk) hmono

theorem Inv.send (hids : Injective ids) (h : Inv S ids mls calls pub net envs) {i j : ι} {pt : Bytes}
    {draw : Draw} (hg : Genuine S ids calls net (.send i j pt draw))
    (hn : (net.sent (i, j)).length + 1 < 2 ^ 32) :
    ∃ envs', Inv S ids mls calls pub (net.step S ids (.send i j pt draw)) envs' := by
  obtain ⟨⟨root, hp⟩, hfits⟩ := hg
  obtain ⟨r, hl, hr⟩ := h.ends i j root hp
  rw [h.sent_eq, List.length_map] at hn
  obtain ⟨r', env, he, hend⟩ := hr.send (sessionIdFor_ne_nil _ _ _) hn pt draw
  have hfit := hfits _ env hl (congrArg Prod.snd he)
  have hnet : net.step S ids (.send i j pt draw) =
      net.setEnd ids i j r' (envs (i, j) ++ [(pt, env)]) (net.taken (j, i)) := by
    simp only [step, sendMessageToDevice_ok hl he, Network.setEnd, update_eq_self, h.sent_eq,
      List.map_append, List.map_cons, List.map_nil, frameBy, (h.device i).1]
  refine ⟨_, hnet ▸ h.setEnd hids hp hend ?_ ?_ (h.taken_lt (j, i))⟩
  · rw [List.length_append]
    exact Nat.le_add_right _ _
  · intro m hm
    obtain hm | hm := List.mem_append.mp hm
    · exact h.fits (i, j) m hm
    · obtain rfl := List.mem_singleton.mp hm
      exact hfit

/-- **Handing over**: the frame opens at the session of its sender, the
plaintext goes to the callback, and the invariant goes on. -/
theorem Inv.deliver (hS : S.AeadOpens) (hids : Injective ids)
    (hgroup : ∀ i j root, Peered ids calls root i j →
      (mls j).getGroupEpoch (sessionIdFor S (ids i) (ids j) root) = 0)
    (h : Inv S ids mls calls pub net envs) {i j : ι} {k : Nat} {pt frame : Bytes}
    (hk : (net.sent (i, j))[k]? = some (pt, frame)) (hna : k ∉ net.taken (i, j)) :
    (∃ env r, deserializeEnvelope frame = some env ∧ env.senderDeviceId = ids i ∧
      (net.node j).onRawMessage S frame =
        ({ net.node j with
            sessions := (net.node j).sessions.insert (ids i) { ratchet := r, initialized := true } },
          [{ env with ciphertext := pt }])) ∧
      Inv S ids mls calls pub (net.step S ids (.deliver i j k)) envs := by
  -- the envelope behind the frame, and the two ends
  have hk' := hk
  rw [h.sent_eq, List.getElem?_map] at hk'
  obtain ⟨⟨_, env⟩, henv, hframe⟩ := Option.map_eq_some_iff.mp hk'
  obtain ⟨rfl, rfl⟩ := Prod.mk.inj hframe.symm
  have hmem : (pt, env) ∈ envs (i, j) := List.mem_of_getElem? henv
  obtain hs | ⟨root, hp⟩ := h.silent i j
  · rw [hs] at hmem
    cases hmem
  obtain ⟨r, hl, hr⟩ := h.ends j i root hp.symm
  obtain ⟨rs, -, hrs⟩ := h.ends i j root hp
  rw [sessionIdFor_comm fun hc => hp.ne (hids hc)] at hrs
  have hfits : ({ env with senderDeviceId := ids i } : Envelope).Fits := h.fits (i, j) _ hmem
  obtain ⟨r', he, hend⟩ := hr.deliver hS hrs (h.taken_lt (i, j)) henv hna
  -- what is read back differs from it in nothing that is decrypted
  have hsid : env.sessionId = sessionIdFor S (ids i) (ids j) root := by
    rw [sessionIdFor_comm fun hc => hp.ne (hids hc)]
    exact (hrs.outbound.sealed k pt env henv).session
  obtain ⟨-, hin, hmls⟩ := h.device j
  have hg : (net.node j).mls.getGroupEpoch env.sessionId = 0 := by
    rw [hmls, hsid]
    exact hgroup i j root hp
  have hraw := onRawMessage_direct (S := S) hin (deserialize_serialize hfits) hg hl he
  refine ⟨⟨_, r', deserialize_serialize hfits, rfl, hraw⟩, ?_⟩
  have hnet : net.step S ids (.deliver i j k) =
      net.setEnd ids j i r' (envs (j, i)) (k :: net.taken (i, j)) := by
    have hsame : update net.sent (j, i) ((envs (j, i)).map (frameBy ids j)) = net.sent := by
      rw [← h.sent_eq (j, i), update_eq_self]
    simp only [step, hk, Network.setEnd, hsame]
    rw [hraw]
    rfl
  have hinv := h.setEnd hids hp.symm hend (Nat.le_refl _) (h.fits (j, i)) ?_
  · rw [update_eq_self] at hinv
    rw [hnet]
    exact hinv
  · intro k' hk'
    obtain rfl | hk' := List.mem_cons.mp hk'
    · exact (List.getElem?_eq_some_iff.mp henv).1
    · exact h.taken_lt (i, j) k' hk'

theorem step_deliver_sent (net : Network ι) (i j : ι) (k : Nat) :
    (net.step S ids (.deliver i j k)).sent = net.sent := by
  simp only [step]
  split <;> rfl

theorem not_mem_taken_deliver {i j : ι} {k k' : Nat} (hne : k' ≠ k) (h : k' ∉ net.taken (i, j)) :
    k' ∉ (net.step S ids (.deliver i j k)).taken (i, j) := by
  simp only [step]
  split
  · simp only [update_self, List.mem_cons, not_or]
    exact ⟨hne, h⟩
  · exact h

theorem Inv.step (hS : S.AeadOpens) (hids : Injective ids)
    (hgroup : ∀ i j root, Peered ids calls root i j →
      (mls j).getGroupEpoch (sessionIdFor S (ids i) (ids j) root) = 0) {e : Event ι}
    (hg : Genuine S ids calls net e) (hn : Numbered net e)
    (h : Inv S ids mls calls pub net envs) :
    ∃ envs', Inv S ids mls calls pub (net.step S ids e) envs' := by
  cases e with
  | send i j pt draw => exact h.send hids hg hn
  | deliver i j k =>
    have hk : (net.sent (i, j))[k]? = some (_, _) := List.getElem?_eq_getElem hg.1
    exact ⟨envs, (h.deliver hS hids hgroup hk hg.2).2⟩

/-! ## A concrete network -/

def sampleIds : Side → Bytes
  | .alice => octets ['a']
  | .bob => octets ['b']

def sampleRoot : BytesN 32 := Sodium.Sample.block 7

def sampleCalls (s : Side) : List Peering :=
  [⟨sampleIds s.peer, sampleRoot.val, Sodium.Sample.block s.seed⟩]

def sampleStart : Network Side := start Sodium.sample sampleIds (fun _ => {}) sampleCalls

def samplePlaintext : Bytes := octets ['h', 'i']

def sampleSend : Event Side := .send .alice .bob samplePlaintext sampleDraw

def sampleSid : Bytes :=
  sessionIdFor Sodium.sample (sampleIds .alice) (sampleIds .bob) sampleRoot.val

theorem sampleSid_ne_nil : sampleSid ≠ [] := sessionIdFor_ne_nil _ _ _

theorem sampleIds_injective : Injective sampleIds := by
  intro a b h
  cases a <;> cases b <;> first | rfl | exact absurd h (by decide)

theorem sample_created (s : Side) : Created (sampleCalls s) (sampleIds s.peer) sampleRoot.val :=
  ⟨⟨_, List.mem_singleton_self _, rfl⟩, fun p hp _ => by rw [List.mem_singleton.mp hp]⟩

theorem sample_peered : Peered sampleIds sampleCalls sampleRoot.val .alice .bob :=
  ⟨Side.peer_ne .bob, sampleRoot.property, sample_created .alice, sample_created .bob⟩

/-- Alice has sent bob `n` messages, and bob has not been handed any. -/
structure Sending (n : Nat) (net : Network Side) : Prop where
  device : (net.node .alice).deviceId = sampleIds .alice
  session : ∃ r, (net.node .alice).sessions.lookup (sampleIds .bob) =
      some { ratchet := r, initialized := true } ∧ r.sessionId = sampleSid ∧
    r.sendChainKey = chainKey Sodium.sample sampleRoot.val n ∧ r.sendMessageNumber = UInt32.ofNat n
  peer : net.node .bob = sampleStart.node .bob
  sent : (net.sent (.alice, .bob)).length = n
  taken : net.taken = fun _ => []

structure SampleSealed (n : Nat) (env : Envelope) : Prop where
  session : env.sessionId = sampleSid
  sender : env.senderDeviceId = sampleIds .alice
  header : ∃ pub : BytesN 32, env.associatedData = pushU32Be [] (UInt32.ofNat n) ++ pub.val
  ciphertext : env.ciphertext = sampleDraw.nonce.val ++ Sodium.sample.aeadEncrypt
    (deriveMessageKey Sodium.sample (chainKey Sodium.sample sampleRoot.val n))
    sampleDraw.nonce.val env.associatedData samplePlaintext

theorem SampleSealed.fits {n : Nat} {env : Envelope} (h : SampleSealed n env) : env.Fits := by
  obtain ⟨pub, hpub⟩ := h.header
  have hhead : env.associatedData.length = 36 := by
    rw [hpub, List.length_append, pub.property]
    rfl
  refine ⟨?_, ?_, ?_, ?_⟩
  · have hle : sampleSid.length ≤ 16 := List.length_take_le _ _
    rw [h.session]
    omega
  · rw [h.sender]
    decide
  · omega
  · have hn := sampleDraw.nonce.property
    have hp : samplePlaintext.length = 2 := rfl
    rw [h.ciphertext]
    simp only [Sodium.sample, Sodium.Sample.label, zeros, List.length_append, List.length_replicate,
      Sodium.Sample.frame_length, deriveMessageKey_length, hn, hhead, hp]
    omega

theorem sending_start : Sending 0 sampleStart where
  device := (setUp_frame _ _ _).1
  session := by
    obtain ⟨key, r, hl, hr⟩ := setUp_ready (S := Sodium.sample) {} sample_peered
    rw [initializeWith_ok _ sampleRoot.property] at hr
    obtain rfl := Except.ok.inj hr
    exact ⟨_, hl, rfl, rfl, rfl⟩
  peer := rfl
  sent := rfl
  taken := rfl

theorem sample_encrypt {n : Nat} {r : Ratchet} (hsid : r.sessionId = sampleSid)
    (hck : r.sendChainKey = chainKey Sodium.sample sampleRoot.val n)
    (hnum : r.sendMessageNumber = UInt32.ofNat n) :
    ∃ r' env, r.encryptEnvelope Sodium.sample samplePlaintext sampleDraw = (r', .ok env) ∧
      (r'.sessionId = sampleSid ∧
        r'.sendChainKey = chainKey Sodium.sample sampleRoot.val (n + 1) ∧
        r'.sendMessageNumber = UInt32.ofNat (n + 1)) ∧
      SampleSealed n { env with senderDeviceId := sampleIds .alice } := by
  have hs : r.sendSession sampleDraw = sampleSid := by
    rw [sendSession, hsid, if_neg sampleSid_ne_nil]
  refine ⟨_, _, encryptEnvelope_eq r samplePlaintext sampleDraw, ⟨hs, ?_, ?_⟩, hs, rfl,
    ⟨r.dhPublicKey, ?_⟩, ?_⟩
  · rw [chainKey_succ, ← hck]
  · rw [hnum, UInt32.ofNat_add]
    rfl
  · rw [← hnum]
    rfl
  · rw [← hck]

theorem Sending.send {n : Nat} {net : Network Side} (h : Sending n net) :
    Genuine Sodium.sample sampleIds sampleCalls net sampleSend ∧
      Sending (n + 1) (net.step Sodium.sample sampleIds sampleSend) ∧
      ∃ env, SampleSealed n env ∧
        (net.step Sodium.sample sampleIds sampleSend).sent (.alice, .bob) =
          net.sent (.alice, .bob) ++ [(samplePlaintext, serializeEnvelope env)] := by
  obtain ⟨r, hl, hsid, hck, hnum⟩ := h.session
  obtain ⟨r', env, he, hr', henv⟩ := sample_encrypt hsid hck hnum
  have hstep := sendMessageToDevice_ok hl he
  refine ⟨⟨⟨_, sample_peered⟩, fun s env' hs he' => ?_⟩, ?_, _, henv, ?_⟩
  · obtain rfl := Option.some.inj (hl.symm.trans hs)
    obtain rfl := Except.ok.inj ((congrArg Prod.snd he).symm.trans he')
    exact henv.fits
  · simp only [sampleSend, step, hstep]
    have hne : Side.bob ≠ Side.alice := Side.peer_ne .alice
    refine ⟨?_, ⟨r', ?_, hr'⟩, ?_, ?_, h.taken⟩
    · simp only [update_self]
      exact h.device
    · simp only [update_self]
      exact AList.lookup_insert _
    · simp only [update_of_ne hne]
      exact h.peer
    · simp only [update_self, List.length_append, h.sent, List.length_singleton]
  · simp only [sampleSend, step, hstep, update_self]
    rw [h.device]

theorem Sending.run (m : Nat) {n : Nat} {net : Network Side} (h : Sending n net) :
    Run.Along (step Sodium.sample sampleIds) (Genuine Sodium.sample sampleIds sampleCalls) net
        (List.replicate m sampleSend) ∧
      Sending (n + m) ((List.replicate m sampleSend).foldl (step Sodium.sample sampleIds) net) := by
  induction m generalizing n net with
  | zero => exact ⟨trivial, h⟩
  | succ m ih =>
    obtain ⟨hg, hs, -⟩ := h.send
    obtain ⟨hgs, hss⟩ := ih hs
    rw [Nat.add_right_comm] at hss
    exact ⟨⟨hg, hgs⟩, hss⟩

theorem natOf_chainKey (k : Bytes) (n : Nat) :
    Sodium.Sample.natOf (chainKey Sodium.sample k n) ≡
      Sodium.Sample.natOf k + n * Sodium.Sample.digest ckLabel [MOD 256 ^ 32] := by
  induction n with
  | zero =>
    rw [Nat.zero_mul]
    exact Nat.ModEq.refl _
  | succ n ih =>
    have hadvance : Sodium.Sample.natOf (chainKey Sodium.sample k (n + 1)) =
        (Sodium.Sample.natOf (chainKey Sodium.sample k n) + Sodium.Sample.digest ckLabel) %
          256 ^ 32 := by
      rw [chainKey_succ]
      exact Sodium.Sample.natOf_block _
    rw [hadvance, Nat.succ_mul, ← Nat.add_assoc]
    exact (Nat.mod_modEq _ _).trans (ih.add_right _)

theorem sample_key_ne {n : Nat} (h0 : 0 < n) (hn : n * Sodium.Sample.digest ckLabel < 256 ^ 32)
    (k : Bytes) : deriveMessageKey Sodium.sample k ≠
      deriveMessageKey Sodium.sample (chainKey Sodium.sample k n) := by
  intro h
  have hnat := congrArg Sodium.Sample.natOf h
  have hmod : Sodium.Sample.natOf k + Sodium.Sample.digest msgLabel ≡
      Sodium.Sample.natOf (chainKey Sodium.sample k n) + Sodium.Sample.digest msgLabel
        [MOD 256 ^ 32] := by
    have hl := Sodium.Sample.natOf_block (Sodium.Sample.natOf k + Sodium.Sample.digest msgLabel)
    have hr := Sodium.Sample.natOf_block
      (Sodium.Sample.natOf (chainKey Sodium.sample k n) + Sodium.Sample.digest msgLabel)
    exact hl.symm.trans (hnat.trans hr)
  have hzero : 0 ≡ n * Sodium.Sample.digest ckLabel [MOD 256 ^ 32] :=
    Nat.ModEq.add_left_cancel' (Sodium.Sample.natOf k)
      ((Nat.ModEq.add_right_cancel' _ hmod).trans (natOf_chainKey k n))
  have hdvd := (Nat.modEq_zero_iff_dvd).mp hzero.symm
  have hpos : 0 < n * Sodium.Sample.digest ckLabel := Nat.mul_pos h0 (by decide)
  exact absurd (Nat.le_of_dvd hpos hdvd) (Nat.not_le.mpr hn)

/-- A message that carries number 0 and is not sealed under the first key. -/
theorem decrypt_wrapped (hS : S.AeadIdeal) {root sid key pt : Bytes} {priv : BytesN 32} {r : Ratchet}
    (hroot : root.length = 32) (hr : (new S priv).initializeWith root sid = .ok r) {env : Envelope}
    (hsid : env.sessionId = sid) {peerPub : BytesN 32}
    (hhead : env.associatedData = pushU32Be [] 0 ++ peerPub.val)
    (hkey : deriveMessageKey S root ≠ key) {nonce : BytesN 12}
    (hc : env.ciphertext = nonce.val ++ S.aeadEncrypt key nonce.val env.associatedData pt) :
    (r.decryptEnvelope S env).2 = none := by
  rw [initializeWith_ok _ hroot] at hr
  obtain rfl := Except.ok.inj hr
  have hp : parseHeader env.associatedData = some (0, peerPub.val) := by
    rw [hhead]
    exact parseHeader_append 0 peerPub.property
  rw [decryptEnvelope_own hsid hp fun ht => ht.1 rfl, skipTo_done UInt32.not_lt_zero]
  rcases openMessage_cases (S := S) 0 env _ with ⟨a, he, -⟩ | ⟨k, m, hl, -, -⟩ | ⟨m, -, ho, -⟩
  · rw [he]
  · exact absurd (show none = some k from hl) (by rintro ⟨⟩)
  · have hno := AEAD.decrypt_other hS hkey nonce env.associatedData pt
    rw [← hc] at hno
    exact absurd (hno.symm.trans ho.2) (by rintro ⟨⟩)

/-- **The number wraps**: the first message that bob is handed carries number 0
but is not message 0. -/
theorem Sending.dropped {n m : Nat} {net : Network Side} (h : Sending m net) {env : Envelope}
    (henv : SampleSealed n env) (hwrap : UInt32.ofNat n = 0) (h0 : 0 < n)
    (hn : n * Sodium.Sample.digest ckLabel < 256 ^ 32) :
    ((net.node .bob).onRawMessage Sodium.sample (serializeEnvelope env)).2 = [] := by
  obtain ⟨key, r, hl, hr⟩ := setUp_ready (S := Sodium.sample) {} sample_peered.symm
  obtain ⟨pub, hpub⟩ := henv.header
  rw [hwrap] at hpub
  have hsid : sessionIdFor Sodium.sample (sampleIds .bob) (sampleIds .alice) sampleRoot.val =
      sampleSid := sessionIdFor_comm (by decide) _
  have hnone : (r.decryptEnvelope Sodium.sample env.onWire).2 = none :=
    decrypt_wrapped Sodium.sample_ideal sampleRoot.property hr (henv.session.trans hsid.symm) hpub
      (sample_key_ne h0 hn _) henv.ciphertext
  rw [h.peer]
  refine onRawMessage_rejected (s := { ratchet := r, initialized := true })
    (deserialize_serialize henv.fits) ?_ ?_ hnone
  · rfl
  · show AList.lookup env.senderDeviceId _ = _
    rw [henv.sender]
    exact hl

/-- Alice sends one message more than `n`, and bob is handed that one first. -/
theorem sampleRun_dropped {n : Nat} (hwrap : UInt32.ofNat n = 0) (h0 : 0 < n)
    (hn : n * Sodium.Sample.digest ckLabel < 256 ^ 32) :
    let net := (List.replicate (n + 1) sampleSend).foldl (step Sodium.sample sampleIds) sampleStart
    Run.Along (step Sodium.sample sampleIds) (Genuine Sodium.sample sampleIds sampleCalls)
        sampleStart (List.replicate (n + 1) sampleSend) ∧
      n ∉ net.taken (.alice, .bob) ∧
      ∃ frame, (net.sent (.alice, .bob))[n]? = some (samplePlaintext, frame) ∧
        ((net.node .bob).onRawMessage Sodium.sample frame).2 = [] := by
  obtain ⟨hg, hs⟩ := sending_start.run (n + 1)
  obtain ⟨-, hsn⟩ := sending_start.run n
  rw [Nat.zero_add] at hs hsn
  obtain ⟨-, -, env, henv, hsent⟩ := hsn.send
  refine ⟨hg, ?_, serializeEnvelope env, ?_, hs.dropped henv hwrap h0 hn⟩
  · rw [hs.taken]
    exact List.not_mem_nil
  · rw [List.replicate_succ', List.foldl_append, List.foldl_cons, List.foldl_nil, hsent,
      List.getElem?_append_right (Nat.le_of_eq hsn.sent), hsn.sent, Nat.sub_self]
    rfl

/-! ## Delivery -/

/-- **Delivery to the callback**: whatever was sent and handed over before
between any of the devices, a frame that is handed over for the first time
reaches the callback once, as its sender's, with the plaintext it was made from,
and changes no session but the one with its sender. -/
theorem delivered_to_callback (hS : S.AeadOpens) (hids : Injective ids)
    (hgroup : ∀ i j root, Peered ids calls root i j →
      (mls j).getGroupEpoch (sessionIdFor S (ids i) (ids j) root) = 0) {es : List (Event ι)}
    (hg : Run.Along (step S ids) (fun net e => Genuine S ids calls net e ∧ Numbered net e)
      (start S ids mls calls) es) {i j : ι} {k : Nat} {pt frame : Bytes}
    (hk : ((es.foldl (step S ids) (start S ids mls calls)).sent (i, j))[k]? = some (pt, frame))
    (hna : k ∉ (es.foldl (step S ids) (start S ids mls calls)).taken (i, j)) :
    let d := (es.foldl (step S ids) (start S ids mls calls)).node j
    (∃ env, deserializeEnvelope frame = some env ∧ env.senderDeviceId = ids i ∧
      (d.onRawMessage S frame).2 = [{ env with ciphertext := pt }]) ∧
    ∀ remote, remote ≠ ids i →
      (d.onRawMessage S frame).1.sessions.lookup remote = d.sessions.lookup remote := by
  intro d
  obtain ⟨pub, hstart⟩ := start_inv S ids mls calls
  obtain ⟨envs, hinv⟩ := hg.invariant
    (I := fun net => ∃ envs, Inv S ids mls calls pub net envs)
    (fun _ _ ha ⟨_, h⟩ => h.step hS hids hgroup ha.1 ha.2) ⟨_, hstart⟩
  obtain ⟨env, r, henv, hsender, hraw⟩ := (hinv.deliver hS hids hgroup hk hna).1
  refine ⟨⟨env, henv, hsender, ?_⟩, fun remote hne => ?_⟩
  · rw [hraw]
  · rw [hraw]
    exact AList.lookup_insert_ne hne

/-- Bob has been handed the second frame, then the first one reaches his callback. -/
theorem delivered_to_callback_sample :
    let net := [sampleSend, sampleSend, .deliver .alice .bob 1].foldl (step Sodium.sample sampleIds)
      sampleStart
    ∃ frame env, (net.sent (.alice, .bob))[0]? = some (samplePlaintext, frame) ∧
      deserializeEnvelope frame = some env ∧ env.senderDeviceId = sampleIds .alice ∧
      ((net.node .bob).onRawMessage Sodium.sample frame).2 =
        [{ env with ciphertext := samplePlaintext }] := by
  intro net
  obtain ⟨hg0, h1, env0, -, hs0⟩ := sending_start.send
  obtain ⟨hg1, h2, env1, -, hs1⟩ := h1.send
  have hk : (net.sent (.alice, .bob))[0]? = some (samplePlaintext, serializeEnvelope env0) := by
    simp only [net, List.foldl_cons, List.foldl_nil, step_deliver_sent, hs1, hs0]
    rfl
  have hrun : Run.Along (step Sodium.sample sampleIds)
      (fun net e => Genuine Sodium.sample sampleIds sampleCalls net e ∧ Numbered net e) sampleStart
      [sampleSend, sampleSend, .deliver .alice .bob 1] := by
    refine ⟨⟨hg0, Nat.lt_of_sub_pos (by decide)⟩, ⟨hg1, ?_⟩, ⟨⟨?_, ?_⟩, trivial⟩, trivial⟩
    · show List.length _ + 1 < 2 ^ 32
      rw [h1.sent]
      decide
    · rw [h2.sent]
      decide
    · rw [h2.taken]
      exact List.not_mem_nil
  have hna : 0 ∉ net.taken (.alice, .bob) := by
    simp only [net, List.foldl_cons, List.foldl_nil]
    refine not_mem_taken_deliver Nat.zero_ne_one ?_
    rw [h2.taken]
    exact List.not_mem_nil
  obtain ⟨⟨env, henv, hsender, hraw⟩, -⟩ := delivered_to_callback Sodium.sample_ideal.opens
    sampleIds_injective (fun _ _ _ _ => rfl) hrun hk hna
  exact ⟨_, env, hk, henv, hsender, hraw⟩

/-- **The counter wraps**: after 2^32 messages the next one, handed over first, is
not delivered. -/
theorem wrapped_number_dropped :
    let net := (List.replicate (2 ^ 32 + 1) sampleSend).foldl (step Sodium.sample sampleIds)
      sampleStart
    (Injective sampleIds ∧ Peered sampleIds sampleCalls sampleRoot.val .alice .bob) ∧
      Run.Along (step Sodium.sample sampleIds) (Genuine Sodium.sample sampleIds sampleCalls)
        sampleStart (List.replicate (2 ^ 32 + 1) sampleSend) ∧
      2 ^ 32 ∉ net.taken (.alice, .bob) ∧
      ∃ frame, (net.sent (.alice, .bob))[2 ^ 32]? = some (samplePlaintext, frame) ∧
        ((net.node .bob).onRawMessage Sodium.sample frame).2 = [] :=
  ⟨⟨sampleIds_injective, sample_peered⟩,
    sampleRun_dropped (by decide) (Nat.two_pow_pos 32) (by decide)⟩

end Network

end SecureComm
