import SecureComm.Dispatcher.Network
import SecureComm.Transport.Shutdown

/-!
# Dispatchers on connected transports

The desktop client: dispatchers in pairs, each on an in-memory transport that is
connected to its peer's. A thread that sends holds the mutex of its dispatcher until
the worker of the peer has been notified, and a worker that was handed a frame waits
for the mutex of its own dispatcher. What the threads do is a run of the network in
which the frames are handed over in the order of their numbers.
-/

namespace SecureComm

open Function

namespace Dispatcher

/-- `on_raw_message` locks the mutex: the bytes are an envelope, and not of a group. -/
def locks (d : Dispatcher) (bytes : Bytes) : Bool :=
  match deserializeEnvelope bytes with
  | none => false
  | some env => env.sessionId = [] ∨ d.mls.getGroupEpoch env.sessionId = 0

end Dispatcher

/-- The dispatchers and their transports; `holder` is the thread that sends on a dispatcher,
`inbox` what its callback was invoked with, and `sent` each plaintext with its frame. -/
structure Desktop (ι τ : Type) where
  node : ι → Dispatcher
  sys : Transports ι τ
  holder : ι → Option τ := fun _ => none
  inbox : ι → List Envelope := fun _ => []
  sent : ι → List (Bytes × Bytes) := fun _ => []

namespace Desktop

open Dispatcher
open Network (Peered)
open Ratchet (sampleDraw)

variable {ι τ : Type}

inductive Event (ι τ : Type) where
  | send (t : τ) (i : ι) (remoteDeviceId plaintext : Bytes) (draw : Draw)
  | push (t : τ)
  | notify (t : τ)
  | work (i : ι)
  | wake (i : ι)

/-- Each transport is connected to its peer's and has the callback of its dispatcher. -/
def connected (peer : ι → ι) : Transports ι τ where
  bridge := { connections := fun i => some (peer i) }
  transport _ := { onMessage := true, running := true, worker := .starting }

def start (S : Sodium) (ids : ι → Bytes) (mls : ι → MLSManager) (calls : ι → List Peering)
    (peer : ι → ι) : Desktop ι τ where
  node i := setUp S (mls i) (ids i) (calls i)
  sys := connected peer

/-- A thread that finds the mutex taken waits. -/
def step [DecidableEq ι] [DecidableEq τ] (S : Sodium) (s : Desktop ι τ) : Event ι τ → Desktop ι τ
  | .send t i remote plaintext draw =>
    if s.sys.caller t = .idle ∧ s.holder i = none then
      match (s.node i).sendMessageToDevice S remote plaintext draw with
      | (d, .ok frame) =>
        { s with
          node := update s.node i d
          sys := s.sys.step (.send t i frame)
          holder := update s.holder i (some t)
          sent := update s.sent i (s.sent i ++ [(plaintext, frame)]) }
      | (d, .error _) => { s with node := update s.node i d }
    else s
  | .push t => { s with sys := s.sys.step (.push t) }
  | .notify t =>
    match s.sys.caller t with
    | .pushed _ =>
      { s with
        sys := s.sys.step (.notify t)
        holder := fun i => if s.holder i = some t then none else s.holder i }
    | _ => s
  | .work i =>
    match (s.sys.transport i).worker with
    | .calling frame =>
      if s.holder i = none ∨ (s.node i).locks frame = false then
        let (d, envs) := (s.node i).onRawMessage S frame
        { s with
          node := update s.node i d
          sys := s.sys.step (.work i)
          inbox := update s.inbox i (s.inbox i ++ envs) }
      else s
    | _ => { s with sys := s.sys.step (.work i) }
  | .wake i => { s with sys := s.sys.step (.wake i) }

def carried (s : Desktop ι τ) (i : ι) : List Bytes :=
  match s.holder i with
  | some t => (s.sys.caller t).carried.map Prod.snd
  | none => []

/-- Messages are for the peer, between devices that have a session, with fields that fit and
fewer than 2^32 of them. -/
def Genuine (S : Sodium) (ids : ι → Bytes) (calls : ι → List Peering) (peer : ι → ι)
    (s : Desktop ι τ) : Event ι τ → Prop
  | .send _ i remote plaintext draw => remote = ids (peer i) ∧
      (∃ root, Peered ids calls root i (peer i)) ∧
      (∀ r env, (s.node i).sessions.lookup (ids (peer i)) = some r →
        (r.ratchet.encryptEnvelope S plaintext draw).2 = .ok env →
          ({ env with senderDeviceId := ids i } : Envelope).Fits) ∧
      (s.sent i).length + 1 < 2 ^ 32
  | _ => True

/-! ## The lanes -/

/-- The frames that were sent and not handed over are on the way, in order. -/
def Flight (peer : ι → ι) (s : Desktop ι τ) (i : ι) : Prop :=
  ((s.sent i).drop (s.inbox (peer i)).length).map Prod.snd =
    (s.sys.transport (peer i)).content ++ s.carried i

/-- From each dispatcher to its peer: the thread that holds the mutex is the one that is
sending, and what it and the threads before it have sent is on the way. -/
structure Lanes (peer : ι → ι) (s : Desktop ι τ) : Prop where
  bridge : s.sys.bridge = (connected peer : Transports ι τ).bridge
  busy : ∀ i t, s.holder i = some t →
    (∃ frame, s.sys.caller t = .routed (peer i) frame) ∨ s.sys.caller t = .pushed (peer i)
  held : ∀ t, s.sys.caller t ≠ .idle → ∃ i, s.holder i = some t
  flight : ∀ i, s.Flight peer i

variable {peer : ι → ι} {s : Desktop ι τ} {i : ι} {t : τ}

theorem Lanes.unique (h : s.Lanes peer) (hpeer : Injective peer) {i' : ι} (hi : s.holder i = some t)
    (hi' : s.holder i' = some t) : i' = i := by
  refine hpeer ?_
  rcases h.busy i t hi with ⟨f, hc⟩ | hc <;> rcases h.busy i' t hi' with ⟨f', hc'⟩ | hc' <;>
    simp_all

theorem start_lanes (S : Sodium) (ids : ι → Bytes) (mls : ι → MLSManager) (calls : ι → List Peering)
    (peer : ι → ι) : (start S ids mls calls peer : Desktop ι τ).Lanes peer where
  bridge := rfl
  busy _ _ h := by cases h
  held t h := absurd rfl h
  flight _ := rfl

/-- **Frame**: what happens elsewhere leaves a lane as it is. -/
theorem Flight.congr (h : s.Flight peer i) {s' : Desktop ι τ} (hsent : s'.sent i = s.sent i)
    (hinbox : s'.inbox (peer i) = s.inbox (peer i))
    (hcontent : (s'.sys.transport (peer i)).content = (s.sys.transport (peer i)).content)
    (hholder : s'.holder i = s.holder i)
    (hcaller : ∀ t, s.holder i = some t → s'.sys.caller t = s.sys.caller t) :
    s'.Flight peer i := by
  have hcarried : s'.carried i = s.carried i := by
    unfold carried
    rw [hholder]
    split
    · rename_i t ht
      rw [hcaller t ht]
    · rfl
  rw [Flight, hsent, hinbox, hcontent, hcarried]
  exact h

/-- **A thread goes on** at its dispatcher, and nothing else does: it is left to see to its
own lane. -/
theorem Lanes.thread (h : s.Lanes peer) {s' : Desktop ι τ} (hbridge : s'.sys.bridge = s.sys.bridge)
    (hcaller : ∀ t', t' ≠ t → s'.sys.caller t' = s.sys.caller t')
    (hholder : ∀ i', i' ≠ i → s'.holder i' = s.holder i' ∧ s.holder i' ≠ some t)
    (hbefore : s.holder i = none ∨ s.holder i = some t)
    (hafter : s'.holder i = none ∧ s'.sys.caller t = .idle ∨ s'.holder i = some t ∧
      ((∃ frame, s'.sys.caller t = .routed (peer i) frame) ∨ s'.sys.caller t = .pushed (peer i)))
    (hsent : ∀ i', i' ≠ i → s'.sent i' = s.sent i' ∧ s'.inbox (peer i') = s.inbox (peer i') ∧
      (s'.sys.transport (peer i')).content = (s.sys.transport (peer i')).content)
    (hflight : s'.Flight peer i) : s'.Lanes peer where
  bridge := hbridge.trans h.bridge
  busy i' t' hi' := by
    by_cases hii : i' = i
    · subst hii
      rcases hafter with ⟨hnone, -⟩ | ⟨hsome, hc⟩
      · cases hnone.symm.trans hi'
      · obtain rfl := Option.some.inj (hsome.symm.trans hi')
        exact hc
    · obtain ⟨hsame, hne⟩ := hholder i' hii
      rw [hsame] at hi'
      rw [hcaller t' fun ht => hne (ht ▸ hi')]
      exact h.busy i' t' hi'
  held t' ht' := by
    by_cases ht : t' = t
    · subst ht
      rcases hafter with ⟨-, hidle⟩ | ⟨hsome, -⟩
      · exact absurd hidle ht'
      · exact ⟨i, hsome⟩
    · rw [hcaller t' ht] at ht'
      obtain ⟨i', hi'⟩ := h.held t' ht'
      refine ⟨i', (hholder i' fun hii => ?_).1.trans hi'⟩
      rcases hbefore with hb | hb <;> rw [hii, hb] at hi'
      · cases hi'
      · exact ht (Option.some.inj hi').symm
  flight i' := by
    by_cases hii : i' = i
    · exact hii ▸ hflight
    · obtain ⟨hs, hin, hcontent⟩ := hsent i' hii
      obtain ⟨hsame, hne⟩ := hholder i' hii
      exact (h.flight i').congr hs hin hcontent hsame fun t' ht' => hcaller t' fun ht => hne (ht ▸ ht')

theorem Lanes.next (h : s.Lanes peer) (hpeer : Involutive peer) {frame : Bytes}
    (hw : (s.sys.transport i).worker = .calling frame) :
    ∃ pt, (s.sent (peer i))[(s.inbox i).length]? = some (pt, frame) := by
  have hflight := h.flight (peer i)
  rw [Flight, hpeer i, InMemoryTransport.content, hw] at hflight
  have hhead : (((s.sent (peer i)).drop (s.inbox i).length).map Prod.snd)[0]? = some frame := by
    rw [hflight]
    rfl
  rw [List.getElem?_map, List.getElem?_drop, Nat.add_zero] at hhead
  obtain ⟨⟨pt, f⟩, hm, rfl⟩ := Option.map_eq_some_iff.mp hhead
  exact ⟨pt, hm⟩

section lanes

variable [DecidableEq ι] [DecidableEq τ] {S : Sodium}

theorem Lanes.push (h : s.Lanes peer) (hpeer : Injective peer) (t : τ) :
    (s.step S (.push t)).Lanes peer := by
  have hstays (hs : s.sys.step (.push t) = s.sys) : (s.step S (.push t)).Lanes peer := by
    rw [step, hs]
    exact h
  rcases hc : s.sys.caller t with _ | ⟨j, frame⟩ | _
  · exact hstays (by simp [Transports.step, hc])
  · by_cases hl : (s.sys.transport j).worker.locks = true
    · exact hstays (by simp [Transports.step, hc, hl])
    · obtain ⟨i, hi⟩ := h.held t (by simp [hc])
      obtain rfl : j = peer i := by
        rcases h.busy i t hi with ⟨f, hb⟩ | hb
        · exact (Caller.routed.inj (hc.symm.trans hb)).1
        · cases hc.symm.trans hb
      have hstep : s.sys.step (.push t) =
          { s.sys.modify (peer i) (·.push frame) with
            caller := update s.sys.caller t (.pushed (peer i)) } := by
        simp [Transports.step, hc, hl]
      simp only [step, hstep]
      refine h.thread (t := t) (i := i) rfl (fun t' ht => update_of_ne ht _ _)
        (fun i' hii => ⟨rfl, fun hi' => hii (h.unique hpeer hi hi')⟩) (.inr hi)
        (.inr ⟨hi, .inr (update_self _ _ _)⟩)
        (fun i' hii => ⟨rfl, rfl, congrArg _
          (Transports.modify_transport_ne s.sys (·.push frame) fun hp => hii (hpeer hp))⟩) ?_
      have hflight := h.flight i
      simp only [Flight, carried, hi, hc, Caller.carried, List.map_cons, List.map_nil] at hflight
      simp [Flight, carried, hi, Caller.carried, hflight, Transports.modify_transport_self,
        InMemoryTransport.content_push]
  · exact hstays (by simp [Transports.step, hc])

theorem Lanes.notify (h : s.Lanes peer) (hpeer : Injective peer) (t : τ) :
    (s.step S (.notify t)).Lanes peer := by
  rcases hc : s.sys.caller t with _ | _ | j
  · simpa only [step, hc] using h
  · simpa only [step, hc] using h
  · obtain ⟨i, hi⟩ := h.held t (by simp [hc])
    have hstep : s.sys.step (.notify t) =
        { s.sys.modify j .notify with caller := update s.sys.caller t .idle } := by
      simp [Transports.step, hc]
    have hcontent (k : ι) : ((s.sys.modify j .notify).transport k).content =
        (s.sys.transport k).content := by
      by_cases hk : k = j
      · rw [hk, Transports.modify_transport_self, InMemoryTransport.content_notify]
      · rw [Transports.modify_transport_ne _ _ hk]
    have hother (i' : ι) (hii : i' ≠ i) : s.holder i' ≠ some t :=
      fun hi' => hii (h.unique hpeer hi hi')
    simp only [step, hc, hstep]
    refine h.thread (t := t) (i := i) rfl (fun t' ht => update_of_ne ht _ _)
      (fun i' hii => ⟨if_neg (hother i' hii), hother i' hii⟩) (.inr hi)
      (.inl ⟨if_pos hi, update_self _ _ _⟩) (fun i' _ => ⟨rfl, rfl, hcontent _⟩) ?_
    have hflight := h.flight i
    simp only [Flight, carried, hi, hc, Caller.carried, List.map_nil] at hflight
    simp [Flight, carried, hi, hcontent, hflight]

theorem Lanes.send (h : s.Lanes peer) (hle : (s.inbox (peer i)).length ≤ (s.sent i).length)
    (pt frame : Bytes) (d : Dispatcher) (hidle : s.sys.caller t = .idle) (hfree : s.holder i = none) :
    ({ s with
        node := update s.node i d
        sys := s.sys.step (.send t i frame)
        holder := update s.holder i (some t)
        sent := update s.sent i (s.sent i ++ [(pt, frame)]) } : Desktop ι τ).Lanes peer := by
  have htarget : s.sys.bridge.target i = peer i := by rw [h.bridge]; rfl
  have hstep : s.sys.step (.send t i frame) =
      { s.sys with caller := update s.sys.caller t (.routed (peer i) frame) } := by
    simp [Transports.step, hidle, htarget]
  rw [hstep]
  refine h.thread (t := t) (i := i) rfl (fun t' ht => update_of_ne ht _ _)
    (fun i' hii => ⟨update_of_ne hii _ _, fun hi' => ?_⟩) (.inl hfree)
    (.inr ⟨update_self _ _ _, .inl ⟨frame, update_self _ _ _⟩⟩)
    (fun i' hii => ⟨update_of_ne hii _ _, rfl, rfl⟩) ?_
  · rcases h.busy i' t hi' with ⟨f, hb⟩ | hb <;> cases hidle.symm.trans hb
  · have hflight := h.flight i
    simp only [Flight, carried, hfree, List.append_nil] at hflight
    simp [Flight, carried, Caller.carried, List.drop_append_of_le_length hle, hflight]

theorem Lanes.handed (h : s.Lanes peer) {frame : Bytes} (d : Dispatcher) (env : Envelope) (hw : (s.sys.transport i).worker = .calling frame) :
    ({ s with
        node := update s.node i d
        sys := s.sys.step (.work i)
        inbox := update s.inbox i (s.inbox i ++ [env]) } : Desktop ι τ).Lanes peer := by
  refine ⟨h.bridge, h.busy, h.held, fun i' => ?_⟩
  by_cases hii : peer i' = i
  · subst hii
    have hflight := congrArg List.tail (h.flight i')
    have hcontent := InMemoryTransport.content_work (s.sys.transport (peer i'))
    rw [hw] at hcontent
    rw [hcontent, ← List.map_tail, List.tail_drop] at hflight
    simpa [Flight, Transports.step, Transports.modify_transport_self, carried, Place.inHand]
      using hflight
  · refine (h.flight i').congr rfl (update_of_ne hii _ _) ?_ rfl fun _ _ => rfl
    exact congrArg _ (Transports.modify_transport_ne s.sys .work hii)

omit [DecidableEq τ] in
theorem Lanes.inner (h : s.Lanes peer) {f : InMemoryTransport → InMemoryTransport}
    (hf : (f (s.sys.transport i)).content = (s.sys.transport i).content) :
    ({ s with sys := s.sys.modify i f } : Desktop ι τ).Lanes peer := by
  refine ⟨h.bridge, h.busy, h.held, fun i' => (h.flight i').congr rfl rfl ?_ rfl fun _ _ => rfl⟩
  by_cases hii : peer i' = i
  · rw [hii]
    exact (congrArg _ (Transports.modify_transport_self s.sys f)).trans hf
  · exact congrArg _ (Transports.modify_transport_ne s.sys f hii)

end lanes

/-! ## The network behind the desktop -/

variable {S : Sodium} {ids : ι → Bytes} {mls : ι → MLSManager} {calls : ι → List Peering} {pub : ι → ι → BytesN 32}
  {net : Network ι} {envs : ι × ι → List (Bytes × Envelope)}

/-- The desktop is where the network is after some run, and of what a dispatcher was sent it
was handed the first frames, each as its sender's and with its plaintext. -/
structure Follows (S : Sodium) (ids : ι → Bytes) (mls : ι → MLSManager) (calls : ι → List Peering)
    (peer : ι → ι) (pub : ι → ι → BytesN 32) (s : Desktop ι τ) (net : Network ι)
    (envs : ι × ι → List (Bytes × Envelope)) : Prop where
  lanes : s.Lanes peer
  inv : Network.Inv S ids mls calls pub net envs
  node : s.node = net.node
  sent : ∀ i, s.sent i = net.sent (i, peer i)
  taken : ∀ i, net.taken (i, peer i) = (List.range (s.inbox (peer i)).length).reverse
  handed : ∀ i, (s.inbox (peer i)).map (·.ciphertext) =
    ((s.sent i).take (s.inbox (peer i)).length).map Prod.fst
  sender : ∀ i, ∀ env ∈ s.inbox (peer i), env.senderDeviceId = ids i

theorem Follows.length_le (h : s.Follows S ids mls calls peer pub net envs) (i : ι) :
    (s.inbox (peer i)).length ≤ (s.sent i).length := by
  have hlen := congrArg List.length (h.handed i)
  simp only [List.length_map, List.length_take] at hlen
  omega

theorem start_follows (S : Sodium) (ids : ι → Bytes) (mls : ι → MLSManager) (calls : ι → List Peering)
    (peer : ι → ι) : ∃ pub, (start S ids mls calls peer : Desktop ι τ).Follows S ids mls calls peer
      pub (Network.start S ids mls calls) fun _ => [] := by
  obtain ⟨pub, hinv⟩ := Network.start_inv S ids mls calls
  exact ⟨pub, start_lanes S ids mls calls peer, hinv, rfl, fun _ => rfl, fun _ => rfl, fun _ => rfl,
    fun _ env he => absurd he List.not_mem_nil⟩

variable [DecidableEq ι] [DecidableEq τ]

theorem Follows.send (hids : Injective ids) (h : s.Follows S ids mls calls peer pub net envs)
    {remote pt : Bytes} {draw : Draw} (hg : Genuine S ids calls peer s (.send t i remote pt draw)) :
    ∃ net' envs', (s.step S (.send t i remote pt draw)).Follows S ids mls calls peer pub net' envs' := by
  obtain ⟨rfl, hpeered, hfits, hnum⟩ := hg
  by_cases hfree : s.sys.caller t = .idle ∧ s.holder i = none
  · rw [h.node] at hfits
    rw [h.sent] at hnum
    have hgenuine : Network.Genuine S ids calls net (.send i (peer i) pt draw) := ⟨hpeered, hfits⟩
    obtain ⟨envs', hinv⟩ := h.inv.send hids hgenuine hnum
    refine ⟨net.step S ids (.send i (peer i) pt draw), envs', ?_⟩
    rcases hres : (net.node i).sendMessageToDevice S (ids (peer i)) pt draw with ⟨d, _ | frame⟩
    · simp only [Network.step, hres] at hinv ⊢
      simp only [step, if_pos hfree, h.node, hres]
      have hlanes : Lanes peer { s with node := update net.node i d } :=
        ⟨h.lanes.bridge, h.lanes.busy, h.lanes.held, h.lanes.flight⟩
      exact ⟨hlanes, hinv, rfl, h.sent, h.taken, h.handed, h.sender⟩
    · simp only [Network.step, hres] at hinv ⊢
      have hlanes := h.lanes.send (h.length_le i) pt frame d hfree.1 hfree.2
      simp only [step, if_pos hfree, h.node, hres]
      rw [h.node] at hlanes
      refine ⟨hlanes, hinv, rfl, fun i' => ?_, h.taken, fun i' => ?_, h.sender⟩
      · by_cases hi : i' = i
        · subst hi
          simp only [update_self, h.sent]
        · exact (update_of_ne hi _ _).trans ((h.sent i').trans
            (update_of_ne (fun hp => hi (Prod.mk.inj hp).1) _ _).symm)
      · by_cases hi : i' = i
        · subst hi
          simp only [update_self, List.take_append_of_le_length (h.length_le i')]
          exact h.handed i'
        · simp only [update_of_ne hi]
          exact h.handed i'
  · exact ⟨net, envs, by simpa only [step, if_neg hfree] using h⟩

/-- A frame that is handed over is handed over in the network, and the next of its number. -/
theorem Follows.call (hS : S.AeadOpens) (hids : Injective ids) (hpeer : Involutive peer)
    (hgroup : ∀ i j root, Peered ids calls root i j →
      (mls j).getGroupEpoch (sessionIdFor S (ids i) (ids j) root) = 0)
    (h : s.Follows S ids mls calls peer pub net envs) {j : ι} {frame : Bytes}
    (hw : (s.sys.transport (peer j)).worker = .calling frame) :
    ({ s with
        node := update s.node (peer j) ((s.node (peer j)).onRawMessage S frame).1
        sys := s.sys.step (.work (peer j))
        inbox := update s.inbox (peer j)
          (s.inbox (peer j) ++ ((s.node (peer j)).onRawMessage S frame).2) } :
            Desktop ι τ).Follows S ids mls calls peer pub
      (net.step S ids (.deliver j (peer j) (s.inbox (peer j)).length)) envs := by
  obtain ⟨pt, hpt⟩ := h.lanes.next hpeer hw
  rw [hpeer j] at hpt
  have hk : (net.sent (j, peer j))[(s.inbox (peer j)).length]? = some (pt, frame) := by
    rw [← hpt, h.sent j]
  have hna : (s.inbox (peer j)).length ∉ net.taken (j, peer j) := by
    rw [h.taken j]
    simp
  obtain ⟨⟨env, r, -, hsender, hraw⟩, hinv⟩ := h.inv.deliver hS hids hgroup hk hna
  have hlanes := h.lanes.handed ((s.node (peer j)).onRawMessage S frame).1
    { env with ciphertext := pt } hw
  rw [← h.node] at hraw
  rw [congrArg Prod.snd hraw]
  have hother {i' : ι} (hj : i' ≠ j) (l : List Envelope) :
      update s.inbox (peer j) l (peer i') = s.inbox (peer i') :=
    update_of_ne (fun hp => hj (hpeer.injective hp)) _ _
  refine ⟨hlanes, hinv, ?_, fun i' => ?_, fun i' => ?_, fun i' => ?_, fun i' => ?_⟩
  · simp only [Network.step, hk, h.node]
  · rw [Network.step_deliver_sent]
    exact h.sent i'
  · simp only [Network.step, hk]
    by_cases hj : i' = j
    · subst hj
      rw [update_self, update_self, h.taken, List.length_append, List.length_singleton,
        List.range_succ, List.reverse_append]
      rfl
    · rw [update_of_ne fun hp => hj (Prod.mk.inj hp).1, hother hj]
      exact h.taken i'
  · by_cases hj : i' = j
    · subst hj
      simp only [update_self, List.map_append, h.handed, List.length_append, List.length_singleton,
        List.take_add_one, hpt]
      simp
    · simp only [hother hj]
      exact h.handed i'
  · by_cases hj : i' = j
    · subst hj
      simp only [update_self, List.mem_append, List.mem_singleton]
      rintro e (he | rfl)
      · exact h.sender i' e he
      · exact hsender
    · simp only [hother hj]
      exact h.sender i'

/-- **The desktop is a run of the network**: every step of a thread is a step there, or none. -/
theorem Follows.step (hS : S.AeadOpens) (hids : Injective ids) (hpeer : Involutive peer)
    (hgroup : ∀ i j root, Peered ids calls root i j →
      (mls j).getGroupEpoch (sessionIdFor S (ids i) (ids j) root) = 0)
    (h : s.Follows S ids mls calls peer pub net envs) {e : Event ι τ}
    (hg : Genuine S ids calls peer s e) :
    ∃ net' envs', (s.step S e).Follows S ids mls calls peer pub net' envs' := by
  have hsame {sys : Transports ι τ} {holder : ι → Option τ}
      (hlanes : Lanes peer { s with sys := sys, holder := holder }) :
      Follows S ids mls calls peer pub { s with sys := sys, holder := holder } net envs :=
    ⟨hlanes, h.inv, h.node, h.sent, h.taken, h.handed, h.sender⟩
  cases e with
  | send t i remote pt draw => exact h.send hids hg
  | push t => exact ⟨net, envs, hsame (h.lanes.push (S := S) hpeer.injective t)⟩
  | notify t =>
    have hlanes := h.lanes.notify (S := S) hpeer.injective t
    refine ⟨net, envs, ?_⟩
    simp only [Desktop.step] at hlanes ⊢
    split at hlanes
    · exact hsame hlanes
    · exact h
  | work i =>
    obtain ⟨j, rfl⟩ : ∃ j, i = peer j := ⟨peer i, (hpeer i).symm⟩
    simp only [Desktop.step]
    split
    · rename_i frame hw
      split
      · exact ⟨_, envs, h.call hS hids hpeer hgroup hw⟩
      · exact ⟨net, envs, h⟩
    · rename_i hw
      refine ⟨net, envs, hsame (h.lanes.inner ?_)⟩
      rw [InMemoryTransport.content_work (s.sys.transport (peer j))]
      cases hp : (s.sys.transport (peer j)).worker with
      | calling frame => exact absurd hp (hw frame)
      | _ => rfl
  | wake i =>
    exact ⟨net, envs, hsame (h.lanes.inner (InMemoryTransport.content_notify _))⟩

/-- **In order and once**: in whatever order the threads take their steps, the callback of a
dispatcher is invoked with the plaintexts that its peer has sent, each as the peer's, in the
order of the sends, and every frame that was not handed over yet is on the way to it. -/
theorem delivered_in_order (hS : S.AeadOpens) (hids : Injective ids) (hpeer : Involutive peer)
    (hgroup : ∀ i j root, Peered ids calls root i j →
      (mls j).getGroupEpoch (sessionIdFor S (ids i) (ids j) root) = 0) {es : List (Event ι τ)}
    (hg : Run.Along (Desktop.step S) (Genuine S ids calls peer) (start S ids mls calls peer) es)
    (i : ι) :
    let s := es.foldl (Desktop.step S) (start S ids mls calls peer)
    ((s.inbox (peer i)).map (·.ciphertext) =
        ((s.sent i).take (s.inbox (peer i)).length).map Prod.fst ∧
      ∀ env ∈ s.inbox (peer i), env.senderDeviceId = ids i) ∧
    ((s.sent i).drop (s.inbox (peer i)).length).map Prod.snd =
      (s.sys.transport (peer i)).content ++ s.carried i := by
  intro s
  obtain ⟨pub, hstart⟩ := @start_follows ι τ S ids mls calls peer
  obtain ⟨net, envs, h⟩ := hg.invariant
    (I := fun s => ∃ net envs, Follows S ids mls calls peer pub s net envs)
    (fun _ _ hg ⟨_, _, h⟩ => h.step hS hids hpeer hgroup hg) ⟨_, _, hstart⟩
  exact ⟨⟨h.handed i, h.sender i⟩, h.lanes.flight i⟩

/-- Alice and bob, connected to each other, and one thread that sends. -/
def sampleDesktop : Desktop Side Unit :=
  start Sodium.sample Network.sampleIds (fun _ => {}) Network.sampleCalls Side.peer

def sampleHello : Event Side Unit :=
  .send () .alice (Network.sampleIds .bob) Network.samplePlaintext sampleDraw

theorem sampleHello_genuine :
    Genuine Sodium.sample Network.sampleIds Network.sampleCalls Side.peer sampleDesktop sampleHello := by
  obtain ⟨⟨hpeered, hfits⟩, -⟩ := Network.sending_start.send
  exact ⟨rfl, hpeered, hfits, by simp [sampleDesktop, start]⟩

theorem sampleHello_sent : ∃ d frame, sampleDesktop.step Sodium.sample sampleHello =
    { sampleDesktop with
      node := update sampleDesktop.node .alice d
      sys := sampleDesktop.sys.step (.send () .alice frame)
      holder := update sampleDesktop.holder .alice (some ())
      sent := update sampleDesktop.sent .alice [(Network.samplePlaintext, frame)] } := by
  obtain ⟨-, -, env, -, hsent⟩ := Network.sending_start.send
  rcases hres : (Network.sampleStart.node .alice).sendMessageToDevice Sodium.sample
    (Network.sampleIds .bob) Network.samplePlaintext sampleDraw with ⟨d, _ | frame⟩
  · simp [Network.step, Network.sampleSend, hres] at hsent
  · have hres' : (sampleDesktop.node .alice).sendMessageToDevice Sodium.sample
        (Network.sampleIds .bob) Network.samplePlaintext sampleDraw = (d, .ok frame) := hres
    refine ⟨d, frame, ?_⟩
    simp only [Desktop.step, sampleHello, hres']
    rfl

theorem sample_group (i j : Side) (root : Bytes)
    (_ : Peered Network.sampleIds Network.sampleCalls root i j) :
    ((fun _ => {} : Side → MLSManager) j).getGroupEpoch
      (sessionIdFor Sodium.sample (Network.sampleIds i) (Network.sampleIds j) root) = 0 := rfl

/-- Alice's frame is in bob's transport. -/
theorem delivered_in_order_sample :
    let s := [sampleHello, .push ()].foldl (Desktop.step Sodium.sample) sampleDesktop
    ∃ frame, (s.sent .alice).drop (s.inbox .bob).length = [(Network.samplePlaintext, frame)] ∧
      [frame] = (s.sys.transport .bob).content ++ s.carried .alice := by
  intro s
  obtain ⟨d, frame, hsent⟩ := sampleHello_sent
  have hs : s.sent .alice = [(Network.samplePlaintext, frame)] ∧ s.inbox .bob = [] := by
    simp only [s, List.foldl_cons, List.foldl_nil, hsent]
    exact ⟨rfl, rfl⟩
  have hpeer : Involutive Side.peer := fun i => by cases i <;> rfl
  have hg : Run.Along (Desktop.step Sodium.sample)
      (Genuine Sodium.sample Network.sampleIds Network.sampleCalls Side.peer) sampleDesktop
      [sampleHello, .push ()] := ⟨sampleHello_genuine, trivial, trivial⟩
  have h := delivered_in_order Sodium.sample_ideal.opens Network.sampleIds_injective hpeer
    sample_group hg Side.alice
  have hdrop : (s.sent .alice).drop (s.inbox .bob).length = [(Network.samplePlaintext, frame)] := by
    rw [hs.1, hs.2]
    rfl
  exact ⟨frame, hdrop, (congrArg (List.map Prod.snd) hdrop).symm.trans h.2⟩

end Desktop

end SecureComm
