import Mathlib.Data.List.Forall2
import SecureComm.Dispatcher.Network
import SecureComm.Offline.Outpost

/-!
# From a call to a callback

Devices with offline queues on a network that hands every frame over at most
once and in any order. Their dispatchers run as the dispatchers of `Network`, so
every frame that is handed over reaches the callback; and of one call one frame
at most is taken. So no call reaches a callback twice (`run_delivered`).
-/

namespace SecureComm

open Function Dispatcher

/-- `handed` are the positions of the frames that a device was handed of another's, the last one
first, and `inbox` what its callback was given, each with the sender. -/
structure Outposts (ι : Type) where
  node : ι → Outpost
  handed : ι × ι → List ℕ := fun _ => []
  inbox : ι → List (Bytes × Bytes) := fun _ => []

/-- The frames for a device, in the order in which they were made. -/
def Outpost.framesFor (o : Outpost) (id : Bytes) : List Made :=
  o.made.filter fun f => f.recipient = id

namespace Outposts

inductive Event (ι : Type) where
  | call (i : ι) (ev : EnhancedDispatcher.Event)
  | deliver (i j : ι) (k : ℕ)

variable {ι : Type} (S : Sodium) (ids : ι → Bytes)

def start (peerings : ι → List Peering) (queues : ι → OfflineQueue) : Outposts ι where
  node i := .start
    { dispatcher := setUp S {} (ids i) (peerings i), deviceId := ids i, offlineQueue := queues i }

variable [DecidableEq ι]

/-- A device is handed a frame, and its callback what comes of it. -/
def receive (st : Outposts ι) (i j : ι) (k : ℕ) (frame : Bytes) : Outposts ι where
  node := update st.node j ((st.node j).step S (.receive frame))
  handed := update st.handed (i, j) (k :: st.handed (i, j))
  inbox := update st.inbox j (st.inbox j ++
    ((st.node j).system.dispatcher.onRawMessage S frame).2.map fun env =>
      (env.senderDeviceId, env.ciphertext))

/-- Only what the transport has taken can be handed over. -/
def step (st : Outposts ι) : Event ι → Outposts ι
  | .call i ev => { st with node := update st.node i ((st.node i).step S ev) }
  | .deliver i j k =>
    match ((st.node i).framesFor (ids j))[k]? with
    | some f => if f.taken then st.receive S i j k f.frame else st
    | none => st

def net (st : Outposts ι) : Network ι where
  node i := (st.node i).system.dispatcher
  sent p := ((st.node p.1).framesFor (ids p.2)).map fun f => (f.plaintext, f.frame)
  taken := st.handed

/-- An attempt is for a device of the network with which there is a session, in fields that fit
and with fewer than 2^32 frames before it; or there is no session, and it throws. -/
def Fits (peerings : ι → List Peering) (st : Outposts ι) (i : ι) (t : Trial) : Prop :=
  (st.node i).system.dispatcher.sessions.lookup t.recipient = none ∨
  ∃ j, ids j = t.recipient ∧
    Network.Genuine S ids peerings (st.net ids) (.send i j t.plaintext t.attempt.draw) ∧
    Network.Numbered (st.net ids) (.send i j t.plaintext t.attempt.draw)

/-- A call that is not for set-up, nor from the transport. -/
def SendsOrQueues : EnhancedDispatcher.Event → Prop
  | .registerDevice _ | .createSessionWith _ _ _ | .receive _ => False
  | _ => True

/-- The sessions are those of the start; what was sent again is marked; and a frame is handed over
once at most. -/
def Meets (peerings : ι → List Peering) (st : Outposts ι) : Event ι → Prop
  | .call i ev =>
    (st.node i).Marks S ev ∧ (∀ t ∈ (st.node i).trial ev, st.Fits S ids peerings i t) ∧
      SendsOrQueues ev
  | .deliver i j k => k ∉ st.handed (i, j)

/-! ## The dispatchers -/

variable {S ids} {st : Outposts ι} {peerings : ι → List Peering}

/-- The dispatcher takes part in the attempt of an event alone. -/
theorem step_dispatcher (o : Outpost) (ev : EnhancedDispatcher.Event)
    (hev : SendsOrQueues ev) :
    (o.step S ev).system.dispatcher = match o.trial ev with
      | some t => (o.system.dispatcher.sendMessageToDevice S t.recipient t.plaintext
          t.attempt.draw).1
      | none => o.system.dispatcher := by
  have hattempt : ∀ (r p : Bytes) (a : Attempt), (o.system.dispatcher.attempt S r p a).1 =
      (o.system.dispatcher.sendMessageToDevice S r p a.draw).1 := fun r p a => by
    unfold Dispatcher.attempt
    rcases o.system.dispatcher.sendMessageToDevice S r p a.draw with ⟨d, _ | _⟩ <;> rfl
  cases ev with
  | send remote pt timestamp a now ok =>
    show (o.system.sendMessageToDevice S remote pt timestamp a now ok).dispatcher = _
    simp only [Outpost.trial, ← hattempt]
    unfold EnhancedDispatcher.sendMessageToDevice
    rcases o.system.dispatcher.attempt S remote pt a with ⟨d, _ | _⟩ <;> rfl
  | retryNext a now ok =>
    show (o.system.retryNext S a now ok).dispatcher = _
    unfold EnhancedDispatcher.retryNext
    rcases hp : o.system.pending with _ | ⟨m, rest⟩
    · simp only [Outpost.trial, hp]
    · by_cases hover : m.retryCount > 10
      · simp only [Outpost.trial, hp, if_pos hover, if_neg (Nat.not_le.mpr hover)]
      · simp only [Outpost.trial, hp, if_neg hover, if_pos (Nat.not_lt.mp hover), ← hattempt]
        rcases o.system.dispatcher.attempt S m.recipientId m.envelope a with ⟨d, _ | _⟩ <;> rfl
  | beginRetry ok =>
    show (o.system.beginRetry ok).dispatcher = _
    unfold EnhancedDispatcher.beginRetry
    split <;> rfl
  | setOfflineMode | checkConnectivity | cleanup => rfl
  | registerDevice | createSessionWith | receive => exact hev.elim

/-- **One device changes**: the network is that with its dispatcher and its frames. -/
theorem net_update {st' : Outposts ι} {n : Network ι} {i : ι} {o' : Outpost}
    (hst : st'.node = update st.node i o') (htaken : st'.handed = n.taken)
    (hnode : n.node = update (st.net ids).node i o'.system.dispatcher)
    (hsent : ∀ b, (o'.framesFor (ids b)).map (fun f => (f.plaintext, f.frame)) = n.sent (i, b))
    (hother : ∀ a b, a ≠ i → n.sent (a, b) = (st.net ids).sent (a, b)) : st'.net ids = n := by
  obtain ⟨node, sent, taken⟩ := n
  have hnode : node = _ := hnode
  simp only [net, Network.mk.injEq]
  refine ⟨?_, funext fun ⟨a, b⟩ => ?_, htaken⟩
  · rw [hnode, hst]
    funext a
    by_cases ha : a = i
    · rw [ha, update_self, update_self]
    · rw [update_of_ne ha, update_of_ne ha]
      rfl
  · rw [hst]
    by_cases ha : a = i
    · rw [ha, update_self]
      exact hsent b
    · rw [update_of_ne ha]
      exact (hother a b ha).symm

theorem step_made (o : Outpost) (ev : EnhancedDispatcher.Event) :
    (o.step S ev).made = o.made ++ ((o.trial ev).map (o.makes S)).getD [] := rfl

theorem net_same {i : ι} {o' : Outpost}
    (hd : o'.system.dispatcher = (st.node i).system.dispatcher) (hm : o'.made = (st.node i).made) :
    ({ st with node := update st.node i o' } : Outposts ι).net ids = st.net ids := by
  refine net_update rfl rfl ?_ (fun b => ?_) fun _ _ _ => rfl
  · rw [hd]
    exact (update_eq_self i _).symm
  · rw [Outpost.framesFor, hm]
    rfl

theorem net_idle {i : ι} {ev : EnhancedDispatcher.Event} (hev : SendsOrQueues ev)
    (htrial : (st.node i).trial ev = none) :
    (st.step S ids (.call i ev)).net ids = st.net ids := by
  have hdisp := step_dispatcher (S := S) (st.node i) ev hev
  have hmade := step_made (S := S) (st.node i) ev
  rw [htrial] at hdisp hmade
  exact net_same hdisp (hmade.trans (List.append_nil _))

/-- **An attempt is a send** of the network of dispatchers. -/
theorem net_trial (hids : Injective ids) {i j : ι} {ev : EnhancedDispatcher.Event}
    (hev : SendsOrQueues ev) {t : Trial} (htrial : (st.node i).trial ev = some t)
    (hj : ids j = t.recipient) :
    (st.step S ids (.call i ev)).net ids =
      (st.net ids).step S ids (.send i j t.plaintext t.attempt.draw) := by
  have hdisp := step_dispatcher (S := S) (st.node i) ev hev
  have hmade := step_made (S := S) (st.node i) ev
  rw [htrial] at hdisp hmade
  have hdisp : ((st.node i).step S ev).system.dispatcher =
      ((st.node i).system.dispatcher.sendMessageToDevice S t.recipient t.plaintext
        t.attempt.draw).1 := hdisp
  have hmade : ((st.node i).step S ev).made = (st.node i).made ++ (st.node i).makes S t := hmade
  rcases hsend : (st.node i).system.dispatcher.sendMessageToDevice S (ids j) t.plaintext
    t.attempt.draw with ⟨d, err | frame⟩
  · have hd : ((st.node i).step S ev).system.dispatcher = d := by rw [hdisp, ← hj, hsend]
    have hnet : (st.net ids).step S ids (.send i j t.plaintext t.attempt.draw) =
        { st.net ids with node := update (st.net ids).node i d } := by
      have hsend : ((st.net ids).node i).sendMessageToDevice S (ids j) t.plaintext t.attempt.draw =
          _ := hsend
      simp only [Network.step, hsend]
    have hnil : (st.node i).makes S t = [] := by rw [Outpost.makes, ← hj, hsend]
    rw [hnet]
    refine net_update rfl rfl (by rw [hd]) (fun b => ?_) fun _ _ _ => rfl
    rw [Outpost.framesFor, hmade, hnil, List.append_nil]
    rfl
  · have hd : ((st.node i).step S ev).system.dispatcher = d := by rw [hdisp, ← hj, hsend]
    have hnet : (st.net ids).step S ids (.send i j t.plaintext t.attempt.draw) =
        { st.net ids with
          node := update (st.net ids).node i d
          sent := update (st.net ids).sent (i, j)
            ((st.net ids).sent (i, j) ++ [(t.plaintext, frame)]) } := by
      have hsend : ((st.net ids).node i).sendMessageToDevice S (ids j) t.plaintext t.attempt.draw =
          _ := hsend
      simp only [Network.step, hsend]
    have hone : (st.node i).makes S t = [⟨ids j, t.plaintext, frame, t.call, t.attempt.taken⟩] := by
      rw [Outpost.makes, ← hj, hsend]
    rw [hnet]
    refine net_update rfl rfl (by rw [hd]) (fun b => ?_) fun a b ha =>
      update_of_ne (fun he => ha (congrArg Prod.fst he)) ..
    rw [Outpost.framesFor, hmade, hone, List.filter_append, List.map_append, List.filter_singleton]
    by_cases hb : b = j
    · subst hb
      simp only [update_self, decide_true, cond_true]
      rfl
    · have hpair : (i, b) ≠ (i, j) := fun he => hb (congrArg Prod.snd he)
      have hid : ids j ≠ ids b := fun he => hb (hids he).symm
      simp only [update_of_ne hpair, decide_eq_false hid, cond_false, List.map_nil,
        List.append_nil]
      rfl

/-- **A call is a step of the network of dispatchers**, or none. -/
theorem net_call (hids : Injective ids) {i : ι} {ev : EnhancedDispatcher.Event}
    (hmeets : st.Meets S ids peerings (.call i ev)) :
    (st.step S ids (.call i ev)).net ids = st.net ids ∨
    ∃ j pt draw, Network.Genuine S ids peerings (st.net ids) (.send i j pt draw) ∧
      Network.Numbered (st.net ids) (.send i j pt draw) ∧
      (st.step S ids (.call i ev)).net ids = (st.net ids).step S ids (.send i j pt draw) := by
  obtain ⟨-, hfits, hev⟩ := hmeets
  rcases htrial : (st.node i).trial ev with _ | t
  · exact .inl (net_idle hev htrial)
  rcases hfits t htrial with hnone | ⟨j, hj, hg, hn⟩
  · -- there is no session, so the dispatcher throws
    have hdisp := step_dispatcher (S := S) (st.node i) ev hev
    have hmade := step_made (S := S) (st.node i) ev
    have hsend : (st.node i).system.dispatcher.sendMessageToDevice S t.recipient t.plaintext
        t.attempt.draw = ((st.node i).system.dispatcher, .error "session not initialized") := by
      simp only [sendMessageToDevice, hnone]
    rw [htrial] at hdisp hmade
    refine .inl (net_same (hdisp.trans (congrArg Prod.fst hsend)) (hmade.trans ?_))
    show _ ++ (st.node i).makes S t = _
    rw [Outpost.makes, hsend]
    exact List.append_nil _
  · exact .inr ⟨j, t.plaintext, t.attempt.draw, hg, hn, net_trial hids hev htrial hj⟩

/-! ## Whole runs -/

def inboxFrom (ids : ι → Bytes) (st : Outposts ι) (i j : ι) : List Bytes :=
  ((st.inbox j).filter fun m => m.1 = ids i).map Prod.snd

/-- The frames that were handed over had been taken, and each has reached the callback once. -/
structure Inv (S : Sodium) (ids : ι → Bytes) (peerings : ι → List Peering) (st : Outposts ι) :
    Prop where
  sound : ∀ i, (st.node i).Sound
  net : ∃ pub envs, Network.Inv S ids (fun _ => {}) peerings pub (st.net ids) envs
  nodup : ∀ p, (st.handed p).Nodup
  reached : ∀ i j, List.Forall₂ (fun k m => ∃ f, ((st.node i).framesFor (ids j))[k]? = some f ∧
    f.taken = true ∧ f.plaintext = m) (st.handed (i, j)).reverse (st.inboxFrom ids i j)
  senders : ∀ j, ∀ m ∈ st.inbox j, m.1 ∈ Set.range ids

omit [DecidableEq ι] in
theorem start_inv {queues : ι → OfflineQueue}
    (hfresh : ∀ i, Outpost.Fresh { deviceId := ids i, offlineQueue := queues i }) :
    Inv S ids peerings (start S ids peerings queues) := by
  refine ⟨fun i => Outpost.sound_start ⟨⟨rfl, (hfresh i).resting.text, (hfresh i).resting.tried⟩,
    (hfresh i).recipient⟩, ?_, fun p => .nil, fun i j => .nil, fun j => nofun⟩
  obtain ⟨pub, hinv⟩ := Network.start_inv S ids (fun _ => {}) peerings
  exact ⟨pub, fun _ => [], hinv⟩

theorem framesFor_step (o : Outpost) (ev : EnhancedDispatcher.Event) (id : Bytes) {k : ℕ}
    {f : Made} (hf : (o.framesFor id)[k]? = some f) :
    ((o.step S ev).framesFor id)[k]? = some f := by
  obtain ⟨hlt, -⟩ := List.getElem?_eq_some_iff.mp hf
  rw [Outpost.framesFor, step_made, List.filter_append]
  exact (List.getElem?_append_left hlt).trans hf

theorem Inv.call (hids : Injective ids) (h : Inv S ids peerings st) {i : ι}
    {ev : EnhancedDispatcher.Event} (hmeets : st.Meets S ids peerings (.call i ev)) :
    Inv S ids peerings (st.step S ids (.call i ev)) := by
  have hframes : ∀ (a b : ι) (k : ℕ) (f : Made), ((st.node a).framesFor (ids b))[k]? = some f →
      (((st.step S ids (.call i ev)).node a).framesFor (ids b))[k]? = some f := by
    intro a b k f hf
    by_cases ha : a = i
    · subst ha
      simp only [step, update_self]
      exact framesFor_step _ _ _ hf
    · simp only [step, update_of_ne ha]
      exact hf
  refine ⟨fun a => ?_, ?_, h.nodup, fun a b => ?_, h.senders⟩
  · by_cases ha : a = i
    · subst ha
      simp only [step, update_self]
      exact (h.sound a).step hmeets.1
    · simp only [step, update_of_ne ha]
      exact h.sound a
  · obtain ⟨pub, envs, hinv⟩ := h.net
    rcases net_call hids hmeets with heq | ⟨j, pt, draw, hg, hn, heq⟩
    · exact ⟨pub, envs, heq ▸ hinv⟩
    · obtain ⟨envs', hinv'⟩ := hinv.send hids hg hn
      exact ⟨pub, envs', heq ▸ hinv'⟩
  · exact (h.reached a b).imp fun k m ⟨f, hf, hm⟩ => ⟨f, hframes a b k f hf, hm⟩

/-! ### A frame is handed over -/

section Receive

variable {i j : ι} {k : ℕ}

theorem receive_framesFor (st : Outposts ι) (i j : ι) (k : ℕ) (frame : Bytes) (a : ι) (id : Bytes) :
    ((st.receive S i j k frame).node a).framesFor id = (st.node a).framesFor id := by
  by_cases ha : a = j
  · subst ha
    simp only [Outposts.receive, update_self, Outpost.framesFor, step_made]
    exact congrArg _ (List.append_nil _)
  · simp only [Outposts.receive, update_of_ne ha]

theorem receive_sound (h : ∀ a, (st.node a).Sound) (frame : Bytes) (a : ι) :
    ((st.receive S i j k frame).node a).Sound := by
  by_cases ha : a = j
  · subst ha
    simp only [Outposts.receive, update_self]
    have hmarks : (st.node a).Marks S (.receive frame) := trivial
    exact (h a).step hmarks
  · simp only [Outposts.receive, update_of_ne ha]
    exact h a

theorem receive_nodup (h : ∀ p, (st.handed p).Nodup) (hk : k ∉ st.handed (i, j)) (frame : Bytes)
    (p : ι × ι) : ((st.receive S i j k frame).handed p).Nodup := by
  by_cases hp : p = (i, j)
  · subst hp
    simp only [Outposts.receive, update_self]
    exact List.nodup_cons.mpr ⟨hk, h _⟩
  · simp only [Outposts.receive, update_of_ne hp]
    exact h p

omit [DecidableEq ι] in
theorem net_sent {f : Made} (hf : ((st.node i).framesFor (ids j))[k]? = some f) :
    ((st.net ids).sent (i, j))[k]? = some (f.plaintext, f.frame) := by
  show (((st.node i).framesFor (ids j)).map _)[k]? = _
  rw [List.getElem?_map, hf]
  rfl

/-- **A frame that is handed over** is a delivery of the network of dispatchers. -/
theorem net_receive {f : Made} (hf : ((st.node i).framesFor (ids j))[k]? = some f) :
    (st.receive S i j k f.frame).net ids = (st.net ids).step S ids (.deliver i j k) := by
  have hstep : (st.net ids).step S ids (.deliver i j k) =
      { st.net ids with
        node := update (st.net ids).node j
          ((st.node j).system.dispatcher.onRawMessage S f.frame).1
        taken := update st.handed (i, j) (k :: st.handed (i, j)) } := by
    simp only [Network.step, net_sent hf]
    rfl
  rw [hstep]
  refine net_update rfl rfl rfl (fun b => ?_) fun _ _ _ => rfl
  exact congrArg _ ((congrArg _ (step_made _ _)).trans (congrArg _ (List.append_nil _)))

theorem inboxFrom_push (hids : Injective ids) {st' : Outposts ι} {m : Bytes}
    (hinbox : st'.inbox = update st.inbox j (st.inbox j ++ [(ids i, m)])) (a b : ι) :
    st'.inboxFrom ids a b =
      if (a, b) = (i, j) then st.inboxFrom ids i j ++ [m] else st.inboxFrom ids a b := by
  rw [inboxFrom, hinbox]
  by_cases hb : b = j
  · subst hb
    rw [update_self]
    by_cases ha : a = i
    · subst ha
      simp [inboxFrom]
    · have hne : ids i ≠ ids a := fun he => ha (hids he).symm
      simp [inboxFrom, ha, hne]
  · rw [update_of_ne hb, if_neg fun he => hb (congrArg Prod.snd he)]
    rfl

/-- **The callback is given the plaintext of the frame**, as its sender's. -/
theorem Inv.receive_inbox (hS : S.AeadOpens) (hids : Injective ids) (h : Inv S ids peerings st)
    {f : Made} (hf : ((st.node i).framesFor (ids j))[k]? = some f) (hk : k ∉ st.handed (i, j)) :
    (st.receive S i j k f.frame).inbox =
        update st.inbox j (st.inbox j ++ [(ids i, f.plaintext)]) ∧
      ∃ pub envs, Network.Inv S ids (fun _ => {}) peerings pub
        ((st.receive S i j k f.frame).net ids) envs := by
  obtain ⟨pub, envs, hinv⟩ := h.net
  obtain ⟨⟨env, r, -, hsender, hraw⟩, hinv'⟩ :=
    hinv.deliver hS hids (fun _ _ _ _ => rfl) (net_sent hf) hk
  have hraw : (st.node j).system.dispatcher.onRawMessage S f.frame = (_, _) := hraw
  refine ⟨?_, pub, envs, net_receive hf ▸ hinv'⟩
  show update st.inbox j (st.inbox j ++ List.map _ _) = _
  rw [hraw, List.map_singleton, hsender]

theorem Inv.receive (hS : S.AeadOpens) (hids : Injective ids) (h : Inv S ids peerings st)
    {f : Made} (hf : ((st.node i).framesFor (ids j))[k]? = some f) (htaken : f.taken = true)
    (hk : k ∉ st.handed (i, j)) : Inv S ids peerings (st.receive S i j k f.frame) := by
  obtain ⟨hinbox, hnet⟩ := h.receive_inbox hS hids hf hk
  refine ⟨receive_sound h.sound _, hnet, receive_nodup h.nodup hk _, fun a b => ?_, fun b m hm => ?_⟩
  · simp only [receive_framesFor]
    rw [inboxFrom_push hids hinbox]
    by_cases hp : (a, b) = (i, j)
    · cases hp
      have hhanded : (st.receive S i j k f.frame).handed (i, j) = k :: st.handed (i, j) :=
        update_self ..
      rw [if_pos rfl, hhanded, List.reverse_cons]
      exact List.rel_append (h.reached i j) (.cons ⟨f, hf, htaken, rfl⟩ .nil)
    · have hhanded : (st.receive S i j k f.frame).handed (a, b) = st.handed (a, b) :=
        update_of_ne hp ..
      rw [if_neg hp, hhanded]
      exact h.reached a b
  · rw [hinbox] at hm
    by_cases hb : b = j
    · subst hb
      rw [update_self] at hm
      rcases List.mem_append.mp hm with hm | hm
      · exact h.senders b m hm
      · obtain rfl := List.mem_singleton.mp hm
        exact ⟨i, rfl⟩
    · rw [update_of_ne hb] at hm
      exact h.senders b m hm

end Receive

theorem Inv.step (hS : S.AeadOpens) (hids : Injective ids) (h : Inv S ids peerings st)
    {e : Event ι} (hmeets : st.Meets S ids peerings e) : Inv S ids peerings (st.step S ids e) := by
  cases e with
  | call i ev => exact h.call hids hmeets
  | deliver i j k =>
    simp only [Outposts.step]
    rcases hf : ((st.node i).framesFor (ids j))[k]? with _ | f
    · exact h
    · by_cases htaken : f.taken = true
      · simp only [if_pos htaken]
        exact h.receive hS hids hf htaken hmeets
      · simp only [if_neg htaken]
        exact h

theorem call_inj {o : Outpost} (h : o.Sound) {id : Bytes} {k k' : ℕ} {f f' : Made}
    (hf : (o.framesFor id)[k]? = some f) (hf' : (o.framesFor id)[k']? = some f')
    (ht : f.taken = true) (ht' : f'.taken = true) (hcall : f.call = f'.call) : k = k' := by
  have hone : o.made.Pairwise fun f g => f.taken = true → g.taken = true → f.call ≠ g.call :=
    List.pairwise_filter.mp (List.pairwise_map.mp h.once)
  have hone := List.pairwise_iff_getElem.mp (hone.sublist
    (List.filter_sublist (p := fun f : Made => f.recipient = id)))
  obtain ⟨hk, rfl⟩ := List.getElem?_eq_some_iff.mp hf
  obtain ⟨hk', rfl⟩ := List.getElem?_eq_some_iff.mp hf'
  rcases Nat.lt_trichotomy k k' with hlt | heq | hlt
  · exact absurd hcall (hone k k' hk hk' hlt ht ht')
  · exact heq
  · exact absurd hcall.symm (hone k' k hk' hk hlt ht' ht)

/-- The call of `i` was for `j`, or for what the table of `i` keeps as `j`, with the plaintext. -/
def CallFor (ids : ι → Bytes) (st : Outposts ι) (i j : ι) (n : ℕ) (plaintext : Bytes) : Prop :=
  ∃ remote, (st.node i).calls[n]? = some (remote, plaintext) ∧
    (ids j = remote ∨ ids j = cText remote)

/-- What the callbacks were given of `i` are messages of its calls, one for each frame that was
handed over, and none of a call twice. -/
def Delivered (ids : ι → Bytes) (st : Outposts ι) (i : ι) : Prop :=
  ∃ calls : ι → List ℕ,
    (∀ j, (calls j).Nodup ∧ (calls j).length = (st.handed (i, j)).length ∧
      List.Forall₂ (st.CallFor ids i j) (calls j) (st.inboxFrom ids i j)) ∧
    ∀ j j', j ≠ j' → List.Disjoint (calls j) (calls j')

omit [DecidableEq ι] in
theorem Inv.delivered (hids : Injective ids) (h : Inv S ids peerings st) (i : ι) :
    st.Delivered ids i := by
  have hhanded : ∀ j, ∀ k ∈ (st.handed (i, j)).reverse, ∃ f,
      ((st.node i).framesFor (ids j))[k]? = some f ∧ f.taken = true := fun j =>
    ((List.forall₂_and_left _ _).mp ((h.reached i j).imp (S := fun k _ => (∃ f,
      ((st.node i).framesFor (ids j))[k]? = some f ∧ f.taken = true) ∧ True)
      fun k m ⟨f, hf, ht, _⟩ => ⟨⟨f, hf, ht⟩, trivial⟩)).1
  -- the call of frame `k` of those for `j`
  let call (j : ι) (k : ℕ) : ℕ := (((st.node i).framesFor (ids j))[k]?.map Made.call).getD 0
  have hcall : ∀ {j k f}, ((st.node i).framesFor (ids j))[k]? = some f → call j k = f.call :=
    fun hf => by simp only [call, hf, Option.map_some, Option.getD_some]
  refine ⟨fun j => (st.handed (i, j)).reverse.map (call j), fun j => ⟨?_, ?_, ?_⟩, ?_⟩
  · refine (List.nodup_reverse.mpr (h.nodup (i, j))).map_on fun k hk k' hk' he => ?_
    obtain ⟨f, hf, ht⟩ := hhanded j k hk
    obtain ⟨f', hf', ht'⟩ := hhanded j k' hk'
    rw [hcall hf, hcall hf'] at he
    exact call_inj (h.sound i) hf hf' ht ht' he
  · rw [List.length_map, List.length_reverse]
  · refine List.forall₂_map_left_iff.mpr ((h.reached i j).imp fun k m ⟨f, hf, _, hm⟩ => ?_)
    have hmem := List.mem_filter.mp (List.mem_of_getElem? hf)
    obtain ⟨remote, hremote, hto⟩ := (h.sound i).genuine f hmem.1
    refine ⟨remote, ?_, ?_⟩
    · rw [hcall hf, hremote, hm]
    · rw [← of_decide_eq_true hmem.2]
      exact hto
  · intro j j' hne n hn hn'
    obtain ⟨k, hk, rfl⟩ := List.mem_map.mp hn
    obtain ⟨k', hk', he⟩ := List.mem_map.mp hn'
    obtain ⟨f, hf, ht⟩ := hhanded j k hk
    obtain ⟨f', hf', ht'⟩ := hhanded j' k' hk'
    rw [hcall hf, hcall hf'] at he
    -- one frame is for one device
    have hmem := List.mem_filter.mp (List.mem_of_getElem? hf)
    have hmem' := List.mem_filter.mp (List.mem_of_getElem? hf')
    have hsame : f' = f := List.inj_on_of_nodup_map (h.sound i).once
      (List.mem_filter.mpr ⟨hmem'.1, ht'⟩) (List.mem_filter.mpr ⟨hmem.1, ht⟩) he
    have hto := of_decide_eq_true hmem'.2
    rw [hsame, of_decide_eq_true hmem.2] at hto
    exact hne (hids hto)

open Network (Sending sampleIds sampleCalls samplePlaintext sending_start)
open Ratchet (sampleDraw)

/-- The transport does not take the message of alice, which is queued; a pass sends it again, and
that frame bob is handed. -/
def sampleEvents : List (Event Side) :=
  [.call .alice (.checkConnectivity false),
    .call .alice (.send (sampleIds .bob) samplePlaintext 1700000000000 ⟨sampleDraw, false⟩
      1700000000 true),
    .call .alice (.beginRetry true),
    .call .alice (.retryNext ⟨sampleDraw, true⟩ 1700000030 true),
    .deliver .alice .bob 1]

end Outposts

end SecureComm
