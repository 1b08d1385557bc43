import SecureComm.Server.Registry

/-!
# Where messages come from

Every message the relay holds or has handed over is a copy of a frame that was
read, changed in nothing but its time stamp, or the answer to a payment; and it
is kept for, or was handed to, the recipient it names.
-/

namespace SecureComm.Server

open Function Run

/-- The number of the frame that a datum is a copy of. -/
def Tag.frame? : Tag → Option ℕ
  | .raw k | .own k => some k
  | .ack _ => none

/-- The bytes are what a message is sent as. -/
def Encodes (J : Json) (data : Bytes) (m : Message) : Prop :=
  J.unmarshal data = some m ∨ data = J.marshal m

namespace Relay

variable {J : Json} {st st' : Relay}

/-- Frame `k` was read from the connection and is well formed. -/
def Read (J : Json) (st : Relay) (k c : ℕ) (m : Message) : Prop :=
  ∃ data, st.frames[k]? = some ⟨c, data⟩ ∧ J.unmarshal data = some m

/-- The message is what its tag says. -/
def Copy (J : Json) (st : Relay) : Tag → Message → Prop
  | .raw k, msg => ∃ c m now, Read J st k c m ∧ msg = m.stamped now
  | .own k, msg => ∃ c m now, Read J st k c m ∧ ¬ m.IsPayment ∧ msg = m.stamped now
  | .ack j, msg => ∃ p now, st.payments[j]? = some p ∧
      msg = paymentAck J p.request p.senderID now

/-- A call of `Hub.send` is made by the goroutine that read the frame, or by
that of the payment. -/
def Made (J : Json) (st : Relay) (g : Goroutine) (s : Send) : Prop :=
  match s.caller with
  | .readLoop => ∃ c, g = .serve c ∧ st.frames[s.number]? = some ⟨c, s.data⟩ ∧
      J.unmarshal s.data = some s.message
  | .processMessage => ∃ c m now, g = .serve c ∧ Read J st s.number c m ∧ ¬ m.IsPayment ∧
      s.message = m.stamped now ∧ s.data = J.marshal s.message
  | .processPayment => ∃ p now, g = .pay s.number ∧ st.payments[s.number]? = some p ∧
      s.message = paymentAck J p.request p.senderID now ∧ s.data = J.marshal s.message

/-- What a goroutine is at fits what was read. -/
def Justified (J : Json) (st : Relay) (g : Goroutine) : Pc → Prop
  | .processing k data => ∃ c, g = .serve c ∧ st.frames[k]? = some ⟨c, data⟩
  | .paying j req senderID => ∃ k, g = .pay j ∧ st.payments[j]? = some ⟨k, req, senderID⟩
  | p => ∀ s, p.send? = some s → Made J st g s ∧
      ∀ c, p.Targets c → (st.client c).id = s.message.recipient

/-- Something handed to a connection is for its user. -/
def Handed (J : Json) (st : Relay) (h : Handing) : Prop :=
  h.conn < st.conns ∧ ∃ m, Encodes J h.item.data m ∧ Copy J st h.item.tag m ∧
    m.recipient = (st.client h.conn).id

/-- Something in the queue of a user is for that user, and no raw frame. -/
def Kept (J : Json) (st : Relay) (id : String) (e : Queued) : Prop :=
  e.message.recipient = id ∧ (∀ k, e.tag ≠ .raw k) ∧ Copy J st e.tag e.message

/-- A payment is made for a payment frame, on behalf of the sender it names. -/
def Paid (J : Json) (st : Relay) (p : Payment) : Prop :=
  ∃ c m, Read J st p.frame c m ∧ m.IsPayment ∧ J.unmarshalPayment m.payload = some p.request ∧
    p.senderID = m.senderID

structure Provenance (J : Json) (st : Relay) : Prop where
  pcs : ∀ g, Justified J st g (st.pc g)
  rows : ∀ r ∈ st.queuedMessages, Copy J st (.raw r.frame) r.message
  queue : ∀ id, ∀ e ∈ st.queue id, Kept J st id e
  handed : ∀ h ∈ st.handed, Handed J st h
  payments : ∀ p ∈ st.payments, Paid J st p

theorem start_provenance (J : Json) : Provenance J start where
  pcs _ _ h := by cases h
  rows _ h := by cases h
  queue _ _ h := by cases h
  handed _ h := by cases h
  payments _ h := by cases h

/-! ## Records only grow -/

structure Extends (st st' : Relay) : Prop where
  frames : st.frames <+: st'.frames
  payments : st.payments <+: st'.payments
  conns : st.conns ≤ st'.conns
  id : ∀ c < st.conns, (st'.client c).id = (st.client c).id

theorem Extends.refl (st : Relay) : Extends st st :=
  ⟨List.prefix_refl _, List.prefix_refl _, Nat.le_refl _, fun _ _ => rfl⟩

theorem Extends.of_eq (hf : st'.frames = st.frames) (hp : st'.payments = st.payments)
    (hn : st'.conns = st.conns) (hid : ∀ c, (st'.client c).id = (st.client c).id) : Extends st st' :=
  ⟨hf ▸ List.prefix_refl _, hp ▸ List.prefix_refl _, hn.ge, fun c _ => hid c⟩

theorem Extends.frame {k : ℕ} {f : Frame} (he : Extends st st') (h : st.frames[k]? = some f) :
    st'.frames[k]? = some f := by
  obtain ⟨l, hl⟩ := he.frames
  rw [← hl, List.getElem?_append_left (List.getElem?_eq_some_iff.mp h).1]
  exact h

theorem Extends.payment {j : ℕ} {p : Payment} (he : Extends st st')
    (h : st.payments[j]? = some p) : st'.payments[j]? = some p := by
  obtain ⟨l, hl⟩ := he.payments
  rw [← hl, List.getElem?_append_left (List.getElem?_eq_some_iff.mp h).1]
  exact h

theorem Read.mono {k c : ℕ} {m : Message} (h : Read J st k c m) (he : Extends st st') :
    Read J st' k c m := by
  obtain ⟨data, hk, hd⟩ := h
  exact ⟨data, he.frame hk, hd⟩

theorem Read.unique {k c c' : ℕ} {m m' : Message} (h : Read J st k c m) (h' : Read J st k c' m') :
    c = c' ∧ m = m' := by
  obtain ⟨data, hk, hd⟩ := h
  obtain ⟨data', hk', hd'⟩ := h'
  obtain ⟨rfl, rfl⟩ := Frame.mk.inj (Option.some.inj (hk.symm.trans hk'))
  exact ⟨rfl, Option.some.inj (hd.symm.trans hd')⟩

theorem Copy.mono {t : Tag} {m : Message} (h : Copy J st t m) (he : Extends st st') :
    Copy J st' t m := by
  cases t with
  | raw k => obtain ⟨c, m, now, hr, hm⟩ := h; exact ⟨c, m, now, hr.mono he, hm⟩
  | own k => obtain ⟨c, m, now, hr, hm⟩ := h; exact ⟨c, m, now, hr.mono he, hm⟩
  | ack j => obtain ⟨p, now, hp, hm⟩ := h; exact ⟨p, now, he.payment hp, hm⟩

theorem Made.mono {g : Goroutine} {s : Send} (h : Made J st g s) (he : Extends st st') :
    Made J st' g s := by
  unfold Made at h ⊢
  split at h
  · obtain ⟨c, hg, hf, hm⟩ := h; exact ⟨c, hg, he.frame hf, hm⟩
  · obtain ⟨c, m, now, hg, hr, hm⟩ := h; exact ⟨c, m, now, hg, hr.mono he, hm⟩
  · obtain ⟨p, now, hg, hp, hm⟩ := h; exact ⟨p, now, hg, he.payment hp, hm⟩

theorem Justified.mono {g : Goroutine} {p : Pc} (h : Justified J st g p) (he : Extends st st')
    (ht : ∀ c, p.Targets c → c < st.conns) : Justified J st' g p := by
  have hsend : ∀ s, p.send? = some s →
      (Made J st g s ∧ ∀ c, p.Targets c → (st.client c).id = s.message.recipient) →
      Made J st' g s ∧ ∀ c, p.Targets c → (st'.client c).id = s.message.recipient :=
    fun s _ hs => ⟨hs.1.mono he, fun c hc => by rw [he.id c (ht c hc)]; exact hs.2 c hc⟩
  cases p
  case processing k data => obtain ⟨c, hg, hf⟩ := h; exact ⟨c, hg, he.frame hf⟩
  case paying j req senderID => obtain ⟨k, hg, hp⟩ := h; exact ⟨k, hg, he.payment hp⟩
  all_goals exact fun s hs => hsend s hs (h s hs)

theorem Handed.mono {x : Handing} (h : Handed J st x) (he : Extends st st') : Handed J st' x := by
  obtain ⟨hlt, m, hd, hc, hr⟩ := h
  exact ⟨hlt.trans_le he.conns, m, hd, hc.mono he, by rw [he.id _ hlt]; exact hr⟩

theorem Kept.mono {id : String} {e : Queued} (h : Kept J st id e) (he : Extends st st') :
    Kept J st' id e := ⟨h.1, h.2.1, h.2.2.mono he⟩

theorem Paid.mono {p : Payment} (h : Paid J st p) (he : Extends st st') : Paid J st' p := by
  obtain ⟨c, m, hr, hm⟩ := h
  exact ⟨c, m, hr.mono he, hm⟩

/-! ## Steps -/

theorem update_id {c : ℕ} {cl : Client} (h : cl.id = (st.client c).id) (d : ℕ) :
    (update st.client c cl d).id = (st.client d).id := by
  by_cases hd : d = c
  · subst hd; rw [update_self]; exact h
  · rw [update_of_ne hd]

/-- **A step only adds to what is recorded**, and clients keep their ids. -/
theorem step_extends (J : Json) (st : Relay) (a : Act) : Extends st (st.step J a) := by
  have hop := step_op J st a
  generalize st.step J a = st' at hop ⊢
  cases hop with
  | none => exact .refl st
  | accounts => exact .of_eq rfl rfl rfl fun _ => rfl
  | accept =>
    exact ⟨List.prefix_refl _, List.prefix_refl _, Nat.le_succ _, fun c hc => by
      unfold accept; simp only [update_of_ne hc.ne]⟩
  | hangup => exact .of_eq rfl rfl rfl fun _ => rfl
  | readFrame => exact ⟨List.prefix_append _ _, List.prefix_refl _, Nat.le_refl _, fun _ _ => rfl⟩
  | drain =>
    unfold drain
    split
    · exact .of_eq rfl rfl rfl fun _ => handAll_id
    · exact .of_eq rfl rfl rfl fun _ => rfl
  | delete => unfold delete; split <;> exact .of_eq rfl rfl rfl fun _ => rfl
  | register =>
    refine .of_eq rfl rfl rfl fun d => ?_
    unfold register
    simp only [goto_client, handAll_id]
    exact update_id (by rfl) d
  | lookup => exact .of_eq rfl rfl rfl fun _ => rfl
  | check => exact .of_eq rfl rfl rfl fun _ => rfl
  | push =>
    unfold push
    split
    · exact .of_eq rfl rfl rfl fun _ => rfl
    split
    · exact .of_eq rfl rfl rfl fun _ => handAll_id
    · exact .of_eq rfl rfl rfl fun _ => rfl
  | fallBack =>
    unfold fallBack
    split
    · split <;> exact .of_eq rfl rfl rfl fun _ => rfl
    · exact .of_eq rfl rfl rfl fun _ => rfl
  | process =>
    unfold processMessage
    split
    · exact .of_eq rfl rfl rfl fun _ => rfl
    · simp only
      split
      · split
        · exact ⟨List.prefix_refl _, List.prefix_append _ _, Nat.le_refl _, fun _ _ => rfl⟩
        · exact .of_eq rfl rfl rfl fun _ => rfl
      · exact .of_eq rfl rfl rfl fun _ => rfl
  | pay => exact .of_eq rfl rfl rfl fun _ => rfl
  | unregister =>
    unfold unregister
    simp only
    split
    · exact .of_eq rfl rfl rfl fun _ => rfl
    · split
      · exact .of_eq rfl rfl rfl fun _ => rfl
      · exact .of_eq rfl rfl rfl fun d => update_id (by rfl) d
  | write =>
    unfold write
    split
    · split
      · exact .of_eq rfl rfl rfl fun d => update_id (by split <;> rfl) d
      · exact .refl st
    · exact .refl st

namespace Provenance

/-- Where records only grow, what is new is all that has to be justified. -/
theorem extend (h : Provenance J st) (hr : Registry st) (he : Extends st st')
    (hpcs : ∀ g, st'.pc g = st.pc g ∨ Justified J st' g (st'.pc g))
    (hrows : ∀ r ∈ st'.queuedMessages, r ∈ st.queuedMessages ∨ Copy J st' (.raw r.frame) r.message)
    (hqueue : ∀ id, ∀ e ∈ st'.queue id, e ∈ st.queue id ∨ Kept J st' id e)
    (hhanded : ∀ x ∈ st'.handed, x ∈ st.handed ∨ Handed J st' x)
    (hpay : ∀ p ∈ st'.payments, p ∈ st.payments ∨ Paid J st' p) : Provenance J st' where
  pcs g := (hpcs g).elim
    (fun hg => hg ▸ (h.pcs g).mono he fun c hc => hr.lt_conns (hr.target g c hc)) id
  rows r hm := (hrows r hm).elim (fun hm => (h.rows r hm).mono he) id
  queue id e hm := (hqueue id e hm).elim (fun hm => (h.queue id e hm).mono he) fun hm => hm
  handed x hm := (hhanded x hm).elim (fun hm => (h.handed x hm).mono he) id
  payments p hm := (hpay p hm).elim (fun hm => (h.payments p hm).mono he) id

theorem same (h : Provenance J st) (hr : Registry st) (he : Extends st st')
    (hpcs : ∀ g, st'.pc g = st.pc g ∨ Justified J st' g (st'.pc g))
    (hrows : st'.queuedMessages = st.queuedMessages) (hqueue : st'.queue = st.queue)
    (hhanded : st'.handed = st.handed) (hpay : st'.payments = st.payments) : Provenance J st' :=
  h.extend hr he hpcs (fun _ hm => .inl (hrows ▸ hm)) (fun _ _ hm => .inl (hqueue ▸ hm))
    (fun _ hm => .inl (hhanded ▸ hm)) fun _ hm => .inl (hpay ▸ hm)

theorem goto (h : Provenance J st) (hr : Registry st) {g : Goroutine} {p : Pc}
    (hp : Justified J st g p) : Provenance J (st.goto g p) := by
  refine h.same hr (.of_eq rfl rfl rfl fun _ => rfl) (fun g' => ?_) rfl rfl rfl rfl
  by_cases hg : g' = g
  · subst hg
    rw [goto_pc, update_self]
    exact .inr hp
  · exact .inl (update_of_ne hg ..)

theorem handAll (h : Provenance J st) (hr : Registry st) {c : ℕ} {items : List Item}
    (hitems : ∀ x ∈ items, Handed J st ⟨c, x⟩) : Provenance J (st.handAll c items) := by
  have he : Extends st (st.handAll c items) := .of_eq rfl rfl rfl fun _ => handAll_id
  refine h.extend hr he (fun _ => .inl rfl) (fun _ => .inl) (fun _ _ => .inl) (fun x hx => ?_)
    fun _ => .inl
  rcases List.mem_append.mp hx with hx | hx
  · exact .inl hx
  · obtain ⟨i, hi, rfl⟩ := List.mem_map.mp hx
    exact .inr ((hitems i (List.mem_of_mem_take hi)).mono he)

theorem goto_next (h : Provenance J st) (hr : Registry st) {g : Goroutine} {s : Send}
    (hs : Made J st g s) : Provenance J (st.goto g s.next) := by
  refine h.goto hr ?_
  unfold Send.next
  unfold Made at hs
  split
  · rename_i hc
    rw [hc] at hs
    obtain ⟨c, hg, hf, -⟩ := hs
    exact ⟨c, hg, hf⟩
  · intro _ hx; cases hx
  · intro _ hx; cases hx

/-- The frame, or payment, a goroutine in a `Hub.send` is about. -/
theorem made (h : Provenance J st) {g : Goroutine} {s : Send} (hs : (st.pc g).send? = some s) :
    Made J st g s := by
  have hj := h.pcs g
  revert hs hj
  cases st.pc g <;> intro hs hj
  case processing => cases hs
  case paying => cases hs
  all_goals exact (hj s hs).1

theorem target (h : Provenance J st) {g : Goroutine} {s : Send} {c : ℕ}
    (hs : (st.pc g).send? = some s) (ht : (st.pc g).Targets c) :
    (st.client c).id = s.message.recipient := by
  have hj := h.pcs g
  revert hs hj ht
  cases st.pc g <;> intro hs ht hj
  case processing => cases hs
  case paying => cases hs
  all_goals exact (hj s hs).2 c ht

end Provenance

theorem Made.copy {g : Goroutine} {s : Send} (h : Made J st g s) :
    Encodes J s.data s.message ∧ Copy J st s.tag s.message := by
  unfold Made at h
  unfold Send.tag
  cases hc : s.caller with
  | readLoop =>
    rw [hc] at h
    obtain ⟨c, -, hf, hm⟩ := h
    exact ⟨.inl hm, c, s.message, s.message.timestamp, ⟨_, hf, hm⟩, rfl⟩
  | processMessage =>
    rw [hc] at h
    obtain ⟨c, m, now, -, hr, hp, hm, hd⟩ := h
    exact ⟨.inr hd, c, m, now, hr, hp, hm⟩
  | processPayment =>
    rw [hc] at h
    obtain ⟨p, now, -, hp, hm, hd⟩ := h
    exact ⟨.inr hd, p, now, hp, hm⟩

namespace Provenance

theorem drain (h : Provenance J st) (hr : Registry st) {c : ℕ} {ok : Bool}
    (hpc : st.pc (.serve c) = .querying) : Provenance J (st.drain J c ok) := by
  have hlt : c < st.conns := hr.lt_conns_of_ne (by rw [hpc]; exact Pc.noConfusion)
  unfold Relay.drain
  split
  · refine (h.handAll hr fun x hx => ?_).goto (hr.handAll c _) ?_
    · obtain ⟨r, hm, rfl⟩ := List.mem_map.mp hx
      obtain ⟨hm, hid⟩ := List.mem_filter.mp hm
      exact ⟨hlt, r.message, .inr rfl, h.rows r hm, of_decide_eq_true hid⟩
    · split <;> (intro _ hs; cases hs)
  · exact h.goto hr fun _ hs => by cases hs

theorem delete (h : Provenance J st) (hr : Registry st) (c : ℕ) (ok : Bool) :
    Provenance J (st.delete c ok) := by
  unfold Relay.delete
  split
  · have h' : Provenance J { st with
        queuedMessages := st.queuedMessages.filter fun r => r.recipient ≠ (st.client c).id } :=
      h.extend hr (.of_eq rfl rfl rfl fun _ => rfl) (fun _ => .inl rfl)
        (fun r hm => .inl (List.mem_filter.mp hm).1) (fun _ _ => .inl) (fun _ => .inl) fun _ => .inl
    exact h'.goto (hr.congr rfl rfl rfl rfl fun _ => ⟨rfl, rfl, rfl⟩) fun _ hs => by cases hs
  · exact h.goto hr fun _ hs => by cases hs

theorem readFrame (h : Provenance J st) (hr : Registry st) {c : ℕ} {data : Bytes} :
    Provenance J (st.readFrame J c data) := by
  have hr' : Registry { st with frames := st.frames ++ [Frame.mk c data] } :=
    hr.congr rfl rfl rfl rfl fun _ => ⟨rfl, rfl, rfl⟩
  have h' : Provenance J { st with frames := st.frames ++ [Frame.mk c data] } :=
    h.extend hr ⟨List.prefix_append _ _, List.prefix_refl _, Nat.le_refl _, fun _ _ => rfl⟩
      (fun _ => .inl rfl) (fun _ => .inl) (fun _ _ => .inl) (fun _ => .inl) fun _ => .inl
  have hk : (st.frames ++ [Frame.mk c data])[st.frames.length]? = some ⟨c, data⟩ :=
    List.getElem?_concat_length
  unfold Relay.readFrame
  cases hm : J.unmarshal data with
  | none => exact h'.goto hr' ⟨c, rfl, hk⟩
  | some m =>
    refine h'.goto hr' fun s hs => ?_
    cases hs
    exact ⟨⟨c, rfl, hk, hm⟩, fun _ ht => ht.elim⟩

theorem register (h : Provenance J st) (hr : Registry st) {c : ℕ}
    (hpc : st.pc (.serve c) = .registering) : Provenance J (st.register J c) := by
  have hlt : c < st.conns := hr.lt_conns_of_ne (by rw [hpc]; exact Pc.noConfusion)
  have he : Extends st (st.register J c) := by
    refine .of_eq rfl rfl rfl fun d => ?_
    unfold Relay.register
    simp only [goto_client, handAll_id]
    exact update_id (by rfl) d
  refine h.extend hr he (fun g => ?_) (fun _ => .inl) (fun id e hm => ?_) (fun x hx => ?_)
    fun _ => .inl
  · by_cases hg : g = .serve c
    · subst hg
      have : (st.register J c).pc (.serve c) = .reading := update_self ..
      rw [this]
      exact .inr fun _ hs => by cases hs
    · exact .inl (update_of_ne hg ..)
  · have hm' : e ∈ update st.queue (st.client c).id [] id := hm
    by_cases hid : id = (st.client c).id
    · rw [hid, update_self] at hm'; cases hm'
    · rw [update_of_ne hid] at hm'; exact .inl hm'
  · rcases List.mem_append.mp hx with hx | hx
    · exact .inl hx
    · obtain ⟨i, hi, rfl⟩ := List.mem_map.mp hx
      obtain ⟨e, hm, rfl⟩ := List.mem_map.mp (List.mem_of_mem_take hi)
      obtain ⟨hrec, -, hcopy⟩ := h.queue _ e hm
      exact .inr (Handed.mono ⟨hlt, e.message, .inr rfl, hcopy, hrec⟩ he)

theorem push (h : Provenance J st) (hr : Registry st) {g : Goroutine} {s : Send} {c : ℕ}
    (hpc : st.pc g = .push s c) : Provenance J (st.push g s c) := by
  have hs : (st.pc g).send? = some s := by rw [hpc]; rfl
  have ht : (st.pc g).Targets c := by rw [hpc]; rfl
  have hmade := h.made hs
  unfold Relay.push
  split
  · exact h.same hr (.of_eq rfl rfl rfl fun _ => rfl) (fun _ => .inl rfl) rfl rfl rfl rfl
  split
  · refine (h.handAll hr fun x hx => ?_).goto_next (hr.handAll c _)
      (hmade.mono (.of_eq rfl rfl rfl fun _ => handAll_id))
    obtain rfl := List.mem_singleton.mp hx
    exact ⟨hr.lt_conns (hr.target g c ht), s.message, hmade.copy.1, hmade.copy.2,
      (h.target hs ht).symm⟩
  · exact h.goto hr fun s' hs' => by
      cases hs'
      exact ⟨hmade, fun _ ht' => ht'.elim⟩

theorem fallBack (h : Provenance J st) (hr : Registry st) {g : Goroutine} {s : Send} {ok : Bool}
    {now : Int64} (hpc : st.pc g = .refused s) : Provenance J (st.fallBack g s ok now) := by
  have hmade := h.made (s := s) (by rw [hpc]; rfl)
  have hcopy := hmade.copy.2
  unfold Relay.fallBack
  split
  · rename_i hc
    split
    · have he : Extends st { st with queuedMessages := st.queuedMessages ++ [s.row now] } :=
        .of_eq rfl rfl rfl fun _ => rfl
      refine (h.extend hr he (fun _ => .inl rfl) (fun r hm => ?_) (fun _ _ => .inl) (fun _ => .inl)
        fun _ => .inl).goto_next (hr.congr rfl rfl rfl rfl fun _ => ⟨rfl, rfl, rfl⟩) (hmade.mono he)
      rcases List.mem_append.mp hm with hm | hm
      · exact .inl hm
      · obtain rfl := List.mem_singleton.mp hm
        unfold Send.tag at hcopy
        rw [hc] at hcopy
        obtain ⟨c, m, now', hread, hm'⟩ := hcopy
        exact .inr ⟨c, m, now, hread.mono he, by
          rw [show (s.row now).message = s.message.stamped now from rfl, hm']; rfl⟩
    · exact h.goto_next hr hmade
  · rename_i hc
    have he : Extends st (st.queueMessage s.tag s.message) := .of_eq rfl rfl rfl fun _ => rfl
    refine (h.extend hr he (fun _ => .inl rfl) (fun _ => .inl) (fun id e hm => ?_) (fun _ => .inl)
      fun _ => .inl).goto_next (hr.congr rfl rfl rfl rfl fun _ => ⟨rfl, rfl, rfl⟩) (hmade.mono he)
    have hm' : e ∈ update st.queue s.message.recipient
      (st.queue s.message.recipient ++ [⟨s.tag, s.message⟩]) id := hm
    by_cases hid : id = s.message.recipient
    · subst hid
      rw [update_self] at hm'
      rcases List.mem_append.mp hm' with hm' | hm'
      · exact .inl hm'
      · obtain rfl := List.mem_singleton.mp hm'
        refine .inr ⟨rfl, fun k hk => ?_, hcopy.mono he⟩
        change s.tag = .raw k at hk
        unfold Send.tag at hk
        split at hk
        · exact hc ‹_›
        · cases hk
        · cases hk
    · rw [update_of_ne hid] at hm'; exact .inl hm'

theorem processMessage (h : Provenance J st) (hr : Registry st) {g : Goroutine} {k : ℕ}
    {data : Bytes} {now : Int64} (hpc : st.pc g = .processing k data) :
    Provenance J (st.processMessage J g k data now) := by
  have hj := h.pcs g
  rw [hpc] at hj
  obtain ⟨c, hg, hf⟩ := hj
  have hreading : Provenance J (st.goto g .reading) := h.goto hr fun _ hs => by cases hs
  unfold Relay.processMessage
  cases hm : J.unmarshal data with
  | none => exact hreading
  | some m =>
    have hread : Read J st k c m := ⟨data, hf, hm⟩
    simp only
    split
    · rename_i hpay
      cases hreq : J.unmarshalPayment (m.stamped now).payload with
      | none => exact hreading
      | some payment =>
        refine h.extend hr ⟨List.prefix_refl _, List.prefix_append _ _, Nat.le_refl _,
          fun _ _ => rfl⟩ (fun g' => ?_) (fun _ => .inl) (fun _ _ => .inl) (fun _ => .inl)
          fun p hp => ?_
        · by_cases hg' : g' = .pay st.payments.length
          · subst hg'
            simp only [update_self]
            exact .inr ⟨k, rfl, List.getElem?_concat_length⟩
          · simp only [update_of_ne hg']
            by_cases hgg : g' = g
            · subst hgg
              simp only [update_self]
              exact .inr fun _ hs => by cases hs
            · exact .inl (update_of_ne hgg ..)
        · rcases List.mem_append.mp hp with hp | hp
          · exact .inl hp
          · obtain rfl := List.mem_singleton.mp hp
            exact .inr ⟨c, m, hread, hpay, hreq, rfl⟩
    · rename_i hpay
      refine h.goto hr fun s hs => ?_
      cases hs
      exact ⟨⟨c, m, now, hg, hread, hpay, rfl, rfl⟩, fun _ ht => ht.elim⟩

theorem processPayment (h : Provenance J st) (hr : Registry st) {g : Goroutine} {j : ℕ}
    {req : PaymentRequest} {senderID : String} {now : Int64}
    (hpc : st.pc g = .paying j req senderID) :
    Provenance J (st.processPayment J g j req senderID now) := by
  have hj := h.pcs g
  rw [hpc] at hj
  obtain ⟨k, hg, hp⟩ := hj
  unfold Relay.processPayment
  refine h.goto hr fun s hs => ?_
  cases hs
  exact ⟨⟨_, now, hg, hp, rfl, rfl⟩, fun _ ht => ht.elim⟩

theorem unregister (h : Provenance J st) (hr : Registry st) (c : ℕ) :
    Provenance J (st.unregister c) := by
  unfold Relay.unregister
  simp only
  split
  · exact h.goto hr fun _ hs => by cases hs
  · rename_i d hd
    split
    · exact h.same hr (.of_eq rfl rfl rfl fun _ => rfl) (fun _ => .inl rfl) rfl rfl rfl rfl
    · have h' : Provenance J { st with
          clients := update st.clients (st.client c).id none
          client := update st.client d
            { st.client d with online := false, send := (st.client d).send.close } } :=
        h.same hr (.of_eq rfl rfl rfl fun e => update_id (by rfl) e) (fun _ => .inl rfl) rfl rfl
          rfl rfl
      exact h'.goto (hr.retire hd) fun _ hs => by cases hs

theorem write (h : Provenance J st) (hr : Registry st) (c : ℕ) (ok : Bool) :
    Provenance J (st.write c ok) := by
  unfold Relay.write
  split
  · split
    · exact h.same hr (.of_eq rfl rfl rfl fun d => update_id (by split <;> rfl) d)
        (fun _ => .inl rfl) rfl rfl rfl rfl
    · exact h
  · exact h

/-- **Every step keeps it.** -/
theorem step (a : Act) (h : Provenance J st) (hr : Registry st) : Provenance J (st.step J a) := by
  have he := step_extends J st a
  have hop := step_op J st a
  generalize st.step J a = st' at hop he ⊢
  cases hop with
  | none => exact h
  | accounts users =>
    exact h.same hr he (fun _ => .inl rfl) rfl rfl rfl rfl
  | accept =>
    refine h.same hr he (fun g => ?_) rfl rfl rfl rfl
    unfold Relay.accept
    by_cases hg : g = .serve st.conns
    · subst hg
      simp only [update_self]
      exact .inr fun _ hs => by cases hs
    · exact .inl (update_of_ne hg ..)
  | hangup => exact h.goto hr fun _ hs => by cases hs
  | readFrame => exact h.readFrame hr
  | drain hpc => exact h.drain hr hpc
  | delete => exact h.delete hr _ _
  | register hpc => exact h.register hr hpc
  | @lookup g s _ _ hpc =>
    refine h.goto hr fun s' hs => ?_
    cases hs
    exact ⟨h.made (by rw [hpc]; rfl), fun c ht => (hr.listed _ c ht).1⟩
  | @check g s t _ _ hpc =>
    have hs : (st.pc g).send? = some s := by rw [hpc]; rfl
    refine h.goto hr ?_
    unfold checked
    cases t with
    | none => exact fun s' hs' => by cases hs'; exact ⟨h.made hs, fun _ ht => ht.elim⟩
    | some c =>
      simp only
      split
      · intro s' hs'
        cases hs'
        exact ⟨h.made hs, fun d hd => hd ▸ h.target hs (by rw [hpc]; rfl)⟩
      · exact fun s' hs' => by cases hs'; exact ⟨h.made hs, fun _ ht => ht.elim⟩
  | push hpc => exact h.push hr hpc
  | fallBack hpc => exact h.fallBack hr hpc
  | process hpc => exact h.processMessage hr hpc
  | pay hpc => exact h.processPayment hr hpc
  | unregister => exact h.unregister hr _
  | write c ok => exact h.write hr c ok

end Provenance

/-! ## Every run -/

/-- The two invariants that hold of every run, as a guarded run uses them. -/
structure Sound (J : Json) (st : Relay) : Prop where
  registry : Registry st
  provenance : Provenance J st

theorem start_sound (J : Json) : Sound J start := ⟨start_registry, start_provenance J⟩

theorem Sound.step (J : Json) (st : Relay) (a : Act) (h : Sound J st) : Sound J (step J st a) :=
  ⟨h.registry.step J st a, h.provenance.step a h.registry⟩

theorem run_provenance (J : Json) (acts : List Act) : Provenance J (run J acts) :=
  (Run.invariant (Sound.step J) acts (start_sound J)).provenance

/-! ## Senders -/

/-- Whatever is handed over, persisted, queued or paid for a frame names as its
sender the one that `who` gives for the frame and the connection it was read from. -/
structure Senders (J : Json) (st : Relay) (who : ℕ → Message → String) : Prop where
  handed : ∀ h ∈ st.handed, ∀ k, h.item.tag.frame? = some k →
    ∃ c m m', Read J st k c m ∧ Encodes J h.item.data m' ∧ m'.senderID = who c m
  rows : ∀ r ∈ st.queuedMessages, ∃ c m, Read J st r.frame c m ∧ r.sender = who c m
  queue : ∀ id, ∀ e ∈ st.queue id, ∀ k, e.tag.frame? = some k →
    ∃ c m, Read J st k c m ∧ e.message.senderID = who c m
  payments : ∀ p ∈ st.payments, ∃ c m, Read J st p.frame c m ∧ p.senderID = who c m

theorem Copy.sender {t : Tag} {msg : Message} {k : ℕ} (h : Copy J st t msg)
    (hk : t.frame? = some k) : ∃ c m, Read J st k c m ∧ msg.senderID = m.senderID := by
  cases t with
  | raw k' =>
    obtain rfl := Option.some.inj hk
    obtain ⟨c, m, now, hr, rfl⟩ := h
    exact ⟨c, m, hr, rfl⟩
  | own k' =>
    obtain rfl := Option.some.inj hk
    obtain ⟨c, m, now, hr, -, rfl⟩ := h
    exact ⟨c, m, hr, rfl⟩
  | ack => cases hk

theorem Copy.recipient {t : Tag} {msg m : Message} {k c : ℕ} (h : Copy J st t msg)
    (hk : t.frame? = some k) (hread : Read J st k c m) : msg.recipient = m.recipient := by
  cases t with
  | raw k' =>
    obtain rfl := Option.some.inj hk
    obtain ⟨c', m', now, hr, rfl⟩ := h
    obtain ⟨-, rfl⟩ := hr.unique hread
    rfl
  | own k' =>
    obtain rfl := Option.some.inj hk
    obtain ⟨c', m', now, hr, -, rfl⟩ := h
    obtain ⟨-, rfl⟩ := hr.unique hread
    rfl
  | ack => cases hk

/-- **The relay passes on the sender that a frame declares**, on every path a
frame can take; it neither sets nor checks it. -/
theorem sender_as_declared (J : Json) (acts : List Act) :
    Senders J (run J acts) fun _ m => m.senderID := by
  have h := run_provenance J acts
  exact
    { handed := fun x hx k hk => by
        obtain ⟨-, m', hd, hc, -⟩ := h.handed x hx
        obtain ⟨c, m, hr, hs⟩ := hc.sender hk
        exact ⟨c, m, m', hr, hd, hs⟩
      rows := fun r hr => (h.rows r hr).sender rfl
      queue := fun id e he k hk => (h.queue id e he).2.2.sender hk
      payments := fun p hp => by
        obtain ⟨c, m, hr, -, -, hs⟩ := h.payments p hp
        exact ⟨c, m, hr, hs⟩ }

/-! ## A spoofed frame -/

end Relay

namespace Sample

open Relay

def users : Users :=
  (Users.empty.replace { id := "alice", token := some "ta" }).replace
    { id := "bob", token := some "tb" }

def connects (token : String) (c : ℕ) : List Act :=
  [.connect token, .next (.serve c) true 0, .next (.serve c) true 0]

def steps (c n : ℕ) : List Act := List.replicate n (.next (.serve c) true 0)

/-- Alice, on connection 0, sends Bob, who is offline, a frame that names Carol
as its sender; it is persisted. -/
def spoof : List Act :=
  .accounts users :: connects "ta" 0 ++ [.read 0 (some (text (hello "carol" "1")))] ++ steps 0 3

/-- **A frame need not name the user it came from.** -/
theorem spoofed_sender_persisted : ¬ Senders json (run json spoof) fun c _ =>
    ((run json spoof).client c).id := by
  intro h
  have hsender : (run json spoof).queuedMessages.map QueuedMessage.sender = ["carol"] := by
    decide +kernel
  have hconn : (run json spoof).frames.map Frame.conn = [0] := by decide +kernel
  have hid : ((run json spoof).client 0).id = "alice" := by decide +kernel
  obtain ⟨r, hr, hrs⟩ := List.mem_map.mp (hsender ▸ List.mem_singleton.mpr rfl :
    "carol" ∈ (run json spoof).queuedMessages.map QueuedMessage.sender)
  obtain ⟨c, m, ⟨data, hf, -⟩, hs⟩ := h.rows r hr
  have hc : c ∈ (run json spoof).frames.map Frame.conn :=
    List.mem_map.mpr ⟨⟨c, data⟩, List.mem_of_getElem? hf, rfl⟩
  rw [hconn, List.mem_singleton] at hc
  rw [hrs, hc, hid] at hs
  exact absurd hs (by decide)

end Sample

end SecureComm.Server
