import SecureComm.Lib.Depot
import SecureComm.Server.Routing

/-!
# What the relay sends of its own

The messages that `processMessage` makes of frames, and the answers that
`processPayment` makes to payments, whatever the read loop sends beside them.
The goroutine that is to send one is the clerk that holds it, the channels are
where it is put out and `h.queue` has the shelves, so every step is a few steps
of a depot (`step_carries`). So nothing is sent twice (`run_exact`), and what is
lost is what a channel has no room for when its client registers
(`keeps_iff_fits`).
-/

namespace SecureComm.Server

open Function Run

/-- What a goroutine in a `Hub.send` is still to send when the read loop's own is over. -/
def Send.due (s : Send) : Tag :=
  match s.caller with
  | .readLoop | .processMessage => .own s.number
  | .processPayment => .ack s.number

/-- What a goroutine is still to send. -/
def Pc.due? : Pc → Option Tag
  | .processing k _ => some (.own k)
  | .paying j _ _ => some (.ack j)
  | p => p.send?.map Send.due

def Tag.isRaw : Tag → Bool
  | .raw _ => true
  | _ => false

theorem Send.tag_due {s : Send} (h : s.caller ≠ .readLoop) : s.due = s.tag := by
  unfold Send.due Send.tag
  cases hc : s.caller with
  | readLoop => exact absurd hc h
  | processMessage => rfl
  | processPayment => rfl

theorem Send.due_isRaw (s : Send) : s.due.isRaw = false := by
  unfold Send.due; split <;> rfl

theorem Send.next_due (s : Send) :
    s.next.due? = if s.caller = .readLoop then some s.due else none := by
  unfold Send.next Send.due
  cases s.caller <;> rfl

namespace Relay

variable {J : Json} {st st' : Relay}

def Issued (st : Relay) : Tag → Prop
  | .raw _ => False
  | .own k => k < st.frames.length
  | .ack j => j < st.payments.length

def depot (st : Relay) : Depot Goroutine Tag String where
  held g := (st.pc g).due?
  shelf id := (st.queue id).map Queued.tag
  out := st.tags.filter fun t => !t.isRaw
  issued := {t | st.Issued t}

/-- What an operation does for what the relay sends of its own. -/
inductive Carries (J : Json) (st : Relay) : Act → Relay → Prop where
  | rest {a : Act} {st' : Relay} (hd : st'.depot = st.depot) (hf : st'.frames = st.frames)
    (hp : st'.payments = st.payments) : Carries J st a st'
  | read {a : Act} {st' : Relay} {g : Goroutine} {f : Frame} (hg : (st.pc g).due? = none)
    (hd : st'.depot = st.depot.take g (.own st.frames.length))
    (hf : st'.frames = st.frames ++ [f]) (hp : st'.payments = st.payments) : Carries J st a st'
  | drop {a : Act} {st' : Relay} {g : Goroutine} {k : ℕ} (hg : (st.pc g).due? = some (.own k))
    (hk : ∀ c m, Read J st k c m → m.IsPayment ∧ J.unmarshalPayment m.payload = none)
    (hd : st'.depot = st.depot.drop g) (hf : st'.frames = st.frames)
    (hp : st'.payments = st.payments) : Carries J st a st'
  | pay {a : Act} {st' : Relay} {g : Goroutine} {k : ℕ} {p : Payment}
    (hg : (st.pc g).due? = some (.own k)) (hk : p.frame = k) (hpaid : Paid J st p)
    (hn : (st.pc (.pay st.payments.length)).due? = none)
    (hd : st'.depot = (st.depot.drop g).take (.pay st.payments.length) (.ack st.payments.length))
    (hf : st'.frames = st.frames) (hp : st'.payments = st.payments ++ [p]) : Carries J st a st'
  | put {a : Act} {st' : Relay} {g : Goroutine} {t : Tag} (hg : (st.pc g).due? = some t)
    (hk : ∀ k c m, t = .own k → Read J st k c m → ¬ m.IsPayment)
    (hd : st'.depot = st.depot.put g t) (hf : st'.frames = st.frames)
    (hp : st'.payments = st.payments) : Carries J st a st'
  | lay {a : Act} {st' : Relay} {g : Goroutine} {t : Tag} {i : String}
    (hg : (st.pc g).due? = some t) (hk : ∀ k c m, t = .own k → Read J st k c m → ¬ m.IsPayment)
    (hd : st'.depot = st.depot.lay g t i)
    (hf : st'.frames = st.frames) (hp : st'.payments = st.payments) : Carries J st a st'
  | clear {c : ℕ} {ok : Bool} {now : Int64} {st' : Relay}
    (hpc : st.pc (.serve c) = .registering)
    (hd : st'.depot = st.depot.clear (st.client c).id (st.client c).send.room)
    (hf : st'.frames = st.frames) (hp : st'.payments = st.payments) :
    Carries J st (.next (.serve c) ok now) st'

/-! ## Operations -/

theorem depot_eq {d : Depot Goroutine Tag String} (hheld : ∀ g, (st.pc g).due? = d.held g)
    (hshelf : ∀ id, (st.queue id).map Queued.tag = d.shelf id)
    (hout : (st.tags.filter fun t => !t.isRaw) = d.out)
    (hissued : ∀ t, st.Issued t ↔ t ∈ d.issued) : st.depot = d := by
  cases d
  unfold depot
  rw [funext hheld, funext hshelf, hout, show {t | st.Issued t} = _ from Set.ext hissued]

theorem depot_goto (st : Relay) (g : Goroutine) (p : Pc) :
    (st.goto g p).depot = { st.depot with held := update st.depot.held g p.due? } := by
  unfold depot
  congr 1
  funext g'
  rw [goto_pc]
  by_cases hg : g' = g
  · subst hg
    rw [update_self, update_self]
  · rw [update_of_ne hg, update_of_ne hg]

theorem depot_goto_same {g : Goroutine} {p : Pc} (h : p.due? = (st.pc g).due?) :
    (st.goto g p).depot = st.depot := by
  have hheld : update st.depot.held g p.due? = st.depot.held := by
    rw [h]
    exact update_eq_self g _
  rw [depot_goto, hheld]

theorem depot_goto_none {g : Goroutine} {p : Pc} (h : p.due? = none) :
    (st.goto g p).depot = st.depot.drop g := by
  rw [depot_goto, h]
  rfl

theorem depot_congr (hpc : st'.pc = st.pc) (hqueue : st'.queue = st.queue)
    (htags : st'.tags.filter (fun t => !t.isRaw) = st.tags.filter fun t => !t.isRaw)
    (hframes : st'.frames = st.frames) (hpayments : st'.payments = st.payments) :
    st'.depot = st.depot := by
  have hissued : {t | st'.Issued t} = {t | st.Issued t} := by
    ext t
    cases t with
    | raw k => exact Iff.rfl
    | own k => exact (congrArg (k < List.length ·) hframes).to_iff
    | ack j => exact (congrArg (j < List.length ·) hpayments).to_iff
  unfold depot
  rw [hpc, hqueue, htags, hissued]

/-- What is handed to a connection goes out, but for frames as they were read. -/
theorem depot_handAll (st : Relay) (c : ℕ) (items : List Item) :
    (st.handAll c items).depot = { st.depot with
      out := st.depot.out ++
        ((items.take (st.client c).send.room).map Item.tag).filter fun t => !t.isRaw } := by
  unfold depot
  rw [handAll_tags, List.filter_append]
  rfl

theorem depot_handAll_raw (st : Relay) (c : ℕ) {items : List Item}
    (h : ∀ x ∈ items, x.tag.isRaw = true) : (st.handAll c items).depot = st.depot := by
  have hnone : ((items.take (st.client c).send.room).map Item.tag).filter (fun t => !t.isRaw) =
      [] := by
    refine List.filter_eq_nil_iff.mpr fun t ht => ?_
    obtain ⟨x, hx, rfl⟩ := List.mem_map.mp ht
    rw [h x (List.mem_of_mem_take hx)]
    simp
  rw [depot_handAll, hnone, List.append_nil]

theorem register_tags_room (st : Relay) (c : ℕ) : (st.register J c).tags =
    st.tags ++ ((st.queue (st.client c).id).map Queued.tag).take (st.client c).send.room := by
  have h := @handAll_tags { st with
    client := update st.client c { st.client c with online := true, writing := true } } c
    ((st.queue (st.client c).id).map (Queued.item J))
  simp only [update_self, ← List.map_take, List.map_map] at h
  rw [← List.map_take]
  exact h

theorem Made.not_payment {g : Goroutine} {s : Send} (h : Made J st g s)
    (hc : s.caller ≠ .readLoop) {k c : ℕ} {m : Message} (ht : s.tag = .own k)
    (hread : Read J st k c m) : ¬ m.IsPayment := by
  unfold Made at h
  unfold Send.tag at ht
  split at h
  · exact absurd ‹_› hc
  · rename_i hcaller
    rw [hcaller] at ht
    obtain ⟨c', m', now, -, hread', hm, -⟩ := h
    obtain ⟨-, rfl⟩ := hread.unique (Tag.own.inj ht ▸ hread')
    exact hm
  · rename_i hcaller
    rw [hcaller] at ht
    cases ht

theorem Provenance.pay_idle (h : Provenance J st) {j : ℕ} (hj : st.payments.length ≤ j) :
    (st.pc (.pay j)).due? = none := by
  have hsend : ∀ s, (st.pc (.pay j)).send? ≠ some s := fun s hs => by
    have hmade := h.made hs
    unfold Made at hmade
    split at hmade
    · obtain ⟨c, hg, -⟩ := hmade
      cases hg
    · obtain ⟨c, m, now, hg, -⟩ := hmade
      cases hg
    · obtain ⟨p, now, hg, hp, -⟩ := hmade
      obtain rfl := Goroutine.pay.inj hg
      exact Nat.not_lt.mpr hj (List.getElem?_eq_some_iff.mp hp).1
  have hjust := h.pcs (.pay j)
  match hpc : st.pc (.pay j) with
  | .processing k data =>
    rw [hpc] at hjust
    obtain ⟨c, hg, -⟩ := hjust
    cases hg
  | .paying j' req id =>
    rw [hpc] at hjust
    obtain ⟨k, hg, hp⟩ := hjust
    obtain rfl := Goroutine.pay.inj hg
    exact absurd (List.getElem?_eq_some_iff.mp hp).1 (Nat.not_lt.mpr hj)
  | .lookup s | .check s _ | .push s _ | .refused s =>
    exact absurd (by rw [hpc]; rfl) (hsend s)
  | .idle | .querying | .deleting | .registering | .reading | .leaving | .finished => rfl

/-- Registering clears the queue of the user onto the channel. -/
theorem depot_register (hp : Provenance J st) {c : ℕ} (hpc : st.pc (.serve c) = .registering) :
    (st.register J c).depot = st.depot.clear (st.client c).id (st.client c).send.room := by
  refine depot_eq (fun g => ?_) (fun id => ?_) ?_ fun _ => Iff.rfl
  · show (update st.pc (.serve c) .reading g).due? = (st.pc g).due?
    by_cases hg : g = .serve c
    · subst hg
      rw [update_self, hpc]
      rfl
    · rw [update_of_ne hg]
  · show (update st.queue (st.client c).id [] id).map Queued.tag =
      update (fun id => (st.queue id).map Queued.tag) (st.client c).id [] id
    by_cases hid : id = (st.client c).id
    · subst hid
      rw [update_self, update_self]
      rfl
    · rw [update_of_ne hid, update_of_ne hid]
  · rw [register_tags_room, List.filter_append]
    refine congrArg _ (List.filter_eq_self.mpr fun t ht => ?_)
    obtain ⟨e, he, rfl⟩ := List.mem_map.mp (List.mem_of_mem_take ht)
    have hnot := (hp.queue _ e he).2.1
    cases htag : e.tag with
    | raw k => exact absurd htag (hnot k)
    | own k => rfl
    | ack j => rfl

namespace Carries

theorem goto {a : Act} {g : Goroutine} {p : Pc} (h : p.due? = (st.pc g).due?) :
    Carries J st a (st.goto g p) := .rest (depot_goto_same h) rfl rfl

theorem accept {a : Act} (hr : Registry st) (userID : String) :
    Carries J st a (st.accept userID) := by
  refine .rest ?_ rfl rfl
  have hidle : st.pc (.serve st.conns) = .idle := hr.fresh _ (Nat.le_refl _)
  exact depot_goto_same (g := .serve st.conns) (p := .querying) (by rw [hidle]; rfl)

theorem readFrame {a : Act} {c : ℕ} (hpc : st.pc (.serve c) = .reading) (data : Bytes) :
    Carries J st a (st.readFrame J c data) := by
  refine .read (g := .serve c) (f := ⟨c, data⟩) (by rw [hpc]; rfl) ?_ rfl rfl
  refine depot_eq (fun g => ?_) (fun _ => rfl) rfl fun t => ?_
  · show _ = update st.depot.held (.serve c) (some (.own st.frames.length)) g
    unfold Relay.readFrame
    rw [goto_pc]
    by_cases hg : g = .serve c
    · subst hg
      rw [update_self, update_self]
      split <;> rfl
    · rw [update_of_ne hg, update_of_ne hg]
      rfl
  · cases t with
    | raw k => exact iff_of_false id fun h => h.elim Tag.noConfusion id
    | ack j => exact ⟨.inr, fun h => h.resolve_left Tag.noConfusion⟩
    | own k =>
      have hlen : (st.readFrame J c data).frames.length = st.frames.length + 1 :=
        List.length_append
      have hnew : Tag.own k = .own st.frames.length ↔ k = st.frames.length :=
        ⟨Tag.own.inj, congrArg Tag.own⟩
      show k < _ ↔ Tag.own k = .own st.frames.length ∨ k < st.frames.length
      rw [hlen, hnew]
      omega

theorem drain {a : Act} {c : ℕ} (hpc : st.pc (.serve c) = .querying) (ok : Bool) :
    Carries J st a (st.drain J c ok) := by
  unfold Relay.drain
  split
  · refine .rest ?_ rfl rfl
    have hsame : (if st.backlog (st.client c).id = [] then Pc.registering else .deleting).due? =
        (st.pc (.serve c)).due? := by
      rw [hpc]
      split <;> rfl
    refine Eq.trans (depot_goto_same (by exact hsame)) (depot_handAll_raw st c fun x hx => ?_)
    obtain ⟨r, -, rfl⟩ := List.mem_map.mp hx
    rfl
  · exact goto (by rw [hpc]; rfl)

theorem delete {a : Act} {c : ℕ} (hpc : st.pc (.serve c) = .deleting) (ok : Bool) :
    Carries J st a (st.delete c ok) := by
  unfold Relay.delete
  split
  · exact .rest (depot_goto_same (by rw [hpc]; rfl)) rfl rfl
  · exact goto (by rw [hpc]; rfl)

theorem push {a : Act} (hp : Provenance J st) {g : Goroutine} {s : Send} {c : ℕ}
    (hpc : st.pc g = .push s c) : Carries J st a (st.push g s c) := by
  have hmade : Made J st g s := hp.made (by rw [hpc]; rfl)
  have hdue : (st.pc g).due? = some s.due := by rw [hpc]; rfl
  unfold Relay.push
  split
  · exact .rest (depot_congr rfl rfl rfl rfl rfl) rfl rfl
  split
  · rename_i hoffer
    have hroom : [s.item].take (st.client c).send.room = [s.item] := by
      have hlt := Chan.offer_eq_true_iff.mp hoffer
      refine List.take_of_length_le ?_
      unfold Chan.room
      rw [List.length_singleton]
      omega
    have hout := depot_handAll st c [s.item]
    rw [hroom] at hout
    by_cases hc : s.caller = .readLoop
    · -- the read loop has sent the frame as it was read
      have hraw : s.tag.isRaw = true := by unfold Send.tag; rw [hc]; rfl
      refine .rest (Eq.trans (depot_goto_same ?_) (depot_handAll_raw st c fun x hx => ?_)) rfl rfl
      · rw [Send.next_due, if_pos hc, handAll_pc, hdue]
      · rw [List.mem_singleton.mp hx]
        exact hraw
    · refine .put (g := g) (t := s.tag) (by rw [hdue, Send.tag_due hc])
        (fun _ _ _ => hmade.not_payment hc) ?_ rfl rfl
      rw [depot_goto_none (by rw [Send.next_due, if_neg hc]), hout]
      have hraw : [s.tag].filter (fun t => !t.isRaw) = [s.tag] :=
        List.filter_eq_self.mpr fun t ht => by
          rw [List.mem_singleton.mp ht, ← Send.tag_due hc, s.due_isRaw]
          rfl
      show Depot.mk _ _ (_ ++ [s.tag].filter fun t => !t.isRaw) _ = _
      rw [hraw]
      rfl
  · exact goto (by rw [hdue]; rfl)

theorem fallBack {a : Act} (hp : Provenance J st) {g : Goroutine} {s : Send}
    (hpc : st.pc g = .refused s) (ok : Bool) (now : Int64) :
    Carries J st a (st.fallBack g s ok now) := by
  have hmade : Made J st g s := hp.made (by rw [hpc]; rfl)
  have hdue : (st.pc g).due? = some s.due := by rw [hpc]; rfl
  unfold Relay.fallBack
  split
  · rename_i hc
    have hnext : s.next.due? = (st.pc g).due? := by rw [Send.next_due, if_pos hc, hdue]
    split
    · exact .rest (Eq.trans (depot_goto_same (by exact hnext))
        (depot_congr rfl rfl rfl rfl rfl)) rfl rfl
    · exact goto hnext
  · rename_i hc
    refine .lay (g := g) (t := s.tag) (i := s.message.recipient)
      (by rw [hdue, Send.tag_due hc]) (fun _ _ _ => hmade.not_payment hc) ?_ rfl rfl
    have hqueue : (st.queueMessage s.tag s.message).depot = { st.depot with
        shelf := update st.depot.shelf s.message.recipient
          (st.depot.shelf s.message.recipient ++ [s.tag]) } := by
      refine depot_eq (fun _ => rfl) (fun id => ?_) rfl fun _ => Iff.rfl
      rw [Routes.queueMessage_tags]
      show _ = update st.depot.shelf s.message.recipient
        (st.depot.shelf s.message.recipient ++ [s.tag]) id
      by_cases hid : id = s.message.recipient
      · subst hid
        rw [if_pos rfl, update_self]
        rfl
      · rw [if_neg hid, update_of_ne hid, List.append_nil]
        rfl
    rw [depot_goto_none (by rw [Send.next_due, if_neg hc]), hqueue]
    rfl

theorem processMessage {a : Act} (hp : Provenance J st) {g : Goroutine} {k : ℕ} {data : Bytes}
    (hpc : st.pc g = .processing k data) (now : Int64) :
    Carries J st a (st.processMessage J g k data now) := by
  have hdue : (st.pc g).due? = some (.own k) := by rw [hpc]; rfl
  have hj := hp.pcs g
  rw [hpc] at hj
  obtain ⟨c, hg, hf⟩ := hj
  have hread : ∀ {c' m'}, Read J st k c' m' → J.unmarshal data = some m' := fun ⟨data', hf', hm'⟩ =>
    (Frame.mk.inj (Option.some.inj (hf.symm.trans hf'))).2 ▸ hm'
  unfold Relay.processMessage
  cases hm : J.unmarshal data with
  | none =>
    refine .drop hdue (fun c' m' h => ?_) (depot_goto_none rfl) rfl rfl
    cases hm.symm.trans (hread h)
  | some m =>
    simp only
    split
    · rename_i hpay
      cases hreq : J.unmarshalPayment (m.stamped now).payload with
      | none =>
        refine .drop hdue (fun c' m' h => ?_) (depot_goto_none rfl) rfl rfl
        obtain rfl := Option.some.inj (hm.symm.trans (hread h))
        exact ⟨hpay, hreq⟩
      | some payment =>
        have hnew : (st.pc (.pay st.payments.length)).due? = none := hp.pay_idle (Nat.le_refl _)
        refine .pay hdue (p := ⟨k, payment, (m.stamped now).senderID⟩) rfl
          ⟨c, m, ⟨data, hf, hm⟩, hpay, hreq, rfl⟩ hnew ?_ rfl rfl
        refine depot_eq (fun g' => ?_) (fun _ => rfl) rfl fun t => ?_
        · show (update (update st.pc g .reading) (.pay st.payments.length) _ g').due? =
            update (update st.depot.held g none) (.pay st.payments.length)
              (some (.ack st.payments.length)) g'
          by_cases h₁ : g' = .pay st.payments.length
          · rw [h₁, update_self, update_self]
            rfl
          rw [update_of_ne h₁, update_of_ne h₁]
          by_cases h₂ : g' = g
          · rw [h₂, update_self, update_self]
            rfl
          · rw [update_of_ne h₂, update_of_ne h₂]
            rfl
        · cases t with
          | raw k => exact iff_of_false id fun h => h.elim Tag.noConfusion id
          | own k => exact ⟨.inr, fun h => h.resolve_left Tag.noConfusion⟩
          | ack j =>
            have hack : Tag.ack j = .ack st.payments.length ↔ j = st.payments.length :=
              ⟨Tag.ack.inj, congrArg Tag.ack⟩
            show j < (st.payments ++ [_]).length ↔
              Tag.ack j = .ack st.payments.length ∨ j < st.payments.length
            rw [List.length_append, List.length_singleton, hack]
            omega
    · exact goto (by rw [hdue]; rfl)

theorem unregister {a : Act} {c : ℕ} (hpc : st.pc (.serve c) = .leaving) :
    Carries J st a (st.unregister c) := by
  have hdue : Pc.finished.due? = (st.pc (.serve c)).due? := by rw [hpc]; rfl
  unfold Relay.unregister
  simp only
  split
  · exact goto hdue
  · split
    · exact .rest (depot_congr rfl rfl rfl rfl rfl) rfl rfl
    · exact .rest (Eq.trans (depot_goto_same (by exact hdue))
        (depot_congr rfl rfl rfl rfl rfl)) rfl rfl

theorem write {a : Act} (c : ℕ) (ok : Bool) : Carries J st a (st.write c ok) := by
  unfold Relay.write
  split
  · split
    · exact .rest (depot_congr rfl rfl rfl rfl rfl) rfl rfl
    · exact .rest rfl rfl rfl
  · exact .rest rfl rfl rfl

end Carries

/-- **Every step is one of these.** -/
theorem step_carries (hs : Sound J st) (a : Act) : Carries J st a (st.step J a) := by
  have hop := step_op J st a
  generalize st.step J a = st' at hop ⊢
  cases hop with
  | none => exact .rest rfl rfl rfl
  | accounts => exact .rest (depot_congr rfl rfl rfl rfl rfl) rfl rfl
  | accept => exact .accept hs.registry _
  | hangup hpc => exact .goto (by rw [hpc]; rfl)
  | readFrame hpc => exact .readFrame hpc _
  | drain hpc => exact .drain hpc _
  | delete hpc => exact .delete hpc _
  | register hpc => exact .clear hpc (depot_register hs.provenance hpc) rfl rfl
  | lookup hpc => exact .goto (by rw [hpc]; rfl)
  | @check g s t _ _ hpc =>
    refine .goto ?_
    rw [hpc]
    unfold checked
    split
    · split <;> rfl
    · rfl
  | push hpc => exact .push hs.provenance hpc
  | fallBack hpc => exact .fallBack hs.provenance hpc _ _
  | process hpc => exact .processMessage hs.provenance hpc _
  | pay hpc => exact .goto (by rw [hpc]; rfl)
  | unregister hpc => exact .unregister hpc
  | write c ok => exact .write c ok

/-! ## Nothing is sent twice -/

theorem due_of_depot {d : Depot Goroutine Tag String} (hd : st.depot = d) (g : Goroutine) :
    (st.pc g).due? = d.held g := congrArg (·.held g) hd

/-- **What the relay sends of its own is in one place at most.** -/
theorem Carries.once {a : Act} (hc : Carries J st a st') (h : st.depot.Once) : st'.depot.Once := by
  cases hc with
  | rest hd _ _ => rw [hd]; exact h
  | read _ hd _ _ => rw [hd]; exact h.take fun hi => Nat.lt_irrefl _ hi
  | drop _ _ hd _ _ => rw [hd]; exact h.drop _
  | pay _ _ _ _ hd _ _ => rw [hd]; exact (h.drop _).take fun hi => Nat.lt_irrefl _ hi
  | put hg _ hd _ _ => rw [hd]; exact h.put hg
  | lay hg _ hd _ _ => rw [hd]; exact h.lay hg _
  | clear _ hd _ _ => rw [hd]; exact h.clear _ _

/-- Payment frames are paid once, after they were read. -/
structure Pays (J : Json) (st : Relay) : Prop where
  nodup : (st.payments.map Payment.frame).Nodup
  waiting : ∀ g k, (st.pc g).due? = some (.own k) → k ∉ st.payments.map Payment.frame
  complete : ∀ k c m, Read J st k c m → m.IsPayment → J.unmarshalPayment m.payload ≠ none →
    (∃ g, (st.pc g).due? = some (.own k)) ∨ k ∈ st.payments.map Payment.frame

theorem Read.of_append {k c : ℕ} {m : Message} {f : Frame} (hf : st'.frames = st.frames ++ [f])
    (h : Read J st' k c m) : Read J st k c m ∨ k = st.frames.length := by
  obtain ⟨data, hk, hm⟩ := h
  rw [hf] at hk
  by_cases hlt : k < st.frames.length
  · rw [List.getElem?_append_left hlt] at hk
    exact .inl ⟨data, hk, hm⟩
  · have := (List.getElem?_eq_some_iff.mp hk).1
    rw [List.length_append, List.length_singleton] at this
    exact .inr (by omega)

theorem Read.of_eq {k c : ℕ} {m : Message} (hf : st'.frames = st.frames) (h : Read J st' k c m) :
    Read J st k c m := by
  unfold Read at h ⊢
  rwa [hf] at h

theorem Pays.same (h : Pays J st) (hf : st'.frames = st.frames) (hp : st'.payments = st.payments)
    (hdue : ∀ g k, (st'.pc g).due? = some (.own k) → (st.pc g).due? = some (.own k))
    (hkeep : ∀ g k c m, (st.pc g).due? = some (.own k) → Read J st k c m → m.IsPayment →
      J.unmarshalPayment m.payload ≠ none → (st'.pc g).due? = some (.own k)) : Pays J st' where
  nodup := hp ▸ h.nodup
  waiting g k hg := hp ▸ h.waiting g k (hdue g k hg)
  complete k c m hread hm hreq := by
    have hread := hread.of_eq hf
    rw [hp]
    exact (h.complete k c m hread hm hreq).imp_left fun ⟨g, hg⟩ =>
      ⟨g, hkeep g k c m hg hread hm hreq⟩

theorem Pays.done (h : Pays J st) {g : Goroutine} {t : Tag} (hg : (st.pc g).due? = some t)
    (hf : st'.frames = st.frames) (hp : st'.payments = st.payments)
    (hheld : ∀ g', (st'.pc g').due? = update (fun g => (st.pc g).due?) g none g')
    (hnot : ∀ k c m, t = .own k → Read J st k c m → m.IsPayment →
      J.unmarshalPayment m.payload ≠ none → False) : Pays J st' := by
  refine h.same hf hp (fun g' k hk => ?_) fun g' k c m hk hread hm hreq => ?_
  · rw [hheld] at hk
    rcases Depot.held_update (d := st.depot) hk with ⟨-, hk⟩ | ⟨-, hk⟩
    · cases hk
    · exact hk
  · have hne : g' ≠ g := by
      rintro rfl
      exact hnot k c m (Option.some.inj (hg.symm.trans hk)) hread hm hreq
    rw [hheld, update_of_ne hne]
    exact hk

/-- **A payment frame is paid once.** -/
theorem Carries.pays {a : Act} (hc : Carries J st a st') (hp : Provenance J st)
    (ho : st.depot.Once) (h : Pays J st) : Pays J st' := by
  cases hc with
  | rest hd hf hpay =>
    have hheld := due_of_depot hd
    exact h.same hf hpay (fun g k hk => (hheld g).symm.trans hk)
      fun g k c m hk _ _ _ => (hheld g).trans hk
  | @read _ _ g f hg hd hf hpay =>
    have hheld := due_of_depot hd
    refine ⟨hpay ▸ h.nodup, fun g' k hk => ?_, fun k c m hread hm hreq => ?_⟩
    · rw [hheld] at hk
      rw [hpay]
      rcases Depot.held_update (d := st.depot) hk with ⟨-, hk⟩ | ⟨-, hk⟩
      · intro hmem
        obtain ⟨p, hpm, hfr⟩ := List.mem_map.mp hmem
        obtain ⟨c, m, ⟨data, hlt, -⟩, -⟩ := hp.payments p hpm
        have := (List.getElem?_eq_some_iff.mp hlt).1
        rw [hfr, ← Tag.own.inj (Option.some.inj hk)] at this
        exact Nat.lt_irrefl _ this
      · exact h.waiting g' k hk
    · rcases hread.of_append hf with hread | rfl
      · rw [hpay]
        refine (h.complete k c m hread hm hreq).imp_left fun ⟨g', hg'⟩ => ⟨g', ?_⟩
        have hne : g' ≠ g := fun he => by rw [he, hg] at hg'; cases hg'
        rw [hheld]
        exact (update_of_ne hne ..).trans hg'
      · exact .inl ⟨g, (hheld g).trans (update_self ..)⟩
  | @drop _ _ g k hg hk hd hf hpay =>
    refine h.done hg hf hpay (due_of_depot hd) fun k' c m ht hread _ hreq => ?_
    obtain rfl := Tag.own.inj ht
    exact hreq (hk c m hread).2
  | @pay _ _ g k p hg hk hpaid hn hd hf hpay =>
    subst hk
    have hheld := due_of_depot hd
    have hnot := h.waiting g p.frame hg
    have hmap : st'.payments.map Payment.frame = st.payments.map Payment.frame ++ [p.frame] := by
      rw [hpay, List.map_append]
      rfl
    have hback : ∀ {g' k}, (st'.pc g').due? = some (.own k) →
        g' ≠ g ∧ (st.pc g').due? = some (.own k) := fun {g' k} hk => by
      rw [hheld] at hk
      rcases Depot.held_update (d := st.depot.drop g) hk with ⟨-, hk⟩ | ⟨-, hk⟩
      · cases hk
      · rcases Depot.held_update (d := st.depot) hk with ⟨-, hk⟩ | hk
        · cases hk
        · exact hk
    refine ⟨?_, fun g' k hk => ?_, fun k c m hread hm hreq => ?_⟩
    · rw [hmap]
      refine List.nodup_append.mpr ⟨h.nodup, List.nodup_singleton _, fun x hx y hy hxy => hnot ?_⟩
      rwa [← List.mem_singleton.mp hy, ← hxy]
    · obtain ⟨hne, hdue⟩ := hback hk
      rw [hmap]
      intro hmem
      rcases List.mem_append.mp hmem with hmem | hmem
      · exact h.waiting g' k hdue hmem
      · exact hne (ho.held g' g _ hdue (List.mem_singleton.mp hmem ▸ hg))
    · rw [hmap]
      rcases h.complete k c m (hread.of_eq hf) hm hreq with ⟨g', hg'⟩ | hmem
      · by_cases hne : g' = g
        · subst hne
          obtain rfl := Tag.own.inj (Option.some.inj (hg.symm.trans hg'))
          exact .inr (List.mem_append_right _ (List.mem_singleton.mpr rfl))
        · refine .inl ⟨g', ?_⟩
          have hpay' : g' ≠ .pay st.payments.length := fun he => by rw [he, hn] at hg'; cases hg'
          rw [hheld]
          exact (update_of_ne hpay' ..).trans ((update_of_ne hne ..).trans hg')
      · exact .inr (List.mem_append_left _ hmem)
  | put hg hk hd hf hpay =>
    exact h.done hg hf hpay (due_of_depot hd) fun k c m ht hread hm _ => hk k c m ht hread hm
  | lay hg hk hd hf hpay =>
    exact h.done hg hf hpay (due_of_depot hd) fun k c m ht hread hm _ => hk k c m ht hread hm
  | clear _ hd hf hpay =>
    have hheld := due_of_depot hd
    exact h.same hf hpay (fun g k hk => (hheld g).symm.trans hk)
      fun g k c m hk _ _ _ => (hheld g).trans hk

structure Orders (J : Json) (st : Relay) : Prop extends Sound J st where
  once : st.depot.Once
  pays : Pays J st

theorem start_once : start.depot.Once where
  issued t h := by
    rcases h with ⟨g, h⟩ | h | ⟨id, h⟩ <;> cases h
  held g g' t h := by cases h
  away g t h := by cases h
  shelf id id' t h := by cases h
  nodup _ := List.nodup_nil

theorem start_orders (J : Json) : Orders J start where
  toSound := start_sound J
  once := start_once
  pays :=
    { nodup := List.nodup_nil
      waiting := fun g k h => by cases h
      complete := fun k c m ⟨_, h, _⟩ => by cases h }

theorem Orders.step (J : Json) (st : Relay) (a : Act) (h : Orders J st) :
    Orders J (step J st a) :=
  have hc := step_carries h.toSound a
  ⟨h.toSound.step J st a, hc.once h.once, hc.pays h.provenance h.once h.pays⟩

/-- What the relay sends of its own, it sends once: of every payment frame that it is done
with one payment is made, of no other frame is one; each of its messages is put on a channel
or stored for a user at most once over all channels and users, and not while a goroutine is
still to send it; and a payment is answered to the sender that its frame named, on a channel
or in the queue. -/
structure Exact (J : Json) (st : Relay) : Prop where
  payments : (st.payments.map Payment.frame).Nodup
  paid : ∀ k c m, Read J st k c m → (∀ g, (st.pc g).due? ≠ some (.own k)) →
    (k ∈ st.payments.map Payment.frame ↔ m.IsPayment ∧ J.unmarshalPayment m.payload ≠ none)
  once : ∀ t id, t.isRaw = false →
    st.tags.count t + ((st.queue id).map Queued.tag).count t ≤ 1
  oneUser : ∀ t id id', t ∈ (st.queue id).map Queued.tag → t ∈ (st.queue id').map Queued.tag →
    id = id'
  waiting : ∀ g t, (st.pc g).due? = some t →
    t ∉ st.tags ∧ ∀ id, t ∉ (st.queue id).map Queued.tag
  answers : ∀ h ∈ st.handed, ∀ j, h.item.tag = .ack j →
    ∃ p c m, st.payments[j]? = some p ∧ Read J st p.frame c m ∧
      (st.client h.conn).id = m.senderID
  storedAnswers : ∀ id, ∀ e ∈ st.queue id, ∀ j, e.tag = .ack j →
    ∃ p c m, st.payments[j]? = some p ∧ Read J st p.frame c m ∧ id = m.senderID

theorem due_isRaw {p : Pc} {t : Tag} (h : p.due? = some t) : t.isRaw = false := by
  match p with
  | .processing k data => rw [← Option.some.inj h]; rfl
  | .paying j req id => rw [← Option.some.inj h]; rfl
  | .lookup s | .check s _ | .push s _ | .refused s => rw [← Option.some.inj h]; exact s.due_isRaw
  | .idle | .querying | .deleting | .registering | .reading | .leaving | .finished => cases h

theorem mem_out {t : Tag} (ht : t.isRaw = false) : t ∈ st.depot.out ↔ t ∈ st.tags := by
  show t ∈ st.tags.filter (fun t => !t.isRaw) ↔ _
  rw [List.mem_filter, ht]
  exact and_iff_left rfl

theorem Copy.answer (h : Provenance J st) {j : ℕ} {m : Message} (hc : Copy J st (.ack j) m) :
    ∃ p c m', st.payments[j]? = some p ∧ Read J st p.frame c m' ∧ m.recipient = m'.senderID := by
  obtain ⟨p, now, hp, rfl⟩ := hc
  obtain ⟨c, m', hread, -, -, hsender⟩ := h.payments p (List.mem_of_getElem? hp)
  exact ⟨p, c, m', hp, hread, hsender⟩

theorem Orders.exact (h : Orders J st) : Exact J st where
  payments := h.pays.nodup
  paid k c m hread hdone := by
    constructor
    · intro hk
      obtain ⟨p, hp, rfl⟩ := List.mem_map.mp hk
      obtain ⟨c', m', hread', hm, hreq, -⟩ := h.provenance.payments p hp
      obtain ⟨-, rfl⟩ := hread.unique hread'
      exact ⟨hm, by rw [hreq]; exact Option.some_ne_none _⟩
    · rintro ⟨hm, hreq⟩
      rcases h.pays.complete k c m hread hm hreq with ⟨g, hg⟩ | hk
      · exact absurd hg (hdone g)
      · exact hk
  once t id ht := by
    have hcount := List.nodup_iff_count_le_one.mp (h.once.nodup id) t
    rw [List.count_append] at hcount
    rwa [show st.depot.out.count t = st.tags.count t from
      List.count_filter (by rw [ht]; rfl)] at hcount
  waiting g t hg := by
    obtain ⟨hout, hshelf⟩ := h.once.away g t hg
    exact ⟨mt (mem_out (due_isRaw hg)).mpr hout, hshelf⟩
  oneUser t id id' h₁ h₂ := h.once.shelf id id' t h₁ h₂
  answers x hx j hj := by
    obtain ⟨-, m, -, hc, hr⟩ := h.provenance.handed x hx
    rw [hj] at hc
    obtain ⟨p, c, m', hp, hread, hm⟩ := hc.answer h.provenance
    exact ⟨p, c, m', hp, hread, hr.symm.trans hm⟩
  storedAnswers id e he j hj := by
    obtain ⟨hr, -, hc⟩ := h.provenance.queue id e he
    rw [hj] at hc
    obtain ⟨p, c, m', hp, hread, hm⟩ := hc.answer h.provenance
    exact ⟨p, c, m', hp, hread, hr.symm.trans hm⟩

/-- **What the relay sends of its own, it sends once**, in every run. -/
theorem run_exact (J : Json) (acts : List Act) : Exact J (run J acts) :=
  (Run.invariant (Orders.step J) acts (start_orders J)).exact

/-! ## What is lost -/

/-- What the relay has to send: a message for every frame that is no payment, and an answer
for every payment. -/
def Owed (J : Json) (st : Relay) : Tag → Prop
  | .raw _ => False
  | .own k => ∃ c m, Read J st k c m ∧ ¬ m.IsPayment
  | .ack j => j < st.payments.length

/-- Who a message of the relay's own is for. -/
def For (J : Json) (st : Relay) : Tag → String → Prop
  | .raw _, _ => False
  | .own k, id => ∃ c m, Read J st k c m ∧ m.recipient = id
  | .ack j, id => ∃ p, st.payments[j]? = some p ∧ p.senderID = id

/-- All that the relay has to send is with a goroutine, has been put on a channel of its
recipient, or is stored for its recipient. -/
def Keeps (J : Json) (st : Relay) : Prop :=
  ∀ t, Owed J st t → ∃ id, For J st t id ∧
    ((∃ g, (st.pc g).due? = some t) ∨
      (∃ h ∈ st.handed, h.item.tag = t ∧ (st.client h.conn).id = id) ∨
      ∃ e ∈ st.queue id, e.tag = t)

/-- In the depot nobody is named. -/
def Holds (J : Json) (st : Relay) : Prop := ∀ t, Owed J st t → st.depot.Present t

theorem Copy.for_recipient {t : Tag} {m : Message} (h : Copy J st t m) (ht : t.isRaw = false) :
    For J st t m.recipient := by
  cases t with
  | raw k => cases ht
  | own k =>
    obtain ⟨c, m', now, hread, -, rfl⟩ := h
    exact ⟨c, m', hread, rfl⟩
  | ack j =>
    obtain ⟨p, now, hp, rfl⟩ := h
    exact ⟨p, hp, rfl⟩

theorem Owed.isRaw {t : Tag} (h : Owed J st t) : t.isRaw = false := by
  cases t with
  | raw k => exact h.elim
  | own k => rfl
  | ack j => rfl

theorem Owed.exists_for {t : Tag} (h : Owed J st t) : ∃ id, For J st t id := by
  cases t with
  | raw k => exact h.elim
  | own k =>
    obtain ⟨c, m, hread, -⟩ := h
    exact ⟨m.recipient, c, m, hread, rfl⟩
  | ack j =>
    have hj : j < st.payments.length := h
    exact ⟨_, _, List.getElem?_eq_getElem hj, rfl⟩

/-- What is on a channel or in a queue is there for its recipient. -/
theorem keeps_iff_holds (hp : Provenance J st) : Keeps J st ↔ Holds J st := by
  constructor
  · intro h t ht
    obtain ⟨id, -, hg | ⟨x, hx, hxt, -⟩ | ⟨e, he, het⟩⟩ := h t ht
    · exact .inl hg
    · exact .inr (.inl ((mem_out ht.isRaw).mpr (List.mem_map.mpr ⟨x, hx, hxt⟩)))
    · exact .inr (.inr ⟨id, List.mem_map.mpr ⟨e, he, het⟩⟩)
  · intro h t ht
    rcases h t ht with hg | hout | ⟨id, hid⟩
    · obtain ⟨id, hid⟩ := ht.exists_for
      exact ⟨id, hid, .inl hg⟩
    · obtain ⟨x, hx, rfl⟩ := List.mem_map.mp ((mem_out ht.isRaw).mp hout)
      obtain ⟨-, m, -, hc, hr⟩ := hp.handed x hx
      exact ⟨m.recipient, hc.for_recipient ht.isRaw, .inr (.inl ⟨x, hx, rfl, hr.symm⟩)⟩
    · obtain ⟨e, he, rfl⟩ := List.mem_map.mp hid
      obtain ⟨hr, -, hc⟩ := hp.queue id e he
      exact ⟨id, hr ▸ hc.for_recipient ht.isRaw, .inr (.inr ⟨e, he, rfl⟩)⟩

/-- A client that registers has room for all that is queued for its user. -/
def Fits (st : Relay) : Act → Prop
  | .next (.serve c) _ _ => st.crash = none → st.pc (.serve c) = .registering →
      (st.queue (st.client c).id).length ≤ (st.client c).send.room
  | _ => True

theorem Owed.of_eq {t : Tag} (hf : st'.frames = st.frames) (hp : st'.payments = st.payments)
    (h : Owed J st' t) : Owed J st t := by
  cases t with
  | raw k => exact h.elim
  | own k =>
    obtain ⟨c, m, hread, hm⟩ := h
    exact ⟨c, m, hread.of_eq hf, hm⟩
  | ack j => exact (show j < _ from hp ▸ h)

/-- Only a queue that is cleared onto a channel without room for it loses anything. -/
theorem Carries.holds {a : Act} (hc : Carries J st a st') (ho : st.depot.Once)
    (hfit : ∀ c ok now, a = .next (.serve c) ok now → st.pc (.serve c) = .registering →
      (st.queue (st.client c).id).length ≤ (st.client c).send.room)
    (h : Holds J st) : Holds J st' := by
  intro t ht
  cases hc with
  | rest hd hf hp => exact hd ▸ h t (ht.of_eq hf hp)
  | @read _ _ g f hg hd hf hp =>
    rw [hd, Depot.present_take hg]
    cases t with
    | raw k => exact ht.elim
    | own k =>
      obtain ⟨c, m, hread, hm⟩ := ht
      rcases hread.of_append hf with hread | rfl
      · exact .inl (h _ ⟨c, m, hread, hm⟩)
      · exact .inr rfl
    | ack j => exact .inl (h _ (show j < _ from hp ▸ ht))
  | @drop _ _ g k hg hk hd hf hp =>
    rw [hd, ho.present_drop]
    refine ⟨h t (ht.of_eq hf hp), fun he => ?_⟩
    obtain rfl := Option.some.inj (hg.symm.trans he)
    obtain ⟨c, m, hread, hm⟩ := ht
    exact hm (hk c m (hread.of_eq hf)).1
  | @pay _ _ g k p hg hk hpaid hn hd hf hp =>
    have hfree : (st.depot.drop g).held (.pay st.payments.length) = none := by
      show update st.depot.held g none _ = none
      by_cases hgp : Goroutine.pay st.payments.length = g
      · rw [hgp, update_self]
      · rw [update_of_ne hgp]
        exact hn
    rw [hd, Depot.present_take hfree, ho.present_drop]
    have hold : Owed J st t → t ≠ .own k → st.depot.Present t ∧ st.depot.held g ≠ some t :=
      fun hot hne => ⟨h t hot, fun he => hne (Option.some.inj (he.symm.trans hg))⟩
    cases t with
    | raw k => exact ht.elim
    | own k' =>
      obtain ⟨c, m, hread, hm⟩ := ht
      have hread := hread.of_eq hf
      refine .inl (hold ⟨c, m, hread, hm⟩ fun he => hm ?_)
      -- the frame that was dropped is a payment frame
      obtain ⟨c', m', hread', hm', -⟩ := hpaid
      obtain ⟨-, rfl⟩ := hread.unique (Tag.own.inj he ▸ hk ▸ hread')
      exact hm'
    | ack j =>
      by_cases hj : j = st.payments.length
      · exact .inr (congrArg Tag.ack hj)
      · refine .inl (hold (show j < st.payments.length from ?_) Tag.noConfusion)
        have hlt : j < st'.payments.length := ht
        rw [hp, List.length_append, List.length_singleton] at hlt
        omega
  | put hg _ hd hf hp =>
    rw [hd, Depot.present_put hg]
    exact h t (ht.of_eq hf hp)
  | lay hg _ hd hf hp =>
    rw [hd, Depot.present_lay _ hg]
    exact h t (ht.of_eq hf hp)
  | @clear c ok now _ hpc hd hf hp =>
    rw [hd, ho.present_clear]
    refine ⟨h t (ht.of_eq hf hp), fun hm => ?_⟩
    have hlen := hfit c ok now rfl hpc
    have hall : (st.depot.shelf (st.client c).id).drop (st.client c).send.room = [] :=
      List.drop_eq_nil_of_le (by
        show ((st.queue (st.client c).id).map Queued.tag).length ≤ _
        rwa [List.length_map])
    rw [hall] at hm
    cases hm

theorem Provenance.owed (h : Provenance J st) {id : String} {e : Queued} (he : e ∈ st.queue id) :
    Owed J st e.tag := by
  obtain ⟨-, hraw, hcopy⟩ := h.queue id e he
  cases ht : e.tag with
  | raw k => exact absurd ht (hraw k)
  | own k =>
    rw [ht] at hcopy
    obtain ⟨c, m, -, hread, hm, -⟩ := hcopy
    exact ⟨c, m, hread, hm⟩
  | ack j =>
    rw [ht] at hcopy
    obtain ⟨p, -, hp, -⟩ := hcopy
    exact (List.getElem?_eq_some_iff.mp hp).1

/-- Registering loses the first message that does not fit, if there is one. -/
theorem holds_register_fits (hs : Orders J st) {c : ℕ} (hpc : st.pc (.serve c) = .registering)
    (h : Holds J (st.register J c)) :
    (st.queue (st.client c).id).length ≤ (st.client c).send.room := by
  by_contra hlt
  obtain ⟨e, he⟩ : ∃ e, e ∈ (st.queue (st.client c).id).drop (st.client c).send.room :=
    List.exists_mem_of_length_pos (by rw [List.length_drop]; omega)
  have hgone : e.tag ∈ (st.depot.shelf (st.client c).id).drop (st.client c).send.room := by
    show e.tag ∈ ((st.queue (st.client c).id).map Queued.tag).drop _
    rw [← List.map_drop]
    exact List.mem_map_of_mem he
  have howed : Owed J (st.register J c) e.tag :=
    Owed.of_eq rfl rfl (hs.provenance.owed (List.mem_of_mem_drop he))
  have hpresent := h e.tag howed
  rw [depot_register hs.provenance hpc, hs.once.present_clear] at hpresent
  exact hpresent.2 hgone

theorem fits_of_not_registering {a : Act}
    (h : ∀ c ok now, a = .next (.serve c) ok now → st.crash = none →
      st.pc (.serve c) ≠ .registering) : Fits st a := by
  match a with
  | .next (.serve c) ok now => exact fun hcr hpc => absurd hpc (h c ok now rfl hcr)
  | .next (.pay j) ok now | .accounts _ | .connect _ | .read .. | .write .. => trivial

/-- **A step keeps what the relay has to send** if and only if what is queued for a client that
registers fits. -/
theorem holds_step_iff (hs : Orders J st) (h : Holds J st) (a : Act) :
    Holds J (st.step J a) ↔ Fits st a := by
  by_cases hcr : st.crash = none
  swap
  · rw [step_crashed hcr]
    exact iff_of_true h (fits_of_not_registering fun _ _ _ _ hc => absurd hc hcr)
  have hc := step_carries hs.toSound a
  by_cases hreg : ∃ c ok now, a = .next (.serve c) ok now ∧ st.pc (.serve c) = .registering
  · obtain ⟨c, ok, now, rfl, hpc⟩ := hreg
    have hstep : st.step J (.next (.serve c) ok now) = st.register J c := by
      unfold step
      rw [hcr]
      simp only [Option.isSome_none, Bool.false_eq_true, if_false, next, hpc]
    refine ⟨fun hholds _ _ => holds_register_fits hs hpc (hstep ▸ hholds), fun hfit =>
      hc.holds hs.once (fun c' ok' now' he hpc' => ?_) h⟩
    obtain ⟨hg, -, -⟩ := Act.next.inj he
    obtain rfl := Goroutine.serve.inj hg
    exact hfit hcr hpc
  · have hnot : ∀ c ok now, a = .next (.serve c) ok now → st.pc (.serve c) ≠ .registering :=
      fun c ok now he hpc => hreg ⟨c, ok, now, he, hpc⟩
    exact iff_of_true
      (hc.holds hs.once (fun c ok now he hpc => absurd hpc (hnot c ok now he)) h)
      (fits_of_not_registering fun c ok now he _ => hnot c ok now he)

theorem start_keeps (J : Json) : Keeps J start := by
  rintro (k | k | j) h
  · exact h.elim
  · obtain ⟨c, m, ⟨data, hf, -⟩, -⟩ := h
    cases hf
  · exact absurd h (Nat.not_lt_zero j)

/-- **The relay keeps what it has to send** in exactly the runs in which every client that
registers has room for what is queued for its user. -/
theorem keeps_iff_fits (J : Json) (acts : List Act) :
    Throughout (step J) (Keeps J) start acts ↔ Along (step J) Fits start acts :=
  throughout_iff_along (I := Orders J) (Orders.step J) (fun st a hs h =>
    (keeps_iff_holds (Orders.step J st a hs).provenance).trans
      (holds_step_iff hs ((keeps_iff_holds hs.provenance).mp h) a))
    (start_orders J) (start_keeps J)

end Relay

end SecureComm.Server
