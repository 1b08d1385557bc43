import SecureComm.Server.Routing

/-!
# No frame is lost

A frame is pending with its reader, or a copy of it was written to the
recipient, or is in the channel of the recipient's registered client, or is
queued. It stays accounted for as long as no step drops the one copy that a
channel or a queue still holds.
-/

namespace SecureComm.Server

open Function Run

variable {J : Json} {st st' : Relay}

namespace Relay

def Copied (k : ℕ) (xs : List Item) : Prop := ∃ x ∈ xs, x.tag.frame? = some k

instance (k : ℕ) (xs : List Item) : Decidable (Copied k xs) :=
  inferInstanceAs (Decidable (∃ x ∈ xs, _))

def Handled (st : Relay) (k : ℕ) : Prop := ∀ g, (st.pc g).pending? ≠ some k

/-- A copy of the frame was written to a connection of the user, or is in the
channel of the user's registered client, or in one of the two backlogs. -/
def Accounted (st : Relay) (k : ℕ) (id : String) : Prop :=
  (∃ c < st.conns, (st.client c).id = id ∧ Copied k (st.client c).written) ∨
  (∃ c, st.clients id = some c ∧ Copied k (st.client c).send.buf) ∨
  (∃ e ∈ st.queue id, e.tag.frame? = some k) ∨
  ∃ r ∈ st.queuedMessages, r.recipient = id ∧ r.frame = k

/-- No frame that was accepted for a user is lost. -/
def Conserved (J : Json) (st : Relay) : Prop :=
  ∀ k c m, Read J st k c m → ¬ m.IsPayment → st.Handled k → st.Accounted k m.recipient

/-- Every frame that waits in the channel of a client has been written to it already. -/
def Spent (cl : Client) : Prop :=
  ∀ x ∈ cl.send.buf, ∀ k ∈ x.tag.frame?, Copied k cl.written

instance (cl : Client) : Decidable (Spent cl) :=
  inferInstanceAs (Decidable (∀ x ∈ cl.send.buf, _))

/-- No frame is dropped: `processMessage` sends to the client that is registered
for the recipient; a client that registers has room for all that is queued, but
for frames its channel holds; and the one it replaces has nothing unwritten left
in its channel, like one that is unregistered. -/
def dropsNothingAt (st : Relay) (g : Goroutine) : Pc → Prop
  | .push s c => s.caller = .processMessage → st.clients s.message.recipient = some c
  | .registering =>
    match g with
    | .serve c =>
      (∀ e ∈ (st.queue (st.client c).id).drop (st.client c).send.room, ∀ k ∈ e.tag.frame?,
        Copied k (st.client c).send.buf) ∧
      ∀ d ∈ st.clients (st.client c).id, Spent (st.client d)
    | .pay _ => True
  | .leaving =>
    match g with
    | .serve c => ∀ d ∈ st.clients (st.client c).id, Spent (st.client d)
    | .pay _ => True
  | _ => True

/-- No frame is dropped; a write to a registered client fails only for one of
which the channel holds, or the client was written, another copy. -/
def DropsNothing (st : Relay) : Act → Prop
  | .next g _ _ => st.dropsNothingAt g (st.pc g)
  | .write c ok => st.clients (st.client c).id = some c → ok = false →
    ∀ x ∈ (st.client c).send.buf.head?, ∀ k ∈ x.tag.frame?,
      Copied k ((st.client c).send.buf.tail ++ (st.client c).written)
  | _ => True

theorem DropsNothing.at {g : Goroutine} {p : Pc} {ok : Bool} {now : Int64}
    (h : st.DropsNothing (.next g ok now)) (hpc : st.pc g = p) : st.dropsNothingAt g p := hpc ▸ h

instance (st : Relay) (g : Goroutine) : ∀ p, Decidable (st.dropsNothingAt g p)
  | .push s c => inferInstanceAs
      (Decidable (s.caller = .processMessage → st.clients s.message.recipient = some c))
  | .registering =>
    match g with
    | .serve c => inferInstanceAs (Decidable
        ((∀ e ∈ (st.queue (st.client c).id).drop (st.client c).send.room, ∀ k ∈ e.tag.frame?,
          Copied k (st.client c).send.buf) ∧
          ∀ d ∈ st.clients (st.client c).id, Spent (st.client d)))
    | .pay _ => .isTrue trivial
  | .leaving =>
    match g with
    | .serve c => inferInstanceAs (Decidable
        (∀ d ∈ st.clients (st.client c).id, Spent (st.client d)))
    | .pay _ => .isTrue trivial
  | .idle | .querying | .deleting | .reading | .lookup _ | .check .. | .refused _ | .processing ..
  | .paying .. | .finished => .isTrue trivial

instance (st : Relay) : ∀ a, Decidable (st.DropsNothing a)
  | .next g _ _ => inferInstanceAs (Decidable (st.dropsNothingAt g (st.pc g)))
  | .write c ok => inferInstanceAs (Decidable (st.clients (st.client c).id = some c → ok = false →
      ∀ x ∈ (st.client c).send.buf.head?, ∀ k ∈ x.tag.frame?,
        Copied k ((st.client c).send.buf.tail ++ (st.client c).written)))
  | .accounts _ | .connect _ | .read .. => .isTrue trivial

/-! ## The invariant -/

/-- A copy of the frame is with the user or kept in memory for the user. -/
def Held (st : Relay) (k : ℕ) (id : String) : Prop :=
  (∃ c < st.conns, (st.client c).id = id ∧ Copied k (st.client c).written) ∨
  (∃ c, st.clients id = some c ∧ Copied k (st.client c).send.buf) ∨
  ∃ e ∈ st.queue id, e.tag.frame? = some k

def Conserves (J : Json) (st : Relay) : Prop :=
  ∀ k c m, Read J st k c m → ¬ m.IsPayment →
    (∃ g, (st.pc g).pending? = some k) ∨ st.Held k m.recipient

theorem Conserves.conserved (h : Conserves J st) : Conserved J st := by
  intro k c m hread hm hdone
  rcases h k c m hread hm with ⟨g, hg⟩ | hw | hc | hq
  · exact absurd hg (hdone g)
  · exact .inl hw
  · exact .inr (.inl hc)
  · exact .inr (.inr (.inl hq))

theorem Held.mono {k : ℕ} {id : String} (h : st.Held k id) (he : Extends st st')
    (hclients : st'.clients = st.clients)
    (hclient : ∀ c < st.conns, (st.client c).written ⊆ (st'.client c).written ∧
      (st.client c).send.buf ⊆ (st'.client c).send.buf)
    (hlisted : ∀ id c, st.clients id = some c → c < st.conns)
    (hqueue : st.queue id ⊆ st'.queue id) : st'.Held k id := by
  rcases h with ⟨c, hc, hid, x, hx, ht⟩ | ⟨c, hc, x, hx, ht⟩ | ⟨e, hm, ht⟩
  · exact .inl ⟨c, hc.trans_le he.conns, by rw [he.id c hc]; exact hid, x, (hclient c hc).1 hx, ht⟩
  · exact .inr (.inl ⟨c, hclients ▸ hc, x, (hclient c (hlisted _ c hc)).2 hx, ht⟩)
  · exact .inr (.inr ⟨e, hqueue hm, ht⟩)

theorem Conserves.of_held (h : Conserves J st) (hframes : st'.frames = st.frames)
    (hpend : ∀ g k c m, (st.pc g).pending? = some k → Read J st k c m → ¬ m.IsPayment →
      (∃ g', (st'.pc g').pending? = some k) ∨ st'.Held k m.recipient)
    (hheld : ∀ k id, st.Held k id → st'.Held k id) : Conserves J st' := by
  intro k c m hread hm
  have hread' : Read J st k c m := by unfold Read at hread ⊢; rwa [hframes] at hread
  rcases h k c m hread' hm with ⟨g, hg⟩ | hheld'
  · exact hpend g k c m hg hread' hm
  · exact .inr (hheld k _ hheld')

theorem pending_keep {g g' : Goroutine} {p : Pc} {k : ℕ} (hk : (st.pc g').pending? = some k)
    (hp : g' = g → p.pending? = some k) : ((st.goto g p).pc g').pending? = some k := by
  rw [goto_pc]
  by_cases hg : g' = g
  · subst hg; rw [update_self]; exact hp rfl
  · rw [update_of_ne hg]; exact hk

theorem handAll_buf (c d : ℕ) (items : List Item) :
    (st.client d).send.buf ⊆ ((st.handAll c items).client d).send.buf := by
  by_cases hd : d = c
  · subst hd
    rw [handAll_client_self, Chan.offerAll_buf]
    exact List.subset_append_left _ _
  · rw [handAll_client_ne hd]
    exact List.Subset.refl _

theorem Registry.listed_lt (h : Registry st) (id : String) (c : ℕ) (hc : st.clients id = some c) :
    c < st.conns := h.lt_conns (h.listed id c hc).2.1

namespace Conserves

theorem goto (h : Conserves J st) {g : Goroutine} {p : Pc}
    (hp : ∀ k c m, (st.pc g).pending? = some k → Read J st k c m → ¬ m.IsPayment →
      p.pending? = some k) : Conserves J (st.goto g p) :=
  h.of_held rfl
    (fun g' k c m hk hread hm =>
      .inl ⟨g', pending_keep hk fun hg => hp k c m (hg ▸ hk) hread hm⟩) fun _ _ hheld => hheld

theorem handAll (h : Conserves J st) (hr : Registry st) (c : ℕ) (items : List Item) :
    Conserves J (st.handAll c items) :=
  h.of_held rfl (fun g k _ _ hk _ _ => .inl ⟨g, hk⟩) fun k id hheld =>
    hheld.mono (.of_eq rfl rfl rfl fun _ => handAll_id) rfl
      (fun d _ => ⟨by rw [handAll_written]; exact List.Subset.refl _, handAll_buf c d items⟩)
      hr.listed_lt (List.Subset.refl _)

theorem drain (h : Conserves J st) (hr : Registry st) {c : ℕ} {ok : Bool}
    (hpc : st.pc (.serve c) = .querying) : Conserves J (st.drain J c ok) := by
  unfold Relay.drain
  split
  · refine (h.handAll hr c _).goto fun k _ _ hk _ _ => ?_
    rw [handAll_pc, hpc] at hk
    cases hk
  · refine h.goto fun k _ _ hk _ _ => ?_
    rw [hpc] at hk
    cases hk

theorem readFrame (h : Conserves J st) (hr : Registry st) {c : ℕ} {data : Bytes}
    (hpc : st.pc (.serve c) = .reading) : Conserves J (st.readFrame J c data) := by
  intro k c' m hread hm
  have hkeep : ∀ (p : Pc) (k : ℕ), (st.pc (.serve c)).pending? = some k → p.pending? = some k :=
    fun _ _ hk => by rw [hpc] at hk; cases hk
  obtain ⟨data', hf, hd⟩ := hread
  have hf' : (st.frames ++ [Frame.mk c data])[k]? = some ⟨c', data'⟩ := hf
  rcases Nat.lt_or_ge k st.frames.length with hlt | hge
  · -- an earlier frame is where it was
    rw [List.getElem?_append_left hlt] at hf'
    rcases h k c' m ⟨data', hf', hd⟩ hm with ⟨g, hg⟩ | hheld
    · exact .inl ⟨g, pending_keep hg fun he => hkeep _ k (he ▸ hg)⟩
    · refine .inr (hheld.mono ?_ rfl (fun _ _ => ⟨List.Subset.refl _, List.Subset.refl _⟩)
        hr.listed_lt (List.Subset.refl _))
      exact ⟨List.prefix_append _ _, List.prefix_refl _, Nat.le_refl _, fun _ _ => rfl⟩
  · -- the new one is pending
    have hk : k = st.frames.length := by
      have := (List.getElem?_eq_some_iff.mp hf').1
      rw [List.length_append, List.length_singleton] at this
      omega
    refine .inl ⟨.serve c, ?_⟩
    unfold Relay.readFrame
    rw [goto_pc, update_self, hk]
    cases J.unmarshal data <;> rfl

theorem register (h : Conserves J st) (hr : Registry st) {c : ℕ}
    (hpc : st.pc (.serve c) = .registering)
    (hroom : ∀ e ∈ (st.queue (st.client c).id).drop (st.client c).send.room,
      ∀ k ∈ e.tag.frame?, Copied k (st.client c).send.buf)
    (hspent : ∀ d ∈ st.clients (st.client c).id, Spent (st.client d)) :
    Conserves J (st.register J c) := by
  have hid : ∀ d, ((st.register J c).client d).id = (st.client d).id := fun d => by
    unfold Relay.register
    simp only [goto_client, handAll_id]
    exact update_id (by rfl) d
  have hwritten : ∀ d, ((st.register J c).client d).written = (st.client d).written := fun d => by
    unfold Relay.register
    simp only [goto_client, handAll_written]
    by_cases hd : d = c
    · subst hd; rw [update_self]
    · rw [update_of_ne hd]
  have hbuf : ∀ d, d ≠ c → ((st.register J c).client d).send = (st.client d).send := fun d hd => by
    unfold Relay.register
    simp only [goto_client, handAll_client_ne hd, update_of_ne hd]
  have hself : ((st.register J c).client c).send.buf = (st.client c).send.buf ++
      ((st.queue (st.client c).id).take (st.client c).send.room).map (Queued.item J) := by
    unfold Relay.register
    simp only [goto_client, handAll_client_self, update_self]
    rw [Chan.offerAll_buf, List.map_take]
  have hclients : (st.register J c).clients = update st.clients (st.client c).id (some c) := rfl
  have hnot : ∀ id d, st.clients id = some d → d ≠ c := fun id d hd he => by
    have hs := (hr.listed id d hd).2.1
    unfold Started at hs
    rw [he, hpc] at hs
    exact hs
  refine h.of_held rfl (fun g k _ _ hk _ _ => .inl ⟨g, pending_keep hk fun hg => ?_⟩)
    fun k id hheld => ?_
  · rw [hg, hpc] at hk; cases hk
  rcases hheld with ⟨d, hd, hdid, x, hx, ht⟩ | ⟨d, hd, x, hx, ht⟩ | ⟨e, hm, ht⟩
  · exact .inl ⟨d, hd, by rw [hid]; exact hdid, x, by rw [hwritten]; exact hx, ht⟩
  · by_cases hi : id = (st.client c).id
    · -- what is in the channel of the replaced client has been written
      subst hi
      obtain ⟨y, hy, hty⟩ := hspent d hd x hx k ht
      exact .inl ⟨d, hr.listed_lt _ d hd, by rw [hid]; exact (hr.listed _ d hd).1, y,
        by rw [hwritten]; exact hy, hty⟩
    · refine .inr (.inl ⟨d, ?_, x, ?_, ht⟩)
      · rw [hclients, update_of_ne hi]; exact hd
      · rw [hbuf d (hnot id d hd)]; exact hx
  · by_cases hi : id = (st.client c).id
    · subst hi
      refine .inr (.inl ⟨c, by rw [hclients, update_self], ?_⟩)
      rw [hself]
      rw [← List.take_append_drop (st.client c).send.room (st.queue (st.client c).id)] at hm
      rcases List.mem_append.mp hm with hm | hm
      · exact ⟨e.item J, List.mem_append_right _ (List.mem_map_of_mem hm), ht⟩
      · -- it does not fit, but another copy did
        obtain ⟨y, hy, hty⟩ := hroom e hm k ht
        exact ⟨y, List.mem_append_left _ hy, hty⟩
    · refine .inr (.inr ⟨e, ?_, ht⟩)
      rw [show (st.register J c).queue = update st.queue (st.client c).id [] from rfl,
        update_of_ne hi]
      exact hm

theorem unregister (h : Conserves J st) (hr : Registry st) {c : ℕ}
    (hpc : st.pc (.serve c) = .leaving)
    (hspent : ∀ d ∈ st.clients (st.client c).id, Spent (st.client d)) :
    Conserves J (st.unregister c) := by
  have hleave : ∀ k, (st.pc (.serve c)).pending? ≠ some k := fun k hk => by rw [hpc] at hk; cases hk
  unfold Relay.unregister
  simp only
  split
  · exact h.goto fun k _ _ hk _ _ => absurd hk (hleave k)
  · rename_i d hd
    split
    · exact h
    · refine h.of_held rfl (fun g k _ _ hk _ _ => .inl ⟨g, pending_keep hk fun hg => ?_⟩)
        fun k id hheld => ?_
      · exact absurd (hg ▸ hk) (hleave k)
      have hclient : ∀ e, (update st.client d
          { st.client d with online := false, send := (st.client d).send.close } e).written =
            (st.client e).written ∧ (update st.client d
          { st.client d with online := false, send := (st.client d).send.close } e).send.buf =
            (st.client e).send.buf := fun e => by
        by_cases he : e = d
        · subst he; rw [update_self]; exact ⟨rfl, rfl⟩
        · rw [update_of_ne he]; exact ⟨rfl, rfl⟩
      rcases hheld with ⟨e, he, heid, x, hx, ht⟩ | ⟨e, he, x, hx, ht⟩ | hq
      · exact .inl ⟨e, he, (update_id (by rfl) e).trans heid, x, (hclient e).1 ▸ hx, ht⟩
      · by_cases hi : id = (st.client c).id
        · subst hi
          obtain ⟨y, hy, hty⟩ := hspent e he x hx k ht
          exact .inl ⟨e, hr.listed_lt _ e he, (update_id (by rfl) e).trans (hr.listed _ e he).1, y,
            (hclient e).1 ▸ hy, hty⟩
        · exact .inr (.inl ⟨e, (update_of_ne hi ..).trans he, x, (hclient e).2 ▸ hx, ht⟩)
      · exact .inr (.inr hq)

theorem write (h : Conserves J st) (hr : Registry st) {c : ℕ} {ok : Bool}
    (hok : st.DropsNothing (.write c ok)) : Conserves J (st.write c ok) := by
  unfold Relay.write
  split
  case isFalse => exact h
  split
  case h_2 => exact h
  rename_i x rest hrecv
  obtain ⟨hbuf, -⟩ := Chan.recv_eq_some hrecv
  have hid : ∀ d, (update st.client c
      (if ok then { st.client c with send := rest, written := (st.client c).written ++ [x] }
        else { st.client c with send := rest, writing := false }) d).id = (st.client d).id :=
    update_id (by split <;> rfl)
  have hwritten : ∀ d, (st.client d).written ⊆ (update st.client c
      (if ok then { st.client c with send := rest, written := (st.client c).written ++ [x] }
        else { st.client c with send := rest, writing := false }) d).written := fun d => by
    by_cases hd : d = c
    · subst hd
      rw [update_self]
      split
      · exact List.subset_append_left _ _
      · exact List.Subset.refl _
    · rw [update_of_ne hd]; exact List.Subset.refl _
  refine h.of_held rfl (fun g k _ _ hk _ _ => .inl ⟨g, hk⟩) fun k id hheld => ?_
  rcases hheld with ⟨d, hd, hdid, y, hy, ht⟩ | ⟨d, hd, y, hy, ht⟩ | hq
  · exact .inl ⟨d, hd, (hid d).trans hdid, y, hwritten d hy, ht⟩
  · by_cases hdc : d = c
    case neg => exact .inr (.inl ⟨d, hd, y, by simp only [update_of_ne hdc]; exact hy, ht⟩)
    subst hdc
    obtain ⟨hdid, -, -⟩ := hr.listed id d hd
    have hlt := hr.listed_lt id d hd
    -- in the channel behind the value taken, or written before
    have helse : Copied k (rest.buf ++ (st.client d).written) → Held { st with
        client := update st.client d
          (if ok then { st.client d with send := rest, written := (st.client d).written ++ [x] }
            else { st.client d with send := rest, writing := false }) } k id := by
      rintro ⟨z, hz, htz⟩
      rcases List.mem_append.mp hz with hz | hz
      · refine .inr (.inl ⟨d, hd, z, ?_, htz⟩)
        simp only [update_self]
        split <;> exact hz
      · exact .inl ⟨d, hlt, (hid d).trans hdid, z, hwritten d hz, htz⟩
    rw [hbuf] at hy
    rcases List.mem_cons.mp hy with rfl | hy
    · cases ok with
      | true =>
        refine .inl ⟨d, hlt, (hid d).trans hdid, y, ?_, ht⟩
        simp only [update_self, if_true]
        exact List.mem_append_right _ (List.mem_singleton.mpr rfl)
      | false =>
        refine helse ?_
        have := hok (by rw [hdid]; exact hd) rfl
        rw [hbuf] at this
        exact this y rfl k ht
    · exact helse ⟨y, List.mem_append_left _ hy, ht⟩
  · exact .inr (.inr hq)

theorem recipient_of_made {g : Goroutine} {s : Send} (hs : Made J st g s)
    (hc : s.caller = .processMessage) {c : ℕ} {m : Message} (hread : Read J st s.number c m) :
    s.message.recipient = m.recipient := by
  unfold Made at hs
  rw [hc] at hs
  obtain ⟨c', m', now, -, hread', -, hm, -⟩ := hs
  obtain ⟨-, rfl⟩ := hread.unique hread'
  rw [hm]
  rfl

/-- **Routing a frame**: where the call of `Hub.send` for the relay's own copy of
it is over, the copy is held. -/
theorem goto_next (h : Conserves J st) {g : Goroutine} {s : Send}
    (hs : (st.pc g).send? = some s)
    (hheld : s.caller = .processMessage → ∀ c m, Read J st s.number c m →
      st.Held s.number m.recipient) : Conserves J (st.goto g s.next) := by
  refine h.of_held rfl (fun g' k c m hk hread hm => ?_) fun _ _ hh => hh
  by_cases hg : g' = g
  · subst hg
    obtain ⟨hc, rfl⟩ := Pc.pending_of_send hs hk
    unfold Send.next
    cases hcaller : s.caller with
    | readLoop =>
      refine .inl ⟨g', ?_⟩
      rw [goto_pc, update_self]
      rfl
    | processMessage => exact .inr (hheld hcaller c m hread)
    | processPayment => exact absurd hcaller hc
  · exact .inl ⟨g', pending_keep hk fun he => absurd he hg⟩

theorem push (h : Conserves J st) (hr : Registry st) (hp : Provenance J st) {g : Goroutine}
    {s : Send} {c : ℕ} (hpc : st.pc g = .push s c)
    (hlisted : s.caller = .processMessage → st.clients s.message.recipient = some c) :
    Conserves J (st.push g s c) := by
  have hs : (st.pc g).send? = some s := by rw [hpc]; rfl
  have hmade := hp.made hs
  unfold Relay.push
  split
  · exact h
  split
  · rename_i hoffer
    refine (h.handAll hr c [s.item]).goto_next hs fun hc d m hread => ?_
    refine .inr (.inl ⟨c, ?_, s.item, ?_, ?_⟩)
    · rw [← recipient_of_made hmade hc hread]; exact hlisted hc
    · rw [handAll_client_self]
      exact (Chan.offer_accepted hoffer) ▸ List.mem_append_right _ (List.mem_singleton.mpr rfl)
    · unfold Send.item Send.tag; rw [hc]; rfl
  · exact h.goto fun k _ _ hk _ _ => by rw [hpc] at hk; exact hk

theorem fallBack (h : Conserves J st) (hr : Registry st) (hp : Provenance J st) {g : Goroutine}
    {s : Send} {ok : Bool} {now : Int64} (hpc : st.pc g = .refused s) :
    Conserves J (st.fallBack g s ok now) := by
  have hs : (st.pc g).send? = some s := by rw [hpc]; rfl
  have hmade := hp.made hs
  unfold Relay.fallBack
  split
  · rename_i hc
    have hnot : s.caller = .processMessage → ∀ c m, Read J st s.number c m →
        st.Held s.number m.recipient := fun hc' => by rw [hc] at hc'; cases hc'
    split
    · have h' : Conserves J { st with queuedMessages := st.queuedMessages ++ [s.row now] } :=
        h.of_held rfl (fun g k _ _ hk _ _ => .inl ⟨g, hk⟩) fun _ _ hh => hh
      exact h'.goto_next hs hnot
    · exact h.goto_next hs hnot
  · have hmem : ∀ id, st.queue id ⊆ (st.queueMessage s.tag s.message).queue id := fun id => by
      rw [queueMessage_queue]
      exact List.subset_append_left _ _
    have h' : Conserves J (st.queueMessage s.tag s.message) :=
      h.of_held rfl (fun g k _ _ hk _ _ => .inl ⟨g, hk⟩) fun k id hh =>
        hh.mono (.of_eq rfl rfl rfl fun _ => rfl) rfl
          (fun _ _ => ⟨List.Subset.refl _, List.Subset.refl _⟩) hr.listed_lt (hmem id)
    refine h'.goto_next hs fun hc d m hread => ?_
    refine .inr (.inr ⟨⟨s.tag, s.message⟩, ?_, ?_⟩)
    · rw [← recipient_of_made hmade hc hread, queueMessage_queue, if_pos rfl]
      exact List.mem_append_right _ (List.mem_singleton.mpr rfl)
    · unfold Send.tag; rw [hc]; rfl

theorem processMessage (h : Conserves J st) (hp : Provenance J st) {g : Goroutine} {k : ℕ}
    {data : Bytes} {now : Int64} (hpc : st.pc g = .processing k data) :
    Conserves J (st.processMessage J g k data now) := by
  obtain ⟨c, hg, hf⟩ : ∃ c, g = .serve c ∧ st.frames[k]? = some ⟨c, data⟩ := by
    have := hp.pcs g
    rw [hpc] at this
    exact this
  -- the goroutine has frame `k` pending; malformed and payment frames need no place
  have hpend : ∀ k', (st.pc g).pending? = some k' → k' = k := fun k' hk => by
    rw [hpc] at hk; exact (Option.some.inj hk).symm
  unfold Relay.processMessage
  cases hm : J.unmarshal data with
  | none =>
    refine h.goto fun k' c' m' hk hread _ => ?_
    obtain ⟨data', hf', hm'⟩ := hread
    rw [hpend k' hk, hf] at hf'
    obtain ⟨-, rfl⟩ := Frame.mk.inj (Option.some.inj hf')
    rw [hm] at hm'
    cases hm'
  | some m =>
    have hread : Read J st k c m := ⟨data, hf, hm⟩
    simp only
    split
    · rename_i hpay
      have habs : ∀ k' c' m', (st.pc g).pending? = some k' → Read J st k' c' m' →
          ¬ m'.IsPayment → False := fun k' c' m' hk hread' hm' => by
        rw [hpend k' hk] at hread'
        obtain ⟨-, rfl⟩ := hread.unique hread'
        exact hm' hpay
      have hreading : Conserves J (st.goto g .reading) := h.goto fun k' c' m' hk hread' hm' =>
        (habs k' c' m' hk hread' hm').elim
      cases J.unmarshalPayment (m.stamped now).payload with
      | none => exact hreading
      | some payment =>
        have hidle : ∀ k', ((st.goto g .reading).pc (.pay st.payments.length)).pending? ≠ some k' := by
          intro k' hk
          rw [goto_pc, update_of_ne (by rw [hg]; exact Goroutine.noConfusion)] at hk
          obtain ⟨c', data', hg', -⟩ := hp.reader hk
          cases hg'
        exact (hreading.goto fun k' _ _ hk _ _ => absurd hk (hidle k')).of_held rfl
          (fun g' k' _ _ hk _ _ => .inl ⟨g', hk⟩) fun _ _ hh => hh
    · exact h.goto fun k' _ _ hk _ _ => by rw [hpc] at hk; exact hk

/-- **A step that drops no frame keeps it.** -/
theorem step {a : Act} (h : Conserves J st) (hr : Registry st) (hp : Provenance J st)
    (hg : st.DropsNothing a) : Conserves J (st.step J a) := by
  have he := step_extends J st a
  have hop := step_op J st a
  generalize st.step J a = st' at hop he ⊢
  cases hop with
  | none => exact h
  | accounts => exact h
  | accept =>
    refine h.of_held rfl (fun g k _ _ hk _ _ => .inl ⟨g, pending_keep hk fun hg => ?_⟩)
      fun k id hh => hh.mono he rfl (fun d hd => ?_) hr.listed_lt (List.Subset.refl _)
    · rw [hg, hr.fresh _ (Nat.le_refl _)] at hk; cases hk
    · unfold Relay.accept
      simp only [update_of_ne hd.ne]
      exact ⟨List.Subset.refl _, List.Subset.refl _⟩
  | hangup hpc => exact h.goto fun k _ _ hk _ _ => by rw [hpc] at hk; cases hk
  | readFrame hpc => exact h.readFrame hr hpc
  | drain hpc => exact h.drain hr hpc
  | delete hpc =>
    have hdel : ∀ k, (st.pc (.serve _)).pending? ≠ some k := fun k hk => by rw [hpc] at hk; cases hk
    unfold Relay.delete
    split
    · exact h.of_held rfl (fun g k _ _ hk _ _ => .inl ⟨g, pending_keep hk fun hg =>
        absurd (hg ▸ hk) (hdel k)⟩) fun _ _ hh => hh
    · exact h.goto fun k _ _ hk _ _ => absurd hk (hdel k)
  | register hpc => exact h.register hr hpc (hg.at hpc).1 (hg.at hpc).2
  | lookup hpc => exact h.goto fun k _ _ hk _ _ => by rw [hpc] at hk; exact hk
  | check hpc =>
    refine h.goto fun k _ _ hk _ _ => ?_
    rw [hpc] at hk
    unfold checked
    split
    · split <;> exact hk
    · exact hk
  | push hpc => exact h.push hr hp hpc (hg.at hpc)
  | fallBack hpc => exact h.fallBack hr hp hpc
  | process hpc => exact h.processMessage hp hpc
  | pay hpc => exact h.goto fun k _ _ hk _ _ => by rw [hpc] at hk; cases hk
  | unregister hpc => exact h.unregister hr hpc (hg.at hpc)
  | write => exact h.write hr hg

end Conserves

theorem start_conserves (J : Json) : Conserves J start := fun _ _ _ ⟨_, hf, _⟩ => by cases hf

/-- **Where no step drops a frame, no frame is lost.** -/
theorem conserved_of_dropsNothing (J : Json) (acts : List Act)
    (h : Along (step J) DropsNothing start acts) : Conserved J (run J acts) := by
  obtain ⟨-, hconserves⟩ := h.invariant_with (Sound.step J)
    (fun _ _ hs hg hI => hI.step hs.registry hs.provenance hg) (start_sound J) (start_conserves J)
  exact hconserves.conserved

end Relay

namespace Sample

open Relay

/-- Alice sends Bob, who is offline, a message; then he connects, is written
what was kept for him, and hangs up. -/
def keptAndWritten : List Act :=
  .accounts users :: connects "ta" 0 ++ [.read 0 (some (text (hello "alice" "1")))] ++ steps 0 8 ++
    [.connect "tb"] ++ steps 1 3 ++ [.write 1 true, .write 1 true, .read 1 none] ++ steps 1 1

theorem conserved_of_dropsNothing_keptAndWritten :
    Along (step json) DropsNothing start keptAndWritten ∧
      ((run json keptAndWritten).client 1).written.map Item.tag = [.raw 0, .own 0] ∧
      Conserved json (run json keptAndWritten) :=
  ⟨by decide +kernel, by decide +kernel,
    conserved_of_dropsNothing json keptAndWritten (by decide +kernel)⟩

/-- Bob hangs up before the writer has come to the message Alice sent him. -/
def hangupUnwritten : List Act := sentOnline ++ [.read 0 none] ++ steps 0 1

/-- **Unregistering discards what waits in the channel.** -/
theorem hangup_discards : ¬ Conserved json (run json hangupUnwritten) := by
  intro h
  have hframes : (run json hangupUnwritten).frames = [⟨1, text (hello "alice" "1")⟩] := by
    decide +kernel
  have hread : Read json (run json hangupUnwritten) 0 1 (hello "alice" "1") :=
    ⟨_, by rw [hframes]; rfl, by decide +kernel⟩
  have hdone : (run json hangupUnwritten).Handled 0 := fun g hg => by
    obtain ⟨c, data, rfl, hf⟩ := (run_provenance json hangupUnwritten).reader hg
    rw [hframes] at hf
    obtain ⟨rfl, -⟩ := Frame.mk.inj (Option.some.inj hf)
    have : ((run json hangupUnwritten).pc (.serve 1)).pending? = none := by decide +kernel
    rw [this] at hg
    cases hg
  rcases h 0 1 _ hread (by decide) hdone with hw | ⟨c, hc, -⟩ | hq | hr
  · revert hw; decide +kernel
  · have : (run json hangupUnwritten).clients "bob" = none := by decide +kernel
    rw [show (hello "alice" "1").recipient = "bob" from rfl, this] at hc
    cases hc
  · revert hq; decide +kernel
  · revert hr; decide +kernel

end Sample

end SecureComm.Server
