import SecureComm.Lib.Precedes
import SecureComm.Server.Conservation

/-!
# No frame is stranded or overtaken

A user with a registered client has nothing in either backlog, and the frames
of one sender for one recipient come to channels in the order in which they
were read, as long as nothing is put into a backlog, or left in one, behind the
back of a registered client.
-/

namespace SecureComm.Server

open Function Run

/-- The frame that the read loop is sending on. -/
def Pc.relayed? (p : Pc) : Option ℕ :=
  p.send?.bind fun s => if s.caller = .readLoop then some s.number else none

theorem Pc.relayed_eq_some {p : Pc} {k : ℕ} (h : p.relayed? = some k) :
    ∃ s, p.send? = some s ∧ s.caller = .readLoop ∧ s.number = k := by
  obtain ⟨s, hs, hk⟩ := Option.bind_eq_some_iff.mp h
  split at hk
  · exact ⟨s, hs, ‹_›, Option.some.inj hk⟩
  · cases hk

theorem Send.next_relayed (s : Send) : s.next.relayed? = none := by
  unfold Send.next; split <;> rfl

variable {J : Json} {st st' : Relay}

namespace Relay

def Placed (st : Relay) (k : ℕ) : Prop := ∃ t ∈ st.tags, t.frame? = some k

/-- Among the tags, one of the first frame stands before each of the second. -/
def Leads (k₁ k₂ : ℕ) (l : List Tag) : Prop :=
  Precedes (fun t => t.frame? = some k₁) (fun t => t.frame? = some k₂) l

/-- Two frames of one user for one recipient, in the order in which they were read. -/
def Stream (J : Json) (st : Relay) (k₁ k₂ : ℕ) (id : String) : Prop :=
  k₁ < k₂ ∧ ∃ c₁ m₁ c₂ m₂, Read J st k₁ c₁ m₁ ∧ Read J st k₂ c₂ m₂ ∧
    m₁.recipient = id ∧ m₂.recipient = id ∧ (st.client c₁).id = (st.client c₂).id

/-- Once a frame has been handled, a recipient with a registered client has
nothing in either backlog; and no frame is placed on a channel before one for
the same recipient that its sender sent earlier. -/
structure InOrder (J : Json) (st : Relay) : Prop where
  drained : ∀ k c m d, Read J st k c m → st.Handled k → st.clients m.recipient = some d →
    st.queue m.recipient = [] ∧ st.backlog m.recipient = []
  ordered : ∀ k₁ k₂ id, Stream J st k₁ k₂ id →
    Precedes (fun h => h.item.tag.frame? = some k₁ ∧ (st.client h.conn).id = id)
      (fun h => h.item.tag.frame? = some k₂) st.handed

/-- Where a message goes into a backlog, its recipient has no registered client,
and a row for it is inserted; rows that are deleted are in the channel; a client
that registers finds no rows left. -/
def orderlyAt (st : Relay) (g : Goroutine) (ok : Bool) : Pc → Prop
  | .refused s => st.clients s.message.recipient = none ∧ (s.caller = .readLoop → ok = true)
  | .deleting =>
    match g with
    | .serve c => ok = true →
      ∀ r ∈ st.backlog (st.client c).id, ∃ x ∈ (st.client c).send.buf, x.tag = .raw r.frame
    | .pay _ => True
  | .registering =>
    match g with
    | .serve c => st.backlog (st.client c).id = []
    | .pay _ => True
  | _ => True

/-- The read loop of the connection is sending a frame on to the user. -/
def RelaysTo (st : Relay) (d : ℕ) (id : String) : Prop :=
  ∃ s ∈ (st.pc (.serve d)).send?, s.caller = .readLoop ∧ s.message.recipient = id

instance (st : Relay) (d : ℕ) (id : String) : Decidable (st.RelaysTo d id) :=
  inferInstanceAs (Decidable (∃ s ∈ (st.pc (.serve d)).send?, _))

/-- And a frame is read while no other connection of the same user is sending
one on to the same recipient. -/
def Orderly (J : Json) (st : Relay) : Act → Prop
  | .next g ok _ => st.orderlyAt g ok (st.pc g)
  | .read c (some data) => ∀ d < st.conns, d ≠ c → (st.client d).id = (st.client c).id →
    ∀ m ∈ J.unmarshal data, ¬ st.RelaysTo d m.recipient
  | _ => True

theorem Orderly.at {g : Goroutine} {p : Pc} {ok : Bool} {now : Int64}
    (h : Orderly J st (.next g ok now)) (hpc : st.pc g = p) : st.orderlyAt g ok p := hpc ▸ h

instance (st : Relay) (g : Goroutine) (ok : Bool) : ∀ p, Decidable (st.orderlyAt g ok p)
  | .refused s => inferInstanceAs (Decidable
      (st.clients s.message.recipient = none ∧ (s.caller = .readLoop → ok = true)))
  | .deleting =>
    match g with
    | .serve c => inferInstanceAs (Decidable (ok = true →
        ∀ r ∈ st.backlog (st.client c).id, ∃ x ∈ (st.client c).send.buf, x.tag = .raw r.frame))
    | .pay _ => .isTrue trivial
  | .registering =>
    match g with
    | .serve c => inferInstanceAs (Decidable (st.backlog (st.client c).id = []))
    | .pay _ => .isTrue trivial
  | .idle | .querying | .reading | .lookup _ | .check .. | .push .. | .processing .. | .paying ..
  | .leaving | .finished => .isTrue trivial

instance (J : Json) (st : Relay) : ∀ a, Decidable (Orderly J st a)
  | .next g ok _ => inferInstanceAs (Decidable (st.orderlyAt g ok (st.pc g)))
  | .read c (some data) => inferInstanceAs (Decidable (∀ d < st.conns, d ≠ c →
      (st.client d).id = (st.client c).id →
        ∀ m ∈ J.unmarshal data, ¬ st.RelaysTo d m.recipient))
  | .read _ none | .accounts _ | .connect _ | .write .. => .isTrue trivial

/-! ## The invariant -/

def rowTags (st : Relay) : List Tag := st.queuedMessages.map fun r => .raw r.frame

/-- A frame that the read loop has sent on was placed, or there is a row for it.
Of two frames of a stream the first has been sent on, was placed before anyone
is about to place the second, and leads wherever both are. -/
structure Ordered (J : Json) (st : Relay) : Prop where
  conns : ∀ f ∈ st.frames, f.conn < st.conns
  drained : ∀ id c, st.clients id = some c → st.queue id = [] ∧ st.backlog id = []
  buf : ∀ c, ∀ x ∈ (st.client c).send.buf, x.tag ∈ st.tags
  settled : ∀ k c m, Read J st k c m → (∃ g, (st.pc g).relayed? = some k) ∨
    st.Placed k ∨ .raw k ∈ st.rowTags
  first : ∀ k₁ k₂ id, Stream J st k₁ k₂ id → ∀ g, (st.pc g).relayed? ≠ some k₁
  target : ∀ k₁ k₂ id, Stream J st k₁ k₂ id → ∀ g s c, (st.pc g).send? = some s →
    s.tag.frame? = some k₂ → (st.pc g).Targets c → st.Placed k₁
  handed : ∀ k₁ k₂ id, Stream J st k₁ k₂ id → Leads k₁ k₂ st.tags
  rows : ∀ k₁ k₂ id, Stream J st k₁ k₂ id → st.Placed k₁ ∨ Leads k₁ k₂ st.rowTags

theorem start_ordered (J : Json) : Ordered J start where
  conns _ h := by cases h
  drained _ _ h := by cases h
  buf _ _ h := by cases h
  settled _ _ _ := fun ⟨_, hf, _⟩ => by cases hf
  first _ _ _ := fun ⟨_, _, _, _, _, ⟨_, hf, _⟩, _⟩ => by cases hf
  target _ _ _ := fun ⟨_, _, _, _, _, ⟨_, hf, _⟩, _⟩ => by cases hf
  handed _ _ _ := fun ⟨_, _, _, _, _, ⟨_, hf, _⟩, _⟩ => by cases hf
  rows _ _ _ := fun ⟨_, _, _, _, _, ⟨_, hf, _⟩, _⟩ => by cases hf

theorem Ordered.inOrder (h : Ordered J st) (hp : Provenance J st) : InOrder J st where
  drained _ _ m d _ _ hd := h.drained m.recipient d hd
  ordered k₁ k₂ id hs := by
    have hlead : Precedes (fun x : Handing => x.item.tag.frame? = some k₁)
      (fun x => x.item.tag.frame? = some k₂) st.handed := (h.handed k₁ k₂ id hs).of_map
    intro l₁ x l₂ hl hx
    obtain ⟨y, hy, hk⟩ := hlead l₁ x l₂ hl hx
    refine ⟨y, hy, hk, ?_⟩
    -- what is handed over is for the recipient
    obtain ⟨-, m, -, hc, hrec⟩ := hp.handed y (hl ▸ List.mem_append_left _ hy)
    obtain ⟨-, c₁, m₁, c₂, m₂, hread, -, hid, -⟩ := hs
    rw [← hrec, ← hid]
    exact hc.recipient hk hread

/-! ## What operations leave in order -/

theorem Placed.mono {k : ℕ} (h : st.Placed k) (ht : st.tags ⊆ st'.tags) : st'.Placed k := by
  obtain ⟨t, hm, hk⟩ := h
  exact ⟨t, ht hm, hk⟩

theorem Read.of_readFrame {k c d : ℕ} {data : Bytes} {m : Message}
    (h : Read J (st.readFrame J c data) k d m) (hk : k < st.frames.length) : Read J st k d m := by
  obtain ⟨data', hf, hm⟩ := h
  have hframes : (st.readFrame J c data).frames = st.frames ++ [⟨c, data⟩] := rfl
  rw [hframes, List.getElem?_append_left hk] at hf
  exact ⟨data', hf, hm⟩

theorem Read.readFrame_new {k c d : ℕ} {data : Bytes} {m : Message}
    (h : Read J (st.readFrame J c data) k d m) (hk : ¬ k < st.frames.length) :
    k = st.frames.length ∧ d = c ∧ J.unmarshal data = some m := by
  obtain ⟨data', hf, hm⟩ := h
  have hframes : (st.readFrame J c data).frames = st.frames ++ [⟨c, data⟩] := rfl
  have hlen := (List.getElem?_eq_some_iff.mp hf).1
  rw [hframes, List.length_append, List.length_singleton] at hlen
  obtain rfl : k = st.frames.length := by omega
  rw [hframes, List.getElem?_concat_length] at hf
  obtain ⟨rfl, rfl⟩ := Frame.mk.inj (Option.some.inj hf)
  exact ⟨rfl, rfl, hm⟩

theorem Stream.readFrame_first {k₁ k₂ c : ℕ} {id : String} {data : Bytes}
    (h : Stream J (st.readFrame J c data) k₁ k₂ id) : k₁ < st.frames.length := by
  obtain ⟨hk, -, -, c₂, m₂, -, h₂, -⟩ := h
  by_cases hk₂ : k₂ < st.frames.length
  · exact hk.trans hk₂
  · exact hk.trans_eq (h₂.readFrame_new hk₂).1

theorem Stream.of_readFrame {k₁ k₂ c : ℕ} {id : String} {data : Bytes}
    (h : Stream J (st.readFrame J c data) k₁ k₂ id) (hk₂ : k₂ < st.frames.length) :
    Stream J st k₁ k₂ id := by
  obtain ⟨hk, c₁, m₁, c₂, m₂, h₁, h₂, hrest⟩ := h
  exact ⟨hk, c₁, m₁, c₂, m₂, h₁.of_readFrame (hk.trans hk₂), h₂.of_readFrame hk₂, hrest⟩

theorem Read.back {k c : ℕ} {m : Message} (h : Read J st' k c m) (hf : st'.frames = st.frames) :
    Read J st k c m := by
  unfold Read at h ⊢
  rwa [hf] at h

namespace Ordered

theorem conn_lt (h : Ordered J st) {k c : ℕ} {m : Message} (hread : Read J st k c m) :
    c < st.conns := by
  obtain ⟨data, hf, -⟩ := hread
  exact h.conns _ (List.mem_of_getElem? hf)

theorem stream (h : Ordered J st) (he : Extends st st') (hf : st'.frames = st.frames) {k₁ k₂ : ℕ}
    {id : String} (hs : Stream J st' k₁ k₂ id) : Stream J st k₁ k₂ id := by
  obtain ⟨hlt, c₁, m₁, c₂, m₂, h₁, h₂, hm₁, hm₂, hid⟩ := hs
  have h₁ := h₁.back hf
  have h₂ := h₂.back hf
  rw [he.id _ (h.conn_lt h₁), he.id _ (h.conn_lt h₂)] at hid
  exact ⟨hlt, c₁, m₁, c₂, m₂, h₁, h₂, hm₁, hm₂, hid⟩

/-- **Nothing waits behind the back of a registered client**: whoever finds one
may place a frame on its channel. -/
theorem placed_of_drained (h : Ordered J st) (hp : Provenance J st) {k₁ k₂ : ℕ} {id : String}
    (hs : Stream J st k₁ k₂ id) (hb : st.backlog id = []) : st.Placed k₁ := by
  have hs' := hs
  obtain ⟨-, c₁, m₁, -, -, hread, -, hid, -⟩ := hs'
  rcases h.settled k₁ c₁ m₁ hread with ⟨g, hg⟩ | hplaced | hrow
  · exact absurd hg (h.first k₁ k₂ id hs g)
  · exact hplaced
  · -- a row for the frame would be in the backlog
    obtain ⟨r, hr, ht⟩ := List.mem_map.mp hrow
    obtain rfl := Tag.raw.inj ht
    have hrec : r.recipient = id := ((hp.rows r hr).recipient rfl hread).trans hid
    have hmem : r ∈ st.backlog id := List.mem_filter.mpr ⟨hr, decide_eq_true hrec⟩
    rw [hb] at hmem
    cases hmem

theorem goto (h : Ordered J st) {g : Goroutine} {p : Pc}
    (hkeep : ∀ k, (st.pc g).relayed? = some k →
      p.relayed? = some k ∨ st.Placed k ∨ .raw k ∈ st.rowTags)
    (hback : ∀ k, p.relayed? = some k → (st.pc g).relayed? = some k)
    (htarget : ∀ s c, p.send? = some s → p.Targets c →
      ((st.pc g).send? = some s ∧ (st.pc g).Targets c) ∨
      ∀ k₁ k₂ id, Stream J st k₁ k₂ id → s.tag.frame? = some k₂ → st.Placed k₁) :
    Ordered J (st.goto g p) where
  conns := h.conns
  drained := h.drained
  buf := h.buf
  settled k c m hread := by
    rcases h.settled k c m hread with ⟨g', hg'⟩ | hk
    · by_cases hg : g' = g
      · subst hg
        rcases hkeep k hg' with hp | hk
        · exact .inl ⟨g', by rw [goto_pc, update_self]; exact hp⟩
        · exact .inr hk
      · exact .inl ⟨g', by rw [goto_pc, update_of_ne hg]; exact hg'⟩
    · exact .inr hk
  first k₁ k₂ id hs g' hk := by
    rw [goto_pc] at hk
    by_cases hg : g' = g
    · subst hg
      rw [update_self] at hk
      exact h.first k₁ k₂ id hs g' (hback _ hk)
    · rw [update_of_ne hg] at hk
      exact h.first k₁ k₂ id hs g' hk
  target k₁ k₂ id hs g' s c hsend hk hc := by
    rw [goto_pc] at hsend hc
    by_cases hg : g' = g
    · subst hg
      rw [update_self] at hsend hc
      rcases htarget s c hsend hc with ⟨hsend, hc⟩ | hplaced
      · exact h.target k₁ k₂ id hs g' s c hsend hk hc
      · exact hplaced k₁ k₂ id hs hk
    · rw [update_of_ne hg] at hsend hc
      exact h.target k₁ k₂ id hs g' s c hsend hk hc
  handed := h.handed
  rows := h.rows

theorem goto_plain (h : Ordered J st) {g : Goroutine} {p : Pc}
    (hkeep : ∀ k, (st.pc g).relayed? = some k →
      p.relayed? = some k ∨ st.Placed k ∨ .raw k ∈ st.rowTags)
    (hback : ∀ k, p.relayed? = some k → (st.pc g).relayed? = some k)
    (ht : ∀ c, ¬ p.Targets c) : Ordered J (st.goto g p) :=
  h.goto hkeep hback fun _ c _ hc => (ht c hc).elim

theorem same (h : Ordered J st) (he : Extends st st') (hpc : st'.pc = st.pc)
    (hframes : st'.frames = st.frames) (hhanded : st'.handed = st.handed)
    (hrows : st'.queuedMessages = st.queuedMessages)
    (hdrained : ∀ id c, st'.clients id = some c → st'.queue id = [] ∧ st'.backlog id = [])
    (hbuf : ∀ c, ∀ x ∈ (st'.client c).send.buf, x.tag ∈ st.tags) : Ordered J st' := by
  have htags : st'.tags = st.tags := by unfold tags; rw [hhanded]
  have hrow : st'.rowTags = st.rowTags := by unfold rowTags; rw [hrows]
  have hplaced : ∀ {k}, st.Placed k → st'.Placed k := fun hk =>
    hk.mono (htags ▸ List.Subset.refl _)
  exact
    { conns := fun f hf => (h.conns f (hframes ▸ hf)).trans_le he.conns
      drained := hdrained
      buf := fun c x hx => htags ▸ hbuf c x hx
      settled := fun k c m hread => by
        rw [hpc, hrow]
        exact (h.settled k c m (hread.back hframes)).imp_right (Or.imp_left hplaced)
      first := fun k₁ k₂ id hs g => by rw [hpc]; exact h.first k₁ k₂ id (h.stream he hframes hs) g
      target := fun k₁ k₂ id hs g s c hsend hk hc => by
        rw [hpc] at hsend hc
        exact hplaced (h.target k₁ k₂ id (h.stream he hframes hs) g s c hsend hk hc)
      handed := fun k₁ k₂ id hs => htags ▸ h.handed k₁ k₂ id (h.stream he hframes hs)
      rows := fun k₁ k₂ id hs => by
        rw [hrow]
        exact (h.rows k₁ k₂ id (h.stream he hframes hs)).imp_left hplaced }

/-- **Values are placed on a channel**, each frame behind those before it. -/
theorem handAll (h : Ordered J st) {c : ℕ} {items : List Item}
    (hlead : ∀ k₁ k₂ id, Stream J st k₁ k₂ id →
      st.Placed k₁ ∨ Leads k₁ k₂ (items.map Item.tag)) : Ordered J (st.handAll c items) := by
  have he : Extends st (st.handAll c items) := .of_eq rfl rfl rfl fun _ => handAll_id
  have htags : (st.handAll c items).tags = _ := handAll_tags c items
  have hplaced : ∀ {k}, st.Placed k → (st.handAll c items).Placed k := fun hk =>
    hk.mono (by rw [htags]; exact List.subset_append_left _ _)
  have hstream : ∀ {k₁ k₂ id}, Stream J (st.handAll c items) k₁ k₂ id → Stream J st k₁ k₂ id :=
    fun hs => h.stream he rfl hs
  exact
    { conns := h.conns
      drained := h.drained
      buf := fun d x hx => by
        rw [htags]
        by_cases hd : d = c
        · subst hd
          rw [handAll_client_self, Chan.offerAll_buf] at hx
          rcases List.mem_append.mp hx with hx | hx
          · exact List.mem_append_left _ (h.buf d x hx)
          · exact List.mem_append_right _ (List.mem_map_of_mem hx)
        · rw [handAll_client_ne hd] at hx
          exact List.mem_append_left _ (h.buf d x hx)
      settled := fun k c m hread => (h.settled k c m hread).imp_right (Or.imp_left hplaced)
      first := fun k₁ k₂ id hs => h.first k₁ k₂ id (hstream hs)
      target := fun k₁ k₂ id hs g s d hsend hk hd =>
        hplaced (h.target k₁ k₂ id (hstream hs) g s d hsend hk hd)
      handed := fun k₁ k₂ id hs => by
        rw [htags, List.map_take]
        exact (h.handed k₁ k₂ id (hstream hs)).append
          ((hlead k₁ k₂ id (hstream hs)).imp_right fun hl => hl.take _)
      rows := fun k₁ k₂ id hs => (h.rows k₁ k₂ id (hstream hs)).imp_left hplaced }

/-! ## Steps -/

/-- Both frames of a stream name one recipient, so what selects rows by their
recipients selects the rows of both or of neither. -/
theorem leads_filter (hp : Provenance J st) {k₁ k₂ : ℕ} {id : String}
    (hs : Stream J st k₁ k₂ id) (hl : Leads k₁ k₂ st.rowTags) (keep : String → Bool) :
    Leads k₁ k₂ ((st.queuedMessages.filter fun r => keep r.recipient).map fun r => .raw r.frame) := by
  obtain ⟨-, c₁, m₁, c₂, m₂, h₁, h₂, hm₁, hm₂, -⟩ := hs
  have hrows : Precedes (fun r : QueuedMessage => (Tag.raw r.frame).frame? = some k₁)
    (fun r => (Tag.raw r.frame).frame? = some k₂) st.queuedMessages := hl.of_map
  refine Precedes.map (hrows.filter fun x hx y hy hkx hky hkeep => ?_)
  have hx' := (hp.rows x hx).recipient hkx h₂
  have hy' := (hp.rows y hy).recipient hky h₁
  have hxy : y.recipient = x.recipient := (hy'.trans hm₁).trans (hx'.trans hm₂).symm
  rw [hxy]
  exact hkeep

theorem drain (h : Ordered J st) (hp : Provenance J st) {c : ℕ} {ok : Bool}
    (hpc : st.pc (.serve c) = .querying) : Ordered J (st.drain J c ok) := by
  have hnone : ∀ k, (st.pc (.serve c)).relayed? ≠ some k := fun k hk => by rw [hpc] at hk; cases hk
  unfold Relay.drain
  split
  · refine (h.handAll fun k₁ k₂ id hs => (h.rows k₁ k₂ id hs).imp_right fun hl => ?_).goto_plain
      (fun k hk => absurd hk (hnone k)) (fun k hk => ?_) fun _ => ?_
    · have hl' := leads_filter hp hs hl fun id' => id' = (st.client c).id
      rw [List.map_map]
      exact hl'
    · split at hk <;> cases hk
    · split <;> exact id
  · exact h.goto_plain (fun k hk => absurd hk (hnone k)) (fun k hk => by cases hk) fun _ => id

theorem delete (h : Ordered J st) (hp : Provenance J st) {c : ℕ} {ok : Bool}
    (hpc : st.pc (.serve c) = .deleting)
    (hsent : ok = true →
      ∀ r ∈ st.backlog (st.client c).id, ∃ x ∈ (st.client c).send.buf, x.tag = .raw r.frame) :
    Ordered J (st.delete c ok) := by
  have hnone : ∀ k, (st.pc (.serve c)).relayed? ≠ some k := fun k hk => by rw [hpc] at hk; cases hk
  unfold Relay.delete
  split
  case isFalse =>
    exact h.goto_plain (fun k hk => absurd hk (hnone k)) (fun k hk => by cases hk) fun _ => id
  rename_i hok
  have h' : Ordered J { st with
      queuedMessages := st.queuedMessages.filter fun r => r.recipient ≠ (st.client c).id } :=
    { conns := h.conns
      drained := fun id d hd => by
        obtain ⟨hq, hb⟩ := h.drained id d hd
        refine ⟨hq, ?_⟩
        unfold backlog at hb ⊢
        exact List.filter_eq_nil_iff.mpr fun r hr =>
          List.filter_eq_nil_iff.mp hb r (List.mem_filter.mp hr).1
      buf := h.buf
      settled := fun k c' m hread => by
        rcases h.settled k c' m hread with hk | hk | hk
        · exact .inl hk
        · exact .inr (.inl hk)
        -- a row that is deleted was placed on the channel
        obtain ⟨r, hr, ht⟩ := List.mem_map.mp hk
        by_cases hid : r.recipient = (st.client c).id
        · obtain ⟨x, hx, htx⟩ := hsent hok r (List.mem_filter.mpr ⟨hr, decide_eq_true hid⟩)
          exact .inr (.inl ⟨x.tag, h.buf c x hx, by rw [htx, ht]; rfl⟩)
        · exact .inr (.inr (List.mem_map.mpr
            ⟨r, List.mem_filter.mpr ⟨hr, decide_eq_true hid⟩, ht⟩))
      first := h.first
      target := h.target
      handed := h.handed
      rows := fun k₁ k₂ id hs => (h.rows k₁ k₂ id hs).imp_right fun hl => by
        have hl' := leads_filter hp hs hl fun id' => decide (id' ≠ (st.client c).id)
        exact hl' }
  exact h'.goto_plain (fun k hk => absurd hk (hnone k)) (fun k hk => by cases hk) fun _ => id

theorem register (h : Ordered J st) (hp : Provenance J st) {c : ℕ}
    (hpc : st.pc (.serve c) = .registering) (hb : st.backlog (st.client c).id = []) :
    Ordered J (st.register J c) := by
  have hnone : ∀ k, (st.pc (.serve c)).relayed? ≠ some k := fun k hk => by rw [hpc] at hk; cases hk
  have hbuf : ∀ d, (update st.client c { st.client c with online := true, writing := true } d).send =
      (st.client d).send := fun d => by
    by_cases hd : d = c
    · subst hd; rw [update_self]
    · rw [update_of_ne hd]
  have he : Extends st { st with
      client := update st.client c { st.client c with online := true, writing := true } } :=
    .of_eq rfl rfl rfl fun d => update_id (by rfl) d
  have honline := h.same he rfl rfl rfl rfl h.drained fun d x hx => h.buf d x (hbuf d ▸ hx)
  have hhand : Ordered J ({ st with
      client := update st.client c { st.client c with online := true, writing := true }
      }.handAll c ((st.queue (st.client c).id).map (Queued.item J))) :=
    honline.handAll fun k₁ k₂ id hs => by
      have hs' := h.stream he rfl hs
      by_cases hid : id = (st.client c).id
      · exact .inl (h.placed_of_drained hp hs' (hid ▸ hb))
      · -- the frames of the stream are not in this queue
        obtain ⟨-, -, -, c₂, m₂, -, hread, -, hm₂, -⟩ := hs'
        refine .inr (.of_none fun t ht hk => hid ?_)
        obtain ⟨x, hx, rfl⟩ := List.mem_map.mp ht
        obtain ⟨e, he, rfl⟩ := List.mem_map.mp hx
        obtain ⟨hrec, -, hc⟩ := hp.queue _ e he
        exact (hm₂.symm.trans (hc.recipient hk hread).symm).trans hrec
  have hreg : Ordered J { { st with
        client := update st.client c { st.client c with online := true, writing := true }
      }.handAll c ((st.queue (st.client c).id).map (Queued.item J)) with
      clients := update st.clients (st.client c).id (some c)
      queue := update st.queue (st.client c).id []
      registrations := st.registrations ++ [c] } :=
    hhand.same (.of_eq rfl rfl rfl fun _ => rfl) rfl rfl rfl rfl (fun id d hd => by
      have hd' : update st.clients (st.client c).id (some c) id = some d := hd
      by_cases hid : id = (st.client c).id
      · subst hid
        exact ⟨update_self .., hb⟩
      · rw [update_of_ne hid] at hd'
        exact ⟨(update_of_ne hid ..).trans (h.drained id d hd').1, (h.drained id d hd').2⟩) hhand.buf
  exact hreg.goto_plain (p := .reading) (fun k hk => absurd hk (hnone k)) (fun k hk => by cases hk)
    fun _ => id

theorem push (h : Ordered J st) {g : Goroutine} {s : Send} {c : ℕ} (hpc : st.pc g = .push s c) :
    Ordered J (st.push g s c) := by
  have hs : (st.pc g).send? = some s := by rw [hpc]; rfl
  have ht : (st.pc g).Targets c := by rw [hpc]; rfl
  unfold Relay.push
  split
  · exact h.same (.of_eq rfl rfl rfl fun _ => rfl) rfl rfl rfl rfl h.drained h.buf
  split
  · rename_i hoffer
    have hroom := Chan.offer_eq_true_iff.mp hoffer
    have htags : (st.handAll c [s.item]).tags = st.tags ++ [s.tag] := by
      rw [handAll_tags, List.take_of_length_le
        (by unfold Chan.room; simp only [List.length_singleton]; omega)]
      rfl
    refine (h.handAll fun k₁ k₂ id hst => ?_).goto_plain (fun k hk => ?_) (fun k hk => ?_)
      s.next_targets
    · by_cases hk : s.tag.frame? = some k₂
      · exact .inl (h.target k₁ k₂ id hst g s c hs hk ht)
      · refine .inr (.of_none fun t htag hk' => hk ?_)
        obtain rfl := List.mem_singleton.mp htag
        exact hk'
    · -- the frame sent on is the one placed
      obtain ⟨s', hs', hc, rfl⟩ := Pc.relayed_eq_some hk
      rw [handAll_pc, hs] at hs'
      obtain rfl := Option.some.inj hs'
      refine .inr (.inl ⟨s.tag, ?_, ?_⟩)
      · rw [htags]; exact List.mem_append_right _ (List.mem_singleton.mpr rfl)
      · unfold Send.tag; rw [hc]; rfl
    · rw [Send.next_relayed] at hk; cases hk
  · have hsame : (Pc.refused s).relayed? = (st.pc g).relayed? := by rw [hpc]; rfl
    exact h.goto_plain (fun k hk => .inl (hsame.trans hk)) (fun k hk => hsame.symm.trans hk)
      fun _ => id

theorem insert (h : Ordered J st) {r : QueuedMessage} (hnone : st.clients r.recipient = none) :
    Ordered J { st with queuedMessages := st.queuedMessages ++ [r] } where
  conns := h.conns
  drained id d hd := by
    obtain ⟨hq, hb⟩ := h.drained id d hd
    refine ⟨hq, ?_⟩
    have hne : r.recipient ≠ id := by
      rintro rfl
      rw [hnone] at hd
      cases hd
    unfold backlog at hb ⊢
    rw [List.filter_append, hb, List.filter_cons_of_neg (by simpa using hne)]
    rfl
  buf := h.buf
  settled k c m hread := by
    refine (h.settled k c m hread).imp_right (Or.imp_right fun hk => ?_)
    unfold rowTags at hk ⊢
    rw [List.map_append]
    exact List.mem_append_left _ hk
  first := h.first
  target := h.target
  handed := h.handed
  rows k₁ k₂ id hs := by
    have hs' := hs
    obtain ⟨-, c₁, m₁, -, -, hread, -⟩ := hs'
    rcases h.rows k₁ k₂ id hs with hk | hl
    · exact .inl hk
    rcases h.settled k₁ c₁ m₁ hread with ⟨g, hg⟩ | hk | hk
    · exact absurd hg (h.first k₁ k₂ id hs g)
    · exact .inl hk
    · refine .inr ?_
      unfold Leads rowTags at hl ⊢
      rw [List.map_append]
      exact hl.append (.inl ⟨_, hk, rfl⟩)

theorem fallBack (h : Ordered J st) {g : Goroutine} {s : Send} {ok : Bool} {now : Int64}
    (hpc : st.pc g = .refused s) (hnone : st.clients s.message.recipient = none)
    (hok : s.caller = .readLoop → ok = true) : Ordered J (st.fallBack g s ok now) := by
  have hs : (st.pc g).send? = some s := by rw [hpc]; rfl
  have hnext : ∀ k, s.next.relayed? = some k → (st.pc g).relayed? = some k := fun k hk => by
    rw [Send.next_relayed] at hk; cases hk
  unfold Relay.fallBack
  split
  · rename_i hc
    rw [if_pos (hok hc)]
    refine (h.insert (r := s.row now) hnone).goto_plain (fun k hk => ?_) hnext s.next_targets
    obtain ⟨s', hs', -, rfl⟩ := Pc.relayed_eq_some hk
    obtain rfl := Option.some.inj (hs.symm.trans hs')
    refine .inr (.inr ?_)
    unfold rowTags
    rw [List.map_append]
    exact List.mem_append_right _ (List.mem_singleton.mpr rfl)
  · rename_i hc
    have hqueue : Ordered J (st.queueMessage s.tag s.message) :=
      h.same (.of_eq rfl rfl rfl fun _ => rfl) rfl rfl rfl rfl (fun id d hd => by
        have hne : id ≠ s.message.recipient := by
          rintro rfl
          exact absurd (hnone.symm.trans hd) (by simp)
        exact ⟨(update_of_ne hne ..).trans (h.drained id d hd).1, (h.drained id d hd).2⟩) h.buf
    refine hqueue.goto_plain (fun k hk => ?_) hnext s.next_targets
    obtain ⟨s', hs', hc', -⟩ := Pc.relayed_eq_some hk
    obtain rfl := Option.some.inj (hs.symm.trans hs')
    exact absurd hc' hc

theorem relayed_readFrame {c k : ℕ} {data : Bytes}
    (hk : ((st.readFrame J c data).pc (.serve c)).relayed? = some k) : k = st.frames.length := by
  unfold Relay.readFrame at hk
  rw [goto_pc, update_self] at hk
  split at hk
  · exact (Option.some.inj hk).symm
  · cases hk

/-- While a frame is read, no other connection sends on an earlier frame of its stream. -/
theorem not_relayed_readFrame (h : Ordered J st) (hp : Provenance J st) {c k₁ k₂ : ℕ}
    {data : Bytes} {id : String} {g : Goroutine}
    (halone : ∀ d < st.conns, d ≠ c → (st.client d).id = (st.client c).id →
      ∀ m ∈ J.unmarshal data, ¬ st.RelaysTo d m.recipient)
    (hs : Stream J (st.readFrame J c data) k₁ k₂ id) (hk₂ : ¬ k₂ < st.frames.length)
    (hne : g ≠ .serve c) : (st.pc g).relayed? ≠ some k₁ := by
  intro hg
  have hk₁ := hs.readFrame_first
  obtain ⟨-, c₁, m₁, c₂, m₂, h₁, h₂, hm₁, hm₂, hid⟩ := hs
  obtain ⟨-, rfl, hm⟩ := h₂.readFrame_new hk₂
  obtain ⟨s, hsend, hc, rfl⟩ := Pc.relayed_eq_some hg
  have h₁ := h₁.of_readFrame hk₁
  -- what the goroutine sends was read by its own connection
  have hmade := hp.made hsend
  unfold Made at hmade
  rw [hc] at hmade
  obtain ⟨d, rfl, hf, hmes⟩ := hmade
  obtain ⟨rfl, hmm⟩ := h₁.unique ⟨_, hf, hmes⟩
  exact halone c₁ (h.conn_lt h₁) (fun he => hne (he ▸ rfl)) hid m₂ hm
    ⟨s, hsend, hc, hmm ▸ hm₁.trans hm₂.symm⟩

theorem readFrame (h : Ordered J st) (hr : Registry st) (hp : Provenance J st) {c : ℕ}
    {data : Bytes} (hpc : st.pc (.serve c) = .reading)
    (halone : ∀ d < st.conns, d ≠ c → (st.client d).id = (st.client c).id →
      ∀ m ∈ J.unmarshal data, ¬ st.RelaysTo d m.recipient) :
    Ordered J (st.readFrame J c data) := by
  have hlt : c < st.conns := hr.lt_conns_of_ne (by rw [hpc]; exact Pc.noConfusion)
  have hframes : (st.readFrame J c data).frames = st.frames ++ [⟨c, data⟩] := rfl
  have hother : ∀ g, g ≠ .serve c → (st.readFrame J c data).pc g = st.pc g := fun g hg =>
    update_of_ne hg ..
  exact
    { conns := fun f hf => by
        rw [hframes] at hf
        rcases List.mem_append.mp hf with hf | hf
        · exact h.conns f hf
        · obtain rfl := List.mem_singleton.mp hf
          exact hlt
      drained := h.drained
      buf := h.buf
      settled := fun k d m hread => by
        by_cases hk : k < st.frames.length
        · refine (h.settled k d m (hread.of_readFrame hk)).imp_left fun ⟨g, hg⟩ => ⟨g, ?_⟩
          rw [hother g fun he => by rw [he, hpc] at hg; cases hg]
          exact hg
        · obtain ⟨rfl, -, hm⟩ := hread.readFrame_new hk
          refine .inl ⟨.serve c, ?_⟩
          unfold Relay.readFrame
          rw [goto_pc, update_self, hm]
          rfl
      first := fun k₁ k₂ id hs g hg => by
        have hne : g ≠ .serve c := fun he =>
          (relayed_readFrame (he ▸ hg) ▸ hs.readFrame_first).false
        rw [hother g hne] at hg
        by_cases hk₂ : k₂ < st.frames.length
        · exact h.first k₁ k₂ id (hs.of_readFrame hk₂) g hg
        · exact h.not_relayed_readFrame hp halone hs hk₂ hne hg
      target := fun k₁ k₂ id hs g s d hsend hk hd => by
        have hne : g ≠ .serve c := by
          rintro rfl
          unfold Relay.readFrame at hd
          rw [goto_pc, update_self] at hd
          split at hd <;> exact hd
        rw [hother g hne] at hsend hd
        exact h.target k₁ k₂ id (hs.of_readFrame ((hp.made hsend).copy.2.lt hk)) g s d hsend hk hd
      handed := fun k₁ k₂ id hs => by
        by_cases hk₂ : k₂ < st.frames.length
        · exact h.handed k₁ k₂ id (hs.of_readFrame hk₂)
        · refine .of_none fun t ht hk => hk₂ ?_
          obtain ⟨x, hx, rfl⟩ := List.mem_map.mp ht
          obtain ⟨-, m, -, hc, -⟩ := hp.handed x hx
          exact hc.lt hk
      rows := fun k₁ k₂ id hs => by
        by_cases hk₂ : k₂ < st.frames.length
        · exact h.rows k₁ k₂ id (hs.of_readFrame hk₂)
        · refine .inr (.of_none fun t ht hk => hk₂ ?_)
          obtain ⟨r, hr, rfl⟩ := List.mem_map.mp ht
          exact (hp.rows r hr).lt hk }

theorem processMessage (h : Ordered J st) (hp : Provenance J st) {g : Goroutine} {k : ℕ}
    {data : Bytes} {now : Int64} (hpc : st.pc g = .processing k data) :
    Ordered J (st.processMessage J g k data now) := by
  have hnone : ∀ k, (st.pc g).relayed? ≠ some k := fun k hk => by rw [hpc] at hk; cases hk
  have hreading : Ordered J (st.goto g .reading) :=
    h.goto_plain (fun k hk => absurd hk (hnone k)) (fun k hk => by cases hk) fun _ => id
  unfold Relay.processMessage
  cases J.unmarshal data with
  | none => exact hreading
  | some m =>
    simp only
    split
    · cases J.unmarshalPayment (m.stamped now).payload with
      | none => exact hreading
      | some payment =>
        have hpay : ∀ k, ((st.goto g .reading).pc (.pay st.payments.length)).relayed? ≠ some k := by
          intro k hk
          rw [goto_pc] at hk
          by_cases hg : Goroutine.pay st.payments.length = g
          · rw [hg, update_self] at hk; cases hk
          rw [update_of_ne hg] at hk
          obtain ⟨s, hs, hc, -⟩ := Pc.relayed_eq_some hk
          have hmade := hp.made hs
          unfold Made at hmade
          rw [hc] at hmade
          obtain ⟨c, hg', -⟩ := hmade
          cases hg'
        have hpaying := hreading.goto_plain (g := .pay st.payments.length)
          (p := .paying st.payments.length payment (m.stamped now).senderID)
          (fun k hk => absurd hk (hpay k)) (fun k hk => by cases hk) fun _ => id
        exact hpaying.same ⟨List.prefix_refl _, List.prefix_append _ _, Nat.le_refl _,
          fun _ _ => rfl⟩ rfl rfl rfl rfl hpaying.drained hpaying.buf
    · exact h.goto_plain (fun k hk => absurd hk (hnone k)) (fun k hk => by cases hk) fun _ => id

theorem unregister (h : Ordered J st) {c : ℕ} (hpc : st.pc (.serve c) = .leaving) :
    Ordered J (st.unregister c) := by
  have hnone : ∀ k, (st.pc (.serve c)).relayed? ≠ some k := fun k hk => by rw [hpc] at hk; cases hk
  unfold Relay.unregister
  simp only
  split
  · exact h.goto_plain (fun k hk => absurd hk (hnone k)) (fun k hk => by cases hk) fun _ => id
  · rename_i d hd
    split
    · exact h.same (.of_eq rfl rfl rfl fun _ => rfl) rfl rfl rfl rfl h.drained h.buf
    · have hretire : Ordered J { st with
          clients := update st.clients (st.client c).id none
          client := update st.client d
            { st.client d with online := false, send := (st.client d).send.close } } :=
        h.same (.of_eq rfl rfl rfl fun e => update_id (by rfl) e) rfl rfl rfl rfl
          (fun id e he => by
            have he' : update st.clients (st.client c).id none id = some e := he
            by_cases hid : id = (st.client c).id
            · subst hid; rw [update_self] at he'; cases he'
            · rw [update_of_ne hid] at he'; exact h.drained id e he')
          fun e x hx => h.buf e x (by
            by_cases hn : e = d
            · subst hn; simp only [update_self, Chan.close_buf] at hx; exact hx
            · simp only [update_of_ne hn] at hx; exact hx)
      exact hretire.goto_plain (fun k hk => absurd hk (hnone k)) (fun k hk => by cases hk) fun _ => id

theorem write (h : Ordered J st) (c : ℕ) (ok : Bool) : Ordered J (st.write c ok) := by
  unfold Relay.write
  split
  · split
    · rename_i x rest hrecv
      refine h.same (.of_eq rfl rfl rfl fun d => update_id (by split <;> rfl) d) rfl rfl rfl rfl
        h.drained fun d y hy => h.buf d y ?_
      by_cases hd : d = c
      · subst hd
        rw [(Chan.recv_eq_some hrecv).1]
        simp only [update_self] at hy
        split at hy <;> exact List.mem_cons_of_mem _ hy
      · simp only [update_of_ne hd] at hy
        exact hy
    · exact h
  · exact h

/-- **An orderly step keeps it.** -/
theorem step {a : Act} (h : Ordered J st) (hr : Registry st) (hp : Provenance J st)
    (hg : Orderly J st a) : Ordered J (st.step J a) := by
  have he := step_extends J st a
  have hop := step_op J st a
  generalize st.step J a = st' at hop he ⊢
  cases hop with
  | none => exact h
  | accounts => exact h.same he rfl rfl rfl rfl h.drained h.buf
  | @accept _ userID _ =>
    have hidle : st.pc (.serve st.conns) = .idle := hr.fresh _ (Nat.le_refl _)
    have hacc : Ordered J { st with
        client := update st.client st.conns { id := userID }, conns := st.conns + 1 } :=
      h.same ⟨he.frames, he.payments, he.conns, he.id⟩ rfl rfl rfl rfl h.drained fun d x hx => by
        by_cases hd : d = st.conns
        · subst hd; simp only [update_self] at hx; cases hx
        · simp only [update_of_ne hd] at hx; exact h.buf d x hx
    exact hacc.goto_plain (fun k hk => by rw [show _ = Pc.idle from hidle] at hk; cases hk)
      (fun k hk => by cases hk) fun _ => id
  | hangup hpc =>
    exact h.goto_plain (fun k hk => by rw [hpc] at hk; cases hk) (fun k hk => by cases hk)
      fun _ => id
  | readFrame hpc => exact h.readFrame hr hp hpc hg
  | drain hpc => exact h.drain hp hpc
  | delete hpc => exact h.delete hp hpc (hg.at hpc)
  | register hpc => exact h.register hp hpc (hg.at hpc)
  | @lookup g s _ _ hpc =>
    have hs : (st.pc g).send? = some s := by rw [hpc]; rfl
    have hsame : (Pc.check s (st.clients s.message.recipient)).relayed? = (st.pc g).relayed? := by
      rw [hpc]; rfl
    refine h.goto (fun k hk => .inl (hsame.trans hk)) (fun k hk => hsame.symm.trans hk)
      fun s' c hs' hc => .inr fun k₁ k₂ id hst hk => ?_
    obtain rfl := Option.some.inj hs'
    -- the client was found, so nothing waits in the backlog
    refine h.placed_of_drained hp hst ?_
    obtain ⟨-, -, -, c₂, m₂, -, hread, -, rfl, -⟩ := hst
    rw [← (hp.made hs).copy.2.recipient hk hread]
    exact (h.drained _ c hc).2
  | @check g s t _ _ hpc =>
    have hchecked : (st.checked s t).send? = some s ∧ ∀ c, (st.checked s t).Targets c → t = some c := by
      unfold checked
      cases t with
      | none => exact ⟨rfl, fun _ hc => hc.elim⟩
      | some d =>
        simp only
        split
        · exact ⟨rfl, fun c hc => congrArg some hc⟩
        · exact ⟨rfl, fun _ hc => hc.elim⟩
    have hsame : (st.checked s t).relayed? = (st.pc g).relayed? := by
      unfold Pc.relayed?
      rw [hchecked.1, hpc]
      rfl
    refine h.goto (fun k hk => .inl (hsame.trans hk)) (fun k hk => hsame.symm.trans hk)
      fun s' c hs' hc => .inl ?_
    rw [hpc]
    exact ⟨hchecked.1.symm.trans hs', hchecked.2 c hc⟩
  | push hpc => exact h.push hpc
  | fallBack hpc => exact h.fallBack hpc (hg.at hpc).1 (hg.at hpc).2
  | process hpc => exact h.processMessage hp hpc
  | pay hpc =>
    exact h.goto_plain (fun k hk => by rw [hpc] at hk; cases hk) (fun k hk => by cases hk)
      fun _ => id
  | unregister hpc => exact h.unregister hpc
  | write c ok => exact h.write c ok

end Ordered

/-- **Where every step is orderly, no frame is stranded or overtaken.** -/
theorem inOrder_of_orderly (J : Json) (acts : List Act)
    (h : Along (step J) (Orderly J) start acts) : InOrder J (run J acts) := by
  obtain ⟨hsound, hordered⟩ := h.invariant_with (Sound.step J)
    (fun _ _ hs hg hI => hI.step hs.registry hs.provenance hg) (start_sound J) (start_ordered J)
  exact hordered.inOrder hsound.provenance

end Relay

namespace Sample

open Relay

/-- Alice sends Bob, who is offline, two messages; then he connects. -/
def keptInOrder : List Act :=
  .accounts users :: connects "ta" 0 ++ [.read 0 (some (text (hello "alice" "1")))] ++ steps 0 8 ++
    [.read 0 (some (text (hello "alice" "2")))] ++ steps 0 8 ++ [.connect "tb"] ++ steps 1 3

theorem inOrder_of_orderly_keptInOrder :
    Along (step json) (Orderly json) start keptInOrder ∧
      (run json keptInOrder).tags = [.raw 0, .raw 1, .own 0, .own 1] ∧
      InOrder json (run json keptInOrder) :=
  ⟨by decide +kernel, by decide +kernel, inOrder_of_orderly json keptInOrder (by decide +kernel)⟩

/-- Bob connects while Alice's first message is handled: he looks for persisted
messages before the row is inserted and registers before the message is queued. -/
def connectsBetween : List Act :=
  .accounts users :: connects "ta" 0 ++ [.read 0 (some (text (hello "alice" "1")))] ++ steps 0 2 ++
    [.connect "tb"] ++ steps 1 1 ++ steps 0 4 ++ steps 1 1 ++ steps 0 1 ++
    [.read 0 (some (text (hello "alice" "2")))] ++ steps 0 7

/-- **A message stays behind in both backlogs, and the next one overtakes it.** -/
theorem stranded_and_overtaken :
    (run json connectsBetween).clients "bob" = some 1 ∧
      ((run json connectsBetween).queue "bob").map Queued.tag = [.own 0] ∧
      (run json connectsBetween).rowTags = [.raw 0] ∧
      (run json connectsBetween).tags = [.raw 1, .own 1] ∧
      ¬ InOrder json (run json connectsBetween) := by
  have htags : (run json connectsBetween).tags = [.raw 1, .own 1] := by decide +kernel
  refine ⟨by decide +kernel, by decide +kernel, by decide +kernel, htags, fun h => ?_⟩
  have hframes : (run json connectsBetween).frames =
      [⟨0, text (hello "alice" "1")⟩, ⟨0, text (hello "alice" "2")⟩] := by decide +kernel
  have hstream : Stream json (run json connectsBetween) 0 1 "bob" :=
    ⟨by decide, 0, hello "alice" "1", 0, hello "alice" "2",
      ⟨_, by rw [hframes]; rfl, by decide +kernel⟩, ⟨_, by rw [hframes]; rfl, by decide +kernel⟩,
      rfl, rfl, rfl⟩
  have horder := h.ordered 0 1 "bob" hstream
  unfold tags at htags
  obtain ⟨x, rest, hx, ht, -⟩ := List.map_eq_cons_iff.mp htags
  obtain ⟨y, hy, -⟩ := horder [] x rest hx (congrArg Tag.frame? ht)
  exact absurd hy List.not_mem_nil

end Sample

end SecureComm.Server
