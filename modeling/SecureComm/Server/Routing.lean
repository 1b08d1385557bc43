import SecureComm.Server.Provenance

/-!
# How often a frame is handed over

`processMessage` routes every frame once: its copy is placed on a channel or
queued, and what is queued is drained once. The read loop routes the same frame
before it. A run in which that comes to nothing hands no frame over twice, and
no payment frame at all.
-/

namespace SecureComm.Server

open Function Run

/-- The frame that a goroutine has read and `processMessage` has not yet routed. -/
def Pc.pending? : Pc → Option ℕ
  | .processing k _ => some k
  | p => p.send?.bind fun s => if s.caller = .processPayment then none else some s.number

theorem Pc.pending_of_send {p : Pc} {s : Send} {k : ℕ} (hs : p.send? = some s)
    (hk : p.pending? = some k) : s.caller ≠ .processPayment ∧ k = s.number := by
  have hbind : (some s).bind (fun s : Send => if s.caller = .processPayment then none else
      some s.number) = some k := by
    cases p
    case processing => cases hs
    all_goals exact hs ▸ hk
  rw [Option.bind_some] at hbind
  split at hbind
  · cases hbind
  · exact ⟨‹_›, (Option.some.inj hbind).symm⟩

theorem Send.next_pending {s : Send} {k : ℕ} (h : s.next.pending? = some k) :
    s.caller = .readLoop ∧ k = s.number := by
  unfold Send.next at h
  split at h
  · exact ⟨‹_›, (Option.some.inj h).symm⟩
  · cases h
  · cases h

variable {J : Json} {st st' : Relay}

namespace Relay

def tags (st : Relay) : List Tag := st.handed.map fun h => h.item.tag

def copies (st : Relay) (k : ℕ) : ℕ := st.tags.count (.raw k) + st.tags.count (.own k)

/-- No frame is handed over twice, and no payment frame is handed over or kept
for a client. -/
structure Routed (J : Json) (st : Relay) : Prop where
  once : ∀ k, st.copies k ≤ 1
  payment : ∀ k c m, Read J st k c m → m.IsPayment → st.copies k = 0 ∧
    (∀ r ∈ st.queuedMessages, r.frame ≠ k) ∧ ∀ id, ∀ e ∈ st.queue id, e.tag.frame? ≠ some k

/-- The read loop's own routing comes to nothing: its `hub.send` finds no room,
the row of a payment frame is not inserted, and a query for a backlog finds none. -/
def standsBackAt (st : Relay) (g : Goroutine) (ok : Bool) : Pc → Prop
  | .push s c => s.caller = .readLoop → (st.client c).send.room = 0
  | .refused s => s.caller = .readLoop → s.message.IsPayment → ok = false
  | .querying =>
    match g with
    | .serve c => ok = true → st.backlog (st.client c).id = []
    | .pay _ => True
  | _ => True

def StandsBack (st : Relay) : Act → Prop
  | .next g ok _ => st.standsBackAt g ok (st.pc g)
  | _ => True

theorem StandsBack.at {g : Goroutine} {p : Pc} {ok : Bool} {now : Int64}
    (h : st.StandsBack (.next g ok now)) (hpc : st.pc g = p) : st.standsBackAt g ok p := hpc ▸ h

instance (st : Relay) (g : Goroutine) (ok : Bool) : ∀ p, Decidable (st.standsBackAt g ok p)
  | .push s c => inferInstanceAs (Decidable (s.caller = .readLoop → (st.client c).send.room = 0))
  | .refused s =>
    inferInstanceAs (Decidable (s.caller = .readLoop → s.message.IsPayment → ok = false))
  | .querying =>
    match g with
    | .serve c => inferInstanceAs (Decidable (ok = true → st.backlog (st.client c).id = []))
    | .pay _ => .isTrue trivial
  | .idle | .deleting | .registering | .reading | .lookup _ | .check .. | .processing ..
  | .paying .. | .leaving | .finished => .isTrue trivial

instance (st : Relay) : ∀ a, Decidable (st.StandsBack a)
  | .next g ok _ => inferInstanceAs (Decidable (st.standsBackAt g ok (st.pc g)))
  | .accounts _ | .connect _ | .read .. | .write .. => .isTrue trivial

/-! ## The invariant -/

structure Routes (J : Json) (st : Relay) : Prop where
  raw : ∀ k, Tag.raw k ∉ st.tags
  once : ∀ k id, st.tags.count (.own k) + ((st.queue id).map Queued.tag).count (.own k) ≤ 1
  pending : ∀ g k, (st.pc g).pending? = some k →
    .own k ∉ st.tags ∧ ∀ id, .own k ∉ (st.queue id).map Queued.tag
  rows : ∀ r ∈ st.queuedMessages, ∀ c m, Read J st r.frame c m → ¬ m.IsPayment

theorem start_routes (J : Json) : Routes J start where
  raw _ h := by cases h
  once _ _ := Nat.zero_le _
  pending _ _ h := by cases h
  rows _ h := by cases h

theorem Provenance.reader (h : Provenance J st) {g : Goroutine} {k : ℕ}
    (hk : (st.pc g).pending? = some k) :
    ∃ c data, g = .serve c ∧ st.frames[k]? = some ⟨c, data⟩ := by
  have hsend : ∀ s, (st.pc g).send? = some s → s.caller ≠ .processPayment → k = s.number →
      ∃ c data, g = .serve c ∧ st.frames[k]? = some ⟨c, data⟩ := by
    rintro s hs hc rfl
    have hmade := h.made hs
    unfold Made at hmade
    split at hmade
    · obtain ⟨c, hg, hf, -⟩ := hmade; exact ⟨c, _, hg, hf⟩
    · obtain ⟨c, m, now, hg, ⟨data, hf, -⟩, -⟩ := hmade; exact ⟨c, data, hg, hf⟩
    · exact absurd ‹_› hc
  have hj := h.pcs g
  match hpc : st.pc g with
  | .processing k' data =>
    rw [hpc] at hk hj
    obtain rfl := Option.some.inj hk
    obtain ⟨c, hg, hf⟩ := hj
    exact ⟨c, data, hg, hf⟩
  | .lookup s | .check s _ | .push s _ | .refused s =>
    rw [hpc] at hk hsend
    obtain ⟨hc, hk⟩ := Pc.pending_of_send rfl hk
    exact hsend s rfl hc hk
  | .idle | .querying | .deleting | .registering | .reading | .paying .. | .leaving | .finished =>
    rw [hpc] at hk
    cases hk

theorem Provenance.reader_unique (h : Provenance J st) {g g' : Goroutine} {k : ℕ}
    (hk : (st.pc g).pending? = some k) (hk' : (st.pc g').pending? = some k) : g = g' := by
  obtain ⟨c, data, rfl, hf⟩ := h.reader hk
  obtain ⟨c', data', rfl, hf'⟩ := h.reader hk'
  obtain ⟨rfl, -⟩ := Frame.mk.inj (Option.some.inj (hf.symm.trans hf'))
  rfl

theorem Copy.lt {k : ℕ} {t : Tag} {m : Message} (h : Copy J st t m) (ht : t.frame? = some k) :
    k < st.frames.length := by
  obtain ⟨c, m', ⟨data, hf, -⟩, -⟩ := h.sender ht
  exact (List.getElem?_eq_some_iff.mp hf).1

theorem Provenance.tag_lt (h : Provenance J st) {k : ℕ} (hk : Tag.own k ∈ st.tags) :
    k < st.frames.length := by
  obtain ⟨x, hx, ht⟩ := List.mem_map.mp hk
  obtain ⟨-, m, -, hc, -⟩ := h.handed x hx
  exact hc.lt (by rw [ht]; rfl)

theorem Provenance.queue_lt (h : Provenance J st) {k : ℕ} {id : String}
    (hk : Tag.own k ∈ (st.queue id).map Queued.tag) : k < st.frames.length := by
  obtain ⟨e, he, ht⟩ := List.mem_map.mp hk
  exact (h.queue id e he).2.2.lt (by rw [ht]; rfl)

theorem Provenance.queue_unique (h : Provenance J st) {k : ℕ} {id id' : String}
    (hk : Tag.own k ∈ (st.queue id).map Queued.tag)
    (hk' : Tag.own k ∈ (st.queue id').map Queued.tag) : id = id' := by
  obtain ⟨e, he, ht⟩ := List.mem_map.mp hk
  obtain ⟨e', he', ht'⟩ := List.mem_map.mp hk'
  obtain ⟨rfl, -, hc⟩ := h.queue id e he
  obtain ⟨rfl, -, hc'⟩ := h.queue id' e' he'
  rw [ht] at hc
  rw [ht'] at hc'
  obtain ⟨c, m, now, hr, -, hm⟩ := hc
  obtain ⟨c', m', now', hr', -, hm'⟩ := hc'
  obtain ⟨-, rfl⟩ := hr.unique hr'
  rw [hm, hm']; rfl

theorem handAll_tags (c : ℕ) (items : List Item) : (st.handAll c items).tags =
    st.tags ++ (items.take (st.client c).send.room).map Item.tag := by
  unfold handAll tags
  rw [List.map_append, List.map_map]
  rfl

/-! ## Steps -/

theorem pending_goto {g : Goroutine} {p : Pc} {g' : Goroutine} {k : ℕ}
    (h : ((st.goto g p).pc g').pending? = some k) :
    (g' ≠ g ∧ (st.pc g').pending? = some k) ∨ (g' = g ∧ p.pending? = some k) := by
  rw [goto_pc] at h
  by_cases hg : g' = g
  · subst hg; rw [update_self] at h; exact .inr ⟨rfl, h⟩
  · rw [update_of_ne hg] at h; exact .inl ⟨hg, h⟩

namespace Routes

theorem same (h : Routes J st) (hp : Provenance J st) (he : Extends st st')
    (htags : st'.tags = st.tags) (hqueue : st'.queue = st.queue)
    (hpend : ∀ g k, (st'.pc g).pending? = some k →
      (∃ g', (st.pc g').pending? = some k) ∨ st.frames.length ≤ k)
    (hrows : ∀ r ∈ st'.queuedMessages, r ∈ st.queuedMessages ∨
      ∃ c m, Read J st r.frame c m ∧ ¬ m.IsPayment) : Routes J st' where
  raw k := htags ▸ h.raw k
  once k id := by rw [htags, hqueue]; exact h.once k id
  pending g k hk := by
    rw [htags, hqueue]
    rcases hpend g k hk with ⟨g', hk'⟩ | hlt
    · exact h.pending g' k hk'
    · exact ⟨fun hm => Nat.not_lt.mpr hlt (hp.tag_lt hm),
        fun id hm => Nat.not_lt.mpr hlt (hp.queue_lt hm)⟩
  rows r hr c m hread := by
    rcases hrows r hr with hr | ⟨c', m', hread', hm'⟩
    · obtain ⟨c', m', now, hread', -⟩ := hp.rows r hr
      obtain ⟨rfl, rfl⟩ := hread.unique (hread'.mono he)
      exact h.rows r hr _ _ hread'
    · obtain ⟨rfl, rfl⟩ := hread.unique (hread'.mono he)
      exact hm'

theorem goto (h : Routes J st) (hp : Provenance J st) {g : Goroutine} {p : Pc}
    (hpend : ∀ k, p.pending? = some k → (st.pc g).pending? = some k) : Routes J (st.goto g p) :=
  h.same hp (.of_eq rfl rfl rfl fun _ => rfl) rfl rfl
    (fun g' k hk => .inl ((pending_goto hk).elim (fun hg => ⟨g', hg.2⟩) fun hg => ⟨g, hpend k hg.2⟩))
    fun _ => .inl

theorem own_pending {g : Goroutine} {s : Send} {k : ℕ} (hs : (st.pc g).send? = some s)
    (ht : s.tag = .own k) : (st.pc g).pending? = some k := by
  have hk : s.caller = .processMessage ∧ s.number = k := by
    unfold Send.tag at ht
    split at ht
    · cases ht
    · exact ⟨‹_›, Tag.own.inj ht⟩
    · cases ht
  match hpc : st.pc g with
  | .lookup s' | .check s' _ | .push s' _ | .refused s' =>
    rw [hpc] at hs
    obtain rfl := Option.some.inj hs
    simp [Pc.pending?, Pc.send?, hk.1, hk.2]
  | .idle | .querying | .deleting | .registering | .reading | .processing .. | .paying ..
  | .leaving | .finished => rw [hpc] at hs; cases hs

theorem tag_ne_raw {s : Send} (hc : s.caller ≠ .readLoop) (k : ℕ) : s.tag ≠ .raw k := fun hk => by
  unfold Send.tag at hk
  split at hk
  · exact hc ‹_›
  · cases hk
  · cases hk

theorem queueMessage_tags (st : Relay) (tag : Tag) (msg : Message) (id : String) :
    ((st.queueMessage tag msg).queue id).map Queued.tag =
      (st.queue id).map Queued.tag ++ if id = msg.recipient then [tag] else [] := by
  rw [queueMessage_queue, List.map_append]
  split <;> rfl

theorem count_own (t : Tag) (k : ℕ) : [t].count (.own k) = if t = .own k then 1 else 0 := by
  simp [List.count_cons]

theorem count_before (h : Routes J st) {g : Goroutine} {s : Send} {k : ℕ}
    (hs : (st.pc g).send? = some s) (ht : s.tag = .own k) :
    st.tags.count (.own k) = 0 ∧ ∀ id, ((st.queue id).map Queued.tag).count (.own k) = 0 := by
  obtain ⟨htags, hqueue⟩ := h.pending g k (own_pending hs ht)
  exact ⟨List.count_eq_zero.mpr htags, fun id => List.count_eq_zero.mpr (hqueue id)⟩

section Place

variable {g : Goroutine} {s : Send} (hs : (st.pc g).send? = some s)
  (hput : (st'.tags = st.tags ++ [s.tag] ∧ st'.queue = st.queue) ∨
    (st'.tags = st.tags ∧ st'.queue = (st.queueMessage s.tag s.message).queue))
include hs hput

theorem once_place (h : Routes J st) (k : ℕ) (id : String) :
    st'.tags.count (.own k) + ((st'.queue id).map Queued.tag).count (.own k) ≤ 1 := by
  have hold := h.once k id
  rcases hput with ⟨ht, hq⟩ | ⟨ht, hq⟩
  · rw [ht, hq, List.count_append, count_own]
    split
    · obtain ⟨h1, h2⟩ := h.count_before hs ‹_›
      rw [h1, h2]
    · omega
  · rw [ht, hq, queueMessage_tags, List.count_append]
    split
    · rw [count_own]
      split
      · obtain ⟨h1, h2⟩ := h.count_before hs ‹_›
        rw [h1, h2]
      · omega
    · rw [List.count_nil]
      omega

theorem pending_place (h : Routes J st) (hp : Provenance J st) {g' : Goroutine} {k : ℕ}
    (hg : g' ≠ g) (hk : (st.pc g').pending? = some k) :
    .own k ∉ st'.tags ∧ ∀ id, .own k ∉ (st'.queue id).map Queued.tag := by
  obtain ⟨h1, h2⟩ := h.pending g' k hk
  have hne : Tag.own k ≠ s.tag := fun ht =>
    hg (hp.reader_unique hk (own_pending hs ht.symm))
  rcases hput with ⟨ht, hq⟩ | ⟨ht, hq⟩
  · rw [ht, hq]
    refine ⟨fun hm => ?_, h2⟩
    rcases List.mem_append.mp hm with hm | hm
    · exact h1 hm
    · exact hne (List.mem_singleton.mp hm)
  · rw [ht, hq]
    refine ⟨h1, fun id hm => ?_⟩
    rw [queueMessage_tags] at hm
    rcases List.mem_append.mp hm with hm | hm
    · exact h2 id hm
    · split at hm
      · exact hne (List.mem_singleton.mp hm)
      · exact absurd hm List.not_mem_nil

end Place

/-- **A message of the relay's own is placed on a channel or queued**: it was
neither before, and now is once. -/
theorem place (h : Routes J st) (hp : Provenance J st) {g : Goroutine} {s : Send}
    (hs : (st.pc g).send? = some s) (hc : s.caller ≠ .readLoop)
    (hrows : st'.queuedMessages = st.queuedMessages) (hframes : st'.frames = st.frames)
    (hpc : ∀ g' k, (st'.pc g').pending? = some k → g' ≠ g ∧ (st.pc g').pending? = some k)
    (hput : (st'.tags = st.tags ++ [s.tag] ∧ st'.queue = st.queue) ∨
      (st'.tags = st.tags ∧ st'.queue = (st.queueMessage s.tag s.message).queue)) :
    Routes J st' where
  raw k hk := by
    rcases hput with ⟨ht, -⟩ | ⟨ht, -⟩
    · rw [ht] at hk
      rcases List.mem_append.mp hk with hk | hk
      · exact h.raw k hk
      · exact tag_ne_raw hc k (List.mem_singleton.mp hk).symm
    · rw [ht] at hk
      exact h.raw k hk
  once := once_place hs hput h
  pending g' k hk := by
    obtain ⟨hg, hk⟩ := hpc g' k hk
    exact pending_place hs hput h hp hg hk
  rows r hr c m hread := by
    unfold Read at hread
    rw [hframes] at hread
    exact h.rows r (hrows ▸ hr) c m hread

/-- Registering places as much of the queue on the channel as fits. -/
theorem register_tags (st : Relay) (c : ℕ) : ∃ n, (st.register J c).tags =
    st.tags ++ (((st.queue (st.client c).id).map Queued.tag).take n) := by
  have h := @handAll_tags { st with
    client := update st.client c { st.client c with online := true, writing := true } } c
    ((st.queue (st.client c).id).map (Queued.item J))
  rw [← List.map_take, List.map_map] at h
  exact ⟨_, h.trans (congrArg _ List.map_take)⟩

theorem register (h : Routes J st) (hp : Provenance J st) (c : ℕ) :
    Routes J (st.register J c) := by
  obtain ⟨n, htags⟩ := register_tags (J := J) st c
  have hqueue : (st.register J c).queue = update st.queue (st.client c).id [] := rfl
  have hpend : ∀ g k, ((st.register J c).pc g).pending? = some k → (st.pc g).pending? = some k :=
    fun g k hk => by
      rcases pending_goto hk with ⟨-, hk⟩ | ⟨-, hk⟩
      · exact hk
      · cases hk
  refine ⟨fun k hk => ?_, fun k id => ?_, fun g k hk => ?_, fun r hr c' m hread => ?_⟩
  · rw [htags] at hk
    rcases List.mem_append.mp hk with hk | hk
    · exact h.raw k hk
    · obtain ⟨e, he, ht⟩ := List.mem_map.mp (List.mem_of_mem_take hk)
      exact (hp.queue _ e he).2.1 k ht
  · have hold := h.once k (st.client c).id
    have hcount := (List.take_sublist n ((st.queue (st.client c).id).map Queued.tag)).count_le (.own k)
    rw [htags, hqueue, List.count_append]
    by_cases hid : id = (st.client c).id
    · subst hid
      rw [update_self, List.map_nil, List.count_nil]
      omega
    · rw [update_of_ne hid]
      -- the message is in one queue at most
      by_cases hin : Tag.own k ∈ (st.queue (st.client c).id).map Queued.tag
      · have hnot : Tag.own k ∉ (st.queue id).map Queued.tag := fun hin' =>
          hid (hp.queue_unique hin' hin)
        rw [List.count_eq_zero.mpr hnot]
        omega
      · rw [List.count_eq_zero.mpr hin] at hcount
        have := h.once k id
        omega
  · obtain ⟨h1, h2⟩ := h.pending g k (hpend g k hk)
    rw [htags, hqueue]
    refine ⟨fun hm => ?_, fun id hm => ?_⟩
    · rcases List.mem_append.mp hm with hm | hm
      · exact h1 hm
      · exact h2 _ (List.mem_of_mem_take hm)
    · by_cases hid : id = (st.client c).id
      · subst hid; rw [update_self] at hm; cases hm
      · rw [update_of_ne hid] at hm; exact h2 id hm
  · exact h.rows r hr c' m hread

theorem push (h : Routes J st) (hp : Provenance J st) {g : Goroutine} {s : Send} {c : ℕ}
    (hpc : st.pc g = .push s c) (hroom : s.caller = .readLoop → (st.client c).send.room = 0) :
    Routes J (st.push g s c) := by
  have hs : (st.pc g).send? = some s := by rw [hpc]; rfl
  have hpend : ∀ k, (Pc.refused s).pending? = some k → (st.pc g).pending? = some k := fun k hk => by
    rw [hpc]; exact hk
  unfold Relay.push
  split
  · exact h.same hp (.of_eq rfl rfl rfl fun _ => rfl) rfl rfl (fun g k hk => .inl ⟨g, hk⟩)
      fun _ => .inl
  split
  · rename_i hoffer
    have hlt := Chan.offer_eq_true_iff.mp hoffer
    have hc : s.caller ≠ .readLoop := fun hc => by
      have := hroom hc; unfold Chan.room at this; omega
    refine h.place hp hs hc rfl rfl (fun g' k hk => ?_) (.inl ⟨?_, rfl⟩)
    · rcases pending_goto hk with hk | ⟨-, hk⟩
      · exact hk
      · exact absurd (Send.next_pending hk).1 hc
    · refine (handAll_tags c _).trans ?_
      rw [List.take_of_length_le (by unfold Chan.room; simp only [List.length_singleton]; omega)]
      rfl
  · exact h.goto hp hpend

theorem fallBack (h : Routes J st) (hp : Provenance J st) {g : Goroutine} {s : Send} {ok : Bool}
    {now : Int64} (hpc : st.pc g = .refused s)
    (hpay : s.caller = .readLoop → s.message.IsPayment → ok = false) :
    Routes J (st.fallBack g s ok now) := by
  have hs : (st.pc g).send? = some s := by rw [hpc]; rfl
  have hnext : ∀ k, s.next.pending? = some k → (st.pc g).pending? = some k := fun k hk => by
    obtain ⟨hc, rfl⟩ := Send.next_pending hk
    rw [hpc]
    simp [Pc.pending?, Pc.send?, hc]
  unfold Relay.fallBack
  split
  · rename_i hc
    split
    · rename_i hok
      have hnot : ¬ s.message.IsPayment := fun hm => by
        rw [hpay hc hm] at hok; exact absurd hok Bool.false_ne_true
      refine h.same hp (.of_eq rfl rfl rfl fun _ => rfl) rfl rfl (fun g' k hk => .inl ?_)
        fun r hr => ?_
      · rcases pending_goto hk with ⟨-, hk⟩ | ⟨-, hk⟩
        · exact ⟨g', hk⟩
        · exact ⟨g, hnext k hk⟩
      · rcases List.mem_append.mp hr with hr | hr
        · exact .inl hr
        · obtain rfl := List.mem_singleton.mp hr
          have hmade := hp.made hs
          unfold Made at hmade
          rw [hc] at hmade
          obtain ⟨c, -, hf, hm⟩ := hmade
          exact .inr ⟨c, s.message, ⟨_, hf, hm⟩, hnot⟩
    · exact h.goto hp hnext
  · rename_i hc
    refine h.place hp hs hc rfl rfl (fun g' k hk => ?_) (.inr ⟨rfl, rfl⟩)
    rcases pending_goto hk with hk | ⟨-, hk⟩
    · exact hk
    · exact absurd (Send.next_pending hk).1 hc

theorem drain (h : Routes J st) (hp : Provenance J st) {c : ℕ} {ok : Bool}
    (hnone : ok = true → st.backlog (st.client c).id = []) :
    Routes J (st.drain J c ok) := by
  unfold Relay.drain
  split
  · rename_i hok
    rw [hnone hok]
    refine h.same hp (.of_eq rfl rfl rfl fun _ => handAll_id) ?_ rfl (fun g k hk => ?_)
      fun _ => .inl
    · refine (handAll_tags c _).trans ?_
      rw [List.map_nil, List.take_nil, List.map_nil, List.append_nil]
    · rcases pending_goto hk with ⟨-, hk⟩ | ⟨-, hk⟩
      · exact .inl ⟨g, hk⟩
      · cases hk
  · exact h.goto hp fun k hk => by cases hk

theorem processMessage (h : Routes J st) (hp : Provenance J st) {g : Goroutine} {k : ℕ}
    {data : Bytes} {now : Int64} (hpc : st.pc g = .processing k data) :
    Routes J (st.processMessage J g k data now) := by
  have hreading : Routes J (st.goto g .reading) := h.goto hp fun _ hk => by cases hk
  unfold Relay.processMessage
  cases hm : J.unmarshal data with
  | none => exact hreading
  | some m =>
    simp only
    split
    · cases J.unmarshalPayment (m.stamped now).payload with
      | none => exact hreading
      | some payment =>
        refine h.same hp ⟨List.prefix_refl _, List.prefix_append _ _, Nat.le_refl _,
          fun _ _ => rfl⟩ rfl rfl (fun g' k' hk => .inl ?_) fun _ => .inl
        rcases @pending_goto (st.goto g .reading) _ _ _ _ hk with ⟨-, hk⟩ | ⟨-, hk⟩
        · rcases pending_goto hk with ⟨-, hk⟩ | ⟨-, hk⟩
          · exact ⟨g', hk⟩
          · cases hk
        · cases hk
    · exact h.goto hp fun k' hk => by rw [hpc]; exact hk

/-- **A step in which the read loop stands back keeps it.** -/
theorem step {a : Act} (h : Routes J st) (hp : Provenance J st) (hg : st.StandsBack a) :
    Routes J (st.step J a) := by
  have he := step_extends J st a
  have hop := step_op J st a
  generalize st.step J a = st' at hop he ⊢
  cases hop with
  | none => exact h
  | accounts => exact h.same hp he rfl rfl (fun g k hk => .inl ⟨g, hk⟩) fun _ => .inl
  | accept =>
    refine h.same hp he rfl rfl (fun g k hk => .inl ?_) fun _ => .inl
    rcases pending_goto (p := .querying) hk with ⟨-, hk⟩ | ⟨-, hk⟩
    · exact ⟨g, hk⟩
    · cases hk
  | hangup => exact h.goto hp fun _ hk => by cases hk
  | @readFrame c data =>
    refine h.same hp he rfl rfl (fun g k hk => ?_) fun _ => .inl
    rcases pending_goto hk with ⟨-, hk⟩ | ⟨-, hk⟩
    · exact .inl ⟨g, hk⟩
    · split at hk <;> exact .inr (Option.some.inj hk).le
  | drain hpc =>
    exact h.drain hp fun hok => hg.at hpc hok
  | delete =>
    unfold Relay.delete
    split
    · refine h.same hp (.of_eq rfl rfl rfl fun _ => rfl) rfl rfl (fun g k hk => ?_) fun r hr => ?_
      · rcases pending_goto hk with ⟨-, hk⟩ | ⟨-, hk⟩
        · exact .inl ⟨g, hk⟩
        · cases hk
      · exact .inl (List.mem_filter.mp hr).1
    · exact h.goto hp fun _ hk => by cases hk
  | register => exact h.register hp _
  | lookup hpc => exact h.goto hp fun k hk => by rw [hpc]; exact hk
  | @check g s t _ _ hpc =>
    refine h.goto hp fun k hk => ?_
    rw [hpc]
    unfold checked at hk
    split at hk
    · split at hk <;> exact hk
    · exact hk
  | push hpc =>
    exact h.push hp hpc (hg.at hpc)
  | fallBack hpc =>
    exact h.fallBack hp hpc (hg.at hpc)
  | process hpc => exact h.processMessage hp hpc
  | pay => exact h.goto hp fun _ hk => by cases hk
  | unregister =>
    unfold Relay.unregister
    simp only
    split
    · exact h.goto hp fun _ hk => by cases hk
    · split
      · exact h.same hp (.of_eq rfl rfl rfl fun _ => rfl) rfl rfl (fun g k hk => .inl ⟨g, hk⟩)
          fun _ => .inl
      · refine h.same hp (.of_eq rfl rfl rfl fun d => update_id (by rfl) d) rfl rfl
          (fun g k hk => ?_) fun _ => .inl
        rcases pending_goto hk with ⟨-, hk⟩ | ⟨-, hk⟩
        · exact .inl ⟨g, hk⟩
        · cases hk
  | write =>
    unfold Relay.write
    split
    · split
      · exact h.same hp (.of_eq rfl rfl rfl fun d => update_id (by split <;> rfl) d) rfl rfl
          (fun g k hk => .inl ⟨g, hk⟩) fun _ => .inl
      · exact h
    · exact h

end Routes

theorem Routes.routed (h : Routes J st) (hp : Provenance J st) : Routed J st := by
  have hown : ∀ k c m, Read J st k c m → m.IsPayment → ∀ m', ¬ Copy J st (.own k) m' := by
    rintro k c m hread hm m' ⟨c', m0, now, hread', hm', -⟩
    obtain ⟨-, rfl⟩ := hread.unique hread'
    exact hm' hm
  refine ⟨fun k => ?_, fun k c m hread hm => ⟨?_, ?_, ?_⟩⟩
  · have := h.once k ""
    unfold copies
    rw [List.count_eq_zero.mpr (h.raw k)]
    omega
  · unfold copies
    rw [List.count_eq_zero.mpr (h.raw k), Nat.zero_add, List.count_eq_zero]
    intro hk
    obtain ⟨x, hx, ht⟩ := List.mem_map.mp hk
    obtain ⟨-, m', -, hc, -⟩ := hp.handed x hx
    exact hown k c m hread hm m' (ht ▸ hc)
  · rintro r hr rfl
    exact h.rows r hr c m hread hm
  · intro id e he hk
    obtain ⟨-, hnraw, hc⟩ := hp.queue id e he
    match ht : e.tag with
    | .raw k' => exact hnraw k' ht
    | .own k' =>
      rw [ht] at hk hc
      obtain rfl := Option.some.inj hk
      exact hown k' c m hread hm _ hc
    | .ack j => rw [ht] at hk; cases hk

/-- **Where the read loop stands back, every frame is handed over at most once**
and payment frames are neither handed over nor kept. -/
theorem routed_of_standsBack (J : Json) (acts : List Act)
    (h : Along (step J) StandsBack start acts) : Routed J (run J acts) := by
  obtain ⟨hsound, hroutes⟩ := h.invariant_with (Sound.step J)
    (fun _ _ hs hg hI => hI.step hs.provenance hg) (start_sound J) (start_routes J)
  exact hroutes.routed hsound.provenance

end Relay

namespace Sample

open Relay

/-- Alice sends Bob, who is offline, a message; it is queued and persisted. Bob
connects, and the query for his persisted messages fails. -/
def queuedOnce : List Act :=
  .accounts users :: connects "ta" 0 ++ [.read 0 (some (text (hello "alice" "1")))] ++ steps 0 8 ++
    [.connect "tb", .next (.serve 1) false 0] ++ steps 1 1

theorem routed_of_standsBack_queuedOnce :
    Along (step json) StandsBack start queuedOnce ∧ (run json queuedOnce).copies 0 = 1 ∧
      Routed json (run json queuedOnce) :=
  ⟨by decide +kernel, by decide +kernel, routed_of_standsBack json queuedOnce (by decide +kernel)⟩

/-- Bob is online, and Alice sends him a message. -/
def sentOnline : List Act :=
  .accounts users :: connects "tb" 0 ++ connects "ta" 1 ++
    [.read 1 (some (text (hello "alice" "1")))] ++ steps 1 7

/-- **A frame for a connected user is handed over twice.** -/
theorem sent_twice : ¬ Routed json (run json sentOnline) := by
  intro h
  have hcopies : (run json sentOnline).copies 0 = 2 := by decide +kernel
  have := h.once 0
  omega

end Sample

end SecureComm.Server
