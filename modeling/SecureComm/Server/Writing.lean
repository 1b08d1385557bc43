import SecureComm.Server.Placement

/-!
# What is written to a connection

The writer of a connection takes what was put on its channel, in order, and
writes it, until a write fails; so what was written is a first part of what was
put there, and all that is missing is the value whose write failed and what is
still in the channel.
-/

namespace SecureComm.Server

open Function Run

namespace Relay

variable {J : Json} {st st' : Relay}

def onChannel (st : Relay) (c : ℕ) : List Item :=
  (st.handed.filter fun h => h.conn = c).map Handing.item

/-- What was put on a channel was written, or its write failed, or it is still there. -/
structure Pumped (st : Relay) (c : ℕ) : Prop where
  channel : ∃ failed, st.onChannel c = (st.client c).written ++ failed ++ (st.client c).send.buf ∧
    failed.length ≤ 1 ∧ (failed ≠ [] → (st.client c).writing = false ∧ c ∈ st.registrations)
  new : c ∉ st.registrations → (st.client c).writing = false ∧ (st.client c).written = []

theorem start_pumped (c : ℕ) : Pumped start c where
  channel := ⟨[], rfl, Nat.zero_le _, fun h => absurd rfl h⟩
  new _ := ⟨rfl, rfl⟩

theorem onChannel_handAll (st : Relay) (c : ℕ) (items : List Item) (d : ℕ) :
    (st.handAll c items).onChannel d =
      st.onChannel d ++ if d = c then items.take (st.client c).send.room else [] := by
  unfold handAll onChannel
  rw [List.filter_append, List.map_append]
  congr 1
  by_cases hd : d = c
  · subst hd
    rw [if_pos rfl, List.filter_eq_self.mpr fun h hh => ?_, List.map_map]
    · exact List.map_id _
    · obtain ⟨x, -, rfl⟩ := List.mem_map.mp hh
      exact decide_eq_true rfl
  · rw [if_neg hd, List.filter_eq_nil_iff.mpr fun h hh => ?_, List.map_nil]
    obtain ⟨x, -, rfl⟩ := List.mem_map.mp hh
    simpa using fun h : c = d => hd h.symm

namespace Pumped

variable {c : ℕ}

theorem congr (h : Pumped st c) (hhanded : st'.handed = st.handed)
    (hregs : st'.registrations = st.registrations)
    (hclient : (st'.client c).written = (st.client c).written ∧
      (st'.client c).writing = (st.client c).writing ∧
      (st'.client c).send.buf = (st.client c).send.buf) : Pumped st' c := by
  obtain ⟨hwritten, hwriting, hbuf⟩ := hclient
  exact
    { channel := by
        rw [onChannel, hhanded, hregs, hwritten, hwriting, hbuf]
        exact h.channel
      new := by
        rw [hregs, hwritten, hwriting]
        exact h.new }

theorem handAll (h : Pumped st c) (d : ℕ) (items : List Item) : Pumped (st.handAll d items) c where
  channel := by
    obtain ⟨failed, hc, hlen, hfailed⟩ := h.channel
    refine ⟨failed, ?_, hlen, fun hne => ?_⟩
    · rw [onChannel_handAll, handAll_written, hc]
      by_cases hd : c = d
      · subst hd
        rw [if_pos rfl, handAll_client_self, Chan.offerAll_buf, List.append_assoc]
      · rw [if_neg hd, handAll_client_ne hd, List.append_nil]
    · rw [handAll_writing]
      exact hfailed hne
  new hc := by
    rw [handAll_writing, handAll_written]
    exact h.new hc

theorem goto (h : Pumped st c) (g : Goroutine) (p : Pc) : Pumped (st.goto g p) c :=
  h.congr rfl rfl ⟨rfl, rfl, rfl⟩

theorem accept (h : Pumped st c) (hs : Sound J st) (userID : String) :
    Pumped (st.accept userID) c := by
  by_cases hc : c = st.conns
  · subst hc
    have hnone : st.onChannel st.conns = [] := by
      unfold onChannel
      rw [List.filter_eq_nil_iff.mpr fun x hx => ?_, List.map_nil]
      have hlt := (hs.provenance.handed x hx).1
      simpa using hlt.ne
    have hclient : (st.accept userID).client st.conns = { id := userID } := update_self ..
    refine ⟨⟨[], ?_, Nat.zero_le _, fun hne => absurd rfl hne⟩, fun _ => ?_⟩
    · rw [hclient]
      exact hnone
    · rw [hclient]
      exact ⟨rfl, rfl⟩
  · have hclient : (st.accept userID).client c = st.client c := update_of_ne hc ..
    exact h.congr rfl rfl (by rw [hclient]; exact ⟨rfl, rfl, rfl⟩)

theorem register (h : Pumped st c) (hr : Registry st) {d : ℕ}
    (hpc : st.pc (.serve d) = .registering) : Pumped (st.register J d) c := by
  have hnew : d ∉ st.registrations := fun hd => by
    have hs := hr.registered d hd
    unfold Started at hs
    rw [hpc] at hs
    exact hs
  have hon : Pumped { st with
      client := update st.client d { st.client d with online := true, writing := true }
      registrations := st.registrations ++ [d] } c := by
    by_cases hc : c = d
    · subst hc
      obtain ⟨failed, hch, -, hfailed⟩ := h.channel
      obtain rfl : failed = [] := by
        by_contra hne
        exact hnew (hfailed hne).2
      refine ⟨⟨[], ?_, Nat.zero_le _, fun hne => absurd rfl hne⟩, fun hn => ?_⟩
      · simp only [update_self]
        exact hch
      · exact absurd (List.mem_append_right _ (List.mem_singleton.mpr rfl)) hn
    · obtain ⟨failed, hch, hlen, hfailed⟩ := h.channel
      refine ⟨⟨failed, ?_, hlen, fun hne => ?_⟩, fun hn => ?_⟩
      · simp only [update_of_ne hc]
        exact hch
      · simp only [update_of_ne hc]
        exact ⟨(hfailed hne).1, List.mem_append_left _ (hfailed hne).2⟩
      · simp only [update_of_ne hc]
        exact h.new fun hm => hn (List.mem_append_left _ hm)
  exact (hon.handAll d ((st.queue (st.client d).id).map (Queued.item J))).congr rfl rfl
    ⟨rfl, rfl, rfl⟩

theorem unregister (h : Pumped st c) (d : ℕ) : Pumped (st.unregister d) c := by
  unfold Relay.unregister
  simp only
  split
  · exact h.goto _ _
  · rename_i e he
    split
    · exact h.congr rfl rfl ⟨rfl, rfl, rfl⟩
    · refine h.congr rfl rfl ?_
      simp only [goto_client]
      by_cases hc : c = e
      · subst hc
        rw [update_self]
        exact ⟨rfl, rfl, rfl⟩
      · rw [update_of_ne hc]
        exact ⟨rfl, rfl, rfl⟩

theorem write (h : Pumped st c) (d : ℕ) (ok : Bool) : Pumped (st.write d ok) c := by
  unfold Relay.write
  split
  swap
  · exact h
  rename_i hwriting
  split
  swap
  · exact h
  rename_i x rest hrecv
  by_cases hc : c = d
  swap
  · refine h.congr rfl rfl ?_
    simp only [update_of_ne hc, and_self]
  subst hc
  obtain ⟨failed, hch, -, hfailed⟩ := h.channel
  obtain rfl : failed = [] := by
    by_contra hne
    exact absurd ((hfailed hne).1.symm.trans hwriting) Bool.false_ne_true
  have hreg : c ∈ st.registrations := by
    by_contra hn
    exact absurd ((h.new hn).1.symm.trans hwriting) Bool.false_ne_true
  rw [List.append_nil, (Chan.recv_eq_some hrecv).1] at hch
  cases ok with
  | true =>
    refine ⟨⟨[], ?_, Nat.zero_le _, fun hne => absurd rfl hne⟩, fun hn => absurd hreg hn⟩
    simp only [update_self, if_true, List.append_nil, List.append_assoc, List.singleton_append]
    exact hch
  | false =>
    refine ⟨⟨[x], ?_, Nat.le_refl _, fun _ => ⟨?_, hreg⟩⟩, fun hn => absurd hreg hn⟩
    · simp only [update_self, Bool.false_eq_true, if_false, List.append_assoc,
        List.singleton_append]
      exact hch
    · simp only [update_self, Bool.false_eq_true, if_false]

/-- **Every step keeps it.** -/
theorem step (h : Pumped st c) (hs : Sound J st) (a : Act) : Pumped (st.step J a) c := by
  have hop := step_op J st a
  generalize st.step J a = st' at hop ⊢
  cases hop with
  | none => exact h
  | accounts => exact h.congr rfl rfl ⟨rfl, rfl, rfl⟩
  | accept => exact h.accept hs _
  | hangup => exact h.goto _ _
  | readFrame => exact h.congr rfl rfl ⟨rfl, rfl, rfl⟩
  | drain =>
    unfold drain
    split
    · exact (h.handAll _ _).goto _ _
    · exact h.goto _ _
  | delete =>
    unfold delete
    split <;> exact h.congr rfl rfl ⟨rfl, rfl, rfl⟩
  | register hpc => exact h.register hs.registry hpc
  | lookup => exact h.goto _ _
  | check => exact h.goto _ _
  | push =>
    unfold push
    split
    · exact h.congr rfl rfl ⟨rfl, rfl, rfl⟩
    · split
      · exact (h.handAll _ _).goto _ _
      · exact h.goto _ _
  | fallBack =>
    unfold fallBack
    split
    · split <;> exact h.congr rfl rfl ⟨rfl, rfl, rfl⟩
    · exact h.congr rfl rfl ⟨rfl, rfl, rfl⟩
  | process =>
    unfold processMessage
    split
    · exact h.goto _ _
    · simp only
      split
      · split
        · exact h.congr rfl rfl ⟨rfl, rfl, rfl⟩
        · exact h.goto _ _
      · exact h.goto _ _
  | pay => exact h.goto _ _
  | unregister => exact h.unregister _
  | write d ok => exact h.write d ok

end Pumped

/-- The writers write what was put on their channels, in order and all but one value at most;
what the relay sends of its own is written once at most over all connections, and everything is
written to a connection of the user it is for. -/
structure Written (J : Json) (st : Relay) : Prop where
  pumped : ∀ c, Pumped st c
  first : ∀ c, (st.client c).written <+: st.onChannel c
  once : ∀ t c, t.isRaw = false → ((st.client c).written.map Item.tag).count t ≤ 1
  apart : ∀ c c', ∀ x ∈ (st.client c).written, ∀ x' ∈ (st.client c').written,
    x.tag.isRaw = false → x.tag = x'.tag → c = c'
  addressed : ∀ c, ∀ x ∈ (st.client c).written,
    ∃ m, Encodes J x.data m ∧ Copy J st x.tag m ∧ m.recipient = (st.client c).id

theorem mem_onChannel {c : ℕ} {x : Item} : x ∈ st.onChannel c ↔ ⟨c, x⟩ ∈ st.handed := by
  unfold onChannel
  constructor
  · intro h
    obtain ⟨y, hy, rfl⟩ := List.mem_map.mp h
    obtain ⟨hy, hc⟩ := List.mem_filter.mp hy
    rwa [← of_decide_eq_true hc]
  · exact fun h => List.mem_map.mpr ⟨_, List.mem_filter.mpr ⟨h, decide_eq_true rfl⟩, rfl⟩

theorem Orders.handed_unique (h : Orders J st) {x y : Handing} (hx : x ∈ st.handed)
    (hy : y ∈ st.handed) (hraw : x.item.tag.isRaw = false) (he : x.item.tag = y.item.tag) :
    x = y := by
  have hnodup : ((st.handed.filter fun h => !h.item.tag.isRaw).map fun h => h.item.tag).Nodup := by
    have hout := (List.nodup_append.mp (h.once.nodup "")).1
    have hfilter : st.depot.out = _ := List.filter_map
    rwa [hfilter] at hout
  refine List.inj_on_of_nodup_map hnodup ?_ ?_ he
  · exact List.mem_filter.mpr ⟨hx, by rw [hraw]; rfl⟩
  · exact List.mem_filter.mpr ⟨hy, by rw [← he, hraw]; rfl⟩

theorem Orders.written (h : Orders J st) (hp : ∀ c, Pumped st c) : Written J st := by
  have hfirst : ∀ c, (st.client c).written <+: st.onChannel c := fun c => by
    obtain ⟨failed, hch, -⟩ := (hp c).channel
    rw [hch, List.append_assoc]
    exact List.prefix_append _ _
  have hmem : ∀ {c x}, x ∈ (st.client c).written → ⟨c, x⟩ ∈ st.handed := fun {c x} hx =>
    mem_onChannel.mp ((hfirst c).subset hx)
  exact
    { pumped := hp
      first := hfirst
      once := fun t c ht => by
        have hsub : ((st.client c).written.map Item.tag).Sublist st.tags := by
          have hchannel : ((st.onChannel c).map Item.tag).Sublist st.tags := by
            unfold onChannel tags
            rw [List.map_map]
            exact List.filter_sublist.map _
          exact ((hfirst c).sublist.map _).trans hchannel
        have hle := h.exact.once t "" ht
        exact (hsub.count_le t).trans (by omega)
      apart := fun c c' x hx x' hx' hraw he =>
        congrArg Handing.conn (h.handed_unique (hmem hx) (hmem hx') hraw he)
      addressed := fun c x hx => (h.provenance.handed _ (hmem hx)).2 }

/-- **What is written to the connections**, in every run. -/
theorem run_written (J : Json) (acts : List Act) : Written J (run J acts) := by
  have h := Run.invariant (I := fun st => Orders J st ∧ ∀ c, Pumped st c)
    (fun st a h => ⟨h.1.step J st a, fun c => (h.2 c).step h.1.toSound a⟩) acts
    ⟨start_orders J, start_pumped⟩
  exact h.1.written h.2

end Relay

end SecureComm.Server
