import SecureComm.Server.Operations

/-!
# Connections and the client map

What `h.clients`, the `Online` flags and the closed channels say of each other
in every reachable state, whatever the goroutines do. On this rest: when a
relay panics, and which connection of a user the map holds.
-/

namespace SecureComm.Server

open Function Run

/-- `hub.register` was called for the connection. -/
def Pc.Started : Pc → Prop
  | .idle | .querying | .deleting | .registering => False
  | _ => True

/-- The goroutine is in a `Hub.send` that found the connection in the map. -/
def Pc.Targets : Pc → ℕ → Prop
  | .check _ t, c => t = some c
  | .push _ d, c => d = c
  | _, _ => False

theorem Send.next_started (s : Send) : s.next.Started := by
  unfold Send.next; split <;> trivial

theorem Send.next_targets (s : Send) (c : ℕ) : ¬ s.next.Targets c := by
  unfold Send.next; split <;> exact id

namespace Relay

variable {J : Json} {st st' : Relay}

def Started (st : Relay) (c : ℕ) : Prop := (st.pc (.serve c)).Started

structure Registry (st : Relay) : Prop where
  fresh : ∀ c, st.conns ≤ c → st.pc (.serve c) = .idle
  new : ∀ c, ¬ st.Started c → (st.client c).online = false ∧ (st.client c).send.closed = false
  closed : ∀ c, st.Started c → (st.client c).send.closed = !(st.client c).online
  listed : ∀ id c, st.clients id = some c →
    (st.client c).id = id ∧ st.Started c ∧ (st.client c).online = true
  target : ∀ g c, (st.pc g).Targets c → st.Started c
  registered : ∀ c ∈ st.registrations, st.Started c

theorem start_registry : Registry start where
  fresh _ _ := rfl
  new _ _ := ⟨rfl, rfl⟩
  closed _ h := h.elim
  listed _ _ h := by cases h
  target _ _ h := h.elim
  registered _ h := by cases h

/-! ## Operations keep it -/

namespace Registry

theorem lt_conns_of_ne (h : Registry st) {c : ℕ} (hc : st.pc (.serve c) ≠ .idle) :
    c < st.conns := by
  by_contra hlt
  exact hc (h.fresh c (Nat.le_of_not_lt hlt))

theorem lt_conns (h : Registry st) {c : ℕ} (hs : st.Started c) : c < st.conns :=
  h.lt_conns_of_ne fun hi => by unfold Started at hs; rw [hi] at hs; exact hs

theorem congr (h : Registry st) (hpc : st'.pc = st.pc) (hconns : st'.conns = st.conns)
    (hclients : st'.clients = st.clients) (hregs : st'.registrations = st.registrations)
    (hclient : ∀ c, (st'.client c).id = (st.client c).id ∧
      (st'.client c).online = (st.client c).online ∧
      (st'.client c).send.closed = (st.client c).send.closed) : Registry st' where
  fresh c hc := by rw [hpc]; exact h.fresh c (hconns ▸ hc)
  new c hc := by
    obtain ⟨-, ho, hs⟩ := hclient c
    rw [ho, hs]
    exact h.new c (by unfold Started at hc ⊢; rwa [hpc] at hc)
  closed c hc := by
    obtain ⟨-, ho, hs⟩ := hclient c
    rw [ho, hs]
    exact h.closed c (by unfold Started at hc ⊢; rwa [hpc] at hc)
  listed id c hc := by
    obtain ⟨hid, ho, -⟩ := hclient c
    rw [hid, ho, Started, hpc]
    exact h.listed id c (by rwa [hclients] at hc)
  target g c hc := by rw [Started, hpc]; rw [hpc] at hc; exact h.target g c hc
  registered c hc := by rw [Started, hpc]; exact h.registered c (by rwa [hregs] at hc)

theorem handAll (h : Registry st) (c : ℕ) (items : List Item) : Registry (st.handAll c items) :=
  h.congr rfl rfl rfl rfl fun _ => ⟨handAll_id, handAll_online, handAll_closed⟩

/-- A goroutine moves on; that of a connection from before its registration to
before it or from after it to after it. -/
theorem goto (h : Registry st) {g : Goroutine} {p : Pc}
    (hp : ∀ c, g = .serve c → st.pc g ≠ .idle ∧ (p.Started ↔ (st.pc g).Started))
    (ht : ∀ c, p.Targets c → st.Started c) : Registry (st.goto g p) := by
  have hstarted : ∀ c, (st.goto g p).Started c ↔ st.Started c := fun c => by
    unfold Started
    rw [goto_pc]
    by_cases hg : Goroutine.serve c = g
    · subst hg; rw [update_self]; exact (hp c rfl).2
    · rw [update_of_ne hg]
  exact
    { fresh := fun c hc => by
        have hg : Goroutine.serve c ≠ g := fun hg => (hp c hg.symm).1 (hg ▸ h.fresh c hc)
        rw [goto_pc, update_of_ne hg]
        exact h.fresh c hc
      new := fun c hc => h.new c fun hs => hc ((hstarted c).mpr hs)
      closed := fun c hc => h.closed c ((hstarted c).mp hc)
      listed := fun id c hc => by
        obtain ⟨hid, hs, ho⟩ := h.listed id c hc
        exact ⟨hid, (hstarted c).mpr hs, ho⟩
      target := fun g' c hc => by
        rw [goto_pc] at hc
        by_cases hg : g' = g
        · subst hg
          rw [update_self] at hc
          exact (hstarted c).mpr (ht c hc)
        · rw [update_of_ne hg] at hc
          exact (hstarted c).mpr (h.target g' c hc)
      registered := fun c hc => (hstarted c).mpr (h.registered c hc) }

theorem goto_plain (h : Registry st) {g : Goroutine} {p : Pc} (hg : (st.pc g).Started)
    (hp : p.Started) (ht : ∀ c, ¬ p.Targets c) : Registry (st.goto g p) :=
  h.goto (fun _ _ => ⟨fun hi => by rw [hi] at hg; exact hg, iff_of_true hp hg⟩)
    fun c hc => (ht c hc).elim

theorem accept (h : Registry st) (id : String) : Registry (st.accept id) := by
  have hne : ∀ c, st.Started c → c ≠ st.conns := fun c hc => (h.lt_conns hc).ne
  have hpc : ∀ g, g ≠ .serve st.conns → (st.accept id).pc g = st.pc g := fun g hg =>
    update_of_ne hg ..
  have hclient : ∀ c, c ≠ st.conns → (st.accept id).client c = st.client c := fun c hc =>
    update_of_ne hc ..
  have hserve : ∀ c, c ≠ st.conns → Goroutine.serve c ≠ .serve st.conns := fun c hc he =>
    hc (Goroutine.serve.inj he)
  have hstarted : ∀ c, st.Started c → (st.accept id).Started c := fun c hc => by
    unfold Started; rw [hpc _ (hserve c (hne c hc))]; exact hc
  have hnew : (st.accept id).pc (.serve st.conns) = .querying := update_self ..
  exact
    { fresh := fun c hc => by
        have hlt : st.conns < c := hc
        rw [hpc _ (hserve c hlt.ne')]
        exact h.fresh c hlt.le
      new := fun c hc => by
        by_cases hn : c = st.conns
        · have hself : (st.accept id).client st.conns = { id := id } := update_self ..
          rw [hn, hself]
          exact ⟨rfl, rfl⟩
        · rw [hclient c hn]
          exact h.new c (by unfold Started at hc ⊢; rwa [hpc _ (hserve c hn)] at hc)
      closed := fun c hc => by
        have hn : c ≠ st.conns := fun hn => by
          subst hn; unfold Started at hc; rw [hnew] at hc; exact hc
        rw [hclient c hn]
        exact h.closed c (by unfold Started at hc ⊢; rwa [hpc _ (hserve c hn)] at hc)
      listed := fun id' c hc => by
        obtain ⟨hid, hs, ho⟩ := h.listed id' c hc
        rw [hclient c (hne c hs)]
        exact ⟨hid, hstarted c hs, ho⟩
      target := fun g c hc => by
        have hg : g ≠ .serve st.conns := by
          rintro rfl
          rw [hnew] at hc
          exact hc
        rw [hpc g hg] at hc
        exact hstarted c (h.target g c hc)
      registered := fun c hc => hstarted c (h.registered c hc) }

theorem register (h : Registry st) {c : ℕ} (hpc : st.pc (.serve c) = .registering) :
    Registry (st.register J c) := by
  have hself : (st.register J c).Started c := by
    unfold Started Relay.register; rw [goto_pc, update_self]; trivial
  have hother : ∀ d, d ≠ c → (st.register J c).pc (.serve d) = st.pc (.serve d) := fun d hd => by
    unfold Relay.register
    rw [goto_pc, update_of_ne fun he => hd (Goroutine.serve.inj he)]
    rfl
  have hstarted : ∀ d, st.Started d → (st.register J c).Started d := fun d hd => by
    by_cases hn : d = c
    · exact hn ▸ hself
    · unfold Started; rw [hother d hn]; exact hd
  have hclient : ∀ d, d ≠ c → (st.register J c).client d = st.client d := fun d hd => by
    unfold Relay.register
    simp only [goto_client, handAll_client_ne hd, update_of_ne hd]
  have hcself : ((st.register J c).client c).id = (st.client c).id ∧
      ((st.register J c).client c).online = true ∧
      ((st.register J c).client c).send.closed = (st.client c).send.closed := by
    unfold Relay.register
    simp only [goto_client, handAll_id, handAll_online, handAll_closed, update_self]
    exact ⟨trivial, trivial, trivial⟩
  have hopen : (st.client c).send.closed = false :=
    (h.new c (by unfold Started; rw [hpc]; exact id)).2
  exact
    { fresh := fun d hd => by
        have hn : d ≠ c := fun hn => by
          have := h.fresh d hd; rw [hn, hpc] at this; cases this
        rw [hother d hn]
        exact h.fresh d hd
      new := fun d hd => by
        have hn : d ≠ c := fun hn => hd (hn ▸ hself)
        rw [hclient d hn]
        exact h.new d fun hs => hd (hstarted d hs)
      closed := fun d hd => by
        by_cases hn : d = c
        · subst hn; rw [hcself.2.1, hcself.2.2, hopen]; rfl
        · rw [hclient d hn]
          exact h.closed d (by unfold Started at hd ⊢; rwa [hother d hn] at hd)
      listed := fun id d hd => by
        have hd' : update st.clients (st.client c).id (some c) id = some d := hd
        by_cases hid : id = (st.client c).id
        · subst hid
          rw [update_self] at hd'
          cases hd'
          exact ⟨hcself.1, hself, hcself.2.1⟩
        · rw [update_of_ne hid] at hd'
          obtain ⟨hid', hs, ho⟩ := h.listed id d hd'
          have hn : d ≠ c := fun hn => by
            subst hn; unfold Started at hs; rw [hpc] at hs; exact hs
          rw [hclient d hn]
          exact ⟨hid', hstarted d hs, ho⟩
      target := fun g d hd => by
        have hg : g ≠ .serve c := by
          rintro rfl
          unfold Relay.register at hd
          rw [goto_pc, update_self] at hd
          exact hd
        have hgpc : (st.register J c).pc g = st.pc g := by
          unfold Relay.register; rw [goto_pc, update_of_ne hg]; rfl
        rw [hgpc] at hd
        exact hstarted d (h.target g d hd)
      registered := fun d hd => by
        have hd' : d ∈ st.registrations ++ [c] := hd
        rcases List.mem_append.mp hd' with hd' | hd'
        · exact hstarted d (h.registered d hd')
        · exact (List.mem_singleton.mp hd') ▸ hself }

theorem retire (h : Registry st) {id : String} {d : ℕ} (hd : st.clients id = some d) :
    Registry { st with
      clients := update st.clients id none
      client := update st.client d
        { st.client d with online := false, send := (st.client d).send.close } } := by
  have hsd := (h.listed id d hd).2.1
  exact
    { fresh := h.fresh
      new := fun e he => by
        have hn : e ≠ d := fun hn => he (hn ▸ hsd)
        simp only [update_of_ne hn]
        exact h.new e he
      closed := fun e he => by
        by_cases hn : e = d
        · subst hn; simp only [update_self]; rfl
        · simp only [update_of_ne hn]; exact h.closed e he
      listed := fun id' e he => by
        have he' : update st.clients id none id' = some e := he
        have hid : id' ≠ id := by
          rintro rfl
          rw [update_self] at he'; cases he'
        rw [update_of_ne hid] at he'
        obtain ⟨hid', hs, ho⟩ := h.listed id' e he'
        have hn : e ≠ d := fun hn => hid (by rw [← hid', hn, (h.listed id d hd).1])
        simp only [update_of_ne hn]
        exact ⟨hid', hs, ho⟩
      target := h.target
      registered := h.registered }

theorem unregister (h : Registry st) {c : ℕ} (hpc : st.pc (.serve c) = .leaving) :
    Registry (st.unregister c) := by
  have hs : (st.pc (.serve c)).Started := by rw [hpc]; trivial
  unfold Relay.unregister
  simp only
  split
  · exact h.goto_plain hs trivial fun _ => id
  · rename_i d hd
    split
    · exact h.congr rfl rfl rfl rfl fun _ => ⟨rfl, rfl, rfl⟩
    · exact (h.retire hd).goto_plain hs trivial fun _ => id

theorem drain (h : Registry st) {c : ℕ} {ok : Bool} (hpc : st.pc (.serve c) = .querying) :
    Registry (st.drain J c ok) := by
  have hnot : ¬ (st.pc (.serve c)).Started := by rw [hpc]; exact id
  have hidle : st.pc (.serve c) ≠ .idle := by rw [hpc]; exact Pc.noConfusion
  unfold Relay.drain
  split
  · refine (h.handAll c _).goto (fun _ _ => ⟨hidle, iff_of_false ?_ hnot⟩) fun d hd => ?_
    · split <;> exact id
    · split at hd <;> exact hd.elim
  · exact h.goto (fun _ _ => ⟨hidle, iff_of_false id hnot⟩) fun _ hd => hd.elim

theorem delete (h : Registry st) {c : ℕ} {ok : Bool} (hpc : st.pc (.serve c) = .deleting) :
    Registry (st.delete c ok) := by
  have hnot : ¬ (st.pc (.serve c)).Started := by rw [hpc]; exact id
  have hidle : st.pc (.serve c) ≠ .idle := by rw [hpc]; exact Pc.noConfusion
  have hgoto : ∀ {st' : Relay}, st'.pc = st.pc → Registry st' →
      Registry (st'.goto (.serve c) .registering) := fun hpc' h' =>
    h'.goto (fun _ _ => by rw [hpc']; exact ⟨hidle, iff_of_false id hnot⟩) fun _ hd => hd.elim
  unfold Relay.delete
  split
  · exact hgoto rfl (h.congr rfl rfl rfl rfl fun _ => ⟨rfl, rfl, rfl⟩)
  · exact hgoto rfl h

theorem readFrame (h : Registry st) {c : ℕ} {data : Bytes} (hpc : st.pc (.serve c) = .reading) :
    Registry (st.readFrame J c data) := by
  have h' : Registry { st with frames := st.frames ++ [Frame.mk c data] } :=
    h.congr rfl rfl rfl rfl fun _ => ⟨rfl, rfl, rfl⟩
  have hs : (st.pc (.serve c)).Started := by rw [hpc]; trivial
  unfold Relay.readFrame
  cases J.unmarshal data <;>
    exact h'.goto_plain hs trivial fun _ => id

theorem lookup (h : Registry st) {g : Goroutine} {s : Send} (hpc : st.pc g = .lookup s) :
    Registry (st.goto g (.check s (st.clients s.message.recipient))) := by
  have hs : (st.pc g).Started := by rw [hpc]; trivial
  exact h.goto (fun _ _ => ⟨by rw [hpc]; exact Pc.noConfusion, iff_of_true trivial hs⟩)
    fun c hc => (h.listed _ c hc).2.1

theorem check (h : Registry st) {g : Goroutine} {s : Send} {t : Option ℕ}
    (hpc : st.pc g = .check s t) : Registry (st.goto g (st.checked s t)) := by
  have hs : (st.pc g).Started := by rw [hpc]; trivial
  have hidle : st.pc g ≠ .idle := by rw [hpc]; exact Pc.noConfusion
  unfold checked
  cases t with
  | none => exact h.goto_plain hs trivial fun _ => id
  | some c =>
    simp only
    split
    · refine h.goto (fun _ _ => ⟨hidle, iff_of_true trivial hs⟩) fun d hd => ?_
      exact hd ▸ h.target g c (by rw [hpc]; rfl)
    · exact h.goto_plain hs trivial fun _ => id

theorem push (h : Registry st) {g : Goroutine} {s : Send} {c : ℕ} (hpc : st.pc g = .push s c) :
    Registry (st.push g s c) := by
  have hs : (st.pc g).Started := by rw [hpc]; trivial
  unfold Relay.push
  split
  · exact h.congr rfl rfl rfl rfl fun _ => ⟨rfl, rfl, rfl⟩
  split
  · exact (h.handAll c _).goto_plain hs s.next_started s.next_targets
  · exact h.goto_plain hs trivial fun _ => id

theorem fallBack (h : Registry st) {g : Goroutine} {s : Send} {ok : Bool} {now : Int64}
    (hpc : st.pc g = .refused s) : Registry (st.fallBack g s ok now) := by
  have hs : (st.pc g).Started := by rw [hpc]; trivial
  unfold Relay.fallBack
  split
  · split
    · have h' : Registry { st with queuedMessages := st.queuedMessages ++ [s.row now] } :=
        h.congr rfl rfl rfl rfl fun _ => ⟨rfl, rfl, rfl⟩
      exact h'.goto_plain hs s.next_started s.next_targets
    · exact h.goto_plain hs s.next_started s.next_targets
  · have h' : Registry (st.queueMessage s.tag s.message) :=
      h.congr rfl rfl rfl rfl fun _ => ⟨rfl, rfl, rfl⟩
    exact h'.goto_plain hs s.next_started s.next_targets

theorem processMessage (h : Registry st) {g : Goroutine} {k : ℕ} {data : Bytes} {now : Int64}
    (hpc : st.pc g = .processing k data) : Registry (st.processMessage J g k data now) := by
  have hs : (st.pc g).Started := by rw [hpc]; trivial
  have hreading : Registry (st.goto g .reading) :=
    h.goto_plain hs trivial fun _ => id
  unfold Relay.processMessage
  cases J.unmarshal data with
  | none => exact hreading
  | some m =>
    simp only
    split
    · cases J.unmarshalPayment (m.stamped now).payload with
      | none => exact hreading
      | some payment =>
        -- the goroutine of the payment is new, so it is no connection's
        have hpay : Registry ((st.goto g .reading).goto (.pay st.payments.length)
            (.paying st.payments.length payment (m.stamped now).senderID)) :=
          hreading.goto (fun _ he => by cases he) fun _ hd => hd.elim
        exact hpay.congr rfl rfl rfl rfl fun _ => ⟨rfl, rfl, rfl⟩
    · exact h.goto_plain hs trivial fun _ => id

theorem write (h : Registry st) (c : ℕ) (ok : Bool) : Registry (st.write c ok) := by
  unfold Relay.write
  split
  · split
    · rename_i x rest hrecv
      refine h.congr rfl rfl rfl rfl fun d => ?_
      by_cases hd : d = c
      · subst hd
        simp only [update_self]
        have := (Chan.recv_eq_some hrecv).2
        split <;> exact ⟨rfl, rfl, this⟩
      · simp only [update_of_ne hd]
        exact ⟨trivial, trivial, trivial⟩
    · exact h
  · exact h

/-- **Every step keeps it.** -/
theorem step (J : Json) (st : Relay) (a : Act) (h : Registry st) : Registry (st.step J a) := by
  have hop := step_op J st a
  generalize st.step J a = st' at hop ⊢
  cases hop with
  | none => exact h
  | accounts users => exact h.congr rfl rfl rfl rfl fun _ => ⟨rfl, rfl, rfl⟩
  | accept => exact h.accept _
  | hangup hpc =>
    exact h.goto_plain (by rw [hpc]; trivial) trivial fun _ => id
  | readFrame hpc => exact h.readFrame hpc
  | drain hpc => exact h.drain hpc
  | delete hpc => exact h.delete hpc
  | register hpc => exact h.register hpc
  | lookup hpc => exact h.lookup hpc
  | check hpc => exact h.check hpc
  | push hpc => exact h.push hpc
  | fallBack hpc => exact h.fallBack hpc
  | process hpc => exact h.processMessage hpc
  | pay hpc =>
    exact h.goto_plain (by rw [hpc]; trivial) trivial fun _ => id
  | unregister hpc => exact h.unregister hpc
  | write c ok => exact h.write c ok

end Registry

def run (J : Json) (acts : List Act) : Relay := acts.foldl (step J) start

theorem run_registry (J : Json) (acts : List Act) : Registry (run J acts) :=
  Run.invariant (Registry.step J) acts start_registry

end Relay

end SecureComm.Server
