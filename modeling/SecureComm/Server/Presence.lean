import Mathlib.Data.List.Induction
import SecureComm.Server.Provenance

/-!
# Panics, and who holds the place in the map

A channel is never closed twice, and a goroutine sends on a closed channel
exactly when the client it has checked went offline in between. The map holds
the latest open connection of every user exactly as long as no connection is
torn down while the user has another.
-/

namespace SecureComm.Server

open Function Run

def Pc.isFinished : Pc → Bool
  | .finished => true
  | _ => false

variable {J : Json} {st st' : Relay}

namespace Relay

/-! ## Panics -/

/-- A goroutine that comes to the channel in `Hub.send` finds the client, which
was online when it checked, online. -/
def StillOnline (st : Relay) : Act → Prop
  | .next g _ _ => ∀ s c, st.pc g = .push s c → (st.client c).online = true
  | _ => True

theorem drain_crash (st : Relay) (c : ℕ) (ok : Bool) : (st.drain J c ok).crash = st.crash := by
  unfold drain
  split <;> rfl

theorem delete_crash (st : Relay) (c : ℕ) (ok : Bool) : (st.delete c ok).crash = st.crash := by
  unfold delete
  split <;> rfl

theorem fallBack_crash (st : Relay) (g : Goroutine) (s : Send) (ok : Bool) (now : Int64) :
    (st.fallBack g s ok now).crash = st.crash := by
  unfold fallBack
  split
  · split <;> rfl
  · rfl

theorem processMessage_crash (st : Relay) (g : Goroutine) (k : ℕ) (data : Bytes) (now : Int64) :
    (st.processMessage J g k data now).crash = st.crash := by
  unfold processMessage
  split
  · rfl
  · simp only
    split
    · split <;> rfl
    · rfl

theorem write_crash (st : Relay) (c : ℕ) (ok : Bool) : (st.write c ok).crash = st.crash := by
  unfold write
  split
  · split <;> rfl
  · rfl

theorem unregister_crash (h : Registry st) (hc : st.crash = none) (c : ℕ) :
    (st.unregister c).crash = none := by
  unfold unregister
  simp only
  split
  · exact hc
  · rename_i d hd
    obtain ⟨-, hs, ho⟩ := h.listed _ d hd
    have hopen := h.closed d hs
    rw [ho] at hopen
    rw [hopen]
    exact hc

theorem push_crash (h : Registry st) (hc : st.crash = none) {g : Goroutine} {s : Send} {c : ℕ}
    (hpc : st.pc g = .push s c) :
    (st.push g s c).crash = if (st.client c).online then none else some .sendOnClosed := by
  have hclosed := h.closed c (h.target g c (by rw [hpc]; rfl))
  unfold push
  rw [hclosed]
  cases (st.client c).online with
  | false => rfl
  | true =>
    simp only [Bool.not_true, Bool.false_eq_true, if_false, if_true]
    split
    · simp [hc]
    · exact hc

/-- A step panics only on a channel, and exactly if the client is offline. -/
theorem step_crash (J : Json) {a : Act} (h : Registry st) (hc : st.crash = none) :
    (st.step J a).crash ≠ some .closeOfClosed ∧
      ((st.step J a).crash = none ↔ StillOnline st a) := by
  have hsafe : ∀ {st' : Relay} {a : Act}, st'.crash = none → StillOnline st a →
      st'.crash ≠ some .closeOfClosed ∧ (st'.crash = none ↔ StillOnline st a) := fun h1 h2 =>
    ⟨by rw [h1]; exact Option.some_ne_none _ ∘ Eq.symm, iff_of_true h1 h2⟩
  have hother : ∀ {g : Goroutine} {p : Pc} {ok : Bool} {now : Int64}, st.pc g = p →
      (∀ s c, p ≠ .push s c) → StillOnline st (.next g ok now) := fun hp hne s c hpush =>
    absurd (hp.symm.trans hpush) (hne s c)
  have hop := step_op J st a
  generalize st.step J a = st' at hop ⊢
  cases hop with
  | none hpc =>
    refine hsafe hc ?_
    cases a with
    | next g ok now =>
      intro s c hpush
      have := (hpc hc g ok now rfl).1
      rw [hpush] at this
      cases this
    | _ => trivial
  | accounts => exact hsafe hc trivial
  | accept => exact hsafe hc trivial
  | hangup => exact hsafe hc trivial
  | readFrame => exact hsafe hc trivial
  | drain hpc => exact hsafe ((drain_crash st _ _).trans hc) (hother hpc fun _ _ => Pc.noConfusion)
  | delete hpc => exact hsafe ((delete_crash st _ _).trans hc) (hother hpc fun _ _ => Pc.noConfusion)
  | register hpc => exact hsafe hc (hother hpc fun _ _ => Pc.noConfusion)
  | lookup hpc => exact hsafe hc (hother hpc fun _ _ => Pc.noConfusion)
  | check hpc => exact hsafe hc (hother hpc fun _ _ => Pc.noConfusion)
  | @push g s c _ _ hpc =>
    have hiff : ∀ {ok now}, StillOnline st (.next g ok now) ↔ (st.client c).online = true :=
      ⟨fun hs => hs s c hpc, fun ho s' c' hpc' => by
        obtain ⟨-, rfl⟩ := Pc.push.inj (hpc.symm.trans hpc'); exact ho⟩
    rw [hiff, push_crash h hc hpc]
    split
    · rename_i ho
      exact ⟨Option.some_ne_none _ ∘ Eq.symm, iff_of_true rfl ho⟩
    · rename_i ho
      exact ⟨fun he => (by cases he), iff_of_false (Option.some_ne_none _) ho⟩
  | fallBack hpc =>
    exact hsafe ((fallBack_crash st ..).trans hc) (hother hpc fun _ _ => Pc.noConfusion)
  | process hpc =>
    exact hsafe ((processMessage_crash st ..).trans hc) (hother hpc fun _ _ => Pc.noConfusion)
  | pay hpc => exact hsafe hc (hother hpc fun _ _ => Pc.noConfusion)
  | unregister hpc => exact hsafe (unregister_crash h hc _) (hother hpc fun _ _ => Pc.noConfusion)
  | write c ok => exact hsafe ((write_crash st c ok).trans hc) trivial

/-- **No channel is closed twice, and no goroutine sends on a closed one** exactly
if every client is still online when a goroutine comes to its channel. -/
theorem no_panic_iff (J : Json) (acts : List Act) :
    (run J acts).crash ≠ some .closeOfClosed ∧
      ((run J acts).crash = none ↔ Along (step J) StillOnline start acts) := by
  constructor
  · refine (Run.invariant (I := fun st => Registry st ∧ st.crash ≠ some .closeOfClosed)
      (fun st a h => ⟨h.1.step J st a, ?_⟩) acts ⟨start_registry, Option.some_ne_none _ ∘ Eq.symm⟩).2
    by_cases hc : st.crash = none
    · exact (step_crash J h.1 hc).1
    · rw [step_crashed hc]; exact h.2
  · have hback : ∀ st a, (step J st a).crash = none → st.crash = none := fun st a h => by
      by_contra hc
      rw [step_crashed hc] at h
      exact hc h
    unfold run
    rw [← throughout_iff_last (P := fun st : Relay => st.crash = none) hback]
    exact throughout_iff_along (I := Registry) (Registry.step J)
      (fun st a h hc => (step_crash J h hc).2) start_registry rfl

end Relay

namespace Sample

open Relay

/-- Bob hangs up and is unregistered while the goroutine of Alice is about to
send on his channel. -/
def hangupRace : List Act :=
  .accounts users :: connects "tb" 0 ++ connects "ta" 1 ++
    [.read 1 (some (text (hello "alice" "1")))] ++ steps 1 2 ++ [.read 0 none] ++ steps 0 1 ++
    steps 1 1

theorem hangup_race_panics : (run json hangupRace).crash = some .sendOnClosed := by decide +kernel

end Sample

namespace Relay

/-! ## The latest open connection -/

def tornDown (st : Relay) (c : ℕ) : Bool := (st.pc (.serve c)).isFinished

def openConns (st : Relay) (id : String) : List ℕ :=
  st.registrations.filter fun c => (st.client c).id = id ∧ st.tornDown c = false

/-- The map holds the latest open connection of every user, and none of a user
who has none; and its channel is open. -/
def Latest (st : Relay) : Prop :=
  ∀ id, st.clients id = (st.openConns id).getLast? ∧
    ∀ c, st.clients id = some c → (st.client c).send.closed = false

/-- A connection that is torn down is the only one its user has open. -/
def Alone (st : Relay) : Act → Prop
  | .next (.serve c) _ _ => st.crash = none → st.pc (.serve c) = .leaving →
      ∀ d ∈ st.openConns (st.client c).id, d = c
  | _ => True

/-- What neither registers a connection nor tears one down changes nothing that
the map is compared with. -/
structure Quiet (st st' : Relay) : Prop where
  registrations : st'.registrations = st.registrations
  clients : st'.clients = st.clients
  same : ∀ c, st.Started c → st'.tornDown c = st.tornDown c ∧
    (st'.client c).id = (st.client c).id ∧
    (st'.client c).send.closed = (st.client c).send.closed

theorem Quiet.of_eq (hregs : st'.registrations = st.registrations)
    (hclients : st'.clients = st.clients) (hpc : ∀ c, st'.tornDown c = st.tornDown c)
    (hclient : ∀ c, (st'.client c).id = (st.client c).id ∧
      (st'.client c).send.closed = (st.client c).send.closed) : Quiet st st' :=
  ⟨hregs, hclients, fun c _ => ⟨hpc c, hclient c⟩⟩

theorem Quiet.openConns_eq (hq : Quiet st st') (hr : Registry st) (id : String) :
    st'.openConns id = st.openConns id := by
  unfold openConns
  rw [hq.registrations]
  refine List.filter_congr fun c hc => ?_
  obtain ⟨ht, hid, -⟩ := hq.same c (hr.registered c hc)
  rw [ht, hid]

theorem Latest.quiet (h : Latest st) (hr : Registry st) (hq : Quiet st st') : Latest st' := by
  intro id
  rw [hq.clients, hq.openConns_eq hr]
  refine ⟨(h id).1, fun c hc => ?_⟩
  rw [(hq.same c (hr.listed id c hc).2.1).2.2]
  exact (h id).2 c hc

theorem tornDown_goto {g : Goroutine} {p : Pc}
    (hp : ∀ c, g = .serve c → p.isFinished = (st.pc g).isFinished) (c : ℕ) :
    (st.goto g p).tornDown c = st.tornDown c := by
  unfold tornDown
  rw [goto_pc]
  by_cases hg : Goroutine.serve c = g
  · subst hg; rw [update_self]; exact hp c rfl
  · rw [update_of_ne hg]

theorem Made.next_isFinished {g : Goroutine} {s : Send} (h : Made J st g s) {c : ℕ}
    (hg : g = .serve c) : s.next.isFinished = false := by
  unfold Made at h
  unfold Send.next
  cases hc : s.caller with
  | readLoop => rfl
  | processMessage => rfl
  | processPayment =>
    rw [hc] at h
    obtain ⟨p, now, hpay, -⟩ := h
    rw [hg] at hpay
    cases hpay

theorem alone_of_pc {g : Goroutine} {p : Pc} {ok : Bool} {now : Int64} (hpc : st.pc g = p)
    (hne : p ≠ .leaving) : Alone st (.next g ok now) := by
  cases g with
  | serve c => exact fun _ hl => absurd (hpc.symm.trans hl) hne
  | pay j => trivial

namespace Quiet

theorem goto {g : Goroutine} {p : Pc}
    (hp : ∀ c, g = .serve c → p.isFinished = (st.pc g).isFinished) : Quiet st (st.goto g p) :=
  .of_eq rfl rfl (tornDown_goto hp) fun _ => ⟨rfl, rfl⟩

theorem accept (hr : Registry st) (userID : String) : Quiet st (st.accept userID) := by
  refine ⟨rfl, rfl, fun c hc => ?_⟩
  have hne := (hr.lt_conns hc).ne
  unfold Relay.accept tornDown
  simp only [update_of_ne hne, update_of_ne fun he => hne (Goroutine.serve.inj he)]
  exact ⟨trivial, trivial, trivial⟩

theorem readFrame {c : ℕ} (hpc : st.pc (.serve c) = .reading) (data : Bytes) :
    Quiet st (st.readFrame J c data) := by
  refine .of_eq rfl rfl (fun d => ?_) fun _ => ⟨rfl, rfl⟩
  unfold Relay.readFrame
  exact tornDown_goto (fun _ _ => by rw [hpc]; split <;> rfl) d

theorem drain {c : ℕ} (hpc : st.pc (.serve c) = .querying) (ok : Bool) :
    Quiet st (st.drain J c ok) := by
  unfold Relay.drain
  split
  · exact .of_eq rfl rfl (tornDown_goto fun _ _ => by rw [handAll_pc, hpc]; split <;> rfl)
      fun _ => ⟨handAll_id, handAll_closed⟩
  · exact goto fun _ _ => by rw [hpc]; rfl

theorem delete {c : ℕ} (hpc : st.pc (.serve c) = .deleting) (ok : Bool) :
    Quiet st (st.delete c ok) := by
  unfold Relay.delete
  split
  · exact .of_eq rfl rfl (tornDown_goto fun _ _ => by rw [hpc]; rfl) fun _ => ⟨rfl, rfl⟩
  · exact goto fun _ _ => by rw [hpc]; rfl

theorem push (hp : Provenance J st) {g : Goroutine} {s : Send} {c : ℕ}
    (hpc : st.pc g = .push s c) : Quiet st (st.push g s c) := by
  have hmade := hp.made (by rw [hpc]; rfl)
  unfold Relay.push
  split
  · exact .of_eq rfl rfl (fun _ => rfl) fun _ => ⟨rfl, rfl⟩
  split
  · exact .of_eq rfl rfl
      (tornDown_goto fun _ hg => by rw [handAll_pc, hpc, hmade.next_isFinished hg]; rfl)
      fun _ => ⟨handAll_id, handAll_closed⟩
  · exact goto fun _ _ => by rw [hpc]; rfl

theorem fallBack (hp : Provenance J st) {g : Goroutine} {s : Send} (hpc : st.pc g = .refused s)
    (ok : Bool) (now : Int64) : Quiet st (st.fallBack g s ok now) := by
  have hmade := hp.made (s := s) (by rw [hpc]; rfl)
  have hnext : ∀ c, g = .serve c → s.next.isFinished = (st.pc g).isFinished := fun _ hg => by
    rw [hpc, hmade.next_isFinished hg]; rfl
  unfold Relay.fallBack
  split
  · split
    · exact .of_eq rfl rfl (tornDown_goto hnext) fun _ => ⟨rfl, rfl⟩
    · exact goto hnext
  · exact .of_eq rfl rfl (tornDown_goto hnext) fun _ => ⟨rfl, rfl⟩

theorem processMessage {g : Goroutine} {k : ℕ} {data : Bytes} (hpc : st.pc g = .processing k data)
    (now : Int64) : Quiet st (st.processMessage J g k data now) := by
  have hreading : ∀ c, (st.goto g .reading).tornDown c = st.tornDown c :=
    tornDown_goto fun _ _ => by rw [hpc]; rfl
  have hpay : ∀ j p c, ((st.goto g .reading).goto (.pay j) p).tornDown c = st.tornDown c :=
    fun j p c => (tornDown_goto (fun _ he => by cases he) c).trans (hreading c)
  unfold Relay.processMessage
  split
  · exact .of_eq rfl rfl hreading fun _ => ⟨rfl, rfl⟩
  · simp only
    split
    · split
      · exact .of_eq rfl rfl (hpay _ _) fun _ => ⟨rfl, rfl⟩
      · exact .of_eq rfl rfl hreading fun _ => ⟨rfl, rfl⟩
    · exact goto fun _ _ => by rw [hpc]; rfl

theorem write (st : Relay) (c : ℕ) (ok : Bool) : Quiet st (st.write c ok) := by
  unfold Relay.write
  split
  · split
    · rename_i x rest hrecv
      refine .of_eq rfl rfl (fun _ => rfl) fun d => ⟨update_id (by split <;> rfl) d, ?_⟩
      by_cases hd : d = c
      · subst hd
        simp only [update_self]
        split <;> exact (Chan.recv_eq_some hrecv).2
      · simp only [update_of_ne hd]
    · exact .of_eq rfl rfl (fun _ => rfl) fun _ => ⟨rfl, rfl⟩
  · exact .of_eq rfl rfl (fun _ => rfl) fun _ => ⟨rfl, rfl⟩

end Quiet

/-- **What a step does to the map**: nothing, or it registers a connection, or
tears one down. -/
theorem step_presence (J : Json) (hr : Registry st) (hp : Provenance J st) {a : Act} :
    (Quiet st (st.step J a) ∧ Alone st a) ∨
      (∃ c ok now, a = .next (.serve c) ok now ∧ st.pc (.serve c) = .registering ∧
        st.step J a = st.register J c) ∨
      ∃ c ok now, a = .next (.serve c) ok now ∧ st.pc (.serve c) = .leaving ∧
        st.step J a = st.unregister c := by
  have hop := step_op J st a
  generalize st.step J a = st' at hop ⊢
  cases hop with
  | register hpc => exact .inr (.inl ⟨_, _, _, rfl, hpc, rfl⟩)
  | unregister hpc => exact .inr (.inr ⟨_, _, _, rfl, hpc, rfl⟩)
  | none hpc =>
    refine .inl ⟨.of_eq rfl rfl (fun _ => rfl) fun _ => ⟨rfl, rfl⟩, ?_⟩
    cases a with
    | next g ok now =>
      cases g with
      | serve c => exact fun hc hl => absurd hl ((hpc hc _ _ _ rfl).2 c rfl)
      | pay j => trivial
    | _ => trivial
  | accounts => exact .inl ⟨.of_eq rfl rfl (fun _ => rfl) fun _ => ⟨rfl, rfl⟩, trivial⟩
  | accept => exact .inl ⟨.accept hr _, trivial⟩
  | hangup hpc => exact .inl ⟨.goto fun _ _ => by rw [hpc]; rfl, trivial⟩
  | readFrame hpc => exact .inl ⟨.readFrame hpc _, trivial⟩
  | drain hpc => exact .inl ⟨.drain hpc _, alone_of_pc hpc Pc.noConfusion⟩
  | delete hpc => exact .inl ⟨.delete hpc _, alone_of_pc hpc Pc.noConfusion⟩
  | lookup hpc =>
    exact .inl ⟨.goto fun _ _ => by rw [hpc]; rfl, alone_of_pc hpc Pc.noConfusion⟩
  | check hpc =>
    refine .inl ⟨.goto fun _ _ => ?_, alone_of_pc hpc Pc.noConfusion⟩
    rw [hpc]
    unfold checked
    split
    · split <;> rfl
    · rfl
  | push hpc => exact .inl ⟨.push hp hpc, alone_of_pc hpc Pc.noConfusion⟩
  | fallBack hpc => exact .inl ⟨.fallBack hp hpc _ _, alone_of_pc hpc Pc.noConfusion⟩
  | process hpc => exact .inl ⟨.processMessage hpc _, alone_of_pc hpc Pc.noConfusion⟩
  | pay hpc => exact .inl ⟨.goto fun _ _ => by rw [hpc]; rfl, alone_of_pc hpc Pc.noConfusion⟩
  | write c ok => exact .inl ⟨.write st c ok, trivial⟩

theorem mem_openConns {id : String} {c : ℕ} :
    c ∈ st.openConns id ↔
      c ∈ st.registrations ∧ (st.client c).id = id ∧ st.tornDown c = false := by
  unfold openConns
  rw [List.mem_filter, decide_eq_true_eq]

theorem register_latest (h : Latest st) (hr : Registry st) {c : ℕ}
    (hpc : st.pc (.serve c) = .registering) : Latest (st.register J c) := by
  have hr' : Registry (st.register J c) := hr.register hpc
  have hclients : (st.register J c).clients = update st.clients (st.client c).id (some c) := rfl
  have hid : ∀ d, ((st.register J c).client d).id = (st.client d).id := fun d => by
    unfold register
    simp only [goto_client, handAll_id]
    exact update_id (by rfl) d
  have htorn : ∀ d, (st.register J c).tornDown d = st.tornDown d :=
    tornDown_goto fun _ _ => by
      change Pc.reading.isFinished = (st.pc (.serve c)).isFinished
      rw [hpc]; rfl
  have hopen : ∀ id, (st.register J c).openConns id =
      st.openConns id ++ if (st.client c).id = id then [c] else [] := fun id => by
    have hfalse : st.tornDown c = false := by unfold tornDown; rw [hpc]; rfl
    unfold openConns
    rw [show (st.register J c).registrations = st.registrations ++ [c] from rfl,
      List.filter_append]
    simp only [hid, htorn, List.filter_cons, List.filter_nil, hfalse, and_true, decide_eq_true_eq]
  intro id
  refine ⟨?_, fun d hd => ?_⟩
  · rw [hclients, hopen]
    by_cases hi : (st.client c).id = id
    · rw [if_pos hi, ← hi, update_self, List.getLast?_concat]
    · rw [if_neg hi, update_of_ne fun he => hi he.symm, List.append_nil]
      exact (h id).1
  · obtain ⟨-, hs, ho⟩ := hr'.listed id d hd
    rw [hr'.closed d hs, ho]; rfl

theorem unregister_spec (hr : Registry st) (c : ℕ) :
    (st.unregister c).clients = update st.clients (st.client c).id none ∧
      (st.unregister c).pc = update st.pc (.serve c) .finished ∧
      (st.unregister c).registrations = st.registrations ∧
      ∀ d, ((st.unregister c).client d).id = (st.client d).id := by
  unfold unregister
  simp only
  split
  · rename_i hnone
    exact ⟨by rw [← hnone, update_eq_self]; rfl, rfl, rfl, fun _ => rfl⟩
  · rename_i d hd
    obtain ⟨-, hs, ho⟩ := hr.listed _ d hd
    rw [hr.closed d hs, ho]
    exact ⟨rfl, rfl, rfl, fun e => update_id (by rfl) e⟩

theorem mem_openConns_unregister (hr : Registry st) {c d : ℕ} {id : String} :
    d ∈ (st.unregister c).openConns id ↔ d ∈ st.openConns id ∧ d ≠ c := by
  obtain ⟨-, hpc, hregs, hid⟩ := unregister_spec hr c
  rw [mem_openConns, mem_openConns, hregs, hid]
  unfold tornDown
  rw [hpc]
  by_cases hd : d = c
  · subst hd; rw [update_self]; simp [Pc.isFinished]
  · rw [update_of_ne fun he => hd (Goroutine.serve.inj he)]; simp [hd]

theorem openConns_unregister_of_ne (hr : Registry st) {c : ℕ} {id : String}
    (hne : id ≠ (st.client c).id) : (st.unregister c).openConns id = st.openConns id := by
  obtain ⟨-, hpc, hregs, hid⟩ := unregister_spec hr c
  unfold openConns tornDown
  rw [hregs, hpc]
  refine List.filter_congr fun d _ => ?_
  rw [hid]
  by_cases hd : d = c
  · subst hd; simp [hne.symm]
  · rw [update_of_ne fun he => hd (Goroutine.serve.inj he)]

/-- A connection that is torn down leaves its user's place to nobody, which is
right exactly if it was the only one. -/
theorem unregister_latest_iff (h : Latest st) (hr : Registry st) {c : ℕ}
    (hpc : st.pc (.serve c) = .leaving) :
    Latest (st.unregister c) ↔ ∀ d ∈ st.openConns (st.client c).id, d = c := by
  have hr' : Registry (st.unregister c) := hr.unregister hpc
  have hclients := (unregister_spec hr c).1
  constructor
  · intro h' d hd
    by_contra hne
    have hnone := (h' (st.client c).id).1
    rw [hclients, update_self] at hnone
    have hempty := List.getLast?_eq_none_iff.mp hnone.symm
    have hd' := (mem_openConns_unregister hr).mpr ⟨hd, hne⟩
    rw [hempty] at hd'
    exact absurd hd' List.not_mem_nil
  · intro halone id
    refine ⟨?_, fun d hd => ?_⟩
    · rw [hclients]
      by_cases hid : id = (st.client c).id
      · subst hid
        rw [update_self, eq_comm, List.getLast?_eq_none_iff, List.eq_nil_iff_forall_not_mem]
        intro d hd
        obtain ⟨hd, hne⟩ := (mem_openConns_unregister hr).mp hd
        exact hne (halone d hd)
      · rw [update_of_ne hid, openConns_unregister_of_ne hr hid]
        exact (h id).1
    · obtain ⟨-, hs, ho⟩ := hr'.listed id d hd
      rw [hr'.closed d hs, ho]; rfl

theorem start_latest : Latest start := fun _ => ⟨rfl, fun _ h => by cases h⟩

/-- **A stale connection evicts its successor**: the map holds the latest open
connection of every user, in every state of a run, exactly if every connection
is the only open one of its user when it is torn down. -/
theorem latest_iff_alone (J : Json) (acts : List Act) :
    Throughout (step J) Latest start acts ↔ Along (step J) Alone start acts := by
  refine throughout_iff_along (Sound.step J) (fun st a ⟨hr, hp⟩ h => ?_) (start_sound J)
    start_latest
  by_cases hc : st.crash = none
  case neg =>
    rw [step_crashed hc]
    refine iff_of_true h ?_
    unfold Alone
    split
    · exact fun hn => absurd hn hc
    · trivial
  rcases step_presence J hr hp (a := a) with ⟨hq, ha⟩ | ⟨c, ok, now, rfl, hpc, hst⟩ |
    ⟨c, ok, now, rfl, hpc, hst⟩
  · exact iff_of_true (h.quiet hr hq) ha
  · rw [hst]
    exact iff_of_true (register_latest h hr hpc) (alone_of_pc hpc Pc.noConfusion)
  · rw [hst, unregister_latest_iff h hr hpc]
    exact ⟨fun halone _ _ => halone, fun halone => halone hc hpc⟩

/-! ## Sending to a client that was unregistered -/

/-- The step takes the client out of the map and closes its channel. -/
def Unregisters (st : Relay) (c : ℕ) : Act → Prop
  | .next (.serve d) _ _ =>
    st.crash = none ∧ st.pc (.serve d) = .leaving ∧ st.clients (st.client d).id = some c
  | _ => False

/-- Only `unregister` closes a channel. -/
theorem step_closes (J : Json) (hr : Registry st) (hp : Provenance J st) {a : Act} {c : ℕ}
    (hs : st.Started c) (hopen : (st.client c).send.closed = false)
    (hclosed : ((st.step J a).client c).send.closed = true) : Unregisters st c a := by
  have hcr : st.crash = none := by
    by_contra hcr
    rw [step_crashed hcr, hopen] at hclosed
    cases hclosed
  have hsame : ∀ {st' : Relay}, (st'.client c).send.closed = (st.client c).send.closed →
      (st'.client c).send.closed ≠ true := fun h h' => by rw [h, hopen] at h'; cases h'
  rcases step_presence J hr hp (a := a) with ⟨hq, -⟩ | ⟨d, ok, now, rfl, -, hst⟩ |
    ⟨d, ok, now, rfl, hpc, hst⟩
  · exact absurd hclosed (hsame (hq.same c hs).2.2)
  · rw [hst] at hclosed
    refine absurd hclosed (hsame ?_)
    unfold register
    simp only [goto_client, handAll_closed]
    by_cases hd : c = d
    · subst hd; rw [update_self]
    · rw [update_of_ne hd]
  · rw [hst] at hclosed
    refine ⟨hcr, hpc, ?_⟩
    unfold unregister at hclosed
    simp only at hclosed
    split at hclosed
    · exact absurd hclosed (hsame rfl)
    · rename_i e he
      split at hclosed
      · exact absurd hclosed (hsame rfl)
      · by_cases hce : c = e
        · exact hce ▸ he
        · exact absurd hclosed (hsame (by simp only [goto_client, update_of_ne hce]))

theorem goto_push (st : Relay) {g g' : Goroutine} {p : Pc} {s : Send} {c : ℕ}
    (hp : ∀ s c, p ≠ .push s c) (h : (st.goto g' p).pc g = .push s c) : st.pc g = .push s c := by
  rw [goto_pc] at h
  by_cases hg : g = g'
  · subst hg
    rw [update_self] at h
    exact absurd h (hp s c)
  · rwa [update_of_ne hg] at h

theorem Send.next_ne_push (s : Send) (s' : Send) (c : ℕ) : s.next ≠ .push s' c := by
  unfold Send.next
  split <;> exact Pc.noConfusion

/-- A goroutine comes to a channel when it finds the client online. -/
theorem step_push (J : Json) {a : Act} {g : Goroutine} {s : Send} {c : ℕ}
    (h : (st.step J a).pc g = .push s c) :
    st.pc g = .push s c ∨ ((st.step J a).client c).online = true := by
  have hop := step_op J st a
  generalize st.step J a = st' at hop h ⊢
  cases hop with
  | none => exact .inl h
  | accounts => exact .inl h
  | accept => exact .inl (goto_push st (by simp) h)
  | hangup => exact .inl (goto_push _ (by simp) h)
  | readFrame =>
    unfold readFrame at h
    exact .inl (goto_push st (by intro s c; split <;> simp) h)
  | drain =>
    unfold drain at h
    split at h
    · exact .inl (goto_push st (by intro s c; split <;> simp) h)
    · exact .inl (goto_push _ (by simp) h)
  | delete =>
    unfold delete at h
    split at h <;> exact .inl (goto_push st (by simp) h)
  | register => exact .inl (goto_push st (by simp) h)
  | lookup => exact .inl (goto_push _ (by simp) h)
  | @check g' s' t _ _ hpc =>
    by_cases hg : g = g'
    · subst hg
      rw [goto_pc, update_self] at h
      unfold checked at h
      split at h
      · split at h
        · rename_i ho
          obtain ⟨-, rfl⟩ := Pc.push.inj h
          exact .inr ho
        · cases h
      · cases h
    · rw [goto_pc, update_of_ne hg] at h
      exact .inl h
  | push =>
    unfold push at h
    split at h
    · exact .inl h
    · split at h
      · exact .inl (goto_push st (Send.next_ne_push _) h)
      · exact .inl (goto_push _ (by simp) h)
  | fallBack =>
    unfold fallBack at h
    split at h
    · split at h <;> exact .inl (goto_push st (Send.next_ne_push _) h)
    · exact .inl (goto_push st (Send.next_ne_push _) h)
  | process =>
    unfold processMessage at h
    split at h
    · exact .inl (goto_push _ (by simp) h)
    · simp only at h
      split at h
      · split at h
        · exact .inl (goto_push _ (by simp) (goto_push (st.goto _ .reading) (by simp) h))
        · exact .inl (goto_push _ (by simp) h)
      · exact .inl (goto_push _ (by simp) h)
  | pay => exact .inl (goto_push _ (by simp) h)
  | unregister =>
    unfold unregister at h
    simp only at h
    split at h
    · exact .inl (goto_push _ (by simp) h)
    · split at h
      · exact .inl h
      · exact .inl (goto_push st (by simp) h)
  | write =>
    unfold write at h
    split at h
    · split at h <;> exact .inl h
    · exact .inl h

/-- **The interleaving behind a send on a closed channel**: since the goroutine found the
client online, the client was unregistered. -/
theorem unregistered_since_check (J : Json) (acts : List Act) {g : Goroutine} {s : Send} {c : ℕ}
    (hpush : (run J acts).pc g = .push s c) (hoff : ((run J acts).client c).online = false) :
    ∃ pre a post, acts = pre ++ a :: post ∧ (run J pre).pc g = .push s c ∧
      Unregisters (run J pre) c a := by
  have hclosed : ∀ {st : Relay}, Registry st → st.pc g = .push s c →
      (st.client c).send.closed = !(st.client c).online := fun hr h =>
    hr.closed c (hr.target g c (by rw [h]; rfl))
  induction acts using List.reverseRecOn with
  | nil => cases hpush
  | append_singleton acts a ih =>
    have hr : run J (acts ++ [a]) = (run J acts).step J a := by
      unfold run
      rw [List.foldl_append]
      rfl
    have hsound : Sound J (run J acts) := Run.invariant (Sound.step J) acts (start_sound J)
    have hreg := hsound.registry.step J (run J acts) a
    rw [hr] at hpush hoff
    obtain hbefore | hon := step_push J hpush
    · by_cases ho : ((run J acts).client c).online = true
      · refine ⟨acts, a, [], rfl, hbefore, step_closes J hsound.registry hsound.provenance
          (hsound.registry.target g c (by rw [hbefore]; rfl)) ?_ ?_⟩
        · rw [hclosed hsound.registry hbefore, ho]; rfl
        · rw [hclosed hreg hpush, hoff]; rfl
      · obtain ⟨pre, b, post, rfl, hat, hun⟩ := ih hbefore (by simpa using ho)
        exact ⟨pre, b, post ++ [a], by simp, hat, hun⟩
    · rw [hoff] at hon
      cases hon

end Relay

namespace Sample

open Relay

/-- Alice reconnects, and then her first connection is torn down. -/
def reconnect : List Act :=
  .accounts users :: connects "ta" 0 ++ connects "ta" 1 ++ [.read 0 none] ++ steps 0 1

theorem reconnect_evicts : ¬ Latest (run json reconnect) := by
  intro h
  have hplace : (run json reconnect).clients "alice" = none := by decide +kernel
  have hopen : (run json reconnect).openConns "alice" = [1] := by decide +kernel
  have := (h "alice").1
  rw [hplace, hopen] at this
  cases this

end Sample

end SecureComm.Server
