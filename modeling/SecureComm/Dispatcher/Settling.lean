import Mathlib.Algebra.BigOperators.Ring.Finset
import Mathlib.Data.Fintype.BigOperators
import SecureComm.Dispatcher.Desktop

/-!
# The desktop comes to rest

Once no more messages are sent, the threads come to rest after a number of steps that
does not depend on who takes them, and then everything that was sent was handed over:
the mutexes of the dispatchers and of the transports do not deadlock, and no worker
sleeps on beside a message.
-/

namespace SecureComm

open Function

namespace InMemoryTransport

/-- How many steps the worker takes before it sleeps, if nothing more comes in. -/
def left (t : InMemoryTransport) : ℕ :=
  match t.worker, t.queue with
  | .absent, _ | .exited, _ | .blocked, [] => 0
  | .testing, [] => 1
  | .checking, [] => 2
  | .looping, [] | .woken, [] => 3
  | .starting, [] => 4
  | .draining, queue => 4 + 2 * queue.length
  | .checking, queue | .calling _, queue => 5 + 2 * queue.length
  | .looping, queue | .woken, queue => 6 + 2 * queue.length
  | .starting, queue | .blocked, queue => 7 + 2 * queue.length
  | .testing, queue => 8 + 2 * queue.length

variable {t : InMemoryTransport}

/-- **A running worker** that neither sleeps nor is done comes nearer to its sleep. -/
theorem left_work (hr : t.running = true) (hw : t.work ≠ t) : t.work.left < t.left := by
  cases h : t.worker with
  | absent | exited | blocked => exact absurd (by simp [work, h]) hw
  | _ => cases hq : t.queue <;> simp [left, work, h, hq, hr] <;> omega

theorem left_push (hl : t.worker.locks = false) (bytes : Bytes) : (t.push bytes).left ≤ t.left + 9 := by
  cases h : t.worker <;> simp [h, Place.locks] at hl <;>
    cases hq : t.queue <;> simp [left, push, h, hq] <;> omega

theorem left_notify (t : InMemoryTransport) : t.notify.left ≤ t.left + 3 := by
  cases h : t.worker with
  | blocked =>
    cases hq : t.queue <;> simp [left, notify, h, hq, Place.notified]
    omega
  | _ => simp [left, notify, h, Place.notified]

end InMemoryTransport

/-- The steps that a thread has left until it is done, and those that it makes for the worker. -/
def Caller.left {ι : Type} : Caller ι → ℕ
  | idle => 0
  | routed .. => 14
  | pushed _ => 4

theorem sum_update {ι α : Type} [Fintype ι] [DecidableEq ι] (g : α → ℕ) (f : ι → α) (i : ι) (a : α) :
    ∑ k, g (update f i a k) + g (f i) = ∑ k, g (f k) + g a := by
  have hrest : ∑ k ∈ Finset.univ.erase i, g (update f i a k) = ∑ k ∈ Finset.univ.erase i, g (f k) :=
    Finset.sum_congr rfl fun k hk => by rw [update_of_ne (Finset.ne_of_mem_erase hk)]
  rw [← Finset.add_sum_erase _ _ (Finset.mem_univ i), ← Finset.add_sum_erase _ (fun k => g (f k))
    (Finset.mem_univ i), hrest, update_self]
  omega

namespace Desktop

open Dispatcher Run
open Network (Peered)

variable {ι τ : Type}

/-- A step of a thread that is sending, or of a worker. -/
def Event.OfThread : Event ι τ → Prop
  | .push _ | .notify _ | .work _ => True
  | _ => False

/-- A bound on the steps that the threads have left. -/
def left [Fintype ι] [Fintype τ] (s : Desktop ι τ) : ℕ :=
  ∑ i, (s.sys.transport i).left + ∑ t, (s.sys.caller t).left

/-- The transports are started, and no wake-up for a message is lost. -/
structure Running (s : Desktop ι τ) : Prop where
  attended : ∀ j, s.sys.Attended j
  owner : ∀ j, s.sys.owner j = .idle
  running : ∀ j, (s.sys.transport j).running = true

theorem start_running (S : Sodium) (ids : ι → Bytes) (mls : ι → MLSManager)
    (calls : ι → List Peering) (peer : ι → ι) :
    (start S ids mls calls peer : Desktop ι τ).Running where
  attended _ := ⟨fun _ => ⟨fun _ => by simp [start, connected], fun hn => absurd rfl hn, fun he => by cases he⟩,
    fun hw => absurd hw (by simp [start, connected, Transports.condition, Place.waiter]), fun h => h.waits rfl⟩
  owner _ := rfl
  running _ := rfl

variable [DecidableEq ι] [DecidableEq τ] {S : Sodium} {s : Desktop ι τ}

theorem running_sys {e : Transports.Event ι τ} {s : Transports ι τ} {j : ι} (ho : s.owner j = .idle)
    (hr : (s.transport j).running = true) (hstop : e ≠ .stop j) :
    (s.step e).owner j = .idle ∧ ((s.step e).transport j).running = true := by
  have hdoes := s.does j e
  generalize (s.step e).transport j = t', (s.step e).owner j = o' at hdoes ⊢
  cases hdoes with
  | stop => exact absurd rfl hstop
  | notifyAll hn | join hn => simp [ho] at hn
  | start => exact ⟨rfl, by simp [InMemoryTransport.start, hr]⟩
  | work => exact ⟨ho, (s.transport j).running_work.trans hr⟩
  | _ => exact ⟨ho, hr⟩

theorem Running.step (h : s.Running) (e : Event ι τ) : (s.step S e).Running := by
  have hsys (e : Transports.Event ι τ) (he : ∀ j, e ≠ .stop j) (s' : Desktop ι τ)
      (hs' : s'.sys = s.sys.step e) : s'.Running := by
    refine ⟨fun j => hs' ▸ (h.attended j).step e, fun j => ?_, fun j => ?_⟩
    · rw [hs']
      exact (running_sys (h.owner j) (h.running j) (he j)).1
    · rw [hs']
      exact (running_sys (h.owner j) (h.running j) (he j)).2
  cases e with
  | send t i remote pt draw =>
    simp only [Desktop.step]
    split
    · split
      · rename_i frame _
        exact hsys (.send t i frame) (by simp) _ rfl
      · exact ⟨h.attended, h.owner, h.running⟩
    · exact h
  | push t => exact hsys (.push t) (by simp) _ rfl
  | notify t =>
    simp only [Desktop.step]
    split
    · exact hsys (.notify t) (by simp) _ rfl
    · exact h
  | work i =>
    simp only [Desktop.step]
    split
    · split
      · exact hsys (.work i) (by simp) _ rfl
      · exact h
    · exact hsys (.work i) (by simp) _ rfl
  | wake i => exact hsys (.wake i) (by simp) _ rfl

/-! ## Fewer and fewer steps -/

section left

variable [Fintype ι] [Fintype τ]

omit [DecidableEq τ] in
theorem left_worker {i : ι} {f : InMemoryTransport → InMemoryTransport}
    {s' : Desktop ι τ} (hsys : s'.sys = s.sys.modify i f)
    (hlt : (f (s.sys.transport i)).left < (s.sys.transport i).left) : s'.left < s.left := by
  have htransport := sum_update InMemoryTransport.left s.sys.transport i (f (s.sys.transport i))
  simp only [left, hsys, Transports.modify]
  omega

theorem left_thread {t : τ} {i : ι} {f : InMemoryTransport → InMemoryTransport}
    {c : Caller ι} {s' : Desktop ι τ}
    (hsys : s'.sys = { s.sys.modify i f with caller := update s.sys.caller t c })
    (hlt : (f (s.sys.transport i)).left + c.left < (s.sys.transport i).left + (s.sys.caller t).left) :
    s'.left < s.left := by
  have htransport := sum_update InMemoryTransport.left s.sys.transport i (f (s.sys.transport i))
  have hcaller := sum_update Caller.left s.sys.caller t c
  simp only [left, hsys, Transports.modify]
  omega

/-- **A step that a thread really takes** brings the desktop nearer to its rest. -/
theorem Running.left_step (h : s.Running) {e : Event ι τ} (he : e.OfThread) (hne : s.step S e ≠ s) :
    (s.step S e).left < s.left := by
  cases e with
  | send => exact he.elim
  | wake => exact he.elim
  | push t =>
    rcases hc : s.sys.caller t with _ | ⟨j, frame⟩ | _
    · exact absurd (by simp [Desktop.step, Transports.step, hc]) hne
    · by_cases hl : (s.sys.transport j).worker.locks = true
      · exact absurd (by simp [Desktop.step, Transports.step, hc, hl]) hne
      · have hpush := InMemoryTransport.left_push (by simpa using hl) frame
        refine left_thread (t := t) (i := j) (f := (·.push frame)) (c := .pushed j) ?_ ?_
        · simp [Desktop.step, Transports.step, hc, hl]
        · simp only [hc, Caller.left]
          omega
    · exact absurd (by simp [Desktop.step, Transports.step, hc]) hne
  | notify t =>
    rcases hc : s.sys.caller t with _ | _ | j
    · exact absurd (by simp [Desktop.step, hc]) hne
    · exact absurd (by simp [Desktop.step, hc]) hne
    · have hnotify := (s.sys.transport j).left_notify
      refine left_thread (t := t) (i := j) (f := .notify) (c := .idle) ?_ ?_
      · simp [Desktop.step, Transports.step, hc]
      · simp only [hc, Caller.left]
        omega
  | work i =>
    have hsys : (s.step S (.work i)).sys = s.sys.modify i .work ∨ s.step S (.work i) = s := by
      simp only [Desktop.step]
      split
      · split
        · exact .inl rfl
        · exact .inr rfl
      · exact .inl rfl
    rcases hsys with hsys | hsame
    · refine left_worker hsys (InMemoryTransport.left_work (h.running i) fun hw => hne ?_)
      -- the worker does nothing, so it was not handing a frame over
      have hidle (frame : Bytes) : (s.sys.transport i).worker ≠ .calling frame := fun hc => by
        have hplace := congrArg (·.worker) hw
        simp [InMemoryTransport.work, hc] at hplace
      simp only [Desktop.step]
      simp [Transports.step, Transports.modify, hw]
    · exact absurd hsame hne

end left

/-! ## At rest -/

/-- No thread can take a step. -/
def AtRest (S : Sodium) (s : Desktop ι τ) : Prop := ∀ e : Event ι τ, e.OfThread → s.step S e = s

theorem AtRest.work (h : s.AtRest S) {i : ι} (hcall : ∀ frame, (s.sys.transport i).worker ≠ .calling frame) :
    (s.sys.transport i).work = s.sys.transport i := by
  have hstep : (s.step S (.work i)).sys = s.sys.modify i .work := by
    simp only [Desktop.step]
    rfl
  have hsame := congrArg (fun s => s.sys.transport i) (h (.work i) trivial)
  simp only [hstep, Transports.modify_transport_self] at hsame
  exact hsame

/-- **No deadlock**: at rest no thread is sending, and every worker sleeps beside an empty
queue. -/
theorem AtRest.quiet {peer : ι → ι} (h : s.AtRest S) (hrun : s.Running) (hlanes : s.Lanes peer) :
    (∀ i, s.holder i = none) ∧ ∀ i, (s.sys.transport i).content = [] := by
  have hidle (t : τ) : s.sys.caller t = .idle := by
    rcases hc : s.sys.caller t with _ | ⟨j, frame⟩ | j
    · rfl
    · -- a push waits for a worker that has the mutex, and such a worker goes on
      exfalso
      by_cases hl : (s.sys.transport j).worker.locks = true
      · have hwork := congrArg (·.worker) (h.work (i := j) fun frame hw => by simp [hw, Place.locks] at hl)
        cases hp : (s.sys.transport j).worker <;> simp [hp, Place.locks] at hl
        · cases hr : (s.sys.transport j).running <;> simp [InMemoryTransport.work, hp, hr] at hwork
        · simp only [InMemoryTransport.work, hp] at hwork
          split at hwork <;> cases hwork
        · simp [InMemoryTransport.work, hp] at hwork
        · cases hq : (s.sys.transport j).queue <;> simp [InMemoryTransport.work, hp, hq] at hwork
      · have hpush := congrArg (fun s => s.sys.caller t) (h (.push t) trivial)
        simp [Desktop.step, Transports.step, hc, hl] at hpush
    · have hnotify := congrArg (fun s => s.sys.caller t) (h (.notify t) trivial)
      simp [Desktop.step, Transports.step, hc] at hnotify
  have hfree (i : ι) : s.holder i = none := by
    rcases hi : s.holder i with _ | t
    · rfl
    · rcases hlanes.busy i t hi with ⟨f, hc⟩ | hc <;> cases (hidle t).symm.trans hc
  refine ⟨hfree, fun i => ?_⟩
  have hcall (frame : Bytes) : (s.sys.transport i).worker ≠ .calling frame := fun hw => by
    have hstep := congrArg (fun s => (s.sys.transport i).worker) (h (.work i) trivial)
    simp [Desktop.step, hw, hfree, Transports.step, Transports.modify, InMemoryTransport.work] at hstep
  have hwork := congrArg (·.worker) (h.work hcall)
  have howned := (hrun.attended i).owned i
  have hblocked : (s.sys.transport i).worker = .blocked := by
    cases hp : (s.sys.transport i).worker with
    | blocked => rfl
    | absent => exact absurd hp ((howned.idle (hrun.owner i)).mp (hrun.running i))
    | exited => exact absurd (howned.exited hp) (by simp [hrun.running i])
    | calling frame => exact absurd hp (hcall frame)
    | looping => simp [InMemoryTransport.work, hp, hrun.running i] at hwork
    | checking =>
      simp only [InMemoryTransport.work, hp] at hwork
      split at hwork <;> cases hwork
    | draining => cases hq : (s.sys.transport i).queue <;> simp [InMemoryTransport.work, hp, hq] at hwork
    | _ => simp [InMemoryTransport.work, hp] at hwork
  have hqueue : (s.sys.transport i).queue = [] := by
    by_contra hq
    refine (hrun.attended i).kept ⟨?_, .inl hq, Set.eq_empty_of_forall_notMem fun t ht => ?_⟩
    · simp [Transports.condition, hblocked, Place.waiter]
    · cases (hidle t).symm.trans ht
  simp [InMemoryTransport.content, hblocked, Place.inHand, hqueue]

theorem sent_thread {e : Event ι τ} (he : e.OfThread) : (s.step S e).sent = s.sent := by
  cases e with
  | send | wake => exact he.elim
  | push t => rfl
  | notify t | work i =>
    simp only [Desktop.step]
    split <;> (try split) <;> rfl

/-- What the threads do of their own accord. -/
def Takes (S : Sodium) (s : Desktop ι τ) (e : Event ι τ) : Prop := e.OfThread ∧ s.step S e ≠ s

variable {ids : ι → Bytes} {mls : ι → MLSManager} {calls : ι → List Peering} {peer : ι → ι}

omit [DecidableEq ι] [DecidableEq τ] in
theorem Event.OfThread.genuine {e : Event ι τ} (he : e.OfThread) : Genuine S ids calls peer s e := by
  cases e with
  | send => exact he.elim
  | _ => trivial

/-- **Everything is delivered**: whatever was sent before, when no more is sent the threads take
no more steps than `left` counts, in whatever order, and when none of them can take another the
callback of every dispatcher was invoked with all that its peer has sent, in that order. -/
theorem settles [Fintype ι] [Fintype τ] (hS : S.AeadOpens) (hids : Injective ids)
    (hpeer : Involutive peer)
    (hgroup : ∀ i j root, Peered ids calls root i j →
      (mls j).getGroupEpoch (sessionIdFor S (ids i) (ids j) root) = 0) {es : List (Event ι τ)}
    (hg : Along (Desktop.step S) (Genuine S ids calls peer) (start S ids mls calls peer) es) :
    let s := es.foldl (Desktop.step S) (start S ids mls calls peer)
    ∀ fs, Along (Desktop.step S) (Takes S) s fs →
      let s' := fs.foldl (Desktop.step S) s
      fs.length ≤ s.left ∧ (s'.AtRest S → ∀ i,
        (s'.inbox (peer i)).map (·.ciphertext) = (s.sent i).map Prod.fst) := by
  intro s fs hfs s'
  obtain ⟨pub, hstart⟩ := @start_follows ι τ S ids mls calls peer
  have hfollows := hg.invariant
    (I := fun s => ∃ net envs, Follows S ids mls calls peer pub s net envs)
    (fun _ _ hg ⟨_, _, h⟩ => h.step hS hids hpeer hgroup hg) ⟨_, _, hstart⟩
  have hrun : s.Running := Run.invariant (I := fun s : Desktop ι τ => s.Running) (fun _ e h => h.step e) es
    (start_running S ids mls calls peer)
  refine ⟨hfs.length_le (I := fun s => s.Running) (fun s e _ h => Running.step h e)
    (fun s e he h => Running.left_step h he.1 he.2) hrun, fun hrest i => ?_⟩
  obtain ⟨⟨net, envs, h⟩, hrun', hsent⟩ := hfs.invariant
    (I := fun x => (∃ net envs, Follows S ids mls calls peer pub x net envs) ∧ x.Running ∧ x.sent = s.sent)
    (fun x e he ⟨⟨net, envs, h⟩, hr, hs⟩ => ⟨h.step hS hids hpeer hgroup he.1.genuine, hr.step e,
      (sent_thread he.1).trans hs⟩) ⟨hfollows, hrun, rfl⟩
  obtain ⟨hfree, hcontent⟩ := hrest.quiet hrun' h.lanes
  -- nothing is on the way
  have hflight := h.lanes.flight i
  rw [Flight, hcontent, carried, hfree, List.nil_append] at hflight
  have hall := List.drop_eq_nil_iff.mp (List.map_eq_nil_iff.mp hflight)
  rw [h.handed i, List.take_of_length_le hall, hsent]

/-! ## A message on its way -/

/-- The worker of the transport goes on. -/
def Moves (y : Transports ι τ) (i : ι) : Prop :=
  ((y.step (.work i)).transport i).worker ≠ (y.transport i).worker

/-- While no thread is sending, the workers do as they would without dispatchers. -/
theorem works_run {l : List ι} (hfree : ∀ i, s.holder i = none)
    (h : Along (fun y i => y.step (.work i)) Moves s.sys l) :
    let s' := (l.map Event.work).foldl (Desktop.step S) s
    Along (Desktop.step S) (Takes S) s (l.map Event.work) ∧
      s'.sys = l.foldl (fun y i => y.step (.work i)) s.sys ∧ ∀ i, s'.holder i = none := by
  induction l generalizing s with
  | nil => exact ⟨trivial, rfl, hfree⟩
  | cons i l ih =>
    have hstep : (s.step S (.work i)).sys = s.sys.step (.work i) ∧
        (s.step S (.work i)).holder = s.holder := by
      simp only [Desktop.step, hfree, true_or, if_true]
      split <;> exact ⟨rfl, rfl⟩
    obtain ⟨hsys, hholder⟩ := hstep
    obtain ⟨hmoves, hrest⟩ := h
    have hrest : Along (fun y i => y.step (.work i)) Moves (s.step S (.work i)).sys l := by
      rw [hsys]
      exact hrest
    obtain ⟨hrun, hend, hfree'⟩ := ih (s := s.step S (.work i)) (fun k => hholder ▸ hfree k) hrest
    rw [hsys] at hend
    refine ⟨⟨⟨trivial, fun hsame => hmoves ?_⟩, hrun⟩, hend, hfree'⟩
    rw [← hsys, hsame]

instance : Fintype Side := ⟨{.alice, .bob}, fun i => by cases i <;> decide⟩

/-- The transports of alice and bob while no thread is sending. -/
def samplePair (a b : InMemoryTransport) : Transports Side Unit where
  bridge := (connected Side.peer : Transports Side Unit).bridge
  transport
    | .alice => a
    | .bob => b

section samplePair

variable (a b : InMemoryTransport)

@[simp] theorem samplePair_transport_alice : (samplePair a b).transport .alice = a := rfl
@[simp] theorem samplePair_transport_bob : (samplePair a b).transport .bob = b := rfl

@[simp] theorem samplePair_alice :
    (samplePair a b).step (.work .alice) = samplePair a.work b := by
  have h : update (samplePair a b).transport .alice a.work = (samplePair a.work b).transport := by
    funext i
    cases i <;> rfl
  simpa [Transports.step, Transports.modify, samplePair] using h

@[simp] theorem samplePair_bob :
    (samplePair a b).step (.work .bob) = samplePair a b.work := by
  have h : update (samplePair a b).transport .bob b.work = (samplePair a b.work).transport := by
    funext i
    cases i <;> rfl
  simpa [Transports.step, Transports.modify, samplePair] using h

end samplePair

/-- Alice has sent bob a message, and her thread is done. -/
def sampleEvents : List (Event Side Unit) := [sampleHello, .push (), .notify ()]

theorem sampleEvents_run : ∃ frame,
    let s := sampleEvents.foldl (Desktop.step Sodium.sample) sampleDesktop
    s.sys = samplePair ⟨[], true, true, .starting⟩ ⟨[frame], true, true, .starting⟩ ∧
      (∀ i, s.holder i = none) ∧ s.sent .alice = [(Network.samplePlaintext, frame)] := by
  obtain ⟨d, frame, hsent⟩ := sampleHello_sent
  refine ⟨frame, ?_⟩
  simp only [sampleEvents, List.foldl_cons, List.foldl_nil, hsent]
  refine ⟨?_, fun i => by cases i <;> rfl, rfl⟩
  have htransport : (((sampleDesktop.sys.step (.send () .alice frame)).step (.push ())).step
      (.notify ())).transport =
        (samplePair ⟨[], true, true, .starting⟩ ⟨[frame], true, true, .starting⟩).transport := by
    funext i
    cases i <;> rfl
  have hcaller : (((sampleDesktop.sys.step (.send () .alice frame)).step (.push ())).step
      (.notify ())).caller = fun _ => .idle := by
    funext t
    rfl
  show (⟨_, (((sampleDesktop.sys.step (.send () .alice frame)).step (.push ())).step
    (.notify ())).transport, (((sampleDesktop.sys.step (.send () .alice frame)).step (.push ())).step
    (.notify ())).caller, _⟩ : Transports Side Unit) = _
  rw [htransport, hcaller]
  rfl

theorem sample_atRest {s : Desktop Side Unit}
    (h : s.sys = samplePair ⟨[], true, true, .blocked⟩ ⟨[], true, true, .blocked⟩) : s.AtRest S := by
  have hsame {e : Transports.Event Side Unit} (he : s.sys.step e = s.sys) :
      { s with sys := s.sys.step e } = s := by rw [he]
  intro e he
  cases e with
  | send | wake => exact he.elim
  | push t => exact hsame (by rw [h]; rfl)
  | notify t =>
    have hidle : s.sys.caller t = .idle := by rw [h]; rfl
    simp only [Desktop.step, hidle]
  | work i =>
    have hwork : s.sys.step (.work i) = s.sys := by
      rw [h]
      cases i
      · exact samplePair_alice _ _
      · exact samplePair_bob _ _
    have hblocked : (s.sys.transport i).worker = .blocked := by
      rw [h]
      cases i <;> rfl
    simp only [Desktop.step, hblocked]
    exact hsame hwork

/-- The workers, until both sleep: bob's hands the message over. -/
def sampleWorks : List Side := List.replicate 9 .bob ++ List.replicate 4 .alice

/-- **Bob's callback is invoked with the message.** -/
theorem settles_sample :
    let s := sampleEvents.foldl (Desktop.step Sodium.sample) sampleDesktop
    let s' := (sampleWorks.map Event.work).foldl (Desktop.step Sodium.sample) s
    (s'.inbox (Side.peer .alice)).map (·.ciphertext) = (s.sent .alice).map Prod.fst ∧
      (s.sent .alice).map Prod.fst = [Network.samplePlaintext] := by
  obtain ⟨frame, hsys, hfree, hsent⟩ := sampleEvents_run
  have hmoves : Along (fun y i => y.step (.work i)) Moves
      (sampleEvents.foldl (Desktop.step Sodium.sample) sampleDesktop).sys sampleWorks := by
    rw [hsys]
    simp [Along, Moves, InMemoryTransport.work, sampleWorks, List.replicate]
  obtain ⟨htakes, hend, -⟩ := works_run (S := Sodium.sample) hfree hmoves
  have hpair : sampleWorks.foldl (fun y i => y.step (.work i))
      (samplePair ⟨[], true, true, .starting⟩ ⟨[frame], true, true, .starting⟩) =
        samplePair ⟨[], true, true, .blocked⟩ ⟨[], true, true, .blocked⟩ := by
    simp [InMemoryTransport.work, sampleWorks, List.replicate]
  have hpeer : Involutive Side.peer := fun i => by cases i <;> rfl
  have hg : Along (Desktop.step Sodium.sample)
      (Genuine Sodium.sample Network.sampleIds Network.sampleCalls Side.peer) sampleDesktop
      sampleEvents := ⟨sampleHello_genuine, trivial, trivial, trivial⟩
  have h := settles Sodium.sample_ideal.opens Network.sampleIds_injective hpeer sample_group hg
    (sampleWorks.map Event.work) htakes
  rw [hsys, hpair] at hend
  unfold sampleDesktop at hend hsent ⊢
  exact ⟨h.2 (sample_atRest hend) .alice, congrArg (List.map Prod.fst) hsent⟩

end Desktop

end SecureComm
