import SecureComm.Mesh.Delivery
import SecureComm.Offline.Dispatcher

/-!
# What the discovery loop knows

Whenever and however often the mesh is started and stopped, its peers are those
that were discovered and have not timed out since (`run_known`). A thread counts
its rounds from zero and every third of its peers has internet; as long as one
thread goes on without a long pause there is such a peer from its round 21 on,
and until then there is none (`run_internet_iff`).
-/

namespace SecureComm

open Run

/-- What the discovery loop does to the peers: it discovers one, or it has compared all with
the clock. -/
inductive Sighting where
  | discovered (peer : MeshPeer)
  | swept (now : UInt64)

/-- The place of the discovery thread. -/
structure Rounds where
  counter : ℕ := 0
  /-- It has found the mesh running. -/
  entered : Bool := false

/-- A mesh with its discovery thread, the peers that the callback was told of and what has become
of the peers, the last first. The callback is one that leaves the mesh alone. -/
structure Scout (κ : Type) where
  loop : Loop κ
  thread : Option Rounds := none
  told : List MeshPeer := []
  log : List Sighting := []

namespace Scout

variable {κ : Type}

inductive Event where
  | start
  | stop
  /-- The discovery loop looks whether the mesh is running. -/
  | look
  /-- A round of it, with the clock at its start and after its callback. -/
  | round (now later : UInt64)
  /-- A packet is queued, or the routing loop takes a step. -/
  | packets (ev : Loop.Event)

/-- A start while `stop` waits for the threads comes to nothing here. -/
def start (s : Scout κ) : Scout κ :=
  if s.loop.mesh.running ∨ s.thread.isSome then s
  else { s with loop := { s.loop with mesh := s.loop.mesh.start }, thread := some {} }

def look (s : Scout κ) : Scout κ :=
  match s.thread with
  | some r =>
    if r.entered then s
    else { s with thread := if s.loop.mesh.running then some { r with entered := true } else none }
  | none => s

def sweep (s : Scout κ) (counter : ℕ) (now later : UInt64) : Scout κ :=
  { s with
    loop := { s.loop with mesh := (s.loop.mesh.discover counter now).1.dropOld later }
    thread := some { counter := counter + 1 }
    told := (if s.loop.mesh.onPeerDiscovered.isSome then
      (s.loop.mesh.discover counter now).2.toList else []) ++ s.told
    log := .swept later ::
      ((s.loop.mesh.discover counter now).2.toList.map Sighting.discovered ++ s.log) }

def round (s : Scout κ) (now later : UInt64) : Scout κ :=
  match s.thread with
  | some r => if r.entered then s.sweep r.counter now later else s
  | none => s

def step (s : Scout κ) : Event → Scout κ
  | .start => s.start
  | .stop => { s with loop := { s.loop with mesh := s.loop.mesh.stop } }
  | .look => s.look
  | .round now later => s.round now later
  | .packets ev => { s with loop := s.loop.step ev }

def fresh (deviceId : Bytes) (cb : κ) : Scout κ :=
  { loop := { mesh := { deviceId, onPeerDiscovered := some cb } } }

/-- The peer was discovered, and every sweep since has found it seen within five minutes. The
difference is one of unsigned words: a peer from the future has timed out. -/
def Current (log : List Sighting) (p : MeshPeer) : Prop :=
  ∃ after before, log = after ++ .discovered p :: before ∧
    ∀ now, .swept now ∈ after → now - p.lastSeen ≤ 300

theorem not_current_nil (p : MeshPeer) : ¬ Current [] p := by
  rintro ⟨after, before, h, -⟩
  exact absurd h.symm (List.append_ne_nil_of_right_ne_nil _ (List.cons_ne_nil _ _))

theorem current_discovered_iff {log : List Sighting} {p q : MeshPeer} :
    Current (.discovered p :: log) q ↔ q = p ∨ Current log q := by
  constructor
  · rintro ⟨_ | ⟨e, after⟩, before, h, htime⟩
    · obtain ⟨he, -⟩ := List.cons.inj h
      exact .inl (Sighting.discovered.inj he).symm
    · exact .inr ⟨after, before, (List.cons.inj h).2,
        fun now hnow => htime now (List.mem_cons_of_mem _ hnow)⟩
  · rintro (rfl | ⟨after, before, rfl, htime⟩)
    · exact ⟨[], log, rfl, nofun⟩
    · refine ⟨.discovered p :: after, before, rfl, fun now hnow => htime now ?_⟩
      exact (List.mem_cons.mp hnow).resolve_left nofun

theorem current_swept_iff {log : List Sighting} {now : UInt64} {q : MeshPeer} :
    Current (.swept now :: log) q ↔ Current log q ∧ now - q.lastSeen ≤ 300 := by
  constructor
  · rintro ⟨_ | ⟨e, after⟩, before, h, htime⟩
    · cases (List.cons.inj h).1
    · obtain ⟨rfl, htail⟩ := List.cons.inj h
      exact ⟨⟨after, before, htail, fun t ht => htime t (List.mem_cons_of_mem _ ht)⟩,
        htime now List.mem_cons_self⟩
  · rintro ⟨⟨after, before, rfl, htime⟩, hnow⟩
    refine ⟨.swept now :: after, before, rfl, fun t ht => ?_⟩
    rcases List.mem_cons.mp ht with ht | ht
    · cases ht
      exact hnow
    · exact htime t ht

/-! ## One round -/

theorem lookup_dropOld (t : MeshNetwork κ) (now : UInt64) (id : Bytes) (p : MeshPeer) :
    (t.dropOld now).peers.lookup id = some p ↔
      t.peers.lookup id = some p ∧ now - p.lastSeen ≤ 300 := by
  have hentries : ∀ table : Table Bytes MeshPeer,
      table.lookup id = some p ↔ ⟨id, p⟩ ∈ table.entries := fun _ => AList.mem_lookup_iff
  rw [hentries, hentries, MeshNetwork.dropOld, List.mem_filter, decide_eq_true_iff, gt_iff_lt,
    UInt64.not_lt]

/-- A peer is discovered in its turn, unless there is one of its name. -/
theorem discover_cases (t : MeshNetwork κ) (counter : ℕ) (now : UInt64) :
    ((counter % 10 = 0 ∧ (MeshNetwork.simulatedPeer (counter + 1) now).meshId ∉ t.peers) ∧
      t.discover counter now =
        ({ t with
            peers := t.peers.insert (MeshNetwork.simulatedPeer (counter + 1) now).meshId
              (MeshNetwork.simulatedPeer (counter + 1) now) },
          some (MeshNetwork.simulatedPeer (counter + 1) now))) ∨
    (¬ (counter % 10 = 0 ∧ (MeshNetwork.simulatedPeer (counter + 1) now).meshId ∉ t.peers) ∧
      t.discover counter now = (t, none)) := by
  unfold MeshNetwork.discover
  by_cases hturn : counter % 10 = 0
  · by_cases hmem : (MeshNetwork.simulatedPeer (counter + 1) now).meshId ∈ t.peers
    · exact .inr ⟨fun h => h.2 hmem, by simp only [if_pos hturn, if_pos hmem]⟩
    · exact .inl ⟨⟨hturn, hmem⟩, by simp only [if_pos hturn, if_neg hmem]⟩
  · exact .inr ⟨fun h => hturn h.1, by simp only [if_neg hturn]⟩

/-- The peers are the current ones, and each is discovered when none of its name is current. -/
structure Known (s : Scout κ) : Prop where
  callback : s.loop.mesh.onPeerDiscovered.isSome = true
  lookup : ∀ id p, s.loop.mesh.peers.lookup id = some p ↔ p.meshId = id ∧ Current s.log p
  anew : ∀ after p before, s.log = after ++ .discovered p :: before →
    ∀ q, Current before q → q.meshId ≠ p.meshId
  told : s.told = s.log.filterMap fun
    | .discovered p => some p
    | .swept _ => none

variable {s : Scout κ}

theorem known_fresh (deviceId : Bytes) (cb : κ) : Known (fresh deviceId cb) where
  callback := rfl
  lookup _ p := iff_of_false nofun fun h => not_current_nil p h.2
  anew _ _ _ h := absurd h.symm (List.append_ne_nil_of_right_ne_nil _ (List.cons_ne_nil _ _))
  told := rfl

theorem Known.not_mem_iff (h : Known s) (id : Bytes) :
    id ∉ s.loop.mesh.peers ↔ ∀ p, Current s.log p → p.meshId ≠ id := by
  rw [← AList.lookup_eq_none]
  constructor
  · intro hnone p hp hid
    cases hnone.symm.trans ((h.lookup id p).mpr ⟨hid, hp⟩)
  · intro hfree
    rcases hl : s.loop.mesh.peers.lookup id with _ | p
    · rfl
    · obtain ⟨hid, hp⟩ := (h.lookup id p).mp hl
      exact absurd hid (hfree p hp)

theorem anew_swept {log : List Sighting}
    (h : ∀ after p before, log = after ++ .discovered p :: before →
      ∀ q, Current before q → q.meshId ≠ p.meshId) (now : UInt64) :
    ∀ after p before, .swept now :: log = after ++ .discovered p :: before →
      ∀ q, Current before q → q.meshId ≠ p.meshId := by
  intro after p before he
  rcases after with _ | ⟨e, after⟩
  · cases (List.cons.inj he).1
  · exact h after p before (List.cons.inj he).2

theorem Known.sweep (h : Known s) (counter : ℕ) (now later : UInt64) :
    Known (s.sweep counter now later) := by
  rcases discover_cases s.loop.mesh counter now with ⟨⟨-, hnew⟩, he⟩ | ⟨-, he⟩
  · set peer := MeshNetwork.simulatedPeer (counter + 1) now
    have hfree := (h.not_mem_iff _).mp hnew
    have hlog : (s.sweep counter now later).log = .swept later :: .discovered peer :: s.log := by
      simp [Scout.sweep, he]
    refine ⟨?_, fun id p => ?_, ?_, ?_⟩
    · simp only [Scout.sweep, he]
      exact h.callback
    · show ((s.loop.mesh.discover counter now).1.dropOld later).peers.lookup id = some p ↔ _
      rw [hlog, lookup_dropOld, he, current_swept_iff, current_discovered_iff, ← and_assoc]
      refine and_congr_left fun _ => ?_
      show (s.loop.mesh.peers.insert peer.meshId peer).lookup id = some p ↔ _
      by_cases hid : id = peer.meshId
      · rw [hid, AList.lookup_insert, Option.some.injEq]
        constructor
        · rintro rfl
          exact ⟨rfl, .inl rfl⟩
        · rintro ⟨hp, hp' | hp'⟩
          · exact hp'.symm
          · exact absurd hp (hfree p hp')
      · rw [AList.lookup_insert_ne hid, h.lookup]
        refine and_congr_right fun hp => (or_iff_right ?_).symm
        rintro rfl
        exact hid hp.symm
    · rw [hlog]
      refine anew_swept (fun after p before hp => ?_) later
      rcases after with _ | ⟨e, after⟩
      · obtain ⟨hpeer, rfl⟩ := List.cons.inj hp
        rw [← Sighting.discovered.inj hpeer]
        exact hfree
      · exact h.anew after p before (List.cons.inj hp).2
    · rw [hlog]
      simp only [Scout.sweep, he, if_pos h.callback, h.told]
      rfl
  · have hlog : (s.sweep counter now later).log = .swept later :: s.log := by
      simp [Scout.sweep, he]
    refine ⟨?_, fun id p => ?_, ?_, ?_⟩
    · simp only [Scout.sweep, he]
      exact h.callback
    · show ((s.loop.mesh.discover counter now).1.dropOld later).peers.lookup id = some p ↔ _
      rw [hlog, lookup_dropOld, he, current_swept_iff, h.lookup, and_assoc]
    · rw [hlog]
      exact anew_swept h.anew later
    · rw [hlog]
      simp only [Scout.sweep, he, if_pos h.callback, h.told]
      rfl

theorem Known.of_eq (h : Known s) {s' : Scout κ} (hpeers : s'.loop.mesh.peers = s.loop.mesh.peers)
    (hcallback : s'.loop.mesh.onPeerDiscovered = s.loop.mesh.onPeerDiscovered)
    (htold : s'.told = s.told) (hlog : s'.log = s.log) : Known s' where
  callback := hcallback ▸ h.callback
  lookup := by
    rw [hpeers, hlog]
    exact h.lookup
  anew := by
    rw [hlog]
    exact h.anew
  told := by
    rw [htold, hlog]
    exact h.told

/-- Packets have nothing to do with peers. -/
theorem loop_step_eq (l : Loop κ) (ev : Loop.Event) : (l.step ev).mesh.peers = l.mesh.peers ∧
    (l.step ev).mesh.onPeerDiscovered = l.mesh.onPeerDiscovered ∧
    (l.step ev).mesh.running = l.mesh.running := by
  cases ev with
  | queue p => exact ⟨rfl, rfl, rfl⟩
  | routing =>
    show (Loop.routing l).mesh.peers = _ ∧ (Loop.routing l).mesh.onPeerDiscovered = _ ∧
      (Loop.routing l).mesh.running = _
    unfold Loop.routing
    split
    · rename_i p _
      obtain ⟨seen, hmesh⟩ := l.mesh.exists_route_eq p
      simp only [hmesh, and_self]
    · split
      · obtain ⟨queue, hmesh⟩ := l.mesh.exists_dequeue_eq
        simp only [hmesh, and_self]
      · exact ⟨rfl, rfl, rfl⟩

theorem start_cases (s : Scout κ) : s.start = s ∨ s.thread = none ∧ s.start =
    { s with loop := { s.loop with mesh := { s.loop.mesh with running := true } }
             thread := some {} } := by
  unfold Scout.start
  by_cases hidle : s.loop.mesh.running = true ∨ s.thread.isSome = true
  · exact .inl (if_pos hidle)
  · have hstopped : ¬ s.loop.mesh.running = true := fun hr => hidle (.inl hr)
    have hnone : s.thread = none := Option.not_isSome_iff_eq_none.mp fun ht => hidle (.inr ht)
    refine .inr ⟨hnone, (if_neg hidle).trans ?_⟩
    simp only [MeshNetwork.start, if_neg hstopped]

theorem exists_look_eq (s : Scout κ) : ∃ thread, s.look = { s with thread } := by
  unfold look
  split
  · split
    · exact ⟨s.thread, rfl⟩
    · exact ⟨_, rfl⟩
  · exact ⟨s.thread, rfl⟩

theorem round_cases (s : Scout κ) (now later : UInt64) : s.round now later = s ∨
    ∃ r, s.thread = some r ∧ r.entered = true ∧
      s.round now later = s.sweep r.counter now later := by
  unfold round
  rcases hr : s.thread with _ | r
  · exact .inl rfl
  · by_cases he : r.entered = true
    · exact .inr ⟨r, rfl, he, if_pos he⟩
    · exact .inl (if_neg he)

theorem Known.step (h : Known s) (ev : Event) : Known (s.step ev) := by
  cases ev with
  | start =>
    rcases s.start_cases with he | ⟨-, he⟩ <;> rw [Scout.step, he]
    · exact h
    · exact h.of_eq rfl rfl rfl rfl
  | stop => exact h.of_eq rfl rfl rfl rfl
  | look =>
    obtain ⟨thread, he⟩ := s.exists_look_eq
    rw [Scout.step, he]
    exact h.of_eq rfl rfl rfl rfl
  | round now later =>
    rcases s.round_cases now later with he | ⟨r, -, -, he⟩
    · rw [Scout.step, he]
      exact h
    · rw [Scout.step, he]
      exact h.sweep r.counter now later
  | packets ev =>
    obtain ⟨hpeers, hcallback, -⟩ := loop_step_eq s.loop ev
    exact h.of_eq hpeers hcallback rfl rfl

/-! ## Whole runs -/

/-- **The loop knows its peers**: `get_peers` lists the current ones, each name once; the callback
is told of each as it is discovered, and of two peers of one name only when the first has timed
out; and a round discovers a peer exactly in its turn and when its name is free. -/
structure Exact (s : Scout κ) : Prop where
  listed : ∀ p, p ∈ s.loop.mesh.getPeers ↔ Current s.log p
  distinct : (s.loop.mesh.getPeers.map MeshPeer.meshId).Nodup
  told : s.told = s.log.filterMap fun
    | .discovered p => some p
    | .swept _ => none
  timedOut : ∀ after p between q before,
    s.log = after ++ .discovered p :: (between ++ .discovered q :: before) → p.meshId = q.meshId →
      ∃ now, .swept now ∈ between ∧ 300 < now - q.lastSeen
  discovers : ∀ r now later, s.thread = some r → r.entered = true →
    ((s.step (.round now later)).told = MeshNetwork.simulatedPeer (r.counter + 1) now :: s.told ↔
      r.counter % 10 = 0 ∧ ∀ p, Current s.log p →
        p.meshId ≠ (MeshNetwork.simulatedPeer (r.counter + 1) now).meshId)

theorem Known.exact (h : Known s) : Exact s where
  listed p := by
    rw [MeshNetwork.getPeers, (List.perm_insertionSort _ _).mem_iff, List.mem_map]
    constructor
    · rintro ⟨e, he, rfl⟩
      exact ((h.lookup e.1 e.2).mp (AList.mem_lookup_iff.mpr he)).2
    · intro hp
      exact ⟨⟨p.meshId, p⟩, AList.mem_lookup_iff.mp ((h.lookup p.meshId p).mpr ⟨rfl, hp⟩), rfl⟩
  distinct := by
    have hperm := (List.perm_insertionSort (fun p q : MeshPeer => p.meshId ≤ q.meshId)
      (s.loop.mesh.peers.entries.map fun e => e.2)).map MeshPeer.meshId
    rw [MeshNetwork.getPeers, hperm.nodup_iff, List.map_map]
    refine (List.map_congr_left fun e he => ?_).symm ▸ s.loop.mesh.peers.nodupKeys
    exact ((h.lookup e.1 e.2).mp (AList.mem_lookup_iff.mpr he)).1
  told := h.told
  timedOut after p between q before hlog hname := by
    by_contra hnever
    refine h.anew after p _ hlog q ⟨between, before, rfl, fun now hnow => ?_⟩ hname.symm
    exact UInt64.not_lt.mp fun hlate => hnever ⟨now, hnow, hlate⟩
  discovers r now later hr he := by
    have hround : s.step (.round now later) = s.sweep r.counter now later := by
      simp only [Scout.step, Scout.round, hr, he, if_true]
    rw [hround, ← h.not_mem_iff]
    rcases discover_cases s.loop.mesh r.counter now with ⟨hnew, hd⟩ | ⟨hold, hd⟩
    · refine iff_of_true ?_ hnew
      simp only [Scout.sweep, hd, if_pos h.callback]
      rfl
    · refine iff_of_false (fun htold => ?_) hold
      simp only [Scout.sweep, hd] at htold
      have hlength := congrArg List.length htold
      simp at hlength

theorem run_known (deviceId : Bytes) (cb : κ) (evs : List Event) :
    Exact (evs.foldl Scout.step (fresh deviceId cb)) :=
  (Run.invariant (I := Known) (fun _ ev h => h.step ev) evs (known_fresh deviceId cb)).exact

/-! ## One thread -/

def rounds (s : Scout κ) : ℕ := (s.thread.map Rounds.counter).getD 0

def lastSweep (s : Scout κ) : Option UInt64 := s.log.head?.bind fun
  | .swept now => some now
  | .discovered _ => none

/-- The mesh is not stopped, the clock is not set back, and a round takes ten seconds at most with
the pause before it. -/
def Paced (s : Scout κ) : Event → Prop
  | .stop => False
  | .round now later => s.lastSweep.getD now ≤ now ∧ now ≤ later ∧
      later.toNat ≤ (s.lastSweep.getD now).toNat + 10
  | .start | .look | .packets _ => True

instance (s : Scout κ) : ∀ ev, Decidable (s.Paced ev)
  | .stop => .isFalse id
  | .round _ _ => inferInstanceAs (Decidable (_ ∧ _ ∧ _))
  | .start | .look | .packets _ => .isTrue trivial

theorem simulatedPeer_inj {m n : ℕ} {now later : UInt64}
    (h : (MeshNetwork.simulatedPeer m now).meshId = (MeshNetwork.simulatedPeer n later).meshId) :
    m = n :=
  Int.ofNat.inj (EnhancedDispatcher.decimal_inj (Int.natCast_nonneg m) (Int.natCast_nonneg n)
    (List.append_cancel_left h))

theorem sub_le_of_le {t now : UInt64} (hle : t ≤ now) (hfive : now.toNat ≤ t.toNat + 300) :
    now - t ≤ 300 := by
  rw [UInt64.le_iff_toNat_le, UInt64.toNat_sub_of_le _ _ hle]
  exact Nat.sub_le_of_le_add (Nat.add_comm .. ▸ hfive)

/-- The peers are the thread's own, and from its round 21 on the latest with internet is one of its
last 30 rounds. -/
structure Steady (s : Scout κ) : Prop where
  running : s.thread.isSome = true → s.loop.mesh.running = true
  numbered : ∀ id p, s.loop.mesh.peers.lookup id = some p → ∃ n t,
    p = MeshNetwork.simulatedPeer (n + 1) t ∧ id = p.meshId ∧ n < s.rounds ∧ n % 10 = 0
  recent : 20 < s.rounds → ∃ k t last, s.lastSweep = some last ∧
    (20 + 30 * k < s.rounds ∧ s.rounds ≤ 50 + 30 * k) ∧
    s.loop.mesh.peers.lookup (MeshNetwork.simulatedPeer (21 + 30 * k) t).meshId =
      some (MeshNetwork.simulatedPeer (21 + 30 * k) t) ∧
    t ≤ last ∧ last.toNat ≤ t.toNat + 10 * (s.rounds - (20 + 30 * k))

theorem lookup_sweep (counter : ℕ) {now later : UInt64} {id : Bytes} {p : MeshPeer}
    (hp : s.loop.mesh.peers.lookup id = some p) (hlater : later - p.lastSeen ≤ 300) :
    (s.sweep counter now later).loop.mesh.peers.lookup id = some p := by
  show ((s.loop.mesh.discover counter now).1.dropOld later).peers.lookup id = some p
  rw [lookup_dropOld]
  refine ⟨?_, hlater⟩
  rcases discover_cases s.loop.mesh counter now with ⟨⟨-, hnew⟩, he⟩ | ⟨-, he⟩ <;> rw [he]
  · refine (AList.lookup_insert_ne ?_).trans hp
    rintro rfl
    cases (AList.lookup_eq_none.mpr hnew).symm.trans hp
  · exact hp

theorem Steady.sweep (h : Steady s) {r : Rounds} (hr : s.thread = some r) {now later : UInt64}
    (hpaced : s.Paced (.round now later)) : Steady (s.sweep r.counter now later) := by
  obtain ⟨hback, hle, hten⟩ := hpaced
  have hback := UInt64.le_iff_toNat_le.mp hback
  have hrounds : s.rounds = r.counter := by rw [rounds, hr]; rfl
  have hnext : (s.sweep r.counter now later).rounds = r.counter + 1 := rfl
  have hlast : (s.sweep r.counter now later).lastSweep = some later := rfl
  have hrunning : (s.sweep r.counter now later).loop.mesh.running = s.loop.mesh.running := by
    show ((s.loop.mesh.discover r.counter now).1.dropOld later).running = _
    rcases discover_cases s.loop.mesh r.counter now with ⟨-, he⟩ | ⟨-, he⟩ <;> rw [he] <;> rfl
  refine ⟨fun _ => ?_, fun id p hp => ?_, fun hlate => ?_⟩
  · rw [hrunning]
    exact h.running (by rw [hr]; rfl)
  · have hp : ((s.loop.mesh.discover r.counter now).1.dropOld later).peers.lookup id = some p := hp
    obtain ⟨hp, -⟩ := (lookup_dropOld _ _ _ _).mp hp
    have hold : s.loop.mesh.peers.lookup id = some p → ∃ n t,
        p = MeshNetwork.simulatedPeer (n + 1) t ∧ id = p.meshId ∧
          n < (s.sweep r.counter now later).rounds ∧ n % 10 = 0 := fun hp => by
      obtain ⟨n, t, he, hid, hn, hten⟩ := h.numbered id p hp
      exact ⟨n, t, he, hid, by omega, hten⟩
    rcases discover_cases s.loop.mesh r.counter now with ⟨⟨hturn, -⟩, he⟩ | ⟨-, he⟩ <;> rw [he] at hp
    · by_cases hid : id = (MeshNetwork.simulatedPeer (r.counter + 1) now).meshId
      · subst hid
        obtain rfl := Option.some.inj ((AList.lookup_insert _).symm.trans hp)
        exact ⟨r.counter, now, rfl, rfl, by omega, hturn⟩
      · exact hold ((AList.lookup_insert_ne hid).symm.trans hp)
    · exact hold hp
  · rw [hnext] at hlate ⊢
    by_cases hturn : r.counter % 30 = 20
    · -- the round discovers a peer with internet: its name has not been given yet
      obtain ⟨k, hk⟩ : ∃ k, r.counter = 20 + 30 * k := ⟨r.counter / 30, by omega⟩
      have hfree : (MeshNetwork.simulatedPeer (r.counter + 1) now).meshId ∉ s.loop.mesh.peers := by
        rw [← AList.lookup_eq_none]
        rcases hl : s.loop.mesh.peers.lookup _ with _ | p
        · rfl
        · obtain ⟨n, t, rfl, hid, hn, -⟩ := h.numbered _ p hl
          have hsame := simulatedPeer_inj hid
          omega
      have hnamed : 21 + 30 * k = r.counter + 1 := by omega
      have hfive : later.toNat ≤ now.toNat + 300 := by omega
      refine ⟨k, now, later, hlast, by omega, ?_, hle, ?_⟩
      · rw [hnamed]
        show ((s.loop.mesh.discover r.counter now).1.dropOld later).peers.lookup _ = _
        rw [lookup_dropOld]
        rcases discover_cases s.loop.mesh r.counter now with ⟨-, he⟩ | ⟨hnot, -⟩
        · rw [he]
          exact ⟨AList.lookup_insert _, sub_le_of_le hle hfive⟩
        · exact absurd ⟨by omega, hfree⟩ hnot
      · omega
    · obtain ⟨k, t, last, hsweep, hk, hp, hseen, hage⟩ := h.recent (by omega)
      rw [hsweep, Option.getD_some] at hback hten
      have hseen := UInt64.le_iff_toNat_le.mp hseen
      have hle := UInt64.le_iff_toNat_le.mp hle
      have htime : t ≤ later := UInt64.le_iff_toNat_le.mpr (by omega)
      have hfive : later.toNat ≤ t.toNat + 300 := by omega
      exact ⟨k, t, later, hlast, by omega, lookup_sweep r.counter hp (sub_le_of_le htime hfive),
        htime, by omega⟩

theorem Steady.of_eq (h : Steady s) {s' : Scout κ}
    (hrunning : s'.thread.isSome = true → s'.loop.mesh.running = true)
    (hpeers : s'.loop.mesh.peers = s.loop.mesh.peers) (hrounds : s'.rounds = s.rounds)
    (hlog : s'.log = s.log) : Steady s' where
  running := hrunning
  numbered := by
    rw [hpeers, hrounds]
    exact h.numbered
  recent := by
    rw [hrounds, hpeers, lastSweep, hlog]
    exact h.recent

theorem Steady.step (h : Steady s) {ev : Event} (hpaced : s.Paced ev) : Steady (s.step ev) := by
  cases ev with
  | start =>
    rcases s.start_cases with he | ⟨hnone, he⟩ <;> rw [Scout.step, he]
    · exact h
    · refine h.of_eq (fun _ => rfl) rfl ?_ rfl
      rw [rounds, rounds, hnone]
      rfl
  | stop => exact hpaced.elim
  | look =>
    show Steady s.look
    unfold look
    split
    · rename_i r hr
      split
      · exact h
      · have hrunning := h.running (by rw [hr]; rfl)
        refine h.of_eq (fun _ => hrunning) rfl ?_ rfl
        rw [if_pos hrunning, rounds, rounds, hr]
        rfl
    · exact h
  | round now later =>
    rcases s.round_cases now later with he | ⟨r, hr, -, he⟩ <;> rw [Scout.step, he]
    · exact h
    · exact h.sweep hr hpaced
  | packets ev =>
    obtain ⟨hpeers, -, hrunning⟩ := loop_step_eq s.loop ev
    exact h.of_eq (fun ht => hrunning.trans (h.running ht)) hpeers rfl rfl

theorem hasInternetConnection_iff (t : MeshNetwork κ) : t.hasInternetConnection = true ↔
    ∃ id p, t.peers.lookup id = some p ∧ p.hasInternet = true := by
  rw [MeshNetwork.hasInternetConnection, List.any_eq_true]
  constructor
  · rintro ⟨e, he, hp⟩
    exact ⟨e.1, e.2, AList.mem_lookup_iff.mpr he, hp⟩
  · rintro ⟨id, p, hl, hp⟩
    exact ⟨⟨id, p⟩, AList.mem_lookup_iff.mp hl, hp⟩

theorem Steady.internet_iff (h : Steady s) :
    s.loop.mesh.hasInternetConnection = true ↔ 20 < s.rounds := by
  rw [hasInternetConnection_iff]
  constructor
  · rintro ⟨id, p, hp, hinternet⟩
    obtain ⟨n, t, rfl, -, hn, hten⟩ := h.numbered id p hp
    have hthird : (n + 1) % 3 = 0 := of_decide_eq_true hinternet
    omega
  · intro hlate
    obtain ⟨k, t, -, -, -, hp, -⟩ := h.recent hlate
    exact ⟨_, _, hp, decide_eq_true (by omega)⟩

/-- **Internet through the mesh**: as long as one thread goes on at its pace, a peer has internet
exactly from its round 21 on; so the connectivity thread never finds the dispatcher offline from
then on, and in offline mode always before. -/
theorem run_internet_iff {deviceId : Bytes} {cb : κ} {evs : List Event}
    (h : Along Scout.step Paced (fresh deviceId cb) evs) (e : EnhancedDispatcher) :
    ((evs.foldl Scout.step (fresh deviceId cb)).loop.mesh.hasInternetConnection = true ↔
      20 < (evs.foldl Scout.step (fresh deviceId cb)).rounds) ∧
    ((e.checkConnectivity (evs.foldl Scout.step (fresh deviceId cb)).loop.mesh.hasInternetConnection
      ).connectionState = .offline ↔
        e.offlineMode = true ∧ (evs.foldl Scout.step (fresh deviceId cb)).rounds ≤ 20) := by
  have hstart : Steady (fresh deviceId cb) := ⟨nofun, nofun, fun hlate => absurd hlate (Nat.not_lt_zero 20)⟩
  have hsteady := h.invariant (I := Steady) (fun _ _ hpaced hs => hs.step hpaced) hstart
  refine ⟨hsteady.internet_iff, ?_⟩
  have hiff := hsteady.internet_iff
  rw [← Nat.not_lt, ← hiff]
  unfold EnhancedDispatcher.checkConnectivity
  cases e.offlineMode <;> cases (evs.foldl Scout.step _).loop.mesh.hasInternetConnection <;> simp

def sampleEvents (n : ℕ) : List Event :=
  .start :: (List.range n).flatMap fun i =>
    [.look, .round (UInt64.ofNat (1700000000 + 5 * i)) (UInt64.ofNat (1700000000 + 5 * i))]

theorem run_internet_iff_sample :
    Along Scout.step Paced (fresh [] ()) (sampleEvents 21) ∧
    (((sampleEvents 21).foldl Scout.step (fresh [] ())).loop.mesh.hasInternetConnection = true ↔
      20 < ((sampleEvents 21).foldl Scout.step (fresh [] ())).rounds) := by
  have hpaced : Along Scout.step Paced (fresh [] ()) (sampleEvents 21) := by decide +kernel
  exact ⟨hpaced, (run_internet_iff hpaced {}).1⟩

end Scout

end SecureComm
