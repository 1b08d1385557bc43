import SecureComm.Lib.Reentry
import SecureComm.Mesh.Delivery

/-!
# Callbacks of a mesh

Both loops of a mesh hold its mutex while they invoke a callback, and a callback
may call every public method. Four of the methods lock the mutex. `callbacks`
says what each callback does with a packet or a peer; a loop that locks the
mutex again in one goes no further (`Deadlocked`).
-/

namespace SecureComm.MeshNetwork

open Run

/-- The public methods that a callback may call, with what they draw. -/
inductive Method (κ : Type) where
  | initializeWith (deviceId : Bytes)
  | start
  | stop
  | sendPacket (recipientDeviceId payload : Bytes) (draw : PacketDraw)
  | broadcast (payload : Bytes) (draw : PacketDraw)
  | hasInternetConnection
  | getPeers
  | setOnPacketReceived (cb : κ)
  | setOnPeerDiscovered (cb : κ)

inductive Answer where
  | returned
  | internet (b : Bool)
  | peers (ps : List MeshPeer)
  | threw
  /-- The call does not come back. -/
  | gone

def Answer.returns : Answer → Bool
  | .gone => false
  | _ => true

structure Callbacks (κ : Type) where
  packet : κ → MeshPacket → Program (Method κ) Answer
  peer : κ → MeshPeer → Program (Method κ) Answer

inductive LoopThread where
  | discovery
  | routing

inductive Round where
  | idle
  /-- It has found the mesh running. -/
  | entered
  | holding (p : MeshPacket)

/-- A mesh and the places of its two loops. -/
structure Threads (κ : Type) where
  mesh : MeshNetwork κ
  routing : Round := .idle
  /-- The discovery loop has found the mesh running. -/
  discoveryEntered : Bool := false
  discoveryCounter : ℕ := 0

namespace Threads

variable {κ : Type}

def exec (thread : LoopThread) (w : Threads κ) : Method κ → Threads κ × Answer
  | .initializeWith deviceId => ({ w with mesh := w.mesh.initializeWith deviceId }, .returned)
  | .start =>
    -- a thread that is not joined yet is assigned to: the process ends
    ({ w with mesh := w.mesh.start }, if w.mesh.running then .returned else .gone)
  | .stop =>
    -- the discovery thread is joined first; a thread that joins itself throws
    ({ w with mesh := w.mesh.stop },
      match thread with
      | .discovery => .threw
      | .routing => if w.discoveryEntered then .gone else .threw)
  | .sendPacket recipientDeviceId payload draw =>
    ({ w with mesh := w.mesh.sendPacket recipientDeviceId payload draw }, .returned)
  | .broadcast payload draw => ({ w with mesh := w.mesh.broadcast payload draw }, .returned)
  | .hasInternetConnection => (w, .internet w.mesh.hasInternetConnection)
  | .getPeers => (w, .peers w.mesh.getPeers)
  | .setOnPacketReceived cb => ({ w with mesh := w.mesh.setOnPacketReceived cb }, .returned)
  | .setOnPeerDiscovered cb => ({ w with mesh := w.mesh.setOnPeerDiscovered cb }, .returned)

def monitor (thread : LoopThread) : Monitor (Threads κ) (Method κ) Answer where
  exec := exec thread
  locks
    | .sendPacket .. | .broadcast .. | .hasInternetConnection | .getPeers => true
    | _ => false

/-- The callback locks nothing, as far as it gets. -/
def Harmless (thread : LoopThread) (w : Threads κ) (p : Program (Method κ) Answer) : Prop :=
  (p.cut Answer.returns).LockFree (monitor thread) w

end Threads

inductive Course (κ : Type) where
  | going (w : Threads κ)
  /-- A loop waits for the mutex that it holds. -/
  | deadlocked
  /-- An exception has left a loop, or a call in a callback does not come back. -/
  | ended

namespace Course

variable {κ : Type}

def Deadlocked : Course κ → Prop
  | .deadlocked => True
  | .going _ | .ended => False

def map (f : Threads κ → Threads κ) : Course κ → Course κ
  | .going w => .going (f w)
  | .deadlocked => .deadlocked
  | .ended => .ended

theorem map_deadlocked {f : Threads κ → Threads κ} {c : Course κ} :
    (c.map f).Deadlocked ↔ c.Deadlocked := by
  cases c <;> exact Iff.rfl

end Course

namespace Threads

variable {κ : Type}

/-- A loop runs a callback under the mutex. -/
def callBack (thread : LoopThread) (w : Threads κ) (p : Program (Method κ) Answer) : Course κ :=
  match (p.cut Answer.returns).run (monitor thread) true w with
  | .returned w => .going w
  | .raised _ => .ended
  | .stuck => .deadlocked

theorem callBack_deadlocked_iff (thread : LoopThread) (w : Threads κ)
    (p : Program (Method κ) Answer) :
    (w.callBack thread p).Deadlocked ↔ ¬ w.Harmless thread p := by
  have hcompletes := Program.run_held_completes_iff (M := monitor thread)
    (p.cut Answer.returns) w
  rw [Harmless, ← hcompletes]
  unfold callBack
  cases (p.cut Answer.returns).run (monitor thread) true w with
  | returned w => exact iff_of_false id fun h => h trivial
  | raised w => exact iff_of_false id fun h => h trivial
  | stuck => exact iff_of_true trivial id

variable (callbacks : Callbacks κ)

def packetProgram (w : Threads κ) (p : MeshPacket) : Program (Method κ) Answer :=
  match (w.mesh.route p).2, w.mesh.onPacketReceived with
  | some q, some cb => callbacks.packet cb q
  | _, _ => .done

def peerProgram (w : Threads κ) (now : UInt64) : Program (Method κ) Answer :=
  match (w.mesh.discover w.discoveryCounter now).2, w.mesh.onPeerDiscovered with
  | some peer, some cb => callbacks.peer cb peer
  | _, _ => .done

def routingStep (w : Threads κ) : Course κ :=
  match w.routing with
  | .idle => .going (if w.mesh.running then { w with routing := .entered } else w)
  | .entered =>
    match w.mesh.dequeue with
    | (mesh, none) => .going { w with mesh, routing := .idle }
    | (mesh, some p) => .going { w with mesh, routing := .holding p }
  | .holding p =>
    (callBack .routing { w with mesh := (w.mesh.route p).1 } (w.packetProgram callbacks p)).map
      fun w => { w with routing := .idle }

/-- A callback that leaves the mesh alone: the routing loop is that of `Loop`. -/
theorem routingStep_quiet {callbacks : Callbacks κ}
    (hquiet : ∀ cb q, callbacks.packet cb q = .done) {w : Threads κ} {p : MeshPacket}
    (hr : w.routing = .holding p) :
    w.routingStep callbacks =
      .going { w with mesh := (Loop.routing { mesh := w.mesh, inHand := some p }).mesh
                      routing := .idle } := by
  have hdone : w.packetProgram callbacks p = .done := by
    unfold packetProgram
    split
    · exact hquiet _ _
    · rfl
  unfold routingStep
  rw [hr]
  simp only
  rw [hdone]
  rfl

/-- The next step of the discovery loop: it enters a round, or the round is done. -/
def discoveryStep (w : Threads κ) (now later : UInt64) : Course κ :=
  if w.discoveryEntered then
    (callBack .discovery
      { w with
        mesh := (w.mesh.discover w.discoveryCounter now).1
        discoveryCounter := w.discoveryCounter + 1 }
      (w.peerProgram callbacks now)).map
      fun w => { w with mesh := w.mesh.dropOld later, discoveryEntered := false }
  else .going { w with discoveryEntered := w.mesh.running }

end Threads

inductive Event where
  | sendPacket (recipientDeviceId payload : Bytes) (draw : PacketDraw)
  | broadcast (payload : Bytes) (draw : PacketDraw)
  | routing
  /-- The clock at the start of a round and after its callback. -/
  | discovery (now later : UInt64)

namespace Course

variable {κ : Type} (callbacks : Callbacks κ)

/-- Nobody gets past a mutex that is never unlocked. -/
def step : Course κ → Event → Course κ
  | .deadlocked, _ => .deadlocked
  | .ended, _ => .ended
  | .going w, .sendPacket recipientDeviceId payload draw =>
    .going { w with mesh := w.mesh.sendPacket recipientDeviceId payload draw }
  | .going w, .broadcast payload draw => .going { w with mesh := w.mesh.broadcast payload draw }
  | .going w, .routing => w.routingStep callbacks
  | .going w, .discovery now later => w.discoveryStep callbacks now later

/-- A callback that a loop is about to invoke calls no method that locks. -/
def Guard : Course κ → Event → Prop
  | .going w, .routing => ∀ p, w.routing = .holding p →
    Threads.Harmless .routing { w with mesh := (w.mesh.route p).1 } (w.packetProgram callbacks p)
  | .going w, .discovery now _ => w.discoveryEntered = true →
    Threads.Harmless .discovery
      { w with
        mesh := (w.mesh.discover w.discoveryCounter now).1
        discoveryCounter := w.discoveryCounter + 1 }
      (w.peerProgram callbacks now)
  | _, _ => True

variable {callbacks}

theorem routingStep_deadlocked_iff (w : Threads κ) :
    ¬ (w.routingStep callbacks).Deadlocked ↔ Guard callbacks (.going w) .routing := by
  unfold Threads.routingStep
  rcases hr : w.routing with _ | _ | p
  · exact iff_of_true id fun p hp => nomatch hr.symm.trans hp
  · refine iff_of_true ?_ fun p hp => nomatch hr.symm.trans hp
    simp only
    split <;> exact id
  · simp only
    rw [map_deadlocked, Threads.callBack_deadlocked_iff, not_not, ← hr]
    constructor
    · intro h q hq
      cases hr.symm.trans hq
      exact h
    · exact fun h => h p hr

theorem discoveryStep_deadlocked_iff (w : Threads κ) (now later : UInt64) :
    ¬ (w.discoveryStep callbacks now later).Deadlocked ↔
      Guard callbacks (.going w) (.discovery now later) := by
  unfold Threads.discoveryStep
  split
  · rename_i he
    rw [map_deadlocked, Threads.callBack_deadlocked_iff, not_not]
    exact ⟨fun h _ => h, fun h => h he⟩
  · rename_i he
    exact iff_of_true id fun h => absurd h he

theorem step_deadlocked_iff {c : Course κ} (h : ¬ c.Deadlocked) (ev : Event) :
    ¬ (c.step callbacks ev).Deadlocked ↔ c.Guard callbacks ev := by
  cases c with
  | deadlocked => exact absurd trivial h
  | ended => exact iff_of_true id trivial
  | going w =>
    cases ev with
    | sendPacket recipientDeviceId payload draw => exact iff_of_true id trivial
    | broadcast payload draw => exact iff_of_true id trivial
    | routing => exact routingStep_deadlocked_iff w
    | discovery now later => exact discoveryStep_deadlocked_iff w now later

/-- **No loop locks its mutex twice** in exactly the runs in which every callback that a loop
invokes leaves alone the methods that lock. -/
theorem neverRelocks_iff (callbacks : Callbacks κ) (mesh : MeshNetwork κ) (evs : List Event) :
    Throughout (step callbacks) (fun c => ¬ c.Deadlocked) (.going { mesh }) evs ↔
      Along (step callbacks) (Guard callbacks) (.going { mesh }) evs :=
  throughout_iff_along (I := fun _ => True) (fun _ _ _ => trivial)
    (fun _ ev _ h => step_deadlocked_iff h ev) trivial id

end Course

/-! ## The callback of an enhanced dispatcher -/

variable {κ : Type}

/-- What `EnhancedDispatcher::process_mesh_packet` does with the mesh. -/
def processMeshPacket (deviceId : Bytes) (draw : PacketDraw) (packet : MeshPacket) :
    Program (Method κ) Answer :=
  if packet.recipientDeviceId = deviceId ∨ packet.recipientDeviceId = broadcastId then
    if packet.recipientDeviceId ≠ broadcastId then
      .call (.sendPacket packet.senderMeshId (octets ['A', 'C', 'K']) draw) fun _ => .done
    else .done
  else .done

/-- The mesh of an enhanced dispatcher has one callback. -/
def enhancedCallbacks (deviceId : Bytes) (draw : PacketDraw) : Callbacks Unit where
  packet _ := processMeshPacket deviceId draw
  peer _ _ := .done

theorem processMeshPacket_eq_done {deviceId : Bytes} {packet : MeshPacket} (draw : PacketDraw)
    (h : packet.recipientDeviceId = deviceId → deviceId = broadcastId) :
    (processMeshPacket deviceId draw packet : Program (Method κ) Answer) = .done := by
  unfold processMeshPacket
  split
  · rename_i hfor
    refine if_neg (not_not.mpr ?_)
    exact hfor.elim (fun hdevice => hdevice.trans (h hdevice)) id
  · rfl

/-- **An acknowledgement is never sent**: a packet for the device deadlocks. -/
theorem processMeshPacket_harmless_iff (deviceId : Bytes) (draw : PacketDraw)
    (packet : MeshPacket) (thread : LoopThread) (w : Threads κ) :
    w.Harmless thread (processMeshPacket deviceId draw packet) ↔
      (packet.recipientDeviceId = deviceId → deviceId = broadcastId) := by
  constructor
  · intro h hdevice
    by_contra hne
    have hb : packet.recipientDeviceId ≠ broadcastId := fun hb => hne (hdevice.symm.trans hb)
    unfold processMeshPacket at h
    rw [if_pos (.inl hdevice), if_pos hb] at h
    -- `send_packet` locks
    cases h.1
  · intro h
    rw [processMeshPacket_eq_done draw h]
    trivial

namespace Course

variable {deviceId : Bytes} {draw : PacketDraw}

/-- The mesh of an enhanced dispatcher with that id. -/
def Enhanced (deviceId : Bytes) : Course Unit → Prop
  | .going w => w.mesh.deviceId = deviceId ∧ w.mesh.onPacketReceived = some ()
  | .deadlocked | .ended => True

/-- No packet is handed over, unless the device is called `broadcast`. -/
def NothingFor (deviceId : Bytes) : Course Unit → Event → Prop
  | .going w, .routing =>
    ∀ p, w.routing = .holding p → (w.mesh.route p).2 ≠ none → deviceId = broadcastId
  | _, _ => True

theorem packetProgram_enhanced {w : Threads Unit} (h : w.mesh.onPacketReceived = some ())
    (p : MeshPacket) :
    w.packetProgram (enhancedCallbacks deviceId draw) p =
      match (w.mesh.route p).2 with
      | some q => processMeshPacket deviceId draw q
      | none => .done := by
  unfold Threads.packetProgram
  rw [h]
  cases (w.mesh.route p).2 <;> rfl

theorem peerProgram_enhanced (w : Threads Unit) (now : UInt64) :
    w.peerProgram (enhancedCallbacks deviceId draw) now = .done := by
  unfold Threads.peerProgram
  split <;> rfl

theorem guard_iff_nothingFor {c : Course Unit} (h : Enhanced deviceId c) (ev : Event) :
    Guard (enhancedCallbacks deviceId draw) c ev ↔ NothingFor deviceId c ev := by
  cases c with
  | deadlocked => exact Iff.rfl
  | ended => exact Iff.rfl
  | going w =>
    cases ev with
    | sendPacket recipientDeviceId payload draw => exact Iff.rfl
    | broadcast payload draw => exact Iff.rfl
    | discovery now later =>
      refine iff_of_true (fun _ => ?_) trivial
      rw [peerProgram_enhanced]
      trivial
    | routing =>
      refine forall₂_congr fun p _ => ?_
      rw [packetProgram_enhanced h.2]
      rcases hq : (w.mesh.route p).2 with _ | q
      · exact iff_of_true trivial fun hne => absurd rfl hne
      · obtain ⟨rfl, hrecipient⟩ := of_route_eq_some hq
        have hdevice : p.hop.recipientDeviceId = deviceId := hrecipient.trans h.1
        refine (processMeshPacket_harmless_iff ..).trans ?_
        exact ⟨fun hb _ => hb hdevice, fun hb _ => hb (Option.some_ne_none _)⟩

theorem Enhanced.discoveryStep {w : Threads Unit} (h : Enhanced deviceId (.going w))
    (now later : UInt64) :
    Enhanced deviceId (w.discoveryStep (enhancedCallbacks deviceId draw) now later) := by
  unfold Threads.discoveryStep
  rw [peerProgram_enhanced]
  split
  · unfold discover
    split
    · simp only
      split <;> exact h
    · exact h
  · exact h

theorem Enhanced.routingStep {w : Threads Unit} (h : Enhanced deviceId (.going w))
    (hnothing : NothingFor deviceId (.going w) .routing) :
    Enhanced deviceId (w.routingStep (enhancedCallbacks deviceId draw)) := by
  unfold Threads.routingStep
  rcases hr : w.routing with _ | _ | p
  · simp only
    split <;> exact h
  · obtain ⟨sendQueue, hmesh⟩ := w.mesh.exists_dequeue_eq
    simp only
    split <;>
    · rename_i heq
      cases (congrArg Prod.fst heq).symm.trans hmesh
      exact h
  · obtain ⟨seenPackets, hmesh⟩ := w.mesh.exists_route_eq p
    have hdone : w.packetProgram (enhancedCallbacks deviceId draw) p = .done := by
      rw [packetProgram_enhanced h.2]
      rcases hq : (w.mesh.route p).2 with _ | q
      · rfl
      · exact processMeshPacket_eq_done draw fun _ =>
          hnothing p hr (hq ▸ Option.some_ne_none q)
    simp only
    rw [hdone, hmesh]
    exact h

theorem Enhanced.step {c : Course Unit} (h : Enhanced deviceId c) (ev : Event)
    (hnothing : NothingFor deviceId c ev) :
    Enhanced deviceId (c.step (enhancedCallbacks deviceId draw) ev) := by
  cases c with
  | deadlocked => trivial
  | ended => trivial
  | going w =>
    cases ev with
    | sendPacket recipientDeviceId payload draw => exact h
    | broadcast payload draw => exact h
    | discovery now later => exact h.discoveryStep now later
    | routing => exact h.routingStep hnothing

/-- **The mesh of an enhanced dispatcher** never locks its mutex twice if and only if nothing
is ever handed to the dispatcher, or its device is called `broadcast`. -/
theorem enhanced_neverRelocks_iff (draw : PacketDraw) {mesh : MeshNetwork Unit}
    (hdevice : mesh.deviceId = deviceId) (hcallback : mesh.onPacketReceived = some ())
    (evs : List Event) :
    Throughout (step (enhancedCallbacks deviceId draw)) (fun c => ¬ c.Deadlocked)
        (.going { mesh }) evs ↔
      Along (step (enhancedCallbacks deviceId draw)) (NothingFor deviceId) (.going { mesh }) evs :=
  (throughout_iff_along (I := fun _ => True) (fun _ _ _ => trivial)
    (fun _ ev _ h => step_deadlocked_iff h ev) trivial id).trans
    (along_iff_along (I := Enhanced deviceId) (fun _ ev h hg => h.step ev hg)
      (fun _ ev h => guard_iff_nothingFor h ev) ⟨hdevice, hcallback⟩)

end Course

/-- Device `b`, whose client sends a packet to `b`. -/
def sampleDraw : PacketDraw where
  packetId := ⟨List.replicate 16 7, List.length_replicate⟩
  now := 0

def sampleMesh : MeshNetwork Unit :=
  { deviceId := octets ['b'], running := true, onPacketReceived := some () }

def sampleEvents : List Event :=
  [.sendPacket (octets ['b']) [1] sampleDraw, .routing, .routing, .routing]

/-- **The mesh of a dispatcher deadlocks** at the first packet for its device. -/
theorem acknowledgement_deadlocks :
    sampleEvents.foldl (Course.step (enhancedCallbacks (octets ['b']) sampleDraw))
        (.going { mesh := sampleMesh }) = .deadlocked ∧
      ¬ Throughout (Course.step (enhancedCallbacks (octets ['b']) sampleDraw))
        (fun c => ¬ c.Deadlocked) (.going { mesh := sampleMesh }) sampleEvents :=
  ⟨rfl, fun h => h.2.2.2.2 trivial⟩

end SecureComm.MeshNetwork
