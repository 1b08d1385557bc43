import SecureComm.Lib.Run
import SecureComm.Mesh.Basic
import SecureComm.Offline.Dispatcher

/-!
# The id under which a mesh runs

An enhanced dispatcher owns a mesh and starts it in two places: `start`, which
passes the device id on, and `enable_mesh_networking`, which does not. Nor does
`register_device`. A mesh with another id than its device passes over the
packets for the device (`ignores_own_packets`).
-/

namespace SecureComm

open Run

/-- An enhanced dispatcher with its mesh, whose callback is `process_mesh_packet`. -/
structure MeshDispatcher extends EnhancedDispatcher where
  meshEnabled : Bool := true
  /-- The connectivity and retry threads are there to be joined. -/
  running : Bool := false
  mesh : MeshNetwork Unit

namespace MeshDispatcher

/-- A dispatcher as it is constructed, with the mesh id that is drawn. -/
def construct (meshId : Bytes) : MeshDispatcher :=
  { mesh := MeshNetwork.setOnPacketReceived { meshId } () }

def registerDevice (h : MeshDispatcher) (deviceId : Bytes) : MeshDispatcher :=
  { h with toEnhancedDispatcher := h.toEnhancedDispatcher.registerDevice deviceId }

/-- `ok` says whether `Dispatcher::start`, the first call, returns. A start that follows a start
assigns to a thread that is not joined, and the process ends. -/
def start (h : MeshDispatcher) (ok : Bool) : Option MeshDispatcher :=
  if ok then
    if h.running then none
    else
      some { h with
        running := true
        mesh := if h.meshEnabled then (h.mesh.initializeWith h.deviceId).start else h.mesh }
  else some h

def stop (h : MeshDispatcher) : MeshDispatcher := { h with running := false, mesh := h.mesh.stop }

def enableMeshNetworking (h : MeshDispatcher) (enable : Bool) : MeshDispatcher :=
  { h with
    meshEnabled := enable
    mesh := if enable && h.running then h.mesh.start
      else if !enable then h.mesh.stop else h.mesh }

inductive Event where
  | registerDevice (deviceId : Bytes)
  | enableMeshNetworking (enable : Bool)
  | start (ok : Bool)
  | stop

/-- The next call, unless the process has ended. -/
def step : Option MeshDispatcher → Event → Option MeshDispatcher
  | none, _ => none
  | some h, .registerDevice deviceId => some (h.registerDevice deviceId)
  | some h, .enableMeshNetworking enable => some (h.enableMeshNetworking enable)
  | some h, .start ok => h.start ok
  | some h, .stop => some h.stop

/-- **A running mesh knows its device.** -/
def KnowsDevice : Option MeshDispatcher → Prop
  | none => True
  | some h => h.mesh.running = true → h.mesh.deviceId = h.deviceId

/-- While the mesh runs no other id is registered, and where it is enabled again the id is the
one it was last initialised with. -/
def PassesId : Option MeshDispatcher → Event → Prop
  | some h, .registerDevice deviceId => h.mesh.running = true → deviceId = h.deviceId
  | some h, .enableMeshNetworking enable =>
    enable = true → h.running = true → h.mesh.running = false → h.mesh.deviceId = h.deviceId
  | _, _ => True

variable {h : MeshDispatcher}

theorem start_knowsDevice (hk : KnowsDevice (some h)) (ok : Bool) : KnowsDevice (h.start ok) := by
  unfold start
  split
  · split
    · trivial
    · rcases he : h.meshEnabled with _ | _
      · exact hk
      · intro _
        show (MeshNetwork.start (h.mesh.initializeWith h.deviceId)).deviceId = h.deviceId
        unfold MeshNetwork.start
        split <;> rfl
  · exact hk

theorem registerDevice_knowsDevice_iff (hk : KnowsDevice (some h)) (deviceId : Bytes) :
    KnowsDevice (some (h.registerDevice deviceId)) ↔
      PassesId (some h) (.registerDevice deviceId) := by
  constructor
  · intro hd hr
    exact (hd hr).symm.trans (hk hr)
  · intro hd hr
    exact (hk hr).trans (hd hr).symm

theorem enableMeshNetworking_knowsDevice_iff (hk : KnowsDevice (some h)) (enable : Bool) :
    KnowsDevice (some (h.enableMeshNetworking enable)) ↔
      PassesId (some h) (.enableMeshNetworking enable) := by
  rcases enable with _ | _
  · exact iff_of_true (fun hr => nomatch hr) fun he => nomatch he
  rcases hrun : h.running with _ | _
  · refine iff_of_true ?_ fun _ hr => nomatch hrun.symm.trans hr
    show (h.enableMeshNetworking true).mesh.running = true → _
    simp only [enableMeshNetworking, hrun, Bool.and_false, Bool.false_eq_true, if_false,
      Bool.not_true]
    exact hk
  · have hmesh : (h.enableMeshNetworking true).mesh = h.mesh.start := by
      simp only [enableMeshNetworking, hrun, Bool.and_true, if_true]
    show ((h.enableMeshNetworking true).mesh.running = true →
      (h.enableMeshNetworking true).mesh.deviceId = h.deviceId) ↔ _
    rw [hmesh]
    rcases hm : h.mesh.running with _ | _
    · -- the mesh starts with the id it has
      rw [show h.mesh.start = { h.mesh with running := true } by simp [MeshNetwork.start, hm]]
      exact ⟨fun hd _ _ _ => hd rfl, fun hd _ => hd rfl hrun hm⟩
    · rw [show h.mesh.start = h.mesh by simp [MeshNetwork.start, hm]]
      exact iff_of_true hk fun _ _ hf => nomatch hm.symm.trans hf

theorem knowsDevice_step_iff {o : Option MeshDispatcher} (hk : KnowsDevice o) (ev : Event) :
    KnowsDevice (step o ev) ↔ PassesId o ev := by
  cases o with
  | none => exact iff_of_true trivial trivial
  | some h =>
    cases ev with
    | registerDevice deviceId => exact registerDevice_knowsDevice_iff hk deviceId
    | enableMeshNetworking enable => exact enableMeshNetworking_knowsDevice_iff hk enable
    | start ok => exact iff_of_true (start_knowsDevice hk ok) trivial
    | stop => exact iff_of_true (fun hr => nomatch hr) trivial

/-- **The running mesh knows its device throughout** exactly the runs that register no other
id while it runs and enable it again only under the id it was last initialised with. -/
theorem knowsDevice_iff_passesId (meshId : Bytes) (evs : List Event) :
    Throughout step KnowsDevice (some (construct meshId)) evs ↔
      Along step PassesId (some (construct meshId)) evs :=
  throughout_iff_along (I := fun _ => True) (fun _ _ _ => trivial)
    (fun _ ev _ hk => knowsDevice_step_iff hk ev) trivial fun hr => nomatch hr

/-- A mesh that does not know its device hands no packet for it over. -/
theorem ignores_own_packets (hk : ¬ KnowsDevice (some h)) {p : MeshPacket}
    (hp : p.recipientDeviceId = h.deviceId) : (h.mesh.route p).2 = none := by
  by_contra hne
  obtain ⟨q, hq⟩ := Option.ne_none_iff_exists'.mp hne
  exact hk fun _ => (MeshNetwork.of_route_eq_some hq).2.symm.trans hp

/-- The mesh is off when the device starts, and is enabled afterwards. -/
def enabledLater : List Event :=
  [.enableMeshNetworking false, .registerDevice (octets ['b']), .start true,
    .enableMeshNetworking true]

/-- **A mesh that does not know its device**: it runs with the empty id. -/
theorem enabled_without_id :
    (enabledLater.foldl step (some (construct (octets ['m'])))).map
        (fun h => (h.mesh.running, h.mesh.deviceId, h.deviceId)) = some (true, [], octets ['b']) ∧
      ¬ Throughout step KnowsDevice (some (construct (octets ['m']))) enabledLater :=
  ⟨rfl, fun h => nomatch h.2.2.2.2 rfl⟩

end MeshDispatcher

end SecureComm
