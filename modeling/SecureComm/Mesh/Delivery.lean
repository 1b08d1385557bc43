import SecureComm.Lib.Firsts
import SecureComm.Lib.Run
import SecureComm.Mesh.Basic

/-!
# What the routing loop hands over

Packets of any kind are put in the queue while the loop goes on; the callback is
one that returns and leaves the mesh alone. Of the packets of one id the loop
handles the first. It hands that one over if it has hops left and names the
device, and so passes over broadcasts, which `process_mesh_packet` would accept
(`handedOnce_iff`).
-/

namespace SecureComm

open Run Firsts

/-- The packet as it was queued, but for the hops it has made. -/
structure MeshPacket.Relayed (p q : MeshPacket) : Prop where
  same : q = { p with ttl := q.ttl, hops := q.hops }
  hops : q.ttl.toNat + q.hops.toNat = p.ttl.toNat + p.hops.toNat

theorem MeshPacket.relayed_hop {p : MeshPacket} (httl : p.ttl > 0)
    (hsmall : p.ttl.toNat + p.hops.toNat ≤ 255) : p.Relayed p.hop := by
  have hpos : 0 < p.ttl.toNat := UInt8.lt_iff_toNat_lt.mp httl
  have hle : (1 : UInt8) ≤ p.ttl := UInt8.le_iff_toNat_le.mpr hpos
  refine ⟨rfl, ?_⟩
  show (p.ttl - 1).toNat + (p.hops + 1).toNat = _
  rw [UInt8.toNat_sub_of_le _ _ hle, UInt8.toNat_add]
  show p.ttl.toNat - 1 + (p.hops.toNat + 1) % 2 ^ 8 = _
  omega

/-- The packets that `process_mesh_packet` takes to be for the device. -/
def MeshPacket.ForUs (deviceId : Bytes) (p : MeshPacket) : Prop :=
  p.recipientDeviceId = deviceId ∨ p.recipientDeviceId = broadcastId

/-- **Handed over exactly once**: the callback is invoked once for each id whose first packet
has hops left and is for the device, with that packet, and for no other. -/
def HandedOnce (deviceId : Bytes) (handled invoked : List MeshPacket) : Prop :=
  Emits MeshPacket.packetId MeshPacket.packetId (fun p => p.ttl > 0 ∧ p.ForUs deviceId)
    MeshPacket.Relayed handled invoked

/-- The routing loop with the packets it has handled and those the callback was invoked with. -/
structure Loop (κ : Type) where
  mesh : MeshNetwork κ
  /-- The packet taken out of the queue by the first region of a round. -/
  inHand : Option MeshPacket := none
  handled : List MeshPacket := []
  invoked : List MeshPacket := []

namespace Loop

variable {κ : Type}

inductive Event where
  | queue (p : MeshPacket)
  /-- The next region of the loop. -/
  | routing

def invocation (mesh : MeshNetwork κ) (p : MeshPacket) : List MeshPacket :=
  match (mesh.route p).2, mesh.onPacketReceived with
  | some q, some _ => [q]
  | _, _ => []

def routing (w : Loop κ) : Loop κ :=
  match w.inHand with
  | some p =>
    { mesh := (w.mesh.route p).1
      handled := w.handled ++ [p]
      invoked := w.invoked ++ invocation w.mesh p }
  | none =>
    if w.mesh.running then { w with mesh := w.mesh.dequeue.1, inHand := w.mesh.dequeue.2 } else w

def step (w : Loop κ) : Event → Loop κ
  | .queue p => { w with mesh := { w.mesh with sendQueue := w.mesh.sendQueue ++ [p] } }
  | .routing => w.routing

def fresh (deviceId : Bytes) (cb : κ) : Loop κ :=
  { mesh := { deviceId, running := true, onPacketReceived := some cb } }

/-- The two counters of a queued packet fit into a byte together. -/
def Small (_ : Loop κ) : Event → Prop
  | .queue p => p.ttl.toNat + p.hops.toNat ≤ 255
  | .routing => True

/-- The packets that are still to be handled, in order. -/
def waiting (w : Loop κ) : List MeshPacket := w.inHand.toList ++ w.mesh.sendQueue

/-- What the loop keeps: the ids it has seen are those of the packets it has handled, and it
has handed over the first of each that names the device. -/
structure Routes (deviceId : Bytes) (w : Loop κ) : Prop where
  device : w.mesh.deviceId = deviceId
  callback : w.mesh.onPacketReceived ≠ none
  seen : ∀ id, id ∈ w.mesh.seenPackets ↔ ∃ p ∈ w.handled, p.packetId = id
  small : ∀ p ∈ w.waiting, p.ttl.toNat + p.hops.toNat ≤ 255
  emits : Emits MeshPacket.packetId MeshPacket.packetId
    (fun p => p.ttl > 0 ∧ p.recipientDeviceId = deviceId) MeshPacket.Relayed w.handled w.invoked

variable {w : Loop κ} {deviceId : Bytes}

theorem routes_fresh (deviceId : Bytes) (cb : κ) : Routes deviceId (fresh deviceId cb) where
  device := rfl
  callback := Option.some_ne_none cb
  seen _ := iff_of_false List.not_mem_nil fun ⟨_, hp, _⟩ => List.not_mem_nil hp
  small _ hp := absurd hp List.not_mem_nil
  emits := .nil

theorem routing_of_inHand {p : MeshPacket} (hp : w.inHand = some p) :
    w.routing =
      { mesh := (w.mesh.route p).1
        handled := w.handled ++ [p]
        invoked := w.invoked ++ invocation w.mesh p } := by
  unfold routing
  rw [hp]

theorem Routes.seen_route (h : Routes deviceId w) (p : MeshPacket) (id : Bytes) :
    id ∈ (w.mesh.route p).1.seenPackets ↔ ∃ q ∈ w.handled ++ [p], q.packetId = id := by
  rw [exists_key_append_iff, ← h.seen]
  rcases MeshNetwork.route_cases w.mesh p with ⟨hseen, hroute⟩ | ⟨-, hmesh, -⟩
  · rw [hroute]
    exact (or_iff_left_of_imp fun hid => hid ▸ hseen).symm
  · rw [hmesh]
    exact List.mem_cons.trans or_comm

/-- The packet is handed over if it is the first of its id, has hops left and names the device. -/
theorem Routes.emits_route (h : Routes deviceId w) {p : MeshPacket}
    (hsmall : p.ttl.toNat + p.hops.toNat ≤ 255) :
    Emits MeshPacket.packetId MeshPacket.packetId
      (fun p => p.ttl > 0 ∧ p.recipientDeviceId = deviceId) MeshPacket.Relayed
      (w.handled ++ [p]) (w.invoked ++ invocation w.mesh p) := by
  obtain ⟨cb, hcb⟩ := Option.ne_none_iff_exists'.mp h.callback
  have hnothing : (w.mesh.route p).2 = none → invocation w.mesh p = [] := fun hq => by
    rw [invocation, hq]
  rcases MeshNetwork.route_cases w.mesh p with ⟨hseen, hroute⟩ | ⟨hnew, -, ⟨hpass, hq⟩ | ⟨hpass, hq⟩⟩
  · rw [hnothing (congrArg Prod.snd hroute), List.append_nil]
    exact h.emits.skip ((h.seen _).mp hseen)
  · have hfresh : ∀ q ∈ w.handled, q.packetId ≠ p.packetId := fun q hq heq =>
      hnew ((h.seen _).mpr ⟨q, hq, heq⟩)
    rw [invocation, hq, hcb]
    rw [h.device] at hpass
    exact h.emits.put hfresh hpass (MeshPacket.relayed_hop hpass.1 hsmall) rfl
  · rw [hnothing hq, List.append_nil]
    rw [h.device] at hpass
    exact h.emits.drop hpass

theorem Routes.handle (h : Routes deviceId w) {p : MeshPacket} (hp : w.inHand = some p) :
    Routes deviceId w.routing := by
  have hsmall : p.ttl.toNat + p.hops.toNat ≤ 255 :=
    h.small p (List.mem_append_left _ (by rw [hp]; exact List.mem_singleton_self p))
  have hseen := h.seen_route p
  obtain ⟨seenPackets, hmesh⟩ := w.mesh.exists_route_eq p
  rw [hmesh] at hseen
  rw [routing_of_inHand hp, hmesh]
  exact ⟨h.device, h.callback, hseen, fun q hq => h.small q (List.mem_append_right _ hq),
    h.emits_route hsmall⟩

theorem waiting_dequeue (hnone : w.inHand = none) :
    waiting { w with mesh := w.mesh.dequeue.1, inHand := w.mesh.dequeue.2 } = w.waiting := by
  unfold waiting MeshNetwork.dequeue
  rw [hnone]
  split
  · rfl
  · rename_i hq
    rw [hq]
    rfl

theorem waiting_queue (w : Loop κ) (p : MeshPacket) :
    (w.step (.queue p)).waiting = w.waiting ++ [p] := (List.append_assoc ..).symm

theorem Routes.step (h : Routes deviceId w) (ev : Event) (hsmall : Small w ev) :
    Routes deviceId (w.step ev) := by
  cases ev with
  | queue p =>
    refine ⟨h.device, h.callback, h.seen, fun q hq => ?_, h.emits⟩
    rw [waiting_queue] at hq
    rcases List.mem_append.mp hq with hq | hq
    · exact h.small q hq
    · rw [List.mem_singleton.mp hq]
      exact hsmall
  | routing =>
    show Routes deviceId w.routing
    rcases hp : w.inHand with _ | p
    · unfold routing
      rw [hp]
      simp only
      split
      · have hsmall := h.small
        rw [← waiting_dequeue hp] at hsmall
        obtain ⟨sendQueue, hmesh⟩ := w.mesh.exists_dequeue_eq
        rw [hmesh] at hsmall ⊢
        exact ⟨h.device, h.callback, h.seen, hsmall, h.emits⟩
      · exact h
    · exact h.handle hp

def queued : List Event → List MeshPacket
  | [] => []
  | .queue p :: evs => p :: queued evs
  | .routing :: evs => queued evs

theorem step_packets (w : Loop κ) (ev : Event) :
    (w.step ev).handled ++ (w.step ev).waiting = w.handled ++ w.waiting ++ queued [ev] := by
  cases ev with
  | queue p =>
    rw [waiting_queue, ← List.append_assoc]
    rfl
  | routing =>
    show w.routing.handled ++ w.routing.waiting = w.handled ++ w.waiting ++ []
    rw [List.append_nil]
    unfold routing
    split
    · rename_i p hp
      rw [waiting, waiting, hp]
      obtain ⟨seenPackets, hmesh⟩ := w.mesh.exists_route_eq p
      rw [hmesh, List.append_assoc]
      rfl
    · rename_i hp
      split
      · rw [waiting_dequeue hp]
      · rfl

/-- **First in, first handled**: what was put in the queue is handled in that order. -/
theorem run_packets (w : Loop κ) (evs : List Event) :
    (evs.foldl step w).handled ++ (evs.foldl step w).waiting =
      w.handled ++ w.waiting ++ queued evs := by
  induction evs generalizing w with
  | nil => exact (List.append_nil _).symm
  | cons ev evs ih =>
    rw [List.foldl_cons, ih, step_packets, List.append_assoc]
    cases ev <;> rfl

theorem round_spec (hnone : w.inHand = none) (hrun : w.mesh.running = true) {p : MeshPacket}
    {rest : List MeshPacket} (hq : w.mesh.sendQueue = p :: rest) :
    w.routing.routing.inHand = none ∧ w.routing.routing.mesh.running = true ∧
      w.routing.routing.mesh.sendQueue = rest := by
  have htaken : w.routing =
      { w with mesh := { w.mesh with sendQueue := rest }, inHand := some p } := by
    unfold routing MeshNetwork.dequeue
    rw [hnone, hq]
    exact if_pos hrun
  rw [htaken]
  refine ⟨rfl, ?_⟩
  show ((MeshNetwork.route _ p).1.running = true) ∧ (MeshNetwork.route _ p).1.sendQueue = rest
  obtain ⟨seenPackets, hmesh⟩ := MeshNetwork.exists_route_eq { w.mesh with sendQueue := rest } p
  rw [hmesh]
  exact ⟨hrun, rfl⟩

/-- **The loop gets through its queue**: two regions for each packet. -/
theorem drains (n : ℕ) (hnone : w.inHand = none) (hrun : w.mesh.running = true)
    (hn : w.mesh.sendQueue.length = n) :
    ((List.replicate (2 * n) Event.routing).foldl step w).waiting = [] := by
  induction n generalizing w with
  | zero =>
    show w.inHand.toList ++ w.mesh.sendQueue = []
    rw [hnone, List.length_eq_zero_iff.mp hn]
    rfl
  | succ n ih =>
    obtain ⟨p, rest, hq⟩ := List.exists_cons_of_length_eq_add_one hn
    obtain ⟨hnone', hrun', hq'⟩ := round_spec hnone hrun hq
    rw [hq, List.length_cons] at hn
    exact ih hnone' hrun' ((congrArg List.length hq').trans (by omega))

/-- **Handed over exactly once**, of the packets handled at any point of a run, if and only
if none with hops left that is the first of its id is a broadcast, or the device is itself
called `broadcast`. -/
theorem handedOnce_iff (deviceId : Bytes) (cb : κ) {evs : List Event}
    (h : Along step Small (fresh deviceId cb) evs) :
    HandedOnce deviceId (evs.foldl step (fresh deviceId cb)).handled
        (evs.foldl step (fresh deviceId cb)).invoked ↔
      ∀ p, First MeshPacket.packetId (evs.foldl step (fresh deviceId cb)).handled p →
        p.ttl > 0 → p.recipientDeviceId = broadcastId → deviceId = broadcastId := by
  have hroutes := h.invariant (I := Routes deviceId) (fun _ ev hsmall hr => hr.step ev hsmall)
    (routes_fresh deviceId cb)
  refine (hroutes.emits.weaken_iff fun p hp => ⟨hp.1, .inl hp.2⟩).trans ?_
  refine forall₂_congr fun p _ => ⟨fun hsame httl hb => ?_, fun hsame hp => ⟨hp.1, ?_⟩⟩
  · exact (hsame ⟨httl, .inr hb⟩).2.symm.trans hb
  · exact hp.2.elim id fun hb => hb.trans (hsame hp.1 hb).symm

def samplePacket (recipientDeviceId : Bytes) : MeshPacket where
  packetId := zeros 16
  senderMeshId := octets ['m']
  recipientDeviceId
  payload := [1]
  ttl := 10
  hops := 0
  timestamp := 0

def sampleEvents (recipientDeviceId : Bytes) : List Event :=
  [.queue (samplePacket recipientDeviceId), .routing, .routing]

theorem handedOnce_iff_bob :
    HandedOnce (octets ['b'])
        ((sampleEvents (octets ['b'])).foldl step (fresh (octets ['b']) ())).handled
        ((sampleEvents (octets ['b'])).foldl step (fresh (octets ['b']) ())).invoked ↔
      ∀ p, First MeshPacket.packetId
          ((sampleEvents (octets ['b'])).foldl step (fresh (octets ['b']) ())).handled p →
        p.ttl > 0 → p.recipientDeviceId = broadcastId → octets ['b'] = broadcastId :=
  handedOnce_iff (octets ['b']) () ⟨by show 10 + 0 ≤ 255; decide, trivial, trivial, trivial⟩

/-- **A broadcast is not handed over.** -/
theorem broadcast_not_handed :
    ((sampleEvents broadcastId).foldl step (fresh (octets ['b']) ())).handled =
        [samplePacket broadcastId] ∧
      ((sampleEvents broadcastId).foldl step (fresh (octets ['b']) ())).invoked = [] ∧
      ¬ HandedOnce (octets ['b'])
        ((sampleEvents broadcastId).foldl step (fresh (octets ['b']) ())).handled
        ((sampleEvents broadcastId).foldl step (fresh (octets ['b']) ())).invoked := by
  have hhandled : ((sampleEvents broadcastId).foldl step (fresh (octets ['b']) ())).handled =
      [samplePacket broadcastId] := by decide +kernel
  have hinvoked : ((sampleEvents broadcastId).foldl step (fresh (octets ['b']) ())).invoked = [] := by
    decide +kernel
  refine ⟨hhandled, hinvoked, fun h => ?_⟩
  rw [hhandled, hinvoked] at h
  have hone := h.once (samplePacket broadcastId) rfl ⟨by decide, .inr rfl⟩
  cases hone

end Loop

end SecureComm
