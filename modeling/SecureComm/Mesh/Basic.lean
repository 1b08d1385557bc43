import Mathlib.Data.List.Sort
import SecureComm.Basic
import SecureComm.Lib.Table

/-!
# The mesh network

The state behind a `MeshNetwork`, its public methods, and the two loops of its
threads by the regions they run under the mutex. Packets reach the routing loop
from the queue that `send_packet` fills; nothing is sent over the air yet, and
forwarding a packet only logs. Callbacks are named by `κ`.
-/

namespace SecureComm

structure MeshPacket where
  packetId : Bytes
  senderMeshId : Bytes
  recipientDeviceId : Bytes
  payload : Bytes
  ttl : UInt8
  hops : UInt8
  timestamp : UInt64
  deriving DecidableEq

structure MeshPeer where
  meshId : Bytes
  deviceId : Bytes
  /-- Bluetooth MAC, IP, etc. -/
  address : Bytes
  hasInternet : Bool
  signalStrength : Int32
  lastSeen : UInt64
  deriving DecidableEq

structure MeshNetwork (κ : Type) where
  deviceId : Bytes := []
  meshId : Bytes := []
  running : Bool := false
  peers : Table Bytes MeshPeer := ∅
  seenPackets : List Bytes := []
  sendQueue : List MeshPacket := []
  onPacketReceived : Option κ := none
  onPeerDiscovered : Option κ := none

/-- What `send_packet` draws and what the clock shows. -/
structure PacketDraw where
  packetId : BytesN 16
  now : UInt64

/-- The recipient that stands for everybody. -/
def broadcastId : Bytes := octets ['b', 'r', 'o', 'a', 'd', 'c', 'a', 's', 't']

namespace MeshNetwork

variable {κ : Type}

/-! ## Methods -/

/-- `MeshNetwork::initialize`. -/
def initializeWith (t : MeshNetwork κ) (deviceId : Bytes) : MeshNetwork κ := { t with deviceId }

/-- The threads are started, unless they run. -/
def start (t : MeshNetwork κ) : MeshNetwork κ := if t.running then t else { t with running := true }

/-- Called from outside, `stop` returns when both threads have ended. -/
def stop (t : MeshNetwork κ) : MeshNetwork κ := { t with running := false }

def sendPacket (t : MeshNetwork κ) (recipientDeviceId payload : Bytes) (draw : PacketDraw) :
    MeshNetwork κ :=
  { t with
    sendQueue := t.sendQueue ++
      [{ packetId := draw.packetId.val, senderMeshId := t.meshId, recipientDeviceId, payload
         ttl := 10, hops := 0, timestamp := draw.now }] }

def broadcast (t : MeshNetwork κ) (payload : Bytes) (draw : PacketDraw) : MeshNetwork κ :=
  t.sendPacket broadcastId payload draw

def hasInternetConnection (t : MeshNetwork κ) : Bool :=
  t.peers.entries.any fun e => e.2.hasInternet

/-- The peers in the order of their mesh ids. -/
def getPeers (t : MeshNetwork κ) : List MeshPeer :=
  (t.peers.entries.map fun e => e.2).insertionSort fun p q => p.meshId ≤ q.meshId

def setOnPacketReceived (t : MeshNetwork κ) (cb : κ) : MeshNetwork κ :=
  { t with onPacketReceived := some cb }

def setOnPeerDiscovered (t : MeshNetwork κ) (cb : κ) : MeshNetwork κ :=
  { t with onPeerDiscovered := some cb }

/-! ## The routing loop -/

/-- The first region of a round: a packet is taken out of the queue, if there is one. -/
def dequeue (t : MeshNetwork κ) : MeshNetwork κ × Option MeshPacket :=
  match t.sendQueue with
  | [] => (t, none)
  | packet :: sendQueue => ({ t with sendQueue }, some packet)

end MeshNetwork

def MeshPacket.hop (packet : MeshPacket) : MeshPacket :=
  { packet with ttl := packet.ttl - 1, hops := packet.hops + 1 }

namespace MeshNetwork

variable {κ : Type}

/-- The second region, up to the callback: the packet that is for this device. -/
def route (t : MeshNetwork κ) (packet : MeshPacket) : MeshNetwork κ × Option MeshPacket :=
  if packet.packetId ∈ t.seenPackets then (t, none)
  else
    let t := { t with seenPackets := packet.packetId :: t.seenPackets }
    if packet.ttl > 0 then
      let packet := packet.hop
      if packet.recipientDeviceId = t.deviceId then (t, some packet)
      else (t, none) -- what is forwarded to the peers with internet is a line of the log
    else (t, none)

theorem exists_dequeue_eq (t : MeshNetwork κ) :
    ∃ sendQueue, t.dequeue.1 = { t with sendQueue } := by
  unfold dequeue
  split
  · exact ⟨t.sendQueue, rfl⟩
  · exact ⟨_, rfl⟩

/-- What `route` does with a packet: it has been seen, it is handed over, or it is not. -/
theorem route_cases (t : MeshNetwork κ) (p : MeshPacket) :
    (p.packetId ∈ t.seenPackets ∧ t.route p = (t, none)) ∨
    (p.packetId ∉ t.seenPackets ∧ (t.route p).1 =
        { t with seenPackets := p.packetId :: t.seenPackets } ∧
      ((p.ttl > 0 ∧ p.recipientDeviceId = t.deviceId) ∧ (t.route p).2 = some p.hop ∨
        ¬ (p.ttl > 0 ∧ p.recipientDeviceId = t.deviceId) ∧ (t.route p).2 = none)) := by
  unfold route
  split
  · rename_i hseen
    exact .inl ⟨hseen, rfl⟩
  · rename_i hseen
    refine .inr ⟨hseen, ?_⟩
    simp only
    split
    · rename_i httl
      split
      · rename_i hr
        exact ⟨rfl, .inl ⟨⟨httl, hr⟩, rfl⟩⟩
      · rename_i hr
        exact ⟨rfl, .inr ⟨fun h => hr h.2, rfl⟩⟩
    · rename_i httl
      exact ⟨rfl, .inr ⟨fun h => httl h.1, rfl⟩⟩

theorem exists_route_eq (t : MeshNetwork κ) (p : MeshPacket) :
    ∃ seenPackets, (t.route p).1 = { t with seenPackets } := by
  rcases route_cases t p with ⟨-, hroute⟩ | ⟨-, hmesh, -⟩
  · exact ⟨t.seenPackets, congrArg Prod.fst hroute⟩
  · exact ⟨_, hmesh⟩

theorem of_route_eq_some {t : MeshNetwork κ} {p q : MeshPacket} (h : (t.route p).2 = some q) :
    q = p.hop ∧ p.recipientDeviceId = t.deviceId := by
  rcases route_cases t p with ⟨-, hroute⟩ | ⟨-, -, ⟨hp, hq⟩ | ⟨-, hq⟩⟩
  · exact nomatch (congrArg Prod.snd hroute).symm.trans h
  · exact ⟨Option.some.inj (h.symm.trans hq), hp.2⟩
  · exact nomatch hq.symm.trans h

/-! ## The discovery loop -/

/-- The peer that is simulated when the counter stands at `n`. -/
def simulatedPeer (n : ℕ) (now : UInt64) : MeshPeer where
  meshId := octets "simulated-peer-".toList ++ octets (Nat.toDigits 10 n)
  deviceId := octets "device-".toList ++ octets (Nat.toDigits 10 n)
  address := octets "00:11:22:33:44:55".toList
  hasInternet := n % 3 = 0
  signalStrength := 75
  lastSeen := now

/-- A round up to the callback, with the peer that is new. Every tenth round simulates one. -/
def discover (t : MeshNetwork κ) (counter : ℕ) (now : UInt64) : MeshNetwork κ × Option MeshPeer :=
  if counter % 10 = 0 then
    let peer := simulatedPeer (counter + 1) now
    if peer.meshId ∈ t.peers then (t, none)
    else ({ t with peers := t.peers.insert peer.meshId peer }, some peer)
  else (t, none)

/-- The rest of a round: peers not seen for five minutes go. -/
def dropOld (t : MeshNetwork κ) (now : UInt64) : MeshNetwork κ :=
  { t with
    peers := ⟨t.peers.entries.filter fun e => ¬ now - e.2.lastSeen > 300,
      (List.filter_sublist.map Sigma.fst).nodup t.peers.nodupKeys⟩ }

end MeshNetwork

end SecureComm
