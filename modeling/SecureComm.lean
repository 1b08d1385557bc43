import SecureComm.Crypto.Sodium
import SecureComm.Lib.KeyPath
import SecureComm.Lib.Table
import SecureComm.Crypto.Aead
import SecureComm.Envelope
import SecureComm.Ratchet.Kdf
import SecureComm.Ratchet.Basic
import SecureComm.Ratchet.Spec
import SecureComm.Ratchet.Atomicity
import SecureComm.Lib.Run
import SecureComm.Ratchet.Chains
import SecureComm.Ratchet.Lifetime
import SecureComm.Ratchet.Channel
import SecureComm.Ratchet.Delivery
import SecureComm.Ratchet.Agreement
import SecureComm.Ratchet.Schedule
import SecureComm.Ratchet.Tracking
import SecureComm.Ratchet.Replay
import SecureComm.Ratchet.KeyLog
import SecureComm.Ratchet.Secrecy
import SecureComm.Ratchet.KeyUse
import SecureComm.Ratchet.Export
import SecureComm.Dispatcher.Basic
import SecureComm.Dispatcher.Network
import SecureComm.Lib.Chan
import SecureComm.Server.Database
import SecureComm.Server.Relay
import SecureComm.Server.Operations
import SecureComm.Server.Provenance
import SecureComm.Server.Presence
import SecureComm.Server.Routing
import SecureComm.Server.Conservation
import SecureComm.Lib.Precedes
import SecureComm.Server.Ordering
import SecureComm.Server.Keys
import SecureComm.Server.Access
import SecureComm.Server.Accounts
import SecureComm.Dispatcher.Ledger
import SecureComm.Dispatcher.Integrity
import SecureComm.Dispatcher.Origin
import SecureComm.Lib.Cursor
import SecureComm.Lib.WordReader
import SecureComm.Dispatcher.Frame
import SecureComm.Envelope.Serialize
import SecureComm.Envelope.Hostile
import SecureComm.X3dh.Agreement
import SecureComm.X3dh.Session
import SecureComm.Lib.Slots
import SecureComm.Mls.Epochs
import SecureComm.Mls.Managers
import SecureComm.Mls.Members
import SecureComm.Offline.Dispatcher
import SecureComm.Offline.Retention
import SecureComm.Server.Redemption
import SecureComm.Offline.Retry
import SecureComm.Dispatcher.SessionIds
import SecureComm.Ratchet.Convergence
import SecureComm.Transport.WebSocket
import SecureComm.Dispatcher.Callbacks
import SecureComm.Ratchet.Raw
import SecureComm.Lib.Base64
import SecureComm.Mls.Leaves
import SecureComm.Server.Contacts
import SecureComm.Server.Prekeys
import SecureComm.Lib.Hkdf
import SecureComm.Ratchet.Hkdf
import SecureComm.Offline.Cleanup
import SecureComm.Transport.Wakeups
import SecureComm.Lib.RawReads
import SecureComm.X3dh.Reads
import SecureComm.Lib.Holders
import SecureComm.Server.Node
import SecureComm.Lib.Firsts
import SecureComm.Mesh.Basic
import SecureComm.Mesh.Delivery
import SecureComm.Mesh.Callbacks
import SecureComm.Mesh.Lifecycle
import SecureComm.Lib.Condition
import SecureComm.Transport.InMemory
import SecureComm.Transport.Delivery
import SecureComm.Transport.Shutdown
import SecureComm.Dispatcher.Desktop
import SecureComm.Dispatcher.Settling
import SecureComm.Ratchet.Compromise
import SecureComm.Lib.Depot
import SecureComm.Server.Placement
import SecureComm.Server.Writing
import SecureComm.Lib.Dict
import SecureComm.Lib.Pipe
import SecureComm.Server.Broadcast
import SecureComm.Android.ChatScreen
import SecureComm.Android.Chat
import SecureComm.Android.Log
import SecureComm.Android.Online
import SecureComm.Android.Conversation
import SecureComm.Offline.Ledger
import SecureComm.Offline.Outpost
import SecureComm.Offline.EndToEnd
import SecureComm.Mesh.Discovery
import SecureComm.Server.Otp
import SecureComm.Android.SignIn
