import SecureComm.Lib.Base64
import SecureComm.Server.Broadcast

/-!
# The chat screen

What `ChatScreen` writes when a message is sent, and what its listener makes of
the objects that come in. A text is a string of characters, so it has no half
of a surrogate pair.
-/

namespace SecureComm.Android

open Base64 Node

/-- What the platform makes of base64 and of bytes, and how it writes what is no text. -/
structure Platform where
  /-- `Base64.decode`, which throws or not. -/
  decode : String → Option Bytes
  /-- `String(bytes)`. -/
  string : Bytes → String
  /-- The text of an array that is the id of a user. -/
  array : ℕ → String
  /-- The text of an object. -/
  raw : Out → String
  decode_encode : ∀ src, decode (stdEncoding.encodeToString src) = some src
  string_bytes : ∀ s : String, string s.toUTF8.data.toList = s

def Platform.sample : Platform where
  decode s := if (stdEncoding.decodeString s).2 then some (stdEncoding.decodeString s).1 else none
  string bytes := (String.fromUTF8? ⟨bytes.toArray⟩).getD ""
  array _ := ""
  raw _ := ""
  decode_encode src := by
    rw [decodeString_encodeToString]
    rfl
  string_bytes s := by
    have h : ByteArray.IsValidUTF8 ⟨s.toUTF8.data⟩ := s.isValidUTF8
    rw [Array.toArray_toList, String.fromUTF8?, dif_pos h]
    rfl

structure ChatMessage where
  text : String
  isSent : Bool
  timestamp : ℤ
  senderName : String
  deriving DecidableEq

/-- An object as the listener reads it; what the relay writes under `users` are objects. -/
structure Received where
  type : Option Value := none
  users : Option (List OnlineUser) := none
  senderId : Option Value := none
  senderName : Option Value := none
  payload : Option Value := none
  timestamp : Option ℤ := none
  msg : String

structure Profile where
  userId : Option String
  displayName : String

structure ChatScreen extends Profile where
  /-- The socket of the `WebSocketManager`, the last that was connected. -/
  socket : Option ℕ := none
  messages : List ChatMessage := []
  onlineUsers : List (String × String) := []

def optString (v : Option Value) (fallback : String) : String := (v.map Value.shown).getD fallback

variable (P : Platform)

/-- The keys under which the relay writes. -/
def received : Out → Received
  | .onlineUsers users =>
    { type := some (.text "online_users"), users := some users, msg := P.raw (.onlineUsers users) }
  | .relayed m =>
    { type := some m.type, senderId := m.senderId, payload := m.payload
      timestamp := some m.timestamp, msg := P.raw (.relayed m) }

def idText : ClientId → String
  | .text s => s
  | .array ws => P.array ws

def shownUser (user : OnlineUser) : String × String :=
  ((user.userId.map (idText P)).getD "", user.displayName.getD "")

namespace Profile

def frame (c : Profile) (recipient message : String) (now : ℤ) : Frame where
  type := some (.text "chat")
  messageId := some (.text (toString now))
  senderId := some (.text (c.userId.getD ""))
  senderName := some (.text c.displayName)
  recipient := some (.text recipient)
  timestamp := some (.other (now ≠ 0) (toString now))
  payload := some (.text (stdEncoding.encodeToString message.toUTF8.data.toList))

/-- The token of a connection; without a user there is none. -/
def wsToken (c : Profile) (random : String) : Option Token :=
  c.userId.map fun userId => .text (userId ++ ":" ++ c.displayName ++ ":" ++ random)

/-- What is shown of a text of the app `c`: the relay does not pass a name on, so the sender
goes by its id. -/
def bubble (c c' : Profile) (text : String) (now : ℤ) : ChatMessage :=
  ⟨text, some (c.userId.getD "") = c'.userId, now, c.userId.getD ""⟩

end Profile

namespace ChatScreen

/-- An object that is no message of a user is shown as it is. -/
def showServer (c : ChatScreen) (obj : Received) (now : ℤ) : ChatScreen :=
  { c with messages := c.messages ++ [⟨obj.msg, false, now, "Server"⟩] }

def onMessage (c : ChatScreen) (obj : Received) (now : ℤ) : ChatScreen :=
  if optString obj.type "" = "online_users" then
    { c with onlineUsers := (obj.users.getD []).map (shownUser P) }
  else if optString obj.type "" = "chat" then
    let sender := optString obj.senderId ""
    let senderName := optString obj.senderName sender
    let payload := optString obj.payload ""
    match P.decode payload with
    | some bytes =>
      { c with
        messages := c.messages ++
          [⟨P.string bytes, some sender = c.userId, obj.timestamp.getD now, senderName⟩] }
    | none => c.showServer obj now
  else c.showServer obj now

/-- The sender shows its message whatever becomes of it. -/
def sendClicked (c : ChatScreen) (message : String) (now : ℤ) : ChatScreen :=
  { c with messages := c.messages ++ [⟨message, true, now, c.displayName⟩] }

/-- What an object from the relay makes of the list of users. A relayed frame has no users, so
one that poses as a list empties it. -/
def shownList : Out → Option (List (String × String))
  | .onlineUsers users => some (users.map (shownUser P))
  | .relayed m => if m.type.shown = "online_users" then some [] else none

def added (c : Profile) (out : Out) (now : ℤ) : List ChatMessage :=
  (({ toProfile := c } : ChatScreen).onMessage P (received P out) now).messages

/-- **What an object from the relay does to a screen.** -/
theorem onMessage_eq (c : ChatScreen) (out : Out) (now : ℤ) :
    c.onMessage P (received P out) now = { c with
      messages := c.messages ++ added P c.toProfile out now
      onlineUsers := (shownList P out).getD c.onlineUsers } := by
  match out with
  | .onlineUsers users =>
    unfold added onMessage
    simp [received, optString, Value.shown, shownList]
  | .relayed m =>
    unfold added onMessage
    by_cases hlist : m.type.shown = "online_users"
    · simp [received, optString, shownList, hlist]
    · by_cases hchat : m.type.shown = "chat"
      · simp only [received, optString, Option.map_some, Option.getD_some, shownList, hchat]
        cases P.decode ((m.payload.map Value.shown).getD "") <;> rfl
      · simp [received, optString, shownList, showServer, hlist, hchat]

end ChatScreen

end SecureComm.Android
