import SecureComm.Basic

/-!
# Messages of the relay

What clients of the Go server send each other through it, and the JSON coding
of it, which is a parameter: `unmarshal` is what `json.Unmarshal` makes of a
frame (`none` where it returns an error), so it ranges over every frame a
client may send, well formed or not.
-/

namespace SecureComm.Server

structure Message where
  type : String
  messageID : String
  senderID : String
  recipient : String
  payload : Bytes
  timestamp : Int64
deriving DecidableEq

structure PaymentRequest where
  type : String
  phoneNumber : String
  amount : Int64
  reference : String
  description : String
  callbackURL : String
deriving DecidableEq

/-- The map `response` of `processPayment`. -/
structure PaymentConfirmation where
  type : String
  success : Bool
  reference : String
  amount : Int64
  timestamp : Int64
  description : String
deriving DecidableEq

/-- `encoding/json`, at the types the relay uses it for. -/
structure Json where
  marshal : Message → Bytes
  unmarshal : Bytes → Option Message
  unmarshalPayment : Bytes → Option PaymentRequest
  marshalConfirmation : PaymentConfirmation → Bytes

namespace Message

def IsPayment (m : Message) : Prop := m.type = "payment"

instance (m : Message) : Decidable m.IsPayment := inferInstanceAs (Decidable (_ = _))

/-- The same message with another time stamp. -/
def stamped (m : Message) (now : Int64) : Message := { m with timestamp := now }

@[simp] theorem stamped_stamped (m : Message) (now now' : Int64) :
    (m.stamped now).stamped now' = m.stamped now' := rfl

end Message

/-- What `processPayment` answers a payment with. -/
def paymentAck (J : Json) (payment : PaymentRequest) (senderID : String) (now : Int64) : Message where
  type := "payment_ack"
  messageID := ""
  senderID := "server"
  recipient := senderID
  payload := J.marshalConfirmation
    { type := "payment_confirmation"
      success := true
      reference := payment.reference
      amount := payment.amount
      timestamp := now
      description := "Payment processed successfully (simulated)" }
  timestamp := now

/-! ## Sample messages -/

namespace Sample

def text (m : Message) : Bytes :=
  octets ("\x7b\"type\":\"".toList ++ m.type.toList ++ "\",\"message_id\":\"".toList ++
    m.messageID.toList ++ "\",\"sender_id\":\"".toList ++ m.senderID.toList ++
    "\",\"recipient\":\"".toList ++ m.recipient.toList ++
    "\",\"payload\":\"\",\"timestamp\":".toList ++ (toString m.timestamp.toInt).toList ++
    "\x7d".toList)

def hello (sender id : String) : Message where
  type := "message"
  messageID := id
  senderID := sender
  recipient := "bob"
  payload := []
  timestamp := 0

def messages : List Message := [hello "alice" "1", hello "alice" "2", hello "carol" "1"]

def json : Json where
  marshal := text
  unmarshal data := messages.find? fun m => text m = data
  unmarshalPayment _ := none
  marshalConfirmation _ := []

example : json.unmarshal (text (hello "carol" "1")) = some (hello "carol" "1") := by decide +kernel

end Sample

end SecureComm.Server
