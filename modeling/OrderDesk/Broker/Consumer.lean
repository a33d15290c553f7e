import OrderDesk.Desk.Counter
import OrderDesk.Log.Scripted
import OrderDesk.Text.Blank
import OrderDesk.Text.Expression
import OrderDesk.Wire.Order

/-!
Consumers of a broker's topic. Before a consumer is made its settings are checked: brokers, group and
topic have to be there, then each property has to have a value it allows, then properties have to
agree, and last the topic has to be one that can be subscribed to.
-/

namespace OrderDesk.Broker

structure ConsumerSettings where
  brokers : Option String
  groupId : Option String
  topic : Option String
  autoOffsetReset : Option String
  sessionTimeout : Option Nat
  heartbeatInterval : Option Nat
  maxPollInterval : Option Nat
deriving DecidableEq, Repr

structure Consumer where
  topic : String
  groupId : String
  closed : Bool
deriving DecidableEq, Repr

inductive BuildFault where
  | refused (e : LogError)
  /-- The topic holds the character that ends a name, so that no subscription can name it. -/
  | unnameable
deriving DecidableEq, Repr

/-! ## Properties -/

def notCreated (why : String) : LogError :=
  .connectionFailed ("Failed to create consumer: " ++ why)

def mostComplaint : Nat := 511

def complaint (text : String) : String :=
  Text.Utf8.toStringLossy ((Text.Utf8.ofString text).take mostComplaint)

def badProperty (why name value : String) : LogError :=
  notCreated ("Client config error: " ++ complaint why ++ " " ++ name ++ " " ++ value)

def holdsNul (s : String) : Bool := s.toList.any fun c => c.toNat = 0

def textProperty (value : String) : Except LogError Unit :=
  if holdsNul value then .error (notCreated "FFI null error") else .ok ()

def propertyValue (n : Nat) : Int := Int.bmod (min n (twoTo 63 - 1) : Nat) (twoTo 32)

def numberProperty (name : String) (most n : Nat) : Except LogError Int :=
  let i := propertyValue n
  if 1 ≤ i ∧ i ≤ most then .ok i
  else
    .error (badProperty
      ("Configuration property \"" ++ name ++ "\" value " ++ Text.Decimal.intText i ++
        " is outside allowed range 1.." ++ Text.Decimal.natText most ++ "\n")
      name (Text.Decimal.natText n))

def offsetResets : List String :=
  ["smallest", "earliest", "beginning", "largest", "latest", "end", "error"]

def isAsciiBlank (c : Char) : Bool := c = ' ' || (0x09 ≤ c.toNat && c.toNat ≤ 0x0D)

/-- The property that says where to start, in any case of letters. White space before the word is
skipped, and white space alone changes nothing. -/
def offsetResetProperty (value : String) : Except LogError Unit :=
  let name := "auto.offset.reset"
  let word := String.ofList (value.toList.dropWhile isAsciiBlank)
  if value = "" then
    .error (badProperty
      ("Configuration property \"" ++ name ++ "\" cannot be set to empty value") name value)
  else if word = "" ∨ String.ofList (word.toList.map Char.toLower) ∈ offsetResets then .ok ()
  else
    .error (badProperty
      ("Invalid value \"" ++ word ++ "\" for configuration property \"" ++ name ++ "\"")
      name value)

/-! ## Subscribing -/

def required (name : String) (value : Option String) : Except LogError String :=
  match value with
  | some s =>
    if Text.blank s then .error (.connectionFailed (name ++ " not configured")) else .ok s
  | none => .error (.connectionFailed (name ++ " not configured"))

/-- Whether a topic can be subscribed to: one that starts with a caret is a regular expression. -/
def isSubscribable (topic : String) : Bool :=
  match topic.toList with
  | '^' :: _ => Text.Expression.wellFormed topic
  | _ => true

namespace ConsumerSettings

def check (s : ConsumerSettings) (brokers groupId : String) : Except LogError Unit := do
  let reset := s.autoOffsetReset.getD "earliest"
  textProperty brokers
  textProperty groupId
  textProperty reset
  offsetResetProperty reset
  let session ← numberProperty "session.timeout.ms" 3600000 (s.sessionTimeout.getD 10000)
  let _ ← numberProperty "heartbeat.interval.ms" 3600000 (s.heartbeatInterval.getD 3000)
  let poll ← numberProperty "max.poll.interval.ms" 86400000 (s.maxPollInterval.getD 300000)
  if poll < session then
    throw (notCreated ("Client creation error: " ++
      "`max.poll.interval.ms`must be >= `session.timeout.ms`"))

def unsubscribed (s : ConsumerSettings) : Except LogError Consumer := do
  let brokers ← required "brokers" s.brokers
  let groupId ← required "group id" s.groupId
  let topic ← required "topic" s.topic
  s.check brokers groupId
  pure ⟨topic, groupId, false⟩

def consumer (s : ConsumerSettings) : Except BuildFault Consumer :=
  match s.unsubscribed with
  | .error e => .error (.refused e)
  | .ok c =>
    if holdsNul c.topic then .error .unnameable
    else if isSubscribable c.topic then .ok c
    else
      .error (.refused (.subscriptionFailed c.topic
        "Subscription error: Local: Invalid argument or configuration"))

end ConsumerSettings

def subscribed : Event := ⟨.info, "Subscribed to topic"⟩

namespace Consumer

/-- Closes a consumer; a second time nothing happens. -/
def close (c : Consumer) : Consumer × List Event :=
  if c.closed then (c, []) else ({ c with closed := true }, [⟨.info, "Closing consumer"⟩])

def pollUnreachable (c : Consumer) : LogError :=
  if c.closed then ScriptedLog.closedError
  else .poll ("Message consumption error: " ++
    "BrokerTransportFailure (Local: Broker transport failure)")

end Consumer

/-! ## Publishing -/

def mostRecord : Nat := 1000000
def recordOverhead : Nat := 36

def isOversize (o : Order) : Bool :=
  mostRecord < recordOverhead + (Text.Utf8.ofString o.uid).length + (Wire.encodeOrder o).length

/-- Publishing while the broker cannot be reached: an order that is too large is refused, any other
waits in vain. No topic is named by a text that holds the character that ends a name. -/
def publishUnreachable (topic : String) (o : Order) : Option (PublishError × List Event) :=
  if holdsNul topic then none
  else
    let why :=
      if isOversize o then "MessageSizeTooLarge (Broker: Message size too large)"
      else "MessageTimedOut (Local: Message timed out)"
    some (.send topic ("Message production error: " ++ why),
      [⟨.error, "Failed to publish order"⟩])

end OrderDesk.Broker
