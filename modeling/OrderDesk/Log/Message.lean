import OrderDesk.Text.Decimal
import OrderDesk.Text.Utf8

/-!
Messages of a log. A message has a position: its partition, and its offset there.
-/

namespace OrderDesk

structure Message where
  topic : String
  key : Option Text.Utf8.Bytes
  payload : Option Text.Utf8.Bytes
  partition : Int32
  offset : Int64
deriving DecidableEq, Repr

namespace Message

def keyText (m : Message) : String :=
  match m.key with
  | some bs => Text.Utf8.toStringLossy bs
  | none => ""

/-- What identifies a message: its key, partition and offset. -/
def processedKey (m : Message) : String :=
  m.keyText ++ "_" ++ Text.Decimal.intText m.partition.toInt ++ "_" ++
    Text.Decimal.intText m.offset.toInt

def bytes (m : Message) : Text.Utf8.Bytes := m.payload.getD []

end Message

end OrderDesk
