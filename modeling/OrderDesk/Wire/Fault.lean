import OrderDesk.Numeric.Shortest
import OrderDesk.Text.Quoted
import OrderDesk.Time.Rfc3339

/-!
Why a payload is no order. A payload may break the grammar, end too early, or be well formed and
hold something else than expected; the first of these met in reading order is the one reported.
-/

namespace OrderDesk.Wire

inductive Found where
  | null
  | boolean (b : Bool)
  | integer (i : Int)
  | float (x : Binary64)
  | text (s : String)
  | sequence
  | map
deriving DecidableEq, Repr

def Found.describe : Found → String
  | .null => "null"
  | .boolean b => "boolean `" ++ (if b then "true" else "false") ++ "`"
  | .integer i => "integer `" ++ Text.Decimal.intText i ++ "`"
  | .float x => "floating point `" ++ String.ofList x.text ++ "`"
  | .text s => "string " ++ Text.quoted s
  | .sequence => "sequence"
  | .map => "map"

inductive Mismatch where
  | wrongType (found : Found) (expected : String)
  | wrongValue (found : Found) (expected : String)
  | wrongLength (length : Nat) (record : String) (fields : Nat)
  | missing (field : String)
  | duplicate (field : String)
  | unknownName (found : String) (names : List String)
  | moment (fault : Rfc3339.Fault)
deriving DecidableEq, Repr

def oneOf : List String → String
  | [a, b] => "`" ++ a ++ "` or `" ++ b ++ "`"
  | names => "one of " ++ String.intercalate ", " (names.map fun a => "`" ++ a ++ "`")

def Mismatch.message : Mismatch → String
  | .wrongType f e => "invalid type: " ++ f.describe ++ ", expected " ++ e
  | .wrongValue f e => "invalid value: " ++ f.describe ++ ", expected " ++ e
  | .wrongLength n r k =>
    "invalid length " ++ Text.Decimal.natText n ++ ", expected struct " ++ r ++ " with " ++
      Text.Decimal.natText k ++ " elements"
  | .missing f => "missing field `" ++ f ++ "`"
  | .duplicate f => "duplicate field `" ++ f ++ "`"
  | .unknownName s names => "unknown variant `" ++ s ++ "`, expected " ++ oneOf names
  | .moment f => f.message

inductive Fault where
  | malformed
  | eof
  | data (why : Mismatch)
deriving DecidableEq, Repr

end OrderDesk.Wire
