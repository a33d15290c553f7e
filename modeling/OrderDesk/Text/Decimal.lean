import OrderDesk.Numeric.Powers

/-!
Whole numbers in decimal. Writing gives the shortest form; reading takes an optional sign and one
or more ASCII digits, leading zeros too, and nothing else.
-/

namespace OrderDesk.Text.Decimal

def ofNat (n : Nat) : List Char := Nat.toDigits 10 n

def ofInt (i : Int) : List Char :=
  if i < 0 then '-' :: ofNat i.natAbs else ofNat i.natAbs

def padded (width n : Nat) : List Char :=
  List.replicate (width - (ofNat n).length) '0' ++ ofNat n

def isDigit (c : Char) : Bool := '0' ≤ c && c ≤ '9'

def digitValue (c : Char) : Nat := c.toNat - '0'.toNat

def value (ds : List Char) : Nat := ds.foldl (fun n c => 10 * n + digitValue c) 0

def natOf? (s : List Char) : Option Nat :=
  if s ≠ [] ∧ s.all isDigit then some (value s) else none

def unsigned? : List Char → Option Nat
  | '+' :: s => natOf? s
  | s => natOf? s

def signed? : List Char → Option Int
  | '-' :: s => (natOf? s).map fun n => -(n : Int)
  | s => (unsigned? s).map Int.ofNat

def int64? (s : List Char) : Option Int64 :=
  match signed? s with
  | some i => if -(twoTo 63 : Int) ≤ i ∧ i < twoTo 63 then some (Int64.ofInt i) else none
  | none => none

def word? (bits : Nat) (s : List Char) : Option Nat :=
  match unsigned? s with
  | some n => if n < twoTo bits then some n else none
  | none => none

def natText (n : Nat) : String := String.ofList (ofNat n)

def intText (i : Int) : String := String.ofList (ofInt i)

end OrderDesk.Text.Decimal
