import OrderDesk.Tables.Statement

/-!
What the columns of the tables can hold: no nulls, values of their types, and within their bounds. A
server's texts are without the character of code point zero, and its days begin in 4714 BC.
-/

namespace OrderDesk.Tables

def Bound.holds : Bound → Int64 → Bool
  | .notNegative, i => 0 ≤ i
  | .between low high, i => low ≤ i.toInt && i.toInt ≤ high

def holdsText (s : String) : Bool := !s.toList.contains '\x00'

/-- The first day is 24 November 4714 BC, which is in the year -4713. -/
def holdsMoment (t : Moment) : Bool :=
  -4713 < t.year || (t.year = -4713 && (11 < t.month || (t.month = 11 && 24 ≤ t.day)))

def Column.holds (c : Column) : Cell → Bool
  | none => false
  | some (.text s) => c.type = .text && holdsText s
  | some (.integer i) => (c.type = .integer || c.type = .serial) && c.bound.all fun b => b.holds i
  | some (.moment t) => c.type = .timestamp && holdsMoment t

def Table.holds (t : Table) (row : List Cell) : Bool :=
  row.length = t.columns.length && (t.columns.zip row).all fun c => c.1.holds c.2

end OrderDesk.Tables
