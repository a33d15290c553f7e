import OrderDesk.Numeric.Binary64

/-!
The shortest decimal text of a binary64 number: the fewest digits that read back to it, and of
those the nearest.
-/

namespace OrderDesk.Binary64

structure Digits where
  digits : List Char
  exponent : Int
deriving DecidableEq, Repr

def decimalExponent (n d : Nat) : Int :=
  if d ≤ n then (Text.Decimal.ofNat (n / d)).length - 1
  else
    let t := (Text.Decimal.ofNat (d / n)).length
    if d ≤ n * tenTo (t - 1) then 1 - t else -t

/-- The values that round to `m * 2 ^ e`, in quarters of its last place: from `low` to `high`, the
ends included when `m` is even. Below a power of two the numbers lie twice as dense. -/
structure Interval where
  low : Nat
  value : Nat
  high : Nat
  closed : Bool

def intervalOf (m : Nat) (e : Int) : Interval :=
  { low := 4 * m - (if m = twoTo 52 ∧ minExponent < e then 1 else 2)
    value := 4 * m
    high := 4 * m + 2
    closed := m % 2 = 0 }

def Interval.contains (i : Interval) (q k : Int) (c : Nat) : Bool :=
  let point := c * tenTo k.toNat * twoTo (-q).toNat
  let unit := tenTo (-k).toNat * twoTo q.toNat
  let low := i.low * unit
  let high := i.high * unit
  if i.closed then low ≤ point && point ≤ high else low < point && point < high

def Interval.nearest? (i : Interval) (q k : Int) : Option Nat :=
  let n := i.value * twoTo q.toNat * tenTo (-k).toNat
  let d := twoTo (-q).toNat * tenTo k.toNat
  let below := n / d
  let near := roundHalfEven n d
  let far := if near = below then below + 1 else below
  if i.contains q k near then some near
  else if i.contains q k far then some far
  else none

/-- Tries 1 digit, then 2, and so on; 17 always do. -/
def shortestFrom (i : Interval) (q x : Int) : Nat → Nat → Digits
  | 0, _ => ⟨['0'], 0⟩
  | fuel + 1, count =>
    let k := x - count + 1
    match i.nearest? q k with
    | some c =>
      let ds := Text.Decimal.ofNat c
      ⟨ds, k + ds.length - 1⟩
    | none => shortestFrom i q x fuel (count + 1)

def shortest (m : Nat) (e : Int) : Digits :=
  shortestFrom (intervalOf m e) (e - 2) (decimalExponent (m * twoTo e.toNat) (twoTo (-e).toNat)) 18 1

def stripZeros (ds : List Char) : List Char :=
  match (ds.reverse.dropWhile (· = '0')).reverse with
  | [] => ['0']
  | ds => ds

/-- How a number is laid out: with a point and no exponent while the power of ten of the first digit
lies from `leastFixed` to `mostFixed`, with a signed exponent otherwise. -/
structure Layout where
  leastFixed : Int
  mostFixed : Int

def layout : Layout := ⟨-5, 15⟩

def exponentText (x : Int) : List Char :=
  'e' :: (if x < 0 then '-' else '+') :: Text.Decimal.ofNat x.natAbs

def Layout.place (l : Layout) (d : Digits) : List Char :=
  let ds := stripZeros d.digits
  let x := d.exponent
  if l.leastFixed ≤ x ∧ x ≤ l.mostFixed then
    if x < 0 then "0.".toList ++ List.replicate (-x - 1).toNat '0' ++ ds
    else
      let whole := x.toNat + 1
      if ds.length ≤ whole then ds ++ List.replicate (whole - ds.length) '0' ++ ".0".toList
      else ds.take whole ++ '.' :: ds.drop whole
  else
    match ds with
    | [] => exponentText x
    | [c] => c :: exponentText x
    | c :: r => c :: '.' :: r ++ exponentText x

def text : Binary64 → List Char
  | .nan => "NaN".toList
  | .infinite s => (if s then "-inf" else "inf").toList
  | .finite s m e =>
    (if s then ['-'] else []) ++
      (if m = 0 then "0.0".toList else layout.place (shortest m e))

end OrderDesk.Binary64
