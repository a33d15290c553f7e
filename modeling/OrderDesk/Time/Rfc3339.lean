import OrderDesk.Text.Blank
import OrderDesk.Text.Decimal
import OrderDesk.Time.Moment

/-!
RFC 3339 text of moments. Printing gives UTC with a `Z` and as many groups of three fraction digits
as the nanoseconds need. Reading is more liberal: white space before numbers and around the marks
between them, fields of one digit, a signed year of any length, any of `T`, `t` and a space between
date and time, and an offset in hours and minutes, `Z` or `UTC`.
-/

namespace OrderDesk.Rfc3339

inductive Fault where
  | outOfRange
  | impossible
  | invalid
  | tooShort
  | tooLong
deriving DecidableEq, Repr

def Fault.message : Fault → String
  | .outOfRange => "input is out of range"
  | .impossible => "no possible date and time matching input"
  | .invalid => "input contains invalid characters"
  | .tooShort => "premature end of input"
  | .tooLong => "trailing input"

/-! ## Printing -/

/-- Four digits from year 0 to 9999, a sign and at least four digits outside. -/
def yearText (y : Int) : List Char :=
  if 0 ≤ y ∧ y ≤ 9999 then Text.Decimal.padded 4 y.toNat
  else (if y < 0 then '-' else '+') :: Text.Decimal.padded 4 y.natAbs

/-- No fraction, or a point and three, six or nine digits. -/
def fractionText (n : Nat) : List Char :=
  if n = 0 then []
  else if n % 1000000 = 0 then '.' :: Text.Decimal.padded 3 (n / 1000000)
  else if n % 1000 = 0 then '.' :: Text.Decimal.padded 6 (n / 1000)
  else '.' :: Text.Decimal.padded 9 n

/-- The second as shown and the nanoseconds in it: a leap second is second 60. -/
def shownSecond (s nanos : Nat) : Nat × Nat :=
  if 1000000000 ≤ nanos then (s + 1, nanos - 1000000000) else (s, nanos)

def two (n : Nat) : List Char := Text.Decimal.padded 2 n

def localText (t : Moment) : List Char :=
  let s := shownSecond t.second t.nanos
  yearText t.year ++ '-' :: two t.month ++ '-' :: two t.day ++ 'T' :: two t.hour ++
    ':' :: two t.minute ++ ':' :: two s.1 ++ fractionText s.2

def print (t : Moment) : List Char := localText t ++ ['Z']

/-! ## Reading -/

abbrev Rest := List Char

open Text (skipBlank)
open Text.Decimal (isDigit value)

def number (most : Nat) (s : List Char) : Except Fault (Nat × Rest) :=
  match s with
  | [] => .error .tooShort
  | _ =>
    let ds := (s.take most).takeWhile isDigit
    if ds = [] then .error .invalid else .ok (value ds, s.drop ds.length)

def longNumber (s : List Char) : Except Fault (Nat × Rest) := number s.length s

/-- A year: up to four digits, or a sign and any number of them; it has to fit 32 bits. -/
def year (s : List Char) : Except Fault (Int × Rest) := do
  let (y, r) ← match skipBlank s with
    | '-' :: r => (longNumber r).map fun x => (-(x.1 : Int), x.2)
    | '+' :: r => (longNumber r).map fun x => ((x.1 : Int), x.2)
    | r => (number 4 r).map fun x => ((x.1 : Int), x.2)
  if -(twoTo 31 : Int) ≤ y ∧ y < twoTo 31 then pure (y, r) else throw .outOfRange

def field (least most : Nat) (s : List Char) : Except Fault (Nat × Rest) := do
  let (n, r) ← number 2 (skipBlank s)
  if least ≤ n ∧ n ≤ most then pure (n, r) else throw .outOfRange

def mark (c : Char) (s : List Char) : Except Fault (List Char) :=
  match skipBlank s with
  | [] => .error .tooShort
  | d :: r => if d = c then .ok r else .error .invalid

def dateEnd : List Char → Except Fault (List Char)
  | [] => .error .tooShort
  | c :: r => if c = 'T' ∨ c = 't' ∨ c = ' ' then .ok r else .error .invalid

/-- A point and digits, of which nine count. -/
def fraction : List Char → Except Fault (Nat × Rest)
  | '.' :: s => do
    let (n, r) ← number 9 s
    pure (n * tenTo (9 - (s.length - r.length)), r.dropWhile isDigit)
  | s => pure (0, s)

/-- Two characters; a single one counts as two if it takes two bytes or more. -/
def pair : List Char → Except Fault ((Char × Char) × Rest)
  | [] => .error .tooShort
  | [c] => if c.toNat < 128 then .error .tooShort else .error .invalid
  | c :: d :: r => .ok ((c, d), r)

def isSeparator (c : Char) : Bool := c = ':' || Text.isBlank c

def offsetSign : List Char → Except Fault (Bool × Rest)
  | [] => .error .tooShort
  | c :: r =>
    if c = '+' then .ok (false, r)
    else if c = '-' ∨ c = Char.ofNat 0x2212 then .ok (true, r)
    else .error .invalid

def offsetDigits (most : Char) (s : List Char) : Except Fault (Nat × Rest) := do
  let ((a, b), r) ← pair s
  if isDigit a && isDigit b then
    if a ≤ most then pure (value [a, b], r) else throw .outOfRange
  else throw .invalid

def offset (s : List Char) : Except Fault (Int × Rest) :=
  match s with
  | 'Z' :: r => .ok (0, r)
  | 'z' :: r => .ok (0, r)
  | _ => do
    let (negative, r) ← offsetSign s
    let (h, r) ← offsetDigits '9' r
    let (m, r) ← offsetDigits '5' (r.dropWhile isSeparator)
    let minutes : Int := h * 60 + m
    pure (if negative then -minutes else minutes, r)

/-- An offset, or the name of UTC in any case of letters. -/
def zone (s : List Char) : Except Fault (Int × Rest) :=
  match s with
  | a :: b :: c :: r =>
    if a.toLower = 'u' ∧ b.toLower = 't' ∧ c.toLower = 'c' then .ok (0, r) else offset s
  | _ => offset s

def keptSecond (s nanos : Nat) : Nat × Nat :=
  if s = 60 then (59, nanos + 1000000000) else (s, nanos)

def moment (minutes y : Int) (m d h min s nanos : Nat) : Except Fault Moment :=
  if ¬ Moment.IsDate y m d then .error .outOfRange
  else if minutes ≤ -1440 ∨ 1440 ≤ minutes then .error .outOfRange
  else
    let k := keptSecond s nanos
    match Moment.ofLocal? minutes y m d h min k.1 k.2 with
    | some t => .ok t
    | none => .error .impossible

def parse (s : List Char) : Except Fault Moment := do
  let (y, s) ← year s
  let s ← mark '-' s
  let (m, s) ← field 1 12 s
  let s ← mark '-' s
  let (d, s) ← field 1 31 s
  let s ← dateEnd s
  let (h, s) ← field 0 23 s
  let s ← mark ':' s
  let (min, s) ← field 0 59 s
  let s ← mark ':' s
  let (sec, s) ← field 0 60 s
  let (nanos, s) ← fraction s
  let (minutes, s) ← zone (skipBlank s)
  if skipBlank s ≠ [] then throw .tooLong
  moment minutes y m d h min sec nanos

end OrderDesk.Rfc3339
