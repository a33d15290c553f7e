import OrderDesk.Text.Decimal

/-!
Binary64 numbers in exact arithmetic. A finite number is a natural mantissa times a power of two;
every operation computes the exact quotient of two naturals and rounds it once, to the nearest
number of 53 bits, a half to the even neighbour.
-/

namespace OrderDesk

/-- A binary64 number: `finite negative m e` is `m * 2 ^ e` with its sign, so there are two zeros. -/
inductive Binary64 where
  | nan
  | infinite (negative : Bool)
  | finite (negative : Bool) (mantissa : Nat) (exponent : Int)
deriving DecidableEq, Repr

namespace Binary64

def minExponent : Int := -1074

def maxExponent : Int := 971

/-- The quotient rounded to the nearest natural, a half to the even one. -/
def roundHalfEven (n d : Nat) : Nat :=
  let q := n / d
  let r := n % d
  if d < 2 * r ∨ (d = 2 * r ∧ q % 2 = 1) then q + 1 else q

def scaled (n d : Nat) (e : Int) : Nat × Nat :=
  (n * twoTo (-e).toNat, d * twoTo e.toNat)

def exponentOf (n d : Nat) : Int :=
  let e : Int := (Nat.log2 n : Int) - Nat.log2 d - 52
  let s := scaled n d e
  max minExponent (if s.1 / s.2 < twoTo 52 then e - 1 else e)

def ofRatio (negative : Bool) (n d : Nat) : Binary64 :=
  if n = 0 then .finite negative 0 minExponent
  else
    let e := exponentOf n d
    let s := scaled n d e
    let m := roundHalfEven s.1 s.2
    let (m, e) := if m = twoTo 53 then (twoTo 52, e + 1) else (m, e)
    if maxExponent < e then .infinite negative else .finite negative m e

def ofDyadic (negative : Bool) (m : Nat) (e : Int) : Binary64 :=
  ofRatio negative (m * twoTo e.toNat) (twoTo (-e).toNat)

def ofNat (n : Nat) : Binary64 := ofRatio false n 1

def zero : Binary64 := ofNat 0
def one : Binary64 := ofNat 1
def two : Binary64 := ofNat 2

def neg : Binary64 → Binary64
  | .nan => .nan
  | .infinite s => .infinite !s
  | .finite s m e => .finite (!s) m e

def isInfinite : Binary64 → Bool
  | .infinite _ => true
  | _ => false

def isZero : Binary64 → Bool
  | .finite _ 0 _ => true
  | _ => false

def mul : Binary64 → Binary64 → Binary64
  | .nan, _ => .nan
  | _, .nan => .nan
  | .infinite s, .infinite t => .infinite (s != t)
  | .infinite s, .finite t m _ => if m = 0 then .nan else .infinite (s != t)
  | .finite s m _, .infinite t => if m = 0 then .nan else .infinite (s != t)
  | .finite s m e, .finite t n f => ofDyadic (s != t) (m * n) (e + f)

def div : Binary64 → Binary64 → Binary64
  | .nan, _ => .nan
  | _, .nan => .nan
  | .infinite _, .infinite _ => .nan
  | .infinite s, .finite t _ _ => .infinite (s != t)
  | .finite s _ _, .infinite t => .finite (s != t) 0 minExponent
  | .finite s m e, .finite t n f =>
    if n = 0 then (if m = 0 then .nan else .infinite (s != t))
    else
      let k := e - f
      ofRatio (s != t) (m * twoTo k.toNat) (n * twoTo (-k).toNat)

def signedAt (s : Bool) (m : Nat) (e low : Int) : Int :=
  let i : Int := (m * twoTo (e - low).toNat : Nat)
  if s then -i else i

def add : Binary64 → Binary64 → Binary64
  | .nan, _ => .nan
  | _, .nan => .nan
  | .infinite s, .infinite t => if s = t then .infinite s else .nan
  | .infinite s, _ => .infinite s
  | _, .infinite t => .infinite t
  | .finite s m e, .finite t n f =>
    let low := min e f
    let sum := signedAt s m e low + signedAt t n f low
    if sum = 0 then .finite (s && t) 0 minExponent
    else ofDyadic (sum < 0) sum.natAbs low

/-- Squares `x` for each bit of `n`, from the lowest, and multiplies in those whose bit is set. The
fuel counts the bits. -/
def powFrom : Nat → Binary64 → Binary64 → Nat → Binary64
  | 0, r, _, _ => r
  | fuel + 1, r, x, n =>
    let r := if n % 2 = 1 then mul r x else r
    if n / 2 = 0 then r else powFrom fuel r (mul x x) (n / 2)

def pow (x : Binary64) (n : Nat) : Binary64 := powFrom (Nat.log2 n + 1) one x n

/-! ## Reading -/

/-- The number nearest to `d * 10 ^ x`. Far outside the range the answer is zero or infinite, with
no power computed. -/
def ofDecimal (negative : Bool) (d : Nat) (x : Int) : Binary64 :=
  let size : Int := (Text.Decimal.ofNat d).length + x
  if d = 0 ∨ size < -330 then .finite negative 0 minExponent
  else if 310 < size then .infinite negative
  else ofRatio negative (d * tenTo x.toNat) (tenTo (-x).toNat)

def exponentPart? : List Char → Option Int
  | [] => some 0
  | c :: s => if c = 'e' ∨ c = 'E' then Text.Decimal.signed? s else none

def magnitude? (negative : Bool) (s : List Char) : Option Binary64 :=
  let whole := s.takeWhile Text.Decimal.isDigit
  let rest := s.dropWhile Text.Decimal.isDigit
  let (part, rest) := match rest with
    | '.' :: r => (r.takeWhile Text.Decimal.isDigit, r.dropWhile Text.Decimal.isDigit)
    | r => ([], r)
  if whole = [] ∧ part = [] then none
  else (exponentPart? rest).map fun x =>
    ofDecimal negative (Text.Decimal.value (whole ++ part)) (x - part.length)

/-- A number in decimal, or one of the names of infinity and of the number that is none, in any
case of letters. -/
def ofText? (s : List Char) : Option Binary64 :=
  let (negative, s) := match s with
    | '-' :: r => (true, r)
    | '+' :: r => (false, r)
    | r => (false, r)
  let word := String.ofList (s.map Char.toLower)
  if word = "inf" ∨ word = "infinity" then some (.infinite negative)
  else if word = "nan" then some .nan
  else magnitude? negative s

end Binary64

end OrderDesk
