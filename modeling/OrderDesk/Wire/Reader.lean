import OrderDesk.Text.Utf8
import OrderDesk.Wire.Fault

/-!
Reading JSON from bytes. Every reader takes what is left of the payload and gives its value with
what is left after it. Strings, in keys too, are checked in full; a value that is only skipped is
held to the grammar, but not to paired surrogates, well-formed UTF-8 or the range of numbers.
-/

namespace OrderDesk.Wire

abbrev Input := List UInt8

abbrev quoteMark : UInt8 := 0x22
abbrev backslash : UInt8 := 0x5C
abbrev comma : UInt8 := 0x2C
abbrev colon : UInt8 := 0x3A
abbrev openBracket : UInt8 := 0x5B
abbrev closeBracket : UInt8 := 0x5D
abbrev openBrace : UInt8 := 0x7B
abbrev closeBrace : UInt8 := 0x7D
abbrev minusSign : UInt8 := 0x2D
abbrev plusSign : UInt8 := 0x2B
abbrev point : UInt8 := 0x2E
abbrev letterN : UInt8 := 0x6E
abbrev letterT : UInt8 := 0x74
abbrev letterF : UInt8 := 0x66
abbrev letterU : UInt8 := 0x75

def isSpace (b : UInt8) : Bool := b = 0x20 || b = 0x0A || b = 0x0D || b = 0x09

def skipSpace (s : Input) : Input := s.dropWhile isSpace

def isDigit (b : UInt8) : Bool := 0x30 ≤ b && b ≤ 0x39

def isExponentMark (b : UInt8) : Bool := b = 0x65 || b = 0x45

/-! ## Strings -/

/-- Where a reader stands inside a string: between characters, after a backslash, among the four
digits of `\u`, after a leading surrogate, or after the backslash that has to follow one. -/
inductive StringState where
  | plain
  | escape
  | digits (lead : Option Nat) (seen : List UInt8)
  | lead (n : Nat)
  | leadEscape (n : Nat)
deriving DecidableEq, Repr

inductive StringStep where
  | finish
  | go (out : List UInt8) (q : StringState)
  | refuse
deriving DecidableEq, Repr

def hexDigit? (b : UInt8) : Option Nat :=
  if 0x30 ≤ b ∧ b ≤ 0x39 then some (b.toNat - 0x30)
  else if 0x41 ≤ b ∧ b ≤ 0x46 then some (b.toNat - 0x37)
  else if 0x61 ≤ b ∧ b ≤ 0x66 then some (b.toNat - 0x57)
  else none

def hexValue? (ds : List UInt8) : Option Nat :=
  ds.foldlM (fun n d => (hexDigit? d).map (16 * n + ·)) 0

def isLeading (n : Nat) : Bool := 0xD800 ≤ n && n ≤ 0xDBFF
def isTrailing (n : Nat) : Bool := 0xDC00 ≤ n && n ≤ 0xDFFF

def pairOf (lead trail : Nat) : Char :=
  Char.ofNat (0x10000 + (lead - 0xD800) * 0x400 + (trail - 0xDC00))

def escaped? (b : UInt8) : Option UInt8 :=
  if b = quoteMark ∨ b = backslash ∨ b = 0x2F then some b
  else if b = 0x62 then some 0x08
  else if b = letterF then some 0x0C
  else if b = letterN then some 0x0A
  else if b = 0x72 then some 0x0D
  else if b = letterT then some 0x09
  else none

def codeUnit (lead : Option Nat) (n : Nat) : StringStep :=
  match lead with
  | some l => if isTrailing n then .go (Text.Utf8.encodeChar (pairOf l n)) .plain else .refuse
  | none =>
    if isTrailing n then .refuse
    else if isLeading n then .go [] (.lead n)
    else .go (Text.Utf8.encodeChar (Char.ofNat n)) .plain

def keepStep : StringState → UInt8 → StringStep
  | .plain, b =>
    if b = quoteMark then .finish
    else if b = backslash then .go [] .escape
    else if b < 0x20 then .refuse
    else .go [b] .plain
  | .escape, b =>
    if b = letterU then .go [] (.digits none [])
    else match escaped? b with
      | some c => .go [c] .plain
      | none => .refuse
  | .digits lead seen, b =>
    if seen.length < 3 then .go [] (.digits lead (seen ++ [b]))
    else match hexValue? (seen ++ [b]) with
      | some n => codeUnit lead n
      | none => .refuse
  | .lead n, b => if b = backslash then .go [] (.leadEscape n) else .refuse
  | .leadEscape n, b => if b = letterU then .go [] (.digits (some n) []) else .refuse

/-- One byte of a string that is skipped: numbers after `\u` stand alone. -/
def skipStep : StringState → UInt8 → StringStep
  | .digits _ seen, b =>
    if seen.length < 3 then .go [] (.digits none (seen ++ [b]))
    else if (hexValue? (seen ++ [b])).isSome then .go [] .plain
    else .refuse
  | q, b => keepStep q b

def scanString (step : StringState → UInt8 → StringStep) :
    StringState → Input → Except Fault (List UInt8 × Input)
  | _, [] => .error .eof
  | q, b :: rest =>
    match step q b with
    | .finish => .ok ([], rest)
    | .go out q => (scanString step q rest).map fun r => (out ++ r.1, r.2)
    | .refuse => .error .malformed

def stringRest (s : Input) : Except Fault (String × Input) := do
  let (bs, rest) ← scanString keepStep .plain s
  match Text.Utf8.decode? bs with
  | some cs => pure (String.ofList cs, rest)
  | none => throw .malformed

/-! ## Numbers and names -/

def expectBytes : List UInt8 → Input → Except Fault Input
  | [], s => .ok s
  | _ :: _, [] => .error .eof
  | e :: es, b :: s => if b = e then expectBytes es s else .error .malformed

def nullRest : List UInt8 := [0x75, 0x6C, 0x6C]
def trueRest : List UInt8 := [0x72, 0x75, 0x65]
def falseRest : List UInt8 := [0x61, 0x6C, 0x73, 0x65]

/-- A number: whole if it is written without point and exponent and fits 64 bits, binary otherwise. -/
inductive Numeral where
  | integer (i : Int)
  | float (x : Binary64)
deriving DecidableEq, Repr

def Numeral.found : Numeral → Found
  | .integer i => .integer i
  | .float x => .float x

def mostWord : Nat := twoTo 64 - 1

def absorb : Nat → List UInt8 → Nat × Nat
  | n, [] => (n, 0)
  | n, d :: ds =>
    let m := 10 * n + (d.toNat - 0x30)
    if m ≤ mostWord then ((absorb m ds).1, (absorb m ds).2 + 1) else (n, 0)

def powerOfTen (k : Nat) : Binary64 := Binary64.ofNat (tenTo k)

/-- `x * 10 ^ e` by as few roundings as a table of powers up to 308 allows; no number if the product
is infinite. -/
def scaleFrom : Nat → Binary64 → Int → Option Binary64
  | 0, x, _ => some x
  | fuel + 1, x, e =>
    if 0 ≤ e then
      if e ≤ 308 then
        let y := Binary64.mul x (powerOfTen e.toNat)
        if y.isInfinite then none else some y
      else if x.isZero then some x
      else none
    else if -308 ≤ e then some (Binary64.div x (powerOfTen (-e).toNat))
    else if x.isZero then some x
    else scaleFrom fuel (Binary64.div x (powerOfTen 308)) (e + 308)

/-- A significand and a power of ten as a number. Three steps of 308 bring any significand to zero. -/
def binaryOf (negative : Bool) (n : Nat) (e : Int) : Except Fault Numeral :=
  match scaleFrom 4 (Binary64.ofNat n) e with
  | some x => .ok (.float (if negative then x.neg else x))
  | none => .error .malformed

def exponentSign : Input → Bool × Input
  | [] => (false, [])
  | b :: s =>
    if b = plusSign then (false, s) else if b = minusSign then (true, s) else (false, b :: s)

def digitsValue (ds : List UInt8) : Nat := ds.foldl (fun n d => 10 * n + (d.toNat - 0x30)) 0

/-- An exponent after its letter. One beyond 31 bits makes zero, or nothing. -/
def exponentRest (negative : Bool) (n : Nat) (e : Int) (s : Input) :
    Except Fault (Numeral × Input) :=
  let (down, s) := exponentSign s
  match s with
  | [] => .error .eof
  | b :: _ =>
    if !isDigit b then .error .malformed
    else
      let k := digitsValue (s.takeWhile isDigit)
      let rest := s.dropWhile isDigit
      if twoTo 31 ≤ k then
        if n ≠ 0 ∧ !down then .error .malformed
        else
          let x := Binary64.zero
          .ok (.float (if negative then x.neg else x), rest)
      else (binaryOf negative n (if down then e - k else e + k)).map fun x => (x, rest)

def exponentPart (negative : Bool) (n : Nat) (e : Int) (s : Input) :
    Except Fault (Numeral × Input) :=
  match s with
  | b :: rest =>
    if isExponentMark b then exponentRest negative n e rest
    else (binaryOf negative n e).map fun x => (x, s)
  | [] => (binaryOf negative n e).map fun x => (x, s)

def fractionRest (negative : Bool) (n : Nat) (e : Int) (s : Input) :
    Except Fault (Numeral × Input) :=
  match s with
  | [] => .error .eof
  | b :: _ =>
    if !isDigit b then .error .malformed
    else
      let (m, used) := absorb n (s.takeWhile isDigit)
      exponentPart negative m (e - used) (s.dropWhile isDigit)

/-- A number without point and exponent. Minus zero and what is below 64 bits are binary. -/
def wholeNumeral (negative : Bool) (n : Nat) : Numeral :=
  if !negative then .integer n
  else if 0 < n ∧ n ≤ twoTo 63 then .integer (-(n : Int))
  else .float (Binary64.ofNat n).neg

def integerRest (negative : Bool) (n dropped : Nat) (s : Input) : Except Fault (Numeral × Input) :=
  match s with
  | b :: rest =>
    if b = point then fractionRest negative n dropped rest
    else if isExponentMark b then exponentRest negative n dropped rest
    else if dropped = 0 then .ok (wholeNumeral negative n, s)
    else (binaryOf negative n dropped).map fun x => (x, s)
  | [] =>
    if dropped = 0 then .ok (wholeNumeral negative n, s)
    else (binaryOf negative n dropped).map fun x => (x, s)

def numeralRest (negative : Bool) (s : Input) : Except Fault (Numeral × Input) :=
  match s with
  | [] => .error .eof
  | b :: _ =>
    if !isDigit b then .error .malformed
    else
      let ds := s.takeWhile isDigit
      if b = 0x30 ∧ ds.length ≠ 1 then .error .malformed
      else
        let (n, used) := absorb 0 ds
        integerRest negative n (ds.length - used) (s.dropWhile isDigit)

def numeral (s : Input) : Except Fault (Numeral × Input) :=
  match s with
  | b :: rest => if b = minusSign then numeralRest true rest else numeralRest false s
  | [] => .error .eof

/-! ## Values that are not expected -/

/-- What stands at the start of `s`, reported as a mismatch. Names, numbers and strings are read in
full first, so a fault inside them comes before the mismatch. -/
def mismatch (expected : String) (s : Input) : Fault :=
  let wrong (f : Found) : Fault := .data (.wrongType f expected)
  let named (rest : List UInt8) (s : Input) (f : Found) : Fault :=
    match expectBytes rest s with
    | .ok _ => wrong f
    | .error e => e
  match s with
  | [] => .malformed
  | b :: rest =>
    if b = letterN then named nullRest rest .null
    else if b = letterT then named trueRest rest (.boolean true)
    else if b = letterF then named falseRest rest (.boolean false)
    else if b = minusSign ∨ isDigit b then
      match numeral s with
      | .ok (x, _) => wrong x.found
      | .error e => e
    else if b = quoteMark then
      match stringRest rest with
      | .ok (t, _) => wrong (.text t)
      | .error e => e
    else if b = openBracket then wrong .sequence
    else if b = openBrace then wrong .map
    else .malformed

/-! ## Values that are skipped -/

/-- Digits that have to be there. A number that ends too early is malformed, even at the end. -/
def skipDigits (s : Input) : Except Fault Input :=
  match s with
  | b :: _ => if isDigit b then .ok (s.dropWhile isDigit) else .error .malformed
  | [] => .error .malformed

def skipExponent (s : Input) : Except Fault Input :=
  match s with
  | b :: rest => if isExponentMark b then skipDigits (exponentSign rest).2 else .ok s
  | [] => .ok s

def skipFraction (s : Input) : Except Fault Input :=
  match s with
  | b :: rest => if b = point then skipDigits rest >>= skipExponent else skipExponent s
  | [] => .ok s

def skipNumeral (s : Input) : Except Fault Input := do
  let rest ← skipDigits s
  if s.head? = some 0x30 ∧ s.length - rest.length ≠ 1 then throw .malformed
  skipFraction rest

def skipString (s : Input) : Except Fault Input :=
  (scanString skipStep .plain s).map (·.2)

def colonRest (s : Input) : Except Fault Input :=
  match skipSpace s with
  | [] => .error .eof
  | b :: rest => if b = colon then .ok rest else .error .malformed

mutual
/-- Any value. The fuel bounds the nesting of calls; twice the length of the payload is enough. -/
def skipValue : Nat → Input → Except Fault Input
  | 0, _ => .error .eof
  | fuel + 1, s =>
    match skipSpace s with
    | [] => .error .eof
    | b :: rest =>
      if b = letterN then expectBytes nullRest rest
      else if b = letterT then expectBytes trueRest rest
      else if b = letterF then expectBytes falseRest rest
      else if b = minusSign then skipNumeral rest
      else if isDigit b then skipNumeral (b :: rest)
      else if b = quoteMark then skipString rest
      else if b = openBracket then
        match skipSpace rest with
        | [] => .error .eof
        | c :: after =>
          if c = closeBracket then .ok after else skipElements fuel (c :: after)
      else if b = openBrace then
        match skipSpace rest with
        | [] => .error .eof
        | c :: after =>
          if c = closeBrace then .ok after else skipMembers fuel (c :: after)
      else .error .malformed

def skipElements : Nat → Input → Except Fault Input
  | 0, _ => .error .eof
  | fuel + 1, s => do
    let s ← skipValue fuel s
    match skipSpace s with
    | [] => .error .eof
    | b :: rest =>
      if b = comma then skipElements fuel rest
      else if b = closeBracket then .ok rest
      else .error .malformed

def skipMembers : Nat → Input → Except Fault Input
  | 0, _ => .error .eof
  | fuel + 1, s =>
    match skipSpace s with
    | [] => .error .eof
    | q :: rest =>
      if q ≠ quoteMark then .error .malformed
      else do
        let s ← skipString rest
        let s ← colonRest s
        let s ← skipValue fuel s
        match skipSpace s with
        | [] => .error .eof
        | b :: rest =>
          if b = comma then skipMembers fuel rest
          else if b = closeBrace then .ok rest
          else .error .malformed
end

def skip (s : Input) : Except Fault Input := skipValue (2 * s.length + 2) s

end OrderDesk.Wire
