import OrderDesk.Text.Expression.Bracket

/-!
Tokens of regular expressions of the extended kind, as far as it matters for their grammar: what
stands for text, what stands for a place, what repeats, and what groups.
-/

namespace OrderDesk.Text.Expression

inductive Token where
  | atom
  | anchor
  | reference (group : Nat)
  | repetition
  | alternative
  | openGroup
  | closeGroup
deriving DecidableEq, Repr

def mostRepeats : Nat := 32767

/-- A number, the comma or brace that ends it, and what follows. A backslash before a zero or a comma
changes nothing. -/
def bound? (n : Option Nat) : List Char → Option (Option Nat × Char × List Char)
  | [] => none
  | '\\' :: '0' :: s => bound? (some (10 * n.getD 0)) s
  | '\\' :: ',' :: s => some (n, ',', s)
  | c :: s =>
    if c = ',' ∨ c.toNat = 0x7D then some (n, c, s)
    else if c.isDigit then bound? (some (10 * n.getD 0 + (c.toNat - 0x30))) s
    else none

/-- What follows the bounds of a repetition, from their second byte on: one number, or a least and a
greatest number of which either may be left out. -/
def afterBounds (s : List Char) : Option (List Char) := do
  let (low, c, s) ← bound? none s
  if c = ',' then
    let (high, c, s) ← bound? none s
    let most := high.getD mostRepeats
    if c ≠ ',' ∧ low.getD 0 ≤ most ∧ most ≤ mostRepeats then some s else none
  else
    let n ← low
    if n ≤ mostRepeats then some s else none

def Token.escaped (c : Char) : Token :=
  if '1' ≤ c ∧ c ≤ '9' then .reference (c.toNat - 0x30)
  else if c = '<' ∨ c = '>' ∨ c = 'b' ∨ c = 'B' ∨ c.toNat = 0x60 ∨ c.toNat = 0x27 then .anchor
  else .atom

def Token.plain (c : Char) : Token :=
  if c = '(' then .openGroup
  else if c = ')' then .closeGroup
  else if c = '|' then .alternative
  else if c = '^' ∨ c = '$' then .anchor
  else if c = '*' ∨ c = '+' ∨ c = '?' then .repetition
  else .atom

/-- The first token and what follows it. Nothing may end with a single backslash. -/
def token? : List Char → Option (Token × List Char)
  | [] => none
  | ['\\'] => none
  | '\\' :: c :: s => some (.escaped c, s)
  | c :: s =>
    if c = '[' then (afterBracket s).map fun s => (.atom, s)
    else if c.toNat = 0x7B then (afterBounds s).map fun s => (.repetition, s)
    else some (.plain c, s)

def tokensFrom : Nat → List Char → Option (List Token)
  | _, [] => some []
  | 0, _ => none
  | fuel + 1, s => do
    let (t, s) ← token? s
    let ts ← tokensFrom fuel s
    pure (t :: ts)

def tokens? (s : String) : Option (List Token) := tokensFrom (octets s).length (octets s)

end OrderDesk.Text.Expression
