import OrderDesk.Text.Blank
import OrderDesk.Text.Decimal

/-!
Patterns: sequences of character classes with repetition bounds. A pattern accepts a text when the
whole of it splits into one run for each piece. The search goes through every way to split.
-/

namespace OrderDesk.Text

/-- From `least` to `most` characters of a class; no `most` is no bound. -/
structure Piece where
  allows : Char → Bool
  least : Nat
  most : Option Nat

namespace Piece

def many (allows : Char → Bool) : Piece := ⟨allows, 1, none⟩

def one (allows : Char → Bool) : Piece := ⟨allows, 1, some 1⟩

def exactly (c : Char) : Piece := one (· = c)

def mayGrow (p : Piece) (n : Nat) : Bool :=
  match p.most with
  | none => true
  | some m => n < m

def split (p : Piece) (next : List Char → Bool) : List Char → Nat → Bool
  | [], n => p.least ≤ n && next []
  | c :: s, n =>
    (p.least ≤ n && next (c :: s)) || (p.mayGrow n && p.allows c && split p next s (n + 1))

end Piece

abbrev Pattern := List Piece

namespace Pattern

def acceptsChars : Pattern → List Char → Bool
  | [] => List.isEmpty
  | p :: ps => fun s => p.split (acceptsChars ps) s 0

def accepts (p : Pattern) (s : String) : Bool := acceptsChars p s.toList

end Pattern

def isAsciiLetter (c : Char) : Bool := ('A' ≤ c && c ≤ 'Z') || ('a' ≤ c && c ≤ 'z')

def alphanumeric : Pattern := [.many fun c => isAsciiLetter c || Decimal.isDigit c]

def numeric : Pattern := [.many Decimal.isDigit]

def e164 : Pattern :=
  [.exactly '+', .one fun c => '1' ≤ c && c ≤ '9', ⟨Decimal.isDigit, 1, some 14⟩]

def inAddress (c : Char) : Bool := c ≠ '@' && !isBlank c

def email : Pattern :=
  [.many inAddress, .exactly '@', .many inAddress, .exactly '.', .many inAddress]

end OrderDesk.Text
