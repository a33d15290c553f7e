import OrderDesk.Text.Utf8

/-!
Bracket expressions: characters, ranges, classes and names between brackets. Texts are read byte by
byte, each byte as the character of its number, and ranges are ordered by these numbers.
-/

namespace OrderDesk.Text.Expression

def octets (s : String) : List Char := (Utf8.ofString s).map fun b => Char.ofNat b.toNat

inductive Piece where
  | named (mark : Char)
  | hyphen
  | close
  | char (c : Char)
deriving DecidableEq, Repr

def piece? : List Char → Option (Piece × List Char)
  | [] => none
  | '[' :: m :: s =>
    if m = '.' ∨ m = '=' ∨ m = ':' then some (.named m, s) else some (.char '[', m :: s)
  | c :: s =>
    if c = '-' then some (.hyphen, s)
    else if c = ']' then some (.close, s)
    else some (.char c, s)

def name? (mark : Char) : List Char → Option (List Char × List Char)
  | c :: d :: s =>
    if c = mark ∧ d = ']' then some ([], s)
    else (name? mark (d :: s)).map fun r => (c :: r.1, r.2)
  | _ => none

def classNames : List String :=
  ["alpha", "upper", "lower", "digit", "xdigit", "alnum", "space", "blank", "punct", "print",
    "graph", "cntrl"]

inductive Member where
  | point (c : Char)
  | set
deriving DecidableEq, Repr

/-- The member that a name stands for: the class of that name, or the only character of the name,
which is a set where the mark asks for its equivalents. -/
def Member.ofName? (mark : Char) (name : List Char) : Option Member :=
  if mark = ':' then if String.ofList name ∈ classNames then some .set else none
  else match name with
    | [c] => some (if mark = '.' then .point c else .set)
    | _ => none

/-- The member that starts with a piece, and what follows it. Where no hyphen may stand, one that is
the last member is a character all the same. -/
def member? (mayHyphen : Bool) : Piece → List Char → Option (Member × List Char)
  | .named mark, s => do
    let (name, s) ← name? mark s
    let m ← Member.ofName? mark name
    pure (m, s)
  | .hyphen, s => if mayHyphen ∨ s.head? = some ']' then some (.point '-', s) else none
  | .close, _ => none
  | .char c, s => some (.point c, s)

def Member.endsRange (low : Char) : Member → Bool
  | .point high => low.toNat ≤ high.toNat
  | .set => false

/-- What follows the members from a piece on and the closing bracket. Every member takes at least one
byte, so the length of the text is fuel enough. -/
def afterMembers : Nat → Bool → Piece → List Char → Option (List Char)
  | 0, _, _, _ => none
  | fuel + 1, mayHyphen, p, s => do
    let (m, s) ← member? mayHyphen p s
    let (q, s) ← piece? s
    match m, q with
    | _, .close => some s
    | .point low, .hyphen =>
      let (r, s) ← piece? s
      if r = .close then some s
      else
        let (m, s) ← member? true r s
        let (q, s) ← piece? s
        if !m.endsRange low then none
        else if q = .close then some s
        else afterMembers fuel false q s
    | _, q => afterMembers fuel false q s

/-- What follows a bracket expression, from its second byte on. A caret may come first, and a bracket
that comes before any member is a character. -/
def afterBracket (s : List Char) : Option (List Char) := do
  let s := if s.head? = some '^' then s.tail else s
  let (p, rest) ← piece? s
  afterMembers s.length true (if p = .close then .char ']' else p) rest

end OrderDesk.Text.Expression
