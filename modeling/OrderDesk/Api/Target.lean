import OrderDesk.Text.Utf8

/-!
Requests: a method and a target. A target is a path and a query; a scheme and an authority may come
before them, and a fragment, which is left out, after them. An authority or a star may stand alone,
and then there is no path. A text that breaks these rules makes no request.
-/

namespace OrderDesk.Api

structure Target where
  path : List Char
  query : List Char
deriving DecidableEq, Repr

namespace Target

/-! ## Paths and queries -/

def isPathChar (c : Char) : Bool :=
  0x21 ≤ c.toNat && c ≠ '<' && c ≠ '>' && c.toNat ≠ 0x60

def isQueryChar (c : Char) : Bool :=
  0x21 ≤ c.toNat && c ≠ '<' && c ≠ '>' && c ≠ '"'

/-- A path, which is a slash where it is left out, and a query, up to a fragment. -/
def ofPath? (s : List Char) : Option Target :=
  let s := s.takeWhile (· ≠ '#')
  let path := s.takeWhile (· ≠ '?')
  let query := (s.dropWhile (· ≠ '?')).drop 1
  if path.all isPathChar ∧ query.all isQueryChar then
    some ⟨if path = [] then ['/'] else path, query⟩
  else none

/-! ## Schemes and authorities -/

def isSchemeChar (c : Char) : Bool := c.isAlphanum || c = '+' || c = '-' || c = '.'

def scheme? (s : List Char) : Option (List Char × List Char) :=
  match s.dropWhile isSchemeChar with
  | ':' :: '/' :: '/' :: r => some (s.takeWhile isSchemeChar, r)
  | _ => none

def mostScheme : Nat := 64

/-- What an authority has shown so far: colons and percent signs since the last bracket or at sign,
brackets, and whether the last character was an at sign. -/
structure Authority where
  colons : Nat
  percent : Bool
  opened : Bool
  closed : Bool
  atEnd : Bool
deriving DecidableEq, Repr

def mostColons : Nat := 8

def isHostChar (c : Char) : Bool :=
  c.isAlphanum || c ∈ "!$&()*+,-.;=_~".toList || c.toNat = 0x27

def Authority.step (a : Authority) (c : Char) : Option Authority :=
  let a := { a with atEnd := false }
  if c = ':' then
    if mostColons ≤ a.colons then none else some { a with colons := a.colons + 1 }
  else if c = '[' then
    if a.percent ∨ a.opened then none else some { a with opened := true }
  else if c = ']' then
    if !a.opened ∨ a.closed then none
    else some { a with closed := true, colons := 0, percent := false }
  else if c = '@' then some { a with colons := 0, percent := false, atEnd := true }
  else if c = '%' then some { a with percent := true }
  else if isHostChar c then some a
  else none

/-- Whether the authority is complete: brackets are closed, one colon may stand before a port, and
something follows an at sign. -/
def Authority.complete (a : Authority) : Bool :=
  a.opened == a.closed && a.colons ≤ 1 && !a.atEnd && !a.percent

def isAuthority (s : List Char) : Bool :=
  match s.foldlM Authority.step ⟨0, false, false, false, false⟩ with
  | some a => a.complete
  | none => false

def isAuthorityEnd (c : Char) : Bool := c = '/' || c = '?' || c = '#'

def ofFull? (s : List Char) : Option Target :=
  match scheme? s with
  | some (scheme, rest) =>
    let authority := rest.takeWhile fun c => !isAuthorityEnd c
    if scheme.length ≤ mostScheme ∧ authority ≠ [] ∧ isAuthority authority then
      ofPath? (rest.dropWhile fun c => !isAuthorityEnd c)
    else none
  | none => if (s.all fun c => !isAuthorityEnd c) ∧ isAuthority s then some ⟨[], []⟩ else none

def mostBytes : Nat := 65534

def ofString? (uri : String) : Option Target :=
  let s := uri.toList
  if s = [] ∨ mostBytes < (Text.Utf8.encode s).length then none
  else if s = ['*'] then some ⟨s, []⟩
  else if s.head? = some '/' then ofPath? s
  else ofFull? s

end Target

structure Request where
  method : String
  target : Target
deriving DecidableEq, Repr

def isMethodChar (c : Char) : Bool :=
  c.isAlphanum || c ∈ "!#$%&*+-.^_|~".toList || c.toNat = 0x27 || c.toNat = 0x60

def Request.ofStrings? (method uri : String) : Option Request :=
  if method ≠ "" ∧ method.toList.all isMethodChar then
    (Target.ofString? uri).map fun target => ⟨method, target⟩
  else none

end OrderDesk.Api
