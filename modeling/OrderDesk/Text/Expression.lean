import OrderDesk.Text.Expression.Token

/-!
Regular expressions of the extended kind, as far as it takes to tell whether a text is one: groups are
closed, every repetition has something to repeat, and a reference names a group that is complete
before it on the same branch.
-/

namespace OrderDesk.Text.Expression

structure Group where
  number : Nat
  before : List Nat
  branches : List Nat
deriving DecidableEq, Repr

structure Place where
  group : Group
  outer : List Group
  opened : Nat
  complete : List Nat
  repeatable : Bool
deriving DecidableEq, Repr

namespace Place

def start : Place := ⟨⟨0, [], []⟩, [], 0, [], false⟩

def enter (p : Place) : Place :=
  { group := ⟨p.opened + 1, p.complete, []⟩
    outer := p.group :: p.outer
    opened := p.opened + 1
    complete := p.complete
    repeatable := false }

/-- Leaves a group, which is then complete. Where no group is open a closing mark is a character. -/
def leave (p : Place) : Place :=
  match p.outer with
  | [] => { p with repeatable := true }
  | g :: outer =>
    { p with
      group := g
      outer := outer
      complete := p.group.number :: (p.complete ++ p.group.branches)
      repeatable := true }

/-- Starts the next branch, which knows nothing of the groups in the branches before. -/
def branch (p : Place) : Place :=
  { p with
    group := { p.group with branches := p.group.branches ++ p.complete }
    complete := p.group.before
    repeatable := false }

def step (p : Place) : Token → Option Place
  | .atom => some { p with repeatable := true }
  | .anchor => some { p with repeatable := false }
  | .reference n => if n ∈ p.complete then some { p with repeatable := true } else none
  | .repetition => if p.repeatable then some p else none
  | .alternative => some p.branch
  | .openGroup => some p.enter
  | .closeGroup => some p.leave

end Place

def wellFormed (s : String) : Bool :=
  match (tokens? s).bind (·.foldlM Place.step .start) with
  | some p => p.outer = []
  | none => false

end OrderDesk.Text.Expression
