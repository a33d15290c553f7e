import OrderDesk.Tables.Query
import OrderDesk.Tables.Reading

/-!
A server that keeps the tables. It does what statements say to the rows with a key, one statement
after the other, and gives what a transaction did up when it is rolled back. Which rows it finds fit
and how it numbers them is left to an engine. No statement deletes a row that others refer to or
changes a key, and a transaction ends at the first refusal, so nothing follows from either.
-/

namespace OrderDesk.Tables

abbrev Row := List Cell

abbrev Holdings := Table → List Row

def Holdings.set (rows : Holdings) (t : Table) (rs : List Row) : Holdings :=
  fun u => if u = t then rs else rows u

structure Database where
  rows : Holdings
  before : Option Holdings
  /-- How many numbers were given to rows, those that were given up too. -/
  given : Nat

namespace Database

def empty : Database := ⟨fun _ => [], none, 0⟩

def set (db : Database) (t : Table) (rs : List Row) : Database :=
  { db with rows := db.rows.set t rs }

end Database

namespace Table

def names (t : Table) : List String := t.columns.map Column.name

/-- Whether a row has a key. Null is equal to nothing. -/
def has (t : Table) (key : Binding) (row : Row) : Bool :=
  cellOf t.names row key.column = some key.value

def keyNames (t : Table) : List String := (t.columns.filter Column.primaryKey).map Column.name

def links (t : Table) : List (String × Table × String) :=
  t.columns.filterMap fun c => c.references.map fun r => (c.name, r)

def free (others : Holdings) (t : Table) (row : Row) : Bool :=
  (others t).all fun r => t.keyNames.map (cellOf t.names r) ≠ t.keyNames.map (cellOf t.names row)

def referenced (others : Holdings) (t : Table) (row : Row) : Bool :=
  t.links.all fun (name, u, column) =>
    (others u).any fun r => cellOf u.names r column = cellOf t.names row name

def needsNumber (t : Table) (values : List Binding) : Bool :=
  t.columns.any fun c => c.type = .serial && values.all fun b => b.column ≠ c.name

end Table

def Selection.columns : Selection → List String
  | .matching key => [key.column]
  | .locking key => [key.column]
  | .first column _ => [column]
  | .after key column _ _ => [key.column, column]

/-- Whether a statement names only columns of its table. Scripts are not looked into. -/
def Statement.isKnown : Statement → Bool
  | .select t columns s => (columns ++ s.columns).all t.names.contains
  | .insert t values returning =>
    (values.map Binding.column ++ returning.toList).all t.names.contains
  | .update t values key => (key.column :: values.map Binding.column).all t.names.contains
  | .delete t key => t.names.contains key.column
  | .script _ => false
  | _ => true

def Cell.le : Cell → Cell → Bool
  | some (.integer i), some (.integer j) => i ≤ j
  | some (.text s), some (.text t) => s ≤ t
  | _, _ => true

def Cell.exceeds (cursor : Int64) : Cell → Bool
  | some (.integer i) => cursor < i
  | _ => false

/-- The rows of a table that a selection finds. A negative limit is refused. -/
def Selection.rows? (t : Table) (rows : List Row) : Selection → Option (List Row)
  | .matching key => some (rows.filter (t.has key))
  | .locking key => some (rows.filter (t.has key))
  | .first column limit =>
    if limit < 0 then none
    else some ((rows.mergeSort fun r s =>
      Cell.le (cellOf t.names r column) (cellOf t.names s column)).take limit.toInt.toNat)
  | .after key column cursor limit =>
    if limit < 0 then none
    else
      let beyond := (rows.filter (t.has key)).filter fun r =>
        Cell.exceeds cursor (cellOf t.names r column)
      some ((beyond.mergeSort fun r s =>
        Cell.le (cellOf t.names r column) (cellOf t.names s column)).take limit.toInt.toNat)

structure Engine where
  number : Nat → Nat
  positive : ∀ n, 0 < number n
  ascending : ∀ n, number n < number (n + 1)
  keep : Moment → Moment
  keep_whole : ∀ t : Moment, t.nanos % 1000 = 0 → keep t = t
  fits : Table → Row → Bool

namespace Engine

variable (g : Engine)

def kept : Value → Value
  | .moment t => .moment (g.keep t)
  | v => v

def newRow (given : Nat) (t : Table) (values : List Binding) : Row :=
  t.columns.map fun c =>
    match values.find? fun b => b.column = c.name with
    | some b => some (g.kept b.value)
    | none =>
      if c.type = .serial then some (.integer (.ofNat (g.number given)))
      else if c.emptyDefault then some (.text "")
      else none

def changed (t : Table) (values : List Binding) (row : Row) : Row :=
  (t.names.zip row).map fun r =>
    match values.find? fun b => b.column = r.1 with
    | some b => some (g.kept b.value)
    | none => r.2

def refusal : Reply := .refused "refused"

def admits (others : Holdings) (t : Table) (row : Row) : Bool :=
  g.fits t row && t.free others row && t.referenced others row

/-- Inserts a row that is admitted. A number is given even if it is not. -/
def insert (db : Database) (t : Table) (values : List Binding) (returning : Option String) :
    Reply × Database :=
  let row := g.newRow db.given t values
  let numbered := t.needsNumber values
  let next := if numbered then { db with given := db.given + 1 } else db
  if (!numbered || g.number db.given < twoTo 63) && g.admits db.rows t row then
    (match returning with
      | some column => .rows [[cellOf t.names row column]]
      | none => .affected 1,
      next.set t (db.rows t ++ [row]))
  else (refusal, next)

def update (db : Database) (t : Table) (values : List Binding) (key : Binding) :
    Reply × Database :=
  let others := db.rows.set t ((db.rows t).filter fun r => !t.has key r)
  let found := (db.rows t).filter (t.has key)
  if found.all fun r => g.admits others t (g.changed t values r) then
    (.affected found.length,
      db.set t ((db.rows t).map fun r => if t.has key r then g.changed t values r else r))
  else (refusal, db)

def execute (db : Database) : Statement → Reply × Database
  | .begin => (.affected 0, { db with before := some (db.before.getD db.rows) })
  | .readOnly => (.affected 0, db)
  | .commit => (.affected 0, { db with before := none })
  | .rollback => (.affected 0, { db with rows := db.before.getD db.rows, before := none })
  | .select t columns s =>
    match s.rows? t (db.rows t) with
    | some rows => (.rows (rows.map fun r => columns.map (cellOf t.names r)), db)
    | none => (refusal, db)
  | .insert t values returning => g.insert db t values returning
  | .update t values key => g.update db t values key
  | .delete t key =>
    (.affected ((db.rows t).filter (t.has key)).length,
      db.set t ((db.rows t).filter fun r => !t.has key r))
  | .script _ => (refusal, db)

/-- The server goes by the text of a statement and by its values, and knows no columns but those of
the tables. -/
def server : Server Database := fun s db =>
  match Statement.read? s.values s.text with
  | some s => if s.isKnown then g.execute db s else (refusal, db)
  | none => (refusal, db)

end Engine

end OrderDesk.Tables
