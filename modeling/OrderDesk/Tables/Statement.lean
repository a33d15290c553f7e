import OrderDesk.Tables.Schema
import OrderDesk.Time.Moment

/-!
Statements and replies. A statement names tables, columns and the values bound to them; its text and
the order of its parameters follow from that.
-/

namespace OrderDesk.Tables

inductive Value where
  | text (s : String)
  | integer (i : Int64)
  | moment (t : Moment)
deriving DecidableEq, Repr

structure Binding where
  column : String
  value : Value
deriving DecidableEq, Repr

inductive Selection where
  | matching (key : Binding)
  /-- The rows with a key, kept from others until the transaction ends. -/
  | locking (key : Binding)
  | first (column : String) (limit : Int64)
  | after (key : Binding) (column : String) (cursor limit : Int64)
deriving DecidableEq, Repr

inductive Statement where
  | begin
  | readOnly
  | commit
  | rollback
  | select (t : Table) (columns : List String) (s : Selection)
  | insert (t : Table) (values : List Binding) (returning : Option String)
  | update (t : Table) (values : List Binding) (key : Binding)
  | delete (t : Table) (key : Binding)
  | script (sql : String)
deriving DecidableEq, Repr

abbrev Cell := Option Value

inductive Reply where
  | rows (rs : List (List Cell))
  | affected (count : Nat)
  | refused (message : String)
deriving DecidableEq, Repr

/-! ## Text and parameters -/

def list (names : List String) : String := String.intercalate ", " names

def parameter (n : Nat) : String := "$" ++ Text.Decimal.natText n

def parameters (count : Nat) : List String := (List.range count).map fun i => parameter (i + 1)

def Selection.text : Selection → String
  | .matching key => " WHERE " ++ key.column ++ " = $1"
  | .locking key => " WHERE " ++ key.column ++ " = $1 FOR UPDATE"
  | .first column _ => " ORDER BY " ++ column ++ " LIMIT $1"
  | .after key column _ _ =>
    " WHERE " ++ key.column ++ " = $1 AND " ++ column ++ " > $2 ORDER BY " ++ column ++
      " LIMIT $3"

def Selection.values : Selection → List Value
  | .matching key => [key.value]
  | .locking key => [key.value]
  | .first _ limit => [.integer limit]
  | .after key _ cursor limit => [key.value, .integer cursor, .integer limit]

def assignments (values : List Binding) : String :=
  list ((values.zip (parameters values.length)).map fun v => v.1.column ++ " = " ++ v.2)

def Statement.text : Statement → String
  | .begin => "BEGIN"
  | .readOnly => "SET TRANSACTION READ ONLY"
  | .commit => "COMMIT"
  | .rollback => "ROLLBACK"
  | .select t columns s => "SELECT " ++ list columns ++ " FROM " ++ t.name ++ s.text
  | .insert t values returning =>
    "INSERT INTO " ++ t.name ++ " (" ++ list (values.map Binding.column) ++ ") VALUES (" ++
      list (parameters values.length) ++ ")" ++
      (match returning with
        | some column => " RETURNING " ++ column
        | none => "")
  | .update t values key =>
    "UPDATE " ++ t.name ++ " SET " ++ assignments values ++ " WHERE " ++ key.column ++ " = " ++
      parameter (values.length + 1)
  | .delete t key => "DELETE FROM " ++ t.name ++ " WHERE " ++ key.column ++ " = $1"
  | .script sql => sql

def Statement.values : Statement → List Value
  | .begin => []
  | .readOnly => []
  | .commit => []
  | .rollback => []
  | .select _ _ s => s.values
  | .insert _ values _ => values.map Binding.value
  | .update _ values key => values.map Binding.value ++ [key.value]
  | .delete _ key => [key.value]
  | .script _ => []

def Statement.writes : Statement → Bool
  | .insert .. => true
  | .update .. => true
  | .delete .. => true
  | .script _ => true
  | _ => false

end OrderDesk.Tables
