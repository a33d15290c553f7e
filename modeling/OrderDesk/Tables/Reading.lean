import OrderDesk.Tables.Statement

/-!
What a server makes of a statement. It is sent a text and the values of its parameters, and goes by
the text alone: it assigns the values to the columns that the text names.
-/

namespace OrderDesk.Tables

def isGap (c : Char) : Bool := c = ' ' || c = ',' || c = '(' || c = ')'

def wordsAfter (taken : List Char) : List Char → List String
  | [] => if taken.isEmpty then [] else [String.ofList taken]
  | c :: s =>
    if isGap c then (if taken.isEmpty then [] else [String.ofList taken]) ++ wordsAfter [] s
    else wordsAfter (taken ++ [c]) s

def words (text : String) : List String := wordsAfter [] text.toList

def isName (s : String) : Bool :=
  !s.toList.isEmpty && s.toList.all fun c => ('a' ≤ c && c ≤ 'z') || c = '_'

def Table.ofName? (name : String) : Option Table :=
  [Table.orders, .deliveries, .payments, .items].find? fun t => t.name = name

def valueOf? (vs : List Value) (mark : String) : Option Value :=
  ((parameters vs.length).zip vs).lookup mark

def integerOf? (vs : List Value) (mark : String) : Option Int64 :=
  match valueOf? vs mark with
  | some (.integer i) => some i
  | _ => none

def Selection.isPlain : Selection → Bool
  | .matching key => isName key.column
  | .locking key => isName key.column
  | .first column _ => isName column
  | .after key column _ _ => isName key.column && isName column

namespace Statement

def isPlain : Statement → Bool
  | .begin => true
  | .readOnly => true
  | .commit => true
  | .rollback => true
  | .select _ columns s => columns.all isName && s.isPlain
  | .insert _ values returning => (values.all fun b => isName b.column) && returning.all isName
  | .update _ values key => (values.all fun b => isName b.column) && isName key.column
  | .delete _ key => isName key.column
  | .script _ => false

variable (vs : List Value)

def readSelection? : List String → Option Selection
  | ["WHERE", key, "=", mark] => do
    let value ← valueOf? vs mark
    pure (.matching ⟨key, value⟩)
  | ["WHERE", key, "=", mark, "FOR", "UPDATE"] => do
    let value ← valueOf? vs mark
    pure (.locking ⟨key, value⟩)
  | ["ORDER", "BY", column, "LIMIT", mark] => do
    let limit ← integerOf? vs mark
    pure (.first column limit)
  | ["WHERE", key, "=", mark, "AND", column, ">", bound, "ORDER", "BY", order, "LIMIT", last] => do
    let value ← valueOf? vs mark
    let cursor ← integerOf? vs bound
    let limit ← integerOf? vs last
    if column = order then pure (.after ⟨key, value⟩ column cursor limit) else none
  | _ => none

def readSelect? (ws : List String) : Option Statement :=
  match ws.dropWhile (· ≠ "FROM") with
  | _ :: name :: rest => do
    let t ← Table.ofName? name
    let s ← readSelection? vs rest
    pure (.select t (ws.takeWhile (· ≠ "FROM")) s)
  | _ => none

def readBindings? : List String → List String → Option (List Binding)
  | [], [] => some []
  | column :: columns, mark :: marks => do
    let value ← valueOf? vs mark
    let bs ← readBindings? columns marks
    pure (⟨column, value⟩ :: bs)
  | _, _ => none

def readInsert? (t : Table) (ws : List String) : Option Statement :=
  let columns := ws.takeWhile (· ≠ "VALUES")
  let rest := (ws.dropWhile (· ≠ "VALUES")).tail
  let marks := rest.takeWhile (· ≠ "RETURNING")
  match rest.dropWhile (· ≠ "RETURNING") with
  | [] => do
    let bs ← readBindings? vs columns marks
    pure (.insert t bs none)
  | [_, column] => do
    let bs ← readBindings? vs columns marks
    pure (.insert t bs (some column))
  | _ => none

def readAssignments? : List String → Option (List Binding × Binding)
  | ["WHERE", key, "=", mark] => do
    let value ← valueOf? vs mark
    pure ([], ⟨key, value⟩)
  | column :: "=" :: mark :: ws => do
    let value ← valueOf? vs mark
    let (bs, key) ← readAssignments? ws
    pure (⟨column, value⟩ :: bs, key)
  | _ => none

def readWords? : List String → Option Statement
  | "SELECT" :: ws => readSelect? vs ws
  | "INSERT" :: "INTO" :: name :: ws => do
    let t ← Table.ofName? name
    readInsert? vs t ws
  | "UPDATE" :: name :: "SET" :: ws => do
    let t ← Table.ofName? name
    let (bs, key) ← readAssignments? vs ws
    pure (.update t bs key)
  | ["DELETE", "FROM", name, "WHERE", key, "=", mark] => do
    let t ← Table.ofName? name
    let value ← valueOf? vs mark
    pure (.delete t ⟨key, value⟩)
  | ["BEGIN"] => some .begin
  | ["SET", "TRANSACTION", "READ", "ONLY"] => some .readOnly
  | ["COMMIT"] => some .commit
  | ["ROLLBACK"] => some .rollback
  | _ => none

def read? (text : String) : Option Statement := readWords? vs (words text)

end Statement

end OrderDesk.Tables
