import OrderDesk.Tables.Session
import OrderDesk.Text.Blank

/-!
Connecting to a server, and creating the tables there.
-/

namespace OrderDesk.Tables

inductive ConnectFault where
  | unreachable
  | refused (message : String)
deriving DecidableEq, Repr

def ConnectFault.message : ConnectFault → String
  | .unreachable =>
    "error communicating with database: Network is unreachable (os error 101)"
  | .refused m => "error returned from database: " ++ m

def connect (fault : Option ConnectFault) : Work Unit :=
  match fault with
  | some f => throw (.storage ("failed to connect: " ++ f.message))
  | none => Work.note ⟨.info, "Connected to order database"⟩

/-- Runs the script of a schema, unless it is blank. -/
def applySchema (sql : String) : Work Unit := do
  if Text.blank sql then
    Work.note ⟨.warn, "Schema script is empty, skipping"⟩
  else
    let _ ← Work.send (.script sql) Reply.count
      fun f => .storage ("failed to apply schema: " ++ f.message)
    Work.note ⟨.info, "Database schema applied"⟩

end OrderDesk.Tables
