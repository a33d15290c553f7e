import OrderDesk.Desk.Counter
import OrderDesk.Log.Scripted

/-!
Acts: what a pipeline does that another party could notice, and when. The acts of a pipeline are its
history; nothing it does depends on them.
-/

namespace OrderDesk

inductive Act where
  | polled (p : Polled)
  | idled (count : Nat)
  | began (m : Message)
  | called (time : Nat) (o : Order)
  | answered (time : Nat) (r : Except OrderError Unit)
  | committed (m : Message) (accepted : Bool)
  | marked (key : String)
  | dropped (keys : List String)
  | ended (time : Nat) (m : Message) (r : Except OrderError Outcome)
  | closed

end OrderDesk
