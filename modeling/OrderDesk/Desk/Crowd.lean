import OrderDesk.Desk.Reads

/-!
Clients at one desk at the same time. They take turns in any order, a step of a program at a turn, and
nothing keeps the steps of one program together.
-/

namespace OrderDesk

inductive Impact where
  | stored (v : Order)
  | cached (c : Order)
  | none
deriving DecidableEq

def Step.impact {α : Type} : Step α → α → Impact
  | .storeOrder _, .ok v => .stored v
  | .cacheOrder c, () => .cached c
  | _, _ => .none

structure Client where
  Answer : Type
  rest : Access (Except OrderError Answer)

def Client.succeeded : Client → Bool
  | ⟨_, .done (.ok _)⟩ => true
  | _ => false

inductive Visit (uid : String) where
  | readOrder
  | readItems (last limit : Int64)
  | persist (o : Order) (huid : o.uid = uid)

def Visit.client {uid : String} : Visit uid → Client
  | .readOrder => ⟨_, Desk.readOrder uid⟩
  | .readItems last limit => ⟨_, Desk.readItems uid last limit⟩
  | .persist o _ => ⟨_, Desk.persist o⟩

structure Crowd where
  clients : List Client
  desk : Desk

structure Crowd.Turn where
  client : Nat
  impact : Impact
deriving DecidableEq

namespace Crowd

def gather {uid : String} (d : Desk) (visits : List (Visit uid)) : Crowd :=
  ⟨visits.map Visit.client, d⟩

/-- A client takes a step. Nothing happens if there is no such client or his program is done. -/
def turn (w : Crowd) (i : Nat) : List Turn × Crowd :=
  match w.clients[i]? with
  | some ⟨_, .step s next⟩ =>
    let r := s.run w.desk
    ([⟨i, s.impact r.1⟩], ⟨w.clients.set i ⟨_, next r.1⟩, r.2⟩)
  | _ => ([], w)

def run (w : Crowd) : List Nat → List Turn × Crowd
  | [] => ([], w)
  | i :: is =>
    let r := (w.turn i).2.run is
    ((w.turn i).1 ++ r.1, r.2)

end Crowd

end OrderDesk
