/-!
Powers of two and of ten.
-/

namespace OrderDesk

-- the operator is not used, for what it means depends on which instances are imported
def twoTo (n : Nat) : Nat := Nat.pow 2 n

def tenTo (n : Nat) : Nat := Nat.pow 10 n

end OrderDesk
