import OrderDesk.Order.Basic

/-!
Pages of items. A cursor is the id of the last item seen, and a page holds the items after it up to
a limit. There are two ways to cut one; on items in ascending order they agree.
-/

namespace OrderDesk.Page

/-- The items a limit allows: none if it is negative. -/
def allowed (limit : Int64) : Nat := limit.toInt.toNat

def slice (xs : List Item) (last limit : Int64) : List Item :=
  (xs.dropWhile fun x => x.id ≤ last).take (allowed limit)

def select (xs : List Item) (last limit : Int64) : List Item :=
  (xs.filter fun x => last < x.id).take (allowed limit)

theorem length_select_le (xs : List Item) (last limit : Int64) :
    (select xs last limit).length ≤ allowed limit := by
  simp only [select, List.length_take]
  exact Nat.min_le_left _ _

end OrderDesk.Page
