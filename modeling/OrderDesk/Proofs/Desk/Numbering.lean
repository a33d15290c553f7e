import Mathlib.Algebra.Group.Nat.Defs
import OrderDesk.Desk.Store
import OrderDesk.Proofs.Order.Pages

/-!
Numbers of stored items. The items of a stored order carry consecutive numbers, so while the store
has given fewer than 2^63 they are in ascending order.
-/

namespace OrderDesk.Store

variable {given n : Nat} {o : Order} {xs : List Item}

theorem exists_id_of_mem_numbered {x : Item} (h : x ∈ numbered given xs) :
    ∃ k, given < k ∧ k ≤ given + xs.length ∧ x.id = .ofNat k := by
  induction xs generalizing given with
  | nil => simp [numbered] at h
  | cons y xs ih =>
    rw [List.length_cons]
    rcases List.mem_cons.1 h with rfl | h
    · exact ⟨given + 1, by omega, by omega, rfl⟩
    · obtain ⟨k, hl, hu, he⟩ := ih h
      exact ⟨k, by omega, by omega, he⟩

theorem ofNat_lt_ofNat {j k : Nat} (h : j < k) (hk : k < 2 ^ 63) : Int64.ofNat j < .ofNat k := by
  rw [Int64.lt_iff_toInt_lt, Int64.toInt_ofNat_of_lt hk, Int64.toInt_ofNat_of_lt (h.trans hk)]
  exact_mod_cast h

theorem ascending_numbered (h : given + xs.length < 2 ^ 63) :
    Page.Ascending (numbered given xs) := by
  induction xs generalizing given with
  | nil => exact .nil
  | cons x xs ih =>
    rw [List.length_cons] at h
    refine List.pairwise_cons.2 ⟨fun y hy => ?_, ih (by omega)⟩
    obtain ⟨k, hl, hu, he⟩ := exists_id_of_mem_numbered hy
    simpa only [he] using ofNat_lt_ofNat hl (by omega)

theorem pos_of_mem_numbered (h : given + xs.length < 2 ^ 63) {x : Item}
    (hx : x ∈ numbered given xs) : 0 < x.id := by
  obtain ⟨k, hlow, hhigh, he⟩ := exists_id_of_mem_numbered hx
  rw [he]
  exact ofNat_lt_ofNat (j := 0) (by omega) (by omega)

def Numbered (given : Nat) (o : Order) : Prop :=
  ∃ first xs, o.items = numbered first xs ∧ first + xs.length ≤ given

theorem numbered_stored (given : Nat) (o : Order) :
    Numbered (given + o.items.length) (stored given o) := ⟨given, o.items, rfl, le_rfl⟩

theorem Numbered.mono (h : Numbered given o) (hn : given ≤ n) : Numbered n o := by
  obtain ⟨first, xs, he, hle⟩ := h
  exact ⟨first, xs, he, hle.trans hn⟩

theorem Numbered.ascending (h : Numbered given o) (hn : given < 2 ^ 63) :
    Page.Ascending o.items := by
  obtain ⟨first, xs, he, hle⟩ := h
  rw [he]
  exact ascending_numbered (hle.trans_lt hn)

theorem Numbered.pos (h : Numbered given o) (hn : given < 2 ^ 63) : ∀ x ∈ o.items, 0 < x.id := by
  obtain ⟨first, xs, he, hle⟩ := h
  rw [he]
  exact fun x => pos_of_mem_numbered (hle.trans_lt hn)

end OrderDesk.Store
