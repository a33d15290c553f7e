import OrderDesk.Order.Basic

/-!
Shelves: orders by their uid, each uid at most once, in ascending order of uid.
-/

namespace OrderDesk

structure Shelf where
  orders : List Order
  ascending : orders.Pairwise fun a b => a.uid < b.uid

namespace Shelf

def empty : Shelf := ⟨[], .nil⟩

instance : Inhabited Shelf := ⟨empty⟩

def find? (s : Shelf) (uid : String) : Option Order := s.orders.find? fun o => o.uid = uid

def size (s : Shelf) : Nat := s.orders.length

def insertInto (o : Order) : List Order → List Order
  | [] => [o]
  | a :: as =>
    if a.uid < o.uid then a :: insertInto o as
    else if a.uid = o.uid then o :: as
    else o :: a :: as

theorem mem_insertInto {o b : Order} {as : List Order} (h : b ∈ insertInto o as) :
    b = o ∨ b ∈ as := by
  induction as with
  | nil => simpa [insertInto] using h
  | cons a as ih =>
    simp only [insertInto] at h
    split at h
    · rcases List.mem_cons.1 h with rfl | h
      · simp
      · rcases ih h with rfl | h <;> simp [*]
    · split at h
      · rcases List.mem_cons.1 h with rfl | h <;> simp [*]
      · rcases List.mem_cons.1 h with rfl | h
        · simp
        · exact .inr h

theorem pairwise_insertInto (o : Order) {as : List Order}
    (h : as.Pairwise fun a b => a.uid < b.uid) :
    (insertInto o as).Pairwise fun a b => a.uid < b.uid := by
  induction as with
  | nil => simp [insertInto]
  | cons a as ih =>
    obtain ⟨ha, h⟩ := List.pairwise_cons.1 h
    simp only [insertInto]
    split
    · rename_i hlt
      refine List.pairwise_cons.2 ⟨fun b hb => ?_, ih h⟩
      rcases mem_insertInto hb with rfl | hb
      · exact hlt
      · exact ha b hb
    · split
      · rename_i heq
        exact List.pairwise_cons.2 ⟨fun b hb => heq ▸ ha b hb, h⟩
      · rename_i hlt hne
        have hoa : o.uid < a.uid := by
          rcases String.le_total o.uid a.uid with hle | hle
          · exact String.not_le.1 fun hge => hne (String.le_antisymm hge hle)
          · exact absurd (String.not_le.1 fun hge => hne (String.le_antisymm hle hge)) hlt
        refine List.pairwise_cons.2 ⟨fun b hb => ?_, List.pairwise_cons.2 ⟨ha, h⟩⟩
        rcases List.mem_cons.1 hb with rfl | hb
        · exact hoa
        · exact String.lt_trans hoa (ha b hb)

def insert (s : Shelf) (o : Order) : Shelf :=
  ⟨insertInto o s.orders, pairwise_insertInto o s.ascending⟩

end Shelf

end OrderDesk
