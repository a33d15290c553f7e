import Mathlib.Data.List.Sort
import OrderDesk.Order.Shelf

/-!
Shelves as maps from uids to orders. A shelf is determined by what is found on it.
-/

namespace OrderDesk.Shelf

variable {s t : Shelf} {o b : Order} {uid : String}

@[simp] theorem find?_empty (uid : String) : empty.find? uid = none := rfl

theorem uid_of_find? (h : s.find? uid = some o) : o.uid = uid := by
  simpa using List.find?_some h

theorem mem_of_find? (h : s.find? uid = some o) : o ∈ s.orders := List.mem_of_find?_eq_some h

theorem find?_cons (a : Order) (as : List Order) (uid : String) :
    (a :: as).find? (fun o => o.uid = uid) =
      if a.uid = uid then some a else as.find? fun o => o.uid = uid := by
  by_cases h : a.uid = uid <;> simp [h]

theorem find?_insertInto (o : Order) {as : List Order}
    (h : as.Pairwise fun a b => a.uid < b.uid) (uid : String) :
    (insertInto o as).find? (fun a => a.uid = uid) =
      if o.uid = uid then some o else as.find? fun a => a.uid = uid := by
  induction as with
  | nil => rw [insertInto, find?_cons]
  | cons a as ih =>
    obtain ⟨-, h⟩ := List.pairwise_cons.1 h
    simp only [insertInto]
    split
    · rename_i hlt
      have hne : a.uid ≠ o.uid := fun he => String.lt_irrefl _ (he ▸ hlt)
      rw [find?_cons, find?_cons, ih h]
      by_cases ha : a.uid = uid
      · have hno : o.uid ≠ uid := fun ho => hne (ha.trans ho.symm)
        simp only [ha, hno, if_true, if_false]
      · simp only [ha, if_false]
    · split
      · rename_i heq
        rw [find?_cons, find?_cons, heq]
        split <;> rfl
      · rw [find?_cons]

theorem find?_insert (s : Shelf) (o : Order) (uid : String) :
    (s.insert o).find? uid = if o.uid = uid then some o else s.find? uid :=
  find?_insertInto o s.ascending uid

theorem find?_of_mem (h : o ∈ s.orders) : s.find? o.uid = some o := by
  have hs := s.ascending
  simp only [find?]
  generalize s.orders = as at h hs
  induction as with
  | nil => simp at h
  | cons a as ih =>
    obtain ⟨ha, hs⟩ := List.pairwise_cons.1 hs
    rw [find?_cons]
    rcases List.mem_cons.1 h with rfl | h
    · exact if_pos rfl
    · rw [if_neg, ih h hs]
      exact fun he => String.lt_irrefl _ (he ▸ ha o h)

theorem mem_map_iff {f : Order → Order} (hf : ∀ o, (f o).uid = o.uid) :
    b ∈ s.orders.map f ↔ (s.find? b.uid).map f = some b := by
  rw [List.mem_map, Option.map_eq_some_iff]
  constructor
  · rintro ⟨o, ho, rfl⟩
    exact ⟨o, by rw [hf]; exact find?_of_mem ho, rfl⟩
  · rintro ⟨o, ho, he⟩
    exact ⟨o, mem_of_find? ho, he⟩

theorem map_orders_eq {f : Order → Order} (hf : ∀ o, (f o).uid = o.uid)
    (h : ∀ uid, (s.find? uid).map f = (t.find? uid).map f) : s.orders.map f = t.orders.map f := by
  have hsorted (u : Shelf) : (u.orders.map f).Pairwise fun a b => a.uid < b.uid := by
    rw [List.pairwise_map]
    exact u.ascending.imp fun hab => by rw [hf, hf]; exact hab
  have : Std.Irrefl fun a b : Order => a.uid < b.uid := ⟨fun a => String.lt_irrefl a.uid⟩
  have : Std.Antisymm fun a b : Order => a.uid < b.uid :=
    ⟨fun _ _ hab hba => absurd (String.lt_trans hab hba) (String.lt_irrefl _)⟩
  refine (hsorted s).eq_of_mem_iff (hsorted t) fun b => ?_
  rw [mem_map_iff hf, mem_map_iff hf, h]

end OrderDesk.Shelf
