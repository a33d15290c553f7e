import OrderDesk.Proofs.Desk.Numbering
import OrderDesk.Proofs.Order.Shelves

/-!
Versions of orders: the forms in which orders are stored one after the other. A later version of an
order replaces the earlier ones, and no two versions share the number of an item.
-/

namespace OrderDesk

namespace Order

def latest (vs : List Order) (uid : String) : Option Order := vs.reverse.find? fun v => v.uid = uid

/-- A version that a later one of the same order took the place of. -/
def Replaced (vs : List Order) (v : Order) : Prop :=
  ∃ before after, vs = before ++ v :: after ∧ ∃ u ∈ after, u.uid = v.uid

variable {vs : List Order} {u v : Order} {uid : String}

theorem latest_append (us vs : List Order) (uid : String) :
    latest (us ++ vs) uid = (latest vs uid).or (latest us uid) := by
  simp only [latest, List.reverse_append, List.find?_append]

theorem latest_singleton (v : Order) (uid : String) :
    latest [v] uid = if v.uid = uid then some v else none := by
  by_cases h : v.uid = uid <;> simp [latest, h]

theorem latest_eq_getLast? (h : ∀ v ∈ vs, v.uid = uid) : latest vs uid = vs.getLast? := by
  rw [latest, List.getLast?_eq_head?_reverse]
  cases hvs : vs.reverse with
  | nil => rfl
  | cons v us =>
    have hv : v ∈ vs := List.mem_reverse.1 (hvs ▸ List.mem_cons_self)
    simp [h v hv]

theorem exists_eq_append_of_latest (h : latest vs uid = some v) :
    v.uid = uid ∧ ∃ before after, vs = before ++ v :: after ∧ ∀ u ∈ after, u.uid ≠ uid := by
  obtain ⟨huid, after, before, hsplit, hafter⟩ := List.find?_eq_some_iff_append.1 h
  refine ⟨by simpa using huid, before.reverse, after.reverse, ?_, fun u hu => ?_⟩
  · have hvs := congrArg List.reverse hsplit
    simpa using hvs
  · have hne := hafter u (List.mem_reverse.1 hu)
    simpa using hne

end Order

namespace Store

variable {given n : Nat} {os ps : List Order} {v : Order} {uid : String}

def givenAfter (given : Nat) (os : List Order) : Nat := given + (os.flatMap Order.items).length

def versions : Nat → List Order → List Order
  | _, [] => []
  | given, o :: os => stored given o :: versions (given + o.items.length) os

theorem givenAfter_append (given : Nat) (os ps : List Order) :
    givenAfter given (os ++ ps) = givenAfter (givenAfter given os) ps := by
  simp only [givenAfter, List.flatMap_append, List.length_append]
  omega

theorem givenAfter_cons (given : Nat) (o : Order) (os : List Order) :
    givenAfter given (o :: os) = givenAfter (given + o.items.length) os := by
  simp only [givenAfter, List.flatMap_cons, List.length_append]
  omega

theorem versions_append (given : Nat) (os ps : List Order) :
    versions given (os ++ ps) = versions given os ++ versions (givenAfter given os) ps := by
  induction os generalizing given with
  | nil => rfl
  | cons o os ih =>
    rw [List.cons_append, versions, versions, ih, givenAfter_cons, List.cons_append]

theorem exists_of_mem_versions (hv : v ∈ versions given os) :
    ∃ o ∈ os, ∃ k, v = stored k o := by
  induction os generalizing given with
  | nil => cases hv
  | cons o os ih =>
    rcases List.mem_cons.1 hv with rfl | hv
    · exact ⟨o, List.mem_cons_self, given, rfl⟩
    · obtain ⟨b, hb, k, rfl⟩ := ih hv
      exact ⟨b, List.mem_cons_of_mem o hb, k, rfl⟩

theorem numbered_of_mem_versions (hv : v ∈ versions given os) :
    Numbered (givenAfter given os) v := by
  induction os generalizing given with
  | nil => cases hv
  | cons o os ih =>
    rw [givenAfter_cons]
    rcases List.mem_cons.1 hv with rfl | hv
    · exact (numbered_stored given o).mono (Nat.le_add_right ..)
    · exact ih hv

theorem exists_id_of_mem_versions (hv : v ∈ versions given os) {x : Item} (hx : x ∈ v.items) :
    ∃ k, given < k ∧ k ≤ givenAfter given os ∧ x.id = .ofNat k := by
  induction os generalizing given with
  | nil => cases hv
  | cons o os ih =>
    rw [givenAfter_cons]
    rcases List.mem_cons.1 hv with rfl | hv
    · obtain ⟨k, hlow, hhigh, he⟩ := exists_id_of_mem_numbered hx
      exact ⟨k, hlow, hhigh.trans (Nat.le_add_right ..), he⟩
    · obtain ⟨k, hlow, hhigh, he⟩ := ih hv
      exact ⟨k, by omega, hhigh, he⟩

theorem pairwise_versions (h : givenAfter given os < 2 ^ 63) :
    (versions given os).Pairwise fun u v => ∀ x ∈ u.items, ∀ y ∈ v.items, x.id < y.id := by
  induction os generalizing given with
  | nil => exact .nil
  | cons o os ih =>
    rw [givenAfter_cons] at h
    refine List.pairwise_cons.2 ⟨fun v hv x hx y hy => ?_, ih h⟩
    obtain ⟨j, -, hj, hjx⟩ := exists_id_of_mem_numbered hx
    obtain ⟨k, hk, hlast, hky⟩ := exists_id_of_mem_versions hv hy
    rw [hjx, hky]
    exact ofNat_lt_ofNat (hj.trans_lt hk) (hlast.trans_lt h)

theorem id_ne_of_replaced (h : givenAfter given os < 2 ^ 63)
    (hv : Order.latest (versions given os) uid = some v) {u : Order}
    (hu : Order.Replaced (versions given os) u) {x y : Item} (hx : x ∈ v.items)
    (hy : y ∈ u.items) : x.id ≠ y.id := by
  have hpairs := pairwise_versions h
  obtain ⟨hvuid, before, after, hsplit, hlast⟩ := Order.exists_eq_append_of_latest hv
  obtain ⟨before', after', hsplit', w, hw, hwuid⟩ := hu
  -- where one version is at two places, its uid tells that the later place is not replaced
  have horder : u ∈ before ∨ u ∈ after := by
    have hwhere := hsplit.symm.trans hsplit'
    rcases List.append_eq_append_iff.1 hwhere with ⟨mid, rfl, hmid⟩ | ⟨mid, rfl, hmid⟩
    · cases mid with
      | nil =>
        obtain ⟨rfl, rfl⟩ := List.cons.inj hmid
        exact absurd (hwuid.trans hvuid) (hlast w hw)
      | cons a mid =>
        obtain ⟨-, rfl⟩ := List.cons.inj hmid
        exact .inr (by simp)
    · cases mid with
      | nil =>
        obtain ⟨rfl, rfl⟩ := List.cons.inj hmid
        exact absurd (hwuid.trans hvuid) (hlast w hw)
      | cons a mid =>
        obtain ⟨rfl, -⟩ := List.cons.inj hmid
        exact .inl (by simp)
  rw [hsplit] at hpairs
  have hparts := List.pairwise_append.1 hpairs
  rcases horder with hbefore | hafter
  · exact (Int64.ne_of_lt (hparts.2.2 u hbefore v List.mem_cons_self y hy x hx)).symm
  · exact Int64.ne_of_lt ((List.pairwise_cons.1 hparts.2.1).1 u hafter x hx y hy)

end Store

namespace Shelf

theorem find?_foldl_insert (s : Shelf) (vs : List Order) (uid : String) :
    (vs.foldl insert s).find? uid = (Order.latest vs uid).or (s.find? uid) := by
  induction vs generalizing s with
  | nil => rfl
  | cons v vs ih =>
    have hcons : Order.latest (v :: vs) uid =
        (Order.latest vs uid).or (Order.latest [v] uid) := Order.latest_append [v] vs uid
    rw [List.foldl_cons, ih, find?_insert, hcons, Option.or_assoc, Order.latest_singleton]
    split <;> rfl

end Shelf

end OrderDesk
