import Mathlib.Algebra.Ring.Int.Defs
import Mathlib.Algebra.Ring.Nat
import OrderDesk.Proofs.Api.Answers
import OrderDesk.Proofs.Text.Decimal

/-!
Parameters of requests: which texts ask for a page and for what page, and what is done for a request
that asks for none. It is answered without a step at the desk but the note of its failure.
-/

namespace OrderDesk

namespace Api

/-! ## Pages -/

namespace PageQuery

open Text.Decimal (Unsigned Signed int64? int64?_eq_some_iff)

variable {least fallback i last limit : Int64} {raw : Option String} {f : Failure} {q : PageQuery}

/-- The limit that a text asks for: ten items if there is none, else as many as it writes, and a hundred
at most. -/
inductive AsksLimit : Option String → Int64 → Prop where
  | absent : AsksLimit none 10
  | empty : AsksLimit (some "") 10
  | given {s : String} {n : Nat} (h : Unsigned s.toList n) (hn : 1 ≤ n ∧ n < 2 ^ 63) :
    AsksLimit (some s) (Int64.ofNat (min n 100))

/-- The cursor that a text asks for: the beginning if there is none, else the number it writes. -/
inductive AsksCursor : Option String → Int64 → Prop where
  | absent : AsksCursor none 0
  | empty : AsksCursor (some "") 0
  | given {s : String} {i : Int} (h : Signed s.toList i) (hi : 0 ≤ i ∧ i < 2 ^ 63) :
    AsksCursor (some s) (Int64.ofInt i)

theorem number_of_empty (h : raw = none ∨ raw = some "") : number least fallback raw = .ok fallback := by
  rcases h with rfl | rfl
  · rfl
  · simp only [number, if_true]

theorem number_of_some {s : String} (hs : s ≠ "") : number least fallback (some s) =
    match int64? s.toList with
    | some i => if least ≤ i then .ok i else .error .badRequest
    | none => .error .badRequest :=
  if_neg hs

theorem number_eq_ok_iff : number least fallback raw = .ok i ↔
    (raw = none ∨ raw = some "") ∧ i = fallback ∨
      ∃ s, raw = some s ∧ Signed s.toList i.toInt ∧ least ≤ i := by
  constructor
  · intro h
    by_cases hempty : raw = none ∨ raw = some ""
    · rw [number_of_empty hempty] at h
      exact .inl ⟨hempty, (Except.ok.inj h).symm⟩
    · obtain ⟨hnone, hs⟩ := not_or.1 hempty
      obtain ⟨s, rfl⟩ := Option.ne_none_iff_exists'.1 hnone
      rw [number_of_some fun h => hs (congrArg some h)] at h
      split at h
      · rename_i j hj
        split at h <;> cases h
        exact .inr ⟨s, rfl, int64?_eq_some_iff.1 hj, ‹_›⟩
      · cases h
  · rintro (⟨hempty, rfl⟩ | ⟨s, rfl, hs, hle⟩)
    · exact number_of_empty hempty
    · have hne : s ≠ "" := fun h => hs.ne_nil (String.toList_eq_nil_iff.2 h)
      rw [number_of_some hne, int64?_eq_some_iff.2 hs]
      exact if_pos hle

theorem number_eq_error (h : number least fallback raw = .error f) : f = .badRequest := by
  cases raw with
  | none => cases h
  | some s =>
    by_cases hs : s = ""
    · rw [number_of_empty (.inr (congrArg some hs))] at h
      cases h
    · rw [number_of_some hs] at h
      split at h
      · split at h <;> cases h
        rfl
      · cases h
        rfl

theorem min_mostLimit {i : Int64} {n : Nat} (h : i.toInt = n) :
    min i mostLimit = Int64.ofNat (min n 100) := by
  have hmin : min i mostLimit = if i ≤ mostLimit then i else mostLimit := rfl
  have hmost : mostLimit.toInt = 100 := by decide
  rw [hmin]
  split
  · rename_i hle
    rw [Int64.le_iff_toInt_le, hmost] at hle
    rw [Nat.min_eq_left (by omega), ← Int64.ofInt_toInt i, h]
    rfl
  · rename_i hle
    rw [Int64.le_iff_toInt_le, hmost] at hle
    rw [Nat.min_eq_right (by omega)]
    rfl

theorem asksLimit_iff : AsksLimit raw limit ↔
    ∃ i, number 1 defaultLimit raw = .ok i ∧ min i mostLimit = limit := by
  have hone : (1 : Int64).toInt = 1 := by decide
  simp only [number_eq_ok_iff, Int64.le_iff_toInt_le, hone]
  constructor
  · intro h
    cases h with
    | absent => exact ⟨10, .inl ⟨.inl rfl, rfl⟩, rfl⟩
    | empty => exact ⟨10, .inl ⟨.inr rfl, rfl⟩, rfl⟩
    | @given s n h hn =>
      have hi : (Int64.ofInt n).toInt = n := Int64.toInt_ofInt_of_le (by omega) (by omega)
      refine ⟨Int64.ofInt n, .inr ⟨s, rfl, ?_, ?_⟩, min_mostLimit hi⟩ <;> rw [hi]
      · exact .unsigned h
      · omega
  · rintro ⟨i, ⟨rfl | rfl, rfl⟩ | ⟨s, rfl, hs, hle⟩, rfl⟩
    · exact .absent
    · exact .empty
    · obtain ⟨n, hn, hi⟩ := hs.exists_unsigned (by omega)
      have hlt := i.toInt_lt
      rw [min_mostLimit hi]
      exact .given hn ⟨by omega, by omega⟩

theorem asksCursor_iff : AsksCursor raw last ↔ number 0 0 raw = .ok last := by
  have hzero : (0 : Int64).toInt = 0 := by decide
  simp only [number_eq_ok_iff, Int64.le_iff_toInt_le, hzero]
  constructor
  · intro h
    cases h with
    | absent => exact .inl ⟨.inl rfl, rfl⟩
    | empty => exact .inl ⟨.inr rfl, rfl⟩
    | @given s i h hi =>
      have hback : (Int64.ofInt i).toInt = i := Int64.toInt_ofInt_of_le (by omega) (by omega)
      refine .inr ⟨s, rfl, ?_, ?_⟩ <;> rw [hback]
      · exact h
      · exact hi.1
  · rintro (⟨rfl | rfl, rfl⟩ | ⟨s, rfl, hs, hle⟩)
    · exact .absent
    · exact .empty
    · have hlt := last.toInt_lt
      have hgiven := AsksCursor.given hs ⟨hle, hlt⟩
      rwa [Int64.ofInt_toInt] at hgiven

def Asks (q : PageQuery) (last limit : Int64) : Prop :=
  AsksCursor q.lastId last ∧ AsksLimit q.limit limit

theorem page_eq_ok_iff : q.page = .ok (last, limit) ↔ q.Asks last limit := by
  rw [Asks, asksCursor_iff, asksLimit_iff]
  unfold page
  cases number 1 defaultLimit q.limit with
  | error f => simp [bind, Except.bind]
  | ok i => cases number 0 0 q.lastId <;> simp [bind, Except.bind, pure, Except.pure]

theorem page_eq_error (h : q.page = .error f) : f = .badRequest := by
  unfold page at h
  cases hlimit : number 1 defaultLimit q.limit with
  | error g =>
    rw [hlimit] at h
    obtain rfl := Except.error.inj h
    exact number_eq_error hlimit
  | ok i =>
    rw [hlimit] at h
    cases hlast : number 0 0 q.lastId with
    | error g =>
      rw [hlast] at h
      obtain rfl := Except.error.inj h
      exact number_eq_error hlast
    | ok j =>
      rw [hlast] at h
      cases h

theorem page_eq_error_iff :
    q.page = .error f ↔ f = .badRequest ∧ ∀ last limit, ¬ q.Asks last limit := by
  constructor
  · intro h
    refine ⟨page_eq_error h, fun last limit hasks => ?_⟩
    rw [page_eq_ok_iff.2 hasks] at h
    cases h
  · rintro ⟨rfl, hnone⟩
    cases hpage : q.page with
    | error f => rw [page_eq_error hpage]
    | ok r => exact absurd (page_eq_ok_iff.1 hpage) (hnone r.1 r.2)

theorem AsksCursor.nonneg (h : AsksCursor raw last) : 0 ≤ last := by
  cases h with
  | absent | empty => decide
  | @given s i _ hi =>
    have hback : (Int64.ofInt i).toInt = i := Int64.toInt_ofInt_of_le (by omega) (by omega)
    rw [Int64.le_iff_toInt_le, hback]
    exact hi.1

theorem AsksLimit.bounds (h : AsksLimit raw limit) : 1 ≤ limit ∧ limit ≤ 100 := by
  cases h with
  | absent | empty => decide
  | @given s n _ hn =>
    have hback : (Int64.ofInt (min n 100 : Nat)).toInt = (min n 100 : Nat) :=
      Int64.toInt_ofInt_of_le (by omega) (by omega)
    have hone : (1 : Int64).toInt = 1 := by decide
    have hmost : (100 : Int64).toInt = 100 := by decide
    have hof : Int64.ofNat (min n 100) = Int64.ofInt (min n 100 : Nat) := rfl
    rw [hof, Int64.le_iff_toInt_le, Int64.le_iff_toInt_le, hback, hone, hmost]
    omega

/-- A page is given for exactly the texts that ask for one, and anything else is a bad request. -/
structure Exact (q : PageQuery) : Prop where
  ok_iff : ∀ last limit, q.page = .ok (last, limit) ↔ q.Asks last limit
  error_iff : ∀ f, q.page = .error f ↔ f = .badRequest ∧ ∀ last limit, ¬ q.Asks last limit
  bounds : ∀ last limit, q.page = .ok (last, limit) → 0 ≤ last ∧ 1 ≤ limit ∧ limit ≤ 100

theorem exact (q : PageQuery) : q.Exact where
  ok_iff _ _ := page_eq_ok_iff
  error_iff _ := page_eq_error_iff
  bounds _ _ h := by
    obtain ⟨hcursor, hlimit⟩ := page_eq_ok_iff.1 h
    exact ⟨hcursor.nonneg, hlimit.bounds⟩

end PageQuery

end Api

/-! ## Steps -/

def Access.steps {α : Type} : Access α → Desk → List (Σ β : Type, Step β)
  | .done _, _ => []
  | .step s next, d => ⟨_, s⟩ :: (next (s.run d).1).steps (s.run d).2

namespace Api

variable {id query : List Char} {d : Desk}

def clientError : Event := ⟨.warn, "Client error"⟩

theorem run_fail_badRequest (d : Desk) :
    (fail .badRequest).run d = (.ofFailure .badRequest, d.note clientError) := rfl

theorem steps_fail_badRequest (d : Desk) :
    (fail .badRequest).steps d = [⟨Unit, .note clientError⟩] := rfl

/-- Whether a request that can be read asks for nothing that there is: its id is blank, or its
parameters ask for no page. -/
def Rejected (query : List Char) : Route → Prop
  | .order id => ∃ uid, segmentText? id = some uid ∧ Text.blank uid = true
  | .items id => ∃ uid q, segmentText? id = some uid ∧ pageQuery (formPairs query) = .ok q ∧
      (Text.blank uid = true ∨ ∀ last limit, ¬ q.Asks last limit)
  | .health | .metrics => False

theorem getOrder_of_rejected (h : Rejected query (.order id)) : getOrder id = fail .badRequest := by
  obtain ⟨uid, hid, hblank⟩ := h
  simp only [getOrder, hid, hblank, if_true]

theorem getItems_of_rejected (h : Rejected query (.items id)) :
    getItems id query = fail .badRequest := by
  obtain ⟨uid, q, hid, hq, hnone⟩ := h
  simp only [getItems, hid, hq]
  split
  · rfl
  · rename_i hblank
    rw [PageQuery.page_eq_error_iff.2 ⟨rfl, hnone.resolve_left hblank⟩]

theorem exists_of_refused_order (h : Refused query (.order id)) :
    ∃ text, getOrder id = pure (.plain 400 text) := by
  have hid : segmentText? id = none := h
  simp only [getOrder, hid]
  exact ⟨_, rfl⟩

theorem exists_of_refused_items (h : Refused query (.items id)) :
    ∃ text, getItems id query = pure (.plain 400 text) := by
  simp only [Refused, ← pageQuery_error_iff] at h
  cases hid : segmentText? id with
  | none =>
    simp only [getItems, hid]
    exact ⟨_, rfl⟩
  | some uid =>
    obtain ⟨field, hfield⟩ := h.resolve_left (by simp [hid])
    simp only [getItems, hid, hfield]
    exact ⟨_, rfl⟩

theorem exists_page_of_served (hrefused : ¬ Refused query (.items id))
    (hrejected : ¬ Rejected query (.items id)) :
    ∃ uid q last limit, segmentText? id = some uid ∧ pageQuery (formPairs query) = .ok q ∧
      q.Asks last limit ∧
      getItems id query = answer Wire.itemsText (Desk.readItems uid last limit) := by
  simp only [Refused, ← pageQuery_error_iff, not_or, not_exists] at hrefused
  obtain ⟨hid, hfields⟩ := hrefused
  obtain ⟨uid, hid⟩ := Option.ne_none_iff_exists'.1 hid
  cases hq : pageQuery (formPairs query) with
  | error field => exact absurd hq (hfields field)
  | ok q =>
    have hblank : ¬ Text.blank uid = true := fun h => hrejected ⟨uid, q, hid, hq, .inl h⟩
    have hasks : ∃ last limit, q.Asks last limit := by
      by_contra hnone
      push Not at hnone
      exact hrejected ⟨uid, q, hid, hq, .inr hnone⟩
    obtain ⟨last, limit, hasks⟩ := hasks
    refine ⟨uid, q, last, limit, hid, rfl, hasks, ?_⟩
    simp only [getItems, hid, hq, if_neg hblank, PageQuery.page_eq_ok_iff.2 hasks]

end Api

end OrderDesk
