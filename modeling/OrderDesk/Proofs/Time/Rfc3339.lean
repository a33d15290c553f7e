import OrderDesk.Proofs.Text.Decimal
import OrderDesk.Time.Rfc3339

/-!
Moments read back from their printed form.
-/

namespace OrderDesk

open Text (isBlank skipBlank skipBlank_of_not_isBlank)
open Text.Decimal (isDigit value padded value_padded isDigit_of_mem_padded length_padded
  padded_ne_nil)

namespace Rfc3339

variable {c : Char} {ds : List Char} {most least n : Nat}

/-! ## Numbers -/

theorem number_eq (most : Nat) (hs : ds ≠ []) :
    number most ds = if (ds.take most).takeWhile isDigit = [] then .error .invalid
      else .ok (value ((ds.take most).takeWhile isDigit),
        ds.drop ((ds.take most).takeWhile isDigit).length) := by
  obtain ⟨d, ds, rfl⟩ := List.exists_cons_of_ne_nil hs
  rfl

theorem number_digits (hne : ds ≠ []) (hd : ∀ d ∈ ds, isDigit d = true) (hlen : ds.length ≤ most)
    (hc : isDigit c = false) (rest : List Char) :
    number most (ds ++ c :: rest) = .ok (value ds, c :: rest) := by
  have htake : ((ds ++ c :: rest).take most).takeWhile isDigit = ds := by
    rw [List.take_append, List.take_of_length_le hlen, List.takeWhile_append_of_pos hd]
    have hstop : ((c :: rest).take (most - ds.length)).takeWhile isDigit = [] := by
      cases most - ds.length with
      | zero => rfl
      | succ k => simp [hc]
    rw [hstop, List.append_nil]
  have hs : ds ++ c :: rest ≠ [] := by simp
  rw [number_eq most hs, htake, if_neg hne, List.drop_left]

theorem skipBlank_digits (hne : ds ≠ []) (hd : ∀ d ∈ ds, isDigit d = true) (rest : List Char) :
    skipBlank (ds ++ rest) = ds ++ rest := by
  obtain ⟨d, ds, rfl⟩ := List.exists_cons_of_ne_nil hne
  exact skipBlank_of_not_isBlank (Text.isBlank_of_isDigit (hd d List.mem_cons_self)) _

theorem length_two (h : n < 100) : (two n).length = 2 := length_padded h (by decide)

theorem field_two (hlow : least ≤ n) (hhigh : n ≤ most) (hn : n < 100) (hc : isDigit c = false)
    (rest : List Char) : field least most (two n ++ c :: rest) = .ok (n, c :: rest) := by
  have hd : ∀ d ∈ two n, isDigit d = true := fun d => isDigit_of_mem_padded
  have hne : two n ≠ [] := padded_ne_nil 2 n
  have hnumber : number 2 (skipBlank (two n ++ c :: rest)) = .ok (value (two n), c :: rest) := by
    rw [skipBlank_digits hne hd]
    exact number_digits hne hd (Nat.le_of_eq (length_two hn)) hc rest
  rw [field, hnumber]
  change (if least ≤ value (two n) ∧ value (two n) ≤ most then _ else _) = _
  rw [show value (two n) = n from value_padded 2 n, if_pos ⟨hlow, hhigh⟩]
  rfl

theorem mark_self (hc : isBlank c = false) (rest : List Char) : mark c (c :: rest) = .ok rest := by
  rw [mark, skipBlank_of_not_isBlank hc]
  exact if_pos rfl

/-! ## Fields -/

theorem mem_of_append_eq_cons {xs ys : List Char} (hne : ds ≠ []) (h : ds ++ xs = c :: ys) :
    c ∈ ds := by
  obtain ⟨d, ds, rfl⟩ := List.exists_cons_of_ne_nil hne
  obtain ⟨rfl, -⟩ := List.cons.inj h
  exact List.mem_cons_self

theorem year_yearText {y : Int} (hlow : Moment.leastYear ≤ y) (hhigh : y ≤ Moment.mostYear)
    (hc : isDigit c = false) (rest : List Char) :
    year (yearText y ++ c :: rest) = .ok (y, c :: rest) := by
  have hd : ∀ d ∈ padded 4 y.natAbs, isDigit d = true := fun d => isDigit_of_mem_padded
  have hne : padded 4 y.natAbs ≠ [] := padded_ne_nil _ _
  have hbounds : -(twoTo 31 : Int) ≤ y ∧ y < twoTo 31 := by
    have hword : twoTo 31 = 2147483648 := rfl
    have hleast : Moment.leastYear = -262143 := rfl
    have hmost : Moment.mostYear = 262142 := rfl
    omega
  have hlong : longNumber (padded 4 y.natAbs ++ c :: rest) = .ok (y.natAbs, c :: rest) := by
    have hlen : (padded 4 y.natAbs).length ≤ (padded 4 y.natAbs ++ c :: rest).length := by simp
    rw [longNumber, number_digits hne hd hlen hc, value_padded]
  unfold yearText
  split
  · rename_i hy
    have hthousand : tenTo 4 = 10000 := rfl
    have hlen : (padded 4 y.natAbs).length = 4 := length_padded (by omega) (by decide)
    have hfour : number 4 (padded 4 y.natAbs ++ c :: rest) = .ok (y.natAbs, c :: rest) := by
      rw [number_digits hne hd (Nat.le_of_eq hlen) hc, value_padded]
    have hself : (y.natAbs : Int) = y := by omega
    rw [show y.toNat = y.natAbs by omega, year, skipBlank_digits hne hd]
    split
    · rename_i h
      exact absurd (hd _ (mem_of_append_eq_cons hne h)) (by decide)
    · rename_i h
      exact absurd (hd _ (mem_of_append_eq_cons hne h)) (by decide)
    · simp only [hfour, Except.map, bind, Except.bind, hself, if_pos hbounds]
      rfl
  · by_cases hy : y < 0
    · have hself : -(y.natAbs : Int) = y := by omega
      rw [if_pos hy, year, List.cons_append, skipBlank_of_not_isBlank (by decide)]
      simp only [hlong, Except.map, bind, Except.bind, hself, if_pos hbounds]
      rfl
    · have hself : (y.natAbs : Int) = y := by omega
      rw [if_neg hy, year, List.cons_append, skipBlank_of_not_isBlank (by decide)]
      simp only [hlong, Except.map, bind, Except.bind, hself, if_pos hbounds]
      rfl

theorem fraction_padded {k m : Nat} (hk : 0 < k) (hmost : k ≤ 9) (hm : m < tenTo k)
    (hc : isDigit c = false) (rest : List Char) :
    fraction ('.' :: padded k m ++ c :: rest) = .ok (m * tenTo (9 - k), c :: rest) := by
  have hlen := length_padded hm hk
  have hnumber : number 9 (padded k m ++ c :: rest) = .ok (m, c :: rest) := by
    have hread := number_digits (padded_ne_nil k m) (fun d => isDigit_of_mem_padded)
      (hlen ▸ hmost) hc rest
    rwa [value_padded] at hread
  have hused : (padded k m ++ c :: rest).length - (c :: rest).length = k := by
    rw [List.length_append, hlen, Nat.add_sub_cancel]
  simp only [List.cons_append, fraction, hnumber, bind, Except.bind, hused]
  rw [List.dropWhile_cons_of_neg (by simp [hc])]
  rfl

theorem fraction_fractionText (h : n < 1000000000) (hc : isDigit c = false) (hp : c ≠ '.')
    (rest : List Char) : fraction (fractionText n ++ c :: rest) = .ok (n, c :: rest) := by
  have hthree : tenTo 3 = 1000 := rfl
  have hsix : tenTo 6 = 1000000 := rfl
  have hnine : tenTo 9 = 1000000000 := rfl
  unfold fractionText
  split
  · rename_i hn
    subst hn
    unfold fraction
    split
    · rename_i heq
      exact absurd (List.cons.inj heq).1 hp
    · rfl
  split
  · have hback : n / 1000000 * tenTo (9 - 3) = n := by
      rw [hsix]
      omega
    rw [fraction_padded (by decide) (by decide) (by omega) hc, hback]
  split
  · have hback : n / 1000 * tenTo (9 - 6) = n := by
      rw [hthree]
      omega
    rw [fraction_padded (by decide) (by decide) (by omega) hc, hback]
  · rw [fraction_padded (by decide) (by decide) (by omega) hc]
    exact congrArg (fun k => Except.ok (k, c :: rest)) (Nat.mul_one n)

theorem exists_cons_of_fractionText (n : Nat) :
    ∃ c rest, fractionText n ++ ['Z'] = c :: rest ∧ isDigit c = false := by
  unfold fractionText
  split
  · exact ⟨'Z', [], rfl, by decide⟩
  split
  · exact ⟨'.', _, rfl, by decide⟩
  split <;> exact ⟨'.', _, rfl, by decide⟩

theorem moment_shown (t : Moment) :
    moment 0 t.year t.month t.day t.hour t.minute (shownSecond t.second t.nanos).1
      (shownSecond t.second t.nanos).2 = .ok t := by
  obtain ⟨hh, hmin, hs, hnanos, hleap⟩ := t.isTime
  -- a leap second is shown as the 60th one and kept as the 59th
  have hkept : keptSecond (shownSecond t.second t.nanos).1 (shownSecond t.second t.nanos).2 =
      (t.second, t.nanos) := by
    rw [shownSecond]
    split
    · rename_i h
      have hlast := hleap h
      rw [keptSecond, if_pos (by omega)]
      exact Prod.ext hlast.symm (by simp only; omega)
    · rw [keptSecond, if_neg (by omega)]
  have hlocal : Moment.ofLocal? 0 t.year t.month t.day t.hour t.minute t.second t.nanos = some t := by
    have htime : (t.hour : Int) * 60 + t.minute - 0 = (t.hour * 60 + t.minute : Nat) := by omega
    have hday : ((t.hour : Int) * 60 + t.minute - 0) % 1440 = (t.hour * 60 + t.minute : Nat) := by
      omega
    simp only [Moment.ofLocal?, hday, Int.toNat_natCast]
    rw [if_neg (by omega), if_neg (by omega), show (t.hour * 60 + t.minute) / 60 = t.hour by omega,
      show (t.hour * 60 + t.minute) % 60 = t.minute by omega]
    exact t.of?_fields
  rw [moment, if_neg (not_not_intro t.isDate), if_neg (by omega), hkept]
  simp only [hlocal]

theorem day_le {y : Int} {m d : Nat} (h : Moment.IsDate y m d) : d ≤ 31 := by
  obtain ⟨-, -, -, -, -, hday⟩ := h
  refine Nat.le_trans hday ?_
  unfold Moment.daysIn
  split <;> split <;> decide

theorem parse_print (t : Moment) : parse (print t) = .ok t := by
  have hlast := day_le t.isDate
  obtain ⟨hyear, hyear', hmonth, hmonth', hday, -⟩ := t.isDate
  obtain ⟨hhour, hminute, hsecond, hnanos, hleap⟩ := t.isTime
  have hshown : (shownSecond t.second t.nanos).1 ≤ 60 ∧
      (shownSecond t.second t.nanos).2 < 1000000000 := by
    unfold shownSecond
    split <;> simp only <;> omega
  have hparsed := moment_shown t
  rw [print, localText]
  generalize shownSecond t.second t.nanos = s at hshown hparsed ⊢
  have hy := year_yearText hyear hyear' (c := '-') (by decide)
  have hm := field_two hmonth hmonth' (by omega) (c := '-') (by decide)
  have hd := field_two hday hlast (by omega) (c := 'T') (by decide)
  have hh := field_two (Nat.zero_le t.hour) (Nat.le_of_lt_succ hhour) (by omega) (c := ':')
    (by decide)
  have hmin := field_two (Nat.zero_le t.minute) (Nat.le_of_lt_succ hminute) (by omega) (c := ':')
    (by decide)
  -- marks stand between the fields, and none of them is a digit
  have hdash := mark_self (c := '-') (by decide)
  have hcolon := mark_self (c := ':') (by decide)
  have hs : field 0 60 (two s.1 ++ (fractionText s.2 ++ ['Z'])) =
      .ok (s.1, fractionText s.2 ++ ['Z']) := by
    obtain ⟨c, rest, hrest, hc⟩ := exists_cons_of_fractionText s.2
    rw [hrest]
    exact field_two (Nat.zero_le s.1) hshown.1 (by omega) hc rest
  have hf := fraction_fractionText hshown.2 (c := 'Z') (by decide) (by decide) []
  have hzone : zone (skipBlank ['Z']) = .ok (0, []) := by decide
  simp only [parse, List.append_assoc, List.cons_append, bind, Except.bind, hy, hdash, hm, hd,
    dateEnd, true_or, if_true, hh, hcolon, hmin, hs, hf, hzone]
  exact hparsed

end Rfc3339

end OrderDesk
