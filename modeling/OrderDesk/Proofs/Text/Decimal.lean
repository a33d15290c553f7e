import Mathlib.Data.List.Basic
import OrderDesk.Text.Blank
import OrderDesk.Text.Decimal

/-!
Decimal digits and the numbers they write.
-/

namespace OrderDesk.Text

theorem isBlank_of_isDigit {c : Char} (h : Decimal.isDigit c = true) : isBlank c = false := by
  simp only [Decimal.isDigit, Bool.and_eq_true, decide_eq_true_eq] at h
  have hlow : 48 ≤ c.toNat := h.1
  have hhigh : c.toNat ≤ 57 := h.2
  exact isBlank_of_printable (by omega) (by omega)

namespace Decimal

variable {n k width : Nat} {s ds : List Char} {d : Char}

theorem value_ofNat (n : Nat) : value (ofNat n) = n := Nat.ofDigitChars_ten_toDigits

theorem ofNat_injective : Function.Injective ofNat := by
  intro n k h
  rw [← value_ofNat n, ← value_ofNat k, h]

theorem isDigit_of_mem_ofNat (h : d ∈ ofNat n) : isDigit d = true := by
  have hdigit : d.isDigit = true := Nat.isDigit_of_mem_toDigits (by decide) (by decide) h
  exact hdigit

theorem ofNat_ne_nil (n : Nat) : ofNat n ≠ [] := Nat.toDigits_ne_nil

theorem length_ofNat_le (h : n < tenTo k) (hk : 0 < k) : (ofNat n).length ≤ k :=
  (Nat.length_toDigits_le_iff (by decide) hk).2 h

theorem ofNat_ne_cons (hd : isDigit d = false) (ds : List Char) : ofNat n ≠ d :: ds := by
  intro h
  rw [isDigit_of_mem_ofNat (h ▸ List.mem_cons_self)] at hd
  cases hd

theorem ofInt_injective : Function.Injective ofInt := by
  intro i j h
  -- digits do not start with a sign, so the signs agree
  unfold ofInt at h
  split at h <;> split at h
  · have habs := ofNat_injective (List.cons.inj h).2
    omega
  · exact absurd h.symm (ofNat_ne_cons (by decide) _)
  · exact absurd h (ofNat_ne_cons (by decide) _)
  · have habs := ofNat_injective h
    omega

theorem eq_zero_of_ofNat (h : ofNat n = '0' :: ds) : n = 0 ∧ ds = [] := by
  induction n using Nat.strongRecOn generalizing ds with
  | ind n ih =>
    rw [ofNat] at h
    by_cases hlt : n < 10
    · rw [Nat.toDigits_of_lt_base hlt] at h
      obtain ⟨hd, rfl⟩ := List.cons.inj h
      have hchars : ∀ k < 10, Nat.digitChar k = '0' → k = 0 := by decide
      exact ⟨hchars n hlt hd, rfl⟩
    · rw [Nat.toDigits_of_base_le (by decide) (by omega)] at h
      -- the digits in front of the last one would write zero
      cases hfront : Nat.toDigits 10 (n / 10) with
      | nil => exact absurd hfront Nat.toDigits_ne_nil
      | cons c cs =>
        rw [hfront] at h
        obtain ⟨rfl, -⟩ := List.cons.inj h
        obtain ⟨hzero, -⟩ := ih (n / 10) (by omega) hfront
        omega

/-! ## Numerals -/

def IsDigits (ds : List Char) : Prop := ds ≠ [] ∧ ∀ d ∈ ds, d.isDigit = true

/-- The text writes the number: in digits, of which the first may be zeros, after an optional plus
sign. -/
inductive Unsigned : List Char → Nat → Prop where
  | plain {ds : List Char} (h : IsDigits ds) : Unsigned ds (Nat.ofDigitChars 10 ds 0)
  | plus {ds : List Char} (h : IsDigits ds) : Unsigned ('+' :: ds) (Nat.ofDigitChars 10 ds 0)

inductive Signed : List Char → Int → Prop where
  | unsigned {s : List Char} {n : Nat} (h : Unsigned s n) : Signed s n
  | minus {ds : List Char} (h : IsDigits ds) : Signed ('-' :: ds) (-(Nat.ofDigitChars 10 ds 0 : Int))

theorem IsDigits.not_cons (hd : d.isDigit = false) : ¬ IsDigits (d :: s) := by
  rintro ⟨-, hall⟩
  rw [hall d List.mem_cons_self] at hd
  cases hd

theorem Signed.ne_nil {i : Int} (h : Signed s i) : s ≠ [] := by
  cases h with
  | unsigned h =>
    cases h with
    | plain hs => exact hs.1
    | plus => exact List.cons_ne_nil _ _
  | minus => exact List.cons_ne_nil _ _

theorem Signed.exists_unsigned {i : Int} (h : Signed s i) (hi : 0 < i) :
    ∃ n : Nat, Unsigned s n ∧ i = n := by
  cases h with
  | unsigned h => exact ⟨_, h, rfl⟩
  | minus => omega

theorem natOf?_eq_some_iff : natOf? s = some n ↔ IsDigits s ∧ Nat.ofDigitChars 10 s 0 = n := by
  rw [natOf?, Option.ite_none_right_eq_some, Option.some_inj, List.all_eq_true]
  rfl

theorem unsigned?_eq_some_iff : unsigned? s = some n ↔ Unsigned s n := by
  unfold unsigned?
  split
  · rename_i s
    rw [natOf?_eq_some_iff]
    constructor
    · rintro ⟨hs, rfl⟩
      exact .plus hs
    · intro h
      cases h with
      | plain hs => exact absurd hs (IsDigits.not_cons (by decide))
      | plus hs => exact ⟨hs, rfl⟩
  · rename_i hplus
    rw [natOf?_eq_some_iff]
    constructor
    · rintro ⟨hs, rfl⟩
      exact .plain hs
    · intro h
      cases h with
      | plain hs => exact ⟨hs, rfl⟩
      | plus hs => exact absurd rfl (hplus _)

theorem signed?_minus (s : List Char) :
    signed? ('-' :: s) = (natOf? s).map fun n : Nat => -(n : Int) := by
  cases h : natOf? s <;> simp only [signed?, h] <;> rfl

theorem signed?_of_ne (h : ∀ ds, s ≠ '-' :: ds) : signed? s = (unsigned? s).map Int.ofNat := by
  unfold signed?
  split
  · exact absurd rfl (h _)
  · rfl

theorem signed?_eq_some_iff {i : Int} : signed? s = some i ↔ Signed s i := by
  by_cases hminus : ∃ ds, s = '-' :: ds
  · obtain ⟨ds, rfl⟩ := hminus
    simp only [signed?_minus, Option.map_eq_some_iff, natOf?_eq_some_iff]
    constructor
    · rintro ⟨n, ⟨hs, rfl⟩, rfl⟩
      exact .minus hs
    · intro h
      cases h with
      | unsigned h =>
        cases h with
        | plain hs => exact absurd hs (IsDigits.not_cons (by decide))
      | minus hs => exact ⟨_, ⟨hs, rfl⟩, rfl⟩
  · rw [not_exists] at hminus
    simp only [signed?_of_ne hminus, Option.map_eq_some_iff, unsigned?_eq_some_iff]
    constructor
    · rintro ⟨n, h, rfl⟩
      exact .unsigned h
    · intro h
      cases h with
      | unsigned h => exact ⟨_, h, rfl⟩
      | minus hs => exact absurd rfl (hminus _)

theorem int64?_eq_some_iff {i : Int64} : int64? s = some i ↔ Signed s i.toInt := by
  have hmost : i.toInt < twoTo 63 := i.toInt_lt
  have hleast : -(twoTo 63 : Int) ≤ i.toInt := i.le_toInt
  unfold int64?
  constructor
  · intro h
    split at h
    · rename_i j hj
      obtain ⟨⟨hlow, hhigh⟩, hi⟩ := Option.ite_none_right_eq_some.1 h
      obtain rfl := Option.some.inj hi
      have hback : (Int64.ofInt j).toInt = j := Int64.toInt_ofInt_of_le hlow hhigh
      rw [hback]
      exact signed?_eq_some_iff.1 hj
    · cases h
  · intro h
    simp only [signed?_eq_some_iff.2 h, if_pos (And.intro hleast hmost), Int64.ofInt_toInt]

theorem unsigned_ofNat (n : Nat) : Unsigned (ofNat n) n := by
  have hdigits : IsDigits (ofNat n) := ⟨ofNat_ne_nil n, fun _ => isDigit_of_mem_ofNat⟩
  have h : Unsigned (ofNat n) (value (ofNat n)) := .plain hdigits
  rwa [value_ofNat] at h

theorem int64?_ofNat (h : n < twoTo 63) : int64? (ofNat n) = some (.ofNat n) := by
  have hleast : Int64.minValue.toInt ≤ 0 := by decide
  have hback : (Int64.ofNat n).toInt = n :=
    Int64.toInt_ofInt_of_le (Int.le_trans hleast (Int.natCast_nonneg n)) (Int.ofNat_lt.2 h)
  rw [int64?_eq_some_iff, hback]
  exact .unsigned (unsigned_ofNat n)

/-! ## Padding -/

theorem value_append_zeros (k : Nat) (ds : List Char) :
    value (List.replicate k '0' ++ ds) = value ds := by
  rw [value, List.foldl_append]
  have hzeros : (List.replicate k '0').foldl (fun n c => 10 * n + digitValue c) 0 = 0 := by
    induction k with
    | zero => rfl
    | succ k ih => rwa [List.replicate_succ, List.foldl_cons]
  rw [hzeros]
  rfl

theorem value_padded (width n : Nat) : value (padded width n) = n := by
  rw [padded, value_append_zeros, value_ofNat]

theorem isDigit_of_mem_padded (h : d ∈ padded width n) : isDigit d = true := by
  rcases List.mem_append.1 h with h | h
  · obtain rfl := List.eq_of_mem_replicate h
    rfl
  · exact isDigit_of_mem_ofNat h

theorem length_padded (h : n < tenTo width) (hw : 0 < width) : (padded width n).length = width := by
  have hle := length_ofNat_le h hw
  rw [padded, List.length_append, List.length_replicate]
  omega

theorem padded_ne_nil (width n : Nat) : padded width n ≠ [] :=
  List.append_ne_nil_of_right_ne_nil _ (ofNat_ne_nil n)

end Decimal

end OrderDesk.Text
