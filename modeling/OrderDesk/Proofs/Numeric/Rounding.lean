import Mathlib.Algebra.Order.Field.Rat
import Mathlib.Algebra.Order.Field.Power
import Mathlib.Algebra.Ring.Parity
import Mathlib.Data.Nat.Log
import Mathlib.Tactic.FieldSimp
import Mathlib.Tactic.Linarith
import Mathlib.Tactic.NormNum
import Mathlib.Tactic.Positivity
import Mathlib.Tactic.Ring
import OrderDesk.Numeric.Binary64

/-!
Rounding of quotients to binary64. A rounded number is nearest and keeps the order, and a quotient that
53 bits can hold is not changed: it is the number itself, or infinite if it is too large.
-/

namespace OrderDesk

variable {m n k d n' d' : ℕ} {e i : ℤ}

/-! ## Powers of two -/

theorem cast_twoTo (k : ℕ) : (twoTo k : ℚ) = 2 ^ k := by
  have h : twoTo k = 2 ^ k := rfl
  rw [h]
  push_cast
  rfl

theorem cast_twoTo_pos (k : ℕ) : (0 : ℚ) < twoTo k := by
  rw [cast_twoTo]
  positivity

theorem twoTo_div_twoTo (e : ℤ) : (twoTo e.toNat : ℚ) / twoTo (-e).toNat = 2 ^ e := by
  rw [cast_twoTo, cast_twoTo, ← zpow_natCast, ← zpow_natCast, ← zpow_sub₀ two_ne_zero]
  congr 1
  omega

namespace Binary64

/-! ## Quotients -/

theorem scaled_div (n d : ℕ) (e : ℤ) :
    ((scaled n d e).1 : ℚ) / (scaled n d e).2 = n / d / 2 ^ e := by
  rw [← twoTo_div_twoTo]
  simp only [scaled, Nat.cast_mul]
  have hup := (cast_twoTo_pos e.toNat).ne'
  have hdown := (cast_twoTo_pos (-e).toNat).ne'
  by_cases hd : (d : ℚ) = 0
  · simp [hd]
  · field_simp

theorem roundHalfEven_spec (n : ℕ) (hd : 0 < d) :
    |(n / d : ℚ) - roundHalfEven n d| ≤ 1 / 2 ∧
      (|(n / d : ℚ) - roundHalfEven n d| = 1 / 2 → Even (roundHalfEven n d)) := by
  have hd' : (0 : ℚ) < d := by exact_mod_cast hd
  -- `f` is what the quotient has above its floor: the cases compare it with one half
  obtain ⟨f, hf⟩ : ∃ f : ℚ, f = (n % d : ℕ) / d := ⟨_, rfl⟩
  have hsum : (n / d : ℚ) = (n / d : ℕ) + f := by
    have h : (n : ℚ) = d * (n / d : ℕ) + (n % d : ℕ) := by exact_mod_cast (Nat.div_add_mod n d).symm
    rw [hf]
    field_simp
    linarith
  have hnonneg : 0 ≤ f := by rw [hf]; positivity
  have hone : f < 1 := by
    rw [hf, div_lt_one hd']
    exact_mod_cast Nat.mod_lt n hd
  have hhalf : 1 / 2 < f ↔ d < 2 * (n % d) := by
    rw [hf, div_lt_div_iff₀ two_pos hd', one_mul, mul_comm]
    exact_mod_cast Iff.rfl
  have htie : f = 1 / 2 ↔ d = 2 * (n % d) := by
    rw [hf, div_eq_div_iff hd'.ne' two_ne_zero, one_mul, eq_comm, mul_comm]
    exact_mod_cast Iff.rfl
  rw [hsum]
  unfold roundHalfEven
  dsimp only
  split
  case isTrue hup =>
    have hge : 1 / 2 ≤ f := hup.elim (fun h => (hhalf.2 h).le) fun h => (htie.2 h.1).ge
    have habs : |((n / d : ℕ) : ℚ) + f - (n / d + 1 : ℕ)| = 1 - f := by
      rw [abs_of_nonpos] <;> push_cast <;> linarith
    rw [habs]
    refine ⟨by linarith, fun h => ?_⟩
    have hodd := hup.resolve_left fun hlt => by linarith [hhalf.2 hlt]
    rw [Nat.even_iff]
    omega
  case isFalse hdown =>
    obtain ⟨hle, heven⟩ := not_or.1 hdown
    rw [← hhalf, not_lt] at hle
    rw [add_sub_cancel_left, abs_of_nonneg hnonneg]
    exact ⟨hle, fun h => Nat.not_odd_iff_even.1 fun hodd =>
      heven ⟨htie.1 h, Nat.odd_iff.1 hodd⟩⟩

theorem roundHalfEven_eq (hd : 0 < d) (h : (n / d : ℚ) = m) : roundHalfEven n d = m := by
  have hnear := (roundHalfEven_spec n hd).1
  rw [h, abs_le] at hnear
  have hlow : ((roundHalfEven n d : ℕ) : ℚ) < m + 1 := by linarith
  have hhigh : (m : ℚ) < roundHalfEven n d + 1 := by linarith
  exact le_antisymm (Nat.lt_succ_iff.1 (by exact_mod_cast hlow))
    (Nat.lt_succ_iff.1 (by exact_mod_cast hhigh))

/-- Rounding keeps the order. Two quotients that would change places lie at one half, and of its two
neighbours one is odd. -/
theorem roundHalfEven_le_roundHalfEven (hd : 0 < d) (hd' : 0 < d') (h : (n / d : ℚ) ≤ n' / d') :
    roundHalfEven n d ≤ roundHalfEven n' d' := by
  obtain ⟨hnear, heven⟩ := roundHalfEven_spec n hd
  obtain ⟨hnear', heven'⟩ := roundHalfEven_spec n' hd'
  by_contra hlt
  have hstep : ((roundHalfEven n' d' : ℕ) : ℚ) + 1 ≤ roundHalfEven n d := by
    exact_mod_cast not_le.1 hlt
  obtain ⟨hlow, -⟩ := abs_le.1 hnear
  obtain ⟨-, hhigh⟩ := abs_le.1 hnear'
  have hx : (n / d : ℚ) - roundHalfEven n d = -(1 / 2) := by linarith
  have hy : (n' / d' : ℚ) - roundHalfEven n' d' = 1 / 2 := by linarith
  have hnext : roundHalfEven n d = roundHalfEven n' d' + 1 := by
    have hQ : ((roundHalfEven n d : ℕ) : ℚ) = roundHalfEven n' d' + 1 := by linarith
    exact_mod_cast hQ
  have heven := heven (by rw [hx, abs_neg, abs_of_pos one_half_pos])
  have heven' := heven' (by rw [hy, abs_of_pos one_half_pos])
  rw [hnext] at heven
  exact absurd heven' (Nat.even_add_one.1 heven)

theorem log2_bounds (hn : n ≠ 0) (hd : d ≠ 0) :
    (2 : ℚ) ^ ((n.log2 : ℤ) - d.log2 - 1) ≤ n / d ∧ (n / d : ℚ) < 2 ^ ((n.log2 : ℤ) - d.log2 + 1) := by
  have hnlow : (2 : ℚ) ^ n.log2 ≤ n := by exact_mod_cast Nat.log2_self_le hn
  have hnhigh : (n : ℚ) < 2 ^ (n.log2 + 1) := by exact_mod_cast Nat.lt_log2_self
  have hdlow : (2 : ℚ) ^ d.log2 ≤ d := by exact_mod_cast Nat.log2_self_le hd
  have hdhigh : (d : ℚ) < 2 ^ (d.log2 + 1) := by exact_mod_cast Nat.lt_log2_self
  have hdpos : (0 : ℚ) < d := by positivity
  constructor
  · calc (2 : ℚ) ^ ((n.log2 : ℤ) - d.log2 - 1) = 2 ^ n.log2 / 2 ^ (d.log2 + 1) := by
          rw [← zpow_natCast, ← zpow_natCast, ← zpow_sub₀ two_ne_zero]
          congr 1
          omega
      _ ≤ n / d := by gcongr
  · calc (n / d : ℚ) < 2 ^ (n.log2 + 1) / 2 ^ d.log2 := by gcongr
      _ = 2 ^ ((n.log2 : ℤ) - d.log2 + 1) := by
          rw [← zpow_natCast, ← zpow_natCast, ← zpow_sub₀ two_ne_zero]
          congr 1
          omega

theorem scaled_snd_pos (n : ℕ) (hd : d ≠ 0) (e : ℤ) : 0 < (scaled n d e).2 :=
  Nat.mul_pos (Nat.pos_of_ne_zero hd) (Nat.two_pow_pos _)

theorem scaled_div_lt_iff (hd : d ≠ 0) (k : ℕ) :
    (scaled n d e).1 / (scaled n d e).2 < twoTo k ↔ (n / d : ℚ) < 2 ^ (e + k) := by
  have hpos := scaled_snd_pos n hd e
  have hpos' : (0 : ℚ) < (scaled n d e).2 := by exact_mod_cast hpos
  have hpower : (2 : ℚ) ^ (e + k) = twoTo k * 2 ^ e := by
    rw [cast_twoTo, zpow_add₀ two_ne_zero, zpow_natCast, mul_comm]
  rw [Nat.div_lt_iff_lt_mul hpos, hpower, ← div_lt_iff₀ (by positivity), ← scaled_div,
    div_lt_iff₀ hpos']
  exact_mod_cast Iff.rfl

theorem exponentOf_spec (hn : n ≠ 0) (hd : d ≠ 0) :
    minExponent ≤ exponentOf n d ∧ (n / d : ℚ) < 2 ^ (exponentOf n d + 53) ∧
      (minExponent < exponentOf n d → (2 : ℚ) ^ (exponentOf n d + 52) ≤ n / d) := by
  obtain ⟨hlow, hhigh⟩ := log2_bounds hn hd
  -- the lengths tell the exponent up to one, and the first 52 bits which of the two it is
  have hkey : ∃ e, exponentOf n d = max minExponent e ∧
      (n / d : ℚ) < 2 ^ (e + 53) ∧ (2 : ℚ) ^ (e + 52) ≤ n / d := by
    unfold exponentOf
    dsimp only
    split
    case isTrue h =>
      rw [scaled_div_lt_iff hd] at h
      refine ⟨_, rfl, ?_, ?_⟩
      · convert h using 2
        push_cast
        ring
      · convert hlow using 2
        ring
    case isFalse h =>
      rw [scaled_div_lt_iff hd, not_lt] at h
      refine ⟨_, rfl, ?_, ?_⟩
      · convert hhigh using 2
        ring
      · exact_mod_cast h
  obtain ⟨e, he, hlt, hle⟩ := hkey
  rw [he]
  refine ⟨le_max_left .., hlt.trans_le ?_, fun hmin => ?_⟩
  · exact zpow_le_zpow_right₀ one_le_two (by omega)
  · rwa [max_eq_right (by omega)]

theorem exponentOf_le (hn : n ≠ 0) (hd : d ≠ 0) (hm : m < twoTo 53) (he : minExponent ≤ e)
    (h : (n / d : ℚ) = m * 2 ^ e) : exponentOf n d ≤ e := by
  obtain ⟨-, -, hge⟩ := exponentOf_spec hn hd
  by_contra hlt
  have hm' : (m : ℚ) < 2 ^ (53 : ℤ) := by exact_mod_cast hm
  have hsmall : (n / d : ℚ) < 2 ^ (e + 53) := by
    rw [h, zpow_add₀ two_ne_zero, mul_comm]
    gcongr
  have hexp := (zpow_lt_zpow_iff_right₀ one_lt_two).1 ((hge (by omega)).trans_lt hsmall)
  omega

/-! ## Numbers -/

def Rounded : Binary64 → Prop
  | .finite _ m e => m < twoTo 53 ∧ minExponent ≤ e
  | _ => True

theorem rounded_ofRatio (s : Bool) (n : ℕ) (hd : d ≠ 0) : (ofRatio s n d).Rounded := by
  unfold ofRatio
  split
  · exact ⟨by decide, le_refl _⟩
  · rename_i hn
    obtain ⟨hmin, hlt, -⟩ := exponentOf_spec hn hd
    have hbits : roundHalfEven (scaled n d (exponentOf n d)).1 (scaled n d (exponentOf n d)).2 ≤
        twoTo 53 := by
      have hone : roundHalfEven (twoTo 53) 1 = twoTo 53 := roundHalfEven_eq one_pos (by simp)
      rw [← hone]
      refine roundHalfEven_le_roundHalfEven (scaled_snd_pos n hd _) one_pos ?_
      rw [scaled_div, div_le_iff₀ (by positivity), Nat.cast_one, div_one, cast_twoTo,
        ← zpow_natCast, ← zpow_add₀ two_ne_zero, add_comm]
      exact_mod_cast hlt.le
    dsimp only
    split
    · split
      · trivial
      · exact ⟨show twoTo 52 < twoTo 53 by decide, by dsimp only; omega⟩
    · split
      · trivial
      · exact ⟨lt_of_le_of_ne hbits ‹_›, hmin⟩

/-- A number that is `v` with its sign, or infinite where `v` is too large for any. -/
inductive Exact (s : Bool) : Binary64 → ℚ → Prop where
  | finite {m : ℕ} {e : ℤ} {v : ℚ} (h : m * (2 : ℚ) ^ e = v) (hlt : v < 2 ^ 1024) :
    Exact s (.finite s m e) v
  | infinite {v : ℚ} (h : 2 ^ 1024 ≤ v) : Exact s (.infinite s) v

theorem Exact.exists_finite {s : Bool} {x : Binary64} {v : ℚ} (h : Exact s x v) (hlt : v < 2 ^ 1024) :
    ∃ m e, x = .finite s m e ∧ (m : ℚ) * 2 ^ e = v := by
  cases h with
  | finite h _ => exact ⟨_, _, rfl, h⟩
  | infinite h => exact absurd hlt (not_lt.2 h)

theorem cast_lt_of_lt_twoTo (hm : m < twoTo 53) : (m : ℚ) < 2 ^ 1024 := by
  have hm' : (m : ℚ) < 2 ^ 53 := by
    rw [← cast_twoTo]
    exact_mod_cast hm
  exact hm'.trans_le (pow_le_pow_right₀ one_le_two (by norm_num))

theorem ofRatio_of_whole (s : Bool) (hn : n ≠ 0) (hd : d ≠ 0) (hm : m < twoTo 53)
    (h : (n / d : ℚ) = m * 2 ^ exponentOf n d) : ofRatio s n d =
      if maxExponent < exponentOf n d then .infinite s else .finite s m (exponentOf n d) := by
  have hround : roundHalfEven (scaled n d (exponentOf n d)).1 (scaled n d (exponentOf n d)).2 = m := by
    refine roundHalfEven_eq (scaled_snd_pos n hd _) ?_
    rw [scaled_div, h, mul_div_cancel_right₀ _ (by positivity)]
  rw [ofRatio, if_neg hn]
  dsimp only
  rw [hround, if_neg hm.ne]

theorem exact_ofRatio (s : Bool) (hd : d ≠ 0) (hm : m < twoTo 53) (he : minExponent ≤ e)
    (h : (n / d : ℚ) = m * 2 ^ e) : Exact s (ofRatio s n d) (n / d) := by
  by_cases hn : n = 0
  · rw [ofRatio, if_pos hn, hn]
    refine .finite ?_ ?_ <;> norm_num
  obtain ⟨-, hlt, hge⟩ := exponentOf_spec hn hd
  obtain ⟨i, hi⟩ := Int.le.dest (exponentOf_le hn hd hm he h)
  have hwhole : (n / d : ℚ) = (m * 2 ^ i : ℕ) * 2 ^ exponentOf n d := by
    rw [h, ← hi, zpow_add₀ two_ne_zero]
    push_cast
    rw [zpow_natCast]
    ring
  have hbits : m * 2 ^ i < twoTo 53 := by
    rw [hwhole, zpow_add₀ two_ne_zero, mul_comm, mul_lt_mul_iff_right₀ (by positivity)] at hlt
    exact_mod_cast hlt
  have hleast : minExponent = -1074 := rfl
  have hmost : maxExponent = 971 := rfl
  rw [ofRatio_of_whole s hn hd hbits hwhole]
  split
  · refine .infinite (le_trans ?_ (hge (by omega)))
    rw [← zpow_natCast]
    exact zpow_le_zpow_right₀ one_le_two (by omega)
  · refine .finite hwhole.symm (hlt.trans_le ?_)
    rw [← zpow_natCast]
    exact zpow_le_zpow_right₀ one_le_two (by omega)

theorem exact_ofNat (hn : n < twoTo 53) : Exact false (ofNat n) n := by
  have h := exact_ofRatio false (n := n) (e := 0) one_ne_zero hn (by decide) (by simp)
  rwa [Nat.cast_one, div_one] at h

/-! ## Mantissas and sums -/

theorem rounded_ofDyadic (s : Bool) (m : ℕ) (e : ℤ) : (ofDyadic s m e).Rounded :=
  rounded_ofRatio s _ (Nat.two_pow_pos _).ne'

theorem exact_ofDyadic (s : Bool) (hk : k < twoTo 53) (hi : minExponent ≤ i)
    (h : (m : ℚ) * 2 ^ e = k * 2 ^ i) : Exact s (ofDyadic s m e) (m * 2 ^ e) := by
  have hratio : ((m * twoTo e.toNat : ℕ) : ℚ) / (twoTo (-e).toNat : ℕ) = m * 2 ^ e := by
    rw [Nat.cast_mul, mul_div_assoc, twoTo_div_twoTo]
  rw [← hratio]
  rw [← hratio] at h
  exact exact_ofRatio s (Nat.two_pow_pos _).ne' hk hi h

theorem rounded_add (x y : Binary64) : (x.add y).Rounded := by
  cases x <;> cases y <;> simp only [add]
  case infinite.infinite s t => split <;> trivial
  case finite.finite =>
    split
    · exact ⟨by decide, le_refl _⟩
    · exact rounded_ofDyadic ..
  all_goals trivial

theorem exact_add_zero (hx : (finite false m e).Rounded) :
    Exact false ((finite false m e).add (finite false 0 minExponent)) (m * 2 ^ e) := by
  obtain ⟨hm, he⟩ := hx
  have hvalue : ((m * twoTo (e - minExponent).toNat : ℕ) : ℚ) * 2 ^ minExponent = m * 2 ^ e := by
    obtain ⟨i, rfl⟩ := Int.le.dest he
    rw [add_sub_cancel_left, Int.toNat_natCast, Nat.cast_mul, cast_twoTo, zpow_add₀ two_ne_zero,
      zpow_natCast]
    ring
  simp only [add, signedAt, min_eq_right he, Nat.zero_mul, Nat.cast_zero, Bool.false_eq_true,
    if_false, add_zero, Bool.and_self, Int.natAbs_natCast]
  rw [← hvalue]
  split
  · rename_i hzero
    rw [Int.natCast_eq_zero.1 hzero]
    exact .finite rfl (by norm_num)
  · rw [decide_eq_false (not_lt.2 (Int.natCast_nonneg _))]
    exact exact_ofDyadic false hm he hvalue

end Binary64
end OrderDesk
