import OrderDesk.Proofs.Numeric.Doubling
import OrderDesk.Time.Span

/-!
Spans and their binary64 seconds. Seconds that are longer than the longest span count as the bound that
is set on them, so that bounded spans keep the order of the numbers they are made of.
-/

namespace OrderDesk

variable {s : Bool} {m n k : ℕ} {e f : ℤ} {v w : ℚ} {x y : Binary64}

namespace Span

open Binary64

def Fits (d : Span) : Prop := d.nanos < twoTo 64 * nanosPerSecond

instance (d : Span) : Decidable d.Fits := inferInstanceAs (Decidable (_ < _))

def capped (bound : Span) (x : Binary64) : Span :=
  match ofBinary64? x with
  | some d => d.min bound
  | none => bound

theorem nanos_min (c d : Span) : (c.min d).nanos = Min.min c.nanos d.nanos := by
  unfold Span.min
  split <;> omega

theorem capped_le (bound : Span) (x : Binary64) : (bound.capped x).nanos ≤ bound.nanos := by
  unfold capped
  split
  · rw [nanos_min]
    exact min_le_right ..
  · exact le_refl _

theorem capped_of_not_finite (bound : Span) (h : ¬ x.Finite) : bound.capped x = bound := by
  cases x with
  | finite s m e => exact absurd trivial h
  | nan | infinite _ => rfl

theorem le_twoTo_iff (m : ℕ) (e : ℤ) :
    twoTo 64 * twoTo (-e).toNat ≤ m * twoTo e.toNat ↔ (2 : ℚ) ^ 64 ≤ m * 2 ^ e := by
  rw [← twoTo_div_twoTo, ← mul_div_assoc, le_div_iff₀ (cast_twoTo_pos _), ← cast_twoTo]
  exact_mod_cast Iff.rfl

theorem ofBinary64?_of_neg (hm : m ≠ 0) : ofBinary64? (.finite true m e) = none := by
  simp only [ofBinary64?, if_neg hm, true_or, if_true]

theorem nanos_ratio (m : ℕ) (e : ℤ) :
    ((m * twoTo e.toNat * nanosPerSecond : ℕ) : ℚ) / (twoTo (-e).toNat : ℕ) =
      m * 2 ^ e * nanosPerSecond := by
  rw [← twoTo_div_twoTo]
  push_cast
  ring

theorem capped_finite (bound : Span) (hm : m ≠ 0) : bound.capped (.finite false m e) =
    if (2 : ℚ) ^ 64 ≤ m * 2 ^ e then bound
    else (Span.mk (roundHalfEven (m * twoTo e.toNat * nanosPerSecond) (twoTo (-e).toNat))).min bound := by
  simp only [capped, ofBinary64?, if_neg hm, ← le_twoTo_iff, Bool.false_eq_true, false_or]
  split_ifs <;> rfl

theorem capped_finite_le (bound : Span) (hm : m ≠ 0) (hn : n ≠ 0)
    (hle : (m : ℚ) * 2 ^ e ≤ n * 2 ^ f) :
    (bound.capped (.finite false m e)).nanos ≤ (bound.capped (.finite false n f)).nanos := by
  by_cases hlarge : (2 : ℚ) ^ 64 ≤ n * 2 ^ f
  · have hbound : bound.capped (.finite false n f) = bound := by
      rw [capped_finite bound hn, if_pos hlarge]
    rw [hbound]
    exact bound.capped_le _
  · have hsmall := mt hle.trans' hlarge
    have hnanos : roundHalfEven (m * twoTo e.toNat * nanosPerSecond) (twoTo (-e).toNat) ≤
        roundHalfEven (n * twoTo f.toNat * nanosPerSecond) (twoTo (-f).toNat) := by
      refine roundHalfEven_le_roundHalfEven (Nat.two_pow_pos _) (Nat.two_pow_pos _) ?_
      rw [nanos_ratio, nanos_ratio]
      exact mul_le_mul_of_nonneg_right hle (Nat.cast_nonneg _)
    rw [capped_finite bound hm, capped_finite bound hn, if_neg hsmall, if_neg hlarge, nanos_min,
      nanos_min]
    exact min_le_min_right _ hnanos

theorem capped_le_capped (bound : Span) (hx : Exact s x v) (hy : Exact s y w) (hle : v ≤ w) :
    (bound.capped x).nanos ≤ (bound.capped y).nanos := by
  cases hy with
  | infinite _ => exact bound.capped_le x
  | @finite n f _ hn hlt =>
    cases hx with
    | infinite h => exact absurd (h.trans hle) (not_le.2 hlt)
    | @finite m e _ hm _ =>
      subst hm hn
      by_cases hm : m = 0
      · rw [hm, capped, ofBinary64?, if_pos rfl, nanos_min]
        exact (min_le_left ..).trans (Nat.zero_le _)
      have hn : n ≠ 0 := by
        rintro rfl
        rw [Nat.cast_zero, zero_mul] at hle
        exact absurd hle (not_le.2 (by positivity))
      cases s with
      | true => rw [capped, capped, ofBinary64?_of_neg hm, ofBinary64?_of_neg hn]
      | false => exact bound.capped_finite_le hm hn hle

theorem eq_of_nanos_eq {c d : Span} (h : c.nanos = d.nanos) : c = d := congrArg Span.mk h

theorem ofSecs_min_of_le {bound : Span} (hbound : bound.Fits) (h : twoTo 64 ≤ k) :
    (ofSecs k).min bound = bound := by
  have hle : bound.nanos ≤ (ofSecs k).nanos := hbound.le.trans (Nat.mul_le_mul_right _ h)
  exact eq_of_nanos_eq (by rw [nanos_min, min_eq_right hle])

theorem capped_of_exact {bound : Span} (hbound : bound.Fits) (hk : k ≠ 0) (hx : Exact false x k) :
    bound.capped x = (ofSecs k).min bound := by
  have hlarge (h : (2 : ℚ) ^ 64 ≤ k) : twoTo 64 ≤ k := by
    rw [← cast_twoTo] at h
    exact_mod_cast h
  cases hx with
  | infinite h =>
    rw [ofSecs_min_of_le hbound (hlarge ((pow_le_pow_right₀ one_le_two (by norm_num)).trans h))]
    rfl
  | @finite m e _ h _ =>
    have hm : m ≠ 0 := by
      rintro rfl
      rw [Nat.cast_zero, zero_mul] at h
      exact hk (by exact_mod_cast h.symm)
    rw [capped_finite bound hm, h]
    split
    · rw [ofSecs_min_of_le hbound (hlarge ‹_›)]
    · have hnanos : roundHalfEven (m * twoTo e.toNat * nanosPerSecond) (twoTo (-e).toNat) =
          k * nanosPerSecond := by
        refine roundHalfEven_eq (Nat.two_pow_pos _) ?_
        rw [nanos_ratio, h, Nat.cast_mul]
      rw [hnanos]
      rfl

theorem exact_toBinary64_ofSecs (hk : k < twoTo 53) : Exact false (ofSecs k).toBinary64 k := by
  have hsecs : (ofSecs k).secs = k := Nat.mul_div_cancel _ (by decide)
  have hrest : (ofSecs k).subsecNanos = 0 := Nat.mul_mod_left ..
  have hzero : (Binary64.ofNat 0).div (.ofNat nanosPerSecond) = .finite false 0 minExponent := by
    decide +kernel
  obtain ⟨m, e, hx, hm⟩ := (exact_ofNat hk).exists_finite (cast_lt_of_lt_twoTo hk)
  have hrounded : (Binary64.ofNat k).Rounded := rounded_ofRatio false k one_ne_zero
  rw [hx] at hrounded
  rw [toBinary64, hsecs, hrest, hzero, hx, ← hm]
  exact exact_add_zero hrounded

theorem rounded_toBinary64 (d : Span) : d.toBinary64.Rounded := rounded_add ..

end Span
end OrderDesk
