import OrderDesk.Config
import OrderDesk.Proofs.Time.Seconds

/-!
Delays that double. From one attempt to the next they do not fall, they stay under their bound, and from
whole seconds they are the exact powers of two, whichever of the exponent's bound, the overflow of
binary64, the longest span and the bound of the policy comes first.
-/

namespace OrderDesk.RetryPolicy

open Binary64 (Exact exact_mul_pow_two not_finite_pow_two two)

variable {p : RetryPolicy} {m n k : ℕ}

theorem delay_eq_capped (hp : p.multiplier = two) (n : ℕ) :
    p.delay n = p.maxDelay.capped (p.initialDelay.toBinary64.mul (two.pow (min n mostPower))) := by
  rw [← hp]
  rfl

theorem delay_le_maxDelay (p : RetryPolicy) (n : ℕ) : (p.delay n).nanos ≤ p.maxDelay.nanos :=
  p.maxDelay.capped_le _

theorem delay_eq_maxDelay (hp : p.multiplier = two) (hn : 1024 ≤ n) : p.delay n = p.maxDelay := by
  have hmost : 1024 ≤ mostPower := by decide
  have hpower := not_finite_pow_two (le_min hn hmost)
  rw [delay_eq_capped hp]
  exact p.maxDelay.capped_of_not_finite fun h => hpower h.of_mul.2

theorem delay_of_lt (hp : p.multiplier = two) (hn : n < 1024) :
    p.delay n = p.maxDelay.capped (p.initialDelay.toBinary64.mul (two.pow n)) := by
  have hmost : 1024 ≤ mostPower := by decide
  rw [delay_eq_capped hp, min_eq_left (by omega)]

theorem delay_cases (hp : p.multiplier = two) :
    (∀ n, p.delay n = p.maxDelay) ∨ ∃ (s : Bool) (v : ℚ), 0 ≤ v ∧
      ∀ n < 1024, ∃ y, Exact s y (v * 2 ^ n) ∧ p.delay n = p.maxDelay.capped y := by
  have hrounded := p.initialDelay.rounded_toBinary64
  by_cases hx : p.initialDelay.toBinary64.Finite
  · right
    cases he : p.initialDelay.toBinary64 with
    | finite s m e =>
      rw [he] at hrounded
      refine ⟨s, m * 2 ^ e, by positivity, fun n hn => ⟨_, exact_mul_pow_two hrounded hn, ?_⟩⟩
      rw [delay_of_lt hp hn, he]
    | nan | infinite _ => exact absurd hx (by rw [he]; exact id)
  · left
    intro n
    rw [delay_eq_capped hp]
    exact p.maxDelay.capped_of_not_finite fun h => hx h.of_mul.1

theorem delay_mono (hp : p.multiplier = two) (hmn : m ≤ n) : (p.delay m).nanos ≤ (p.delay n).nanos := by
  rcases lt_or_ge n 1024 with hn | hn
  · rcases delay_cases hp with hbound | ⟨s, v, hv, hdelay⟩
    · rw [hbound, hbound]
    · obtain ⟨x, hx, hm⟩ := hdelay m (hmn.trans_lt hn)
      obtain ⟨y, hy, hn⟩ := hdelay n hn
      rw [hm, hn]
      have hpower : (2 : ℚ) ^ m ≤ 2 ^ n := pow_le_pow_right₀ one_le_two hmn
      exact p.maxDelay.capped_le_capped hx hy (mul_le_mul_of_nonneg_left hpower hv)
  · rw [delay_eq_maxDelay hp hn]
    exact p.delay_le_maxDelay m

theorem delay_ofSecs (hp : p.multiplier = two) (hk : 1 ≤ k ∧ k < twoTo 53)
    (hinitial : p.initialDelay = .ofSecs k) (hmax : p.maxDelay.Fits) (n : ℕ) :
    p.delay n = (Span.ofSecs (k * twoTo n)).min p.maxDelay := by
  rcases lt_or_ge n 1024 with hn | hn
  · have hvalue := Span.exact_toBinary64_ofSecs hk.2
    obtain ⟨m, e, hx, hm⟩ := hvalue.exists_finite (Binary64.cast_lt_of_lt_twoTo hk.2)
    have hrounded := (Span.ofSecs k).rounded_toBinary64
    rw [hx] at hrounded
    have hdelay := exact_mul_pow_two hrounded hn
    rw [hm, ← cast_twoTo, ← Nat.cast_mul] at hdelay
    rw [delay_of_lt hp hn, hinitial, hx]
    exact Span.capped_of_exact hmax (Nat.mul_ne_zero (by omega) (Nat.two_pow_pos n).ne') hdelay
  · rw [delay_eq_maxDelay hp hn, Span.ofSecs_min_of_le hmax]
    calc twoTo 64 ≤ 2 ^ n := Nat.pow_le_pow_right two_pos (by omega)
      _ ≤ k * twoTo n := Nat.le_mul_of_pos_left _ hk.1

/-- A policy that doubles its delays: they do not fall from one attempt to the next, they do not pass the
bound, and from whole seconds on they are the powers of two as far as the bound lets them. -/
theorem delays_double (p : RetryPolicy) (hp : p.multiplier = .two) :
    (∀ m n, m ≤ n → (p.delay m).nanos ≤ (p.delay n).nanos) ∧
      (∀ n, (p.delay n).nanos ≤ p.maxDelay.nanos) ∧
      ∀ k, 1 ≤ k → k < twoTo 53 → p.initialDelay = .ofSecs k → p.maxDelay.Fits →
        ∀ n, p.delay n = (Span.ofSecs (k * twoTo n)).min p.maxDelay :=
  ⟨fun _ _ => delay_mono hp, p.delay_le_maxDelay,
    fun _ hpos hlt hinitial hmax => delay_ofSecs hp ⟨hpos, hlt⟩ hinitial hmax⟩

theorem delays_double_default :
    let p := (Config.ofVariables fun _ => none).ingest.retry
    p.multiplier = .two ∧ p.delay 11 = .ofSecs 2048 ∧ p.delay (twoTo 64 - 1) = .ofSecs 3600 := by
  intro p
  obtain ⟨hmono, hle, hexact⟩ := p.delays_double rfl
  have hsecs := hexact 1 (le_refl 1) (by decide) rfl (by decide)
  have hhour : p.delay 12 = .ofSecs 3600 := (hsecs 12).trans (by decide)
  refine ⟨rfl, (hsecs 11).trans (by decide), Span.eq_of_nanos_eq (le_antisymm (hle _) ?_)⟩
  rw [← hhour]
  exact hmono 12 _ (by decide)

end OrderDesk.RetryPolicy
