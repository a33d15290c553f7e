import OrderDesk.Proofs.Numeric.Rounding

/-!
Multiplication of binary64 numbers by powers of two. It is exact below overflow and infinite above it,
and so are the powers of two themselves.
-/

namespace OrderDesk.Binary64

variable {s : Bool} {m n k fuel a b : ℕ} {e f i : ℤ} {v w : ℚ} {x y r : Binary64}

/-! ## Products -/

theorem exact_mul_finite (s t : Bool) (hk : k < twoTo 53) (hi : minExponent ≤ i)
    (hm : (m : ℚ) * 2 ^ e = v) (hn : (n : ℚ) * 2 ^ f = w) (h : v * w = k * 2 ^ i) :
    Exact (s != t) ((finite s m e).mul (finite t n f)) (v * w) := by
  have hproduct : ((m * n : ℕ) : ℚ) * 2 ^ (e + f) = v * w := by
    rw [← hm, ← hn, zpow_add₀ two_ne_zero]
    push_cast
    ring
  rw [← hproduct]
  rw [← hproduct] at h
  exact exact_ofDyadic _ hk hi h

/-! ## Powers of two -/

theorem ne_zero_of_mantissa (h : (m : ℚ) * 2 ^ e = 2 ^ a) : m ≠ 0 := by
  rintro rfl
  rw [Nat.cast_zero, zero_mul] at h
  exact absurd h.symm (by positivity)

theorem Exact.mul_power (hx : Exact false x (2 ^ a)) (hy : Exact false y (2 ^ b)) :
    Exact false (x.mul y) (2 ^ (a + b)) := by
  have hleft (h : (2 : ℚ) ^ 1024 ≤ 2 ^ a) : (2 : ℚ) ^ 1024 ≤ 2 ^ (a + b) :=
    h.trans (pow_le_pow_right₀ one_le_two (by omega))
  have hright (h : (2 : ℚ) ^ 1024 ≤ 2 ^ b) : (2 : ℚ) ^ 1024 ≤ 2 ^ (a + b) :=
    h.trans (pow_le_pow_right₀ one_le_two (by omega))
  cases hx with
  | finite hm _ =>
    cases hy with
    | finite hn _ =>
      rw [pow_add]
      refine exact_mul_finite false false (show 1 < twoTo 53 by decide) (i := ((a + b : ℕ) : ℤ))
        (by unfold minExponent; omega) hm hn ?_
      rw [zpow_natCast, Nat.cast_one, one_mul, pow_add]
    | infinite h =>
      simp only [mul, if_neg (ne_zero_of_mantissa hm)]
      exact .infinite (hright h)
  | infinite h =>
    cases hy with
    | finite hn _ =>
      simp only [mul, if_neg (ne_zero_of_mantissa hn)]
      exact .infinite (hleft h)
    | infinite _ => exact .infinite (hleft h)

theorem exact_powFrom (hr : Exact false r (2 ^ a)) (hx : Exact false x (2 ^ b)) (hn : n < 2 ^ fuel) :
    Exact false (powFrom fuel r x n) (2 ^ (a + b * n)) := by
  induction fuel generalizing r x a b n with
  | zero =>
    obtain rfl : n = 0 := by omega
    exact hr
  | succ fuel ih =>
    have hbit : Exact false (if n % 2 = 1 then mul r x else r) (2 ^ (a + b * (n % 2))) := by
      split
      · rename_i hodd
        rw [hodd, mul_one]
        exact hr.mul_power hx
      · rename_i heven
        rw [show n % 2 = 0 by omega]
        exact hr
    unfold powFrom
    dsimp only
    split
    · have hlow : n % 2 = n := by omega
      rwa [hlow] at hbit ⊢
    · have hrest := ih hbit (hx.mul_power hx) (show n / 2 < 2 ^ fuel by omega)
      have hsum : a + b * (n % 2) + (b + b) * (n / 2) = a + b * n := by
        conv_rhs => rw [← Nat.mod_add_div n 2]
        ring
      rwa [hsum] at hrest

theorem exact_pow_two (n : ℕ) : Exact false (two.pow n) (2 ^ n) := by
  have hone : Exact false one (2 ^ 0) := by
    have h := exact_ofNat (show 1 < twoTo 53 by decide)
    rwa [Nat.cast_one] at h
  have htwo : Exact false two (2 ^ 1) := by
    have h := exact_ofNat (show 2 < twoTo 53 by decide)
    rwa [Nat.cast_ofNat, ← pow_one (2 : ℚ)] at h
  have h := exact_powFrom hone htwo (Nat.lt_log2_self (n := n))
  rwa [zero_add, one_mul] at h

theorem exact_mul_pow_two (hx : (finite s m e).Rounded) (hn : n < 1024) :
    Exact s ((finite s m e).mul (two.pow n)) (m * 2 ^ e * 2 ^ n) := by
  obtain ⟨hm, he⟩ := hx
  obtain ⟨k, f, hpower, hk⟩ := (exact_pow_two n).exists_finite (pow_lt_pow_right₀ one_lt_two hn)
  have hmoved : (m : ℚ) * 2 ^ e * 2 ^ n = m * 2 ^ (e + n) := by
    rw [zpow_add₀ two_ne_zero, zpow_natCast, mul_assoc]
  have h := exact_mul_finite s false hm (by omega) rfl hk hmoved
  rwa [Bool.bne_false, ← hpower] at h

def Finite : Binary64 → Prop
  | .finite .. => True
  | _ => False

theorem Finite.of_mul (h : (x.mul y).Finite) : x.Finite ∧ y.Finite := by
  cases x <;> cases y <;> simp only [Binary64.mul] at h
  case infinite.finite => split at h <;> exact h.elim
  case finite.infinite => split at h <;> exact h.elim
  case finite.finite => exact ⟨trivial, trivial⟩
  all_goals exact h.elim

theorem not_finite_pow_two (hn : 1024 ≤ n) : ¬ (two.pow n).Finite := by
  have hpower := exact_pow_two n
  generalize two.pow n = y at hpower
  cases hpower with
  | finite _ hlt => exact absurd hn (not_le.2 ((pow_lt_pow_iff_right₀ one_lt_two).1 hlt))
  | infinite _ => exact id

end OrderDesk.Binary64
