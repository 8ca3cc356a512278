import Mathlib.Data.UInt

/-!
# `helpers/math`: `ipow`

* `ipowAt` squares and multiplies in 64-bit arithmetic, one bit of the exponent a round; it is `none`
  while the loop has not ended. The exponent has 8 bits, so it ends within 8 rounds, with the power
  modulo `2 ^ 64` (`ipowAt_eq`).
* `ipow` is what it ends with: the power of the ring of 64-bit words (`ipow_eq`, `toNat_ipow`).
-/

namespace AnylWallet.Helpers

/-- The loop of `ipow`, with `fuel` rounds left: `none` when they are used up. -/
def ipowLoop : ℕ → UInt64 → UInt8 → UInt64 → Option UInt64
  | 0, _, _, _ => none
  | fuel + 1, base, exp, result =>
      let result := if exp &&& 1 ≠ 0 then result * base else result
      let exp := exp >>> 1
      if exp = 0 then some result else ipowLoop fuel (base * base) exp result

/-- `ipow` with at most `fuel` rounds. Source: `helpers/math.c` -/
def ipowAt (fuel : ℕ) (base : UInt64) (exp : UInt8) : Option UInt64 := ipowLoop fuel base exp 1

/-- What `ipow` returns; 8 rounds are enough (`ipowAt_eq`). -/
def ipow (base : UInt64) (exp : UInt8) : UInt64 := (ipowAt 8 base exp).getD 0

/-- The low bit of an exponent. -/
theorem and_one_ne_zero_iff (exp : UInt8) : exp &&& 1 ≠ 0 ↔ exp.toNat % 2 = 1 := by
  rw [Ne, ← UInt8.toNat_inj, UInt8.toNat_and, UInt8.toNat_one, Nat.and_one_is_mod, UInt8.toNat_zero]
  omega

/-- The other bits. -/
theorem toNat_shiftRight_one (exp : UInt8) : (exp >>> 1).toNat = exp.toNat / 2 := by
  rw [UInt8.toNat_shiftRight, UInt8.toNat_one, Nat.one_mod, Nat.shiftRight_eq_div_pow, Nat.pow_one]

/-- The power, by the low bit of the exponent and the others. -/
theorem pow_eq_mul_pow_half {M : Type*} [CommMonoid M] (base : M) (n : ℕ) :
    base ^ n = (if n % 2 = 1 then base else 1) * (base * base) ^ (n / 2) := by
  split
  · calc base ^ n = base ^ (2 * (n / 2) + 1) := by rw [show 2 * (n / 2) + 1 = n by omega]
      _ = base * (base * base) ^ (n / 2) := by rw [pow_succ', pow_mul, pow_two]
  · calc base ^ n = base ^ (2 * (n / 2)) := by rw [show 2 * (n / 2) = n by omega]
      _ = 1 * (base * base) ^ (n / 2) := by rw [one_mul, pow_mul, pow_two]

/-- **The loop ends** when the exponent has no bits left, and multiplies the power to the result. -/
theorem ipowLoop_eq {fuel : ℕ} {exp : UInt8} (h : exp.toNat < 2 ^ (fuel + 1))
    (base result : UInt64) :
    ipowLoop (fuel + 1) base exp result = some (result * base ^ exp.toNat) := by
  have hround : ∀ (base : UInt64) (exp : UInt8) (result : UInt64),
      (if exp &&& 1 ≠ 0 then result * base else result) * (base * base) ^ (exp >>> 1).toNat =
        result * base ^ exp.toNat := by
    intro base exp result
    rw [toNat_shiftRight_one, pow_eq_mul_pow_half base exp.toNat, ← mul_assoc]
    congr 1
    simp only [and_one_ne_zero_iff]
    split
    · rfl
    · rw [mul_one]
  induction fuel generalizing base exp result with
  | zero =>
      have hzero : (exp >>> 1).toNat = 0 := by
        rw [toNat_shiftRight_one]
        omega
      rw [ipowLoop, if_pos (UInt8.toNat_inj.mp hzero), ← hround base exp result, hzero, pow_zero,
        mul_one]
  | succ fuel ih =>
      rw [ipowLoop]
      split
      · rename_i hzero
        rw [← hround base exp result, hzero, UInt8.toNat_zero, pow_zero, mul_one]
      · have hhalf : (exp >>> 1).toNat < 2 ^ (fuel + 1) := by
          rw [toNat_shiftRight_one]
          omega
        rw [ih hhalf, hround base exp result]

/-- `ipow` is the power of words. -/
theorem ipow_eq (base : UInt64) (exp : UInt8) : ipow base exp = base ^ exp.toNat := by
  rw [ipow, ipowAt, ipowLoop_eq (show exp.toNat < 2 ^ (7 + 1) from exp.toNat_lt), one_mul,
    Option.getD_some]

/-- A power of words wraps around. -/
theorem toNat_pow_uint64 (base : UInt64) (n : ℕ) :
    (base ^ n).toNat = base.toNat ^ n % 2 ^ 64 := by
  induction n with
  | zero => rfl
  | succ n ih => rw [pow_succ, UInt64.toNat_mul, ih, Nat.mod_mul_mod, ← pow_succ]

/-- **`ipow` is the power modulo `2 ^ 64`.** -/
theorem toNat_ipow (base : UInt64) (exp : UInt8) :
    (ipow base exp).toNat = base.toNat ^ exp.toNat % 2 ^ 64 := by
  rw [ipow_eq, toNat_pow_uint64]

/-- **`ipow` ends with the power modulo `2 ^ 64`**, which is the power itself where 64 bits hold it.
Eight rounds are enough for an exponent of 8 bits. -/
theorem ipowAt_eq {fuel : ℕ} (hfuel : 8 ≤ fuel) (base : UInt64) (exp : UInt8) :
    ∃ result, ipowAt fuel base exp = some result ∧
      result.toNat = base.toNat ^ exp.toNat % 2 ^ 64 ∧
      (base.toNat ^ exp.toNat < 2 ^ 64 → result.toNat = base.toNat ^ exp.toNat) := by
  obtain ⟨more, rfl⟩ := Nat.exists_eq_add_of_le' hfuel
  have hexp : exp.toNat < 2 ^ (more + 7 + 1) :=
    Nat.lt_of_lt_of_le exp.toNat_lt (Nat.pow_le_pow_right (by decide) (by omega))
  have hvalue : (base ^ exp.toNat).toNat = base.toNat ^ exp.toNat % 2 ^ 64 :=
    toNat_pow_uint64 base exp.toNat
  refine ⟨base ^ exp.toNat, ?_, hvalue, fun hfits => ?_⟩
  · rw [ipowAt, ipowLoop_eq hexp, one_mul]
  · rw [hvalue, Nat.mod_eq_of_lt hfits]

/-- `10 ^ 19` has room in 64 bits. -/
theorem ipowAt_ten_nineteen : ∃ result, ipowAt 8 10 19 = some result ∧
    result.toNat = 10 ^ 19 % 2 ^ 64 ∧ (10 ^ 19 < 2 ^ 64 → result.toNat = 10 ^ 19) :=
  ipowAt_eq (le_refl 8) 10 19

/-- A power of ten is zero in 64 bits from the 64th on. -/
theorem ten_pow_mod_eq_zero_iff (n : ℕ) : 10 ^ n % 2 ^ 64 = 0 ↔ 64 ≤ n := by
  have hcoprime : Nat.Coprime (2 ^ 64) (5 ^ n) := Nat.Coprime.pow 64 n (by decide)
  have hten : 10 = 2 * 5 := by decide
  rw [hten, Nat.mul_pow, ← Nat.dvd_iff_mod_eq_zero, hcoprime.dvd_mul_right,
    Nat.pow_dvd_pow_iff_le_right (by decide)]

/-- Up to the 19th it has room there. -/
theorem ten_pow_mod_of_le {n : ℕ} (h : n ≤ 19) : 10 ^ n % 2 ^ 64 = 10 ^ n := by
  apply Nat.mod_eq_of_lt
  exact Nat.lt_of_le_of_lt (Nat.pow_le_pow_right (by decide) h) (by decide)

end AnylWallet.Helpers
