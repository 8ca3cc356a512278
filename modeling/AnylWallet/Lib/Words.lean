import Mathlib.Data.Nat.Bitwise
import Mathlib.Data.Nat.Size
import Mathlib.Tactic.Ring

/-!
# Numbers of two words and of four limbs, and division by shift and subtract

* A number below `2 ^ (w + w)` is held as `hi * 2 ^ w + lo`. `shiftLeft_words`, `shiftRight_words`
  and `lor_words` give the words of a shifted number and of an `or`.
* `limbs base t` is the number of four limbs. `limbs_mul_mod`: a product by columns, modulo the size
  of the numbers.
* `Dividing l r k d a q m` is the state of a shift-and-subtract division of `l` by `r` before the
  bit of weight `2 ^ k` of the quotient is decided. `Dividing.start` starts it from the sizes of the
  two numbers, `Dividing.subtract` and `Dividing.skip` are its two steps.
-/

namespace AnylWallet.Lib

/-! ## Two words -/

/-- The part of a word that a left shift pushes out is a right shift of it. -/
theorem mul_two_pow_div {w v : ℕ} (hv : v ≤ w) (b : ℕ) : b * 2 ^ v / 2 ^ w = b / 2 ^ (w - v) := by
  have hw : 2 ^ w = 2 ^ (w - v) * 2 ^ v := by rw [← pow_add, Nat.sub_add_cancel hv]
  rw [hw, Nat.mul_div_mul_right _ _ (Nat.two_pow_pos _)]

/-- **Left shift** by less than a word: the low word pushes its high bits into the high word. -/
theorem shiftLeft_words {w v : ℕ} (hv : v ≤ w) (a b : ℕ) :
    (a * 2 ^ v + b / 2 ^ (w - v)) % 2 ^ w * 2 ^ w + b * 2 ^ v % 2 ^ w =
      (a * 2 ^ w + b) * 2 ^ v % 2 ^ (w + w) := by
  have hpos : 0 < 2 ^ w := Nat.two_pow_pos _
  have hsplit : (a * 2 ^ w + b) * 2 ^ v = b * 2 ^ v + 2 ^ w * (a * 2 ^ v) := by ring
  rw [pow_add, Nat.mod_mul, hsplit, Nat.add_mul_mod_self_left, Nat.add_mul_div_left _ _ hpos,
    mul_two_pow_div hv, Nat.add_comm (b / 2 ^ (w - v))]
  ring

/-- Left shift by at least a word. -/
theorem shiftLeft_words_of_ge {w v : ℕ} (hv : w ≤ v) (a b : ℕ) :
    b * 2 ^ (v - w) % 2 ^ w * 2 ^ w = (a * 2 ^ w + b) * 2 ^ v % 2 ^ (w + w) := by
  have hpow : 2 ^ v = 2 ^ w * 2 ^ (v - w) := (pow_mul_pow_sub 2 hv).symm
  have hsplit : (a * 2 ^ w + b) * 2 ^ v =
      2 ^ w * (b * 2 ^ (v - w)) + 2 ^ w * 2 ^ w * (a * 2 ^ (v - w)) := by
    rw [hpow]
    ring
  rw [pow_add, hsplit, Nat.add_mul_mod_self_left, Nat.mul_mod_mul_left, Nat.mul_comm]

/-- A right shift takes the low bits of the high word into the low one. -/
theorem mul_two_pow_mod {w v : ℕ} (hv : v ≤ w) (a : ℕ) :
    a * 2 ^ (w - v) % 2 ^ w = a % 2 ^ v * 2 ^ (w - v) := by
  have hw : 2 ^ w = 2 ^ v * 2 ^ (w - v) := by rw [← pow_add, Nat.add_sub_cancel' hv]
  rw [hw, Nat.mul_mod_mul_right]

/-- **Right shift** by less than a word. -/
theorem shiftRight_words {w v : ℕ} (hv : v ≤ w) (a b : ℕ) :
    a / 2 ^ v * 2 ^ w + (a * 2 ^ (w - v) % 2 ^ w + b / 2 ^ v) = (a * 2 ^ w + b) / 2 ^ v := by
  have hpos : 0 < 2 ^ v := Nat.two_pow_pos _
  have hw : 2 ^ w = 2 ^ v * 2 ^ (w - v) := by rw [← pow_add, Nat.add_sub_cancel' hv]
  have ha := Nat.div_add_mod a (2 ^ v)
  have hsplit : a * 2 ^ w + b = b + 2 ^ v * (a * 2 ^ (w - v)) := by
    rw [hw]
    ring
  rw [mul_two_pow_mod hv, hsplit, Nat.add_mul_div_left _ _ hpos]
  conv_rhs => rw [← ha]
  rw [hw]
  ring

/-- Right shift by at least a word. -/
theorem shiftRight_words_of_ge {w v b : ℕ} (hv : w ≤ v) (hb : b < 2 ^ w) (a : ℕ) :
    a / 2 ^ (v - w) = (a * 2 ^ w + b) / 2 ^ v := by
  have hpow : 2 ^ v = 2 ^ w * 2 ^ (v - w) := (pow_mul_pow_sub 2 hv).symm
  have hdiv : (a * 2 ^ w + b) / 2 ^ w = a := by
    rw [Nat.add_comm, Nat.add_mul_div_right _ _ (Nat.two_pow_pos w), Nat.div_eq_of_lt hb,
      Nat.zero_add]
  rw [hpow, ← Nat.div_div_eq_div_mul, hdiv]

/-- The low word of a right shift does not overflow. -/
theorem shiftRight_low_lt {w v b : ℕ} (hv : v ≤ w) (hb : b < 2 ^ w) (a : ℕ) :
    a * 2 ^ (w - v) % 2 ^ w + b / 2 ^ v < 2 ^ w := by
  have hpos : 0 < 2 ^ v := Nat.two_pow_pos _
  have hw : 2 ^ w = 2 ^ v * 2 ^ (w - v) := by rw [← pow_add, Nat.add_sub_cancel' hv]
  have hdiv : b / 2 ^ v < 2 ^ (w - v) := Nat.div_lt_of_lt_mul (by rwa [hw] at hb)
  have hmod : a % 2 ^ v + 1 ≤ 2 ^ v := Nat.mod_lt a hpos
  have hmul := Nat.mul_le_mul_right (2 ^ (w - v)) hmod
  rw [mul_two_pow_mod hv]
  rw [← hw, Nat.add_mul, Nat.one_mul] at hmul
  omega

/-- **Or**, word by word. -/
theorem lor_words {w b d : ℕ} (hb : b < 2 ^ w) (hd : d < 2 ^ w) (a c : ℕ) :
    (a * 2 ^ w + b) ||| (c * 2 ^ w + d) = (a ||| c) * 2 ^ w + (b ||| d) := by
  have hbd : b ||| d < 2 ^ w := Nat.or_lt_two_pow hb hd
  simp only [Nat.mul_comm _ (2 ^ w)]
  rw [Nat.two_pow_add_eq_or_of_lt hb, Nat.two_pow_add_eq_or_of_lt hd,
    Nat.two_pow_add_eq_or_of_lt hbd]
  apply Nat.eq_of_testBit_eq
  intro i
  simp only [Nat.testBit_or, Nat.testBit_two_pow_mul]
  by_cases h : i ≥ w
  · simp only [h, decide_true, Bool.true_and]
    cases a.testBit (i - w) <;> cases b.testBit i <;> cases c.testBit (i - w) <;> simp
  · simp [h]

/-! ## Four limbs -/

/-- The number of four limbs, the most significant one first. -/
def limbs (base : ℕ) (t : ℕ → ℕ) : ℕ := ((t 0 * base + t 1) * base + t 2) * base + t 3

/-- The sums of the columns of a product of four limbs by four, as far as they count. The product of
the limb `3 - i` of one number and the limb `y` of the other one is `base * hi i y + lo i y`; the
parts that count only from the fourth power of the base on are left out. -/
def column (hi lo : ℕ → ℕ → ℕ) : ℕ → ℕ
  | 3 => lo 0 3
  | 2 => lo 0 2 + hi 0 3 + lo 1 3
  | 1 => lo 0 1 + hi 0 2 + (lo 1 2 + hi 1 3) + lo 2 3
  | _ => lo 0 0 + hi 0 1 + (lo 1 1 + hi 1 2) + (lo 2 2 + hi 2 3) + lo 3 3

/-- A column is a sum of at most seven parts. -/
theorem column_lt {hi lo : ℕ → ℕ → ℕ} {bound : ℕ} (hhi : ∀ i y, hi i y < bound)
    (hlo : ∀ i y, lo i y < bound) (k : ℕ) : column hi lo k < 7 * bound := by
  unfold column
  split
  · have := hlo 0 3
    omega
  · have h1 := hlo 0 2
    have h2 := hhi 0 3
    have h3 := hlo 1 3
    omega
  · have h1 := hlo 0 1
    have h2 := hhi 0 2
    have h3 := hlo 1 2
    have h4 := hhi 1 3
    have h5 := hlo 2 3
    omega
  · have h1 := hlo 0 0
    have h2 := hhi 0 1
    have h3 := hlo 1 1
    have h4 := hhi 1 2
    have h5 := hlo 2 2
    have h6 := hhi 2 3
    have h7 := hlo 3 3
    omega

/-- **A product by columns.** -/
theorem limbs_mul_mod {base : ℕ} {t b : ℕ → ℕ} {hi lo : ℕ → ℕ → ℕ}
    (h : ∀ i y, t (3 - i) * b y = base * hi i y + lo i y) :
    limbs base t * limbs base b % base ^ 4 = limbs base (column hi lo) % base ^ 4 := by
  -- what counts from the fourth power of the base on
  let rest := hi 0 0 + hi 1 1 + hi 2 2 + hi 3 3 + (t 2 * b 0 + t 1 * b 1 + t 0 * b 2) +
    (t 1 * b 0 + t 0 * b 1) * base + t 0 * b 0 * base ^ 2
  have hproduct : limbs base t * limbs base b = limbs base (column hi lo) + base ^ 4 * rest := by
    calc limbs base t * limbs base b
        = t (3 - 0) * b 3 + (t (3 - 0) * b 2 + t (3 - 1) * b 3) * base +
            (t (3 - 0) * b 1 + t (3 - 1) * b 2 + t (3 - 2) * b 3) * base ^ 2 +
            (t (3 - 0) * b 0 + t (3 - 1) * b 1 + t (3 - 2) * b 2 + t (3 - 3) * b 3) * base ^ 3 +
            (t 2 * b 0 + t 1 * b 1 + t 0 * b 2) * base ^ 4 +
            (t 1 * b 0 + t 0 * b 1) * base ^ 5 + t 0 * b 0 * base ^ 6 := by
          simp only [limbs, Nat.sub_zero, Nat.sub_self, Nat.reduceSub]
          ring
      _ = limbs base (column hi lo) + base ^ 4 * rest := by
          simp only [h, limbs, column, rest]
          ring
  rw [hproduct, Nat.add_mul_mod_self_left]

/-! ## Division by shift and subtract -/

/-- A division of `l` by `r` before the quotient bit `k` is decided: `d` is the divisor shifted to
that bit, `a` is the bit, `q` holds the bits above it and `m` what is left of `l`. -/
structure Dividing (l r k d a q m : ℕ) : Prop where
  /-- The shifted divisor. -/
  divisor : d = r * 2 ^ k
  /-- The bit. -/
  bit : a = 2 ^ k
  /-- The quotient so far has no bit at or below `k`. -/
  quotient : 2 ^ (k + 1) ∣ q
  /-- What is left of `l`. -/
  rest : l = q * r + m
  /-- The rest is below twice the shifted divisor. -/
  bound : m < r * 2 ^ (k + 1)

namespace Dividing

variable {l r k d a q m : ℕ}

/-- The start, with nothing subtracted yet. -/
theorem start (h : l < r * 2 ^ (k + 1)) : Dividing l r k (r * 2 ^ k) (2 ^ k) 0 l :=
  ⟨rfl, rfl, Nat.dvd_zero _, by ring, h⟩

/-- The bit of the quotient is set by an `or`, which is a sum. -/
theorem lor_eq (h : Dividing l r k d a q m) : q ||| a = q + a := by
  obtain ⟨c, hc⟩ := h.quotient
  have hlt : 2 ^ k < 2 ^ (k + 1) := Nat.pow_lt_pow_right (by decide) (Nat.lt_succ_self k)
  rw [h.bit, hc, ← Nat.two_pow_add_eq_or_of_lt hlt]

/-- The divisor shifted by one bit more. -/
theorem divisor_half (h : Dividing l r (k + 1) d a q m) : d / 2 = r * 2 ^ k := by
  rw [h.divisor, pow_succ, ← Nat.mul_assoc, Nat.mul_div_cancel _ (by decide)]

/-- The next bit. -/
theorem bit_half (h : Dividing l r (k + 1) d a q m) : a / 2 = 2 ^ k := by
  rw [h.bit, pow_succ, Nat.mul_div_cancel _ (by decide)]

/-- Nothing is subtracted: the bit is clear. -/
theorem skip (h : Dividing l r (k + 1) d a q m) (hm : m < d) :
    Dividing l r k (d / 2) (a / 2) q m where
  divisor := h.divisor_half
  bit := h.bit_half
  quotient := (pow_dvd_pow 2 (Nat.le_succ (k + 1))).trans h.quotient
  rest := h.rest
  bound := h.divisor ▸ hm

/-- What is left after a subtraction. -/
theorem rest_subtract (h : Dividing l r k d a q m) (hm : d ≤ m) :
    l = (q + a) * r + (m - d) ∧ m - d < r * 2 ^ k := by
  have hbound := h.bound
  have hd := h.divisor
  rw [pow_succ, ← Nat.mul_assoc] at hbound
  refine ⟨?_, by omega⟩
  rw [Nat.add_mul, h.bit, Nat.mul_comm (2 ^ k) r, ← hd]
  have := h.rest
  omega

/-- The divisor is subtracted and the bit is set. -/
theorem subtract (h : Dividing l r (k + 1) d a q m) (hm : d ≤ m) :
    Dividing l r k (d / 2) (a / 2) (q + a) (m - d) where
  divisor := h.divisor_half
  bit := h.bit_half
  quotient := by
    have hdvd := (pow_dvd_pow 2 (Nat.le_succ (k + 1))).trans h.quotient
    rw [h.bit]
    exact Nat.dvd_add hdvd (Nat.dvd_refl _)
  rest := (h.rest_subtract hm).1
  bound := (h.rest_subtract hm).2

end Dividing

end AnylWallet.Lib
