import AnylWallet.Helpers.Uint256
import AnylWallet.Lib.Words

/-!
# `helpers/uint256`: arithmetic

* The functions follow the source word by word; a function with a `target` returns the value it
  stores there. Each has one lemma that says what it does to the number: `toNat_shiftl128`,
  `toNat_shiftr128`, `toNat_add128`, `toNat_minus256`, `gt256_iff`, `toNat_or256`, `bits256_eq` and
  so on.
* **Division** (`divmod256_eq`): for a divisor other than zero `divmod256` ends with the quotient
  and the remainder. Its loop is a `while`: `divmodWhile` has a number of tests left and is `none` when
  they are used up. It is a shift-and-subtract division (`Dividing`), and ends within 258 tests
  (`divmodWhile_start`).
-/

namespace AnylWallet.Helpers

open AnylWallet.Lib

/-- The two halves of a number are its quotient and remainder. -/
theorem Uint256.toNat_eq (x : Uint256) :
    x.toNat = x.upper.toNat * 2 ^ 128 + x.lower.toNat := rfl

theorem Uint128.toNat_eq (x : Uint128) :
    x.toNat = x.upper.toNat * 2 ^ 64 + x.lower.toNat := rfl

/-- `zero256` holds of zero only. -/
@[simp] theorem zero256_iff {number : Uint256} : zero256 number = true ↔ number.toNat = 0 := by
  simp [zero256, Uint256.toNat_eq, and_comm]

@[simp] theorem toNat_clear128 : clear128.toNat = 0 := rfl

@[simp] theorem toNat_clear256 : clear256.toNat = 0 := rfl

@[simp] theorem toNat_set256Uint64 (val : UInt64) : (set256Uint64 val).toNat = val.toNat := by
  simp [set256Uint64, clear128, Uint256.toNat_eq, Uint128.toNat_eq]

/-! ## Shifts -/

/-- `shiftl128`. Source: `helpers/uint256.c` -/
def shiftl128 (number : Uint128) (value : ℕ) : Uint128 :=
  if value ≥ 128 then clear128
  else if value = 64 then ⟨number.lower, 0⟩
  else if value = 0 then number
  else if value < 64 then
    ⟨(number.upper <<< UInt64.ofNat value) + (number.lower >>> UInt64.ofNat (64 - value)),
      number.lower <<< UInt64.ofNat value⟩
  else ⟨number.lower <<< UInt64.ofNat (value - 64), 0⟩

/-- `shiftr128`, with a `target` of its own. Source: `helpers/uint256.c` -/
def shiftr128 (number : Uint128) (value : ℕ) : Uint128 :=
  if value ≥ 128 then clear128
  else if value = 64 then ⟨0, number.upper⟩
  else if value = 0 then number
  else if value < 64 then
    ⟨number.upper >>> UInt64.ofNat value,
      (number.upper <<< UInt64.ofNat (64 - value)) + (number.lower >>> UInt64.ofNat value)⟩
  else ⟨0, number.upper >>> UInt64.ofNat (value - 64)⟩

/-- `add128`. Source: `helpers/uint256.c` -/
def add128 (number1 number2 : Uint128) : Uint128 :=
  ⟨number1.upper + number2.upper +
      (if number1.lower + number2.lower < number1.lower then 1 else 0),
    number1.lower + number2.lower⟩

/-- `shiftl256`. Source: `helpers/uint256.c` -/
def shiftl256 (number : Uint256) (value : ℕ) : Uint256 :=
  if value ≥ 256 then clear256
  else if value = 128 then ⟨number.lower, clear128⟩
  else if value = 0 then number
  else if value < 128 then
    let tmp1 := shiftl128 number.upper value
    let tmp2 := shiftr128 number.lower (128 - value)
    ⟨add128 tmp1 tmp2, shiftl128 number.lower value⟩
  else ⟨shiftl128 number.lower (value - 128), clear128⟩

/-- `shiftr256`. Source: `helpers/uint256.c` -/
def shiftr256 (number : Uint256) (value : ℕ) : Uint256 :=
  if value ≥ 256 then clear256
  else if value = 128 then ⟨clear128, number.upper⟩
  else if value = 0 then number
  else if value < 128 then
    let tmp1 := shiftr128 number.lower value
    let tmp2 := shiftl128 number.upper (128 - value)
    ⟨shiftr128 number.upper value, add128 tmp1 tmp2⟩
  else ⟨clear128, shiftr128 number.upper (value - 128)⟩

/-- A word shifted left by less than its width. -/
theorem toNat_shiftLeft_ofNat (x : UInt64) {v : ℕ} (hv : v < 64) :
    (x <<< UInt64.ofNat v).toNat = x.toNat * 2 ^ v % 2 ^ 64 := by
  have hmod : (UInt64.ofNat v).toNat % 64 = v := by
    rw [UInt64.toNat_ofNat']
    omega
  rw [UInt64.toNat_shiftLeft, hmod, Nat.shiftLeft_eq]

/-- A word shifted right by less than its width. -/
theorem toNat_shiftRight_ofNat (x : UInt64) {v : ℕ} (hv : v < 64) :
    (x >>> UInt64.ofNat v).toNat = x.toNat / 2 ^ v := by
  have hmod : (UInt64.ofNat v).toNat % 64 = v := by
    rw [UInt64.toNat_ofNat']
    omega
  rw [UInt64.toNat_shiftRight, hmod, Nat.shiftRight_eq_div_pow]

/-- **`shiftl128` multiplies by a power of two.** -/
theorem toNat_shiftl128 (number : Uint128) (value : ℕ) :
    (shiftl128 number value).toNat = number.toNat * 2 ^ value % 2 ^ (64 + 64) := by
  unfold shiftl128
  split
  · rename_i h
    have hdvd : 2 ^ (64 + 64) ∣ number.toNat * 2 ^ value := (pow_dvd_pow 2 h).mul_left _
    rw [toNat_clear128, Nat.mod_eq_zero_of_dvd hdvd]
  split
  · rename_i h
    subst h
    have := shiftLeft_words_of_ge (Nat.le_refl 64) number.upper.toNat number.lower.toNat
    rw [Nat.sub_self, Nat.pow_zero, Nat.mul_one, Nat.mod_eq_of_lt number.lower.toNat_lt] at this
    rw [Uint128.toNat_eq, Uint128.toNat_eq, ← this, UInt64.toNat_zero, Nat.add_zero]
  split
  · rename_i h
    subst h
    rw [Nat.pow_zero, Nat.mul_one, Nat.mod_eq_of_lt number.toNat_lt]
  split
  · rename_i h0 h
    rw [Uint128.toNat_eq, UInt64.toNat_add, toNat_shiftLeft_ofNat _ h,
      toNat_shiftLeft_ofNat _ h, toNat_shiftRight_ofNat _ (by omega), Nat.mod_add_mod,
      shiftLeft_words (Nat.le_of_lt h), ← Uint128.toNat_eq]
  · rename_i h128 h64 h0 h
    rw [Uint128.toNat_eq, Uint128.toNat_eq, toNat_shiftLeft_ofNat _ (by omega), UInt64.toNat_zero,
      Nat.add_zero, shiftLeft_words_of_ge (Nat.le_of_not_lt h)]

/-- **`shiftr128` divides by a power of two.** -/
theorem toNat_shiftr128 (number : Uint128) (value : ℕ) :
    (shiftr128 number value).toNat = number.toNat / 2 ^ value := by
  have hl : number.lower.toNat < 2 ^ 64 := number.lower.toNat_lt
  unfold shiftr128
  split
  · rename_i h
    have hlt : number.toNat < 2 ^ value :=
      lt_of_lt_of_le number.toNat_lt (Nat.pow_le_pow_right (by decide) h)
    rw [toNat_clear128, Nat.div_eq_of_lt hlt]
  split
  · rename_i h
    subst h
    have := shiftRight_words_of_ge (Nat.le_refl 64) hl number.upper.toNat
    rw [Nat.sub_self, Nat.pow_zero, Nat.div_one] at this
    rw [Uint128.toNat_eq, Uint128.toNat_eq, ← this, UInt64.toNat_zero, Nat.zero_mul, Nat.zero_add]
  split
  · rename_i h
    subst h
    rw [Nat.pow_zero, Nat.div_one]
  split
  · rename_i h0 h
    have hlow := shiftRight_low_lt (Nat.le_of_lt h) hl number.upper.toNat
    rw [Uint128.toNat_eq, UInt64.toNat_add, toNat_shiftRight_ofNat _ h,
      toNat_shiftRight_ofNat _ h, toNat_shiftLeft_ofNat _ (by omega), Nat.mod_eq_of_lt hlow,
      shiftRight_words (Nat.le_of_lt h), ← Uint128.toNat_eq]
  · rename_i h128 h64 h0 h
    rw [Uint128.toNat_eq, Uint128.toNat_eq, toNat_shiftRight_ofNat _ (by omega), UInt64.toNat_zero,
      Nat.zero_mul, Nat.zero_add, shiftRight_words_of_ge (Nat.le_of_not_lt h) hl]

/-- **`add128` adds.** -/
theorem toNat_add128 (number1 number2 : Uint128) :
    (add128 number1 number2).toNat = (number1.toNat + number2.toNat) % 2 ^ 128 := by
  have h1 := number1.lower.toNat_lt
  have h2 := number2.lower.toNat_lt
  simp only [add128, Uint128.toNat_eq, UInt64.toNat_add, UInt64.lt_iff_toNat_lt]
  split
  · simp only [UInt64.toNat_one]
    omega
  · simp only [UInt64.toNat_zero]
    omega

/-- **`shiftl256` multiplies by a power of two.** -/
theorem toNat_shiftl256 (number : Uint256) (value : ℕ) :
    (shiftl256 number value).toNat = number.toNat * 2 ^ value % 2 ^ (128 + 128) := by
  unfold shiftl256
  split
  · rename_i h
    have hdvd : 2 ^ (128 + 128) ∣ number.toNat * 2 ^ value := (pow_dvd_pow 2 h).mul_left _
    rw [toNat_clear256, Nat.mod_eq_zero_of_dvd hdvd]
  split
  · rename_i h
    subst h
    have := shiftLeft_words_of_ge (Nat.le_refl 128) number.upper.toNat number.lower.toNat
    rw [Nat.sub_self, Nat.pow_zero, Nat.mul_one, Nat.mod_eq_of_lt number.lower.toNat_lt] at this
    rw [Uint256.toNat_eq, Uint256.toNat_eq, ← this, toNat_clear128, Nat.add_zero]
  split
  · rename_i h
    subst h
    rw [Nat.pow_zero, Nat.mul_one, Nat.mod_eq_of_lt number.toNat_lt]
  split
  · rename_i h0 h
    rw [Uint256.toNat_eq, Uint256.toNat_eq, toNat_add128, toNat_shiftl128, toNat_shiftl128,
      toNat_shiftr128, Nat.mod_add_mod, shiftLeft_words (Nat.le_of_lt h)]
  · rename_i h256 h128 h0 h
    rw [Uint256.toNat_eq, Uint256.toNat_eq, toNat_shiftl128, toNat_clear128, Nat.add_zero,
      shiftLeft_words_of_ge (Nat.le_of_not_lt h)]

/-- **`shiftr256` divides by a power of two.** -/
theorem toNat_shiftr256 (number : Uint256) (value : ℕ) :
    (shiftr256 number value).toNat = number.toNat / 2 ^ value := by
  have hl : number.lower.toNat < 2 ^ 128 := number.lower.toNat_lt
  unfold shiftr256
  split
  · rename_i h
    have hlt : number.toNat < 2 ^ value :=
      lt_of_lt_of_le number.toNat_lt (Nat.pow_le_pow_right (by decide) h)
    rw [toNat_clear256, Nat.div_eq_of_lt hlt]
  split
  · rename_i h
    subst h
    have := shiftRight_words_of_ge (Nat.le_refl 128) hl number.upper.toNat
    rw [Nat.sub_self, Nat.pow_zero, Nat.div_one] at this
    rw [Uint256.toNat_eq, Uint256.toNat_eq, ← this, toNat_clear128, Nat.zero_mul, Nat.zero_add]
  split
  · rename_i h
    subst h
    rw [Nat.pow_zero, Nat.div_one]
  split
  · rename_i h0 h
    have hlow := shiftRight_low_lt (Nat.le_of_lt h) hl number.upper.toNat
    rw [Nat.add_comm] at hlow
    rw [Uint256.toNat_eq, Uint256.toNat_eq, toNat_add128, toNat_shiftr128, toNat_shiftr128,
      toNat_shiftl128, Nat.mod_eq_of_lt hlow, Nat.add_comm (number.lower.toNat / _),
      shiftRight_words (Nat.le_of_lt h)]
  · rename_i h256 h128 h0 h
    rw [Uint256.toNat_eq, Uint256.toNat_eq, toNat_shiftr128, toNat_clear128, Nat.zero_mul,
      Nat.zero_add, shiftRight_words_of_ge (Nat.le_of_not_lt h) hl]

/-! ## Comparison -/

/-- `equal128`. Source: `helpers/uint256.c` -/
def equal128 (number1 number2 : Uint128) : Bool :=
  number1.upper == number2.upper && number1.lower == number2.lower

/-- `equal256`. Source: `helpers/uint256.c` -/
def equal256 (number1 number2 : Uint256) : Bool :=
  equal128 number1.upper number2.upper && equal128 number1.lower number2.lower

/-- `gt128`. Source: `helpers/uint256.c` -/
def gt128 (number1 number2 : Uint128) : Bool :=
  if number1.upper = number2.upper then number1.lower > number2.lower
  else number1.upper > number2.upper

/-- `gt256`. Source: `helpers/uint256.c` -/
def gt256 (number1 number2 : Uint256) : Bool :=
  if equal128 number1.upper number2.upper = true then gt128 number1.lower number2.lower
  else gt128 number1.upper number2.upper

/-- `gte256`. Source: `helpers/uint256.c` -/
def gte256 (number1 number2 : Uint256) : Bool :=
  gt256 number1 number2 || equal256 number1 number2

@[simp] theorem equal128_iff {x y : Uint128} : equal128 x y = true ↔ x.toNat = y.toNat := by
  have hx := x.lower.toNat_lt
  have hy := y.lower.toNat_lt
  simp only [equal128, Bool.and_eq_true, beq_iff_eq, ← UInt64.toNat_inj, Uint128.toNat_eq]
  omega

@[simp] theorem equal256_iff {x y : Uint256} : equal256 x y = true ↔ x.toNat = y.toNat := by
  have hx := x.lower.toNat_lt
  have hy := y.lower.toNat_lt
  simp only [equal256, Bool.and_eq_true, equal128_iff, Uint256.toNat_eq]
  omega

@[simp] theorem gt128_iff {x y : Uint128} : gt128 x y = true ↔ y.toNat < x.toNat := by
  have hx := x.lower.toNat_lt
  have hy := y.lower.toNat_lt
  simp only [gt128, ← UInt64.toNat_inj, Uint128.toNat_eq]
  split
  · simp only [decide_eq_true_eq, gt_iff_lt, UInt64.lt_iff_toNat_lt]
    omega
  · simp only [decide_eq_true_eq, gt_iff_lt, UInt64.lt_iff_toNat_lt]
    omega

@[simp] theorem gt256_iff {x y : Uint256} : gt256 x y = true ↔ y.toNat < x.toNat := by
  have hx := x.lower.toNat_lt
  have hy := y.lower.toNat_lt
  simp only [gt256, equal128_iff, Uint256.toNat_eq]
  split
  · rw [gt128_iff]
    omega
  · rw [gt128_iff]
    omega

@[simp] theorem gte256_iff {x y : Uint256} : gte256 x y = true ↔ y.toNat ≤ x.toNat := by
  simp only [gte256, Bool.or_eq_true, gt256_iff, equal256_iff]
  omega

/-! ## Subtraction and `or` -/

/-- `minus128`. Source: `helpers/uint256.c` -/
def minus128 (number1 number2 : Uint128) : Uint128 :=
  ⟨number1.upper - number2.upper -
      (if number1.lower - number2.lower > number1.lower then 1 else 0),
    number1.lower - number2.lower⟩

/-- `minus256`. Source: `helpers/uint256.c` -/
def minus256 (number1 number2 : Uint256) : Uint256 :=
  let upper := minus128 number1.upper number2.upper
  let tmp := minus128 number1.lower number2.lower
  let upper := if gt128 tmp number1.lower = true then minus128 upper ⟨0, 1⟩ else upper
  ⟨upper, minus128 number1.lower number2.lower⟩

/-- `or128`. Source: `helpers/uint256.c` -/
def or128 (number1 number2 : Uint128) : Uint128 :=
  ⟨number1.upper ||| number2.upper, number1.lower ||| number2.lower⟩

/-- `or256`. Source: `helpers/uint256.c` -/
def or256 (number1 number2 : Uint256) : Uint256 :=
  ⟨or128 number1.upper number2.upper, or128 number1.lower number2.lower⟩

/-- **`minus128` subtracts**, modulo `2 ^ 128`. -/
theorem toNat_minus128 (x y : Uint128) :
    (minus128 x y).toNat = (2 ^ 128 - y.toNat + x.toNat) % 2 ^ 128 := by
  have h1 := x.lower.toNat_lt
  have h2 := y.lower.toNat_lt
  have h3 := x.upper.toNat_lt
  have h4 := y.upper.toNat_lt
  simp only [minus128, Uint128.toNat_eq, UInt64.toNat_sub, gt_iff_lt, UInt64.lt_iff_toNat_lt]
  split
  · simp only [UInt64.toNat_one]
    omega
  · simp only [UInt64.toNat_zero]
    omega

/-- **`minus256` subtracts** a number that is not larger. -/
theorem toNat_minus256 {x y : Uint256} (h : y.toNat ≤ x.toNat) :
    (minus256 x y).toNat = x.toNat - y.toNat := by
  have h1 := x.lower.toNat_lt
  have h2 := y.lower.toNat_lt
  have h3 := x.upper.toNat_lt
  have h4 := y.upper.toNat_lt
  have hone : (⟨0, 1⟩ : Uint128).toNat = 1 := rfl
  simp only [minus256, Uint256.toNat_eq, gt128_iff] at h ⊢
  split
  · rename_i hborrow
    rw [toNat_minus128] at hborrow
    rw [toNat_minus128, toNat_minus128, toNat_minus128, hone]
    omega
  · rename_i hborrow
    rw [toNat_minus128] at hborrow
    rw [toNat_minus128, toNat_minus128]
    omega

/-- **`or256` is the bitwise or** of the numbers. -/
theorem toNat_or256 (x y : Uint256) : (or256 x y).toNat = x.toNat ||| y.toNat := by
  have hor : ∀ a b : Uint128, (or128 a b).toNat = a.toNat ||| b.toNat := by
    intro a b
    simp only [or128, Uint128.toNat_eq, UInt64.toNat_or]
    exact (lor_words a.lower.toNat_lt b.lower.toNat_lt _ _).symm
  simp only [or256, Uint256.toNat_eq, hor]
  exact (lor_words x.lower.toNat_lt y.lower.toNat_lt _ _).symm

/-! ## Sizes -/

/-- The loop `while (!zero128(&up)) { shiftr128(&up, 1, &up); result++; }`; after as many rounds as
there are bits every number is zero. -/
def bitsLoop : ℕ → Uint128 → ℕ → ℕ
  | 0, _, result => result
  | fuel + 1, up, result =>
      if zero128 up = true then result else bitsLoop fuel (shiftr128 up 1) (result + 1)

/-- `bits256`. Source: `helpers/uint256.c` -/
def bits256 (number : Uint256) : ℕ :=
  if zero128 number.upper = true then bitsLoop 128 number.lower 0
  else bitsLoop 128 number.upper 128

/-- Halving a positive number takes one bit off. -/
theorem size_half {n : ℕ} (h : n ≠ 0) : Nat.size n = Nat.size (n / 2) + 1 := by
  have hle : ∀ k, Nat.size n ≤ k + 1 ↔ Nat.size (n / 2) ≤ k := by
    intro k
    rw [Nat.size_le, Nat.size_le, pow_succ]
    omega
  have hpos : 0 < Nat.size n := Nat.size_pos.mpr (Nat.pos_of_ne_zero h)
  have h1 := hle (Nat.size (n / 2))
  have h2 := hle (Nat.size n - 1)
  omega

/-- The loop counts the bits. -/
theorem bitsLoop_eq {fuel : ℕ} {up : Uint128} (h : Nat.size up.toNat ≤ fuel) (result : ℕ) :
    bitsLoop fuel up result = result + Nat.size up.toNat := by
  induction fuel generalizing up result with
  | zero =>
      rw [Nat.le_zero.mp h]
      rfl
  | succ fuel ih =>
      rw [bitsLoop]
      split
      · rename_i hz
        rw [zero128_iff.mp hz, Nat.size_zero, Nat.add_zero]
      · rename_i hz
        have hsize := size_half (mt zero128_iff.mpr hz)
        have hshift : (shiftr128 up 1).toNat = up.toNat / 2 := toNat_shiftr128 up 1
        rw [ih (by rw [hshift]; omega), hshift, hsize]
        omega

/-- **`bits256` is the size of the number in bits.** -/
theorem bits256_eq (number : Uint256) : bits256 number = Nat.size number.toNat := by
  have hl := Nat.size_le.mpr number.lower.toNat_lt
  have hu := Nat.size_le.mpr number.upper.toNat_lt
  unfold bits256
  split
  · rename_i hz
    rw [bitsLoop_eq hl, Uint256.toNat_eq, zero128_iff.mp hz, Nat.zero_mul, Nat.zero_add,
      Nat.zero_add]
  · rename_i hz
    have hne := mt zero128_iff.mpr hz
    have hle : ∀ k, Nat.size number.toNat ≤ 128 + k ↔ Nat.size number.upper.toNat ≤ k := by
      intro k
      have hlow := number.lower.toNat_lt
      have hdiv : number.toNat / 2 ^ 128 = number.upper.toNat := by
        rw [Uint256.toNat_eq]
        omega
      rw [Nat.size_le, Nat.size_le, pow_add, ← hdiv, Nat.div_lt_iff_lt_mul (Nat.two_pow_pos 128),
        Nat.mul_comm]
    have hpos : 128 < Nat.size number.toNat := by
      rw [Nat.lt_size, Uint256.toNat_eq]
      have := Nat.pos_of_ne_zero hne
      omega
    have h1 := hle (Nat.size number.upper.toNat)
    have h2 := hle (Nat.size number.toNat - 128)
    rw [bitsLoop_eq hu]
    omega

/-! ## Division -/

/-- The local variables of `divmod256` in its loop. -/
structure DivmodLocals where
  /-- The divisor, shifted. -/
  copyd : Uint256
  /-- The bit of the quotient that `copyd` stands for. -/
  adder : Uint256
  /-- The quotient so far. -/
  resDiv : Uint256
  /-- What is left to divide. -/
  resMod : Uint256

/-- The body of the loop. -/
def divmodRound (s : DivmodLocals) : DivmodLocals :=
  let s :=
    if gte256 s.resMod s.copyd = true then
      { s with resMod := minus256 s.resMod s.copyd, resDiv := or256 s.resDiv s.adder }
    else s
  { s with copyd := shiftr256 s.copyd 1, adder := shiftr256 s.adder 1 }

/-- `while (gte256(&resMod, r))`, with `fuel` tests of the condition left: `none` when they are used
up. -/
def divmodWhile (r : Uint256) : ℕ → DivmodLocals → Option DivmodLocals
  | 0, _ => none
  | fuel + 1, s => if gte256 s.resMod r = true then divmodWhile r fuel (divmodRound s) else some s

/-- The local variables in front of the loop. -/
def divmodStart (l r : Uint256) : DivmodLocals :=
  let one := set256Uint64 1
  -- a `uint32_t`
  let diffBits := (2 ^ 32 - bits256 r + bits256 l) % 2 ^ 32
  let copyd := shiftl256 r diffBits
  let adder := shiftl256 one diffBits
  let (copyd, adder) :=
    if gt256 copyd l = true then (shiftr256 copyd 1, shiftr256 adder 1) else (copyd, adder)
  ⟨copyd, adder, clear256, l⟩

/-- `divmod256`: the values stored in `retDiv` and `retMod`. For a divisor other than zero 258 tests
are enough (`divmod256_while`). Source: `helpers/uint256.c` -/
def divmod256 (l r : Uint256) : Uint256 × Uint256 :=
  if gt256 r l = true then (clear256, l)
  else
    let s := (divmodWhile r 258 (divmodStart l r)).getD (divmodStart l r)
    (s.resDiv, s.resMod)

/-- More rounds do not change where the loop ends. -/
theorem divmodWhile_mono {r : Uint256} {fuel : ℕ} {s s' : DivmodLocals}
    (h : divmodWhile r fuel s = some s') (k : ℕ) : divmodWhile r (fuel + k) s = some s' := by
  induction fuel generalizing s with
  | zero => cases h
  | succ fuel ih =>
      rw [Nat.succ_add_eq_add_succ, Nat.add_succ, divmodWhile]
      rw [divmodWhile] at h
      split at h
      · rename_i hge
        rw [if_pos hge]
        exact ih h
      · rename_i hge
        rw [if_neg hge]
        exact h

/-- **The loop of a division in progress ends**, with the quotient and the remainder. -/
theorem divmodWhile_spec {l : ℕ} {r : Uint256} {k fuel : ℕ} {copyd adder resDiv resMod : Uint256}
    (hfuel : k + 1 < fuel)
    (h : Dividing l r.toNat k copyd.toNat adder.toNat resDiv.toNat resMod.toNat) :
    ∃ s, divmodWhile r fuel ⟨copyd, adder, resDiv, resMod⟩ = some s ∧
      l = s.resDiv.toNat * r.toNat + s.resMod.toNat ∧ s.resMod.toNat < r.toNat := by
  have hhalf : ∀ x : Uint256, (shiftr256 x 1).toNat = x.toNat / 2 := fun x => toNat_shiftr256 x 1
  induction k generalizing fuel copyd adder resDiv resMod with
  | zero =>
      obtain ⟨fuel, rfl⟩ : ∃ f, fuel = f + 2 := ⟨fuel - 2, by omega⟩
      have hcopyd : copyd.toNat = r.toNat := by simpa using h.divisor
      rw [divmodWhile]
      by_cases hge : r.toNat ≤ resMod.toNat
      · have hsub : copyd.toNat ≤ resMod.toNat := hcopyd.trans_le hge
        obtain ⟨hrest, hlt⟩ := h.rest_subtract hsub
        rw [Nat.pow_zero, Nat.mul_one] at hlt
        rw [← toNat_minus256 hsub] at hrest hlt
        rw [← h.lor_eq, ← toNat_or256] at hrest
        simp only [divmodRound, gte256_iff, hge, hcopyd, if_true]
        rw [divmodWhile, if_neg (by rw [gte256_iff]; exact Nat.not_le.mpr hlt)]
        exact ⟨_, rfl, hrest, hlt⟩
      · rw [if_neg (by rwa [gte256_iff])]
        exact ⟨_, rfl, h.rest, Nat.lt_of_not_le hge⟩
  | succ k ih =>
      obtain ⟨fuel, rfl⟩ : ∃ f, fuel = f + 1 := ⟨fuel - 1, by omega⟩
      rw [divmodWhile]
      by_cases hge : r.toNat ≤ resMod.toNat
      · rw [if_pos (by rwa [gte256_iff])]
        by_cases hsub : copyd.toNat ≤ resMod.toNat
        · have hstep := h.subtract hsub
          rw [← toNat_minus256 hsub, ← h.lor_eq, ← toNat_or256, ← hhalf, ← hhalf] at hstep
          simp only [divmodRound, gte256_iff, hsub, if_true]
          exact ih (by omega) hstep
        · have hstep := h.skip (Nat.lt_of_not_le hsub)
          rw [← hhalf, ← hhalf] at hstep
          simp only [divmodRound, gte256_iff, hsub, if_false]
          exact ih (by omega) hstep
      · rw [if_neg (by rwa [gte256_iff])]
        exact ⟨_, rfl, h.rest, Nat.lt_of_not_le hge⟩

/-- A number shifted up to the size of another one is at least half of it. -/
theorem lt_shifted {l r : ℕ} (hr : r ≠ 0) (h : r ≤ l) :
    l < r * 2 ^ (Nat.size l - Nat.size r + 1) ∧
      r * 2 ^ (Nat.size l - Nat.size r) < 2 ^ Nat.size l := by
  have hsize := Nat.size_le_size h
  have hpos : 0 < Nat.size r := Nat.size_pos.mpr (Nat.pos_of_ne_zero hr)
  have hlow : 2 ^ (Nat.size r - 1) ≤ r := Nat.lt_size.mp (by omega)
  constructor
  · calc l < 2 ^ Nat.size l := Nat.lt_size_self l
      _ = 2 ^ (Nat.size r - 1) * 2 ^ (Nat.size l - Nat.size r + 1) := by
          rw [← pow_add]
          congr 1
          omega
      _ ≤ r * 2 ^ (Nat.size l - Nat.size r + 1) := Nat.mul_le_mul_right _ hlow
  · calc r * 2 ^ (Nat.size l - Nat.size r)
        < 2 ^ Nat.size r * 2 ^ (Nat.size l - Nat.size r) :=
          Nat.mul_lt_mul_of_pos_right (Nat.lt_size_self r) (Nat.two_pow_pos _)
      _ = 2 ^ Nat.size l := by rw [← pow_add, Nat.add_sub_cancel' hsize]

/-- **The loop ends**, with the quotient and the remainder. -/
theorem divmodWhile_start (l : Uint256) {r : Uint256} (hr : r.toNat ≠ 0) (hgt : ¬ l.toNat < r.toNat) :
    ∃ s, divmodWhile r 258 (divmodStart l r) = some s ∧
      l.toNat = s.resDiv.toNat * r.toNat + s.resMod.toNat ∧ s.resMod.toNat < r.toNat := by
  have hle : r.toNat ≤ l.toNat := Nat.le_of_not_lt hgt
  obtain ⟨hbound, hfit⟩ := lt_shifted hr hle
  have hsize := Nat.size_le_size hle
  have hl256 : Nat.size l.toNat ≤ 256 := Nat.size_le.mpr l.toNat_lt
  have hdiff : (2 ^ 32 - bits256 r + bits256 l) % 2 ^ 32 = Nat.size l.toNat - Nat.size r.toNat := by
    rw [bits256_eq, bits256_eq]
    omega
  unfold divmodStart
  simp only [hdiff, gt256_iff]
  generalize hk : Nat.size l.toNat - Nat.size r.toNat = k at hbound hfit ⊢
  have hk256 : k < 256 := by
    have : 0 < Nat.size r.toNat := Nat.size_pos.mpr (Nat.pos_of_ne_zero hr)
    omega
  have hcopyd : (shiftl256 r k).toNat = r.toNat * 2 ^ k := by
    rw [toNat_shiftl256, Nat.mod_eq_of_lt]
    exact lt_of_lt_of_le hfit (Nat.pow_le_pow_right (by decide) hl256)
  have hadder : (shiftl256 (set256Uint64 1) k).toNat = 2 ^ k := by
    rw [toNat_shiftl256, toNat_set256Uint64, UInt64.toNat_one, Nat.one_mul, Nat.mod_eq_of_lt]
    exact Nat.pow_lt_pow_right (by decide) hk256
  by_cases hover : l.toNat < (shiftl256 r k).toNat
  · have hk0 : k ≠ 0 := by
      rintro rfl
      rw [hcopyd, Nat.pow_zero, Nat.mul_one] at hover
      exact hgt hover
    obtain ⟨k, rfl⟩ := Nat.exists_eq_succ_of_ne_zero hk0
    have hstart := Dividing.start (hcopyd ▸ hover : l.toNat < r.toNat * 2 ^ (k + 1))
    have hhalf : (shiftr256 (shiftl256 r (k + 1)) 1).toNat = r.toNat * 2 ^ k := by
      rw [toNat_shiftr256, hcopyd, pow_succ, ← Nat.mul_assoc, Nat.pow_one,
        Nat.mul_div_cancel _ (by decide)]
    have hbit : (shiftr256 (shiftl256 (set256Uint64 1) (k + 1)) 1).toNat = 2 ^ k := by
      rw [toNat_shiftr256, hadder, pow_succ, Nat.pow_one, Nat.mul_div_cancel _ (by decide)]
    rw [← hhalf, ← hbit, ← toNat_clear256] at hstart
    rw [if_pos hover]
    exact divmodWhile_spec (by omega : k + 1 < 258) hstart
  · have hstart := Dividing.start hbound
    rw [← hcopyd, ← hadder, ← toNat_clear256] at hstart
    rw [if_neg hover]
    exact divmodWhile_spec (by omega : k + 1 < 258) hstart

/-- Its values are those of `divmod256`. -/
theorem divmod256_while {l r : Uint256} (hr : r.toNat ≠ 0) (hgt : ¬ gt256 r l = true) :
    ∃ s, divmodWhile r 258 (divmodStart l r) = some s ∧ divmod256 l r = (s.resDiv, s.resMod) ∧
      l.toNat = s.resDiv.toNat * r.toNat + s.resMod.toNat ∧ s.resMod.toNat < r.toNat := by
  obtain ⟨s, hs, hrest⟩ := divmodWhile_start l hr (by rwa [gt256_iff] at hgt)
  refine ⟨s, hs, ?_, hrest⟩
  unfold divmod256
  rw [if_neg hgt, hs]
  rfl

/-- **`divmod256` divides**: for a divisor other than zero it stores the quotient and the
remainder. -/
theorem divmod256_eq (l : Uint256) {r : Uint256} (hr : r.toNat ≠ 0) :
    (divmod256 l r).1.toNat = l.toNat / r.toNat ∧ (divmod256 l r).2.toNat = l.toNat % r.toNat := by
  by_cases hgt : gt256 r l = true
  · have hlt := gt256_iff.mp hgt
    have hvalues : divmod256 l r = (clear256, l) := if_pos hgt
    rw [hvalues, Nat.div_eq_of_lt hlt, Nat.mod_eq_of_lt hlt]
    exact ⟨toNat_clear256, rfl⟩
  · obtain ⟨s, -, hvalues, hrest, hlt⟩ := divmod256_while hr hgt
    rw [hvalues]
    constructor
    · rw [hrest, Nat.mul_comm, Nat.mul_add_div (Nat.pos_of_ne_zero hr), Nat.div_eq_of_lt hlt,
        Nat.add_zero]
    · rw [hrest, Nat.mul_comm, Nat.mul_add_mod, Nat.mod_eq_of_lt hlt]

end AnylWallet.Helpers
