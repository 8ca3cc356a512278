import AnylWallet.Helpers.Uint256Arith

/-!
# `helpers/uint256`: multiplication

* `mul128` and `mul256` multiply by columns, of limbs of 32 and of 64 bits. `toNat_mul128`: the
  first one is the product modulo `2 ^ 128`.
* In `mul256` the carry out of the column `third64` is stored one word too high. `toNat_mul256` says
  what is stored then, and `toNat_mul256_iff` that it is the product modulo `2 ^ 256` exactly when
  there is no such carry.
-/

namespace AnylWallet.Helpers

open AnylWallet.Lib

/-! ## Addition of 256 bits -/

/-- `add256`. Source: `helpers/uint256.c` -/
def add256 (number1 number2 : Uint256) : Uint256 :=
  let upper := add128 number1.upper number2.upper
  let tmp := add128 number1.lower number2.lower
  let upper := if gt128 number1.lower tmp = true then add128 upper ⟨0, 1⟩ else upper
  ⟨upper, add128 number1.lower number2.lower⟩

/-- **`add256` adds.** -/
theorem toNat_add256 (x y : Uint256) : (add256 x y).toNat = (x.toNat + y.toNat) % 2 ^ 256 := by
  have h1 := x.lower.toNat_lt
  have h2 := y.lower.toNat_lt
  have hone : (⟨0, 1⟩ : Uint128).toNat = 1 := rfl
  simp only [add256, Uint256.toNat_eq, gt128_iff]
  split
  · rename_i hcarry
    rw [toNat_add128] at hcarry
    rw [toNat_add128, toNat_add128, toNat_add128, hone]
    omega
  · rename_i hcarry
    rw [toNat_add128] at hcarry
    rw [toNat_add128, toNat_add128]
    omega

/-! ## The product of 128 bits -/

/-- `w & 0xffffffff`. -/
def low32 (w : UInt64) : UInt64 := w &&& 0xffffffff

/-- `w >> 32`. -/
def high32 (w : UInt64) : UInt64 := w >>> 32

/-- The array `top` (or `bottom`) of `mul128`. -/
def limbs128 (number : Uint128) : ℕ → UInt64
  | 0 => high32 number.upper
  | 1 => low32 number.upper
  | 2 => high32 number.lower
  | _ => low32 number.lower

/-- The array `products` of `mul128`. -/
def products128 (number1 number2 : Uint128) (i y : ℕ) : UInt64 :=
  limbs128 number1 (3 - i) * limbs128 number2 y

/-- `mul128`. Source: `helpers/uint256.c` -/
def mul128 (number1 number2 : Uint128) : Uint128 :=
  let products := products128 number1 number2
  let fourth32 := low32 (products 0 3)
  let third32 := low32 (products 0 2) + high32 (products 0 3)
  let second32 := low32 (products 0 1) + high32 (products 0 2)
  let first32 := low32 (products 0 0) + high32 (products 0 1)
  let third32 := third32 + low32 (products 1 3)
  let second32 := second32 + (low32 (products 1 2) + high32 (products 1 3))
  let first32 := first32 + (low32 (products 1 1) + high32 (products 1 2))
  let second32 := second32 + low32 (products 2 3)
  let first32 := first32 + (low32 (products 2 2) + high32 (products 2 3))
  let first32 := first32 + low32 (products 3 3)
  let tmp : Uint128 := ⟨first32 <<< 32, 0⟩
  let tmp2 : Uint128 := ⟨high32 third32, third32 <<< 32⟩
  let target := add128 tmp tmp2
  let tmp : Uint128 := ⟨second32, 0⟩
  let tmp2 := add128 tmp target
  let tmp : Uint128 := ⟨0, fourth32⟩
  add128 tmp tmp2

/-- The low half of a word. -/
@[simp] theorem toNat_low32 (w : UInt64) : (low32 w).toNat = w.toNat % 2 ^ 32 := by
  rw [low32, UInt64.toNat_and]
  exact Nat.and_two_pow_sub_one_eq_mod w.toNat 32

/-- The high half of a word. -/
@[simp] theorem toNat_high32 (w : UInt64) : (high32 w).toNat = w.toNat / 2 ^ 32 :=
  toNat_shiftRight_ofNat w (by norm_num)

/-- A word moved up by half a word. -/
@[simp] theorem toNat_shiftLeft_32 (w : UInt64) : (w <<< 32).toNat = w.toNat * 2 ^ 32 % 2 ^ 64 :=
  toNat_shiftLeft_ofNat w (by norm_num)

/-- The limbs have 32 bits. -/
theorem toNat_limbs128_lt (x : Uint128) (i : ℕ) : (limbs128 x i).toNat < 2 ^ 32 := by
  have hu := x.upper.toNat_lt
  have hl := x.lower.toNat_lt
  unfold limbs128
  split
  · rw [toNat_high32]
    omega
  · rw [toNat_low32]
    omega
  · rw [toNat_high32]
    omega
  · rw [toNat_low32]
    omega

/-- The number of the limbs. -/
theorem limbs_limbs128 (x : Uint128) : limbs (2 ^ 32) (fun i => (limbs128 x i).toNat) = x.toNat := by
  simp only [limbs, limbs128, toNat_high32, toNat_low32, Uint128.toNat_eq]
  omega

/-- A product of limbs fits in a word. -/
theorem toNat_products128 (x y : Uint128) (i j : ℕ) :
    (products128 x y i j).toNat = (limbs128 x (3 - i)).toNat * (limbs128 y j).toNat := by
  have h := Nat.mul_lt_mul'' (toNat_limbs128_lt x (3 - i)) (toNat_limbs128_lt y j)
  rw [products128, UInt64.toNat_mul, Nat.mod_eq_of_lt (h.trans_eq (by norm_num))]

/-- The columns put together. -/
theorem toNat_columns128 (first32 second32 third32 fourth32 : UInt64) :
    (add128 ⟨0, fourth32⟩ (add128 ⟨second32, 0⟩
      (add128 ⟨first32 <<< 32, 0⟩ ⟨high32 third32, third32 <<< 32⟩))).toNat =
      (((first32.toNat * 2 ^ 32 + second32.toNat) * 2 ^ 32 + third32.toNat) * 2 ^ 32 +
        fourth32.toNat) % 2 ^ 128 := by
  rw [toNat_add128, toNat_add128, toNat_add128]
  simp only [Uint128.toNat_eq, toNat_high32, toNat_shiftLeft_32, UInt64.toNat_zero]
  omega

/-- **`mul128` multiplies**, modulo `2 ^ 128`. -/
theorem toNat_mul128 (x y : Uint128) :
    (mul128 x y).toNat = x.toNat * y.toNat % 2 ^ 128 := by
  have hcolumns : ∀ i j, (limbs128 x (3 - i)).toNat * (limbs128 y j).toNat =
      2 ^ 32 * ((products128 x y i j).toNat / 2 ^ 32) + (products128 x y i j).toNat % 2 ^ 32 := by
    intro i j
    rw [Nat.div_add_mod, toNat_products128]
  have hproduct := @limbs_mul_mod (2 ^ 32) (fun i => (limbs128 x i).toNat)
    (fun i => (limbs128 y i).toNat) _ _ hcolumns
  rw [limbs_limbs128, limbs_limbs128, ← pow_mul, show 32 * 4 = 128 from rfl] at hproduct
  rw [hproduct, mul128, toNat_columns128]
  have hhigh : ∀ i j, (products128 x y i j).toNat / 2 ^ 32 < 2 ^ 32 := by
    intro i j
    have := (products128 x y i j).toNat_lt
    omega
  have hlow : ∀ i j, (products128 x y i j).toNat % 2 ^ 32 < 2 ^ 32 :=
    fun i j => Nat.mod_lt _ (by norm_num)
  have hword : ∀ n, n < 7 * 2 ^ 32 → n % 2 ^ 64 = n := fun n hn => Nat.mod_eq_of_lt (by omega)
  simp only [UInt64.toNat_add, toNat_low32, toNat_high32, Nat.mod_add_mod, Nat.add_mod_mod]
  rw [hword, hword, hword]
  · rfl
  · exact column_lt hhigh hlow 2
  · exact column_lt hhigh hlow 1
  · exact column_lt hhigh hlow 0

/-! ## The product of 256 bits -/

/-- A 128-bit number of one word: `UPPER(tmp) = 0; LOWER(tmp) = w;`. -/
def word128 (w : UInt64) : Uint128 := ⟨0, w⟩

@[simp] theorem toNat_word128 (w : UInt64) : (word128 w).toNat = w.toNat := by
  simp [word128, Uint128.toNat_eq]

/-- The low words of the array `top` (or `bottom`) of `mul256`. -/
def limbs256 (number : Uint256) : ℕ → UInt64
  | 0 => number.upper.upper
  | 1 => number.upper.lower
  | 2 => number.lower.upper
  | _ => number.lower.lower

/-- The array `products` of `mul256`. -/
def products256 (number1 number2 : Uint256) (i y : ℕ) : Uint128 :=
  mul128 (word128 (limbs256 number1 (3 - i))) (word128 (limbs256 number2 y))

/-- `mul256`. Source: `helpers/uint256.c` -/
def mul256 (number1 number2 : Uint256) : Uint256 :=
  let products := products256 number1 number2
  let fourth64 := word128 (products 0 3).lower
  let third64 := add128 (word128 (products 0 2).lower) (word128 (products 0 3).upper)
  let second64 := add128 (word128 (products 0 1).lower) (word128 (products 0 2).upper)
  let first64 := add128 (word128 (products 0 0).lower) (word128 (products 0 1).upper)
  let third64 := add128 (word128 (products 1 3).lower) third64
  let tmp2 := add128 (word128 (products 1 2).lower) second64
  let second64 := add128 (word128 (products 1 3).upper) tmp2
  let tmp2 := add128 (word128 (products 1 1).lower) first64
  let first64 := add128 (word128 (products 1 2).upper) tmp2
  let second64 := add128 (word128 (products 2 3).lower) second64
  let tmp2 := add128 (word128 (products 2 2).lower) first64
  let first64 := add128 (word128 (products 2 3).upper) tmp2
  let first64 := add128 (word128 (products 3 3).lower) first64
  let target1 : Uint256 := ⟨shiftl128 first64 64, clear128⟩
  -- `UPPER(UPPER(target2)) = UPPER(third64)`: not the lower word of the upper half
  let target2 : Uint256 := ⟨⟨third64.upper, 0⟩, shiftl128 third64 64⟩
  let target := add256 target1 target2
  let target1 : Uint256 := ⟨second64, clear128⟩
  let target2 := add256 target1 target
  let target1 : Uint256 := ⟨clear128, fourth64⟩
  add256 target1 target2

/-- A number moved up by three words. -/
theorem toNat_first64 (first64 : Uint128) :
    (⟨shiftl128 first64 64, clear128⟩ : Uint256).toNat = first64.toNat * 2 ^ 192 % 2 ^ 256 := by
  have hpow : first64.toNat * 2 ^ 192 = first64.toNat * 2 ^ 64 * 2 ^ 128 := by ring
  rw [Uint256.toNat_eq, toNat_shiftl128, toNat_clear128, Nat.add_zero, hpow,
    show 2 ^ 256 = 2 ^ (64 + 64) * 2 ^ 128 by norm_num, Nat.mul_mod_mul_right]

/-- The low word moved up by one word, the high one by three. -/
theorem toNat_third64 (third64 : Uint128) :
    (⟨⟨third64.upper, 0⟩, shiftl128 third64 64⟩ : Uint256).toNat =
      third64.toNat % 2 ^ 64 * 2 ^ 64 + third64.toNat / 2 ^ 64 * 2 ^ 192 := by
  have hupper : third64.toNat / 2 ^ 64 = third64.upper.toNat := by
    have := third64.lower.toNat_lt
    rw [Uint128.toNat_eq]
    omega
  have hlower : third64.toNat * 2 ^ 64 % 2 ^ (64 + 64) = third64.toNat % 2 ^ 64 * 2 ^ 64 := by
    rw [pow_add, Nat.mul_mod_mul_right]
  rw [Uint256.toNat_eq, toNat_shiftl128, hlower, hupper, Uint128.toNat_eq, UInt64.toNat_zero]
  ring

/-- The columns put together. -/
theorem toNat_columns256 (first64 second64 third64 fourth64 : Uint128) :
    (add256 ⟨clear128, fourth64⟩ (add256 ⟨second64, clear128⟩
      (add256 ⟨shiftl128 first64 64, clear128⟩
        ⟨⟨third64.upper, 0⟩, shiftl128 third64 64⟩))).toNat =
      (first64.toNat * 2 ^ 192 + second64.toNat * 2 ^ 128 + third64.toNat % 2 ^ 64 * 2 ^ 64 +
        third64.toNat / 2 ^ 64 * 2 ^ 192 + fourth64.toNat) % 2 ^ 256 := by
  have hsecond : (⟨second64, clear128⟩ : Uint256).toNat = second64.toNat * 2 ^ 128 := by
    rw [Uint256.toNat_eq, toNat_clear128, Nat.add_zero]
  have hfourth : (⟨clear128, fourth64⟩ : Uint256).toNat = fourth64.toNat := by
    rw [Uint256.toNat_eq, toNat_clear128, Nat.zero_mul, Nat.zero_add]
  rw [toNat_add256, toNat_add256, toNat_add256, toNat_first64, toNat_third64, hsecond, hfourth]
  simp only [Nat.add_mod_mod, Nat.mod_add_mod]
  refine congrArg (· % 2 ^ 256) ?_
  ring

/-- The number of the limbs. -/
theorem limbs_limbs256 (x : Uint256) : limbs (2 ^ 64) (fun i => (limbs256 x i).toNat) = x.toNat := by
  simp only [limbs, limbs256, Uint256.toNat_eq, Uint128.toNat_eq]
  ring

/-- A product of limbs has two words. -/
theorem toNat_products256 (x y : Uint256) (i j : ℕ) :
    (products256 x y i j).toNat = (limbs256 x (3 - i)).toNat * (limbs256 y j).toNat := by
  have h := Nat.mul_lt_mul'' (limbs256 x (3 - i)).toNat_lt (limbs256 y j).toNat_lt
  rw [products256, toNat_mul128, toNat_word128, toNat_word128,
    Nat.mod_eq_of_lt (h.trans_eq (by norm_num))]

/-- The sums of the columns. -/
def columns256 (x y : Uint256) : ℕ → ℕ :=
  column (fun i j => (products256 x y i j).upper.toNat) fun i j => (products256 x y i j).lower.toNat

/-- The carry out of the column `third64`. -/
def thirdCarry (x y : Uint256) : ℕ := columns256 x y 2 / 2 ^ 64

/-- The product by its columns. -/
theorem mul_mod_columns256 (x y : Uint256) :
    x.toNat * y.toNat % 2 ^ 256 = limbs (2 ^ 64) (columns256 x y) % 2 ^ 256 := by
  have hcolumns : ∀ i j, (limbs256 x (3 - i)).toNat * (limbs256 y j).toNat =
      2 ^ 64 * (products256 x y i j).upper.toNat + (products256 x y i j).lower.toNat := by
    intro i j
    rw [← toNat_products256, Uint128.toNat_eq, Nat.mul_comm]
  have hproduct := @limbs_mul_mod (2 ^ 64) (fun i => (limbs256 x i).toNat)
    (fun i => (limbs256 y i).toNat) _ _ hcolumns
  rw [limbs_limbs256, limbs_limbs256, ← pow_mul, show 64 * 4 = 256 from rfl] at hproduct
  exact hproduct

/-- A column has two words. -/
theorem columns256_mod (x y : Uint256) (k : ℕ) : columns256 x y k % 2 ^ 128 = columns256 x y k := by
  have h := @column_lt _ _ (2 ^ 64) (fun i j => (products256 x y i j).upper.toNat_lt)
    (fun i j => (products256 x y i j).lower.toNat_lt) k
  exact Nat.mod_eq_of_lt (h.trans (by norm_num))

/-- The column `third64`. -/
theorem toNat_third64_sum (x y : Uint256) :
    (add128 (word128 (products256 x y 1 3).lower)
      (add128 (word128 (products256 x y 0 2).lower)
        (word128 (products256 x y 0 3).upper))).toNat = columns256 x y 2 := by
  rw [← columns256_mod, columns256, column]
  simp only [toNat_add128, toNat_word128, Nat.add_mod_mod]
  refine congrArg (· % 2 ^ 128) ?_
  ring

/-- The column `second64`. -/
theorem toNat_second64_sum (x y : Uint256) :
    (add128 (word128 (products256 x y 2 3).lower)
      (add128 (word128 (products256 x y 1 3).upper)
        (add128 (word128 (products256 x y 1 2).lower)
          (add128 (word128 (products256 x y 0 1).lower)
            (word128 (products256 x y 0 2).upper))))).toNat = columns256 x y 1 := by
  rw [← columns256_mod, columns256, column]
  simp only [toNat_add128, toNat_word128, Nat.add_mod_mod]
  refine congrArg (· % 2 ^ 128) ?_
  ring

/-- The column `first64`. -/
theorem toNat_first64_sum (x y : Uint256) :
    (add128 (word128 (products256 x y 3 3).lower)
      (add128 (word128 (products256 x y 2 3).upper)
        (add128 (word128 (products256 x y 2 2).lower)
          (add128 (word128 (products256 x y 1 2).upper)
            (add128 (word128 (products256 x y 1 1).lower)
              (add128 (word128 (products256 x y 0 0).lower)
                (word128 (products256 x y 0 1).upper))))))).toNat = columns256 x y 0 := by
  rw [← columns256_mod, columns256, column]
  · simp only [toNat_add128, toNat_word128, Nat.add_mod_mod]
    refine congrArg (· % 2 ^ 128) ?_
    ring
  all_goals omega

/-- **What `mul256` stores**, by its columns. -/
theorem toNat_mul256_columns (x y : Uint256) :
    (mul256 x y).toNat =
      (columns256 x y 0 * 2 ^ 192 + columns256 x y 1 * 2 ^ 128 +
        columns256 x y 2 % 2 ^ 64 * 2 ^ 64 + thirdCarry x y * 2 ^ 192 + columns256 x y 3) %
        2 ^ 256 := by
  rw [mul256, toNat_columns256, toNat_first64_sum, toNat_second64_sum, toNat_third64_sum,
    toNat_word128, thirdCarry]
  rfl

/-- **`mul256` multiplies**, modulo `2 ^ 256`, but for the carry: it counts `2 ^ 192` each and not
`2 ^ 128`. -/
theorem toNat_mul256 (x y : Uint256) :
    ((mul256 x y).toNat + thirdCarry x y * 2 ^ 128) % 2 ^ 256 =
      (x.toNat * y.toNat + thirdCarry x y * 2 ^ 192) % 2 ^ 256 := by
  have hthird : columns256 x y 2 = columns256 x y 2 % 2 ^ 64 + thirdCarry x y * 2 ^ 64 := by
    rw [thirdCarry]
    omega
  rw [← Nat.mod_add_mod (x.toNat * y.toNat), mul_mod_columns256, toNat_mul256_columns,
    Nat.mod_add_mod, Nat.mod_add_mod]
  refine congrArg (· % 2 ^ 256) ?_
  unfold limbs
  generalize columns256 x y 2 % 2 ^ 64 = low at hthird ⊢
  rw [hthird]
  ring

/-- Without a carry it is the product. -/
theorem toNat_mul256_of_carry {x y : Uint256} (h : thirdCarry x y = 0) :
    (mul256 x y).toNat = x.toNat * y.toNat % 2 ^ 256 := by
  have hmul := toNat_mul256 x y
  rwa [h, Nat.zero_mul, Nat.zero_mul, Nat.add_zero, Nat.add_zero,
    Nat.mod_eq_of_lt (mul256 x y).toNat_lt] at hmul

/-- The sum of the three halves of products that have the weight `2 ^ 64`. -/
theorem columns256_two (x y : Uint256) :
    columns256 x y 2 = x.lower.lower.toNat * y.lower.upper.toNat % 2 ^ 64 +
      x.lower.lower.toNat * y.lower.lower.toNat / 2 ^ 64 +
      x.lower.upper.toNat * y.lower.lower.toNat % 2 ^ 64 := by
  have hhalves : ∀ i j, (products256 x y i j).upper.toNat =
        (limbs256 x (3 - i)).toNat * (limbs256 y j).toNat / 2 ^ 64 ∧
      (products256 x y i j).lower.toNat =
        (limbs256 x (3 - i)).toNat * (limbs256 y j).toNat % 2 ^ 64 := by
    intro i j
    have hlt := (products256 x y i j).lower.toNat_lt
    rw [← toNat_products256, Uint128.toNat_eq]
    omega
  rw [columns256, column, (hhalves 0 2).2, (hhalves 0 3).1, (hhalves 1 3).2]
  rfl

/-- With a carry it is another number. -/
theorem toNat_mul256_ne_of_carry {x y : Uint256} (h : thirdCarry x y ≠ 0) :
    (mul256 x y).toNat ≠ x.toNat * y.toNat % 2 ^ 256 := by
  intro heq
  have hmul := toNat_mul256 x y
  have hcarry : thirdCarry x y < 7 := by
    have := @column_lt _ _ (2 ^ 64) (fun i j => (products256 x y i j).upper.toNat_lt)
      (fun i j => (products256 x y i j).lower.toNat_lt) 2
    exact Nat.div_lt_of_lt_mul (this.trans_eq (Nat.mul_comm _ _))
  rw [heq, Nat.mod_add_mod] at hmul
  have hcongr : thirdCarry x y * 2 ^ 128 ≡ thirdCarry x y * 2 ^ 192 [MOD 2 ^ 256] :=
    Nat.ModEq.add_left_cancel' _ hmul
  have hlt : ∀ k ≤ 192, thirdCarry x y * 2 ^ k < 2 ^ 256 := by
    intro k hk
    calc thirdCarry x y * 2 ^ k < 7 * 2 ^ k := Nat.mul_lt_mul_of_pos_right hcarry (by positivity)
      _ ≤ 7 * 2 ^ 192 := Nat.mul_le_mul_left _ (Nat.pow_le_pow_right (by norm_num) hk)
      _ ≤ 2 ^ 256 := by norm_num
  have hpow := Nat.eq_of_mul_eq_mul_left (Nat.pos_of_ne_zero h)
    (hcongr.eq_of_lt_of_lt (hlt 128 (by norm_num)) (hlt 192 (by norm_num)))
  exact absurd (Nat.pow_right_injective (le_refl 2) hpow) (by norm_num)

/-- **When `mul256` multiplies**: exactly when the three halves of products that have the weight
`2 ^ 64` add up to a word. -/
theorem toNat_mul256_iff (x y : Uint256) :
    (mul256 x y).toNat = x.toNat * y.toNat % 2 ^ 256 ↔
      x.lower.lower.toNat * y.lower.upper.toNat % 2 ^ 64 +
          x.lower.lower.toNat * y.lower.lower.toNat / 2 ^ 64 +
          x.lower.upper.toNat * y.lower.lower.toNat % 2 ^ 64 < 2 ^ 64 := by
  rw [← columns256_two]
  constructor
  · intro hmul
    have hzero : thirdCarry x y = 0 := by
      by_contra hne
      exact toNat_mul256_ne_of_carry hne hmul
    exact (Nat.div_eq_zero_iff_lt (by norm_num)).mp hzero
  · intro hlt
    exact toNat_mul256_of_carry (Nat.div_eq_of_lt hlt)

/-- `(2 ^ 128 - 1) * (2 ^ 64 + 2)`: the words of weight `2 ^ 64` have a carry. -/
theorem toNat_mul256_carry :
    let x : Uint256 := ⟨⟨0, 0⟩, ⟨0xffffffffffffffff, 0xffffffffffffffff⟩⟩
    let y : Uint256 := ⟨⟨0, 0⟩, ⟨1, 2⟩⟩
    x.toNat = 2 ^ 128 - 1 ∧ y.toNat = 2 ^ 64 + 2 ∧
      (mul256 x y).toNat ≠ x.toNat * y.toNat % 2 ^ 256 := by
  intro x y
  have hword : UInt64.toNat 0xffffffffffffffff = 0xffffffffffffffff := rfl
  have hone : UInt64.toNat 1 = 1 := rfl
  have htwo : UInt64.toNat 2 = 2 := rfl
  refine ⟨?_, ?_, ?_⟩
  · norm_num [x, Uint256.toNat, Uint128.toNat, hword]
  · norm_num [y, Uint256.toNat, Uint128.toNat, hone, htwo]
  · apply toNat_mul256_ne_of_carry
    rw [thirdCarry, columns256_two]
    norm_num [x, y, hword, hone, htwo]

/-- **Two words multiply to two words.** -/
theorem toNat_mul256_set256Uint64 (a b : UInt64) :
    (mul256 (set256Uint64 a) (set256Uint64 b)).toNat = a.toNat * b.toNat := by
  have h02 : (products256 (set256Uint64 a) (set256Uint64 b) 0 2).toNat = 0 :=
    (toNat_products256 _ _ 0 2).trans (Nat.mul_zero _)
  have h13 : (products256 (set256Uint64 a) (set256Uint64 b) 1 3).toNat = 0 :=
    (toNat_products256 _ _ 1 3).trans (Nat.zero_mul _)
  rw [Uint128.toNat_eq] at h02 h13
  have hcarry : thirdCarry (set256Uint64 a) (set256Uint64 b) = 0 := by
    have hupper := (products256 (set256Uint64 a) (set256Uint64 b) 0 3).upper.toNat_lt
    rw [thirdCarry, columns256, column]
    omega
  have hlt := Nat.mul_lt_mul'' a.toNat_lt b.toNat_lt
  rw [toNat_mul256_of_carry hcarry, toNat_set256Uint64, toNat_set256Uint64,
    Nat.mod_eq_of_lt (hlt.trans (by norm_num))]

end AnylWallet.Helpers
