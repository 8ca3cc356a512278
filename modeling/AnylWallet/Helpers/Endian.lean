import AnylWallet.Helpers.Uint256
import Mathlib.Tactic.IntervalCases

/-!
# Words in big-endian order on a little-endian target

`endianSwapU64` is the macro, mask by mask. In memory its value is the other way round
(`leBytes_endianSwapU64`), so a word that is swapped before it is stored lies there in big-endian
order.

`writeu256BE` stores the four words so; what it stores is the number in big-endian order
(`writeu256BE_eq`).
-/

namespace AnylWallet.Helpers

open AnylWallet.Lib

/-- `ENDIAN_SWAP_U64`. Source: `helpers/uint256.h` -/
def endianSwapU64 (val : UInt64) : UInt64 :=
  (val &&& 0x00000000000000ff) <<< 56 ||| (val &&& 0x000000000000ff00) <<< 40 |||
    (val &&& 0x0000000000ff0000) <<< 24 ||| (val &&& 0x00000000ff000000) <<< 8 |||
    (val &&& 0x000000ff00000000) >>> 8 ||| (val &&& 0x0000ff0000000000) >>> 24 |||
    (val &&& 0x00ff000000000000) >>> 40 ||| (val &&& 0xff00000000000000) >>> 56

section

variable (val : UInt64) {mask shift : UInt64} {i d j k : ℕ} (hmask : mask.toNat = 255 <<< (8 * i))
  (hshift : shift.toNat = 8 * d) (hj : j < 8)

include hmask hshift hj

/-- A byte that is moved to the left. -/
theorem testBit_byte_shiftLeft (hd : i + d < 8) (hk : k < 8) :
    ((val &&& mask) <<< shift).toNat.testBit (j + 8 * k) =
      (decide (k = i + d) && val.toNat.testBit (j + 8 * i)) := by
  rw [UInt64.toNat_shiftLeft, hshift, Nat.mod_eq_of_lt (show 8 * d < 64 by omega),
    Nat.testBit_mod_two_pow, decide_eq_true (show j + 8 * k < 64 by omega), Bool.true_and,
    Nat.testBit_shiftLeft, UInt64.toNat_and, hmask]
  by_cases hle : d ≤ k
  · have hpos : j + 8 * k - 8 * d = j + 8 * (k - d) := by omega
    rw [decide_eq_true (by omega), Bool.true_and, hpos, testBit_and_byte _ _ hj]
    congr 1
    rw [decide_eq_decide]
    omega
  · rw [decide_eq_false (by omega), decide_eq_false (by omega), Bool.false_and, Bool.false_and]

/-- A byte that is moved to the right. -/
theorem testBit_byte_shiftRight (hd : d < 8) :
    ((val &&& mask) >>> shift).toNat.testBit (j + 8 * k) =
      (decide (k + d = i) && val.toNat.testBit (j + 8 * i)) := by
  have hpos : 8 * d + (j + 8 * k) = j + 8 * (k + d) := by omega
  rw [UInt64.toNat_shiftRight, hshift, Nat.mod_eq_of_lt (show 8 * d < 64 by omega),
    Nat.testBit_shiftRight, UInt64.toNat_and, hmask, hpos, testBit_and_byte _ _ hj]

end

/-- **A swapped word in memory** has its bytes in big-endian order. -/
theorem leBytes_endianSwapU64 (val : UInt64) :
    leBytes 8 (endianSwapU64 val).toNat = (leBytes 8 val.toNat).reverse := by
  apply leBytes_eq_reverse_of_testBit
  intro k hk j hj
  simp only [endianSwapU64, UInt64.toNat_or, Nat.testBit_or]
  rw [@testBit_byte_shiftLeft val 0xff 56 0 7 j k rfl rfl hj (by decide) hk,
    @testBit_byte_shiftLeft val 0xff00 40 1 5 j k rfl rfl hj (by decide) hk,
    @testBit_byte_shiftLeft val 0xff0000 24 2 3 j k rfl rfl hj (by decide) hk,
    @testBit_byte_shiftLeft val 0xff000000 8 3 1 j k rfl rfl hj (by decide) hk,
    @testBit_byte_shiftRight val 0xff00000000 8 4 1 j k rfl rfl hj (by decide),
    @testBit_byte_shiftRight val 0xff0000000000 24 5 3 j k rfl rfl hj (by decide),
    @testBit_byte_shiftRight val 0xff000000000000 40 6 5 j k rfl rfl hj (by decide),
    @testBit_byte_shiftRight val 0xff00000000000000 56 7 7 j k rfl rfl hj (by decide)]
  interval_cases k <;> simp

/-- A word swapped twice is the word. -/
@[simp] theorem endianSwapU64_endianSwapU64 (val : UInt64) :
    endianSwapU64 (endianSwapU64 val) = val := by
  have h := (leBytes_endianSwapU64 (endianSwapU64 val)).trans
    (congrArg List.reverse (leBytes_endianSwapU64 val))
  rw [List.reverse_reverse] at h
  have hlt : ∀ w : UInt64, w.toNat < 256 ^ 8 := fun w => lt_of_lt_of_eq w.toNat_lt (by norm_num)
  have hval := congrArg ofLE h
  rw [ofLE_leBytes (hlt _), ofLE_leBytes (hlt _)] at hval
  exact UInt64.toNat_inj.mp hval

/-- `writeu128BE`: the bytes stored at `buffer`. Source: `helpers/uint256.c` -/
def writeu128BE (number : Uint128) : List UInt8 :=
  leBytes 8 (endianSwapU64 number.upper).toNat ++ leBytes 8 (endianSwapU64 number.lower).toNat

/-- `writeu256BE`: the bytes stored at `buffer`. Source: `helpers/uint256.c` -/
def writeu256BE (number : Uint256) : List UInt8 :=
  writeu128BE number.upper ++ writeu128BE number.lower

/-- **`writeu256BE` stores the number in big-endian order.** -/
theorem writeu256BE_eq (number : Uint256) : writeu256BE number = number.beImage := by
  simp only [writeu256BE, writeu128BE, leBytes_endianSwapU64, Uint256.beImage, Uint256.words,
    List.flatMap_cons, List.flatMap_nil, List.append_nil, List.append_assoc]

end AnylWallet.Helpers
