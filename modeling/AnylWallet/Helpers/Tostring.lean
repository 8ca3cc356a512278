import AnylWallet.Helpers.Divmod256
import AnylWallet.Lib.Numeral
import AnylWallet.Lib.Region

/-!
# `helpers/uint256`: printing a number

* `tostring256` stores the digits one by one from the low end, then a NUL, and turns the digits
  round in place. `tostring256At` has its do-while loop and divides `rDiv` in place by `divmod256At`;
  it is `none` while one of the loops has not ended.
* **It ends** (`tostring256At_eq`), since there are at most 256 digits; `tostring256` is what it then
  stores and returns.
* **What it stores** (`tostring256_eq`): the numeral and a NUL, if the numeral has at most
  `outLength` digits; otherwise the lowest `outLength` digits, and it returns `false`. The NUL is not
  counted, and an `outLength` of `0` is taken for `2 ^ 32`.
-/

namespace AnylWallet.Helpers

open AnylWallet.Lib

/-- `HEXDIGITS`. Source: `helpers/uint256.c` -/
def hexdigits : List UInt8 := ascii "0123456789abcdef"

/-- The do-while loop of `tostring256`, with `fuel` rounds left: the number of digits stored at its
end, if it did not run out of room. `mem` holds `rDiv`, `base` and `rMod` at 0, 1 and 2, `last` is
`outLength - 1`, and `divFuel` bounds the loop of each division. -/
def tostringWhile (divFuel out last : ℕ) :
    ℕ → (ℕ → Uint256) → Region → ℕ → Option (Region × Option ℕ)
  | 0, _, _, _ => none
  | fuel + 1, mem, m, offset =>
      if offset > last then some (m, none)
      else
        match divmod256At divFuel mem 0 1 0 2 with
        | none => none
        | some mem =>
            let m := m.store (out + offset) [hexdigits.getD (mem 2).lower.lower.toUInt8.toNat 0]
            if zero256 (mem 0) = true then some (m, some (offset + 1))
            else tostringWhile divFuel out last fuel mem m (offset + 1)

/-- `reverseString`. Source: `helpers/uint256.c` -/
def reverseString (m : Region) (str length : ℕ) : Region :=
  m.store str (m.load str length).reverse

/-- `tostring256` on its local objects; `none` when a loop has not ended after `fuel` rounds.
`outLength` is a `uint32_t`, and so is `outLength - 1`. Source: `helpers/uint256.c` -/
def tostring256At (fuel : ℕ) (number : Uint256) (baseParam : ℕ) (m : Region)
    (out outLength : ℕ) : Option (Region × Bool) :=
  let mem : ℕ → Uint256 := fun o =>
    if o = 0 then number else if o = 1 then set256Uint64 (UInt64.ofNat baseParam) else clear256
  let last := (2 ^ 32 - 1 + outLength) % 2 ^ 32
  if baseParam < 2 ∨ baseParam > 16 then some (m, false)
  else
    match tostringWhile fuel out last fuel mem m 0 with
    | none => none
    | some (m, none) => some (m, false)
    | some (m, some offset) => some (reverseString (m.store (out + offset) [0]) out offset, true)

/-- What `tostring256` stores and returns when it ends, as it does within 258 rounds
(`tostring256At_eq`). -/
def tostring256 (number : Uint256) (baseParam : ℕ) (m : Region) (out outLength : ℕ) :
    Region × Bool :=
  (tostring256At 258 number baseParam m out outLength).getD (m, false)

/-- The room `tostring256` assumes for the digits. -/
def digitRoom (outLength : ℕ) : ℕ := (2 ^ 32 - 1 + outLength) % 2 ^ 32 + 1

/-- It is `outLength`, except for an `outLength` of `0`. -/
theorem digitRoom_eq {outLength : ℕ} (h0 : 0 < outLength) (h : outLength < 2 ^ 32) :
    digitRoom outLength = outLength := by
  unfold digitRoom
  omega

/-- An `outLength` of `0` wraps. -/
theorem digitRoom_zero : digitRoom 0 = 2 ^ 32 := by
  unfold digitRoom
  omega

/-- The table holds the digits. -/
theorem hexdigits_getD {d : ℕ} (h : d < 16) : hexdigits.getD d 0 = digit d := by
  revert d
  decide

/-- The character stored in one round is the lowest digit. -/
theorem hexdigits_divmod256 {base : Uint256} {b : ℕ} (hbase : base.toNat = b) (hb : 1 < b)
    (hb16 : b ≤ 16) (rDiv : Uint256) :
    hexdigits.getD (divmod256 rDiv base).2.lower.lower.toUInt8.toNat 0 =
      digit (rDiv.toNat % b) := by
  have hmod := (divmod256_eq rDiv (r := base) (by omega)).2
  have hlt16 : rDiv.toNat % b < 16 := lt_of_lt_of_le (Nat.mod_lt _ (by omega)) hb16
  have hlow : (divmod256 rDiv base).2.lower.lower.toUInt8.toNat = rDiv.toNat % b := by
    rw [hbase] at hmod
    rw [← hmod, UInt64.toNat_toUInt8]
    rw [← hmod] at hlt16
    simp only [Uint256.toNat_eq, Uint128.toNat_eq] at hlt16 ⊢
    omega
  rw [hlow, hexdigits_getD hlt16]

/-- **The loop ends, with the digits**: all of them are stored if there is room, otherwise as many as
there is room for. -/
theorem tostringWhile_eq {b divFuel : ℕ} (hb : 1 < b) (hb16 : b ≤ 16) (hdivs : 258 ≤ divFuel)
    (out last : ℕ) {fuel : ℕ} {mem : ℕ → Uint256} (hbase : (mem 1).toNat = b) (m : Region)
    {offset : ℕ} (hfuel : (numeral b (mem 0).toNat).length ≤ fuel) (hoff : offset ≤ last + 1) :
    tostringWhile divFuel out last fuel mem m offset =
      some (if offset + (numeral b (mem 0).toNat).length ≤ last + 1 then
        (m.store (out + offset) (lowNumeral b (mem 0).toNat),
          some (offset + (numeral b (mem 0).toNat).length))
      else
        (m.store (out + offset) ((lowNumeral b (mem 0).toNat).take (last + 1 - offset)), none)) := by
  induction fuel generalizing mem m offset with
  | zero => exact absurd hfuel (Nat.not_le.mpr (length_numeral_pos _ _))
  | succ fuel ih =>
      have hpos := length_numeral_pos b (mem 0).toNat
      have hr : (mem 1).toNat ≠ 0 := by omega
      rw [tostringWhile]
      by_cases hroom : offset > last
      · have heq : offset = last + 1 := by omega
        rw [if_pos hroom, if_neg (by omega), heq, Nat.sub_self, List.take_zero, Region.store_nil]
      · have hdiv := (divmod256_eq (mem 0) hr).1
        have hlow := lowNumeral_eq hb (mem 0).toNat
        have hlen := length_lowNumeral b (mem 0).toNat
        rw [hbase] at hdiv
        rw [if_neg hroom, divmod256At_eq mem hr (by decide) hdivs]
        set mem' := Function.update (Function.update mem 0
          (divmod256 (mem 0) (mem 1)).1) 2 (divmod256 (mem 0) (mem 1)).2
        have h0 : mem' 0 = (divmod256 (mem 0) (mem 1)).1 := rfl
        have h1 : mem' 1 = mem 1 := rfl
        have h2 : mem' 2 = (divmod256 (mem 0) (mem 1)).2 := rfl
        simp only [h0, h2, hexdigits_divmod256 hbase hb hb16, zero256_iff, hdiv]
        by_cases hz : (mem 0).toNat / b = 0
        · rw [if_pos hz] at hlow
          rw [hlow, List.length_singleton] at hlen
          rw [if_pos hz, hlow, ← hlen, if_pos (by omega)]
        · rw [if_neg hz] at hlow
          rw [hlow, List.length_cons, length_lowNumeral] at hlen
          have hstep := @ih mem' (h1 ▸ hbase) (m.store (out + offset) [digit ((mem 0).toNat % b)])
            (offset + 1) (by rw [h0, hdiv]; omega) (by omega)
          have hstore : ∀ bs, (m.store (out + offset) [digit ((mem 0).toNat % b)]).store
              (out + (offset + 1)) bs =
                m.store (out + offset) (digit ((mem 0).toNat % b) :: bs) :=
            fun bs => m.store_append (out + offset) [_] bs
          have htake : last + 1 - offset = last + 1 - (offset + 1) + 1 := by omega
          rw [h0, hdiv] at hstep
          rw [if_neg hz, hstep, hlow, ← hlen, hstore, hstore, htake, List.take_succ_cons,
            Nat.add_assoc offset 1, Nat.add_comm 1]

/-- The digits, the NUL behind them, and the digits turned round. -/
theorem reverseString_store (m : Region) (out : ℕ) (ds : List UInt8) :
    reverseString ((m.store out ds).store (out + ds.length) [0]) out ds.length =
      m.store out (ds.reverse ++ [0]) := by
  have hload : ((m.store out ds).store (out + ds.length) [0]).load out ds.length = ds := by
    rw [Region.load_store_of_disjoint (Or.inl (Nat.le_refl _)), Region.load_store]
  have hbefore := (m.store out ds).store_before out ds.reverse [0]
  rw [List.length_reverse] at hbefore
  rw [reverseString, hload, hbefore, Region.store_store_of_subset _ (Nat.le_refl _) (by simp)]

/-- The base as a number. -/
theorem toNat_base {b : ℕ} (hb16 : b ≤ 16) : (set256Uint64 (UInt64.ofNat b)).toNat = b := by
  rw [toNat_set256Uint64, UInt64.toNat_ofNat']
  omega

/-- There are no more than 256 digits. -/
theorem length_numeral_toNat {b : ℕ} (hb : 1 < b) (number : Uint256) :
    (numeral b number.toNat).length ≤ 256 := by
  apply length_numeral_le hb (by decide)
  exact lt_of_lt_of_le number.toNat_lt (Nat.pow_le_pow_left hb 256)

/-- **`tostring256` ends, and what it stores.** -/
theorem tostring256At_stores (number : Uint256) {b : ℕ} (hb : 1 < b) (hb16 : b ≤ 16) (m : Region)
    (out outLength : ℕ) {fuel : ℕ} (hfuel : 258 ≤ fuel) :
    tostring256At fuel number b m out outLength =
      some (if (numeral b number.toNat).length ≤ digitRoom outLength then
        (m.store out (numeral b number.toNat ++ [0]), true)
      else (m.store out ((lowNumeral b number.toNat).take (digitRoom outLength)), false)) := by
  have hlen := length_numeral_toNat hb number
  have hloop := @tostringWhile_eq b fuel hb hb16 hfuel out ((2 ^ 32 - 1 + outLength) % 2 ^ 32) fuel
    (fun o => if o = 0 then number else
      if o = 1 then set256Uint64 (UInt64.ofNat b) else clear256) (toNat_base hb16) m 0
    (by simpa using by omega) (Nat.zero_le _)
  have hrev := reverseString_store m out (lowNumeral b number.toNat)
  rw [length_lowNumeral, reverse_lowNumeral] at hrev
  simp only [Nat.zero_add, Nat.add_zero, Nat.sub_zero, if_true] at hloop
  unfold tostring256At digitRoom
  rw [if_neg (by omega)]
  simp only [hloop]
  by_cases hroom : (numeral b number.toNat).length ≤ (2 ^ 32 - 1 + outLength) % 2 ^ 32 + 1
  · simp only [if_pos hroom, hrev]
  · simp only [if_neg hroom]

/-- **What `tostring256` stores.** -/
theorem tostring256_eq (number : Uint256) {b : ℕ} (hb : 1 < b) (hb16 : b ≤ 16) (m : Region)
    (out outLength : ℕ) :
    tostring256 number b m out outLength =
      if (numeral b number.toNat).length ≤ digitRoom outLength then
        (m.store out (numeral b number.toNat ++ [0]), true)
      else (m.store out ((lowNumeral b number.toNat).take (digitRoom outLength)), false) := by
  rw [tostring256, tostring256At_stores number hb hb16 m out outLength le_rfl, Option.getD_some]

/-- **With more rounds it ends alike.** -/
theorem tostring256At_eq (number : Uint256) {b : ℕ} (hb : 1 < b) (hb16 : b ≤ 16) (m : Region)
    (out outLength : ℕ) {fuel : ℕ} (hfuel : 258 ≤ fuel) :
    tostring256At fuel number b m out outLength =
      some (tostring256 number b m out outLength) := by
  rw [tostring256At_stores number hb hb16 m out outLength hfuel, tostring256_eq number hb hb16]

end AnylWallet.Helpers
