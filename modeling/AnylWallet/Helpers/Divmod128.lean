import AnylWallet.Helpers.TostringNumeral

/-!
# `helpers/uint256`: the functions of two words

* `bits128`, `gte128`, `divmod128At` and `tostring128At` are the siblings of the functions of four
  words. `widen` takes a `uint128_t` for the `uint256_t` of the same number.
* `divmod128At_widen`: **`divmod128` simulates `divmod256`**. On any objects, with any number of rounds
  and any of the objects in common, it ends where that function ends, with the same numbers. So it
  divides (`divmod128At_spec`), and `tostring128` prints what `tostring256` prints
  (`tostring128At_widen`).
-/

namespace AnylWallet.Helpers

open AnylWallet.Lib

/-! ## The code -/

/-- `while (up) { up >>= 1; result++; }`; after as many rounds as there are bits every word is zero. -/
def bitsWhile : ℕ → UInt64 → ℕ → ℕ
  | 0, _, result => result
  | fuel + 1, up, result => if up = 0 then result else bitsWhile fuel (up >>> 1) (result + 1)

/-- `bits128`. Source: `helpers/uint256.c` -/
def bits128 (number : Uint128) : ℕ :=
  if number.upper ≠ 0 then bitsWhile 64 number.upper 64 else bitsWhile 64 number.lower 0

/-- `gte128`. Source: `helpers/uint256.c` -/
def gte128 (number1 number2 : Uint128) : Bool := gt128 number1 number2 || equal128 number1 number2

/-- The local variables of `divmod128` in its loop. -/
structure Divmod128Locals where
  /-- The divisor, shifted. -/
  copyd : Uint128
  /-- The bit of the quotient that `copyd` stands for. -/
  adder : Uint128
  /-- The quotient so far. -/
  resDiv : Uint128
  /-- What is left to divide. -/
  resMod : Uint128

/-- The body of the loop. -/
def divmod128Round (s : Divmod128Locals) : Divmod128Locals :=
  let s :=
    if gte128 s.resMod s.copyd = true then
      { s with resMod := minus128 s.resMod s.copyd, resDiv := or128 s.resDiv s.adder }
    else s
  { s with copyd := shiftr128 s.copyd 1, adder := shiftr128 s.adder 1 }

/-- `while (gte128(&resMod, r))`, with `fuel` tests of the condition left. -/
def divmod128While (r : Uint128) : ℕ → Divmod128Locals → Option Divmod128Locals
  | 0, _ => none
  | fuel + 1, s =>
      if gte128 s.resMod r = true then divmod128While r fuel (divmod128Round s) else some s

/-- `divmod128` on the objects `mem`, named by their addresses; `none` when the loop has not ended
after `fuel` tests. Source: `helpers/uint256.c` -/
def divmod128At (fuel : ℕ) (mem : ℕ → Uint128) (l r retDiv retMod : ℕ) : Option (ℕ → Uint128) :=
  let one : Uint128 := ⟨0, 1⟩
  -- a `uint32_t`
  let diffBits := (2 ^ 32 - bits128 (mem r) + bits128 (mem l)) % 2 ^ 32
  let resMod := mem l
  if gt128 (mem r) (mem l) = true then
    let mem := Function.update mem retMod (mem l)
    some (Function.update mem retDiv clear128)
  else
    let copyd := shiftl128 (mem r) diffBits
    let adder := shiftl128 one diffBits
    let (copyd, adder) :=
      if gt128 copyd resMod = true then (shiftr128 copyd 1, shiftr128 adder 1) else (copyd, adder)
    (divmod128While (mem r) fuel ⟨copyd, adder, clear128, resMod⟩).map fun s =>
      Function.update (Function.update mem retDiv s.resDiv) retMod s.resMod

/-- The do-while loop of `tostring128`, with `fuel` rounds left; `mem` holds `rDiv`, `base` and `rMod`
at 0, 1 and 2. `divFuel` bounds the loop of each division. -/
def tostring128While (divFuel out last : ℕ) :
    ℕ → (ℕ → Uint128) → Region → ℕ → Option (Region × Option ℕ)
  | 0, _, _, _ => none
  | fuel + 1, mem, m, offset =>
      if offset > last then some (m, none)
      else
        match divmod128At divFuel mem 0 1 0 2 with
        | none => none
        | some mem =>
            let m := m.store (out + offset) [hexdigits.getD (mem 2).lower.toUInt8.toNat 0]
            if zero128 (mem 0) = true then some (m, some (offset + 1))
            else tostring128While divFuel out last fuel mem m (offset + 1)

/-- `tostring128` on its local objects; `none` when a loop has not ended after `fuel` rounds.
Source: `helpers/uint256.c` -/
def tostring128At (fuel : ℕ) (number : Uint128) (baseParam : ℕ) (m : Region) (out outLength : ℕ) :
    Option (Region × Bool) :=
  let mem : ℕ → Uint128 := fun o =>
    if o = 0 then number else if o = 1 then ⟨0, UInt64.ofNat baseParam⟩ else clear128
  let last := (2 ^ 32 - 1 + outLength) % 2 ^ 32
  if baseParam < 2 ∨ baseParam > 16 then some (m, false)
  else
    match tostring128While fuel out last fuel mem m 0 with
    | none => none
    | some (m, none) => some (m, false)
    | some (m, some offset) => some (reverseString (m.store (out + offset) [0]) out offset, true)

/-! ## The size -/

/-- The size of a number of two words is that of the upper one and a word. -/
theorem size_words {upper lower w : ℕ} (hupper : upper ≠ 0) (hlower : lower < 2 ^ w) :
    Nat.size (upper * 2 ^ w + lower) = w + Nat.size upper := by
  have hdiv : (upper * 2 ^ w + lower) / 2 ^ w = upper := by
    rw [Nat.mul_comm, Nat.mul_add_div (Nat.two_pow_pos w), Nat.div_eq_of_lt hlower, Nat.add_zero]
  have hle : ∀ k, Nat.size (upper * 2 ^ w + lower) ≤ w + k ↔ Nat.size upper ≤ k := by
    intro k
    rw [Nat.size_le, Nat.size_le, pow_add, Nat.mul_comm (2 ^ w),
      ← Nat.div_lt_iff_lt_mul (Nat.two_pow_pos w), hdiv]
  have hpos : w < Nat.size (upper * 2 ^ w + lower) := by
    apply Nat.lt_size.mpr
    have := Nat.le_mul_of_pos_left (2 ^ w) (Nat.pos_of_ne_zero hupper)
    omega
  have hupper := hle (Nat.size upper)
  have hboth := hle (Nat.size (upper * 2 ^ w + lower) - w)
  omega

/-- The loop counts the bits of a word. -/
theorem bitsWhile_eq {fuel : ℕ} {up : UInt64} (h : Nat.size up.toNat ≤ fuel) (result : ℕ) :
    bitsWhile fuel up result = result + Nat.size up.toNat := by
  induction fuel generalizing up result with
  | zero =>
      rw [Nat.le_zero.mp h]
      rfl
  | succ fuel ih =>
      rw [bitsWhile]
      split
      · rename_i hz
        rw [hz, UInt64.toNat_zero, Nat.size_zero, Nat.add_zero]
      · rename_i hz
        have hne : up.toNat ≠ 0 := fun h => hz (UInt64.toNat_inj.mp h)
        have hsize := size_half hne
        have hshift : (up >>> 1).toNat = up.toNat / 2 := by
          rw [UInt64.toNat_shiftRight, UInt64.toNat_one, Nat.shiftRight_eq_div_pow]
        rw [ih (by rw [hshift]; omega), hshift, hsize]
        omega

/-- **`bits128` is the size of the number in bits.** -/
theorem bits128_eq (number : Uint128) : bits128 number = Nat.size number.toNat := by
  have hsize : ∀ w : UInt64, Nat.size w.toNat ≤ 64 := fun w => Nat.size_le.mpr w.toNat_lt
  unfold bits128
  by_cases hz : number.upper = 0
  · rw [if_neg (not_not.mpr hz), bitsWhile_eq (hsize _), Uint128.toNat_eq, hz, UInt64.toNat_zero,
      Nat.zero_mul, Nat.zero_add, Nat.zero_add]
  · rw [if_pos hz, bitsWhile_eq (hsize _), Uint128.toNat_eq]
    have hne : number.upper.toNat ≠ 0 := fun h => hz (UInt64.toNat_inj.mp h)
    exact (size_words hne number.lower.toNat_lt).symm

/-! ## The numbers of two words among those of four -/

/-- The `uint256_t` of the same number. -/
def widen (x : Uint128) : Uint256 := ⟨clear128, x⟩

@[simp] theorem toNat_widen (x : Uint128) : (widen x).toNat = x.toNat := by
  rw [widen, Uint256.toNat_eq, toNat_clear128, Nat.zero_mul, Nat.zero_add]

/-- A number of two words that is a `uint256_t` is the one that is widened. -/
theorem eq_widen {x : Uint256} {y : Uint128} (h : x.toNat = y.toNat) : x = widen y :=
  Uint256.toNat_injective (h.trans (toNat_widen y).symm)

@[simp] theorem zero256_widen (x : Uint128) : zero256 (widen x) = zero128 x := by
  rw [Bool.eq_iff_iff, zero256_iff, zero128_iff, toNat_widen]

@[simp] theorem gt256_widen (x y : Uint128) : gt256 (widen x) (widen y) = gt128 x y := by
  rw [Bool.eq_iff_iff, gt256_iff, gt128_iff, toNat_widen, toNat_widen]

@[simp] theorem gte128_iff {x y : Uint128} : gte128 x y = true ↔ y.toNat ≤ x.toNat := by
  rw [gte128, Bool.or_eq_true, gt128_iff, equal128_iff]
  omega

@[simp] theorem gte256_widen (x y : Uint128) : gte256 (widen x) (widen y) = gte128 x y := by
  rw [Bool.eq_iff_iff, gte256_iff, gte128_iff, toNat_widen, toNat_widen]

@[simp] theorem bits256_widen (x : Uint128) : bits256 (widen x) = bits128 x := by
  rw [bits256_eq, bits128_eq, toNat_widen]

@[simp] theorem or256_widen (x y : Uint128) :
    or256 (widen x) (widen y) = widen (or128 x y) := by
  have hzero : or128 clear128 clear128 = clear128 := by decide
  rw [or256, widen, widen, hzero]
  rfl

@[simp] theorem shiftr256_widen (x : Uint128) (value : ℕ) :
    shiftr256 (widen x) value = widen (shiftr128 x value) := by
  apply eq_widen
  rw [toNat_shiftr256, toNat_shiftr128, toNat_widen]

/-- A shift to the left that loses no bit. -/
theorem shiftl256_widen {x : Uint128} {value : ℕ} (h : x.toNat * 2 ^ value < 2 ^ 128) :
    shiftl256 (widen x) value = widen (shiftl128 x value) := by
  apply eq_widen
  rw [toNat_shiftl256, toNat_shiftl128, toNat_widen, Nat.mod_eq_of_lt h, Nat.mod_eq_of_lt]
  exact h.trans (by decide)

/-- A difference that is not negative. -/
theorem minus256_widen {x y : Uint128} (h : y.toNat ≤ x.toNat) :
    minus256 (widen x) (widen y) = widen (minus128 x y) := by
  have hx := x.toNat_lt
  apply eq_widen
  rw [toNat_minus256 (by rwa [toNat_widen, toNat_widen]), toNat_minus128, toNat_widen, toNat_widen]
  omega

/-! ## The division -/

/-- The local variables of `divmod256` with the same numbers. -/
def Divmod128Locals.widen (s : Divmod128Locals) : DivmodLocals :=
  ⟨Helpers.widen s.copyd, Helpers.widen s.adder, Helpers.widen s.resDiv, Helpers.widen s.resMod⟩

/-- A round of the loop is one of `divmod256`. -/
theorem divmodRound_widen (s : Divmod128Locals) :
    divmodRound s.widen = (divmod128Round s).widen := by
  obtain ⟨copyd, adder, resDiv, resMod⟩ := s
  unfold divmodRound divmod128Round Divmod128Locals.widen
  dsimp only
  rw [gte256_widen]
  by_cases hsub : gte128 resMod copyd = true
  · rw [if_pos hsub, if_pos hsub]
    simp only [minus256_widen (gte128_iff.mp hsub), or256_widen, shiftr256_widen]
  · rw [if_neg hsub, if_neg hsub]
    simp only [shiftr256_widen]

/-- **The loop is that of `divmod256`**, round by round. -/
theorem divmodWhile_widen (r : Uint128) (fuel : ℕ) (s : Divmod128Locals) :
    divmodWhile (widen r) fuel s.widen =
      (divmod128While r fuel s).map Divmod128Locals.widen := by
  induction fuel generalizing s with
  | zero => rfl
  | succ fuel ih =>
      have hcond : gte256 s.widen.resMod (widen r) = gte128 s.resMod r := gte256_widen _ _
      rw [divmodWhile, divmod128While, hcond]
      by_cases hge : gte128 s.resMod r = true
      · rw [if_pos hge, if_pos hge, divmodRound_widen]
        exact ih _
      · rw [if_neg hge, if_neg hge]
        rfl

/-- The objects of `divmod256` with the same numbers. -/
def widenObjects (mem : ℕ → Uint128) : ℕ → Uint256 := fun o => widen (mem o)

/-- A store. -/
theorem widenObjects_update (mem : ℕ → Uint128) (o : ℕ) (x : Uint128) :
    widenObjects (Function.update mem o x) = Function.update (widenObjects mem) o (widen x) := by
  funext o'
  rw [widenObjects, Function.apply_update (fun _ => widen) mem o x o']
  rfl

/-- The shifts in front of the loop lose no bit. -/
theorem shiftl_fits {l r : Uint128} (hr : r.toNat ≠ 0) (hle : r.toNat ≤ l.toNat) :
    r.toNat * 2 ^ (Nat.size l.toNat - Nat.size r.toNat) < 2 ^ 128 ∧
      2 ^ (Nat.size l.toNat - Nat.size r.toNat) < 2 ^ 128 := by
  have hsize : Nat.size l.toNat ≤ 128 := Nat.size_le.mpr l.toNat_lt
  have hpow : 2 ^ Nat.size l.toNat ≤ 2 ^ 128 := Nat.pow_le_pow_right (by decide) hsize
  have hfit := (lt_shifted hr hle).2.trans_le hpow
  exact ⟨hfit, lt_of_le_of_lt (Nat.le_mul_of_pos_left _ (Nat.pos_of_ne_zero hr)) hfit⟩

/-- What is stored behind the loop. -/
theorem loop_stores (mem : ℕ → Uint128) (retDiv retMod : ℕ) {r : Uint128} {fuel : ℕ}
    {s : Divmod128Locals} {e : Option DivmodLocals}
    (h : e = (divmod128While r fuel s).map Divmod128Locals.widen) :
    (e.map fun s => Function.update (Function.update (widenObjects mem) retDiv s.resDiv) retMod
        s.resMod) =
      ((divmod128While r fuel s).map fun s =>
        Function.update (Function.update mem retDiv s.resDiv) retMod s.resMod).map
          widenObjects := by
  subst h
  rw [Option.map_map, Option.map_map]
  congr 1
  funext s
  simp only [Function.comp_apply, widenObjects_update, Divmod128Locals.widen]

/-- **`divmod128` simulates `divmod256`**: it ends where that function ends, on objects with the same
numbers. -/
theorem divmod128At_widen (fuel : ℕ) (mem : ℕ → Uint128) (l r retDiv retMod : ℕ) :
    divmod256At fuel (widenObjects mem) l r retDiv retMod =
      (divmod128At fuel mem l r retDiv retMod).map widenObjects := by
  have hl : widenObjects mem l = widen (mem l) := rfl
  have hr : widenObjects mem r = widen (mem r) := rfl
  have hclear : clear256 = widen clear128 := rfl
  have hone : set256Uint64 1 = widen ⟨0, 1⟩ := rfl
  by_cases hzero : (mem r).toNat = 0
  · -- neither ends, whatever has been shifted
    have hnone : ∀ s, divmod128While (mem r) fuel s = none := by
      intro s
      have hwide := divmodWhile_zero ((toNat_widen _).trans hzero) fuel s.widen
      rwa [divmodWhile_widen, Option.map_eq_none_iff] at hwide
    have hgt : ¬ gt128 (mem r) (mem l) = true := by
      rw [gt128_iff, hzero]
      exact Nat.not_lt_zero _
    rw [divmod256At_zero _ _ _ _ (by rw [hr, toNat_widen, hzero]), divmod128At]
    simp only [if_neg hgt, hnone, Option.map_none]
  unfold divmod256At divmodStart divmod128At
  simp only [hl, hr, gt256_widen, bits256_widen, hone, hclear]
  by_cases hgt : gt128 (mem r) (mem l) = true
  · simp only [if_pos hgt, Option.map_some, widenObjects_update]
  · have hle := Nat.le_of_not_lt (mt gt128_iff.mpr hgt)
    have hsize := Nat.size_le_size hle
    have hdiff : (2 ^ 32 - bits128 (mem r) + bits128 (mem l)) % 2 ^ 32 =
        Nat.size (mem l).toNat - Nat.size (mem r).toNat := by
      have : Nat.size (mem l).toNat ≤ 128 := Nat.size_le.mpr (mem l).toNat_lt
      rw [bits128_eq, bits128_eq]
      omega
    obtain ⟨hcopyd, hadder⟩ := shiftl_fits hzero hle
    have hbit : (⟨0, 1⟩ : Uint128).toNat * 2 ^ (Nat.size (mem l).toNat - Nat.size (mem r).toNat) <
        2 ^ 128 := by
      rwa [show (⟨0, 1⟩ : Uint128).toNat = 1 from rfl, Nat.one_mul]
    simp only [if_neg hgt, hdiff, shiftl256_widen hcopyd, shiftl256_widen hbit, gt256_widen]
    generalize shiftl128 (mem r) (Nat.size (mem l).toNat - Nat.size (mem r).toNat) = copyd
    generalize shiftl128 ⟨0, 1⟩ (Nat.size (mem l).toNat - Nat.size (mem r).toNat) = adder
    by_cases hover : gt128 copyd (mem l) = true
    · simp only [if_pos hover, shiftr256_widen]
      exact loop_stores mem retDiv retMod
        (divmodWhile_widen _ _ ⟨shiftr128 copyd 1, shiftr128 adder 1, clear128, mem l⟩)
    · simp only [if_neg hover]
      exact loop_stores mem retDiv retMod (divmodWhile_widen _ _ ⟨copyd, adder, clear128, mem l⟩)

/-- Objects are determined by their numbers. -/
theorem widenObjects_injective : Function.Injective widenObjects := by
  intro mem mem' h
  funext o
  apply Uint128.toNat_injective
  rw [← toNat_widen, ← toNat_widen]
  exact congrArg Uint256.toNat (congrFun h o)

/-- With a divisor other than zero it ends, with the pair of `divmod256`. -/
theorem divmod128At_ends (mem : ℕ → Uint128) (l : ℕ) {r retDiv retMod : ℕ} (hr : (mem r).toNat ≠ 0)
    (hret : retDiv ≠ retMod) :
    ∃ mem', (∀ fuel, 258 ≤ fuel → divmod128At fuel mem l r retDiv retMod = some mem') ∧
      widenObjects mem' =
        Function.update (Function.update (widenObjects mem) retDiv
          (divmod256 (widen (mem l)) (widen (mem r))).1) retMod
            (divmod256 (widen (mem l)) (widen (mem r))).2 := by
  have hr' : (widenObjects mem r).toNat ≠ 0 := by
    rwa [widenObjects, toNat_widen]
  generalize hobjects : Function.update (Function.update (widenObjects mem) retDiv
    (divmod256 (widen (mem l)) (widen (mem r))).1) retMod
      (divmod256 (widen (mem l)) (widen (mem r))).2 = objects
  have hend : ∀ fuel, 258 ≤ fuel →
      ∃ mem', divmod128At fuel mem l r retDiv retMod = some mem' ∧ widenObjects mem' = objects := by
    intro fuel hfuel
    have hwide := divmod128At_widen fuel mem l r retDiv retMod
    rw [divmod256At_eq _ hr' hret hfuel] at hwide
    exact Option.map_eq_some_iff.mp (hwide.symm.trans (congrArg some hobjects))
  obtain ⟨mem', -, hmem'⟩ := hend 258 le_rfl
  refine ⟨mem', ?_, hmem'⟩
  intro fuel hfuel
  obtain ⟨mem'', hrun, hmem''⟩ := hend fuel hfuel
  rw [hrun, widenObjects_injective (hmem''.trans hmem'.symm)]

/-- **`divmod128` divides, also in place**: with a divisor other than zero it ends and stores `q` and `m`
with `l = q * r + m` and `m < r`, and leaves every other object; by zero it never ends. -/
theorem divmod128At_spec (mem : ℕ → Uint128) (l r : ℕ) {retDiv retMod : ℕ} (hret : retDiv ≠ retMod) :
    ((mem r).toNat = 0 → ∀ fuel, divmod128At fuel mem l r retDiv retMod = none) ∧
      ((mem r).toNat ≠ 0 →
        ∃ mem', (∀ fuel, 258 ≤ fuel → divmod128At fuel mem l r retDiv retMod = some mem') ∧
          (mem l).toNat = (mem' retDiv).toNat * (mem r).toNat + (mem' retMod).toNat ∧
          (mem' retMod).toNat < (mem r).toNat ∧
          ∀ o, o ≠ retDiv → o ≠ retMod → mem' o = mem o) := by
  constructor
  · intro hr fuel
    have hnone : divmod256At fuel (widenObjects mem) l r retDiv retMod = none := by
      apply divmod256At_zero
      rwa [widenObjects, toNat_widen]
    rwa [divmod128At_widen, Option.map_eq_none_iff] at hnone
  · intro hr
    obtain ⟨mem', hrun, hobjects⟩ := divmod128At_ends mem l hr hret
    have hr' : (widen (mem r)).toNat ≠ 0 := by rwa [toNat_widen]
    obtain ⟨hdiv, hmod⟩ := divmod256_eq (widen (mem l)) hr'
    have hnumber : ∀ o, (mem' o).toNat = (widenObjects mem' o).toNat :=
      fun o => (toNat_widen (mem' o)).symm
    have hquotient : (mem' retDiv).toNat = (mem l).toNat / (mem r).toNat := by
      rw [hnumber, hobjects, Function.update_of_ne hret, Function.update_self, hdiv, toNat_widen,
        toNat_widen]
    have hremainder : (mem' retMod).toNat = (mem l).toNat % (mem r).toNat := by
      rw [hnumber, hobjects, Function.update_self, hmod, toNat_widen, toNat_widen]
    refine ⟨mem', hrun, ?_, ?_, ?_⟩
    · rw [hquotient, hremainder]
      exact (Nat.div_add_mod' _ _).symm
    · rw [hremainder]
      exact Nat.mod_lt _ (Nat.pos_of_ne_zero hr)
    · intro o hdiv hmod
      apply Uint128.toNat_injective
      rw [hnumber, hobjects, Function.update_of_ne hmod, Function.update_of_ne hdiv, widenObjects,
        toNat_widen]

/-- A digit of `tostring128`: the object 0 is divided by 10 in place. -/
theorem divmod128At_spec_in_place :
    ∃ mem', (∀ fuel, 258 ≤ fuel →
        divmod128At fuel (fun o => ⟨0, if o = 0 then 1234 else 10⟩) 0 1 0 2 = some mem') ∧
      1234 = (mem' 0).toNat * 10 + (mem' 2).toNat ∧ (mem' 2).toNat < 10 := by
  obtain ⟨-, hdivides⟩ := @divmod128At_spec (fun o => ⟨0, if o = 0 then 1234 else 10⟩) 0 1 0 2
    (by decide)
  obtain ⟨mem', hrun, hsum, hlt, -⟩ := hdivides (by decide)
  exact ⟨mem', hrun, hsum, hlt⟩

/-! ## Printing -/

/-- **The loop prints what that of `tostring256` does.** -/
theorem tostringWhile_widen (divFuel out last fuel : ℕ) (mem : ℕ → Uint128) (m : Region)
    (offset : ℕ) :
    tostringWhile divFuel out last fuel (widenObjects mem) m offset =
      tostring128While divFuel out last fuel mem m offset := by
  induction fuel generalizing mem m offset with
  | zero => rfl
  | succ fuel ih =>
      rw [tostringWhile, tostring128While]
      by_cases hroom : offset > last
      · rw [if_pos hroom, if_pos hroom]
      · rw [if_neg hroom, if_neg hroom, divmod128At_widen]
        cases divmod128At divFuel mem 0 1 0 2 with
        | none => rfl
        | some mem' =>
            have hlow : (widenObjects mem' 2).lower.lower = (mem' 2).lower := rfl
            have hzero : zero256 (widenObjects mem' 0) = zero128 (mem' 0) := zero256_widen _
            simp only [Option.map_some, hlow, hzero, ih]

/-- **`tostring128` prints what `tostring256` prints** of the same number: the bytes that it stores, and
what it returns, for every base and every room. -/
theorem tostring128At_widen (fuel : ℕ) (number : Uint128) (baseParam : ℕ) (m : Region)
    (out outLength : ℕ) :
    tostring128At fuel number baseParam m out outLength =
      tostring256At fuel (widen number) baseParam m out outLength := by
  have hobjects : (fun o => if o = 0 then widen number else
      if o = 1 then set256Uint64 (UInt64.ofNat baseParam) else clear256) =
        widenObjects fun o => if o = 0 then number else
          if o = 1 then ⟨0, UInt64.ofNat baseParam⟩ else clear128 := by
    funext o
    simp only [widenObjects]
    split_ifs <;> rfl
  rcases hrun : tostring128While fuel out ((2 ^ 32 - 1 + outLength) % 2 ^ 32) fuel
      (fun o => if o = 0 then number else
        if o = 1 then ⟨0, UInt64.ofNat baseParam⟩ else clear128) m 0 with
    _ | ⟨m', _ | offset⟩
  · simp only [tostring128At, tostring256At, hobjects, tostringWhile_widen, hrun]
  · simp only [tostring128At, tostring256At, hobjects, tostringWhile_widen, hrun]
  · simp only [tostring128At, tostring256At, hobjects, tostringWhile_widen, hrun]

end AnylWallet.Helpers
