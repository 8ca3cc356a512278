import Mathlib.Logic.Function.Basic
import AnylWallet.Helpers.Uint256Arith

/-!
# `helpers/uint256`: division on objects

* `divmod256At` is `divmod256` on objects at addresses: the operands are read where they stand, and
  the results are stored in the order of the source. `retDiv` may be the object `l`, as it is in
  `tostring256`, and either result may be the object `r`.
* It is `none` while the loop has not ended. **It ends** within 258 rounds, and stores the pair
  `divmod256` of the values before (`divmod256At_eq`), which is a division with remainder
  (`divmod256At_spec`). Division by zero never ends (`divmod256At_zero`).
-/

namespace AnylWallet.Helpers

/-! ## The objects -/

/-- `divmod256` on the objects `mem`, named by their addresses; `none` when the loop has not ended
after `fuel` tests. Source: `helpers/uint256.c` -/
def divmod256At (fuel : ℕ) (mem : ℕ → Uint256) (l r retDiv retMod : ℕ) : Option (ℕ → Uint256) :=
  if gt256 (mem r) (mem l) = true then
    let mem := Function.update mem retMod (mem l)
    some (Function.update mem retDiv clear256)
  else
    (divmodWhile (mem r) fuel (divmodStart (mem l) (mem r))).map fun s =>
      Function.update (Function.update mem retDiv s.resDiv) retMod s.resMod

/-- **The objects after `divmod256`** hold its pair, and the others are unchanged. -/
theorem divmod256At_eq (mem : ℕ → Uint256) {l r retDiv retMod : ℕ} (hr : (mem r).toNat ≠ 0)
    (hret : retDiv ≠ retMod) {fuel : ℕ} (hfuel : 258 ≤ fuel) :
    divmod256At fuel mem l r retDiv retMod =
      some (Function.update (Function.update mem retDiv (divmod256 (mem l) (mem r)).1) retMod
        (divmod256 (mem l) (mem r)).2) := by
  obtain ⟨k, rfl⟩ := Nat.exists_eq_add_of_le hfuel
  unfold divmod256At
  by_cases hgt : gt256 (mem r) (mem l) = true
  · unfold divmod256
    simp only [hgt, if_true]
    rw [Function.update_comm hret]
  · obtain ⟨s, hs, hvalues, -⟩ := divmod256_while hr hgt
    simp only [hgt, Bool.false_eq_true, if_false, hvalues]
    rw [divmodWhile_mono hs k, Option.map_some]

/-- With a zero divisor the condition of the loop never fails. -/
theorem divmodWhile_zero {r : Uint256} (h : r.toNat = 0) (fuel : ℕ) (s : DivmodLocals) :
    divmodWhile r fuel s = none := by
  induction fuel generalizing s with
  | zero => rfl
  | succ fuel ih =>
      have hge : gte256 s.resMod r = true := by
        rw [gte256_iff, h]
        exact Nat.zero_le _
      rw [divmodWhile, if_pos hge]
      exact ih _

/-- **Division by zero never ends.** -/
theorem divmod256At_zero (fuel : ℕ) (mem : ℕ → Uint256) {l r : ℕ} (retDiv retMod : ℕ)
    (h : (mem r).toNat = 0) : divmod256At fuel mem l r retDiv retMod = none := by
  have hgt : ¬ gt256 (mem r) (mem l) = true := by
    rw [gt256_iff, h]
    exact Nat.not_lt_zero _
  unfold divmod256At
  rw [if_neg hgt]
  simp only [divmodWhile_zero h, Option.map_none]

/-- **`divmod256` divides, also in place**: for a divisor other than zero it ends and stores `q` and
`m` with `l = q * r + m` and `m < r`; every other object is as before. -/
theorem divmod256At_spec (mem : ℕ → Uint256) {l r retDiv retMod : ℕ} (hr : (mem r).toNat ≠ 0)
    (hret : retDiv ≠ retMod) :
    ∃ mem', (∀ fuel, 258 ≤ fuel → divmod256At fuel mem l r retDiv retMod = some mem') ∧
      (mem l).toNat = (mem' retDiv).toNat * (mem r).toNat + (mem' retMod).toNat ∧
      (mem' retMod).toNat < (mem r).toNat ∧
      ∀ o, o ≠ retDiv → o ≠ retMod → mem' o = mem o := by
  obtain ⟨hdiv, hmod⟩ := divmod256_eq (mem l) hr
  refine ⟨_, fun fuel hfuel => divmod256At_eq mem hr hret hfuel, ?_, ?_, ?_⟩
  · rw [Function.update_self, Function.update_of_ne hret, Function.update_self, hdiv, hmod]
    exact (Nat.div_add_mod' _ _).symm
  · rw [Function.update_self, hmod]
    exact Nat.mod_lt _ (Nat.pos_of_ne_zero hr)
  · intro o hdiv hmod
    rw [Function.update_of_ne hmod, Function.update_of_ne hdiv]

/-- A digit of `tostring256`: the object 0 is divided by 10 in place, its last digit is stored in
the object 2. -/
theorem divmod256At_in_place :
    ∃ mem', (∀ fuel, 258 ≤ fuel →
        divmod256At fuel (fun o => set256Uint64 (if o = 0 then 1234 else 10)) 0 1 0 2 =
          some mem') ∧
      1234 = (mem' 0).toNat * 10 + (mem' 2).toNat ∧ (mem' 2).toNat < 10 := by
  obtain ⟨mem', hrun, hsum, hlt, -⟩ :=
    @divmod256At_spec (fun o => set256Uint64 (if o = 0 then 1234 else 10)) 0 1 0 2
      (by rw [toNat_set256Uint64]; decide) (by decide)
  simp only [toNat_set256Uint64] at hsum hlt
  exact ⟨mem', hrun, hsum, hlt⟩

end AnylWallet.Helpers
