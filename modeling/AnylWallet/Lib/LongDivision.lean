import Mathlib.Data.Nat.Digits.Defs
import Mathlib.Data.Nat.Digits.Lemmas
import Mathlib.Data.Rat.Cast.Order
import Mathlib.Tactic.FieldSimp
import Mathlib.Tactic.Ring

/-!
# Fractions by long division

* `longDivision b n k r` is the digits of `r / n` in base `b` behind the point: multiply the remainder
  by the base, note the quotient, go on with the new remainder. It stops when nothing is left, or after
  `k` digits.
* `Expansion b q ds x`: the number `q.ds` is `x`, and its last digit is not a zero. Long division that
  comes to an end finds one (`expansion_longDivision`), and there is only one (`Expansion.unique`).
-/

namespace AnylWallet.Lib

/-- The digits of `r / n` behind the point, at most `k` of them. -/
def longDivision (b n : ℕ) : ℕ → ℕ → List ℕ
  | 0, _ => []
  | k + 1, r => if r = 0 then [] else r * b / n :: longDivision b n k (r * b % n)

/-- The number with the whole part `q` and the digits `ds` behind the point is `x`; the last digit is
not a zero. -/
structure Expansion (b q : ℕ) (ds : List ℕ) (x : ℚ) : Prop where
  lt : ∀ d ∈ ds, d < b
  last : ds.getLast? ≠ some 0
  value : (q : ℚ) + Nat.ofDigits b ds.reverse / b ^ ds.length = x

section

variable {b n k r : ℕ}

@[simp] theorem longDivision_zero (b n k : ℕ) : longDivision b n k 0 = [] := by
  cases k with
  | zero => rfl
  | succ k => exact if_pos rfl

/-- The remainder after one more round. -/
theorem mod_next (r b n k : ℕ) : r * b % n * b ^ k % n = r * b ^ (k + 1) % n := by
  rw [Nat.mod_mul_mod, pow_succ', Nat.mul_assoc]

/-- The digits are digits. -/
theorem lt_of_mem_longDivision (hb : 1 < b) (hr : r < n) {d : ℕ}
    (hd : d ∈ longDivision b n k r) : d < b := by
  induction k generalizing r with
  | zero => exact nomatch hd
  | succ k ih =>
      rw [longDivision] at hd
      split at hd
      · exact nomatch hd
      · have hn : 0 < n := Nat.zero_lt_of_lt hr
        rcases List.mem_cons.mp hd with rfl | hd
        · rw [Nat.div_lt_iff_lt_mul hn, Nat.mul_comm b]
          exact Nat.mul_lt_mul_of_pos_right hr (Nat.zero_lt_of_lt hb)
        · exact ih (Nat.mod_lt _ hn) hd

/-- **When the division comes to an end, the digits are those of the fraction.** -/
theorem ofDigits_longDivision (hr : r < n) (hend : r * b ^ k % n = 0) :
    Nat.ofDigits b (longDivision b n k r).reverse * n =
      r * b ^ (longDivision b n k r).length := by
  induction k generalizing r with
  | zero =>
      rw [pow_zero, Nat.mul_one, Nat.mod_eq_of_lt hr] at hend
      rw [hend]
      simp [longDivision]
  | succ k ih =>
      by_cases h0 : r = 0
      · rw [h0, longDivision_zero]
        simp
      · have hrest := ih (Nat.mod_lt _ (Nat.zero_lt_of_lt hr)) ((mod_next r b n k).trans hend)
        rw [longDivision, if_neg h0, List.reverse_cons, Nat.ofDigits_append,
          Nat.ofDigits_singleton, List.length_reverse, List.length_cons, Nat.add_mul, hrest]
        calc r * b % n * b ^ (longDivision b n k (r * b % n)).length +
              b ^ (longDivision b n k (r * b % n)).length * (r * b / n) * n
            = b ^ (longDivision b n k (r * b % n)).length * (n * (r * b / n) + r * b % n) := by ring
          _ = b ^ (longDivision b n k (r * b % n)).length * (r * b) := by rw [Nat.div_add_mod]
          _ = r * b ^ ((longDivision b n k (r * b % n)).length + 1) := by ring

/-- The last digit is the one that leaves nothing. -/
theorem exists_last_longDivision (hr : r < n) (h0 : r ≠ 0) (hend : r * b ^ k % n = 0) :
    ∃ d r', (longDivision b n k r).getLast? = some d ∧ 0 < r' ∧ d * n = r' * b := by
  induction k generalizing r with
  | zero =>
      rw [pow_zero, Nat.mul_one, Nat.mod_eq_of_lt hr] at hend
      exact absurd hend h0
  | succ k ih =>
      rw [longDivision, if_neg h0, List.getLast?_cons]
      by_cases hnext : r * b % n = 0
      · refine ⟨r * b / n, r, ?_, Nat.pos_of_ne_zero h0,
          Nat.div_mul_cancel (Nat.dvd_of_mod_eq_zero hnext)⟩
        rw [hnext, longDivision_zero]
        rfl
      · obtain ⟨d, r', hd, hr', heq⟩ :=
          ih (Nat.mod_lt _ (Nat.zero_lt_of_lt hr)) hnext ((mod_next r b n k).trans hend)
        exact ⟨d, r', by rw [hd]; rfl, hr', heq⟩

/-- It is not a zero. -/
theorem longDivision_last (hb : 1 < b) (hr : r < n) (hend : r * b ^ k % n = 0) :
    (longDivision b n k r).getLast? ≠ some 0 := by
  by_cases h0 : r = 0
  · simp [h0]
  · obtain ⟨d, r', hd, hr', heq⟩ := exists_last_longDivision hr h0 hend
    intro hlast
    obtain rfl := Option.some.inj (hd.symm.trans hlast)
    have hpos := Nat.mul_pos hr' (Nat.zero_lt_of_lt hb)
    omega

/-- **Long division finds the expansion.** -/
theorem expansion_longDivision (q : ℕ) (hb : 1 < b) (hr : r < n) (hend : r * b ^ k % n = 0) :
    Expansion b q (longDivision b n k r) (q + r / n) where
  lt := fun _ hd => lt_of_mem_longDivision hb hr hd
  last := longDivision_last hb hr hend
  value := by
    have hn : (n : ℚ) ≠ 0 := Nat.cast_ne_zero.mpr (Nat.ne_of_gt (Nat.zero_lt_of_lt hr))
    have hpow : (b : ℚ) ^ (longDivision b n k r).length ≠ 0 :=
      pow_ne_zero _ (Nat.cast_ne_zero.mpr (Nat.ne_of_gt (Nat.zero_lt_of_lt hb)))
    have hdigits := ofDigits_longDivision hr hend
    rw [add_right_inj, div_eq_div_iff hpow hn]
    exact_mod_cast hdigits

end

/-! ## There is only one -/

section

variable {b q q' : ℕ} {ds ds' : List ℕ} {x : ℚ}

/-- The digits behind the point are less than one. -/
theorem Expansion.ofDigits_lt (hb : 1 < b) (h : Expansion b q ds x) :
    Nat.ofDigits b ds.reverse < b ^ ds.length := by
  rw [← List.length_reverse]
  exact Nat.ofDigits_lt_base_pow_length hb fun d hd => h.lt d (List.mem_reverse.mp hd)

/-- The number with all its digits in front of the point. -/
theorem Expansion.scaled (hb : 1 < b) (h : Expansion b q ds x) (h' : Expansion b q' ds' x) :
    (q * b ^ ds.length + Nat.ofDigits b ds.reverse) * b ^ ds'.length =
      (q' * b ^ ds'.length + Nat.ofDigits b ds'.reverse) * b ^ ds.length := by
  have hb0 : (b : ℚ) ≠ 0 := Nat.cast_ne_zero.mpr (Nat.ne_of_gt (Nat.zero_lt_of_lt hb))
  have hvalue := h.value.trans h'.value.symm
  field_simp at hvalue
  have hcast : (((q * b ^ ds.length + Nat.ofDigits b ds.reverse) * b ^ ds'.length : ℕ) : ℚ) =
      ((q' * b ^ ds'.length + Nat.ofDigits b ds'.reverse) * b ^ ds.length : ℕ) := by
    simp only [Nat.cast_mul, Nat.cast_add, Nat.cast_pow]
    rw [hvalue, mul_comm]
  exact Nat.cast_injective hcast

/-- Of two expansions neither has more digits: its last one would be a zero. -/
theorem Expansion.length_le (hb : 1 < b) (h : Expansion b q ds x) (h' : Expansion b q' ds' x) :
    ds'.length ≤ ds.length := by
  by_contra hlt
  obtain ⟨e, he⟩ := Nat.exists_eq_add_of_lt (Nat.not_le.mp hlt)
  have hscaled := h.scaled hb h'
  have hpos : 0 < b ^ ds.length := Nat.pow_pos (Nat.zero_lt_of_lt hb)
  have hsplit : b ^ ds'.length = b ^ (e + 1) * b ^ ds.length := by
    rw [he, Nat.add_assoc, Nat.add_comm, pow_add]
  rw [hsplit, ← Nat.mul_assoc] at hscaled
  have hcancel := Nat.eq_of_mul_eq_mul_right hpos hscaled
  rcases List.eq_nil_or_concat ds' with rfl | ⟨init, d, rfl⟩
  · rw [List.length_nil] at he
    omega
  · have hd := h'.lt d (by simp)
    rw [List.concat_eq_append, List.reverse_append, List.reverse_singleton,
      List.singleton_append, Nat.ofDigits_cons] at hcancel
    -- both sides modulo the base
    have hmod := congrArg (· % b) hcancel
    have hleft : (q * b ^ ds.length + Nat.ofDigits b ds.reverse) * b ^ (e + 1) % b = 0 := by
      rw [pow_succ, ← Nat.mul_assoc]
      exact Nat.mul_mod_left _ _
    have hright : (q' * (b ^ (e + 1) * b ^ ds.length) + (d + b * Nat.ofDigits b init.reverse)) % b =
        d := by
      have hring : q' * (b ^ (e + 1) * b ^ ds.length) + (d + b * Nat.ofDigits b init.reverse) =
          d + b * (q' * b ^ e * b ^ ds.length + Nat.ofDigits b init.reverse) := by ring
      rw [hring, Nat.add_mul_mod_self_left, Nat.mod_eq_of_lt hd]
    apply h'.last
    rw [List.concat_eq_append, List.getLast?_concat]
    exact congrArg some (hright.symm.trans (hmod.symm.trans hleft))

/-- **There is only one expansion.** -/
theorem Expansion.unique (hb : 1 < b) (h : Expansion b q ds x) (h' : Expansion b q' ds' x) :
    q = q' ∧ ds = ds' := by
  have hlen : ds.length = ds'.length :=
    Nat.le_antisymm (h'.length_le hb h) (h.length_le hb h')
  have hpos : 0 < b ^ ds.length := Nat.pow_pos (Nat.zero_lt_of_lt hb)
  have hscaled := h.scaled hb h'
  rw [← hlen] at hscaled
  have hsum := Nat.eq_of_mul_eq_mul_right hpos hscaled
  have hlt := h.ofDigits_lt hb
  have hlt' := h'.ofDigits_lt hb
  rw [← hlen] at hlt'
  have hq : q = q' := by
    have hdiv := congrArg (· / b ^ ds.length) hsum
    rwa [Nat.mul_comm q, Nat.mul_add_div hpos, Nat.div_eq_of_lt hlt, Nat.add_zero,
      Nat.mul_comm q', Nat.mul_add_div hpos, Nat.div_eq_of_lt hlt', Nat.add_zero] at hdiv
  have hdigits : Nat.ofDigits b ds.reverse = Nat.ofDigits b ds'.reverse := by
    rw [hq] at hsum
    exact Nat.add_left_cancel hsum
  have hrev := Nat.ofDigits_inj_of_len_eq hb (by simpa using hlen)
    (fun d hd => h.lt d (List.mem_reverse.mp hd)) (fun d hd => h'.lt d (List.mem_reverse.mp hd))
    hdigits
  exact ⟨hq, List.reverse_injective hrev⟩

end

end AnylWallet.Lib
