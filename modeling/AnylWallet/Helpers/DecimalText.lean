import Mathlib.Data.List.DropRight
import Mathlib.Data.Rat.Cast.Defs
import Mathlib.Tactic.FieldSimp
import AnylWallet.Helpers.Fromstring

/-!
# Decimal fractions as text

* `trimZeros` leaves out the zeros at the end of a text, but never its first character. As the digits
  of a fraction it stands for the same number (`trimZeros_value`), and so does a text with zeros in
  front, as a number (`numberOf_replicate_zero`).
* `DecimalNumeral i frac x`: the text `i.frac` is a numeral of `x` with no superfluous zero.
-/

namespace AnylWallet.Helpers

open AnylWallet.Lib

/-- The text without the zeros at its end, as far as the first character. -/
def trimZeros : List UInt8 → List UInt8
  | [] => []
  | c :: s => c :: s.rdropWhile (· == '0'.toUInt8)

/-- A zero at the end is left out. -/
theorem trimZeros_concat_zero {s : List UInt8} (h : s ≠ []) :
    trimZeros (s ++ ['0'.toUInt8]) = trimZeros s := by
  obtain ⟨c, s, rfl⟩ := List.exists_cons_of_ne_nil h
  rw [List.cons_append, trimZeros, trimZeros, List.rdropWhile_concat_pos _ _ _ (by decide)]

/-- Another character at the end is kept. -/
theorem trimZeros_concat_ne {s : List UInt8} {c : UInt8} (h : c ≠ '0'.toUInt8) :
    trimZeros (s ++ [c]) = s ++ [c] := by
  rcases s with _ | ⟨d, s⟩
  · rfl
  · rw [List.cons_append, trimZeros, List.rdropWhile_concat_neg _ _ _ (by simpa using h)]

/-- The number of digits with one more behind them. -/
theorem numberOf_concat (base : ℕ) (s : List UInt8) (c : UInt8) :
    numberOf base (s ++ [c]) = base * numberOf base s + hexValue c := by
  rw [numberOf, List.reverse_append, List.reverse_singleton, List.singleton_append, List.map_cons,
    Nat.ofDigits_cons, Nat.add_comm, numberOf]

/-- Zeros in front do not count. -/
theorem numberOf_replicate_zero (base k : ℕ) (s : List UInt8) :
    numberOf base (List.replicate k '0'.toUInt8 ++ s) = numberOf base s := by
  have hzero : hexValue '0'.toUInt8 = 0 := by decide
  induction k with
  | zero => rfl
  | succ k ih => rw [List.replicate_succ, List.cons_append, numberOf_cons, hzero, ih, Nat.zero_mul,
      Nat.zero_add]

/-- **Zeros at the end of a fraction do not count.** -/
theorem trimZeros_value (s : List UInt8) :
    (numberOf 10 (trimZeros s) : ℚ) / 10 ^ (trimZeros s).length =
      numberOf 10 s / 10 ^ s.length := by
  have hzero : hexValue '0'.toUInt8 = 0 := by decide
  induction s using List.reverseRecOn with
  | nil => rfl
  | append_singleton s c ih =>
      by_cases hc : c = '0'.toUInt8
      · subst hc
        by_cases hs : s = []
        · subst hs
          rfl
        · rw [trimZeros_concat_zero hs, ih, numberOf_concat, hzero, List.length_append,
            List.length_singleton, pow_succ, Nat.add_zero]
          push_cast
          field_simp
      · rw [trimZeros_concat_ne hc]

/-- What is left has no zero at its end, unless it is a single one. -/
theorem trimZeros_last (s : List UInt8) (h : (trimZeros s).getLast? = some '0'.toUInt8) :
    trimZeros s = ['0'.toUInt8] := by
  induction s using List.reverseRecOn with
  | nil => cases h
  | append_singleton s c ih =>
      by_cases hc : c = '0'.toUInt8
      · subst hc
        by_cases hs : s = []
        · subst hs
          rfl
        · rw [trimZeros_concat_zero hs] at h ⊢
          exact ih h
      · rw [trimZeros_concat_ne hc, List.getLast?_concat] at h
        exact absurd (Option.some.inj h) hc

/-- What is left was there. -/
theorem mem_of_mem_trimZeros {s : List UInt8} {c : UInt8} (h : c ∈ trimZeros s) : c ∈ s := by
  rcases s with _ | ⟨d, s⟩
  · exact h
  · rcases List.mem_cons.mp h with rfl | h
    · exact List.mem_cons_self
    · exact List.mem_cons_of_mem _ ((List.rdropWhile_prefix _ _).subset h)

/-- It is no longer than the text. -/
theorem length_trimZeros_le (s : List UInt8) : (trimZeros s).length ≤ s.length := by
  rcases s with _ | ⟨d, s⟩
  · exact le_rfl
  · exact Nat.succ_le_succ (List.rdropWhile_prefix _ _).length_le

/-- Of a text something is left. -/
theorem trimZeros_ne_nil {s : List UInt8} (h : s ≠ []) : trimZeros s ≠ [] := by
  obtain ⟨c, s, rfl⟩ := List.exists_cons_of_ne_nil h
  exact List.cons_ne_nil _ _

/-- The texts before and behind the point are decimal digits, the first one a numeral, the other one
with no zero at its end unless it is a single zero; and together they denote `x`. -/
structure DecimalNumeral (i frac : List UInt8) (x : ℚ) : Prop where
  whole : i = numeral 10 (numberOf 10 i)
  digits : ∀ c ∈ frac, ∃ d, d < 10 ∧ c = digit d
  ne_nil : frac ≠ []
  last : frac.getLast? = some '0'.toUInt8 → frac = ['0'.toUInt8]
  value : (numberOf 10 i : ℚ) + numberOf 10 frac / 10 ^ frac.length = x

/-- **A numeral, and a numeral behind zeros without those at its end.** -/
theorem decimalNumeral_trimZeros (q r k : ℕ) :
    DecimalNumeral (numeral 10 q)
      (trimZeros (List.replicate k '0'.toUInt8 ++ numeral 10 r))
      (q + r / 10 ^ (k + (numeral 10 r).length)) where
  whole := by rw [numberOf_numeral (by decide) (by decide)]
  digits := by
    intro c hc
    rcases List.mem_append.mp (mem_of_mem_trimZeros hc) with hc | hc
    · exact ⟨0, by decide, List.eq_of_mem_replicate hc⟩
    · exact exists_digit_of_mem_numeral (by decide) hc
  ne_nil := trimZeros_ne_nil (List.append_ne_nil_of_right_ne_nil _ (numeral_ne_nil 10 r))
  last := trimZeros_last _
  value := by
    rw [trimZeros_value, numberOf_replicate_zero, numberOf_numeral (by decide) (by decide),
      numberOf_numeral (by decide) (by decide), List.length_append, List.length_replicate]

end AnylWallet.Helpers
