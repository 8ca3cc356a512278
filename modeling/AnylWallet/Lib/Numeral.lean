import Mathlib.Data.Nat.Digits.Defs
import Mathlib.Data.Nat.Digits.Lemmas
import Mathlib.Tactic.Ring

/-!
# Text and numerals

* `ascii` is the bytes of a string literal.
* `numeral b n` is the numeral of `n` in base `b`: digits `0`–`9`, then lower-case letters, most
  significant digit first, no superfluous leading zero. `lowNumeral` is the same numeral from its
  other end, which is how a loop of divisions finds it (`reverse_lowNumeral`).
* `IsHexDigit` and `hexValue` are the digits that are read, with letters of either case, and
  `numberOf` is the number that they denote; a numeral denotes its own (`numberOf_numeral`).
-/

namespace AnylWallet.Lib

/-- The bytes of a text. -/
def ascii (s : String) : List UInt8 := s.toUTF8.data.toList

/-- The character of a digit. -/
def digit (d : ℕ) : UInt8 := if d < 10 then UInt8.ofNat (48 + d) else UInt8.ofNat (87 + d)

/-- The numeral of `n` in base `b`. -/
def numeral (b n : ℕ) : List UInt8 :=
  if n = 0 then [digit 0] else ((Nat.digits b n).map digit).reverse

/-- The digits of the numeral, least significant first. -/
def lowNumeral (b n : ℕ) : List UInt8 :=
  if n = 0 then [digit 0] else (Nat.digits b n).map digit

/-- Read from the other end it is the numeral. -/
theorem reverse_lowNumeral (b n : ℕ) : (lowNumeral b n).reverse = numeral b n := by
  unfold lowNumeral numeral
  split
  · rfl
  · rfl

@[simp] theorem length_lowNumeral (b n : ℕ) : (lowNumeral b n).length = (numeral b n).length := by
  rw [← reverse_lowNumeral, List.length_reverse]

/-- One division finds the lowest digit, and the quotient has the others. -/
theorem lowNumeral_eq {b : ℕ} (hb : 1 < b) (n : ℕ) :
    lowNumeral b n = digit (n % b) :: if n / b = 0 then [] else lowNumeral b (n / b) := by
  unfold lowNumeral
  by_cases h : n = 0
  · simp [h]
  · rw [if_neg h, Nat.digits_def' hb (Nat.pos_of_ne_zero h), List.map_cons]
    by_cases hd : n / b = 0
    · simp [hd]
    · simp [hd]

/-- A numeral is never empty. -/
theorem numeral_ne_nil (b n : ℕ) : numeral b n ≠ [] := by
  unfold numeral
  split
  · simp
  · rename_i h
    simpa [Nat.digits_eq_nil_iff_eq_zero] using h

/-- A numeral has at least one digit. -/
theorem length_numeral_pos (b n : ℕ) : 0 < (numeral b n).length :=
  List.length_pos_iff.mpr (numeral_ne_nil b n)

/-- The characters of a numeral are digits below its base. -/
theorem exists_digit_of_mem_numeral {b n : ℕ} (hb : 1 < b) {c : UInt8} (hc : c ∈ numeral b n) :
    ∃ d, d < b ∧ c = digit d := by
  unfold numeral at hc
  split at hc
  · exact ⟨0, Nat.lt_of_succ_lt hb, List.mem_singleton.mp hc⟩
  · obtain ⟨d, hd, rfl⟩ := List.mem_map.mp (List.mem_reverse.mp hc)
    exact ⟨d, Nat.digits_lt_base hb hd, rfl⟩

/-- A digit is not a NUL. -/
theorem numeral_ne_zero {b n : ℕ} (hb : 1 < b) (hb16 : b ≤ 16) : ∀ c ∈ numeral b n, c ≠ 0 := by
  have hdigit : ∀ d, d < 16 → digit d ≠ 0 := by decide
  intro c hc
  obtain ⟨d, hd, rfl⟩ := exists_digit_of_mem_numeral hb hc
  exact hdigit d (Nat.lt_of_lt_of_le hd hb16)

/-- A number below `b ^ w` has at most `w` digits, when `w` is not zero. -/
theorem length_numeral_le {b w n : ℕ} (hb : 1 < b) (hw : 0 < w) (h : n < b ^ w) :
    (numeral b n).length ≤ w := by
  unfold numeral
  split
  · exact hw
  · rw [List.length_reverse, List.length_map]
    exact (Nat.digits_length_le_iff hb n).mpr h

/-- Only such a number has so few. -/
theorem lt_of_length_numeral_le {b w n : ℕ} (hb : 1 < b) (h : (numeral b n).length ≤ w) :
    n < b ^ w := by
  unfold numeral at h
  split at h
  · rename_i hn
    rw [hn]
    exact Nat.pow_pos (Nat.zero_lt_of_lt hb)
  · rw [List.length_reverse, List.length_map] at h
    exact (Nat.digits_length_le_iff hb n).mp h

/-! ## Reading -/

/-- A hex digit, with a small letter or a capital one. -/
def IsHexDigit (c : UInt8) : Prop :=
  ('0'.toUInt8 ≤ c ∧ c ≤ '9'.toUInt8) ∨ ('A'.toUInt8 ≤ c ∧ c ≤ 'F'.toUInt8) ∨
    ('a'.toUInt8 ≤ c ∧ c ≤ 'f'.toUInt8)

instance (c : UInt8) : Decidable (IsHexDigit c) := inferInstanceAs (Decidable (_ ∨ _))

/-- The value of a hex digit (and 0 of any other character). -/
def hexValue (c : UInt8) : ℕ :=
  if 48 ≤ c.toNat ∧ c.toNat ≤ 57 then c.toNat - 48
  else if 65 ≤ c.toNat ∧ c.toNat ≤ 70 then c.toNat - 55
  else if 97 ≤ c.toNat ∧ c.toNat ≤ 102 then c.toNat - 87
  else 0

/-- It is below 16. -/
theorem hexValue_lt (c : UInt8) : hexValue c < 16 := by
  unfold hexValue
  split_ifs
  all_goals omega

/-- By character codes. -/
theorem isHexDigit_iff {c : UInt8} :
    IsHexDigit c ↔ (48 ≤ c.toNat ∧ c.toNat ≤ 57) ∨ (65 ≤ c.toNat ∧ c.toNat ≤ 70) ∨
      (97 ≤ c.toNat ∧ c.toNat ≤ 102) :=
  Iff.rfl

/-- A digit below 16 is a hex digit. -/
theorem isHexDigit_digit {d : ℕ} (h : d < 16) : IsHexDigit (digit d) := by
  have hall : ∀ d : Fin 16, IsHexDigit (digit d) := by decide
  exact hall ⟨d, h⟩

/-- A digit that is printed has its value. -/
theorem hexValue_digit {d : ℕ} (h : d < 16) : hexValue (digit d) = d := by
  have hall : ∀ d : Fin 16, hexValue (digit d) = d := by decide
  exact hall ⟨d, h⟩

/-- The digits of a number are hex digits. -/
theorem isHexDigit_numeral (n : ℕ) : ∀ c ∈ numeral 16 n, IsHexDigit c := by
  intro c hc
  obtain ⟨d, hd, rfl⟩ := exists_digit_of_mem_numeral (by norm_num) hc
  exact isHexDigit_digit hd

/-- The number that digits denote in a base. -/
def numberOf (base : ℕ) (digits : List UInt8) : ℕ :=
  Nat.ofDigits base (digits.reverse.map hexValue)

theorem numberOf_cons (base : ℕ) (c : UInt8) (digits : List UInt8) :
    numberOf base (c :: digits) = hexValue c * base ^ digits.length + numberOf base digits := by
  simp only [numberOf, List.reverse_cons, List.map_append, Nat.ofDigits_append, List.map_cons,
    List.map_nil, Nat.ofDigits_singleton, List.length_map, List.length_reverse]
  ring

/-- The numeral of a number denotes it. -/
theorem numberOf_numeral {b : ℕ} (hb : 1 < b) (hb16 : b ≤ 16) (n : ℕ) :
    numberOf b (numeral b n) = n := by
  have hmap : ((Nat.digits b n).map digit).map hexValue = Nat.digits b n := by
    rw [List.map_map]
    refine (List.map_congr_left fun d hd => ?_).trans (List.map_id _)
    exact hexValue_digit (lt_of_lt_of_le (Nat.digits_lt_base hb hd) hb16)
  unfold numberOf numeral
  split
  · rename_i h
    rw [h, List.reverse_singleton, List.map_singleton, Nat.ofDigits_singleton,
      hexValue_digit (by norm_num)]
  · rw [List.reverse_reverse, hmap, Nat.ofDigits_digits]

end AnylWallet.Lib
