import Mathlib.Data.List.TakeWhile
import AnylWallet.Helpers.Hextobin

/-!
# `strtoul` and `strtol`

The C library's conversions in the "C" locale, where `long` has 64 bits: with a `long` of 32 bits, as
on some of the boards, `ERANGE` and the numbers that wrap around are those of 2 ^ 32 in place of
2 ^ 64. A call is given the bytes from its start on; it returns the value, the number of bytes it has
read (where `endptr` points) and whether it sets `errno` to `ERANGE`.

* `strtoul_append`, `strtol_append`: what stands behind a text does not matter, if its first
  character continues no number.
* `numberSize_eq_length_iff`: a text is read to its end if it is empty, or is white space, a sign and
  digits (`IsInteger`). So it need not be a plain numeral (`IsNumeral`).
-/

namespace AnylWallet.Helpers

open AnylWallet.Lib

/-- `isspace`. -/
def isspace (c : UInt8) : Bool := c = 32 ∨ (9 ≤ c ∧ c ≤ 13)

/-- A digit of the base (which is at most 16). -/
def isDigitOf (base : ℕ) (c : UInt8) : Bool := IsHexDigit c ∧ hexValue c < base

/-- Whether a hex number is written with `0x` here. -/
def hasHexPrefix (s : List UInt8) : Bool :=
  (s.take 2 = ascii "0x" ∨ s.take 2 = ascii "0X") ∧ (s.drop 2).head?.any (isDigitOf 16)

/-- The sign is a minus. -/
def isNegated (s : List UInt8) : Bool := (s.dropWhile isspace).head? = some '-'.toUInt8

/-- What stands behind white space, a sign and a prefix. -/
def numberStart (base : ℕ) (s : List UInt8) : List UInt8 :=
  let s := s.dropWhile isspace
  let s := if s.head? = some '-'.toUInt8 ∨ s.head? = some '+'.toUInt8 then s.drop 1 else s
  if base = 16 ∧ hasHexPrefix s then s.drop 2 else s

/-- The digits that are converted. -/
def numberDigits (base : ℕ) (s : List UInt8) : List UInt8 :=
  (numberStart base s).takeWhile (isDigitOf base)

/-- The number of bytes read; none, if there is no digit. -/
def numberSize (base : ℕ) (s : List UInt8) : ℕ :=
  if numberDigits base s = [] then 0
  else s.length - (numberStart base s).length + (numberDigits base s).length

/-- What a conversion returns. -/
structure Converted (α : Type) where
  /-- The value. -/
  value : α
  /-- The number of bytes in front of `endptr`. -/
  size : ℕ
  /-- `errno` is set. -/
  erange : Bool

/-- `strtoul`. -/
def strtoul (base : ℕ) (s : List UInt8) : Converted UInt64 :=
  let n := numberOf base (numberDigits base s)
  if 2 ^ 64 ≤ n then ⟨UInt64.ofNat (2 ^ 64 - 1), numberSize base s, true⟩
  else if isNegated s then ⟨0 - UInt64.ofNat n, numberSize base s, false⟩
  else ⟨UInt64.ofNat n, numberSize base s, false⟩

/-- `strtol`. -/
def strtol (base : ℕ) (s : List UInt8) : Converted ℤ :=
  let n := numberOf base (numberDigits base s)
  if isNegated s then
    if 2 ^ 63 < n then ⟨-2 ^ 63, numberSize base s, true⟩
    else ⟨-n, numberSize base s, false⟩
  else if 2 ^ 63 ≤ n then ⟨2 ^ 63 - 1, numberSize base s, true⟩
  else ⟨n, numberSize base s, false⟩

/-! ## What stands behind a text -/

/-- The character is no part of a number: no digit, no sign, and no letter of a prefix. -/
def EndsNumber (c : UInt8) : Prop :=
  isDigitOf 16 c = false ∧ c ≠ 'x'.toUInt8 ∧ c ≠ 'X'.toUInt8 ∧ c ≠ '-'.toUInt8 ∧ c ≠ '+'.toUInt8

instance (c : UInt8) : Decidable (EndsNumber c) := by
  unfold EndsNumber
  infer_instance

/-- A digit of a smaller base is a hex digit. -/
theorem isDigitOf_of_le {base : ℕ} (hbase : base ≤ 16) {c : UInt8} (h : isDigitOf 16 c = false) :
    isDigitOf base c = false := by
  simp only [isDigitOf, decide_eq_false_iff_not, not_and, not_lt] at h ⊢
  intro hpos
  have := h hpos
  omega

/-- The sign. -/
def hasSign (s : List UInt8) : Bool := s.head? = some '-'.toUInt8 ∨ s.head? = some '+'.toUInt8

variable {t tail : List UInt8}

/-- White space is skipped in front of what stands behind the text. -/
theorem dropWhile_isspace_append
    (h : (∃ c ∈ t, isspace c = false) ∨ ∀ c ∈ tail.head?, isspace c = false) :
    (t ++ tail).dropWhile isspace = t.dropWhile isspace ++ tail := by
  rw [List.dropWhile_append]
  by_cases hempty : t.dropWhile isspace = []
  · rw [hempty, List.isEmpty_nil, if_pos rfl, List.nil_append]
    have hspace : ∀ c ∈ t, isspace c = true := List.dropWhile_eq_nil_iff.mp hempty
    rcases h with ⟨c, hc, hfalse⟩ | htail
    · rw [hspace c hc] at hfalse
      cases hfalse
    · cases tail with
      | nil => rfl
      | cons c tail =>
          rw [List.dropWhile_cons_of_neg]
          rw [htail c rfl]
          exact Bool.false_ne_true
  · rw [if_neg]
    rwa [List.isEmpty_iff]

/-- The sign of a text is its own. -/
theorem hasSign_append (htail : ∀ c ∈ tail.head?, EndsNumber c) :
    hasSign (t ++ tail) = hasSign t := by
  cases t with
  | nil =>
      cases tail with
      | nil => rfl
      | cons c tail =>
          obtain ⟨-, -, -, hminus, hplus⟩ := htail c rfl
          simp [hasSign, hminus, hplus]
  | cons c t => rfl

/-- So is its prefix. -/
theorem hasHexPrefix_append (htail : ∀ c ∈ tail.head?, EndsNumber c) :
    hasHexPrefix (t ++ tail) = hasHexPrefix t := by
  have hx : ascii "0x" = ['0'.toUInt8, 'x'.toUInt8] := by decide
  have hX : ascii "0X" = ['0'.toUInt8, 'X'.toUInt8] := by decide
  have hzero : isDigitOf 16 '0'.toUInt8 = true := by decide
  cases tail with
  | nil => rw [List.append_nil]
  | cons c tail =>
      obtain ⟨hdigit, hcx, hcX, -, -⟩ := htail c rfl
      have hc0 : c ≠ '0'.toUInt8 := by
        rintro rfl
        rw [hzero] at hdigit
        cases hdigit
      match t with
      | [] => simp [hasHexPrefix, hx, hX, hc0]
      | [d] => simp [hasHexPrefix, hx, hX, hcx, hcX]
      | [d, e] => simp [hasHexPrefix, hdigit]
      | d :: e :: f :: t => simp [hasHexPrefix]

/-- A prefix has two characters. -/
theorem two_le_of_hasHexPrefix {s : List UInt8} (h : hasHexPrefix s = true) : 2 ≤ s.length := by
  by_contra hlen
  simp [hasHexPrefix, List.drop_eq_nil_of_le (show s.length ≤ 2 by omega)] at h

/-- The text behind the sign. -/
def unsigned (s : List UInt8) : List UInt8 := if hasSign s then s.drop 1 else s

theorem unsigned_append (htail : ∀ c ∈ tail.head?, EndsNumber c) :
    unsigned (t ++ tail) = unsigned t ++ tail := by
  unfold unsigned
  rw [hasSign_append htail]
  split_ifs with hsign
  · cases t with
    | nil => cases hsign
    | cons c s => rfl
  · rfl

theorem numberStart_eq (base : ℕ) (s : List UInt8) :
    numberStart base s =
      if base = 16 ∧ hasHexPrefix (unsigned (s.dropWhile isspace)) then
        (unsigned (s.dropWhile isspace)).drop 2
      else unsigned (s.dropWhile isspace) := by
  simp only [numberStart, unsigned, hasSign, decide_eq_true_eq]

/-- A number starts in the text. -/
theorem numberStart_append {base : ℕ} (htail : ∀ c ∈ tail.head?, EndsNumber c)
    (h : (∃ c ∈ t, isspace c = false) ∨ ∀ c ∈ tail.head?, isspace c = false) :
    numberStart base (t ++ tail) = numberStart base t ++ tail := by
  rw [numberStart_eq, numberStart_eq, dropWhile_isspace_append h, unsigned_append htail,
    hasHexPrefix_append htail]
  split_ifs with hprefix
  · exact List.drop_append_of_le_length (two_le_of_hasHexPrefix hprefix.2)
  · rfl

/-- Its digits are those of the text. -/
theorem numberDigits_append {base : ℕ} (hbase : base ≤ 16)
    (htail : ∀ c ∈ tail.head?, EndsNumber c)
    (h : (∃ c ∈ t, isspace c = false) ∨ ∀ c ∈ tail.head?, isspace c = false) :
    numberDigits base (t ++ tail) = numberDigits base t := by
  have hnone : tail.takeWhile (isDigitOf base) = [] := by
    cases tail with
    | nil => rfl
    | cons c tail =>
        rw [List.takeWhile_cons_of_neg]
        rw [isDigitOf_of_le hbase (htail c rfl).1]
        exact Bool.false_ne_true
  unfold numberDigits
  rw [numberStart_append htail h, List.takeWhile_append, hnone, List.append_nil]
  split_ifs with hall
  · exact (List.takeWhile_prefix _).eq_of_length hall |>.symm
  · rfl

theorem numberSize_append {base : ℕ} (hbase : base ≤ 16)
    (htail : ∀ c ∈ tail.head?, EndsNumber c)
    (h : (∃ c ∈ t, isspace c = false) ∨ ∀ c ∈ tail.head?, isspace c = false) :
    numberSize base (t ++ tail) = numberSize base t := by
  unfold numberSize
  rw [numberDigits_append hbase htail h, numberStart_append htail h, List.length_append,
    List.length_append, Nat.add_sub_add_right]

theorem isNegated_append (htail : ∀ c ∈ tail.head?, EndsNumber c)
    (h : (∃ c ∈ t, isspace c = false) ∨ ∀ c ∈ tail.head?, isspace c = false) :
    isNegated (t ++ tail) = isNegated t := by
  unfold isNegated
  rw [dropWhile_isspace_append h]
  cases t.dropWhile isspace with
  | nil =>
      cases tail with
      | nil => rfl
      | cons c tail =>
          obtain ⟨-, -, -, hminus, -⟩ := htail c rfl
          simp [hminus]
  | cons c s => rfl

/-- **`strtoul` does not read on behind the text.** -/
theorem strtoul_append {base : ℕ} (hbase : base ≤ 16) (htail : ∀ c ∈ tail.head?, EndsNumber c)
    (h : (∃ c ∈ t, isspace c = false) ∨ ∀ c ∈ tail.head?, isspace c = false) :
    strtoul base (t ++ tail) = strtoul base t := by
  unfold strtoul
  rw [numberDigits_append hbase htail h, numberSize_append hbase htail h, isNegated_append htail h]

/-- **Nor does `strtol`.** -/
theorem strtol_append {base : ℕ} (hbase : base ≤ 16) (htail : ∀ c ∈ tail.head?, EndsNumber c)
    (h : (∃ c ∈ t, isspace c = false) ∨ ∀ c ∈ tail.head?, isspace c = false) :
    strtol base (t ++ tail) = strtol base t := by
  unfold strtol
  rw [numberDigits_append hbase htail h, numberSize_append hbase htail h, isNegated_append htail h]

/-! ## Where there is no number -/

/-- A text that starts with something else holds no number. -/
theorem numberSize_cons {base : ℕ} (hbase : base ≤ 16) {c : UInt8} (hc : EndsNumber c)
    (hspace : isspace c = false) (s : List UInt8) : numberSize base (c :: s) = 0 := by
  have hdigits := @numberDigits_append [] (c :: s) base hbase
    (fun d hd => (Option.some.inj hd : c = d) ▸ hc)
    (Or.inr fun d hd => (Option.some.inj hd : c = d) ▸ hspace)
  have hnil : numberDigits base [] = [] := by
    simp [numberDigits, numberStart, hasHexPrefix]
  unfold numberSize
  rw [List.nil_append, hnil] at hdigits
  rw [if_pos hdigits]

theorem strtoul_size (base : ℕ) (s : List UInt8) : (strtoul base s).size = numberSize base s := by
  unfold strtoul
  dsimp only
  split_ifs
  · rfl
  · rfl
  · rfl

theorem strtol_size (base : ℕ) (s : List UInt8) : (strtol base s).size = numberSize base s := by
  unfold strtol
  dsimp only
  split_ifs
  · rfl
  · rfl
  · rfl
  · rfl

/-! ## Texts that are read to their end -/

/-- A plain decimal numeral of the number. -/
def IsNumeral (s : List UInt8) (n : ℕ) : Prop :=
  s ≠ [] ∧ (∀ c ∈ s, isDigitOf 10 c = true) ∧ numberOf 10 s = n

/-- White space, a sign or none, and digits. -/
def IsInteger (s sign digits : List UInt8) : Prop :=
  ∃ spaces, s = spaces ++ (sign ++ digits) ∧ (∀ c ∈ spaces, isspace c = true) ∧
    (sign = [] ∨ sign = ascii "-" ∨ sign = ascii "+") ∧ digits ≠ [] ∧
    ∀ c ∈ digits, isDigitOf 10 c = true

/-- The number that an integer denotes. -/
def signedNumber (sign digits : List UInt8) : ℤ :=
  if sign = ascii "-" then -numberOf 10 digits else numberOf 10 digits

/-- A numeral is an integer without white space and sign. -/
theorem IsNumeral.isInteger {s : List UInt8} {n : ℕ} (h : IsNumeral s n) : IsInteger s [] s :=
  ⟨[], rfl, by simp, Or.inl rfl, h.1, h.2.1⟩

/-- A decimal digit, by its code. -/
theorem isDigitOf_ten_iff {c : UInt8} : isDigitOf 10 c = true ↔ 48 ≤ c.toNat ∧ c.toNat ≤ 57 := by
  simp only [isDigitOf, decide_eq_true_eq, isHexDigit_iff, hexValue]
  split_ifs <;> omega

/-- Nor is a digit. -/
theorem isspace_of_isDigitOf {c : UInt8} (h : isDigitOf 10 c = true) : isspace c = false := by
  have hc := isDigitOf_ten_iff.mp h
  have h32 : (32 : UInt8).toNat = 32 := rfl
  have h9 : (9 : UInt8).toNat = 9 := rfl
  have h13 : (13 : UInt8).toNat = 13 := rfl
  simp only [isspace, decide_eq_false_iff_not, ← UInt8.toNat_inj, UInt8.le_iff_toNat_le, h32, h9,
    h13]
  omega

/-- Nor is it a sign. -/
theorem hasSign_of_isDigitOf {c : UInt8} (h : isDigitOf 10 c = true) (s : List UInt8) :
    hasSign (c :: s) = false := by
  have hc := isDigitOf_ten_iff.mp h
  have hminus : '-'.toUInt8.toNat = 45 := by decide
  have hplus : '+'.toUInt8.toNat = 43 := by decide
  simp only [hasSign, List.head?_cons, Option.some.injEq, decide_eq_false_iff_not,
    ← UInt8.toNat_inj, hminus, hplus]
  omega

/-- Where the digits of an integer start. -/
theorem numberStart_isInteger {s sign digits : List UInt8} (h : IsInteger s sign digits) :
    s.dropWhile isspace = sign ++ digits ∧ numberStart 10 s = digits := by
  obtain ⟨spaces, rfl, hspaces, hsign, hne, hdigits⟩ := h
  obtain ⟨c, rest, rfl⟩ := List.exists_cons_of_ne_nil hne
  have hc : isDigitOf 10 c = true := hdigits c List.mem_cons_self
  have hhead : ∀ (d : UInt8) (t : List UInt8), isspace d = false →
      (d :: t).dropWhile isspace = d :: t := by
    intro d t hd
    rw [List.dropWhile_cons_of_neg]
    rw [hd]
    exact Bool.false_ne_true
  have hdrop : (spaces ++ (sign ++ c :: rest)).dropWhile isspace = sign ++ c :: rest := by
    rw [List.dropWhile_append_of_pos hspaces]
    rcases hsign with rfl | rfl | rfl
    · exact hhead c rest (isspace_of_isDigitOf hc)
    · exact hhead _ _ (by decide)
    · exact hhead _ _ (by decide)
  refine ⟨hdrop, ?_⟩
  rw [numberStart_eq, if_neg (by omega), hdrop]
  rcases hsign with rfl | rfl | rfl
  · rw [List.nil_append, unsigned, hasSign_of_isDigitOf hc]
    rfl
  · rfl
  · rfl

/-- Its digits are converted, and it is negative with a minus. -/
theorem numberDigits_isInteger {s sign digits : List UInt8} (h : IsInteger s sign digits) :
    numberDigits 10 s = digits ∧ numberSize 10 s = s.length ∧
      (isNegated s = true ↔ sign = ascii "-") := by
  obtain ⟨hdrop, hstart⟩ := numberStart_isInteger h
  obtain ⟨spaces, hs, hspaces, hsign, hne, hdigits⟩ := h
  have htake : numberDigits 10 s = digits := by
    rw [numberDigits, hstart]
    exact List.takeWhile_eq_self_iff.mpr hdigits
  refine ⟨htake, ?_, ?_⟩
  · have hlen : digits.length ≤ s.length := by
      rw [hs, List.length_append, List.length_append]
      omega
    rw [numberSize, htake, hstart, if_neg hne]
    omega
  · obtain ⟨c, rest, rfl⟩ := List.exists_cons_of_ne_nil hne
    have hnone := hasSign_of_isDigitOf (hdigits c List.mem_cons_self) rest
    rw [isNegated, hdrop]
    rcases hsign with rfl | rfl | rfl
    · have hminus : ¬ (c :: rest).head? = some '-'.toUInt8 :=
        fun h => of_decide_eq_false hnone (Or.inl h)
      exact iff_of_false (fun h => hminus (of_decide_eq_true h)) (by decide)
    · exact iff_of_true rfl rfl
    · exact iff_of_false Bool.false_ne_true (by decide)

/-- The sign and what stands behind it. -/
theorem exists_sign (t : List UInt8) :
    ∃ sign, (sign = [] ∨ sign = ascii "-" ∨ sign = ascii "+") ∧ t = sign ++ unsigned t := by
  unfold unsigned
  split
  · rename_i hsign
    simp only [hasSign, decide_eq_true_eq] at hsign
    match t, hsign with
    | c :: rest, Or.inl h => exact ⟨ascii "-", by simp, by rw [Option.some.inj h]; rfl⟩
    | c :: rest, Or.inr h => exact ⟨ascii "+", by simp, by rw [Option.some.inj h]; rfl⟩
  · exact ⟨[], Or.inl rfl, rfl⟩

/-- **What is read to its end.** -/
theorem numberSize_eq_length_iff {s : List UInt8} :
    numberSize 10 s = s.length ↔ s = [] ∨ ∃ sign digits, IsInteger s sign digits := by
  constructor
  · intro hsize
    rcases s.eq_nil_or_concat with rfl | ⟨_, _, hs⟩
    · exact Or.inl rfl
    refine Or.inr ?_
    have hpos : 0 < s.length := by
      rw [hs]
      simp
    have hstart : numberStart 10 s = unsigned (s.dropWhile isspace) := by
      rw [numberStart_eq, if_neg (by omega)]
    obtain ⟨sign, hsign, hrest⟩ := exists_sign (s.dropWhile isspace)
    have hsplit : s = s.takeWhile isspace ++ (sign ++ numberStart 10 s) := by
      rw [hstart, ← hrest, List.takeWhile_append_dropWhile]
    have hlen := congrArg List.length hsplit
    rw [List.length_append, List.length_append] at hlen
    rw [numberSize] at hsize
    split at hsize
    · omega
    · rename_i hne
      have hall : numberDigits 10 s = numberStart 10 s :=
        (List.takeWhile_prefix _).eq_of_length (by rw [← numberDigits]; omega)
      refine ⟨sign, numberStart 10 s, s.takeWhile isspace, hsplit, ?_, hsign, hall ▸ hne, ?_⟩
      · exact fun c hc => List.mem_takeWhile_imp hc
      · exact List.takeWhile_eq_self_iff.mp hall
  · rintro (rfl | ⟨sign, digits, h⟩)
    · decide
    · exact (numberDigits_isInteger h).2.1

/-- The number of an integer, if it fits in a word; a minus makes it another one. -/
theorem strtoul_isInteger {s sign digits : List UInt8} (h : IsInteger s sign digits) :
    (strtoul 10 s).erange = decide (2 ^ 64 ≤ numberOf 10 digits) ∧
      (sign ≠ ascii "-" → numberOf 10 digits < 2 ^ 64 →
        (strtoul 10 s).value.toNat = numberOf 10 digits) := by
  obtain ⟨hdigits, -, hnegated⟩ := numberDigits_isInteger h
  unfold strtoul
  rw [hdigits]
  dsimp only
  by_cases hrange : 2 ^ 64 ≤ numberOf 10 digits
  · rw [if_pos hrange]
    exact ⟨(decide_eq_true hrange).symm, fun _ hlt => absurd hrange (Nat.not_le.mpr hlt)⟩
  · rw [if_neg hrange]
    constructor
    · split
      · exact (decide_eq_false hrange).symm
      · exact (decide_eq_false hrange).symm
    · intro hsign hlt
      rw [if_neg fun hneg => hsign (hnegated.mp hneg), UInt64.toNat_ofNat', Nat.mod_eq_of_lt hlt]

/-- A numeral does not start with a minus. -/
theorem IsNumeral.head?_ne_minus {s : List UInt8} {n : ℕ} (h : IsNumeral s n) :
    s.head? ≠ some '-'.toUInt8 := by
  obtain ⟨hne, hdigits, -⟩ := h
  obtain ⟨c, rest, rfl⟩ := List.exists_cons_of_ne_nil hne
  intro hhead
  have hc := hdigits c List.mem_cons_self
  rw [Option.some.inj hhead] at hc
  exact absurd hc (by decide)

/-- **What `strtoul` reads to its end without an error**: nothing at all, or an integer whose digits
denote less than `2 ^ 64`. -/
theorem strtoul_whole_iff {s : List UInt8} :
    (strtoul 10 s).erange = false ∧ (strtoul 10 s).size = s.length ↔
      s = [] ∨ ∃ sign digits, IsInteger s sign digits ∧ numberOf 10 digits < 2 ^ 64 := by
  rw [strtoul_size, numberSize_eq_length_iff]
  constructor
  · rintro ⟨herange, rfl | ⟨sign, digits, h⟩⟩
    · exact Or.inl rfl
    · rw [(strtoul_isInteger h).1] at herange
      exact Or.inr ⟨sign, digits, h, Nat.lt_of_not_le (of_decide_eq_false herange)⟩
  · rintro (rfl | ⟨sign, digits, h, hlt⟩)
    · exact ⟨by decide, Or.inl rfl⟩
    · rw [(strtoul_isInteger h).1]
      exact ⟨decide_eq_false (Nat.not_le_of_lt hlt), Or.inr ⟨sign, digits, h⟩⟩

/-- **A numeral is read to its end**, with its number. -/
theorem strtoul_isNumeral {s : List UInt8} {n : ℕ} (h : IsNumeral s n) (hlt : n < 2 ^ 64) :
    (strtoul 10 s).erange = false ∧ (strtoul 10 s).size = s.length ∧
      (strtoul 10 s).value.toNat = n := by
  have hdigits : numberOf 10 s < 2 ^ 64 := lt_of_eq_of_lt h.2.2 hlt
  obtain ⟨herange, hsize⟩ := strtoul_whole_iff.mpr (Or.inr ⟨[], s, h.isInteger, hdigits⟩)
  refine ⟨herange, hsize, ?_⟩
  rw [(strtoul_isInteger h.isInteger).2 (by decide) hdigits]
  exact h.2.2

end AnylWallet.Helpers
