import AnylWallet.Eth.Web3
import AnylWallet.Helpers.Fromstring
import AnylWallet.Lib.LongDivision

/-!
# `helpers/fp2str`: a fixed-point number as text

* `fp2str` prints the whole part with `%d`, and the fraction digit by digit: it multiplies by ten in 32
  bits, and what is shifted out is the digit.
* `IsDecimalText`: the text is the decimal expansion of a number, with no superfluous zero. There is
  only one (`IsDecimalText.unique`).
* `fp2strLoop_fits`, `fp2strLoop_full`: the loop stores as many digits as long division finds, but of a
  digit only the bits that 32 bits have room for.
* `printsExactly_iff`: what `fp2str` prints right.
-/

namespace AnylWallet.Helpers

open AnylWallet.Lib
open AnylWallet.Eth (vsnprintf fmtInt)

/-! ## The code -/

/-- `(1 << digits) - 1`, as 32 bits. -/
def lowBits (digits : UInt8) : UInt32 := (1 : UInt32) <<< digits.toUInt32 - 1

/-- The loop of `fp2str`; `bufP` is an offset in `buf`, and `none` is a loop that has not ended. -/
def fp2strLoop (digits : UInt8) (bufLen : ℕ) :
    ℕ → UInt32 → Region → ℕ → Option (Region × ℤ)
  | 0, _, _, _ => none
  | fuel + 1, val, buf, bufP =>
      if val > 0 then
        if bufP = bufLen - 1 then some (buf, -1)
        else
          let val := val * 10
          let buf := buf.store bufP [('0'.toUInt8.toUInt32 + (val >>> digits.toUInt32)).toUInt8]
          let val := val &&& lowBits digits
          fp2strLoop digits bufLen fuel val buf (bufP + 1)
      else some (buf.store bufP [0], 0)

/-- `fp2str`, with at most `fuel` rounds; `snprintf` prints the 32 bits as an `int`, and does not fail.
Source: `helpers/fp2str.c` -/
def fp2str (fuel : ℕ) (val : UInt32) (digits : UInt8) (buf : Region) (bufLen : ℕ) :
    Option (Region × ℤ) :=
  let (buf, ret) :=
    vsnprintf buf 0 bufLen (fmtInt (((val >>> digits.toUInt32).toNat : ℤ).bmod (2 ^ 32)))
  if digits = 0 then some (buf, 0)
  else
    -- extract last n bits
    let val := val &&& lowBits digits
    if val = 0 then some (buf, 0)
    -- if there's frac part, at least three additional bytes are required
    else if ret + 2 + 1 > bufLen then some (buf, -1)
    else fp2strLoop digits bufLen fuel val (buf.store ret ['.'.toUInt8]) (ret + 1)

/-! ## The text -/

/-- The whole part, and the digits behind the point if there are any. -/
def decimalText (q : ℕ) (ds : List ℕ) : List UInt8 :=
  numeral 10 q ++ if ds = [] then [] else '.'.toUInt8 :: ds.map digit

/-- The text is the decimal expansion of a number. -/
def IsDecimalText (s : List UInt8) (x : ℚ) : Prop :=
  ∃ q ds, Expansion 10 q ds x ∧ s = decimalText q ds

/-- **A number has one decimal expansion.** -/
theorem IsDecimalText.unique {s t : List UInt8} {x : ℚ} (hs : IsDecimalText s x)
    (ht : IsDecimalText t x) : s = t := by
  obtain ⟨q, ds, h, rfl⟩ := hs
  obtain ⟨q', ds', h', rfl⟩ := ht
  obtain ⟨rfl, rfl⟩ := h.unique (by decide) h'
  rfl

/-- Digits are different characters. -/
theorem digit_injOn {d e : ℕ} (hd : d < 16) (he : e < 16) (h : digit d = digit e) : d = e := by
  rw [← hexValue_digit hd, h, hexValue_digit he]

/-- The text has no NUL. -/
theorem decimalText_ne_zero {q : ℕ} {ds : List ℕ} (h : ∀ d ∈ ds, d < 10) :
    ∀ c ∈ decimalText q ds, c ≠ 0 := by
  have hdigit : ∀ d, d < 10 → digit d ≠ 0 := by decide
  intro c hc
  rcases List.mem_append.mp hc with hc | hc
  · exact numeral_ne_zero (by decide) (by decide) c hc
  · split at hc
    · exact nomatch hc
    · rcases List.mem_cons.mp hc with rfl | hc
      · decide
      · obtain ⟨d, hd, rfl⟩ := List.mem_map.mp hc
        exact hdigit d (h d hd)

/-- It starts with a digit. -/
theorem decimalText_head (q : ℕ) (ds : List ℕ) :
    ∃ d rest, d < 10 ∧ decimalText q ds = digit d :: rest := by
  obtain ⟨c, rest, hc⟩ := List.exists_cons_of_ne_nil (numeral_ne_nil 10 q)
  obtain ⟨d, hd, rfl⟩ := exists_digit_of_mem_numeral (by decide) (hc ▸ List.mem_cons_self)
  refine ⟨d, rest ++ if ds = [] then [] else '.'.toUInt8 :: ds.map digit, hd, ?_⟩
  rw [decimalText, hc]
  rfl

/-! ## Printing an integer -/

/-- `%d` of what is an `int`. -/
theorem fmtInt_of_lt {q : ℕ} (h : q < 2 ^ 31) :
    fmtInt ((q : ℤ).bmod (2 ^ 32)) = numeral 10 q := by
  have hq : (q : ℤ).bmod (2 ^ 32) = q := sizeToInt_of_lt h
  rw [hq, fmtInt, if_neg (by omega), Int.natAbs_natCast]

/-- The other values of 32 bits are printed as negative numbers. -/
theorem fmtInt_of_ge {q : ℕ} (h : 2 ^ 31 ≤ q) (hlt : q < 2 ^ 32) :
    ∃ rest, fmtInt ((q : ℤ).bmod (2 ^ 32)) = '-'.toUInt8 :: rest := by
  have hq : (q : ℤ).bmod (2 ^ 32) = (q : ℤ) - 2 ^ 32 := by
    have hsize := sizeToInt_eq q
    rwa [Nat.mod_eq_of_lt hlt, if_pos h] at hsize
  have hminus : ascii "-" = ['-'.toUInt8] := by decide
  rw [hq, fmtInt, if_pos (by omega), hminus]
  exact ⟨_, rfl⟩

/-- A text that has room is stored with its NUL. -/
theorem vsnprintf_of_lt {text : List UInt8} {size : ℕ} (h : text.length < size) (m : Region) :
    (vsnprintf m 0 size text).1 = m.store 0 (text ++ [0]) := by
  rw [vsnprintf, if_neg (by omega), List.take_of_length_le (by omega)]

/-- What the buffer holds of a text that is not empty starts as the text does. -/
theorem byte_vsnprintf {c : UInt8} {rest : List UInt8} {size : ℕ} (h : 1 < size) (m : Region) :
    (vsnprintf m 0 size (c :: rest)).1.byte 0 = c := by
  have htake : (c :: rest).take (size - 1) ++ [0] = c :: (rest.take (size - 2) ++ [0]) := by
    rw [show size - 1 = size - 2 + 1 by omega, List.take_succ_cons, List.cons_append]
  rw [vsnprintf, if_neg (by omega), htake]
  exact @Region.byte_store_add m 0 0 (c :: (rest.take (size - 2) ++ [0])) (Nat.zero_lt_succ _)

/-! ## One round -/

section

variable {digits : UInt8} (hdigits : digits.toNat ≤ 31)

include hdigits

/-- The number that is shifted by. -/
theorem toNat_shift_mod : digits.toUInt32.toNat % 32 = digits.toNat := by
  rw [UInt8.toNat_toUInt32, Nat.mod_eq_of_lt (by omega)]

theorem toNat_lowBits : (lowBits digits).toNat = 2 ^ digits.toNat - 1 := by
  have hlt : 2 ^ digits.toNat < 2 ^ 32 := Nat.pow_lt_pow_right (by decide) (by omega)
  have hpos : 0 < 2 ^ digits.toNat := Nat.two_pow_pos _
  have hshift : ((1 : UInt32) <<< digits.toUInt32).toNat = 2 ^ digits.toNat := by
    rw [UInt32.toNat_shiftLeft, toNat_shift_mod hdigits, UInt32.toNat_one, Nat.one_shiftLeft,
      Nat.mod_eq_of_lt hlt]
  have hle : (1 : UInt32) ≤ 1 <<< digits.toUInt32 := by
    rw [UInt32.le_iff_toNat_le, hshift, UInt32.toNat_one]
    exact hpos
  rw [lowBits, UInt32.toNat_sub_of_le _ _ hle, hshift, UInt32.toNat_one]

/-- The fraction. -/
theorem toNat_and_lowBits (val : UInt32) :
    (val &&& lowBits digits).toNat = val.toNat % 2 ^ digits.toNat := by
  rw [UInt32.toNat_and, toNat_lowBits hdigits, Nat.and_two_pow_sub_one_eq_mod]

/-- The whole part. -/
theorem toNat_shiftRight (val : UInt32) :
    (val >>> digits.toUInt32).toNat = val.toNat / 2 ^ digits.toNat := by
  rw [UInt32.toNat_shiftRight, toNat_shift_mod hdigits, Nat.shiftRight_eq_div_pow]

/-- **The digit that is stored**: of the one that long division finds, the bits that 32 bits have room
for. -/
theorem fp2str_digit {val : UInt32} (hval : val.toNat < 2 ^ digits.toNat) :
    ('0'.toUInt8.toUInt32 + ((val * 10) >>> digits.toUInt32)).toUInt8 =
      digit (val.toNat * 10 / 2 ^ digits.toNat % 2 ^ (32 - digits.toNat)) := by
  have hsplit : 2 ^ 32 = 2 ^ digits.toNat * 2 ^ (32 - digits.toNat) := by
    rw [← pow_add, Nat.add_sub_cancel' (by omega)]
  have hshift : ((val * 10) >>> digits.toUInt32).toNat =
      val.toNat * 10 / 2 ^ digits.toNat % 2 ^ (32 - digits.toNat) := by
    rw [toNat_shiftRight hdigits, UInt32.toNat_mul, hsplit, Nat.mod_mul_right_div_self]
    rfl
  have hten : val.toNat * 10 / 2 ^ digits.toNat < 10 := by
    rw [Nat.div_lt_iff_lt_mul (Nat.two_pow_pos _), Nat.mul_comm 10]
    exact Nat.mul_lt_mul_of_pos_right hval (by decide)
  have hlt := Nat.lt_of_le_of_lt (Nat.mod_le _ (2 ^ (32 - digits.toNat))) hten
  rw [← hshift] at hlt ⊢
  have hzero : '0'.toUInt8.toUInt32.toNat = 48 := by decide
  rw [digit, if_pos hlt]
  apply UInt8.toNat_inj.mp
  rw [UInt32.toNat_toUInt8, UInt32.toNat_add, hzero, UInt8.toNat_ofNat']
  omega

/-- **One round**: the next character, and the next remainder. -/
theorem fp2strLoop_step {bufLen fuel bufP : ℕ} {val : UInt32} (hval : val.toNat < 2 ^ digits.toNat)
    (hne : val.toNat ≠ 0) (hroom : bufP ≠ bufLen - 1) (buf : Region) :
    ∃ next : UInt32, next.toNat = val.toNat * 10 % 2 ^ digits.toNat ∧
      fp2strLoop digits bufLen (fuel + 1) val buf bufP =
        fp2strLoop digits bufLen fuel next (buf.store bufP
          [digit (val.toNat * 10 / 2 ^ digits.toNat % 2 ^ (32 - digits.toNat))]) (bufP + 1) := by
  have hpos : val > 0 := UInt32.lt_iff_toNat_lt.mpr (Nat.pos_of_ne_zero hne)
  have hdvd : 2 ^ digits.toNat ∣ 2 ^ 32 := pow_dvd_pow 2 (by omega)
  refine ⟨val * 10 &&& lowBits digits, ?_, ?_⟩
  · rw [toNat_and_lowBits hdigits, UInt32.toNat_mul, Nat.mod_mod_of_dvd _ hdvd]
    rfl
  · rw [fp2strLoop, if_pos hpos, if_neg hroom, ← fp2str_digit hdigits hval]

/-! ## The loop -/

/-- **The digits and the NUL have room.** -/
theorem fp2strLoop_fits {k bufLen fuel bufP : ℕ} {val : UInt32}
    (hval : val.toNat < 2 ^ digits.toNat) (hend : val.toNat * 10 ^ k % 2 ^ digits.toNat = 0)
    (hfuel : k < fuel)
    (hfits : bufP + (longDivision 10 (2 ^ digits.toNat) k val.toNat).length < bufLen)
    (buf : Region) :
    fp2strLoop digits bufLen fuel val buf bufP =
      some (buf.store bufP ((longDivision 10 (2 ^ digits.toNat) k val.toNat).map
        (fun d => digit (d % 2 ^ (32 - digits.toNat))) ++ [0]), 0) := by
  have hdone : ∀ {k fuel bufP : ℕ} {val : UInt32} (buf : Region), val.toNat = 0 →
      fp2strLoop digits bufLen (fuel + 1) val buf bufP =
        some (buf.store bufP ((longDivision 10 (2 ^ digits.toNat) k val.toNat).map
          (fun d => digit (d % 2 ^ (32 - digits.toNat))) ++ [0]), 0) := by
    intro k fuel bufP val buf h0
    have hval0 : val = 0 := UInt32.toNat_inj.mp h0
    rw [h0, longDivision_zero, fp2strLoop, hval0, if_neg (by decide)]
    rfl
  induction fuel generalizing k val buf bufP with
  | zero => omega
  | succ fuel ih =>
      by_cases h0 : val.toNat = 0
      · exact hdone buf h0
      · cases k with
        | zero =>
            rw [pow_zero, Nat.mul_one, Nat.mod_eq_of_lt hval] at hend
            exact absurd hend h0
        | succ k =>
            rw [longDivision, if_neg h0, List.length_cons] at hfits
            obtain ⟨next, hnext, hstep⟩ :=
              @fp2strLoop_step digits hdigits bufLen fuel bufP val hval h0 (by omega) buf
            rw [← hnext] at hfits
            have hrest := @ih k (bufP + 1) next (hnext ▸ Nat.mod_lt _ (Nat.two_pow_pos _))
              (by rw [hnext]; exact (mod_next _ _ _ _).trans hend) (by omega) (by omega)
              (buf.store bufP
                [digit (val.toNat * 10 / 2 ^ digits.toNat % 2 ^ (32 - digits.toNat))])
            rw [hstep, hrest, longDivision, if_neg h0, ← hnext, List.map_cons]
            exact congrArg (fun m => some (m, 0)) (buf.store_append bufP [_] _)

/-- **They have no room.** -/
theorem fp2strLoop_full {k bufLen fuel bufP : ℕ} {val : UInt32}
    (hval : val.toNat < 2 ^ digits.toNat) (hend : val.toNat * 10 ^ k % 2 ^ digits.toNat = 0)
    (hfuel : k < fuel) (hbuf : bufP < bufLen)
    (hfull : bufLen ≤ bufP + (longDivision 10 (2 ^ digits.toNat) k val.toNat).length)
    (buf : Region) : ∃ after, fp2strLoop digits bufLen fuel val buf bufP = some (after, -1) := by
  induction fuel generalizing k val buf bufP with
  | zero => omega
  | succ fuel ih =>
      have h0 : val.toNat ≠ 0 := by
        intro h0
        rw [h0, longDivision_zero, List.length_nil] at hfull
        omega
      by_cases hroom : bufP = bufLen - 1
      · have hpos : val > 0 := UInt32.lt_iff_toNat_lt.mpr (Nat.pos_of_ne_zero h0)
        rw [fp2strLoop, if_pos hpos, if_pos hroom]
        exact ⟨_, rfl⟩
      · cases k with
        | zero =>
            rw [pow_zero, Nat.mul_one, Nat.mod_eq_of_lt hval] at hend
            exact absurd hend h0
        | succ k =>
            obtain ⟨next, hnext, hstep⟩ :=
              @fp2strLoop_step digits hdigits bufLen fuel bufP val hval h0 hroom buf
            rw [longDivision, if_neg h0, List.length_cons, ← hnext] at hfull
            rw [hstep]
            exact @ih k (bufP + 1) next (hnext ▸ Nat.mod_lt _ (Nat.two_pow_pos _))
              (by rw [hnext]; exact (mod_next _ _ _ _).trans hend) (by omega) (by omega) (by omega)
              _

/-! ## The whole function -/

/-- **Without a fraction** only the whole part is printed. -/
theorem fp2str_whole {val : UInt32} (h : val.toNat % 2 ^ digits.toNat = 0) (fuel : ℕ)
    (buf : Region) (bufLen : ℕ) :
    fp2str fuel val digits buf bufLen =
      some ((vsnprintf buf 0 bufLen
        (fmtInt (((val.toNat / 2 ^ digits.toNat : ℕ) : ℤ).bmod (2 ^ 32)))).1, 0) := by
  have h0 : val &&& lowBits digits = 0 := by
    apply UInt32.toNat_inj.mp
    rw [toNat_and_lowBits hdigits, h, UInt32.toNat_zero]
  unfold fp2str
  rw [toNat_shiftRight hdigits, h0]
  dsimp only
  split
  · rfl
  · rfl

/-- **With a fraction** at least three bytes must be left. -/
theorem fp2str_fraction {val : UInt32} (h : val.toNat % 2 ^ digits.toNat ≠ 0) (fuel : ℕ)
    (buf : Region) {bufLen q : ℕ} (hq : q = val.toNat / 2 ^ digits.toNat) :
    fp2str fuel val digits buf bufLen =
      if (numeral 10 q).length + 2 + 1 > bufLen then
        some ((vsnprintf buf 0 bufLen (numeral 10 q)).1, -1)
      else
        fp2strLoop digits bufLen fuel (val &&& lowBits digits)
          (buf.store 0 (numeral 10 q ++ ['.'.toUInt8])) ((numeral 10 q).length + 1) := by
  have hne : val &&& lowBits digits ≠ 0 := by
    intro h0
    apply h
    rw [← toNat_and_lowBits hdigits, h0, UInt32.toNat_zero]
  have hd0 : digits ≠ 0 := by
    rintro rfl
    exact h (Nat.mod_one _)
  have hdpos : digits.toNat ≠ 0 := fun h0 => hd0 (UInt8.toNat_inj.mp h0)
  have hsmall : q < 2 ^ 31 := by
    have hlt := val.toNat_lt
    have hpow : 2 ^ 1 ≤ 2 ^ digits.toNat := Nat.pow_le_pow_right (by decide) (by omega)
    rw [hq, Nat.div_lt_iff_lt_mul (Nat.two_pow_pos _)]
    exact Nat.lt_of_lt_of_le hlt (Nat.mul_le_mul_left (2 ^ 31) hpow)
  have hlen : ∀ m size, (vsnprintf m 0 size (numeral 10 q)).2 = (numeral 10 q).length := by
    intro m size
    unfold vsnprintf
    split <;> rfl
  unfold fp2str
  rw [toNat_shiftRight hdigits, ← hq, fmtInt_of_lt hsmall]
  dsimp only
  rw [if_neg hd0, if_neg hne, hlen]
  by_cases hroom : (numeral 10 q).length + 2 + 1 > bufLen
  · rw [if_pos hroom, if_pos hroom]
  · have hstore := @Region.store_over buf 0 (numeral 10 q).length (numeral 10 q) [0]
      ['.'.toUInt8] [] (Nat.zero_add _).symm rfl
    rw [List.append_nil, List.append_nil] at hstore
    rw [if_neg hroom, if_neg hroom, vsnprintf_of_lt (by omega), hstore]

end

/-! ## What is printed right -/

/-- The digits of `val / 2 ^ digits` behind the point. -/
def fractionDigits (val : UInt32) (digits : UInt8) : List ℕ :=
  longDivision 10 (2 ^ digits.toNat) digits.toNat (val.toNat % 2 ^ digits.toNat)

/-- The decimal expansion of `val / 2 ^ digits`. -/
def exactText (val : UInt32) (digits : UInt8) : List UInt8 :=
  decimalText (val.toNat / 2 ^ digits.toNat) (fractionDigits val digits)

/-- `fp2str` ends; it reports success only with the decimal expansion of `val / 2 ^ digits` and its NUL
in the buffer, and a failure when they have no room there. -/
def PrintsExactly (val : UInt32) (digits : UInt8) (bufLen : ℕ) : Prop :=
  ∀ (buf : Region) (fuel : ℕ), 32 ≤ fuel →
    ∃ after ret, fp2str fuel val digits buf bufLen = some (after, ret) ∧
      (ret = 0 → ∃ text, IsDecimalText text (val.toNat / 2 ^ digits.toNat) ∧
        text.length + 1 ≤ bufLen ∧ after.HoldsString 0 text) ∧
      ∀ text, IsDecimalText text (val.toNat / 2 ^ digits.toNat) →
        bufLen < text.length + 1 → ret < 0

/-- A number without a fraction is an `int`, and its numeral has room. One with a fraction has no room,
or 32 bits are enough for ten times what is left at any step: always with up to 28 fraction bits, with
29 if there is no digit 8 or 9, and never with more. -/
def StaysInWord (val : UInt32) (digits : UInt8) (bufLen : ℕ) : Prop :=
  if val.toNat % 2 ^ digits.toNat = 0 then
    val.toNat / 2 ^ digits.toNat < 2 ^ 31 ∧
      (numeral 10 (val.toNat / 2 ^ digits.toNat)).length < bufLen
  else
    bufLen ≤ (exactText val digits).length ∨ digits.toNat ≤ 28 ∨
      (digits.toNat = 29 ∧ ∀ d ∈ fractionDigits val digits, d < 8)

section

variable {val : UInt32} {digits : UInt8}

/-- Long division by a power of two comes to an end. -/
theorem fraction_ends (val : UInt32) (digits : UInt8) :
    val.toNat % 2 ^ digits.toNat * 10 ^ digits.toNat % 2 ^ digits.toNat = 0 := by
  have hten : 10 ^ digits.toNat = 2 ^ digits.toNat * 5 ^ digits.toNat := by
    rw [← Nat.mul_pow]
  rw [hten, Nat.mul_left_comm]
  exact Nat.mul_mod_right _ _

/-- The digits behind the point belong to the number. -/
theorem expansion_fractionDigits (val : UInt32) (digits : UInt8) :
    Expansion 10 (val.toNat / 2 ^ digits.toNat) (fractionDigits val digits)
      (val.toNat / 2 ^ digits.toNat) := by
  have hpow : (2 : ℚ) ^ digits.toNat ≠ 0 := pow_ne_zero _ (by norm_num)
  have hvalue : ((val.toNat / 2 ^ digits.toNat : ℕ) : ℚ) +
      ((val.toNat % 2 ^ digits.toNat : ℕ) : ℚ) / ((2 ^ digits.toNat : ℕ) : ℚ) =
        val.toNat / 2 ^ digits.toNat := by
    have hsum : ((2 ^ digits.toNat * (val.toNat / 2 ^ digits.toNat) +
        val.toNat % 2 ^ digits.toNat : ℕ) : ℚ) = val.toNat :=
      congrArg Nat.cast (Nat.div_add_mod val.toNat (2 ^ digits.toNat))
    rw [Nat.cast_add, Nat.cast_mul] at hsum
    rw [← hsum]
    push_cast
    field_simp
  rw [← hvalue]
  exact expansion_longDivision _ (by decide) (Nat.mod_lt _ (Nat.two_pow_pos _))
    (fraction_ends val digits)

/-- **The exact text.** -/
theorem isDecimalText_iff {text : List UInt8} :
    IsDecimalText text (val.toNat / 2 ^ digits.toNat) ↔
      text = exactText val digits := by
  have hexact : IsDecimalText _ _ := ⟨_, _, expansion_fractionDigits val digits, rfl⟩
  constructor
  · intro h
    exact h.unique hexact
  · rintro rfl
    exact hexact

/-- The loop is entered with the fraction. -/
theorem fraction_entered (hdigits : digits.toNat ≤ 31) :
    (val &&& lowBits digits).toNat < 2 ^ digits.toNat ∧
      (val &&& lowBits digits).toNat * 10 ^ digits.toNat % 2 ^ digits.toNat = 0 ∧
      longDivision 10 (2 ^ digits.toNat) digits.toNat (val &&& lowBits digits).toNat =
        fractionDigits val digits := by
  rw [toNat_and_lowBits hdigits]
  exact ⟨Nat.mod_lt _ (Nat.two_pow_pos _), fraction_ends val digits, rfl⟩

/-- Without a fraction there are no digits. -/
theorem fractionDigits_eq_nil (h : val.toNat % 2 ^ digits.toNat = 0) :
    fractionDigits val digits = [] := by
  rw [fractionDigits, h, longDivision_zero]

/-- The last digit of a fraction is a five. -/
theorem mem_fractionDigits_five (h : val.toNat % 2 ^ digits.toNat ≠ 0) :
    5 ∈ fractionDigits val digits := by
  obtain ⟨d, r, hd, hr, heq⟩ := exists_last_longDivision (Nat.mod_lt _ (Nat.two_pow_pos _)) h
    (fraction_ends val digits)
  have hmem : d ∈ fractionDigits val digits := List.mem_of_getLast? hd
  have hlt := (expansion_fractionDigits val digits).lt d hmem
  have hdvd : 5 ∣ d := by
    have hprod : 5 ∣ d * 2 ^ digits.toNat := heq ▸ Dvd.intro_left (r * 2) (by omega)
    exact (Nat.Coprime.pow_right digits.toNat (by decide)).dvd_of_dvd_mul_right hprod
  have hpos : d ≠ 0 := by
    rintro rfl
    omega
  obtain rfl : d = 5 := by omega
  exact hmem

/-- **When no digit loses a bit.** -/
theorem digits_fit_iff (hdigits : digits.toNat ≤ 31) (h : val.toNat % 2 ^ digits.toNat ≠ 0) :
    (∀ d ∈ fractionDigits val digits, d < 2 ^ (32 - digits.toNat)) ↔
      digits.toNat ≤ 28 ∨ (digits.toNat = 29 ∧ ∀ d ∈ fractionDigits val digits, d < 8) := by
  constructor
  · intro hfit
    by_cases h28 : digits.toNat ≤ 28
    · exact Or.inl h28
    · have h29 : digits.toNat = 29 := by
        by_contra h29
        have hfive := hfit 5 (mem_fractionDigits_five h)
        have hpow : 2 ^ (32 - digits.toNat) ≤ 2 ^ 2 := Nat.pow_le_pow_right (by decide) (by omega)
        omega
      rw [h29] at hfit
      exact Or.inr ⟨h29, hfit⟩
  · rintro (h28 | ⟨h29, hfit⟩) d hd
    · have hlt := (expansion_fractionDigits val digits).lt d hd
      have hpow : 2 ^ 4 ≤ 2 ^ (32 - digits.toNat) := Nat.pow_le_pow_right (by decide) (by omega)
      omega
    · rw [h29]
      exact hfit d hd

/-- A text that starts with a minus sign is not the one of such a number. -/
theorem not_isDecimalText_minus {m : Region} {text : List UInt8} {x : ℚ}
    (h : IsDecimalText text x) (hm : m.HoldsString 0 text) (hbyte : m.byte 0 = '-'.toUInt8) :
    False := by
  have hall : ∀ d, d < 10 → digit d ≠ '-'.toUInt8 := by decide
  obtain ⟨q, ds, -, rfl⟩ := h
  obtain ⟨d, rest, hd, htext⟩ := decimalText_head q ds
  rw [htext] at hm
  obtain ⟨-, hbytes, -⟩ := Region.holdsString_iff.mp hm
  exact hall d hd ((hbytes 0 _ rfl).symm.trans hbyte)

/-- Numbers without a fraction. -/
theorem printsExactly_whole_iff (hdigits : digits.toNat ≤ 31)
    (h : val.toNat % 2 ^ digits.toNat = 0) (bufLen : ℕ) :
    PrintsExactly val digits bufLen ↔
      val.toNat / 2 ^ digits.toNat < 2 ^ 31 ∧
        (numeral 10 (val.toNat / 2 ^ digits.toNat)).length < bufLen := by
  have htext : exactText val digits = numeral 10 (val.toNat / 2 ^ digits.toNat) := by
    rw [exactText, fractionDigits_eq_nil h, decimalText, if_pos rfl, List.append_nil]
  have hlt : val.toNat / 2 ^ digits.toNat < 2 ^ 32 :=
    Nat.lt_of_le_of_lt (Nat.div_le_self _ _) val.toNat_lt
  constructor
  · intro hprints
    obtain ⟨after, ret, hrun, hzero, -⟩ := hprints ⟨fun _ => 0, 0⟩ 32 le_rfl
    rw [fp2str_whole hdigits h] at hrun
    obtain ⟨rfl, rfl⟩ := Prod.mk.inj (Option.some.inj hrun)
    obtain ⟨text, hdecimal, hroom, hholds⟩ := hzero rfl
    have hlen : text.length = (numeral 10 (val.toNat / 2 ^ digits.toNat)).length := by
      rw [isDecimalText_iff.mp hdecimal, htext]
    have hpos := length_numeral_pos 10 (val.toNat / 2 ^ digits.toNat)
    refine ⟨?_, by omega⟩
    by_contra hge
    -- `%d` prints a minus sign
    obtain ⟨rest, hminus⟩ := fmtInt_of_ge (Nat.not_lt.mp hge) hlt
    rw [hminus] at hholds
    exact not_isDecimalText_minus hdecimal hholds (byte_vsnprintf (by omega) _)
  · rintro ⟨hint, hroom⟩ buf fuel -
    refine ⟨_, 0, fp2str_whole hdigits h fuel buf bufLen, fun _ => ?_, fun text hdecimal hfull => ?_⟩
    · refine ⟨_, isDecimalText_iff.mpr rfl, by rw [htext]; omega, ?_⟩
      rw [htext, fmtInt_of_lt hint, vsnprintf_of_lt hroom]
      exact buf.holdsString_store 0 (numeral_ne_zero (by decide) (by decide))
    · rw [isDecimalText_iff.mp hdecimal, htext] at hfull
      omega

/-- The text that is stored: of every digit the bits that 32 bits have room for. -/
def cutText (val : UInt32) (digits : UInt8) : List UInt8 :=
  decimalText (val.toNat / 2 ^ digits.toNat)
    ((fractionDigits val digits).map (· % 2 ^ (32 - digits.toNat)))

section

variable (hdigits : digits.toNat ≤ 31) (h : val.toNat % 2 ^ digits.toNat ≠ 0)

include h

/-- The length of the exact text. -/
theorem length_exactText :
    (exactText val digits).length = (numeral 10 (val.toNat / 2 ^ digits.toNat)).length + 1 +
      (fractionDigits val digits).length := by
  have hne : fractionDigits val digits ≠ [] := List.ne_nil_of_mem (mem_fractionDigits_five h)
  rw [exactText, decimalText, if_neg hne, List.length_append, List.length_cons, List.length_map]
  omega

/-- The text that is stored is the exact one only if no digit loses a bit. -/
theorem cutText_eq_iff :
    cutText val digits = exactText val digits ↔
      ∀ d ∈ fractionDigits val digits, d < 2 ^ (32 - digits.toNat) := by
  have hne : fractionDigits val digits ≠ [] := List.ne_nil_of_mem (mem_fractionDigits_five h)
  have hten := (expansion_fractionDigits val digits).lt
  constructor
  · intro heq d hd
    rw [cutText, exactText, decimalText, decimalText, if_neg hne,
      if_neg (fun hnil => hne (List.map_eq_nil_iff.mp hnil)), List.map_map] at heq
    have htail := (List.cons.inj (List.append_cancel_left heq)).2
    have hdigit : digit (d % 2 ^ (32 - digits.toNat)) = digit d := List.map_inj_left.mp htail d hd
    have hlt := hten d hd
    have hmod := Nat.mod_le d (2 ^ (32 - digits.toNat))
    rw [← digit_injOn (by omega) (by omega) hdigit]
    exact Nat.mod_lt _ (Nat.two_pow_pos _)
  · intro hfit
    have hmap : (fractionDigits val digits).map (· % 2 ^ (32 - digits.toNat)) =
        fractionDigits val digits := by
      refine (List.map_congr_left fun d hd => ?_).trans (List.map_id _)
      exact Nat.mod_eq_of_lt (hfit d hd)
    rw [cutText, exactText, hmap]

include hdigits

/-- **A number with a fraction whose text has room.** -/
theorem fp2str_fits {fuel bufLen : ℕ} (hfuel : 32 ≤ fuel)
    (hroom : (exactText val digits).length < bufLen) (buf : Region) :
    fp2str fuel val digits buf bufLen = some (buf.store 0 (cutText val digits ++ [0]), 0) := by
  have hne : fractionDigits val digits ≠ [] := List.ne_nil_of_mem (mem_fractionDigits_five h)
  have hpos := List.length_pos_iff.mpr hne
  obtain ⟨hlt, hend, hdiv⟩ := fraction_entered hdigits
  rw [length_exactText h] at hroom
  have hloop := fp2strLoop_fits hdigits hlt hend (show digits.toNat < fuel by omega)
    (show (numeral 10 (val.toNat / 2 ^ digits.toNat)).length + 1 + _ < bufLen by
      rw [hdiv]; exact hroom)
    (buf.store 0 (numeral 10 (val.toNat / 2 ^ digits.toNat) ++ ['.'.toUInt8]))
  have hstore := buf.store_append 0 (numeral 10 (val.toNat / 2 ^ digits.toNat) ++ ['.'.toUInt8])
    ((fractionDigits val digits).map (fun d => digit (d % 2 ^ (32 - digits.toNat))) ++ [0])
  have htext : cutText val digits ++ [0] =
      (numeral 10 (val.toNat / 2 ^ digits.toNat) ++ ['.'.toUInt8]) ++
        ((fractionDigits val digits).map (fun d => digit (d % 2 ^ (32 - digits.toNat))) ++ [0]) := by
    rw [cutText, decimalText, if_neg (fun hnil => hne (List.map_eq_nil_iff.mp hnil)),
      List.map_map, List.append_assoc, List.append_assoc]
    rfl
  rw [List.length_append, List.length_singleton, Nat.zero_add] at hstore
  rw [fp2str_fraction hdigits h fuel buf rfl, if_neg (by omega), hloop, hdiv, hstore, htext]

/-- **A number with a fraction whose text has no room.** -/
theorem fp2str_full {fuel bufLen : ℕ} (hfuel : 32 ≤ fuel)
    (hroom : bufLen ≤ (exactText val digits).length) (buf : Region) :
    ∃ after, fp2str fuel val digits buf bufLen = some (after, -1) := by
  obtain ⟨hlt, hend, hdiv⟩ := fraction_entered hdigits
  rw [length_exactText h] at hroom
  rw [fp2str_fraction hdigits h fuel buf rfl]
  split
  · exact ⟨_, rfl⟩
  · exact fp2strLoop_full hdigits hlt hend (show digits.toNat < fuel by omega) (by omega)
      (by rw [hdiv]; exact hroom) _

/-- Numbers with a fraction. -/
theorem printsExactly_fraction_iff (bufLen : ℕ) :
    PrintsExactly val digits bufLen ↔
      bufLen ≤ (exactText val digits).length ∨ cutText val digits = exactText val digits := by
  have hcut : ∀ c ∈ cutText val digits, c ≠ 0 := by
    apply decimalText_ne_zero
    intro d hd
    obtain ⟨e, he, rfl⟩ := List.mem_map.mp hd
    exact Nat.lt_of_le_of_lt (Nat.mod_le _ _) ((expansion_fractionDigits val digits).lt e he)
  constructor
  · intro hprints
    rcases Nat.lt_or_ge (exactText val digits).length bufLen with hroom | hroom
    · obtain ⟨after, ret, hrun, hzero, -⟩ := hprints ⟨fun _ => 0, 0⟩ 32 le_rfl
      rw [fp2str_fits hdigits h le_rfl hroom] at hrun
      obtain ⟨rfl, rfl⟩ := Prod.mk.inj (Option.some.inj hrun)
      obtain ⟨text, hdecimal, -, hholds⟩ := hzero rfl
      have hstored := Region.holdsString_store ⟨fun _ => 0, 0⟩ 0 hcut
      exact Or.inr ((hstored.unique hholds).trans (isDecimalText_iff.mp hdecimal))
    · exact Or.inl hroom
  · intro hcond buf fuel hfuel
    rcases Nat.lt_or_ge (exactText val digits).length bufLen with hroom | hroom
    · have heq := hcond.resolve_left (Nat.not_le.mpr hroom)
      refine ⟨_, 0, fp2str_fits hdigits h hfuel hroom buf, fun _ => ?_, fun text hdecimal hfull => ?_⟩
      · refine ⟨_, isDecimalText_iff.mpr rfl, hroom, ?_⟩
        rw [← heq]
        exact buf.holdsString_store 0 hcut
      · rw [isDecimalText_iff.mp hdecimal] at hfull
        omega
    · obtain ⟨after, hrun⟩ := fp2str_full hdigits h hfuel hroom buf
      exact ⟨after, -1, hrun, fun hzero => absurd hzero (by decide), fun _ _ _ => by decide⟩

end

end

/-- **What `fp2str` prints right.** Where the fraction is zero the whole part is printed as an
`int`, if the buffer has room for it. Any other number is refused where there is no room, and
otherwise right up to 28 fraction bits, for some numbers with 29, and for none with more, where the
products of the loop no longer fit. -/
theorem printsExactly_iff {val : UInt32} {digits : UInt8} {bufLen : ℕ}
    (hdigits : digits.toNat ≤ 31) :
    PrintsExactly val digits bufLen ↔ StaysInWord val digits bufLen := by
  unfold StaysInWord
  split
  · rename_i h
    exact printsExactly_whole_iff hdigits h bufLen
  · rename_i h
    rw [printsExactly_fraction_iff hdigits h, cutText_eq_iff h, digits_fit_iff hdigits h]

/-- 3.75 from `0b1111` with two fraction bits. -/
theorem printsExactly_three_point_seven_five : PrintsExactly 0b1111 2 32 :=
  (@printsExactly_iff 0b1111 2 32 (by decide)).mpr (by
    unfold StaysInWord
    rw [if_neg (by decide)]
    exact Or.inr (Or.inl (by decide)))

/-- The largest number of 32 bits, without a fraction, is printed as -1. -/
theorem not_printsExactly_max :
    ¬ ∀ (val : UInt32) (digits : UInt8) (bufLen : ℕ), digits.toNat ≤ 31 → 1 ≤ bufLen →
      PrintsExactly val digits bufLen := by
  intro hall
  have hmax := (@printsExactly_whole_iff 0xFFFFFFFF 0 (by decide) (Nat.mod_one _) 32).mp
    (hall 0xFFFFFFFF 0 32 (by decide) (by decide))
  exact absurd hmax.1 (by decide)

end AnylWallet.Helpers
