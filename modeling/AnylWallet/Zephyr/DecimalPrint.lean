import AnylWallet.Eth.Web3
import AnylWallet.Helpers.DecimalText
import AnylWallet.Helpers.Math
import AnylWallet.Helpers.TostringNumeral

/-!
# `zephyr-wallet/utils`: printing an amount of a token

* `printkUint256Int` prints a number from a buffer of 65 bytes, and `shellPrintDecimalU256` divides by
  a power of ten, which it computes in 64 bits, and prints the two results around a point.
* `printkUint256Int_eq`: what is printed for a number that has room in the buffer, and
  `shellPrintDecimalU256_eq`: what for an amount.
* `printsDecimal_iff`: the amounts that are printed as they are.
-/

namespace AnylWallet.Zephyr

open AnylWallet.Lib AnylWallet.Helpers AnylWallet.Eth

/-! ## The code -/

/-- Why nothing defined is printed. -/
inductive PrintFault where
  /-- The division never ends. -/
  | endless
  /-- The NUL is stored behind the buffer. -/
  | overrun
  /-- There is no NUL in the buffer. -/
  | unterminated
deriving DecidableEq, Repr

/-- `FMT_FIXED`. Source: `zephyr-wallet/utils.h` -/
def fmtFixed : UInt8 := (1 : UInt8) <<< 0

/-- `FMT_NO_TRAIL_ZERO`. Source: `zephyr-wallet/utils.h` -/
def fmtNoTrailZero : UInt8 := (1 : UInt8) <<< 1

/-- `sizeof(buf)`. -/
def printSize : ℕ := 64 + 1

/-- The zeros in front: the digits are moved up, and what they leave is filled. -/
def padZeros (buf : Region) (bufLen decimals : ℕ) : Region :=
  (buf.move (decimals - bufLen) 0 bufLen).store 0 (List.replicate (decimals - bufLen) '0'.toUInt8)

/-- The loop that ends the string at its last character other than `0`, from index `i` down. -/
def trimLoop : ℕ → Region → Region
  | 0, buf => buf
  | i + 1, buf =>
      if buf.byte (i + 1) ≠ '0'.toUInt8 then buf else trimLoop i (buf.store (i + 1) [0])

/-- `printk_uint256_int`: the text it prints. Source: `zephyr-wallet/utils.c` -/
def printkUint256Int (fuel : ℕ) (v : Uint256) (decimals fmt : UInt8) :
    Except PrintFault (List UInt8) :=
  match tostring256At fuel v 10 ⟨fun _ => 0, 0⟩ 0 printSize with
  | none => .error .endless
  | some (buf, _) =>
      if printSize < buf.top then .error .overrun
      else
        let bufLen := strlenLoop buf printSize 0
        if bufLen = printSize then .error .unterminated
        else if decimals.toNat > printSize - 1 then
          .ok (ascii "<printk_uint256_int() conversion error>")
        else
          let buf := if fmt &&& fmtFixed ≠ 0 ∧ bufLen < decimals.toNat then
            padZeros buf bufLen decimals.toNat else buf
          -- an `unsigned int`
          let i := (2 ^ 32 - 1 + strlenLoop buf printSize 0) % 2 ^ 32
          let buf := if fmt &&& fmtNoTrailZero ≠ 0 then trimLoop i buf else buf
          .ok (buf.load 0 (strlenLoop buf printSize 0))

/-- The objects of `shell_print_decimal_u256` before the division: `val` at 0, `decimals_u256` at 1,
`div_u256` and `mod_u256`. -/
def printObjects (val decimalsU256 : Uint256) (o : ℕ) : Uint256 :=
  if o = 0 then val else if o = 1 then decimalsU256 else clear256

/-- `shell_print_decimal_u256`: the text it prints. Source: `zephyr-wallet/utils.c` -/
def shellPrintDecimalU256 (fuel : ℕ) (val : Uint256) (decimals : UInt8) :
    Except PrintFault (List UInt8) :=
  let decimalsU256 := { clear256 with lower := { clear256.lower with lower := ipow 10 decimals } }
  match divmod256At fuel (printObjects val decimalsU256) 0 1 2 3 with
  | none => .error .endless
  | some mem => do
      let div ← printkUint256Int fuel (mem 2) 0 0
      let mod ← printkUint256Int fuel (mem 3) decimals (fmtFixed ||| fmtNoTrailZero)
      .ok (div ++ ascii "." ++ mod ++ ascii "\n")

/-- What is printed is a decimal numeral of the amount. -/
def PrintsDecimal (val : Uint256) (decimals : UInt8) : Prop :=
  ∃ i frac : List UInt8,
    (∀ fuel, 258 ≤ fuel →
      shellPrintDecimalU256 fuel val decimals = .ok (i ++ ascii "." ++ frac ++ ascii "\n")) ∧
      DecimalNumeral i frac (val.toNat / 10 ^ decimals.toNat)

/-! ## The buffer -/

/-- Where there is no NUL `strlen` finds the end of the buffer. -/
theorem strlenLoop_of_ne_zero {m : Region} {fuel p : ℕ} (h : ∀ i, i < fuel → m.byte (p + i) ≠ 0) :
    strlenLoop m fuel p = fuel := by
  induction fuel generalizing p with
  | zero => rfl
  | succ fuel ih =>
      have hp : m.byte p ≠ 0 := h 0 (Nat.zero_lt_succ _)
      rw [strlenLoop, if_neg hp, ih]
      intro i hi
      rw [Nat.add_assoc, Nat.add_comm 1]
      exact h (i + 1) (Nat.succ_lt_succ hi)

/-- A text stored where a NUL follows. -/
theorem holdsString_store_of_nul {m : Region} {s : List UInt8} (hs : ∀ c ∈ s, c ≠ 0)
    (hnul : m.byte s.length = 0) : (m.store 0 s).HoldsString 0 s := by
  refine Region.holdsString_iff.mpr ⟨hs, fun i c hc => ?_, ?_⟩
  · obtain ⟨hi, rfl⟩ := List.getElem?_eq_some_iff.mp hc
    exact m.byte_store_add 0 hi
  · rw [Nat.zero_add, Region.byte_store_of_ge (Nat.zero_add _).le, hnul]

/-- A string moved up behind zeros. -/
theorem holdsString_padZeros {buf : Region} {s : List UInt8} {decimals : ℕ}
    (h : buf.HoldsString 0 s) (hlen : s.length < decimals) (hnul : buf.byte decimals = 0) :
    (padZeros buf s.length decimals).HoldsString 0
      (List.replicate (decimals - s.length) '0'.toUInt8 ++ s) := by
  have hs := h.load
  have hrep : (List.replicate (decimals - s.length) '0'.toUInt8).length = decimals - s.length :=
    List.length_replicate
  have hstore := buf.store_before 0 (List.replicate (decimals - s.length) '0'.toUInt8) s
  rw [Nat.zero_add, hrep] at hstore
  rw [padZeros, Region.move, hs, hstore]
  apply holdsString_store_of_nul
  · intro c hc
    rcases List.mem_append.mp hc with hc | hc
    · rw [List.eq_of_mem_replicate hc]
      decide
    · exact h.1 c hc
  · rwa [List.length_append, hrep, Nat.sub_add_cancel hlen.le]

/-- **The loop overwrites the zeros at the end.** -/
theorem holdsString_trimLoop {buf : Region} {s : List UInt8} (h : buf.HoldsString 0 s) :
    (trimLoop (s.length - 1) buf).HoldsString 0 (trimZeros s) := by
  induction s using List.reverseRecOn generalizing buf with
  | nil => exact h
  | append_singleton s c ih =>
      rw [List.length_append, List.length_singleton, Nat.add_sub_cancel]
      rcases hk : s.length with _ | k
      · rw [List.length_eq_zero_iff.mp hk] at h ⊢
        exact h
      · obtain ⟨hne, hbytes, -⟩ := Region.holdsString_iff.mp h
        have hlast : buf.byte (k + 1) = c := by
          have hbyte := hbytes s.length c List.getElem?_concat_length
          rwa [Nat.zero_add, hk] at hbyte
        rw [trimLoop, hlast]
        by_cases hc : c = '0'.toUInt8
        · have hprev : (buf.store (k + 1) [0]).HoldsString 0 s := by
            refine Region.holdsString_iff.mpr
              ⟨fun d hd => hne d (List.mem_append_left _ hd), fun i d hd => ?_, ?_⟩
            · obtain ⟨hi, -⟩ := List.getElem?_eq_some_iff.mp hd
              rw [Region.byte_store_of_lt (by omega)]
              exact hbytes i d (by rwa [List.getElem?_append_left hi])
            · have hnul := @Region.byte_store_add buf (k + 1) 0 [0] Nat.zero_lt_one
              rwa [hk, Nat.zero_add]
          have hrest := ih hprev
          rw [hk, Nat.add_sub_cancel] at hrest
          rw [if_neg (not_not.mpr hc), hc, trimZeros_concat_zero (List.length_pos_iff.mp (by omega))]
          exact hrest
        · rw [if_pos hc, trimZeros_concat_ne hc]
          exact h

/-! ## What is printed -/

/-- The text of a number, with zeros in front up to `decimals` digits, or without. -/
def digitsText (v decimals : ℕ) (fmt : UInt8) : List UInt8 :=
  if fmt &&& fmtFixed ≠ 0 then
    List.replicate (decimals - (numeral 10 v).length) '0'.toUInt8 ++ numeral 10 v
  else numeral 10 v

/-- It fits in the buffer if the numeral does. -/
theorem length_digitsText {v decimals : ℕ} (hdigits : (numeral 10 v).length ≤ 64)
    (hdecimals : decimals ≤ 64) (fmt : UInt8) :
    0 < (digitsText v decimals fmt).length ∧ (digitsText v decimals fmt).length ≤ 64 := by
  have hpos := length_numeral_pos 10 v
  unfold digitsText
  split_ifs
  · rw [List.length_append, List.length_replicate]
    omega
  · exact ⟨hpos, hdigits⟩

/-- What `tostring256` leaves in the buffer. -/
theorem tostring256At_print (v : Uint256) {fuel : ℕ} (hfuel : 258 ≤ fuel) :
    tostring256At fuel v 10 ⟨fun _ => 0, 0⟩ 0 printSize =
      some (if (numeral 10 v.toNat).length ≤ printSize then
        ((⟨fun _ => 0, 0⟩ : Region).store 0 (numeral 10 v.toNat ++ [0]), true)
      else ((⟨fun _ => 0, 0⟩ : Region).store 0 ((lowNumeral 10 v.toNat).take printSize), false)) := by
  rw [tostring256At_eq v (by decide) (by decide) _ _ _ hfuel, tostring256_eq v (by decide) (by decide),
    digitRoom_eq (by decide) (by decide)]

/-- **A number of at most 64 digits** is printed, with zeros in front where this is asked for, and
with none at the end. -/
theorem printkUint256Int_eq (v : Uint256) {decimals : UInt8} (fmt : UInt8)
    (hdigits : (numeral 10 v.toNat).length ≤ 64) (hdecimals : decimals.toNat ≤ 64) {fuel : ℕ}
    (hfuel : 258 ≤ fuel) :
    printkUint256Int fuel v decimals fmt =
      .ok (if fmt &&& fmtNoTrailZero ≠ 0 then trimZeros (digitsText v.toNat decimals.toNat fmt)
        else digitsText v.toNat decimals.toNat fmt) := by
  have hsize : printSize = 65 := rfl
  have hpos := length_numeral_pos 10 v.toNat
  obtain ⟨htextpos, htextlen⟩ := length_digitsText hdigits hdecimals fmt
  generalize hbuf : (⟨fun _ => 0, 0⟩ : Region).store 0 (numeral 10 v.toNat ++ [0]) = buf
  have hholds : buf.HoldsString 0 (numeral 10 v.toNat) :=
    hbuf ▸ Region.holdsString_store _ 0 (numeral_ne_zero (by decide) (by decide))
  have htop : ¬ printSize < buf.top := by
    have hmark := Region.top_store ⟨fun _ => 0, 0⟩ 0 (numeral 10 v.toNat ++ [0])
    rw [hbuf, if_neg (by simp), List.length_append, List.length_singleton] at hmark
    dsimp only at hmark
    omega
  have hstrlen : strlenLoop buf printSize 0 = (numeral 10 v.toNat).length :=
    strlenLoop_holdsString hholds (by omega)
  -- with the zeros in front
  generalize hpadded : (if fmt &&& fmtFixed ≠ 0 ∧ (numeral 10 v.toNat).length < decimals.toNat then
    padZeros buf (numeral 10 v.toNat).length decimals.toNat else buf) = padded
  have htext : padded.HoldsString 0 (digitsText v.toNat decimals.toNat fmt) := by
    rw [← hpadded]
    unfold digitsText
    by_cases hfixed : fmt &&& fmtFixed ≠ 0
    · by_cases hlt : (numeral 10 v.toNat).length < decimals.toNat
      · rw [if_pos ⟨hfixed, hlt⟩, if_pos hfixed]
        refine holdsString_padZeros hholds hlt ?_
        rw [← hbuf, Region.byte_store_of_ge]
        rw [List.length_append, List.length_singleton]
        omega
      · rw [if_neg fun h => hlt h.2, if_pos hfixed, Nat.sub_eq_zero_of_le (not_lt.mp hlt),
          List.replicate_zero, List.nil_append]
        exact hholds
    · rw [if_neg fun h => hfixed h.1, if_neg hfixed]
      exact hholds
  have hlen : strlenLoop padded printSize 0 = (digitsText v.toNat decimals.toNat fmt).length :=
    strlenLoop_holdsString htext (by omega)
  have hindex : (2 ^ 32 - 1 + (digitsText v.toNat decimals.toNat fmt).length) % 2 ^ 32 =
      (digitsText v.toNat decimals.toNat fmt).length - 1 := by omega
  have hprinted : ∀ {m : Region} {s : List UInt8}, m.HoldsString 0 s → s.length ≤ 64 →
      m.load 0 (strlenLoop m printSize 0) = s := by
    intro m s hs hle
    rw [strlenLoop_holdsString hs (by omega), hs.load]
  unfold printkUint256Int
  rw [tostring256At_print v hfuel, if_pos (by omega), hbuf]
  dsimp only
  rw [if_neg htop, hstrlen, if_neg (by omega), if_neg (by omega), hpadded, hlen, hindex]
  by_cases htrim : fmt &&& fmtNoTrailZero ≠ 0
  · rw [if_pos htrim, if_pos htrim]
    apply congrArg Except.ok
    apply hprinted (holdsString_trimLoop htext)
    exact (length_trimZeros_le _).trans htextlen
  · rw [if_neg htrim, if_neg htrim, hprinted htext htextlen]

/-- **A longer one** does not fit in the buffer. -/
theorem printkUint256Int_long (v : Uint256) (decimals fmt : UInt8)
    (hdigits : 64 < (numeral 10 v.toNat).length) {fuel : ℕ} (hfuel : 258 ≤ fuel) :
    ∃ fault, printkUint256Int fuel v decimals fmt = .error fault := by
  have hsize : printSize = 65 := rfl
  unfold printkUint256Int
  rw [tostring256At_print v hfuel]
  by_cases h65 : (numeral 10 v.toNat).length ≤ printSize
  · refine ⟨.overrun, ?_⟩
    rw [if_pos h65]
    dsimp only
    rw [if_pos]
    rw [Region.top_store, if_neg (by simp), List.length_append, List.length_singleton]
    omega
  · refine ⟨.unterminated, ?_⟩
    have htake : ((lowNumeral 10 v.toNat).take printSize).length = printSize := by
      rw [List.length_take, length_lowNumeral]
      omega
    have hne : ∀ c ∈ (lowNumeral 10 v.toNat).take printSize, c ≠ 0 := by
      intro c hc
      have hmem := List.mem_of_mem_take hc
      rw [← List.mem_reverse, reverse_lowNumeral] at hmem
      exact numeral_ne_zero (by decide) (by decide) c hmem
    rw [if_neg h65]
    dsimp only
    rw [if_neg, if_pos]
    · apply strlenLoop_of_ne_zero
      intro i hi
      rw [Region.byte_store_add _ 0 (htake.symm ▸ hi)]
      exact hne _ (List.getElem_mem _)
    · have hmark := Region.top_store ⟨fun _ => 0, 0⟩ 0 ((lowNumeral 10 v.toNat).take printSize)
      rw [if_neg (List.length_pos_iff.mp (by omega)), htake] at hmark
      dsimp only at hmark
      omega

/-! ## The amount -/

@[simp] theorem printObjects_zero (val decimalsU256 : Uint256) :
    printObjects val decimalsU256 0 = val := if_pos rfl

@[simp] theorem printObjects_one (val decimalsU256 : Uint256) :
    printObjects val decimalsU256 1 = decimalsU256 :=
  (if_neg Nat.one_ne_zero).trans (if_pos rfl)

/-- `decimals_u256` is the power of ten as far as 64 bits go. -/
theorem toNat_decimalsU256 (decimals : UInt8) :
    ({ clear256 with lower := { clear256.lower with lower := ipow 10 decimals } } : Uint256).toNat =
      10 ^ decimals.toNat % 2 ^ 64 := by
  have hset := toNat_set256Uint64 (ipow 10 decimals)
  rw [toNat_ipow] at hset
  exact hset

variable {val : Uint256} {decimals : UInt8} {divisor : ℕ}

/-- **From 64 decimals on nothing is printed**: the divisor is zero. -/
theorem shellPrintDecimalU256_endless (hdecimals : 64 ≤ decimals.toNat) (fuel : ℕ) :
    shellPrintDecimalU256 fuel val decimals = .error .endless := by
  unfold shellPrintDecimalU256
  dsimp only
  rw [divmod256At_zero]
  rw [printObjects_one, toNat_decimalsU256, ten_pow_mod_eq_zero_iff]
  exact hdecimals

/-- Otherwise the quotient and the remainder are printed. -/
theorem shellPrintDecimalU256_divmod (hdecimals : decimals.toNat < 64)
    (hdivisor : divisor = 10 ^ decimals.toNat % 2 ^ 64) :
    ∃ div mod : Uint256, div.toNat = val.toNat / divisor ∧ mod.toNat = val.toNat % divisor ∧
      ∀ fuel, 258 ≤ fuel → shellPrintDecimalU256 fuel val decimals = (do
        let div ← printkUint256Int fuel div 0 0
        let mod ← printkUint256Int fuel mod decimals (fmtFixed ||| fmtNoTrailZero)
        .ok (div ++ ascii "." ++ mod ++ ascii "\n")) := by
  generalize hd : ({ clear256 with lower := { clear256.lower with lower := ipow 10 decimals } } :
    Uint256) = decimalsU256
  have hnat : (printObjects val decimalsU256 1).toNat = divisor := by
    rw [printObjects_one, ← hd, toNat_decimalsU256, hdivisor]
  have hne : (printObjects val decimalsU256 1).toNat ≠ 0 := by
    rw [hnat, hdivisor, Ne, ten_pow_mod_eq_zero_iff]
    omega
  obtain ⟨hdiv, hmod⟩ := divmod256_eq (printObjects val decimalsU256 0) hne
  rw [hnat, printObjects_zero, printObjects_one] at hdiv hmod
  refine ⟨_, _, hdiv, hmod, fun fuel hfuel => ?_⟩
  have hdivmod := @divmod256At_eq (printObjects val decimalsU256) 0 1 2 3 hne (by decide) fuel hfuel
  rw [printObjects_zero, printObjects_one] at hdivmod
  unfold shellPrintDecimalU256
  simp only [hd, hdivmod, Function.update_self, Function.update_of_ne (show 2 ≠ 3 by decide)]

/-- A divisor that is not zero leaves a remainder of at most `2 ^ 64`. -/
theorem remainder_lt (hdecimals : decimals.toNat < 64)
    (hdivisor : divisor = 10 ^ decimals.toNat % 2 ^ 64) (n : ℕ) :
    0 < divisor ∧ divisor < 2 ^ 64 ∧ n % divisor < divisor := by
  have hpos : divisor ≠ 0 := by
    rw [hdivisor, Ne, ten_pow_mod_eq_zero_iff]
    omega
  refine ⟨Nat.pos_of_ne_zero hpos, ?_, Nat.mod_lt _ (Nat.pos_of_ne_zero hpos)⟩
  rw [hdivisor]
  exact Nat.mod_lt _ (by norm_num)

/-- **What is printed for an amount**: the quotient, and the remainder as a fraction. -/
theorem shellPrintDecimalU256_eq (hdecimals : decimals.toNat < 64)
    (hdivisor : divisor = 10 ^ decimals.toNat % 2 ^ 64)
    (hdigits : (numeral 10 (val.toNat / divisor)).length ≤ 64) {fuel : ℕ} (hfuel : 258 ≤ fuel) :
    shellPrintDecimalU256 fuel val decimals =
      .ok (numeral 10 (val.toNat / divisor) ++ ascii "." ++
        trimZeros (List.replicate (decimals.toNat - (numeral 10 (val.toNat % divisor)).length)
          '0'.toUInt8 ++ numeral 10 (val.toNat % divisor)) ++ ascii "\n") := by
  obtain ⟨div, mod, hdiv, hmod, hrun⟩ := @shellPrintDecimalU256_divmod val _ _ hdecimals hdivisor
  have hshort : (numeral 10 mod.toNat).length ≤ 64 := by
    obtain ⟨-, hlt, hrest⟩ := remainder_lt hdecimals hdivisor val.toNat
    apply length_numeral_le (by decide) (by decide)
    rw [hmod]
    exact (hrest.trans hlt).trans (Nat.pow_lt_pow_left (by decide) (by decide))
  have hwhole := @printkUint256Int_eq div 0 0 (hdiv ▸ hdigits) (by decide) fuel hfuel
  have hplain : ∀ v d : ℕ, digitsText v d 0 = numeral 10 v := fun v d => if_neg (by decide)
  rw [if_neg (by decide), hplain, hdiv] at hwhole
  have hfrac := printkUint256Int_eq mod (fmtFixed ||| fmtNoTrailZero) hshort hdecimals.le hfuel
  have hfixed : ∀ v d : ℕ, digitsText v d (fmtFixed ||| fmtNoTrailZero) =
      List.replicate (d - (numeral 10 v).length) '0'.toUInt8 ++ numeral 10 v :=
    fun v d => if_pos (by decide)
  rw [if_pos (by decide), hfixed, hmod] at hfrac
  rw [hrun fuel hfuel, hwhole, hfrac]
  simp only [bind, Except.bind]

/-- **A quotient of more than 64 digits** is not printed. -/
theorem shellPrintDecimalU256_long (hdecimals : decimals.toNat < 64)
    (hdivisor : divisor = 10 ^ decimals.toNat % 2 ^ 64)
    (hdigits : 64 < (numeral 10 (val.toNat / divisor)).length) {fuel : ℕ} (hfuel : 258 ≤ fuel) :
    ∃ fault, shellPrintDecimalU256 fuel val decimals = .error fault := by
  obtain ⟨div, mod, hdiv, -, hrun⟩ := @shellPrintDecimalU256_divmod val _ _ hdecimals hdivisor
  obtain ⟨fault, hfault⟩ := printkUint256Int_long div 0 0 (hdiv ▸ hdigits) hfuel
  refine ⟨fault, ?_⟩
  rw [hrun fuel hfuel, hfault]
  rfl

/-- The digits of the fraction are as many as the decimals, unless there are no decimals. -/
theorem fraction_value (hdecimals : decimals.toNat < 64)
    (hdivisor : divisor = 10 ^ decimals.toNat % 2 ^ 64) (n : ℕ) :
    ((n % divisor : ℕ) : ℚ) / 10 ^ (decimals.toNat - (numeral 10 (n % divisor)).length +
        (numeral 10 (n % divisor)).length) = (n % divisor : ℕ) / 10 ^ decimals.toNat := by
  obtain ⟨hpos, hlt, hrest⟩ := remainder_lt hdecimals hdivisor n
  rcases Nat.eq_zero_or_pos decimals.toNat with h0 | hdec
  · have hone : divisor = 1 := by
      rw [hdivisor, h0, Nat.pow_zero]
      rfl
    rw [hone, Nat.mod_one, Nat.cast_zero, zero_div, zero_div]
  · have hlen : (numeral 10 (n % divisor)).length ≤ decimals.toNat := by
      apply length_numeral_le (by decide) hdec
      apply lt_of_lt_of_le hrest
      rw [hdivisor]
      exact Nat.mod_le _ _
    rw [Nat.sub_add_cancel hlen]

/-- There is no point in a numeral, so the texts around the point are read off what is printed. -/
theorem text_inj {i i' frac frac' : List UInt8} {q q' : ℕ} (hi : i = numeral 10 q)
    (hi' : i' = numeral 10 q')
    (h : i ++ ascii "." ++ frac ++ ascii "\n" = i' ++ ascii "." ++ frac' ++ ascii "\n") :
    i = i' ∧ frac = frac' := by
  have hdigit : ∀ d, d < 10 → (digit d != '.'.toUInt8) = true := by decide
  have hpoint : ∀ n, ∀ c ∈ numeral 10 n, (c != '.'.toUInt8) = true := by
    intro n c hc
    obtain ⟨d, hd, rfl⟩ := exists_digit_of_mem_numeral (by decide) hc
    exact hdigit d hd
  have htake : ∀ n (rest : List UInt8),
      (numeral 10 n ++ (ascii "." ++ rest)).takeWhile (· != '.'.toUInt8) = numeral 10 n := by
    intro n rest
    have hstop : (ascii "." ++ rest).takeWhile (· != '.'.toUInt8) = [] :=
      List.takeWhile_cons_of_neg (by decide)
    rw [List.takeWhile_append_of_pos (hpoint n), hstop, List.append_nil]
  subst hi hi'
  simp only [List.append_assoc] at h
  have hwhole := congrArg (List.takeWhile (· != '.'.toUInt8)) h
  rw [htake, htake] at hwhole
  rw [hwhole] at h
  exact ⟨hwhole, List.append_cancel_right (List.append_cancel_left (List.append_cancel_left h))⟩

/-- The quotient and the remainder make up the amount if the divisor is the power of ten, or does not
divide. -/
theorem amount_eq_iff (n : ℕ) {tens : ℕ} (hpos : 0 < divisor) (htens : 0 < tens) :
    ((n / divisor : ℕ) : ℚ) + (n % divisor : ℕ) / tens = n / tens ↔
      divisor = tens ∨ n < divisor := by
  have hne : (tens : ℚ) ≠ 0 := Nat.cast_ne_zero.mpr htens.ne'
  have hsum : ((n / divisor : ℕ) : ℚ) + (n % divisor : ℕ) / tens = n / tens ↔
      n / divisor * tens + n % divisor = n := by
    rw [← Nat.cast_inj (R := ℚ)]
    push_cast
    field_simp
  have hdiv := Nat.div_add_mod' n divisor
  rw [hsum]
  constructor
  · intro h
    have hmul : n / divisor * tens = n / divisor * divisor := by omega
    rcases Nat.eq_zero_or_pos (n / divisor) with h0 | hq
    · exact Or.inr ((Nat.div_eq_zero_iff_lt hpos).mp h0)
    · exact Or.inl (Nat.eq_of_mul_eq_mul_left hq hmul).symm
  · rintro (rfl | hlt)
    · exact hdiv
    · rw [Nat.div_eq_of_lt hlt, Nat.zero_mul, Nat.zero_add, Nat.mod_eq_of_lt hlt]

/-- **When an amount is printed as it is.** The power of ten is computed in 64 bits, which hold it
up to the 19th; beyond, an amount that is below the power modulo 2 ^ 64 is still right. The integer
part has room for 64 digits. -/
theorem printsDecimal_iff (val : Uint256) (decimals : UInt8) :
    PrintsDecimal val decimals ↔
      decimals.toNat ≤ 19 ∧ val.toNat < 10 ^ (decimals.toNat + 64) ∨
        val.toNat < 10 ^ decimals.toNat % 2 ^ 64 := by
  by_cases h64 : 64 ≤ decimals.toNat
  · rw [(ten_pow_mod_eq_zero_iff _).mpr h64]
    refine iff_of_false ?_ (by omega)
    rintro ⟨i, frac, hrun, -⟩
    have hprint := hrun 258 le_rfl
    rw [shellPrintDecimalU256_endless h64] at hprint
    cases hprint
  have hdecimals := not_le.mp h64
  generalize hdivisor : 10 ^ decimals.toNat % 2 ^ 64 = divisor
  obtain ⟨hpos, hlt, -⟩ := remainder_lt hdecimals hdivisor.symm val.toNat
  have htens : 0 < 10 ^ decimals.toNat := Nat.pow_pos (by decide)
  have hsmall : divisor = 10 ^ decimals.toNat ↔ decimals.toNat ≤ 19 := by
    constructor
    · intro h
      by_contra hbig
      have hpow : 10 ^ 20 ≤ 10 ^ decimals.toNat := Nat.pow_le_pow_right (by decide) (by omega)
      omega
    · intro h
      rw [← hdivisor, ten_pow_mod_of_le h]
  by_cases hdigits : (numeral 10 (val.toNat / divisor)).length ≤ 64
  · -- it is printed, and what is printed is read off
    have hprinted := decimalNumeral_trimZeros (val.toNat / divisor) (val.toNat % divisor)
      (decimals.toNat - (numeral 10 (val.toNat % divisor)).length)
    rw [fraction_value hdecimals hdivisor.symm] at hprinted
    have hamount := amount_eq_iff val.toNat hpos htens
    push_cast at hamount
    have hprints : PrintsDecimal val decimals ↔ divisor = 10 ^ decimals.toNat ∨ val.toNat < divisor := by
      rw [← hamount]
      constructor
      · rintro ⟨i, frac, hrun, hvalue⟩
        have hprint := hrun 258 le_rfl
        rw [shellPrintDecimalU256_eq hdecimals hdivisor.symm hdigits le_rfl] at hprint
        obtain ⟨rfl, rfl⟩ := text_inj rfl hvalue.whole (Except.ok.inj hprint)
        exact hprinted.value.symm.trans hvalue.value
      · intro h
        refine ⟨_, _, fun fuel hfuel =>
          shellPrintDecimalU256_eq hdecimals hdivisor.symm hdigits hfuel, ?_⟩
        rw [← h]
        exact hprinted
    rw [hprints, hsmall]
    refine or_congr_left (and_iff_left_of_imp fun h19 => ?_).symm
    have hquot := lt_of_length_numeral_le (by decide) hdigits
    rw [hsmall.mpr h19, Nat.div_lt_iff_lt_mul htens, ← Nat.pow_add] at hquot
    rwa [Nat.add_comm]
  · refine iff_of_false ?_ ?_
    · rintro ⟨i, frac, hrun, -⟩
      have hprint := hrun 258 le_rfl
      obtain ⟨fault, hfault⟩ := @shellPrintDecimalU256_long val decimals divisor hdecimals
        hdivisor.symm (not_le.mp hdigits) 258 le_rfl
      rw [hfault] at hprint
      cases hprint
    · refine not_or.mpr ⟨fun ⟨h19, hval⟩ => hdigits ?_, fun hval => hdigits ?_⟩
      · rw [hsmall.mpr h19]
        apply length_numeral_le (by decide) (by decide)
        apply Nat.div_lt_of_lt_mul
        rwa [← Nat.pow_add]
      · rw [Nat.div_eq_of_lt hval]
        exact length_numeral_le (by decide) (by decide) (Nat.pow_pos (by decide))

/-- Counterexample: with 64 decimals nothing is printed. -/
theorem not_printsDecimal_64 : ¬ PrintsDecimal clear256 64 := by
  rintro ⟨i, frac, hrun, -⟩
  have hprint := hrun 258 le_rfl
  rw [shellPrintDecimalU256_endless (by decide)] at hprint
  cases hprint

end AnylWallet.Zephyr
