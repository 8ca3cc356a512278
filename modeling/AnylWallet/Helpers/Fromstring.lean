import AnylWallet.Helpers.Hextobin
import AnylWallet.Helpers.Uint256

/-!
# `fromstring256`: hex digits to a number

* `fromstring256` is the source's function; it never ends in a fault (`fromstring256_cases`).
* `IsHexNumber s n`: the string is 1 to 64 hex digits, with an optional `0x`, and denotes `n`. On
  such a string `fromstring256` stores `n` (`fromstring256_hexNumber`).
* Other strings are not all refused: the prefix is stripped in three places, so that
  `0x0x0x12` is accepted.
-/

namespace AnylWallet.Helpers

open AnylWallet.Lib

/-- `readUint64BE`: the word of the first eight bytes. Source: `helpers/uint256.c` -/
def readUint64BE (buffer : List UInt8) : UInt64 := UInt64.ofNat (ofBE (buffer.take 8))

/-- `readu128BE`: the value it stores. Source: `helpers/uint256.c` -/
def readu128BE (buffer : List UInt8) : Uint128 :=
  ⟨readUint64BE buffer, readUint64BE (buffer.drop 8)⟩

/-- `readu256BE`: the value it stores. Source: `helpers/uint256.c` -/
def readu256BE (buffer : List UInt8) : Uint256 :=
  ⟨readu128BE buffer, readu128BE (buffer.drop 16)⟩

/-- `fromstring256` on a string and the number that `out` holds: the number it holds afterwards,
and the result. Source: `helpers/uint256.c` -/
def fromstring256 (asserts : Bool) (hexencoded : List UInt8) (out : Uint256) :
    Except Fault (Uint256 × ℤ) :=
  let hexencoded := strip0x hexencoded
  if hexencoded.length < 1 ∨ hexencoded.length > 64 then .ok (out, -1)
  else
    -- `buf_p` points at the last `size` bytes of `buf`
    let size := hexencoded.length / 2 + hexencoded.length % 2
    match hextobin2 asserts hexencoded (List.replicate size 0) with
    | .error fault => .error fault
    | .ok (bytes, ret) =>
        if ret < 0 then .ok (clear256, -1)
        else .ok (readu256BE (List.replicate (32 - size) 0 ++ bytes), 0)

/-! ## Hex numbers -/

/-- The string is 1 to 64 hex digits, with an optional `0x`, and denotes the number. -/
def IsHexNumber (s : List UInt8) (n : ℕ) : Prop :=
  ∃ digits : List UInt8, (s = digits ∨ s = ascii "0x" ++ digits) ∧ 1 ≤ digits.length ∧
    digits.length ≤ 64 ∧ (∀ c ∈ digits, IsHexDigit c) ∧ n = numberOf 16 digits

/-- The bytes whose digits, two each, are given. -/
def fromHex : List UInt8 → List UInt8
  | c :: d :: digits => UInt8.ofNat (16 * hexValue c + hexValue d) :: fromHex digits
  | _ => []

/-- The byte of two digits. -/
theorem toNat_hexByte (c d : UInt8) :
    (UInt8.ofNat (16 * hexValue c + hexValue d)).toNat = 16 * hexValue c + hexValue d := by
  have hc := hexValue_lt c
  have hd := hexValue_lt d
  rw [UInt8.toNat_ofNat', Nat.mod_eq_of_lt]
  omega

/-- The byte of one digit. -/
theorem toNat_ofNat_hexValue (c : UInt8) : (UInt8.ofNat (hexValue c)).toNat = hexValue c := by
  have hc := hexValue_lt c
  rw [UInt8.toNat_ofNat', Nat.mod_eq_of_lt (by omega)]

/-- Two digits are one byte. -/
theorem pow_half_length {n : ℕ} (h : n % 2 = 0) : 256 ^ (n / 2) = 16 ^ n := by
  rw [show 256 = 16 ^ 2 by norm_num, ← Nat.pow_mul]
  congr 1
  omega

theorem fromHex_append {digits : List UInt8} (h : digits.length % 2 = 0) (l : List UInt8) :
    fromHex (digits ++ l) = fromHex digits ++ fromHex l := by
  induction digits using fromHex.induct with
  | case1 c d digits ih =>
      simp only [List.length_cons] at h
      simp only [List.cons_append, fromHex, ih (by omega)]
  | case2 digits hdigits =>
      match digits, h with
      | [], _ => rfl
      | c :: d :: digits, _ => exact absurd rfl (hdigits c d digits)

theorem length_fromHex (digits : List UInt8) : (fromHex digits).length = digits.length / 2 := by
  induction digits using fromHex.induct with
  | case1 c d digits ih =>
      simp only [fromHex, List.length_cons, ih]
      omega
  | case2 digits hdigits =>
      match digits with
      | [] => rfl
      | [_] => simp [fromHex]
      | c :: d :: digits => exact absurd rfl (hdigits c d digits)

/-- An even number of digits and their bytes denote one number. -/
theorem ofBE_fromHex {digits : List UInt8} (h : digits.length % 2 = 0) :
    ofBE (fromHex digits) = numberOf 16 digits := by
  induction digits using fromHex.induct with
  | case1 c d digits ih =>
      simp only [List.length_cons] at h
      have hpow := pow_half_length (show digits.length % 2 = 0 by omega)
      rw [fromHex, ofBE_cons, ih (by omega), toNat_hexByte, length_fromHex, hpow, numberOf_cons,
        numberOf_cons, List.length_cons]
      ring
  | case2 digits hdigits =>
      match digits, h with
      | [], _ => rfl
      | c :: d :: digits, _ => exact absurd rfl (hdigits c d digits)

/-- **The digits of a byte string give it back.** -/
theorem fromHex_hexText (bytes : List UInt8) : fromHex (hexText bytes) = bytes := by
  induction bytes with
  | nil => rfl
  | cons b bytes ih =>
      have hb : UInt8.ofNat (16 * (b.toNat / 16) + b.toNat % 16) = b := by
        rw [Nat.div_add_mod]
        exact UInt8.ofNat_toNat
      have hlt := b.toNat_lt
      have htext : hexText (b :: bytes) =
          digit (b.toNat / 16) :: digit (b.toNat % 16) :: hexText bytes := rfl
      rw [htext, fromHex, hexValue_digit (by omega), hexValue_digit (by omega), hb, ih]

/-- The numeral of a number is a hex number, with or without `0x` before it. -/
theorem isHexNumber_numeral {s : List UInt8} {n : ℕ}
    (hs : s = numeral 16 n ∨ s = ascii "0x" ++ numeral 16 n) (h : n < 16 ^ 64) :
    IsHexNumber s n :=
  ⟨numeral 16 n, hs, length_numeral_pos 16 n, length_numeral_le (by norm_num) (by norm_num) h,
    isHexDigit_numeral n, (numberOf_numeral (by norm_num) (by norm_num) n).symm⟩

/-- The digits of bytes are hex digits. -/
theorem isHexDigit_hexText (bytes : List UInt8) : ∀ c ∈ hexText bytes, IsHexDigit c := by
  intro c hc
  obtain ⟨b, -, hb⟩ := List.mem_flatMap.mp hc
  have hlt := b.toNat_lt
  simp only [hexPair, List.mem_cons, List.not_mem_nil, or_false] at hb
  rcases hb with rfl | rfl
  · exact isHexDigit_digit (by omega)
  · exact isHexDigit_digit (by omega)

theorem hexText_injective : Function.Injective hexText :=
  Function.LeftInverse.injective fromHex_hexText

/-- One round on two digits, behind others whose bytes are stored. -/
theorem hextobinLoop_digit_pair {pre tail : List UInt8} {c d : UInt8} {blen fuel : ℕ} {pos : UInt8}
    (hpos : pos.toNat = pre.length) (hpre : pre.length % 2 = 0) (hroom : pre.length + 2 ≤ 2 * blen)
    (hc : IsHexDigit c) (hd : IsHexDigit d) :
    hextobinLoop (pre ++ c :: d :: tail) blen (fuel + 1) pos
        (fromHex pre ++ List.replicate (blen - pre.length / 2) 0) =
      hextobinLoop (pre ++ [c, d] ++ tail) blen fuel (pos + 2)
        (fromHex (pre ++ [c, d]) ++ List.replicate (blen - (pre ++ [c, d]).length / 2) 0) := by
  have hget : (pre ++ c :: d :: tail).getD pos.toNat 0 = c := by
    simp [hpos, List.getD_eq_getElem?_getD]
  have hget' : (pre ++ c :: d :: tail).getD (pos.toNat + 1) 0 = d := by
    simp [hpos, List.getD_eq_getElem?_getD]
  have hin : pos.toNat < blen * 2 ∧ pos.toNat < (pre ++ c :: d :: tail).length := by
    simp only [List.length_append, List.length_cons]
    omega
  have hset : (fromHex pre ++ List.replicate (blen - pre.length / 2) 0).set (pos.toNat / 2)
      (UInt8.ofNat (16 * hexValue c + hexValue d)) =
        fromHex (pre ++ [c, d]) ++ List.replicate (blen - (pre ++ [c, d]).length / 2) 0 := by
    have hrep : blen - pre.length / 2 = blen - (pre ++ [c, d]).length / 2 + 1 := by
      simp only [List.length_append, List.length_cons, List.length_nil]
      omega
    rw [hpos, hrep, List.replicate_succ, ← length_fromHex pre, List.set_append_right _ _ le_rfl,
      Nat.sub_self, List.set_cons_zero, fromHex_append hpre]
    simp only [fromHex, List.append_assoc, List.singleton_append]
  rw [hextobinLoop_pair hin (hget.symm ▸ hc) (hget'.symm ▸ hd), hget, hget']
  refine (congrArg (hextobinLoop _ blen fuel (pos + 2)) hset).trans ?_
  rw [List.append_assoc pre]
  rfl

/-- The loop of `hextobin` on hex digits, as far as the buffer or the string goes: it stores their
bytes. -/
theorem hextobinLoop_digits {pre suf rest : List UInt8} {blen fuel : ℕ} {pos : UInt8}
    (hpos : pos.toNat = pre.length) (hpre : pre.length % 2 = 0) (hsuf : suf.length % 2 = 0)
    (hlen : pre.length + suf.length ≤ 2 * blen)
    (hrest : rest = [] ∨ pre.length + suf.length = 2 * blen)
    (hshort : pre.length + suf.length ≤ 254)
    (hfuel : suf.length ≤ 2 * fuel) (hhex : ∀ c ∈ suf, IsHexDigit c) :
    hextobinLoop (pre ++ (suf ++ rest)) blen (fuel + 1) pos
        (fromHex pre ++ List.replicate (blen - pre.length / 2) 0) =
      .ok (fromHex (pre ++ suf) ++ List.replicate (blen - (pre ++ suf).length / 2) 0,
        ((pre ++ (suf ++ rest)).length / 2 : ℕ)) := by
  have hend : ∀ {pre : List UInt8} {fuel : ℕ} {pos : UInt8}, pos.toNat = pre.length →
      (rest = [] ∨ pre.length = 2 * blen) →
      hextobinLoop (pre ++ ([] ++ rest)) blen (fuel + 1) pos
          (fromHex pre ++ List.replicate (blen - pre.length / 2) 0) =
        .ok (fromHex (pre ++ []) ++ List.replicate (blen - (pre ++ []).length / 2) 0,
          ((pre ++ ([] ++ rest)).length / 2 : ℕ)) := by
    intro pre fuel pos hpos hrest
    rw [List.append_nil, hextobinLoop_stop]
    rcases hrest with rfl | hfull
    · simp only [List.append_nil]
      omega
    · omega
  induction fuel generalizing pre suf pos with
  | zero =>
      obtain rfl : suf = [] := List.length_eq_zero_iff.mp (by omega)
      exact hend hpos hrest
  | succ fuel ih =>
      rcases suf with _ | ⟨c, _ | ⟨d, suf⟩⟩
      · exact hend hpos hrest
      · rw [List.length_singleton] at hsuf
        omega
      · simp only [List.length_cons] at hlen hfuel hsuf hrest hshort
        have hpair : (pre ++ [c, d]).length = pre.length + 2 := List.length_append
        have hnext := toNat_add_two pos
        have hall : pre ++ [c, d] ++ suf = pre ++ c :: d :: suf := List.append_assoc pre [c, d] suf
        have hstr : pre ++ [c, d] ++ (suf ++ rest) = pre ++ (c :: d :: suf ++ rest) :=
          List.append_assoc pre [c, d] (suf ++ rest)
        have hround := @hextobinLoop_digit_pair pre (suf ++ rest) c d blen (fuel + 1) pos hpos hpre
          (by omega) (hhex c (by simp)) (hhex d (by simp))
        have hloop := @ih (pre ++ [c, d]) suf (pos + 2) (by omega) (by omega) (by omega) (by omega)
          (hrest.imp id fun h => by omega) (by omega) (by omega) (fun e he => hhex e (by simp [he]))
        rw [hall, hstr] at hloop
        rw [hstr] at hround
        exact hround.trans hloop

/-- The loop from its start, on digits that fill the buffer or end the string. -/
theorem hextobinLoop_start {digits rest : List UInt8} {blen : ℕ} (heven : digits.length % 2 = 0)
    (hroom : digits.length ≤ 2 * blen) (hrest : rest = [] ∨ digits.length = 2 * blen)
    (hshort : digits.length ≤ 254) (hhex : ∀ c ∈ digits, IsHexDigit c) :
    hextobinLoop (digits ++ rest) blen 129 0 (List.replicate blen 0) =
      .ok (fromHex digits ++ List.replicate (blen - digits.length / 2) 0,
        ((digits ++ rest).length / 2 : ℕ)) := by
  have hloop := @hextobinLoop_digits [] digits rest blen 128 0 rfl rfl heven
    (by rwa [List.length_nil, Nat.zero_add]) (by rwa [List.length_nil, Nat.zero_add])
    (by rwa [List.length_nil, Nat.zero_add]) (by omega) hhex
  have hnil : fromHex [] = [] := rfl
  rwa [List.nil_append, hnil, List.nil_append, List.length_nil, Nat.zero_div, Nat.sub_zero,
    List.nil_append] at hloop

/-- No hex digits start with `0x`. -/
theorem strip0x_hex {digits : List UInt8} (hhex : ∀ c ∈ digits, IsHexDigit c) :
    strip0x digits = digits := by
  refine if_neg fun ⟨hlen, htake⟩ => ?_
  have hx : (ascii "0x")[1]? = some 0x78 := by decide
  rw [← htake, List.getElem?_take_of_lt Nat.one_lt_two] at hx
  have hbad : ¬ IsHexDigit 0x78 := by decide
  exact hbad (hhex _ (List.mem_of_getElem? hx))

/-- The prefix `0x` is stripped from digits. -/
theorem strip0x_append {digits : List UInt8} (h : digits ≠ []) :
    strip0x (ascii "0x" ++ digits) = digits := by
  have hlen : (ascii "0x").length = 2 := by decide
  have hpos := List.length_pos_iff.mpr h
  unfold strip0x
  rw [List.length_append, hlen, List.take_left' hlen, List.drop_left' hlen,
    if_pos ⟨by omega, rfl⟩]

/-- In front of what is stripped, if anything is, there is `0x`. -/
theorem strip0x_cases (s : List UInt8) : s = strip0x s ∨ s = ascii "0x" ++ strip0x s := by
  unfold strip0x
  split_ifs with hstrip
  · refine Or.inr ?_
    rw [← hstrip.2, List.take_append_drop]
  · exact Or.inl rfl

/-- `hextobin` on an even number of hex digits. -/
theorem hextobin_hex (asserts : Bool) {digits bytes : List UInt8} (hne : digits ≠ [])
    (hhex : ∀ c ∈ digits, IsHexDigit c) (hlen : digits.length = 2 * bytes.length)
    (hshort : bytes.length ≤ 64) :
    hextobin asserts digits bytes = .ok (fromHex digits, bytes.length) := by
  have hpos := List.length_pos_iff.mpr hne
  have hloop := @hextobinLoop_start digits [] bytes.length (by omega) (by omega) (Or.inl rfl)
    (by omega) hhex
  rw [List.append_nil, show digits.length / 2 = bytes.length by omega, Nat.sub_self,
    List.replicate_zero, List.append_nil] at hloop
  unfold hextobin hextobinAt
  rw [if_neg (by omega), if_neg (by omega)]
  simp only [strip0x_hex hhex, check_of asserts (show digits.length ≤ bytes.length * 2 by omega)]
  exact hloop

/-- `hextobin_2` on hex digits: the bytes it stores denote their number. -/
theorem hextobin2_hex (asserts : Bool) {digits : List UInt8} (hne : digits ≠ [])
    (hhex : ∀ c ∈ digits, IsHexDigit c) (hshort : digits.length ≤ 64) {size : ℕ}
    (hsize : size = digits.length / 2 + digits.length % 2) :
    ∃ bytes ret, hextobin2 asserts digits (List.replicate size 0) = .ok (bytes, ret) ∧
      bytes.length = size ∧ 0 ≤ ret ∧ ofBE bytes = numberOf 16 digits := by
  have hpos := List.length_pos_iff.mpr hne
  have hcheck := check_of asserts (show digits.length ≤ size * 2 by omega)
  unfold hextobin2
  rw [if_neg (by omega)]
  simp only [strip0x_hex hhex, hcheck, bind, Except.bind, List.length_replicate]
  by_cases hodd : digits.length % 2 = 0
  · refine ⟨fromHex digits, size, ?_, by rw [length_fromHex]; omega, by omega, ofBE_fromHex hodd⟩
    rw [if_neg (not_not.mpr hodd), if_neg (by omega),
      hextobin_hex asserts hne hhex (by rw [List.length_replicate]; omega)
        (by rw [List.length_replicate]; omega), List.length_replicate]
  · obtain ⟨c, rest, rfl⟩ := List.exists_cons_of_ne_nil hne
    have hc : IsHexDigit c := hhex c List.mem_cons_self
    have hvalue := toNat_ofNat_hexValue c
    have hrest : rest.length % 2 = 0 := by
      rw [List.length_cons] at hodd
      omega
    rw [List.length_cons] at hsize hshort
    simp only [mapHex_neg_iff, toNat_mapHex]
    rw [if_pos hodd, List.getD_cons_zero, if_neg (not_not.mpr hc), List.drop_one, List.tail_cons]
    by_cases hnil : rest = []
    · subst hnil
      obtain rfl : size = 1 := hsize
      refine ⟨[UInt8.ofNat (hexValue c)], 0, rfl, rfl, le_rfl, ?_⟩
      rw [ofBE_cons, hvalue, numberOf_cons, List.length_nil]
      simp [numberOf]
    · have hrpos := List.length_pos_iff.mpr hnil
      have hbytes : ((List.replicate size (0 : UInt8)).drop 1).length = size - 1 := by
        rw [List.length_drop, List.length_replicate]
      have hhextobin := hextobin_hex asserts hnil (fun d hd => hhex d (List.mem_cons_of_mem _ hd))
        (show rest.length = 2 * ((List.replicate size (0 : UInt8)).drop 1).length by omega)
        (by omega)
      have hfrom : (fromHex rest).length = rest.length / 2 := length_fromHex rest
      have hpow := pow_half_length hrest
      refine ⟨_, _, by rw [if_neg (by omega), hhextobin], ?_, ?_, ?_⟩
      · rw [List.length_cons, hfrom]
        omega
      · exact Int.natCast_nonneg _
      · rw [ofBE_cons, hvalue, hfrom, hpow, ofBE_fromHex hrest, numberOf_cons, Nat.mul_comm]

/-- The number that `readu256BE` reads from 32 bytes. -/
theorem toNat_readu256BE {buffer : List UInt8} (h : buffer.length = 32) :
    (readu256BE buffer).toNat = ofBE buffer := by
  have hword : ∀ bs : List UInt8, 8 ≤ bs.length → (readUint64BE bs).toNat = ofBE (bs.take 8) := by
    intro bs hbs
    have hlt := ofBE_lt (bs.take 8)
    rw [List.length_take, Nat.min_eq_left hbs] at hlt
    rw [readUint64BE, UInt64.toNat_ofNat', Nat.mod_eq_of_lt (lt_of_lt_of_eq hlt (by norm_num))]
  have hsplit : ∀ bs : List UInt8, ofBE bs = 256 ^ (bs.drop 8).length * ofBE (bs.take 8) +
      ofBE (bs.drop 8) := fun bs => by
    rw [← ofBE_append, List.take_append_drop]
  have hlen : ∀ k, (buffer.drop k).length = 32 - k := fun k => by rw [List.length_drop, h]
  have h24 : (buffer.drop 24).take 8 = buffer.drop 24 :=
    List.take_of_length_le (by rw [hlen])
  have h0 := hsplit buffer
  have h8 := hsplit (buffer.drop 8)
  have h16 := hsplit (buffer.drop 16)
  simp only [List.drop_drop, hlen] at h0 h8 h16
  simp only [readu256BE, readu128BE, Uint256.toNat, Uint128.toNat, List.drop_drop]
  rw [hword buffer (by omega), hword _ (by rw [hlen]; omega), hword _ (by rw [hlen]; omega),
    hword _ (by rw [hlen]), h24, h0, h8, h16]
  norm_num
  ring

/-- **On a hex number `fromstring256` stores that number and returns 0.** -/
theorem fromstring256_hexNumber (asserts : Bool) {s : List UInt8} {n : ℕ} (h : IsHexNumber s n)
    (out : Uint256) :
    ∃ out', fromstring256 asserts s out = .ok (out', 0) ∧ out'.toNat = n := by
  obtain ⟨digits, hs, hpos, hshort, hhex, rfl⟩ := h
  have hne : digits ≠ [] := List.length_pos_iff.mp hpos
  have hstrip : strip0x s = digits := by
    rcases hs with rfl | rfl
    · exact strip0x_hex hhex
    · exact strip0x_append hne
  obtain ⟨bytes, ret, hbin, hlen, hret, hvalue⟩ := hextobin2_hex asserts hne hhex hshort rfl
  refine ⟨readu256BE (List.replicate (32 - (digits.length / 2 + digits.length % 2)) 0 ++ bytes),
    ?_, ?_⟩
  · unfold fromstring256
    simp only [hstrip, hbin]
    rw [if_neg (by omega), if_neg (not_lt.mpr hret)]
  · rw [toNat_readu256BE, ofBE_replicate_zero_append, hvalue]
    rw [List.length_append, List.length_replicate, hlen]
    omega

/-! ## Which texts are refused -/

/-- Whatever `out` holds, `fromstring256` stores one number and returns 0, or returns a negative
number. -/
theorem fromstring256_cases (asserts : Bool) (s : List UInt8) :
    (∃ v, ∀ out, fromstring256 asserts s out = .ok (v, 0)) ∨
      ∀ out, ∃ v ret, fromstring256 asserts s out = .ok (v, ret) ∧ ret < 0 := by
  unfold fromstring256
  dsimp only
  by_cases hlen : (strip0x s).length < 1 ∨ (strip0x s).length > 64
  · refine Or.inr fun out => ⟨out, -1, ?_, by decide⟩
    rw [if_pos hlen]
  · obtain ⟨⟨bytes, ret⟩, hr⟩ := @hextobin2_ok asserts (strip0x s)
      (List.replicate ((strip0x s).length / 2 + (strip0x s).length % 2) 0)
      (by rw [List.length_replicate]; omega) (by omega)
    simp only [hr, if_neg hlen]
    by_cases hret : ret < 0
    · exact Or.inr fun out => ⟨clear256, -1, by rw [if_pos hret], by decide⟩
    · exact Or.inl ⟨_, fun out => by rw [if_neg hret]⟩

/-- A text that starts with no digit is refused. -/
theorem fromstring256_of_bad_head (asserts : Bool) {c : UInt8} (hc : ¬ IsHexDigit c) (s : List UInt8)
    (out : Uint256) : ∃ v ret, fromstring256 asserts (c :: s) out = .ok (v, ret) ∧ ret < 0 := by
  have hzero : c ≠ '0'.toUInt8 := by
    rintro rfl
    exact absurd hc (by decide)
  have hstrip : strip0x (c :: s) = c :: s := by
    refine if_neg fun ⟨_, htake⟩ => hzero ?_
    exact Option.some.inj (congrArg List.head? htake)
  unfold fromstring256
  dsimp only
  rw [hstrip]
  by_cases hlen : (c :: s).length < 1 ∨ (c :: s).length > 64
  · exact ⟨out, -1, if_pos hlen, by decide⟩
  · rw [if_neg hlen]
    have hcheck := check_of asserts (show (c :: s).length ≤
      (List.replicate ((c :: s).length / 2 + (c :: s).length % 2) (0 : UInt8)).length * 2 by
        rw [List.length_replicate]; omega)
    have hrefuse : ∃ bytes, hextobin2 asserts (c :: s)
        (List.replicate ((c :: s).length / 2 + (c :: s).length % 2) 0) =
          .ok (bytes, eInvalidChar) := by
      unfold hextobin2
      rw [if_neg (by simp)]
      simp only [hstrip, hcheck, bind, Except.bind]
      by_cases hodd : (c :: s).length % 2 ≠ 0
      · rw [if_pos hodd, List.getD_cons_zero, if_pos (mapHex_neg_iff.mpr hc)]
        exact ⟨_, rfl⟩
      · rw [if_neg hodd, if_neg (by simp)]
        unfold hextobin hextobinAt
        rw [if_neg (by simp), if_neg hodd]
        simp only [hstrip, List.length_replicate] at hcheck ⊢
        simp only [hcheck, bind, Except.bind]
        refine ⟨_, hextobinLoop_refuse ?_ (Or.inl hc)⟩
        simp only [UInt8.toNat_zero, List.length_cons] at hodd ⊢
        omega
    obtain ⟨bytes, hr⟩ := hrefuse
    rw [hr]
    exact ⟨clear256, -1, rfl, by decide⟩

end AnylWallet.Helpers
