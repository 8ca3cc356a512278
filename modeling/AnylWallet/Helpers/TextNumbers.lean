import AnylWallet.Helpers.FromstringStrips
import AnylWallet.Helpers.Strtol

/-!
# The numbers that texts denote to the conversions

Grammars of the texts that the conversions of the C library and `fromstring256` accept as a whole, with
the number that each text stands for to them, where a `long` has 64 bits. Nothing here runs a
conversion; that they read these texts and no others, to these numbers, is

* `strtoul_reads_iff` for `DenotesUlong`: an integer, which wraps around where it is negative, or
  nothing at all;
* `strtol_reads_iff` for `DenotesLong`: an integer in the range of `long`, or nothing at all;
* `fromstring256_reads_iff` for `DenotesHex`: hex digits, with further prefixes among them (`InnerHex`).
  A prefix in the middle is left out, but its room remains: the number is shifted by a byte.
-/

namespace AnylWallet.Helpers

open AnylWallet.Lib

/-! ## Decimal numbers -/

/-- The text is nothing, for 0, or white space, a sign and digits below `2 ^ 64`, for the number that they
denote modulo `2 ^ 64`. -/
def DenotesUlong (s : List UInt8) (n : ℕ) : Prop :=
  s = [] ∧ n = 0 ∨ ∃ sign digits, IsInteger s sign digits ∧ numberOf 10 digits < 2 ^ 64 ∧
    (n : ℤ) = signedNumber sign digits % 2 ^ 64

/-- The text is nothing, for 0, or white space, a sign and digits, for the number that they denote, which
a `long` holds. -/
def DenotesLong (s : List UInt8) (z : ℤ) : Prop :=
  s = [] ∧ z = 0 ∨ ∃ sign digits, IsInteger s sign digits ∧ z = signedNumber sign digits ∧
    -2 ^ 63 ≤ z ∧ z < 2 ^ 63

variable {s : List UInt8}

/-- The value of an integer that fits in a word. -/
theorem toNat_strtoul_isInteger {sign digits : List UInt8} (h : IsInteger s sign digits)
    (hlt : numberOf 10 digits < 2 ^ 64) :
    ((strtoul 10 s).value.toNat : ℤ) = signedNumber sign digits % 2 ^ 64 := by
  obtain ⟨hdigits, -, hnegated⟩ := numberDigits_isInteger h
  unfold strtoul signedNumber
  rw [hdigits, if_neg (Nat.not_le_of_lt hlt)]
  by_cases hminus : sign = ascii "-"
  · rw [if_pos (hnegated.mpr hminus), if_pos hminus, UInt64.toNat_sub, UInt64.toNat_ofNat',
      UInt64.toNat_zero]
    generalize numberOf 10 digits = n at hlt
    omega
  · rw [if_neg fun hneg => hminus (hnegated.mp hneg), if_neg hminus, UInt64.toNat_ofNat',
      Nat.mod_eq_of_lt hlt]
    omega

/-- **What `strtoul` reads to its end**, and as what. -/
theorem strtoul_reads_iff {n : ℕ} :
    ((strtoul 10 s).erange = false ∧ (strtoul 10 s).size = s.length) ∧
        (strtoul 10 s).value.toNat = n ↔ DenotesUlong s n := by
  rw [strtoul_whole_iff]
  constructor
  · rintro ⟨rfl | ⟨sign, digits, h, hlt⟩, rfl⟩
    · exact Or.inl ⟨rfl, by decide⟩
    · exact Or.inr ⟨sign, digits, h, hlt, toNat_strtoul_isInteger h hlt⟩
  · rintro (⟨rfl, rfl⟩ | ⟨sign, digits, h, hlt, hn⟩)
    · exact ⟨Or.inl rfl, by decide⟩
    · refine ⟨Or.inr ⟨sign, digits, h, hlt⟩, ?_⟩
      exact_mod_cast (toNat_strtoul_isInteger h hlt).trans hn.symm

/-- **What `strtol` reads to its end**, and as what. -/
theorem strtol_reads_iff {z : ℤ} :
    ((strtol 10 s).erange = false ∧ (strtol 10 s).size = s.length) ∧ (strtol 10 s).value = z ↔
      DenotesLong s z := by
  have hinteger : ∀ {sign digits}, IsInteger s sign digits →
      ((strtol 10 s).erange = false ∧ (strtol 10 s).value = z ↔
        z = signedNumber sign digits ∧ -2 ^ 63 ≤ z ∧ z < 2 ^ 63) := by
    intro sign digits h
    obtain ⟨hdigits, -, hnegated⟩ := numberDigits_isInteger h
    unfold strtol signedNumber
    rw [hdigits]
    dsimp only
    generalize numberOf 10 digits = n
    by_cases hminus : sign = ascii "-"
    · rw [if_pos (hnegated.mpr hminus), if_pos hminus]
      by_cases hrange : 2 ^ 63 < n
      · rw [if_pos hrange]
        exact iff_of_false (fun h => Bool.noConfusion h.1) (by omega)
      · rw [if_neg hrange]
        constructor
        · rintro ⟨-, rfl⟩
          dsimp only
          omega
        · rintro ⟨rfl, -⟩
          exact ⟨rfl, rfl⟩
    · rw [if_neg fun hneg => hminus (hnegated.mp hneg), if_neg hminus]
      by_cases hrange : 2 ^ 63 ≤ n
      · rw [if_pos hrange]
        exact iff_of_false (fun h => Bool.noConfusion h.1) (by omega)
      · rw [if_neg hrange]
        constructor
        · rintro ⟨-, rfl⟩
          dsimp only
          omega
        · rintro ⟨rfl, -⟩
          exact ⟨rfl, rfl⟩
  rw [strtol_size, numberSize_eq_length_iff]
  constructor
  · rintro ⟨⟨herange, rfl | ⟨sign, digits, h⟩⟩, hz⟩
    · exact Or.inl ⟨rfl, hz.symm⟩
    · exact Or.inr ⟨sign, digits, h, (hinteger h).mp ⟨herange, hz⟩⟩
  · rintro (⟨rfl, rfl⟩ | ⟨sign, digits, h, hz⟩)
    · exact ⟨⟨by decide, Or.inl rfl⟩, by decide⟩
    · obtain ⟨herange, hvalue⟩ := (hinteger h).mpr hz
      exact ⟨⟨herange, Or.inr ⟨sign, digits, h⟩⟩, hvalue⟩

/-! ## Hex numbers -/

/-- A text behind its prefix, the digits that are left of it, and the number of the prefixes inside it. A
second prefix stands in front of digits, or in front of an even number of them behind another prefix,
a single digit or both. -/
inductive InnerHex : List UInt8 → List UInt8 → ℕ → Prop
  | plain {digits : List UInt8} (hhex : AllHex digits) : InnerHex digits digits 0
  | prefixed {digits : List UInt8} (hne : digits ≠ []) (hhex : AllHex digits) :
      InnerHex (ascii "0x" ++ digits) digits 1
  | twice {digits : List UInt8} (hne : digits ≠ []) (hhex : AllHex digits)
      (heven : digits.length % 2 = 0) :
      InnerHex (ascii "0x" ++ (ascii "0x" ++ digits)) digits 2
  | behindDigit {c : UInt8} {digits : List UInt8} (hne : digits ≠ []) (hhex : AllHex (c :: digits))
      (heven : digits.length % 2 = 0) : InnerHex (c :: (ascii "0x" ++ digits)) (c :: digits) 1
  | both {c : UInt8} {digits : List UInt8} (hne : digits ≠ []) (hhex : AllHex (c :: digits))
      (heven : digits.length % 2 = 0) :
      InnerHex (ascii "0x" ++ (c :: (ascii "0x" ++ digits))) (c :: digits) 2

/-- The text has 1 to 64 characters behind an optional `0x`, and its digits denote the number, shifted by
a byte for each further prefix among them. -/
def DenotesHex (s : List UInt8) (n : ℕ) : Prop :=
  (1 ≤ (strip0x s).length ∧ (strip0x s).length ≤ 64) ∧
    ∃ digits k, InnerHex (strip0x s) digits k ∧ n = numberOf 16 digits * 256 ^ k

/-- `hextobin` on an even number of digits, behind an optional prefix, that leave room. -/
theorem hextobin_kept (asserts : Bool) {t digits bytes : List UInt8} (hstrip : strip0x t = digits)
    (hne : digits ≠ []) (hhex : AllHex digits) (heven : t.length % 2 = 0)
    (hroom : digits.length ≤ 2 * bytes.length) (hshort : bytes.length ≤ 64) :
    hextobin asserts t bytes =
      .ok (fromHex digits ++ List.replicate (bytes.length - digits.length / 2) 0,
        (digits.length / 2 : ℕ)) := by
  subst hstrip
  have hpos := List.length_pos_iff.mpr hne
  have hlen := length_strip0x t
  have hkept : keptDigits bytes.length t = strip0x t := List.take_of_length_le hroom
  have haccepts : Accepts asserts bytes.length t :=
    ⟨by omega, heven, fun _ => by omega, by rwa [hkept]⟩
  rw [hextobin_of_accepts (by omega) haccepts, keptBytes, hkept]

/-- `hextobin_2` accepts the text for a buffer of half its length: it stores the number of the digits
there, and `k` zero bytes behind it. -/
def StoresDigits (asserts : Bool) (s digits : List UInt8) (k : ℕ) : Prop :=
  ∃ bytes ret, hextobin2 asserts s (List.replicate (s.length / 2 + s.length % 2) 0) =
      .ok (bytes ++ List.replicate k 0, ret) ∧ 0 ≤ ret ∧
    bytes.length + k = s.length / 2 + s.length % 2 ∧ ofBE bytes = numberOf 16 digits

/-- An even text goes to `hextobin` as a whole. -/
theorem storesDigits_even (asserts : Bool) {digits : List UInt8} {k : ℕ} (hshort : s.length ≤ 64)
    (heven : (strip0x s).length % 2 = 0) (hstrip : strip0x (strip0x s) = digits) (hne : digits ≠ [])
    (hhex : AllHex digits) (hparity : digits.length % 2 = 0)
    (hk : digits.length / 2 + k = s.length / 2 + s.length % 2) : StoresDigits asserts s digits k := by
  have hlen := length_strip0x s
  have hlen' := length_strip0x (strip0x s)
  have hpos := List.length_pos_iff.mpr hne
  unfold StoresDigits
  generalize hsize : s.length / 2 + s.length % 2 = size at hk
  have hrep : (List.replicate size (0 : UInt8)).length = size := List.length_replicate
  have hcheck := check_of asserts (show (strip0x s).length ≤ size * 2 by omega)
  have hrun := @hextobin_kept asserts _ _ (List.replicate size 0) hstrip hne hhex heven
    (by omega) (by omega)
  have hzeros : size - digits.length / 2 = k := by omega
  rw [hstrip] at hlen'
  refine ⟨fromHex digits, (digits.length / 2 : ℕ), ?_, Int.natCast_nonneg _,
    by rwa [length_fromHex], ofBE_fromHex hparity⟩
  unfold hextobin2
  rw [if_neg (by omega)]
  simp only [hcheck, bind, Except.bind, hrep]
  rw [if_neg (not_not.mpr heven), if_neg (by omega), hrun, hrep, hzeros]

/-- Of an odd one the first digit is stored in a byte of its own. -/
theorem storesDigits_odd (asserts : Bool) {c : UInt8} {rest digits : List UInt8} {k : ℕ}
    (hshort : s.length ≤ 64) (ht : strip0x s = c :: rest) (heven : rest.length % 2 = 0)
    (hstrip : strip0x rest = digits) (hempty : digits = [] → rest = []) (hhex : AllHex (c :: digits))
    (hparity : digits.length % 2 = 0)
    (hk : 1 + digits.length / 2 + k = s.length / 2 + s.length % 2) :
    StoresDigits asserts s (c :: digits) k := by
  have hlen := length_strip0x s
  have hlen' := length_strip0x rest
  have hodd : (strip0x s).length % 2 ≠ 0 := by
    rw [ht, List.length_cons]
    omega
  have hc : IsHexDigit c := hhex c List.mem_cons_self
  have hvalue := toNat_ofNat_hexValue c
  have hfrom : (fromHex digits).length = digits.length / 2 := length_fromHex digits
  have hpow := pow_half_length hparity
  unfold StoresDigits
  generalize hsize : s.length / 2 + s.length % 2 = size at hk
  have hrep : (List.replicate size (0 : UInt8)).length = size := List.length_replicate
  have hcheck := check_of asserts (show (strip0x s).length ≤ size * 2 by omega)
  have hsplit : (List.replicate size (0 : UInt8)).drop 1 = List.replicate (size - 1) 0 :=
    List.drop_replicate
  refine ⟨UInt8.ofNat (hexValue c) :: fromHex digits, (digits.length / 2 : ℕ), ?_,
    Int.natCast_nonneg _, by rw [List.length_cons, hfrom]; omega, ?_⟩
  · unfold hextobin2
    rw [if_neg (by omega)]
    simp only [hcheck, bind, Except.bind, hrep, mapHex_neg_iff, toNat_mapHex]
    rw [if_pos hodd, ht, List.getD_cons_zero, if_neg (not_not.mpr hc), List.drop_one,
      List.tail_cons, hsplit]
    by_cases hnil : digits = []
    · have hzeros : size - 1 = k := by
        rw [hnil, List.length_nil] at hk
        omega
      rw [hempty hnil, if_pos List.length_nil, hzeros, hnil]
      rfl
    · have hrest : rest ≠ [] := by
        rintro rfl
        exact hnil hstrip.symm
      have hdigits : digits.length ≤ rest.length := by
        rw [← hstrip]
        omega
      rw [ht, List.length_cons] at hlen
      have hrun := @hextobin_kept asserts rest digits (List.replicate (size - 1) 0) hstrip hnil
        (fun e he => hhex e (List.mem_cons_of_mem c he)) heven
        (by rw [List.length_replicate]; omega) (by rw [List.length_replicate]; omega)
      have hzeros : size - 1 - digits.length / 2 = k := by omega
      rw [if_neg (List.length_pos_iff.mpr hrest).ne', hrun, List.length_replicate, hzeros]
      rfl
  · rw [ofBE_cons, hvalue, hfrom, hpow, ofBE_fromHex hparity, numberOf_cons, Nat.mul_comm]

/-- Digits behind one prefix or none are even or odd. -/
theorem storesDigits_plain (asserts : Bool) {digits : List UInt8} {k : ℕ} (hshort : s.length ≤ 64)
    (ht : strip0x s = digits) (hne : digits ≠ []) (hhex : AllHex digits)
    (hk : digits.length / 2 + digits.length % 2 + k = s.length / 2 + s.length % 2) :
    StoresDigits asserts s digits k := by
  by_cases hparity : digits.length % 2 = 0
  · exact storesDigits_even asserts hshort (by rwa [ht]) (by rw [ht, strip0x_hex hhex]) hne hhex
      hparity (by omega)
  · obtain ⟨c, rest, rfl⟩ := List.exists_cons_of_ne_nil hne
    have hrest : AllHex rest := fun e he => hhex e (List.mem_cons_of_mem c he)
    rw [List.length_cons] at hparity hk
    exact storesDigits_odd asserts hshort ht (by omega) (strip0x_hex hrest) id hhex (by omega)
      (by omega)

/-- **What `hextobin_2` stores**: the digits, and a zero byte for each prefix among them. -/
theorem storesDigits_innerHex (asserts : Bool) {digits : List UInt8} {k : ℕ}
    (h : InnerHex s digits k) (hpos : 1 ≤ s.length) (hshort : s.length ≤ 64) :
    StoresDigits asserts s digits k := by
  have hx : (ascii "0x").length = 2 := by decide
  cases h with
  | plain hhex =>
      exact storesDigits_plain asserts hshort (strip0x_hex hhex) (List.length_pos_iff.mp hpos) hhex rfl
  | prefixed hne hhex =>
      refine storesDigits_plain asserts hshort (strip0x_append hne) hne hhex ?_
      rw [List.length_append, hx]
      omega
  | twice hne hhex hparity =>
      have hbehind : ascii "0x" ++ digits ≠ [] := fun h => hne (List.append_eq_nil_iff.mp h).2
      have ht := strip0x_append hbehind
      refine storesDigits_even asserts hshort ?_ ?_ hne hhex hparity ?_
      · rw [ht, List.length_append, hx]
        omega
      · rw [ht, strip0x_append hne]
      · rw [List.length_append, List.length_append, hx]
        omega
  | @behindDigit c d hne hhex hparity =>
      refine storesDigits_odd asserts hshort (strip0x_cons_0x c d) ?_ (strip0x_append hne)
        (fun h => absurd h hne) hhex hparity ?_
      · rw [List.length_append, hx]
        omega
      · rw [List.length_cons, List.length_append, hx]
        omega
  | @both c d hne hhex hparity =>
      refine storesDigits_odd asserts hshort (strip0x_append (List.cons_ne_nil _ _)) ?_
        (strip0x_append hne) (fun h => absurd h hne) hhex hparity ?_
      · rw [List.length_append, hx]
        omega
      · rw [List.length_append, List.length_cons, List.length_append, hx]
        omega

/-- A text that strips to digits is one of the five kinds. -/
theorem exists_innerHex_iff :
    (∃ digits k, InnerHex s digits k) ↔ StripsToHex s := by
  rw [stripsToHex_iff]
  constructor
  · rintro ⟨digits, k, h⟩
    cases h with
    | plain hhex => exact Or.inl hhex
    | prefixed hne hhex => exact Or.inr ⟨[], digits, rfl, hne, hhex, Or.inl rfl⟩
    | twice hne hhex heven =>
        exact Or.inr ⟨ascii "0x", digits, rfl, hne, hhex, Or.inr ⟨heven, Or.inl rfl⟩⟩
    | @behindDigit c d hne hhex heven =>
        exact Or.inr ⟨[c], d, rfl, hne, fun e he => hhex e (List.mem_cons_of_mem c he),
          Or.inr ⟨heven, Or.inr ⟨c, hhex c List.mem_cons_self, Or.inl rfl⟩⟩⟩
    | @both c d hne hhex heven =>
        exact Or.inr ⟨ascii "0x" ++ [c], d, by rw [List.append_assoc]; rfl, hne,
          fun e he => hhex e (List.mem_cons_of_mem c he),
          Or.inr ⟨heven, Or.inr ⟨c, hhex c List.mem_cons_self, Or.inr rfl⟩⟩⟩
  · rintro (hhex | ⟨before, digits, rfl, hne, hhex, hbefore⟩)
    · exact ⟨_, _, .plain hhex⟩
    · have hcons : ∀ {c : UInt8}, IsHexDigit c → AllHex (c :: digits) := fun hc e he =>
        (List.mem_cons.mp he).elim (fun heq => heq ▸ hc) (hhex e)
      rcases hbefore with rfl | ⟨heven, rfl | ⟨c, hc, rfl | rfl⟩⟩
      · exact ⟨_, _, .prefixed hne hhex⟩
      · exact ⟨_, _, .twice hne hhex heven⟩
      · exact ⟨_, _, .behindDigit hne (hcons hc) heven⟩
      · rw [List.append_assoc]
        exact ⟨_, _, .both hne (hcons hc) heven⟩

/-- Digits in front of zero bytes. -/
theorem ofBE_append_replicate (bytes : List UInt8) (k : ℕ) :
    ofBE (bytes ++ List.replicate k 0) = ofBE bytes * 256 ^ k := by
  have hzero := ofBE_replicate_zero_append k []
  rw [List.append_nil, ofBE_nil] at hzero
  rw [ofBE_append, hzero, List.length_replicate, Nat.add_zero, Nat.mul_comm]

/-- `fromstring256` stores the number of such a text. -/
theorem fromstring256_denotesHex (asserts : Bool) {n : ℕ} (h : DenotesHex s n) (out : Uint256) :
    ∃ v, fromstring256 asserts s out = .ok (v, 0) ∧ v.toNat = n := by
  obtain ⟨⟨hpos, hshort⟩, digits, k, hinner, rfl⟩ := h
  obtain ⟨bytes, ret, hrun, hret, hlen, hnum⟩ := storesDigits_innerHex asserts hinner hpos hshort
  refine ⟨readu256BE (List.replicate (32 - ((strip0x s).length / 2 + (strip0x s).length % 2)) 0 ++
    (bytes ++ List.replicate k 0)), ?_, ?_⟩
  · unfold fromstring256
    simp only [hrun]
    rw [if_neg (by omega), if_neg (not_lt.mpr hret)]
  · rw [toNat_readu256BE, ofBE_replicate_zero_append, ofBE_append_replicate, hnum]
    rw [List.length_append, List.length_append, List.length_replicate, List.length_replicate]
    omega

/-- **What `fromstring256` accepts**, and as what it reads it. -/
theorem fromstring256_reads_iff (asserts : Bool) (out v : Uint256) :
    fromstring256 asserts s out = .ok (v, 0) ↔ DenotesHex s v.toNat := by
  constructor
  · intro hend
    obtain ⟨out', ret, hret, ⟨-, hlen, hstrips⟩ | ⟨hneg, -⟩⟩ := fromstring256_strips asserts s out
    · obtain ⟨digits, k, h⟩ := exists_innerHex_iff.mpr hstrips
      have hdenotes : DenotesHex s (numberOf 16 digits * 256 ^ k) := ⟨hlen, digits, k, h, rfl⟩
      obtain ⟨w, hw, hnum⟩ := fromstring256_denotesHex asserts hdenotes out
      cases hend.symm.trans hw
      rwa [hnum]
    · cases hend.symm.trans hret
      exact absurd hneg (by decide)
  · intro h
    obtain ⟨w, hw, hnum⟩ := fromstring256_denotesHex asserts h out
    rw [hw, Uint256.toNat_injective hnum]

end AnylWallet.Helpers
