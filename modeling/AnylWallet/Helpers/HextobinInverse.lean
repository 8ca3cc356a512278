import AnylWallet.Helpers.HextobinEnds

/-!
# `hextobin` and `bintohex` undo each other

* `hextobinAt_returns`: a string for which `hextobin` returns a number of bytes is the hex digits of
  these bytes behind an optional `0x`, at most 254 of them, and the rest of the buffer is zero.
* `bintohex_eq`, `hexText_fromHex`: `bintohex` prints those bytes as the same digits, with small
  letters.
* `hextobin_hexText`: what `bintohex` prints of at most 127 bytes, `hextobin` reads back.
-/

namespace AnylWallet.Helpers

open AnylWallet.Lib

/-- A capital letter as a small one. -/
def toLower (c : UInt8) : UInt8 :=
  if 'A'.toUInt8 ≤ c ∧ c ≤ 'Z'.toUInt8 then c + 32 else c

/-- By character codes. -/
theorem toNat_toLower (c : UInt8) :
    (toLower c).toNat = if 65 ≤ c.toNat ∧ c.toNat ≤ 90 then c.toNat + 32 else c.toNat := by
  have hA : 'A'.toUInt8.toNat = 65 := by decide
  have hZ : 'Z'.toUInt8.toNat = 90 := by decide
  have hcase : (32 : UInt8).toNat = 32 := rfl
  unfold toLower
  simp only [UInt8.le_iff_toNat_le, hA, hZ]
  split_ifs with h
  · rw [UInt8.toNat_add, hcase]
    omega
  · rfl

/-- A digit by its character code. -/
theorem toNat_digit {d : ℕ} (h : d < 16) :
    (digit d).toNat = if d < 10 then 48 + d else 87 + d := by
  unfold digit
  split_ifs
  · rw [UInt8.toNat_ofNat']
    omega
  · rw [UInt8.toNat_ofNat']
    omega

/-- Printing the value of a digit gives the digit with a small letter. -/
theorem digit_hexValue {c : UInt8} (h : IsHexDigit c) : digit (hexValue c) = toLower c := by
  rw [isHexDigit_iff] at h
  apply UInt8.toNat_inj.mp
  rw [toNat_digit (hexValue_lt c), toNat_toLower]
  unfold hexValue
  split_ifs
  all_goals omega

/-! ## Printing -/

/-- **What `bintohex` stores**: the digits and a NUL. -/
theorem bintohex_eq {bytes : List UInt8} (hne : bytes ≠ []) (hshort : bytes.length < 2 ^ 30)
    (m : Region) (out : ℕ) {outLen : ℕ} (hout : 2 * bytes.length + 1 ≤ outLen) :
    bintohex bytes m out outLen =
      (m.store out (hexText bytes ++ [0]), ((2 * bytes.length + 1 : ℕ) : ℤ)) := by
  have hlen : bytes.length ≠ 0 := fun h0 => hne (List.length_eq_zero_iff.mp h0)
  have hprint : bintohexNonull bytes m out outLen =
      (m.store out (hexText bytes), ((2 * bytes.length : ℕ) : ℤ)) := by
    rw [bintohexNonull_eq hne, if_neg (by omega), sizeToInt_of_lt (by omega)]
  have hnul : (m.store out (hexText bytes)).store (out + bytes.length * 2) [0] =
      m.store out (hexText bytes ++ [0]) := by
    rw [← m.store_append, length_hexText, Nat.mul_comm]
  rw [bintohex, if_neg hlen, if_neg (by omega), hprint]
  dsimp only
  rw [if_neg (by omega), hnul]
  rfl

/-- **The bytes of digits have the same digits**, with small letters. -/
theorem hexText_fromHex {digits : List UInt8} (heven : digits.length % 2 = 0)
    (hhex : ∀ c ∈ digits, IsHexDigit c) : hexText (fromHex digits) = digits.map toLower := by
  induction digits using fromHex.induct with
  | case1 c d digits ih =>
      have hc := hhex c (by simp)
      have hd := hhex d (by simp)
      rw [List.length_cons, List.length_cons] at heven
      have hrest := ih (by omega) fun e he => hhex e (by simp [he])
      have hclt := hexValue_lt c
      have hdlt := hexValue_lt d
      have hhigh : (16 * hexValue c + hexValue d) / 16 = hexValue c := by omega
      have hlow : (16 * hexValue c + hexValue d) % 16 = hexValue d := by omega
      rw [hexText] at hrest
      rw [hexText, fromHex, List.flatMap_cons, hrest, hexPair, toNat_hexByte, hhigh, hlow,
        digit_hexValue hc, digit_hexValue hd]
      rfl
  | case2 digits hdigits =>
      rcases digits with _ | ⟨c, _ | ⟨d, digits⟩⟩
      · rfl
      · rw [List.length_singleton] at heven
        cases heven
      · exact absurd rfl (hdigits c d digits)

/-- No digit is a NUL. -/
theorem hexText_ne_zero (bytes : List UInt8) : ∀ c ∈ hexText bytes, c ≠ 0 := by
  rintro c hc rfl
  exact absurd (isHexDigit_hexText bytes 0 hc) (by decide)

/-! ## Reading -/

/-- What the loop returns it also returns with more rounds. -/
theorem hextobinLoop_mono {str : List UInt8} {blen fuel : ℕ} {pos : UInt8} {bytes : List UInt8}
    {r : List UInt8 × ℤ} (h : hextobinLoop str blen fuel pos bytes = .ok r) (more : ℕ) :
    hextobinLoop str blen (fuel + more) pos bytes = .ok r := by
  induction fuel generalizing pos bytes with
  | zero =>
      rw [hextobinLoop] at h
      cases h
  | succ fuel ih =>
      rw [Nat.add_right_comm]
      rcases hextobinLoop_cases str blen pos with hout | ⟨hin, hbad | ⟨h0, h1⟩⟩
      · rwa [hextobinLoop_stop hout] at h ⊢
      · rwa [hextobinLoop_refuse hin hbad] at h ⊢
      · rw [hextobinLoop_pair hin h0 h1] at h ⊢
        exact ih h

/-- A loop that returns a number of bytes has seen digits only. -/
theorem isHexDigit_of_hextobinLoop {str : List UInt8} {blen fuel : ℕ} {pos : UInt8}
    {bytes after : List UInt8} {ret : ℤ}
    (h : hextobinLoop str blen fuel pos bytes = .ok (after, ret)) (hret : 0 ≤ ret) {i : ℕ}
    (heven : pos.toNat % 2 = 0) (hpos : pos.toNat ≤ i) (hi : i < str.length)
    (hblen : i < 2 * blen) (hi256 : i < 256) : IsHexDigit (str.getD i 0) := by
  induction fuel generalizing pos bytes with
  | zero =>
      rw [hextobinLoop] at h
      cases h
  | succ fuel ih =>
      rcases hextobinLoop_cases str blen pos with hout | ⟨hin, hbad | ⟨h0, h1⟩⟩
      · omega
      · rw [hextobinLoop_refuse hin hbad] at h
        obtain ⟨-, rfl⟩ := Prod.mk.inj (Except.ok.inj h)
        exact absurd hret (by decide)
      · rw [hextobinLoop_pair hin h0 h1] at h
        -- the two characters of this round, or one that a later round reads
        by_cases hthis : i = pos.toNat
        · rwa [hthis]
        · by_cases hthat : i = pos.toNat + 1
          · rwa [hthat]
          · have hnext := toNat_add_two pos
            exact ih h (by omega) (by omega)

/-- **When `hextobin` returns a number of bytes**, the string is their digits behind an optional
`0x`. -/
theorem hextobinAt_returns {fuel : ℕ} {asserts : Bool} {s bytes after : List UInt8} {ret : ℤ}
    (hroom : (strip0x s).length ≤ bytes.length * 2)
    (h : hextobinAt fuel asserts s bytes = .ok (after, ret)) (hret : 0 ≤ ret) :
    (strip0x s).length % 2 = 0 ∧ (strip0x s).length ≤ 254 ∧ (∀ c ∈ strip0x s, IsHexDigit c) ∧
      after = fromHex (strip0x s) ++ List.replicate (bytes.length - (strip0x s).length / 2) 0 ∧
      ret = ((strip0x s).length / 2 : ℕ) := by
  have hfirst : ¬ (s.length = 0 ∨ s.length % 2 ≠ 0) := by
    intro hfirst
    obtain ⟨ret', hret', hneg⟩ := hextobinAt_untouched fuel asserts hfirst bytes
    rw [hret'] at h
    obtain ⟨-, rfl⟩ := Prod.mk.inj (Except.ok.inj h)
    omega
  obtain ⟨h0, hodd⟩ := not_or.mp hfirst
  have hstrip := length_strip0x s
  have heven : (strip0x s).length % 2 = 0 := by omega
  have hloop : hextobinLoop (strip0x s) bytes.length fuel 0 (List.replicate bytes.length 0) =
      .ok (after, ret) := by
    rw [← hextobinAt_even h0 (not_not.mp hodd) fun _ => hroom]
    exact h
  have hdigit : ∀ i, i < (strip0x s).length → i < 256 → IsHexDigit ((strip0x s).getD i 0) :=
    fun i hi hi256 => isHexDigit_of_hextobinLoop hloop hret rfl (Nat.zero_le _) hi (by omega) hi256
  have hget : ∀ i (hi : i < (strip0x s).length), (strip0x s).getD i 0 = (strip0x s)[i] :=
    fun i hi => List.getD_eq_getElem _ _ hi
  have hshort : (strip0x s).length ≤ 254 := by
    by_contra hlong
    -- the index would come round, and the loop would not have returned
    have hendless := @hextobinLoop_endless (strip0x s) bytes.length (by omega) (by omega)
      (by
        intro c hc
        obtain ⟨i, hi, rfl⟩ := List.mem_take_iff_getElem.mp hc
        rw [← hget i (by omega)]
        exact hdigit i (by omega) (by omega)) fuel 0 rfl (List.replicate bytes.length 0)
    rw [hendless] at hloop
    cases hloop
  have hhex : ∀ c ∈ strip0x s, IsHexDigit c := by
    intro c hc
    obtain ⟨i, hi, rfl⟩ := List.mem_iff_getElem.mp hc
    rw [← hget i hi]
    exact hdigit i hi (by omega)
  have hrun := @hextobinLoop_start (strip0x s) [] bytes.length heven (by omega) (Or.inl rfl) hshort
    hhex
  rw [List.append_nil] at hrun
  have hboth := (hextobinLoop_mono hrun fuel).symm.trans
    ((congrArg (hextobinLoop _ _ · _ _) (Nat.add_comm 129 fuel)).trans
      (hextobinLoop_mono hloop 129))
  obtain ⟨hafter, hlen⟩ := Prod.mk.inj (Except.ok.inj hboth)
  exact ⟨heven, hshort, hhex, hafter.symm, hlen.symm⟩

/-- **`hextobin` reads back what `bintohex` prints.** -/
theorem hextobin_hexText (asserts : Bool) {b buf : List UInt8} (hne : b ≠ [])
    (hshort : b.length ≤ 127) (hbuf : b.length ≤ buf.length) :
    hextobin asserts (hexText b) buf =
      .ok (b ++ List.replicate (buf.length - b.length) 0, b.length) := by
  have hpos := List.length_pos_iff.mpr hne
  have hlen := length_hexText b
  have hstrip := strip0x_hex (isHexDigit_hexText b)
  have hloop := @hextobinLoop_start (hexText b) [] buf.length (by omega) (by omega) (Or.inl rfl)
    (by omega) (isHexDigit_hexText b)
  rw [List.append_nil, fromHex_hexText, hlen, Nat.mul_div_cancel_left _ Nat.zero_lt_two] at hloop
  rw [hextobin_even (by omega) (by omega) (fun _ => by rw [hstrip]; omega), hstrip, hloop]

/-- **`hextobin` and `bintohex` undo each other.** What `hextobin` reads with a result that is not
negative are the digits of the bytes it stores, behind an optional `0x`, and `bintohex` prints them
with small letters; what `bintohex` prints of at most 127 bytes, `hextobin` reads back. -/
theorem hextobin_bintohex :
    (∀ (fuel : ℕ) (asserts : Bool) (str bytes after : List UInt8) (ret : ℤ),
      (strip0x str).length ≤ bytes.length * 2 →
      hextobinAt fuel asserts str bytes = .ok (after, ret) → 0 ≤ ret →
      ∃ (n : ℕ) (digits : List UInt8), ret = n ∧
        (str = digits ∨ str = ascii "0x" ++ digits) ∧ digits.length = 2 * n ∧
        (∀ c ∈ digits, IsHexDigit c) ∧ n ≤ bytes.length ∧
        (0 < n → ∀ (m : Region) (out outLen : ℕ), 2 * n + 1 ≤ outLen →
          bintohex (after.take n) m out outLen =
            (m.store out (digits.map toLower ++ [0]), ((2 * n + 1 : ℕ) : ℤ))) ∧
        after.drop n = List.replicate (bytes.length - n) 0) ∧
    ∀ (asserts : Bool) (b buf : List UInt8) (m : Region) (out outLen : ℕ),
      b ≠ [] → b.length ≤ 127 → b.length ≤ buf.length → 2 * b.length + 1 ≤ outLen →
      ∃ str, (bintohex b m out outLen).1.HoldsString out str ∧
        hextobin asserts str buf =
          .ok (b ++ List.replicate (buf.length - b.length) 0, b.length) := by
  refine ⟨?_, ?_⟩
  · intro fuel asserts str bytes after ret hroom h hret
    obtain ⟨heven, hshort, hhex, rfl, rfl⟩ := hextobinAt_returns hroom h hret
    have hbytes := length_fromHex (strip0x str)
    refine ⟨(strip0x str).length / 2, strip0x str, rfl, strip0x_cases str, by omega,
      hhex, by omega, ?_, ?_⟩
    · intro hpos m out outLen hout
      rw [List.take_left' hbytes, bintohex_eq (List.length_pos_iff.mp (by omega)) (by omega) m out
        (by omega), hexText_fromHex heven hhex, hbytes]
    · exact List.drop_left' hbytes
  · intro asserts b buf m out outLen hne hshort hbuf hout
    refine ⟨hexText b, ?_, hextobin_hexText asserts hne hshort hbuf⟩
    rw [bintohex_eq hne (by omega) m out hout]
    exact m.holdsString_store out (hexText_ne_zero b)

/-- `0xDEADBEEF` read into six bytes and printed again, and three bytes printed and read. -/
theorem hextobin_bintohex_deadbeef :
    (∃ (n : ℕ) (digits : List UInt8), (4 : ℤ) = n ∧
      (ascii "0xDEADBEEF" = digits ∨ ascii "0xDEADBEEF" = ascii "0x" ++ digits) ∧
      digits.length = 2 * n ∧ (∀ c ∈ digits, IsHexDigit c) ∧ n ≤ 6 ∧
      (0 < n → ∀ (m : Region) (out outLen : ℕ), 2 * n + 1 ≤ outLen →
        bintohex (([0xDE, 0xAD, 0xBE, 0xEF, 0, 0] : List UInt8).take n) m out outLen =
          (m.store out (digits.map toLower ++ [0]), ((2 * n + 1 : ℕ) : ℤ))) ∧
      ([0xDE, 0xAD, 0xBE, 0xEF, 0, 0] : List UInt8).drop n = List.replicate (6 - n) 0) ∧
    ∃ str, (bintohex [0, 0xA5, 0xFF] ⟨fun _ => 0x55, 0⟩ 0 7).1.HoldsString 0 str ∧
      hextobin true str [1, 2, 3, 4] = .ok ([0, 0xA5, 0xFF, 0], 3) :=
  ⟨hextobin_bintohex.1 129 true (ascii "0xDEADBEEF") [1, 2, 3, 4, 5, 6]
      [0xDE, 0xAD, 0xBE, 0xEF, 0, 0] 4 (by decide) (by decide) (by decide),
    hextobin_bintohex.2 true [0, 0xA5, 0xFF] [1, 2, 3, 4] ⟨fun _ => 0x55, 0⟩ 0 7 (by decide)
      (by decide) (by decide) (by decide)⟩

end AnylWallet.Helpers
