import Mathlib.Data.List.GetD
import AnylWallet.Helpers.Fromstring

/-!
# Which strings `hextobin` accepts

The commands take any result that is not negative for an address, a key or a transaction. For a
buffer of at most 127 bytes:

* `hextobin_of_accepts`, `hextobin_of_not_accepts`: the strings `Accepts` describes are accepted,
  and no others. Of a longer string the digits that have no room are left out, behind a shorter one
  the buffer is filled with zeros.
* `accepts_of_isHexBytes`: among them are the digits of as many bytes as the buffer has.
-/

namespace AnylWallet.Helpers

open AnylWallet.Lib

/-- The string is the digits of the bytes, with an optional `0x`. -/
def IsHexBytes (s bytes : List UInt8) : Prop :=
  ∃ digits, (s = digits ∨ s = ascii "0x" ++ digits) ∧ digits.length = 2 * bytes.length ∧
    (∀ c ∈ digits, IsHexDigit c) ∧ fromHex digits = bytes

/-- The digits that have room in a buffer of this size. -/
def keptDigits (size : ℕ) (s : List UInt8) : List UInt8 := (strip0x s).take (2 * size)

/-- An even number of characters, and digits as far as the buffer goes. The assertion asks that it
goes to the end. -/
def Accepts (asserts : Bool) (size : ℕ) (s : List UInt8) : Prop :=
  s.length ≠ 0 ∧ s.length % 2 = 0 ∧ (asserts = true → (strip0x s).length ≤ size * 2) ∧
    ∀ c ∈ keptDigits size s, IsHexDigit c

/-- The bytes stored for such a string. -/
def keptBytes (size : ℕ) (s : List UInt8) : List UInt8 :=
  fromHex (keptDigits size s) ++ List.replicate (size - (keptDigits size s).length / 2) 0

/-- The loop of `hextobin` stops at anything else. -/
theorem hextobinLoop_bad {str : List UInt8} {blen fuel i : ℕ} {pos : UInt8} (bytes : List UInt8)
    (hpos : pos.toNat ≤ i) (hi : i < 2 * blen) (hstr : i < str.length) (hi256 : i < 256)
    (hbad : ¬ IsHexDigit (str.getD i 0)) (hfuel : i < pos.toNat + 2 * fuel) :
    ∃ after, hextobinLoop str blen fuel pos bytes = .ok (after, eInvalidChar) := by
  induction fuel generalizing pos bytes with
  | zero => omega
  | succ fuel ih =>
      rcases hextobinLoop_cases str blen pos with hout | ⟨hin, hstop | ⟨h0, h1⟩⟩
      · omega
      · exact ⟨_, hextobinLoop_refuse hin hstop⟩
      · have hne0 : i ≠ pos.toNat := by
          rintro rfl
          exact hbad h0
        have hne1 : i ≠ pos.toNat + 1 := by
          rintro rfl
          exact hbad h1
        have hnext := toNat_add_two pos
        rw [hextobinLoop_pair hin h0 h1]
        exact ih _ (by omega) (by omega)

/-- What an even string leaves does not depend on what the buffer held. -/
theorem hextobinAt_even {fuel : ℕ} {asserts : Bool} {s bytes : List UInt8} (h0 : s.length ≠ 0)
    (heven : s.length % 2 = 0) (hcheck : asserts = true → (strip0x s).length ≤ bytes.length * 2) :
    hextobinAt fuel asserts s bytes =
      hextobinLoop (strip0x s) bytes.length fuel 0 (List.replicate bytes.length 0) := by
  have hok : check asserts ((strip0x s).length ≤ bytes.length * 2) = .ok () :=
    if_neg fun h => h.2 (hcheck h.1)
  unfold hextobinAt
  rw [if_neg h0, if_neg (not_not.mpr heven)]
  simp only [hok]
  rfl

theorem hextobin_even {asserts : Bool} {s bytes : List UInt8} (h0 : s.length ≠ 0)
    (heven : s.length % 2 = 0) (hcheck : asserts = true → (strip0x s).length ≤ bytes.length * 2) :
    hextobin asserts s bytes =
      hextobinLoop (strip0x s) bytes.length 129 0 (List.replicate bytes.length 0) :=
  hextobinAt_even h0 heven hcheck

/-- **Accepted strings.** -/
theorem hextobin_of_accepts {asserts : Bool} {s bytes : List UInt8} (hshort : bytes.length ≤ 127)
    (h : Accepts asserts bytes.length s) :
    hextobin asserts s bytes =
      .ok (keptBytes bytes.length s, ((strip0x s).length / 2 : ℕ)) := by
  obtain ⟨h0, heven, hcheck, hhex⟩ := h
  have hstrip := length_strip0x s
  have hkept : (keptDigits bytes.length s).length =
      min (2 * bytes.length) (strip0x s).length := List.length_take
  have hrest : (strip0x s).drop (2 * bytes.length) = [] ∨
      (keptDigits bytes.length s).length = 2 * bytes.length := by
    rcases Nat.le_total (strip0x s).length (2 * bytes.length) with hle | hge
    · exact Or.inl (List.drop_eq_nil_of_le hle)
    · exact Or.inr (by omega)
  have hloop := @hextobinLoop_start (keptDigits bytes.length s)
    ((strip0x s).drop (2 * bytes.length)) bytes.length (by omega) (by omega) hrest (by omega) hhex
  rw [keptDigits, List.take_append_drop] at hloop
  rw [hextobin_even h0 heven hcheck, hloop]
  rfl

/-- Nothing is stored for a string that is empty or of odd length. -/
theorem hextobinAt_untouched (fuel : ℕ) (asserts : Bool) {s : List UInt8}
    (h : s.length = 0 ∨ s.length % 2 ≠ 0) (bytes : List UInt8) :
    ∃ ret, hextobinAt fuel asserts s bytes = .ok (bytes, ret) ∧ ret < 0 := by
  by_cases h0 : s.length = 0
  · exact ⟨eEmptyString, if_pos h0, by decide⟩
  · exact ⟨eInvalidStringLen, (if_neg h0).trans (if_pos (h.resolve_left h0)), by decide⟩

theorem hextobin_untouched (asserts : Bool) {s : List UInt8} (h : s.length = 0 ∨ s.length % 2 ≠ 0)
    (bytes : List UInt8) : ∃ ret, hextobin asserts s bytes = .ok (bytes, ret) ∧ ret < 0 :=
  hextobinAt_untouched 129 asserts h bytes

/-- Where the assertion does not hold, it stops the device. -/
theorem hextobinAt_assertion {asserts : Bool} {s bytes : List UInt8} (h0 : s.length ≠ 0)
    (heven : s.length % 2 = 0) (h : asserts = true ∧ ¬ (strip0x s).length ≤ bytes.length * 2)
    (fuel : ℕ) : hextobinAt fuel asserts s bytes = .error .assertion := by
  have herror : check asserts ((strip0x s).length ≤ bytes.length * 2) = .error .assertion :=
    if_pos h
  unfold hextobinAt
  rw [if_neg h0, if_neg (not_not.mpr heven)]
  simp only [herror]
  rfl

theorem hextobin_assertion {asserts : Bool} {s bytes : List UInt8} (h0 : s.length ≠ 0)
    (heven : s.length % 2 = 0) (h : asserts = true ∧ ¬ (strip0x s).length ≤ bytes.length * 2) :
    hextobin asserts s bytes = .error .assertion :=
  hextobinAt_assertion h0 heven h 129

/-- Another character is found only when the buffer has been written to. What is left there then
does not depend on what it held. -/
theorem hextobin_touched {asserts : Bool} {s : List UInt8} {size : ℕ} (hshort : size ≤ 127)
    (h0 : s.length ≠ 0) (heven : s.length % 2 = 0)
    (hcheck : asserts = true → (strip0x s).length ≤ size * 2)
    (hbad : ∃ c ∈ keptDigits size s, ¬ IsHexDigit c) :
    ∃ after, ∀ bytes : List UInt8, bytes.length = size →
      hextobin asserts s bytes = .ok (after, eInvalidChar) := by
  obtain ⟨c, hc, hneg⟩ := hbad
  obtain ⟨i, hi, hget⟩ := List.mem_iff_getElem.mp hc
  have hkept : (keptDigits size s).length = min (2 * size) (strip0x s).length := List.length_take
  have hd : (strip0x s).getD i 0 = c := by
    rw [List.getD_eq_getElem _ _ (by omega), ← hget]
    exact List.getElem_take.symm
  obtain ⟨after, hafter⟩ := @hextobinLoop_bad (strip0x s) size 129 i 0
    (List.replicate size 0) (Nat.zero_le _) (by omega) (by omega) (by omega) (by rwa [hd])
    (by rw [UInt8.toNat_zero]; omega)
  refine ⟨after, fun bytes hbytes => ?_⟩
  subst hbytes
  exact (hextobin_even h0 heven hcheck).trans hafter

/-- **All others are refused**, or the assertion stops the device. -/
theorem hextobin_of_not_accepts {asserts : Bool} {s bytes : List UInt8}
    (hshort : bytes.length ≤ 127) (h : ¬ Accepts asserts bytes.length s) :
    hextobin asserts s bytes = .error .assertion ∨
      ∃ after ret, hextobin asserts s bytes = .ok (after, ret) ∧ ret < 0 := by
  by_cases hfirst : s.length = 0 ∨ s.length % 2 ≠ 0
  · obtain ⟨ret, hret, hneg⟩ := hextobin_untouched asserts hfirst bytes
    exact Or.inr ⟨bytes, ret, hret, hneg⟩
  obtain ⟨h0, hodd⟩ := not_or.mp hfirst
  have heven := not_not.mp hodd
  by_cases hcheck : asserts = true → (strip0x s).length ≤ bytes.length * 2
  · have hbad : ∃ c ∈ keptDigits bytes.length s, ¬ IsHexDigit c := by
      by_contra hnone
      exact h ⟨h0, heven, hcheck, fun c hc => not_not.mp fun hno => hnone ⟨c, hc, hno⟩⟩
    obtain ⟨after, hafter⟩ := hextobin_touched hshort h0 heven hcheck hbad
    exact Or.inr ⟨after, eInvalidChar, hafter bytes rfl, by decide⟩
  · exact Or.inl (hextobin_assertion h0 heven (Classical.not_imp.mp hcheck))

/-- Stripping `0x` from a string of digits that may have it. -/
theorem strip0x_isHexBytes {s digits : List UInt8} (hs : s = digits ∨ s = ascii "0x" ++ digits)
    (hne : digits ≠ []) (hhex : ∀ c ∈ digits, IsHexDigit c) : strip0x s = digits := by
  rcases hs with rfl | rfl
  · exact strip0x_hex hhex
  · exact strip0x_append hne

/-- **The digits of as many bytes are accepted**, and those bytes are stored. -/
theorem accepts_of_isHexBytes (asserts : Bool) {s bytes : List UInt8} (hne : bytes ≠ [])
    (h : IsHexBytes s bytes) :
    Accepts asserts bytes.length s ∧ keptBytes bytes.length s = bytes := by
  obtain ⟨digits, hs, hlen, hhex, rfl⟩ := h
  have hpos := List.length_pos_iff.mpr hne
  have hdigits : digits ≠ [] := by
    rintro rfl
    exact hne rfl
  have hstrip := strip0x_isHexBytes hs hdigits hhex
  have hkept : keptDigits (fromHex digits).length s = digits := by
    rw [keptDigits, hstrip, ← hlen, List.take_length]
  have hx : (ascii "0x").length = 2 := by decide
  refine ⟨⟨?_, ?_, ?_, ?_⟩, ?_⟩
  · rcases hs with rfl | rfl
    · omega
    · rw [List.length_append, hx]
      omega
  · rcases hs with rfl | rfl
    · omega
    · rw [List.length_append, hx]
      omega
  · rw [hstrip]
    omega
  · rwa [hkept]
  · have hzero : (fromHex digits).length - digits.length / 2 = 0 := by omega
    rw [keptBytes, hkept, hzero, List.replicate_zero, List.append_nil]

/-- So are those that are printed. -/
theorem accepts_hexText (asserts : Bool) {bytes : List UInt8} (hne : bytes ≠ []) :
    Accepts asserts bytes.length (hexText bytes) :=
  (accepts_of_isHexBytes asserts hne
    ⟨_, Or.inl rfl, length_hexText bytes, isHexDigit_hexText bytes, fromHex_hexText bytes⟩).1

end AnylWallet.Helpers
