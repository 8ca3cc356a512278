import Mathlib.Tactic.Ring
import AnylWallet.Lib.Numeral
import AnylWallet.Lib.Region

/-!
# `helpers/hextobin`: bytes and hex digits

* `bintohexNonull` prints bytes as hex digits; it stores `hexText` or nothing at all
  (`bintohexNonull_eq`).
* `hextobin` and `hextobin2` read hex digits. A call may also end in a `Fault`: a failed assertion
  (in a build that has assertions) or a loop that never ends, because its counter has 8 bits.
* `hextobin2_ok`: on a buffer of half the length of the string neither happens.
-/

namespace AnylWallet.Helpers

open AnylWallet.Lib

/-- `E_EMPTY_STRING`. Source: `helpers/hextobin.h` -/
def eEmptyString : ℤ := -1

/-- `E_INVALID_STRING_LEN`. Source: `helpers/hextobin.h` -/
def eInvalidStringLen : ℤ := -2

/-- A `size_t` result returned as an `int`. -/
def sizeToInt (n : ℕ) : ℤ := (n : ℤ).bmod (2 ^ 32)

/-- A small size keeps its value. -/
theorem sizeToInt_of_lt {n : ℕ} (h : n < 2 ^ 31) : sizeToInt n = n := by
  unfold sizeToInt
  rw [Int.bmod_eq_of_le]
  · omega
  · omega

/-- The low 32 bits of a size, negative with the high one set. -/
theorem sizeToInt_eq (n : ℕ) :
    sizeToInt n =
      if 2 ^ 31 ≤ n % 2 ^ 32 then ((n % 2 ^ 32 : ℕ) : ℤ) - 2 ^ 32 else ((n % 2 ^ 32 : ℕ) : ℤ) := by
  have h32 : ((2 ^ 32 : ℕ) : ℤ) = 4294967296 := by norm_num
  unfold sizeToInt
  rw [Int.bmod_eq_emod, h32]
  split <;> split <;> omega

/-- Exactly the small sizes keep their value. -/
theorem sizeToInt_eq_self_iff {n : ℕ} : sizeToInt n = n ↔ n < 2 ^ 31 := by
  constructor
  · rw [sizeToInt_eq]
    split <;> omega
  · exact sizeToInt_of_lt

/-- The two digits of a byte. -/
def hexPair (b : UInt8) : List UInt8 := [digit (b.toNat / 16), digit (b.toNat % 16)]

/-- The hex digits of a byte string. -/
def hexText (bytes : List UInt8) : List UInt8 := bytes.flatMap hexPair

@[simp] theorem length_hexText (bytes : List UInt8) : (hexText bytes).length = 2 * bytes.length := by
  induction bytes with
  | nil => rfl
  | cons b bytes ih =>
      rw [hexText, List.flatMap_cons, List.length_append, ← hexText, ih]
      simp only [hexPair, List.length_cons, List.length_nil]
      omega

/-- The loop of `bintohex_nonull`. -/
def bintohexLoop (m : Region) (out : ℕ) : List UInt8 → Region
  | [] => m
  | b :: bytes =>
      let m := m.store out [digit (b.toNat / 16)]
      let m := m.store (out + 1) [digit (b.toNat % 16)]
      bintohexLoop m (out + 2) bytes

/-- `bintohex_nonull`, for a `bytes` that is not `NULL`; sizes are `size_t`.
Source: `helpers/hextobin.c` -/
def bintohexNonull (bytes : List UInt8) (m : Region) (out outLen : ℕ) : Region × ℤ :=
  if bytes.length = 0 then (m, eEmptyString)
  else if outLen < 2 * bytes.length % 2 ^ 64 then (m, eInvalidStringLen)
  else (bintohexLoop m out bytes, sizeToInt (2 * bytes.length % 2 ^ 64))

/-- `bintohex`, for a `bytes` that is not `NULL`: the digits and a NUL.
Source: `helpers/hextobin.c` -/
def bintohex (bytes : List UInt8) (m : Region) (out outLen : ℕ) : Region × ℤ :=
  if bytes.length = 0 then (m, eEmptyString)
  else if outLen < (2 * bytes.length + 1) % 2 ^ 64 then (m, eInvalidStringLen)
  else
    let (m, ret) := bintohexNonull bytes m out outLen
    if ret < 0 then (m, ret)
    else (m.store (out + bytes.length * 2) [0], ret + 1)

/-- The loop stores the digits one after the other. -/
theorem bintohexLoop_eq (m : Region) (out : ℕ) (bytes : List UInt8) :
    bintohexLoop m out bytes = m.store out (hexText bytes) := by
  induction bytes generalizing m out with
  | nil => simp [bintohexLoop, hexText]
  | cons b bytes ih =>
      have hpair := m.store_append out [digit (b.toNat / 16)] [digit (b.toNat % 16)]
      have hrest := m.store_append out (hexPair b) (hexText bytes)
      rw [List.length_singleton] at hpair
      rw [bintohexLoop, ih, hpair]
      exact hrest

/-- **What `bintohex_nonull` does**: nothing but refuse, or store the digits. -/
theorem bintohexNonull_eq {bytes : List UInt8} (h : bytes ≠ []) (m : Region) (out outLen : ℕ) :
    bintohexNonull bytes m out outLen =
      if outLen < 2 * bytes.length % 2 ^ 64 then (m, eInvalidStringLen)
      else (m.store out (hexText bytes), sizeToInt (2 * bytes.length)) := by
  have hne : bytes.length ≠ 0 := fun h0 => h (List.length_eq_zero_iff.mp h0)
  have hmod : sizeToInt (2 * bytes.length % 2 ^ 64) = sizeToInt (2 * bytes.length) := by
    have hemod : ((2 * bytes.length % 2 ^ 64 : ℕ) : ℤ) % 2 ^ 32 = ((2 * bytes.length : ℕ) : ℤ) % 2 ^ 32 := by
      omega
    unfold sizeToInt
    rw [← Int.emod_bmod, ← Int.emod_bmod ((2 * bytes.length : ℕ) : ℤ)]
    exact congrArg (Int.bmod · (2 ^ 32)) hemod
  rw [bintohexNonull, if_neg hne, bintohexLoop_eq, hmod]

/-! ## Reading digits -/

/-- Why a call does not end the way C defines. -/
inductive Fault where
  /-- An assertion fails. -/
  | assertion
  /-- A loop never ends. -/
  | endless
  /-- A token at or past the number of tokens is read. -/
  | staleToken
  /-- More bytes are copied than the array `tmp` holds. -/
  | tmpOverflow
  /-- A byte past the end of the buffer is written. -/
  | outside
deriving DecidableEq, Repr

/-- `E_INVALID_CHAR`. Source: `helpers/hextobin.h` -/
def eInvalidChar : ℤ := -3

/-- `assert`, in a build that has assertions. -/
def check (asserts : Bool) (cond : Prop) [Decidable cond] : Except Fault Unit :=
  if asserts = true ∧ ¬ cond then .error .assertion else .ok ()

/-- `map_hex`. Source: `helpers/hextobin.c` -/
def mapHex (c : UInt8) : ℤ :=
  if '0'.toUInt8 ≤ c ∧ c ≤ '9'.toUInt8 then (c - '0'.toUInt8).toNat
  else if 'A'.toUInt8 ≤ c ∧ c ≤ 'F'.toUInt8 then (c - 'A'.toUInt8).toNat + 10
  else if 'a'.toUInt8 ≤ c ∧ c ≤ 'f'.toUInt8 then (c - 'a'.toUInt8).toNat + 10
  else -1

/-- `map_hex` by character codes. -/
theorem mapHex_eq (c : UInt8) :
    mapHex c =
      if 48 ≤ c.toNat ∧ c.toNat ≤ 57 then (c.toNat : ℤ) - 48
      else if 65 ≤ c.toNat ∧ c.toNat ≤ 70 then (c.toNat : ℤ) - 55
      else if 97 ≤ c.toNat ∧ c.toNat ≤ 102 then (c.toNat : ℤ) - 87
      else -1 := by
  have h0 : '0'.toUInt8.toNat = 48 := by decide
  have h9 : '9'.toUInt8.toNat = 57 := by decide
  have hA : 'A'.toUInt8.toNat = 65 := by decide
  have hF : 'F'.toUInt8.toNat = 70 := by decide
  have ha : 'a'.toUInt8.toNat = 97 := by decide
  have hf : 'f'.toUInt8.toNat = 102 := by decide
  unfold mapHex
  simp only [UInt8.le_iff_toNat_le, h0, h9, hA, hF, ha, hf]
  split_ifs with h h h
  · rw [UInt8.toNat_sub_of_le _ _ (UInt8.le_iff_toNat_le.mpr (by omega)), h0]
    omega
  · rw [UInt8.toNat_sub_of_le _ _ (UInt8.le_iff_toNat_le.mpr (by omega)), hA]
    omega
  · rw [UInt8.toNat_sub_of_le _ _ (UInt8.le_iff_toNat_le.mpr (by omega)), ha]
    omega
  · rfl

/-- `map_hex` refuses what is no digit. -/
theorem mapHex_neg_iff {c : UInt8} : mapHex c < 0 ↔ ¬ IsHexDigit c := by
  rw [mapHex_eq, isHexDigit_iff]
  split_ifs with h h h
  all_goals omega

/-- A digit is mapped to its value. -/
theorem toNat_mapHex (c : UInt8) : (mapHex c).toNat = hexValue c := by
  rw [mapHex_eq, hexValue]
  split_ifs
  all_goals omega

/-- The digits behind a leading `0x`. -/
def strip0x (str : List UInt8) : List UInt8 :=
  if str.length > 2 ∧ str.take 2 = ascii "0x" then str.drop 2 else str

/-- The loop of `hextobin`; `pos` is a `uint8_t`. After 128 rounds it is `0` again, so a loop that
has not ended by then never does. -/
def hextobinLoop (str : List UInt8) (blen : ℕ) :
    ℕ → UInt8 → List UInt8 → Except Fault (List UInt8 × ℤ)
  | 0, _, _ => .error .endless
  | fuel + 1, pos, bytes =>
      if pos.toNat < blen * 2 ∧ pos.toNat < str.length then
        let b0 := mapHex (str.getD pos.toNat 0)
        if b0 < 0 then .ok (bytes, eInvalidChar)
        else
          let b1 := mapHex (str.getD (pos.toNat + 1) 0)
          if b1 < 0 then .ok (bytes, eInvalidChar)
          else
            hextobinLoop str blen fuel (pos + 2)
              (bytes.set (pos.toNat / 2) (UInt8.ofNat (16 * b0.toNat + b1.toNat)))
      else .ok (bytes, (str.length / 2 : ℕ))

/-- `hextobin` on a string and the `blen` bytes at `bytes`, in `fuel` rounds of its loop: these bytes
afterwards, and the result. Source: `helpers/hextobin.c` -/
def hextobinAt (fuel : ℕ) (asserts : Bool) (str bytes : List UInt8) :
    Except Fault (List UInt8 × ℤ) :=
  if str.length = 0 then .ok (bytes, eEmptyString)
  else if str.length % 2 ≠ 0 then .ok (bytes, eInvalidStringLen)
  else do
    let str := strip0x str
    check asserts (str.length ≤ bytes.length * 2)
    hextobinLoop str bytes.length fuel 0 (List.replicate bytes.length 0)

/-- `hextobin`, in as many rounds as a loop that ends can have. -/
def hextobin (asserts : Bool) (str bytes : List UInt8) : Except Fault (List UInt8 × ℤ) :=
  hextobinAt 129 asserts str bytes

/-- `hextobin_2`. Source: `helpers/hextobin.c` -/
def hextobin2 (asserts : Bool) (str bytes : List UInt8) : Except Fault (List UInt8 × ℤ) :=
  if str.length = 0 then .ok (bytes, eEmptyString)
  else do
    let str := strip0x str
    check asserts (str.length ≤ bytes.length * 2)
    let bytes := List.replicate bytes.length 0
    -- sanitize odd-length string
    if str.length % 2 ≠ 0 then
      let b1 := mapHex (str.getD 0 0)
      if b1 < 0 then .ok (bytes, eInvalidChar)
      else
        let str := str.drop 1
        if str.length = 0 then .ok (UInt8.ofNat b1.toNat :: bytes.drop 1, 0)
        else
          let (rest, ret) ← hextobin asserts str (bytes.drop 1)
          .ok (UInt8.ofNat b1.toNat :: rest, ret)
    else if str.length = 0 then .ok (bytes, 0)
    else hextobin asserts str bytes

/-! ## On a buffer of half the length -/

/-- An assertion that holds does nothing. -/
theorem check_of (asserts : Bool) {cond : Prop} [Decidable cond] (h : cond) :
    check asserts cond = .ok () :=
  if_neg fun h' => h'.2 h

/-- Stripping takes two characters or none. -/
theorem length_strip0x (str : List UInt8) :
    (strip0x str).length = str.length ∨
      (2 < str.length ∧ (strip0x str).length + 2 = str.length) := by
  unfold strip0x
  split
  · rename_i h
    refine Or.inr ⟨h.1, ?_⟩
    rw [List.length_drop]
    omega
  · exact Or.inl rfl

/-! ## One round of the loop -/

section

variable {str bytes : List UInt8} {blen fuel : ℕ} {pos : UInt8}

/-- The end of the buffer or of the string. -/
theorem hextobinLoop_stop (h : ¬ (pos.toNat < blen * 2 ∧ pos.toNat < str.length)) :
    hextobinLoop str blen (fuel + 1) pos bytes = .ok (bytes, (str.length / 2 : ℕ)) := by
  rw [hextobinLoop, if_neg h]

/-- A character that is no digit. -/
theorem hextobinLoop_refuse (hin : pos.toNat < blen * 2 ∧ pos.toNat < str.length)
    (h : ¬ IsHexDigit (str.getD pos.toNat 0) ∨ ¬ IsHexDigit (str.getD (pos.toNat + 1) 0)) :
    hextobinLoop str blen (fuel + 1) pos bytes = .ok (bytes, eInvalidChar) := by
  rw [hextobinLoop, if_pos hin]
  simp only [mapHex_neg_iff]
  split
  · rfl
  · rename_i h0
    rw [if_pos (h.resolve_left h0)]

/-- Two digits: their byte is stored. -/
theorem hextobinLoop_pair (hin : pos.toNat < blen * 2 ∧ pos.toNat < str.length)
    (h0 : IsHexDigit (str.getD pos.toNat 0)) (h1 : IsHexDigit (str.getD (pos.toNat + 1) 0)) :
    hextobinLoop str blen (fuel + 1) pos bytes =
      hextobinLoop str blen fuel (pos + 2) (bytes.set (pos.toNat / 2)
        (UInt8.ofNat (16 * hexValue (str.getD pos.toNat 0) +
          hexValue (str.getD (pos.toNat + 1) 0)))) := by
  rw [hextobinLoop, if_pos hin]
  simp only [mapHex_neg_iff, toNat_mapHex]
  rw [if_neg (not_not.mpr h0), if_neg (not_not.mpr h1)]

/-- These are the only ones. -/
theorem hextobinLoop_cases (str : List UInt8) (blen : ℕ) (pos : UInt8) :
    ¬ (pos.toNat < blen * 2 ∧ pos.toNat < str.length) ∨
      (pos.toNat < blen * 2 ∧ pos.toNat < str.length) ∧
        ((¬ IsHexDigit (str.getD pos.toNat 0) ∨ ¬ IsHexDigit (str.getD (pos.toNat + 1) 0)) ∨
          IsHexDigit (str.getD pos.toNat 0) ∧ IsHexDigit (str.getD (pos.toNat + 1) 0)) := by
  by_cases hin : pos.toNat < blen * 2 ∧ pos.toNat < str.length
  · refine Or.inr ⟨hin, ?_⟩
    by_cases h : IsHexDigit (str.getD pos.toNat 0) ∧ IsHexDigit (str.getD (pos.toNat + 1) 0)
    · exact Or.inr h
    · exact Or.inl (not_and_or.mp h)
  · exact Or.inl hin

/-- The index of the next round, which comes round at 256. -/
theorem toNat_add_two (pos : UInt8) : (pos + 2).toNat = (pos.toNat + 2) % 256 :=
  UInt8.toNat_add pos 2

/-- The loop ends, if the counter can reach the end of the string. -/
theorem hextobinLoop_ok (hstr : str.length ≤ 254) (blen fuel : ℕ) {pos : UInt8}
    (bytes : List UInt8) (hfuel : str.length ≤ pos.toNat + 2 * fuel) :
    ∃ r, hextobinLoop str blen (fuel + 1) pos bytes = .ok r := by
  induction fuel generalizing pos bytes with
  | zero => exact ⟨_, hextobinLoop_stop (by omega)⟩
  | succ fuel ih =>
      rcases hextobinLoop_cases str blen pos with hout | ⟨hin, hbad | ⟨h0, h1⟩⟩
      · exact ⟨_, hextobinLoop_stop hout⟩
      · exact ⟨_, hextobinLoop_refuse hin hbad⟩
      · rw [hextobinLoop_pair hin h0 h1]
        exact ih _ (by rw [toNat_add_two]; omega)

end

/-- `hextobin` ends without a fault on a short string and a buffer of half its length. -/
theorem hextobin_ok (asserts : Bool) {str bytes : List UInt8} (hlen : str.length ≤ bytes.length * 2)
    (hstr : str.length ≤ 254) : ∃ r, hextobin asserts str bytes = .ok r := by
  have hstrip := length_strip0x str
  have hstart : (strip0x str).length ≤ (0 : UInt8).toNat + 2 * 128 := by
    rw [UInt8.toNat_zero]
    omega
  obtain ⟨r, hr⟩ := hextobinLoop_ok (by omega) bytes.length 128
    (List.replicate bytes.length 0) hstart
  unfold hextobin hextobinAt
  split
  · exact ⟨_, rfl⟩
  · split
    · exact ⟨_, rfl⟩
    · refine ⟨r, ?_⟩
      simp only [check_of asserts (show (strip0x str).length ≤ bytes.length * 2 by omega)]
      exact hr

/-- **`hextobin_2` ends without a fault** on a short string and a buffer of half its length. -/
theorem hextobin2_ok (asserts : Bool) {str bytes : List UInt8}
    (hlen : str.length ≤ bytes.length * 2) (hstr : str.length ≤ 254) :
    ∃ r, hextobin2 asserts str bytes = .ok r := by
  have hstrip := length_strip0x str
  unfold hextobin2
  split
  · exact ⟨_, rfl⟩
  have hcheck := check_of asserts
    (show (strip0x str).length ≤ bytes.length * 2 by omega)
  simp only [hcheck, bind, Except.bind]
  split
  · split
    · exact ⟨_, rfl⟩
    · split
      · exact ⟨_, rfl⟩
      · obtain ⟨r, hr⟩ := @hextobin_ok asserts ((strip0x str).drop 1)
          ((List.replicate bytes.length 0).drop 1)
          (by simp only [List.length_drop, List.length_replicate]; omega)
          (by rw [List.length_drop]; omega)
        simp only [hr]
        exact ⟨_, rfl⟩
  · split
    · exact ⟨_, rfl⟩
    · exact hextobin_ok asserts (by simp only [List.length_replicate]; omega) (by omega)

end AnylWallet.Helpers
