import AnylWallet.Helpers.Fromstring
import AnylWallet.Helpers.Tostring

/-!
# `helpers/uint256`: the numeral, and reading it back

* `tostring256At_numeral`: with room for the numeral and its NUL they are what is stored, and
  `fromstring256_tostring256`: 65 bytes have this room in base 16, and the number is read back.
* `tostringContained_iff`: what is stored keeps to the room, and no room is taken for enough that is
  not, exactly where `outLength` is neither 0 nor the number of digits.
-/

namespace AnylWallet.Helpers

open AnylWallet.Lib

/-! ## The numeral -/

/-- **With room for the numeral and its NUL they are stored**, most significant digit first, in
every base from 2 to 16. No loop takes more than 258 rounds. -/
theorem tostring256At_numeral (number : Uint256) {baseParam : ℕ} (hb : 2 ≤ baseParam)
    (hb16 : baseParam ≤ 16) {outLength : UInt32}
    (hroom : (numeral baseParam number.toNat).length < outLength.toNat) (m : Region) (out : ℕ) :
    ∃ m', (∀ fuel, 258 ≤ fuel →
        tostring256At fuel number baseParam m out outLength.toNat = some (m', true)) ∧
      m'.HoldsString out (numeral baseParam number.toNat) := by
  have hdigits : (numeral baseParam number.toNat).length ≤ digitRoom outLength.toNat := by
    rw [digitRoom_eq (Nat.zero_lt_of_lt hroom) outLength.toNat_lt]
    exact hroom.le
  refine ⟨m.store out (numeral baseParam number.toNat ++ [0]), fun fuel hfuel => ?_,
    m.holdsString_store out (numeral_ne_zero hb hb16)⟩
  rw [tostring256At_eq number hb hb16 m out _ hfuel, tostring256_eq number hb hb16, if_pos hdigits]

/-- The ether in base 10, in 65 bytes. -/
theorem tostring256At_numeral_ether :
    ∃ m', (∀ fuel, 258 ≤ fuel → tostring256At fuel (set256Uint64 1000000000000000000) 10 ⟨fun _ => 1, 0⟩ 3
        (65 : UInt32).toNat = some (m', true)) ∧
      m'.HoldsString 3 (numeral 10 (set256Uint64 1000000000000000000).toNat) :=
  tostring256At_numeral (set256Uint64 1000000000000000000) (by decide) (by decide)
    (lt_of_le_of_lt (length_numeral_le (w := 19) (by decide) (by decide)
      (by rw [toNat_set256Uint64]; decide)) (by decide)) ⟨fun _ => 1, 0⟩ 3

/-- **What `tostring256` prints in base 16, `fromstring256` reads back**, with or without `0x`, for
every number of 256 bits, in a build with assertions and in one without. -/
theorem fromstring256_tostring256 (asserts : Bool) (x : Uint256) (m : Region) (out : ℕ)
    (before : Uint256) :
    ∃ m' text, (∀ fuel, 258 ≤ fuel → tostring256At fuel x 16 m out 65 = some (m', true)) ∧
      m'.HoldsString out text ∧ fromstring256 asserts text before = .ok (x, 0) ∧
      fromstring256 asserts (ascii "0x" ++ text) before = .ok (x, 0) := by
  have hx : x.toNat < 16 ^ 64 := lt_of_lt_of_eq x.toNat_lt (by norm_num)
  have hlen : (numeral 16 x.toNat).length < (65 : UInt32).toNat :=
    lt_of_le_of_lt (length_numeral_le (by decide) (by decide) hx) (by decide)
  obtain ⟨m', hrun, hholds⟩ := tostring256At_numeral x (by decide) (by decide) hlen m out
  have hread : ∀ s, s = numeral 16 x.toNat ∨ s = ascii "0x" ++ numeral 16 x.toNat →
      fromstring256 asserts s before = .ok (x, 0) := by
    intro s hs
    obtain ⟨v, hv, hnat⟩ := fromstring256_hexNumber asserts (isHexNumber_numeral hs hx) before
    rw [hv, Uint256.toNat_injective hnat]
  exact ⟨m', _, hrun, hholds, hread _ (Or.inl rfl), hread _ (Or.inr rfl)⟩

/-! ## The room -/

/-- `tostring256` ends, stores nothing outside the `outLength` bytes, and returns `false` when the
numeral and its NUL do not fit there. -/
def TostringContained (number : Uint256) (baseParam outLength : ℕ) : Prop :=
  ∀ (m : Region) (out : ℕ), ∃ m' ret,
    (∀ fuel, 258 ≤ fuel → tostring256At fuel number baseParam m out outLength = some (m', ret)) ∧
      (∀ i, i < out ∨ out + outLength ≤ i → m'.byte i = m.byte i) ∧
      (outLength < (numeral baseParam number.toNat).length + 1 → ret = false)

/-- What it stores and returns, if it is contained. -/
theorem TostringContained.tostring256_eq {number : Uint256} {b outLength : ℕ}
    (h : TostringContained number b outLength) (hb : 1 < b) (hb16 : b ≤ 16) (m : Region)
    (out : ℕ) :
    (∀ i, i < out ∨ out + outLength ≤ i →
        (tostring256 number b m out outLength).1.byte i = m.byte i) ∧
      (outLength < (numeral b number.toNat).length + 1 →
        (tostring256 number b m out outLength).2 = false) := by
  obtain ⟨m', ret, hend, hbytes, hfalse⟩ := h m out
  have hsame := (hend 258 (Nat.le_refl _)).symm.trans
    (tostring256At_eq number hb hb16 m out outLength (Nat.le_refl _))
  rw [← Option.some.inj hsame]
  exact ⟨hbytes, hfalse⟩

/-- **When `tostring256` keeps to its room**: if there is some, and it is not exactly the number of
digits. With none the room wraps around to 2 ^ 32 bytes, and with that of the digits alone the NUL
is stored behind it. -/
theorem tostringContained_iff (number : Uint256) {baseParam : ℕ} (hb : 2 ≤ baseParam)
    (hb16 : baseParam ≤ 16) (outLength : UInt32) :
    TostringContained number baseParam outLength.toNat ↔
      outLength.toNat ≠ 0 ∧ outLength.toNat ≠ (numeral baseParam number.toNat).length := by
  have hrun := fun m out => tostring256_eq number hb hb16 m out outLength.toNat
  have hpos := length_numeral_pos baseParam number.toNat
  have hdigits : (numeral baseParam number.toNat).length ≤ 256 := by
    apply length_numeral_le hb (by decide)
    exact lt_of_lt_of_le number.toNat_lt (Nat.pow_le_pow_left hb 256)
  constructor
  · intro h
    obtain ⟨-, hfalse⟩ := h.tostring256_eq hb hb16 ⟨fun _ => 0, 0⟩ 0
    rw [hrun] at hfalse
    refine ⟨fun h0 => ?_, fun hfull => ?_⟩
    · rw [h0, digitRoom_zero, if_pos (by omega)] at hfalse
      cases hfalse (by omega)
    · rw [digitRoom_eq (by omega) outLength.toNat_lt, if_pos hfull.ge] at hfalse
      cases hfalse (by omega)
  · rintro ⟨h0, hfull⟩ m out
    refine ⟨(tostring256 number baseParam m out outLength.toNat).1,
      (tostring256 number baseParam m out outLength.toNat).2,
      fun fuel hfuel => tostring256At_eq number hb hb16 m out _ hfuel, ?_⟩
    rw [hrun, digitRoom_eq (Nat.pos_of_ne_zero h0) outLength.toNat_lt]
    rcases Nat.lt_or_gt_of_ne hfull with hshort | hlong
    · rw [if_neg (by omega)]
      refine ⟨?_, fun _ => rfl⟩
      rintro i (hi | hi)
      · exact Region.byte_store_of_lt hi
      · apply Region.byte_store_of_ge
        rw [List.length_take]
        omega
    · rw [if_pos hlong.le]
      refine ⟨?_, fun hfit => absurd hfit (by omega)⟩
      rintro i (hi | hi)
      · exact Region.byte_store_of_lt hi
      · apply Region.byte_store_of_ge
        rw [List.length_append, List.length_singleton]
        omega

/-- Base 2 in 65 bytes. -/
theorem tostringContained_iff_ether :
    TostringContained (set256Uint64 1000000000000000000) 2 (65 : UInt32).toNat ↔
      (65 : UInt32).toNat ≠ 0 ∧
        (65 : UInt32).toNat ≠ (numeral 2 (set256Uint64 1000000000000000000).toNat).length :=
  tostringContained_iff (set256Uint64 1000000000000000000) (by decide) (by decide) 65

/-- Counterexample: the NUL of a single digit is stored behind the one byte that there is. -/
theorem not_tostringContained_one : ¬ TostringContained clear256 10 1 := by
  intro h
  obtain ⟨hbytes, -⟩ := h.tostring256_eq (by decide) (by decide) ⟨fun _ => 1, 0⟩ 0
  have hdigits : numeral 10 clear256.toNat = [digit 0] := if_pos (zero256_iff.mp (by decide))
  have hroom : digitRoom 1 = 1 := digitRoom_eq Nat.one_pos (by norm_num)
  rw [tostring256_eq clear256 (by decide) (by decide), hdigits, hroom,
    if_pos (show [digit 0].length ≤ 1 from Nat.le_refl 1)] at hbytes
  exact absurd (hbytes 1 (Or.inr (Nat.le_refl 1))) (by decide)

end AnylWallet.Helpers
