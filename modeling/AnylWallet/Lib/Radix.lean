import Mathlib.Data.Nat.Digits.Defs
import Mathlib.Data.Nat.Digits.Lemmas
import Mathlib.Tactic.Ring

/-!
# Numbers as bytes

* `leBytes w n` is the memory image of a `w`-byte word on a little-endian machine, and `ofLE` reads
  such an image back (`ofLE_leBytes`, `leBytes_ofLE`).
* `beBytes n` is the minimal big-endian representation (no leading zero byte, no byte at all for
  `0`) and `ofBE` the number that big-endian bytes denote. The two are inverse to each other exactly
  on the byte strings without a leading zero (`ofBE_beBytes`, `beBytes_ofBE`,
  `beBytes_ofBE_eq_iff`).
* `reverse_leBytes`: a byte-swapped word is the minimal representation behind zero bytes.
  `leBytes_eq_reverse_of_testBit` recognises a byte-swapped word by its bits.
-/

namespace AnylWallet.Lib

/-! ## Words in memory -/

/-- The number denoted by little-endian bytes. -/
def ofLE (bs : List UInt8) : ℕ := Nat.ofDigits 256 (bs.map UInt8.toNat)

/-- The `w` little-endian bytes of `n`; what does not fit is dropped. -/
def leBytes : ℕ → ℕ → List UInt8
  | 0, _ => []
  | w + 1, n => UInt8.ofNat n :: leBytes w (n / 256)

@[simp] theorem ofLE_nil : ofLE [] = 0 := rfl

@[simp] theorem ofLE_cons (b : UInt8) (bs : List UInt8) :
    ofLE (b :: bs) = b.toNat + 256 * ofLE bs := by
  simp [ofLE, Nat.ofDigits_cons]

/-- The bytes of the second block weigh `256 ^ length` of the first one. -/
theorem ofLE_append (a b : List UInt8) : ofLE (a ++ b) = ofLE a + 256 ^ a.length * ofLE b := by
  simp [ofLE, Nat.ofDigits_append]

/-- `n` bytes denote a number below `256 ^ n`. -/
theorem ofLE_lt (bs : List UInt8) : ofLE bs < 256 ^ bs.length := by
  have h : ∀ d ∈ bs.map UInt8.toNat, d < 256 := by
    intro d hd
    obtain ⟨b, -, rfl⟩ := List.mem_map.mp hd
    exact b.toNat_lt
  simpa [ofLE] using Nat.ofDigits_lt_base_pow_length (by decide) h

/-- Zero bytes denote zero. -/
@[simp] theorem ofLE_replicate_zero (k : ℕ) : ofLE (List.replicate k 0) = 0 := by
  simp [ofLE, Nat.ofDigits_replicate_zero]

@[simp] theorem length_leBytes (w n : ℕ) : (leBytes w n).length = w := by
  induction w generalizing n with
  | zero => rfl
  | succ w ih => simp [leBytes, ih]

/-- A word that fits is read back. -/
theorem ofLE_leBytes {w n : ℕ} (h : n < 256 ^ w) : ofLE (leBytes w n) = n := by
  induction w generalizing n with
  | zero => simpa [leBytes, eq_comm] using h
  | succ w ih =>
      rw [leBytes, ofLE_cons, ih (Nat.div_lt_of_lt_mul (by rwa [pow_succ'] at h))]
      simp only [UInt8.toNat_ofNat']
      omega

/-- An image is the image of the number it denotes. -/
theorem leBytes_ofLE (bs : List UInt8) : leBytes bs.length (ofLE bs) = bs := by
  induction bs with
  | nil => rfl
  | cons b bs ih =>
      have hb : b.toNat < 256 := b.toNat_lt
      have hdiv : (b.toNat + 256 * ofLE bs) / 256 = ofLE bs := by omega
      rw [List.length_cons, leBytes, ofLE_cons, hdiv, ih, List.cons.injEq]
      refine ⟨?_, rfl⟩
      apply UInt8.toNat_inj.mp
      simp only [UInt8.toNat_ofNat']
      omega

/-- The image of zero. -/
theorem leBytes_zero (w : ℕ) : leBytes w 0 = List.replicate w 0 := by
  induction w with
  | zero => rfl
  | succ w ih => simp [leBytes, ih, List.replicate_succ]

/-- Only zero has an image of zero bytes. -/
theorem leBytes_eq_replicate_zero_iff {w n : ℕ} (h : n < 256 ^ w) :
    leBytes w n = List.replicate w 0 ↔ n = 0 := by
  constructor
  · intro h0
    rw [← ofLE_leBytes h, h0, ofLE_replicate_zero]
  · rintro rfl
    exact leBytes_zero w

/-- Two images of one length that denote the same number are equal. -/
theorem ofLE_injective_of_length_eq {a b : List UInt8} (hl : a.length = b.length)
    (h : ofLE a = ofLE b) : a = b := by
  rw [← leBytes_ofLE a, ← leBytes_ofLE b, hl, h]

/-- The image of a word in two parts. -/
theorem leBytes_add (v w n : ℕ) : leBytes (v + w) n = leBytes v n ++ leBytes w (n / 256 ^ v) := by
  induction v generalizing n with
  | zero => simp [leBytes]
  | succ v ih =>
      rw [Nat.succ_add, leBytes, ih, leBytes, List.cons_append, Nat.div_div_eq_div_mul,
        pow_succ']

/-- A number that fits in `v` bytes, on more of them. -/
theorem leBytes_add_of_lt {v n : ℕ} (h : n < 256 ^ v) (w : ℕ) :
    leBytes (v + w) n = leBytes v n ++ List.replicate w 0 := by
  rw [leBytes_add, Nat.div_eq_of_lt h, leBytes_zero]

/-- A byte of an image. -/
theorem getElem_leBytes {w k : ℕ} (n : ℕ) (h : k < (leBytes w n).length) :
    (leBytes w n)[k] = UInt8.ofNat (n / 2 ^ (8 * k)) := by
  induction w generalizing n k with
  | zero => exact absurd h (by simp)
  | succ w ih =>
      cases k with
      | zero => simp [leBytes]
      | succ k =>
          simp only [leBytes, List.getElem_cons_succ]
          rw [ih, Nat.div_div_eq_div_mul, show 256 * 2 ^ (8 * k) = 2 ^ (8 * (k + 1)) by ring]

/-- **Swapped bytes, bit by bit**: two words whose bytes are each other's in reverse order. -/
theorem leBytes_eq_reverse_of_testBit {w a b : ℕ}
    (h : ∀ k < w, ∀ j < 8, a.testBit (j + 8 * k) = b.testBit (j + 8 * (w - 1 - k))) :
    leBytes w a = (leBytes w b).reverse := by
  apply List.ext_getElem
  · simp
  · intro k hk _
    rw [length_leBytes] at hk
    rw [List.getElem_reverse, getElem_leBytes, getElem_leBytes, length_leBytes]
    apply UInt8.toNat_inj.mp
    apply Nat.eq_of_testBit_eq
    intro j
    simp only [UInt8.toNat_ofNat', Nat.testBit_mod_two_pow, Nat.testBit_div_two_pow]
    by_cases hj : j < 8
    · rw [h k hk j hj]
    · simp [hj]

/-- The bits of one byte of a number. -/
theorem testBit_and_byte (n i : ℕ) {j : ℕ} (hj : j < 8) (k : ℕ) :
    (n &&& 255 <<< (8 * i)).testBit (j + 8 * k) = (decide (k = i) && n.testBit (j + 8 * i)) := by
  have hones : 255 = 2 ^ 8 - 1 := by decide
  rw [Nat.testBit_and, Nat.testBit_shiftLeft, hones, Nat.testBit_two_pow_sub_one]
  by_cases hk : k = i
  · subst hk
    rw [decide_eq_true rfl, decide_eq_true (by omega), decide_eq_true (by omega), Bool.and_self,
      Bool.and_true, Bool.true_and]
  · rw [decide_eq_false hk, Bool.false_and, ← Bool.decide_and, decide_eq_false (by omega),
      Bool.and_false]

/-! ## Minimal big-endian representation -/

/-- The number denoted by big-endian bytes. -/
def ofBE (bs : List UInt8) : ℕ := ofLE bs.reverse

/-- The minimal big-endian bytes of `n`; zero has none. -/
def beBytes (n : ℕ) : List UInt8 := ((Nat.digits 256 n).map UInt8.ofNat).reverse

@[simp] theorem ofBE_nil : ofBE [] = 0 := rfl

@[simp] theorem beBytes_zero : beBytes 0 = [] := by simp [beBytes]

/-- A leading byte weighs `256 ^ length` of what follows it. -/
theorem ofBE_cons (b : UInt8) (bs : List UInt8) :
    ofBE (b :: bs) = 256 ^ bs.length * b.toNat + ofBE bs := by
  simp [ofBE, ofLE_append, Nat.add_comm]

/-- The first block weighs `256 ^ length` of the second one. -/
theorem ofBE_append (a b : List UInt8) : ofBE (a ++ b) = 256 ^ b.length * ofBE a + ofBE b := by
  simp [ofBE, ofLE_append, Nat.add_comm]

/-- `n` bytes denote a number below `256 ^ n`. -/
theorem ofBE_lt (bs : List UInt8) : ofBE bs < 256 ^ bs.length := by
  simpa [ofBE] using ofLE_lt bs.reverse

/-- Leading zero bytes do not count. -/
@[simp] theorem ofBE_replicate_zero_append (k : ℕ) (bs : List UInt8) :
    ofBE (List.replicate k 0 ++ bs) = ofBE bs := by
  simp [ofBE, ofLE_append]

/-- The last byte of a positive number is its remainder by `256`. -/
theorem beBytes_of_pos {n : ℕ} (h : 0 < n) : beBytes n = beBytes (n / 256) ++ [UInt8.ofNat n] := by
  have hmod : UInt8.ofNat (n % 256) = UInt8.ofNat n := by
    apply UInt8.toNat_inj.mp
    simp
  simp [beBytes, Nat.digits_def' (by decide : 1 < 256) h, hmod]

/-- A number below `256` other than zero is one byte. -/
theorem beBytes_of_lt {n : ℕ} (h : 0 < n) (h' : n < 256) : beBytes n = [UInt8.ofNat n] := by
  rw [beBytes_of_pos h, Nat.div_eq_of_lt h', beBytes_zero, List.nil_append]

/-- The minimal representation denotes its number. -/
@[simp] theorem ofBE_beBytes (n : ℕ) : ofBE (beBytes n) = n := by
  have hmap : (Nat.digits 256 n).map (UInt8.toNat ∘ UInt8.ofNat) = Nat.digits 256 n := by
    conv_rhs => rw [← List.map_id (Nat.digits 256 n)]
    apply List.map_congr_left
    intro d hd
    have := Nat.digits_lt_base (by decide : 1 < 256) hd
    simp only [Function.comp_apply, UInt8.toNat_ofNat', id_eq]
    omega
  simp only [ofBE, beBytes, List.reverse_reverse, ofLE, List.map_map, hmap, Nat.ofDigits_digits]

/-- A byte string without a leading zero is the minimal representation of its number. -/
theorem beBytes_ofBE {bs : List UInt8} (h : bs.head? ≠ some 0) : beBytes (ofBE bs) = bs := by
  have hlt : ∀ d ∈ bs.reverse.map UInt8.toNat, d < 256 := by
    intro d hd
    obtain ⟨b, -, rfl⟩ := List.mem_map.mp hd
    exact b.toNat_lt
  have hlast : ∀ hne : bs.reverse.map UInt8.toNat ≠ [],
      (bs.reverse.map UInt8.toNat).getLast hne ≠ 0 := by
    intro hne h0
    cases bs with
    | nil => exact hne rfl
    | cons b bs =>
        simp only [List.reverse_cons, List.map_append, List.map_cons, List.map_nil,
          List.getLast_append_singleton] at h0
        have hb : b = 0 := UInt8.toNat_inj.mp h0
        exact h (by rw [hb]; rfl)
  have hmap : (bs.reverse.map UInt8.toNat).map UInt8.ofNat = bs.reverse := by
    simp [Function.comp_def]
  rw [beBytes, ofBE, ofLE, Nat.digits_ofDigits 256 (by decide) _ hlt hlast, hmap,
    List.reverse_reverse]

/-- The minimal representation has no leading zero. -/
theorem head?_beBytes_ne_zero (n : ℕ) : (beBytes n).head? ≠ some 0 := by
  intro h
  rw [beBytes, List.head?_reverse] at h
  obtain ⟨hne, hlast⟩ : ∃ hne : (Nat.digits 256 n).map UInt8.ofNat ≠ [],
      ((Nat.digits 256 n).map UInt8.ofNat).getLast hne = 0 := by
    rw [List.getLast?_eq_some_iff] at h
    obtain ⟨ys, hys⟩ := h
    refine ⟨by simp [hys], ?_⟩
    simp only [hys, List.getLast_append_singleton]
  have hn : Nat.digits 256 n ≠ [] := by simpa using hne
  rw [List.getLast_map] at hlast
  have h0 := Nat.getLast_digit_ne_zero 256 (Nat.digits_ne_nil_iff_ne_zero.mp hn)
  have hlt := Nat.digits_lt_base (by decide : 1 < 256) (List.getLast_mem hn)
  have hval := congrArg UInt8.toNat hlast
  simp only [UInt8.toNat_ofNat', UInt8.toNat_zero] at hval
  omega

/-- A byte string is minimal exactly when it has no leading zero. -/
theorem beBytes_ofBE_eq_iff {bs : List UInt8} : beBytes (ofBE bs) = bs ↔ bs.head? ≠ some 0 :=
  ⟨fun h => h ▸ head?_beBytes_ne_zero _, beBytes_ofBE⟩

/-- Numbers with one representation are equal. -/
theorem beBytes_injective : Function.Injective beBytes := by
  intro m n h
  rw [← ofBE_beBytes m, ← ofBE_beBytes n, h]

/-- `w` bytes suffice exactly below `256 ^ w`. -/
theorem length_beBytes_le_iff {w n : ℕ} : (beBytes n).length ≤ w ↔ n < 256 ^ w := by
  simp only [beBytes, List.length_reverse, List.length_map]
  exact Nat.digits_length_le_iff (by decide) n

@[simp] theorem beBytes_eq_nil_iff {n : ℕ} : beBytes n = [] ↔ n = 0 := by
  simp [beBytes, Nat.digits_eq_nil_iff_eq_zero]

/-- The big-endian image of a word is its minimal representation behind zero bytes. -/
theorem reverse_leBytes {w n : ℕ} (h : n < 256 ^ w) :
    (leBytes w n).reverse = List.replicate (w - (beBytes n).length) 0 ++ beBytes n := by
  rw [List.reverse_eq_iff]
  apply ofLE_injective_of_length_eq
  · have := length_beBytes_le_iff.mpr h
    simp
    omega
  · rw [ofLE_leBytes h]
    have := ofBE_replicate_zero_append (w - (beBytes n).length) (beBytes n)
    rw [ofBE_beBytes] at this
    exact this.symm

end AnylWallet.Lib
