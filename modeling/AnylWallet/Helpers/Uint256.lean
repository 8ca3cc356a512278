import AnylWallet.Lib.Radix

/-!
# `helpers/uint256`: numbers of two and four words

* `Uint128` and `Uint256` are the source's structures: `upper` is `elements[0]` (the macro `UPPER`),
  `lower` is `elements[1]` (`LOWER`), so the most significant word is `upper.upper`.
* `toNat` is the number under the convention of `set256_uint64`, `readu256BE` and `tostring256`
  (most significant word first). `image` is what `memcpy` sees of the structure on a little-endian
  target, and `ofImage` is the structure `memcpy` fills (`image_ofImage`, `ofImage_image`).
* The image is *not* the big-endian representation of the number: its words are, each reversed
  (`ofBE_beImage`, `image_eq_beBytes_iff`).
-/

namespace AnylWallet.Helpers

open AnylWallet.Lib

/-- `uint128_t`. Source: `helpers/uint256.h` -/
structure Uint128 where
  /-- `elements[0]`. -/
  upper : UInt64
  /-- `elements[1]`. -/
  lower : UInt64
deriving DecidableEq, Repr

/-- `uint256_t`. Source: `helpers/uint256.h` -/
@[ext] structure Uint256 where
  /-- `elements[0]`. -/
  upper : Uint128
  /-- `elements[1]`. -/
  lower : Uint128
deriving DecidableEq, Repr

/-- The number in a `uint128_t`. -/
def Uint128.toNat (x : Uint128) : ℕ := x.upper.toNat * 2 ^ 64 + x.lower.toNat

/-- The number in a `uint256_t`. -/
def Uint256.toNat (x : Uint256) : ℕ := x.upper.toNat * 2 ^ 128 + x.lower.toNat

/-- A `uint128_t` is determined by its number. -/
theorem Uint128.toNat_injective : Function.Injective Uint128.toNat := by
  intro x y h
  have hx := x.lower.toNat_lt
  have hy := y.lower.toNat_lt
  unfold Uint128.toNat at h
  have hupper : x.upper = y.upper := UInt64.toNat_inj.mp (by omega)
  have hlower : x.lower = y.lower := UInt64.toNat_inj.mp (by omega)
  cases x
  cases y
  cases hupper
  cases hlower
  rfl

@[simp] theorem Uint128.toNat_lt (x : Uint128) : x.toNat < 2 ^ 128 := by
  have hu := x.upper.toNat_lt
  have hl := x.lower.toNat_lt
  unfold Uint128.toNat
  omega

/-- A `uint256_t` is determined by its number. -/
theorem Uint256.toNat_injective : Function.Injective Uint256.toNat := by
  intro x y h
  have hx := x.lower.toNat_lt
  have hy := y.lower.toNat_lt
  unfold Uint256.toNat at h
  exact Uint256.ext (Uint128.toNat_injective (by omega)) (Uint128.toNat_injective (by omega))

/-- The bytes of the structure in the memory of a little-endian target. -/
def Uint128.image (x : Uint128) : List UInt8 := leBytes 8 x.upper.toNat ++ leBytes 8 x.lower.toNat

@[simp] theorem Uint128.length_image (x : Uint128) : x.image.length = 16 := by simp [image]

/-- `zero128`. Source: `helpers/uint256.c` -/
def zero128 (number : Uint128) : Bool := number.lower == 0 && number.upper == 0

@[simp] theorem zero128_iff {number : Uint128} : zero128 number = true ↔ number.toNat = 0 := by
  simp [zero128, Uint128.toNat, ← UInt64.toNat_inj, and_comm]

/-- `zero256`. Source: `helpers/uint256.c` -/
def zero256 (number : Uint256) : Bool := zero128 number.lower && zero128 number.upper

/-- `clear128`: the value it stores. Source: `helpers/uint256.c` -/
def clear128 : Uint128 := ⟨0, 0⟩

/-- `clear256`: the value it stores. Source: `helpers/uint256.c` -/
def clear256 : Uint256 := ⟨clear128, clear128⟩

/-- `set256_uint64`: the value it stores. Source: `helpers/uint256.c` -/
def set256Uint64 (val : UInt64) : Uint256 := ⟨clear128, ⟨0, val⟩⟩

namespace Uint256

/-! ## The memory image -/

/-- The four words, most significant first, which is also their order in memory. -/
def words (x : Uint256) : List UInt64 :=
  [x.upper.upper, x.upper.lower, x.lower.upper, x.lower.lower]

/-- The bytes of the structure in the memory of a little-endian target. -/
def image (x : Uint256) : List UInt8 := x.words.flatMap fun w => leBytes 8 w.toNat

/-- The big-endian representation on 32 bytes. -/
def beImage (x : Uint256) : List UInt8 := x.words.flatMap fun w => (leBytes 8 w.toNat).reverse

/-- The word stored at byte `p` of an image. -/
def wordAt (bs : List UInt8) (p : ℕ) : UInt64 := UInt64.ofNat (ofLE ((bs.drop p).take 8))

/-- The structure that holds the 32 bytes `bs` in memory. -/
def ofImage (bs : List UInt8) : Uint256 :=
  ⟨⟨wordAt bs 0, wordAt bs 8⟩, ⟨wordAt bs 16, wordAt bs 24⟩⟩

@[simp] theorem length_image (x : Uint256) : x.image.length = 32 := by simp [image, words]

@[simp] theorem length_beImage (x : Uint256) : x.beImage.length = 32 := by simp [beImage, words]

/-- The image, word by word. -/
theorem image_eq (x : Uint256) : x.image =
    leBytes 8 x.upper.upper.toNat ++ (leBytes 8 x.upper.lower.toNat ++
      (leBytes 8 x.lower.upper.toNat ++ leBytes 8 x.lower.lower.toNat)) := by
  simp [image, words]

/-- The first byte of the image is the low byte of the most significant word. -/
theorem head?_image (x : Uint256) : x.image.head? = some (UInt8.ofNat x.upper.upper.toNat) := by
  simp [image_eq, leBytes]

/-- The image of one word is that word of the structure. -/
theorem leBytes_wordAt {bs : List UInt8} {p : ℕ} (h : p + 8 ≤ bs.length) :
    leBytes 8 (wordAt bs p).toNat = (bs.drop p).take 8 := by
  have hlen : ((bs.drop p).take 8).length = 8 := by
    simp
    omega
  have hlt := ofLE_lt ((bs.drop p).take 8)
  rw [hlen] at hlt
  have hnat : (wordAt bs p).toNat = ofLE ((bs.drop p).take 8) := by
    simp only [wordAt, UInt64.toNat_ofNat']
    omega
  have := leBytes_ofLE ((bs.drop p).take 8)
  rwa [hlen, ← hnat] at this

/-- Copying 32 bytes in and reading them back. -/
theorem image_ofImage {bs : List UInt8} (h : bs.length = 32) : (ofImage bs).image = bs := by
  have h0 : bs.take 8 ++ (bs.drop 8).take 8 ++ (bs.drop 16).take 8 ++ (bs.drop 24).take 8 = bs := by
    have h24 : (bs.drop 24).take 8 = bs.drop 24 := List.take_of_length_le (by simp; omega)
    have h16 : (bs.drop 16).take 8 ++ bs.drop 24 = bs.drop 16 := by
      have := List.take_append_drop 8 (bs.drop 16)
      rwa [List.drop_drop] at this
    have h8 : (bs.drop 8).take 8 ++ bs.drop 16 = bs.drop 8 := by
      have := List.take_append_drop 8 (bs.drop 8)
      rwa [List.drop_drop] at this
    rw [h24, List.append_assoc, h16, List.append_assoc, h8, List.take_append_drop]
  conv_rhs => rw [← h0]
  simp only [image, words, ofImage, List.flatMap_cons, List.flatMap_nil, List.append_nil]
  rw [leBytes_wordAt (by omega), leBytes_wordAt (by omega), leBytes_wordAt (by omega),
    leBytes_wordAt (by omega), List.drop_zero, List.append_assoc, List.append_assoc]

/-- The number is the one its big-endian representation denotes. -/
@[simp] theorem ofBE_beImage (x : Uint256) : ofBE x.beImage = x.toNat := by
  have hw : ∀ w : UInt64, ofBE (leBytes 8 w.toNat).reverse = w.toNat := by
    intro w
    rw [ofBE, List.reverse_reverse, ofLE_leBytes]
    exact lt_of_lt_of_eq w.toNat_lt (by norm_num)
  simp only [beImage, words, List.flatMap_cons, List.flatMap_nil, List.append_nil, ofBE_append, hw,
    List.length_append, List.length_reverse, length_leBytes, toNat, Uint128.toNat]
  ring

/-- Every number of this type fits in 32 bytes. -/
theorem toNat_lt (x : Uint256) : x.toNat < 2 ^ 256 := by
  rw [← ofBE_beImage]
  exact lt_of_lt_of_eq (ofBE_lt _) (by norm_num)

/-- A word whose bytes read the same in both directions. -/
def Palindromic (w : UInt64) : Prop := (leBytes 8 w.toNat).reverse = leBytes 8 w.toNat

instance (w : UInt64) : Decidable (Palindromic w) := inferInstanceAs (Decidable (_ = _))

/-- The image is the big-endian representation exactly when every word is palindromic. -/
theorem image_eq_beImage_iff (x : Uint256) :
    x.image = x.beImage ↔ ∀ w ∈ x.words, Palindromic w := by
  have happ : ∀ {a b c d : List UInt8}, a.length = b.length → (a ++ c = b ++ d ↔ a = b ∧ c = d) := by
    intro a b c d hl
    exact ⟨fun h => List.append_inj h hl, fun ⟨h, h'⟩ => by rw [h, h']⟩
  simp only [image, beImage, words, List.flatMap_cons, List.flatMap_nil, List.append_nil,
    Palindromic, List.mem_cons, List.not_mem_nil, or_false, forall_eq_or_imp, forall_eq]
  rw [happ (by simp), happ (by simp), happ (by simp)]
  simp only [eq_comm]

/-- **The image as a number in big-endian order**: it is the minimal big-endian representation of
the number exactly when its first byte is not zero and every word is palindromic. -/
theorem image_eq_beBytes_iff (x : Uint256) :
    x.image = beBytes x.toNat ↔ x.image.head? ≠ some 0 ∧ ∀ w ∈ x.words, Palindromic w := by
  rw [← image_eq_beImage_iff]
  constructor
  · intro h
    have hhead : x.image.head? ≠ some 0 := h ▸ head?_beBytes_ne_zero _
    refine ⟨hhead, ?_⟩
    have hnum : ofBE x.image = ofBE x.beImage := by rw [h, ofBE_beBytes, ofBE_beImage]
    have hrev := ofLE_injective_of_length_eq (by simp) hnum
    exact List.reverse_injective hrev
  · rintro ⟨hhead, h⟩
    rw [← ofBE_beImage, ← h, beBytes_ofBE hhead]

end Uint256

/-- The `uint128_t` that holds the 16 bytes `bs` in memory. -/
def Uint128.ofImage (bs : List UInt8) : Uint128 := ⟨Uint256.wordAt bs 0, Uint256.wordAt bs 8⟩

/-- Copying 16 bytes in and reading them back. -/
theorem Uint128.image_ofImage {bs : List UInt8} (h : bs.length = 16) : (ofImage bs).image = bs := by
  have h8 : (bs.drop 8).take 8 = bs.drop 8 := List.take_of_length_le (by simp; omega)
  rw [image, ofImage, Uint256.leBytes_wordAt (by omega), Uint256.leBytes_wordAt (by omega), h8,
    List.drop_zero, List.take_append_drop]

end AnylWallet.Helpers
