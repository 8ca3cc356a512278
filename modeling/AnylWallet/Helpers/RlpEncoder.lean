import AnylWallet.Helpers.Uint256
import AnylWallet.Lib.Region
import AnylWallet.Lib.Rlp

/-!
# `helpers/rlp_encoder`: the RLP writers

* `rlpEncodeItem`, `rlpEncodeArrayHeader`, `rlpEncodeInteger` and `rlpEncodeUint256` store into a
  `Region` from offset `output` on and return the number the C function returns. The target is
  little-endian. The assertions of the source are left out: at every call of the wallet the pointers
  are valid and the lengths far below `HEADER_DATA_MAXLEN`.
* **Every item written is the canonical encoding of some string**
  (`rlpEncodeItem_eq`): of the input, except that the one-byte string `00` is written as the empty
  one (`itemString`); so a decoder gives that string back (`itemDecodes_itemString`).
  `rlpEncodeInteger_eq` and `rlpEncodeUint256_eq` say which string a number is written as; for an
  integer it is the minimal big-endian one, so that different integers have different encodings
  (`rlpEncodeInteger_canonical`).
* `rlpEncodeUint256` has three branches. The middle one adds `sizeof(128)`, the size of an `int`, to
  `&val` as a `uint256_t` pointer: it reads 28 bytes of the stack, 128 bytes above `val`. The stack
  is the parameter `stack`. The last one writes the memory image. So the string is the number's
  exactly under `encodesUint256_iff`.
* `rlpHeaderLen` and `rlpEncodeArrayHeader` agree at every length but 55
  (`rlpEncodeArrayHeader_canonical_iff`).
-/

namespace AnylWallet.Helpers

open AnylWallet.Lib
open AnylWallet.Lib.Rlp (lenPrefix encodeStr IsSingle decodeBytes)

/-! ## Lengths -/

/-- The loop `while (val > 0) { val >>= 8; shifts++; }`. The fuel is the width of `val` in bytes,
after which every value is `0`. -/
def countShifts : ℕ → ℕ → ℕ
  | 0, _ => 0
  | fuel + 1, val => if val > 0 then countShifts fuel (val / 256) + 1 else 0

/-- `rlp_header_len`: the header size for `input_len` bytes of data.
Source: `helpers/rlp_encoder.c` -/
def rlpHeaderLen (inputLen : ℕ) : ℕ := if inputLen ≤ 55 then 1 else countShifts 8 inputLen + 1

/-- `val_size_bytes`, on a `uint32_t`. Source: `helpers/rlp_encoder.c` -/
def valSizeBytes (val : ℕ) : ℕ := countShifts 4 val

/-- The loop counts the bytes of the minimal representation. -/
theorem countShifts_eq {fuel val : ℕ} (h : val < 256 ^ fuel) :
    countShifts fuel val = (beBytes val).length := by
  induction fuel generalizing val with
  | zero =>
      have : val = 0 := by simpa using h
      simp [this, countShifts]
  | succ fuel ih =>
      rw [countShifts]
      split
      · rename_i hpos
        rw [ih (Nat.div_lt_of_lt_mul (by rwa [pow_succ'] at h)), beBytes_of_pos hpos]
        simp
      · rename_i hpos
        have : val = 0 := by omega
        simp [this]

/-- The loop `while (val > 0) { output[--size_tmp] = val & 0xff; val >>= 8; }`, by recursion on
`size_tmp`: it reaches `0` when `val` does. -/
def encodeIntLoop (output : ℕ) : ℕ → ℕ → Region → Region
  | 0, _, m => m
  | sizeTmp + 1, val, m =>
      if val > 0 then
        encodeIntLoop output sizeTmp (val / 256) (m.store (output + sizeTmp) [UInt8.ofNat val])
      else m

/-- `encode_int_to_bytes`, on a `uint32_t`. Source: `helpers/rlp_encoder.c` -/
def encodeIntToBytes (val : ℕ) (m : Region) (output : ℕ) : Region × ℕ :=
  let sizeBytes := valSizeBytes val
  (encodeIntLoop output sizeBytes val m, sizeBytes)

/-- The loop stores the minimal representation, last byte first. -/
theorem encodeIntLoop_eq (output : ℕ) (val : ℕ) (m : Region) :
    encodeIntLoop output (beBytes val).length val m = m.store output (beBytes val) := by
  induction h : (beBytes val).length generalizing val m with
  | zero => simp [encodeIntLoop, List.length_eq_zero_iff.mp h]
  | succ n ih =>
      have hpos : 0 < val := by
        by_contra h0
        simp [Nat.eq_zero_of_not_pos h0] at h
      have hlen : (beBytes (val / 256)).length = n := by
        rw [beBytes_of_pos hpos] at h
        simpa using h
      rw [encodeIntLoop, if_pos hpos, ih _ _ hlen, beBytes_of_pos hpos, ← hlen,
        Region.store_before]

/-- `encode_int_to_bytes` stores the minimal representation and returns its length. -/
theorem encodeIntToBytes_eq {val : ℕ} (h : val < 2 ^ 32) (m : Region) (output : ℕ) :
    encodeIntToBytes val m output = (m.store output (beBytes val), (beBytes val).length) := by
  have hsize : valSizeBytes val = (beBytes val).length := countShifts_eq (by omega)
  simp [encodeIntToBytes, hsize, encodeIntLoop_eq]

/-! ## Items -/

/-- `rlp_encode_item`. Source: `helpers/rlp_encoder.c` -/
def rlpEncodeItem (m : Region) (output : ℕ) (input : List UInt8) (inputLen : ℕ) : Region × ℕ :=
  if inputLen = 1 ∧ input.head? = some 0x00 then
    -- empty string
    (m.store output [0x80], 1)
  else if inputLen = 1 ∧ input.head?.all (· < 128) then
    -- single item
    (m.store output (input.take 1), 1)
  else if inputLen ≤ 55 then
    -- item of length 0 - 55
    let m := m.store output [0x80 + UInt8.ofNat inputLen]
    (m.store (output + 1) (input.take inputLen), inputLen + 1)
  else
    let (m, inputLenBytes) := encodeIntToBytes inputLen m (output + 1)
    let m := m.store output [0xb7 + UInt8.ofNat inputLenBytes]
    (m.store (output + inputLenBytes + 1) (input.take inputLen),
      (inputLen + inputLenBytes + 1) % 2 ^ 32)

/-- The string whose canonical encoding `rlp_encode_item` writes for `s`. -/
def itemString (s : List UInt8) : List UInt8 := if s = [0x00] then [] else s

/-- Any string but `00` is written as itself. -/
theorem itemString_eq_iff {s : List UInt8} : itemString s = s ↔ s ≠ [0x00] := by
  unfold itemString
  split <;> simp_all

/-- A prefix stored in two steps, the length bytes before the tag, and then the payload. -/
theorem store_tag_len_payload (m : Region) (p : ℕ) (tag : UInt8) (len s : List UInt8) :
    ((m.store (p + 1) len).store p [tag]).store (p + len.length + 1) s =
      m.store p (tag :: len ++ s) := by
  have h1 := m.store_before p [tag] len
  have h2 := m.store_append p (tag :: len) s
  rw [List.length_singleton] at h1
  rw [List.length_cons, ← Nat.add_assoc] at h2
  rw [h1, ← h2]
  rfl

/-- **`rlp_encode_item` writes the canonical encoding** of `itemString s` and returns its length. -/
theorem rlpEncodeItem_eq {s : List UInt8} (h : s.length < 2 ^ 32 - 5) (m : Region) (output : ℕ) :
    rlpEncodeItem m output s s.length =
      (m.store output (encodeStr (itemString s)), (encodeStr (itemString s)).length) := by
  unfold rlpEncodeItem itemString
  by_cases h0 : s = [0x00]
  · subst h0
    simp [encodeStr, IsSingle, lenPrefix]
  have hzero : ¬ (s.length = 1 ∧ s.head? = some 0x00) := by
    rintro ⟨hl, hh⟩
    obtain ⟨b, rfl⟩ := List.length_eq_one_iff.mp hl
    exact h0 (by simpa using hh)
  rw [if_neg hzero, if_neg h0]
  by_cases hs : IsSingle s
  · obtain ⟨b, rfl, hb⟩ := hs
    simp [encodeStr, IsSingle, hb]
  have hsingle : ¬ (s.length = 1 ∧ s.head?.all (· < 128)) := by
    rintro ⟨hl, hh⟩
    obtain ⟨b, rfl⟩ := List.length_eq_one_iff.mp hl
    exact hs ⟨b, rfl, by simpa using hh⟩
  rw [if_neg hsingle, encodeStr, if_neg hs]
  by_cases h55 : s.length ≤ 55
  · have := m.store_append output [0x80 + UInt8.ofNat s.length] s
    rw [List.length_singleton] at this
    simp [h55, lenPrefix, this]
  · have hbytes : (beBytes s.length).length ≤ 4 := length_beBytes_le_iff.mpr (by omega)
    rw [if_neg h55, encodeIntToBytes_eq (by omega)]
    simp only [lenPrefix, if_neg h55, List.take_length, store_tag_len_payload]
    refine Prod.ext rfl ?_
    simp only [List.length_append, List.length_cons]
    omega

/-- On what `rlp_encode_item` stores for `s`, followed by `t`, a decoder gives `string` and leaves `t`;
nothing else is stored, and the number returned is the number of bytes in front of `t`. -/
def ItemDecodes (s string t : List UInt8) : Prop :=
  ∀ (m : Region) (output : ℕ), ∃ bytes : List UInt8,
    rlpEncodeItem m output s s.length = (m.store output bytes, bytes.length) ∧
      decodeBytes (bytes ++ t) = some (.str string, t)

/-- **A decoder undoes `rlp_encode_item`**, up to `itemString`: the single byte `00` is encoded as
the empty string, which is what a number 0 is written as, and every other string is read back as it
is. -/
theorem itemDecodes_itemString {s : List UInt8} (h : s.length ≤ 2 ^ 31) (t : List UInt8) :
    ItemDecodes s (itemString s) t := by
  have hlen : (itemString s).length ≤ s.length := by
    unfold itemString
    split_ifs
    · exact Nat.zero_le _
    · exact le_rfl
  have hpos : 0 < (encodeStr (itemString s)).length := by
    have hne := Rlp.encode_ne_nil (.str (itemString s))
    rw [Rlp.encode] at hne
    exact List.length_pos_iff.mpr hne
  intro m output
  refine ⟨encodeStr (itemString s), rlpEncodeItem_eq (by omega) m output, ?_⟩
  apply Rlp.decode_encodeStr
  · rw [List.length_append]
    omega
  · exact lt_of_le_of_lt (hlen.trans h) (by norm_num)

/-- The letters `dog`, followed by an empty list. -/
theorem itemDecodes_dog :
    ItemDecodes [0x64, 0x6f, 0x67] (itemString [0x64, 0x6f, 0x67]) [0xc0] :=
  itemDecodes_itemString (by decide) [0xc0]

/-- Counterexample: the byte `00` is not decoded. -/
theorem not_itemDecodes_zero : ¬ ItemDecodes [0x00] [0x00] [] := by
  intro h
  obtain ⟨bytes, hbytes, hdecode⟩ := h ⟨fun _ => 0, 0⟩ 0
  obtain ⟨bytes', hbytes', hempty⟩ :=
    itemDecodes_itemString (s := [0x00]) (by decide) [] ⟨fun _ => 0, 0⟩ 0
  rw [hbytes] at hbytes'
  obtain ⟨hstore, hlen⟩ := Prod.mk.inj hbytes'
  rw [Region.eq_of_store_eq_store hlen hstore, hempty] at hdecode
  cases hdecode

/-! ## List headers -/

/-- `rlp_encode_array_header`. Source: `helpers/rlp_encoder.c` -/
def rlpEncodeArrayHeader (m : Region) (headerOutput : ℕ) (totalLen : ℕ) : Region × ℕ :=
  if totalLen < 55 then (m.store headerOutput [0xc0 + UInt8.ofNat totalLen], 1)
  else
    let (m, inputLenBytes) := encodeIntToBytes totalLen m (headerOutput + 1)
    (m.store headerOutput [0xf7 + UInt8.ofNat inputLenBytes], inputLenBytes + 1)

/-- The header bytes that `rlp_encode_array_header` writes. -/
def arrayHeader (n : ℕ) : List UInt8 :=
  if n < 55 then [0xc0 + UInt8.ofNat n] else (0xf7 + UInt8.ofNat (beBytes n).length) :: beBytes n

/-- `rlp_encode_array_header` writes `arrayHeader` and returns its length. -/
theorem rlpEncodeArrayHeader_eq {n : ℕ} (h : n < 2 ^ 32) (m : Region) (p : ℕ) :
    rlpEncodeArrayHeader m p n = (m.store p (arrayHeader n), (arrayHeader n).length) := by
  unfold rlpEncodeArrayHeader arrayHeader
  split
  · rfl
  · have := m.store_before p [0xf7 + UInt8.ofNat (beBytes n).length] (beBytes n)
    rw [List.length_singleton] at this
    simp [encodeIntToBytes_eq h, this]

/-- The header is the canonical list prefix at every length but 55. -/
theorem arrayHeader_eq_lenPrefix {n : ℕ} (h : n ≠ 55) : arrayHeader n = lenPrefix 0xc0 n := by
  unfold arrayHeader lenPrefix
  by_cases h55 : n < 55
  · simp [h55, h55.le]
  · simp [h55, show ¬ n ≤ 55 by omega]

/-- At every length but 55 the header has the size that `rlp_header_len` announces. -/
theorem length_arrayHeader {n : ℕ} (h : n ≠ 55) (hn : n < 2 ^ 32) :
    (arrayHeader n).length = rlpHeaderLen n := by
  unfold arrayHeader rlpHeaderLen
  by_cases h55 : n < 55
  · simp [h55, h55.le]
  · rw [if_neg h55, if_neg (by omega), countShifts_eq (by omega), List.length_cons]

/-- **When the header is the one that was made room for**: it is the canonical list prefix, it has
the size `rlp_header_len` announced and no byte of a payload stored after that size is
overwritten, at every length but 55. -/
theorem rlpEncodeArrayHeader_canonical_iff {n : ℕ} (hn : n ≤ 2 ^ 31) :
    (∀ (m : Region) (p : ℕ),
      rlpEncodeArrayHeader m p n = (m.store p (lenPrefix 0xc0 n), rlpHeaderLen n) ∧
        ∀ i, p + rlpHeaderLen n ≤ i → (rlpEncodeArrayHeader m p n).1.byte i = m.byte i) ↔
      n ≠ 55 := by
  have h32 : n < 2 ^ 32 := by omega
  constructor
  · rintro h rfl
    have hsize := congrArg Prod.snd (h ⟨fun _ => 0, 0⟩ 0).1
    rw [rlpEncodeArrayHeader_eq h32] at hsize
    exact absurd hsize (by decide)
  · intro h55 m p
    have hprefix := arrayHeader_eq_lenPrefix h55
    have hsize := length_arrayHeader h55 h32
    rw [rlpEncodeArrayHeader_eq h32, hsize, ← hprefix]
    refine ⟨rfl, fun i hi => ?_⟩
    rw [← hsize] at hi
    exact Region.byte_store_of_ge hi

/-- A payload of 1000 bytes: a header of three bytes. -/
theorem rlpEncodeArrayHeader_canonical_1000 : (1000 : ℕ) ≤ 2 ^ 31 ∧
    ∀ (m : Region) (p : ℕ),
      rlpEncodeArrayHeader m p 1000 = (m.store p (lenPrefix 0xc0 1000), rlpHeaderLen 1000) ∧
        ∀ i, p + rlpHeaderLen 1000 ≤ i →
          (rlpEncodeArrayHeader m p 1000).1.byte i = m.byte i :=
  ⟨by decide, (rlpEncodeArrayHeader_canonical_iff (by decide)).mpr (by decide)⟩

/-- A payload of 55 bytes: room for one byte, two are written, and the second one is the first of
the payload. -/
theorem rlpEncodeArrayHeader_55 :
    rlpHeaderLen 55 = 1 ∧ (rlpEncodeArrayHeader ⟨fun _ => 0, 0⟩ 0 55).2 = 2 ∧
      (rlpEncodeArrayHeader ⟨fun _ => 0, 0⟩ 0 55).1.byte 1 = 55 ∧
      ¬ ∀ (m : Region) (p : ℕ),
        rlpEncodeArrayHeader m p 55 = (m.store p (lenPrefix 0xc0 55), rlpHeaderLen 55) ∧
          ∀ i, p + rlpHeaderLen 55 ≤ i → (rlpEncodeArrayHeader m p 55).1.byte i = m.byte i := by
  have hbyte : (rlpEncodeArrayHeader ⟨fun _ => 0, 0⟩ 0 55).1.byte 1 = 55 := by decide
  refine ⟨by decide, by decide, hbyte, fun h => ?_⟩
  have hkept := (h ⟨fun _ => 0, 0⟩ 0).2 1 (by decide)
  rw [hbyte] at hkept
  exact absurd hkept (by decide)

/-! ## Integers -/

/-- `htobe64`, and the macro `ENDIAN_SWAP_U64`, on a little-endian target: the bytes of the word in
the other order. -/
def htobe64 (x : UInt64) : UInt64 := UInt64.ofNat (ofLE (leBytes 8 x.toNat).reverse)

/-- The loop of `_prepare_integer`, with `fuel` iterations left: `*out` and how often it was
shifted. -/
def prepareLoop : ℕ → ℕ → ℕ × ℕ
  | 0, out => (out, 0)
  | fuel + 1, out =>
      if out % 256 ≠ 0 then (out, 0)
      else
        let (out, i) := prepareLoop fuel (out / 256)
        (out, i + 1)

/-- `_prepare_integer`: `*out`, and the size it returns. Source: `helpers/rlp_encoder.c` -/
def prepareInteger (val : UInt64) : ℕ × ℕ :=
  -- swap to BE, then shift zero bytes until a val is found
  let (out, i) := prepareLoop 8 (htobe64 val).toNat
  (out, 8 - i)

/-- `rlp_encode_integer`. Source: `helpers/rlp_encoder.c` -/
def rlpEncodeInteger (m : Region) (output : ℕ) (val : UInt64) : Region × ℕ :=
  let (x, size) := prepareInteger val
  rlpEncodeItem m output ((leBytes 8 x).take size) size

/-- Shifting drops the zero bytes at the low end. -/
theorem prepareLoop_eq (k : ℕ) {b : UInt8} (bs : List UInt8) (h : b ≠ 0) :
    prepareLoop (k + (b :: bs).length) (ofLE (List.replicate k 0 ++ b :: bs)) =
      (ofLE (b :: bs), k) := by
  have hb : b.toNat ≠ 0 := fun h0 => h (UInt8.toNat_inj.mp h0)
  have hlt : b.toNat < 256 := b.toNat_lt
  induction k with
  | zero =>
      have hlow : (b.toNat + 256 * ofLE bs) % 256 ≠ 0 := by omega
      rw [Nat.zero_add, List.length_cons, List.replicate_zero, List.nil_append, ofLE_cons,
        prepareLoop, if_pos hlow]
  | succ k ih =>
      have hdiv : 256 * ofLE (List.replicate k 0 ++ b :: bs) / 256 =
          ofLE (List.replicate k 0 ++ b :: bs) := by omega
      have hk : k + 1 + (b :: bs).length = k + (b :: bs).length + 1 := by omega
      rw [hk, List.replicate_succ, List.cons_append, ofLE_cons, prepareLoop]
      simp only [UInt8.toNat_zero, Nat.zero_add, Nat.mul_mod_right, ne_eq, not_true_eq_false,
        if_false, hdiv, ih]

/-- Shifting zero runs through all iterations. -/
theorem prepareLoop_zero (k : ℕ) : prepareLoop k 0 = (0, k) := by
  induction k with
  | zero => rfl
  | succ k ih => simp [prepareLoop, ih]

/-- The byte-swapped word reads in memory as the big-endian bytes. -/
theorem toNat_htobe64 (x : UInt64) : (htobe64 x).toNat = ofLE (leBytes 8 x.toNat).reverse := by
  have := ofLE_lt (leBytes 8 x.toNat).reverse
  rw [List.length_reverse, length_leBytes] at this
  simp only [htobe64, UInt64.toNat_ofNat']
  omega

/-- `_prepare_integer` leaves the minimal big-endian bytes at the front of `*out`. -/
theorem prepareInteger_eq (val : UInt64) :
    (leBytes 8 (prepareInteger val).1).take (prepareInteger val).2 = beBytes val.toNat ∧
      (prepareInteger val).2 = (beBytes val.toNat).length := by
  have hlt : val.toNat < 256 ^ 8 := lt_of_lt_of_eq val.toNat_lt (by norm_num)
  have hlen : (beBytes val.toNat).length ≤ 8 := length_beBytes_le_iff.mpr hlt
  have hrev := reverse_leBytes hlt
  rcases hbe : beBytes val.toNat with _ | ⟨b, bs⟩
  · have h0 : val.toNat = 0 := beBytes_eq_nil_iff.mp hbe
    have hprep : prepareInteger val = (0, 0) := by
      simp [prepareInteger, toNat_htobe64, hrev, hbe, prepareLoop_zero]
    simp [hprep]
  · have hb : b ≠ 0 := by
      rintro rfl
      exact head?_beBytes_ne_zero val.toNat (by simp [hbe])
    rw [hbe] at hlen hrev
    have hloop := prepareLoop_eq (8 - (b :: bs).length) bs hb
    rw [Nat.sub_add_cancel hlen] at hloop
    have hprep : prepareInteger val = (ofLE (b :: bs), (b :: bs).length) := by
      simp only [prepareInteger, toNat_htobe64, hrev, hloop]
      refine Prod.ext rfl ?_
      simp only
      omega
    have himage : leBytes 8 (ofLE (b :: bs)) =
        (b :: bs) ++ List.replicate (8 - (b :: bs).length) 0 := by
      have := leBytes_ofLE ((b :: bs) ++ List.replicate (8 - (b :: bs).length) 0)
      rwa [ofLE_append, ofLE_replicate_zero, Nat.mul_zero, Nat.add_zero, List.length_append,
        List.length_replicate, Nat.add_sub_cancel' hlen] at this
    rw [hprep]
    exact ⟨by rw [himage, List.take_left], rfl⟩

/-- The minimal representation is never the one-byte string `00`. -/
theorem itemString_beBytes (n : ℕ) : itemString (beBytes n) = beBytes n := by
  rw [itemString_eq_iff]
  intro h
  exact head?_beBytes_ne_zero n (by simp [h])

/-- **`rlp_encode_integer` writes the canonical encoding of its number.** -/
theorem rlpEncodeInteger_eq (m : Region) (output : ℕ) (val : UInt64) :
    rlpEncodeInteger m output val =
      (m.store output (encodeStr (beBytes val.toNat)), (encodeStr (beBytes val.toNat)).length) := by
  have hlen : (beBytes val.toNat).length ≤ 8 :=
    length_beBytes_le_iff.mpr (lt_of_lt_of_eq val.toNat_lt (by norm_num))
  obtain ⟨hbytes, hsize⟩ := prepareInteger_eq val
  have := rlpEncodeItem_eq (show (beBytes val.toNat).length < 2 ^ 32 - 5 by omega) m output
  rw [itemString_beBytes] at this
  simp only [rlpEncodeInteger, hbytes]
  rw [hsize, this]

/-! ## 256-bit numbers -/

/-- `sizeof(128)`: the literal is an `int`. -/
def sizeofInt : ℕ := 4

/-- `rlp_encode_uint256`; `stack` is the memory from `&val` on, of which only what lies above `val`
itself is read. Source: `helpers/rlp_encoder.c` -/
def rlpEncodeUint256 (stack : ℕ → UInt8) (m : Region) (output : ℕ) (val : Uint256) :
    Region × ℕ :=
  if zero128 val.upper = true then
    -- upper 128 bits are empty
    if val.lower.upper = 0 then
      -- only last 64 bits are used
      rlpEncodeInteger m output val.lower.lower
    else
      -- `&val + sizeof(128)` steps over `sizeof(128)` whole numbers
      rlpEncodeItem m output
        ((List.range (32 - sizeofInt)).map fun i => stack (32 * sizeofInt + i)) (32 - sizeofInt)
  else rlpEncodeItem m output val.image 32

/-- The string whose canonical encoding `rlp_encode_uint256` writes. -/
def uint256String (stack : ℕ → UInt8) (val : Uint256) : List UInt8 :=
  if zero128 val.upper = true then
    if val.lower.upper = 0 then beBytes val.lower.lower.toNat
    else (List.range 28).map fun i => stack (128 + i)
  else val.image

/-- `rlp_encode_uint256` writes the canonical encoding of `uint256String`. -/
theorem rlpEncodeUint256_eq (stack : ℕ → UInt8) (m : Region) (output : ℕ) (val : Uint256) :
    rlpEncodeUint256 stack m output val =
      (m.store output (encodeStr (uint256String stack val)),
        (encodeStr (uint256String stack val)).length) := by
  have hitem : ∀ s : List UInt8, s.length ≠ 1 → s.length < 2 ^ 32 - 5 →
      rlpEncodeItem m output s s.length = (m.store output (encodeStr s), (encodeStr s).length) := by
    intro s hs hlt
    have h0 : itemString s = s := itemString_eq_iff.mpr (by rintro rfl; exact hs rfl)
    rw [rlpEncodeItem_eq hlt, h0]
  unfold rlpEncodeUint256 uint256String
  split
  · split
    · exact rlpEncodeInteger_eq m output _
    · have := hitem ((List.range 28).map fun i => stack (128 + i)) (by simp) (by simp)
      rwa [List.length_map, List.length_range] at this
  · have := hitem val.image (by simp) (by simp)
    rwa [Uint256.length_image] at this

/-- A number is written in at most 33 bytes. -/
theorem length_uint256String_le (stack : ℕ → UInt8) (val : Uint256) :
    (uint256String stack val).length ≤ 32 := by
  unfold uint256String
  split
  · split
    · have : (beBytes val.lower.lower.toNat).length ≤ 8 :=
        length_beBytes_le_iff.mpr (lt_of_lt_of_eq val.lower.lower.toNat_lt (by norm_num))
      omega
    · simp
  · simp

/-- **When a number is written as itself**: below `2 ^ 64`, or when its memory image is its
big-endian representation. -/
theorem uint256String_eq_beBytes_iff (stack : ℕ → UInt8) (val : Uint256) :
    uint256String stack val = beBytes val.toNat ↔
      val.toNat < 2 ^ 64 ∨ (val.image.head? ≠ some 0 ∧ ∀ w ∈ val.words, Uint256.Palindromic w) := by
  have hll := val.lower.lower.toNat_lt
  have hval : val.toNat = val.upper.toNat * 2 ^ 128 +
      (val.lower.upper.toNat * 2 ^ 64 + val.lower.lower.toNat) := rfl
  have hup : val.upper.toNat = val.upper.upper.toNat * 2 ^ 64 + val.upper.lower.toNat := rfl
  unfold uint256String
  by_cases hu : val.upper.toNat = 0
  · have huu : val.upper.upper.toNat = 0 := by omega
    have hhead : val.image.head? = some 0 := by simp [Uint256.head?_image, huu]
    rw [if_pos (zero128_iff.mpr hu)]
    by_cases hlu : val.lower.upper = 0
    · have hlu' : val.lower.upper.toNat = 0 := by simp [hlu]
      have hnat : val.toNat = val.lower.lower.toNat := by omega
      rw [if_pos hlu, hnat]
      simp [hll]
    · have hlu' : val.lower.upper.toNat ≠ 0 := fun h => hlu (UInt64.toNat_inj.mp h)
      have hlu64 := val.lower.upper.toNat_lt
      have hbe : (beBytes val.toNat).length ≤ 16 := length_beBytes_le_iff.mpr (by omega)
      rw [if_neg hlu]
      constructor
      · intro h
        rw [← h] at hbe
        simp at hbe
      · rintro (h | ⟨h, -⟩)
        · omega
        · exact absurd hhead h
  · rw [if_neg (mt zero128_iff.mp hu), Uint256.image_eq_beBytes_iff, or_iff_right (by omega)]

/-- **When a number is written as the one its memory image denotes in big-endian order**: the
image starts with a non-zero byte, or with 24 zero bytes before a palindromic word. -/
theorem uint256String_eq_beBytes_image_iff (stack : ℕ → UInt8) (val : Uint256) :
    uint256String stack val = beBytes (ofBE val.image) ↔
      val.image.head? ≠ some 0 ∨
        (val.image.take 24 = List.replicate 24 0 ∧ Uint256.Palindromic val.lower.lower) := by
  have hw : ∀ w : UInt64, w.toNat < 256 ^ 8 := fun w => lt_of_lt_of_eq w.toNat_lt (by norm_num)
  have hup : val.upper.toNat = val.upper.upper.toNat * 2 ^ 64 + val.upper.lower.toNat := rfl
  have htake : val.image.take 24 = List.replicate 24 0 ↔
      val.upper.upper.toNat = 0 ∧ val.upper.lower.toNat = 0 ∧ val.lower.upper.toNat = 0 := by
    have h24 : List.replicate 24 (0 : UInt8) =
        List.replicate 8 0 ++ (List.replicate 8 0 ++ List.replicate 8 0) := by decide
    have h3 : val.image.take 24 = leBytes 8 val.upper.upper.toNat ++
        (leBytes 8 val.upper.lower.toNat ++ leBytes 8 val.lower.upper.toNat) := by
      rw [Uint256.image_eq, ← List.append_assoc, ← List.append_assoc, ← List.append_assoc]
      exact List.take_left' (by simp)
    rw [h3, h24]
    constructor
    · intro h
      obtain ⟨h1, h⟩ := List.append_inj h (by simp)
      obtain ⟨h2, h3⟩ := List.append_inj h (by simp)
      exact ⟨(leBytes_eq_replicate_zero_iff (hw _)).mp h1,
        (leBytes_eq_replicate_zero_iff (hw _)).mp h2, (leBytes_eq_replicate_zero_iff (hw _)).mp h3⟩
    · rintro ⟨h1, h2, h3⟩
      rw [h1, h2, h3, leBytes_zero]
  unfold uint256String
  by_cases hu : val.upper.toNat = 0
  · have huu : val.upper.upper.toNat = 0 := by omega
    have hul : val.upper.lower.toNat = 0 := by omega
    have hhead : val.image.head? = some 0 := by simp [Uint256.head?_image, huu]
    have himage : val.image = List.replicate 16 0 ++
        (leBytes 8 val.lower.upper.toNat ++ leBytes 8 val.lower.lower.toNat) := by
      rw [Uint256.image_eq, huu, hul, leBytes_zero, ← List.append_assoc, ← List.replicate_add]
    rw [if_pos (zero128_iff.mpr hu), or_iff_right (not_not.mpr hhead), htake]
    by_cases hlu : val.lower.upper = 0
    · have hlu' : val.lower.upper.toNat = 0 := by simp [hlu]
      have hnum : ofBE val.image = ofLE (leBytes 8 val.lower.lower.toNat).reverse := by
        rw [himage, hlu', leBytes_zero, ofBE_replicate_zero_append, ofBE_replicate_zero_append,
          ofBE]
      rw [if_pos hlu, hnum, beBytes_injective.eq_iff]
      simp only [huu, hul, hlu', true_and, Uint256.Palindromic]
      constructor
      · intro h
        apply ofLE_injective_of_length_eq (by simp)
        rw [← h, ofLE_leBytes (hw _)]
      · intro h
        rw [h, ofLE_leBytes (hw _)]
    · have hlu' : val.lower.upper.toNat ≠ 0 := fun h => hlu (UInt64.toNat_inj.mp h)
      have hlt : ofBE val.image < 256 ^ 16 := by
        rw [himage, ofBE_replicate_zero_append]
        exact lt_of_lt_of_eq (ofBE_lt _) (by simp)
      have hbe : (beBytes (ofBE val.image)).length ≤ 16 := length_beBytes_le_iff.mpr hlt
      rw [if_neg hlu]
      constructor
      · intro h
        rw [← h] at hbe
        simp at hbe
      · rintro ⟨⟨-, -, h⟩, -⟩
        exact absurd h hlu'
  · have hnot : ¬ (val.upper.upper.toNat = 0 ∧ val.upper.lower.toNat = 0 ∧
        val.lower.upper.toNat = 0) := by
      rintro ⟨h1, h2, -⟩
      exact hu (by omega)
    rw [if_neg (mt zero128_iff.mp hu), eq_comm, beBytes_ofBE_eq_iff, htake,
      or_iff_left (fun h => hnot h.1)]

/-- `rlp_encode_uint256` encodes `val`: it reads nothing but `val`, stores the canonical integer
and agrees with `rlp_encode_integer`. -/
structure EncodesUint256 (val : Uint256) : Prop where
  /-- What lies above `val` on the stack does not matter. -/
  reads_val : ∀ stack stack' m output,
    rlpEncodeUint256 stack m output val = rlpEncodeUint256 stack' m output val
  /-- The canonical integer of the value is stored, and its length returned. -/
  canonical : ∀ stack m output, rlpEncodeUint256 stack m output val =
    (m.store output (encodeStr (beBytes val.toNat)), (encodeStr (beBytes val.toNat)).length)
  /-- A value that fits in a word is written as `rlp_encode_integer` writes it. -/
  agrees : ∀ stack m output (w : UInt64), val.toNat = w.toNat →
    rlpEncodeUint256 stack m output val = rlpEncodeInteger m output w

/-- A canonical encoding in memory determines the string. -/
theorem eq_of_store_encodeStr_eq {m : Region} {p : ℕ} {s t : List UInt8} (hs : s.length < 256 ^ 8)
    (ht : t.length < 256 ^ 8) (h : (m.store p (encodeStr s), (encodeStr s).length) =
      (m.store p (encodeStr t), (encodeStr t).length)) : s = t := by
  obtain ⟨hstore, hlen⟩ := Prod.mk.inj h
  have henc : Rlp.encode (.str s) = Rlp.encode (.str t) := by
    rw [Rlp.encode, Rlp.encode]
    exact Region.eq_of_store_eq_store hlen hstore
  exact Rlp.Item.str.inj (Rlp.encode_inj hs ht henc)

/-- **When `rlp_encode_uint256` encodes its number**: below `2 ^ 64`, or when the memory image of
the number is its big-endian representation. -/
theorem encodesUint256_iff (val : Uint256) :
    EncodesUint256 val ↔
      val.toNat < 2 ^ 64 ∨ (val.image.head? ≠ some 0 ∧ ∀ w ∈ val.words, Uint256.Palindromic w) := by
  constructor
  · intro h
    have heq := h.canonical (fun _ => 0) ⟨fun _ => 0, 0⟩ 0
    rw [rlpEncodeUint256_eq] at heq
    have hlen := length_uint256String_le (fun _ => 0) val
    have hbe : (beBytes val.toNat).length ≤ 32 :=
      length_beBytes_le_iff.mpr (lt_of_lt_of_eq val.toNat_lt (by norm_num))
    have hfit : ∀ {k : ℕ}, k ≤ 32 → k < 256 ^ 8 := fun hk => hk.trans_lt (by norm_num)
    rw [← uint256String_eq_beBytes_iff (fun _ => 0)]
    exact eq_of_store_encodeStr_eq (hfit hlen) (hfit hbe) heq
  · intro h
    have hcanonical : ∀ stack m output, rlpEncodeUint256 stack m output val =
        (m.store output (encodeStr (beBytes val.toNat)),
          (encodeStr (beBytes val.toNat)).length) := by
      intro stack m output
      rw [rlpEncodeUint256_eq, (uint256String_eq_beBytes_iff stack val).mpr h]
    refine ⟨?_, hcanonical, ?_⟩
    · intro stack stack' m output
      rw [hcanonical, hcanonical]
    · intro stack m output w hw
      rw [hcanonical, rlpEncodeInteger_eq, hw]

/-- `2 ^ 64` wei, about 18.4 ether: the 28 bytes written are none of the number's. -/
theorem not_encodesUint256_two_pow_64 :
    let val : Uint256 := ⟨⟨0, 0⟩, ⟨1, 0⟩⟩
    val.toNat = 2 ^ 64 ∧
      rlpEncodeUint256 (fun _ => 7) ⟨fun _ => 0, 0⟩ 0 val ≠
        rlpEncodeUint256 (fun _ => 9) ⟨fun _ => 0, 0⟩ 0 val ∧
      ¬ EncodesUint256 val := by
  intro val
  have hne : rlpEncodeUint256 (fun _ => 7) ⟨fun _ => 0, 0⟩ 0 val ≠
      rlpEncodeUint256 (fun _ => 9) ⟨fun _ => 0, 0⟩ 0 val := by
    intro h
    have hbyte := congrArg (fun r => r.1.byte 1) h
    exact absurd hbyte (by decide)
  have hnat : val.toNat = 2 ^ 64 := by
    have hone : UInt64.toNat 1 = 1 := rfl
    norm_num [val, Uint256.toNat, Uint128.toNat, hone]
  exact ⟨hnat, hne, fun h => hne (h.reads_val _ _ _ _)⟩

/-! ## The encodings of integers -/

/-- The bytes are the canonical encoding of the integer, spelled out. -/
structure IsIntegerEncoding (n : ℕ) (enc : List UInt8) : Prop where
  zero : n = 0 → enc = [0x80]
  single : 0 < n → n < 128 → enc = [UInt8.ofNat n]
  long : 128 ≤ n → ∃ b bs, b ≠ 0 ∧ ofBE (b :: bs) = n ∧
    enc = UInt8.ofNat (0x80 + (b :: bs).length) :: b :: bs

/-- The encoding of the minimal bytes is that. -/
theorem isIntegerEncoding_beBytes {n : ℕ} (h : n < 256 ^ 8) :
    IsIntegerEncoding n (encodeStr (beBytes n)) where
  zero := by
    rintro rfl
    rw [beBytes_zero]
    decide
  single := by
    intro hpos hlt
    have hbyte : UInt8.ofNat n < 0x80 := by
      rw [UInt8.lt_iff_toNat_lt, UInt8.toNat_ofNat', Nat.mod_eq_of_lt (by omega)]
      exact hlt
    rw [beBytes_of_lt hpos (by omega), encodeStr, if_pos ⟨_, rfl, hbyte⟩]
  long := by
    intro hge
    have hlen : (beBytes n).length ≤ 8 := length_beBytes_le_iff.mpr h
    have hdenotes := ofBE_beBytes n
    rcases hbe : beBytes n with _ | ⟨b, bs⟩
    · have h0 := beBytes_eq_nil_iff.mp hbe
      omega
    · rw [hbe] at hlen hdenotes
      have hb : b ≠ 0 := by
        rintro rfl
        exact head?_beBytes_ne_zero n (by rw [hbe]; rfl)
      have hsingle : ¬ IsSingle (b :: bs) := by
        rintro ⟨c, hc, hlt⟩
        rw [hc, ofBE_cons, ofBE_nil, List.length_nil, pow_zero, Nat.one_mul] at hdenotes
        have h128 : (0x80 : UInt8).toNat = 128 := rfl
        rw [UInt8.lt_iff_toNat_lt, h128] at hlt
        omega
      refine ⟨b, bs, hb, hdenotes, ?_⟩
      rw [encodeStr, if_neg hsingle, lenPrefix, if_pos (by omega), UInt8.ofNat_add]
      rfl

/-- **`rlp_encode_integer` writes the canonical integer of its number**, with no leading zero byte
and as few length bytes as there can be, and different ones for different numbers. -/
theorem rlpEncodeInteger_canonical :
    (∀ (m : Region) (output : ℕ) (val : UInt64), ∃ enc,
      rlpEncodeInteger m output val = (m.store output enc, enc.length) ∧
        IsIntegerEncoding val.toNat enc) ∧
    ∀ (m m' : Region) (output output' : ℕ) (u v : UInt64), u < v →
      (rlpEncodeInteger m output u).1.load output (rlpEncodeInteger m output u).2 ≠
        (rlpEncodeInteger m' output' v).1.load output' (rlpEncodeInteger m' output' v).2 := by
  have hlt : ∀ val : UInt64, val.toNat < 256 ^ 8 := fun val => val.toNat_lt
  constructor
  · intro m output val
    exact ⟨_, rlpEncodeInteger_eq m output val, isIntegerEncoding_beBytes (hlt val)⟩
  · intro m m' output output' u v huv heq
    rw [rlpEncodeInteger_eq, rlpEncodeInteger_eq, Region.load_store, Region.load_store] at heq
    have hfits : ∀ val : UInt64, (beBytes val.toNat).length < 256 ^ 8 := fun val =>
      Nat.lt_of_le_of_lt (length_beBytes_le_iff.mpr (hlt val)) (by norm_num)
    have henc : Rlp.encode (.str (beBytes u.toNat)) = Rlp.encode (.str (beBytes v.toNat)) := by
      rw [Rlp.encode, Rlp.encode]
      exact heq
    have hstr := Rlp.Item.str.inj (Rlp.encode_inj (hfits u) (hfits v) henc)
    have hnat := UInt64.lt_iff_toNat_lt.mp huv
    rw [beBytes_injective hstr] at hnat
    exact Nat.lt_irrefl _ hnat

end AnylWallet.Helpers
