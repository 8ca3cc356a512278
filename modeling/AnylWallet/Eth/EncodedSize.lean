import AnylWallet.Eth.Canonical

/-!
# When `tx_encode` keeps to its buffer

`tx_encode` never refuses: it does not look at `buf_size`, and it counts in 16 bits.

* `KeepsToBuffer`: it refuses, or it returns the length of the complete encoding and that length is
  at most `buf_size`; and in both cases nothing is stored outside the buffer. The complete encoding
  holds the numbers that `r` and `s` denote as big-endian bytes, which is how `eth_sign_data` copies
  them into the structure.
* `excess`: by how many bytes the item of a 256-bit number is longer than that of the number that is
  meant. Leading zeros are left out below `2 ^ 64` only, and there they are those of the host's order.
* **Exactly when it keeps to its buffer** (`txEncode_keeps_iff`): the complete encoding takes at most
  `buf_size` and fewer than `2 ^ 16` bytes, and the bytes that are written too much, for the three
  numbers and for the pointer that is written in place of no calldata, and those that are written too
  little add up to none.
-/

namespace AnylWallet.Eth

open AnylWallet.Lib AnylWallet.Helpers
open AnylWallet.Lib.Rlp (Item lenPrefix encode encodeAll encodeStr)

/-! ## The complete encoding -/

/-- The calldata of the transaction: none behind a `NULL` pointer. -/
def Transaction.callBytes (tx : Transaction) : List UInt8 := if tx.data = 0 then [] else tx.calldata

/-- The strings of the transaction, and those of its signature: `r` and `s` are the numbers that their
bytes in memory denote in big-endian order. -/
def completeStrings (tx : Transaction) : Option Signature → List (List UInt8)
  | none => [beBytes tx.nonce.toNat, beBytes tx.gasPrice.toNat, beBytes tx.gasLimit.toNat,
      tx.toAddr.a.toList, beBytes tx.value.toNat, tx.callBytes]
  | some sig => [beBytes tx.nonce.toNat, beBytes tx.gasPrice.toNat, beBytes tx.gasLimit.toNat,
      tx.toAddr.a.toList, beBytes tx.value.toNat, tx.callBytes, beBytes sig.v.toNat,
      beBytes (ofBE sig.r.image), beBytes (ofBE sig.s.image)]

/-- The length of the complete encoding. -/
def completeLength (tx : Transaction) (sig : Option Signature) : ℕ :=
  (encode (.list ((completeStrings tx sig).map Item.str))).length

/-- `r` is a refusal or the length of the complete encoding, which fits; and nothing has been stored
past the buffer. -/
def KeepsToBuffer (tx : Transaction) (sig : Option Signature) (bufSize : ℕ) (r : Region × ℤ) :
    Prop :=
  r.1.top ≤ bufSize ∧ (r.2 < 0 ∨ (r.2 = completeLength tx sig ∧ r.2 ≤ bufSize))

/-- The length of the item of a number. -/
def numberSize (n : ℕ) : ℕ := (encodeStr (beBytes n)).length

/-- By how many bytes the item that `rlp_encode_uint256` writes for `x` is longer than the item of the
number `n` that is meant by it: below `2 ^ 64` the word of the host is written as a number, below
`2 ^ 128` there are 28 bytes of the stack, and from there on all 32 bytes. -/
def excess (x : Uint256) (n : ℕ) : ℤ :=
  if x.toNat < 2 ^ 64 then (numberSize x.toNat : ℤ) - numberSize n
  else if x.toNat < 2 ^ 128 then 28 - ((beBytes n).length : ℤ)
  else 32 - ((beBytes n).length : ℤ)

/-- The byte of a pointer to no calldata needs a header from 128 on. -/
def pointerExcess (tx : Transaction) : ℤ :=
  if tx.dataLen = 0 ∧ 128 ≤ tx.data.toNat % 256 then 1 else 0

/-- By how many bytes all items together are too long. -/
def totalExcess (tx : Transaction) : Option Signature → ℤ
  | none => excess tx.value tx.value.toNat + pointerExcess tx
  | some sig => excess tx.value tx.value.toNat + pointerExcess tx +
      (excess sig.r (ofBE sig.r.image) + excess sig.s (ofBE sig.s.image))

/-! ## Sizes of items -/

/-- The length of a header. -/
theorem length_lenPrefix (n : ℕ) :
    (lenPrefix 0xc0 n).length = if n ≤ 55 then 1 else (beBytes n).length + 1 := by
  unfold lenPrefix
  split_ifs
  · rfl
  · exact List.length_cons

/-- Larger payloads have no shorter headers. -/
theorem length_lenPrefix_mono {m n : ℕ} (h : m ≤ n) :
    (lenPrefix 0xc0 m).length ≤ (lenPrefix 0xc0 n).length := by
  have hbe : (beBytes m).length ≤ (beBytes n).length :=
    length_beBytes_le_iff.mpr (lt_of_le_of_lt h (length_beBytes_le_iff.mp le_rfl))
  rw [length_lenPrefix, length_lenPrefix]
  split_ifs
  · exact le_rfl
  · omega
  · omega
  · omega

/-- The header of a payload that 16 bits can count. -/
theorem length_lenPrefix_le {n : ℕ} (h : n < 2 ^ 16) :
    1 ≤ (lenPrefix 0xc0 n).length ∧ (lenPrefix 0xc0 n).length ≤ 3 := by
  have hbe : (beBytes n).length ≤ 2 := length_beBytes_le_iff.mpr h
  rw [length_lenPrefix]
  split_ifs
  · omega
  · omega

/-- `rlp_header_len` announces its length. -/
theorem rlpHeaderLen_eq {n : ℕ} (h : n < 2 ^ 32) : rlpHeaderLen n = (lenPrefix 0xc0 n).length := by
  rw [length_lenPrefix, rlpHeaderLen, countShifts_eq (by omega)]

/-- The complete encoding is the payload behind its header. -/
theorem completeLength_eq (tx : Transaction) (sig : Option Signature) :
    completeLength tx sig =
      (lenPrefix 0xc0 ((completeStrings tx sig).flatMap encodeStr).length).length +
        ((completeStrings tx sig).flatMap encodeStr).length := by
  rw [completeLength, encode, Rlp.encodeAll_map_str, List.length_append]

/-- A string of two bytes and more, and 55 at most, has a header of one byte. -/
theorem length_encodeStr_short {s : List UInt8} (h2 : 2 ≤ s.length) (h55 : s.length ≤ 55) :
    (encodeStr s).length = s.length + 1 := by
  have hsingle : ¬ Rlp.IsSingle s := by
    rintro ⟨b, rfl, -⟩
    rw [List.length_singleton] at h2
    omega
  rw [encodeStr, if_neg hsingle, lenPrefix, if_pos h55, List.length_append, List.length_singleton,
    Nat.add_comm]

/-- The item of a number below `256 ^ 8` has at most nine bytes. -/
theorem numberSize_le {n : ℕ} (h : n < 256 ^ 8) : numberSize n ≤ 9 := by
  have h8 := length_beBytes_le_iff.mpr h
  unfold numberSize encodeStr
  split_ifs
  · omega
  · rw [lenPrefix, if_pos (by omega), List.length_append, List.length_singleton]
    omega

/-- No item is empty. -/
theorem numberSize_pos (n : ℕ) : 1 ≤ numberSize n := by
  unfold numberSize encodeStr
  split_ifs with h
  · obtain ⟨b, hb, -⟩ := h
    rw [hb, List.length_singleton]
  · rw [List.length_append]
    have := List.length_pos_iff.mpr (Rlp.lenPrefix_ne_nil 0x80 (beBytes n).length)
    omega

/-- **The size of a 256-bit number**: the item that is written is `excess` bytes longer than that of
the number meant, if both have more than eight bytes or neither has. -/
theorem length_uint256_item (stack : ℕ → UInt8) (x : Uint256) {n : ℕ} (hn : n < 256 ^ 32)
    (hsmall : x.toNat < 2 ^ 64 ↔ n < 2 ^ 64) :
    ((encodeStr (uint256String stack x)).length : ℤ) = numberSize n + excess x n ∧
      -8 ≤ excess x n ∧ excess x n ≤ 24 := by
  have hnum : 2 ^ 64 ≤ n → numberSize n = (beBytes n).length + 1 ∧ 8 < (beBytes n).length ∧
      (beBytes n).length ≤ 32 := by
    intro h
    have h8 : 8 < (beBytes n).length := by
      by_contra hle
      exact absurd (length_beBytes_le_iff.mp (not_lt.mp hle)) (not_lt.mpr h)
    have h32 := length_beBytes_le_iff.mpr hn
    exact ⟨length_encodeStr_short (by omega) (by omega), h8, h32⟩
  have hval : x.toNat = x.upper.toNat * 2 ^ 128 +
      (x.lower.upper.toNat * 2 ^ 64 + x.lower.lower.toNat) := rfl
  have hll := x.lower.lower.toNat_lt
  have hlu := x.lower.upper.toNat_lt
  unfold uint256String excess
  by_cases hu : x.upper.toNat = 0
  · rw [if_pos (zero128_iff.mpr hu)]
    by_cases hlow : x.lower.upper = 0
    · have hzero : x.lower.upper.toNat = 0 := by rw [hlow, UInt64.toNat_zero]
      have hnat : x.toNat = x.lower.lower.toNat := by omega
      have hlt : x.toNat < 2 ^ 64 := by omega
      have hx := numberSize_le (show x.toNat < 256 ^ 8 by omega)
      have hm := numberSize_le (show n < 256 ^ 8 by have := hsmall.mp hlt; omega)
      have hxpos := numberSize_pos x.toNat
      have hmpos := numberSize_pos n
      rw [if_pos hlow, if_pos hlt, ← hnat, ← numberSize]
      omega
    · have hpos : x.lower.upper.toNat ≠ 0 := fun h => hlow (UInt64.toNat_inj.mp h)
      have hge : ¬ x.toNat < 2 ^ 64 := by omega
      obtain ⟨hlen, hlt, h32⟩ := hnum (not_lt.mp (mt hsmall.mpr hge))
      have hstack := length_encodeStr_short (s := (List.range 28).map fun i => stack (128 + i))
        (by simp) (by simp)
      rw [List.length_map, List.length_range] at hstack
      rw [if_neg hlow, if_neg hge, if_pos (by omega), hlen, hstack]
      omega
  · have himage := length_encodeStr_short (s := x.image) (by simp) (by simp)
    rw [Uint256.length_image] at himage
    have hge : ¬ x.toNat < 2 ^ 64 := by omega
    obtain ⟨hlen, hlt, h32⟩ := hnum (not_lt.mp (mt hsmall.mpr hge))
    rw [if_neg (mt zero128_iff.mp hu), if_neg hge, if_neg (by omega), himage, hlen]
    omega

/-- Both orders of the bytes agree on which numbers have at most eight: the words are the same. -/
theorem toNat_lt_iff_image (x : Uint256) : x.toNat < 2 ^ 64 ↔ ofBE x.image < 2 ^ 64 := by
  have hzero : ∀ w : UInt64, ofBE (leBytes 8 w.toNat) = 0 ↔ w.toNat = 0 := by
    intro w
    have hlt : w.toNat < 256 ^ 8 := lt_of_lt_of_eq w.toNat_lt (by norm_num)
    rw [ofBE, ← leBytes_eq_replicate_zero_iff hlt]
    constructor
    · intro h
      have hrev := ofLE_injective_of_length_eq (by simp) (h.trans (ofLE_replicate_zero 8).symm)
      rw [← List.reverse_reverse (leBytes 8 w.toNat), hrev, List.reverse_replicate]
    · intro h
      rw [h, List.reverse_replicate, ofLE_replicate_zero]
  have hlast : ofBE (leBytes 8 x.lower.lower.toNat) < 2 ^ 64 :=
    lt_of_lt_of_eq (ofBE_lt _) (by simp)
  have hup : x.upper.toNat = x.upper.upper.toNat * 2 ^ 64 + x.upper.lower.toNat := rfl
  have hval : x.toNat = x.upper.toNat * 2 ^ 128 +
      (x.lower.upper.toNat * 2 ^ 64 + x.lower.lower.toNat) := rfl
  have hll := x.lower.lower.toNat_lt
  have huu := hzero x.upper.upper
  have hul := hzero x.upper.lower
  have hlu := hzero x.lower.upper
  rw [Uint256.image_eq, ofBE_append, ofBE_append, ofBE_append]
  simp only [List.length_append, length_leBytes]
  omega

/-- **The size of half a signature**, whose bytes are those of a big-endian number. -/
theorem length_half_item (stack : ℕ → UInt8) (x : Uint256) :
    ((encodeStr (uint256String stack x)).length : ℤ) =
        numberSize (ofBE x.image) + excess x (ofBE x.image) ∧
      -8 ≤ excess x (ofBE x.image) ∧ excess x (ofBE x.image) ≤ 24 :=
  length_uint256_item stack x (lt_of_lt_of_eq (ofBE_lt _) (by simp)) (toNat_lt_iff_image x)

/-- **The size of the calldata**: only a pointer can be written longer than what it stands for, by
one byte. -/
theorem length_data_item (tx : Transaction) :
    ((encodeStr (dataString tx)).length : ℤ) =
        (encodeStr tx.callBytes).length + pointerExcess tx ∧
      0 ≤ pointerExcess tx ∧ pointerExcess tx ≤ 1 := by
  have hnil : (encodeStr []).length = 1 := by decide
  have hrange : 0 ≤ pointerExcess tx ∧ pointerExcess tx ≤ 1 := by
    unfold pointerExcess
    split_ifs
    · exact ⟨by norm_num, le_rfl⟩
    · exact ⟨le_rfl, by norm_num⟩
  refine ⟨?_, hrange⟩
  unfold dataString
  by_cases hnone : tx.data = 0 ∨ tx.dataLen = 0
  · have hcall : tx.callBytes = [] := by
      unfold Transaction.callBytes
      split_ifs with h0
      · rfl
      · exact List.length_eq_zero_iff.mp (hnone.resolve_left h0)
    have hzero : tx.dataLen ≠ 0 → tx.data.toNat = 0 := fun h => by
      rw [hnone.resolve_right h, UInt64.toNat_zero]
    obtain ⟨b, hb⟩ : ∃ b, b = UInt8.ofNat tx.data.toNat := ⟨_, rfl⟩
    have hbyte : b.toNat = tx.data.toNat % 256 := by rw [hb, UInt8.toNat_ofNat']
    have htake : (leBytes 8 tx.data.toNat).take 1 = [b] := by rw [hb]; rfl
    have hpointer : pointerExcess tx = if 128 ≤ b.toNat then 1 else 0 := by
      rw [pointerExcess, hbyte]
      refine if_congr (and_iff_right_of_imp fun h => ?_) rfl rfl
      by_contra hlen
      have := hzero hlen
      omega
    rw [if_pos hnone, hcall, hnil, htake, hpointer]
    by_cases hb0 : b = 0
    · subst hb0
      have hitem : itemString [0] = [] := if_pos rfl
      rw [hitem, hnil]
      rfl
    · have hitem : itemString [b] = [b] := if_neg fun h => hb0 (List.singleton_inj.mp h)
      rw [hitem]
      by_cases hsmall : b < 0x80
      · have hlt : b.toNat < 128 := UInt8.lt_iff_toNat_lt.mp hsmall
        have hlen : (encodeStr [b]).length = 1 := by
          rw [encodeStr, if_pos ⟨b, rfl, hsmall⟩, List.length_singleton]
        rw [hlen, if_neg (not_le.mpr hlt)]
        rfl
      · have hge : 128 ≤ b.toNat := by
          have := mt UInt8.lt_iff_toNat_lt.mpr hsmall
          simpa using this
        have hnot : ¬ Rlp.IsSingle [b] := by
          rintro ⟨c, hc, hlt⟩
          exact hsmall (List.singleton_inj.mp hc ▸ hlt)
        have hlen : (encodeStr [b]).length = 2 := by
          rw [encodeStr, if_neg hnot, lenPrefix, List.length_singleton, if_pos (by omega),
            List.length_append, List.length_singleton, List.length_singleton]
        rw [hlen, if_pos hge]
        rfl
  · have hdata : tx.data ≠ 0 := fun h => hnone (Or.inl h)
    have hlen : tx.dataLen ≠ 0 := fun h => hnone (Or.inr h)
    have hsame : (encodeStr (itemString tx.calldata)).length = (encodeStr tx.calldata).length := by
      by_cases h0 : tx.calldata = [0x00]
      · rw [h0]
        decide
      · rw [itemString_eq_iff.mpr h0]
    have hpointer : pointerExcess tx = 0 := if_neg fun h => hlen h.1
    rw [if_neg hnone, Transaction.callBytes, if_neg hdata, hsame, hpointer, add_zero]

/-! ## The payload -/

/-- The payload that is written. -/
def writtenBytes (stk : Stacks) (tx : Transaction) : Option Signature → List UInt8
  | none => fieldBytes stk.value tx
  | some sig => fieldBytes stk.value tx ++ signatureBytes stk.r stk.s sig

variable {stk : Stacks} {tx : Transaction} {sig : Option Signature} {bufSize : ℕ}

/-- **The size of the payload**: the items that are written are `totalExcess` bytes longer than the
complete ones. -/
theorem length_writtenBytes (stk : Stacks) (tx : Transaction) (sig : Option Signature) :
    ((writtenBytes stk tx sig).length : ℤ) =
        ((completeStrings tx sig).flatMap encodeStr).length + totalExcess tx sig ∧
      -24 ≤ totalExcess tx sig ∧ totalExcess tx sig ≤ 73 := by
  obtain ⟨hvalue, hv, hv'⟩ := length_uint256_item stk.value tx.value
    (lt_of_lt_of_eq tx.value.toNat_lt (by norm_num)) Iff.rfl
  obtain ⟨hdata, hd, hd'⟩ := length_data_item tx
  cases sig with
  | none =>
      simp only [writtenBytes, completeStrings, totalExcess, fieldBytes, fieldStrings,
        List.flatMap_cons, List.flatMap_nil, List.append_nil, List.length_append, Nat.cast_add,
        hvalue, hdata, numberSize]
      exact ⟨by ring, by linarith, by linarith⟩
  | some s =>
      obtain ⟨hrsize, hr, hr'⟩ := length_half_item stk.r s.r
      obtain ⟨hssize, hs, hs'⟩ := length_half_item stk.s s.s
      simp only [writtenBytes, completeStrings, totalExcess, fieldBytes, fieldStrings,
        signatureBytes, signatureStrings, List.flatMap_cons, List.flatMap_nil, List.append_nil,
        List.length_append, Nat.cast_add, hvalue, hdata, hrsize, hssize, numberSize]
      exact ⟨by ring, by linarith, by linarith⟩

/-- The items are written one behind the other, if the counters hold the length of each. -/
theorem txEncode_eq_prependHeader (m : Region) (bufSize : ℕ) (hdata : tx.calldata.length < 2 ^ 32 - 5)
    (hitem : (encodeStr (dataString tx)).length < 2 ^ 16) :
    txEncode stk tx sig m bufSize =
      prependHeader ((⟨m, 0, 0⟩ : TxOut).push (writtenBytes stk tx sig)) := by
  unfold txEncode writtenBytes
  dsimp only
  rw [txEncodeFields_eq_push stk.value m hdata hitem]
  cases sig with
  | none => rfl
  | some sig => simp only [txEncodeSignature_eq, TxOut.push_push]

/-- **`tx_encode` returns no negative number and none from `2 ^ 16` on.** -/
theorem txEncode_snd (stk : Stacks) (tx : Transaction) (sig : Option Signature) (m : Region)
    (bufSize : ℕ) : ∃ n : ℕ, (txEncode stk tx sig m bufSize).2 = n ∧ n < 2 ^ 16 := by
  have hheader : ∀ st : TxOut, ∃ n : ℕ, (prependHeader st).2 = n ∧ n < 2 ^ 16 :=
    fun st => ⟨_, rfl, Nat.mod_lt _ (by norm_num)⟩
  unfold txEncode
  dsimp only
  cases sig with
  | none => exact hheader _
  | some sig => exact hheader _

/-- The destination takes 21 bytes. -/
theorem length_encodeStr_to (addr : Address) : (encodeStr addr.a.toList).length = 21 := by
  have hlen : addr.a.toList.length = 20 := by simp
  have hsingle : ¬ Rlp.IsSingle addr.a.toList := by
    rintro ⟨b, hb, -⟩
    rw [hb] at hlen
    cases hlen
  rw [encodeStr, if_neg hsingle, lenPrefix, hlen, if_pos (by omega), List.length_append, hlen,
    List.length_singleton]

/-- The payload holds the destination and the calldata. -/
theorem length_callBytes_le (tx : Transaction) (sig : Option Signature) :
    (encodeStr tx.callBytes).length + 21 ≤
      ((completeStrings tx sig).flatMap encodeStr).length := by
  have hto := length_encodeStr_to tx.toAddr
  cases sig with
  | none =>
      simp only [completeStrings, List.flatMap_cons, List.flatMap_nil, List.append_nil,
        List.length_append, hto]
      omega
  | some sig =>
      simp only [completeStrings, List.flatMap_cons, List.flatMap_nil, List.append_nil,
        List.length_append, hto]
      omega

/-- A complete encoding that 16 bits can count has calldata that they can count. -/
theorem length_dataString_of_complete (h : completeLength tx sig < 2 ^ 16)
    (hlen : tx.dataLen ≤ 2 ^ 31) :
    tx.calldata.length < 2 ^ 32 - 5 ∧ (encodeStr (dataString tx)).length < 2 ^ 16 := by
  obtain ⟨hdata, -, hle⟩ := length_data_item tx
  have hcall := length_callBytes_le tx sig
  rw [completeLength_eq] at h
  unfold Transaction.dataLen at hlen
  omega

/-- The lengths modulo `2 ^ 16` agree only if the lengths do. -/
theorem eq_of_header_mod {w t : ℕ} (htw : t ≤ w + 24) (hwt : w ≤ t + 73)
    (_ht : (lenPrefix 0xc0 t).length + t < 2 ^ 16)
    (h : (w % 2 ^ 16 + (lenPrefix 0xc0 (w % 2 ^ 16)).length) % 2 ^ 16 =
      (lenPrefix 0xc0 t).length + t) : w = t := by
  have hheader := length_lenPrefix_le (show t < 2 ^ 16 by omega)
  have hwheader := length_lenPrefix_le (Nat.mod_lt w (show 0 < 2 ^ 16 by norm_num))
  by_cases hw : w < 2 ^ 16
  · rw [Nat.mod_eq_of_lt hw] at h hwheader
    rcases le_total t w with hle | hle
    · have hmono := length_lenPrefix_mono hle
      omega
    · have hmono := length_lenPrefix_mono hle
      omega
  · omega

/-- What is stored, if the whole encoding can be counted. -/
theorem top_prependHeader (bytes : ℕ → UInt8) {bs : List UInt8} (hbs : bs ≠ [])
    (h : (lenPrefix 0xc0 bs.length).length + bs.length < 2 ^ 16) :
    (prependHeader ((⟨⟨bytes, 0⟩, 0, 0⟩ : TxOut).push bs)).1.top =
        (lenPrefix 0xc0 bs.length).length + bs.length ∧
      (prependHeader ((⟨⟨bytes, 0⟩, 0, 0⟩ : TxOut).push bs)).2 =
        (((lenPrefix 0xc0 bs.length).length + bs.length : ℕ) : ℤ) := by
  have hpos := List.length_pos_iff.mpr hbs
  rw [TxOut.push_start _ (by omega)]
  by_cases h55 : bs.length = 55
  · have hprefix : (lenPrefix 0xc0 55).length = 1 := by decide
    rw [prependHeader_55 _ h55, h55, hprefix]
    refine ⟨?_, rfl⟩
    rw [Region.top_store, if_neg (List.cons_ne_nil _ _)]
    simp only [List.length_cons, List.length_tail, h55]
    rfl
  · have hsize : bs.length < 2 ^ 16 - 3 := by
      by_contra hge
      have hbe : 1 < (beBytes bs.length).length := by
        by_contra hle
        have := length_beBytes_le_iff.mp (not_lt.mp hle)
        omega
      rw [length_lenPrefix, if_neg (by omega)] at h
      omega
    rw [prependHeader_eq _ hsize h55, List.length_append]
    refine ⟨?_, rfl⟩
    rw [Region.top_store, if_neg (by simp [hbs]), List.length_append]
    simp only [Nat.zero_add, Nat.zero_max]

/-- The number returned, if the calldata can be counted: the lengths modulo `2 ^ 16`. -/
theorem prependHeader_push_snd (m : Region) (bs : List UInt8) :
    (prependHeader ((⟨m, 0, 0⟩ : TxOut).push bs)).2 =
      (((bs.length % 2 ^ 16 + (lenPrefix 0xc0 (bs.length % 2 ^ 16)).length) % 2 ^ 16 : ℕ) : ℤ) := by
  have hlt : bs.length % 2 ^ 16 < 2 ^ 16 := Nat.mod_lt _ (by norm_num)
  simp only [prependHeader, TxOut.push, Nat.zero_add, rlpHeaderLen_eq (show
    bs.length % 2 ^ 16 < 2 ^ 32 by omega)]

/-- **When `tx_encode` keeps to its buffer**: if and only if the complete encoding fits in the
buffer and is shorter than `2 ^ 16` bytes, and the items that are written have as many bytes together
as those of the complete encoding. Two halves of a signature can make up for each other here: one that
starts with 24 zero bytes may be written up to eight bytes too short. -/
theorem txEncode_keeps_iff (stk : Stacks) (tx : Transaction) (sig : Option Signature)
    (bytes : ℕ → UInt8) (bufSize : ℕ) (hlen : tx.dataLen ≤ 2 ^ 31) :
    KeepsToBuffer tx sig bufSize (txEncode stk tx sig ⟨bytes, 0⟩ bufSize) ↔
      (completeLength tx sig ≤ bufSize ∧ completeLength tx sig < 2 ^ 16) ∧
        totalExcess tx sig = 0 := by
  obtain ⟨hwrites, hge, hle⟩ := length_writtenBytes stk tx sig
  have hcomplete := completeLength_eq tx sig
  have hcall := length_callBytes_le tx sig
  constructor
  · rintro ⟨-, hret⟩
    obtain ⟨n, hn, hn16⟩ := txEncode_snd stk tx sig ⟨bytes, 0⟩ bufSize
    rw [hn] at hret
    have hret : n = completeLength tx sig ∧ n ≤ bufSize := by omega
    refine ⟨⟨by omega, by omega⟩, ?_⟩
    obtain ⟨hdata, hitem⟩ := length_dataString_of_complete (show completeLength tx sig < 2 ^ 16 by
      omega) hlen
    rw [txEncode_eq_prependHeader _ _ hdata hitem, prependHeader_push_snd, Nat.cast_inj] at hn
    have hsame := eq_of_header_mod (show ((completeStrings tx sig).flatMap encodeStr).length ≤
      (writtenBytes stk tx sig).length + 24 by omega) (by omega) (by omega) (by omega)
    omega
  · rintro ⟨⟨hbuf, h16⟩, hsum⟩
    obtain ⟨hdata, hitem⟩ := length_dataString_of_complete h16 hlen
    have hwritten : (writtenBytes stk tx sig).length =
        ((completeStrings tx sig).flatMap encodeStr).length := by omega
    have hnil : writtenBytes stk tx sig ≠ [] := by
      intro h
      rw [h, List.length_nil] at hwritten
      omega
    rw [← hwritten] at hcomplete
    obtain ⟨htop, hret⟩ := top_prependHeader bytes hnil (hcomplete ▸ h16)
    rw [KeepsToBuffer, txEncode_eq_prependHeader _ _ hdata hitem, htop, hret, ← hcomplete]
    exact ⟨hbuf, Or.inr ⟨rfl, by exact_mod_cast hbuf⟩⟩

/-- A half of a signature with a zero among its bytes is written as it is, one that starts with a zero
a byte too long. -/
example :
    excess (Uint256.ofImage (List.replicate 7 1 ++ 0 :: List.replicate 24 1))
        (ofBE (List.replicate 7 1 ++ 0 :: List.replicate 24 1)) = 0 ∧
      excess (Uint256.ofImage (0 :: List.replicate 31 1)) (ofBE (0 :: List.replicate 31 1)) = 1 := by
  decide

/-- A transfer of nothing. -/
def emptyTransfer : Transaction where
  nonce := 0
  gasPrice := 1
  gasLimit := 21000
  toAddr := ⟨Vector.replicate 20 0⟩
  value := clear256
  data := 0
  calldata := []

/-- **`tx_encode` does not keep to its buffer**: it stores 29 bytes into a buffer of 10 and returns
29; and it returns less than 65536 for 65536 bytes of calldata. -/
theorem txEncode_not_keeps :
    ¬ KeepsToBuffer emptyTransfer none 10
        (txEncode ⟨fun _ => 0, fun _ => 0, fun _ => 0⟩ emptyTransfer none ⟨fun _ => 0, 0⟩ 10) ∧
      ¬ KeepsToBuffer { emptyTransfer with data := 1, calldata := List.replicate 65536 1 } none 70000
        (txEncode ⟨fun _ => 0, fun _ => 0, fun _ => 0⟩
          { emptyTransfer with data := 1, calldata := List.replicate 65536 1 } none
          ⟨fun _ => 0, 0⟩ 70000) := by
  constructor
  · rintro ⟨htop, -⟩
    exact absurd htop (by decide)
  · rintro ⟨-, hret⟩
    obtain ⟨n, hn, hn16⟩ := txEncode_snd ⟨fun _ => 0, fun _ => 0, fun _ => 0⟩
      { emptyTransfer with data := 1, calldata := List.replicate 65536 1 } none ⟨fun _ => 0, 0⟩ 70000
    have hcall := length_callBytes_le
      { emptyTransfer with data := 1, calldata := List.replicate 65536 1 } none
    have hdata := (length_encodeStr (s := List.replicate 65536 1)
      (by rw [List.length_replicate]; omega)).1
    rw [List.length_replicate] at hdata
    have hbytes : ({ emptyTransfer with data := 1, calldata := List.replicate 65536 1 } :
        Transaction).callBytes = List.replicate 65536 1 := if_neg (by decide)
    rw [hbytes] at hcall
    rw [hn, completeLength_eq] at hret
    omega

/-- The transfer fits in a buffer of 256 bytes. -/
theorem txEncode_keeps_emptyTransfer :
    KeepsToBuffer emptyTransfer none 256
      (txEncode ⟨fun _ => 0, fun _ => 0, fun _ => 0⟩ emptyTransfer none ⟨fun _ => 0, 0⟩ 256) :=
  (txEncode_keeps_iff _ _ _ _ _ (by decide)).mpr
    ⟨by decide, by decide⟩

end AnylWallet.Eth
