import AnylWallet.Eth.Transaction

/-!
# When `tx_encode` writes the canonical transaction

* `WritesCanonical`: the buffer receives exactly the canonical RLP list
  `[nonce, gasPrice, gasLimit, to, value, data]`, its length is returned, and the decoder run on the
  returned bytes consumes them all and gives back the six fields.
* **The unsigned encoding** (`txEncode_canonical_iff`) is canonical exactly when three things hold
  together: the value is written as itself (`ValueReadsBack`), the calldata is not the single byte
  `00` (which is written as the empty string), and the six items do not take 55 bytes.
* **The signature items** (`txEncodeSign_signature_iff`) are the canonical integers exactly when the
  bytes of `r` and `s` do not start with a zero byte, or start with 24 of them before a palindrome
  (`SignatureReadsBack`).
-/

namespace AnylWallet.Eth

open AnylWallet.Lib AnylWallet.Helpers
open AnylWallet.Lib.Rlp (Item num lenPrefix encode encodeAll encodeStr decodeBytes Fits)

/-! ## The unsigned transaction -/

/-- `r` is the outcome of writing exactly the canonical encoding of `tx` to the front of `buf`, and
a decoder run on it gives back the fields of `tx`. -/
def WritesCanonical (tx : Transaction) (buf : Region) (r : Region × ℤ) : Prop :=
  r = (buf.store 0 (encode tx.item), ((encode tx.item).length : ℤ)) ∧
    decodeBytes (r.1.load 0 r.2.toNat) = some (tx.item, [])

/-- The value is below `2 ^ 64`, or its first byte in memory is not zero and every one of its words
reads the same in both byte orders. -/
def ValueReadsBack (value : Uint256) : Prop :=
  value.toNat < 2 ^ 64 ∨
    (value.image.head? ≠ some 0 ∧ ∀ w ∈ value.words, Uint256.Palindromic w)

/-- The strings of the canonical list. -/
def Transaction.strings (tx : Transaction) : List (List UInt8) :=
  [beBytes tx.nonce.toNat, beBytes tx.gasPrice.toNat, beBytes tx.gasLimit.toNat,
    tx.toAddr.a.toList, beBytes tx.value.toNat, tx.calldata]

/-- The canonical list is the list of these strings. -/
theorem Transaction.item_eq (tx : Transaction) : tx.item = .list (tx.strings.map Item.str) := rfl

/-- With a value of at most 32 bytes and at most 65000 bytes of calldata the items stay far below
the 16-bit limit. -/
theorem length_flatMap_le {a b c t v d : List UInt8} (ha : a.length ≤ 4) (hb : b.length ≤ 4)
    (hc : c.length ≤ 4) (ht : t.length = 20) (hv : v.length ≤ 32) (hd : d.length ≤ 65000) :
    ([a, b, c, t, v, d].flatMap encodeStr).length ≤ 65100 := by
  have h1 := length_encodeStr_le (s := a) (by omega)
  have h2 := length_encodeStr_le (s := b) (by omega)
  have h3 := length_encodeStr_le (s := c) (by omega)
  have h4 := length_encodeStr_le (s := t) (by omega)
  have h5 := length_encodeStr_le (s := v) (by omega)
  have h6 := (length_encodeStr (s := d) (by omega)).2
  simp only [List.flatMap_cons, List.flatMap_nil, List.append_nil, List.length_append]
  omega

/-- The calldata is written as itself, but for the single byte `00`. -/
theorem dataString_eq {tx : Transaction} (h : tx.data = 0 ↔ tx.calldata = []) :
    dataString tx = itemString tx.calldata := by
  unfold dataString
  split
  · rename_i h0
    have hnil : tx.calldata = [] := h0.elim h.mp List.length_eq_zero_iff.mp
    rw [h.mpr hnil, hnil]
    decide
  · rfl

/-- `itemString` never makes a string longer. -/
theorem length_itemString_le (s : List UInt8) : (itemString s).length ≤ s.length := by
  unfold itemString
  split <;> simp

/-- The string written for the calldata is no longer than the bound on the calldata. -/
theorem length_dataString_le {tx : Transaction} (hlen : tx.calldata.length ≤ 65000) :
    (dataString tx).length ≤ 65000 := by
  unfold dataString
  split
  · have := length_itemString_le ((leBytes 8 tx.data.toNat).take 1)
    rw [List.length_take] at this
    omega
  · exact (length_itemString_le _).trans hlen

/-- The payload of the transaction stays below the 16-bit limit. -/
theorem length_fieldBytes_le (stack : ℕ → UInt8) {tx : Transaction}
    (hlen : tx.calldata.length ≤ 65000) : (fieldBytes stack tx).length ≤ 65100 := by
  have hd := length_dataString_le hlen
  exact length_flatMap_le (length_beBytes_uint32 _) (length_beBytes_uint32 _)
    (length_beBytes_uint32 _) (by simp) (length_uint256String_le _ _) hd

section unsigned

variable (stk : Stacks) {tx : Transaction} (buf : Region) (bufSize : ℕ)

/-- **What `tx_encode` writes**: the canonical list of `fieldStrings`, unless it takes 55 bytes. -/
theorem txEncode_none_eq (hlen : tx.calldata.length ≤ 65000)
    (h55 : (fieldBytes stk.value tx).length ≠ 55) :
    txEncode stk tx none buf bufSize =
      (buf.store 0 (encode (.list ((fieldStrings stk.value tx).map Item.str))),
        ((encode (.list ((fieldStrings stk.value tx).map Item.str))).length : ℤ)) := by
  have hbound := length_fieldBytes_le stk.value hlen
  rw [txEncode, txEncodeFields_eq _ _ (by omega) (by omega), prependHeader_eq _ (by omega) h55,
    encode, Rlp.encodeAll_map_str]
  rfl

/-- Every list of such strings fits. -/
theorem fits_fieldStrings (hlen : tx.calldata.length ≤ 65000) :
    Fits (.list ((fieldStrings stk.value tx).map Item.str)) := by
  have hbound := length_fieldBytes_le stk.value hlen
  have hd := length_dataString_le hlen
  refine Rlp.fits_list_map_str (fun s hs => ?_) (by unfold fieldBytes at hbound; omega)
  simp only [fieldStrings, List.mem_cons, List.not_mem_nil, or_false] at hs
  rcases hs with rfl | rfl | rfl | rfl | rfl | rfl
  · have := length_beBytes_uint32 tx.nonce
    omega
  · have := length_beBytes_uint32 tx.gasPrice
    omega
  · have := length_beBytes_uint32 tx.gasLimit
    omega
  · simp
  · have := length_uint256String_le stk.value tx.value
    omega
  · omega

/-- The canonical list fits. -/
theorem fits_item (hlen : tx.calldata.length ≤ 65000) : Fits tx.item := by
  have hto : tx.toAddr.a.toList.length = 20 := by simp
  have hbound := length_flatMap_le (length_beBytes_uint32 tx.nonce)
    (length_beBytes_uint32 tx.gasPrice) (length_beBytes_uint32 tx.gasLimit) hto
    (length_beBytes_uint256 tx.value) hlen
  rw [tx.item_eq]
  refine Rlp.fits_list_map_str (fun s hs => ?_) (by unfold Transaction.strings; omega)
  simp only [Transaction.strings, List.mem_cons, List.not_mem_nil, or_false] at hs
  rcases hs with rfl | rfl | rfl | rfl | rfl | rfl
  · have := length_beBytes_uint32 tx.nonce
    omega
  · have := length_beBytes_uint32 tx.gasPrice
    omega
  · have := length_beBytes_uint32 tx.gasLimit
    omega
  · simp
  · have := length_beBytes_uint256 tx.value
    omega
  · omega

/-- The strings written are the canonical ones exactly when the value and the calldata are written
as themselves. -/
theorem fieldStrings_eq_iff (stack : ℕ → UInt8) (hdata : tx.data = 0 ↔ tx.calldata = []) :
    fieldStrings stack tx = tx.strings ↔ ValueReadsBack tx.value ∧ tx.calldata ≠ [0x00] := by
  simp only [fieldStrings, Transaction.strings, List.cons.injEq, true_and, and_true,
    dataString_eq hdata, itemString_eq_iff, uint256String_eq_beBytes_iff, ValueReadsBack]

/-- A list prefix never starts with `f8` before 55 or fewer bytes. -/
theorem encode_list_ne_of_55 {xs : List Item} {bs : List UInt8} (hbs : bs.length = 54) :
    encode (.list xs) ≠ 0xf8 :: 55 :: bs := by
  intro h
  have hlen := congrArg List.length h
  rw [encode, List.length_append] at hlen
  simp only [List.length_cons, hbs] at hlen
  have hpos : 0 < (lenPrefix 0xc0 (encodeAll xs).length).length :=
    List.length_pos_iff.mpr (Rlp.lenPrefix_ne_nil _ _)
  have hle : (encodeAll xs).length ≤ 55 := by omega
  rw [encode, lenPrefix, if_pos hle, List.singleton_append, List.cons.injEq] at h
  have hbyte := congrArg UInt8.toNat h.1
  rw [Rlp.toNat_base_add 0xc0 (by decide) (by omega)] at hbyte
  simp only [UInt8.reduceToNat] at hbyte
  omega

/-- **The unsigned encoding**: `tx_encode` writes exactly the canonical RLP list and returns its
length, and the decoder gives back the six fields, if and only if the value reads back, the calldata
is not the single byte `00`, and the items of the transaction do not take 55 bytes. -/
theorem txEncode_canonical_iff (stk : Stacks) (tx : Transaction) (buf : Region) (bufSize : ℕ)
    (hdata : tx.data = 0 ↔ tx.calldata = []) (hlen : tx.calldata.length ≤ 65000) :
    WritesCanonical tx buf (txEncode stk tx none buf bufSize) ↔
      ValueReadsBack tx.value ∧ tx.calldata ≠ [0x00] ∧ (encodeAll tx.items).length ≠ 55 := by
  have hitems : encodeAll tx.items = tx.strings.flatMap encodeStr :=
    Rlp.encodeAll_map_str tx.strings
  rw [← and_assoc, ← fieldStrings_eq_iff stk.value hdata]
  constructor
  · rintro ⟨h, -⟩
    by_cases h55 : (fieldBytes stk.value tx).length = 55
    · exfalso
      have hbound := length_fieldBytes_le stk.value hlen
      rw [txEncode, txEncodeFields_eq _ _ (by omega) (by omega), prependHeader_55 _ h55,
        Prod.mk.injEq] at h
      have hl : ((0xf8 : UInt8) :: 55 :: (fieldBytes stk.value tx).tail).length =
          (encode tx.item).length := by
        simp only [List.length_cons, List.length_tail, h55]
        omega
      exact encode_list_ne_of_55 (by simp [h55]) (Region.eq_of_store_eq_store hl h.1).symm
    · rw [txEncode_none_eq stk buf bufSize hlen h55, Prod.mk.injEq] at h
      have henc := Region.eq_of_store_eq_store (by exact_mod_cast h.2) h.1
      have hitem := Rlp.encode_inj (fits_fieldStrings stk hlen) (fits_item hlen) henc
      rw [tx.item_eq, Item.list.injEq] at hitem
      have hss : fieldStrings stk.value tx = tx.strings :=
        List.map_injective_iff.mpr (fun a b hab => by simpa using hab) hitem
      refine ⟨hss, ?_⟩
      rw [hitems, ← hss]
      exact h55
  · rintro ⟨hss, h55⟩
    have h55' : (fieldBytes stk.value tx).length ≠ 55 := by
      rw [fieldBytes, hss, ← hitems]
      exact h55
    have hrun := txEncode_none_eq stk buf bufSize hlen h55'
    rw [hss, ← tx.item_eq] at hrun
    refine ⟨hrun, ?_⟩
    rw [hrun]
    simp only [Int.toNat_natCast, Region.load_store]
    exact Rlp.decodeBytes_encode (fits_item hlen)

end unsigned

/-- 20 ether to the address `00…00`: the value is `2 * 10 ^ 19`. -/
def transfer20Ether : Transaction where
  nonce := 1
  gasPrice := 1
  gasLimit := 21000
  toAddr := ⟨Vector.replicate 20 0⟩
  value := ⟨⟨0, 0⟩, ⟨1, 0x158e460913d00000⟩⟩
  data := 0
  calldata := []

/-- A transfer of 20 ether is not written canonically: the value is a prefix byte and 28 bytes of the
stack. -/
theorem txEncode_transfer20Ether :
    (transfer20Ether.data = 0 ↔ transfer20Ether.calldata = []) ∧
      transfer20Ether.calldata.length ≤ 65000 ∧
      ¬ WritesCanonical transfer20Ether ⟨fun _ => 0, 0⟩
        (txEncode ⟨fun _ => 0, fun _ => 0, fun _ => 0⟩ transfer20Ether none ⟨fun _ => 0, 0⟩ 1024) := by
  refine ⟨by decide, by decide, ?_⟩
  rintro ⟨h, -⟩
  have hlen := congrArg Prod.snd h
  revert hlen
  decide

/-- A call with two bytes of calldata and the value one wei is written canonically. -/
theorem txEncode_canonical_two_bytes :
    WritesCanonical
      ⟨0, 1, 21000, ⟨Vector.replicate 20 7⟩, ⟨⟨0, 0⟩, ⟨0, 1⟩⟩, 0x2000, [0x12, 0x34]⟩
      ⟨fun _ => 0, 0⟩
      (txEncode ⟨fun _ => 0, fun _ => 0, fun _ => 0⟩
        ⟨0, 1, 21000, ⟨Vector.replicate 20 7⟩, ⟨⟨0, 0⟩, ⟨0, 1⟩⟩, 0x2000, [0x12, 0x34]⟩ none
        ⟨fun _ => 0, 0⟩ 1024) :=
  (txEncode_canonical_iff _ _ _ _ (by decide) (by decide)).mpr
    ⟨Or.inl (by decide), by decide, by decide⟩

/-! ## The signature -/

/-- The canonical items of a signature: `pby + 27`, then the big-endian numbers `r` and `s`. -/
def canonicalSignature (rs : Vector UInt8 32 × Vector UInt8 32 × UInt8) : List Item :=
  [num (rs.2.2.toNat + 27), num (ofBE rs.1.toList), num (ofBE rs.2.1.toList)]

/-- The 32 bytes start with a byte other than zero, or with 24 zero bytes before a palindrome. -/
def SignatureReadsBack (bs : Vector UInt8 32) : Prop :=
  bs.toList.head? ≠ some 0 ∨
    (bs.toList.take 24 = List.replicate 24 0 ∧ (bs.toList.drop 24).reverse = bs.toList.drop 24)

section signed

variable (cr : Crypto) (stk stk' : Stacks) (tx : Transaction) (privkey : Vector UInt8 32)
  (buf : Region) (bufSize : ℕ)

/-- The unsigned encoding, which `tx_encode_sign` signs: the buffer, and the signed bytes. -/
def unsignedTx : Region × List UInt8 :=
  let (buf, len) := txEncode stk tx none buf bufSize
  (buf, buf.load 0 len.toNat)

/-- The locals of the second `tx_encode` before the signature items are written. -/
def beforeSignature : TxOut := txEncodeFields stk'.value tx (unsignedTx stk tx buf bufSize).1

/-- The locals of the second `tx_encode` after the signature items are written. -/
def afterSignature : TxOut :=
  txEncodeSignature stk'.r stk'.s (ethSignData cr privkey (unsignedTx stk tx buf bufSize).2)
    (beforeSignature stk stk' tx buf bufSize)

/-- `tx_encode_sign` writes the fields, then the signature items, then the header. -/
theorem txEncodeSign_eq : txEncodeSign cr stk stk' tx privkey buf bufSize =
    prependHeader (afterSignature cr stk stk' tx privkey buf bufSize) := by
  have hlen : ¬ (txEncode stk tx none buf bufSize).2 < 0 := by
    unfold txEncode prependHeader
    exact not_lt.mpr (Int.natCast_nonneg _)
  rcases h : txEncode stk tx none buf bufSize with ⟨m, len⟩
  rw [h] at hlen
  simp only [txEncodeSign, afterSignature, beforeSignature, unsignedTx, h, if_neg hlen]
  rfl

/-- The bytes appended for the signature are its canonical items, and as long as the lengths fit in
16 bits the bytes returned end with them. -/
def AppendsCanonicalSignature : Prop :=
  let rs := signatureOf cr privkey (unsignedTx stk tx buf bufSize).2
  let st := beforeSignature stk stk' tx buf bufSize
  let st' := afterSignature cr stk stk' tx privkey buf bufSize
  let r := txEncodeSign cr stk stk' tx privkey buf bufSize
  st'.buf.load st.dataP (st'.dataP - st.dataP) = encodeAll (canonicalSignature rs) ∧
    (tx.dataLen ≤ 65000 →
      encodeAll (canonicalSignature rs) <:+ r.1.load 0 r.2.toNat)

end signed

/-- The payload of the signature items. -/
def signatureBytes (stackR stackS : ℕ → UInt8) (sig : Signature) : List UInt8 :=
  (signatureStrings stackR stackS sig).flatMap encodeStr

/-- The signature items are short. -/
theorem length_signatureBytes_le (stackR stackS : ℕ → UInt8) (sig : Signature) :
    (signatureBytes stackR stackS sig).length ≤ 70 := by
  have hv : (beBytes sig.v.toNat).length ≤ 1 :=
    length_beBytes_le_iff.mpr (lt_of_lt_of_eq sig.v.toNat_lt (by norm_num))
  have hr := length_uint256String_le stackR sig.r
  have hs := length_uint256String_le stackS sig.s
  have h1 := length_encodeStr_le (s := beBytes sig.v.toNat) (by omega)
  have h2 := length_encodeStr_le (s := uint256String stackR sig.r) (by omega)
  have h3 := length_encodeStr_le (s := uint256String stackS sig.s) (by omega)
  simp only [signatureBytes, signatureStrings, List.flatMap_cons, List.flatMap_nil,
    List.append_nil, List.length_append]
  omega

/-- **The signature items are stored behind whatever was written before.** -/
theorem txEncodeSignature_eq (stackR stackS : ℕ → UInt8) (sig : Signature) (st : TxOut) :
    txEncodeSignature stackR stackS sig st = st.push (signatureBytes stackR stackS sig) := by
  have hbound := length_signatureBytes_le stackR stackS sig
  simp only [signatureBytes, signatureStrings, List.flatMap_cons, List.flatMap_nil,
    List.append_nil, List.length_append] at hbound ⊢
  simp only [txEncodeSignature]
  rw [TxOut.append_eq_push (fun m p => rlpEncodeInteger_eq m p _) (by simp; omega),
    TxOut.append_eq_push (fun m p => rlpEncodeUint256_eq stackR m p _) (by omega),
    TxOut.append_eq_push (fun m p => rlpEncodeUint256_eq stackS m p _) (by omega)]
  simp [TxOut.push_push]

/-- The strings of the canonical signature. -/
def canonicalStrings (rs : Vector UInt8 32 × Vector UInt8 32 × UInt8) : List (List UInt8) :=
  [beBytes (rs.2.2.toNat + 27), beBytes (ofBE rs.1.toList), beBytes (ofBE rs.2.1.toList)]

/-- The canonical signature is the list of these strings. -/
theorem canonicalSignature_eq (rs : Vector UInt8 32 × Vector UInt8 32 × UInt8) :
    canonicalSignature rs = (canonicalStrings rs).map Item.str := rfl

/-- A number of 32 bytes in memory is written as the big-endian one exactly when it reads back. -/
theorem uint256String_eq_iff_readsBack (stack : ℕ → UInt8) {val : Uint256} {bs : Vector UInt8 32}
    (h : val.image = bs.toList) :
    uint256String stack val = beBytes (ofBE bs.toList) ↔ SignatureReadsBack bs := by
  have hlast : leBytes 8 val.lower.lower.toNat = bs.toList.drop 24 := by
    rw [← h, Uint256.image_eq, ← List.append_assoc, ← List.append_assoc]
    exact (List.drop_left' (by simp)).symm
  rw [← h, uint256String_eq_beBytes_image_iff, h, Uint256.Palindromic, hlast, SignatureReadsBack]

/-- The strings written for a signature are the canonical ones exactly when both halves read
back. -/
theorem signatureStrings_eq_iff (cr : Crypto) (privkey : Vector UInt8 32) (msg : List UInt8)
    (stackR stackS : ℕ → UInt8) (hpby : (signatureOf cr privkey msg).2.2 ≤ 3) :
    signatureStrings stackR stackS (ethSignData cr privkey msg) =
        canonicalStrings (signatureOf cr privkey msg) ↔
      SignatureReadsBack (signatureOf cr privkey msg).1 ∧
        SignatureReadsBack (signatureOf cr privkey msg).2.1 := by
  have hle : (signatureOf cr privkey msg).2.2.toNat ≤ 3 := hpby
  have hv : (ethSignData cr privkey msg).v.toNat = (signatureOf cr privkey msg).2.2.toNat + 27 := by
    rw [ethSignData_v, UInt8.toNat_add]
    simp only [UInt8.reduceToNat]
    omega
  rw [signatureStrings, canonicalStrings, hv]
  simp only [List.cons.injEq, true_and, and_true,
    uint256String_eq_iff_readsBack _ (image_ethSignData_r cr privkey msg),
    uint256String_eq_iff_readsBack _ (image_ethSignData_s cr privkey msg)]

/-- Short strings fit. -/
theorem fits_short {ss : List (List UInt8)} (hlen : ss.length = 3) (h : ∀ s ∈ ss, s.length ≤ 32) :
    Fits (.list (ss.map Item.str)) := by
  obtain ⟨a, b, c, rfl⟩ := List.length_eq_three.mp hlen
  have ha := h a (by simp)
  have hb := h b (by simp)
  have hc := h c (by simp)
  have h1 := length_encodeStr_le (s := a) (by omega)
  have h2 := length_encodeStr_le (s := b) (by omega)
  have h3 := length_encodeStr_le (s := c) (by omega)
  refine Rlp.fits_list_map_str (fun s hs => ?_) ?_
  · have := h s hs
    omega
  · simp only [List.flatMap_cons, List.flatMap_nil, List.append_nil, List.length_append]
    omega

/-- **The signature payload** is the canonical one exactly when both halves read back. -/
theorem signatureBytes_eq_iff (cr : Crypto) (privkey : Vector UInt8 32) (msg : List UInt8)
    (stackR stackS : ℕ → UInt8) (hpby : (signatureOf cr privkey msg).2.2 ≤ 3) :
    signatureBytes stackR stackS (ethSignData cr privkey msg) =
        encodeAll (canonicalSignature (signatureOf cr privkey msg)) ↔
      SignatureReadsBack (signatureOf cr privkey msg).1 ∧
        SignatureReadsBack (signatureOf cr privkey msg).2.1 := by
  rw [← signatureStrings_eq_iff cr privkey msg stackR stackS hpby, signatureBytes,
    ← Rlp.encodeAll_map_str, canonicalSignature_eq]
  constructor
  · intro h
    have hfit : Fits (.list ((signatureStrings stackR stackS
        (ethSignData cr privkey msg)).map Item.str)) := by
      refine fits_short rfl fun s hs => ?_
      simp only [signatureStrings, List.mem_cons, List.not_mem_nil, or_false] at hs
      rcases hs with rfl | rfl | rfl
      · have : (beBytes (ethSignData cr privkey msg).v.toNat).length ≤ 1 :=
          length_beBytes_le_iff.mpr (lt_of_lt_of_eq (UInt8.toNat_lt _) (by norm_num))
        omega
      · exact length_uint256String_le _ _
      · exact length_uint256String_le _ _
    have hfit' : Fits (.list ((canonicalStrings (signatureOf cr privkey msg)).map Item.str)) := by
      have hle : (signatureOf cr privkey msg).2.2.toNat ≤ 3 := hpby
      refine fits_short rfl fun s hs => ?_
      simp only [canonicalStrings, List.mem_cons, List.not_mem_nil, or_false] at hs
      rcases hs with rfl | rfl | rfl
      · exact length_beBytes_le_iff.mpr (lt_of_le_of_lt (Nat.add_le_add_right hle 27) (by norm_num))
      · exact length_beBytes_le_iff.mpr (lt_of_lt_of_eq (ofBE_lt _) (by simp))
      · exact length_beBytes_le_iff.mpr (lt_of_lt_of_eq (ofBE_lt _) (by simp))
    have hitem := Rlp.encode_inj hfit hfit' (by rw [encode, encode, h])
    exact List.map_injective_iff.mpr (fun a b hab => by simpa using hab) (Item.list.inj hitem)
  · intro h
    rw [h]

/-- What is returned ends with the payload that was stored last. -/
theorem suffix_prependHeader (m : Region) {fields sig : List UInt8} (hf : fields ≠ [])
    (hlen : (fields ++ sig).length < 2 ^ 16 - 4) :
    sig <:+ (prependHeader (TxOut.wrote m (fields ++ sig))).1.load 0
      (prependHeader (TxOut.wrote m (fields ++ sig))).2.toNat := by
  by_cases h55 : (fields ++ sig).length = 55
  · obtain ⟨b, fields, rfl⟩ := List.exists_cons_of_ne_nil hf
    have hout : (0xf8 :: 55 :: (fields ++ sig)).length = 56 := by
      simp only [List.cons_append, List.length_cons] at h55 ⊢
      omega
    rw [prependHeader_55 m h55]
    simp only [List.cons_append, List.tail_cons]
    have := Region.load_store m 0 (0xf8 :: 55 :: (fields ++ sig))
    rw [hout] at this
    exact ⟨0xf8 :: 55 :: fields, this.symm⟩
  · rw [prependHeader_eq m (by omega) h55]
    simp only [Int.toNat_natCast, Region.load_store]
    exact ⟨lenPrefix 0xc0 (fields ++ sig).length ++ fields, by rw [List.append_assoc]⟩

/-- **The signature items**: what `tx_encode_sign` appends for the signature is the canonical
`pby + 27`, `r` and `s` if and only if the bytes of `r` and of `s` do not start with a zero byte, or
start with 24 zero bytes before a palindrome. -/
theorem txEncodeSign_signature_iff (cr : Crypto) (stk stk' : Stacks) (tx : Transaction)
    (privkey : Vector UInt8 32) (buf : Region) (bufSize : ℕ)
    (hpby : (signatureOf cr privkey (unsignedTx stk tx buf bufSize).2).2.2 ≤ 3) :
    AppendsCanonicalSignature cr stk stk' tx privkey buf bufSize ↔
      SignatureReadsBack (signatureOf cr privkey (unsignedTx stk tx buf bufSize).2).1 ∧
        SignatureReadsBack (signatureOf cr privkey (unsignedTx stk tx buf bufSize).2).2.1 := by
  have hafter : afterSignature cr stk stk' tx privkey buf bufSize =
      (beforeSignature stk stk' tx buf bufSize).push (signatureBytes stk'.r stk'.s
        (ethSignData cr privkey (unsignedTx stk tx buf bufSize).2)) :=
    txEncodeSignature_eq _ _ _ _
  have hload := Region.load_store (beforeSignature stk stk' tx buf bufSize).buf
    (beforeSignature stk stk' tx buf bufSize).dataP
    (signatureBytes stk'.r stk'.s (ethSignData cr privkey (unsignedTx stk tx buf bufSize).2))
  rw [← signatureBytes_eq_iff cr privkey _ stk'.r stk'.s hpby]
  simp only [AppendsCanonicalSignature, hafter, TxOut.push, Nat.add_sub_cancel_left, hload]
  refine ⟨fun h => h.1, fun h => ⟨h, fun hlen => ?_⟩⟩
  have hfields := length_fieldBytes_le stk'.value hlen
  have hsig := length_signatureBytes_le stk'.r stk'.s
    (ethSignData cr privkey (unsignedTx stk tx buf bufSize).2)
  have hall : (fieldBytes stk'.value tx ++ signatureBytes stk'.r stk'.s
      (ethSignData cr privkey (unsignedTx stk tx buf bufSize).2)).length < 2 ^ 16 - 4 := by
    rw [List.length_append]
    omega
  have hnil : fieldBytes stk'.value tx ≠ [] := by
    have hstr : encodeStr (beBytes tx.nonce.toNat) ≠ [] := Rlp.encode_ne_nil (.str _)
    simp [fieldBytes, fieldStrings, hstr]
  have hbefore : beforeSignature stk stk' tx buf bufSize =
      (⟨(unsignedTx stk tx buf bufSize).1, 0, 0⟩ : TxOut).push (fieldBytes stk'.value tx) := by
    rw [TxOut.push_start _ (by omega)]
    exact txEncodeFields_eq _ _ (by unfold Transaction.dataLen at hlen; omega) (by omega)
  rw [← h, txEncodeSign_eq, hafter, hbefore, TxOut.push_push, TxOut.push_start _ (by omega)]
  exact suffix_prependHeader _ hnil hall

/-- A signer that returns the same bytes for every digest. -/
def constantSigner (r s : Vector UInt8 32) : Crypto where
  keccak256 _ := Vector.replicate 32 0
  ecdsaSignDigest _ _ := (r, s, 0)

/-- The 32 bytes `00 01 01 … 01`. -/
def leadingZero : Vector UInt8 32 := (Vector.replicate 32 1).set 0 0

/-- An `r` with a leading zero byte is written on 32 bytes. -/
theorem txEncodeSign_leadingZero :
    ofBE leadingZero.toList ≠ 0 ∧ ofBE (Vector.replicate 32 1).toList ≠ 0 ∧
      ¬ AppendsCanonicalSignature (constantSigner leadingZero (Vector.replicate 32 1))
        ⟨fun _ => 0, fun _ => 0, fun _ => 0⟩ ⟨fun _ => 0, fun _ => 0, fun _ => 0⟩ transfer20Ether
        (Vector.replicate 32 1) ⟨fun _ => 0, 0⟩ 1024 := by
  refine ⟨by decide, by decide, ?_⟩
  rintro ⟨h, -⟩
  have hlen := congrArg List.length h
  rw [Region.length_load] at hlen
  revert hlen
  decide

/-- An `r` and an `s` of 32 ones are written canonically. -/
theorem txEncodeSign_signature_ones :
    AppendsCanonicalSignature (constantSigner (Vector.replicate 32 1) (Vector.replicate 32 1))
      ⟨fun _ => 0, fun _ => 0, fun _ => 0⟩ ⟨fun _ => 0, fun _ => 0, fun _ => 0⟩ transfer20Ether
      (Vector.replicate 32 1) ⟨fun _ => 0, 0⟩ 1024 :=
  (txEncodeSign_signature_iff _ _ _ _ _ _ _ (by decide)).mpr
    ⟨Or.inl (by decide), Or.inl (by decide)⟩

end AnylWallet.Eth
