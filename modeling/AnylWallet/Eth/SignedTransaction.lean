import AnylWallet.Eth.Canonical

/-!
# What `tx_encode_sign` returns, read as a whole

* `Transaction.signedItem` is the list of nine items that a node reads: the fields of the
  transaction and the signature of their canonical encoding.
* **A transaction that is written canonically** (`Plain`) is returned as an encoding that decodes to
  these nine items exactly when its signature is `Regular`: `r` and `s` are written as the numbers
  that they denote, and the items do not take 55 bytes together (`txEncodeSign_decodes_iff`).
-/

namespace AnylWallet.Eth

open AnylWallet.Lib AnylWallet.Helpers
open AnylWallet.Lib.Rlp (Item num lenPrefix encode encodeAll encodeStr decodeBytes Fits)

/-! ## The transaction as it is read -/

/-- The transaction as `tx_encode` writes it canonically: see `txEncode_canonical_iff`. -/
structure Transaction.Plain (tx : Transaction) : Prop where
  pointer : tx.data = 0 ↔ tx.calldata = []
  short : tx.calldata.length ≤ 65000
  value : ValueReadsBack tx.value
  zero : tx.calldata ≠ [0x00]
  header : (encodeAll tx.items).length ≠ 55

/-- The signature of the canonical encoding. -/
def Transaction.signature (tx : Transaction) (cr : Crypto) (privkey : Vector UInt8 32) :
    Vector UInt8 32 × Vector UInt8 32 × UInt8 :=
  signatureOf cr privkey (encode tx.item)

/-- The nine items of the signed transaction. -/
def Transaction.signedItems (tx : Transaction) (cr : Crypto) (privkey : Vector UInt8 32) :
    List Item :=
  tx.items ++ canonicalSignature (tx.signature cr privkey)

/-- The signed transaction as an RLP value. -/
def Transaction.signedItem (tx : Transaction) (cr : Crypto) (privkey : Vector UInt8 32) : Item :=
  .list (tx.signedItems cr privkey)

/-- Both halves of the signature read back, and the nine items do not take 55 bytes. -/
def Transaction.Regular (tx : Transaction) (cr : Crypto) (privkey : Vector UInt8 32) : Prop :=
  SignatureReadsBack (tx.signature cr privkey).1 ∧
    SignatureReadsBack (tx.signature cr privkey).2.1 ∧
    (encodeAll (tx.signedItems cr privkey)).length ≠ 55

/-! ## A payload and its header -/

/-- A length of 55 may not stand in a byte of its own. -/
theorem decodeBytes_header_55 (bs : List UInt8) : decodeBytes (0xf8 :: 55 :: bs) = none := by
  have hfuel : 2 * ((0xf8 : UInt8) :: 55 :: bs).length = 2 * bs.length + 3 + 1 := by
    simp only [List.length_cons]
    omega
  have hlength : Rlp.payloadLen ((0xf8 : UInt8).toNat - 0xc0) (55 :: bs) = none := by
    have hsplit : Rlp.split 1 (55 :: bs) = some ([55], bs) := by simp [Rlp.split]
    rw [Rlp.payloadLen, if_neg (by decide)]
    refine (congrArg (Option.bind · _) hsplit).trans ?_
    rw [Option.bind_some]
    exact if_pos (Or.inr (by decide))
  rw [decodeBytes, hfuel, Rlp.decode, if_neg (by decide), if_neg (by decide), hlength]
  rfl

/-- What is read of a payload of fitting strings behind its header. -/
theorem decodeBytes_prependHeader (m : Region) {ss : List (List UInt8)}
    (hfits : Fits (.list (ss.map Item.str)))
    (hlen : (ss.flatMap encodeStr).length < 2 ^ 16 - 3) :
    decodeBytes ((prependHeader (TxOut.wrote m (ss.flatMap encodeStr))).1.load 0
        (prependHeader (TxOut.wrote m (ss.flatMap encodeStr))).2.toNat) =
      if (ss.flatMap encodeStr).length = 55 then none
      else some (.list (ss.map Item.str), []) := by
  split
  · rename_i h55
    have hout : (0xf8 :: 55 :: (ss.flatMap encodeStr).tail).length = 56 := by
      simp only [List.length_cons, List.length_tail, h55]
    have hload := Region.load_store m 0 (0xf8 :: 55 :: (ss.flatMap encodeStr).tail)
    rw [hout] at hload
    rw [prependHeader_55 m h55]
    exact (congrArg decodeBytes hload).trans (decodeBytes_header_55 _)
  · rename_i h55
    rw [prependHeader_eq m hlen h55]
    simp only [Int.toNat_natCast, Region.load_store]
    rw [← Rlp.encodeAll_map_str, ← encode]
    exact Rlp.decodeBytes_encode hfits

/-- What is returned is at most three bytes longer than the payload. -/
theorem prependHeader_le (m : Region) {bs : List UInt8} (hlen : bs.length < 2 ^ 16 - 3) :
    (prependHeader (TxOut.wrote m bs)).2.toNat ≤ bs.length + 3 ∧
      0 < (prependHeader (TxOut.wrote m bs)).2.toNat := by
  by_cases h55 : bs.length = 55
  · rw [prependHeader_55 m h55, h55]
    exact ⟨by norm_num, by norm_num⟩
  · have hbe : (beBytes bs.length).length ≤ 2 := length_beBytes_le_iff.mpr (by omega)
    have hprefix : 0 < (lenPrefix 0xc0 bs.length).length ∧
        (lenPrefix 0xc0 bs.length).length ≤ 3 := by
      refine ⟨List.length_pos_iff.mpr (Rlp.lenPrefix_ne_nil _ _), ?_⟩
      rw [lenPrefix]
      split
      · simp
      · rw [List.length_cons]
        omega
    rw [prependHeader_eq m hlen h55, Int.toNat_natCast, List.length_append]
    omega

/-! ## A plain transaction -/

section

variable (cr : Crypto) (stk stk' : Stacks) {tx : Transaction} (privkey : Vector UInt8 32)
  (buf : Region) (bufSize : ℕ)

/-- The strings that are written for the whole transaction. -/
def Transaction.signedStrings (tx : Transaction) : List (List UInt8) :=
  tx.strings ++ signatureStrings stk'.r stk'.s (ethSignData cr privkey (encode tx.item))

/-- Its fields are written as themselves. -/
theorem Transaction.Plain.fieldStrings_eq (h : tx.Plain) (stack : ℕ → UInt8) :
    fieldStrings stack tx = tx.strings :=
  (fieldStrings_eq_iff stack h.pointer).mpr ⟨h.value, h.zero⟩

/-- The canonical encoding is what is signed. -/
theorem Transaction.Plain.unsignedTx_eq (h : tx.Plain) :
    (unsignedTx stk tx buf bufSize).2 = encode tx.item := by
  obtain ⟨hrun, -⟩ :=
    (txEncode_canonical_iff stk tx buf bufSize h.pointer h.short).mpr ⟨h.value, h.zero, h.header⟩
  rw [unsignedTx, hrun]
  simp only [Int.toNat_natCast, Region.load_store]

/-- The payload that is written behind the header in the end. -/
theorem Transaction.Plain.txEncodeSign_eq (h : tx.Plain) :
    txEncodeSign cr stk stk' tx privkey buf bufSize =
      prependHeader (TxOut.wrote (unsignedTx stk tx buf bufSize).1
        ((tx.signedStrings cr stk' privkey).flatMap encodeStr)) := by
  have hfields := length_fieldBytes_le stk'.value h.short
  have hsig := length_signatureBytes_le stk'.r stk'.s (ethSignData cr privkey (encode tx.item))
  have hbefore : beforeSignature stk stk' tx buf bufSize =
      (⟨(unsignedTx stk tx buf bufSize).1, 0, 0⟩ : TxOut).push (fieldBytes stk'.value tx) := by
    rw [TxOut.push_start _ (by omega)]
    exact txEncodeFields_eq _ _ (by have := h.short; omega) (by omega)
  rw [Eth.txEncodeSign_eq, afterSignature, txEncodeSignature_eq, hbefore, h.unsignedTx_eq,
    TxOut.push_push, TxOut.push_start _ (by rw [List.length_append]; omega),
    Transaction.signedStrings, List.flatMap_append, ← h.fieldStrings_eq stk'.value]
  rfl

/-- The strings fit. -/
theorem Transaction.Plain.fits_signedStrings (h : tx.Plain) :
    ((tx.signedStrings cr stk' privkey).flatMap encodeStr).length ≤ 65170 ∧
      Fits (.list ((tx.signedStrings cr stk' privkey).map Item.str)) := by
  have hfields := length_fieldBytes_le stk'.value h.short
  have hsig := length_signatureBytes_le stk'.r stk'.s (ethSignData cr privkey (encode tx.item))
  have hlength : ((tx.signedStrings cr stk' privkey).flatMap encodeStr).length ≤ 65170 := by
    rw [Transaction.signedStrings, List.flatMap_append, List.length_append,
      ← h.fieldStrings_eq stk'.value]
    exact (Nat.add_le_add hfields hsig).trans (by norm_num)
  exact ⟨hlength, Rlp.fits_of_payload (lt_of_le_of_lt hlength (by norm_num))⟩

/-- The length that is returned. -/
theorem Transaction.Plain.txEncodeSign_le (h : tx.Plain) :
    (txEncodeSign cr stk stk' tx privkey buf bufSize).2.toNat ≤
        (encodeAll tx.items).length + 73 ∧
      0 < (txEncodeSign cr stk stk' tx privkey buf bufSize).2.toNat := by
  obtain ⟨hlength, -⟩ := h.fits_signedStrings cr stk' privkey
  have hsig := length_signatureBytes_le stk'.r stk'.s (ethSignData cr privkey (encode tx.item))
  have hsplit : ((tx.signedStrings cr stk' privkey).flatMap encodeStr).length ≤
      (encodeAll tx.items).length + 70 := by
    rw [Transaction.signedStrings, List.flatMap_append, List.length_append,
      ← Rlp.encodeAll_map_str tx.strings]
    exact Nat.add_le_add_left hsig _
  obtain ⟨hle, hpos⟩ := prependHeader_le (unsignedTx stk tx buf bufSize).1
    (show ((tx.signedStrings cr stk' privkey).flatMap encodeStr).length < 2 ^ 16 - 3 by omega)
  rw [h.txEncodeSign_eq]
  exact ⟨by omega, hpos⟩

/-- **A plain transaction decodes to its nine items** exactly when its signature is regular. -/
theorem Transaction.Plain.txEncodeSign_decodes_iff (h : tx.Plain)
    (hpby : (tx.signature cr privkey).2.2 ≤ 3) :
    decodeBytes ((txEncodeSign cr stk stk' tx privkey buf bufSize).1.load 0
        (txEncodeSign cr stk stk' tx privkey buf bufSize).2.toNat) =
        some (tx.signedItem cr privkey, []) ↔
      tx.Regular cr privkey := by
  obtain ⟨hlength, hfits⟩ := h.fits_signedStrings cr stk' privkey
  have hstrings := signatureStrings_eq_iff cr privkey (encode tx.item) stk'.r stk'.s hpby
  have hitems : tx.signedItems cr privkey =
      (tx.strings ++ canonicalStrings (tx.signature cr privkey)).map Item.str := by
    rw [List.map_append]
    rfl
  have hread := decodeBytes_prependHeader (unsignedTx stk tx buf bufSize).1 hfits (by omega)
  rw [h.txEncodeSign_eq, hread, Transaction.Regular, ← and_assoc]
  refine Iff.trans ?_ (and_congr_left' hstrings)
  rw [Transaction.signedItem, hitems, Rlp.encodeAll_map_str, Transaction.signedStrings]
  constructor
  · intro hsome
    split at hsome
    · cases hsome
    · rename_i h55
      have heq := List.map_injective_iff.mpr (fun a b hab => Item.str.inj hab)
        (Item.list.inj (Prod.mk.inj (Option.some.inj hsome)).1)
      exact ⟨List.append_cancel_left heq, by rwa [← List.append_cancel_left heq]⟩
  · rintro ⟨heq, h55⟩
    rw [Transaction.signature, ← heq] at h55 ⊢
    exact if_neg h55

end

end AnylWallet.Eth
