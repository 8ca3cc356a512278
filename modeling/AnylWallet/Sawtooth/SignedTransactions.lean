import AnylWallet.Sawtooth.StTransaction

/-!
# Signed transactions read back

* A transaction that `st_sign_tx` has prepared is read back from its encoding with the header that
  was signed (`readsTx_txBytes`, `stEncodeTx_readsBack`): both encoders of a header are given the same
  arguments.
* `stEncodeTxList_readsBack_iff`: the output of `st_encode_tx_list` reads back as the list that was
  signed exactly when the encoding is shorter than 2 ^ 32 bytes. From there on the number that is
  returned is cut to an `int`, and the output ends inside of a transaction or before one.
-/

namespace AnylWallet.Sawtooth

open AnylWallet.Lib AnylWallet.Helpers AnylWallet.Eth

variable (cr : StCrypto) (pb : Nanopb)

/-- A transaction and the data that a successful `st_sign_tx` signed for it. -/
def Prepared (t : StTx × List UInt8) : Prop :=
  ∃ tx privkey buf bufSize, stSignTx cr pb tx privkey buf bufSize = some t

/-- `bytes` is an encoding of the transaction: its header is the data that was signed, with the hash
of the payload in it. -/
def ReadsTx (t : StTx × List UInt8) (bytes : List UInt8) : Prop :=
  ∃ fields header, Proto.parse bytes = some fields ∧
    Proto.singular 1 fields = t.2 ∧
    Proto.singular 2 fields = hexText (t.1.headerSignature.s.toList.take 64) ∧
    Proto.singular 3 fields = t.1.payload.buf ∧
    Proto.parse (Proto.singular 1 fields) = some header ∧
    Proto.singular 9 header = hexText (cr.sha512Raw t.1.payload.buf).toList

/-- `bytes` is an encoding of the transactions, in their order. -/
def ReadsTxList (signed : List (StTx × List UInt8)) (bytes : List UInt8) : Prop :=
  ∃ fields, Proto.parse bytes = some fields ∧
    List.Forall₂ (ReadsTx cr) signed (Proto.repeated 1 fields)

/-- The size of the encoding of a transaction list. -/
def txListSize (txs : List StTx) : ℕ := (Proto.records (txListFields txs)).length

variable {cr pb}

/-! ## The messages -/

/-- The fields of a header have valid numbers. -/
theorem headerFields_number (header : StTxHdr) :
    ∀ f ∈ headerFields header, 0 < f.1 ∧ f.1 < 2 ^ 29 := by
  intro f hf
  simp only [headerFields, List.mem_append, List.mem_singleton, List.mem_map] at hf
  rcases hf with (((((((rfl | ⟨_, -, rfl⟩) | rfl) | rfl) | ⟨_, -, rfl⟩) | rfl) | ⟨_, -, rfl⟩) |
    rfl) | rfl <;> norm_num

/-- The fields of a transaction have valid numbers. -/
theorem txFields_number (tx : StTx) : ∀ f ∈ txFields tx, 0 < f.1 ∧ f.1 < 2 ^ 29 := by
  intro f hf
  simp only [txFields, List.mem_append, List.mem_singleton] at hf
  rcases hf with (rfl | rfl) | rfl <;> norm_num

/-- The fields of a transaction list have valid numbers. -/
theorem txListFields_number (txs : List StTx) :
    ∀ f ∈ txListFields txs, 0 < f.1 ∧ f.1 < 2 ^ 29 := by
  intro f hf
  obtain ⟨tx, -, rfl⟩ := List.mem_map.mp hf
  norm_num

/-- The hash of the payload in a header. -/
theorem singular_headerFields (header : StTxHdr) :
    Proto.singular 9 (Proto.lenFields (headerFields header)) =
      hexText header.payloadSha512.toList := by
  have htake : header.payloadSha512.toList.take 64 = header.payloadSha512.toList :=
    List.take_of_length_le (by simp)
  rw [Proto.singular, Proto.repeated_lenFields]
  simp [headerFields, List.filter_append, List.filter_map, Function.comp_def, htake]

/-- The values of the fields of a transaction. -/
theorem singular_txFields (tx : StTx) :
    Proto.singular 1 (Proto.lenFields (txFields tx)) = headerBytes tx.header ∧
    Proto.singular 2 (Proto.lenFields (txFields tx)) = signatureText tx ∧
    Proto.singular 3 (Proto.lenFields (txFields tx)) = tx.payload.buf := by
  simp [Proto.singular, Proto.repeated_lenFields, txFields]

/-- The transactions of a list. -/
theorem repeated_txListFields (txs : List StTx) :
    Proto.repeated 1 (Proto.lenFields (txListFields txs)) = txs.map txBytes := by
  simp [Proto.repeated_lenFields, txListFields, List.filter_map, Function.comp_def]

/-- A header is shorter than its transaction. -/
theorem length_headerBytes_lt (tx : StTx) :
    (headerBytes tx.header).length < (txBytes tx).length :=
  Proto.length_lt_of_mem (f := (1, headerBytes tx.header)) (by simp [txFields])

/-- A payload is shorter than its transaction. -/
theorem length_payload_lt (tx : StTx) : tx.payload.buf.length < (txBytes tx).length :=
  Proto.length_lt_of_mem (f := (3, tx.payload.buf)) (by simp [txFields])

/-- A transaction is shorter than its list. -/
theorem length_txBytes_lt {tx : StTx} {txs : List StTx} (h : tx ∈ txs) :
    (txBytes tx).length < txListSize txs :=
  Proto.length_lt_of_mem (f := (1, txBytes tx)) (List.mem_map_of_mem h)

/-! ## What was signed -/

section Standard

variable (hpb : pb.Standard)
include hpb

/-- `st_encode_header` writes the bytes of the header. -/
theorem stEncodeHeader_eq {header : StTxHdr} {buf : Region} {bufSize : UInt64} {e : Encoded}
    (he : stEncodeHeader pb header buf bufSize = some e) :
    e = ⟨buf.store 0 (headerBytes header), (headerBytes header).length⟩ ∧
      (headerBytes header).length ≤ bufSize.toNat := by
  obtain ⟨outs, hall, hbytes⟩ := emitsAll_header hpb header
  rw [← hbytes]
  exact stEncode_eq hpb hall he

/-- The output of `st_encode_header` is the header if it is not too long. -/
theorem stEncodeHeader_output {header : StTxHdr} {buf : Region} {bufSize : UInt64} {e : Encoded}
    (he : stEncodeHeader pb header buf bufSize = some e) (hret : 0 < e.ret)
    (hlen : (headerBytes header).length < 2 ^ 32) : e.output = headerBytes header := by
  obtain ⟨rfl, -⟩ := stEncodeHeader_eq hpb he
  rw [Encoded.output_eq_message hret.le hlen]
  exact Region.load_store _ _ _

/-- `st_sign_tx` sets the hash of the payload, and signs the header if it is not too long. -/
theorem Prepared.spec {t : StTx × List UInt8} (h : Prepared cr pb t) :
    t.1.header.payloadSha512 = cr.sha512Raw t.1.payload.buf ∧
      ((headerBytes t.1.header).length < 2 ^ 32 → t.2 = headerBytes t.1.header) := by
  obtain ⟨tx, privkey, buf, bufSize, hsign⟩ := h
  obtain ⟨e, he, hsign⟩ := Option.bind_eq_some_iff.mp hsign
  split_ifs at hsign with hret
  · cases hsign
    have hdata := stEncodeHeader_output hpb he (not_le.mp hret)
    refine ⟨rfl, fun hlen => ?_⟩
    dsimp only at hlen ⊢
    exact hdata hlen

omit hpb in
/-- A header is not empty. -/
theorem length_headerBytes_pos (header : StTxHdr) : 0 < (headerBytes header).length := by
  have := @Proto.length_lt_of_mem (headerFields header)
    (3, header.familyName.text) (by simp [headerFields])
  exact lt_of_le_of_lt (Nat.zero_le _) this

/-- The transaction that `st_sign_tx` leaves, and its header. -/
def signedTx (cr : StCrypto) (tx : StTx) (privkey : StPrivkey) : StTx × List UInt8 :=
  let header := tx.header.setPayloadSha512 (cr.sha512Raw tx.payload.buf)
  ({ tx with
      header := header
      headerSignature := ⟨stSignDataRawsig cr privkey (headerBytes header)⟩ },
    headerBytes header)

/-- `st_sign_tx` succeeds in a buffer with room for the header. -/
theorem stSignTx_of_le (tx : StTx) (privkey : StPrivkey) (buf : Region) (bufSize : UInt64)
    (hlen : (signedTx cr tx privkey).2.length < 2 ^ 31)
    (hsize : (signedTx cr tx privkey).2.length ≤ bufSize.toNat) :
    stSignTx cr pb tx privkey buf bufSize = some (signedTx cr tx privkey) := by
  obtain ⟨outs, hall, hbytes⟩ :=
    emitsAll_header hpb (tx.header.setPayloadSha512 (cr.sha512Raw tx.payload.buf))
  have hpos := length_headerBytes_pos (tx.header.setPayloadSha512 (cr.sha512Raw tx.payload.buf))
  have he := stEncode_of_le hpb hall buf bufSize (by rwa [hbytes])
  rw [hbytes] at he
  refine Option.bind_eq_some_iff.mpr ⟨_, he, ?_⟩
  simp only [signedTx] at hlen ⊢
  simp only [Encoded.ret, sizeToInt_of_lt hlen, Int.toNat_natCast, Region.load_store]
  rw [if_neg (by omega)]
  rfl

/-- **A prepared transaction is read back.** -/
theorem readsTx_txBytes {t : StTx × List UInt8} (h : Prepared cr pb t)
    (hlen : (txBytes t.1).length < 2 ^ 32) : ReadsTx cr t (txBytes t.1) := by
  have hheader := (length_headerBytes_lt t.1).trans hlen
  have hdata := (h.spec hpb).2 hheader
  have hvalid : Proto.Valid (txFields t.1) :=
    Proto.valid_of_length (txFields_number t.1) (hlen.trans (by norm_num))
  have hvalid' : Proto.Valid (headerFields t.1.header) :=
    Proto.valid_of_length (headerFields_number t.1.header) (hheader.trans (by norm_num))
  obtain ⟨h1, h2, h3⟩ := singular_txFields t.1
  refine ⟨_, Proto.lenFields (headerFields t.1.header), Proto.parse_records hvalid,
    h1.trans hdata.symm, h2, h3, ?_, ?_⟩
  · rw [h1]
    exact Proto.parse_records hvalid'
  · rw [singular_headerFields, (h.spec hpb).1]

/-- `st_encode_tx` writes the bytes of the transaction. -/
theorem stEncodeTx_eq {tx : StTx} {buf : Region} {bufSize : UInt64} {e : Encoded}
    (he : stEncodeTx pb tx buf bufSize = some e) :
    e = ⟨buf.store 0 (txBytes tx), (txBytes tx).length⟩ ∧ (txBytes tx).length ≤ bufSize.toNat := by
  rw [txBytes_eq]
  exact stEncode_eq hpb (emitsAll_transaction hpb tx) he

/-- **A prepared transaction is read back from the output of `st_encode_tx`**, if that is shorter than
2 ^ 32 bytes. -/
theorem stEncodeTx_readsBack {t : StTx × List UInt8} (h : Prepared cr pb t) {buf : Region}
    {bufSize : UInt64} {e : Encoded} (he : stEncodeTx pb t.1 buf bufSize = some e) (hret : 0 ≤ e.ret)
    (hlen : (txBytes t.1).length < 2 ^ 32) : ReadsTx cr t e.output := by
  obtain ⟨rfl, -⟩ := stEncodeTx_eq hpb he
  have hmessage : (⟨buf.store 0 (txBytes t.1), (txBytes t.1).length⟩ : Encoded).message =
      txBytes t.1 := Region.load_store _ _ _
  rw [Encoded.output_eq_message hret hlen, hmessage]
  exact readsTx_txBytes hpb h hlen

/-! ## The list -/

/-- `st_encode_tx_list` writes the bytes of the list. -/
theorem stEncodeTxList_eq {txs : List StTx} {buf : Region} {bufSize : UInt64} {e : Encoded}
    (he : stEncodeTxList pb txs buf bufSize = some e) :
    e.message = Proto.records (txListFields txs) ∧ e.bytesWritten = txListSize txs ∧
      Proto.Valid (txListFields txs) := by
  obtain ⟨rfl, hsize⟩ := stEncode_eq hpb (emitsAll_transactionList hpb txs) he
  rw [List.flatten_singleton] at hsize ⊢
  refine ⟨Region.load_store _ _ _, rfl, ?_⟩
  exact Proto.valid_of_length (txListFields_number txs) (lt_of_le_of_lt hsize bufSize.toNat_lt)

/-- A short list of prepared transactions is read back. -/
theorem readsTxList_of_lt {signed : List (StTx × List UInt8)}
    (hsigned : ∀ t ∈ signed, Prepared cr pb t) {buf : Region} {bufSize : UInt64} {e : Encoded}
    (he : stEncodeTxList pb (signed.map Prod.fst) buf bufSize = some e) (hret : 0 ≤ e.ret)
    (hlen : txListSize (signed.map Prod.fst) < 2 ^ 32) : ReadsTxList cr signed e.output := by
  obtain ⟨hmessage, hwritten, hvalid⟩ := stEncodeTxList_eq hpb he
  rw [Encoded.output_eq_message hret (hwritten ▸ hlen), hmessage]
  refine ⟨_, Proto.parse_records hvalid, ?_⟩
  rw [repeated_txListFields, List.map_map, List.forall₂_map_right_iff, List.forall₂_same]
  intro t ht
  exact readsTx_txBytes hpb (hsigned t ht)
    ((length_txBytes_lt (List.mem_map_of_mem ht)).trans hlen)

/-- A list that is too long is not: transactions are missing. -/
theorem not_readsTxList_of_le (signed : List (StTx × List UInt8)) {buf : Region}
    {bufSize : UInt64} {e : Encoded}
    (he : stEncodeTxList pb (signed.map Prod.fst) buf bufSize = some e)
    (hlen : 2 ^ 32 ≤ txListSize (signed.map Prod.fst)) : ¬ ReadsTxList cr signed e.output := by
  obtain ⟨hmessage, hwritten, hvalid⟩ := stEncodeTxList_eq hpb he
  obtain ⟨k, hk, houtput⟩ := Encoded.output_eq_take_lt (hwritten ▸ hlen)
  rintro ⟨fields, hparse, hreads⟩
  rw [houtput, hmessage] at hparse
  rw [hwritten] at hk
  obtain ⟨before, f, after, hsplit, rfl⟩ := Proto.parse_take_records hvalid hk hparse
  have hcount : (Proto.repeated 1 (Proto.lenFields before)).length ≤ before.length := by
    rw [Proto.repeated_lenFields, List.length_map]
    exact List.length_filter_le _ _
  have htotal : signed.length = before.length + (after.length + 1) := by
    have := congrArg List.length hsplit
    simpa [txListFields] using this
  have := hreads.length_eq
  omega

/-- `st_encode_tx_list` succeeds in a buffer with room for the list. -/
theorem stEncodeTxList_of_le (txs : List StTx) (buf : Region) (bufSize : UInt64)
    (hsize : txListSize txs ≤ bufSize.toNat) : stEncodeTxList pb txs buf bufSize =
      some ⟨buf.store 0 (Proto.records (txListFields txs)), txListSize txs⟩ := by
  have hflat : [Proto.records (txListFields txs)].flatten = Proto.records (txListFields txs) :=
    List.flatten_singleton
  have he := stEncode_of_le hpb (emitsAll_transactionList hpb txs) buf bufSize
    (by rwa [hflat])
  rwa [hflat] at he

/-- **A list of prepared transactions is read back from its encoding** exactly when that is shorter
than 2 ^ 32 bytes, as its size comes back as an `int` and is widened again. -/
theorem stEncodeTxList_readsBack_iff (signed : List (StTx × List UInt8))
    (hsigned : ∀ t ∈ signed, Prepared cr pb t) {buf : Region} {bufSize : UInt64} {e : Encoded}
    (he : stEncodeTxList pb (signed.map Prod.fst) buf bufSize = some e) (hret : 0 ≤ e.ret) :
    ReadsTxList cr signed e.output ↔ txListSize (signed.map Prod.fst) < 2 ^ 32 := by
  constructor
  · intro hreads
    by_contra hlen
    exact not_readsTxList_of_le hpb signed he (not_lt.mp hlen) hreads
  · exact readsTxList_of_lt hpb hsigned he hret

end Standard

/-! ## Concrete lists -/

/-- A transaction with empty strings and lists, and a payload. -/
def plainTx (payload : StPayload) : StTx where
  header :=
    { batcherPubkey := zeroPubkey
      dependencies := []
      familyName := ⟨Vector.replicate 17 0, by decide⟩
      familyVersion := ⟨Vector.replicate 5 0, by decide⟩
      inputs := []
      nonce := ⟨Vector.replicate 5 0, by decide⟩
      outputs := []
      payloadSha512 := Vector.replicate 64 0
      signerPubkey := zeroPubkey }
  headerSignature := ⟨Vector.replicate 65 0⟩
  payload := payload

/-- The transaction as it is prepared with the constant hashes. -/
def plainSigned (payload : StPayload) : StTx × List UInt8 :=
  signedTx constantCrypto (plainTx payload) ⟨Vector.replicate 32 0⟩

theorem payload_plainSigned (payload : StPayload) : (plainSigned payload).1.payload = payload := rfl

/-- The length of its header. -/
theorem length_plainSigned (payload : StPayload) : (plainSigned payload).2.length = 338 := by
  have hheader : (plainSigned payload).2 = (plainSigned ⟨[], by norm_num⟩).2 := rfl
  rw [hheader]
  decide +kernel

theorem prepared_plainSigned (payload : StPayload) :
    Prepared constantCrypto Nanopb.reference (plainSigned payload) := by
  have hlen := length_plainSigned payload
  refine ⟨plainTx payload, ⟨Vector.replicate 32 0⟩, ⟨fun _ => 0, 0⟩, 1024, ?_⟩
  exact stSignTx_of_le Nanopb.reference_standard _ _ _ _ (lt_of_eq_of_lt hlen (by norm_num))
    (le_of_eq_of_le hlen (by decide))

/-- The transaction is not much longer than the payload. -/
theorem length_txBytes_plainSigned (payload : StPayload) :
    (txBytes (plainSigned payload).1).length ≤ payload.buf.length + 526 := by
  have hlen : (headerBytes (plainSigned payload).1.header).length = 338 :=
    length_plainSigned payload
  have hheader := Proto.length_record_le 1 (headerBytes (plainSigned payload).1.header)
  have hsignature := Proto.length_record_le 2 (signatureText (plainSigned payload).1)
  have hpayload := Proto.length_record_le 3 (plainSigned payload).1.payload.buf
  have htext : (signatureText (plainSigned payload).1).length = 128 := by
    simp [signatureText, length_hexText]
  have hbytes : (txBytes (plainSigned payload).1).length =
      (Proto.record 1 (headerBytes (plainSigned payload).1.header)).length +
        ((Proto.record 2 (signatureText (plainSigned payload).1)).length +
          (Proto.record 3 (plainSigned payload).1.payload.buf).length) := by
    simp [txBytes_eq]
  rw [payload_plainSigned] at hpayload hbytes
  omega

/-- The list of one such transaction. -/
theorem txListSize_plainSigned (payload : StPayload) :
    txListSize [(plainSigned payload).1] ≤ payload.buf.length + 546 := by
  have htx := length_txBytes_plainSigned payload
  have hrecord := Proto.length_record_le 1 (txBytes (plainSigned payload).1)
  have hlist : txListSize [(plainSigned payload).1] =
      (Proto.record 1 (txBytes (plainSigned payload).1)).length := by
    simp [txListSize, txListFields, Proto.records]
  omega

/-- A payload of three bytes. -/
def shortPayload : StPayload := ⟨[1, 2, 3], by norm_num⟩

/-- `stEncodeTxList_readsBack_iff` on a list of one transaction. -/
theorem stEncodeTxList_readsBack_short :
    ∃ e, stEncodeTxList Nanopb.reference [(plainSigned shortPayload).1] ⟨fun _ => 0, 0⟩ 1024 =
        some e ∧
      (ReadsTxList constantCrypto [plainSigned shortPayload] e.output ↔
        txListSize [(plainSigned shortPayload).1] < 2 ^ 32) := by
  have hsize : txListSize [(plainSigned shortPayload).1] ≤ 549 := txListSize_plainSigned _
  have he := stEncodeTxList_of_le Nanopb.reference_standard [(plainSigned shortPayload).1]
    ⟨fun _ => 0, 0⟩ 1024 (hsize.trans (by decide))
  refine ⟨_, he, stEncodeTxList_readsBack_iff Nanopb.reference_standard
    [plainSigned shortPayload] ?_ he ?_⟩
  · intro t ht
    rw [List.mem_singleton.mp ht]
    exact prepared_plainSigned shortPayload
  · rw [Encoded.ret, sizeToInt_of_lt (lt_of_le_of_lt hsize (by norm_num))]
    exact Int.natCast_nonneg _

/-- With a payload of 2 ^ 32 bytes the list is written and a positive number is returned, and the
output is not the list. -/
theorem not_readsTxList_of_payload {payload : StPayload} (hlen : payload.buf.length = 2 ^ 32) :
    ∃ e, stEncodeTxList Nanopb.reference [(plainSigned payload).1] ⟨fun _ => 0, 0⟩ 8589934592 =
        some e ∧
      0 < e.ret ∧ ¬ ReadsTxList constantCrypto [plainSigned payload] e.output := by
  have hle := txListSize_plainSigned payload
  have hlt : 2 ^ 32 < txListSize [(plainSigned payload).1] := by
    have hpayload := length_payload_lt (plainSigned payload).1
    have htx : (txBytes (plainSigned payload).1).length < txListSize [(plainSigned payload).1] :=
      length_txBytes_lt (List.mem_singleton.mpr rfl)
    rw [payload_plainSigned, hlen] at hpayload
    exact hpayload.trans htx
  rw [hlen] at hle
  have he := stEncodeTxList_of_le Nanopb.reference_standard [(plainSigned payload).1]
    ⟨fun _ => 0, 0⟩ 8589934592 (hle.trans (by simp))
  refine ⟨_, he, ?_, ?_⟩
  · rw [Encoded.ret, sizeToInt_eq]
    dsimp only
    split_ifs <;> omega
  · exact not_readsTxList_of_le Nanopb.reference_standard [plainSigned payload] he hlt.le

/-- A payload of 2 ^ 32 bytes. -/
def longPayload : StPayload := ⟨List.replicate (2 ^ 32) 0, by
  rw [List.length_replicate]
  norm_num⟩

theorem length_longPayload : longPayload.buf.length = 2 ^ 32 := by
  simp only [longPayload, List.length_replicate]

/-- Counterexample: a payload of 2 ^ 32 bytes, in a buffer of 2 ^ 33. -/
theorem stEncodeTxList_long :
    Prepared constantCrypto Nanopb.reference (plainSigned longPayload) ∧
      ∃ e, stEncodeTxList Nanopb.reference [(plainSigned longPayload).1] ⟨fun _ => 0, 0⟩
          8589934592 = some e ∧
        0 < e.ret ∧ ¬ ReadsTxList constantCrypto [plainSigned longPayload] e.output :=
  ⟨prepared_plainSigned longPayload, not_readsTxList_of_payload length_longPayload⟩

end AnylWallet.Sawtooth
