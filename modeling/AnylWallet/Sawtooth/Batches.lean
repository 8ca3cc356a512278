import AnylWallet.Helpers.Fromstring
import AnylWallet.Sawtooth.SignedTransactions

/-!
# Batches read back

* `stEncodeBatch_eq`: what `st_encode_batch` writes. The header is encoded twice: with the key `{0}`
  for the signature, and with the key of the signer for the batch.
* `stEncodeBatch_ids_iff`: the output lists the transactions of its header exactly when the encoding
  is shorter than 2 ^ 32 bytes, for the same reason as for `st_encode_tx_list`.
* `stEncodeBatch_signature_iff`: `header_signature` is made by `eth_sign_data_rawsig`, of the
  Keccak-256 digest of the header with the key `{0}`. It is the one that `st_sign_data_rawsig` makes
  of the header in the batch exactly when the two digests happen to have the same signature.
-/

namespace AnylWallet.Sawtooth

open AnylWallet.Lib AnylWallet.Helpers AnylWallet.Eth

/-! ## What a batch says -/

/-- The header of the batch has the ids of its transactions, and the key of the signer. -/
def ReadsBatch (signerPubkey : StPubkey) (bytes : List UInt8) : Prop :=
  ∃ fields header transactions, Proto.parse bytes = some fields ∧
    Proto.parse (Proto.singular 1 fields) = some header ∧
    List.Forall₂ (fun bytes tx => Proto.parse bytes = some tx) (Proto.repeated 3 fields)
      transactions ∧
    Proto.repeated 2 header = transactions.map (Proto.singular 2) ∧
    Proto.singular 1 header = hexText signerPubkey.k.toList

/-- The signature in the batch is the one of its header, as `st_sign_tx` signs headers. -/
def BatchSigned (cr : StCrypto) (batcherPrivkey : StPrivkey) (bytes : List UInt8) : Prop :=
  ∃ fields, Proto.parse bytes = some fields ∧
    Proto.singular 2 fields =
      hexText ((stSignDataRawsig cr batcherPrivkey (Proto.singular 1 fields)).toList.take 64)

/-- Two results of `ecdsa_sign_digest` with the same `r` and `s`. -/
def SameSignature (a b : Vector UInt8 32 × Vector UInt8 32 × UInt8) : Prop :=
  a.1 = b.1 ∧ a.2.1 = b.2.1

/-- The size of the encoding of a batch. -/
def batchSize (txs : List StTx) : ℕ :=
  (Proto.records (batchRecords txs zeroPubkey (List.replicate 64 0))).length

/-- The bytes that `st_encode_batch` signs: what is in the buffer after `st_encode_batch_header`, up
to the number that was returned. -/
def signedBatchHeader (txs : List StTx) (buf : Region) : List UInt8 :=
  let header := batchHeaderBytes txs zeroPubkey
  (buf.store 0 header).load 0 (intToSize (sizeToInt header.length))

/-! ## The messages -/

/-- The fields of a batch header have valid numbers. -/
theorem batchHeaderRecords_number (txs : List StTx) (signerPubkey : StPubkey) :
    ∀ f ∈ batchHeaderRecords txs signerPubkey, 0 < f.1 ∧ f.1 < 2 ^ 29 := by
  intro f hf
  simp only [batchHeaderRecords, List.mem_append, List.mem_singleton, List.mem_map] at hf
  rcases hf with rfl | ⟨_, -, rfl⟩ <;> norm_num

/-- The fields of a batch have valid numbers. -/
theorem batchRecords_number (txs : List StTx) (signerPubkey : StPubkey) (signature : List UInt8) :
    ∀ f ∈ batchRecords txs signerPubkey signature, 0 < f.1 ∧ f.1 < 2 ^ 29 := by
  intro f hf
  simp only [batchRecords, List.mem_append, List.mem_singleton, List.mem_map] at hf
  rcases hf with (rfl | rfl) | ⟨_, -, rfl⟩ <;> norm_num

/-- The values of the fields of a batch header. -/
theorem repeated_batchHeaderRecords (txs : List StTx) (signerPubkey : StPubkey) :
    Proto.singular 1 (Proto.lenFields (batchHeaderRecords txs signerPubkey)) =
        hexText signerPubkey.k.toList ∧
      Proto.repeated 2 (Proto.lenFields (batchHeaderRecords txs signerPubkey)) =
        txs.map signatureText := by
  have htake : signerPubkey.k.toList.take 65 = signerPubkey.k.toList :=
    List.take_of_length_le (by simp)
  simp [Proto.singular, Proto.repeated_lenFields, batchHeaderRecords, List.filter_map,
    Function.comp_def, htake]

/-- The values of the fields of a batch. -/
theorem repeated_batchRecords (txs : List StTx) (signerPubkey : StPubkey)
    (signature : List UInt8) :
    Proto.singular 1 (Proto.lenFields (batchRecords txs signerPubkey signature)) =
        batchHeaderBytes txs signerPubkey ∧
      Proto.singular 2 (Proto.lenFields (batchRecords txs signerPubkey signature)) =
        hexText (signature.take 64) ∧
      Proto.repeated 3 (Proto.lenFields (batchRecords txs signerPubkey signature)) =
        txs.map txBytes := by
  simp [Proto.singular, Proto.repeated_lenFields, batchRecords, List.filter_map,
    Function.comp_def]

/-- A record is as long as another one of the same number, with as many bytes. -/
theorem length_record_congr (number : ℕ) {a b : List UInt8} (h : a.length = b.length) :
    (Proto.record number a).length = (Proto.record number b).length := by
  simp [Proto.record, h]

/-- The length of a batch does not depend on the key, or on the signature. -/
theorem length_batchRecords (txs : List StTx) (signerPubkey : StPubkey) {signature : List UInt8}
    (hsignature : 64 ≤ signature.length) :
    (Proto.records (batchRecords txs signerPubkey signature)).length = batchSize txs := by
  have hkey : (hexText (signerPubkey.k.toList.take 65)).length =
      (hexText (zeroPubkey.k.toList.take 65)).length := by simp [length_hexText]
  have hheader : (batchHeaderBytes txs signerPubkey).length =
      (batchHeaderBytes txs zeroPubkey).length := by
    simp [batchHeaderBytes_eq, length_record_congr 1 hkey]
  have htext : (hexText (signature.take 64)).length =
      (hexText ((List.replicate 64 0).take 64)).length := by
    simp [length_hexText, hsignature]
  simp only [batchSize, batchRecords, Proto.records, List.flatMap_append, List.flatMap_cons,
    List.flatMap_nil, List.append_nil, List.length_append, length_record_congr 1 hheader,
    length_record_congr 2 htext]

/-- A batch header is shorter than its batch. -/
theorem length_batchHeaderBytes_lt (txs : List StTx) (signerPubkey : StPubkey)
    (signature : List UInt8) : (batchHeaderBytes txs signerPubkey).length <
      (Proto.records (batchRecords txs signerPubkey signature)).length :=
  Proto.length_lt_of_mem (f := (1, batchHeaderBytes txs signerPubkey)) (by simp [batchRecords])

/-- So is every transaction in it. -/
theorem length_txBytes_lt_batch {tx : StTx} {txs : List StTx} (h : tx ∈ txs)
    (signerPubkey : StPubkey) (signature : List UInt8) : (txBytes tx).length <
      (Proto.records (batchRecords txs signerPubkey signature)).length := by
  refine Proto.length_lt_of_mem (f := (3, txBytes tx)) ?_
  simp only [batchRecords, List.mem_append, List.mem_map]
  exact Or.inr ⟨tx, h, rfl⟩

/-- An empty batch is short. -/
theorem batchSize_nil : batchSize [] < 2 ^ 32 := by decide +kernel

/-! ## What `st_encode_batch` writes -/

section Standard

variable {cr : StCrypto} {pb : Nanopb} (hpb : pb.Standard)
include hpb

/-- `st_encode_batch_header` writes the bytes of the header. -/
theorem stEncodeBatchHeader_eq {txs : List StTx} {signerPubkey : StPubkey} {buf : Region}
    {bufSize : UInt64} {e : Encoded}
    (he : stEncodeBatchHeader pb txs signerPubkey buf bufSize = some e) :
    e = ⟨buf.store 0 (batchHeaderBytes txs signerPubkey),
      (batchHeaderBytes txs signerPubkey).length⟩ := by
  rw [batchHeaderBytes_eq]
  exact (stEncode_eq hpb (emitsAll_batchHeader hpb txs signerPubkey) he).1

omit hpb in
theorem length_ethSignDataRawsig (privkey : StPrivkey) (data : List UInt8) :
    64 ≤ (ethSignDataRawsig cr.toCrypto privkey.k data).length := by
  simp [ethSignDataRawsig]

/-- **What `st_encode_batch` writes.** -/
theorem stEncodeBatch_eq {txs : List StTx} {batcherPrivkey : StPrivkey} {signerPubkey : StPubkey}
    {buf : Region} {bufSize : UInt64} {e : Encoded}
    (he : stEncodeBatch cr pb txs batcherPrivkey signerPubkey buf bufSize = some e) :
    e.message = Proto.records (batchRecords txs signerPubkey
        (ethSignDataRawsig cr.toCrypto batcherPrivkey.k (signedBatchHeader txs buf))) ∧
      e.bytesWritten = batchSize txs ∧ batchSize txs < 2 ^ 64 := by
  obtain ⟨header, hheader, he⟩ := Option.bind_eq_some_iff.mp he
  dsimp only at he
  split_ifs at he
  have hencoded := stEncodeBatchHeader_eq hpb hheader
  have hdata : header.buf.load 0 (intToSize header.ret) = signedBatchHeader txs buf := by
    rw [hencoded]
    rfl
  rw [hdata] at he
  have hlen := @length_ethSignDataRawsig cr batcherPrivkey (signedBatchHeader txs buf)
  obtain ⟨outs, hall, hbytes⟩ := emitsAll_batch hpb txs signerPubkey hlen
  obtain ⟨rfl, hsize⟩ := stEncode_eq hpb hall he
  have hlength := length_batchRecords txs signerPubkey hlen
  rw [hbytes] at hsize ⊢
  refine ⟨Region.load_store _ _ _, hlength, ?_⟩
  rw [← hlength]
  exact lt_of_le_of_lt hsize bufSize.toNat_lt

omit hpb in
/-- Once the header has been encoded, the batch is. -/
theorem stEncodeBatch_of_header {txs : List StTx} {buf : Region} {bufSize : UInt64}
    {header : Encoded} (hheader : stEncodeBatchHeader pb txs zeroPubkey buf bufSize = some header)
    (hpos : 0 < intToSize header.ret) (hlt : intToSize header.ret < bufSize.toNat)
    (batcherPrivkey : StPrivkey) (signerPubkey : StPubkey) :
    stEncodeBatch cr pb txs batcherPrivkey signerPubkey buf bufSize =
      stEncode pb (batchFields pb ⟨⟨txs, signerPubkey⟩,
        ethSignDataRawsig cr.toCrypto batcherPrivkey.k
          (header.buf.load 0 (intToSize header.ret)), txs⟩) header.buf bufSize := by
  have hbind : stEncodeBatch cr pb txs batcherPrivkey signerPubkey buf bufSize =
      (stEncodeBatchHeader pb txs zeroPubkey buf bufSize).bind fun encoded =>
        if intToSize encoded.ret = 0 then none
        else if intToSize encoded.ret ≥ bufSize.toNat then none
        else stEncode pb (batchFields pb ⟨⟨txs, signerPubkey⟩,
          ethSignDataRawsig cr.toCrypto batcherPrivkey.k
            (encoded.buf.load 0 (intToSize encoded.ret)), txs⟩) encoded.buf bufSize := rfl
  rw [hbind, hheader, Option.bind_some, if_neg hpos.ne', if_neg (not_le.mpr hlt)]

/-- `st_encode_batch` succeeds in a buffer with room for the batch. -/
theorem stEncodeBatch_of_le (txs : List StTx) (batcherPrivkey : StPrivkey)
    (signerPubkey : StPubkey) (buf : Region) (bufSize : UInt64)
    (hlen : (batchHeaderBytes txs zeroPubkey).length < 2 ^ 31)
    (hsize : batchSize txs ≤ bufSize.toNat) :
    ∃ e, stEncodeBatch cr pb txs batcherPrivkey signerPubkey buf bufSize = some e := by
  have hlt : (batchHeaderBytes txs zeroPubkey).length < batchSize txs :=
    length_batchHeaderBytes_lt txs zeroPubkey (List.replicate 64 0)
  have hpos : 0 < (batchHeaderBytes txs zeroPubkey).length := by
    refine lt_of_le_of_lt (Nat.zero_le _) (@Proto.length_lt_of_mem
      (batchHeaderRecords txs zeroPubkey) (1, hexText (zeroPubkey.k.toList.take 65)) ?_)
    simp [batchHeaderRecords]
  obtain ⟨header, hheader, hret⟩ : ∃ header,
      stEncodeBatchHeader pb txs zeroPubkey buf bufSize = some header ∧
        intToSize header.ret = (batchHeaderBytes txs zeroPubkey).length := by
    have hfits := hlt.le.trans hsize
    rw [batchHeaderBytes_eq] at hfits
    refine ⟨_, stEncode_of_le hpb (emitsAll_batchHeader hpb txs zeroPubkey) buf bufSize hfits, ?_⟩
    rw [← batchHeaderBytes_eq]
    exact intToSize_sizeToInt hlen
  rw [stEncodeBatch_of_header hheader (by rw [hret]; exact hpos)
    (by rw [hret]; exact hlt.trans_le hsize)]
  obtain ⟨outs, hall, hbytes⟩ := emitsAll_batch hpb txs signerPubkey (length_ethSignDataRawsig _ _)
  refine ⟨_, stEncode_of_le hpb hall _ bufSize ?_⟩
  rw [hbytes, length_batchRecords txs signerPubkey (length_ethSignDataRawsig _ _)]
  exact hsize

/-! ## The transactions of the header -/

/-- A short batch lists its transactions. -/
theorem readsBatch_of_lt {txs : List StTx} {batcherPrivkey : StPrivkey} {signerPubkey : StPubkey}
    {buf : Region} {bufSize : UInt64} {e : Encoded}
    (he : stEncodeBatch cr pb txs batcherPrivkey signerPubkey buf bufSize = some e)
    (hret : 0 ≤ e.ret) (hlen : batchSize txs < 2 ^ 32) : ReadsBatch signerPubkey e.output := by
  obtain ⟨hmessage, hwritten, -⟩ := stEncodeBatch_eq hpb he
  rw [Encoded.output_eq_message hret (hwritten ▸ hlen), hmessage]
  have hlength := length_batchRecords txs signerPubkey
    (@length_ethSignDataRawsig cr batcherPrivkey (signedBatchHeader txs buf))
  generalize ethSignDataRawsig cr.toCrypto batcherPrivkey.k (signedBatchHeader txs buf) =
    signature at hlength ⊢
  have hvalid : Proto.Valid (batchRecords txs signerPubkey signature) :=
    Proto.valid_of_length (batchRecords_number txs signerPubkey signature) (by omega)
  have hheader := length_batchHeaderBytes_lt txs signerPubkey signature
  have hvalid' : Proto.Valid (batchHeaderRecords txs signerPubkey) :=
    Proto.valid_of_length (batchHeaderRecords_number txs signerPubkey)
      (hheader.trans (by omega))
  obtain ⟨h1, -, h3⟩ := repeated_batchRecords txs signerPubkey signature
  obtain ⟨hkey, hids⟩ := repeated_batchHeaderRecords txs signerPubkey
  refine ⟨_, Proto.lenFields (batchHeaderRecords txs signerPubkey),
    txs.map fun tx => Proto.lenFields (txFields tx), Proto.parse_records hvalid, ?_, ?_, ?_, hkey⟩
  · rw [h1]
    exact Proto.parse_records hvalid'
  · rw [h3, List.forall₂_map_left_iff, List.forall₂_map_right_iff, List.forall₂_same]
    intro tx htx
    have htx := length_txBytes_lt_batch htx signerPubkey signature
    exact Proto.parse_records (Proto.valid_of_length (txFields_number tx) (htx.trans (by omega)))
  · rw [hids, List.map_map]
    exact List.map_congr_left fun tx _ => (singular_txFields tx).2.1.symm

omit hpb in
/-- A header in the batch that is read back has as many ids as there are transactions. -/
theorem length_of_readsBatch {txs : List StTx} {signerPubkey : StPubkey}
    {fields header : List Proto.Field} {transactions : List (List Proto.Field)}
    (hlen : (batchHeaderBytes txs signerPubkey).length < 2 ^ 64)
    (hfields : Proto.singular 1 fields = batchHeaderBytes txs signerPubkey)
    (hheader : Proto.parse (Proto.singular 1 fields) = some header)
    (htransactions : List.Forall₂ (fun bytes tx => Proto.parse bytes = some tx)
      (Proto.repeated 3 fields) transactions)
    (hids : Proto.repeated 2 header = transactions.map (Proto.singular 2)) :
    (Proto.repeated 3 fields).length = txs.length := by
  have hvalid : Proto.Valid (batchHeaderRecords txs signerPubkey) :=
    Proto.valid_of_length (batchHeaderRecords_number txs signerPubkey) hlen
  have hparse : Proto.parse (batchHeaderBytes txs signerPubkey) = _ := Proto.parse_records hvalid
  rw [hfields, hparse] at hheader
  cases hheader
  rw [(repeated_batchHeaderRecords txs signerPubkey).2] at hids
  have := congrArg List.length hids
  rw [List.length_map, List.length_map] at this
  rw [htransactions.length_eq, this]

omit hpb in
/-- A part of a long batch that is cut does not list the transactions of its header. -/
theorem not_readsBatch_take {txs : List StTx} {signerPubkey : StPubkey} {signature : List UInt8}
    (hlen : 2 ^ 32 ≤ batchSize txs)
    (hsize : (Proto.records (batchRecords txs signerPubkey signature)).length < 2 ^ 64) {k : ℕ}
    (hk : k < (Proto.records (batchRecords txs signerPubkey signature)).length) :
    ¬ ReadsBatch signerPubkey ((Proto.records (batchRecords txs signerPubkey signature)).take k) := by
  rintro ⟨fields, header, transactions, hparse, hheader, htransactions, hids, hkey⟩
  have hvalid : Proto.Valid (batchRecords txs signerPubkey signature) :=
    Proto.valid_of_length (batchRecords_number txs signerPubkey signature) hsize
  have hheaderSize := (length_batchHeaderBytes_lt txs signerPubkey signature).trans hsize
  obtain ⟨before, f, after, hsplit, rfl⟩ := Proto.parse_take_records hvalid hk hparse
  rcases before with _ | ⟨x, _ | ⟨y, before⟩⟩
  · -- no header, and so no key
    cases hheader
    have := congrArg List.length hkey
    simp [length_hexText, Proto.singular, Proto.repeated] at this
  · -- the header without a transaction, and the batch would have to be empty
    simp only [batchRecords, List.cons_append, List.nil_append, List.cons.injEq] at hsplit
    obtain ⟨rfl, rfl, -⟩ := hsplit
    have hcount := length_of_readsBatch hheaderSize (by simp [Proto.singular,
      Proto.repeated_lenFields]) hheader htransactions hids
    have hnil : txs = [] := by
      rw [← List.length_eq_zero_iff, ← hcount]
      simp [Proto.repeated_lenFields]
    rw [hnil] at hlen
    exact absurd batchSize_nil (not_lt.mpr hlen)
  · -- a transaction is missing
    simp only [batchRecords, List.cons_append, List.nil_append, List.cons.injEq] at hsplit
    obtain ⟨rfl, rfl, hrest⟩ := hsplit
    have hbefore : ∀ f ∈ before, f.1 = 3 := by
      intro f hf
      have hmem : f ∈ txs.map fun tx => (3, txBytes tx) := by
        rw [hrest]
        exact List.mem_append_left _ hf
      obtain ⟨tx, -, rfl⟩ := List.mem_map.mp hmem
      rfl
    have hcount := length_of_readsBatch hheaderSize (by
      have hnone : before.filter (fun f => f.1 == 1) = [] := by
        rw [List.filter_eq_nil_iff]
        intro f hf
        simp [hbefore f hf]
      simp [Proto.singular, Proto.repeated_lenFields, hnone]) hheader htransactions hids
    have hall : before.filter (fun f => f.1 == 3) = before := by
      rw [List.filter_eq_self]
      intro f hf
      simp [hbefore f hf]
    have htotal := congrArg List.length hrest
    simp [Proto.repeated_lenFields, hall] at hcount htotal
    omega

/-- A batch that is too long does not list them. -/
theorem not_readsBatch_of_le {txs : List StTx} {batcherPrivkey : StPrivkey}
    {signerPubkey : StPubkey} {buf : Region} {bufSize : UInt64} {e : Encoded}
    (he : stEncodeBatch cr pb txs batcherPrivkey signerPubkey buf bufSize = some e)
    (hlen : 2 ^ 32 ≤ batchSize txs) : ¬ ReadsBatch signerPubkey e.output := by
  obtain ⟨hmessage, hwritten, hsize⟩ := stEncodeBatch_eq hpb he
  obtain ⟨k, hk, houtput⟩ := Encoded.output_eq_take_lt (hwritten ▸ hlen)
  have hlength := length_batchRecords txs signerPubkey
    (@length_ethSignDataRawsig cr batcherPrivkey (signedBatchHeader txs buf))
  rw [houtput, hmessage]
  exact not_readsBatch_take hlen (by rwa [hlength]) (by rwa [hlength, ← hwritten])

/-- **The batch lists the transactions of its header** exactly when its encoding is shorter than 2 ^
32 bytes. A longer one is cut: its size comes back as an `int`, and what is left of the bytes does
not list them. -/
theorem stEncodeBatch_ids_iff {txs : List StTx} {batcherPrivkey : StPrivkey}
    {signerPubkey : StPubkey} {buf : Region} {bufSize : UInt64} {e : Encoded}
    (he : stEncodeBatch cr pb txs batcherPrivkey signerPubkey buf bufSize = some e)
    (hret : 0 ≤ e.ret) : ReadsBatch signerPubkey e.output ↔ batchSize txs < 2 ^ 32 := by
  constructor
  · intro hreads
    by_contra hlen
    exact not_readsBatch_of_le hpb he (not_lt.mp hlen) hreads
  · exact readsBatch_of_lt hpb he hret

/-! ## The signature -/

omit hpb in
/-- The 64 bytes of a signature are `r` and `s`. -/
theorem take_ethSignDataRawsig (privkey : StPrivkey) (data : List UInt8) :
    (ethSignDataRawsig cr.toCrypto privkey.k data).take 64 =
      (cr.ecdsaSignDigest privkey.k (cr.keccak256 data)).1.toList ++
        (cr.ecdsaSignDigest privkey.k (cr.keccak256 data)).2.1.toList :=
  List.take_left' (by simp)

omit hpb in
theorem take_stSignDataRawsig (privkey : StPrivkey) (data : List UInt8) :
    (stSignDataRawsig cr privkey data).toList.take 64 =
      (cr.ecdsaSignDigest privkey.k (cr.sha256Raw data)).1.toList ++
        (cr.ecdsaSignDigest privkey.k (cr.sha256Raw data)).2.1.toList := by
  simp only [stSignDataRawsig, Vector.toList_append]
  exact List.take_left' (by simp)

omit hpb in
/-- Two signatures are the same when their digits are. -/
theorem hexText_signature_eq_iff (a b : Vector UInt8 32 × Vector UInt8 32 × UInt8) :
    hexText (a.1.toList ++ a.2.1.toList) = hexText (b.1.toList ++ b.2.1.toList) ↔
      SameSignature a b := by
  rw [hexText_injective.eq_iff]
  constructor
  · intro h
    obtain ⟨hr, hs⟩ := List.append_inj h (by simp)
    exact ⟨Vector.toList_inj.mp hr, Vector.toList_inj.mp hs⟩
  · rintro ⟨hr, hs⟩
    rw [hr, hs]

omit hpb in
/-- The signature in a batch, and the one of the header in it. -/
theorem batchSigned_iff {txs : List StTx} {batcherPrivkey : StPrivkey} {signerPubkey : StPubkey}
    {data : List UInt8} (hsize : batchSize txs < 2 ^ 64) :
    BatchSigned cr batcherPrivkey (Proto.records (batchRecords txs signerPubkey
        (ethSignDataRawsig cr.toCrypto batcherPrivkey.k data))) ↔
      SameSignature (cr.ecdsaSignDigest batcherPrivkey.k (cr.keccak256 data))
        (cr.ecdsaSignDigest batcherPrivkey.k
          (cr.sha256Raw (batchHeaderBytes txs signerPubkey))) := by
  have hlength := length_batchRecords txs signerPubkey
    (@length_ethSignDataRawsig cr batcherPrivkey data)
  have hvalid := Proto.valid_of_length (batchRecords_number txs signerPubkey _)
    (lt_of_eq_of_lt hlength hsize)
  have hparse := Proto.parse_records hvalid
  obtain ⟨h1, h2, -⟩ := repeated_batchRecords txs signerPubkey
    (ethSignDataRawsig cr.toCrypto batcherPrivkey.k data)
  rw [take_ethSignDataRawsig] at h2
  rw [← hexText_signature_eq_iff, ← take_stSignDataRawsig]
  constructor
  · rintro ⟨fields, hfields, hsignature⟩
    rw [hparse] at hfields
    cases hfields
    rwa [h1, h2] at hsignature
  · intro hsignature
    refine ⟨_, hparse, ?_⟩
    rwa [h1, h2]

/-- **The signature of the batch is the one of its header** exactly when the Keccak-256 digest of
the header with the key `{0}` and the SHA-256 digest of the header in the batch have the same
signature. -/
theorem stEncodeBatch_signature_iff {txs : List StTx} {batcherPrivkey : StPrivkey}
    {signerPubkey : StPubkey} {buf : Region} {bufSize : UInt64} {e : Encoded}
    (he : stEncodeBatch cr pb txs batcherPrivkey signerPubkey buf bufSize = some e) :
    BatchSigned cr batcherPrivkey e.message ↔
      SameSignature
        (cr.ecdsaSignDigest batcherPrivkey.k (cr.keccak256 (signedBatchHeader txs buf)))
        (cr.ecdsaSignDigest batcherPrivkey.k
          (cr.sha256Raw (batchHeaderBytes txs signerPubkey))) := by
  obtain ⟨hmessage, -, hsize⟩ := stEncodeBatch_eq hpb he
  rw [hmessage]
  exact batchSigned_iff hsize

end Standard

/-! ## Concrete batches -/

/-- The header of a batch of one transaction. -/
theorem length_batchHeaderBytes_plain (payload : StPayload) :
    (batchHeaderBytes [(plainSigned payload).1] zeroPubkey).length ≤ 298 := by
  have hkey := Proto.length_record_le 1 (hexText (zeroPubkey.k.toList.take 65))
  have hid := Proto.length_record_le 2 (signatureText (plainSigned payload).1)
  have hkeyText : (hexText (zeroPubkey.k.toList.take 65)).length = 130 := by simp [length_hexText]
  have htext : (signatureText (plainSigned payload).1).length = 128 := by
    simp [signatureText, length_hexText]
  have hbytes : (batchHeaderBytes [(plainSigned payload).1] zeroPubkey).length =
      (Proto.record 1 (hexText (zeroPubkey.k.toList.take 65))).length +
        (Proto.record 2 (signatureText (plainSigned payload).1)).length := by
    simp [batchHeaderBytes_eq, Proto.records]
  omega

/-- Such a batch is not much longer than the payload. -/
theorem batchSize_plain (payload : StPayload) :
    batchSize [(plainSigned payload).1] ≤ payload.buf.length + 1012 := by
  have hheader := length_batchHeaderBytes_plain payload
  have htx := length_txBytes_plainSigned payload
  have h1 := Proto.length_record_le 1 (batchHeaderBytes [(plainSigned payload).1] zeroPubkey)
  have h2 := Proto.length_record_le 2 (hexText ((List.replicate 64 0).take 64))
  have h3 := Proto.length_record_le 3 (txBytes (plainSigned payload).1)
  have htext : (hexText ((List.replicate 64 0).take 64)).length = 128 := by simp [length_hexText]
  have hbytes : batchSize [(plainSigned payload).1] =
      (Proto.record 1 (batchHeaderBytes [(plainSigned payload).1] zeroPubkey)).length +
        ((Proto.record 2 (hexText ((List.replicate 64 0).take 64))).length +
          (Proto.record 3 (txBytes (plainSigned payload).1)).length) := by
    simp [batchSize, batchRecords, Proto.records]
  omega

/-- The batch of one transaction with a payload of at most 2 ^ 32 bytes, in a buffer of 2 ^ 33. -/
def encodePlainBatch (payload : StPayload) : Option Encoded :=
  stEncodeBatch constantCrypto Nanopb.reference [(plainSigned payload).1]
    ⟨Vector.replicate 32 0⟩ ⟨Vector.replicate 65 4⟩ ⟨fun _ => 0, 0⟩ 8589934592

/-- It is encoded. -/
theorem exists_encodePlainBatch {payload : StPayload} (hlen : payload.buf.length ≤ 2 ^ 32) :
    ∃ e, encodePlainBatch payload = some e := by
  have hsize := batchSize_plain payload
  refine stEncodeBatch_of_le Nanopb.reference_standard _ _ _ _ _
    (lt_of_le_of_lt (length_batchHeaderBytes_plain payload) (by norm_num)) (hsize.trans ?_)
  simp only [UInt64.reduceToNat]
  omega

/-- A short batch returns a positive number. -/
theorem ret_encodePlainBatch {payload : StPayload} (hlen : payload.buf.length < 2 ^ 30)
    {e : Encoded} (he : encodePlainBatch payload = some e) : 0 ≤ e.ret := by
  have hsize := batchSize_plain payload
  have hwritten := (stEncodeBatch_eq Nanopb.reference_standard he).2.1
  rw [Encoded.ret, hwritten, sizeToInt_of_lt (lt_of_le_of_lt hsize (by omega))]
  exact Int.natCast_nonneg _

theorem length_shortPayload : shortPayload.buf.length = 3 := rfl

/-- `stEncodeBatch_ids_iff` on a batch of one transaction. -/
theorem stEncodeBatch_ids_short : ∃ e, encodePlainBatch shortPayload = some e ∧
    (ReadsBatch ⟨Vector.replicate 65 4⟩ e.output ↔
      batchSize [(plainSigned shortPayload).1] < 2 ^ 32) := by
  obtain ⟨e, he⟩ := @exists_encodePlainBatch shortPayload (by rw [length_shortPayload]; norm_num)
  have hret := ret_encodePlainBatch (by rw [length_shortPayload]; norm_num) he
  exact ⟨e, he, stEncodeBatch_ids_iff Nanopb.reference_standard he hret⟩

/-- With a payload of 2 ^ 32 bytes a positive number is returned, and the output does not list the
transaction of its header. -/
theorem not_readsBatch_of_payload {payload : StPayload} (hlen : payload.buf.length = 2 ^ 32) :
    ∃ e, encodePlainBatch payload = some e ∧ 0 < e.ret ∧
      ¬ ReadsBatch ⟨Vector.replicate 65 4⟩ e.output := by
  obtain ⟨e, he⟩ := @exists_encodePlainBatch payload hlen.le
  have hle := batchSize_plain payload
  have hlt : 2 ^ 32 < batchSize [(plainSigned payload).1] := by
    have hpayload := length_payload_lt (plainSigned payload).1
    have htx : (txBytes (plainSigned payload).1).length < batchSize [(plainSigned payload).1] :=
      length_txBytes_lt_batch (List.mem_singleton.mpr rfl) zeroPubkey (List.replicate 64 0)
    rw [payload_plainSigned, hlen] at hpayload
    exact hpayload.trans htx
  have hwritten := (stEncodeBatch_eq Nanopb.reference_standard he).2.1
  refine ⟨e, he, ?_, not_readsBatch_of_le Nanopb.reference_standard he hlt.le⟩
  rw [Encoded.ret, hwritten, sizeToInt_eq]
  split_ifs <;> omega

/-- Counterexample: a payload of 2 ^ 32 bytes. -/
theorem stEncodeBatch_ids_long : ∃ e, encodePlainBatch longPayload = some e ∧ 0 < e.ret ∧
    ¬ ReadsBatch ⟨Vector.replicate 65 4⟩ e.output :=
  not_readsBatch_of_payload length_longPayload

/-- `stEncodeBatch_signature_iff` on a batch of one transaction. -/
theorem stEncodeBatch_signature_short : ∃ e, encodePlainBatch shortPayload = some e ∧
    (BatchSigned constantCrypto ⟨Vector.replicate 32 0⟩ e.message ↔
      SameSignature
        (Vector.replicate 32 0, Vector.replicate 32 0, 0)
        (Vector.replicate 32 1, Vector.replicate 32 1, 0)) := by
  obtain ⟨e, he⟩ := @exists_encodePlainBatch shortPayload (by rw [length_shortPayload]; norm_num)
  exact ⟨e, he, stEncodeBatch_signature_iff Nanopb.reference_standard he⟩

/-- Counterexample: hash functions that differ, and the batch of one transaction with a payload of
three bytes. -/
theorem stEncodeBatch_not_signed : ∃ e, encodePlainBatch shortPayload = some e ∧ 0 ≤ e.ret ∧
    ¬ BatchSigned constantCrypto ⟨Vector.replicate 32 0⟩ e.message := by
  obtain ⟨e, he⟩ := @exists_encodePlainBatch shortPayload (by rw [length_shortPayload]; norm_num)
  have hret := ret_encodePlainBatch (by rw [length_shortPayload]; norm_num) he
  obtain ⟨hmessage, -, hsize⟩ := stEncodeBatch_eq Nanopb.reference_standard he
  refine ⟨e, he, hret, ?_⟩
  rw [hmessage, batchSigned_iff hsize]
  rintro ⟨hr, -⟩
  exact absurd hr (by decide)

end AnylWallet.Sawtooth
