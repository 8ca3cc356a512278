import AnylWallet.Helpers.Hextobin
import AnylWallet.Sawtooth.Nanopb

/-!
# `sawtooth/encoders`: the callbacks of the messages

* Every callback follows the source: `none` is a result of `false`. Byte strings are written as hex
  digits, the length before the digits.
* The `..Fields` of a message give what its callbacks write, as length-delimited fields in the order
  of their numbers, and `emitsAll_..` says that they do. A header is the same bytes wherever it is
  encoded (`headerBytes`).
* Of an input or output address only the first three bytes are written, of the batcher's key the
  first 33.
-/

namespace AnylWallet.Sawtooth

open AnylWallet.Lib AnylWallet.Helpers

/-! ## The structures -/

/-- `st_pubkey_t`. Source: `sawtooth/st_transaction.h` -/
structure StPubkey where
  k : Vector UInt8 65

/-- `st_address_t`. Source: `sawtooth/st_transaction.h` -/
structure StAddress where
  a : Vector UInt8 35

/-- `st_signature_t`. Source: `sawtooth/st_transaction.h` -/
structure StSignature where
  s : Vector UInt8 65

/-- `st_payload_t`: the `size` bytes at `buf`. Source: `sawtooth/st_transaction.h` -/
structure StPayload where
  buf : List UInt8
  /-- `size` is a `size_t`. -/
  size_lt : buf.length < 2 ^ 64

/-- `st_privkey_t`. Source: `sawtooth/st_transaction.h` -/
structure StPrivkey where
  k : Vector UInt8 32

/-- A character array of `n` bytes with a NUL in it. -/
structure CString (n : ℕ) where
  bytes : Vector UInt8 n
  terminated : 0 ∈ bytes.toList

/-- The characters before the NUL. -/
def CString.text {n : ℕ} (s : CString n) : List UInt8 := s.bytes.toList.takeWhile (· ≠ 0)

/-- `st_tx_hdr_t`. Source: `sawtooth/st_transaction.h` -/
structure StTxHdr where
  batcherPubkey : StPubkey
  dependencies : List StAddress
  familyName : CString 17
  familyVersion : CString 5
  inputs : List StAddress
  nonce : CString 5
  outputs : List StAddress
  payloadSha512 : Vector UInt8 64
  signerPubkey : StPubkey

/-- `st_tx_t`. Source: `sawtooth/st_transaction.h` -/
structure StTx where
  header : StTxHdr
  headerSignature : StSignature
  payload : StPayload

/-- `st_batch_hdr_data_t`. Source: `sawtooth/st_transaction.h` -/
structure StBatchHdrData where
  txLst : List StTx
  signerPubkey : StPubkey

/-! ## The callbacks -/

section Callbacks

variable (pb : Nanopb)

/-- The body of the loop of `PB_WRITE_BYTES`: the two digits of a byte. `outBuf` is the memory of
`out_buf`. Source: `sawtooth/encoders.c` -/
def pbWriteHexByte (outBuf : Region) (stream : pb.Stream) (b : UInt8) : Option pb.Stream :=
  let (outBuf, _) := bintohexNonull [b] outBuf 0 2
  pb.pbWrite stream (outBuf.load 0 2)

/-- `PB_WRITE_BYTES(x)`: the hex digits of the first `x` bytes at `arg`.
Source: `sawtooth/encoders.c` -/
def pbWriteBytes (x : ℕ) (stream : pb.Stream) (field : PbField) (arg : List UInt8) :
    Option pb.Stream := do
  let stream ← pb.pbEncodeTagForField stream field
  let stream ← pb.pbEncodeVarint stream (UInt64.ofNat x * 2)
  (arg.take x).foldlM (pbWriteHexByte pb ⟨fun _ => 0, 0⟩) stream

/-- `write_bytes_64`. Source: `sawtooth/encoders.c` -/
def writeBytes64 := pbWriteBytes pb 64

/-- `write_bytes_35`. Source: `sawtooth/encoders.c` -/
def writeBytes35 := pbWriteBytes pb 35

/-- `write_bytes_33`. Source: `sawtooth/encoders.c` -/
def writeBytes33 := pbWriteBytes pb 33

/-- `write_bytes_3`. Source: `sawtooth/encoders.c` -/
def writeBytes3 := pbWriteBytes pb 3

/-- `write_pubkey`, which is `write_bytes_65`. Source: `sawtooth/encoders.c` -/
def writePubkey := pbWriteBytes pb 65

/-- `write_string`; `arg` is the text before the NUL, or `NULL`. Source: `sawtooth/encoders.c` -/
def writeString (stream : pb.Stream) (field : PbField) (arg : Option (List UInt8)) :
    Option pb.Stream :=
  match arg with
  | none => some stream
  | some text => do
      let stream ← pb.pbEncodeTagForField stream field
      pb.pbEncodeString stream text

/-- `write_address_list`. Source: `sawtooth/encoders.c` -/
def writeAddressList (stream : pb.Stream) (field : PbField) (lst : List StAddress) :
    Option pb.Stream :=
  lst.foldlM (fun stream address => writeBytes35 pb stream field address.a.toList) stream

/-- `write_input_list`. Source: `sawtooth/encoders.c` -/
def writeInputList (stream : pb.Stream) (field : PbField) (lst : List StAddress) :
    Option pb.Stream :=
  lst.foldlM (fun stream address => writeBytes3 pb stream field address.a.toList) stream

/-- `write_bytes`, and `write_payload`. Source: `sawtooth/encoders.c` -/
def writePayload (stream : pb.Stream) (field : PbField) (pl : StPayload) : Option pb.Stream := do
  let stream ← pb.pbEncodeTagForField stream field
  let stream ← pb.pbEncodeVarint stream (UInt64.ofNat pl.buf.length)
  pb.pbWrite stream pl.buf

/-- The `arg` members of the callbacks in a `TransactionHeader`. -/
structure TransactionHeader where
  batcherPublicKey : List UInt8
  dependencies : List StAddress
  familyName : Option (List UInt8)
  familyVersion : Option (List UInt8)
  inputs : List StAddress
  nonce : Option (List UInt8)
  outputs : List StAddress
  payloadSha512 : List UInt8
  signerPublicKey : List UInt8

/-- `TransactionHeader_fields`, with the callbacks that `TransactionHeader_init_encoder` sets.
Source: `sawtooth/encoders.c`, `sawtooth/protos/transaction.proto` -/
def transactionHeaderFields (hdr : TransactionHeader) : pb.Message :=
  [(⟨1⟩, fun s f => writeBytes33 pb s f hdr.batcherPublicKey),
    (⟨2⟩, fun s f => writeAddressList pb s f hdr.dependencies),
    (⟨3⟩, fun s f => writeString pb s f hdr.familyName),
    (⟨4⟩, fun s f => writeString pb s f hdr.familyVersion),
    (⟨5⟩, fun s f => writeInputList pb s f hdr.inputs),
    (⟨6⟩, fun s f => writeString pb s f hdr.nonce),
    (⟨7⟩, fun s f => writeInputList pb s f hdr.outputs),
    (⟨9⟩, fun s f => writeBytes64 pb s f hdr.payloadSha512),
    (⟨10⟩, fun s f => writePubkey pb s f hdr.signerPublicKey)]

/-- `write_tx_header`. Source: `sawtooth/encoders.c` -/
def writeTxHeader (stream : pb.Stream) (field : PbField) (header : StTxHdr) : Option pb.Stream := do
  let hdr : TransactionHeader :=
    { batcherPublicKey := header.batcherPubkey.k.toList
      familyName := some header.familyName.text
      familyVersion := some header.familyVersion.text
      nonce := some header.nonce.text
      payloadSha512 := header.payloadSha512.toList
      signerPublicKey := header.signerPubkey.k.toList
      inputs := header.inputs
      outputs := header.outputs
      dependencies := header.dependencies }
  let stream ← pb.pbEncodeTagForField stream field
  pb.pbEncodeSubmessage stream (transactionHeaderFields pb hdr)

/-- The `arg` members of the callbacks in a `Transaction`. -/
structure Transaction where
  header : StTxHdr
  headerSignature : List UInt8
  payload : StPayload

/-- `Transaction_fields`, with the callbacks that `Transaction_init_encoder` sets.
Source: `sawtooth/encoders.c`, `sawtooth/protos/transaction.proto` -/
def transactionFields (tx : Transaction) : pb.Message :=
  [(⟨1⟩, fun s f => writeTxHeader pb s f tx.header),
    (⟨2⟩, fun s f => writeBytes64 pb s f tx.headerSignature),
    (⟨3⟩, fun s f => writePayload pb s f tx.payload)]

/-- `write_transaction`. Source: `sawtooth/encoders.c` -/
def writeTransaction (stream : pb.Stream) (field : PbField) (tx : StTx) : Option pb.Stream := do
  let txProto : Transaction :=
    { headerSignature := tx.headerSignature.s.toList
      payload := tx.payload
      header := tx.header }
  let stream ← pb.pbEncodeTagForField stream field
  pb.pbEncodeSubmessage stream (transactionFields pb txProto)

/-- `write_transactions`. Source: `sawtooth/encoders.c` -/
def writeTransactions (stream : pb.Stream) (field : PbField) (lst : List StTx) :
    Option pb.Stream :=
  lst.foldlM (fun stream tx => writeTransaction pb stream field tx) stream

/-- `write_transaction_ids`. Source: `sawtooth/encoders.c` -/
def writeTransactionIds (stream : pb.Stream) (field : PbField) (lst : List StTx) :
    Option pb.Stream :=
  lst.foldlM (fun stream tx => writeBytes64 pb stream field tx.headerSignature.s.toList) stream

/-- The `arg` members of the callbacks in a `BatchHeader`. -/
structure BatchHeader where
  signerPublicKey : List UInt8
  transactionIds : List StTx

/-- `BatchHeader_fields`, with the callbacks that `BatchHeader_init_encoder` sets.
Source: `sawtooth/encoders.c`, `sawtooth/protos/batch.proto` -/
def batchHeaderFields (bh : BatchHeader) : pb.Message :=
  [(⟨1⟩, fun s f => writePubkey pb s f bh.signerPublicKey),
    (⟨2⟩, fun s f => writeTransactionIds pb s f bh.transactionIds)]

/-- `write_batch_header`. Source: `sawtooth/encoders.c` -/
def writeBatchHeader (stream : pb.Stream) (field : PbField) (hdrData : StBatchHdrData) :
    Option pb.Stream := do
  let hdr : BatchHeader :=
    { transactionIds := hdrData.txLst
      signerPublicKey := hdrData.signerPubkey.k.toList }
  let stream ← pb.pbEncodeTagForField stream field
  pb.pbEncodeSubmessage stream (batchHeaderFields pb hdr)

/-- The `arg` members of the callbacks in a `Batch`. -/
structure Batch where
  header : StBatchHdrData
  headerSignature : List UInt8
  transactions : List StTx

/-- `Batch_fields`, with the callbacks that `Batch_init_encoder` sets; `trace` is false and is not
written. Source: `sawtooth/encoders.c`, `sawtooth/protos/batch.proto` -/
def batchFields (batch : Batch) : pb.Message :=
  [(⟨1⟩, fun s f => writeBatchHeader pb s f batch.header),
    (⟨2⟩, fun s f => writeBytes64 pb s f batch.headerSignature),
    (⟨3⟩, fun s f => writeTransactions pb s f batch.transactions)]

/-- `TransactionList_fields`, with the callback that `TransactionList_init_encoder` sets.
Source: `sawtooth/encoders.c`, `sawtooth/protos/transaction.proto` -/
def transactionListFields (transactions : List StTx) : pb.Message :=
  [(⟨1⟩, fun s f => writeTransactions pb s f transactions)]

end Callbacks

/-! ## What the callbacks write -/

/-- The fields of a header. -/
def headerFields (header : StTxHdr) : List (ℕ × List UInt8) :=
  [(1, hexText (header.batcherPubkey.k.toList.take 33))] ++
    header.dependencies.map (fun address => (2, hexText (address.a.toList.take 35))) ++
    [(3, header.familyName.text)] ++ [(4, header.familyVersion.text)] ++
    header.inputs.map (fun address => (5, hexText (address.a.toList.take 3))) ++
    [(6, header.nonce.text)] ++
    header.outputs.map (fun address => (7, hexText (address.a.toList.take 3))) ++
    [(9, hexText (header.payloadSha512.toList.take 64))] ++
    [(10, hexText (header.signerPubkey.k.toList.take 65))]

/-- The bytes of a header. -/
def headerBytes (header : StTxHdr) : List UInt8 := Proto.records (headerFields header)

/-- The signature of a transaction, as it is written. -/
def signatureText (tx : StTx) : List UInt8 := hexText (tx.headerSignature.s.toList.take 64)

/-- The fields of a transaction. -/
def txFields (tx : StTx) : List (ℕ × List UInt8) :=
  [(1, headerBytes tx.header)] ++ [(2, signatureText tx)] ++ [(3, tx.payload.buf)]

/-- The bytes of a transaction. -/
def txBytes (tx : StTx) : List UInt8 := Proto.records (txFields tx)

/-- The bytes of a transaction, callback by callback. -/
theorem txBytes_eq (tx : StTx) :
    txBytes tx = [Proto.record 1 (headerBytes tx.header), Proto.record 2 (signatureText tx),
      Proto.record 3 tx.payload.buf].flatten := by
  simp only [txBytes, txFields, Proto.records, List.flatMap_append, List.flatMap_cons,
    List.flatMap_nil, List.append_nil, List.flatten_cons, List.flatten_nil, List.append_assoc]

/-- The fields of a transaction list. -/
def txListFields (txs : List StTx) : List (ℕ × List UInt8) := txs.map fun tx => (1, txBytes tx)

/-- The fields of a batch header. -/
def batchHeaderRecords (txs : List StTx) (signerPubkey : StPubkey) : List (ℕ × List UInt8) :=
  [(1, hexText (signerPubkey.k.toList.take 65))] ++ txs.map fun tx => (2, signatureText tx)

/-- The bytes of a batch header. -/
def batchHeaderBytes (txs : List StTx) (signerPubkey : StPubkey) : List UInt8 :=
  Proto.records (batchHeaderRecords txs signerPubkey)

/-- The bytes of a batch header, callback by callback. -/
theorem batchHeaderBytes_eq (txs : List StTx) (signerPubkey : StPubkey) :
    batchHeaderBytes txs signerPubkey =
      [Proto.record 1 (hexText (signerPubkey.k.toList.take 65)),
        Proto.records (txs.map fun tx => (2, signatureText tx))].flatten := by
  simp only [batchHeaderBytes, batchHeaderRecords, Proto.records, List.flatMap_append,
    List.flatMap_cons, List.flatMap_nil, List.append_nil, List.flatten_cons, List.flatten_nil]

/-- The fields of a batch. -/
def batchRecords (txs : List StTx) (signerPubkey : StPubkey) (signature : List UInt8) :
    List (ℕ × List UInt8) :=
  [(1, batchHeaderBytes txs signerPubkey)] ++ [(2, hexText (signature.take 64))] ++
    txs.map fun tx => (3, txBytes tx)

/-- What both encoders of a header set the arguments of the callbacks to. -/
def headerArgs (header : StTxHdr) : TransactionHeader :=
  { batcherPublicKey := header.batcherPubkey.k.toList
    familyName := some header.familyName.text
    familyVersion := some header.familyVersion.text
    nonce := some header.nonce.text
    payloadSha512 := header.payloadSha512.toList
    signerPublicKey := header.signerPubkey.k.toList
    inputs := header.inputs
    outputs := header.outputs
    dependencies := header.dependencies }

section Emits

open Nanopb

variable {pb : Nanopb} (hpb : pb.Standard)
include hpb

/-- The two digits of a byte. -/
theorem emits_pbWriteHexByte (outBuf : Region) (b : UInt8) :
    pb.Emits (pbWriteHexByte pb outBuf · b) (hexPair b) := by
  have hdigits : (bintohexNonull [b] outBuf 0 2).1.load 0 2 = hexPair b := by
    have htext : hexText [b] = hexPair b := by simp [hexText]
    rw [bintohexNonull_eq (by simp), if_neg (by simp), htext]
    exact outBuf.load_store 0 (hexPair b)
  have hwrite := hpb.write ((bintohexNonull [b] outBuf 0 2).1.load 0 2)
  rwa [hdigits] at hwrite

/-- **`PB_WRITE_BYTES`** writes a field of hex digits. -/
theorem emits_pbWriteBytes {x : ℕ} (hx : x < 2 ^ 63) (field : PbField) {arg : List UInt8}
    (harg : x ≤ arg.length) :
    pb.Emits (fun s => pbWriteBytes pb x s field arg)
      (Proto.record field.tag (hexText (arg.take x))) := by
  have hlen : (UInt64.ofNat x * 2).toNat = (hexText (arg.take x)).length := by
    rw [length_hexText, List.length_take, Nat.min_eq_left harg, UInt64.toNat_mul,
      UInt64.toNat_ofNat']
    simp only [UInt64.reduceToNat]
    omega
  have hdigits : pb.Emits (fun s => (arg.take x).foldlM (pbWriteHexByte pb ⟨fun _ => 0, 0⟩) s)
      (hexText (arg.take x)) :=
    Emits.list hpb fun b _ => emits_pbWriteHexByte hpb _ b
  have hbytes := (hpb.tag field).andThen hpb ((hpb.varint (UInt64.ofNat x * 2)).andThen hpb hdigits)
  rw [hlen] at hbytes
  exact hbytes

/-- A list of addresses is a field for each of them. -/
theorem emits_addresses {x : ℕ} (hx : x ≤ 35) (field : PbField) (lst : List StAddress) :
    pb.Emits (fun s => lst.foldlM (fun s address => pbWriteBytes pb x s field address.a.toList) s)
      (Proto.records (lst.map fun address => (field.tag, hexText (address.a.toList.take x)))) := by
  rw [Proto.records, List.flatMap_map]
  refine Emits.list hpb fun address _ => ?_
  exact emits_pbWriteBytes hpb (lt_of_le_of_lt hx (by norm_num)) field (by simpa using hx)

/-- A string. -/
theorem emits_writeString (field : PbField) (text : List UInt8) :
    pb.Emits (fun s => writeString pb s field (some text)) (Proto.record field.tag text) :=
  (hpb.tag field).andThen hpb (hpb.string text)

/-- A submessage is a field with its bytes. -/
theorem emits_submessage (field : PbField) {msg : pb.Message} {outs : List (List UInt8)}
    (h : pb.EmitsAll msg outs) :
    pb.Emits (fun s => (pb.pbEncodeTagForField s field).bind (pb.pbEncodeSubmessage · msg))
      (Proto.record field.tag outs.flatten) :=
  (hpb.tag field).andThen hpb (hpb.submessage h)

/-- **The callbacks of a header.** -/
theorem emitsAll_header (header : StTxHdr) :
    ∃ outs, pb.EmitsAll (transactionHeaderFields pb (headerArgs header)) outs ∧
      outs.flatten = headerBytes header := by
  refine ⟨_, .cons (emits_pbWriteBytes hpb (by norm_num) _ (by simp [headerArgs]))
    (.cons (emits_addresses hpb (by norm_num) _ _)
    (.cons (emits_writeString hpb _ _) (.cons (emits_writeString hpb _ _)
    (.cons (emits_addresses hpb (by norm_num) _ _) (.cons (emits_writeString hpb _ _)
    (.cons (emits_addresses hpb (by norm_num) _ _)
    (.cons (emits_pbWriteBytes hpb (by norm_num) _ (by simp [headerArgs]))
    (.cons (emits_pbWriteBytes hpb (by norm_num) _ (by simp [headerArgs])) .nil)))))))), ?_⟩
  simp only [headerBytes, headerFields, Proto.records, List.flatMap_append, List.flatMap_cons,
    List.flatMap_nil, List.append_nil, List.flatten_cons, List.flatten_nil, List.append_assoc,
    headerArgs]

/-- `write_tx_header` writes a field with the bytes of the header. -/
theorem emits_writeTxHeader (field : PbField) (header : StTxHdr) :
    pb.Emits (fun s => writeTxHeader pb s field header)
      (Proto.record field.tag (headerBytes header)) := by
  obtain ⟨outs, hall, hbytes⟩ := emitsAll_header hpb header
  rw [← hbytes]
  exact emits_submessage hpb field hall

/-- `write_payload` writes a field with the payload. -/
theorem emits_writePayload (field : PbField) (pl : StPayload) :
    pb.Emits (fun s => writePayload pb s field pl) (Proto.record field.tag pl.buf) := by
  have hlen : (UInt64.ofNat pl.buf.length).toNat = pl.buf.length := by
    have := pl.size_lt
    rw [UInt64.toNat_ofNat']
    omega
  have hbytes := (hpb.tag field).andThen hpb
    ((hpb.varint (UInt64.ofNat pl.buf.length)).andThen hpb (hpb.write pl.buf))
  rw [hlen] at hbytes
  exact hbytes

/-- The fields of a transaction are written one behind the other. -/
theorem emitsAll_transaction (tx : StTx) :
    pb.EmitsAll (transactionFields pb ⟨tx.header, tx.headerSignature.s.toList, tx.payload⟩)
      [Proto.record 1 (headerBytes tx.header), Proto.record 2 (signatureText tx),
        Proto.record 3 tx.payload.buf] :=
  .cons (emits_writeTxHeader hpb ⟨1⟩ tx.header)
    (.cons (emits_pbWriteBytes hpb (by norm_num) ⟨2⟩ (by simp))
    (.cons (emits_writePayload hpb ⟨3⟩ tx.payload) .nil))

/-- `write_transaction` writes a field with the bytes of the transaction. -/
theorem emits_writeTransaction (field : PbField) (tx : StTx) :
    pb.Emits (fun s => writeTransaction pb s field tx) (Proto.record field.tag (txBytes tx)) := by
  rw [txBytes_eq]
  exact emits_submessage hpb field (emitsAll_transaction hpb tx)

/-- `write_transactions` writes a field for every transaction. -/
theorem emits_writeTransactions (field : PbField) (txs : List StTx) :
    pb.Emits (fun s => writeTransactions pb s field txs)
      (Proto.records (txs.map fun tx => (field.tag, txBytes tx))) := by
  rw [Proto.records, List.flatMap_map]
  exact Emits.list hpb fun tx _ => emits_writeTransaction hpb field tx

/-- `write_transaction_ids` writes a field for every transaction. -/
theorem emits_writeTransactionIds (field : PbField) (txs : List StTx) :
    pb.Emits (fun s => writeTransactionIds pb s field txs)
      (Proto.records (txs.map fun tx => (field.tag, signatureText tx))) := by
  rw [Proto.records, List.flatMap_map]
  exact Emits.list hpb fun tx _ => emits_pbWriteBytes hpb (by norm_num) field (by simp)

/-- **The callbacks of a transaction list.** -/
theorem emitsAll_transactionList (txs : List StTx) :
    pb.EmitsAll (transactionListFields pb txs) [Proto.records (txListFields txs)] :=
  .cons (emits_writeTransactions hpb ⟨1⟩ txs) .nil

/-- **The callbacks of a batch header.** -/
theorem emitsAll_batchHeader (txs : List StTx) (signerPubkey : StPubkey) :
    pb.EmitsAll (batchHeaderFields pb ⟨signerPubkey.k.toList, txs⟩)
      [Proto.record 1 (hexText (signerPubkey.k.toList.take 65)),
        Proto.records (txs.map fun tx => (2, signatureText tx))] :=
  .cons (emits_pbWriteBytes hpb (by norm_num) ⟨1⟩ (by simp))
    (.cons (emits_writeTransactionIds hpb ⟨2⟩ txs) .nil)

/-- **The callbacks of a batch.** -/
theorem emitsAll_batch (txs : List StTx) (signerPubkey : StPubkey) {signature : List UInt8}
    (hsignature : 64 ≤ signature.length) :
    ∃ outs, pb.EmitsAll (batchFields pb ⟨⟨txs, signerPubkey⟩, signature, txs⟩) outs ∧
      outs.flatten = Proto.records (batchRecords txs signerPubkey signature) := by
  have hheader : pb.Emits (fun s => writeBatchHeader pb s ⟨1⟩ ⟨txs, signerPubkey⟩)
      (Proto.record 1 (batchHeaderBytes txs signerPubkey)) := by
    rw [batchHeaderBytes_eq]
    exact emits_submessage hpb ⟨1⟩ (emitsAll_batchHeader hpb txs signerPubkey)
  refine ⟨_, .cons hheader (.cons (emits_pbWriteBytes hpb (by norm_num) ⟨2⟩ hsignature)
    (.cons (emits_writeTransactions hpb ⟨3⟩ txs) .nil)), ?_⟩
  simp only [batchRecords, Proto.records, List.flatMap_append, List.flatMap_cons, List.flatMap_nil,
    List.append_nil, List.flatten_cons, List.flatten_nil, List.append_assoc]

end Emits

end AnylWallet.Sawtooth
