import AnylWallet.Sawtooth.Batches

/-!
# The fields of a header read back

* `stEncodeHeader_readsBack_iff`: the output of `st_encode_header` reads back as the header (but for
  the batcher's key) exactly when the header has no input and no output address and is shorter than
  2 ^ 32 bytes. `write_input_list` writes three bytes of an address of 35, so that the validator sees
  a prefix of it; a dependency, of the same type, is written as a whole by `write_address_list`. A
  header that is cut to the `int` returned has lost its last field, the key of the signer.
* `stEncodeBatch_batcherKey_iff`: the header of a transaction in a batch names its batcher by the
  digits of 33 bytes (`write_bytes_33`), the header of the batch by those of 65 (`write_pubkey`).
  They are the same string only in a batch without transactions.
-/

namespace AnylWallet.Sawtooth

open AnylWallet.Lib AnylWallet.Helpers AnylWallet.Eth

/-! ## The header of a transaction -/

/-- The digits of all bytes of every address. -/
def addressTexts (lst : List StAddress) : List (List UInt8) :=
  lst.map fun address => hexText address.a.toList

/-- The digits of the first three bytes of every address. -/
def prefixTexts (lst : List StAddress) : List (List UInt8) :=
  lst.map fun address => hexText (address.a.toList.take 3)

/-- The fields of a message are those of the header, but for the key of the batcher. -/
structure ReadsHeader (header : StTxHdr) (fields : List Proto.Field) : Prop where
  dependencies : Proto.repeated 2 fields = addressTexts header.dependencies
  familyName : Proto.singular 3 fields = header.familyName.text
  familyVersion : Proto.singular 4 fields = header.familyVersion.text
  inputs : Proto.repeated 5 fields = addressTexts header.inputs
  nonce : Proto.singular 6 fields = header.nonce.text
  outputs : Proto.repeated 7 fields = addressTexts header.outputs
  payloadSha512 : Proto.singular 9 fields = hexText header.payloadSha512.toList
  signerPublicKey : Proto.singular 10 fields = hexText header.signerPubkey.k.toList

/-- `bytes` is an encoding of the header, but for the key of the batcher. -/
def HeaderReadsBack (header : StTxHdr) (bytes : List UInt8) : Prop :=
  ∃ fields, Proto.parse bytes = some fields ∧ ReadsHeader header fields

/-- Prefixes are the addresses only where there are none. -/
theorem prefixTexts_eq_addressTexts_iff (lst : List StAddress) :
    prefixTexts lst = addressTexts lst ↔ lst = [] := by
  constructor
  · intro h
    cases lst with
    | nil => rfl
    | cons address lst =>
        have hlen := congrArg List.length (List.cons.inj h).1
        simp [length_hexText] at hlen
  · rintro rfl
    rfl

/-- **What a header reads back as**, field by field. -/
theorem values_headerFields (header : StTxHdr) :
    Proto.repeated 2 (Proto.lenFields (headerFields header)) =
        addressTexts header.dependencies ∧
      Proto.singular 3 (Proto.lenFields (headerFields header)) = header.familyName.text ∧
      Proto.singular 4 (Proto.lenFields (headerFields header)) = header.familyVersion.text ∧
      Proto.repeated 5 (Proto.lenFields (headerFields header)) = prefixTexts header.inputs ∧
      Proto.singular 6 (Proto.lenFields (headerFields header)) = header.nonce.text ∧
      Proto.repeated 7 (Proto.lenFields (headerFields header)) = prefixTexts header.outputs ∧
      Proto.singular 10 (Proto.lenFields (headerFields header)) =
        hexText header.signerPubkey.k.toList := by
  have haddress : ∀ address : StAddress, address.a.toList.take 35 = address.a.toList :=
    fun address => List.take_of_length_le (by simp)
  have hkey : header.signerPubkey.k.toList.take 65 = header.signerPubkey.k.toList :=
    List.take_of_length_le (by simp)
  simp [Proto.singular, Proto.repeated_lenFields, headerFields, List.filter_map, Function.comp_def,
    addressTexts, prefixTexts, haddress, hkey]

/-- The whole header reads back if it has no input and no output address. -/
theorem readsHeader_headerFields_iff (header : StTxHdr) :
    ReadsHeader header (Proto.lenFields (headerFields header)) ↔
      header.inputs = [] ∧ header.outputs = [] := by
  obtain ⟨hdependencies, hname, hversion, hinputs, hnonce, houtputs, hkey⟩ :=
    values_headerFields header
  constructor
  · intro h
    rw [← prefixTexts_eq_addressTexts_iff, ← prefixTexts_eq_addressTexts_iff]
    exact ⟨hinputs.symm.trans h.inputs, houtputs.symm.trans h.outputs⟩
  · rintro ⟨hin, hout⟩
    exact
      { dependencies := hdependencies
        familyName := hname
        familyVersion := hversion
        inputs := hinputs.trans ((prefixTexts_eq_addressTexts_iff _).mpr hin)
        nonce := hnonce
        outputs := houtputs.trans ((prefixTexts_eq_addressTexts_iff _).mpr hout)
        payloadSha512 := singular_headerFields header
        signerPublicKey := hkey }

/-- The number of the key of the signer is the last one. -/
theorem headerFields_number_ne {header : StTxHdr} {before after : List (ℕ × List UInt8)}
    {f : ℕ × List UInt8} (hsplit : headerFields header = before ++ f :: after) :
    ∀ g ∈ before, g.1 ≠ 10 := by
  obtain ⟨init, hinit, hten⟩ : ∃ init, headerFields header =
      init ++ [(10, hexText (header.signerPubkey.k.toList.take 65))] ∧ ∀ g ∈ init, g.1 ≠ 10 := by
    refine ⟨_, rfl, ?_⟩
    intro g hg
    simp only [List.mem_append, List.mem_singleton, List.mem_map] at hg
    rcases hg with ((((((rfl | ⟨_, -, rfl⟩) | rfl) | rfl) | ⟨_, -, rfl⟩) | rfl) | ⟨_, -, rfl⟩) |
      rfl <;> norm_num
  rw [hinit] at hsplit
  intro g hg
  apply hten
  -- what stands before some field stands before the last one
  have hprefix : before <+: init := by
    have hinit : init <+: before ++ f :: after := by
      rw [← hsplit]
      exact List.prefix_append _ _
    refine List.prefix_of_prefix_length_le (List.prefix_append _ _) hinit ?_
    · have hlen := congrArg List.length hsplit
      simp only [List.length_append, List.length_cons, List.length_nil] at hlen
      omega
  exact hprefix.subset hg

/-- **A header that is cut does not read back**: the key of the signer is missing. -/
theorem not_headerReadsBack_take {header : StTxHdr} (hlen : (headerBytes header).length < 2 ^ 64)
    {k : ℕ} (hk : k < (headerBytes header).length) :
    ¬ HeaderReadsBack header ((headerBytes header).take k) := by
  rintro ⟨fields, hparse, hreads⟩
  have hvalid : Proto.Valid (headerFields header) :=
    Proto.valid_of_length (headerFields_number header) hlen
  obtain ⟨before, f, after, hsplit, rfl⟩ := Proto.parse_take_records hvalid hk hparse
  have hnone : before.filter (fun g => g.1 == 10) = [] := by
    rw [List.filter_eq_nil_iff]
    intro g hg
    rw [beq_iff_eq]
    exact headerFields_number_ne hsplit g hg
  have hkey := congrArg List.length hreads.signerPublicKey
  simp [Proto.singular, Proto.repeated_lenFields, hnone, length_hexText] at hkey

section Standard

variable {cr : StCrypto} {pb : Nanopb} (hpb : pb.Standard)
include hpb

/-- **When a header reads back from its encoding**: it has no input and no output address, and it is
shorter than 2 ^ 32 bytes. Of an address that it has, the writer of the list leaves 3 of the 35
bytes. -/
theorem stEncodeHeader_readsBack_iff {header : StTxHdr} {buf : Region} {bufSize : UInt64}
    {e : Encoded} (he : stEncodeHeader pb header buf bufSize = some e) (hret : 0 ≤ e.ret) :
    HeaderReadsBack header e.output ↔
      header.inputs = [] ∧ header.outputs = [] ∧ (headerBytes header).length < 2 ^ 32 := by
  obtain ⟨rfl, hsize⟩ := stEncodeHeader_eq hpb he
  have hmessage : Encoded.message ⟨buf.store 0 (headerBytes header), (headerBytes header).length⟩ =
      headerBytes header := Region.load_store _ _ _
  have h64 := lt_of_le_of_lt hsize bufSize.toNat_lt
  by_cases hlen : (headerBytes header).length < 2 ^ 32
  · have hparse : Proto.parse (headerBytes header) = _ :=
      Proto.parse_records (Proto.valid_of_length (headerFields_number header) h64)
    rw [Encoded.output_eq_message hret hlen, hmessage, ← and_assoc, and_iff_left hlen,
      ← readsHeader_headerFields_iff]
    constructor
    · rintro ⟨fields, hfields, hreads⟩
      rw [hparse] at hfields
      cases hfields
      exact hreads
    · exact fun hreads => ⟨_, hparse, hreads⟩
  · obtain ⟨k, hk, houtput⟩ := Encoded.output_eq_take_lt
      (e := ⟨buf.store 0 (headerBytes header), (headerBytes header).length⟩) (not_lt.mp hlen)
    rw [houtput, hmessage]
    constructor
    · exact fun hreads => absurd hreads (not_headerReadsBack_take h64 hk)
    · rintro ⟨-, -, hshort⟩
      exact absurd hshort hlen

/-- `st_encode_header` succeeds in a buffer with room for the header. -/
theorem stEncodeHeader_of_le (header : StTxHdr) (buf : Region) (bufSize : UInt64)
    (hsize : (headerBytes header).length ≤ bufSize.toNat) :
    stEncodeHeader pb header buf bufSize =
      some ⟨buf.store 0 (headerBytes header), (headerBytes header).length⟩ := by
  obtain ⟨outs, hall, hbytes⟩ := emitsAll_header hpb header
  rw [← hbytes] at hsize ⊢
  exact stEncode_of_le hpb hall buf bufSize hsize

/-- A header with an input address, shorter than 2 ^ 31 bytes, is encoded and does not read
back. -/
theorem not_headerReadsBack_of_inputs {header : StTxHdr} (hin : header.inputs ≠ [])
    (hlen : (headerBytes header).length < 2 ^ 31) (buf : Region) {bufSize : UInt64}
    (hsize : (headerBytes header).length ≤ bufSize.toNat) :
    ∃ e, stEncodeHeader pb header buf bufSize = some e ∧ 0 < e.ret ∧
      ¬ HeaderReadsBack header e.output := by
  have hret : Encoded.ret ⟨buf.store 0 (headerBytes header), (headerBytes header).length⟩ =
      ((headerBytes header).length : ℤ) := sizeToInt_of_lt hlen
  have hpos := length_headerBytes_pos header
  refine ⟨_, stEncodeHeader_of_le hpb header buf bufSize hsize, ?_, ?_⟩
  · rw [hret]
    exact_mod_cast hpos
  · have hparse : Proto.parse (headerBytes header) = _ := Proto.parse_records
      (Proto.valid_of_length (headerFields_number header) (hlen.trans (by norm_num)))
    rw [Encoded.output_eq_message (by rw [hret]; exact Int.natCast_nonneg _)
      (hlen.trans (by norm_num))]
    rintro ⟨fields, hfields, hreads⟩
    rw [Encoded.message, Region.load_store, hparse] at hfields
    cases hfields
    exact hin ((readsHeader_headerFields_iff header).mp hreads).1

end Standard

/-! ## Concrete headers -/

/-- `stEncodeHeader_readsBack_iff` on a header without addresses. -/
theorem stEncodeHeader_readsBack_plain :
    ∃ e, stEncodeHeader Nanopb.reference (plainTx shortPayload).header ⟨fun _ => 0, 0⟩ 1024 =
        some e ∧
      (HeaderReadsBack (plainTx shortPayload).header e.output ↔
        (plainTx shortPayload).header.inputs = [] ∧ (plainTx shortPayload).header.outputs = [] ∧
          (headerBytes (plainTx shortPayload).header).length < 2 ^ 32) := by
  have hlen : (headerBytes (plainTx shortPayload).header).length = 338 := by decide +kernel
  have he := stEncodeHeader_of_le Nanopb.reference_standard (plainTx shortPayload).header
    ⟨fun _ => 0, 0⟩ 1024 (le_of_eq_of_le hlen (by decide))
  refine ⟨_, he, stEncodeHeader_readsBack_iff Nanopb.reference_standard he ?_⟩
  rw [Encoded.ret, sizeToInt_of_lt (lt_of_eq_of_lt hlen (by norm_num))]
  exact Int.natCast_nonneg _

/-- The header with one input address and one output address, of 35 bytes `7` each. -/
def addressedHeader : StTxHdr :=
  { (plainTx shortPayload).header with
    inputs := [⟨Vector.replicate 35 7⟩]
    outputs := [⟨Vector.replicate 35 7⟩] }

/-- Counterexample: its addresses come back as `070707`. -/
theorem addressedHeader_not_readsBack :
    prefixTexts addressedHeader.inputs = [[48, 55, 48, 55, 48, 55]] ∧
      ∃ e, stEncodeHeader Nanopb.reference addressedHeader ⟨fun _ => 0, 0⟩ 1024 = some e ∧
        0 < e.ret ∧ ¬ HeaderReadsBack addressedHeader e.output := by
  have hlen : (headerBytes addressedHeader).length = 354 := by decide +kernel
  refine ⟨by decide, not_headerReadsBack_of_inputs Nanopb.reference_standard (by decide)
    (lt_of_eq_of_lt hlen (by norm_num)) _ (le_of_eq_of_le hlen (by decide))⟩

/-! ## The key of the batcher -/

/-- The header of every transaction in the batch names the key of the header of the batch. -/
def SameBatcherKey (bytes : List UInt8) : Prop :=
  ∃ fields batchHeader, Proto.parse bytes = some fields ∧
    Proto.parse (Proto.singular 1 fields) = some batchHeader ∧
    ∀ tx ∈ Proto.repeated 3 fields, ∃ txFields header, Proto.parse tx = some txFields ∧
      Proto.parse (Proto.singular 1 txFields) = some header ∧
      Proto.singular 1 header = Proto.singular 1 batchHeader

/-- The key of the batcher in the header of a transaction: the digits of 33 bytes. -/
theorem singular_headerFields_batcher (header : StTxHdr) :
    Proto.singular 1 (Proto.lenFields (headerFields header)) =
      hexText (header.batcherPubkey.k.toList.take 33) := by
  simp [Proto.singular, Proto.repeated_lenFields, headerFields, List.filter_map, Function.comp_def]

/-- **When a batch names one key**: when there is no transaction in it. -/
theorem sameBatcherKey_iff {txs : List StTx} {signerPubkey : StPubkey} {signature : List UInt8}
    (hsize : (Proto.records (batchRecords txs signerPubkey signature)).length < 2 ^ 64) :
    SameBatcherKey (Proto.records (batchRecords txs signerPubkey signature)) ↔ txs = [] := by
  have hparse := Proto.parse_records
    (Proto.valid_of_length (batchRecords_number txs signerPubkey signature) hsize)
  have hheader := Proto.parse_records (Proto.valid_of_length
    (batchHeaderRecords_number txs signerPubkey)
    ((length_batchHeaderBytes_lt txs signerPubkey signature).trans hsize))
  obtain ⟨h1, -, h3⟩ := repeated_batchRecords txs signerPubkey signature
  have hkey := (repeated_batchHeaderRecords txs signerPubkey).1
  constructor
  · rintro ⟨fields, batchHeader, hfields, hbatchHeader, hsame⟩
    rw [hparse] at hfields
    cases hfields
    rw [h1, batchHeaderBytes, hheader] at hbatchHeader
    cases hbatchHeader
    rw [h3] at hsame
    by_contra hne
    obtain ⟨tx, htx⟩ := List.exists_mem_of_ne_nil txs hne
    have hlen := (length_txBytes_lt_batch htx signerPubkey signature).trans hsize
    have htxParse : Proto.parse (txBytes tx) = _ :=
      Proto.parse_records (Proto.valid_of_length (txFields_number tx) hlen)
    have hheaderParse : Proto.parse (headerBytes tx.header) = _ := Proto.parse_records
      (Proto.valid_of_length (headerFields_number tx.header)
        ((length_headerBytes_lt tx).trans hlen))
    obtain ⟨fields, header, htxFields, htxHeader, hbatcher⟩ :=
      hsame (txBytes tx) (List.mem_map_of_mem htx)
    rw [htxParse] at htxFields
    cases htxFields
    rw [(singular_txFields tx).1, hheaderParse] at htxHeader
    cases htxHeader
    -- 66 digits and 130
    rw [singular_headerFields_batcher, hkey] at hbatcher
    have := congrArg List.length hbatcher
    simp [length_hexText] at this
  · rintro rfl
    refine ⟨_, Proto.lenFields (batchHeaderRecords [] signerPubkey), hparse, ?_, ?_⟩
    · rw [h1]
      exact hheader
    · rw [h3]
      exact fun tx htx => absurd htx List.not_mem_nil

/-- **When the transactions of a batch name its signer as their batcher**: when there are none,
whichever keys they carry. Otherwise what is written are 33 of the 65 bytes of the key, which is no
key. -/
theorem stEncodeBatch_batcherKey_iff {cr : StCrypto} {pb : Nanopb} (hpb : pb.Standard)
    {txs : List StTx} {batcherPrivkey : StPrivkey} {signerPubkey : StPubkey} {buf : Region}
    {bufSize : UInt64} {e : Encoded}
    (he : stEncodeBatch cr pb txs batcherPrivkey signerPubkey buf bufSize = some e) :
    SameBatcherKey e.message ↔ txs = [] := by
  obtain ⟨hmessage, -, hsize⟩ := stEncodeBatch_eq hpb he
  rw [hmessage]
  refine sameBatcherKey_iff (lt_of_eq_of_lt ?_ hsize)
  exact length_batchRecords txs signerPubkey (length_ethSignDataRawsig _ _)

/-- `stEncodeBatch_batcherKey_iff` on a batch of one transaction. -/
theorem stEncodeBatch_batcherKey_short : ∃ e, encodePlainBatch shortPayload = some e ∧
    (SameBatcherKey e.message ↔ [(plainSigned shortPayload).1] = []) := by
  obtain ⟨e, he⟩ := @exists_encodePlainBatch shortPayload (by rw [length_shortPayload]; norm_num)
  exact ⟨e, he, stEncodeBatch_batcherKey_iff Nanopb.reference_standard he⟩

/-- Counterexample: a batch of one transaction, with the key of its header. -/
theorem stEncodeBatch_other_batcherKey :
    ∃ e, stEncodeBatch constantCrypto Nanopb.reference [(plainSigned shortPayload).1]
        ⟨Vector.replicate 32 0⟩ (plainSigned shortPayload).1.header.batcherPubkey
        ⟨fun _ => 0, 0⟩ 8589934592 = some e ∧ ¬ SameBatcherKey e.message := by
  have hheader := length_batchHeaderBytes_plain shortPayload
  have hlen := batchSize_plain shortPayload
  rw [length_shortPayload] at hlen
  obtain ⟨e, he⟩ := @stEncodeBatch_of_le constantCrypto _ Nanopb.reference_standard
    [(plainSigned shortPayload).1] ⟨Vector.replicate 32 0⟩
    (plainSigned shortPayload).1.header.batcherPubkey ⟨fun _ => 0, 0⟩ 8589934592
    (lt_of_le_of_lt hheader (by norm_num)) (hlen.trans (by simp))
  obtain ⟨hmessage, -, hsize⟩ := stEncodeBatch_eq Nanopb.reference_standard he
  refine ⟨e, he, ?_⟩
  rw [hmessage, sameBatcherKey_iff]
  · exact List.cons_ne_nil _ _
  · rw [length_batchRecords _ _ (length_ethSignDataRawsig _ _)]
    exact hsize

end AnylWallet.Sawtooth
