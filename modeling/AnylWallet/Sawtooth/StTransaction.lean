import AnylWallet.Eth.Sign
import AnylWallet.Sawtooth.Encoders

/-!
# `sawtooth/st_transaction`: signing and encoding

* The hashes and `ecdsa_sign_digest` are third-party code (trezor-crypto), arbitrary functions here
  (`StCrypto`).
* An encoder leaves the buffer and the number of bytes it wrote (`Encoded`); what it returns is that
  number as an `int` (`Encoded.ret`). `none` is a result of -1.
* `stEncode_eq`: an encoder that succeeds has written the bytes of its message, and it succeeds in
  a buffer that has room for them.
-/

namespace AnylWallet.Sawtooth

open AnylWallet.Lib AnylWallet.Helpers AnylWallet.Eth

/-- The third-party functions of `st_transaction.c`. -/
structure StCrypto extends Crypto where
  /-- `sha256_Raw` -/
  sha256Raw : List UInt8 → Vector UInt8 32
  /-- `sha512_Raw` -/
  sha512Raw : List UInt8 → Vector UInt8 64

/-- What an encoder leaves behind. -/
structure Encoded where
  /-- The memory at `buf`. -/
  buf : Region
  /-- `stream.bytes_written`, a `size_t`. -/
  bytesWritten : ℕ

/-- `stream.bytes_written` as the `int` that an encoder returns. -/
def Encoded.ret (e : Encoded) : ℤ := sizeToInt e.bytesWritten

/-- The output that the caller is told of: as many bytes as were returned. -/
def Encoded.output (e : Encoded) : List UInt8 := e.buf.load 0 e.ret.toNat

/-- All the bytes that were written. -/
def Encoded.message (e : Encoded) : List UInt8 := e.buf.load 0 e.bytesWritten

section Source

variable (cr : StCrypto) (pb : Nanopb)

/-- `st_sign_data_rawsig`: the 65 bytes it stores. Source: `sawtooth/st_transaction.c` -/
def stSignDataRawsig (privkey : StPrivkey) (data : List UInt8) : Vector UInt8 65 :=
  let digest := cr.sha256Raw data
  let (r, s, pby) := cr.ecdsaSignDigest privkey.k digest
  r ++ s ++ #v[pby + 27]

/-- `pb_ostream_from_buffer`, `pb_encode` and the two values read from the stream, as all encoders
below have them. -/
def stEncode (msg : pb.Message) (buf : Region) (bufSize : UInt64) : Option Encoded := do
  let stream := pb.pbOstreamFromBuffer buf bufSize
  let stream ← pb.pbEncode stream msg
  return ⟨pb.buffer stream, pb.bytesWritten stream⟩

/-- `st_encode_header`. Source: `sawtooth/st_transaction.c` -/
def stEncodeHeader (header : StTxHdr) (buf : Region) (bufSize : UInt64) : Option Encoded :=
  let hdr : TransactionHeader :=
    { batcherPublicKey := header.batcherPubkey.k.toList
      familyName := some header.familyName.text
      familyVersion := some header.familyVersion.text
      nonce := some header.nonce.text
      payloadSha512 := header.payloadSha512.toList
      signerPublicKey := header.signerPubkey.k.toList
      inputs := header.inputs
      outputs := header.outputs
      dependencies := header.dependencies }
  stEncode pb (transactionHeaderFields pb hdr) buf bufSize

/-- The header with another `payload_sha512`. -/
def StTxHdr.setPayloadSha512 (header : StTxHdr) (hash : Vector UInt8 64) : StTxHdr :=
  { header with payloadSha512 := hash }

/-- `st_sign_tx`: the transaction afterwards, and the data that was signed.
Source: `sawtooth/st_transaction.c` -/
def stSignTx (tx : StTx) (privkey : StPrivkey) (buf : Region) (bufSize : UInt64) :
    Option (StTx × List UInt8) := do
  let header := tx.header.setPayloadSha512 (cr.sha512Raw tx.payload.buf)
  let encoded ← stEncodeHeader pb header buf bufSize
  if encoded.ret ≤ 0 then none
  else
    let data := encoded.buf.load 0 encoded.ret.toNat
    let headerSignature := stSignDataRawsig cr privkey data
    return ({ tx with header := header, headerSignature := ⟨headerSignature⟩ }, data)

/-- `st_encode_tx`. Source: `sawtooth/st_transaction.c` -/
def stEncodeTx (tx : StTx) (buf : Region) (bufSize : UInt64) : Option Encoded :=
  let txProto : Transaction :=
    { headerSignature := tx.headerSignature.s.toList
      payload := tx.payload
      header := tx.header }
  stEncode pb (transactionFields pb txProto) buf bufSize

/-- `st_encode_batch_header`. Source: `sawtooth/st_transaction.c` -/
def stEncodeBatchHeader (transactions : List StTx) (signerPubkey : StPubkey) (buf : Region)
    (bufSize : UInt64) : Option Encoded :=
  let batchHdr : BatchHeader :=
    { transactionIds := transactions
      signerPublicKey := signerPubkey.k.toList }
  stEncode pb (batchHeaderFields pb batchHdr) buf bufSize

/-- The key `{0}`. -/
def zeroPubkey : StPubkey := ⟨Vector.replicate 65 0⟩

/-- An `int` in a `size_t`. -/
def intToSize (n : ℤ) : ℕ := (n % 2 ^ 64).toNat

/-- `st_encode_batch`. Source: `sawtooth/st_transaction.c` -/
def stEncodeBatch (transactions : List StTx) (batcherPrivkey : StPrivkey)
    (signerPubkey : StPubkey) (buf : Region) (bufSize : UInt64) : Option Encoded := do
  let pubk := zeroPubkey
  let encoded ← stEncodeBatchHeader pb transactions pubk buf bufSize
  let headerSize := intToSize encoded.ret
  if headerSize = 0 then none
  else if headerSize ≥ bufSize.toNat then none
  else
    let headerSignature :=
      ethSignDataRawsig cr.toCrypto batcherPrivkey.k (encoded.buf.load 0 headerSize)
    let bhData : StBatchHdrData := { txLst := transactions, signerPubkey := signerPubkey }
    let batch : Batch :=
      { header := bhData
        headerSignature := headerSignature
        transactions := transactions }
    stEncode pb (batchFields pb batch) encoded.buf bufSize

/-- `st_encode_tx_list`. Source: `sawtooth/st_transaction.c` -/
def stEncodeTxList (transactions : List StTx) (buf : Region) (bufSize : UInt64) :
    Option Encoded :=
  stEncode pb (transactionListFields pb transactions) buf bufSize

end Source

/-! ## What an encoder returns -/

/-- A number of bytes below 2 ^ 32 that is not negative as an `int` is returned as it is. -/
theorem Encoded.toNat_ret_of_lt {e : Encoded} (hret : 0 ≤ e.ret) (h : e.bytesWritten < 2 ^ 32) :
    e.ret.toNat = e.bytesWritten := by
  rw [Encoded.ret, sizeToInt_eq, Nat.mod_eq_of_lt h] at hret ⊢
  split_ifs at hret ⊢ with hsign
  · omega
  · simp

/-- A larger number is not. -/
theorem Encoded.toNat_ret_lt {e : Encoded} (h : 2 ^ 32 ≤ e.bytesWritten) :
    e.ret.toNat < e.bytesWritten := by
  rw [Encoded.ret, sizeToInt_eq]
  split_ifs <;> omega

/-- The output is the message up to the number that was returned. -/
theorem Encoded.output_eq_take {e : Encoded} (h : e.ret.toNat ≤ e.bytesWritten) :
    e.output = e.message.take e.ret.toNat := by
  have := @Region.take_drop_load e.buf 0 0 e.ret.toNat e.bytesWritten
    (by omega)
  simpa [Encoded.output, Encoded.message] using this.symm

/-- **The output is the message** below 2 ^ 32 bytes. -/
theorem Encoded.output_eq_message {e : Encoded} (hret : 0 ≤ e.ret)
    (h : e.bytesWritten < 2 ^ 32) : e.output = e.message := by
  rw [Encoded.output, Encoded.message, Encoded.toNat_ret_of_lt hret h]

/-- **From 2 ^ 32 bytes on the output is cut.** -/
theorem Encoded.output_eq_take_lt {e : Encoded} (h : 2 ^ 32 ≤ e.bytesWritten) :
    ∃ k < e.bytesWritten, e.output = e.message.take k :=
  ⟨_, Encoded.toNat_ret_lt h, Encoded.output_eq_take (Encoded.toNat_ret_lt h).le⟩

/-- A small size comes back from an `int`. -/
theorem intToSize_sizeToInt {n : ℕ} (h : n < 2 ^ 31) : intToSize (sizeToInt n) = n := by
  rw [sizeToInt_of_lt h, intToSize]
  omega

section Standard

open Nanopb

variable {cr : StCrypto} {pb : Nanopb} (hpb : pb.Standard)
include hpb

/-- **An encoder writes the bytes of its message.** -/
theorem stEncode_eq {msg : pb.Message} {outs : List (List UInt8)} (h : pb.EmitsAll msg outs)
    {buf : Region} {bufSize : UInt64} {e : Encoded} (he : stEncode pb msg buf bufSize = some e) :
    e = ⟨buf.store 0 outs.flatten, outs.flatten.length⟩ ∧
      outs.flatten.length ≤ bufSize.toNat := by
  obtain ⟨s, hs, hret⟩ := Option.bind_eq_some_iff.mp he
  cases hret
  obtain ⟨hbuf, hlen, hsize⟩ := hpb.buffer ((hpb.encode h).wrote _ s hs)
  exact ⟨by rw [hbuf, hlen], hsize⟩

/-- It does so in a buffer with room for them. -/
theorem stEncode_of_le {msg : pb.Message} {outs : List (List UInt8)} (h : pb.EmitsAll msg outs)
    (buf : Region) (bufSize : UInt64) (hsize : outs.flatten.length ≤ bufSize.toNat) :
    stEncode pb msg buf bufSize = some ⟨buf.store 0 outs.flatten, outs.flatten.length⟩ := by
  obtain ⟨s, hs⟩ := (hpb.encode h).succeeds _ (hpb.fits_buffer (m := buf) hsize)
  have hsome : stEncode pb msg buf bufSize = some ⟨pb.buffer s, pb.bytesWritten s⟩ :=
    Option.bind_eq_some_iff.mpr ⟨s, hs, rfl⟩
  rw [hsome, (stEncode_eq hpb h hsome).1]

end Standard

/-! ## Hash and signature functions for concrete inputs -/

/-- Every hash is constant, and a digest is its own signature. -/
def constantCrypto : StCrypto where
  keccak256 _ := Vector.replicate 32 0
  ecdsaSignDigest _ digest := (digest, digest, 0)
  sha256Raw _ := Vector.replicate 32 1
  sha512Raw _ := Vector.replicate 64 2

end AnylWallet.Sawtooth
