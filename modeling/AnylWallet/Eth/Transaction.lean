import AnylWallet.Eth.Sign
import AnylWallet.Helpers.RlpEncoder

/-!
# `eth/address` and `eth/transaction`: the RLP form of a transaction

* The address of a key is the last 20 bytes of the Keccak-256 digest of the 64 bytes behind the first
  one of the public key. `ecdsa_get_public_key65` is third-party code (trezor-crypto), an arbitrary
  function here.
* `txEncode` and `txEncodeSign` follow the source: the items are stored one after the other from
  `buf` on, the length counters are 16 bits wide, and in the end everything is moved up to make room
  for the header.
* **What `txEncode` writes** (`txEncode_none_eq`): the canonical encoding of a list of strings, the
  `fieldStrings`, unless the items take 55 bytes together. There `rlp_header_len` reserves one byte
  and `rlp_encode_array_header` writes two (`prependHeader_55`).
-/

namespace AnylWallet.Eth

open AnylWallet.Lib AnylWallet.Helpers
open AnylWallet.Lib.Rlp (Item num lenPrefix encode encodeAll encodeStr decodeBytes)

/-- `address_t`. Source: `eth/address.h` -/
structure Address where
  /-- The 20 bytes. -/
  a : Vector UInt8 20
deriving DecidableEq, Repr

/-- `publickey_to_address`: the address it stores. Source: `eth/address.c` -/
def publickeyToAddress (cr : Crypto) (pubkey : Vector UInt8 65) : Address :=
  let hash := cr.keccak256 (pubkey.toList.drop 1)
  -- `hash+12`
  ⟨Vector.ofFn fun i => hash.toList.getD (12 + i) 0⟩

/-- `privkey_to_ethereum_address`: the address it stores; it returns `SUCCESS`.
Source: `eth/address.c` -/
def privkeyToEthereumAddress (cr : Crypto)
    (ecdsaGetPublicKey65 : Vector UInt8 32 → Vector UInt8 65) (privkey : Vector UInt8 32) :
    Address :=
  publickeyToAddress cr (ecdsaGetPublicKey65 privkey)

/-- `transaction_t`. Source: `eth/transaction.h` -/
structure Transaction where
  nonce : UInt32
  gasPrice : UInt32
  gasLimit : UInt32
  /-- The member `to` (a reserved word here). -/
  toAddr : Address
  value : Uint256
  /-- The pointer `data`; `0` is `NULL`. -/
  data : UInt64
  /-- The `data_len` bytes at `data`. -/
  calldata : List UInt8

/-- `data_len`. -/
def Transaction.dataLen (tx : Transaction) : ℕ := tx.calldata.length

/-! ## The code -/

/-- The locals of `tx_encode`. -/
structure TxOut where
  /-- The output buffer. -/
  buf : Region
  /-- `data_p`, as an offset from `buf`. -/
  dataP : ℕ
  /-- `total_data_len`, a `uint16_t`. -/
  totalDataLen : ℕ

/-- One item: `data_len = item; data_p += data_len; total_data_len += data_len;` with 16-bit
lengths. -/
def TxOut.append (st : TxOut) (item : Region → ℕ → Region × ℕ) : TxOut :=
  let (buf, len) := item st.buf st.dataP
  let dataLen := len % 2 ^ 16
  ⟨buf, st.dataP + dataLen, (st.totalDataLen + dataLen) % 2 ^ 16⟩

/-- The items of the transaction itself. `stack` is the memory above the argument of
`rlp_encode_uint256`. Source: `eth/transaction.c`, `tx_encode` -/
def txEncodeFields (stack : ℕ → UInt8) (tx : Transaction) (buf : Region) : TxOut :=
  let st : TxOut := ⟨buf, 0, 0⟩
  -- 0) nonce
  let st := st.append fun m p => rlpEncodeInteger m p tx.nonce.toUInt64
  -- 1) gas_price
  let st := st.append fun m p => rlpEncodeInteger m p tx.gasPrice.toUInt64
  -- 2) gas_limit
  let st := st.append fun m p => rlpEncodeInteger m p tx.gasLimit.toUInt64
  -- 3) to
  let st := st.append fun m p => rlpEncodeItem m p tx.toAddr.a.toList 20
  -- 4) value
  let st := st.append fun m p => rlpEncodeUint256 stack m p tx.value
  -- 5) data
  if tx.data = 0 ∨ tx.dataLen = 0 then
    -- the first byte of the pointer variable
    st.append fun m p => rlpEncodeItem m p (leBytes 8 tx.data.toNat) 1
  else st.append fun m p => rlpEncodeItem m p tx.calldata (tx.dataLen % 2 ^ 32)

/-- The items of the signature. Source: `eth/transaction.c`, `tx_encode` -/
def txEncodeSignature (stackR stackS : ℕ → UInt8) (sig : Signature) (st : TxOut) : TxOut :=
  let st := st.append fun m p => rlpEncodeInteger m p sig.v.toUInt64
  let st := st.append fun m p => rlpEncodeUint256 stackR m p sig.r
  st.append fun m p => rlpEncodeUint256 stackS m p sig.s

/-- Prepend the header. Source: `eth/transaction.c`, `tx_encode` -/
def prependHeader (st : TxOut) : Region × ℤ :=
  let headerLen := rlpHeaderLen st.totalDataLen
  let buf := st.buf.move headerLen 0 st.totalDataLen
  let (buf, _) := rlpEncodeArrayHeader buf 0 st.totalDataLen
  (buf, ((st.totalDataLen + headerLen) % 2 ^ 16 : ℕ))

/-- The stack above the argument of `rlp_encode_uint256`, at its calls for the value, `r` and `s`. -/
structure Stacks where
  value : ℕ → UInt8
  r : ℕ → UInt8
  s : ℕ → UInt8

/-- `tx_encode`; `buf_size` is not used. Source: `eth/transaction.c` -/
def txEncode (stk : Stacks) (tx : Transaction) (sig : Option Signature) (buf : Region)
    (_bufSize : ℕ) : Region × ℤ :=
  let st := txEncodeFields stk.value tx buf
  match sig with
  | none => prependHeader st
  | some sig => prependHeader (txEncodeSignature stk.r stk.s sig st)

/-- `tx_encode_sign`; `stk` and `stk'` are the stacks of its two calls of `tx_encode`.
Source: `eth/transaction.c` -/
def txEncodeSign (cr : Crypto) (stk stk' : Stacks) (tx : Transaction) (privkey : Vector UInt8 32)
    (buf : Region) (bufSize : ℕ) : Region × ℤ :=
  let (buf, unsignedTxLen) := txEncode stk tx none buf bufSize
  if unsignedTxLen < 0 then (buf, -1)
  else
    let signature := ethSignData cr privkey (buf.load 0 unsignedTxLen.toNat)
    txEncode stk' tx (some signature) buf bufSize

/-! ## The value a transaction stands for -/

/-- The canonical list `[nonce, gasPrice, gasLimit, to, value, data]`. -/
def Transaction.items (tx : Transaction) : List Item :=
  [num tx.nonce.toNat, num tx.gasPrice.toNat, num tx.gasLimit.toNat, .str tx.toAddr.a.toList,
    num tx.value.toNat, .str tx.calldata]

/-- The transaction as an RLP value. -/
def Transaction.item (tx : Transaction) : Item := .list tx.items

/-! ## What the code writes -/

/-- The string written for the calldata. -/
def dataString (tx : Transaction) : List UInt8 :=
  if tx.data = 0 ∨ tx.dataLen = 0 then itemString ((leBytes 8 tx.data.toNat).take 1)
  else itemString tx.calldata

/-- The strings `tx_encode` writes for the transaction itself. -/
def fieldStrings (stack : ℕ → UInt8) (tx : Transaction) : List (List UInt8) :=
  [beBytes tx.nonce.toNat, beBytes tx.gasPrice.toNat, beBytes tx.gasLimit.toNat, tx.toAddr.a.toList,
    uint256String stack tx.value, dataString tx]

/-- The strings `tx_encode` writes for a signature. -/
def signatureStrings (stackR stackS : ℕ → UInt8) (sig : Signature) : List (List UInt8) :=
  [beBytes sig.v.toNat, uint256String stackR sig.r, uint256String stackS sig.s]

/-- A 32-bit number has at most four bytes. -/
theorem length_beBytes_uint32 (x : UInt32) : (beBytes x.toNat).length ≤ 4 :=
  length_beBytes_le_iff.mpr (lt_of_lt_of_eq x.toNat_lt (by norm_num))

/-- A 256-bit number has at most 32 bytes. -/
theorem length_beBytes_uint256 (x : Uint256) : (beBytes x.toNat).length ≤ 32 :=
  length_beBytes_le_iff.mpr (lt_of_lt_of_eq x.toNat_lt (by norm_num))

/-- An encoding is at most five bytes longer than a string of less than `2 ^ 32` bytes, and never
shorter. -/
theorem length_encodeStr {s : List UInt8} (h : s.length < 2 ^ 32) :
    s.length ≤ (encodeStr s).length ∧ (encodeStr s).length ≤ s.length + 5 := by
  unfold encodeStr lenPrefix
  have : (beBytes s.length).length ≤ 4 := length_beBytes_le_iff.mpr (by omega)
  split
  · omega
  · split
    · simp
    · simp
      omega

/-- A short string takes one byte more, or none. -/
theorem length_encodeStr_le {s : List UInt8} (h : s.length ≤ 55) :
    (encodeStr s).length ≤ s.length + 1 := by
  unfold encodeStr
  split
  · omega
  · rw [lenPrefix, if_pos h]
    simp

/-- `rlp_encode_item` on the pointer variable writes a string of at most one byte. -/
theorem rlpEncodeItem_pointer (m : Region) (p : ℕ) (data : UInt64) :
    rlpEncodeItem m p (leBytes 8 data.toNat) 1 =
      (m.store p (encodeStr (itemString ((leBytes 8 data.toNat).take 1))),
        (encodeStr (itemString ((leBytes 8 data.toNat).take 1))).length) := by
  have h : rlpEncodeItem m p (leBytes 8 data.toNat) 1 =
      rlpEncodeItem m p ((leBytes 8 data.toNat).take 1) ((leBytes 8 data.toNat).take 1).length := by
    simp [rlpEncodeItem, leBytes]
  rw [h, rlpEncodeItem_eq (by simp)]

/-- The state after `bs` was stored behind what `st` holds. -/
def TxOut.push (st : TxOut) (bs : List UInt8) : TxOut :=
  ⟨st.buf.store st.dataP bs, st.dataP + bs.length, (st.totalDataLen + bs.length) % 2 ^ 16⟩

/-- Two blocks stored one after the other. -/
theorem TxOut.push_push (st : TxOut) (a b : List UInt8) : (st.push a).push b = st.push (a ++ b) := by
  simp only [TxOut.push, Region.store_append, List.length_append, Nat.mod_add_mod, Nat.add_assoc]

/-- One item whose writer stores the encoding of `s`, of less than `2 ^ 16` bytes. -/
theorem TxOut.append_eq_push {item : Region → ℕ → Region × ℕ} {s : List UInt8}
    (h : ∀ m p, item m p = (m.store p (encodeStr s), (encodeStr s).length))
    (hlen : (encodeStr s).length < 2 ^ 16) (st : TxOut) :
    st.append item = st.push (encodeStr s) := by
  simp only [TxOut.append, TxOut.push, h, Nat.mod_eq_of_lt hlen]

/-- The state after the payload `bs` was written to the front of the buffer `m`. -/
def TxOut.wrote (m : Region) (bs : List UInt8) : TxOut := ⟨m.store 0 bs, bs.length, bs.length⟩

/-- A payload of less than `2 ^ 16` bytes stored at the front. -/
theorem TxOut.push_start (m : Region) {bs : List UInt8} (hlen : bs.length < 2 ^ 16) :
    (⟨m, 0, 0⟩ : TxOut).push bs = TxOut.wrote m bs := by
  simp only [TxOut.push, TxOut.wrote, Nat.zero_add, Nat.mod_eq_of_lt hlen]

/-- The writer of the calldata stores the encoding of `dataString`. -/
theorem append_data_eq {tx : Transaction} (h : tx.calldata.length < 2 ^ 32 - 5) (st : TxOut) :
    (if tx.data = 0 ∨ tx.dataLen = 0 then
      st.append fun m p => rlpEncodeItem m p (leBytes 8 tx.data.toNat) 1
    else st.append fun m p => rlpEncodeItem m p tx.calldata (tx.dataLen % 2 ^ 32)) =
      st.append fun m p =>
        (m.store p (encodeStr (dataString tx)), (encodeStr (dataString tx)).length) := by
  unfold dataString
  split
  · simp only [rlpEncodeItem_pointer]
  · have hmod : tx.dataLen % 2 ^ 32 = tx.calldata.length := Nat.mod_eq_of_lt (by
      unfold Transaction.dataLen
      omega)
    simp only [hmod, rlpEncodeItem_eq h]

/-- The writer of the destination stores its encoding. -/
theorem rlpEncodeItem_to (m : Region) (p : ℕ) (addr : Address) :
    rlpEncodeItem m p addr.a.toList 20 =
      (m.store p (encodeStr addr.a.toList), (encodeStr addr.a.toList).length) := by
  have hlen : addr.a.toList.length = 20 := by simp
  have h0 : itemString addr.a.toList = addr.a.toList := by
    rw [itemString_eq_iff]
    intro h
    simp [h] at hlen
  have := rlpEncodeItem_eq (show addr.a.toList.length < 2 ^ 32 - 5 by omega) m p
  rwa [h0, hlen] at this

/-- The payload of the transaction itself. -/
def fieldBytes (stack : ℕ → UInt8) (tx : Transaction) : List UInt8 :=
  (fieldStrings stack tx).flatMap encodeStr

/-- The items are written one after the other, as long as the counters hold the length of each. -/
theorem txEncodeFields_eq_push (stack : ℕ → UInt8) {tx : Transaction} (m : Region)
    (hdata : tx.calldata.length < 2 ^ 32 - 5)
    (hitem : (encodeStr (dataString tx)).length < 2 ^ 16) :
    txEncodeFields stack tx m = (⟨m, 0, 0⟩ : TxOut).push (fieldBytes stack tx) := by
  have hshort : ∀ s : List UInt8, s.length ≤ 55 → (encodeStr s).length < 2 ^ 16 := by
    intro s hs
    have := length_encodeStr_le hs
    omega
  have hn := hshort _ ((length_beBytes_uint32 tx.nonce).trans (by omega))
  have hp := hshort _ ((length_beBytes_uint32 tx.gasPrice).trans (by omega))
  have hl := hshort _ ((length_beBytes_uint32 tx.gasLimit).trans (by omega))
  have ha := hshort tx.toAddr.a.toList (by simp)
  have hv := hshort _ ((length_uint256String_le stack tx.value).trans (by omega))
  rw [← UInt32.toNat_toUInt64] at hn hp hl
  unfold txEncodeFields
  rw [append_data_eq hdata,
    TxOut.append_eq_push (fun m p => rlpEncodeInteger_eq m p _) hn,
    TxOut.append_eq_push (fun m p => rlpEncodeInteger_eq m p _) hp,
    TxOut.append_eq_push (fun m p => rlpEncodeInteger_eq m p _) hl,
    TxOut.append_eq_push (fun m p => rlpEncodeItem_to m p _) ha,
    TxOut.append_eq_push (fun m p => rlpEncodeUint256_eq stack m p _) hv,
    TxOut.append_eq_push (fun m p => rfl) hitem]
  simp [TxOut.push_push, fieldBytes, fieldStrings]

/-- **The items are written one after the other**, as long as they take less than `2 ^ 16` bytes. -/
theorem txEncodeFields_eq (stack : ℕ → UInt8) {tx : Transaction} (m : Region)
    (hdata : tx.calldata.length < 2 ^ 32 - 5) (hlen : (fieldBytes stack tx).length < 2 ^ 16) :
    txEncodeFields stack tx m = TxOut.wrote m (fieldBytes stack tx) := by
  rw [← TxOut.push_start m hlen]
  apply txEncodeFields_eq_push stack m hdata
  simp only [fieldBytes, fieldStrings, List.flatMap_cons, List.flatMap_nil, List.append_nil,
    List.length_append] at hlen
  omega

/-! ## The header -/

/-- The header is prepended canonically at every payload length but 55. -/
theorem prependHeader_eq (m : Region) {bs : List UInt8} (hlen : bs.length < 2 ^ 16 - 3)
    (h55 : bs.length ≠ 55) :
    prependHeader (TxOut.wrote m bs) = (m.store 0 (lenPrefix 0xc0 bs.length ++ bs),
      ((lenPrefix 0xc0 bs.length ++ bs).length : ℤ)) := by
  have hhead := length_arrayHeader h55 (by omega)
  have hbe : (beBytes bs.length).length ≤ 2 := length_beBytes_le_iff.mpr (by omega)
  have hshort : rlpHeaderLen bs.length ≤ 3 := by
    rw [← hhead]
    unfold arrayHeader
    split
    · simp
    · simp only [List.length_cons]
      omega
  have hbuf : ((m.store 0 bs).store (rlpHeaderLen bs.length) bs).store 0
      (arrayHeader bs.length) = m.store 0 (arrayHeader bs.length ++ bs) := by
    have hstore := (m.store 0 bs).store_before 0 (arrayHeader bs.length) bs
    rw [Nat.zero_add, hhead] at hstore
    rw [hstore, m.store_store_of_subset le_rfl (by simp)]
  simp only [prependHeader, TxOut.wrote, Region.move, Region.load_store,
    rlpEncodeArrayHeader_eq (show bs.length < 2 ^ 32 by omega), hbuf,
    ← arrayHeader_eq_lenPrefix h55]
  refine Prod.ext rfl ?_
  simp only [List.length_append, hhead]
  omega

/-- With 55 payload bytes the header overwrites the first of them. -/
theorem prependHeader_55 (m : Region) {bs : List UInt8} (h55 : bs.length = 55) :
    prependHeader (TxOut.wrote m bs) = (m.store 0 (0xf8 :: 55 :: bs.tail), 56) := by
  obtain ⟨b, bs, rfl⟩ := List.exists_cons_of_ne_nil (show bs ≠ [] by rintro rfl; simp at h55)
  have hhead : arrayHeader 55 = [0xf8, 55] := by decide
  have hlen : rlpHeaderLen 55 = 1 := by decide
  have hbuf : ((m.store 0 (b :: bs)).store 1 (b :: bs)).store 0 [0xf8, 55] =
      m.store 0 (0xf8 :: 55 :: bs) := by
    have hsplit := (m.store 0 (b :: bs)).store_before 1 [b] bs
    have hjoin := (m.store 0 (b :: bs)).store_before 0 [0xf8, 55] bs
    rw [List.singleton_append] at hsplit
    rw [← hsplit, Region.store_store_of_subset _ (Nat.zero_le 1) (by simp)]
    refine hjoin.trans ?_
    exact m.store_store_of_subset le_rfl (by simp)
  simp only [prependHeader, TxOut.wrote, h55, Region.move, hlen, List.tail_cons,
    rlpEncodeArrayHeader_eq (show 55 < 2 ^ 32 by omega), hhead]
  rw [← h55, Region.load_store, hbuf, h55]
  rfl

end AnylWallet.Eth
