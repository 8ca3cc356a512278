import AnylWallet.Eth.Web3

/-!
# `eth_digest_message`: the bytes a signed message stands for

The digest of a message is taken of a text in front of it, its length as a decimal numeral, and the
message. The numeral is printed to eight bytes.

* `Sha3` is the incremental hasher of trezor-crypto, an arbitrary one whose `keccak_Update`
  concatenates.
* `dataLenText_eq`: of the numeral seven digits are left.
* `agreesWithWallets_iff`: the messages for which `eth_sign` and `address_from_signature` use the digest
  that every other wallet uses.
-/

namespace AnylWallet.Eth

open AnylWallet.Lib AnylWallet.Helpers

/-! ## The code -/

/-- `SHA3_CTX` and the functions of it. -/
structure Sha3 (cr : Crypto) where
  Ctx : Type
  /-- `keccak_256_Init`. -/
  init : Ctx
  /-- `keccak_Update`. -/
  update : Ctx → List UInt8 → Ctx
  /-- `keccak_Final`. -/
  final : Ctx → Vector UInt8 32
  /-- The bytes that have been passed to `keccak_Update`. -/
  fed : Ctx → List UInt8
  fed_init : fed init = []
  fed_update : ∀ ctx data, fed (update ctx data) = fed ctx ++ data
  final_eq : ∀ ctx, final ctx = cr.keccak256 (fed ctx)

instance : Inhabited Crypto where
  default := ⟨fun _ => Vector.replicate 32 0,
    fun _ _ => (Vector.replicate 32 0, Vector.replicate 32 0, 0)⟩

/-- A hasher that keeps the bytes. -/
def Sha3.buffered (cr : Crypto) : Sha3 cr where
  Ctx := List UInt8
  init := []
  update := fun ctx data => ctx ++ data
  final := cr.keccak256
  fed := id
  fed_init := rfl
  fed_update := fun _ _ => rfl
  final_eq := fun _ => rfl

/-- `_msg_prefix`. Source: `eth/sign.c` -/
def msgPrefix : List UInt8 := 0x19 :: ascii "Ethereum Signed Message:\n"

/-- The string in `_data_len`, a `char[8]`. -/
def dataLenText (dataLen : ℕ) : List UInt8 :=
  let buf := (vsnprintf ⟨fun _ => 0, 0⟩ 0 8 (numeral 10 dataLen)).1
  buf.load 0 (strlenLoop buf 8 0)

section

variable {cr : Crypto} (sha : Sha3 cr)

/-- The hasher of `eth_digest_message` before `keccak_Final`. Source: `eth/sign.c` -/
def messageCtx (data : List UInt8) : sha.Ctx :=
  -- first initialize hasher with the prefix
  let hasherCtx := sha.update sha.init msgPrefix
  -- pass a data length (as an ASCII string) to the hasher
  let hasherCtx := sha.update hasherCtx (dataLenText data.length)
  -- lastly pass in the data
  sha.update hasherCtx data

/-- `eth_digest_message`: the digest it stores, and the result. Source: `eth/sign.c` -/
def ethDigestMessage (data : List UInt8) : Vector UInt8 32 × ℤ := (sha.final (messageCtx sha data), 0)

/-- `eth_sign`: the 65 bytes at `signature` afterwards, and the result. Source: `eth/sign.c` -/
def ethSign (privkey : Vector UInt8 32) (data signature : List UInt8) : List UInt8 × ℤ :=
  -- get the digest
  let (digest, ret) := ethDigestMessage sha data
  if ret < 0 then (signature, -1)
  else
    -- sign the digest
    let (r, s, pby) := cr.ecdsaSignDigest privkey digest
    -- add v
    (r.toList ++ s.toList ++ [pby + 27], 0)

/-- `address_from_signature`: the address it stores, and the result. `ecdsa_recover_pub_from_sig` of
trezor-crypto is an arbitrary function. Source: `eth/address.c` -/
def addressFromSignature
    (ecdsaRecoverPubFromSig : List UInt8 → Vector UInt8 32 → UInt32 → Option (Vector UInt8 65))
    (data : List UInt8) (signature : Signature) (addrOut : Address) : Address × ℤ :=
  let (digest, ret) := ethDigestMessage sha data
  if ret ≠ 0 then (addrOut, -1)
  else
    let sign := signature.r.image ++ signature.s.image ++ [0]
    match ecdsaRecoverPubFromSig sign digest (signature.v.toUInt32 - 27) with
    | none => (addrOut, -1)
    | some pubkey => (publickeyToAddress cr pubkey, 0)

end

/-! ## What other wallets do -/

/-- The bytes whose digest is signed for a message. -/
def signedMessage (data : List UInt8) : List UInt8 :=
  0x19 :: ascii "Ethereum Signed Message:\n" ++ numeral 10 data.length ++ data

/-- The signature of a digest: `r`, `s` and `v`. -/
def signatureOfDigest (cr : Crypto) (privkey digest : Vector UInt8 32) : List UInt8 :=
  let (r, s, pby) := cr.ecdsaSignDigest privkey digest
  r.toList ++ s.toList ++ [pby + 27]

/-- The bytes of a message are passed to keccak-256, so its digest is the one that is signed, and the
one from which the address is recovered. -/
structure AgreesWithWallets (data : List UInt8) : Prop where
  fed : ∀ (cr : Crypto) (sha : Sha3 cr), sha.fed (messageCtx sha data) = signedMessage data
  sign : ∀ (cr : Crypto) (sha : Sha3 cr) (privkey : Vector UInt8 32) (signature : List UInt8),
    ethSign sha privkey data signature =
      (signatureOfDigest cr privkey (cr.keccak256 (signedMessage data)), 0)
  recover : ∀ (cr : Crypto) (sha : Sha3 cr)
    (ecdsaRecoverPubFromSig : List UInt8 → Vector UInt8 32 → UInt32 → Option (Vector UInt8 65))
    (signature : Signature) (addrOut : Address),
    addressFromSignature sha ecdsaRecoverPubFromSig data signature addrOut =
      match ecdsaRecoverPubFromSig (signature.r.image ++ signature.s.image ++ [0])
        (cr.keccak256 (signedMessage data)) (signature.v.toUInt32 - 27) with
      | none => (addrOut, -1)
      | some pubkey => (publickeyToAddress cr pubkey, 0)

/-! ## The length -/

/-- **Seven digits of the length are left.** -/
theorem dataLenText_eq (n : ℕ) : dataLenText n = (numeral 10 n).take 7 := by
  have hne : ∀ c ∈ (numeral 10 n).take 7, c ≠ 0 := fun c hc =>
    numeral_ne_zero (by decide) (by decide) c (List.mem_of_mem_take hc)
  have hlen : ((numeral 10 n).take 7).length ≤ 7 := List.length_take_le _ _
  have hholds := Region.holdsString_store ⟨fun _ => 0, 0⟩ 0 hne
  have hprint : (vsnprintf ⟨fun _ => 0, 0⟩ 0 8 (numeral 10 n)).1 =
      Region.store ⟨fun _ => 0, 0⟩ 0 ((numeral 10 n).take 7 ++ [0]) := rfl
  rw [dataLenText, hprint, strlenLoop_holdsString hholds (by omega)]
  exact hholds.load

/-- They are all of them if the length has no more. -/
theorem dataLenText_eq_iff (n : ℕ) : dataLenText n = numeral 10 n ↔ n < 10 ^ 7 := by
  rw [dataLenText_eq]
  constructor
  · intro h
    have hlen : (numeral 10 n).length ≤ 7 := h ▸ List.length_take_le _ _
    exact lt_of_length_numeral_le (by decide) hlen
  · intro h
    exact List.take_of_length_le (length_numeral_le (by decide) (by decide) h)

/-- **The bytes that are passed to the hasher.** -/
theorem fed_messageCtx {cr : Crypto} (sha : Sha3 cr) (data : List UInt8) :
    sha.fed (messageCtx sha data) = msgPrefix ++ dataLenText data.length ++ data := by
  unfold messageCtx
  rw [sha.fed_update, sha.fed_update, sha.fed_update, sha.fed_init, List.nil_append]

/-- They are those of the message only if its length has at most seven digits. -/
theorem fed_eq_signedMessage_iff {cr : Crypto} (sha : Sha3 cr) (data : List UInt8) :
    sha.fed (messageCtx sha data) = signedMessage data ↔ data.length < 10 ^ 7 := by
  have hsplit : signedMessage data = msgPrefix ++ numeral 10 data.length ++ data := rfl
  rw [fed_messageCtx, hsplit, List.append_cancel_right_eq, List.append_cancel_left_eq,
    dataLenText_eq_iff]

/-- **The messages that are signed as other wallets do**: those of at most seven digits in their
length, which the prefix is printed into a `char[8]` with. A longer message is signed with a cut
length. -/
theorem agreesWithWallets_iff (data : List UInt8) :
    AgreesWithWallets data ↔ data.length < 10 ^ 7 := by
  constructor
  · intro h
    exact (fed_eq_signedMessage_iff (Sha3.buffered default) data).mp (h.fed _ _)
  · intro h
    have hfed : ∀ (cr : Crypto) (sha : Sha3 cr),
        sha.fed (messageCtx sha data) = signedMessage data :=
      fun _ sha => (fed_eq_signedMessage_iff sha data).mpr h
    have hdigest : ∀ (cr : Crypto) (sha : Sha3 cr),
        ethDigestMessage sha data = (cr.keccak256 (signedMessage data), 0) := by
      intro cr sha
      rw [ethDigestMessage, sha.final_eq, hfed]
    refine ⟨hfed, ?_, ?_⟩
    · intro cr sha privkey signature
      rw [ethSign, hdigest]
      rfl
    · intro cr sha recoverPub signature addrOut
      rw [addressFromSignature, hdigest]
      rfl

/-- Of ten million bytes only `1000000` is printed. -/
theorem not_agreesWithWallets_long :
    ¬ ∀ data : List UInt8, data.length < 2 ^ 32 → AgreesWithWallets data := by
  intro hall
  obtain ⟨data, hlen⟩ : ∃ data : List UInt8, data.length = 10 ^ 7 :=
    ⟨List.replicate (10 ^ 7) 0, List.length_replicate⟩
  have hfed := (hall data (by rw [hlen]; norm_num)).fed _ (Sha3.buffered default)
  rw [fed_eq_signedMessage_iff, hlen] at hfed
  exact absurd hfed (Nat.lt_irrefl _)

end AnylWallet.Eth
