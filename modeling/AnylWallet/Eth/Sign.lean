import AnylWallet.Helpers.Uint256

/-!
# `eth/sign`: signing a byte string

`keccak_256` and `ecdsa_sign_digest` are third-party code (trezor-crypto): they are the fields of
`Crypto`, arbitrary functions. `ethSignData` copies the 64 signature bytes into two `uint256_t` as
they are, so `r` and `s` hold big-endian bytes in memory and not the numbers they denote
(`image_ethSignData_r`, `image_ethSignData_s`).
-/

namespace AnylWallet.Eth

open AnylWallet.Lib AnylWallet.Helpers

/-- The third-party functions a signature depends on. -/
structure Crypto where
  /-- `keccak_256`. -/
  keccak256 : List UInt8 → Vector UInt8 32
  /-- `ecdsa_sign_digest` on secp256k1: the 32 bytes of `r`, the 32 bytes of `s`, and `pby`. -/
  ecdsaSignDigest : Vector UInt8 32 → Vector UInt8 32 → Vector UInt8 32 × Vector UInt8 32 × UInt8

/-- `signature_t`. Source: `eth/sign.h` -/
structure Signature where
  /-- The first 32 signature bytes. -/
  r : Uint256
  /-- The last 32 signature bytes. -/
  s : Uint256
  /-- The recovery value. -/
  v : UInt8

variable (cr : Crypto)

/-- `eth_sign_data_rawsig`: the 65 bytes it stores. Source: `eth/sign.c` -/
def ethSignDataRawsig (privkey : Vector UInt8 32) (data : List UInt8) : List UInt8 :=
  let digest := cr.keccak256 data
  let (r, s, pby) := cr.ecdsaSignDigest privkey digest
  r.toList ++ s.toList ++ [pby + 27]

/-- `eth_sign_data`: the signature it stores. Source: `eth/sign.c` -/
def ethSignData (privkey : Vector UInt8 32) (data : List UInt8) : Signature :=
  let signature := ethSignDataRawsig cr privkey data
  { v := signature.getD 64 0
    r := Uint256.ofImage (signature.take 32)
    s := Uint256.ofImage ((signature.drop 32).take 32) }

/-- What `ecdsa_sign_digest` returns for the digest of `data`. -/
def signatureOf (privkey : Vector UInt8 32) (data : List UInt8) :
    Vector UInt8 32 × Vector UInt8 32 × UInt8 :=
  cr.ecdsaSignDigest privkey (cr.keccak256 data)

/-- In memory `r` holds the first 32 signature bytes. -/
theorem image_ethSignData_r (privkey : Vector UInt8 32) (data : List UInt8) :
    (ethSignData cr privkey data).r.image = (signatureOf cr privkey data).1.toList := by
  have h : (ethSignDataRawsig cr privkey data).take 32 = (signatureOf cr privkey data).1.toList := by
    simp only [ethSignDataRawsig, List.append_assoc]
    exact List.take_left' (by simp)
  rw [ethSignData, h, Uint256.image_ofImage (by simp)]

/-- In memory `s` holds the last 32 signature bytes. -/
theorem image_ethSignData_s (privkey : Vector UInt8 32) (data : List UInt8) :
    (ethSignData cr privkey data).s.image = (signatureOf cr privkey data).2.1.toList := by
  have h : ((ethSignDataRawsig cr privkey data).drop 32).take 32 =
      (signatureOf cr privkey data).2.1.toList := by
    have hdrop : (ethSignDataRawsig cr privkey data).drop 32 =
        (signatureOf cr privkey data).2.1.toList ++ [(signatureOf cr privkey data).2.2 + 27] := by
      simp only [ethSignDataRawsig, List.append_assoc]
      exact List.drop_left' (by simp)
    rw [hdrop]
    exact List.take_left' (by simp)
  rw [ethSignData, h, Uint256.image_ofImage (by simp)]

/-- The recovery value is `pby + 27`. -/
theorem ethSignData_v (privkey : Vector UInt8 32) (data : List UInt8) :
    (ethSignData cr privkey data).v = (signatureOf cr privkey data).2.2 + 27 := by
  have hlen : ((signatureOf cr privkey data).1.toList ++
      (signatureOf cr privkey data).2.1.toList).length = 64 := by simp
  have h : ethSignDataRawsig cr privkey data = ((signatureOf cr privkey data).1.toList ++
      (signatureOf cr privkey data).2.1.toList) ++ [(signatureOf cr privkey data).2.2 + 27] := rfl
  simp only [ethSignData, h, List.getD_eq_getElem?_getD]
  rw [List.getElem?_append_right (by omega), hlen]
  rfl

end AnylWallet.Eth
