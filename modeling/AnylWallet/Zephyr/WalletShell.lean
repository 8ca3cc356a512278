import AnylWallet.Helpers.Divmod256
import AnylWallet.Zephyr.Device

/-!
# `zephyr-wallet/wallet`: the other commands

* `walletSetPk` sets the key of the account and the address derived from it
  (`walletSetGlobalPrivkey`).
* `wallet nonce`, `wallet gas_price` and `wallet gas_limit` are one function with another field
  (`walletSetNumber`). It reads the number with `convertUlong`, which does not set `errno` to zero
  before it looks at it.
* `convertUlong_eq_some_iff`: what `convertUlong` takes for a number.
-/

namespace AnylWallet.Zephyr

open AnylWallet.Lib AnylWallet.Helpers AnylWallet.Eth

/-- The third-party functions of the other commands. -/
structure Firmware extends Device where
  /-- `ecdsa_get_public_key65` on secp256k1. -/
  ecdsaGetPublicKey65 : Vector UInt8 32 → Vector UInt8 65
  /-- `Token_balanceOf`: the calldata, or nothing where it returns a negative number. -/
  tokenBalanceOf : Address → Option (List UInt8)
  /-- `Token_totalSupply`. -/
  tokenTotalSupply : Option (List UInt8)

/-- The address of a key. -/
def Firmware.addressOfKey (fw : Firmware) (privkey : Vector UInt8 32) : Address :=
  privkeyToEthereumAddress fw.crypto fw.ecdsaGetPublicKey65 privkey

/-- What a command does, beside an `Effect`. -/
inductive Act where
  | effect (e : Effect)
  /-- `printk_hex`. -/
  | printedHex (data : List UInt8)
  /-- `printk_uint256_int`. -/
  | printedInt (v : Uint256) (decimals fmt : UInt8)
  /-- `shell_print_decimal_u256`. -/
  | printedDecimal (v : Uint256) (decimals : UInt8)
  /-- `web3_eth_getTransactionCount` is called. -/
  | getTransactionCount (addr : Address)
  /-- `web3_eth_getBalance` is called. -/
  | getBalance (addr : Address)

/-- What a command ends with. -/
structure Ended where
  state : State
  ret : ℤ
  acts : List Act

/-- An outcome whose acts are effects. -/
def Outcome.ended (o : Outcome) : Ended := ⟨o.state, o.ret, o.effects.map .effect⟩

/-- A text is printed. -/
def Act.text (text : String) : Act := .effect (.printed text)

/-! ## The key -/

/-- The 32 bytes as a key. -/
def keyOf (bytes : List UInt8) : Vector UInt8 32 := Vector.ofFn fun i => bytes.getD i 0

/-- `wallet_set_global_privkey`: the account behind it. Source: `zephyr-wallet/wallet.c` -/
def walletSetGlobalPrivkey (fw : Firmware) (pk : Vector UInt8 32) (account : Account) : Account :=
  { account with privkey := pk, address := fw.addressOfKey pk }

/-- How the commands read a key: 64 characters, converted with `hextobin`. -/
def withPk (fw : Firmware) (st : State) (str : List UInt8) (valid : Vector UInt8 32 → Ended) :
    Except Fault Ended :=
  if str.length ≠ 64 then
    .ok (st.fail 0 "invalid private key: invalid length (64 chars expected)\n").ended
  else
    match hextobin fw.asserts str (List.replicate 32 0) with
    | .error fault => .error fault
    | .ok (pk, ret) =>
        if ret < 0 then .ok (st.fail 0 "Invalid private key.\n").ended else .ok (valid (keyOf pk))

/-- `wallet_set_pk`. Source: `zephyr-wallet/wallet.c` -/
def walletSetPk (fw : Firmware) (st : State) (argv : List (List UInt8)) : Except Fault Ended :=
  if argv.length ≤ 1 then
    .ok ⟨st, 0, [.printedHex st.account.privkey.toList, .text "\n"]⟩
  else
    withPk fw st (argv.getD 1 []) fun pk =>
      ⟨{ st with account := walletSetGlobalPrivkey fw pk st.account }, 0, []⟩

/-- `wallet_pk2addr`. Source: `zephyr-wallet/wallet.c` -/
def walletPk2addr (fw : Firmware) (st : State) (argv : List (List UInt8)) : Except Fault Ended :=
  if argv.length ≤ 1 then
    let name : String := String.ofList ((argv.getD 0 []).map fun c => Char.ofNat c.toNat)
    .ok (st.fail 0 ("usage: " ++ name ++ " <hex_privkey>\n")).ended
  else
    withPk fw st (argv.getD 1 []) fun pk =>
      ⟨st, 0, [.printedHex (fw.addressOfKey pk).a.toList, .text "\n"]⟩

/-- A key is refused, or used. -/
theorem withPk_cases {fw : Firmware} {st : State} {str : List UInt8}
    {valid : Vector UInt8 32 → Ended} {o : Ended} (h : withPk fw st str valid = .ok o) :
    (∃ text, o = (st.fail 0 text).ended) ∨ ∃ pk, o = valid pk := by
  unfold withPk at h
  split at h
  · exact Or.inl ⟨_, (Except.ok.inj h).symm⟩
  · split at h
    · cases h
    · split at h
      · exact Or.inl ⟨_, (Except.ok.inj h).symm⟩
      · exact Or.inr ⟨_, (Except.ok.inj h).symm⟩

/-! ## The numbers -/

/-- `__convert_ulong`: `errno` behind it, and the number, or nothing where it prints that the
argument is invalid and returns -1. Source: `zephyr-wallet/wallet.c` -/
def convertUlong (str : List UInt8) (errno : ℤ) : ℤ × Option UInt32 :=
  if str.head? = some '-'.toUInt8 then (errno, none)
  else
    let val := strtoul 10 str
    let errno := errnoAfter val errno
    if errno ≠ 0 ∨ val.size ≠ str.length then (errno, none)
    -- `*output` is a `uint32_t`
    else (errno, some val.value.toUInt32)

/-- The commands that print a number of the account, or set it. -/
def walletSetNumber (name : String) (get : Account → UInt32) (set : UInt32 → Account → Account)
    (st : State) (argv : List (List UInt8)) : Outcome :=
  if argv.length ≤ 1 then ⟨st, 0, [.printed (toString (get st.account) ++ "\n")]⟩
  else
    match convertUlong (argv.getD 1 []) st.errno with
    | (errno, none) => { st with errno := errno }.fail (-1) ("invalid argument: " ++ name ++ "\n")
    | (errno, some val) => ⟨{ st with errno := errno, account := set val st.account }, 0, []⟩

/-- The account with another nonce. -/
def Account.setNonce (n : UInt32) (account : Account) : Account := { account with nonce := n }

/-- The account with another gas price. -/
def Account.setGasPrice (n : UInt32) (account : Account) : Account := { account with gasPrice := n }

/-- The account with another gas limit. -/
def Account.setGasLimit (n : UInt32) (account : Account) : Account := { account with gasLimit := n }

/-- `wallet_set_nonce`. Source: `zephyr-wallet/wallet.c` -/
def walletSetNonce := walletSetNumber "set_nonce" Account.nonce Account.setNonce

/-- `wallet_set_gas_price`. Source: `zephyr-wallet/wallet.c` -/
def walletSetGasPrice := walletSetNumber "gas_price" Account.gasPrice Account.setGasPrice

/-- `wallet_set_gas_limit`. Source: `zephyr-wallet/wallet.c` -/
def walletSetGasLimit := walletSetNumber "gas_limit" Account.gasLimit Account.setGasLimit

/-! ## The node -/

/-- `wallet_sync`. Source: `zephyr-wallet/wallet.c` -/
def walletSync (call : Call) (st : State) : Ended :=
  let acts := [.getTransactionCount st.account.address]
  let st := { st with errno := call.reply.errno }
  if call.reply.ret < 0 then
    ⟨st, 0, acts ++ [.text "Error: eth_getTransactionCount failed\n"]⟩
  else
    -- `nonce` is a `uint32_t`
    ⟨{ st with account := st.account.setNonce call.reply.out.lower.lower.toUInt32 }, 0, acts⟩

/-- `wallet_balance`. Source: `zephyr-wallet/wallet.c` -/
def walletBalance (call : Call) (st : State) : Ended :=
  let decimals := set256Uint64 1000000000000000000
  let acts := [.getBalance st.account.address]
  let st := { st with errno := call.reply.errno }
  if call.reply.ret < 0 then ⟨st, -1, acts ++ [.text "Error: eth_getBalance failed"]⟩
  else
    let (div, mod) := divmod256 call.reply.out decimals
    -- `FMT_EMPTY`, and then `FMT_FIXED | FMT_NO_TRAIL_ZERO`
    ⟨st, 0, acts ++ [.printedInt div 0 0, .text ".", .printedInt mod 18 3, .text "\n"]⟩

/-! ## What is taken for a number -/

/-- **What `__convert_ulong` takes for a number**: with `errno` zero before, an empty string, or an
integer whose digits denote less than `2 ^ 64` and that does not start with a minus. -/
theorem convertUlong_isSome_iff {s : List UInt8} {errno : ℤ} :
    (convertUlong s errno).2.isSome = true ↔
      errno = 0 ∧ s.head? ≠ some '-'.toUInt8 ∧
        (s = [] ∨ ∃ sign digits, IsInteger s sign digits ∧ numberOf 10 digits < 2 ^ 64) := by
  rw [← strtoul_whole_iff]
  unfold convertUlong errnoAfter
  by_cases hminus : s.head? = some '-'.toUInt8
  · simp [hminus]
  · rw [if_neg hminus]
    dsimp only
    cases (strtoul 10 s).erange with
    | false =>
        by_cases herrno : errno = 0 <;> by_cases hsize : (strtoul 10 s).size = s.length <;>
          simp [herrno, hsize, hminus]
    | true => simp [erange]

/-- **The number of a numeral**, if `errno` is zero before. -/
theorem convertUlong_isNumeral {s : List UInt8} {n : ℕ} (h : IsNumeral s n) (hlt : n < 2 ^ 32) :
    convertUlong s 0 = (0, some (UInt32.ofNat n)) := by
  obtain ⟨herange, hsize, hvalue⟩ := strtoul_isNumeral h (hlt.trans (by norm_num))
  have hword : (strtoul 10 s).value.toUInt32 = UInt32.ofNat n := by
    rw [← UInt32.toNat_inj, UInt64.toNat_toUInt32, hvalue, UInt32.toNat_ofNat']
  unfold convertUlong errnoAfter
  rw [if_neg h.head?_ne_minus]
  simp only [herange, hsize, hword, Bool.false_eq_true, if_false, ne_eq, not_true_eq_false, or_self]

/-- The sample device, with a public key that starts with the private one. -/
def sampleFirmware : Firmware where
  toDevice := sampleDevice false
  ecdsaGetPublicKey65 k := ⟨(k.toList ++ List.replicate 33 0).toArray, by simp⟩
  tokenBalanceOf addr := some ([0x70, 0xa0, 0x82, 0x31] ++ List.replicate 12 0 ++ addr.a.toList)
  tokenTotalSupply := some [0x18, 0x16, 0x0d, 0xdd]

end AnylWallet.Zephyr
