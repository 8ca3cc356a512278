import AnylWallet.Eth.Transaction
import AnylWallet.Helpers.HextobinAccepts
import AnylWallet.Helpers.Strtol

/-!
# The device that the shell commands run on

* `State` is what the firmware keeps between two commands. `Device` is what does not change: the
  cryptography, and the functions that the ABI compiler generates for the token contract.
* `Call` is what one command meets: the memory on its stack, and what the one request it may make
  returns. A command makes at most one, so the answer is given with it.
* A command returns an `Outcome`: the state behind it, what it returns, and its `Effect`s in order.
-/

namespace AnylWallet.Zephyr

open AnylWallet.Lib AnylWallet.Helpers AnylWallet.Eth

/-- `account_t`. Source: `zephyr-wallet/wallet.h` -/
structure Account where
  privkey : Vector UInt8 32
  address : Address
  nonce : UInt32
  gasPrice : UInt32
  gasLimit : UInt32

/-- `token_nfo_t`. Source: `zephyr-wallet/erc20_shell.c` -/
structure TokenNfo where
  address : Address
  decimals : UInt8
  /-- `TOKEN_SYMBOL_MAX` characters and a NUL. -/
  symbol : Vector UInt8 4
  used : UInt8
deriving DecidableEq

/-- `TOKENS_MAX`. Source: `zephyr-wallet/erc20_shell.c` -/
def tokensMax : ℕ := 5

/-- The static variables of the commands, and `errno` of the thread of the shell. -/
structure State where
  /-- `_account`. Source: `zephyr-wallet/wallet.c` -/
  account : Account
  /-- `_tokens`. Source: `zephyr-wallet/erc20_shell.c` -/
  tokens : Vector TokenNfo tokensMax
  /-- `_upload_addr`. Source: `zephyr-wallet/upload.c` -/
  uploadAddr : Address
  /-- `_upload_interval`. Source: `zephyr-wallet/upload.c` -/
  uploadInterval : UInt16
  errno : ℤ

/-- What a build of the firmware is made of. -/
structure Device where
  /-- Assertions are compiled in. -/
  asserts : Bool
  crypto : Crypto
  /-- `Token_transfer`: the calldata, or nothing where it returns a negative number. -/
  tokenTransfer : Address → Uint256 → Option (List UInt8)
  /-- `Token_decimals`. -/
  tokenDecimals : Option (List UInt8)

/-- What a `web3_eth_*` function returns. -/
structure Reply where
  ret : ℤ
  /-- The number stored at `out`. -/
  out : Uint256
  /-- `errno` behind the call. -/
  errno : ℤ

/-- What one command meets. -/
structure Call where
  /-- The stacks of the two calls of `tx_encode`. -/
  stk : Stacks
  stk' : Stacks
  /-- The array `buf`, before anything is stored. -/
  buf : Region
  /-- The `address_t` on the stack, before anything is stored. -/
  addr : Address
  /-- Where the array `datablk` or `tx_data` lies. -/
  datablk : UInt64
  /-- The answer to the request. -/
  reply : Reply
  /-- `k_sem_take` takes the semaphore. -/
  semTaken : Bool

/-- What a command does. -/
inductive Effect where
  /-- A text is printed. -/
  | printed (text : String)
  /-- `printk_uint256`. -/
  | printedUint256 (v : Uint256)
  /-- `Token_transfer` is called. -/
  | encoded (addr : Address) (amount : Uint256)
  /-- `tx_encode_sign` is called. -/
  | signed (tx : Transaction)
  /-- `web3_eth_sendRawTransaction` is called. -/
  | sent (rawtx : List UInt8)
  /-- `web3_eth_call` is called. -/
  | called (sender : Address) (tx : Transaction)
  /-- `k_thread_create` is called, with the address that the thread uploads to. -/
  | started (addr : Address)

/-- What a command ends with. -/
structure Outcome where
  state : State
  ret : ℤ
  effects : List Effect

/-- The 20 bytes as an address. -/
def addressOf (bytes : List UInt8) : Address := ⟨Vector.ofFn fun i => bytes.getD i 0⟩

/-- `ERANGE`. -/
def erange : ℤ := 34

/-- `errno` behind a conversion. -/
def errnoAfter {α : Type} (conv : Converted α) (errno : ℤ) : ℤ :=
  if conv.erange then erange else errno

/-- A command that prints a text and ends. -/
def State.fail (st : State) (ret : ℤ) (text : String) : Outcome := ⟨st, ret, [.printed text]⟩

/-- Sign with `tx_encode_sign`, in a buffer of 256 bytes, and send with
`web3_eth_sendRawTransaction`. -/
def signAndSend (dev : Device) (call : Call) (st : State) (tx : Transaction) : List Effect :=
  let (buf, txlen) := txEncodeSign dev.crypto call.stk call.stk' tx st.account.privkey call.buf 256
  -- `txlen` is a `size_t`
  [.signed tx, .sent (buf.load 0 (txlen % 2 ^ 64).toNat)]

/-- The end of a transfer: sign and send, then report the hash or the failure. -/
def finishTransfer (dev : Device) (call : Call) (st : State) (tx : Transaction)
    (before : List Effect) : Outcome :=
  let effects := before ++ signAndSend dev call st tx
  let st := { st with errno := call.reply.errno }
  if call.reply.ret < 0 then
    ⟨st, -1, effects ++ [.printed "Error: eth_sendRawTransaction()\n"]⟩
  else ⟨st, 0, effects ++ [.printedUint256 call.reply.out]⟩

/-- How every command reads a destination: convert the string with `hextobin`, to the address at
`addr`, and end if the result is negative. -/
def withAddress (dev : Device) (str : List UInt8) (addr : Address) (invalid : Address → Outcome)
    (valid : Address → Except Fault Outcome) : Except Fault Outcome := do
  let (bytes, ret) ← hextobin dev.asserts str addr.a.toList
  if ret < 0 then .ok (invalid (addressOf bytes)) else valid (addressOf bytes)

/-- The address of its 20 bytes. -/
@[simp] theorem addressOf_toList (addr : Address) : addressOf addr.a.toList = addr := by
  obtain ⟨a⟩ := addr
  refine congrArg Address.mk (Vector.ext fun i hi => ?_)
  simp [List.getD_eq_getElem?_getD]

section

variable {dev : Device} {str : List UInt8} (addr : Address) (invalid : Address → Outcome)
  (valid : Address → Except Fault Outcome)

/-- A string that `hextobin` accepts. -/
theorem withAddress_of_accepts (h : Accepts dev.asserts 20 str) :
    withAddress dev str addr invalid valid = valid (addressOf (keptBytes 20 str)) := by
  have hlen : addr.a.toList.length = 20 := by simp
  have hread := hextobin_of_accepts (by omega) (hlen.symm ▸ h)
  rw [hlen] at hread
  have hret : ¬ (((strip0x str).length / 2 : ℕ) : ℤ) < 0 := Int.not_lt.mpr (Int.natCast_nonneg _)
  unfold withAddress
  rw [hread]
  exact @if_neg _ _ hret _ (.ok (invalid (addressOf (keptBytes 20 str)))) _

/-- A string that `hextobin` refuses. -/
theorem withAddress_of_neg {bytes : List UInt8} {ret : ℤ}
    (hread : hextobin dev.asserts str addr.a.toList = .ok (bytes, ret)) (hneg : ret < 0) :
    withAddress dev str addr invalid valid = .ok (invalid (addressOf bytes)) := by
  unfold withAddress
  rw [hread]
  exact @if_pos _ _ hneg (Except Fault Outcome) (.ok (invalid (addressOf bytes))) _

/-- A string for which the assertion does not hold. -/
theorem withAddress_of_error {fault : Fault}
    (hread : hextobin dev.asserts str addr.a.toList = .error fault) :
    withAddress dev str addr invalid valid = .error fault := by
  unfold withAddress
  rw [hread]
  rfl

/-- Any other string. -/
theorem withAddress_of_not_accepts (h : ¬ Accepts dev.asserts 20 str) :
    withAddress dev str addr invalid valid = .error .assertion ∨
      ∃ a, withAddress dev str addr invalid valid = .ok (invalid a) := by
  have hlen : addr.a.toList.length = 20 := by simp
  rcases hextobin_of_not_accepts (by omega) (hlen.symm ▸ h) with hread | ⟨bytes, ret, hread, hneg⟩
  · exact Or.inl (withAddress_of_error addr invalid valid hread)
  · exact Or.inr ⟨addressOf bytes, withAddress_of_neg addr invalid valid hread hneg⟩

/-- So a command that ends well has an accepted string, or ends as invalid. -/
theorem withAddress_cases {o : Outcome} (h : withAddress dev str addr invalid valid = .ok o) :
    (Accepts dev.asserts 20 str ∧ valid (addressOf (keptBytes 20 str)) = .ok o) ∨
      ∃ a, o = invalid a := by
  by_cases hacc : Accepts dev.asserts 20 str
  · exact Or.inl ⟨hacc, withAddress_of_accepts addr invalid valid hacc ▸ h⟩
  · rcases withAddress_of_not_accepts addr invalid valid hacc with herror | ⟨a, ha⟩
    · rw [herror] at h
      cases h
    · rw [ha] at h
      exact Or.inr ⟨a, (Except.ok.inj h).symm⟩

end

/-! ## What an outcome says -/

/-- The transaction that is signed. -/
def Effect.signed? : Effect → Option Transaction
  | .signed tx => some tx
  | _ => none

/-- The transactions that a command signs. -/
def Outcome.signed (o : Outcome) : List Transaction := o.effects.filterMap Effect.signed?

/-- Nothing is signed, sent, stored or started: texts are printed, and `errno` may be set. -/
structure Outcome.Quiet (o : Outcome) (st : State) : Prop where
  state : o.state = { st with errno := o.state.errno }
  effects : ∀ e ∈ o.effects, ∃ text, e = .printed text

/-- A failure is quiet. -/
theorem State.fail_quiet {st st' : State} (h : st' = { st with errno := st'.errno }) (ret : ℤ)
    (text : String) : (st'.fail ret text).Quiet st :=
  ⟨h, fun _ he => ⟨text, List.mem_singleton.mp he⟩⟩

/-- A quiet command signs nothing. -/
theorem Outcome.Quiet.signed_eq {o : Outcome} {st : State} (h : o.Quiet st) : o.signed = [] := by
  refine List.filterMap_eq_nil_iff.mpr fun e he => ?_
  obtain ⟨text, rfl⟩ := h.effects e he
  rfl

section

variable (dev : Device) (call : Call) (st : State) (tx : Transaction) (before : List Effect)

/-- A transfer changes nothing but `errno`. -/
theorem finishTransfer_state :
    (finishTransfer dev call st tx before).state = { st with errno := call.reply.errno } := by
  unfold finishTransfer
  dsimp only
  split
  · rfl
  · rfl

/-- Its effects, up to the report. -/
theorem finishTransfer_effects :
    ∃ report, (finishTransfer dev call st tx before).effects =
        before ++ (signAndSend dev call st tx ++ [report]) ∧
      (report = .printed "Error: eth_sendRawTransaction()\n" ∨
        report = .printedUint256 call.reply.out) := by
  unfold finishTransfer
  dsimp only
  split
  · exact ⟨_, List.append_assoc _ _ _, Or.inl rfl⟩
  · exact ⟨_, List.append_assoc _ _ _, Or.inr rfl⟩

/-- No transfer is encoded any more. -/
theorem encoded_mem_finishTransfer {addr : Address} {amount : Uint256}
    (h : .encoded addr amount ∈ (finishTransfer dev call st tx before).effects) :
    .encoded addr amount ∈ before := by
  obtain ⟨report, heffects, hreport⟩ := finishTransfer_effects dev call st tx before
  rw [heffects] at h
  simp only [signAndSend, List.mem_append, List.mem_cons, List.not_mem_nil, or_false,
    reduceCtorEq, false_or] at h
  refine h.resolve_right fun heq => ?_
  rcases hreport with rfl | rfl
  · cases heq
  · cases heq

/-- It signs the one transaction. -/
theorem finishTransfer_signed (h : before.filterMap Effect.signed? = []) :
    (finishTransfer dev call st tx before).signed = [tx] := by
  obtain ⟨report, heffects, hreport⟩ := finishTransfer_effects dev call st tx before
  have hsend : (signAndSend dev call st tx).filterMap Effect.signed? = [tx] := rfl
  have hnone : report.signed? = none := by
    rcases hreport with rfl | rfl
    · rfl
    · rfl
  rw [Outcome.signed, heffects, List.filterMap_append, h, List.filterMap_append, hsend,
    List.filterMap_cons_none hnone]
  rfl

/-- So it is not quiet. -/
theorem finishTransfer_not_quiet (h : before.filterMap Effect.signed? = []) (st' : State) :
    ¬ (finishTransfer dev call st tx before).Quiet st' := by
  intro hquiet
  have hnil := hquiet.signed_eq
  rw [finishTransfer_signed dev call st tx before h] at hnil
  cases hnil

end

/-! ## A device to run the commands on -/

/-- A device whose token functions encode as the ABI says; hashes and signatures are constant. -/
def sampleDevice (asserts : Bool) : Device where
  asserts := asserts
  crypto := ⟨fun _ => Vector.replicate 32 0, fun _ _ =>
    (Vector.replicate 32 1, Vector.replicate 32 1, 0)⟩
  tokenTransfer := fun addr amount =>
    some ([0xa9, 0x05, 0x9c, 0xbb] ++ List.replicate 12 0 ++ addr.a.toList ++ amount.image)
  tokenDecimals := some [0x31, 0x3c, 0xe5, 0x67]

/-- An address of zeros. -/
def zeroAddress : Address := ⟨Vector.replicate 20 0⟩

/-- Its digits are read. -/
theorem accepts_zeroAddress (asserts : Bool) : Accepts asserts 20 (hexText zeroAddress.a.toList) :=
  accepts_hexText asserts (List.cons_ne_nil _ _)

/-- A call that the node answers. -/
def sampleCall : Call where
  stk := ⟨fun _ => 0, fun _ => 0, fun _ => 0⟩
  stk' := ⟨fun _ => 0, fun _ => 0, fun _ => 0⟩
  buf := ⟨fun _ => 0, 0⟩
  addr := zeroAddress
  datablk := 0x20000000
  reply := ⟨0, clear256, 0⟩
  semTaken := true

/-- The state after boot, with a token of these decimals in every slot. -/
def sampleState (decimals : UInt8) (uploadAddr : Address) : State where
  account := ⟨Vector.replicate 32 1, zeroAddress, 0, 1000000000, 21000⟩
  tokens := Vector.replicate tokensMax ⟨zeroAddress, decimals, Vector.replicate 4 0, 1⟩
  uploadAddr := uploadAddr
  uploadInterval := 30
  errno := 0

end AnylWallet.Zephyr
