import AnylWallet.Zephyr.Device

/-!
# `zephyr-wallet/wallet`: `wallet transfer`

* `walletTransfer` follows the source: `errno` is not set to zero before the amount is converted,
  and the nonce of the account stays as it is.
* `walletTransfer_cases`: it ends before anything is signed, with the static variables as they were
  but for `errno`, or it signs one transaction to the address that `hextobin` read.
-/

namespace AnylWallet.Zephyr

open AnylWallet.Lib AnylWallet.Helpers AnylWallet.Eth

/-- The transaction of `wallet_transfer`. -/
def transferTx (nonce : UInt32) (toAddr : Address) (txValue : UInt64) : Transaction where
  nonce := nonce
  gasPrice := 1 * 1000000000
  gasLimit := 21000
  toAddr := toAddr
  value := set256Uint64 txValue
  data := 0
  calldata := []

/-- `wallet_transfer`. Source: `zephyr-wallet/wallet.c` -/
def walletTransfer (dev : Device) (call : Call) (st : State) (argv : List (List UInt8)) :
    Except Fault Outcome :=
  -- first parameter is recipient address
  if argv.length < 2 then .ok (st.fail (-1) "missing argument: address\n")
  else
    withAddress dev (argv.getD 1 []) call.addr
      (fun _ => st.fail (-1) "invalid argument: address\n") fun toAddr =>
    -- amount to send
    if argv.length < 3 then .ok (st.fail (-1) "missing argument: transfer amount\n")
    else
      let txValue := strtoul 10 (argv.getD 2 [])
      let st := { st with errno := errnoAfter txValue st.errno }
      if st.errno ≠ 0 ∨ txValue.size ≠ (argv.getD 2 []).length then
        .ok (st.fail (-1) "invalid argument: amount\n")
      -- build the transaction
      else .ok (finishTransfer dev call st (transferTx st.account.nonce toAddr txValue.value) [])

variable {dev : Device} {call : Call} {st : State} {argv : List (List UInt8)}

/-- **What `wallet transfer` does**: it is quiet, or it signs one transaction, to the address that
`hextobin` read. -/
theorem walletTransfer_cases {o : Outcome} (h : walletTransfer dev call st argv = .ok o) :
    o.Quiet st ∨ Accepts dev.asserts 20 (argv.getD 1 []) ∧
      ∃ txValue, o = finishTransfer dev call { st with errno := 0 }
        (transferTx st.account.nonce (addressOf (keptBytes 20 (argv.getD 1 []))) txValue) [] := by
  unfold walletTransfer at h
  split at h
  · cases h
    exact Or.inl (State.fail_quiet rfl _ _)
  · rcases withAddress_cases _ _ _ h with ⟨hacc, h⟩ | ⟨a, rfl⟩
    · split at h
      · cases h
        exact Or.inl (State.fail_quiet rfl _ _)
      · dsimp only at h
        split at h
        · cases h
          exact Or.inl (State.fail_quiet rfl _ _)
        · rename_i hamount
          have herrno : errnoAfter (strtoul 10 (argv.getD 2 [])) st.errno = 0 :=
            not_not.mp fun hne => hamount (Or.inl hne)
          rw [herrno] at h
          exact Or.inr ⟨hacc, _, (Except.ok.inj h).symm⟩
    · exact Or.inl (State.fail_quiet rfl _ _)

/-- It signs when the address and the amount are accepted. -/
theorem walletTransfer_ok (haddr : Accepts dev.asserts 20 (argv.getD 1 [])) (hargc : 3 ≤ argv.length)
    (herrno : errnoAfter (strtoul 10 (argv.getD 2 [])) st.errno = 0)
    (hsize : (strtoul 10 (argv.getD 2 [])).size = (argv.getD 2 []).length) :
    walletTransfer dev call st argv = .ok (finishTransfer dev call { st with errno := 0 }
      (transferTx st.account.nonce (addressOf (keptBytes 20 (argv.getD 1 [])))
        (strtoul 10 (argv.getD 2 [])).value) []) := by
  unfold walletTransfer
  rw [if_neg (by omega), withAddress_of_accepts _ _ _ haddr, if_neg (by omega)]
  dsimp only
  rw [herrno, if_neg (not_or.mpr ⟨not_not.mpr rfl, not_not.mpr hsize⟩)]

end AnylWallet.Zephyr
