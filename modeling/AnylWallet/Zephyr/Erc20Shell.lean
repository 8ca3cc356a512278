import AnylWallet.Helpers.Endian
import AnylWallet.Helpers.Math
import AnylWallet.Helpers.Uint256Mul
import AnylWallet.Zephyr.Device

/-!
# `zephyr-wallet/erc20_shell`: `erc20 transfer` and `erc20 add`

* A token is chosen by the index of its slot (`getTokenByIndex`), and an amount is read with
  `shellGetUint64`; both set `errno` to zero first.
* `erc20Transfer` multiplies the amount by `ipow 10 decimals`, a word of 64 bits (`amountOf`).
* `erc20Transfer_cases`, `erc20Add_cases`: what the two commands do, with the address that
  `hextobin` read.
-/

namespace AnylWallet.Zephyr

open AnylWallet.Lib AnylWallet.Helpers AnylWallet.Eth

/-- `shell_get_uint64`: `errno` behind it, the number at `out`, and what it returns.
Source: `zephyr-wallet/utils.c` -/
def shellGetUint64 (argval : List UInt8) : ℤ × UInt64 × ℤ :=
  let out := strtoul 10 argval
  let errno := errnoAfter out 0
  if errno ≠ 0 ∨ out.size ≠ argval.length then (errno, out.value, -1) else (errno, out.value, 0)

/-- `_get_token_by_index`: `errno` behind it, and the token, if there is one.
Source: `zephyr-wallet/erc20_shell.c` -/
def getTokenByIndex (tokens : Vector TokenNfo tokensMax) (arg : List UInt8) :
    ℤ × Option TokenNfo :=
  let conv := strtoul 10 arg
  let errno := errnoAfter conv 0
  -- `token_idx` is a `uint8_t`
  let tokenIdx := conv.value.toUInt8
  if errno ≠ 0 ∨ conv.size ≠ arg.length then (errno, none)
  else if h : tokenIdx.toNat < tokensMax then
    if tokens[tokenIdx.toNat].used = 0 then (errno, none) else (errno, some tokens[tokenIdx.toNat])
  else (errno, none)

/-- `_token_add`: the table behind it, and what it returns. Source: `zephyr-wallet/erc20_shell.c` -/
def tokenAdd (tokens : Vector TokenNfo tokensMax) (addr : Address) (decimals : UInt8)
    (symbol : List UInt8) : Vector TokenNfo tokensMax × ℤ :=
  match (List.finRange tokensMax).find? fun i => tokens[i].used ≠ 1 with
  | none => (tokens, -1)
  | some i =>
      -- `strncpy` of `TOKEN_SYMBOL_MAX` characters, and a NUL
      let symbol : Vector UInt8 4 :=
        ⟨#[symbol.getD 0 0, symbol.getD 1 0, symbol.getD 2 0, 0], rfl⟩
      (tokens.set i ⟨addr, decimals, symbol, 1⟩, 0)

/-- The number that is sent: the product of the amount and the power of ten, in big-endian order. -/
def amountOf (txValue : UInt64) (decimals : UInt8) : Uint256 :=
  let decimalsU256 := set256Uint64 (ipow 10 decimals)
  let txValueU256 := set256Uint64 txValue
  -- mul256 requires LE values
  let txResultU256 := mul256 txValueU256 decimalsU256
  -- convert to BE
  Uint256.ofImage (writeu256BE txResultU256)

/-- The transaction of `erc20_transfer`. -/
def tokenTx (acc : Account) (token : Address) (datablk : UInt64) (data : List UInt8) :
    Transaction where
  nonce := acc.nonce
  gasPrice := acc.gasPrice
  gasLimit := 35427
  toAddr := token
  value := clear256
  data := datablk
  calldata := data

/-- `erc20_transfer`. Source: `zephyr-wallet/erc20_shell.c` -/
def erc20Transfer (dev : Device) (call : Call) (st : State) (argv : List (List UInt8)) :
    Except Fault Outcome :=
  if argv.length ≠ 4 then
    .ok (st.fail (-1) "use: erc20 transfer <index> <address_to> <amount>\n")
  else
    -- first parameter is an index
    let (errno, token) := getTokenByIndex st.tokens (argv.getD 1 [])
    let st := { st with errno := errno }
    match token with
    | none => .ok (st.fail (-1) "invalid token index\n")
    | some tkn =>
        -- second parameter is recipient address
        withAddress dev (argv.getD 2 []) call.addr
          (fun _ => st.fail (-1) "invalid argument: address\n") fun addressTo =>
        -- third parameter is amount to transfer
        let (errno, txValue, ret) := shellGetUint64 (argv.getD 3 [])
        let st := { st with errno := errno }
        if ret ≠ 0 then .ok (st.fail (-1) "invalid argument: amount\n")
        else
          -- tokens to transfer
          let txValueU256 := amountOf txValue tkn.decimals
          let encoded := Effect.encoded addressTo txValueU256
          match dev.tokenTransfer addressTo txValueU256 with
          | none => .ok ⟨st, -1, [encoded, .printed "Can't encode Token::transfer()\n"]⟩
          | some data =>
              -- build the transaction
              .ok (finishTransfer dev call st (tokenTx st.account tkn.address call.datablk data)
                [encoded])

/-- The transaction of `_token_decimals`: zeros, but for the calldata and the contract. -/
def decimalsTx (addr : Address) (datablk : UInt64) (data : List UInt8) : Transaction where
  nonce := 0
  gasPrice := 0
  gasLimit := 0
  toAddr := addr
  value := clear256
  data := datablk
  calldata := data

/-- `_token_decimals`: the effects, `errno` behind it, and the decimals, if it does not fail.
Source: `zephyr-wallet/erc20_shell.c` -/
def tokenDecimals (dev : Device) (call : Call) (st : State) (addr : Address) :
    List Effect × ℤ × Option UInt8 :=
  match dev.tokenDecimals with
  | none => ([], st.errno, none)
  | some data =>
      let effects := [.called st.account.address (decimalsTx addr call.datablk data)]
      if call.reply.ret < 0 then (effects, call.reply.errno, none)
      else (effects, call.reply.errno, some call.reply.out.lower.lower.toUInt8)

/-- `erc20_add`. Source: `zephyr-wallet/erc20_shell.c` -/
def erc20Add (dev : Device) (call : Call) (st : State) (argv : List (List UInt8)) :
    Except Fault Outcome :=
  -- first parameter is recipient address
  if argv.length < 2 then .ok (st.fail (-1) "missing argument: address\n")
  else
    withAddress dev (argv.getD 1 []) call.addr
      (fun _ => st.fail (-1) "invalid argument: address\n") fun addr =>
    let (effects, errno, decimals) := tokenDecimals dev call st addr
    let st := { st with errno := errno }
    match decimals with
    | none => .ok ⟨st, -1, effects ++ [.printed "couldn't get token decimals\n"]⟩
    | some decimals =>
        let (tokens, ret) := tokenAdd st.tokens addr decimals (ascii "TKN")
        let st := { st with tokens := tokens }
        if ret < 0 then .ok ⟨st, -1, effects ++ [.printed "can't add token\n"]⟩
        else .ok ⟨st, 0, effects⟩

/-! ## What the commands do -/

variable {dev : Device} {call : Call} {st : State} {argv : List (List UInt8)}

/-- An amount that is read leaves `errno` zero. -/
theorem shellGetUint64_errno {argval : List UInt8} (h : (shellGetUint64 argval).2.2 = 0) :
    (shellGetUint64 argval).1 = 0 := by
  unfold shellGetUint64 at h ⊢
  dsimp only at h ⊢
  split at h
  · cases h
  · rename_i hok
    rw [if_neg hok]
    exact not_not.mp fun hne => hok (Or.inl hne)

/-- **What `erc20 transfer` does**: it is quiet, or it encodes a transfer to the address that
`hextobin` read and signs it, if it can be encoded. -/
theorem erc20Transfer_cases {o : Outcome} (h : erc20Transfer dev call st argv = .ok o) :
    o.Quiet st ∨ ∃ tkn, (getTokenByIndex st.tokens (argv.getD 1 [])).2 = some tkn ∧
      Accepts dev.asserts 20 (argv.getD 2 []) ∧ (shellGetUint64 (argv.getD 3 [])).2.2 = 0 ∧
      ∃ addressTo amount, addressTo = addressOf (keptBytes 20 (argv.getD 2 [])) ∧
        amount = amountOf (shellGetUint64 (argv.getD 3 [])).2.1 tkn.decimals ∧
        ((dev.tokenTransfer addressTo amount = none ∧
            o = ⟨{ st with errno := 0 }, -1,
              [.encoded addressTo amount, .printed "Can't encode Token::transfer()\n"]⟩) ∨
          ∃ data, dev.tokenTransfer addressTo amount = some data ∧
            o = finishTransfer dev call { st with errno := 0 }
              (tokenTx st.account tkn.address call.datablk data) [.encoded addressTo amount]) := by
  unfold erc20Transfer at h
  split at h
  · cases h
    exact Or.inl (State.fail_quiet rfl _ _)
  · rcases htoken : getTokenByIndex st.tokens (argv.getD 1 []) with ⟨errno, token⟩
    simp only [htoken] at h
    cases token with
    | none =>
        cases h
        exact Or.inl (State.fail_quiet rfl _ _)
    | some tkn =>
        rcases withAddress_cases _ _ _ h with ⟨hacc, h⟩ | ⟨a, rfl⟩
        · have herrno := @shellGetUint64_errno (argv.getD 3 [])
          rcases hamount : shellGetUint64 (argv.getD 3 []) with ⟨errno, txValue, ret⟩
          simp only [hamount] at h herrno ⊢
          split at h
          · cases h
            exact Or.inl (State.fail_quiet rfl _ _)
          · rename_i hret
            have hret := not_not.mp hret
            rw [herrno hret] at h
            refine Or.inr ⟨tkn, rfl, hacc, hret, _, _, rfl, rfl, ?_⟩
            split at h
            · rename_i hnone
              exact Or.inl ⟨hnone, (Except.ok.inj h).symm⟩
            · rename_i data hdata
              exact Or.inr ⟨data, hdata, (Except.ok.inj h).symm⟩
        · exact Or.inl (State.fail_quiet rfl _ _)

/-- It signs when its arguments are accepted and the transfer can be encoded. -/
theorem erc20Transfer_ok {tkn : TokenNfo} {data : List UInt8} (hargc : argv.length = 4)
    (htoken : (getTokenByIndex st.tokens (argv.getD 1 [])).2 = some tkn)
    (haddr : Accepts dev.asserts 20 (argv.getD 2 []))
    (hamount : (shellGetUint64 (argv.getD 3 [])).2.2 = 0)
    (hdata : dev.tokenTransfer (addressOf (keptBytes 20 (argv.getD 2 [])))
      (amountOf (shellGetUint64 (argv.getD 3 [])).2.1 tkn.decimals) = some data) :
    erc20Transfer dev call st argv = .ok (finishTransfer dev call { st with errno := 0 }
      (tokenTx st.account tkn.address call.datablk data)
      [.encoded (addressOf (keptBytes 20 (argv.getD 2 [])))
        (amountOf (shellGetUint64 (argv.getD 3 [])).2.1 tkn.decimals)]) := by
  have herrno := shellGetUint64_errno hamount
  unfold erc20Transfer
  rw [if_neg (not_not.mpr hargc)]
  simp only [htoken, withAddress_of_accepts _ _ _ haddr, hamount, herrno, hdata]
  rfl

/-- The table behind `_token_add` differs in one slot, which holds the address. -/
theorem tokenAdd_cases (tokens : Vector TokenNfo tokensMax) (addr : Address) (decimals : UInt8)
    (symbol : List UInt8) (i : Fin tokensMax) :
    (tokenAdd tokens addr decimals symbol).1[i] = tokens[i] ∨
      (tokenAdd tokens addr decimals symbol).1[i].address = addr := by
  unfold tokenAdd
  split
  · exact Or.inl rfl
  · rename_i j hj
    by_cases hij : j = i
    · subst hij
      exact Or.inr (by simp)
    · exact Or.inl (by simp [Fin.val_inj.not.mpr hij])

/-- **What `erc20 add` does**: it is quiet, or it asks the contract at the address that `hextobin`
read, and may store the address in one slot. -/
theorem erc20Add_cases {o : Outcome} (h : erc20Add dev call st argv = .ok o) :
    o.Quiet st ∨ Accepts dev.asserts 20 (argv.getD 1 []) ∧
      ∃ addr data tail, addr = addressOf (keptBytes 20 (argv.getD 1 [])) ∧
        dev.tokenDecimals = some data ∧
        o.effects = .called st.account.address (decimalsTx addr call.datablk data) :: tail ∧
        (∀ e ∈ tail, ∃ text, e = .printed text) ∧
        ∀ i : Fin tokensMax, o.state.tokens[i] = st.tokens[i] ∨ o.state.tokens[i].address = addr := by
  unfold erc20Add at h
  split at h
  · cases h
    exact Or.inl (State.fail_quiet rfl _ _)
  · rcases withAddress_cases _ _ _ h with ⟨hacc, h⟩ | ⟨a, rfl⟩
    · cases hdata : dev.tokenDecimals with
      | none =>
          simp only [tokenDecimals, hdata, List.nil_append] at h
          cases h
          exact Or.inl ⟨rfl, fun e he => ⟨_, List.mem_singleton.mp he⟩⟩
      | some data =>
          refine Or.inr ⟨hacc, addressOf (keptBytes 20 (argv.getD 1 [])), data, ?_⟩
          by_cases hret : call.reply.ret < 0
          · simp only [tokenDecimals, hdata, hret, if_true] at h
            cases h
            exact ⟨_, rfl, rfl, rfl, fun e he => ⟨_, List.mem_singleton.mp he⟩, fun i => Or.inl rfl⟩
          · simp only [tokenDecimals, hdata, hret, if_false] at h
            split at h
            · cases h
              exact ⟨_, rfl, rfl, rfl, fun e he => ⟨_, List.mem_singleton.mp he⟩,
                fun i => tokenAdd_cases _ _ _ _ i⟩
            · cases h
              exact ⟨[], rfl, rfl, rfl, fun e he => absurd he List.not_mem_nil,
                fun i => tokenAdd_cases _ _ _ _ i⟩
    · exact Or.inl (State.fail_quiet rfl _ _)

/-- With an address that is accepted it asks the contract. -/
theorem erc20Add_ok {data : List UInt8} (hargc : 2 ≤ argv.length)
    (haddr : Accepts dev.asserts 20 (argv.getD 1 [])) (hdata : dev.tokenDecimals = some data) :
    ∃ o, erc20Add dev call st argv = .ok o ∧ .called st.account.address
      (decimalsTx (addressOf (keptBytes 20 (argv.getD 1 []))) call.datablk data) ∈ o.effects := by
  unfold erc20Add
  rw [if_neg (by omega), withAddress_of_accepts _ _ _ haddr]
  by_cases hret : call.reply.ret < 0
  · simp only [tokenDecimals, hdata, hret, if_true]
    exact ⟨_, rfl, List.mem_cons_self⟩
  · simp only [tokenDecimals, hdata, hret, if_false]
    split
    · exact ⟨_, rfl, List.mem_cons_self⟩
    · exact ⟨_, rfl, List.mem_cons_self⟩

end AnylWallet.Zephyr
