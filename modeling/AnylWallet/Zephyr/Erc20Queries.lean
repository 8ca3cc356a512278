import AnylWallet.Zephyr.Erc20Shell
import AnylWallet.Zephyr.WalletShell

/-!
# `zephyr-wallet/erc20_shell`: `erc20 balance`, `erc20 totalSupply` and `erc20 list`

* The first two choose a token by its index and ask its contract (`erc20Query`); they differ in the
  function of the contract and in the texts they print.
* `erc20Query_cases`: they are refused with the static variables as they were, or they call the
  contract in the slot that the index chooses.
-/

namespace AnylWallet.Zephyr

open AnylWallet.Lib AnylWallet.Helpers AnylWallet.Eth

/-- The commands that ask the contract of a token with the calldata `data`. -/
def erc20Query (usage failed : String) (data : Option (List UInt8)) (call : Call) (st : State)
    (argv : List (List UInt8)) : Ended :=
  if argv.length ≠ 2 then (st.fail (-1) usage).ended
  else
    -- first parameter is a token index
    let (errno, token) := getTokenByIndex st.tokens (argv.getD 1 [])
    let st := { st with errno := errno }
    match token with
    | none => (st.fail (-1) "invalid token index\n").ended
    | some tkn =>
        match data with
        | none => (st.fail (-1) failed).ended
        | some data =>
            -- build the transaction
            let called := .effect (.called st.account.address
              (decimalsTx tkn.address call.datablk data))
            let st := { st with errno := call.reply.errno }
            if call.reply.ret < 0 then ⟨st, -1, [called]⟩
            else ⟨st, 0, [called, .printedDecimal call.reply.out tkn.decimals]⟩

/-- `erc20_balance`. Source: `zephyr-wallet/erc20_shell.c` -/
def erc20Balance (fw : Firmware) (call : Call) (st : State) (argv : List (List UInt8)) : Ended :=
  erc20Query "use: erc20 balance <token_idx>\n" "Can't encode Token::balanceOf()\n"
    (fw.tokenBalanceOf st.account.address) call st argv

/-- `erc20_totalSupply`. Source: `zephyr-wallet/erc20_shell.c` -/
def erc20TotalSupply (fw : Firmware) (call : Call) (st : State) (argv : List (List UInt8)) :
    Ended :=
  erc20Query "missing argument: token index\n" "Can't encode Token::totalSupply()\n"
    fw.tokenTotalSupply call st argv

/-- The line of a token, up to its address. -/
def tokenLine (i : ℕ) (nfo : TokenNfo) : String :=
  let symbol : String :=
    String.ofList ((nfo.symbol.toList.takeWhile (· ≠ 0)).map fun c => Char.ofNat c.toNat)
  toString i ++ "\t" ++ symbol ++ "\t" ++ toString nfo.decimals ++ "\t"

/-- `erc20_list`. Source: `zephyr-wallet/erc20_shell.c` -/
def erc20List (st : State) : Ended :=
  ⟨st, 0, (List.finRange tokensMax).flatMap fun i : Fin tokensMax =>
    if (st.tokens.get i).used = 0 then []
    else [.text (tokenLine i.val (st.tokens.get i)), .printedHex (st.tokens.get i).address.a.toList,
      .text "\n"]⟩

/-! ## What the queries do -/

/-- The contract that an act addresses: it is called, or a payment to it is signed. -/
def Act.contract? : Act → Option Address
  | .effect (.called _ tx) => some tx.toAddr
  | .effect (.signed tx) => some tx.toAddr
  | _ => none

/-- The contracts that a command addresses. -/
def Ended.contracts (o : Ended) : List Address := o.acts.filterMap Act.contract?

variable {usage failed : String} {data : Option (List UInt8)} {call : Call} {st : State}
  {argv : List (List UInt8)}

/-- **What a query does**: it changes `errno` at most, and it prints a text and fails, or calls the
contract of the token that the index chooses. -/
theorem erc20Query_cases (usage failed : String) (data : Option (List UInt8)) (call : Call)
    (st : State) (argv : List (List UInt8)) :
    ∃ errno, (erc20Query usage failed data call st argv).state = { st with errno := errno } ∧
      (((erc20Query usage failed data call st argv).ret = -1 ∧
          ∃ text, (erc20Query usage failed data call st argv).acts = [.text text]) ∨
        ∃ tkn, (getTokenByIndex st.tokens (argv.getD 1 [])).2 = some tkn ∧
          (erc20Query usage failed data call st argv).contracts = [tkn.address]) := by
  unfold erc20Query
  by_cases hargc : argv.length ≠ 2
  · rw [if_pos hargc]
    exact ⟨st.errno, rfl, Or.inl ⟨rfl, _, rfl⟩⟩
  · rw [if_neg hargc]
    rcases getTokenByIndex st.tokens (argv.getD 1 []) with ⟨errno, _ | tkn⟩
    · exact ⟨errno, rfl, Or.inl ⟨rfl, _, rfl⟩⟩
    · cases data with
      | none => exact ⟨errno, rfl, Or.inl ⟨rfl, _, rfl⟩⟩
      | some data =>
          refine ⟨call.reply.errno, ?_, Or.inr ⟨tkn, rfl, ?_⟩⟩
          · dsimp only
            split <;> rfl
          · dsimp only
            split <;> rfl

/-- With one index it calls the contract, if there is calldata. -/
theorem erc20Query_ok {bytes : List UInt8} {tkn : TokenNfo} (hargc : argv.length = 2)
    (htoken : (getTokenByIndex st.tokens (argv.getD 1 [])).2 = some tkn) :
    (erc20Query usage failed (some bytes) call st argv).contracts = [tkn.address] := by
  unfold erc20Query
  rw [if_neg (not_not.mpr hargc)]
  rcases hget : getTokenByIndex st.tokens (argv.getD 1 []) with ⟨errno, token⟩
  rw [hget] at htoken
  obtain rfl : token = some tkn := htoken
  dsimp only
  split <;> rfl

end AnylWallet.Zephyr
