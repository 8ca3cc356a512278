import AnylWallet.Lib.Latest
import AnylWallet.Zephyr.Keys
import AnylWallet.Zephyr.TokenIndex
import AnylWallet.Zephyr.Wire

/-!
# The account and the log of the shell

* `Seen` is what a user sees of a step: the command, what it returns and what it shows. `logOf` is the
  log of a run.
* `accountAfter` and `tokensAfter` say what a log has set, without the variables of the firmware: the
  latest argument that was taken in silence, the rounds of the upload since the nonce was set, the
  contracts that were added. `account_run`, `lists_run`: **the device holds this** in every state that
  is reached.
* `Ordered` says which transaction a step may sign then. `signs_ordered`: **every transaction is signed
  with what the log has set**, and only if the arguments of its command are taken.
-/

namespace AnylWallet.Zephyr

open AnylWallet.Lib AnylWallet.Helpers AnylWallet.Eth

/-! ## The log -/

/-- What a user sees of a step. -/
structure Seen where
  step : Step
  ret : ℤ
  acts : List Act

/-- What is seen of a step that ends so. -/
def Step.seen (step : Step) (o : Ended) : Seen := ⟨step, o.ret, o.acts⟩

/-- The log of a run. -/
def logOf (fw : Firmware) : State → List Step → List Seen
  | _, [] => []
  | st, step :: steps =>
      match step.run fw st with
      | .error _ => []
      | .ok o => step.seen o :: logOf fw o.state steps

namespace Seen

/-- The argument of a command that shows nothing: it has been taken. -/
def setTo (c : ShellCommand) (s : Seen) : Option (List UInt8) :=
  match s.step with
  | .command c' _ argv => if c' = c ∧ s.acts.isEmpty then argv[1]? else none
  | _ => none

/-- The key that `wallet pk` sets. -/
def key (s : Seen) : Option (Vector UInt8 32) :=
  (s.setTo .walletPk).map fun arg => keyOf (keptBytes 32 arg)

/-- The number that a command sets. -/
def number (c : ShellCommand) (s : Seen) : Option UInt32 :=
  (s.setTo c).map fun arg => (strtoul 10 arg).value.toUInt32

/-- The nonce that `wallet nonce` sets, or the node at `wallet sync`. -/
def nonce (s : Seen) : Option UInt32 :=
  match s.step with
  | .command .walletSync call _ =>
      if call.reply.ret < 0 then none else some call.reply.out.lower.lower.toUInt32
  | _ => s.number .walletNonce

/-- A round of the upload whose transaction the node takes. -/
def advances (s : Seen) : Bool :=
  match s.step with
  | .round call _ (some _) => 0 ≤ call.reply.ret
  | _ => false

/-- The contract that `erc20 add` adds, and its decimals. -/
def token (s : Seen) : Option (Address × UInt8) :=
  match s.step with
  | .command .erc20Add call argv =>
      if s.ret = 0 then
        some (addressOf (keptBytes 20 (argv.getD 1 [])), call.reply.out.lower.lower.toUInt8)
      else none
  | _ => none

end Seen

/-- **What a log has set**, from a start with this key. -/
def accountAfter (fw : Firmware) (pk : Vector UInt8 32) (log : List Seen) : Account where
  privkey := (latest Seen.key log).getD pk
  address := fw.addressOfKey ((latest Seen.key log).getD pk)
  nonce := (latest Seen.nonce log).getD 0 +
    UInt32.ofNat ((since Seen.nonce log).countP Seen.advances)
  gasPrice := (latest (Seen.number .walletGasPrice) log).getD 1000000000
  gasLimit := (latest (Seen.number .walletGasLimit) log).getD 21000

/-- The contracts that a log has added. -/
def tokensAfter (log : List Seen) : List (Address × UInt8) := log.filterMap Seen.token

/-- **The transaction that a step may sign**, with this account and these contracts. -/
def Ordered (fw : Firmware) (account : Account) (tokens : List (Address × UInt8)) (step : Step)
    (tx : Transaction) : Prop :=
  match step with
  | .command .walletTransfer _ argv =>
      Accepts fw.asserts 20 (argv.getD 1 []) ∧ IsTaken (argv.getD 2 []) ∧
        tx = transferTx account.nonce (addressOf (keptBytes 20 (argv.getD 1 [])))
          (strtoul 10 (argv.getD 2 [])).value
  | .command .erc20Transfer call argv =>
      Accepts fw.asserts 20 (argv.getD 2 []) ∧ IsTaken (argv.getD 1 []) ∧ IsTaken (argv.getD 3 []) ∧
        ∃ contract decimals data,
          tokens[indexRead (argv.getD 1 [])]? = some (contract, decimals) ∧
          fw.tokenTransfer (addressOf (keptBytes 20 (argv.getD 2 [])))
            (amountOf (strtoul 10 (argv.getD 3 [])).value decimals) = some data ∧
          tx = tokenTx account contract call.datablk data
  | .round call uploadAddr (some (temperature, humidity)) =>
      tx = dataTx account.nonce uploadAddr call.datablk temperature humidity
  | _ => False

/-- The table shows these contracts, with their decimals. -/
structure Lists (tokens : Vector TokenNfo tokensMax) (entries : List (Address × UInt8)) : Prop where
  table : IsTable tokens (entries.map Prod.fst)
  decimals : ∀ (i : Fin tokensMax) (p : Address × UInt8), entries[i.val]? = some p →
    (tokens.get i).decimals = p.2

variable {fw : Firmware} {st st' : State} {step : Step} {steps : List Step} {o : Ended}

/-- The log of one more step. -/
theorem logOf_concat (h : run fw st steps = .ok st') (ho : step.run fw st' = .ok o) :
    logOf fw st (steps ++ [step]) = logOf fw st steps ++ [step.seen o] := by
  induction steps generalizing st with
  | nil =>
      cases h
      simp only [List.nil_append, logOf, ho]
  | cons first steps ih =>
      obtain ⟨mid, hmid, hrest⟩ := run_cons.mp h
      rw [List.cons_append, logOf, logOf, hmid]
      exact congrArg (List.cons _) (ih hrest)

/-! ## The account -/

/-- What a step does to an account. -/
def Seen.account (fw : Firmware) (s : Seen) (a : Account) : Account where
  privkey := s.key.getD a.privkey
  address := s.key.elim a.address fw.addressOfKey
  nonce := s.nonce.getD (if s.advances then a.nonce + 1 else a.nonce)
  gasPrice := (s.number .walletGasPrice).getD a.gasPrice
  gasLimit := (s.number .walletGasLimit).getD a.gasLimit

/-- A command with an argument. -/
theorem exists_argument {argv : List (List UInt8)} (h : ¬ argv.length ≤ 1) :
    ∃ arg, argv[1]? = some arg ∧ argv.getD 1 [] = arg := by
  refine ⟨_, List.getElem?_eq_getElem (not_le.mp h), ?_⟩
  rw [List.getD_eq_getElem?_getD, List.getElem?_eq_getElem (not_le.mp h), Option.getD_some]

/-- A number that is taken is the one that is read. -/
theorem convertUlong_eq_some {s : List UInt8} {errno errno' : ℤ} {val : UInt32}
    (h : convertUlong s errno = (errno', some val)) : val = (strtoul 10 s).value.toUInt32 := by
  unfold convertUlong at h
  split at h
  · cases h
  · dsimp only at h
    split at h
    · cases h
    · cases h
      rfl

/-- What a command for a number does to the account. -/
theorem walletSetNumber_account {name : String} {get : Account → UInt32}
    {set : UInt32 → Account → Account} (c : ShellCommand) (call : Call)
    {argv : List (List UInt8)} {o : Ended} (ho : (walletSetNumber name get set st argv).ended = o) :
    o.state.account =
      (((Step.command c call argv).seen o).number c).elim st.account fun n => set n st.account := by
  subst ho
  unfold walletSetNumber
  split
  · simp [Outcome.ended, Step.seen, Seen.number, Seen.setTo]
  · next hargc =>
      obtain ⟨arg, hsome, hget⟩ := exists_argument hargc
      rw [hget]
      rcases hconv : convertUlong arg st.errno with ⟨errno, _ | val⟩
      · simp [State.fail, Outcome.ended, Step.seen, Seen.number, Seen.setTo]
      · simp [convertUlong_eq_some hconv, Outcome.ended, Step.seen, Seen.number, Seen.setTo, hsome]

/-- A key that is taken is the one that is written. -/
theorem withPk_keyOf {str : List UInt8} {valid : Vector UInt8 32 → Ended}
    (h : withPk fw st str valid = .ok o) :
    (∃ text, o = (st.fail 0 text).ended) ∨ o = valid (keyOf (keptBytes 32 str)) := by
  have hlen : (List.replicate 32 (0 : UInt8)).length = 32 := List.length_replicate
  unfold withPk at h
  split at h
  · exact Or.inl ⟨_, (Except.ok.inj h).symm⟩
  · by_cases hacc : Accepts fw.asserts 32 str
    · have hread := @hextobin_of_accepts fw.asserts str (List.replicate 32 0) (by simp)
        (hlen.symm ▸ hacc)
      have hret : ¬ (((strip0x str).length / 2 : ℕ) : ℤ) < 0 :=
        Int.not_lt.mpr (Int.natCast_nonneg _)
      rw [hread, hlen] at h
      simp only [hret, if_false] at h
      exact Or.inr (Except.ok.inj h).symm
    · rcases hextobin_of_not_accepts (by simp) (hlen.symm ▸ hacc) with
        hread | ⟨bytes, ret, hread, hneg⟩
      · rw [hread] at h
        cases h
      · rw [hread] at h
        simp only [hneg, if_true] at h
        exact Or.inl ⟨_, (Except.ok.inj h).symm⟩

/-- What `wallet pk` does to the account. -/
theorem walletSetPk_account (call : Call) {argv : List (List UInt8)}
    (h : walletSetPk fw st argv = .ok o) :
    o.state.account = (((Step.command .walletPk call argv).seen o).key).elim st.account
      fun pk => walletSetGlobalPrivkey fw pk st.account := by
  by_cases hargc : argv.length ≤ 1
  · rw [walletSetPk, if_pos hargc] at h
    cases h
    simp [Step.seen, Seen.key, Seen.setTo]
  · obtain ⟨arg, hsome, hget⟩ := exists_argument hargc
    rw [walletSetPk, if_neg hargc, hget] at h
    rcases withPk_keyOf h with ⟨text, rfl⟩ | rfl
    · simp [State.fail, Outcome.ended, Step.seen, Seen.key, Seen.setTo]
    · simp [Step.seen, Seen.key, Seen.setTo, hsome]

/-- A command sets nothing for another one. -/
theorem setTo_of_ne {c c' : ShellCommand} (h : c ≠ c') (call : Call) (argv : List (List UInt8))
    (o : Ended) : ((Step.command c call argv).seen o).setTo c' = none :=
  if_neg fun heq => h heq.1

/-- The account behind a command that sets nothing of it. -/
theorem account_of_other {c : ShellCommand} {call : Call} {argv : List (List UInt8)}
    (hc : c ≠ .walletPk ∧ c ≠ .walletNonce ∧ c ≠ .walletSync ∧ c ≠ .walletGasPrice ∧
      c ≠ .walletGasLimit) (h : o.state.account = st.account) :
    o.state.account = ((Step.command c call argv).seen o).account fw st.account := by
  obtain ⟨hpk, hnonce, hsync, hprice, hlimit⟩ := hc
  have hkept : ((Step.command c call argv).seen o).nonce = none := by
    unfold Seen.nonce Seen.number
    rw [setTo_of_ne hnonce]
    split
    · next hstep =>
        cases hstep
        exact absurd rfl hsync
    · rfl
  unfold Seen.account Seen.key Seen.number
  rw [setTo_of_ne hpk, setTo_of_ne hprice, setTo_of_ne hlimit, hkept, h]
  rfl

/-- A quiet command keeps the account. -/
theorem Outcome.Quiet.account {o : Outcome} (h : o.Quiet st) :
    o.ended.state.account = st.account := by
  have hstate : o.ended.state = o.state := rfl
  rw [hstate, h.state]

/-- So does a transfer. -/
theorem finishTransfer_account {dev : Device} {call : Call} {tx : Transaction}
    {before : List Effect} {errno : ℤ} :
    (finishTransfer dev call { st with errno := errno } tx before).ended.state.account =
      st.account := by
  have hstate : (finishTransfer dev call { st with errno := errno } tx before).ended.state =
      (finishTransfer dev call { st with errno := errno } tx before).state := rfl
  rw [hstate, finishTransfer_state]

/-- An `erc20 add` keeps the account. -/
theorem erc20Add_account {dev : Device} {call : Call} {argv : List (List UInt8)} {o : Outcome}
    (h : erc20Add dev call st argv = .ok o) : o.state.account = st.account := by
  unfold erc20Add at h
  split at h
  · cases h
    rfl
  · rcases withAddress_cases _ _ _ h with ⟨-, h⟩ | ⟨a, rfl⟩
    · dsimp only at h
      split at h
      · cases h
        rfl
      · split at h
        · cases h
          rfl
        · cases h
          rfl
    · rfl

/-- **What a command does to the account.** -/
theorem ShellCommand.run_account {c : ShellCommand} {call : Call} {argv : List (List UInt8)}
    (h : c.run fw call st argv = .ok o) :
    o.state.account = ((Step.command c call argv).seen o).account fw st.account := by
  have hquery (usage failed : String) (data : Option (List UInt8)) :
      (erc20Query usage failed data call st argv).state.account = st.account := by
    obtain ⟨errno, hstate, -⟩ := erc20Query_cases usage failed data call st argv
    rw [hstate]
  have hkey (hne : c ≠ .walletPk) : ((Step.command c call argv).seen o).key = none := by
    rw [Seen.key, setTo_of_ne hne]
    rfl
  have hnumber (c' : ShellCommand) (hne : c ≠ c') :
      ((Step.command c call argv).seen o).number c' = none := by
    rw [Seen.number, setTo_of_ne hne]
    rfl
  cases c with
  | walletNonce =>
      have hnonce : ((Step.command .walletNonce call argv).seen o).nonce =
        ((Step.command .walletNonce call argv).seen o).number .walletNonce := rfl
      rw [walletSetNumber_account .walletNonce call (Except.ok.inj h), Seen.account, hnonce,
        hkey (by decide), hnumber .walletGasPrice (by decide), hnumber .walletGasLimit (by decide)]
      cases ((Step.command .walletNonce call argv).seen o).number .walletNonce with
      | none => rfl
      | some n => rfl
  | walletGasPrice =>
      have hnonce : ((Step.command .walletGasPrice call argv).seen o).nonce =
        ((Step.command .walletGasPrice call argv).seen o).number .walletNonce := rfl
      rw [walletSetNumber_account .walletGasPrice call (Except.ok.inj h), Seen.account, hnonce,
        hkey (by decide), hnumber .walletNonce (by decide), hnumber .walletGasLimit (by decide)]
      cases ((Step.command .walletGasPrice call argv).seen o).number .walletGasPrice with
      | none => rfl
      | some n => rfl
  | walletGasLimit =>
      have hnonce : ((Step.command .walletGasLimit call argv).seen o).nonce =
        ((Step.command .walletGasLimit call argv).seen o).number .walletNonce := rfl
      rw [walletSetNumber_account .walletGasLimit call (Except.ok.inj h), Seen.account, hnonce,
        hkey (by decide), hnumber .walletNonce (by decide), hnumber .walletGasPrice (by decide)]
      cases ((Step.command .walletGasLimit call argv).seen o).number .walletGasLimit with
      | none => rfl
      | some n => rfl
  | walletPk =>
      have hnonce : ((Step.command .walletPk call argv).seen o).nonce =
        ((Step.command .walletPk call argv).seen o).number .walletNonce := rfl
      rw [walletSetPk_account call h, Seen.account, hnonce, hnumber .walletNonce (by decide),
        hnumber .walletGasPrice (by decide), hnumber .walletGasLimit (by decide)]
      cases ((Step.command .walletPk call argv).seen o).key with
      | none => rfl
      | some pk => rfl
  | walletPk2addr => exact account_of_other (by decide) (congrArg State.account (walletPk2addr_state h))
  | walletTransfer =>
      obtain ⟨o, ho, rfl⟩ := exists_of_map_ended h
      refine account_of_other (by decide) ?_
      rcases walletTransfer_cases ho with hquiet | ⟨-, txValue, rfl⟩
      · exact hquiet.account
      · exact finishTransfer_account
  | walletSync =>
      cases h
      have hnonce (ret : ℤ) (acts : List Act) :
          Seen.nonce ⟨.command .walletSync call argv, ret, acts⟩ =
            if call.reply.ret < 0 then none else some call.reply.out.lower.lower.toUInt32 := rfl
      rw [Seen.account, hkey (by decide), hnumber .walletGasPrice (by decide),
        hnumber .walletGasLimit (by decide), Step.seen, hnonce]
      unfold Zephyr.walletSync
      dsimp only
      split
      · rfl
      · rfl
  | walletBalance =>
      cases h
      refine account_of_other (by decide) ?_
      unfold Zephyr.walletBalance
      dsimp only
      split
      · rfl
      · rfl
  | erc20Add =>
      obtain ⟨o, ho, rfl⟩ := exists_of_map_ended h
      exact account_of_other (by decide) (erc20Add_account ho)
  | erc20Balance =>
      cases h
      exact account_of_other (by decide) (hquery _ _ _)
  | erc20List =>
      cases h
      exact account_of_other (by decide) rfl
  | erc20Transfer =>
      obtain ⟨o, ho, rfl⟩ := exists_of_map_ended h
      refine account_of_other (by decide) ?_
      rcases erc20Transfer_cases ho with
        hquiet | ⟨tkn, -, -, -, addressTo, amount, -, -, ⟨-, rfl⟩ | ⟨data, -, rfl⟩⟩
      · exact hquiet.account
      · rfl
      · exact finishTransfer_account
  | erc20TotalSupply =>
      cases h
      exact account_of_other (by decide) (hquery _ _ _)
  | uploadStart =>
      obtain ⟨o, ho, rfl⟩ := exists_of_map_ended h
      obtain ⟨addr, interval, errno, hstate⟩ := uploadStart_state ho
      refine account_of_other (by decide) ?_
      rw [hstate]
  | uploadStop =>
      cases h
      refine account_of_other (by decide) ?_
      unfold Zephyr.uploadStop
      split
      · rfl
      · rfl

/-- **What a step does to the account.** -/
theorem Step.run_account (h : step.run fw st = .ok o) :
    o.state.account = (step.seen o).account fw st.account := by
  cases step with
  | command c call argv => exact ShellCommand.run_account h
  | round call uploadAddr sensor =>
      cases h
      rcases sensor with _ | ⟨temperature, humidity⟩
      · rfl
      · unfold uploadRound sendDataEth
        dsimp only
        split
        · next hret =>
            have hadvances (ret : ℤ) (acts : List Act) : Seen.advances
                ⟨.round call uploadAddr (some (temperature, humidity)), ret, acts⟩ = false :=
              decide_eq_false (Int.not_le.mpr hret)
            rw [Seen.account, Step.seen, hadvances]
            rfl
        · next hret =>
            have hadvances (ret : ℤ) (acts : List Act) : Seen.advances
                ⟨.round call uploadAddr (some (temperature, humidity)), ret, acts⟩ = true :=
              decide_eq_true (Int.not_lt.mp hret)
            rw [Seen.account, Step.seen, hadvances]
            rfl
  | elsewhere errno =>
      cases h
      rfl

/-- One more entry sets the account as its step does. -/
theorem accountAfter_concat (fw : Firmware) (pk : Vector UInt8 32) (log : List Seen) (s : Seen) :
    accountAfter fw pk (log ++ [s]) = s.account fw (accountAfter fw pk log) := by
  have hone : UInt32.ofNat 1 = 1 := rfl
  simp only [accountAfter, Seen.account, getD_latest_concat, Account.mk.injEq, true_and, and_true]
  constructor
  · cases s.key with
    | none => rfl
    | some pk => rfl
  · cases hnonce : s.nonce with
    | none =>
        rw [since_concat_of_none log hnonce, List.countP_append, List.countP_singleton]
        cases s.advances with
        | false => rfl
        | true =>
            simp only [if_true, Option.getD_none, UInt32.ofNat_add, hone]
            exact (UInt32.add_assoc _ _ _).symm
    | some n =>
        rw [since_concat_of_some log hnonce]
        exact UInt32.add_zero n

/-- A run of one more step. -/
theorem run_concat (h : run fw st (steps ++ [step]) = .ok st') :
    ∃ mid o, run fw st steps = .ok mid ∧ step.run fw mid = .ok o ∧ o.state = st' := by
  obtain ⟨mid, hmid, hlast⟩ := run_append.mp h
  obtain ⟨o, ho, hnil⟩ := run_cons.mp hlast
  exact ⟨mid, o, hmid, ho, Except.ok.inj hnil⟩

/-- **The account holds what the log has set**, in every state that is reached. -/
theorem account_run {pk : Vector UInt8 32} (h : run fw (bootState fw pk) steps = .ok st) :
    st.account = accountAfter fw pk (logOf fw (bootState fw pk) steps) := by
  induction steps using List.reverseRecOn generalizing st with
  | nil =>
      cases h
      rfl
  | append_singleton steps step ih =>
      obtain ⟨mid, o, hmid, ho, rfl⟩ := run_concat h
      rw [logOf_concat hmid ho, accountAfter_concat, ← ih hmid]
      exact Step.run_account ho

/-! ## The contracts -/

/-- The decimals of an addition. -/
theorem tokenAdd_decimals {tokens : Vector TokenNfo tokensMax} {addrs : List Address}
    (h : IsTable tokens addrs) (hlt : addrs.length < tokensMax) (addr : Address) (decimals : UInt8)
    (symbol : List UInt8) :
    (tokenAdd tokens addr decimals symbol).1[addrs.length].decimals = decimals := by
  obtain ⟨hok, htable, -⟩ := tokenAdd_of_lt h hlt addr decimals symbol
  have hused := (htable.entry ⟨addrs.length, hlt⟩ addr (by simp)).1
  have hfree := h.free ⟨addrs.length, hlt⟩ le_rfl
  unfold tokenAdd at hok hused ⊢
  split at hok
  · cases hok
  · next i hi =>
      simp only [hi] at hused ⊢
      by_cases heq : i.val = addrs.length
      · simp [heq]
      · rw [Fin.getElem_fin, Vector.getElem_set_ne _ _ heq] at hused
        rw [Fin.getElem_fin] at hfree
        rw [hfree] at hused
        exact absurd hused (by decide)

/-- **What `erc20 add` adds** is seen. -/
theorem erc20Add_token {call : Call} {argv : List (List UInt8)}
    (h : ShellCommand.erc20Add.run fw call st argv = .ok o) :
    (((Step.command .erc20Add call argv).seen o).token = none ∧ o.state.tokens = st.tokens) ∨
      ∃ addr decimals, ((Step.command .erc20Add call argv).seen o).token = some (addr, decimals) ∧
        (tokenAdd st.tokens addr decimals (ascii "TKN")).2 = 0 ∧
        o.state.tokens = (tokenAdd st.tokens addr decimals (ascii "TKN")).1 := by
  have htoken : ((Step.command .erc20Add call argv).seen o).token = if o.ret = 0 then
      some (addressOf (keptBytes 20 (argv.getD 1 [])), call.reply.out.lower.lower.toUInt8)
    else none := rfl
  rw [htoken]
  obtain ⟨o, ho, rfl⟩ := exists_of_map_ended h
  have hfail (st' : State) (effects : List Effect) :
      (Outcome.mk st' (-1) effects).ended.ret ≠ 0 := by
    show (-1 : ℤ) ≠ 0
    decide
  unfold erc20Add at ho
  split at ho
  · cases ho
    exact Or.inl ⟨if_neg (hfail _ _), rfl⟩
  · rcases withAddress_cases _ _ _ ho with ⟨-, ho⟩ | ⟨a, rfl⟩
    · generalize addressOf (keptBytes 20 (argv.getD 1 [])) = addr at ho ⊢
      cases hdata : fw.tokenDecimals with
      | none =>
          simp only [tokenDecimals, hdata] at ho
          cases ho
          exact Or.inl ⟨if_neg (hfail _ _), rfl⟩
      | some data =>
          by_cases hret : call.reply.ret < 0
          · simp only [tokenDecimals, hdata, hret, if_true] at ho
            cases ho
            exact Or.inl ⟨if_neg (hfail _ _), rfl⟩
          · simp only [tokenDecimals, hdata, hret, if_false] at ho
            generalize call.reply.out.lower.lower.toUInt8 = decimals at ho ⊢
            rcases tokenAdd_ret st.tokens addr decimals (ascii "TKN") with hzero | hfull
            · rw [hzero, if_neg (lt_irrefl 0)] at ho
              cases ho
              exact Or.inr ⟨addr, decimals, rfl, hzero, rfl⟩
            · rw [hfull, if_pos neg_one_lt_zero] at ho
              cases ho
              exact Or.inl ⟨if_neg (hfail _ _), rfl⟩
    · exact Or.inl ⟨if_neg (hfail _ _), rfl⟩

/-- What a step does to the table is seen. -/
theorem Step.run_token (h : step.run fw st = .ok o) :
    ((step.seen o).token = none ∧ o.state.tokens = st.tokens) ∨
      ∃ addr decimals, (step.seen o).token = some (addr, decimals) ∧
        (tokenAdd st.tokens addr decimals (ascii "TKN")).2 = 0 ∧
        o.state.tokens = (tokenAdd st.tokens addr decimals (ascii "TKN")).1 := by
  by_cases hadd : ∃ call argv, step = .command .erc20Add call argv
  · obtain ⟨call, argv, rfl⟩ := hadd
    exact erc20Add_token h
  · have hnone : (step.seen o).token = none := by
      unfold Seen.token
      split
      · next hstep => exact absurd ⟨_, _, hstep⟩ hadd
      · rfl
    refine Or.inl ⟨hnone, ?_⟩
    rcases Step.run_cases h with hkept | ⟨_, _, -, pk, hset⟩ | ⟨call, argv, heq, -⟩
    · exact hkept.tokens
    · rw [hset]
    · exact absurd ⟨call, argv, heq⟩ hadd

/-- A step keeps the table one that shows what was added. -/
theorem Lists.run_step {entries : List (Address × UInt8)} (hlists : Lists st.tokens entries)
    (h : step.run fw st = .ok o) :
    Lists o.state.tokens (entries ++ (step.seen o).token.toList) := by
  rcases Step.run_token h with ⟨hnone, htokens⟩ | ⟨addr, decimals, hsome, hok, htokens⟩
  · rw [hnone, htokens, Option.toList_none, List.append_nil]
    exact hlists
  · have hlt : (entries.map Prod.fst).length < tokensMax := by
      refine lt_of_le_of_ne hlists.table.length_le fun hfull => ?_
      rw [tokenAdd_of_full hlists.table hfull] at hok
      exact absurd (show (-1 : ℤ) = 0 from hok) (by decide)
    obtain ⟨-, htable, hentries⟩ := tokenAdd_of_lt hlists.table hlt addr decimals (ascii "TKN")
    have hlast := tokenAdd_decimals hlists.table hlt addr decimals (ascii "TKN")
    rw [hsome, htokens, Option.toList_some]
    refine ⟨by rwa [List.map_append], fun i p hp => ?_⟩
    rw [List.length_map] at hlt hentries
    simp only [List.length_map] at hlast
    by_cases hi : i.val < entries.length
    · rw [List.getElem?_append_left hi] at hp
      have hslot := hentries i hi
      show (tokenAdd st.tokens addr decimals (ascii "TKN")).1[i].decimals = p.2
      rw [hslot]
      exact hlists.decimals i p hp
    · have hlen := (List.getElem?_eq_some_iff.mp hp).1
      rw [List.length_append, List.length_singleton] at hlen
      have hle : i.val ≤ entries.length := by omega
      obtain rfl : i = ⟨entries.length, hlt⟩ := Fin.ext (Nat.le_antisymm hle (not_lt.mp hi))
      rw [List.getElem?_concat_length] at hp
      cases hp
      exact hlast

/-- **The table shows what the log has added**, in every state that is reached. -/
theorem lists_run {pk : Vector UInt8 32} (h : run fw (bootState fw pk) steps = .ok st) :
    Lists st.tokens (tokensAfter (logOf fw (bootState fw pk) steps)) := by
  induction steps using List.reverseRecOn generalizing st with
  | nil =>
      cases h
      exact ⟨isTable_bootState fw pk, fun i p hp => by cases hp⟩
  | append_singleton steps step ih =>
      obtain ⟨mid, o, hmid, ho, rfl⟩ := run_concat h
      have hone : [step.seen o].filterMap Seen.token = (step.seen o).token.toList := by
        cases hcase : (step.seen o).token with
        | none => simp [hcase]
        | some p => simp [hcase]
      rw [logOf_concat hmid ho, tokensAfter, List.filterMap_append, hone]
      exact (ih hmid).run_step ho

/-! ## The transactions -/

/-- A conversion that leaves `errno` zero has found it zero, and made no error. -/
theorem erange_of_errnoAfter {α : Type} {conv : Converted α} {errno : ℤ}
    (h : errnoAfter conv errno = 0) : conv.erange = false := by
  cases hrange : conv.erange with
  | false => rfl
  | true =>
      rw [errnoAfter, hrange, if_pos rfl] at h
      exact absurd h (by decide)

/-- An amount that is read is the number of its string. -/
theorem isTaken_of_shellGetUint64 {s : List UInt8} (h : (shellGetUint64 s).2.2 = 0) :
    IsTaken s ∧ (shellGetUint64 s).2.1 = (strtoul 10 s).value := by
  unfold shellGetUint64 at h ⊢
  dsimp only at h ⊢
  split at h
  · cases h
  · next hok =>
      obtain ⟨herrno, hsize⟩ := not_or.mp hok
      rw [if_neg hok]
      exact ⟨⟨erange_of_errnoAfter (not_not.mp herrno), not_not.mp hsize⟩, rfl⟩

/-- What `wallet transfer` signs. -/
theorem walletTransfer_ordered {dev : Device} {call : Call} {argv : List (List UInt8)} {o : Outcome}
    (h : walletTransfer dev call st argv = .ok o) {tx : Transaction} (htx : tx ∈ o.ended.signed) :
    Accepts dev.asserts 20 (argv.getD 1 []) ∧ IsTaken (argv.getD 2 []) ∧
      tx = transferTx st.account.nonce (addressOf (keptBytes 20 (argv.getD 1 [])))
        (strtoul 10 (argv.getD 2 [])).value := by
  have hnone {ret : ℤ} {text : String} {st : State} (h : tx ∈ (st.fail ret text).ended.signed) :
      False := absurd h List.not_mem_nil
  unfold walletTransfer at h
  split at h
  · cases h
    exact (hnone htx).elim
  · rcases withAddress_cases _ _ _ h with ⟨hacc, h⟩ | ⟨a, rfl⟩
    · split at h
      · cases h
        exact (hnone htx).elim
      · dsimp only at h
        split at h
        · cases h
          exact (hnone htx).elim
        · next hok =>
            cases h
            obtain ⟨herrno, hsize⟩ := not_or.mp hok
            rw [finishTransfer_signed_ended rfl, List.mem_singleton] at htx
            exact ⟨hacc, ⟨erange_of_errnoAfter (not_not.mp herrno), not_not.mp hsize⟩, htx⟩
    · exact (hnone htx).elim

/-- The token in a slot is the one that was added there. -/
theorem Lists.getElem?_eq {tokens : Vector TokenNfo tokensMax} {entries : List (Address × UInt8)}
    (h : Lists tokens entries) {i : ℕ} (hi : i < tokensMax) (hused : tokens[i].used ≠ 0) :
    entries[i]? = some (tokens[i].address, tokens[i].decimals) := by
  have hlt : i < entries.length := by
    by_contra hge
    refine hused (h.table.free ⟨i, hi⟩ ?_)
    rw [List.length_map]
    exact not_lt.mp hge
  have hentry := List.getElem?_eq_getElem hlt
  have haddress : (entries.map Prod.fst)[i]? = some entries[i].1 := by
    rw [List.getElem?_map, hentry, Option.map_some]
  have hslot : tokens[i].address = entries[i].1 := (h.table.entry ⟨i, hi⟩ _ haddress).2
  have hdecimals : tokens[i].decimals = entries[i].2 := h.decimals ⟨i, hi⟩ _ hentry
  rw [hentry, hslot, hdecimals]

/-- What `erc20 transfer` signs. -/
theorem erc20Transfer_ordered {entries : List (Address × UInt8)} (hlists : Lists st.tokens entries)
    {dev : Device} {call : Call} {argv : List (List UInt8)} {o : Outcome}
    (h : erc20Transfer dev call st argv = .ok o) {tx : Transaction} (htx : tx ∈ o.ended.signed) :
    Accepts dev.asserts 20 (argv.getD 2 []) ∧ IsTaken (argv.getD 1 []) ∧ IsTaken (argv.getD 3 []) ∧
      ∃ contract decimals data,
        entries[indexRead (argv.getD 1 [])]? = some (contract, decimals) ∧
        dev.tokenTransfer (addressOf (keptBytes 20 (argv.getD 2 [])))
          (amountOf (strtoul 10 (argv.getD 3 [])).value decimals) = some data ∧
        tx = tokenTx st.account contract call.datablk data := by
  rcases erc20Transfer_cases h with hquiet |
    ⟨tkn, htkn, hacc, hamount, addressTo, amount, rfl, rfl, ⟨-, rfl⟩ | ⟨data, hdata, rfl⟩⟩
  · rw [hquiet.nonce_eq.1] at htx
    exact absurd htx List.not_mem_nil
  · exact absurd htx List.not_mem_nil
  · obtain ⟨hindex, hlt, hused, rfl⟩ := getTokenByIndex_eq_some_iff.mp htkn
    obtain ⟨htaken, hvalue⟩ := isTaken_of_shellGetUint64 hamount
    rw [hvalue] at hdata
    rw [finishTransfer_signed_ended rfl, List.mem_singleton] at htx
    exact ⟨hacc, hindex, htaken, _, _, data, hlists.getElem?_eq hlt hused, hdata, htx⟩

/-- **What a step signs is ordered**, by the account and the contracts. -/
theorem Step.run_ordered {entries : List (Address × UInt8)} (hlists : Lists st.tokens entries)
    (h : step.run fw st = .ok o) {tx : Transaction} (htx : tx ∈ o.signed) :
    Ordered fw st.account entries step tx := by
  cases step with
  | command c call argv =>
      rcases ShellCommand.requests_cases h with hasks | ⟨rfl | rfl, -⟩
      · rw [hasks.signed] at htx
        exact absurd htx List.not_mem_nil
      · obtain ⟨o, ho, rfl⟩ := exists_of_map_ended h
        exact walletTransfer_ordered ho htx
      · obtain ⟨o, ho, rfl⟩ := exists_of_map_ended h
        exact erc20Transfer_ordered hlists ho htx
  | round call uploadAddr sensor =>
      cases h
      rcases sensor with _ | ⟨temperature, humidity⟩
      · exact absurd htx List.not_mem_nil
      · have hsigned := (@sendDataEth_requests st fw.toDevice call uploadAddr temperature humidity).1
        exact List.mem_singleton.mp (hsigned ▸ htx)
  | elsewhere errno =>
      cases h
      exact absurd htx List.not_mem_nil

/-- A `wallet transfer` that returns 0 has signed. -/
theorem walletTransfer_signed {dev : Device} {call : Call} {argv : List (List UInt8)} {o : Outcome}
    (h : walletTransfer dev call st argv = .ok o) (hret : o.ret = 0) : o.ended.signed ≠ [] := by
  unfold walletTransfer at h
  split at h
  · cases h
    cases hret
  · rcases withAddress_cases _ _ _ h with ⟨-, h⟩ | ⟨a, rfl⟩
    · split at h
      · cases h
        cases hret
      · dsimp only at h
        split at h
        · cases h
          cases hret
        · cases h
          rw [finishTransfer_signed_ended rfl]
          exact List.cons_ne_nil _ _
    · cases hret

/-- So has an `erc20 transfer`. -/
theorem erc20Transfer_signed {dev : Device} {call : Call} {argv : List (List UInt8)} {o : Outcome}
    (h : erc20Transfer dev call st argv = .ok o) (hret : o.ret = 0) : o.ended.signed ≠ [] := by
  unfold erc20Transfer at h
  split at h
  · cases h
    cases hret
  · rcases htoken : getTokenByIndex st.tokens (argv.getD 1 []) with ⟨errno, token⟩
    simp only [htoken] at h
    cases token with
    | none =>
        cases h
        cases hret
    | some tkn =>
        rcases withAddress_cases _ _ _ h with ⟨-, h⟩ | ⟨a, rfl⟩
        · rcases hamount : shellGetUint64 (argv.getD 3 []) with ⟨errno, txValue, ret⟩
          simp only [hamount] at h
          split at h
          · cases h
            cases hret
          · split at h
            · cases h
              cases hret
            · cases h
              rw [finishTransfer_signed_ended rfl]
              exact List.cons_ne_nil _ _
        · cases hret

/-- **A transfer that returns 0 has signed.** -/
theorem Step.signed_of_transfer (htransfer : step.IsTransfer) (h : step.run fw st = .ok o)
    (hret : o.ret = 0) : o.signed ≠ [] := by
  cases step with
  | command c call argv =>
      obtain rfl | rfl := id htransfer
      · obtain ⟨o, ho, rfl⟩ := exists_of_map_ended h
        exact walletTransfer_signed ho hret
      · obtain ⟨o, ho, rfl⟩ := exists_of_map_ended h
        exact erc20Transfer_signed ho hret
  | round call uploadAddr sensor => exact htransfer.elim
  | elsewhere errno => exact htransfer.elim

/-- **Every run signs what it is told**: in each state that is reached, a step signs no transaction,
and then it is no transfer that returns 0, or it signs one that the log orders, and sends it, signed
with the key of the log. -/
theorem signs_ordered {pk : Vector UInt8 32} (h : run fw (bootState fw pk) steps = .ok st)
    (ho : step.run fw st = .ok o) :
    st.account = accountAfter fw pk (logOf fw (bootState fw pk) steps) ∧
      Lists st.tokens (tokensAfter (logOf fw (bootState fw pk) steps)) ∧
      ((o.signed = [] ∧ (step.IsTransfer → o.ret ≠ 0)) ∨ ∃ call tx, step.call? = some call ∧ o.signed = [tx] ∧
        Ordered fw (accountAfter fw pk (logOf fw (bootState fw pk) steps))
          (tokensAfter (logOf fw (bootState fw pk) steps)) step tx ∧
        o.requests = [.sendRawTransaction (signedBytes fw.toDevice call st tx)]) := by
  have haccount := account_run h
  have hlists := lists_run h
  refine ⟨haccount, hlists, ?_⟩
  rcases Step.requests_cases ho with hasks | ⟨call, tx, hcall, -, hsigned, hrequests⟩
  · exact Or.inl ⟨hasks.signed, fun htransfer hret =>
      Step.signed_of_transfer htransfer ho hret hasks.signed⟩
  · have htx : tx ∈ o.signed := hsigned ▸ List.mem_singleton_self tx
    rw [← haccount]
    exact Or.inr ⟨call, tx, hcall, hsigned, Step.run_ordered hlists ho htx, hrequests⟩

/-- A gas price is set. -/
def priceFive : Step := .command .walletGasPrice sampleCall [ascii "gas_price", ascii "5"]

/-- A transfer behind it. -/
theorem signs_ordered_transferOne : ∃ st o,
    run sampleFirmware (bootState sampleFirmware (Vector.replicate 32 1)) [priceFive] = .ok st ∧
      transferOne.run sampleFirmware st = .ok o ∧ o.signed ≠ [] ∧
      st.account = accountAfter sampleFirmware (Vector.replicate 32 1)
        (logOf sampleFirmware (bootState sampleFirmware (Vector.replicate 32 1)) [priceFive]) ∧
      Lists st.tokens (tokensAfter
        (logOf sampleFirmware (bootState sampleFirmware (Vector.replicate 32 1)) [priceFive])) ∧
      ((o.signed = [] ∧ (transferOne.IsTransfer → o.ret ≠ 0)) ∨ ∃ call tx,
        transferOne.call? = some call ∧ o.signed = [tx] ∧
        Ordered sampleFirmware (accountAfter sampleFirmware (Vector.replicate 32 1)
            (logOf sampleFirmware (bootState sampleFirmware (Vector.replicate 32 1)) [priceFive]))
          (tokensAfter
            (logOf sampleFirmware (bootState sampleFirmware (Vector.replicate 32 1)) [priceFive]))
          transferOne tx ∧
        o.requests = [.sendRawTransaction (signedBytes sampleFirmware.toDevice call st tx)]) := by
  have hprice : run sampleFirmware (bootState sampleFirmware (Vector.replicate 32 1)) [priceFive] =
      .ok { bootState sampleFirmware (Vector.replicate 32 1) with
        account := (bootState sampleFirmware (Vector.replicate 32 1)).account.setGasPrice 5 } := rfl
  obtain ⟨o, tx, ho, hsigned, -⟩ := run_transferOne _ (show State.errno { bootState sampleFirmware
    (Vector.replicate 32 1) with account := (bootState sampleFirmware
      (Vector.replicate 32 1)).account.setGasPrice 5 } = 0 from rfl)
  exact ⟨_, o, hprice, ho, hsigned ▸ List.cons_ne_nil _ _, signs_ordered hprice ho⟩

end AnylWallet.Zephyr
