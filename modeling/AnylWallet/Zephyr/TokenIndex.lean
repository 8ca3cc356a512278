import AnylWallet.Zephyr.TokenTable

/-!
# Which token an index chooses

* `erc20 balance`, `erc20 transfer` and `erc20 totalSupply` read an index with `getTokenByIndex`,
  which keeps the low eight bits of what `strtoul` reads. A `long` has 64 bits here, so that integers
  below `2 ^ 64` are read.
* `ExactIndex`: in every state that is reached, they address the contract of the addition that the
  string is a plain numeral of, and reject any other string; and the entries stay as they are.
* `exactIndex_iff`: so it is unless the string is read as the index of a slot without being its
  numeral (`Misread`), as an empty string, `-255` and `256` are.
-/

namespace AnylWallet.Zephyr

open AnylWallet.Lib AnylWallet.Helpers AnylWallet.Eth

/-- The commands that choose a token by its index. -/
inductive TokenCommand where
  | balance
  | transfer
  | totalSupply
deriving DecidableEq, Repr

namespace TokenCommand

/-- The command of the shell. -/
def command : TokenCommand → ShellCommand
  | .balance => .erc20Balance
  | .transfer => .erc20Transfer
  | .totalSupply => .erc20TotalSupply

/-- Its other arguments are accepted, and the calldata can be encoded. -/
def Ready (fw : Firmware) (st : State) (argv : List (List UInt8)) : TokenCommand → Prop
  | .balance => argv.length = 2 ∧ fw.tokenBalanceOf st.account.address ≠ none
  | .transfer => argv.length = 4 ∧ Accepts fw.asserts 20 (argv.getD 2 []) ∧
      (shellGetUint64 (argv.getD 3 [])).2.2 = 0 ∧ ∀ addr amount, fw.tokenTransfer addr amount ≠ none
  | .totalSupply => argv.length = 2 ∧ fw.tokenTotalSupply ≠ none

/-- With the string `s` the command addresses the contract of which `s` is the index in `addrs`, or
none and fails. -/
structure Exact (fw : Firmware) (addrs : List Address) (c : TokenCommand) (s : List UInt8)
    (st : State) (argv : List (List UInt8)) (o : Ended) : Prop where
  sound : ∀ a ∈ o.contracts, ∃ i, IsNumeral s i ∧ addrs[i]? = some a
  rejects : (∀ i, IsNumeral s i → addrs.length ≤ i) → o.ret < 0 ∧ o.contracts = []
  addresses : ∀ i a, IsNumeral s i → addrs[i]? = some a → c.Ready fw st argv → o.contracts = [a]

end TokenCommand

/-- In every state that is reached, `s` addresses the contract that it is the index of, the entries
stay as they are, and an addition to a full table fails and leaves it as it is. -/
def ExactIndex (s : List UInt8) : Prop :=
  ∀ (fw : Firmware) (pk : Vector UInt8 32) (steps : List Step) (st : State),
    run fw (bootState fw pk) steps = .ok st →
      (∀ (c : TokenCommand) (call : Call) (argv : List (List UInt8)) (o : Ended),
        argv[1]? = some s → c.command.run fw call st argv = .ok o →
          c.Exact fw (added fw (bootState fw pk) steps) s st argv o) ∧
      (∀ (steps' : List Step) (st' : State), run fw st steps' = .ok st' →
        ∀ i : Fin tokensMax, i.val < (added fw (bootState fw pk) steps).length →
          st'.tokens.get i = st.tokens.get i) ∧
      ∀ (call : Call) (argv : List (List UInt8)) (o : Ended),
        (added fw (bootState fw pk) steps).length = tokensMax →
          ShellCommand.erc20Add.run fw call st argv = .ok o →
            o.ret < 0 ∧ o.state.tokens = st.tokens

/-- The string is empty, or an integer whose digits denote less than `2 ^ 64`, which modulo 256 is
the index of a slot, but the string is no plain numeral of this index. -/
def Misread (s : List UInt8) : Prop :=
  s = [] ∨ ∃ sign digits, IsInteger s sign digits ∧ numberOf 10 digits < 2 ^ 64 ∧
    signedNumber sign digits % 256 < tokensMax ∧
    ¬ IsNumeral s (signedNumber sign digits % 256).toNat

/-! ## The index that is read -/

/-- What is left of the value. -/
def indexRead (s : List UInt8) : ℕ := (strtoul 10 s).value.toUInt8.toNat

/-- **The index of an integer** is its number modulo 256. -/
theorem indexRead_isInteger {s sign digits : List UInt8} (h : IsInteger s sign digits)
    (hlt : numberOf 10 digits < 2 ^ 64) :
    (indexRead s : ℤ) = signedNumber sign digits % 256 := by
  obtain ⟨hdigits, -, hnegated⟩ := numberDigits_isInteger h
  unfold indexRead strtoul signedNumber
  rw [hdigits, if_neg (Nat.not_le_of_lt hlt)]
  by_cases hminus : sign = ascii "-"
  · rw [if_pos (hnegated.mpr hminus), if_pos hminus, UInt64.toNat_toUInt8, UInt64.toNat_sub,
      UInt64.toNat_ofNat', UInt64.toNat_zero]
    generalize numberOf 10 digits = n at hlt
    omega
  · rw [if_neg fun hneg => hminus (hnegated.mp hneg), if_neg hminus, UInt64.toNat_toUInt8,
      UInt64.toNat_ofNat', Nat.mod_eq_of_lt hlt]
    exact Int.natCast_mod _ _

variable {tokens : Vector TokenNfo tokensMax} {addrs : List Address} {s : List UInt8}
  {tkn : TokenNfo} {i : ℕ} {a : Address}

/-- The string is read to its end, without an error. -/
def IsTaken (s : List UInt8) : Prop :=
  (strtoul 10 s).erange = false ∧ (strtoul 10 s).size = s.length

/-- **Which token is chosen**: the one in the slot that is read, if this is in use. -/
theorem getTokenByIndex_eq_some_iff :
    (getTokenByIndex tokens s).2 = some tkn ↔
      IsTaken s ∧ ∃ h : indexRead s < tokensMax, tokens[indexRead s].used ≠ 0 ∧
        tokens[indexRead s] = tkn := by
  have hrefused : errnoAfter (strtoul 10 s) 0 ≠ 0 ∨ (strtoul 10 s).size ≠ s.length ↔
      ¬ IsTaken s := by
    unfold errnoAfter IsTaken
    cases (strtoul 10 s).erange with
    | false => simp
    | true => simp [erange]
  unfold getTokenByIndex indexRead
  dsimp only
  by_cases htaken : IsTaken s
  · rw [if_neg (mt hrefused.mp (not_not.mpr htaken))]
    by_cases hlt : (strtoul 10 s).value.toUInt8.toNat < tokensMax
    · rw [dif_pos hlt]
      by_cases hused : tokens[(strtoul 10 s).value.toUInt8.toNat].used = 0
      · rw [if_pos hused]
        refine iff_of_false (fun h => by cases h) ?_
        rintro ⟨-, _, hne, -⟩
        exact hne hused
      · rw [if_neg hused]
        constructor
        · exact fun h => ⟨htaken, hlt, hused, Option.some.inj h⟩
        · rintro ⟨-, _, -, h⟩
          exact congrArg some h
    · rw [dif_neg hlt]
      refine iff_of_false (fun h => by cases h) ?_
      rintro ⟨-, h, -⟩
      exact hlt h
  · rw [if_pos (hrefused.mpr htaken)]
    exact iff_of_false (fun h => by cases h) fun h => htaken h.1

/-- It is one that has been added. -/
theorem getTokenByIndex_address (htable : IsTable tokens addrs)
    (h : (getTokenByIndex tokens s).2 = some tkn) :
    IsTaken s ∧ addrs[indexRead s]? = some tkn.address := by
  obtain ⟨htaken, hlt, hused, rfl⟩ := getTokenByIndex_eq_some_iff.mp h
  have hadded : indexRead s < addrs.length := by
    by_contra hge
    exact hused (htable.free ⟨indexRead s, hlt⟩ (Nat.le_of_not_lt hge))
  have hget := List.getElem?_eq_getElem hadded
  exact ⟨htaken, hget.trans (congrArg some (htable.entry ⟨indexRead s, hlt⟩ _ hget).2.symm)⟩

/-- Any that has been added is chosen by its index. -/
theorem exists_getTokenByIndex (htable : IsTable tokens addrs) (htaken : IsTaken s)
    (h : addrs[indexRead s]? = some a) :
    ∃ tkn, (getTokenByIndex tokens s).2 = some tkn ∧ tkn.address = a := by
  obtain ⟨hadded, -⟩ := List.getElem?_eq_some_iff.mp h
  have hlt := hadded.trans_le htable.length_le
  obtain ⟨hused, haddress⟩ := htable.entry ⟨indexRead s, hlt⟩ a h
  refine ⟨_, getTokenByIndex_eq_some_iff.mpr ⟨htaken, hlt, ?_, rfl⟩, haddress⟩
  rw [show tokens[indexRead s].used = 1 from hused]
  decide

/-- **The index of a numeral** of a slot is its number. -/
theorem indexRead_isNumeral (h : IsNumeral s i) (hlt : i < 256) :
    IsTaken s ∧ indexRead s = i := by
  obtain ⟨herange, hsize, hvalue⟩ := strtoul_isNumeral h (hlt.trans (by norm_num))
  refine ⟨⟨herange, hsize⟩, ?_⟩
  rw [indexRead, UInt64.toNat_toUInt8, hvalue, Nat.mod_eq_of_lt hlt]

/-- What is not misread is the numeral of the index that is read, if this is one of a slot. -/
theorem isNumeral_of_not_misread (h : ¬ Misread s) (htaken : IsTaken s)
    (hlt : indexRead s < tokensMax) : IsNumeral s (indexRead s) := by
  by_contra hnumeral
  apply h
  rcases strtoul_whole_iff.mp htaken with rfl | ⟨sign, digits, hint, hdigits⟩
  · exact Or.inl rfl
  · have hindex := indexRead_isInteger hint hdigits
    refine Or.inr ⟨sign, digits, hint, hdigits, ?_, ?_⟩
    · rw [← hindex]
      exact_mod_cast hlt
    · rwa [← hindex, Int.toNat_natCast]

/-- What is misread is no numeral of the index that is read. -/
theorem Misread.not_isNumeral (h : Misread s) :
    IsTaken s ∧ indexRead s < tokensMax ∧ ¬ IsNumeral s (indexRead s) := by
  rcases h with rfl | ⟨sign, digits, hint, hdigits, hlt, hnumeral⟩
  · exact ⟨⟨by decide, by decide⟩, by decide, fun h => h.1 rfl⟩
  · have hindex := indexRead_isInteger hint hdigits
    rw [← hindex] at hlt hnumeral
    exact ⟨strtoul_whole_iff.mpr (Or.inr ⟨sign, digits, hint, hdigits⟩), by exact_mod_cast hlt,
      by rwa [Int.toNat_natCast] at hnumeral⟩

/-! ## The commands -/

variable {fw : Firmware} {call : Call} {st : State} {argv : List (List UInt8)} {o : Ended}

/-- The contract of the transaction that is signed. -/
theorem finishTransfer_contracts {dev : Device} {tx : Transaction} {addr : Address}
    {amount : Uint256} :
    (finishTransfer dev call st tx [.encoded addr amount]).ended.contracts = [tx.toAddr] := by
  obtain ⟨report, heffects, hreport⟩ := finishTransfer_effects dev call st tx [.encoded addr amount]
  have hnone : (Act.effect report).contract? = none := by
    rcases hreport with rfl | rfl
    · rfl
    · rfl
  simp only [Ended.contracts, Outcome.ended, heffects, signAndSend, List.map_append, List.map_cons,
    List.filterMap_append, List.filterMap_cons_none hnone]
  rfl

/-- Without a token they fail. -/
theorem TokenCommand.run_none {c : TokenCommand}
    (htoken : (getTokenByIndex st.tokens (argv.getD 1 [])).2 = none)
    (h : c.command.run fw call st argv = .ok o) : o.ret < 0 ∧ o.contracts = [] := by
  have hquery : ∀ usage failed data, (erc20Query usage failed data call st argv).ret < 0 ∧
      (erc20Query usage failed data call st argv).contracts = [] := by
    intro usage failed data
    obtain ⟨-, -, ⟨hret, text, hacts⟩ | ⟨tkn, htkn, -⟩⟩ :=
      erc20Query_cases usage failed data call st argv
    · rw [hret, Ended.contracts, hacts]
      exact ⟨neg_one_lt_zero, rfl⟩
    · rw [htoken] at htkn
      cases htkn
  cases c with
  | balance =>
      cases h
      exact hquery _ _ _
  | totalSupply =>
      cases h
      exact hquery _ _ _
  | transfer =>
      obtain ⟨o, ho, rfl⟩ := exists_of_map_ended h
      unfold erc20Transfer at ho
      split at ho
      · cases ho
        exact ⟨neg_one_lt_zero, rfl⟩
      · rcases hget : getTokenByIndex st.tokens (argv.getD 1 []) with ⟨errno, token⟩
        rw [hget] at htoken
        obtain rfl : token = none := htoken
        simp only [hget] at ho
        cases ho
        exact ⟨neg_one_lt_zero, rfl⟩

/-- With a token they address its contract or none. -/
theorem TokenCommand.run_contracts {c : TokenCommand}
    (htoken : (getTokenByIndex st.tokens (argv.getD 1 [])).2 = some tkn)
    (h : c.command.run fw call st argv = .ok o) : ∀ a ∈ o.contracts, a = tkn.address := by
  have hquery : ∀ usage failed data,
      ∀ a ∈ (erc20Query usage failed data call st argv).contracts, a = tkn.address := by
    intro usage failed data a ha
    obtain ⟨-, -, ⟨-, text, hacts⟩ | ⟨tkn', htkn, hcontracts⟩⟩ :=
      erc20Query_cases usage failed data call st argv
    · rw [Ended.contracts, hacts] at ha
      cases ha
    · obtain rfl := Option.some.inj (htoken.symm.trans htkn)
      rw [hcontracts] at ha
      exact List.mem_singleton.mp ha
  cases c with
  | balance =>
      cases h
      exact hquery _ _ _
  | totalSupply =>
      cases h
      exact hquery _ _ _
  | transfer =>
      obtain ⟨o, ho, rfl⟩ := exists_of_map_ended h
      intro a ha
      rcases erc20Transfer_cases ho with
        hquiet | ⟨tkn', htkn, -, -, addressTo, amount, -, -, ⟨-, rfl⟩ | ⟨data, -, rfl⟩⟩
      · obtain ⟨act, hact, hcontract⟩ := List.mem_filterMap.mp ha
        obtain ⟨e, he, rfl⟩ := List.mem_map.mp hact
        obtain ⟨text, rfl⟩ := hquiet.effects e he
        cases hcontract
      · cases ha
      · obtain rfl := Option.some.inj (htoken.symm.trans htkn)
        rw [finishTransfer_contracts] at ha
        exact List.mem_singleton.mp ha

/-- When they are ready they address it. -/
theorem TokenCommand.run_ready {c : TokenCommand} (hready : c.Ready fw st argv)
    (htoken : (getTokenByIndex st.tokens (argv.getD 1 [])).2 = some tkn)
    (h : c.command.run fw call st argv = .ok o) : o.contracts = [tkn.address] := by
  cases c with
  | balance =>
      cases h
      obtain ⟨hargc, hdata⟩ := hready
      obtain ⟨data, hdata⟩ := Option.ne_none_iff_exists'.mp hdata
      rw [erc20Balance, hdata]
      exact erc20Query_ok hargc htoken
  | totalSupply =>
      cases h
      obtain ⟨hargc, hdata⟩ := hready
      obtain ⟨data, hdata⟩ := Option.ne_none_iff_exists'.mp hdata
      rw [erc20TotalSupply, hdata]
      exact erc20Query_ok hargc htoken
  | transfer =>
      obtain ⟨o, ho, rfl⟩ := exists_of_map_ended h
      obtain ⟨hargc, haddr, hamount, hencode⟩ := hready
      obtain ⟨data, hdata⟩ := Option.ne_none_iff_exists'.mp (hencode
        (addressOf (keptBytes 20 (argv.getD 2 [])))
        (amountOf (shellGetUint64 (argv.getD 3 [])).2.1 tkn.decimals))
      rw [erc20Transfer_ok hargc htoken haddr hamount hdata] at ho
      cases ho
      exact finishTransfer_contracts

/-- **A command is exact**, with a string that is not misread. -/
theorem TokenCommand.exact_of_not_misread {c : TokenCommand} (htable : IsTable st.tokens addrs)
    (hs : argv[1]? = some s) (hread : ¬ Misread s) (h : c.command.run fw call st argv = .ok o) :
    c.Exact fw addrs s st argv o := by
  have hget : argv.getD 1 [] = s := by rw [List.getD_eq_getElem?_getD, hs, Option.getD_some]
  have hlt256 : ∀ i a, addrs[i]? = some a → i < 256 := by
    intro i a ha
    obtain ⟨hlt, -⟩ := List.getElem?_eq_some_iff.mp ha
    exact (hlt.trans_le htable.length_le).trans (by decide)
  have hchosen : ∀ tkn, (getTokenByIndex st.tokens s).2 = some tkn →
      ∃ i, IsNumeral s i ∧ addrs[i]? = some tkn.address := by
    intro tkn htkn
    obtain ⟨htaken, haddress⟩ := getTokenByIndex_address htable htkn
    obtain ⟨hlt, -⟩ := List.getElem?_eq_some_iff.mp haddress
    exact ⟨_, isNumeral_of_not_misread hread htaken (hlt.trans_le htable.length_le), haddress⟩
  constructor
  · intro a ha
    cases htoken : (getTokenByIndex st.tokens s).2 with
    | none =>
        rw [(run_none (hget.symm ▸ htoken) h).2] at ha
        cases ha
    | some tkn =>
        rw [run_contracts (hget.symm ▸ htoken) h a ha]
        exact hchosen tkn htoken
  · intro hnone
    apply run_none _ h
    rw [hget, Option.eq_none_iff_forall_ne_some]
    intro tkn htkn
    obtain ⟨i, hi, haddress⟩ := hchosen tkn htkn
    obtain ⟨hlt, -⟩ := List.getElem?_eq_some_iff.mp haddress
    exact Nat.not_le_of_lt hlt (hnone i hi)
  · intro i a hi ha hready
    obtain ⟨htaken, hindex⟩ := indexRead_isNumeral hi (hlt256 i a ha)
    obtain ⟨tkn, htkn, rfl⟩ := exists_getTokenByIndex htable htaken (hindex.symm ▸ ha)
    exact run_ready hready (hget.symm ▸ htkn) h

/-! ## A table to read in -/

/-- `erc20 add` with an address of zeros. -/
def addZero : Step :=
  .command .erc20Add sampleCall [ascii "add", hexText zeroAddress.a.toList]

/-- The state when the shell of the sample device starts. -/
def sampleBoot : State := bootState sampleFirmware (Vector.replicate 32 1)

/-- As many additions are made as the table has slots. -/
theorem exists_added (n : ℕ) (hn : n ≤ tokensMax) :
    ∃ st, run sampleFirmware sampleBoot (List.replicate n addZero) = .ok st ∧
      (added sampleFirmware sampleBoot (List.replicate n addZero)).length = n := by
  induction n with
  | zero => exact ⟨sampleBoot, rfl, rfl⟩
  | succ n ih =>
      obtain ⟨st, hrun, hlength⟩ := ih (Nat.le_of_succ_le hn)
      have haddr := accepts_zeroAddress sampleFirmware.asserts
      obtain ⟨o, ho, hret, hcontracts⟩ := @erc20Add_of_lt _ sampleFirmware st sampleCall
        [ascii "add", hexText zeroAddress.a.toList] _ (isTable_run hrun)
        (lt_of_eq_of_lt hlength hn) (le_refl 2) haddr rfl (le_refl 0)
      have hstep : addZero.run sampleFirmware st = .ok o := ho
      have hadded : added sampleFirmware st [addZero] = o.contracts := by
        rw [added, hstep]
        exact (List.append_nil _).trans (if_pos hret)
      rw [List.replicate_succ', added_append hrun, List.length_append, hlength, hadded, hcontracts]
      exact ⟨o.state, run_append.mpr ⟨st, hrun, run_cons.mpr ⟨o, hstep, rfl⟩⟩, rfl⟩

/-- **A string that is misread** chooses a token that it is not the index of. -/
theorem Misread.not_exactIndex (h : Misread s) : ¬ ExactIndex s := by
  intro hexact
  obtain ⟨htaken, hlt, hnumeral⟩ := h.not_isNumeral
  obtain ⟨st, hrun, hlength⟩ := exists_added tokensMax le_rfl
  obtain ⟨hcommands, -, -⟩ := hexact _ _ _ _ hrun
  have hget := List.getElem?_eq_getElem (hlt.trans_eq hlength.symm)
  obtain ⟨tkn, htkn, haddress⟩ := exists_getTokenByIndex (isTable_run hrun) htaken hget
  have hcontracts := @erc20Query_ok "missing argument: token index\n"
    "Can't encode Token::totalSupply()\n" sampleCall st [ascii "totalSupply", s]
    [0x18, 0x16, 0x0d, 0xdd] tkn rfl htkn
  have hcommand := hcommands .totalSupply sampleCall [ascii "totalSupply", s] _ rfl rfl
  obtain ⟨i, hi, hentry⟩ := hcommand.sound tkn.address (hcontracts ▸ List.mem_singleton_self _)
  obtain ⟨hadded, -⟩ := List.getElem?_eq_some_iff.mp hentry
  obtain ⟨-, hindex⟩ := indexRead_isNumeral hi ((hadded.trans_eq hlength).trans (by decide))
  exact hnumeral (hindex ▸ hi)

/-- **When an index is exact**: the string is not misread. An empty one is taken for 0, and of a
number the low 8 bits are taken, so that 256 stands for 0. -/
theorem exactIndex_iff (s : List UInt8) : ExactIndex s ↔ ¬ Misread s := by
  constructor
  · exact fun hexact hread => hread.not_exactIndex hexact
  · intro hread fw pk steps st hrun
    have htable := isTable_run hrun
    refine ⟨?_, ?_, ?_⟩
    · exact fun c call argv o hs hcommand => c.exact_of_not_misread htable hs hread hcommand
    · exact fun steps' st' hrest => (run_table hrest htable).2
    · exact fun call argv o hfull hadd => erc20Add_of_full htable hfull hadd

/-- Counterexample: 256 chooses the first token. -/
theorem not_exactIndex_256 : ¬ ExactIndex (ascii "256") := by
  have hdigits : (ascii "256").all (isDigitOf 10) = true := by decide
  have hint : IsNumeral (ascii "256") 256 := ⟨by decide, List.all_eq_true.mp hdigits, by decide⟩
  refine Misread.not_exactIndex (Or.inr ⟨[], _, hint.isInteger, by decide, by decide, ?_⟩)
  exact fun h => absurd h.2.2 (by decide)

end AnylWallet.Zephyr
