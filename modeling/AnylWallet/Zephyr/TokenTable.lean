import AnylWallet.Zephyr.Shell

/-!
# The table of tokens over runs

* `added` are the contracts that the successful `erc20 add` commands of a run have added, in order.
* `IsTable`: the first slots hold these contracts, and the others are free. `tokenAdd_of_lt` and
  `tokenAdd_of_full` say what one `_token_add` does to such a table, `Step.run_table` what one step
  does, and `run_table` what a run does.
* `erc20Add_of_full`: an addition to a full table fails. `run_addSteps`: with an address and an
  answer, one to any other table adds the contract.
-/

namespace AnylWallet.Zephyr

open AnylWallet.Lib AnylWallet.Helpers AnylWallet.Eth

/-- The contract that a step has added, if it is a successful `erc20 add`: the one it asked for the
decimals. -/
def Step.added (step : Step) (o : Ended) : List Address :=
  match step with
  | .command .erc20Add _ _ => if o.ret = 0 then o.contracts else []
  | _ => []

/-- The contracts that have been added in a run. -/
def added (fw : Firmware) : State → List Step → List Address
  | _, [] => []
  | st, step :: steps =>
      match step.run fw st with
      | .error _ => []
      | .ok o => step.added o ++ added fw o.state steps

/-- The table holds these contracts, and nothing else. -/
structure IsTable (tokens : Vector TokenNfo tokensMax) (addrs : List Address) : Prop where
  length_le : addrs.length ≤ tokensMax
  entry : ∀ (i : Fin tokensMax) (a : Address), addrs[i.val]? = some a →
    tokens[i].used = 1 ∧ tokens[i].address = a
  free : ∀ i : Fin tokensMax, addrs.length ≤ i.val → tokens[i].used = 0

/-! ## One addition -/

variable {tokens : Vector TokenNfo tokensMax} {addrs : List Address}

/-- A slot is in use when it holds one of the contracts. -/
theorem IsTable.used_iff (h : IsTable tokens addrs) (i : Fin tokensMax) :
    (tokens.get i).used = 1 ↔ i.val < addrs.length := by
  constructor
  · intro hused
    by_contra hlt
    have hfree : (tokens.get i).used = 0 := h.free i (Nat.le_of_not_lt hlt)
    rw [hfree] at hused
    exact absurd hused (by decide)
  · intro hlt
    exact (h.entry i _ (List.getElem?_eq_getElem hlt)).1

/-- An addition to a table with a free slot takes the first one. -/
theorem tokenAdd_of_lt (h : IsTable tokens addrs) (hlt : addrs.length < tokensMax) (addr : Address)
    (decimals : UInt8) (symbol : List UInt8) :
    (tokenAdd tokens addr decimals symbol).2 = 0 ∧
      IsTable (tokenAdd tokens addr decimals symbol).1 (addrs ++ [addr]) ∧
      ∀ i : Fin tokensMax, i.val < addrs.length →
        (tokenAdd tokens addr decimals symbol).1[i] = tokens[i] := by
  have hfind : (List.finRange tokensMax).find? (fun i => decide (tokens[i].used ≠ 1)) =
      some ⟨addrs.length, hlt⟩ := by
    rw [List.find?_eq_some_iff_getElem]
    refine ⟨?_, addrs.length, by simpa using hlt, by simp, ?_⟩
    · rw [decide_eq_true_eq, ne_eq]
      exact mt (h.used_iff _).mp (lt_irrefl _)
    · intro j hj
      rw [List.getElem_finRange, Bool.not_eq_true', decide_eq_false_iff_not, not_not]
      exact (h.used_iff _).mpr hj
  unfold tokenAdd
  rw [hfind]
  have hother : ∀ i : Fin tokensMax, i.val ≠ addrs.length → ∀ nfo : TokenNfo,
      (tokens.set addrs.length nfo hlt)[i] = tokens[i] := by
    intro i hi nfo
    exact Vector.getElem_set_ne _ _ hi.symm
  refine ⟨rfl, ⟨?_, ?_, ?_⟩, fun i hi => hother i (Nat.ne_of_lt hi) _⟩
  · rw [List.length_append, List.length_singleton]
    exact hlt
  · intro i a ha
    by_cases hi : i.val = addrs.length
    · rw [hi, List.getElem?_concat_length] at ha
      obtain rfl := Option.some.inj ha
      obtain rfl : i = ⟨addrs.length, hlt⟩ := Fin.ext hi
      simp
    · have hold : addrs[i.val]? = some a := by
        obtain ⟨hlen, -⟩ := List.getElem?_eq_some_iff.mp ha
        rw [List.length_append, List.length_singleton] at hlen
        rwa [List.getElem?_append_left (by omega)] at ha
      dsimp only
      rw [hother i hi]
      exact h.entry i a hold
  · intro i hi
    rw [List.length_append, List.length_singleton] at hi
    dsimp only
    rw [hother i (by omega)]
    exact h.free i (by omega)

/-- An addition to a full table fails. -/
theorem tokenAdd_of_full (h : IsTable tokens addrs) (hfull : addrs.length = tokensMax)
    (addr : Address) (decimals : UInt8) (symbol : List UInt8) :
    tokenAdd tokens addr decimals symbol = (tokens, -1) := by
  have hfind : (List.finRange tokensMax).find? (fun i => decide (tokens[i].used ≠ 1)) = none := by
    rw [List.find?_eq_none]
    intro i _
    rw [decide_eq_true_eq, not_not]
    exact (h.used_iff i).mpr (i.isLt.trans_eq hfull.symm)
  unfold tokenAdd
  rw [hfind]

/-- What `_token_add` returns. -/
theorem tokenAdd_ret (tokens : Vector TokenNfo tokensMax) (addr : Address) (decimals : UInt8)
    (symbol : List UInt8) :
    ((tokenAdd tokens addr decimals symbol).2 = 0 ∨
      tokenAdd tokens addr decimals symbol = (tokens, -1)) := by
  unfold tokenAdd
  split
  · exact Or.inr rfl
  · exact Or.inl rfl

/-! ## One step -/

variable {fw : Firmware} {st st' : State} {step : Step} {steps : List Step} {o : Ended}
  {call : Call} {argv : List (List UInt8)}

/-- **What `erc20 add` does to the table**: nothing, or it adds the contract it has asked. -/
theorem erc20Add_tokens (h : ShellCommand.erc20Add.run fw call st argv = .ok o) :
    (o.ret < 0 ∧ o.state.tokens = st.tokens) ∨
      (o.ret = 0 ∧ ∃ addr decimals, o.contracts = [addr] ∧
        (tokenAdd st.tokens addr decimals (ascii "TKN")).2 = 0 ∧
        o.state.tokens = (tokenAdd st.tokens addr decimals (ascii "TKN")).1) := by
  obtain ⟨o, ho, rfl⟩ := exists_of_map_ended h
  unfold erc20Add at ho
  split at ho
  · cases ho
    exact Or.inl ⟨neg_one_lt_zero, rfl⟩
  · rcases withAddress_cases _ _ _ ho with ⟨-, ho⟩ | ⟨a, rfl⟩
    · generalize addressOf (keptBytes 20 (argv.getD 1 [])) = addr at ho
      cases hdata : fw.tokenDecimals with
      | none =>
          simp only [tokenDecimals, hdata] at ho
          cases ho
          exact Or.inl ⟨neg_one_lt_zero, rfl⟩
      | some data =>
          by_cases hret : call.reply.ret < 0
          · simp only [tokenDecimals, hdata, hret, if_true] at ho
            cases ho
            exact Or.inl ⟨neg_one_lt_zero, rfl⟩
          · simp only [tokenDecimals, hdata, hret, if_false] at ho
            generalize call.reply.out.lower.lower.toUInt8 = decimals at ho
            rcases tokenAdd_ret st.tokens addr decimals (ascii "TKN") with hzero | hfull
            · rw [hzero, if_neg (lt_irrefl 0)] at ho
              cases ho
              exact Or.inr ⟨rfl, addr, decimals, rfl, hzero, rfl⟩
            · rw [hfull, if_pos neg_one_lt_zero] at ho
              cases ho
              exact Or.inl ⟨neg_one_lt_zero, rfl⟩
    · exact Or.inl ⟨neg_one_lt_zero, rfl⟩

/-- A step that is no successful `erc20 add` keeps the table. -/
theorem Step.tokens_cases (h : step.run fw st = .ok o) :
    (step.added o = [] ∧ o.state.tokens = st.tokens) ∨
      ∃ addr decimals, step.added o = [addr] ∧
        (tokenAdd st.tokens addr decimals (ascii "TKN")).2 = 0 ∧
        o.state.tokens = (tokenAdd st.tokens addr decimals (ascii "TKN")).1 := by
  have hother : (∀ call argv, step ≠ .command .erc20Add call argv) → step.added o = [] := by
    intro hne
    unfold Step.added
    split
    · exact absurd rfl (hne _ _)
    · rfl
  by_cases hadd : ∃ call argv, step = .command .erc20Add call argv
  · obtain ⟨call, argv, rfl⟩ := hadd
    rcases erc20Add_tokens h with ⟨hret, htokens⟩ | ⟨hret, addr, decimals, hcontracts, hok, htokens⟩
    · exact Or.inl ⟨if_neg (ne_of_lt hret), htokens⟩
    · exact Or.inr ⟨addr, decimals, (if_pos hret).trans hcontracts, hok, htokens⟩
  · have hne : ∀ call argv, step ≠ .command .erc20Add call argv :=
      fun call argv heq => hadd ⟨call, argv, heq⟩
    refine Or.inl ⟨hother hne, ?_⟩
    rcases Step.run_cases h with hkept | ⟨_, _, -, pk, hset⟩ | ⟨call, argv, heq, -⟩
    · exact hkept.tokens
    · rw [hset]
    · exact absurd heq (hne call argv)

/-- **What a step does to the table**: it holds what has been added besides, and the entries stay as
they are. -/
theorem Step.run_table (h : step.run fw st = .ok o) (htable : IsTable st.tokens addrs) :
    IsTable o.state.tokens (addrs ++ step.added o) ∧
      ∀ i : Fin tokensMax, i.val < addrs.length → o.state.tokens.get i = st.tokens.get i := by
  rcases Step.tokens_cases h with ⟨hadded, htokens⟩ | ⟨addr, decimals, hadded, hok, htokens⟩
  · rw [hadded, htokens, List.append_nil]
    exact ⟨htable, fun _ _ => rfl⟩
  · rcases Nat.lt_or_ge addrs.length tokensMax with hlt | hge
    · obtain ⟨-, hnext, hentries⟩ := tokenAdd_of_lt htable hlt addr decimals (ascii "TKN")
      rw [hadded, htokens]
      exact ⟨hnext, hentries⟩
    · rw [tokenAdd_of_full htable (le_antisymm htable.length_le hge)] at hok
      exact absurd (show (-1 : ℤ) = 0 from hok) (by decide)

/-! ## Runs -/

/-- **What a run does to the table**: it holds what has been added besides, and the entries stay as
they are. -/
theorem run_table (h : run fw st steps = .ok st') (htable : IsTable st.tokens addrs) :
    IsTable st'.tokens (addrs ++ added fw st steps) ∧
      ∀ i : Fin tokensMax, i.val < addrs.length → st'.tokens.get i = st.tokens.get i := by
  induction steps generalizing st addrs with
  | nil =>
      cases h
      rw [added, List.append_nil]
      exact ⟨htable, fun _ _ => rfl⟩
  | cons step steps ih =>
      obtain ⟨o, ho, hrest⟩ := run_cons.mp h
      obtain ⟨hnext, hentries⟩ := Step.run_table ho htable
      obtain ⟨hend, hkept⟩ := ih hrest hnext
      rw [List.append_assoc] at hend
      have hadded : added fw st (step :: steps) = step.added o ++ added fw o.state steps := by
        rw [added, ho]
      refine ⟨hadded ▸ hend, fun i hi => ?_⟩
      rw [hkept i (by rw [List.length_append]; omega), hentries i hi]

/-- What one run after the other has added. -/
theorem added_append {steps' : List Step} (h : run fw st steps = .ok st') :
    added fw st (steps ++ steps') = added fw st steps ++ added fw st' steps' := by
  induction steps generalizing st with
  | nil =>
      cases h
      rfl
  | cons step steps ih =>
      obtain ⟨o, ho, hrest⟩ := run_cons.mp h
      rw [List.cons_append, added, added, ho]
      dsimp only
      rw [ih hrest, List.append_assoc]

/-- The table at the start is free. -/
theorem isTable_bootState (fw : Firmware) (pk : Vector UInt8 32) :
    IsTable (bootState fw pk).tokens [] where
  length_le := Nat.zero_le _
  entry i a h := by cases h
  free i _ := by simp [bootState]

/-- **The table holds the contracts that have been added**, in every state that is reached. -/
theorem isTable_run {pk : Vector UInt8 32} (h : run fw (bootState fw pk) steps = .ok st) :
    IsTable st.tokens (added fw (bootState fw pk) steps) :=
  (run_table h (isTable_bootState fw pk)).1

/-- An `erc20 add` to a full table fails, and leaves it as it is. -/
theorem erc20Add_of_full (htable : IsTable st.tokens addrs) (hfull : addrs.length = tokensMax)
    (h : ShellCommand.erc20Add.run fw call st argv = .ok o) :
    o.ret < 0 ∧ o.state.tokens = st.tokens := by
  rcases erc20Add_tokens h with hfail | ⟨-, addr, decimals, -, hok, -⟩
  · exact hfail
  · rw [tokenAdd_of_full htable hfull] at hok
    exact absurd (show (-1 : ℤ) = 0 from hok) (by decide)

/-- With an address and an answer, an `erc20 add` to any other table adds the contract. -/
theorem erc20Add_of_lt {data : List UInt8} (htable : IsTable st.tokens addrs)
    (hlt : addrs.length < tokensMax) (hargc : 2 ≤ argv.length)
    (haddr : Accepts fw.asserts 20 (argv.getD 1 [])) (hdata : fw.tokenDecimals = some data)
    (hret : 0 ≤ call.reply.ret) :
    ∃ o, ShellCommand.erc20Add.run fw call st argv = .ok o ∧ o.ret = 0 ∧
      o.contracts = [addressOf (keptBytes 20 (argv.getD 1 []))] := by
  obtain ⟨hok, -⟩ := tokenAdd_of_lt htable hlt (addressOf (keptBytes 20 (argv.getD 1 [])))
    call.reply.out.lower.lower.toUInt8 (ascii "TKN")
  have hrun : ∃ st', erc20Add fw.toDevice call st argv = .ok ⟨st', 0, [.called st.account.address
      (decimalsTx (addressOf (keptBytes 20 (argv.getD 1 []))) call.datablk data)]⟩ := by
    unfold erc20Add
    rw [if_neg (Nat.not_lt_of_le hargc), withAddress_of_accepts _ _ _ haddr]
    simp only [tokenDecimals, hdata, if_neg (Int.not_lt.mpr hret), hok, lt_irrefl, if_false]
    exact ⟨_, rfl⟩
  obtain ⟨st', hrun⟩ := hrun
  exact ⟨_, congrArg (Except.map Outcome.ended) hrun, rfl, rfl⟩

end AnylWallet.Zephyr
