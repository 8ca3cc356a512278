import AnylWallet.Zephyr.Erc20Queries
import AnylWallet.Zephyr.Upload
import AnylWallet.Zephyr.Wallet

/-!
# Runs of shell commands

* `ShellCommand` lists the commands of the wallet, the tokens and the upload; a `Step` is one of
  them, a round of the upload thread, or a command of `sensor` or `sntp`, which leaves the static
  variables alone but may set `errno`. The commands of `web3` are no steps: they encode requests
  of their own into `WEB3_BUF`.
* `run` lets the steps follow each other. `run_induction`: what every step keeps, every run keeps.
  `RunAll` is a property of all steps of a run.
* `Step.run_cases`: all that a step can do to the key of the account and to the tokens.
-/

namespace AnylWallet.Zephyr

open AnylWallet.Lib AnylWallet.Helpers AnylWallet.Eth

/-- `upload_stop`, as the shell sees it: the semaphores are not part of the state here.
Source: `zephyr-wallet/upload.c` -/
def uploadStop (call : Call) (st : State) : Outcome :=
  if call.semTaken = true then st.fail 0 "thread not running\n" else ⟨st, 0, []⟩

/-- The shell commands of the groups `wallet`, `erc20` and `upload`. -/
inductive ShellCommand where
  | walletNonce
  | walletGasPrice
  | walletGasLimit
  | walletPk
  | walletPk2addr
  | walletTransfer
  | walletSync
  | walletBalance
  | erc20Add
  | erc20Balance
  | erc20List
  | erc20Transfer
  | erc20TotalSupply
  | uploadStart
  | uploadStop
deriving DecidableEq, Repr

/-- Run a command. -/
def ShellCommand.run (fw : Firmware) (call : Call) (st : State) (argv : List (List UInt8)) :
    ShellCommand → Except Fault Ended
  | .walletNonce => .ok (walletSetNonce st argv).ended
  | .walletGasPrice => .ok (walletSetGasPrice st argv).ended
  | .walletGasLimit => .ok (walletSetGasLimit st argv).ended
  | .walletPk => walletSetPk fw st argv
  | .walletPk2addr => Zephyr.walletPk2addr fw st argv
  | .walletTransfer => (Zephyr.walletTransfer fw.toDevice call st argv).map Outcome.ended
  | .walletSync => .ok (Zephyr.walletSync call st)
  | .walletBalance => .ok (Zephyr.walletBalance call st)
  | .erc20Add => (Zephyr.erc20Add fw.toDevice call st argv).map Outcome.ended
  | .erc20Balance => .ok (Zephyr.erc20Balance fw call st argv)
  | .erc20List => .ok (Zephyr.erc20List st)
  | .erc20Transfer => (Zephyr.erc20Transfer fw.toDevice call st argv).map Outcome.ended
  | .erc20TotalSupply => .ok (Zephyr.erc20TotalSupply fw call st argv)
  | .uploadStart => (Zephyr.uploadStart fw.toDevice call st argv).map Outcome.ended
  | .uploadStop => .ok (Zephyr.uploadStop call st).ended

/-- A step of the device; the commands of the group `web3` are none. -/
inductive Step where
  /-- A shell command. -/
  | command (c : ShellCommand) (call : Call) (argv : List (List UInt8))
  /-- A round of the upload thread. -/
  | round (call : Call) (uploadAddr : Address) (sensor : Option (Int32 × Int32))
  /-- A command of `sensor` or `sntp`: it makes no request and leaves these variables as they are. -/
  | elsewhere (errno : ℤ)

/-- Take a step. -/
def Step.run (fw : Firmware) (st : State) : Step → Except Fault Ended
  | .command c call argv => c.run fw call st argv
  | .round call uploadAddr sensor =>
      .ok (uploadRound fw.toDevice call st uploadAddr sensor).ended
  | .elsewhere errno => .ok ⟨{ st with errno := errno }, 0, []⟩

/-- The state behind the steps. -/
def run (fw : Firmware) : State → List Step → Except Fault State
  | st, [] => .ok st
  | st, step :: steps =>
      match step.run fw st with
      | .error fault => .error fault
      | .ok o => run fw o.state steps

/-- The state when the shell starts: `main` has set the key. -/
def bootState (fw : Firmware) (pk : Vector UInt8 32) : State where
  account := walletSetGlobalPrivkey fw pk ⟨Vector.replicate 32 0, zeroAddress, 0, 1000000000, 21000⟩
  tokens := Vector.replicate tokensMax ⟨zeroAddress, 0, Vector.replicate 4 0, 0⟩
  uploadAddr := zeroAddress
  uploadInterval := defaultUploadInterval
  errno := 0

/-! ## Runs -/

variable {fw : Firmware} {st st' : State} {step : Step} {steps : List Step} {o : Ended}

/-- The first step of a run, and the rest. -/
theorem run_cons : run fw st (step :: steps) = .ok st' ↔
    ∃ o, step.run fw st = .ok o ∧ run fw o.state steps = .ok st' := by
  rw [run]
  cases step.run fw st with
  | error fault => simp
  | ok o => simp

/-- One run after the other. -/
theorem run_append {steps' : List Step} : run fw st (steps ++ steps') = .ok st' ↔
    ∃ mid, run fw st steps = .ok mid ∧ run fw mid steps' = .ok st' := by
  induction steps generalizing st with
  | nil => simp [run]
  | cons step steps ih =>
      rw [List.cons_append, run_cons]
      simp only [run_cons]
      constructor
      · rintro ⟨o, ho, hrest⟩
        obtain ⟨mid, hmid, hend⟩ := ih.mp hrest
        exact ⟨mid, ⟨o, ho, hmid⟩, hend⟩
      · rintro ⟨mid, ⟨o, ho, hmid⟩, hend⟩
        exact ⟨o, ho, ih.mpr ⟨mid, hmid, hend⟩⟩

/-- **What every step keeps, every run keeps.** -/
theorem run_induction (inv : State → Prop)
    (hstep : ∀ {st : State} {step : Step} {o : Ended}, step.run fw st = .ok o → inv st →
      inv o.state)
    (hrun : run fw st steps = .ok st') (hinv : inv st) : inv st' := by
  induction steps generalizing st with
  | nil =>
      cases hrun
      exact hinv
  | cons step steps ih =>
      obtain ⟨o, ho, hrest⟩ := run_cons.mp hrun
      exact ih hrest (hstep ho hinv)

/-- The property holds of every step that a run takes, and of what it ends with. -/
def RunAll (fw : Firmware) (p : State → Step → Ended → Prop) : State → List Step → Prop
  | _, [] => True
  | st, step :: steps => ∀ o, step.run fw st = .ok o → p st step o ∧ RunAll fw p o.state steps

/-- Properties that are equivalent of a step are so of a run. -/
theorem runAll_congr {p q : State → Step → Ended → Prop}
    (h : ∀ st step o, step.run fw st = .ok o → (p st step o ↔ q st step o)) :
    RunAll fw p st steps ↔ RunAll fw q st steps := by
  induction steps generalizing st with
  | nil => rfl
  | cons step steps ih =>
      simp only [RunAll]
      exact forall₂_congr fun o ho => and_congr (h st step o ho) ih

/-! ## What a step can do -/

/-- The account has this key and this address. -/
def Account.SameKey (a b : Account) : Prop := a.privkey = b.privkey ∧ a.address = b.address

/-- The key and the tokens are as before. -/
structure State.Kept (st st' : State) : Prop where
  key : st'.account.SameKey st.account
  tokens : st'.tokens = st.tokens

/-- Nothing but `errno` changes. -/
theorem State.kept_errno (st : State) (errno : ℤ) : st.Kept { st with errno := errno } :=
  ⟨⟨rfl, rfl⟩, rfl⟩

/-- A quiet command keeps them. -/
theorem Outcome.Quiet.kept {o : Outcome} (h : o.Quiet st) : st.Kept o.ended.state := by
  have hstate : o.ended.state = o.state := rfl
  rw [hstate, h.state]
  exact st.kept_errno _

/-- So does a transfer. -/
theorem finishTransfer_kept {dev : Device} {call : Call} {tx : Transaction}
    {before : List Effect} {errno : ℤ} :
    st.Kept (finishTransfer dev call { st with errno := errno } tx before).ended.state := by
  have hstate : (finishTransfer dev call { st with errno := errno } tx before).ended.state =
      (finishTransfer dev call { st with errno := errno } tx before).state := rfl
  rw [hstate, finishTransfer_state]
  exact st.kept_errno _

/-- A number of the account is not its key. -/
theorem walletSetNumber_kept {name : String} {get : Account → UInt32}
    {set : UInt32 → Account → Account} (hset : ∀ n a, (set n a).SameKey a)
    (st : State) (argv : List (List UInt8)) :
    st.Kept (walletSetNumber name get set st argv).ended.state := by
  unfold walletSetNumber
  split
  · exact st.kept_errno _
  · split
    · exact st.kept_errno _
    · exact ⟨hset _ _, rfl⟩

/-- The result of a command, as a step has it. -/
theorem exists_of_map_ended {r : Except Fault Outcome} (h : r.map Outcome.ended = .ok o) :
    ∃ o', r = .ok o' ∧ o'.ended = o := by
  cases r with
  | error fault => cases h
  | ok o' => exact ⟨o', rfl, Except.ok.inj h⟩

/-- `upload start` changes the variables of the upload. -/
theorem uploadStart_state {dev : Device} {call : Call} {argv : List (List UInt8)} {o : Outcome}
    (h : uploadStart dev call st argv = .ok o) :
    ∃ addr interval errno, o.ended.state =
      { st with uploadAddr := addr, uploadInterval := interval, errno := errno } := by
  unfold uploadStart at h
  split at h
  · exact ⟨st.uploadAddr, st.uploadInterval, st.errno, by rw [← Except.ok.inj h]; rfl⟩
  · rcases withAddress_cases _ _ _ h with ⟨-, h⟩ | ⟨a, rfl⟩
    · dsimp only at h
      split_ifs at h
      all_goals
        rw [← Except.ok.inj h]
        exact ⟨_, _, _, rfl⟩
    · exact ⟨a, st.uploadInterval, st.errno, rfl⟩

/-- `wallet pk` keeps them, or sets the key. -/
theorem walletSetPk_cases {argv : List (List UInt8)} (h : walletSetPk fw st argv = .ok o) :
    st.Kept o.state ∨
      ∃ pk, o.state = { st with account := walletSetGlobalPrivkey fw pk st.account } := by
  unfold walletSetPk at h
  split at h
  · exact Or.inl (Except.ok.inj h ▸ st.kept_errno _)
  · rcases withPk_cases h with ⟨text, rfl⟩ | ⟨pk, rfl⟩
    · exact Or.inl (st.kept_errno _)
    · exact Or.inr ⟨pk, rfl⟩

/-- `wallet pk2addr` changes nothing. -/
theorem walletPk2addr_state {argv : List (List UInt8)} (h : walletPk2addr fw st argv = .ok o) :
    o.state = st := by
  unfold walletPk2addr at h
  split at h
  · exact Except.ok.inj h ▸ rfl
  · rcases withPk_cases h with ⟨text, rfl⟩ | ⟨pk, rfl⟩
    · rfl
    · rfl

/-- `erc20 add` keeps the key. -/
theorem erc20Add_sameKey {dev : Device} {call : Call} {argv : List (List UInt8)} {o : Outcome}
    (h : erc20Add dev call st argv = .ok o) : o.state.account.SameKey st.account := by
  unfold erc20Add at h
  split at h
  · cases h
    exact ⟨rfl, rfl⟩
  · rcases withAddress_cases _ _ _ h with ⟨-, h⟩ | ⟨a, rfl⟩
    · dsimp only at h
      split at h
      · cases h
        exact ⟨rfl, rfl⟩
      · split at h
        · cases h
          exact ⟨rfl, rfl⟩
        · cases h
          exact ⟨rfl, rfl⟩
    · exact ⟨rfl, rfl⟩

/-- **What a command can do** to the key and to the tokens. -/
theorem ShellCommand.run_cases {c : ShellCommand} {call : Call} {argv : List (List UInt8)}
    (h : c.run fw call st argv = .ok o) :
    st.Kept o.state ∨
      (c = .walletPk ∧
        ∃ pk, o.state = { st with account := walletSetGlobalPrivkey fw pk st.account }) ∨
      (c = .erc20Add ∧ o.state.account.SameKey st.account) := by
  have hset : ∀ n a, (Account.setNonce n a).SameKey a ∧ (Account.setGasPrice n a).SameKey a ∧
      (Account.setGasLimit n a).SameKey a := fun n a => ⟨⟨rfl, rfl⟩, ⟨rfl, rfl⟩, ⟨rfl, rfl⟩⟩
  have hquery : ∀ usage failed data,
      st.Kept (erc20Query usage failed data call st argv).state := by
    intro usage failed data
    obtain ⟨errno, hstate, -⟩ := erc20Query_cases usage failed data call st argv
    rw [hstate]
    exact st.kept_errno errno
  cases c with
  | walletNonce =>
      cases h
      exact Or.inl (walletSetNumber_kept (fun n a => (hset n a).1) _ _)
  | walletGasPrice =>
      cases h
      exact Or.inl (walletSetNumber_kept (fun n a => (hset n a).2.1) _ _)
  | walletGasLimit =>
      cases h
      exact Or.inl (walletSetNumber_kept (fun n a => (hset n a).2.2) _ _)
  | walletPk =>
      rcases walletSetPk_cases h with hkept | hkey
      · exact Or.inl hkept
      · exact Or.inr (Or.inl ⟨rfl, hkey⟩)
  | walletPk2addr =>
      rw [walletPk2addr_state h]
      exact Or.inl (st.kept_errno _)
  | walletTransfer =>
      obtain ⟨o, ho, rfl⟩ := exists_of_map_ended h
      rcases walletTransfer_cases ho with hquiet | ⟨-, txValue, rfl⟩
      · exact Or.inl hquiet.kept
      · exact Or.inl finishTransfer_kept
  | walletSync =>
      cases h
      refine Or.inl ?_
      unfold Zephyr.walletSync
      dsimp only
      split
      · exact st.kept_errno _
      · exact ⟨⟨rfl, rfl⟩, rfl⟩
  | walletBalance =>
      cases h
      refine Or.inl ?_
      unfold Zephyr.walletBalance
      dsimp only
      split
      · exact st.kept_errno _
      · exact st.kept_errno _
  | erc20Add =>
      obtain ⟨o, ho, rfl⟩ := exists_of_map_ended h
      exact Or.inr (Or.inr ⟨rfl, erc20Add_sameKey ho⟩)
  | erc20Balance =>
      cases h
      exact Or.inl (hquery _ _ _)
  | erc20List =>
      cases h
      exact Or.inl (st.kept_errno _)
  | erc20Transfer =>
      obtain ⟨o, ho, rfl⟩ := exists_of_map_ended h
      rcases erc20Transfer_cases ho with
        hquiet | ⟨tkn, -, -, -, addressTo, amount, -, -, ⟨-, rfl⟩ | ⟨data, -, rfl⟩⟩
      · exact Or.inl hquiet.kept
      · exact Or.inl (st.kept_errno _)
      · exact Or.inl finishTransfer_kept
  | erc20TotalSupply =>
      cases h
      exact Or.inl (hquery _ _ _)
  | uploadStart =>
      obtain ⟨o, ho, rfl⟩ := exists_of_map_ended h
      obtain ⟨addr, interval, errno, hstate⟩ := uploadStart_state ho
      rw [hstate]
      exact Or.inl ⟨⟨rfl, rfl⟩, rfl⟩
  | uploadStop =>
      cases h
      refine Or.inl ?_
      unfold Zephyr.uploadStop
      split
      · exact st.kept_errno _
      · exact st.kept_errno _

/-- **What a step can do** to the key and to the tokens. -/
theorem Step.run_cases (h : step.run fw st = .ok o) :
    st.Kept o.state ∨
      (∃ call argv, step = .command .walletPk call argv ∧
        ∃ pk, o.state = { st with account := walletSetGlobalPrivkey fw pk st.account }) ∨
      (∃ call argv, step = .command .erc20Add call argv ∧
        o.state.account.SameKey st.account) := by
  cases step with
  | command c call argv =>
      rcases ShellCommand.run_cases h with hkept | ⟨rfl, hkey⟩ | ⟨rfl, hkey⟩
      · exact Or.inl hkept
      · exact Or.inr (Or.inl ⟨call, argv, rfl, hkey⟩)
      · exact Or.inr (Or.inr ⟨call, argv, rfl, hkey⟩)
  | round call uploadAddr sensor =>
      cases h
      refine Or.inl ?_
      cases sensor with
      | none => exact st.kept_errno _
      | some reading =>
          unfold uploadRound sendDataEth Outcome.ended
          dsimp only
          split
          · exact st.kept_errno _
          · exact ⟨⟨rfl, rfl⟩, rfl⟩
  | elsewhere errno =>
      cases h
      exact Or.inl (st.kept_errno _)

end AnylWallet.Zephyr
