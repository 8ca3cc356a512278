import AnylWallet.Zephyr.Shell

/-!
# `wallet nonce`, `wallet gas_price` and `wallet gas_limit` over runs

* `NumberCommand.Exact`: the command stores the number of a plain numeral below `2 ^ 32`, and it
  refuses every other string and leaves the account as it is. So nothing that happened before it
  matters.
* `runExact_iff`: the commands of a run are so exactly if `errno` is zero before each that is given
  such a numeral, and each other string is refused by `strtoul`, starts with a minus or meets an
  `errno` that is not zero. For `errno` is what an earlier command left there, and `strtoul` takes an
  empty string, white space and a plus, and numbers up to `2 ^ 64`. As in `Helpers.Strtol`, a `long`
  has 64 bits: with one of 32 bits the numbers from `2 ^ 32` on would be refused for their range.
-/

namespace AnylWallet.Zephyr

open AnylWallet.Lib AnylWallet.Helpers AnylWallet.Eth

/-- The commands that set a number of the account. -/
inductive NumberCommand where
  | nonce
  | gasPrice
  | gasLimit
deriving DecidableEq, Repr

namespace NumberCommand

/-- The command of the shell. -/
def command : NumberCommand → ShellCommand
  | .nonce => .walletNonce
  | .gasPrice => .walletGasPrice
  | .gasLimit => .walletGasLimit

/-- The name it prints. -/
def name : NumberCommand → String
  | .nonce => "set_nonce"
  | .gasPrice => "gas_price"
  | .gasLimit => "gas_limit"

/-- The number it prints. -/
def get : NumberCommand → Account → UInt32
  | .nonce => Account.nonce
  | .gasPrice => Account.gasPrice
  | .gasLimit => Account.gasLimit

/-- The number it sets. -/
def set : NumberCommand → UInt32 → Account → Account
  | .nonce => Account.setNonce
  | .gasPrice => Account.setGasPrice
  | .gasLimit => Account.setGasLimit

/-- They are one function. -/
theorem run_command (fw : Firmware) (c : NumberCommand) (call : Call) (st : State)
    (argv : List (List UInt8)) :
    c.command.run fw call st argv =
      .ok (walletSetNumber c.name c.get c.set st argv).ended := by
  cases c <;> rfl

/-- With the string `s` the command stores the number below `2 ^ 32` of which it is a plain numeral,
or it reports an error and leaves the account as it is. -/
structure Exact (c : NumberCommand) (s : List UInt8) (st : State) (o : Ended) : Prop where
  stores : ∀ n < 2 ^ 32, IsNumeral s n →
    o.ret = 0 ∧ o.state.account = c.set (UInt32.ofNat n) st.account
  refuses : (∀ n < 2 ^ 32, ¬ IsNumeral s n) →
    o.ret < 0 ∧ o.state.account = st.account ∧ ∃ text, .text text ∈ o.acts

end NumberCommand

/-- The string is a plain numeral below `2 ^ 32`. -/
def IsPlain (s : List UInt8) : Prop := ∃ n < 2 ^ 32, IsNumeral s n

/-- The string does not start with a minus, and it is empty, or white space, a sign and digits that
denote less than `2 ^ 64`. -/
def IsLoose (s : List UInt8) : Prop :=
  s.head? ≠ some '-'.toUInt8 ∧
    (s = [] ∨ ∃ sign digits, IsInteger s sign digits ∧ numberOf 10 digits < 2 ^ 64)

/-- The step sets a number as `NumberCommand.Exact` says, if it sets one. -/
def StepExact (st : State) (step : Step) (o : Ended) : Prop :=
  ∀ (c : NumberCommand) (call : Call) (argv : List (List UInt8)) (s : List UInt8),
    step = .command c.command call argv → argv[1]? = some s → c.Exact s st o

/-- If the step sets a number: `errno` is zero before it when the string is a plain numeral, and
otherwise `errno` is not zero, or the string is not taken for a number. -/
def StepMeets (st : State) (step : Step) (_ : Ended) : Prop :=
  ∀ (c : NumberCommand) (call : Call) (argv : List (List UInt8)) (s : List UInt8),
    step = .command c.command call argv → argv[1]? = some s →
      (IsPlain s → st.errno = 0) ∧ (¬ IsPlain s → st.errno ≠ 0 ∨ ¬ IsLoose s)

/-! ## One command -/

variable {fw : Firmware} {st : State} {argv : List (List UInt8)} {s : List UInt8}

/-- A string that is taken for a number is stored, and any other one is refused. -/
theorem walletSetNumber_cases (st : State) (c : NumberCommand) (hs : argv[1]? = some s) :
    (∃ errno val, convertUlong s st.errno = (errno, some val) ∧
        walletSetNumber c.name c.get c.set st argv =
          ⟨{ st with errno := errno, account := c.set val st.account }, 0, []⟩) ∨
      ((convertUlong s st.errno).2 = none ∧ ∃ errno text,
        walletSetNumber c.name c.get c.set st argv = { st with errno := errno }.fail (-1) text) := by
  have hlen : ¬ argv.length ≤ 1 := by
    obtain ⟨hlt, -⟩ := List.getElem?_eq_some_iff.mp hs
    omega
  have hget : argv.getD 1 [] = s := by rw [List.getD_eq_getElem?_getD, hs, Option.getD_some]
  rw [walletSetNumber, if_neg hlen, hget]
  rcases convertUlong s st.errno with ⟨errno, _ | val⟩
  · exact Or.inr ⟨rfl, errno, _, rfl⟩
  · exact Or.inl ⟨errno, val, rfl, rfl⟩

/-- **When the command is exact**: a plain numeral finds `errno` zero, and another string is not
taken for a number. -/
theorem walletSetNumber_exact_iff (c : NumberCommand) (hs : argv[1]? = some s) :
    c.Exact s st (walletSetNumber c.name c.get c.set st argv).ended ↔
      (IsPlain s → st.errno = 0) ∧ (¬ IsPlain s → st.errno ≠ 0 ∨ ¬ IsLoose s) := by
  have htaken : (convertUlong s st.errno).2.isSome = true ↔ st.errno = 0 ∧ IsLoose s :=
    convertUlong_isSome_iff
  rcases walletSetNumber_cases st c hs with
    ⟨errno, val, hconv, heq⟩ | ⟨hconv, errno, text, heq⟩
  · -- taken for a number
    rw [hconv] at htaken
    obtain ⟨hzero, hloose⟩ := htaken.mp rfl
    rw [heq]
    constructor
    · refine fun h => ⟨fun _ => hzero, fun hplain => ?_⟩
      have hret := (h.refuses fun n hn hnum => hplain ⟨n, hn, hnum⟩).1
      exact absurd hret (lt_irrefl 0)
    · rintro ⟨-, hnot⟩
      have hplain : IsPlain s := by
        by_contra hplain
        rcases hnot hplain with hne | hnloose
        · exact hne hzero
        · exact hnloose hloose
      refine ⟨fun n hn hnum => ⟨rfl, ?_⟩, fun hnone => ?_⟩
      · rw [hzero, convertUlong_isNumeral hnum hn] at hconv
        obtain rfl : UInt32.ofNat n = val := Option.some.inj (Prod.mk.inj hconv).2
        rfl
      · obtain ⟨n, hn, hnum⟩ := hplain
        exact absurd hnum (hnone n hn)
  · -- refused
    rw [hconv] at htaken
    have hnot : ¬ (st.errno = 0 ∧ IsLoose s) := fun h => Bool.false_ne_true (htaken.mpr h)
    rw [heq]
    constructor
    · refine fun h => ⟨fun ⟨n, hn, hnum⟩ => ?_, fun _ => not_and_or.mp hnot⟩
      exact absurd (h.stores n hn hnum).1 (by decide : (-1 : ℤ) ≠ 0)
    · rintro ⟨hzero, -⟩
      refine ⟨fun n hn hnum => ?_, fun _ => ⟨neg_one_lt_zero, rfl, text, List.mem_singleton.mpr rfl⟩⟩
      have herrno := hzero ⟨n, hn, hnum⟩
      rw [herrno, convertUlong_isNumeral hnum hn] at hconv
      cases hconv

/-! ## Runs -/

/-- **The numbers set in a run** are set exactly where each step meets the condition: a plain
numeral finds `errno` 0, and what is none is not taken by `strtoul`, or finds an `errno` of an
earlier call. -/
theorem runExact_iff (fw : Firmware) (st : State) (steps : List Step) :
    RunAll fw StepExact st steps ↔ RunAll fw StepMeets st steps := by
  refine runAll_congr fun st step o ho => ?_
  refine forall₅_congr fun c call argv s hstep => imp_congr_right fun hs => ?_
  subst hstep
  obtain rfl : (walletSetNumber c.name c.get c.set st argv).ended = o :=
    Except.ok.inj ((c.run_command fw call st argv).symm.trans ho)
  exact walletSetNumber_exact_iff c hs

/-- Two commands after the start: `wallet nonce 18446744073709551616`, and `wallet nonce 5`. -/
def rangeThenFive : List Step :=
  [.command .walletNonce sampleCall [ascii "nonce", ascii "18446744073709551616"],
    .command .walletNonce sampleCall [ascii "nonce", ascii "5"]]

/-- Counterexample: the 5 is refused, for `errno` is the one of the first command. -/
theorem not_runExact_rangeThenFive :
    ¬ RunAll sampleFirmware StepExact (bootState sampleFirmware (Vector.replicate 32 1))
      rangeThenFive := by
  intro h
  obtain ⟨-, hrest⟩ := h _ rfl
  obtain ⟨hexact, -⟩ := hrest _ rfl
  have hdigits : (ascii "5").all (isDigitOf 10) = true := by decide
  have hfive : IsNumeral (ascii "5") 5 := ⟨by decide, List.all_eq_true.mp hdigits, by decide⟩
  obtain ⟨hret, -⟩ := (hexact .nonce _ _ _ rfl rfl).stores 5 (by norm_num) hfive
  exact absurd hret (by decide)

end AnylWallet.Zephyr
