import AnylWallet.Zephyr.Erc20Shell
import AnylWallet.Zephyr.Upload
import AnylWallet.Zephyr.Wallet

/-!
# Which destinations the commands take

* `Command` lists the commands that take a destination, `Command.Uses` says what it is to go on to
  use an address.
* `Guarded`: whatever the command meets, an address that is used is the one the string denotes, and
  any other string leaves it quiet.
* `guarded_iff`: so it is for the strings that denote an address and for those that are refused
  before anything is stored. Any other string that `hextobin` accepts is used.
-/

namespace AnylWallet.Zephyr

open AnylWallet.Lib AnylWallet.Helpers AnylWallet.Eth

/-- The string is 40 hex digits with an optional `0x`, and denotes the address. -/
def IsAddress (s : List UInt8) (addr : Address) : Prop := IsHexBytes s addr.a.toList

/-- The commands that take a destination. -/
inductive Command where
  | walletTransfer
  | erc20Transfer
  | erc20Add
  | uploadStart
deriving DecidableEq, Repr

namespace Command

/-- Run the command. -/
def run : Command → Device → Call → State → List (List UInt8) → Except Fault Outcome
  | .walletTransfer => Zephyr.walletTransfer
  | .erc20Transfer => Zephyr.erc20Transfer
  | .erc20Add => Zephyr.erc20Add
  | .uploadStart => Zephyr.uploadStart

/-- The index of the destination in `argv`. -/
def place : Command → ℕ
  | .walletTransfer => 1
  | .erc20Transfer => 2
  | .erc20Add => 1
  | .uploadStart => 1

/-- The command goes on to use the address: it signs a payment to it, encodes a transfer of tokens
to it, asks the contract there or stores it as a token, starts the upload to it or stores it. -/
def Uses (st : State) (o : Outcome) (addr : Address) : Command → Prop
  | .walletTransfer => ∃ tx ∈ o.signed, tx.toAddr = addr
  | .erc20Transfer => ∃ amount, .encoded addr amount ∈ o.effects
  | .erc20Add => (∃ sender tx, .called sender tx ∈ o.effects ∧ tx.toAddr = addr) ∨
      ∃ i : Fin tokensMax, o.state.tokens.get i ≠ st.tokens.get i ∧ (o.state.tokens.get i).address = addr
  | .uploadStart => .started addr ∈ o.effects ∨
      (o.state.uploadAddr ≠ st.uploadAddr ∧ o.state.uploadAddr = addr)

end Command

/-- Of this string the command uses no address but the one it denotes; if it denotes none, nothing
is signed, sent, stored or started. -/
def Guarded (asserts : Bool) (c : Command) (s : List UInt8) : Prop :=
  ∀ (dev : Device) (call : Call) (st : State) (argv : List (List UInt8)) (o : Outcome),
    dev.asserts = asserts → argv[c.place]? = some s → c.run dev call st argv = .ok o →
      (∀ addr, c.Uses st o addr → IsAddress s addr) ∧
        ((∀ addr, ¬ IsAddress s addr) → o.Quiet st)

/-- The string is empty or of odd length, or it is too long for the assertion, or one of its first
40 characters is no digit. `upload start` has stored something then. -/
def Refused (asserts : Bool) (c : Command) (s : List UInt8) : Prop :=
  s.length = 0 ∨ s.length % 2 ≠ 0 ∨ (asserts = true ∧ 40 < (strip0x s).length) ∨
    (c ≠ .uploadStart ∧ ∃ ch ∈ (strip0x s).take 40, ¬ IsHexDigit ch)

/-! ## What is used -/

variable {dev : Device} {call : Call} {st : State} {argv : List (List UInt8)} {o : Outcome}
  {c : Command} {s : List UInt8} {addr : Address}

/-- A quiet command uses no address. -/
theorem Outcome.Quiet.not_uses (h : o.Quiet st) : ¬ c.Uses st o addr := by
  have heffects : ∀ e ∈ o.effects, (∀ text, e ≠ .printed text) → False := by
    intro e he hne
    obtain ⟨text, htext⟩ := h.effects e he
    exact hne text htext
  cases c with
  | walletTransfer =>
      rintro ⟨tx, htx, -⟩
      rw [h.signed_eq] at htx
      cases htx
  | erc20Transfer =>
      rintro ⟨amount, hmem⟩
      exact heffects _ hmem nofun
  | erc20Add =>
      rintro (⟨sender, tx, hmem, -⟩ | ⟨i, hne, -⟩)
      · exact heffects _ hmem nofun
      · exact hne (by rw [h.state])
  | uploadStart =>
      rintro (hmem | ⟨hne, -⟩)
      · exact heffects _ hmem nofun
      · exact hne (by rw [h.state])

/-- **Of an accepted string the bytes that are kept are used**, and nothing else. -/
theorem uses_eq_of_accepts (hacc : Accepts dev.asserts 20 s) (hs : argv[c.place]? = some s)
    (h : c.run dev call st argv = .ok o) (huses : c.Uses st o addr) :
    addr = addressOf (keptBytes 20 s) := by
  have hget : argv.getD c.place [] = s := by rw [List.getD_eq_getElem?_getD, hs, Option.getD_some]
  cases c with
  | walletTransfer =>
      rcases walletTransfer_cases h with hquiet | ⟨-, txValue, rfl⟩
      · exact absurd huses hquiet.not_uses
      · obtain ⟨tx, htx, rfl⟩ := huses
        rw [finishTransfer_signed _ _ _ _ _ rfl, List.mem_singleton] at htx
        rw [htx, ← hget]
        rfl
  | erc20Transfer =>
      rcases erc20Transfer_cases h with hquiet | ⟨tkn, -, -, -, addressTo, amount, haddr, -, hend⟩
      · exact absurd huses hquiet.not_uses
      · obtain ⟨amount', hmem⟩ := huses
        have hfirst : Effect.encoded addr amount' = .encoded addressTo amount := by
          rcases hend with ⟨-, rfl⟩ | ⟨data, -, rfl⟩
          · rcases List.mem_cons.mp hmem with heq | hmem
            · exact heq
            · cases List.mem_singleton.mp hmem
          · exact List.mem_singleton.mp (encoded_mem_finishTransfer _ _ _ _ _ hmem)
        rw [← hget, (Effect.encoded.inj hfirst).1]
        exact haddr
  | erc20Add =>
      rcases erc20Add_cases h with hquiet | ⟨-, addr', data, tail, haddr, -, heffects, htail, hslots⟩
      · exact absurd huses hquiet.not_uses
      · rw [← hget]
        refine Eq.trans ?_ haddr
        rcases huses with ⟨sender, tx, hmem, rfl⟩ | ⟨i, hne, rfl⟩
        · rw [heffects] at hmem
          rcases List.mem_cons.mp hmem with heq | hmem
          · cases heq
            rfl
          · obtain ⟨text, htext⟩ := htail _ hmem
            cases htext
        · exact (hslots i).resolve_left hne
  | uploadStart =>
      obtain ⟨hplace, -⟩ := List.getElem?_eq_some_iff.mp hs
      obtain ⟨o', ho', hstored, hstarted⟩ := @uploadStart_of_accepts dev call st argv hplace
        (hget.symm ▸ hacc)
      obtain rfl : o = o' := Except.ok.inj (h.symm.trans ho')
      rw [← hget]
      rcases huses with hmem | ⟨-, rfl⟩
      · exact hstarted addr hmem
      · exact hstored

/-- A string that is not accepted leaves the command quiet, but for `upload start`. -/
theorem quiet_of_not_accepts (hc : c ≠ .uploadStart) (hacc : ¬ Accepts dev.asserts 20 s)
    (hs : argv[c.place]? = some s) (h : c.run dev call st argv = .ok o) : o.Quiet st := by
  have hget : argv.getD c.place [] = s := by rw [List.getD_eq_getElem?_getD, hs, Option.getD_some]
  subst hget
  cases c with
  | walletTransfer =>
      rcases walletTransfer_cases h with hquiet | ⟨haddr, -⟩
      · exact hquiet
      · exact absurd haddr hacc
  | erc20Transfer =>
      rcases erc20Transfer_cases h with hquiet | ⟨tkn, -, haddr, -⟩
      · exact hquiet
      · exact absurd haddr hacc
  | erc20Add =>
      rcases erc20Add_cases h with hquiet | ⟨haddr, -⟩
      · exact hquiet
      · exact absurd haddr hacc
  | uploadStart => exact absurd rfl hc

/-! ## Which strings are guarded -/

variable {asserts : Bool}

/-- `Refused` is what is not accepted, but for `upload start`. -/
theorem refused_iff (hc : c ≠ .uploadStart) : Refused asserts c s ↔ ¬ Accepts asserts 20 s := by
  constructor
  · rintro (h0 | hodd | ⟨hassert, hlong⟩ | ⟨-, ch, hch, hneg⟩) ⟨h0', heven, hcheck, hhex⟩
    · exact h0' h0
    · exact hodd heven
    · exact absurd (hcheck hassert) (by omega)
    · exact absurd (hhex ch hch) (by omega)
  · intro h
    by_contra hnot
    simp only [Refused, not_or, not_and, not_not, not_lt, not_exists] at hnot
    obtain ⟨h0, heven, hcheck, hhex⟩ := hnot
    exact h ⟨h0, heven, fun hassert => hcheck hassert, fun ch hch => hhex hc ch hch⟩

/-- A string that denotes an address is guarded. -/
theorem guarded_of_isAddress (h : IsAddress s addr) : Guarded asserts c s := by
  have hlen : addr.a.toList.length = 20 := by simp
  have hne : addr.a.toList ≠ [] := List.ne_nil_of_length_pos (by omega)
  intro dev call st argv o _ hs hrun
  obtain ⟨hacc, hkept⟩ := accepts_of_isHexBytes dev.asserts hne h
  rw [hlen] at hacc hkept
  refine ⟨fun addr' huses => ?_, fun hnone => absurd h (hnone addr)⟩
  rw [uses_eq_of_accepts hacc hs hrun huses, hkept, addressOf_toList]
  exact h

/-- So is one that is refused. -/
theorem guarded_of_refused (h : Refused asserts c s) : Guarded asserts c s := by
  intro dev call st argv o hdev hs hrun
  have hquiet : o.Quiet st := by
    by_cases hc : c = .uploadStart
    · subst hc
      obtain ⟨hplace, -⟩ := List.getElem?_eq_some_iff.mp hs
      have hget : argv.getD 1 [] = s := by
        rw [List.getD_eq_getElem?_getD]
        exact congrArg (Option.getD · []) hs
      subst hget hdev
      by_cases hfirst : (argv.getD 1 []).length = 0 ∨ (argv.getD 1 []).length % 2 ≠ 0
      · rw [show o = st.fail 0 _ from
          Except.ok.inj (hrun.symm.trans (uploadStart_untouched hplace hfirst))]
        exact State.fail_quiet rfl _ _
      · obtain ⟨h0, hodd⟩ := not_or.mp hfirst
        have hassert := ((h.resolve_left h0).resolve_left hodd).resolve_right fun h' => h'.1 rfl
        have herror := @uploadStart_assertion dev call st argv hplace h0 (not_not.mp hodd)
          ⟨hassert.1, by omega⟩
        cases hrun.symm.trans herror
    · exact quiet_of_not_accepts hc (hdev ▸ (refused_iff hc).mp h) hs hrun
  exact ⟨fun addr huses => absurd huses hquiet.not_uses, fun _ => hquiet⟩

/-- There is another address. -/
theorem exists_ne_address (addr : Address) : ∃ other, other ≠ addr := by
  by_cases h : addr = zeroAddress
  · exact ⟨⟨Vector.replicate 20 1⟩, h ▸ by decide⟩
  · exact ⟨zeroAddress, fun heq => h heq.symm⟩

/-- Of any other string the bytes that are kept are used, so that the command is not quiet. -/
theorem not_guarded (hnone : ∀ addr, ¬ IsAddress s addr) (h : ¬ Refused asserts c s) :
    ¬ Guarded asserts c s := by
  intro hguarded
  have hacc : c ≠ .uploadStart → Accepts (sampleDevice asserts).asserts 20 s := fun hc =>
    not_not.mp (mt (refused_iff hc).mpr h)
  cases c with
  | walletTransfer =>
      have hrun := @walletTransfer_ok (sampleDevice asserts) sampleCall (sampleState 0 zeroAddress)
        [[], s, ascii "1"] (hacc nofun) (by simp)
        (by decide : errnoAfter (strtoul 10 (ascii "1")) 0 = 0)
        (by decide : (strtoul 10 (ascii "1")).size = (ascii "1").length)
      have hquiet := (hguarded _ _ _ _ _ rfl rfl hrun).2 hnone
      exact finishTransfer_not_quiet _ _ _ _ _ rfl _ hquiet
  | erc20Transfer =>
      have hrun := @erc20Transfer_ok (sampleDevice asserts) sampleCall (sampleState 0 zeroAddress)
        [[], ascii "0", s, ascii "1"] _ _ rfl rfl (hacc nofun)
        (by decide : (shellGetUint64 (ascii "1")).2.2 = 0) rfl
      have hquiet := (hguarded _ _ _ _ _ rfl rfl hrun).2 hnone
      exact finishTransfer_not_quiet _ _ _ _ _ rfl _ hquiet
  | erc20Add =>
      obtain ⟨o, hrun, hcalled⟩ := @erc20Add_ok (sampleDevice asserts) sampleCall
        (sampleState 0 zeroAddress) [[], s] _ (by simp) (hacc nofun) rfl
      have hquiet := (hguarded _ _ _ _ _ rfl rfl hrun).2 hnone
      obtain ⟨text, htext⟩ := hquiet.effects _ hcalled
      cases htext
  | uploadStart =>
      simp only [Refused, not_or, not_and, not_not, not_lt] at h
      obtain ⟨h0, heven, hcheck, -⟩ := h
      obtain ⟨addr, haddr⟩ := @uploadStart_touched [[], s] asserts (by simp) h0 heven
        fun hassert => hcheck hassert
      obtain ⟨other, hother⟩ := exists_ne_address addr
      obtain ⟨o, hrun, hstored⟩ := haddr (sampleDevice asserts) sampleCall (sampleState 0 other) rfl
      have hquiet := (hguarded _ _ _ _ _ rfl rfl hrun).2 hnone
      have hsame := congrArg State.uploadAddr hquiet.state
      exact hother (hsame.symm.trans hstored)

/-- **When a command is guarded**: by the strings that denote an address, and by those that are
refused before anything is stored. -/
theorem guarded_iff (asserts : Bool) (c : Command) (s : List UInt8) :
    Guarded asserts c s ↔ (∃ addr, IsAddress s addr) ∨ Refused asserts c s := by
  constructor
  · intro hguarded
    by_contra hnot
    obtain ⟨hnone, hrefused⟩ := not_or.mp hnot
    exact not_guarded (not_exists.mp hnone) hrefused hguarded
  · rintro (⟨addr, h⟩ | h)
    · exact guarded_of_isAddress h
    · exact guarded_of_refused h

/-- A string that denotes an address has 40 characters, or 42 with the prefix. -/
theorem length_of_isAddress (h : IsAddress s addr) : s.length = 40 ∨ s.length = 42 := by
  have hx : (ascii "0x").length = 2 := by decide
  obtain ⟨digits, rfl | rfl, hlen, -⟩ := h
  · exact Or.inl (by simpa using hlen)
  · refine Or.inr ?_
    rw [List.length_append, hx, hlen, Vector.length_toList]

/-- `wallet transfer ab 1` signs a payment to the address that starts with that byte. -/
theorem not_guarded_ab : ¬ Guarded false .walletTransfer (ascii "ab") := by
  have hlen : (ascii "ab").length = 2 := by decide
  have hrefused : ¬ Refused false .walletTransfer (ascii "ab") := by
    rw [refused_iff (by decide), not_not]
    have hhex : (keptDigits 20 (ascii "ab")).all (fun c => decide (IsHexDigit c)) = true := by
      decide
    exact ⟨by decide, by decide, by decide, by simpa using hhex⟩
  refine not_guarded (fun addr h => ?_) hrefused
  have := length_of_isAddress h
  omega

end AnylWallet.Zephyr
