import AnylWallet.Zephyr.Shell

/-!
# `wallet pk` and the key of the account

* `addressOfKey_run`: in every state of the shell the address of the account is the one of its key.
* `walletSetPk_of_argument`: a text of 64 characters is taken for a key when all that stands behind
  an optional `0x` are hex digits. With a `0x` these are the digits of 31 bytes; the last byte is
  zero then, and what the text denotes is shifted by a byte.
* `keepsKey_iff`: so `wallet pk` sets the key that is written, or none, for all texts but these.
-/

namespace AnylWallet.Zephyr

open AnylWallet.Lib AnylWallet.Helpers AnylWallet.Eth

/-- The text is 64 hex digits, and they denote the key. -/
def IsKey (s : List UInt8) (k : Vector UInt8 32) : Prop :=
  s.length = 64 ∧ (∀ c ∈ s, IsHexDigit c) ∧ fromHex s = k.toList

/-- The text is `0x` and 62 hex digits. -/
def IsShifted (s : List UInt8) : Prop :=
  ∃ digits, s = ascii "0x" ++ digits ∧ digits.length = 62 ∧ ∀ c ∈ digits, IsHexDigit c

/-- With the text `s` the command sets the key that it denotes and its address, or it leaves the
account as it is. -/
structure KeyExact (fw : Firmware) (s : List UInt8) (st : State) (o : Ended) : Prop where
  sets : ∀ k, IsKey s k → o.state.account = walletSetGlobalPrivkey fw k st.account
  keeps : (∀ k, ¬ IsKey s k) → o.state.account = st.account

/-- In every state that is reached after the start, the account has the address of its key, and
`wallet pk` with this text is exact. -/
def KeepsKey (s : List UInt8) : Prop :=
  ∀ (fw : Firmware) (pk : Vector UInt8 32) (steps : List Step) (st : State),
    run fw (bootState fw pk) steps = .ok st →
      st.account.address = fw.addressOfKey st.account.privkey ∧
        ∀ (call : Call) (argv : List (List UInt8)), argv[1]? = some s →
          ∃ o, ShellCommand.walletPk.run fw call st argv = .ok o ∧ KeyExact fw s st o

variable {fw : Firmware} {st : State} {argv : List (List UInt8)} {s : List UInt8}

/-! ## The address -/

/-- A step keeps the address that of the key. -/
theorem addressOfKey_step {step : Step} {o : Ended} (h : step.run fw st = .ok o)
    (hinv : st.account.address = fw.addressOfKey st.account.privkey) :
    o.state.account.address = fw.addressOfKey o.state.account.privkey := by
  have hsame : ∀ {a : Account}, a.SameKey st.account → a.address = fw.addressOfKey a.privkey := by
    rintro a ⟨hkey, haddress⟩
    rw [hkey, haddress]
    exact hinv
  rcases Step.run_cases h with hkept | ⟨_, _, -, pk, hset⟩ | ⟨_, _, -, hkey⟩
  · exact hsame hkept.key
  · rw [hset]
    rfl
  · exact hsame hkey

/-- **The address is that of the key** in every state that is reached. -/
theorem addressOfKey_run {pk : Vector UInt8 32} {steps : List Step}
    (h : run fw (bootState fw pk) steps = .ok st) :
    st.account.address = fw.addressOfKey st.account.privkey :=
  run_induction (fun st => st.account.address = fw.addressOfKey st.account.privkey)
    addressOfKey_step h rfl

/-! ## The texts of keys -/

/-- The 32 bytes of a key. -/
theorem toList_keyOf {bytes : List UInt8} (h : bytes.length = 32) :
    (keyOf bytes).toList = bytes := by
  apply List.ext_getElem
  · simp [h]
  · intro i hi hi'
    simp [keyOf, List.getD_eq_getElem?_getD, hi']

/-- An `x` is no hex digit. -/
theorem not_isKey_of_isShifted (h : IsShifted s) (k : Vector UInt8 32) : ¬ IsKey s k := by
  obtain ⟨digits, rfl, -⟩ := h
  rintro ⟨-, hhex, -⟩
  have hx : 'x'.toUInt8 ∈ ascii "0x" := by decide
  exact absurd (hhex _ (List.mem_append_left _ hx)) (by decide)

/-- All that stands behind an optional `0x` are digits. -/
theorem isKey_or_isShifted (hlen : s.length = 64) (hhex : ∀ c ∈ strip0x s, IsHexDigit c) :
    (strip0x s = s ∧ ∀ c ∈ s, IsHexDigit c) ∨ IsShifted s := by
  unfold strip0x at hhex ⊢
  split at hhex
  · rename_i hprefix
    refine Or.inr ⟨s.drop 2, ?_, by rw [List.length_drop, hlen], hhex⟩
    rw [← hprefix.2, List.take_append_drop]
  · rename_i hprefix
    rw [if_neg hprefix]
    exact Or.inl ⟨rfl, hhex⟩

/-- **What `wallet pk` does with a text.** -/
theorem walletSetPk_of_argument (hs : argv[1]? = some s) :
    ∃ o, walletSetPk fw st argv = .ok o ∧
      ((s.length = 64 ∧ (∀ c ∈ strip0x s, IsHexDigit c) ∧
          o.state.account = walletSetGlobalPrivkey fw (keyOf (keptBytes 32 s)) st.account) ∨
        (¬ (s.length = 64 ∧ ∀ c ∈ strip0x s, IsHexDigit c) ∧ o.state.account = st.account)) := by
  have hargc : ¬ argv.length ≤ 1 := by
    obtain ⟨hlt, -⟩ := List.getElem?_eq_some_iff.mp hs
    omega
  have hget : argv.getD 1 [] = s := by rw [List.getD_eq_getElem?_getD, hs, Option.getD_some]
  have hbytes : (List.replicate 32 (0 : UInt8)).length = 32 := List.length_replicate
  rw [walletSetPk, if_neg hargc, hget, withPk]
  by_cases hlen : s.length ≠ 64
  · rw [if_pos hlen]
    exact ⟨_, rfl, Or.inr ⟨fun h => hlen h.1, rfl⟩⟩
  · have hlen := not_not.mp hlen
    rw [if_neg (not_not.mpr hlen)]
    have hstrip := length_strip0x s
    have hkept : keptDigits 32 s = strip0x s := List.take_of_length_le (by omega)
    by_cases hhex : ∀ c ∈ strip0x s, IsHexDigit c
    · have hread := @hextobin_of_accepts fw.asserts s (List.replicate 32 0) (by simp)
        ⟨by omega, by omega, fun _ => by omega, by rwa [hbytes, hkept]⟩
      have hret : ¬ (((strip0x s).length / 2 : ℕ) : ℤ) < 0 :=
        Int.not_lt.mpr (Int.natCast_nonneg _)
      simp only [hread, hret, if_false, hbytes]
      exact ⟨_, rfl, Or.inl ⟨hlen, hhex, rfl⟩⟩
    · obtain ⟨c, hc, hneg⟩ := not_forall₂.mp hhex
      obtain ⟨after, hafter⟩ := @hextobin_touched fw.asserts s 32 (by norm_num) (by omega)
        (by omega) (fun _ => by omega) ⟨c, hkept.symm ▸ hc, hneg⟩
      have hread := hafter (List.replicate 32 0) hbytes
      have hret : eInvalidChar < 0 := by decide
      simp only [hread, hret, if_true]
      exact ⟨_, rfl, Or.inr ⟨fun h => hhex h.2, rfl⟩⟩

/-- Any text but `0x` and 62 digits sets the key it denotes, or none. -/
theorem keyExact_of_not_isShifted (hshift : ¬ IsShifted s) (hs : argv[1]? = some s) :
    ∃ o, walletSetPk fw st argv = .ok o ∧ KeyExact fw s st o := by
  obtain ⟨o, ho, ⟨hlen, hhex, hset⟩ | ⟨hnot, hkeep⟩⟩ := @walletSetPk_of_argument fw st argv s hs
  · obtain ⟨hstrip, hall⟩ := (isKey_or_isShifted hlen hhex).resolve_right hshift
    have hkept : keptBytes 32 s = fromHex s := by
      have hdigits : keptDigits 32 s = s := by
        rw [keptDigits, hstrip]
        exact List.take_of_length_le (by omega)
      rw [keptBytes, hdigits, hlen, List.replicate_zero, List.append_nil]
    have hbytes : (fromHex s).length = 32 := by
      rw [length_fromHex, hlen]
    rw [hkept] at hset
    refine ⟨o, ho, ⟨fun k hk => ?_, fun hnone => ?_⟩⟩
    · have hkey : keyOf (fromHex s) = k := Vector.toList_inj.mp ((toList_keyOf hbytes).trans hk.2.2)
      rw [hset, hkey]
    · exact absurd ⟨hlen, hall, (toList_keyOf hbytes).symm⟩ (hnone (keyOf (fromHex s)))
  · refine ⟨o, ho, ⟨fun k hk => ?_, fun _ => hkeep⟩⟩
    have hstrip := strip0x_hex hk.2.1
    exact absurd ⟨hk.1, by rw [hstrip]; exact hk.2.1⟩ hnot

/-- A text of `0x` and 62 digits sets a key with a last byte of zero. -/
theorem not_keepsKey_of_isShifted (h : IsShifted s) : ¬ KeepsKey s := by
  intro hkeeps
  have hnone := not_isKey_of_isShifted h
  obtain ⟨digits, hs, hlen, hhex⟩ := h
  have hstrip : strip0x s = digits := by
    rw [hs]
    apply strip0x_append
    rintro rfl
    cases hlen
  have hslen : s.length = 64 := by
    have htwo : (ascii "0x").length = 2 := by decide
    rw [hs, List.length_append, htwo, hlen]
  have hargv : [ascii "pk", s][1]? = some s := rfl
  -- the key at the start has no zero in it
  obtain ⟨-, hexact⟩ := hkeeps sampleFirmware (Vector.replicate 32 17) [] _ rfl
  obtain ⟨o, ho, hkey⟩ := hexact sampleCall [ascii "pk", s] hargv
  obtain ⟨o', ho', ⟨-, -, hset⟩ | ⟨hnot, -⟩⟩ :=
    @walletSetPk_of_argument sampleFirmware
      (bootState sampleFirmware (Vector.replicate 32 17)) [ascii "pk", s] s hargv
  · obtain rfl : o = o' := Except.ok.inj (ho.symm.trans ho')
    have hkept : keptBytes 32 s = fromHex digits ++ [0] := by
      have hdigits : keptDigits 32 s = digits := by
        rw [keptDigits, hstrip]
        exact List.take_of_length_le (by omega)
      rw [keptBytes, hdigits, hlen]
      rfl
    have hbytes : (fromHex digits).length = 31 := by rw [length_fromHex, hlen]
    have haccount := congrArg Account.privkey ((hkey.keeps hnone).symm.trans hset)
    have hlast := congrArg (fun k => k.toList.getLast?) haccount
    simp only [walletSetGlobalPrivkey, bootState, hkept] at hlast
    rw [toList_keyOf (by rw [List.length_append, hbytes]; rfl), List.getLast?_append] at hlast
    rw [List.getLast?_singleton, Option.some_or] at hlast
    exact absurd hlast (by decide)
  · exact hnot ⟨hslen, by rwa [hstrip]⟩

/-- **When the account keeps the key that is written**: for every text but `0x` and 62 hex digits.
That one has the length that is asked for, and is accepted with 31 bytes, behind which a zero
stands. -/
theorem keepsKey_iff (s : List UInt8) : KeepsKey s ↔ ¬ IsShifted s := by
  constructor
  · exact fun hkeeps hshift => not_keepsKey_of_isShifted hshift hkeeps
  · intro hshift fw pk steps st hrun
    exact ⟨addressOfKey_run hrun, fun _ _ hs => keyExact_of_not_isShifted hshift hs⟩

/-- Counterexample: `0x`, and 62 times the digit `1`. -/
theorem not_keepsKey_prefixed : ¬ KeepsKey (ascii "0x" ++ List.replicate 62 '1'.toUInt8) := by
  refine not_keepsKey_of_isShifted ⟨_, rfl, List.length_replicate, fun c hc => ?_⟩
  rw [List.eq_of_mem_replicate hc]
  decide

end AnylWallet.Zephyr
