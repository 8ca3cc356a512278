import AnylWallet.Helpers.HextobinEnds
import AnylWallet.Zephyr.Device

/-!
# `zephyr-wallet/web3_shell`: sending a raw transaction

* `web3ShellSendRawTransaction` reads its argument with `hextobin` into 128 bytes, with a bound on the
  rounds of the loop there.
* `hextobinEnds_iff`: `hextobin` ends on a string, and the command returns for it, exactly where the
  string is not of even length with 256 hex digits in front, and no longer than the assertion allows.
-/

namespace AnylWallet.Zephyr

open AnylWallet.Lib AnylWallet.Helpers AnylWallet.Eth

/-- `web3_shell_sendRawTransaction`; `fuel` bounds the loop of `hextobin`.
Source: `zephyr-wallet/web3_shell.c` -/
def web3ShellSendRawTransaction (fuel : ℕ) (dev : Device) (call : Call)
    (databuf : Vector UInt8 128) (st : State) (argv : List (List UInt8)) : Except Fault Outcome :=
  if argv.length < 1 then .ok (st.fail 0 "missing argument: data\n")
  else
    match hextobinAt fuel dev.asserts (argv.getD 1 []) databuf.toList with
    | .error fault => .error fault
    | .ok (data, dataLen) =>
        if dataLen < 0 then .ok (st.fail 0 "invalid argument: data\n")
        else
          let st := { st with errno := call.reply.errno }
          let sent := [.sent (data.take dataLen.toNat)]
          if call.reply.ret < 0 then
            .ok ⟨st, 0, sent ++ [.printed "eth_sendRawTransaction failed\n"]⟩
          else .ok ⟨st, 0, sent ++ [.printedUint256 call.reply.out]⟩

/-- With every buffer that satisfies its assertion `hextobin` ends on the string, and
`eth_sendRawTransaction` returns for it. -/
structure HextobinEnds (asserts : Bool) (s : List UInt8) : Prop where
  ends : ∀ bytes : List UInt8, (strip0x s).length ≤ bytes.length * 2 →
    ∃ fuel r, hextobinAt fuel asserts s bytes = .ok r
  returns : ∀ (dev : Device) call databuf st name, dev.asserts = asserts →
    ∃ fuel o, web3ShellSendRawTransaction fuel dev call databuf st [name, s] = .ok o

/-- The command returns if and only if `hextobin` does. -/
theorem web3ShellSendRawTransaction_ok_iff {fuel : ℕ} {dev : Device} {call : Call}
    {databuf : Vector UInt8 128} {st : State} {name s : List UInt8} :
    (∃ o, web3ShellSendRawTransaction fuel dev call databuf st [name, s] = .ok o) ↔
      ∃ r, hextobinAt fuel dev.asserts s databuf.toList = .ok r := by
  have hargv : ([name, s] : List (List UInt8)).getD 1 [] = s := rfl
  unfold web3ShellSendRawTransaction
  rw [if_neg (by simp), hargv]
  rcases hextobinAt fuel dev.asserts s databuf.toList with fault | ⟨data, dataLen⟩
  · simp
  · simp only [Except.ok.injEq, exists_eq', iff_true]
    split_ifs
    · exact ⟨_, rfl⟩
    · exact ⟨_, rfl⟩
    · exact ⟨_, rfl⟩

/-- **When `hextobin` ends on a string**, and the command returns. The index has 8 bits and comes
round at 256: with 256 hex digits and more in a string of even length it never gets to the end of
them. -/
theorem hextobinEnds_iff (asserts : Bool) (s : List UInt8) :
    HextobinEnds asserts s ↔
      ¬ IsLongHex s ∧ (asserts = true → s.length % 2 = 0 → (strip0x s).length ≤ 256) := by
  constructor
  · intro h
    refine ⟨fun hlong => ?_, fun hasserts heven => ?_⟩
    · have hroom : (strip0x s).length ≤
          (List.replicate (strip0x s).length (0 : UInt8)).length * 2 := by
        rw [List.length_replicate]
        omega
      obtain ⟨fuel, r, hr⟩ := h.ends _ hroom
      have h128 : 128 ≤ (List.replicate (strip0x s).length (0 : UInt8)).length := by
        rw [List.length_replicate]
        exact le_trans (by decide) hlong.2.1
      rw [hextobinAt_endless hlong h128 asserts (fun _ => hroom) fuel] at hr
      cases hr
    · by_contra hlong
      obtain ⟨fuel, o, ho⟩ := h.returns (sampleDevice asserts) sampleCall
        (Vector.replicate 128 0) (sampleState 0 zeroAddress) [] rfl
      obtain ⟨r, hr⟩ := web3ShellSendRawTransaction_ok_iff.mp ⟨o, ho⟩
      have hstrip := length_strip0x s
      have hasserts' : (sampleDevice asserts).asserts = true := hasserts
      have hover : ¬ (strip0x s).length ≤ (Vector.replicate 128 (0 : UInt8)).toList.length * 2 := by
        rw [Vector.length_toList]
        omega
      rw [hasserts', hextobinAt_assertion (by omega) heven ⟨rfl, hover⟩] at hr
      cases hr
  · rintro ⟨hshort, hcheck⟩
    refine ⟨fun bytes hroom => ?_, fun dev call databuf st name hasserts => ?_⟩
    · exact ⟨129, exists_hextobinAt hshort asserts (fun _ _ => hroom) (Or.inr hroom)⟩
    · refine ⟨129, web3ShellSendRawTransaction_ok_iff.mpr ?_⟩
      have hlen : databuf.toList.length = 128 := Vector.length_toList
      rw [hasserts]
      exact exists_hextobinAt hshort asserts (by rwa [hlen]) (Or.inl hlen.ge)

/-- On 256 hex digits it does not. -/
theorem not_hextobinEnds_digits :
    ¬ HextobinEnds true (List.replicate 256 '0'.toUInt8) := by
  intro h
  have hhex : ∀ c ∈ List.replicate 256 '0'.toUInt8, IsHexDigit c := by
    intro c hc
    rw [List.eq_of_mem_replicate hc]
    decide
  have hstrip : (strip0x (List.replicate 256 '0'.toUInt8)).length = 256 := by
    rw [strip0x_hex hhex, List.length_replicate]
  have hroom : (strip0x (List.replicate 256 '0'.toUInt8)).length ≤
      (List.replicate 128 (0 : UInt8)).length * 2 := by
    rw [hstrip, List.length_replicate]
  have hlong : IsLongHex (List.replicate 256 '0'.toUInt8) := by
    refine ⟨by rw [List.length_replicate], hstrip.ge, fun c hc => ?_⟩
    rw [strip0x_hex hhex] at hc
    exact hhex c (List.mem_of_mem_take hc)
  obtain ⟨fuel, r, hr⟩ := h.ends _ hroom
  rw [hextobinAt_endless hlong List.length_replicate.ge true (fun _ => hroom) fuel] at hr
  cases hr

end AnylWallet.Zephyr
