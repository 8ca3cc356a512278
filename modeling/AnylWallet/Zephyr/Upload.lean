import AnylWallet.Zephyr.Device

/-!
# `zephyr-wallet/upload`: `upload start` and a round of the upload thread

* `uploadStart` lets `hextobin` write into `_upload_addr` itself, so a string that is refused may
  change it: it stays for a string that is empty or of odd length (`uploadStart_untouched`), and
  otherwise depends on the string alone (`uploadStart_touched`).
* `sendDataEth` is the one place that advances the nonce of the account. It runs in the upload
  thread, which has an `errno` of its own.
-/

namespace AnylWallet.Zephyr

open AnylWallet.Lib AnylWallet.Helpers AnylWallet.Eth

/-- `DEFAULT_UPLOAD_INTERVAL`. Source: `zephyr-wallet/upload.c` -/
def defaultUploadInterval : UInt16 := 30

/-- The transaction of `_send_data_eth`. -/
def dataTx (nonce : UInt32) (addr : Address) (txData : UInt64) (temperature humidity : Int32) :
    Transaction where
  nonce := nonce
  gasPrice := 1 * 100000000
  gasLimit := 21000 + 68 * 2
  toAddr := addr
  value := set256Uint64 0
  data := txData
  calldata := [temperature.toUInt32.toUInt8, humidity.toUInt32.toUInt8]

/-- `_send_data_eth`. Source: `zephyr-wallet/upload.c` -/
def sendDataEth (dev : Device) (call : Call) (st : State) (addr : Address)
    (temperature humidity : Int32) : Outcome :=
  let effects := signAndSend dev call st
    (dataTx st.account.nonce addr call.datablk temperature humidity)
  if call.reply.ret < 0 then
    ⟨st, -1, effects ++ [.printed "Error: eth_sendRawTransaction()\n"]⟩
  else ⟨{ st with account := { st.account with nonce := st.account.nonce + 1 } }, 0, effects⟩

/-- A round of the loop of `upload_main`; `sensor` is what `get_sensor_data` reads.
Source: `zephyr-wallet/upload.c` -/
def uploadRound (dev : Device) (call : Call) (st : State) (uploadAddr : Address)
    (sensor : Option (Int32 × Int32)) : Outcome :=
  match sensor with
  | none => ⟨st, 0, []⟩
  | some (temp, humidity) => sendDataEth dev call st uploadAddr temp humidity

/-- `upload_start`. Source: `zephyr-wallet/upload.c` -/
def uploadStart (dev : Device) (call : Call) (st : State) (argv : List (List UInt8)) :
    Except Fault Outcome :=
  if argv.length < 2 then .ok (st.fail 0 "missing argument: address\n")
  else
    withAddress dev (argv.getD 1 []) st.uploadAddr
      (fun addr => { st with uploadAddr := addr }.fail 0 "invalid argument: address\n") fun addr =>
    let st := { st with uploadAddr := addr }
    let interval := strtoul 10 (argv.getD 2 [])
    let st :=
      if argv.length = 3 then
        { st with
          uploadInterval := interval.value.toUInt16
          errno := errnoAfter interval st.errno }
      else { st with uploadInterval := defaultUploadInterval }
    if argv.length = 3 ∧ st.errno ≠ 0 then .ok (st.fail (-1) "invalid upload interval\n")
    else if call.semTaken = false then .ok (st.fail 0 "thread already started\n")
    else .ok ⟨st, 0, [.started st.uploadAddr]⟩

/-! ## What `upload start` does to the address -/

variable {dev : Device} {call : Call} {st : State} {argv : List (List UInt8)}

/-- With a string that is accepted, its bytes are the address, stored and handed to the thread. -/
theorem uploadStart_of_accepts (hargc : 2 ≤ argv.length)
    (haddr : Accepts dev.asserts 20 (argv.getD 1 [])) :
    ∃ o, uploadStart dev call st argv = .ok o ∧
      o.state.uploadAddr = addressOf (keptBytes 20 (argv.getD 1 [])) ∧
      ∀ a, .started a ∈ o.effects → a = addressOf (keptBytes 20 (argv.getD 1 [])) := by
  unfold uploadStart
  rw [if_neg (by omega), withAddress_of_accepts _ _ _ haddr]
  dsimp only
  split_ifs
  · exact ⟨_, rfl, rfl, fun a ha => nomatch List.mem_singleton.mp ha⟩
  · exact ⟨_, rfl, rfl, fun a ha => nomatch List.mem_singleton.mp ha⟩
  · exact ⟨_, rfl, rfl, fun a ha => Effect.started.inj (List.mem_singleton.mp ha)⟩
  · exact ⟨_, rfl, rfl, fun a ha => nomatch List.mem_singleton.mp ha⟩
  · exact ⟨_, rfl, rfl, fun a ha => nomatch List.mem_singleton.mp ha⟩
  · exact ⟨_, rfl, rfl, fun a ha => Effect.started.inj (List.mem_singleton.mp ha)⟩

/-- An empty string, or one of odd length, is refused before anything is stored. -/
theorem uploadStart_untouched (hargc : 2 ≤ argv.length)
    (h : (argv.getD 1 []).length = 0 ∨ (argv.getD 1 []).length % 2 ≠ 0) :
    uploadStart dev call st argv = .ok (st.fail 0 "invalid argument: address\n") := by
  obtain ⟨ret, hret, hneg⟩ := hextobin_untouched dev.asserts h st.uploadAddr.a.toList
  unfold uploadStart
  rw [if_neg (by omega), withAddress_of_neg _ _ _ hret hneg, addressOf_toList]

/-- Where the assertion does not hold, the device stops. -/
theorem uploadStart_assertion (hargc : 2 ≤ argv.length) (h0 : (argv.getD 1 []).length ≠ 0)
    (heven : (argv.getD 1 []).length % 2 = 0)
    (hassert : dev.asserts = true ∧ ¬ (strip0x (argv.getD 1 [])).length ≤ 20 * 2) :
    uploadStart dev call st argv = .error .assertion := by
  have hread := @hextobin_assertion dev.asserts (argv.getD 1 []) st.uploadAddr.a.toList h0 heven
    (by simpa using hassert)
  unfold uploadStart
  rw [if_neg (by omega), withAddress_of_error _ _ _ hread]

/-- **Any other string is stored**, whether it is refused or not. -/
theorem uploadStart_touched {asserts : Bool} (hargc : 2 ≤ argv.length)
    (h0 : (argv.getD 1 []).length ≠ 0) (heven : (argv.getD 1 []).length % 2 = 0)
    (hcheck : asserts = true → (strip0x (argv.getD 1 [])).length ≤ 20 * 2) :
    ∃ addr, ∀ (dev : Device) (call : Call) (st : State), dev.asserts = asserts →
      ∃ o, uploadStart dev call st argv = .ok o ∧ o.state.uploadAddr = addr := by
  by_cases hbad : ∃ c ∈ keptDigits 20 (argv.getD 1 []), ¬ IsHexDigit c
  · obtain ⟨after, hafter⟩ := hextobin_touched (by omega) h0 heven hcheck hbad
    refine ⟨addressOf after, fun dev call st hdev => ?_⟩
    have hread := hafter st.uploadAddr.a.toList (by simp)
    rw [← hdev] at hread
    unfold uploadStart
    rw [if_neg (by omega), withAddress_of_neg _ _ _ hread (by decide)]
    exact ⟨_, rfl, rfl⟩
  · refine ⟨addressOf (keptBytes 20 (argv.getD 1 [])), fun dev call st hdev => ?_⟩
    have hacc : Accepts dev.asserts 20 (argv.getD 1 []) := by
      rw [hdev]
      exact ⟨h0, heven, hcheck, fun c hc => not_not.mp fun hno => hbad ⟨c, hc, hno⟩⟩
    obtain ⟨o, ho, haddr, -⟩ := @uploadStart_of_accepts dev call st argv hargc hacc
    exact ⟨o, ho, haddr⟩

end AnylWallet.Zephyr
