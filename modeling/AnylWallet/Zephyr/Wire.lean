import AnylWallet.Eth.RequestText
import AnylWallet.Eth.SignedTransaction
import AnylWallet.Lib.Interleaving
import AnylWallet.Zephyr.Nonces
import AnylWallet.Zephyr.TokenContract

/-!
# What the device POSTs

* `Wired` is the device with the buffer that its requests are printed into. A step prints the
  requests that it makes one after the other (`posts`).
* `Step.requests_cases`: a step asks for something without signing, or it signs one transaction and
  sends what `tx_encode_sign` returned.
* **In every run** each request is POSTed as its own text and zeros, with nothing of an earlier
  request in it (`posts_clean_run`), and each signed transaction reaches the node as the one that was
  signed exactly when its signature is regular (`delivers_run`).
-/

namespace AnylWallet.Zephyr

open AnylWallet.Lib AnylWallet.Helpers AnylWallet.Eth AnylWallet.AbiCompiler
open AnylWallet.Lib.Rlp (num encode encodeAll encodeStr decodeBytes)

/-! ## Requests -/

/-- The flags of `web3_eth_call` in `erc20_shell`. -/
def erc20Flags : UInt8 := txNoFrom ||| txNoGas ||| txNoGasprice ||| txNoValue

/-- The request of an act. -/
def Act.request? : Act → Option Request
  | .effect (.sent rawtx) => some (.sendRawTransaction rawtx)
  | .effect (.called sender tx) => some (.call sender tx erc20Flags)
  | .getTransactionCount addr => some (.getTransactionCount addr)
  | .getBalance addr => some (.getBalance addr)
  | _ => none

/-- The requests of a command. -/
def Ended.requests (o : Ended) : List Request := o.acts.filterMap Act.request?

/-- `WEB3_BUF_SIZE`. Source: `zephyr-wallet/web3_rpc.c` -/
def web3BufSize : ℕ := 512

/-- Print the requests one after the other: the context behind them, and what is POSTed for each,
if it can be encoded. -/
def posts : Web3Ctx → List Request → Web3Ctx × List (Option (List UInt8))
  | web3, [] => (web3, [])
  | web3, r :: rs =>
      let (web3, ret) := r.run web3
      let (last, bodies) := posts web3 rs
      (last, (if ret < 0 then none else some web3.body) :: bodies)

/-- The device and the context of its requests. -/
structure Wired where
  st : State
  web3 : Web3Ctx

/-- Take a step, if it does not fail an assertion. -/
def Wired.step (fw : Firmware) (w : Wired) (s : Step) : Option Wired :=
  match s.run fw w.st with
  | .error _ => none
  | .ok o => some ⟨o.state, (posts w.web3 o.requests).1⟩

/-- What a command meets. -/
def Step.call? : Step → Option Call
  | .command _ call _ => some call
  | .round call _ _ => some call
  | .elsewhere _ => none

/-- An array on the stack does not lie at `NULL`. -/
def Step.OnStack (s : Step) : Prop := ∀ call, s.call? = some call → call.datablk ≠ 0

/-- The bytes that `tx_encode_sign` returned. -/
def signedBytes (dev : Device) (call : Call) (st : State) (tx : Transaction) : List UInt8 :=
  let (buf, txlen) := txEncodeSign dev.crypto call.stk call.stk' tx st.account.privkey call.buf 256
  buf.load 0 (txlen % 2 ^ 64).toNat

/-- They are as many as it says, as a `size_t`. -/
theorem signedBytes_eq (dev : Device) (call : Call) (st : State) (tx : Transaction) :
    signedBytes dev call st tx =
      (txEncodeSign dev.crypto call.stk call.stk' tx st.account.privkey call.buf 256).1.load 0
        ((txEncodeSign dev.crypto call.stk call.stk' tx st.account.privkey call.buf 256).2 %
          2 ^ 64).toNat := by
  unfold signedBytes
  rcases txEncodeSign dev.crypto call.stk call.stk' tx st.account.privkey call.buf 256 with ⟨buf, len⟩
  rfl

/-- They are those of the account. -/
theorem signedBytes_errno (dev : Device) (call : Call) (st : State) (tx : Transaction) (errno : ℤ) :
    signedBytes dev call { st with errno := errno } tx = signedBytes dev call st tx := by
  rw [signedBytes_eq, signedBytes_eq]

/-- They are sent. -/
theorem signAndSend_eq (dev : Device) (call : Call) (st : State) (tx : Transaction) :
    signAndSend dev call st tx = [.signed tx, .sent (signedBytes dev call st tx)] := by
  unfold signAndSend signedBytes
  rcases txEncodeSign dev.crypto call.stk call.stk' tx st.account.privkey call.buf 256 with ⟨buf, len⟩
  rfl

/-- The transactions that commands sign, with an array at `p`. -/
inductive Signs (fw : Firmware) (account : Account) (p : UInt64) : Transaction → Prop
  | transfer (addr : Address) (value : UInt64) :
      Signs fw account p (transferTx account.nonce addr value)
  | token (token addr : Address) (amount : Uint256) (data : List UInt8)
      (h : fw.tokenTransfer addr amount = some data) :
      Signs fw account p (tokenTx account token p data)
  | data (addr : Address) (temperature humidity : Int32) :
      Signs fw account p (dataTx account.nonce addr p temperature humidity)

/-- The requests that are made without a signature. -/
inductive Queries (fw : Firmware) (account : Account) (p : UInt64) : Request → Prop
  | count : Queries fw account p (.getTransactionCount account.address)
  | balance : Queries fw account p (.getBalance account.address)
  | token (token : Address) (data : List UInt8)
      (h : fw.tokenDecimals = some data ∨ fw.tokenTotalSupply = some data ∨
        fw.tokenBalanceOf account.address = some data) :
      Queries fw account p (.call account.address (decimalsTx token p data) erc20Flags)

/-! ## What a step asks for -/

section

variable {fw : Firmware} {st : State} {o : Ended}

/-- What a step asks for. -/
structure Step.AsksOnly (fw : Firmware) (st : State) (s : Step) (o : Ended) : Prop where
  signed : o.signed = []
  requests : ∀ r ∈ o.requests, ∃ call, s.call? = some call ∧ Queries fw st.account call.datablk r

/-- What a step signs and sends. -/
def Step.SignsOne (fw : Firmware) (st : State) (s : Step) (o : Ended) : Prop :=
  ∃ call tx, s.call? = some call ∧ Signs fw st.account call.datablk tx ∧ o.signed = [tx] ∧
    o.requests = [.sendRawTransaction (signedBytes fw.toDevice call st tx)]

/-- A step that prints texts asks for nothing. -/
theorem asksOnly_of_texts {s : Step} (h : ∀ a ∈ o.acts, a.request? = none ∧ a.signed? = none) :
    s.AsksOnly fw st o where
  signed := List.filterMap_eq_nil_iff.mpr fun a ha => (h a ha).2
  requests := by
    have hnil : o.requests = [] := List.filterMap_eq_nil_iff.mpr fun a ha => (h a ha).1
    rw [hnil]
    exact fun r hr => absurd hr List.not_mem_nil

/-- A quiet command asks for nothing. -/
theorem Outcome.Quiet.asksOnly {s : Step} {o : Outcome} (h : o.Quiet st) :
    s.AsksOnly fw st o.ended := by
  refine asksOnly_of_texts fun a ha => ?_
  obtain ⟨e, he, rfl⟩ := List.mem_map.mp ha
  obtain ⟨text, rfl⟩ := h.effects e he
  exact ⟨rfl, rfl⟩

/-- A transfer sends what it signs. -/
theorem finishTransfer_requests {dev : Device} {call : Call} {tx : Transaction}
    {before : List Effect} (h : ∀ e ∈ before, ∃ addr amount, e = .encoded addr amount)
    (st : State) : (finishTransfer dev call st tx before).ended.signed = [tx] ∧
      (finishTransfer dev call st tx before).ended.requests =
        [.sendRawTransaction (signedBytes dev call st tx)] := by
  have hsilent : (before.map Act.effect).filterMap Act.request? = [] ∧
      before.filterMap Effect.signed? = [] := by
    refine ⟨List.filterMap_eq_nil_iff.mpr fun a ha => ?_, List.filterMap_eq_nil_iff.mpr fun e he => ?_⟩
    · obtain ⟨e, he, rfl⟩ := List.mem_map.mp ha
      obtain ⟨addr, amount, rfl⟩ := h e he
      rfl
    · obtain ⟨addr, amount, rfl⟩ := h e he
      rfl
  refine ⟨finishTransfer_signed_ended hsilent.2, ?_⟩
  obtain ⟨report, heffects, hreport⟩ := finishTransfer_effects dev call st tx before
  have hnone : (Act.effect report).request? = none := by
    rcases hreport with rfl | rfl
    · rfl
    · rfl
  rw [Ended.requests, Outcome.ended, heffects, List.map_append, List.filterMap_append, hsilent.1,
    List.nil_append, List.map_append, List.filterMap_append, List.map_singleton,
    List.filterMap_cons_none hnone, signAndSend_eq]
  rfl

/-- A round signs one transaction, and sends it. -/
theorem sendDataEth_requests {dev : Device} (call : Call) (addr : Address)
    (temperature humidity : Int32) :
    (sendDataEth dev call st addr temperature humidity).ended.signed =
        [dataTx st.account.nonce addr call.datablk temperature humidity] ∧
      (sendDataEth dev call st addr temperature humidity).ended.requests =
        [.sendRawTransaction (signedBytes dev call st
          (dataTx st.account.nonce addr call.datablk temperature humidity))] := by
  generalize htx : dataTx st.account.nonce addr call.datablk temperature humidity = tx
  rw [sendDataEth, htx, signAndSend_eq]
  generalize signedBytes dev call st tx = bytes
  by_cases hret : call.reply.ret < 0
  · rw [if_pos hret]
    exact ⟨rfl, rfl⟩
  · rw [if_neg hret]
    exact ⟨rfl, rfl⟩

/-- A query of a token calls its contract, or prints a text. -/
theorem erc20Query_requests (usage failed : String) (data : Option (List UInt8)) (call : Call)
    (st : State) (argv : List (List UInt8)) :
    (erc20Query usage failed data call st argv).signed = [] ∧
      ∀ r ∈ (erc20Query usage failed data call st argv).requests, ∃ token bytes,
        data = some bytes ∧
          r = .call st.account.address (decimalsTx token call.datablk bytes) erc20Flags := by
  unfold erc20Query
  split
  · exact ⟨rfl, fun r hr => absurd hr List.not_mem_nil⟩
  · rcases getTokenByIndex st.tokens (argv.getD 1 []) with ⟨errno, _ | tkn⟩
    · exact ⟨rfl, fun r hr => absurd hr List.not_mem_nil⟩
    · cases data with
      | none => exact ⟨rfl, fun r hr => absurd hr List.not_mem_nil⟩
      | some bytes =>
          dsimp only
          split
          · exact ⟨rfl, fun r hr => ⟨_, bytes, rfl, List.mem_singleton.mp hr⟩⟩
          · exact ⟨rfl, fun r hr => ⟨_, bytes, rfl, List.mem_singleton.mp hr⟩⟩

/-- A command that sets a number of the account prints at most. -/
theorem walletSetNumber_texts {name : String} {get : Account → UInt32}
    {set : UInt32 → Account → Account} (argv : List (List UInt8)) :
    ∀ a ∈ (walletSetNumber name get set st argv).ended.acts, a.request? = none ∧ a.signed? = none := by
  unfold walletSetNumber
  split
  · exact fun a ha => List.mem_singleton.mp ha ▸ ⟨rfl, rfl⟩
  · split
    · exact fun a ha => List.mem_singleton.mp ha ▸ ⟨rfl, rfl⟩
    · exact fun a ha => absurd ha List.not_mem_nil

/-- `upload start` prints a text, or starts the thread. -/
theorem uploadStart_texts {dev : Device} {call : Call} {argv : List (List UInt8)} {o : Outcome}
    (h : uploadStart dev call st argv = .ok o) :
    ∀ a ∈ o.ended.acts, a.request? = none ∧ a.signed? = none := by
  have hone : ∀ {e : Effect}, (Act.effect e).request? = none → (Act.effect e).signed? = none →
      ∀ a ∈ [e].map Act.effect, a.request? = none ∧ a.signed? = none := by
    intro e hrequest hsigned a ha
    rw [List.mem_singleton.mp ha]
    exact ⟨hrequest, hsigned⟩
  unfold uploadStart at h
  split at h
  · cases h
    exact hone rfl rfl
  · rcases withAddress_cases _ _ _ h with ⟨-, h⟩ | ⟨a, rfl⟩
    · dsimp only at h
      split_ifs at h
      all_goals
        rw [← Except.ok.inj h]
        exact hone rfl rfl
    · exact hone rfl rfl

/-- A key is refused with a text, or used. -/
theorem withPk_texts {str : List UInt8} {valid : Vector UInt8 32 → Ended}
    (hvalid : ∀ pk, ∀ a ∈ (valid pk).acts, a.request? = none ∧ a.signed? = none)
    (h : withPk fw st str valid = .ok o) : ∀ a ∈ o.acts, a.request? = none ∧ a.signed? = none := by
  rcases withPk_cases h with ⟨text, rfl⟩ | ⟨pk, rfl⟩
  · exact fun a ha => List.mem_singleton.mp ha ▸ ⟨rfl, rfl⟩
  · exact hvalid pk

/-- **What a command asks for**: it asks without signing, or it is a transfer that signs one
transaction and sends it. -/
theorem ShellCommand.requests_cases {c : ShellCommand} {call : Call} {argv : List (List UInt8)}
    (h : c.run fw call st argv = .ok o) :
    (Step.command c call argv).AsksOnly fw st o ∨
      ((c = .walletTransfer ∨ c = .erc20Transfer) ∧ (Step.command c call argv).SignsOne fw st o) := by
  have htwo : ∀ {a b : Act}, a.request? = none ∧ a.signed? = none →
      b.request? = none ∧ b.signed? = none → ∀ c ∈ [a, b], c.request? = none ∧ c.signed? = none := by
    intro a b ha hb c hc
    rcases List.mem_cons.mp hc with rfl | hc
    · exact ha
    · exact List.mem_singleton.mp hc ▸ hb
  cases c with
  | walletNonce =>
      cases h
      exact Or.inl (asksOnly_of_texts (walletSetNumber_texts argv))
  | walletGasPrice =>
      cases h
      exact Or.inl (asksOnly_of_texts (walletSetNumber_texts argv))
  | walletGasLimit =>
      cases h
      exact Or.inl (asksOnly_of_texts (walletSetNumber_texts argv))
  | walletPk =>
      refine Or.inl (asksOnly_of_texts ?_)
      simp only [run, walletSetPk] at h
      split at h
      · cases h
        exact htwo ⟨rfl, rfl⟩ ⟨rfl, rfl⟩
      · exact withPk_texts (fun pk a ha => absurd ha List.not_mem_nil) h
  | walletPk2addr =>
      refine Or.inl (asksOnly_of_texts ?_)
      simp only [run, Zephyr.walletPk2addr] at h
      split at h
      · cases h
        exact fun a ha => List.mem_singleton.mp ha ▸ ⟨rfl, rfl⟩
      · exact withPk_texts (fun pk => htwo ⟨rfl, rfl⟩ ⟨rfl, rfl⟩) h
  | walletTransfer =>
      obtain ⟨o, ho, rfl⟩ := exists_of_map_ended h
      rcases walletTransfer_cases ho with hquiet | ⟨-, txValue, rfl⟩
      · exact Or.inl hquiet.asksOnly
      · obtain ⟨hsigned, hrequests⟩ := @finishTransfer_requests fw.toDevice call
          (transferTx st.account.nonce (addressOf (keptBytes 20 (argv.getD 1 []))) txValue) []
          (fun e he => absurd he List.not_mem_nil) { st with errno := 0 }
        rw [signedBytes_errno] at hrequests
        exact Or.inr ⟨Or.inl rfl, call, _, rfl, .transfer _ _, hsigned, hrequests⟩
  | walletSync =>
      cases h
      refine Or.inl ?_
      unfold Zephyr.walletSync
      dsimp only
      split
      · exact ⟨rfl, fun r hr => ⟨call, rfl, List.mem_singleton.mp hr ▸ .count⟩⟩
      · exact ⟨rfl, fun r hr => ⟨call, rfl, List.mem_singleton.mp hr ▸ .count⟩⟩
  | walletBalance =>
      cases h
      refine Or.inl ?_
      unfold Zephyr.walletBalance
      dsimp only
      split
      · exact ⟨rfl, fun r hr => ⟨call, rfl, List.mem_singleton.mp hr ▸ .balance⟩⟩
      · exact ⟨rfl, fun r hr => ⟨call, rfl, List.mem_singleton.mp hr ▸ .balance⟩⟩
  | erc20Add =>
      obtain ⟨o, ho, rfl⟩ := exists_of_map_ended h
      rcases erc20Add_cases ho with
        hquiet | ⟨-, addr, data, tail, -, hdata, heffects, htail, -⟩
      · exact Or.inl hquiet.asksOnly
      · have hsilent : (tail.map Act.effect).filterMap Act.request? = [] ∧
            (tail.map Act.effect).filterMap Act.signed? = [] := by
          refine ⟨List.filterMap_eq_nil_iff.mpr fun a ha => ?_,
            List.filterMap_eq_nil_iff.mpr fun a ha => ?_⟩
          all_goals
            obtain ⟨e, he, rfl⟩ := List.mem_map.mp ha
            obtain ⟨text, rfl⟩ := htail e he
            rfl
        have hrequests : o.ended.requests =
            [.call st.account.address (decimalsTx addr call.datablk data) erc20Flags] := by
          rw [Ended.requests, Outcome.ended, heffects]
          exact congrArg (List.cons _) hsilent.1
        have hsigned : o.ended.signed = [] := by
          rw [Ended.signed, Outcome.ended, heffects]
          exact hsilent.2
        refine Or.inl ⟨hsigned, fun r hr => ⟨call, rfl, ?_⟩⟩
        rw [hrequests, List.mem_singleton] at hr
        rw [hr]
        exact .token addr data (Or.inl hdata)
  | erc20Balance =>
      cases h
      obtain ⟨hsigned, hrequests⟩ := erc20Query_requests "use: erc20 balance <token_idx>\n"
        "Can't encode Token::balanceOf()\n" (fw.tokenBalanceOf st.account.address) call st argv
      refine Or.inl ⟨hsigned, fun r hr => ⟨call, rfl, ?_⟩⟩
      obtain ⟨token, bytes, hdata, rfl⟩ := hrequests r hr
      exact .token token bytes (Or.inr (Or.inr hdata))
  | erc20List =>
      cases h
      refine Or.inl (asksOnly_of_texts fun a ha => ?_)
      obtain ⟨i, -, ha⟩ := List.mem_flatMap.mp ha
      split at ha
      · exact absurd ha List.not_mem_nil
      · simp only [List.mem_cons, List.not_mem_nil, or_false] at ha
        rcases ha with rfl | rfl | rfl
        · exact ⟨rfl, rfl⟩
        · exact ⟨rfl, rfl⟩
        · exact ⟨rfl, rfl⟩
  | erc20Transfer =>
      obtain ⟨o, ho, rfl⟩ := exists_of_map_ended h
      rcases erc20Transfer_cases ho with
        hquiet | ⟨tkn, -, -, -, addressTo, amount, -, -, ⟨-, rfl⟩ | ⟨data, hdata, rfl⟩⟩
      · exact Or.inl hquiet.asksOnly
      · exact Or.inl (asksOnly_of_texts (htwo ⟨rfl, rfl⟩ ⟨rfl, rfl⟩))
      · obtain ⟨hsigned, hrequests⟩ := @finishTransfer_requests fw.toDevice call
          (tokenTx st.account tkn.address call.datablk data) [.encoded addressTo amount]
          (fun e he => ⟨_, _, List.mem_singleton.mp he⟩) { st with errno := 0 }
        rw [signedBytes_errno] at hrequests
        exact Or.inr ⟨Or.inr rfl, call, _, rfl, .token _ _ _ _ hdata, hsigned, hrequests⟩
  | erc20TotalSupply =>
      cases h
      obtain ⟨hsigned, hrequests⟩ := erc20Query_requests "missing argument: token index\n"
        "Can't encode Token::totalSupply()\n" fw.tokenTotalSupply call st argv
      refine Or.inl ⟨hsigned, fun r hr => ⟨call, rfl, ?_⟩⟩
      obtain ⟨token, bytes, hdata, rfl⟩ := hrequests r hr
      exact .token token bytes (Or.inr (Or.inl hdata))
  | uploadStart =>
      obtain ⟨o, ho, rfl⟩ := exists_of_map_ended h
      exact Or.inl (asksOnly_of_texts (uploadStart_texts ho))
  | uploadStop =>
      cases h
      refine Or.inl (asksOnly_of_texts ?_)
      unfold Zephyr.uploadStop
      split
      · exact fun a ha => List.mem_singleton.mp ha ▸ ⟨rfl, rfl⟩
      · exact fun a ha => absurd ha List.not_mem_nil

/-- **What a step asks for**, a round of the upload as well. -/
theorem Step.requests_cases {s : Step} (h : s.run fw st = .ok o) :
    s.AsksOnly fw st o ∨ s.SignsOne fw st o := by
  cases s with
  | command c call argv => exact (ShellCommand.requests_cases h).imp_right And.right
  | round call uploadAddr sensor =>
      cases h
      rcases sensor with _ | ⟨temp, humidity⟩
      · exact Or.inl (asksOnly_of_texts fun a ha => absurd ha List.not_mem_nil)
      · refine Or.inr ⟨call, dataTx st.account.nonce uploadAddr call.datablk temp humidity, rfl,
          .data _ _ _, ?_⟩
        exact sendDataEth_requests call uploadAddr temp humidity
  | elsewhere errno =>
      cases h
      exact Or.inl (asksOnly_of_texts fun a ha => absurd ha List.not_mem_nil)

end

/-! ## Every request fits -/

/-- The items of a transaction with a small value. -/
theorem length_items_le {tx : Transaction} (hvalue : tx.value.toNat < 2 ^ 64) :
    (encodeAll tx.items).length ≤ (encodeStr tx.calldata).length + 45 ∧
      tx.calldata.length ≤ (encodeAll tx.items).length := by
  have hitems : encodeAll tx.items = tx.strings.flatMap encodeStr := Rlp.encodeAll_map_str tx.strings
  have hvalue : (beBytes tx.value.toNat).length ≤ 8 :=
    length_beBytes_le_iff.mpr (lt_of_lt_of_eq hvalue (by norm_num))
  have hto : tx.toAddr.a.toList.length = 20 := by simp
  have hn := length_beBytes_uint32 tx.nonce
  have hp := length_beBytes_uint32 tx.gasPrice
  have hl := length_beBytes_uint32 tx.gasLimit
  have h1 := @length_encodeStr_le (beBytes tx.nonce.toNat) (by omega)
  have h2 := @length_encodeStr_le (beBytes tx.gasPrice.toNat) (by omega)
  have h3 := @length_encodeStr_le (beBytes tx.gasLimit.toNat) (by omega)
  have h4 := @length_encodeStr_le tx.toAddr.a.toList (by omega)
  have h5 := @length_encodeStr_le (beBytes tx.value.toNat) (by omega)
  have hmem : tx.calldata ∈ tx.strings := by simp [Transaction.strings]
  refine ⟨?_, hitems ▸ Rlp.length_le_payload hmem⟩
  rw [hitems]
  simp only [Transaction.strings, List.flatMap_cons, List.flatMap_nil, List.append_nil,
    List.length_append]
  omega

section

variable (decimal : Char → Bool) (selectorOf : AbiEntry → UInt32) (datablk : Region) (fw : Firmware)
  {account : Account} {p : UInt64}

/-- **Every transaction that is signed** is written canonically, and is short. -/
theorem Signs.plain {tx : Transaction}
    (h : Signs (withToken decimal selectorOf datablk fw) account p tx) (hp : p ≠ 0) :
    tx.Plain ∧ (encodeAll tx.items).length ≤ 118 := by
  have hsmall : ∀ v : UInt64, (set256Uint64 v).toNat < 2 ^ 64 := by
    intro v
    rw [toNat_set256Uint64]
    exact v.toNat_lt
  cases h with
  | transfer addr value =>
      have hcalldata : (transferTx account.nonce addr value).calldata = [] := rfl
      have henc : (encodeStr []).length = 1 := by decide
      obtain ⟨hle, -⟩ := @length_items_le (transferTx account.nonce addr value) (hsmall value)
      rw [hcalldata, henc] at hle
      refine ⟨⟨iff_of_true rfl rfl, ?_, Or.inl (hsmall value), ?_, by omega⟩, by omega⟩
      · rw [hcalldata]
        exact Nat.zero_le _
      · rw [hcalldata]
        exact (List.cons_ne_nil _ _).symm
  | token token addr amount data hdata =>
      have hcalldata : (tokenTx account token p data).calldata = data := rfl
      have hzero : clear256.toNat < 2 ^ 64 := by decide
      rw [tokenTransfer_withToken] at hdata
      have hlen : data.length = 68 := by
        rw [← Option.some.inj hdata]
        exact length_callBytes selectorOf (by simp [uint256Arg, ArgValue.isBytes])
      have henc := (@length_encodeStr data (by omega)).2
      obtain ⟨hle, hge⟩ := @length_items_le (tokenTx account token p data) hzero
      rw [hcalldata] at hle hge
      refine ⟨⟨iff_of_false hp ?_, ?_, Or.inl hzero, ?_, by omega⟩, by omega⟩
      · exact List.ne_nil_of_length_pos (by rw [hcalldata]; omega)
      · rw [hcalldata]
        omega
      · intro heq
        rw [hcalldata.symm.trans heq, List.length_singleton] at hlen
        omega
  | data addr temperature humidity =>
      have hlen : (dataTx account.nonce addr p temperature humidity).calldata.length = 2 := rfl
      have henc := @length_encodeStr_le
        (dataTx account.nonce addr p temperature humidity).calldata (by omega)
      obtain ⟨hle, -⟩ := @length_items_le (dataTx account.nonce addr p temperature humidity)
        (hsmall 0)
      refine ⟨⟨iff_of_false hp (List.cons_ne_nil _ _), by omega, Or.inl (hsmall 0), ?_, by omega⟩,
        by omega⟩
      intro heq
      rw [heq, List.length_singleton] at hlen
      omega

/-- The bytes that are sent, as long as `tx_encode_sign` says. -/
theorem Signs.length_signedBytes {tx : Transaction}
    (h : Signs (withToken decimal selectorOf datablk fw) account p tx) (hp : p ≠ 0) (call : Call)
    (st : State) :
    signedBytes (withToken decimal selectorOf datablk fw).toDevice call st tx =
        (txEncodeSign fw.crypto call.stk call.stk' tx st.account.privkey call.buf 256).1.load 0
          (txEncodeSign fw.crypto call.stk call.stk' tx st.account.privkey call.buf 256).2.toNat ∧
      0 < (signedBytes (withToken decimal selectorOf datablk fw).toDevice call st tx).length ∧
      (signedBytes (withToken decimal selectorOf datablk fw).toDevice call st tx).length ≤ 191 := by
  obtain ⟨hplain, hitems⟩ := h.plain decimal selectorOf datablk fw hp
  obtain ⟨hle, hpos⟩ := hplain.txEncodeSign_le fw.crypto call.stk call.stk' st.account.privkey
    call.buf 256
  have hsize : ((txEncodeSign fw.crypto call.stk call.stk' tx st.account.privkey call.buf 256).2 %
      2 ^ 64).toNat =
        (txEncodeSign fw.crypto call.stk call.stk' tx st.account.privkey call.buf 256).2.toNat := by
    omega
  have hbytes : signedBytes (withToken decimal selectorOf datablk fw).toDevice call st tx =
      (txEncodeSign fw.crypto call.stk call.stk' tx st.account.privkey call.buf 256).1.load 0
        (txEncodeSign fw.crypto call.stk call.stk' tx st.account.privkey call.buf 256).2.toNat := by
    rw [signedBytes_eq, crypto_withToken, hsize]
  refine ⟨hbytes, ?_⟩
  rw [hbytes, Region.length_load]
  omega

/-- **What is sent decodes** to the transaction exactly if its signature is regular. -/
theorem Signs.decodes_iff {tx : Transaction}
    (h : Signs (withToken decimal selectorOf datablk fw) account p tx) (hp : p ≠ 0)
    (hpby : ∀ k d, (fw.crypto.ecdsaSignDigest k d).2.2 ≤ 3) (call : Call) (st : State) :
    decodeBytes (signedBytes (withToken decimal selectorOf datablk fw).toDevice call st tx) =
        some (tx.signedItem fw.crypto st.account.privkey, []) ↔
      tx.Regular fw.crypto st.account.privkey := by
  obtain ⟨hplain, -⟩ := h.plain decimal selectorOf datablk fw hp
  rw [(h.length_signedBytes decimal selectorOf datablk fw hp call st).1]
  exact hplain.txEncodeSign_decodes_iff fw.crypto call.stk call.stk' st.account.privkey call.buf 256
    (hpby _ _)

variable {reqId : UInt32} (hid : reqId.toNat < 2 ^ 31)
include hid

/-- **Every query fits.** -/
theorem Queries.fits {r : Request}
    (h : Queries (withToken decimal selectorOf datablk fw) account p r) :
    r.Fits reqId web3BufSize := by
  have htext := r.length_text_le hid
  have hlatest : (Piece.textAll [.lit (ascii ",\"latest\"")]).length = 9 := by decide
  cases h with
  | count =>
      have hparams : (Piece.textAll (Request.getTransactionCount account.address).params).length =
          53 := by
        rw [Request.params, textAll_append, List.length_append, length_textAll_addr, hlatest]
      rw [hparams] at htext
      exact ⟨lt_of_le_of_lt htext (by decide), trivial⟩
  | balance =>
      have hparams : (Piece.textAll (Request.getBalance account.address).params).length = 53 := by
        rw [Request.params, textAll_append, List.length_append, length_textAll_addr, hlatest]
      rw [hparams] at htext
      exact ⟨lt_of_le_of_lt htext (by decide), trivial⟩
  | token token data hdata =>
      have hlen := tokenQueries_withToken decimal selectorOf datablk fw hdata
      have hmasked : ¬ erc20Flags &&& txNoFrom = 0 ∧ ¬ erc20Flags &&& txNoGas = 0 ∧
          ¬ erc20Flags &&& txNoGasprice = 0 ∧ ¬ erc20Flags &&& txNoValue = 0 := by decide
      have hopen : (Piece.textAll [.lit (ascii "\x7b"), .lit (ascii "\"to\":")]).length = 6 := by decide
      have hclose : (Piece.textAll [.lit (ascii "\x7d"), .lit (ascii ",\"latest\"")]).length = 10 := by
        decide
      have hkey : (ascii ",\"data\":").length = 8 := by decide
      have hmember := length_textAll_member_le
        ((decimalsTx token p data).data ≠ 0 ∧ (decimalsTx token p data).dataLen ≠ 0 ∧
          erc20Flags &&& txNoData = 0) ",\"data\":" (Piece.data data)
      have hparams : (Piece.textAll (Piece.txparam account.address (decimalsTx token p data)
          erc20Flags)).length ≤ 2 * data.length + 72 := by
        have hnil : ∀ {q : Prop} [Decidable q] (key : String) (val : List Piece), ¬ q →
            Piece.member q key val = [] := fun _ _ hq => if_neg hq
        rw [length_textAll_data, hkey] at hmember
        rw [Piece.txparam, hnil _ _ hmasked.1, hnil _ _ hmasked.2.1, hnil _ _ hmasked.2.2.1,
          hnil _ _ hmasked.2.2.2]
        simp only [textAll_append, List.length_append, List.append_nil, hopen, hclose,
          length_textAll_addr]
        have : (decimalsTx token p data).calldata = data := rfl
        rw [this]
        omega
      have hfit : (Piece.textAll (Request.call account.address (decimalsTx token p data)
          erc20Flags).params).length ≤ 2 * data.length + 72 := hparams
      have h512 : web3BufSize = 512 := rfl
      refine ⟨by omega, fun hshown => absurd hshown hmasked.2.2.2, fun _ => ?_⟩
      exact lt_of_le_of_lt hlen (by norm_num)

/-- **What is sent of a signed transaction fits.** -/
theorem Signs.fits {tx : Transaction}
    (h : Signs (withToken decimal selectorOf datablk fw) account p tx) (hp : p ≠ 0) (call : Call)
    (st : State) :
    (Request.sendRawTransaction
      (signedBytes (withToken decimal selectorOf datablk fw).toDevice call st tx)).Fits reqId
        web3BufSize := by
  obtain ⟨hlen, hpos, hle⟩ := h.length_signedBytes decimal selectorOf datablk fw hp call st
  have htext := (Request.sendRawTransaction (signedBytes
    (withToken decimal selectorOf datablk fw).toDevice call st tx)).length_text_le hid
  rw [Request.params, length_textAll_data] at htext
  have h512 : web3BufSize = 512 := rfl
  exact ⟨by omega, List.ne_nil_of_length_pos hpos, by omega⟩

end

/-! ## Requests that follow each other -/

/-- Each request is POSTed as a text that asks for it, and zeros. -/
def PostedClean (reqId : UInt32) (r : Request) (body : Option (List UInt8)) : Prop :=
  ∃ text, body = some (padded web3BufSize text) ∧ r.Asks reqId text

/-- Requests keep the size of the buffer and the request id. -/
theorem posts_keeps (web3 : Web3Ctx) (rs : List Request) :
    (posts web3 rs).1.bufSize = web3.bufSize ∧ (posts web3 rs).1.reqId = web3.reqId := by
  induction rs generalizing web3 with
  | nil => exact ⟨rfl, rfl⟩
  | cons r rs ih =>
      obtain ⟨hsize, hid⟩ := ih (r.run web3).1
      exact ⟨hsize.trans (r.run_keeps web3).1, hid.trans (r.run_keeps web3).2⟩

/-- **Requests that fit are POSTed clean**, whatever the buffer held. -/
theorem posts_clean {web3 : Web3Ctx} (hsize : web3.bufSize = web3BufSize)
    (hid : web3.reqId.toNat < 2 ^ 31) {rs : List Request}
    (hfits : ∀ r ∈ rs, r.Fits web3.reqId web3BufSize) :
    List.Forall₂ (PostedClean web3.reqId) rs (posts web3 rs).2 := by
  induction rs generalizing web3 with
  | nil => exact .nil
  | cons r rs ih =>
      obtain ⟨hsize', hid'⟩ := r.run_keeps web3
      have hlt : web3BufSize < 2 ^ 64 := by norm_num [web3BufSize]
      obtain ⟨hret, hbody⟩ := @Request.run_fits r web3 (hsize ▸ hlt)
        (hsize.symm ▸ hfits r List.mem_cons_self)
      have hrest := @ih (r.run web3).1 (hsize'.trans hsize) (hid' ▸ hid)
        (fun r' hr' => hid'.symm ▸ hfits r' (List.mem_cons_of_mem r hr'))
      rw [hid'] at hrest
      refine .cons ⟨r.text web3.reqId, ?_, r.asks_text hid⟩ hrest
      have hok : ¬ (r.run web3).2 < 0 := by
        rw [hret]
        exact lt_irrefl 0
      rw [hsize] at hbody
      exact (if_neg hok).trans (congrArg some hbody)

/-! ## Runs -/

/-- The context that the module starts with, and every one behind it. -/
structure Wired.Ready (w : Wired) : Prop where
  size : w.web3.bufSize = web3BufSize
  reqId : w.web3.reqId.toNat < 2 ^ 31

/-- What a step POSTs is clean. -/
def Wired.PostsClean (fw : Firmware) (w : Wired) (s : Step) : Prop :=
  ∀ o, s.run fw w.st = .ok o →
    List.Forall₂ (PostedClean w.web3.reqId) o.requests (posts w.web3 o.requests).2

/-- What a step signs reaches the node in one body. It decodes to the fields of the transaction and
its signature exactly if the signature is regular. -/
def Wired.Delivers (fw : Firmware) (w : Wired) (s : Step) : Prop :=
  ∀ o tx, s.run fw w.st = .ok o → tx ∈ o.signed →
    ∃ text raw, (posts w.web3 o.requests).2 = [some (padded web3BufSize text)] ∧
      (Request.sendRawTransaction raw).Asks w.web3.reqId text ∧
      (decodeBytes raw = some (tx.signedItem fw.crypto w.st.account.privkey, []) ↔
        tx.Regular fw.crypto w.st.account.privkey)

/-- A device with a context of zeros. -/
def sampleWired : Wired := ⟨sampleState 18 zeroAddress, emptyCtx web3BufSize⟩

/-- It is ready. -/
theorem sampleWired_ready : sampleWired.Ready := ⟨rfl, by decide⟩

/-- A transfer, a transfer of tokens and a round of the upload. -/
def sampleSteps : List Step :=
  [.command .walletTransfer sampleCall [ascii "transfer", hexText zeroAddress.a.toList, ascii "5"],
    .command .erc20Transfer sampleCall
      [ascii "transfer", ascii "0", hexText zeroAddress.a.toList, ascii "5"],
    .round sampleCall zeroAddress (some (21, 40))]

/-- Their arrays are on the stack. -/
theorem onStack_sampleSteps : ∀ s ∈ sampleSteps, s.OnStack := by
  intro s hs call hcall
  simp only [sampleSteps, List.mem_cons, List.not_mem_nil, or_false] at hs
  obtain rfl : call = sampleCall := by
    rcases hs with rfl | rfl | rfl <;> exact (Option.some.inj hcall).symm
  decide

/-- A step keeps the context ready. -/
theorem Wired.ready_step {fw : Firmware} {w w' : Wired} {s : Step} (h : w.step fw s = some w')
    (hready : w.Ready) : w'.Ready := by
  rw [Wired.step] at h
  split at h
  · cases h
  · rename_i o ho
    obtain ⟨hsize, hid⟩ := posts_keeps w.web3 o.requests
    cases h
    exact ⟨hsize.trans hready.size, by rw [hid]; exact hready.reqId⟩

section

variable (decimal : Char → Bool) (selectorOf : AbiEntry → UInt32) (datablk : Region) (fw : Firmware)
  {w : Wired} {s : Step} {steps : List Step}

/-- A step POSTs clean. -/
theorem postsClean_step (hready : w.Ready) (hstack : s.OnStack) :
    w.PostsClean (withToken decimal selectorOf datablk fw) s := by
  intro o h
  refine posts_clean hready.size hready.reqId fun r hr => ?_
  rcases Step.requests_cases h with hasks | ⟨call, tx, hcall, hsigns, -, hrequests⟩
  · obtain ⟨call, -, hquery⟩ := hasks.requests r hr
    exact hquery.fits decimal selectorOf datablk fw hready.reqId
  · rw [hrequests, List.mem_singleton] at hr
    rw [hr]
    exact hsigns.fits decimal selectorOf datablk fw hready.reqId (hstack call hcall) call w.st

/-- What a step signs is delivered. -/
theorem delivers_step (hpby : ∀ k d, (fw.crypto.ecdsaSignDigest k d).2.2 ≤ 3) (hready : w.Ready)
    (hstack : s.OnStack) : w.Delivers (withToken decimal selectorOf datablk fw) s := by
  intro o tx h htx
  have hclean := postsClean_step decimal selectorOf datablk fw hready hstack o h
  rcases Step.requests_cases h with hasks | ⟨call, tx', hcall, hsigns, hsigned, hrequests⟩
  · rw [hasks.signed] at htx
    exact absurd htx List.not_mem_nil
  · obtain rfl : tx = tx' := List.mem_singleton.mp (hsigned ▸ htx)
    rw [hrequests] at hclean ⊢
    obtain ⟨body, bodies, ⟨text, hbody, hasks⟩, hnil, hbodies⟩ :=
      List.forall₂_cons_left_iff.mp hclean
    cases hnil
    rw [hbody] at hbodies
    have hdecodes := hsigns.decodes_iff decimal selectorOf datablk fw (hstack call hcall) hpby call w.st
    rw [crypto_withToken]
    exact ⟨text, _, hbodies, hasks, hdecodes⟩

/-- **Every request of a run is POSTed clean**: the whole buffer is a text that asks for it, and
zeros. The steps are the commands of the groups `wallet`, `erc20` and `upload` and the rounds of the
upload, in any order. -/
theorem posts_clean_run (hready : w.Ready) (hstack : ∀ s ∈ steps, s.OnStack) :
    Interleaving.Meets (Wired.step (withToken decimal selectorOf datablk fw))
      (Wired.PostsClean (withToken decimal selectorOf datablk fw)) w steps :=
  Interleaving.meets_of_invariant Wired.Ready (fun _ _ _ h hready => Wired.ready_step h hready)
    (fun _ hready s hs => postsClean_step decimal selectorOf datablk fw hready (hstack s hs)) hready

/-- **Every transaction that a run signs is delivered** as it was signed, exactly if its signature
is regular: neither of its halves starts with a zero byte, or with 24 of them before a palindrome,
and the items of the transaction do not take 55 bytes together. -/
theorem delivers_run (hpby : ∀ k d, (fw.crypto.ecdsaSignDigest k d).2.2 ≤ 3) (hready : w.Ready)
    (hstack : ∀ s ∈ steps, s.OnStack) :
    Interleaving.Meets (Wired.step (withToken decimal selectorOf datablk fw))
      (Wired.Delivers (withToken decimal selectorOf datablk fw)) w steps :=
  Interleaving.meets_of_invariant Wired.Ready (fun _ _ _ h hready => Wired.ready_step h hready)
    (fun _ hready s hs => delivers_step decimal selectorOf datablk fw hpby hready (hstack s hs))
    hready

end

/-- A run of three steps. -/
theorem posts_clean_run_sample :
    Interleaving.Meets
      (Wired.step (withToken Char.isDigit (fun _ => 0xa9059cbb) ⟨fun _ => 0xff, 0⟩ sampleFirmware))
      (Wired.PostsClean
        (withToken Char.isDigit (fun _ => 0xa9059cbb) ⟨fun _ => 0xff, 0⟩ sampleFirmware))
      sampleWired sampleSteps :=
  posts_clean_run Char.isDigit (fun _ => 0xa9059cbb) ⟨fun _ => 0xff, 0⟩ sampleFirmware
    sampleWired_ready onStack_sampleSteps

/-- What it signs is delivered. -/
theorem delivers_run_sample :
    Interleaving.Meets
      (Wired.step (withToken Char.isDigit (fun _ => 0xa9059cbb) ⟨fun _ => 0xff, 0⟩ sampleFirmware))
      (Wired.Delivers
        (withToken Char.isDigit (fun _ => 0xa9059cbb) ⟨fun _ => 0xff, 0⟩ sampleFirmware))
      sampleWired sampleSteps :=
  delivers_run Char.isDigit (fun _ => 0xa9059cbb) ⟨fun _ => 0xff, 0⟩ sampleFirmware
    (fun _ _ => UInt8.zero_le) sampleWired_ready onStack_sampleSteps

/-! ## Transfers of tokens -/

/-- The calldata of a transfer of tokens: the selector, the address, and the amount that is typed in
units of the token. -/
def transferCalldata (selectorOf : AbiEntry → UInt32) (decimals : UInt8) (addr : Address)
    (amount : List UInt8) : List UInt8 :=
  (leBytes 4 (selectorOf
      ⟨"function", "transfer", [⟨"_to", "address"⟩, ⟨"_value", "uint256"⟩]⟩).toNat).reverse ++
    (List.replicate 12 0 ++ addr.a.toList ++
      SolidityAbi.wordOf ((shellGetUint64 amount).2.1.toNat * (10 ^ decimals.toNat % 2 ^ 64)))

/-- `erc20 transfer` signs a call of `transfer` on the contract of the token that the index chooses,
without a value. With a regular signature the node reads these fields from the body. -/
def Wired.TransfersTokens (fw : Firmware) (selectorOf : AbiEntry → UInt32) (w : Wired) (s : Step) :
    Prop :=
  ∀ call argv o tx, s = .command .erc20Transfer call argv → s.run fw w.st = .ok o → tx ∈ o.signed →
    ∃ tkn, (getTokenByIndex w.st.tokens (argv.getD 1 [])).2 = some tkn ∧
      Accepts fw.asserts 20 (argv.getD 2 []) ∧
      (tx.Regular fw.crypto w.st.account.privkey →
        ∃ text raw, (posts w.web3 o.requests).2 = [some (padded web3BufSize text)] ∧
          (Request.sendRawTransaction raw).Asks w.web3.reqId text ∧
          decodeBytes raw = some (.list ([num w.st.account.nonce.toNat,
            num w.st.account.gasPrice.toNat, num 35427, .str tkn.address.a.toList, num 0,
            .str (transferCalldata selectorOf tkn.decimals
              (addressOf (keptBytes 20 (argv.getD 2 []))) (argv.getD 3 []))] ++
            canonicalSignature (tx.signature fw.crypto w.st.account.privkey)), []))

section

variable (decimal : Char → Bool) (selectorOf : AbiEntry → UInt32) (datablk : Region) (fw : Firmware)
  {w : Wired} {steps : List Step}

/-- The items of a payment to a token. -/
theorem items_tokenTx (acc : Account) (token : Address) (p : UInt64) (data : List UInt8) :
    (tokenTx acc token p data).items = [num acc.nonce.toNat, num acc.gasPrice.toNat, num 35427,
      .str token.a.toList, num 0, .str data] := by
  have hgas : (35427 : UInt32).toNat = 35427 := by decide
  have hzero : clear256.toNat = 0 := by decide
  simp only [Transaction.items, tokenTx, hgas, hzero]

/-- **Every transfer of tokens** of a run calls the contract with what was typed: the selector of
`transfer`, and behind it the words of the recipient and of the amount. -/
theorem transfersTokens_run (hpby : ∀ k d, (fw.crypto.ecdsaSignDigest k d).2.2 ≤ 3)
    (hready : w.Ready) (hstack : ∀ s ∈ steps, s.OnStack) :
    Interleaving.Meets (Wired.step (withToken decimal selectorOf datablk fw))
      (Wired.TransfersTokens (withToken decimal selectorOf datablk fw) selectorOf) w steps := by
  refine Interleaving.meets_of_invariant Wired.Ready (fun _ _ _ h hready => Wired.ready_step h hready)
    (fun w hready s hs => ?_) hready
  rintro call argv o tx rfl h htx
  have hdelivers := delivers_step decimal selectorOf datablk fw hpby hready (hstack _ hs) o tx h htx
  obtain ⟨o, ho, rfl⟩ := exists_of_map_ended h
  rw [ended_signed] at htx
  rcases erc20Transfer_cases ho with
    hquiet | ⟨tkn, htoken, hacc, -, addressTo, amount, rfl, rfl, ⟨-, rfl⟩ | ⟨data, hdata, rfl⟩⟩
  · rw [hquiet.signed_eq] at htx
    exact absurd htx List.not_mem_nil
  · exact absurd htx List.not_mem_nil
  · rw [finishTransfer_signed _ _ _ _ _ rfl, List.mem_singleton] at htx
    refine ⟨tkn, htoken, hacc, fun hregular => ?_⟩
    obtain ⟨text, raw, hbody, hasks, hdecodes⟩ := hdelivers
    refine ⟨text, raw, hbody, hasks, (hdecodes.mpr hregular).trans ?_⟩
    rw [tokenTransfer_withToken, callBytes_transfer, image_amountOf] at hdata
    have hcalldata : data = transferCalldata selectorOf tkn.decimals
        (addressOf (keptBytes 20 (argv.getD 2 []))) (argv.getD 3 []) := (Option.some.inj hdata).symm
    rw [htx, ← hcalldata, Transaction.signedItem, Transaction.signedItems, items_tokenTx]

end

/-- The transfer of tokens in the run of three steps. -/
theorem transfersTokens_run_sample :
    Interleaving.Meets
      (Wired.step (withToken Char.isDigit (fun _ => 0xa9059cbb) ⟨fun _ => 0xff, 0⟩ sampleFirmware))
      (Wired.TransfersTokens
        (withToken Char.isDigit (fun _ => 0xa9059cbb) ⟨fun _ => 0xff, 0⟩ sampleFirmware)
        (fun _ => 0xa9059cbb))
      sampleWired sampleSteps :=
  transfersTokens_run Char.isDigit (fun _ => 0xa9059cbb) ⟨fun _ => 0xff, 0⟩ sampleFirmware
    (fun _ _ => UInt8.zero_le) sampleWired_ready onStack_sampleSteps

end AnylWallet.Zephyr
