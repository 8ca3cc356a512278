import AnylWallet.Eth.DecoderRuns
import AnylWallet.Zephyr.HttpMutex

/-!
# Verdicts on the replies of the node

`web3_eth_sendRawTransaction`, `web3_eth_estimateGas` and `web3_eth_call` look at the code of the
error when the decoder has accepted the reply. It is a part of `res`, a local variable that is not
initialised, and the decoder stores a code only where it finds one.

* `CheckedCall.determined_iff`: **exactly when what they return is the same for all contents of
  `res`**. For a reply that is accepted and in which no code is found it never is.
-/

namespace AnylWallet.Zephyr

open AnylWallet.Lib AnylWallet.Helpers AnylWallet.Eth

/-- A call of a wrapper that looks at the code of the error. -/
inductive CheckedCall where
  | sendRawTransaction (data : List UInt8)
  | estimateGas (sender : Address) (tx : Transaction)
  | call (sender : Address) (tx : Transaction) (txFlags : UInt8)

/-- The request that the wrapper encodes. -/
def CheckedCall.request : CheckedCall → Request
  | sendRawTransaction data => .sendRawTransaction data
  | estimateGas sender tx => .estimateGas sender tx
  | call sender tx txFlags => .call sender tx txFlags

/-- The call, with the contents of `res` and of `*out` before it. -/
def CheckedCall.run (x : Exchange) (res : JsonrpcResult) (out : Uint256) (rpc : Rpc) :
    CheckedCall → Except Fault (Returned Uint256)
  | sendRawTransaction data => web3EthSendRawTransaction data x res out rpc
  | estimateGas sender tx => web3EthEstimateGas sender tx x res out rpc
  | call sender tx txFlags => web3EthCall sender tx txFlags x res out rpc

/-- The call returns, and what it returns is the same for all contents of `res` and of `*out`. -/
def CheckedCall.Determined (rpc : Rpc) (x : Exchange) (c : CheckedCall) : Prop :=
  ∃ v, ∀ res out, ∃ r, c.run x res out rpc = .ok r ∧ r.ret = v

/-- The call comes to a reply: the request can be encoded, and the exchange succeeds. -/
def CheckedCall.Answered (rpc : Rpc) (x : Exchange) (c : CheckedCall) : Prop :=
  0 ≤ (c.request.run rpc.web3).2 ∧ x.Succeeds

/-- The tokens that the decoder reads are there, and it finds a code in the reply if it accepts it. -/
def ReplyDecides (reply : JsonBuf) : Prop :=
  ReplyComplete false HexFits HexComplete reply ∧ (Accepts false reply → StoresCode reply)

/-- What is returned where the decoder returns `ret` and leaves `code`. -/
def verdict (ret code : ℤ) : ℤ := if ret = 0 ∧ 0 ≤ code then 0 else -1

variable {rpc : Rpc} {x : Exchange} {c : CheckedCall}

/-- The verdict in the order of the tests. -/
theorem verdict_eq {ret code : ℤ} (hret : ret = 0 ∨ ret = -1) :
    verdict ret code = if ret < 0 then ret else if code < 0 then -1 else ret := by
  rcases hret with rfl | rfl
  · by_cases hcode : code < 0
    · simp [verdict, hcode]
    · simp [verdict, hcode, not_lt.mp hcode]
  · simp [verdict]

/-- A result that is returned with what the decoder has returned is returned with its verdict. -/
theorem exists_ret_iff {decoded : Except Fault (JsonBuf × JsonrpcResult × Uint256 × ℤ)}
    {reply : Except Fault (Returned Uint256)} {v : ℤ}
    (herror : ∀ fault, decoded = .error fault → reply = .error fault)
    (hok : ∀ d, decoded = .ok d → ∃ r, reply = .ok r ∧ r.ret = verdict d.2.2.2 d.2.1.error.code) :
    (∃ r, reply = .ok r ∧ r.ret = v) ↔
      ∃ d, decoded = .ok d ∧ verdict d.2.2.2 d.2.1.error.code = v := by
  cases hd : decoded with
  | error fault =>
      rw [herror fault hd]
      simp
  | ok d =>
      obtain ⟨r, hr, hret⟩ := hok d hd
      rw [hr]
      simp [hret]

/-- What the three wrappers have in common: behind the exchange they return the verdict on the
reply. -/
theorem CheckedCall.run_eq (c : CheckedCall) (x : Exchange) (res : JsonrpcResult) (out : Uint256)
    (rpc : Rpc) :
    ∃ reply, c.run x res out rpc = exchange c.request x rpc out (-1) reply ∧
      ∀ (rpc' : Rpc) (v : ℤ), (∃ r, reply rpc' = .ok r ∧ r.ret = v) ↔
        ∃ d, jsonrpcDecodeHexencoded false (rpc'.content.getD noContent) res out = .ok d ∧
          verdict d.2.2.2 d.2.1.error.code = v := by
  have hhex : ∀ (rpc' : Rpc) (v : ℤ), (∃ r, hexReply true res out rpc' = .ok r ∧ r.ret = v) ↔
      ∃ d, jsonrpcDecodeHexencoded false (rpc'.content.getD noContent) res out = .ok d ∧
        verdict d.2.2.2 d.2.1.error.code = v := by
    intro rpc' v
    refine exists_ret_iff (fun fault hd => ?_) fun ⟨content, res', out', ret⟩ hd => ?_
    · rw [hexReply, hd]
    · refine ⟨_, by rw [hexReply, hd], ?_⟩
      rw [verdict_eq (jsonrpcDecodeHexencoded_ret hd)]
      simp
  cases c with
  | sendRawTransaction data => exact ⟨_, rfl, hhex⟩
  | estimateGas sender tx => exact ⟨_, rfl, hhex⟩
  | call sender tx txFlags =>
      rw [run, web3EthCall]
      refine ⟨_, rfl, fun rpc' v => exists_ret_iff (fun fault hd => ?_)
        fun ⟨content, res', out', ret⟩ hd => ?_⟩
      · rw [hd]
      · rw [hd, verdict_eq (jsonrpcDecodeHexencoded_ret hd)]
        rcases jsonrpcDecodeHexencoded_ret hd with hret | hret
        · dsimp only at hret ⊢
          rw [hret]
          rw [if_neg (lt_irrefl 0), if_neg (lt_irrefl 0)]
          by_cases hcode : res'.error.code < 0
          · rw [if_pos hcode, if_pos hcode]
            exact ⟨_, rfl, rfl⟩
          · rw [if_neg hcode, if_neg hcode]
            exact ⟨_, rfl, rfl⟩
        · dsimp only at hret ⊢
          rw [hret]
          exact ⟨_, rfl, rfl⟩

/-- A call that comes to no reply fails. -/
theorem CheckedCall.run_of_not_answered (h : ¬ c.Answered rpc x) (res : JsonrpcResult)
    (out : Uint256) : ∃ r, c.run x res out rpc = .ok r ∧ r.ret = -1 := by
  obtain ⟨reply, hrun, -⟩ := c.run_eq x res out rpc
  rw [hrun]
  rcases exchange_cases c.request x rpc out (-1) reply with
    ⟨-, rpc', ret, hend, -, hret⟩ | ⟨hanswered, -⟩
  · exact ⟨_, hend, or_self_iff.mp hret⟩
  · exact absurd hanswered h

/-- A call that comes to a reply returns the verdict on it. -/
theorem CheckedCall.run_of_answered (h : c.Answered rpc x) (res : JsonrpcResult) (out : Uint256)
    (v : ℤ) :
    (∃ r, c.run x res out rpc = .ok r ∧ r.ret = v) ↔
      ∃ d, jsonrpcDecodeHexencoded false x.reply res out = .ok d ∧
        verdict d.2.2.2 d.2.1.error.code = v := by
  obtain ⟨reply, hrun, hreply⟩ := c.run_eq x res out rpc
  rw [hrun]
  rcases exchange_cases c.request x rpc out (-1) reply with ⟨hnone, -⟩ | ⟨-, hgo⟩
  · exact absurd h hnone
  · rw [hgo]
    exact hreply (rpc.received c.request x) v

/-- The verdict on a reply is the same for all contents exactly where the reply decides it. -/
theorem verdict_determined_iff (reply : JsonBuf) :
    (∃ v, ∀ res out, ∃ d, jsonrpcDecodeHexencoded false reply res out = .ok d ∧
      verdict d.2.2.2 d.2.1.error.code = v) ↔ ReplyDecides reply := by
  constructor
  · rintro ⟨v, hv⟩
    refine ⟨(jsonrpcDecodeHexencoded_ends false reply blankResult clear256).ok_iff.mp ?_,
      fun haccepts => ?_⟩
    · obtain ⟨d, hd, -⟩ := hv blankResult clear256
      exact ⟨d, hd⟩
    · by_contra hstores
      -- the codes 0 and -1 remain
      have hcode : ∀ code, v = verdict 0 code := by
        intro code
        obtain ⟨d, hd, hret⟩ :=
          (jsonrpcDecodeHexencoded_eq_zero_iff reply ⟨0, ⟨code, none⟩⟩ clear256).mpr haccepts
        have hsame : SameRun (DecodeResults fun y _ => y = code)
            (jsonrpcDecodeHexencoded false reply ⟨0, ⟨code, none⟩⟩ clear256)
            (jsonrpcDecodeHexencoded false reply ⟨0, ⟨code, none⟩⟩ clear256) :=
          jsonrpcDecodeHexencoded_same (Or.inl rfl) fun h => absurd h hstores
        rw [hd] at hsame
        obtain ⟨d', hd', rfl⟩ := hv ⟨0, ⟨code, none⟩⟩ clear256
        obtain rfl := Except.ok.inj (hd.symm.trans hd')
        cases hsame with
        | ok hres => rw [hret, hres.2.2]
      exact absurd ((hcode 0).symm.trans (hcode (-1))) (by decide)
  · rintro ⟨hcomplete, hstores⟩
    have hends : ∀ res out, ∃ d, jsonrpcDecodeHexencoded false reply res out = .ok d :=
      fun res out => (jsonrpcDecodeHexencoded_ends false reply res out).ok_iff.mpr hcomplete
    by_cases haccepts : Accepts false reply
    · obtain ⟨d₀, hd₀⟩ := hends blankResult clear256
      refine ⟨verdict d₀.2.2.2 d₀.2.1.error.code, fun res out => ?_⟩
      have hsame : SameRun (DecodeResults Eq)
          (jsonrpcDecodeHexencoded false reply blankResult clear256)
          (jsonrpcDecodeHexencoded false reply res out) :=
        jsonrpcDecodeHexencoded_same (Or.inr (hstores haccepts)) fun _ _ => rfl
      rw [hd₀] at hsame
      generalize jsonrpcDecodeHexencoded false reply res out = r at hsame
      cases hsame with
      | ok hres => exact ⟨_, rfl, by rw [hres.2.1.1, hres.2.2]⟩
    · refine ⟨-1, fun res out => ?_⟩
      obtain ⟨d, hd⟩ := hends res out
      refine ⟨d, hd, if_neg fun hzero => haccepts ?_⟩
      exact (jsonrpcDecodeHexencoded_eq_zero_iff reply res out).mp ⟨d, hd, hzero.1⟩

/-- **When the verdict of the three wrappers depends on the reply alone.** They return the code of
an error that they have not set before the call: so a reply that is accepted has to store one, and
one that is not has to have the tokens that are read. -/
theorem CheckedCall.determined_iff (c : CheckedCall) (x : Exchange) (rpc : Rpc) :
    c.Determined rpc x ↔ (c.Answered rpc x → ReplyDecides x.reply) := by
  by_cases h : c.Answered rpc x
  · rw [← verdict_determined_iff]
    simp only [h, forall_const, Determined, run_of_answered h]
  · exact iff_of_true ⟨-1, run_of_not_answered h⟩ fun hanswered => absurd hanswered h

/-- `web3_eth_call` of the total supply of a token. -/
def totalSupplyCall : CheckedCall :=
  .call zeroAddress ⟨0, 0, 0, zeroAddress, clear256, 1, [0x18, 0x16, 0x0d, 0xdd]⟩
    (txNoFrom ||| txNoGas ||| txNoGasprice ||| txNoValue)

/-- An answer without an error. -/
def answeredOne : Exchange := ⟨0, 0, 200, replyOf "\x7b\"id\":1,\"result\":\"0x1\"\x7d"⟩

/-- Counterexample: this answer is taken for a failure where `res` holds a negative code. -/
theorem not_determined_answeredOne : ¬ totalSupplyCall.Determined sampleRpc answeredOne := by
  rintro ⟨v, hv⟩
  have hzero : (totalSupplyCall.run answeredOne ⟨0, ⟨0, none⟩⟩ clear256 sampleRpc).toOption.map
      Returned.ret = some 0 := by decide
  have hneg : (totalSupplyCall.run answeredOne ⟨0, ⟨-1, none⟩⟩ clear256 sampleRpc).toOption.map
      Returned.ret = some (-1) := by decide
  obtain ⟨r, hr, rfl⟩ := hv ⟨0, ⟨0, none⟩⟩ clear256
  obtain ⟨r', hr', hret⟩ := hv ⟨0, ⟨-1, none⟩⟩ clear256
  rw [hr] at hzero
  rw [hr'] at hneg
  have hboth : (0 : ℤ) = -1 :=
    (Option.some.inj hzero).symm.trans (hret.symm.trans (Option.some.inj hneg))
  cases hboth

end AnylWallet.Zephyr
