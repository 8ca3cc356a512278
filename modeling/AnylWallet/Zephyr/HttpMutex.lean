import AnylWallet.Zephyr.Device
import AnylWallet.Zephyr.Web3Rpc

/-!
# The mutex of the HTTP client over runs

A wrapper takes the mutex in `http_send_data` and gives it back in `http_nfo_free`, on its way from the
reply.

* `RpcCall.Kept`: the call ends, and the thread holds the mutex as often as before.
* `exchange_kept_iff`: what an exchange comes to is decided behind the reply only. All wrappers free the
  client there but `web3_eth_call`: when the decoder refuses its reply, or finds an error in it, it
  returns without (`kept_iff`).
* `balanced_iff`: so every call of a run ends with the hold count of its start, and the run leaves a free
  mutex free, exactly where the decoder reads every reply to its end, and a reply to `web3_eth_call`
  without refusing it and without finding an error in it.
-/

namespace AnylWallet.Zephyr

open AnylWallet.Lib AnylWallet.Lib.Interleaving AnylWallet.Helpers AnylWallet.Eth

/-! ## Calls that keep the hold count -/

/-- The call returns, and then the thread holds the mutex as often as before. -/
def RpcCall.Kept (rpc : Rpc) (c : RpcCall) : Prop :=
  ∃ rpc', RpcCall.run rpc c = some rpc' ∧ rpc'.holds = rpc.holds

/-- The decoder reads the reply to its end: no access of it is outside the tokens or the text. -/
def Exchange.Reads (x : Exchange) (res : JsonrpcResult) (out : Uint256) : Prop :=
  ∃ decoded, jsonrpcDecodeHexencoded false x.reply res out = .ok decoded

/-- The decoder reads the reply to its end, does not refuse it and leaves no negative `error.code`. -/
def Exchange.Agrees (x : Exchange) (res : JsonrpcResult) (out : Uint256) : Prop :=
  ∃ content res' out' ret,
    jsonrpcDecodeHexencoded false x.reply res out = .ok (content, res', out', ret) ∧
      0 ≤ ret ∧ 0 ≤ res'.error.code

/-- What the reply of the call has to be: one that the decoder reads and, for `web3_eth_call`, agrees
to. The wrapper for receipts does not look at it. -/
def RpcCall.Accepts : RpcCall → Prop
  | .sendRawTransaction _ x res out => x.Reads res out
  | .blockNumber x res outU256 _ => x.Reads res outU256
  | .getBalance _ x res out => x.Reads res out
  | .getTransactionCount _ x res out => x.Reads res out
  | .estimateGas _ _ x res out => x.Reads res out
  | .call _ _ _ x res out => x.Agrees res out
  | .getTransactionReceipt _ _ _ _ => True

/-- If the request is encoded and the exchange succeeds, the reply is accepted. -/
def RpcCall.Answered (rpc : Rpc) (c : RpcCall) : Prop :=
  0 ≤ (c.request.run rpc.web3).2 → c.exchange.Succeeds → c.Accepts

/-- Every call of the run keeps the hold count, and the run ends, with a mutex that is free again if it
was free before. -/
def Balanced (rpc : Rpc) (calls : List RpcCall) : Prop :=
  Meets RpcCall.run RpcCall.Kept rpc calls ∧
    ∃ rpc', Interleaving.run RpcCall.run rpc calls = some rpc' ∧ (rpc.holds = 0 → rpc'.holds = 0)

/-! ## Which calls do -/

section

variable {α : Type} {req : Request} {x : Exchange} {rpc : Rpc} {out : α} {failed : ℤ}
  {reply : Rpc → Except Fault (Returned α)}

/-- What a call returns. -/
theorem exists_toOption_iff {e : Except Fault (Returned α)} {p : Rpc → Prop} :
    (∃ rpc', e.toOption.map Returned.rpc = some rpc' ∧ p rpc') ↔ ∃ r, e = .ok r ∧ p r.rpc := by
  cases e with
  | error fault =>
      constructor
      · rintro ⟨rpc', h, -⟩
        cases h
      · rintro ⟨r, h, -⟩
        cases h
  | ok r =>
      constructor
      · rintro ⟨rpc', h, hp⟩
        cases h
        exact ⟨r, rfl, hp⟩
      · rintro ⟨r', h, hp⟩
        cases h
        exact ⟨r.rpc, rfl, hp⟩

/-- **When an exchange keeps the hold count**: if it comes to a reply, exactly when what is done with
the reply ends with the count from before the exchange. -/
theorem exchange_kept_iff :
    (∃ r, exchange req x rpc out failed reply = .ok r ∧ r.rpc.holds = rpc.holds) ↔
      (0 ≤ (req.run rpc.web3).2 → x.Succeeds →
        ∃ r, reply (rpc.received req x) = .ok r ∧ r.rpc.holds = rpc.holds) := by
  rcases exchange_cases req x rpc out failed reply with
    ⟨hnone, rpc', ret, hend, hholds, -⟩ | ⟨⟨hret, hok⟩, hend⟩
  · exact iff_of_true ⟨_, hend, hholds⟩ fun hret hok => absurd ⟨hret, hok⟩ hnone
  · rw [hend]
    exact ⟨fun h _ _ => h, fun h => h hret hok⟩

end

variable {rpc : Rpc} {x : Exchange} {res : JsonrpcResult} {req : Request}

/-- A hex number that is read frees the client. -/
theorem hexReply_kept_iff {checked : Bool} {out : Uint256} :
    (∃ r, hexReply checked res out (rpc.received req x) = .ok r ∧ r.rpc.holds = rpc.holds) ↔
      x.Reads res out := by
  have hcontent : (rpc.received req x).content.getD noContent = x.reply := rfl
  constructor
  · rintro ⟨r, hr, -⟩
    obtain ⟨content, res', ret, hdecode, -⟩ := hexReply_cases hr
    exact ⟨_, hcontent ▸ hdecode⟩
  · rintro ⟨⟨content, res', out', ret⟩, hdecode⟩
    rw [hexReply, hcontent, hdecode]
    exact ⟨_, rfl, holds_httpNfoFree rfl⟩

/-- So the wrappers that read one keep the hold count if the decoder comes to its end. -/
theorem exchange_hexReply_kept_iff {checked : Bool} {out : Uint256} {failed : ℤ} :
    (∃ r, exchange req x rpc out failed (hexReply checked res out) = .ok r ∧
        r.rpc.holds = rpc.holds) ↔
      (0 ≤ (req.run rpc.web3).2 → x.Succeeds → x.Reads res out) := by
  rw [exchange_kept_iff]
  exact forall_congr' fun _ => forall_congr' fun _ => hexReply_kept_iff

/-- `web3_eth_call` frees it only if it finds no error: else there is one hold more. -/
theorem web3EthCall_kept_iff {sender : Address} {tx : Transaction} {txFlags : UInt8} {out : Uint256} :
    (∃ r, web3EthCall sender tx txFlags x res out rpc = .ok r ∧ r.rpc.holds = rpc.holds) ↔
      (0 ≤ ((Request.call sender tx txFlags).run rpc.web3).2 → x.Succeeds → x.Agrees res out) := by
  have hcontent : (rpc.received (.call sender tx txFlags) x).content.getD noContent = x.reply := rfl
  have hmore : rpc.holds + 1 ≠ rpc.holds := Nat.succ_ne_self _
  unfold web3EthCall
  rw [exchange_kept_iff]
  refine forall_congr' fun _ => forall_congr' fun _ => ?_
  rw [hcontent, Exchange.Agrees]
  rcases jsonrpcDecodeHexencoded false x.reply res out with fault | ⟨content, res', out', ret⟩
  · constructor
    · rintro ⟨r, hr, -⟩
      cases hr
    · rintro ⟨_, _, _, _, hdecode, -⟩
      cases hdecode
  · have hagrees : (∃ content₁ res₁ out₁ ret₁, (Except.ok (content, res', out', ret) : Except Fault _) =
        .ok (content₁, res₁, out₁, ret₁) ∧ 0 ≤ ret₁ ∧ 0 ≤ res₁.error.code) ↔
          0 ≤ ret ∧ 0 ≤ res'.error.code := by
      constructor
      · rintro ⟨_, _, _, _, h, hagree⟩
        cases h
        exact hagree
      · exact fun h => ⟨_, _, _, _, rfl, h⟩
    rw [hagrees]
    dsimp only
    by_cases hneg : ret < 0
    · rw [if_pos hneg]
      refine iff_of_false ?_ fun h => absurd h.1 (not_le.mpr hneg)
      rintro ⟨r, hr, hholds⟩
      cases hr
      exact hmore hholds
    · by_cases hcode : res'.error.code < 0
      · rw [if_neg hneg, if_pos hcode]
        refine iff_of_false ?_ fun h => absurd h.2 (not_le.mpr hcode)
        rintro ⟨r, hr, hholds⟩
        cases hr
        exact hmore hholds
      · rw [if_neg hneg, if_neg hcode]
        exact iff_of_true ⟨_, rfl, holds_httpNfoFree rfl⟩ ⟨not_lt.mp hneg, not_lt.mp hcode⟩

/-- `web3_eth_blockNumber` ends as the reading of its number does. -/
theorem web3EthBlockNumber_kept_iff {outU256 : Uint256} {out : UInt64} :
    (∃ r, web3EthBlockNumber x res outU256 out rpc = .ok r ∧ r.rpc.holds = rpc.holds) ↔
      (0 ≤ (Request.blockNumber.run rpc.web3).2 → x.Succeeds → x.Reads res outU256) := by
  unfold web3EthBlockNumber
  rw [exchange_kept_iff]
  refine forall_congr' fun _ => forall_congr' fun _ => ?_
  have hread : (∃ r, hexReply false res outU256 (rpc.received .blockNumber x) = .ok r ∧
      r.rpc.holds = rpc.holds) ↔ x.Reads res outU256 := hexReply_kept_iff
  rw [← hread]
  rcases hexReply false res outU256 (rpc.received .blockNumber x) with fault | r
  · constructor
    · rintro ⟨r, hr, -⟩
      cases hr
    · rintro ⟨r, hr, -⟩
      cases hr
  · constructor
    · rintro ⟨r', hr, hholds⟩
      cases hr
      exact ⟨r, rfl, hholds⟩
    · rintro ⟨r', hr, hholds⟩
      cases hr
      exact ⟨_, rfl, hholds⟩

/-- `web3_eth_getTransactionReceipt` frees the client behind every reply. -/
theorem web3EthGetTransactionReceipt_kept {txHash : TxHash} {out : TxReceipt} :
    ∃ r, web3EthGetTransactionReceipt txHash x res out rpc = .ok r ∧ r.rpc.holds = rpc.holds := by
  by_cases hreply : 0 ≤ ((Request.getTransactionReceipt txHash).run rpc.web3).2 ∧ x.Succeeds
  · exact ⟨_, web3EthGetTransactionReceipt_eq hreply.1 hreply.2 res out, holds_httpNfoFree rfl⟩
  · unfold web3EthGetTransactionReceipt
    exact exchange_kept_iff.mpr fun hret hok => absurd ⟨hret, hok⟩ hreply

/-- **Which calls keep the hold count**: those that meet no reply, and those that accept theirs. -/
theorem kept_iff (rpc : Rpc) (c : RpcCall) : c.Kept rpc ↔ c.Answered rpc := by
  unfold RpcCall.Kept RpcCall.Answered
  cases c with
  | sendRawTransaction | estimateGas => exact exists_toOption_iff.trans exchange_hexReply_kept_iff
  | getBalance =>
      refine exists_toOption_iff.trans ?_
      unfold web3EthGetBalance web3EthAddressBlockHex
      exact exchange_hexReply_kept_iff
  | getTransactionCount =>
      refine exists_toOption_iff.trans ?_
      unfold web3EthGetTransactionCount web3EthAddressBlockHex
      exact exchange_hexReply_kept_iff
  | blockNumber => exact exists_toOption_iff.trans web3EthBlockNumber_kept_iff
  | call => exact exists_toOption_iff.trans web3EthCall_kept_iff
  | getTransactionReceipt =>
      exact iff_of_true (exists_toOption_iff.mpr web3EthGetTransactionReceipt_kept)
        fun _ _ => trivial

/-! ## Runs -/

/-- A run whose calls keep the hold count ends with it. -/
theorem run_kept {rpc : Rpc} {calls : List RpcCall} (h : Meets RpcCall.run RpcCall.Kept rpc calls) :
    ∃ rpc', Interleaving.run RpcCall.run rpc calls = some rpc' ∧ rpc'.holds = rpc.holds := by
  induction calls generalizing rpc with
  | nil => exact ⟨rpc, rfl, rfl⟩
  | cons c calls ih =>
      obtain ⟨mid, hstep, hkept⟩ := h.1
      obtain ⟨rpc', hrun, hsame⟩ := ih (h.2 mid hstep)
      exact ⟨rpc', Interleaving.run_cons.mpr ⟨mid, hstep, hrun⟩, hsame.trans hkept⟩

/-- **When the mutex is balanced**: exactly where the decoder reads every reply of the run to its
end, and agrees to every one that a `web3_eth_call` meets. That call is the only one that returns an
error without giving the mutex back. -/
theorem balanced_iff (rpc : Rpc) (calls : List RpcCall) :
    Balanced rpc calls ↔ Meets RpcCall.run RpcCall.Answered rpc calls := by
  rw [← meets_congr kept_iff]
  refine ⟨fun h => h.1, fun h => ⟨h, ?_⟩⟩
  obtain ⟨rpc', hrun, hsame⟩ := run_kept h
  exact ⟨rpc', hrun, fun hfree => hsame.trans hfree⟩

/-- The static variables after boot. -/
def sampleRpc : Rpc := ⟨⟨⟨fun _ => 0, 0⟩, 512, 0, 1, 0⟩, none, false, 0⟩

/-- `web3_eth_call` of the total supply of a token, answered with an empty body. -/
def unanswered : RpcCall :=
  .call zeroAddress ⟨0, 0, 0, zeroAddress, clear256, 1, [0x18, 0x16, 0x0d, 0xdd]⟩
    (txNoFrom ||| txNoGas ||| txNoGasprice ||| txNoValue) ⟨0, 0, 200, noContent⟩
    ⟨0, ⟨0, none⟩⟩ clear256

/-- Counterexample: the thread still holds the mutex when this call has returned. -/
theorem not_balanced_unanswered : ¬ Balanced sampleRpc [unanswered] := by
  rintro ⟨⟨hkept, -⟩, -⟩
  have hencoded : 0 ≤ (unanswered.request.run sampleRpc.web3).2 := by
    decide
  obtain ⟨content, res, out, ret, hdecode, hret, -⟩ :=
    (kept_iff sampleRpc unanswered).mp hkept hencoded ⟨le_refl 0, le_refl 0⟩
  have hneg : jsonrpcDecodeHexencoded false unanswered.exchange.reply ⟨0, ⟨0, none⟩⟩ clear256 =
      .ok (noContent, ⟨0, ⟨0, none⟩⟩, clear256, -1) := rfl
  cases hneg.symm.trans hdecode
  exact absurd hret (by decide)

end AnylWallet.Zephyr
