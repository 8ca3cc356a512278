import AnylWallet.Eth.Web3
import AnylWallet.Eth.Web3Jsonp
import AnylWallet.Lib.Interleaving

/-!
# `zephyr-wallet/web3_rpc` and `zephyr-wallet/http_service`: one exchange with the node

* `httpSendData` takes `http_client_mutex` and keeps it when it succeeds; `httpNfoFree` gives it
  back. Assertions are not compiled in.
* The wrappers encode a request, send it and decode the reply (`exchange`). All but two of them read
  a hex number with `hexReply`, and differ in the request and in whether they look at the code of the
  error; `web3EthCall` returns before it has freed the client, and `web3EthGetTransactionReceipt`
  decodes another buffer than the reply.
* `RpcCall.run` is a call of one of them. `exchange_cases`: an exchange ends before there is a reply,
  with nothing kept, or goes on with the reply and the mutex.
-/

namespace AnylWallet.Zephyr

open AnylWallet.Lib AnylWallet.Helpers AnylWallet.Eth

/-! ## The code -/

/-- The static variables of the two modules, and how often the thread holds the mutex. -/
structure Rpc where
  /-- `web3_ctx`. Source: `zephyr-wallet/web3_rpc.c` -/
  web3 : Web3Ctx
  /-- `content` and `content_size` of `http_client_nfo`; nothing where `content` is `NULL`.
  Source: `zephyr-wallet/web3_rpc.c` -/
  content : Option JsonBuf
  /-- `_priv` of `http_client_nfo` is the mutex. -/
  priv : Bool
  /-- The hold count of `http_client_mutex`. Source: `zephyr-wallet/http_service.c` -/
  holds : ℕ

/-- What one exchange meets. -/
structure Exchange where
  /-- What `http_client_init` returns. -/
  init : ℤ
  /-- What `do_sync_http_req` returns. -/
  sent : ℤ
  /-- The status code of the response. -/
  status : UInt16
  /-- The body of the response. -/
  reply : JsonBuf

/-- What a wrapper leaves: the static variables, what it returns, and what is stored at `out`. -/
structure Returned (α : Type) where
  rpc : Rpc
  ret : ℤ
  out : α

/-- The bytes at a `NULL` pointer with size 0. -/
def noContent : JsonBuf := ⟨[], [], []⟩

/-- `k_mutex_unlock` on `http_client_mutex`. -/
def Rpc.unlock (rpc : Rpc) : Rpc := { rpc with holds := rpc.holds - 1 }

/-- `http_send_data`. Source: `zephyr-wallet/http_service.c` -/
def httpSendData (x : Exchange) (rpc : Rpc) : Rpc × ℤ :=
  -- `k_mutex_lock`, and `nfo->_priv = NULL`
  let rpc := { rpc with holds := rpc.holds + 1, priv := false }
  if x.init < 0 then (rpc.unlock, x.init)
  else if x.sent < 0 then (rpc.unlock, x.sent)
  else ({ rpc with content := some x.reply, priv := true }, x.status.toNat)

/-- `http_nfo_free`; `_priv` stays. Source: `zephyr-wallet/http_service.c` -/
def httpNfoFree (rpc : Rpc) : Rpc :=
  if rpc.priv then { rpc with content := none }.unlock else rpc

section

variable {α : Type}

/-- How every wrapper starts: it encodes the request, sends it, and goes on with the reply. If the
request cannot be encoded, it returns `failed`. -/
def exchange (req : Request) (x : Exchange) (rpc : Rpc) (out : α) (failed : ℤ)
    (reply : Rpc → Except Fault (Returned α)) : Except Fault (Returned α) :=
  let (web3, ret) := req.run rpc.web3
  let rpc := { rpc with web3 := web3 }
  if ret < 0 then .ok ⟨rpc, failed, out⟩
  else
    let (rpc, ret) := httpSendData x rpc
    if ret < 0 then .ok ⟨rpc, -1, out⟩ else reply rpc

end

/-- How the wrappers read a hex number; `checked` are those that look at the code of the error. -/
def hexReply (checked : Bool) (res : JsonrpcResult) (out : Uint256) (rpc : Rpc) :
    Except Fault (Returned Uint256) :=
  match jsonrpcDecodeHexencoded false (rpc.content.getD noContent) res out with
  | .error fault => .error fault
  | .ok (content, res, out, ret) =>
      let ret := if ret < 0 then ret else if checked ∧ res.error.code < 0 then -1 else ret
      .ok ⟨httpNfoFree { rpc with content := some content }, ret, out⟩

/-- `web3_eth_sendRawTransaction`. Source: `zephyr-wallet/web3_rpc.c` -/
def web3EthSendRawTransaction (data : List UInt8) (x : Exchange) (res : JsonrpcResult)
    (out : Uint256) (rpc : Rpc) : Except Fault (Returned Uint256) :=
  exchange (.sendRawTransaction data) x rpc out (-1) (hexReply true res out)

/-- `web3_eth_blockNumber`; `outU256` is the number on the stack.
Source: `zephyr-wallet/web3_rpc.c` -/
def web3EthBlockNumber (x : Exchange) (res : JsonrpcResult) (outU256 : Uint256) (out : UInt64)
    (rpc : Rpc) : Except Fault (Returned UInt64) :=
  exchange .blockNumber x rpc out (-1) fun rpc =>
    match hexReply false res outU256 rpc with
    | .error fault => .error fault
    | .ok r => .ok ⟨r.rpc, r.ret, if r.ret < 0 then out else r.out.lower.lower⟩

/-- `web3_eth_address_block_hex`, with the function it finds for `method`.
Source: `zephyr-wallet/web3_rpc.c` -/
def web3EthAddressBlockHex (rpcCall : Address → Request) (address : Address) (x : Exchange)
    (res : JsonrpcResult) (out : Uint256) (rpc : Rpc) : Except Fault (Returned Uint256) :=
  exchange (rpcCall address) x rpc out (-1) (hexReply false res out)

/-- `web3_eth_getBalance`. Source: `zephyr-wallet/web3_rpc.c` -/
def web3EthGetBalance (address : Address) (x : Exchange) (res : JsonrpcResult) (out : Uint256)
    (rpc : Rpc) : Except Fault (Returned Uint256) :=
  web3EthAddressBlockHex .getBalance address x res out rpc

/-- `web3_eth_getTransactionCount`. Source: `zephyr-wallet/web3_rpc.c` -/
def web3EthGetTransactionCount (address : Address) (x : Exchange) (res : JsonrpcResult)
    (out : Uint256) (rpc : Rpc) : Except Fault (Returned Uint256) :=
  web3EthAddressBlockHex .getTransactionCount address x res out rpc

/-- `web3_eth_estimateGas`. Source: `zephyr-wallet/web3_rpc.c` -/
def web3EthEstimateGas (sender : Address) (tx : Transaction) (x : Exchange) (res : JsonrpcResult)
    (out : Uint256) (rpc : Rpc) : Except Fault (Returned Uint256) :=
  exchange (.estimateGas sender tx) x rpc out (-1) (hexReply true res out)

/-- `web3_eth_call`. Source: `zephyr-wallet/web3_rpc.c` -/
def web3EthCall (sender : Address) (tx : Transaction) (txFlags : UInt8) (x : Exchange)
    (res : JsonrpcResult) (out : Uint256) (rpc : Rpc) : Except Fault (Returned Uint256) :=
  exchange (.call sender tx txFlags) x rpc out (-1) fun rpc =>
    match jsonrpcDecodeHexencoded false (rpc.content.getD noContent) res out with
    | .error fault => .error fault
    | .ok (content, res, out, ret) =>
        let rpc := { rpc with content := some content }
        if ret < 0 then .ok ⟨rpc, -1, out⟩
        else if res.error.code < 0 then .ok ⟨rpc, -1, out⟩
        else .ok ⟨httpNfoFree rpc, ret, out⟩

/-- `web3_eth_getTransactionReceipt`; `body` and `content_len` remain `NULL` and 0.
Source: `zephyr-wallet/web3_rpc.c` -/
def web3EthGetTransactionReceipt (txHash : TxHash) (x : Exchange) (res : JsonrpcResult)
    (out : TxReceipt) (rpc : Rpc) : Except Fault (Returned TxReceipt) :=
  exchange (.getTransactionReceipt txHash) x rpc out 0 fun rpc =>
    match jsonrpcDecodeTxreceipt false noContent res out with
    | .error fault => .error fault
    | .ok (_, res, out, ret) =>
        let ret := if ret < 0 then ret else if res.error.code < 0 then -1 else ret
        .ok ⟨httpNfoFree rpc, ret, out⟩

/-! ## Calls -/

/-- A call of a wrapper, with what its exchange meets and what its variables hold before. -/
inductive RpcCall where
  | sendRawTransaction (data : List UInt8) (x : Exchange) (res : JsonrpcResult) (out : Uint256)
  | blockNumber (x : Exchange) (res : JsonrpcResult) (outU256 : Uint256) (out : UInt64)
  | getBalance (address : Address) (x : Exchange) (res : JsonrpcResult) (out : Uint256)
  | getTransactionCount (address : Address) (x : Exchange) (res : JsonrpcResult) (out : Uint256)
  | estimateGas (sender : Address) (tx : Transaction) (x : Exchange) (res : JsonrpcResult)
      (out : Uint256)
  | call (sender : Address) (tx : Transaction) (txFlags : UInt8) (x : Exchange)
      (res : JsonrpcResult) (out : Uint256)
  | getTransactionReceipt (txHash : TxHash) (x : Exchange) (res : JsonrpcResult) (out : TxReceipt)

/-- The request that the wrapper encodes. -/
def RpcCall.request : RpcCall → Request
  | .sendRawTransaction data .. => .sendRawTransaction data
  | .blockNumber .. => .blockNumber
  | .getBalance address .. => .getBalance address
  | .getTransactionCount address .. => .getTransactionCount address
  | .estimateGas sender tx .. => .estimateGas sender tx
  | .call sender tx txFlags .. => .call sender tx txFlags
  | .getTransactionReceipt txHash .. => .getTransactionReceipt txHash

/-- What its exchange meets. -/
def RpcCall.exchange : RpcCall → Exchange
  | .sendRawTransaction _ x .. => x
  | .blockNumber x .. => x
  | .getBalance _ x .. => x
  | .getTransactionCount _ x .. => x
  | .estimateGas _ _ x .. => x
  | .call _ _ _ x .. => x
  | .getTransactionReceipt _ x .. => x

/-- The static variables behind a call, if it returns. -/
def RpcCall.run (rpc : Rpc) : RpcCall → Option Rpc
  | .sendRawTransaction data x res out =>
      (web3EthSendRawTransaction data x res out rpc).toOption.map Returned.rpc
  | .blockNumber x res outU256 out =>
      (web3EthBlockNumber x res outU256 out rpc).toOption.map Returned.rpc
  | .getBalance address x res out =>
      (web3EthGetBalance address x res out rpc).toOption.map Returned.rpc
  | .getTransactionCount address x res out =>
      (web3EthGetTransactionCount address x res out rpc).toOption.map Returned.rpc
  | .estimateGas sender tx x res out =>
      (web3EthEstimateGas sender tx x res out rpc).toOption.map Returned.rpc
  | .call sender tx txFlags x res out =>
      (web3EthCall sender tx txFlags x res out rpc).toOption.map Returned.rpc
  | .getTransactionReceipt txHash x res out =>
      (web3EthGetTransactionReceipt txHash x res out rpc).toOption.map Returned.rpc

/-- An exchange that succeeds. -/
def Exchange.Succeeds (x : Exchange) : Prop := 0 ≤ x.init ∧ 0 ≤ x.sent

/-- The static variables when the reply is decoded. -/
def Rpc.received (rpc : Rpc) (req : Request) (x : Exchange) : Rpc where
  web3 := (req.run rpc.web3).1
  content := some x.reply
  priv := true
  holds := rpc.holds + 1

/-! ## What an exchange does -/

section

variable {α : Type} {req : Request} {x : Exchange} {rpc : Rpc} {out : α} {failed : ℤ}
  {reply : Rpc → Except Fault (Returned α)} {r : Returned α}

/-- **What `http_send_data` does**: it keeps the mutex, or it fails and gives it back. -/
theorem httpSendData_cases (x : Exchange) (rpc : Rpc) :
    (x.Succeeds ∧ httpSendData x rpc =
        ({ rpc with holds := rpc.holds + 1, content := some x.reply, priv := true },
          (x.status.toNat : ℤ))) ∨
      (¬ x.Succeeds ∧ (httpSendData x rpc).2 < 0 ∧
        (httpSendData x rpc).1 = { rpc with priv := false }) := by
  unfold httpSendData Exchange.Succeeds
  by_cases hinit : x.init < 0
  · refine Or.inr ⟨fun h => absurd h.1 (Int.not_le.mpr hinit), ?_⟩
    simp only [hinit, if_true]
    exact ⟨trivial, rfl⟩
  · by_cases hsent : x.sent < 0
    · refine Or.inr ⟨fun h => absurd h.2 (Int.not_le.mpr hsent), ?_⟩
      simp only [hinit, hsent, if_true, if_false]
      exact ⟨trivial, rfl⟩
    · refine Or.inl ⟨⟨Int.not_lt.mp hinit, Int.not_lt.mp hsent⟩, ?_⟩
      simp only [hinit, hsent, if_false]

/-- **What an exchange does**: it ends before there is a reply, with the mutex held as often as
before and nothing stored at `out`, or it goes on with the reply. -/
theorem exchange_cases (req : Request) (x : Exchange) (rpc : Rpc) (out : α) (failed : ℤ)
    (reply : Rpc → Except Fault (Returned α)) :
    (¬ (0 ≤ (req.run rpc.web3).2 ∧ x.Succeeds) ∧
        ∃ rpc' ret, exchange req x rpc out failed reply = .ok ⟨rpc', ret, out⟩ ∧
          rpc'.holds = rpc.holds ∧ (ret = failed ∨ ret = -1)) ∨
      ((0 ≤ (req.run rpc.web3).2 ∧ x.Succeeds) ∧
        exchange req x rpc out failed reply = reply (rpc.received req x)) := by
  unfold exchange
  by_cases hret : (req.run rpc.web3).2 < 0
  · exact Or.inl ⟨fun h => absurd h.1 (Int.not_le.mpr hret),
      { rpc with web3 := (req.run rpc.web3).1 }, failed, if_pos hret, rfl, Or.inl rfl⟩
  · dsimp only
    rw [if_neg hret]
    rcases httpSendData_cases x { rpc with web3 := (req.run rpc.web3).1 } with
      ⟨hok, hsend⟩ | ⟨hfail, hneg, hsend⟩
    · refine Or.inr ⟨⟨Int.not_lt.mp hret, hok⟩, ?_⟩
      rw [hsend]
      exact if_neg (Int.not_lt.mpr (Int.natCast_nonneg _))
    · refine Or.inl ⟨fun h => hfail h.2, _, -1, if_pos hneg, ?_, Or.inr rfl⟩
      rw [hsend]

end

/-- The client is freed. -/
theorem holds_httpNfoFree {rpc : Rpc} (h : rpc.priv = true) :
    (httpNfoFree rpc).holds = rpc.holds - 1 := by
  rw [httpNfoFree, if_pos h]
  rfl

/-- A hex number is read, and the client freed. -/
theorem hexReply_cases {checked : Bool} {res : JsonrpcResult} {out : Uint256} {rpc : Rpc}
    {r : Returned Uint256} (h : hexReply checked res out rpc = .ok r) :
    ∃ content res' ret, jsonrpcDecodeHexencoded false (rpc.content.getD noContent) res out =
        .ok (content, res', r.out, ret) ∧
      r.rpc = httpNfoFree { rpc with content := some content } ∧
      r.ret = if ret < 0 then ret else if checked ∧ res'.error.code < 0 then -1 else ret := by
  unfold hexReply at h
  split at h
  · cases h
  · rename_i content res' out' ret hdecode
    cases h
    exact ⟨content, res', ret, hdecode, rfl, rfl⟩

/-- At a `NULL` pointer with size 0 there is no token. -/
theorem jsonrpcDecodeTxreceipt_noContent (result : JsonrpcResult) (out : TxReceipt) :
    jsonrpcDecodeTxreceipt false noContent result out = .ok (noContent, result, out, -1) := rfl

/-- **`web3_eth_getTransactionReceipt` fails on every reply**: it decodes `body`, which is still `NULL`,
and not the reply, so that it returns -1 with nothing stored at `out`, and frees the client. -/
theorem web3EthGetTransactionReceipt_eq {txHash : TxHash} {x : Exchange} {rpc : Rpc}
    (hret : 0 ≤ ((Request.getTransactionReceipt txHash).run rpc.web3).2) (hsucceeds : x.Succeeds)
    (result : JsonrpcResult) (out : TxReceipt) :
    web3EthGetTransactionReceipt txHash x result out rpc =
      .ok ⟨httpNfoFree (rpc.received (.getTransactionReceipt txHash) x), -1, out⟩ := by
  unfold web3EthGetTransactionReceipt
  rcases exchange_cases (.getTransactionReceipt txHash) x rpc out 0 _ with ⟨hnot, -⟩ | ⟨-, hend⟩
  · exact absurd ⟨hret, hsucceeds⟩ hnot
  · rw [hend, jsonrpcDecodeTxreceipt_noContent]
    dsimp only
    rw [if_pos neg_one_lt_zero]

end AnylWallet.Zephyr
