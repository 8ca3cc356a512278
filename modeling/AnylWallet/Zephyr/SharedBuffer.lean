import AnylWallet.Zephyr.HttpMutex
import Mathlib.Logic.Function.Basic

/-!
# Two threads and the buffer of the requests

* `Callers` is the state of the two threads that call the wrappers. A call takes five steps: it
  encodes its request into the buffer of `web3_ctx`, acquires the mutex, makes its POST, decodes the
  reply and frees the client. `Callers.ends_alone`: the steps of one thread, with none between them
  of the other, are `RpcCall.run`.
* `Callers.does_of_step`: what a step does. The mutex is with the thread that stands behind its
  acquisition (`Callers.Guarded`), so that what a thread decodes is the reply to its own POST.
* `Callers.sends_own_iff_clear`: what is sent is what its thread has encoded, exactly where no thread
  encodes another request while the other one stands between its encoding and its POST.

A run in which the decoder faults on a reply is none of this system: the step has no state behind it.
`Sound` asks more than that the POSTs are right, as `own` is also about a request that is encoded and
whose POST is not part of the run.
-/

namespace AnylWallet.Zephyr

open AnylWallet.Lib AnylWallet.Lib.Interleaving AnylWallet.Helpers AnylWallet.Eth

/-! ## The parts of a call -/

/-- What `http_send_data` sends: all bytes of the buffer. Source: `zephyr-wallet/web3_rpc.c` -/
def Rpc.payload (rpc : Rpc) : List UInt8 := rpc.web3.buf.load 0 rpc.web3.bufSize

/-- The static variables behind the encoding of a request. -/
def Rpc.encoded (rpc : Rpc) (req : Request) : Rpc := { rpc with web3 := (req.run rpc.web3).1 }

/-- How `http_send_data` starts: `k_mutex_lock`, and `nfo->_priv = NULL`.
Source: `zephyr-wallet/http_service.c` -/
def Rpc.lock (rpc : Rpc) : Rpc := { rpc with holds := rpc.holds + 1, priv := false }

/-- The rest of `http_send_data`. Source: `zephyr-wallet/http_service.c` -/
def Rpc.post (x : Exchange) (rpc : Rpc) : Rpc × ℤ :=
  if x.init < 0 then (rpc.unlock, x.init)
  else if x.sent < 0 then (rpc.unlock, x.sent)
  else ({ rpc with content := some x.reply, priv := true }, x.status.toNat)

namespace RpcCall

/-- How it decodes the reply: the static variables then, and whether it goes on to
`http_nfo_free`. -/
def decode (rpc : Rpc) : RpcCall → Option (Rpc × Bool)
  | .sendRawTransaction _ _ res out | .blockNumber _ res out _ | .getBalance _ _ res out
  | .getTransactionCount _ _ res out | .estimateGas _ _ _ res out =>
      (jsonrpcDecodeHexencoded false (rpc.content.getD noContent) res out).toOption.map
        fun r => ({ rpc with content := some r.1 }, true)
  | .call _ _ _ _ res out =>
      (jsonrpcDecodeHexencoded false (rpc.content.getD noContent) res out).toOption.map
        fun r => ({ rpc with content := some r.1 }, ¬ (r.2.2.2 < 0 ∨ r.2.1.error.code < 0))
  | .getTransactionReceipt _ _ res out =>
      (jsonrpcDecodeTxreceipt false noContent res out).toOption.map fun _ => (rpc, true)

end RpcCall

/-- The exchange of a wrapper is its steps if what it does with the reply is. -/
theorem toOption_exchange {α : Type} (c : RpcCall) (rpc : Rpc) (out : α) (failed : ℤ)
    {reply : Rpc → Except Fault (Returned α)}
    (hreply : ∀ rpc, (reply rpc).toOption.map Returned.rpc =
      (c.decode rpc).map fun r => if r.2 then httpNfoFree r.1 else r.1) :
    (exchange c.request c.exchange rpc out failed reply).toOption.map Returned.rpc =
      if (c.request.run rpc.web3).2 < 0 then some (rpc.encoded c.request)
      else
        let (rpc, ret) := (rpc.encoded c.request).lock.post c.exchange
        if ret < 0 then some rpc
        else (c.decode rpc).map fun r => if r.2 then httpNfoFree r.1 else r.1 := by
  unfold exchange
  dsimp only
  split
  · rfl
  · have hsend : httpSendData c.exchange { rpc with web3 := (c.request.run rpc.web3).1 } =
        (rpc.encoded c.request).lock.post c.exchange := rfl
    rw [hsend]
    split
    · rfl
    · exact hreply _

/-- A hex number that is read, in its steps. -/
theorem toOption_hexReply (checked : Bool) (res : JsonrpcResult) (out : Uint256) (rpc : Rpc) :
    (hexReply checked res out rpc).toOption.map Returned.rpc =
      ((jsonrpcDecodeHexencoded false (rpc.content.getD noContent) res out).toOption.map
        fun r => ({ rpc with content := some r.1 }, true)).map
          fun r => if r.2 then httpNfoFree r.1 else r.1 := by
  unfold hexReply
  cases jsonrpcDecodeHexencoded false (rpc.content.getD noContent) res out with
  | error fault => rfl
  | ok r => rfl

/-- **A wrapper is its steps**: it encodes the request, acquires the mutex, makes the POST, decodes the
reply and frees the client. -/
theorem RpcCall.run_eq (rpc : Rpc) (c : RpcCall) :
    RpcCall.run rpc c =
      if (c.request.run rpc.web3).2 < 0 then some (rpc.encoded c.request)
      else
        let (rpc, ret) := (rpc.encoded c.request).lock.post c.exchange
        if ret < 0 then some rpc
        else (c.decode rpc).map fun r => if r.2 then httpNfoFree r.1 else r.1 := by
  cases c with
  | sendRawTransaction data x res out =>
      exact toOption_exchange (.sendRawTransaction data x res out) rpc out (-1)
        (toOption_hexReply true res out)
  | getBalance address x res out =>
      exact toOption_exchange (.getBalance address x res out) rpc out (-1)
        (toOption_hexReply false res out)
  | getTransactionCount address x res out =>
      exact toOption_exchange (.getTransactionCount address x res out) rpc out (-1)
        (toOption_hexReply false res out)
  | estimateGas sender tx x res out =>
      exact toOption_exchange (.estimateGas sender tx x res out) rpc out (-1)
        (toOption_hexReply true res out)
  | blockNumber x res outU256 out =>
      refine toOption_exchange (.blockNumber x res outU256 out) rpc out (-1) fun rpc => ?_
      refine Eq.trans ?_ (toOption_hexReply false res outU256 rpc)
      cases hexReply false res outU256 rpc with
      | error fault => rfl
      | ok r => rfl
  | call sender tx txFlags x res out =>
      refine toOption_exchange (.call sender tx txFlags x res out) rpc out (-1) fun rpc => ?_
      simp only [decode]
      rcases jsonrpcDecodeHexencoded false (rpc.content.getD noContent) res out with
        fault | ⟨content, res', out', ret⟩
      · rfl
      · by_cases hret : ret < 0
        · simp [Except.toOption, hret]
        · by_cases hcode : res'.error.code < 0
          · simp [Except.toOption, hret, hcode]
          · simp [Except.toOption, hret, hcode]
  | getTransactionReceipt txHash x res out =>
      refine toOption_exchange (.getTransactionReceipt txHash x res out) rpc out 0 fun rpc => ?_
      simp only [decode]
      cases jsonrpcDecodeTxreceipt false noContent res out with
      | error fault => rfl
      | ok r => rfl

/-! ## The threads -/

/-- The threads that call the wrappers: the shell, and the one of `zephyr-wallet/upload.c`. -/
inductive Thread where
  | shell
  | upload
deriving DecidableEq, Repr

/-- Where a thread stands in a call. -/
inductive Stage where
  /-- In no call. -/
  | idle
  /-- It has encoded its request, and left these bytes in the buffer. -/
  | encoded (c : RpcCall) (request : List UInt8)
  /-- It has acquired the mutex. -/
  | locked (c : RpcCall) (request : List UInt8)
  /-- It has made its POST, and there is a reply. -/
  | received (c : RpcCall)
  /-- It has decoded the reply, and frees the client. -/
  | decoded

/-- The request of a thread that has not made its POST. -/
def Stage.pending? : Stage → Option (List UInt8)
  | .encoded _ request | .locked _ request => some request
  | _ => none

/-- A thread that has acquired the mutex and not given it back. -/
def Stage.holds : Stage → Bool
  | .locked .. | .received _ | .decoded => true
  | _ => false

/-- The static variables, and the threads. -/
structure Callers where
  rpc : Rpc
  /-- The thread that has acquired the mutex last; it holds it if the hold count is not 0. -/
  owner : Thread
  stage : Thread → Stage

namespace Callers

/-- No thread is in a call. -/
def start (rpc : Rpc) : Callers := ⟨rpc, .shell, fun _ => .idle⟩

/-- The thread goes on to this stage. -/
def goTo (st : Callers) (t : Thread) (rpc : Rpc) (stage : Stage) : Callers :=
  { st with rpc := rpc, stage := Function.update st.stage t stage }

/-- The next step of a thread. -/
inductive Event where
  | encode (t : Thread) (c : RpcCall)
  | acquire (t : Thread)
  | post (t : Thread)
  | decode (t : Thread)
  | release (t : Thread)

/-- The state behind a step; a thread that finds the mutex taken waits. -/
def step (st : Callers) : Event → Option Callers
  | .encode t c =>
      match st.stage t with
      | .idle =>
          let rpc := st.rpc.encoded c.request
          some (st.goTo t rpc
            (if (c.request.run st.rpc.web3).2 < 0 then .idle else .encoded c rpc.payload))
      | _ => none
  | .acquire t =>
      match st.stage t with
      | .encoded c request =>
          if st.rpc.holds = 0 ∨ st.owner = t then
            some ({ st with owner := t }.goTo t st.rpc.lock (.locked c request))
          else none
      | _ => none
  | .post t =>
      match st.stage t with
      | .locked c _ =>
          let (rpc, ret) := st.rpc.post c.exchange
          some (st.goTo t rpc (if ret < 0 then .idle else .received c))
      | _ => none
  | .decode t =>
      match st.stage t with
      | .received c =>
          (c.decode st.rpc).map fun r => st.goTo t r.1 (if r.2 then .decoded else .idle)
      | _ => none
  | .release t =>
      match st.stage t with
      | .decoded => some (st.goTo t (httpNfoFree st.rpc) .idle)
      | _ => none

/-- The POST sends what its thread has encoded. -/
def OwnPost (st : Callers) : Event → Prop
  | .post t => ∀ c request, st.stage t = .locked c request → 0 ≤ c.exchange.init →
      st.rpc.payload = request
  | _ => True

/-- What is decoded is the reply to the POST of the thread. -/
def OwnReply (st : Callers) : Event → Prop
  | .decode t => ∀ c, st.stage t = .received c → st.rpc.content = some c.exchange.reply
  | _ => True

/-- What a thread goes on to send is what it has encoded. -/
def Own (st : Callers) : Prop :=
  ∀ t request, (st.stage t).pending? = some request → st.rpc.payload = request

/-- The thread that makes a POST in this step, with what is given of it. -/
def posting (st : Callers) (what : List UInt8 → List UInt8) : Event → List (Thread × List UInt8)
  | .post t =>
      match st.stage t with
      | .locked c request => if c.exchange.init < 0 then [] else [(t, what request)]
      | _ => []
  | _ => []

/-- What the POSTs of a run send, in their order. -/
def sent (st : Callers) : List Event → List (Thread × List UInt8)
  | [] => []
  | e :: es => st.posting (fun _ => st.rpc.payload) e ++ ((st.step e).elim [] fun st' => st'.sent es)

/-- The requests of the calls that come to a POST, in their order. -/
def asked (st : Callers) : List Event → List (Thread × List UInt8)
  | [] => []
  | e :: es => st.posting id e ++ ((st.step e).elim [] fun st' => st'.asked es)

/-- Every POST of the run sends what its thread has encoded, so that no request is lost or sent twice;
every reply that is decoded is the one to the POST of the thread; and what a thread goes on to send
in a state of the run is what it has encoded, also where its POST comes in no step of the run. -/
structure Sound (st : Callers) (es : List Event) : Prop where
  posts : Meets step OwnPost st es
  once : st.sent es = st.asked es
  replies : Meets step OwnReply st es
  own : Along step Own st es

/-- If a request is encoded while the other thread stands between its encoding and its POST, it leaves
the same bytes. -/
def Clear (st : Callers) : Event → Prop
  | .encode t c => st.stage t = .idle → ∀ t' ≠ t, ∀ request, (st.stage t').pending? = some request →
      (st.rpc.encoded c.request).payload = request
  | _ => True

/-! ## What a step does -/

/-- What a step can do. -/
inductive Does (st : Callers) : Event → Callers → Prop where
  | encodes {t : Thread} {c : RpcCall} (hstage : st.stage t = .idle)
      (hret : 0 ≤ (c.request.run st.rpc.web3).2) :
      Does st (.encode t c) (st.goTo t (st.rpc.encoded c.request)
        (.encoded c (st.rpc.encoded c.request).payload))
  | refuses {t : Thread} {c : RpcCall} (hstage : st.stage t = .idle)
      (hret : (c.request.run st.rpc.web3).2 < 0) :
      Does st (.encode t c) (st.goTo t (st.rpc.encoded c.request) .idle)
  | acquires {t : Thread} {c : RpcCall} {request : List UInt8}
      (hstage : st.stage t = .encoded c request) (hfree : st.rpc.holds = 0 ∨ st.owner = t) :
      Does st (.acquire t) ({ st with owner := t }.goTo t st.rpc.lock (.locked c request))
  | fails {t : Thread} {c : RpcCall} {request : List UInt8}
      (hstage : st.stage t = .locked c request) (hfails : ¬ c.exchange.Succeeds) :
      Does st (.post t) (st.goTo t st.rpc.unlock .idle)
  | posts {t : Thread} {c : RpcCall} {request : List UInt8}
      (hstage : st.stage t = .locked c request) (hsucceeds : c.exchange.Succeeds) :
      Does st (.post t) (st.goTo t
        { st.rpc with content := some c.exchange.reply, priv := true } (.received c))
  | decodes {t : Thread} {c : RpcCall} {rpc : Rpc} {frees : Bool}
      (hstage : st.stage t = .received c) (hdecode : c.decode st.rpc = some (rpc, frees)) :
      Does st (.decode t) (st.goTo t rpc (if frees then .decoded else .idle))
  | releases {t : Thread} (hstage : st.stage t = .decoded) :
      Does st (.release t) (st.goTo t (httpNfoFree st.rpc) .idle)

variable {st st' : Callers} {e : Event} {t : Thread} {rpc : Rpc} {stage : Stage}

/-- **What a step does** is one of these. -/
theorem does_of_step (h : st.step e = some st') : st.Does e st' := by
  cases e with
  | encode t c =>
      simp only [step] at h
      split at h
      · rename_i hstage
        cases h
        by_cases hret : (c.request.run st.rpc.web3).2 < 0
        · rw [if_pos hret]
          exact .refuses hstage hret
        · rw [if_neg hret]
          exact .encodes hstage (Int.not_lt.mp hret)
      · cases h
  | acquire t =>
      simp only [step] at h
      split at h
      · rename_i hstage
        split at h
        · rename_i hfree
          cases h
          exact .acquires hstage hfree
        · cases h
      · cases h
  | post t =>
      simp only [step] at h
      split at h
      · rename_i c request hstage
        cases h
        by_cases hsucceeds : c.exchange.Succeeds
        · have hpost : st.rpc.post c.exchange =
              ({ st.rpc with content := some c.exchange.reply, priv := true },
                (c.exchange.status.toNat : ℤ)) := by
            rw [Rpc.post, if_neg (Int.not_lt.mpr hsucceeds.1), if_neg (Int.not_lt.mpr hsucceeds.2)]
          rw [hpost, if_neg (Int.not_lt.mpr (Int.natCast_nonneg _))]
          exact .posts hstage hsucceeds
        · have hpost : (st.rpc.post c.exchange).1 = st.rpc.unlock ∧
              (st.rpc.post c.exchange).2 < 0 := by
            rw [Rpc.post]
            by_cases hinit : c.exchange.init < 0
            · rw [if_pos hinit]
              exact ⟨rfl, hinit⟩
            · have hsent : c.exchange.sent < 0 :=
                Int.not_le.mp fun hsent => hsucceeds ⟨Int.not_lt.mp hinit, hsent⟩
              rw [if_neg hinit, if_pos hsent]
              exact ⟨rfl, hsent⟩
          rw [hpost.1, if_pos hpost.2]
          exact .fails hstage hsucceeds
      · cases h
  | decode t =>
      simp only [step] at h
      split at h
      · rename_i hstage
        obtain ⟨⟨rpc, frees⟩, hdecode, rfl⟩ := Option.map_eq_some_iff.mp h
        exact .decodes hstage hdecode
      · cases h
  | release t =>
      simp only [step] at h
      split at h
      · rename_i hstage
        cases h
        exact .releases hstage
      · cases h

/-- What a thread that goes on leaves of the other. -/
theorem stage_goTo_of_ne {t' : Thread} (h : t' ≠ t) : (st.goTo t rpc stage).stage t' = st.stage t' :=
  Function.update_of_ne h _ _

@[simp] theorem stage_goTo_self : (st.goTo t rpc stage).stage t = stage := Function.update_self _ _ _

@[simp] theorem rpc_goTo : (st.goTo t rpc stage).rpc = rpc := rfl

/-- The decoders leave the request, and the mutex. -/
theorem decode_keeps {c : RpcCall} {rpc rpc' : Rpc} {frees : Bool}
    (h : c.decode rpc = some (rpc', frees)) : rpc'.web3 = rpc.web3 ∧ rpc'.holds = rpc.holds := by
  cases c <;>
    simp only [RpcCall.decode, Option.map_eq_some_iff] at h <;>
    obtain ⟨r, -, hr⟩ := h <;>
    cases hr <;>
    exact ⟨rfl, rfl⟩

/-! ## The mutex -/

/-- A thread that has acquired the mutex holds it, and the reply there is the one it has received. -/
structure Guarded (st : Callers) : Prop where
  owner : ∀ t, (st.stage t).holds = true → st.rpc.holds ≠ 0 ∧ st.owner = t
  reply : ∀ t c, st.stage t = .received c → st.rpc.content = some c.exchange.reply

theorem guarded_start (rpc : Rpc) : (start rpc).Guarded where
  owner := by
    intro t h
    cases h
  reply := by
    intro t c h
    cases h

/-- The thread that holds the mutex goes on. -/
theorem Guarded.goTo_holder (h : st.Guarded) (hholds : (st.stage t).holds = true)
    (hkeeps : stage.holds = true → rpc.holds ≠ 0)
    (hreply : ∀ c, stage = .received c → rpc.content = some c.exchange.reply) :
    (st.goTo t rpc stage).Guarded := by
  have howner := (h.owner t hholds).2
  constructor
  · intro t' ht'
    by_cases heq : t' = t
    · subst heq
      rw [stage_goTo_self] at ht'
      exact ⟨hkeeps ht', howner⟩
    · rw [stage_goTo_of_ne heq] at ht'
      exact absurd ((h.owner t' ht').2.symm.trans howner) heq
  · intro t' c ht'
    by_cases heq : t' = t
    · subst heq
      rw [stage_goTo_self] at ht'
      exact hreply c ht'
    · rw [stage_goTo_of_ne heq] at ht'
      have hreceived : (st.stage t').holds = true := by
        rw [ht']
        rfl
      exact absurd ((h.owner t' hreceived).2.symm.trans howner) heq

/-- A thread that encodes goes on. -/
theorem Guarded.goTo_encoder (h : st.Guarded) (hstage : stage.holds = false)
    (hholds : rpc.holds = st.rpc.holds) (hcontent : rpc.content = st.rpc.content) :
    (st.goTo t rpc stage).Guarded := by
  constructor
  · intro t' ht'
    by_cases heq : t' = t
    · subst heq
      rw [stage_goTo_self] at ht'
      exact absurd ht' (by rw [hstage]; exact Bool.false_ne_true)
    · rw [stage_goTo_of_ne heq] at ht'
      rw [rpc_goTo, hholds]
      exact h.owner t' ht'
  · intro t' c ht'
    by_cases heq : t' = t
    · subst heq
      rw [stage_goTo_self] at ht'
      rw [ht'] at hstage
      cases hstage
    · rw [stage_goTo_of_ne heq] at ht'
      rw [rpc_goTo, hcontent]
      exact h.reply t' c ht'

/-- A thread that acquires the mutex goes on. -/
theorem Guarded.acquire (h : st.Guarded) {c : RpcCall} {request : List UInt8}
    (hstage : st.stage t = .encoded c request) (hfree : st.rpc.holds = 0 ∨ st.owner = t) :
    ({ st with owner := t }.goTo t st.rpc.lock (.locked c request)).Guarded := by
  -- no other thread is behind its acquisition
  have hnone : ∀ t' ≠ t, (st.stage t').holds = false := by
    intro t' hne
    refine Bool.eq_false_iff.mpr fun ht' => ?_
    obtain ⟨hpos, howner⟩ := h.owner t' ht'
    rcases hfree with hzero | hself
    · exact hpos hzero
    · exact hne (howner.symm.trans hself)
  constructor
  · intro t' ht'
    by_cases heq : t' = t
    · subst heq
      exact ⟨Nat.succ_ne_zero _, rfl⟩
    · rw [stage_goTo_of_ne heq] at ht'
      exact absurd ht' (by rw [hnone t' heq]; exact Bool.false_ne_true)
  · intro t' c' ht'
    by_cases heq : t' = t
    · subst heq
      rw [stage_goTo_self] at ht'
      cases ht'
    · rw [stage_goTo_of_ne heq] at ht'
      have hnot := hnone t' heq
      rw [show st.stage t' = _ from ht'] at hnot
      cases hnot

/-- **The mutex guards the replies** behind every step. -/
theorem Guarded.step (hstep : st.step e = some st') (h : st.Guarded) : st'.Guarded := by
  cases does_of_step hstep with
  | encodes hstage hret => exact h.goTo_encoder rfl rfl rfl
  | refuses hstage hret => exact h.goTo_encoder rfl rfl rfl
  | acquires hstage hfree => exact h.acquire hstage hfree
  | @fails t _ _ hstage hfails =>
      refine h.goTo_holder (by rw [hstage]; rfl) (fun hidle => ?_) fun c hidle => ?_
      · cases hidle
      · cases hidle
  | @posts t _ _ hstage hsucceeds =>
      have hlocked : (st.stage t).holds = true := by
        rw [hstage]
        rfl
      refine h.goTo_holder hlocked (fun _ => (h.owner t hlocked).1) fun c hreceived => ?_
      cases hreceived
      rfl
  | @decodes t _ rpc frees hstage hdecode =>
      have hreceived : (st.stage t).holds = true := by
        rw [hstage]
        rfl
      refine h.goTo_holder hreceived (fun _ => ?_) fun c hnext => ?_
      · rw [(decode_keeps hdecode).2]
        exact (h.owner t hreceived).1
      · cases frees with
        | false => cases hnext
        | true => cases hnext
  | @releases t hstage =>
      refine h.goTo_holder (by rw [hstage]; rfl) (fun hidle => ?_) fun c hidle => ?_
      · cases hidle
      · cases hidle

/-! ## The buffer -/

/-- A thread that leaves the buffer as it is goes on. -/
theorem Own.goTo (h : st.Own) (hweb3 : rpc.web3 = st.rpc.web3)
    (hpending : ∀ request, stage.pending? = some request →
      (st.stage t).pending? = some request) :
    (st.goTo t rpc stage).Own := by
  intro t' request ht'
  have hpayload : (st.goTo t rpc stage).rpc.payload = st.rpc.payload := by
    rw [rpc_goTo, Rpc.payload, hweb3]
    rfl
  rw [hpayload]
  by_cases heq : t' = t
  · subst heq
    rw [stage_goTo_self] at ht'
    exact h t' request (hpending request ht')
  · rw [stage_goTo_of_ne heq] at ht'
    exact h t' request ht'

/-- A thread that encodes a request leaves that of the other if and only if the bytes are the same. -/
theorem own_goTo_iff (st : Callers) (t : Thread) {rpc : Rpc} {stage : Stage}
    (hstage : ∀ request, stage.pending? = some request → rpc.payload = request) :
    (st.goTo t rpc stage).Own ↔
      ∀ t' ≠ t, ∀ request, (st.stage t').pending? = some request → rpc.payload = request := by
  constructor
  · intro h t' hne request ht'
    refine h t' request ?_
    rw [stage_goTo_of_ne hne]
    exact ht'
  · intro h t' request ht'
    by_cases heq : t' = t
    · subst heq
      rw [stage_goTo_self] at ht'
      exact hstage request ht'
    · rw [stage_goTo_of_ne heq] at ht'
      exact h t' heq request ht'

/-- **Where the buffer remains with its thread**: behind a step that is clear. -/
theorem own_iff_clear (hstep : st.step e = some st') (h : st.Own) : st'.Own ↔ st.Clear e := by
  cases does_of_step hstep with
  | @encodes t c hstage hret =>
      have hpending : ∀ request, (Stage.encoded c (st.rpc.encoded c.request).payload).pending? =
          some request → (st.rpc.encoded c.request).payload = request :=
        fun request hrequest => Option.some.inj hrequest
      rw [own_goTo_iff st t hpending]
      exact ⟨fun hleaves _ => hleaves, fun hclear => hclear hstage⟩
  | @refuses t c hstage hret =>
      have hpending : ∀ request, Stage.idle.pending? = some request →
          (st.rpc.encoded c.request).payload = request := by
        intro request hrequest
        cases hrequest
      rw [own_goTo_iff st t hpending]
      exact ⟨fun hleaves _ => hleaves, fun hclear => hclear hstage⟩
  | @acquires t c request hstage hfree =>
      have hsame : ({ st with owner := t } : Callers).Own := h
      refine iff_of_true (hsame.goTo rfl fun request hrequest => ?_) trivial
      exact (congrArg Stage.pending? hstage).trans hrequest
  | fails hstage hfails =>
      refine iff_of_true (h.goTo rfl fun request hrequest => ?_) trivial
      cases hrequest
  | posts hstage hsucceeds =>
      refine iff_of_true (h.goTo rfl fun request hrequest => ?_) trivial
      cases hrequest
  | @decodes t _ rpc frees hstage hdecode =>
      refine iff_of_true (h.goTo (decode_keeps hdecode).1 fun request hrequest => ?_) trivial
      cases frees with
      | false => cases hrequest
      | true => cases hrequest
  | releases hstage =>
      refine iff_of_true (h.goTo ?_ fun request hrequest => ?_) trivial
      · rw [httpNfoFree]
        split
        · rfl
        · rfl
      · cases hrequest

/-! ## Runs -/

/-- If every POST sends what its thread has encoded, the run sends the requests that it has been asked
to send. -/
theorem sent_eq_asked {es : List Event} (h : Meets step OwnPost st es) : st.sent es = st.asked es := by
  induction es generalizing st with
  | nil => rfl
  | cons e es ih =>
      have hposting : st.posting (fun _ => st.rpc.payload) e = st.posting id e := by
        cases e with
        | post t =>
            simp only [posting]
            split
            · rename_i c request hstage
              split
              · rfl
              · rename_i hinit
                rw [h.1 c request hstage (Int.not_lt.mp hinit)]
                rfl
            · rfl
        | encode | acquire | decode | release => rfl
      rw [sent, asked, hposting]
      cases hstep : st.step e with
      | none => rfl
      | some st' => exact congrArg (st.posting id e ++ ·) (ih (h.2 st' hstep))

/-- A step that cannot happen is clear. -/
theorem clear_of_step_eq_none (h : st.step e = none) : st.Clear e := by
  cases e with
  | encode t c =>
      intro hstage
      simp only [step, hstage] at h
      cases h
  | acquire | post | decode | release => trivial

/-- **When every POST sends its own request**, over all interleavings of the two threads whose replies
are decoded without a fault: exactly where each request that is encoded between the encoding and the
POST of the other thread leaves the same bytes in the buffer. -/
theorem sends_own_iff_clear (rpc : Rpc) (es : List Event) :
    (start rpc).Sound es ↔ Meets step Clear (start rpc) es := by
  have hstart : (start rpc).Own := by
    intro t request h
    cases h
  have hguarded : ∀ st e st', step st e = some st' → st.Guarded → st'.Guarded :=
    fun st e st' hstep hguarded => hguarded.step hstep
  rw [← along_iff_meets hguarded (fun st e st' hstep _ hown => own_iff_clear hstep hown)
    (fun st e hstep => clear_of_step_eq_none hstep) (guarded_start rpc) hstart]
  refine ⟨Sound.own, fun hown => ?_⟩
  have hposts : Meets step OwnPost (start rpc) es := by
    refine hown.meets fun st e hown => ?_
    cases e with
    | post t =>
        intro c request hstage _
        refine hown t request ?_
        rw [hstage]
        rfl
    | encode | acquire | decode | release => trivial
  refine ⟨hposts, sent_eq_asked hposts, ?_, hown⟩
  refine (along_of_invariant hguarded (guarded_start rpc)).meets fun st e hguarded => ?_
  cases e with
  | decode t => exact hguarded.reply t
  | encode | acquire | post | release => trivial

/-- The shell sends a signed transaction. -/
def fromShell : RpcCall := .sendRawTransaction [1] ⟨0, 0, 200, noContent⟩ ⟨0, ⟨0, none⟩⟩ clear256

/-- The other thread sends another one. -/
def fromUpload : RpcCall := .sendRawTransaction [2] ⟨0, 0, 200, noContent⟩ ⟨0, ⟨0, none⟩⟩ clear256

/-- Counterexample: the shell encodes its request before the other thread has made its POST, and that
thread then sends the transaction of the shell. -/
theorem not_ownPost_overwritten : ¬ Meets step OwnPost (start sampleRpc)
    [.encode .upload fromUpload, .encode .shell fromShell, .acquire .upload, .post .upload] := by
  intro h
  -- both requests are encoded
  have hupload : ¬ (fromUpload.request.run sampleRpc.web3).2 < 0 := by decide +kernel
  have hencode : step (start sampleRpc) (.encode .upload fromUpload) = some ((start sampleRpc).goTo
      .upload (sampleRpc.encoded fromUpload.request)
      (.encoded fromUpload (sampleRpc.encoded fromUpload.request).payload)) :=
    congrArg (fun stage => some ((start sampleRpc).goTo .upload _ stage)) (if_neg hupload)
  have hpost := ((h.2 _ hencode).2 _ rfl).2 _ rfl
  have hsame := hpost.1 _ _ rfl (Int.le_refl 0)
  exact absurd (congrArg (fun payload => payload[72]?) hsame) (by decide +kernel)

/-! ## One thread alone -/

/-- Some of these steps, from the first on, end the call of the thread with these static variables. -/
def Ends (st : Callers) (t : Thread) (es : List Event) (rpc : Rpc) : Prop :=
  ∃ es', es' <+: es ∧ ∃ st', Interleaving.run step st es' = some st' ∧ st'.rpc = rpc ∧ st'.stage t = .idle

/-- The call has ended. -/
theorem Ends.here (hrpc : st.rpc = rpc) (hidle : st.stage t = .idle) (es : List Event) :
    st.Ends t es rpc :=
  ⟨[], List.nil_prefix, st, rfl, hrpc, hidle⟩

/-- A step is taken. -/
theorem Ends.cons {es : List Event} (hstep : st.step e = some st') (h : st'.Ends t es rpc) :
    st.Ends t (e :: es) rpc := by
  obtain ⟨es', hprefix, last, hrun, hend⟩ := h
  exact ⟨e :: es', List.cons_prefix_cons.mpr ⟨rfl, hprefix⟩, last,
    Interleaving.run_cons.mpr ⟨_, hstep, hrun⟩, hend⟩

/-- From the reply on. -/
theorem ends_of_received {c : RpcCall} (hstage : st.stage t = .received c)
    (h : ((c.decode st.rpc).map fun r => if r.2 then httpNfoFree r.1 else r.1) = some rpc) :
    st.Ends t [.decode t, .release t] rpc := by
  obtain ⟨⟨rpc', frees⟩, hdecode, hrpc⟩ := Option.map_eq_some_iff.mp h
  have hstep : st.step (.decode t) = some (st.goTo t rpc' (if frees then .decoded else .idle)) := by
    simp only [step, hstage, hdecode]
    rfl
  refine Ends.cons hstep ?_
  cases frees with
  | false => exact .here hrpc stage_goTo_self _
  | true =>
      have hrelease : (st.goTo t rpc' .decoded).step (.release t) =
          some ((st.goTo t rpc' .decoded).goTo t (httpNfoFree rpc') .idle) := by
        simp only [step, stage_goTo_self, rpc_goTo]
      exact Ends.cons hrelease (.here hrpc stage_goTo_self _)

/-- From the POST on. -/
theorem ends_of_locked {c : RpcCall} {request : List UInt8} (hstage : st.stage t = .locked c request)
    (h : (if (st.rpc.post c.exchange).2 < 0 then some (st.rpc.post c.exchange).1
      else (c.decode (st.rpc.post c.exchange).1).map
        fun r => if r.2 then httpNfoFree r.1 else r.1) = some rpc) :
    st.Ends t [.post t, .decode t, .release t] rpc := by
  have hstep : st.step (.post t) = some (st.goTo t (st.rpc.post c.exchange).1
      (if (st.rpc.post c.exchange).2 < 0 then .idle else .received c)) := by
    simp only [step, hstage]
  refine Ends.cons hstep ?_
  by_cases hret : (st.rpc.post c.exchange).2 < 0
  · rw [if_pos hret] at h
    rw [if_pos hret]
    exact .here (Option.some.inj h) stage_goTo_self _
  · rw [if_neg hret] at h
    rw [if_neg hret]
    exact ends_of_received stage_goTo_self h

/-- **One thread alone** runs the wrapper: its steps, with none of the other thread between them, leave
the static variables that `RpcCall.run` leaves. -/
theorem ends_alone (hidle : st.stage t = .idle) (hfree : st.rpc.holds = 0 ∨ st.owner = t)
    {c : RpcCall} (hrun : RpcCall.run st.rpc c = some rpc) :
    st.Ends t [.encode t c, .acquire t, .post t, .decode t, .release t] rpc := by
  rw [RpcCall.run_eq] at hrun
  have hencode : st.step (.encode t c) = some (st.goTo t (st.rpc.encoded c.request)
      (if (c.request.run st.rpc.web3).2 < 0 then .idle
        else .encoded c (st.rpc.encoded c.request).payload)) := by
    simp only [step, hidle]
  refine Ends.cons hencode ?_
  by_cases hret : (c.request.run st.rpc.web3).2 < 0
  · rw [if_pos hret] at hrun
    rw [if_pos hret]
    exact .here (Option.some.inj hrun) stage_goTo_self _
  · rw [if_neg hret] at hrun
    rw [if_neg hret]
    have hacquire : (st.goTo t (st.rpc.encoded c.request)
        (.encoded c (st.rpc.encoded c.request).payload)).step (.acquire t) =
        some ({ st.goTo t (st.rpc.encoded c.request)
          (.encoded c (st.rpc.encoded c.request).payload) with owner := t }.goTo t
            (st.rpc.encoded c.request).lock (.locked c (st.rpc.encoded c.request).payload)) := by
      simp only [step, stage_goTo_self]
      exact if_pos hfree
    exact Ends.cons hacquire (ends_of_locked stage_goTo_self hrun)

end Callers

end AnylWallet.Zephyr
