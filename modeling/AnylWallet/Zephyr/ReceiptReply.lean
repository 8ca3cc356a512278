import AnylWallet.Eth.ReceiptNodes
import AnylWallet.Eth.ReplyDocument
import AnylWallet.Zephyr.HttpMutex

/-!
# Receipts of transactions

* `IsReceiptReply`: the responses whose result is the receipt of a transaction.
* `decodes_iff`: **when `jsonrpc_decode_txreceipt` finds the two numbers** of a receipt whose members have
  no parts. Where they have, as the logs of a transaction, it reads what stands at the places of its keys
  (`jsonrpcDecodeTxreceipt_nodes`).
* `not_receiptExact`: no reply is decoded to its receipt by both functions, as
  `web3_eth_getTransactionReceipt` fails on every one (`web3EthGetTransactionReceipt_eq`).
-/

namespace AnylWallet.Zephyr

open AnylWallet.Lib AnylWallet.Lib.Json AnylWallet.Helpers AnylWallet.Eth

/-! ## Receipts -/

/-- The member of the object is a string of `0x` and hex digits, and denotes the number. -/
def HasQuantity (receipt : Value) (key : String) (n : ℕ) : Prop :=
  ∃ v digits, (ascii key, v) ∈ receipt.members ∧ v.string? = some (ascii "0x" ++ digits) ∧
    digits ≠ [] ∧ (∀ c ∈ digits, isDigitOf 16 c = true) ∧ numberOf 16 digits = n

/-- A response of at most 64 tokens whose result is a receipt with this block and this status. -/
structure IsReceiptReply (doc : Document) (receipt : Value) (blockNumber status : ℕ) : Prop
    extends IsResponse doc where
  room : doc.nodes.length ≤ 64
  result : (ascii "result", receipt) ∈ doc.value.members
  isReceipt : receipt.isObject = true
  names : (receipt.members.map Prod.fst).Nodup
  block : HasQuantity receipt "blockNumber" blockNumber
  block_lt : blockNumber < 2 ^ 64
  stat : HasQuantity receipt "status" status
  stat_lt : status < 2 ^ 64

/-- What the receipt says of the transaction. -/
def receiptOf (blockNumber status : ℕ) : TxReceipt :=
  ⟨UInt64.ofNat blockNumber, if status = 0 then 0 else 1⟩

/-- `jsonrpc_decode_txreceipt` returns 0 with the receipt, and so does
`web3_eth_getTransactionReceipt` for this reply. -/
structure ReceiptExact (doc : Document) (blockNumber status : ℕ) : Prop where
  decoded : ∀ buf result out, buf.bytes = doc.text → ∃ buf' result',
    jsonrpcDecodeTxreceipt false buf result out =
      .ok (buf', result', receiptOf blockNumber status, 0)
  returned : ∀ txHash x result out rpc,
    0 ≤ ((Request.getTransactionReceipt txHash).run rpc.web3).2 → x.Succeeds →
      x.reply.bytes = doc.text → ∃ r, web3EthGetTransactionReceipt txHash x result out rpc = .ok r ∧
        r.ret = 0 ∧ r.out = receiptOf blockNumber status

/-! ## The decoder -/

/-- `jsonrpc_decode_txreceipt` returns 0 with the receipt, whatever its variables held. -/
def Decodes (asserts : Bool) (doc : Document) (receipt : TxReceipt) : Prop :=
  ∀ buf result out, buf.bytes = doc.text → ∃ buf' result',
    jsonrpcDecodeTxreceipt asserts buf result out = .ok (buf', result', receipt, 0)

/-- The only member of a name is behind the first one, or is the first one. -/
theorem mem_tail_iff {α β : Type} {ms : List (α × β)} (hnodup : (ms.map Prod.fst).Nodup) {key : α}
    (hkey : key ∈ ms.map Prod.fst) :
    key ∈ ms.tail.map Prod.fst ↔ ∀ m ∈ ms.head?, m.1 ≠ key := by
  cases ms with
  | nil => cases hkey
  | cons m ms =>
      rw [List.map_cons, List.nodup_cons] at hnodup
      rw [List.map_cons, List.mem_cons] at hkey
      simp only [List.tail_cons, List.head?_cons, Option.mem_def, Option.some.injEq, forall_eq']
      constructor
      · rintro hmem rfl
        exact hnodup.1 hmem
      · exact fun hne => hkey.resolve_left hne.symm

variable {doc : Document} {receipt : Value} {blockNumber status : ℕ}

/-- The quantities of the receipt. -/
theorem IsReceiptReply.quantitiesOf (h : IsReceiptReply doc receipt blockNumber status) :
    QuantitiesOf receipt.members blockNumber status := by
  have hone : ∀ {key : String} {n : ℕ}, HasQuantity receipt key n → ∀ m ∈ receipt.members,
      m.1 = ascii key → ∃ s, m.2.string? = some s ∧ IsQuantity s n := by
    rintro key n ⟨v, digits, hv, hs, hne, hdigits, hn⟩ ⟨k, w⟩ hm rfl
    obtain rfl : v = w := congrArg Prod.snd (List.inj_on_of_nodup_map h.names hv hm rfl)
    exact ⟨_, hs, digits, rfl, hne, hdigits, hn⟩
  exact ⟨hone h.block, hone h.stat⟩

/-- **When `jsonrpc_decode_txreceipt` finds the receipt**, if no member of it has parts: the two numbers
are below `2 ^ 63`, as they are read into a `long`, and neither is in the first member, which the loop
passes over. The keys `id` and `error` of the reply are followed by what they ask for, and it is come to
one string `result`, that of the receipt. -/
theorem decodes_iff (asserts : Bool) (h : IsReceiptReply doc receipt blockNumber status)
    (hlen : doc.text.length < 2 ^ 31) (hflat : IsFlat receipt)
    (hids : ∀ q ∈ idsTaken doc.nodes.tail, ∃ n, ReadsId q n)
    (herrors : ∀ q ∈ errorsTaken doc.nodes.tail, ∃ entries, ReadsError q entries) {k : Node} {p : ℕ}
    {behind : List Node} (honce : resultsTaken doc.nodes.tail = [(k, receipt.nodes p ++ behind)]) :
    Decodes asserts doc (receiptOf blockNumber status) ↔
      blockNumber < 2 ^ 63 ∧ status < 2 ^ 63 ∧
        ∀ m ∈ receipt.members.head?, m.1 ≠ ascii "blockNumber" ∧ m.1 ≠ ascii "status" := by
  obtain ⟨ids, hids⟩ := headReads_isSome_iff.mpr ⟨hids, herrors⟩
  have hquantities := h.quantitiesOf
  obtain ⟨_, _, hblock, -⟩ := h.block
  obtain ⟨_, _, hstatus, -⟩ := h.stat
  have hnodup := h.names
  cases receipt with
  | string | scalar | emptyArray | array | emptyObject => cases hblock
  | object blank members =>
  rw [Value.members] at hnodup hblock hstatus hquantities ⊢
  have hblock := mem_tail_iff hnodup (List.mem_map_of_mem hblock)
  have hstatus := mem_tail_iff hnodup (List.mem_map_of_mem hstatus)
  rw [Value.nodes, List.cons_append] at honce
  have hbehind : members.nodes (p + 1 + blank.text.length) ++ behind ⊆ doc.nodes := fun m hm =>
    List.mem_of_mem_tail (subset_of_mem_takes (honce ▸ List.mem_singleton_self _)
      (List.mem_cons_of_mem _ hm))
  have hroom : 2 * members.count ≤
      (members.nodes (p + 1 + blank.text.length) ++ behind).length := by
    rw [List.length_append]
    exact le_trans (members.two_mul_count_le _) (Nat.le_add_right _ _)
  have hread := fun out out' => @readPairs_members _ _ blockNumber status
    (pairs_behind_first members (p + 1 + blank.text.length) behind hflat)
    ⟨fun m hm => hquantities.block m (List.mem_of_mem_tail hm),
      fun m hm => hquantities.status m (List.mem_of_mem_tail hm)⟩ out out'
  have hnodes := fun buf hbuf => @jsonrpcDecodeTxreceipt_nodes doc buf k _ asserts
    h.object hlen h.room hbuf ids hids _ honce hbehind rfl hroom
  constructor
  · intro hdecodes
    -- what the variables held is seen where a number is not stored
    obtain ⟨buf', result', hend⟩ := hdecodes ⟨[], doc.text, []⟩ ⟨0, ⟨0, none⟩⟩
      ⟨UInt64.ofNat blockNumber + 1, 2⟩ rfl
    obtain ⟨_, _, ⟨out', hpairs, hend'⟩ | ⟨-, out', hend'⟩⟩ :=
      hnodes ⟨[], doc.text, []⟩ rfl ⟨0, ⟨0, none⟩⟩ ⟨UInt64.ofNat blockNumber + 1, 2⟩
    swap
    · cases hend.symm.trans hend'
    cases hend.symm.trans hend'
    obtain ⟨⟨hb, hs⟩, heq⟩ := (hread _ _).mp hpairs
    obtain ⟨hnumber, hstat⟩ := TxReceipt.mk.inj heq
    have hblockIn : ascii "blockNumber" ∈ members.toList.tail.map Prod.fst := by
      by_contra hnot
      rw [if_neg hnot] at hnumber
      have hnat := congrArg UInt64.toNat hnumber
      have hlt := (UInt64.ofNat blockNumber).toNat_lt
      rw [UInt64.toNat_add, UInt64.toNat_one] at hnat
      omega
    have hstatusIn : ascii "status" ∈ members.toList.tail.map Prod.fst := by
      by_contra hnot
      rw [if_neg hnot] at hstat
      split_ifs at hstat
      · cases hstat
      · cases hstat
    exact ⟨hb hblockIn, hs hstatusIn, fun m hm =>
      ⟨hblock.mp hblockIn m hm, hstatus.mp hstatusIn m hm⟩⟩
  · rintro ⟨hb, hs, hfirst⟩ buf result out hbuf
    have hpairs := (hread out (receiptOf blockNumber status)).mpr ⟨⟨fun _ => hb, fun _ => hs⟩, by
      rw [if_pos (hblock.mpr fun m hm => (hfirst m hm).1),
        if_pos (hstatus.mpr fun m hm => (hfirst m hm).2)]
      rfl⟩
    obtain ⟨buf', result', ⟨out', hsome, hend⟩ | ⟨hnone, -⟩⟩ := hnodes buf hbuf result out
    · cases hsome.symm.trans hpairs
      exact ⟨buf', result', hend⟩
    · cases hnone.symm.trans hpairs

/-! ## The wrapper -/

/-- So there is a call that meets this reply and does not return 0. -/
theorem exists_call_fails (reply : JsonBuf) :
    ∃ txHash x result out rpc, 0 ≤ ((Request.getTransactionReceipt txHash).run rpc.web3).2 ∧
      x.Succeeds ∧ x.reply = reply ∧
        ∀ r, web3EthGetTransactionReceipt txHash x result out rpc = .ok r → r.ret ≠ 0 := by
  have hret : 0 ≤ ((Request.getTransactionReceipt ⟨Vector.replicate 32 0⟩).run sampleRpc.web3).2 := by
    decide
  have hsucceeds : (⟨0, 0, 200, reply⟩ : Exchange).Succeeds := ⟨le_refl 0, le_refl 0⟩
  refine ⟨_, _, ⟨0, ⟨0, none⟩⟩, ⟨0, 0⟩, sampleRpc, hret, hsucceeds, rfl, fun r hr => ?_⟩
  have hend := Except.ok.inj (hr.symm.trans (web3EthGetTransactionReceipt_eq hret hsucceeds _ _))
  have hneg : r.ret = -1 := by
    rw [hend]
  rw [hneg]
  decide

/-- **No reply** is decoded to its receipt by both functions: `web3_eth_getTransactionReceipt` hands
a `NULL` body of length 0 to the decoder, which refuses it, whatever the reply is. -/
theorem not_receiptExact (doc : Document) (blockNumber status : ℕ) :
    ¬ ReceiptExact doc blockNumber status := by
  intro h
  obtain ⟨txHash, x, result, out, rpc, hret, hsucceeds, hreply, hfails⟩ :=
    exists_call_fails ⟨[], doc.text, []⟩
  obtain ⟨r, hr, hzero, -⟩ := h.returned txHash x result out rpc hret hsucceeds (by rw [hreply])
  exact hfails r hr hzero

/-- `{"blockHash":"0x0","blockNumber":"0x1","status":"0x1"}`. -/
def sampleReceipt : Value :=
  .compactObject (bodyOf "blockHash" (Eq.refl true), .string (bodyOf "0x0" (Eq.refl true)))
    [(bodyOf "blockNumber" (Eq.refl true), .string (bodyOf "0x1" (Eq.refl true))),
      (bodyOf "status" (Eq.refl true), .string (bodyOf "0x1" (Eq.refl true)))]

/-- `{"jsonrpc":"2.0","id":1,"result":…}` with this result. -/
def receiptReply (result : Value) : Document where
  before := .none
  value := .compactObject (bodyOf "jsonrpc" (Eq.refl true), .string (bodyOf "2.0" (Eq.refl true)))
    [(bodyOf "id" (Eq.refl true), numberText '1'.toUInt8 (Eq.refl true)),
      (bodyOf "result" (Eq.refl true), result)]
  after := .none

/-- With this receipt. -/
def sampleReceiptReply : Document := receiptReply sampleReceipt

/-- It is the reply with the receipt of a transaction. -/
theorem isReceiptReply_sampleReceiptReply :
    IsReceiptReply sampleReceiptReply sampleReceipt 1 1 where
  toIsResponse := isResponse_of_result rfl (by decide) (.string (bodyOf "2.0" (Eq.refl true)))
    (numberText '1'.toUInt8 (Eq.refl true)) sampleReceipt (.head _) rfl (.tail _ (.head _))
    (.tail _ (.tail _ (.head _))) (by decide)
  room := by decide
  result := .tail _ (.tail _ (.head _))
  isReceipt := rfl
  names := by decide
  block := ⟨_, ascii "1", .tail _ (.head _), rfl, by decide,
    List.all_eq_true.mp (by decide), by decide⟩
  block_lt := by decide
  stat := ⟨_, ascii "1", .tail _ (.tail _ (.head _)), rfl, by decide,
    List.all_eq_true.mp (by decide), by decide⟩
  stat_lt := by decide

/-- `jsonrpc_decode_txreceipt` decodes it. -/
example : jsonrpcDecodeTxreceipt false ⟨[], sampleReceiptReply.text, []⟩ ⟨0, ⟨0, none⟩⟩ ⟨0, 0⟩ =
    .ok (⟨[], sampleReceiptReply.text, []⟩, ⟨1, ⟨0, none⟩⟩, receiptOf 1 1, 0) := by
  decide

/-- `{"logs":[{"blockNumber":"0x2"}],"blockNumber":"0x1","status":"0x1"}`. -/
def loggedReceipt : Value :=
  .compactObject (bodyOf "logs" (Eq.refl true), .compactArray (.compactObject
      (bodyOf "blockNumber" (Eq.refl true), .string (bodyOf "0x2" (Eq.refl true))) []) [])
    [(bodyOf "blockNumber" (Eq.refl true), .string (bodyOf "0x1" (Eq.refl true))),
      (bodyOf "status" (Eq.refl true), .string (bodyOf "0x1" (Eq.refl true)))]

/-- This one it refuses: it takes the log for a key. -/
example : jsonrpcDecodeTxreceipt false ⟨[], (receiptReply loggedReceipt).text, []⟩ ⟨0, ⟨0, none⟩⟩ ⟨0, 0⟩ =
    .ok (⟨[], (receiptReply loggedReceipt).text, []⟩, ⟨1, ⟨0, none⟩⟩, ⟨0, 0⟩, -1) := by
  decide

/-- Counterexample: `web3_eth_getTransactionReceipt` does not return this receipt. -/
theorem not_receiptExact_sampleReceiptReply : ¬ ∀ doc receipt blockNumber status,
    IsReceiptReply doc receipt blockNumber status → ReceiptExact doc blockNumber status := by
  intro h
  have hexact := h _ _ _ _ isReceiptReply_sampleReceiptReply
  obtain ⟨txHash, x, result, out, rpc, hret, hsucceeds, hreply, hfails⟩ :=
    exists_call_fails ⟨[], sampleReceiptReply.text, []⟩
  obtain ⟨r, hr, hzero, -⟩ := hexact.returned txHash x result out rpc hret hsucceeds
    (by rw [hreply])
  exact hfails r hr hzero

end AnylWallet.Zephyr
