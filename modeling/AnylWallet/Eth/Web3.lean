import AnylWallet.Eth.Transaction
import AnylWallet.Helpers.Hextobin
import AnylWallet.Helpers.Tostring

/-!
# `eth/web3`: printing JSON-RPC requests

* A request is printed piece by piece into the buffer of a `Web3Ctx` by four helpers; `Printer.next`
  is the `if(..) { return -1; }` between two steps. `size_t` has 64 bits.
* `vsnprintf` is the C library's: it returns the untruncated length and writes at most `size`
  bytes, the NUL included.
* `Piece` says which step prints what, and `pieces` lists the steps of each request. The code is the
  list run from left to right (`Request.run_eq`), and the request text is what the pieces would
  print without a limit (`Request.text`).
-/

namespace AnylWallet.Eth

open AnylWallet.Lib AnylWallet.Helpers

/-! ## The code -/

/-- `web3_ctx_t`. Source: `eth/web3.h` -/
structure Web3Ctx where
  /-- The memory at `buf`. -/
  buf : Region
  bufSize : ℕ
  bufUsed : ℕ
  reqId : UInt32
  /-- The largest sum stored to `buf_used` since the buffer was reset, before it wraps: a ghost, no
  function reads it. -/
  peak : ℕ

/-- `tx_hash_t`. Source: `eth/transaction.h` -/
structure TxHash where
  /-- The 32 bytes. -/
  h : Vector UInt8 32

/-- `web3->buf_size - web3->buf_used`, a `size_t`. -/
def Web3Ctx.room (web3 : Web3Ctx) : ℕ := (2 ^ 64 + web3.bufSize - web3.bufUsed) % 2 ^ 64

/-- `web3->buf_used += n`. -/
def Web3Ctx.advance (web3 : Web3Ctx) (n : ℕ) : Web3Ctx :=
  { web3 with
    bufUsed := (web3.bufUsed + n) % 2 ^ 64
    peak := max web3.peak (web3.bufUsed + n) }

/-- A function on the context: what it leaves there, and what it returns. -/
abbrev Printer := Web3Ctx → Web3Ctx × ℤ

/-- `if(a < 0) { return -1; } b`. -/
def Printer.next (a b : Printer) : Printer := fun web3 =>
  let (web3, ret) := a web3
  if ret < 0 then (web3, -1) else b web3

/-- `return 0`. -/
def Printer.done : Printer := fun web3 => (web3, 0)

/-- `vsnprintf` on the formatted text. -/
def vsnprintf (m : Region) (str size : ℕ) (text : List UInt8) : Region × ℕ :=
  if size = 0 then (m, text.length) else (m.store str (text.take (size - 1) ++ [0]), text.length)

/-- The conversion `%d`. -/
def fmtInt (x : ℤ) : List UInt8 :=
  if x < 0 then ascii "-" ++ numeral 10 x.natAbs else numeral 10 x.natAbs

/-- The conversion `%x` of an argument of 64 bits: its low 32 bits are printed. -/
def fmtHex (x : UInt64) : List UInt8 := numeral 16 (x.toNat % 2 ^ 32)

/-- `__web3_printbuf`, on the formatted text. Source: `eth/web3.c` -/
def web3Printbuf (text : List UInt8) : Printer := fun web3 =>
  let (buf, size) := vsnprintf web3.buf web3.bufUsed web3.room text
  let web3 := { web3 with buf := buf }
  if size ≥ web3.bufSize then (web3, -1) else (web3.advance size, 0)

/-- `__web3_printhex`. Source: `eth/web3.c` -/
def web3Printhex (val : UInt64) : Printer :=
  web3Printbuf (ascii "\"0x" ++ fmtHex val ++ ascii "\"")

/-- The middle of `__web3_printdata`: the digits. Source: `eth/web3.c` -/
def web3Bintohex (bytes : List UInt8) : Printer := fun web3 =>
  let (buf, ret) := bintohexNonull bytes web3.buf web3.bufUsed web3.room
  let web3 := { web3 with buf := buf }
  if ret < 0 then (web3, -1) else (web3.advance ret.toNat, 0)

/-- The first line of `__web3_printdata`. Source: `eth/web3.c` -/
def web3CheckRoom (bufSize : ℕ) : Printer := fun web3 =>
  if bufSize ≥ web3.room then (web3, -1) else (web3, 0)

/-- `__web3_printdata`. Source: `eth/web3.c` -/
def web3Printdata (buf : List UInt8) : Printer :=
  (web3CheckRoom buf.length).next <|
    (web3Printbuf (ascii "\"0x")).next <|
      (web3Bintohex buf).next <|
        web3Printbuf (ascii "\"")

/-- The middle of `__web3_printaddr`: the digits, of which there must be 40.
Source: `eth/web3.c` -/
def web3BintohexAddr (addr : Address) : Printer := fun web3 =>
  let (buf, size) := bintohexNonull addr.a.toList web3.buf web3.bufUsed web3.room
  let web3 := { web3 with buf := buf }
  if size < 0 then (web3, -1)
  else if size < 40 then (web3, -1)
  else (web3.advance size.toNat, 0)

/-- `__web3_printaddr`. Source: `eth/web3.c` -/
def web3Printaddr (addr : Address) : Printer :=
  (web3Printbuf (ascii "\"0x")).next <|
    (web3BintohexAddr addr).next <|
      web3Printbuf (ascii "\"")

/-- The loop of `strlen`. -/
def strlenLoop (m : Region) : ℕ → ℕ → ℕ
  | 0, _ => 0
  | fuel + 1, p => if m.byte p = 0 then 0 else strlenLoop m fuel (p + 1) + 1

/-- `strlen` of a string in a buffer. -/
theorem strlenLoop_holdsString {m : Region} {p fuel : ℕ} {s : List UInt8} (h : m.HoldsString p s)
    (hfuel : s.length < fuel) : strlenLoop m fuel p = s.length := by
  obtain ⟨hne, hbytes, hnul⟩ := Region.holdsString_iff.mp h
  clear h
  induction s generalizing p fuel with
  | nil =>
      obtain ⟨fuel, rfl⟩ := Nat.exists_eq_succ_of_ne_zero (Nat.ne_of_gt hfuel)
      rw [List.length_nil, Nat.add_zero] at hnul
      rw [strlenLoop, if_pos hnul, List.length_nil]
  | cons c s ih =>
      obtain ⟨fuel, rfl⟩ := Nat.exists_eq_succ_of_ne_zero (Nat.ne_of_gt (Nat.zero_lt_of_lt hfuel))
      have hc : m.byte p = c := hbytes 0 c rfl
      rw [List.length_cons] at hfuel hnul
      rw [strlenLoop, hc, if_neg (hne c List.mem_cons_self), List.length_cons]
      congr 1
      apply ih (Nat.lt_of_succ_lt_succ hfuel) fun d hd => hne d (List.mem_cons_of_mem _ hd)
      · intro i d hd
        rw [Nat.add_assoc, Nat.add_comm 1]
        exact hbytes (i + 1) d hd
      · rwa [Nat.add_comm s.length, ← Nat.add_assoc] at hnul

/-- `strlen` of what `tostring256` left: at most 256 digits and a NUL. -/
def strlen (m : Region) (p : ℕ) : ℕ := strlenLoop m 257 p

/-- The middle of `__web3_printuint256`: the digits. Source: `eth/web3.c` -/
def web3Tostring256 (val : Uint256) : Printer := fun web3 =>
  let (buf, ok) := tostring256 val 16 web3.buf web3.bufUsed (web3.room % 2 ^ 32)
  let web3 := { web3 with buf := buf }
  if ok = false then (web3, -1) else (web3.advance (strlen web3.buf web3.bufUsed), 0)

/-- `__web3_printuint256`. Source: `eth/web3.c` -/
def web3Printuint256 (val : Uint256) : Printer :=
  (web3Printbuf (ascii "\"0x")).next <|
    (web3Tostring256 val).next <|
      web3Printbuf (ascii "\"")

/-- `TX_NO_FROM`. Source: `eth/web3.h` -/
def txNoFrom : UInt8 := (1 : UInt8) <<< 0

/-- `TX_NO_GAS`. Source: `eth/web3.h` -/
def txNoGas : UInt8 := (1 : UInt8) <<< 1

/-- `TX_NO_GASPRICE`. Source: `eth/web3.h` -/
def txNoGasprice : UInt8 := (1 : UInt8) <<< 2

/-- `TX_NO_VALUE`. Source: `eth/web3.h` -/
def txNoValue : UInt8 := (1 : UInt8) <<< 3

/-- `TX_NO_DATA`. Source: `eth/web3.h` -/
def txNoData : UInt8 := (1 : UInt8) <<< 4

/-- `__web3_printtxparam`. Source: `eth/web3.c` -/
def web3Printtxparam (sender : Address) (tx : Transaction) (txFlags : UInt8) : Printer :=
  (web3Printbuf (ascii "\x7b")).next <|
  (web3Printbuf (ascii "\"to\":")).next <|
  (web3Printaddr tx.toAddr).next <|
  (if txFlags &&& txNoFrom = 0 then
    (web3Printbuf (ascii ",\"from\":")).next (web3Printaddr sender) else Printer.done).next <|
  (if txFlags &&& txNoGas = 0 then
    (web3Printbuf (ascii ",\"gas\":")).next (web3Printhex tx.gasLimit.toUInt64)
    else Printer.done).next <|
  (if txFlags &&& txNoGasprice = 0 then
    (web3Printbuf (ascii ",\"gasPrice\":")).next (web3Printhex tx.gasPrice.toUInt64)
    else Printer.done).next <|
  (if txFlags &&& txNoValue = 0 then
    (web3Printbuf (ascii ",\"value\":")).next (web3Printuint256 tx.value)
    else Printer.done).next <|
  (if tx.data ≠ 0 ∧ tx.dataLen ≠ 0 ∧ txFlags &&& txNoData = 0 then
    (web3Printbuf (ascii ",\"data\":")).next (web3Printdata tx.calldata)
    else Printer.done).next <|
  (web3Printbuf (ascii "\x7d")).next <|
  web3Printbuf (ascii ",\"latest\"")

/-- `__web3_resetbuf`; the marks count from here on. Source: `eth/web3.c` -/
def web3Resetbuf (web3 : Web3Ctx) : Web3Ctx :=
  { web3 with
    buf := ({ web3.buf with top := 0 } : Region).store 0 (List.replicate web3.bufSize 0)
    bufUsed := 0
    peak := 0 }

/-- `JSONRPC_HEADER`, formatted. Source: `eth/web3.c` -/
def jsonrpcHeader (reqId : UInt32) (func : String) : List UInt8 :=
  ascii "\x7b\"jsonrpc\":\"2.0\",\"id\":" ++ fmtInt (sizeToInt reqId.toNat) ++
    ascii ",\"method\":\"" ++ ascii func ++ ascii "\",\"params\":["

/-- `JSONRPC_TERMINATOR`. Source: `eth/web3.c` -/
def jsonrpcTerminator : List UInt8 := ascii "]\x7d"

/-- A request function: `WEB3_PREAMBLE`, the parameters, `WEB3_TERMINATOR`.
Source: `eth/web3.c` -/
def web3Request (func : String) (params : Printer) : Printer := fun web3 =>
  let web3 := web3Resetbuf web3
  ((web3Printbuf (jsonrpcHeader web3.reqId func)).next <|
    params.next <|
      (web3Printbuf jsonrpcTerminator).next Printer.done) web3

/-- `eth_getTransactionCount`. Source: `eth/web3.c` -/
def ethGetTransactionCount (addr : Address) : Printer :=
  web3Request "eth_getTransactionCount" <|
    (web3Printaddr addr).next (web3Printbuf (ascii ",\"latest\""))

/-- `eth_blockNumber`. Source: `eth/web3.c` -/
def ethBlockNumber : Printer := web3Request "eth_blockNumber" Printer.done

/-- `eth_sendRawTransaction`. Source: `eth/web3.c` -/
def ethSendRawTransaction (data : List UInt8) : Printer :=
  web3Request "eth_sendRawTransaction" (web3Printdata data)

/-- `eth_getBalance`. Source: `eth/web3.c` -/
def ethGetBalance (addr : Address) : Printer :=
  web3Request "eth_getBalance" <|
    (web3Printaddr addr).next (web3Printbuf (ascii ",\"latest\""))

/-- `eth_call`. Source: `eth/web3.c` -/
def ethCall (sender : Address) (tx : Transaction) (txFlags : UInt8) : Printer :=
  web3Request "eth_call" (web3Printtxparam sender tx txFlags)

/-- `eth_estimateGas`. Source: `eth/web3.c` -/
def ethEstimateGas (sender : Address) (tx : Transaction) : Printer :=
  web3Request "eth_estimateGas" (web3Printtxparam sender tx 0)

/-- `eth_getTransactionReceipt`. Source: `eth/web3.c` -/
def ethGetTransactionReceipt (txHash : TxHash) : Printer :=
  web3Request "eth_getTransactionReceipt" (web3Printdata txHash.h.toList)

/-! ## Requests as lists of pieces -/

/-- One step of printing a request. -/
inductive Piece where
  /-- `__web3_printbuf` of a text. -/
  | lit (text : List UInt8)
  /-- The digits of a byte string. -/
  | hex (bytes : List UInt8)
  /-- The first line of `__web3_printdata`. -/
  | check (n : ℕ)
  /-- The digits of a number. -/
  | digits (val : Uint256)

namespace Piece

/-- What the step prints when there is room. -/
def text : Piece → List UInt8
  | lit text => text
  | hex bytes => hexText bytes
  | check _ => []
  | digits val => numeral 16 val.toNat

/-- The step. -/
def print : Piece → Printer
  | lit text => web3Printbuf text
  | hex bytes => web3Bintohex bytes
  | check n => web3CheckRoom n
  | digits val => web3Tostring256 val

/-- The steps from left to right. -/
def printAll : List Piece → Printer
  | [] => Printer.done
  | p :: ps => p.print.next (printAll ps)

/-- The pieces of a printed byte string. -/
def data (bytes : List UInt8) : List Piece :=
  [check bytes.length, lit (ascii "\"0x"), hex bytes, lit (ascii "\"")]

/-- The pieces of a printed address. -/
def addr (a : Address) : List Piece :=
  [lit (ascii "\"0x"), hex a.a.toList, lit (ascii "\"")]

/-- The piece of a printed small number. -/
def hexNumber (val : UInt64) : List Piece :=
  [lit (ascii "\"0x" ++ fmtHex val ++ ascii "\"")]

/-- The pieces of a printed 256-bit number. -/
def number (val : Uint256) : List Piece :=
  [lit (ascii "\"0x"), digits val, lit (ascii "\"")]

/-- The pieces of a member of the transaction object, if it is not masked. -/
def member (shown : Prop) [Decidable shown] (key : String) (val : List Piece) : List Piece :=
  if shown then lit (ascii key) :: val else []

/-- The pieces of the parameters of `eth_call`. -/
def txparam (sender : Address) (tx : Transaction) (txFlags : UInt8) : List Piece :=
  [lit (ascii "\x7b"), lit (ascii "\"to\":")] ++ addr tx.toAddr ++
    member (txFlags &&& txNoFrom = 0) ",\"from\":" (addr sender) ++
    member (txFlags &&& txNoGas = 0) ",\"gas\":" (hexNumber tx.gasLimit.toUInt64) ++
    member (txFlags &&& txNoGasprice = 0) ",\"gasPrice\":" (hexNumber tx.gasPrice.toUInt64) ++
    member (txFlags &&& txNoValue = 0) ",\"value\":" (number tx.value) ++
    member (tx.data ≠ 0 ∧ tx.dataLen ≠ 0 ∧ txFlags &&& txNoData = 0) ",\"data\":"
      (data tx.calldata) ++
    [lit (ascii "\x7d"), lit (ascii ",\"latest\"")]

end Piece

/-- The request functions with their arguments. -/
inductive Request where
  | getTransactionCount (addr : Address)
  | blockNumber
  | sendRawTransaction (data : List UInt8)
  | getBalance (addr : Address)
  | call (sender : Address) (tx : Transaction) (txFlags : UInt8)
  | estimateGas (sender : Address) (tx : Transaction)
  | getTransactionReceipt (txHash : TxHash)

namespace Request

/-- The function. -/
def run : Request → Printer
  | getTransactionCount addr => ethGetTransactionCount addr
  | blockNumber => ethBlockNumber
  | sendRawTransaction data => ethSendRawTransaction data
  | getBalance addr => ethGetBalance addr
  | call sender tx txFlags => ethCall sender tx txFlags
  | estimateGas sender tx => ethEstimateGas sender tx
  | getTransactionReceipt txHash => ethGetTransactionReceipt txHash

/-- Its name. -/
def func : Request → String
  | getTransactionCount _ => "eth_getTransactionCount"
  | blockNumber => "eth_blockNumber"
  | sendRawTransaction _ => "eth_sendRawTransaction"
  | getBalance _ => "eth_getBalance"
  | call .. => "eth_call"
  | estimateGas .. => "eth_estimateGas"
  | getTransactionReceipt _ => "eth_getTransactionReceipt"

/-- The pieces of its parameters. -/
def params : Request → List Piece
  | getTransactionCount addr => Piece.addr addr ++ [.lit (ascii ",\"latest\"")]
  | blockNumber => []
  | sendRawTransaction data => Piece.data data
  | getBalance addr => Piece.addr addr ++ [.lit (ascii ",\"latest\"")]
  | call sender tx txFlags => Piece.txparam sender tx txFlags
  | estimateGas sender tx => Piece.txparam sender tx 0
  | getTransactionReceipt txHash => Piece.data txHash.h.toList

/-- The pieces of the whole request. -/
def pieces (r : Request) (reqId : UInt32) : List Piece :=
  .lit (jsonrpcHeader reqId r.func) :: (r.params ++ [.lit jsonrpcTerminator])

/-- The full request text. -/
def text (r : Request) (reqId : UInt32) : List UInt8 := (r.pieces reqId).flatMap Piece.text

end Request

/-! ## The code runs its pieces -/

/-- Steps can be regrouped. -/
theorem Printer.next_assoc (a b c : Printer) : (a.next b).next c = a.next (b.next c) := by
  funext web3
  unfold Printer.next
  by_cases h : (a web3).2 < 0
  · simp [h]
  · simp [h]

/-- A step that does nothing can be left out. -/
theorem Printer.done_next (a : Printer) : Printer.done.next a = a := by
  funext web3
  simp [Printer.next, Printer.done]

/-- Two lists of steps one after the other. -/
theorem Piece.printAll_append (ps qs : List Piece) :
    printAll (ps ++ qs) = (printAll ps).next (printAll qs) := by
  induction ps with
  | nil => exact (Printer.done_next _).symm
  | cons p ps ih => rw [List.cons_append, printAll, printAll, ih, Printer.next_assoc]

/-- The digits of an address: all 40 are printed or none. -/
theorem web3BintohexAddr_eq (addr : Address) :
    web3BintohexAddr addr = web3Bintohex addr.a.toList := by
  have hlen : addr.a.toList.length = 20 := by simp
  have hne : addr.a.toList ≠ [] := by
    intro h
    simp [h] at hlen
  have hret : ∀ m out outLen, (bintohexNonull addr.a.toList m out outLen).2 < 0 ∨
      (bintohexNonull addr.a.toList m out outLen).2 = 40 := by
    intro m out outLen
    rw [bintohexNonull_eq hne, hlen]
    split
    · exact Or.inl (show eInvalidStringLen < 0 by decide)
    · exact Or.inr (show sizeToInt (2 * 20) = 40 by decide)
  funext web3
  unfold web3BintohexAddr web3Bintohex
  rcases hret web3.buf web3.bufUsed web3.room with h | h
  · simp only [h, if_true]
  · simp [h]

/-- A step returns `0` or `-1`. -/
theorem Piece.print_ret (p : Piece) (web3 : Web3Ctx) :
    (p.print web3).2 = 0 ∨ (p.print web3).2 = -1 := by
  cases p with
  | lit text =>
      simp only [print, web3Printbuf]
      split <;> simp
  | hex bytes =>
      simp only [print, web3Bintohex]
      split <;> simp
  | check n =>
      simp only [print, web3CheckRoom]
      split <;> simp
  | digits val =>
      simp only [print, web3Tostring256]
      split <;> simp

/-- Returning `0` after the last step changes nothing. -/
theorem Piece.print_done (p : Piece) : p.print.next Printer.done = p.print := by
  funext web3
  unfold Printer.next Printer.done
  rcases p.print_ret web3 with h | h
  · simp only [h, lt_irrefl, if_false]
    exact Prod.ext rfl h.symm
  · simp only [h]
    exact Prod.ext rfl h.symm

/-- A text alone as a list of steps. -/
theorem web3Printbuf_eq (text : List UInt8) : web3Printbuf text = Piece.printAll [.lit text] :=
  (Piece.print_done (.lit text)).symm

/-- The helper for a byte string runs its pieces. -/
theorem web3Printdata_eq (buf : List UInt8) :
    web3Printdata buf = Piece.printAll (Piece.data buf) := by
  simp only [Piece.data, Piece.printAll, Piece.print_done]
  rfl

/-- The helper for an address runs its pieces. -/
theorem web3Printaddr_eq (addr : Address) :
    web3Printaddr addr = Piece.printAll (Piece.addr addr) := by
  simp only [Piece.addr, Piece.printAll, Piece.print_done, web3Printaddr, web3BintohexAddr_eq]
  rfl

/-- The helper for a 256-bit number runs its pieces. -/
theorem web3Printuint256_eq (val : Uint256) :
    web3Printuint256 val = Piece.printAll (Piece.number val) := by
  simp only [Piece.number, Piece.printAll, Piece.print_done]
  rfl

/-- The helper for a small number runs its piece. -/
theorem web3Printhex_eq (val : UInt64) :
    web3Printhex val = Piece.printAll (Piece.hexNumber val) := by
  simp only [Piece.hexNumber, Piece.printAll, Piece.print_done]
  rfl

/-- A member that may be masked runs its pieces. -/
theorem printAll_member (shown : Prop) [Decidable shown] (key : String) (val : List Piece) :
    (if shown then (web3Printbuf (ascii key)).next (Piece.printAll val) else Printer.done) =
      Piece.printAll (Piece.member shown key val) := by
  unfold Piece.member
  split
  · rfl
  · rfl

/-- The parameters of `eth_call` run their pieces. -/
theorem web3Printtxparam_eq (sender : Address) (tx : Transaction) (txFlags : UInt8) :
    web3Printtxparam sender tx txFlags = Piece.printAll (Piece.txparam sender tx txFlags) := by
  unfold web3Printtxparam
  simp only [web3Printaddr_eq, web3Printhex_eq, web3Printuint256_eq, web3Printdata_eq,
    printAll_member]
  simp only [web3Printbuf_eq, ← Piece.printAll_append, Piece.txparam, List.append_assoc, List.cons_append,
    List.nil_append]

/-- **A request runs its pieces** on the reset buffer. -/
theorem Request.run_eq (r : Request) (web3 : Web3Ctx) :
    r.run web3 = Piece.printAll (r.pieces web3.reqId) (web3Resetbuf web3) := by
  have hreq : ∀ func ps, web3Request func (Piece.printAll ps) web3 =
      Piece.printAll (.lit (jsonrpcHeader web3.reqId func) :: (ps ++ [.lit jsonrpcTerminator]))
        (web3Resetbuf web3) := by
    intro func ps
    rw [Piece.printAll, Piece.printAll_append]
    rfl
  cases r with
  | getTransactionCount addr =>
      rw [run, ethGetTransactionCount, web3Printaddr_eq, web3Printbuf_eq, ← Piece.printAll_append, hreq]
      rfl
  | blockNumber => exact hreq _ []
  | sendRawTransaction data =>
      rw [run, ethSendRawTransaction, web3Printdata_eq, hreq]
      rfl
  | getBalance addr =>
      rw [run, ethGetBalance, web3Printaddr_eq, web3Printbuf_eq, ← Piece.printAll_append, hreq]
      rfl
  | call sender tx txFlags =>
      rw [run, ethCall, web3Printtxparam_eq, hreq]
      rfl
  | estimateGas sender tx =>
      rw [run, ethEstimateGas, web3Printtxparam_eq, hreq]
      rfl
  | getTransactionReceipt txHash =>
      rw [run, ethGetTransactionReceipt, web3Printdata_eq, hreq]
      rfl

end AnylWallet.Eth
