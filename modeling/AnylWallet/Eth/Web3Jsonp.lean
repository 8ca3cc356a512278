import AnylWallet.Helpers.Fromstring
import AnylWallet.Helpers.JsmnUtils
import AnylWallet.Helpers.Strtol
import AnylWallet.Lib.Walk

/-!
# `eth/web3_jsonp`: decoding the replies of a node

* `jsonrpcDecodeHexencoded` and `jsonrpcDecodeTxreceipt` are the two decoders. They return the
  buffer (in which the messages of errors have been terminated), the contents of `*result` and
  `*out`, and the number the C function returns; or the fault they end in.
* Their loops are walks over the tokens behind the one they start at (`Lib.walk`); a token at or
  past the number of tokens that `jsmn_parse` has returned is never read, but a fault.
-/

namespace AnylWallet.Eth

open AnylWallet.Lib AnylWallet.Helpers

/-- `jsonrpc_error_t`; `message` is an offset in the buffer, or `none` for any other pointer.
Source: `eth/web3_jsonp.h` -/
structure JsonrpcError where
  /-- `code`. -/
  code : ℤ
  /-- `message`. -/
  message : Option ℤ
deriving DecidableEq, Repr

/-- `jsonrpc_result_t`. Source: `eth/web3_jsonp.h` -/
structure JsonrpcResult where
  /-- `id`. -/
  id : UInt64
  /-- `error`. -/
  error : JsonrpcError
deriving DecidableEq, Repr

/-- `tx_receipt_t`. Source: `eth/transaction.h` -/
structure TxReceipt where
  /-- `blockNumber`. -/
  blockNumber : UInt64
  /-- `status`. -/
  status : UInt8
deriving DecidableEq, Repr

/-! ## Single tokens -/

/-- Whether a conversion that starts at the token ends with it and sets no `errno`. -/
def Converted.fits {α : Type} (r : Converted α) (tok : Jsmntok) : Bool :=
  ¬ r.erange ∧ tok.start + r.size = tok.stop

/-- `__json_uint10`: the number it stores, and whether it returns 0. Source: `eth/web3_jsonp.c` -/
def jsonUint10 (buf : JsonBuf) (tok : Jsmntok) : UInt64 × Bool :=
  let r := strtoul 10 (buf.text tok.start)
  (r.value, Converted.fits r tok)

/-- `__json_int10`: the number it stores, and whether it returns 0. Source: `eth/web3_jsonp.c` -/
def jsonInt10 (buf : JsonBuf) (tok : Jsmntok) : ℤ × Bool :=
  let r := strtol 10 (buf.text tok.start)
  (r.value, Converted.fits r tok)

/-- `__json_uint64_hex`: the number it stores, and whether it returns 0.
Source: `eth/web3_jsonp.c` -/
def jsonUint64Hex (buf : JsonBuf) (tok : Jsmntok) : UInt64 × Bool :=
  let r := strtol 16 (buf.text tok.start)
  (UInt64.ofNat (r.value % 2 ^ 64).toNat, Converted.fits r tok)

/-- `__json_uint256_hex`; `tmp` has 68 bytes, of which the last must remain 0.
Source: `eth/web3_jsonp.c` -/
def jsonUint256Hex (asserts : Bool) (buf : JsonBuf) (tok : Jsmntok) (out : Uint256) :
    Except Fault (Uint256 × ℤ) :=
  if 0 ≤ tok.stop - tok.start ∧ tok.stop - tok.start < 68 then
    let tmp := (buf.text tok.start).take (tok.stop - tok.start).toNat
    fromstring256 asserts (tmp.takeWhile (· ≠ 0)) out
  else .error .tmpOverflow

/-! ## The error object -/

/-- One round of the loop of `__jsonrpc_error_obj`, of which `left` are left. -/
def jsonrpcErrorVisit (tok : Jsmntok) (rest : List Jsmntok) :
    ℕ × JsonBuf × JsonrpcError → Except Fault (Visit (ℕ × JsonBuf × JsonrpcError)
      (JsonBuf × JsonrpcError × ℤ))
  | (left, buf, out) =>
      if left = 0 then .ok (.stop (buf, out, 0))
      else if tok.type ≠ .string then .ok (.stop (buf, out, -1))
      else if jsoneq buf tok (ascii "code") then
        match rest with
        | [] => .error .staleToken
        | value :: _ =>
            let (code, valid) := jsonInt10 buf value
            let out := { out with code := code }
            if valid then .ok (.take (left - 2, buf, out)) else .ok (.stop (buf, out, -1))
      else if jsoneq buf tok (ascii "message") then
        match rest with
        | [] => .error .staleToken
        | value :: _ =>
            match buf.terminate value.stop with
            | .error fault => .error fault
            | .ok buf => .ok (.take (left - 2, buf, { out with message := some value.start }))
      else .ok (.pass (left - 1, buf, out))

/-- `__jsonrpc_error_obj`. Source: `eth/web3_jsonp.c` -/
def jsonrpcErrorObj (buf : JsonBuf) (toks : List Jsmntok) (out : JsonrpcError) :
    Except Fault (JsonBuf × JsonrpcError × ℤ) :=
  match toks with
  | [] => .error .staleToken
  | tok :: rest =>
      if tok.type ≠ .object then .ok (buf, out, -1)
      else
        match walk jsonrpcErrorVisit rest (2 * tok.size, buf, out) with
        | .error fault => .error fault
        | .ok (.stopped r) => .ok r
        | .ok (.through (left, buf, out)) =>
            if left = 0 then .ok (buf, out, 0) else .error .staleToken

/-! ## The members `error` and `id` -/

/-- One round of the loop of `__jsonrpc_result`. -/
def jsonrpcResultVisit (tok : Jsmntok) (rest : List Jsmntok) :
    JsonBuf × JsonrpcResult → Except Fault (Visit (JsonBuf × JsonrpcResult)
      (JsonBuf × JsonrpcResult × ℤ))
  | (buf, out) =>
      -- jsonrpc item is intentionally ignored
      if jsoneq buf tok (ascii "error") then
        match jsonrpcErrorObj buf rest out.error with
        | .error fault => .error fault
        | .ok (buf, error, ret) =>
            let out := { out with error := error }
            if ret < 0 then .ok (.stop (buf, out, ret)) else .ok (.take (buf, out))
      else if jsoneq buf tok (ascii "id") then
        match rest with
        | [] => .error .staleToken
        | value :: _ =>
            let (id, valid) := jsonUint10 buf value
            let out := { out with id := id }
            if valid then .ok (.take (buf, out)) else .ok (.stop (buf, out, -1))
      else .ok (.pass (buf, out))

/-- `__jsonrpc_result`. Source: `eth/web3_jsonp.c` -/
def jsonrpcResult (asserts : Bool) (buf : JsonBuf) (toks : List Jsmntok) (out : JsonrpcResult) :
    Except Fault (JsonBuf × JsonrpcResult × ℤ) :=
  match check asserts (toks.length > 0) with
  | .error fault => .error fault
  | .ok () =>
      match toks with
      | [] => .ok (buf, out, -1)
      | tok :: rest =>
          if tok.type ≠ .object then .ok (buf, out, -1)
          else
            match walk jsonrpcResultVisit rest (buf, out) with
            | .error fault => .error fault
            | .ok (.stopped r) => .ok r
            | .ok (.through (buf, out)) => .ok (buf, out, 0)

/-! ## The decoders -/

/-- One round of the loop of `jsonrpc_decode_hexencoded`. -/
def hexencodedVisit (asserts : Bool) (buf : JsonBuf) (tok : Jsmntok) (rest : List Jsmntok)
    (out : Uint256) : Except Fault (Visit Uint256 (Uint256 × ℤ)) :=
  if jsoneq buf tok (ascii "result") then
    match rest with
    | [] => .error .staleToken
    | value :: _ =>
        match jsonUint256Hex asserts buf value out with
        | .error fault => .error fault
        | .ok (out, ret) => if ret < 0 then .ok (.stop (out, ret)) else .ok (.take out)
  else .ok (.pass out)

/-- Round `i` of the loop of `__json_txreceipt`, with the number that the function returns if the
round ends it, and 0 otherwise. -/
def txreceiptRound (buf : JsonBuf) (toks : List Jsmntok) (i : ℕ) (out : TxReceipt) :
    Except Fault (TxReceipt × ℤ) :=
  match toks[i * 2 + 1]? with
  | none => .error .staleToken
  | some tok =>
      if tok.type ≠ .string then .ok (out, -1)
      else if jsoneq buf tok (ascii "status") then
        match toks[i * 2 + 2]? with
        | none => .error .staleToken
        | some value =>
            let (tmp, valid) := jsonUint64Hex buf value
            if valid then .ok ({ out with status := if tmp > 0 then 1 else 0 }, 0)
            else .ok (out, -1)
      else if jsoneq buf tok (ascii "blockNumber") then
        match toks[i * 2 + 2]? with
        | none => .error .staleToken
        | some value =>
            let (blockNumber, valid) := jsonUint64Hex buf value
            .ok ({ out with blockNumber := blockNumber }, if valid then 0 else -1)
      else .ok (out, 0)

/-- The loop of `__json_txreceipt` from its round `i` on, of which `left` are left. -/
def txreceiptLoop (buf : JsonBuf) (toks : List Jsmntok) :
    ℕ → ℕ → TxReceipt → Except Fault (TxReceipt × ℤ)
  | 0, _, out => .ok (out, 0)
  | left + 1, i, out =>
      match txreceiptRound buf toks i out with
      | .error fault => .error fault
      | .ok (out, ret) =>
          if ret < 0 then .ok (out, ret) else txreceiptLoop buf toks left (i + 1) out

/-- `__json_txreceipt`. Source: `eth/web3_jsonp.c` -/
def jsonTxreceipt (buf : JsonBuf) (toks : List Jsmntok) (out : TxReceipt) :
    Except Fault (TxReceipt × ℤ) :=
  match toks with
  | [] => .error .staleToken
  | tok :: _ =>
      if tok.type ≠ .object then .ok (out, -1)
      else txreceiptLoop buf toks (tok.size - 1) 1 out

/-- One round of the loop of `jsonrpc_decode_txreceipt`. -/
def txreceiptVisit (buf : JsonBuf) (tok : Jsmntok) (rest : List Jsmntok) (out : TxReceipt) :
    Except Fault (Visit TxReceipt (TxReceipt × ℤ)) :=
  if jsoneq buf tok (ascii "result") then
    match jsonTxreceipt buf rest out with
    | .error fault => .error fault
    | .ok (out, ret) => if ret < 0 then .ok (.stop (out, ret)) else .ok (.take out)
  else .ok (.pass out)

/-- What the two decoders have in common: they differ in the last loop. -/
def jsonrpcDecode {α : Type} (asserts : Bool)
    (visit : JsonBuf → Jsmntok → List Jsmntok → α → Except Fault (Visit α (α × ℤ)))
    (buf : JsonBuf) (result : JsonrpcResult) (out : α) :
    Except Fault (JsonBuf × JsonrpcResult × α × ℤ) :=
  match jsmnParse buf.bytes 64 with
  | none => .ok (buf, result, out, -1)
  | some toks =>
      match jsonrpcResult asserts buf toks result with
      | .error fault => .error fault
      | .ok (buf, result, ret) =>
          if ret < 0 then .ok (buf, result, out, -1)
          else
            match walk (visit buf) toks.tail out with
            | .error fault => .error fault
            | .ok (.stopped (out, ret)) => .ok (buf, result, out, ret)
            | .ok (.through out) => .ok (buf, result, out, 0)

/-- `jsonrpc_decode_hexencoded`. Its own test of the first token repeats that of
`__jsonrpc_result`. Source: `eth/web3_jsonp.c` -/
def jsonrpcDecodeHexencoded (asserts : Bool) (buf : JsonBuf) (result : JsonrpcResult)
    (out : Uint256) : Except Fault (JsonBuf × JsonrpcResult × Uint256 × ℤ) :=
  jsonrpcDecode asserts (hexencodedVisit asserts) buf result out

/-- `jsonrpc_decode_txreceipt`. Its own test of the first token repeats that of
`__jsonrpc_result`. Source: `eth/web3_jsonp.c` -/
def jsonrpcDecodeTxreceipt (asserts : Bool) (buf : JsonBuf) (result : JsonrpcResult)
    (out : TxReceipt) : Except Fault (JsonBuf × JsonrpcResult × TxReceipt × ℤ) :=
  jsonrpcDecode asserts txreceiptVisit buf result out

end AnylWallet.Eth
