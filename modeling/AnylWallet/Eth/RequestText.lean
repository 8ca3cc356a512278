import AnylWallet.Eth.TxRequestRun

/-!
# What is POSTed for a request

* The whole buffer is POSTed, not the text in it (`Web3Ctx.body`).
* `Request.Asks` says what a text is to read as: a JSON document with the name of the function, the
  request id, and parameters that read as the arguments of the request. The text of every request
  does (`Request.asks_text`).
* **A request that fits** (`Request.Fits`) leaves a body of its text and zeros, whatever the buffer
  held before (`Request.run_fits`).
-/

namespace AnylWallet.Eth

open AnylWallet.Lib AnylWallet.Helpers

/-! ## What a request asks for -/

/-- The value is a string that reads as the bytes. -/
def ReadsData (bytes : List UInt8) (v : Json.Value) : Prop := ∃ s, v.string? = some s ∧ IsHexData bytes s

namespace Request

/-- The parameters read as the arguments of the request. -/
def ReadsParams (params : Json.Value) : Request → Prop
  | getTransactionCount addr | getBalance addr =>
      ∃ data latest, params.elems = [data, latest] ∧ ReadsData addr.a.toList data ∧
        latest.string? = some (ascii "latest")
  | blockNumber => params.elems = []
  | sendRawTransaction data => ∃ v, params.elems = [v] ∧ ReadsData data v
  | call sender tx txFlags => Eth.ReadsParams sender tx txFlags params
  | estimateGas sender tx => Eth.ReadsParams sender tx 0 params
  | getTransactionReceipt txHash => ∃ v, params.elems = [v] ∧ ReadsData txHash.h.toList v

/-- The text asks for the request. -/
def Asks (r : Request) (reqId : UInt32) (text : List UInt8) : Prop :=
  ∃ params, IsTxRequest r.func reqId params text ∧ r.ReadsParams params

theorem isBody_latest : Json.isBody (ascii "latest") = true := by decide

/-- The parameters as they are printed. -/
def paramsValue : Request → Json.Value
  | getTransactionCount addr | getBalance addr =>
      .compactArray (dataValue addr.a.toList) [.string ⟨ascii "latest", isBody_latest⟩]
  | blockNumber => .emptyArray .none
  | sendRawTransaction data => .compactArray (dataValue data) []
  | call sender tx txFlags => txParams sender tx txFlags
  | estimateGas sender tx => txParams sender tx 0
  | getTransactionReceipt txHash => .compactArray (dataValue txHash.h.toList) []

/-- A printed byte string reads as the bytes. -/
theorem readsData_dataValue (bytes : List UInt8) : ReadsData bytes (dataValue bytes) :=
  ⟨_, rfl, isHexData_hexText bytes⟩

/-- The printed parameters read as the arguments. -/
theorem readsParams_paramsValue (r : Request) : r.ReadsParams r.paramsValue := by
  have haddr : ∀ addr : Address, ∃ data latest,
      (Json.Value.compactArray (dataValue addr.a.toList)
        [.string ⟨ascii "latest", isBody_latest⟩]).elems = [data, latest] ∧
      ReadsData addr.a.toList data ∧ latest.string? = some (ascii "latest") := fun addr =>
    ⟨_, _, Json.Elems.toList_compact _ _, readsData_dataValue _, rfl⟩
  have hdata : ∀ bytes : List UInt8, ∃ v,
      (Json.Value.compactArray (dataValue bytes) []).elems = [v] ∧ ReadsData bytes v := fun bytes =>
    ⟨_, Json.Elems.toList_compact _ _, readsData_dataValue _⟩
  cases r with
  | getTransactionCount addr => exact haddr addr
  | blockNumber => rfl
  | sendRawTransaction data => exact hdata data
  | getBalance addr => exact haddr addr
  | call sender tx txFlags => exact readsParams_txParams sender tx txFlags
  | estimateGas sender tx => exact readsParams_txParams sender tx 0
  | getTransactionReceipt txHash => exact hdata txHash.h.toList

/-- The text of the printed parameters. -/
theorem text_paramsValue (r : Request) :
    r.paramsValue.text = ascii "[" ++ Piece.textAll r.params ++ ascii "]" := by
  have hopen : ascii "[" = ['['.toUInt8] := by decide
  have hclose : ascii "]" = [']'.toUInt8] := by decide
  have hlatest : ascii ",\"latest\"" =
      ','.toUInt8 :: (Json.Value.string ⟨ascii "latest", isBody_latest⟩).text := by decide
  have haddr : ∀ addr : Address,
      (Json.Value.compactArray (dataValue addr.a.toList)
          [.string ⟨ascii "latest", isBody_latest⟩]).text =
        ascii "[" ++ Piece.textAll (Piece.addr addr ++ [.lit (ascii ",\"latest\"")]) ++
          ascii "]" := by
    intro addr
    have hlit : Piece.textAll [.lit (ascii ",\"latest\"")] = ascii ",\"latest\"" := by
      simp [Piece.textAll, Piece.text]
    rw [Json.Value.text_compactArray, textAll_append, textAll_addr, hlit, hlatest, hopen, hclose]
    simp
  have hdata : ∀ bytes : List UInt8, (Json.Value.compactArray (dataValue bytes) []).text =
      ascii "[" ++ Piece.textAll (Piece.data bytes) ++ ascii "]" := by
    intro bytes
    rw [Json.Value.text_compactArray, textAll_data, hopen, hclose]
    simp
  cases r with
  | getTransactionCount addr => exact haddr addr
  | blockNumber => decide
  | sendRawTransaction data => exact hdata data
  | getBalance addr => exact haddr addr
  | call sender tx txFlags => exact text_txParams sender tx txFlags
  | estimateGas sender tx => exact text_txParams sender tx 0
  | getTransactionReceipt txHash => exact hdata txHash.h.toList

/-- The name of a function stands for itself in a string. -/
theorem isBody_func (r : Request) : Json.isBody (ascii r.func) = true := by
  cases r <;> (rw [func]; decide)

/-- The text is the header, the parameters and the end. -/
theorem text_eq (r : Request) (reqId : UInt32) :
    r.text reqId = jsonrpcHeader reqId r.func ++ Piece.textAll r.params ++ jsonrpcTerminator := by
  simp [text, pieces, Piece.textAll, Piece.text]

/-- **The text of a request asks for it.** -/
theorem asks_text (r : Request) {reqId : UInt32} (hid : reqId.toNat < 2 ^ 31) :
    r.Asks reqId (r.text reqId) := by
  refine ⟨r.paramsValue, ?_, r.readsParams_paramsValue⟩
  rw [text_eq]
  exact isTxRequest_of_params r.isBody_func hid r.text_paramsValue

end Request

/-! ## How long a request is -/

/-- The header is short. -/
theorem length_jsonrpcHeader_le {reqId : UInt32} (hid : reqId.toNat < 2 ^ 31) (func : String) :
    (jsonrpcHeader reqId func).length ≤ (ascii func).length + 55 := by
  have hdigits : (numeral 10 reqId.toNat).length ≤ 10 :=
    length_numeral_le (by norm_num) (by norm_num) (hid.trans (by norm_num))
  have hfixed : (ascii "\x7b\"jsonrpc\":\"2.0\",\"id\":").length +
      ((ascii ",\"method\":\"").length + (ascii "\",\"params\":[").length) = 45 := by decide
  have hnum : fmtInt (sizeToInt reqId.toNat) = numeral 10 reqId.toNat := by
    rw [sizeToInt_of_lt hid, fmtInt, if_neg (by omega), Int.natAbs_natCast]
  simp only [jsonrpcHeader, hnum, List.length_append]
  omega

/-- A printed byte string. -/
theorem length_textAll_data (bytes : List UInt8) :
    (Piece.textAll (Piece.data bytes)).length = 2 * bytes.length + 4 := by
  have hquotes : (ascii "\"0x").length = 3 ∧ (ascii "\"").length = 1 := by decide
  simp [Piece.data, Piece.textAll, Piece.text, length_hexText, hquotes]
  omega

/-- A printed address. -/
theorem length_textAll_addr (a : Address) : (Piece.textAll (Piece.addr a)).length = 44 := by
  have hquotes : (ascii "\"0x").length = 3 ∧ (ascii "\"").length = 1 := by decide
  simp [Piece.addr, Piece.textAll, Piece.text, length_hexText, hquotes]

/-- The text of a request, by its parameters. -/
theorem Request.length_text_le (r : Request) {reqId : UInt32} (hid : reqId.toNat < 2 ^ 31) :
    (r.text reqId).length ≤ (Piece.textAll r.params).length + 82 := by
  have hheader := length_jsonrpcHeader_le hid r.func
  have hend : jsonrpcTerminator.length = 2 := by decide
  have hfunc : (ascii r.func).length ≤ 25 := by
    cases r <;> (rw [func]; decide)
  rw [r.text_eq, List.length_append, List.length_append, hend]
  omega

/-! ## The body -/

/-- What is POSTed. -/
def Web3Ctx.body (web3 : Web3Ctx) : List UInt8 := web3.buf.load 0 web3.bufSize

/-- A text in a buffer of zeros. -/
def padded (size : ℕ) (text : List UInt8) : List UInt8 :=
  text ++ List.replicate (size - text.length) 0

/-- The body holds the printed text and zeros. -/
theorem Web3Ctx.Printed.body_eq {web3 : Web3Ctx} {text : List UInt8} (h : web3.Printed text) :
    web3.body = padded web3.bufSize text := by
  have hsize : web3.bufSize = text.length + (web3.bufSize - text.length) := by
    have := h.lt
    omega
  have hzeros : web3.buf.load text.length (web3.bufSize - text.length) =
      List.replicate (web3.bufSize - text.length) 0 := by
    refine List.eq_replicate_iff.mpr ⟨Region.length_load _ _ _, fun b hb => ?_⟩
    obtain ⟨i, hi, rfl⟩ := List.mem_map.mp hb
    exact h.rest _ (Nat.le_add_right _ _) (by have := List.mem_range.mp hi; omega)
  have hload := web3.buf.load_add 0 text.length (web3.bufSize - text.length)
  rw [← hsize, h.held, Nat.zero_add, hzeros] at hload
  exact hload

/-- A step keeps the request id. -/
theorem Piece.reqId_print (p : Piece) (web3 : Web3Ctx) : (p.print web3).1.reqId = web3.reqId := by
  cases p with
  | lit text =>
      simp only [print, web3Printbuf]
      split <;> rfl
  | hex bytes =>
      simp only [print, web3Bintohex]
      split <;> rfl
  | check n =>
      simp only [print, web3CheckRoom]
      split <;> rfl
  | digits val =>
      simp only [print, web3Tostring256]
      split <;> rfl

/-- So do the steps of a list. -/
theorem Piece.reqId_printAll (ps : List Piece) (web3 : Web3Ctx) :
    (printAll ps web3).1.reqId = web3.reqId := by
  induction ps generalizing web3 with
  | nil => rfl
  | cons p ps ih =>
      have hp := p.reqId_print web3
      rw [printAll, Printer.next]
      dsimp only
      split
      · exact hp
      · exact (ih _).trans hp

namespace Request

/-- A request keeps the size of the buffer and the request id. -/
theorem run_keeps (r : Request) (web3 : Web3Ctx) :
    (r.run web3).1.bufSize = web3.bufSize ∧ (r.run web3).1.reqId = web3.reqId := by
  have hgrows := Piece.printAll_grows (r.pieces web3.reqId) (web3Resetbuf web3)
  have hid := Piece.reqId_printAll (r.pieces web3.reqId) (web3Resetbuf web3)
  rw [← r.run_eq] at hgrows hid
  exact ⟨hgrows.1, hid⟩

/-- The request fits in a buffer of `size` bytes. -/
def Fits (reqId : UInt32) (size : ℕ) (r : Request) : Prop :=
  (r.text reqId).length < size ∧
    match r with
    | sendRawTransaction data => data ≠ [] ∧ data.length < 2 ^ 30
    | call sender tx txFlags => TxRequestFits "eth_call" reqId sender tx txFlags size
    | estimateGas sender tx => TxRequestFits "eth_estimateGas" reqId sender tx 0 size
    | _ => True

/-- Pieces of an address or of nothing go wherever they fit. -/
theorem verdict_easy {r : Request} {reqId : UInt32} {size : ℕ}
    (heasy : ∀ p ∈ r.params, p.Easy) (hfit : (r.text reqId).length < size) :
    Piece.verdict size 0 (r.pieces reqId) = .goes := by
  have hpieces : ∀ p ∈ r.pieces reqId, p.Easy := by
    intro p hp
    rcases List.mem_cons.mp hp with rfl | hp
    · trivial
    · rcases List.mem_append.mp hp with hp | hp
      · exact heasy p hp
      · rw [List.mem_singleton.mp hp]
        trivial
  have h := @Piece.verdict_append_easy _ hpieces [] size 0 (by rw [Nat.zero_add]; exact hfit)
  rwa [List.append_nil] at h

/-- So do those of a byte string that can be counted. -/
theorem verdict_data {r : Request} {reqId : UInt32} {size : ℕ} {bytes : List UInt8}
    (hparams : r.params = Piece.data bytes) (hne : bytes ≠ []) (hshort : bytes.length < 2 ^ 30)
    (hfit : (r.text reqId).length < size) :
    Piece.verdict size 0 (r.pieces reqId) = .goes := by
  have hrest : ∀ p ∈ [Piece.lit (ascii "\"0x"), .hex bytes, .lit (ascii "\""),
      .lit jsonrpcTerminator], p.Easy := by
    intro p hp
    simp only [List.mem_cons, List.not_mem_nil, or_false] at hp
    rcases hp with rfl | rfl | rfl | rfl
    · trivial
    · exact ⟨hne, by omega⟩
    · trivial
    · trivial
  have hlength : (Piece.textAll [Piece.lit (ascii "\"0x"), .hex bytes, .lit (ascii "\""),
      .lit jsonrpcTerminator]).length = 2 * bytes.length + 4 + jsonrpcTerminator.length := by
    rw [← length_textAll_data]
    simp [Piece.data, Piece.textAll, Piece.text, Nat.add_assoc]
  have htext : (r.text reqId).length = (jsonrpcHeader reqId r.func).length +
      (2 * bytes.length + 4 + jsonrpcTerminator.length) := by
    rw [r.text_eq, hparams, List.length_append, List.length_append, length_textAll_data,
      Nat.add_assoc]
  have hheader : (Piece.lit (jsonrpcHeader reqId r.func)).outcome size 0 = .goes :=
    if_pos (by omega)
  have hcheck : (Piece.check bytes.length).outcome size
      (0 + (jsonrpcHeader reqId r.func).length) = .goes := if_pos (by omega)
  have hgoes := @Piece.verdict_append_easy _ hrest [] size
    (0 + (jsonrpcHeader reqId r.func).length + 0) (by rw [hlength]; omega)
  rw [pieces, hparams, Piece.verdict_cons_goes hheader, Piece.data]
  exact (Piece.verdict_cons_goes hcheck _).trans hgoes

/-- **A request that fits is printed.** -/
theorem verdict_of_fits {r : Request} {reqId : UInt32} {size : ℕ} (h : r.Fits reqId size) :
    Piece.verdict size 0 (r.pieces reqId) = .goes ∧ r.HasData := by
  have haddr : ∀ addr : Address, ∀ p ∈ Piece.addr addr ++ [.lit (ascii ",\"latest\"")], p.Easy := by
    intro addr p hp
    rcases List.mem_append.mp hp with hp | hp
    · exact Piece.easy_addr addr p hp
    · rw [List.mem_singleton.mp hp]
      trivial
  cases r with
  | getTransactionCount addr => exact ⟨verdict_easy (haddr addr) h.1, trivial⟩
  | blockNumber => exact ⟨verdict_easy (fun p hp => absurd hp List.not_mem_nil) h.1, trivial⟩
  | sendRawTransaction data => exact ⟨verdict_data rfl h.2.1 h.2.2 h.1, h.2.1⟩
  | getBalance addr => exact ⟨verdict_easy (haddr addr) h.1, trivial⟩
  | call sender tx txFlags => exact ⟨(Piece.verdict_txRequest h.1).1 h.2, trivial⟩
  | estimateGas sender tx => exact ⟨(Piece.verdict_txRequest h.1).1 h.2, trivial⟩
  | getTransactionReceipt txHash =>
      have hlength : txHash.h.toList.length = 32 := by simp
      exact ⟨verdict_data rfl (List.ne_nil_of_length_pos (by omega)) (by omega) h.1, trivial⟩

/-- **The body of a request that fits** is its text and zeros, whatever the buffer held. -/
theorem run_fits {r : Request} {web3 : Web3Ctx} (hsize : web3.bufSize < 2 ^ 64)
    (hfits : r.Fits web3.reqId web3.bufSize) :
    (r.run web3).2 = 0 ∧ (r.run web3).1.body = padded web3.bufSize (r.text web3.reqId) := by
  obtain ⟨hgoes, hdata⟩ := verdict_of_fits hfits
  have hrun := r.run_spec (Nat.zero_lt_of_lt hfits.1) hsize hdata
  rw [hgoes] at hrun
  refine ⟨hrun.1, ?_⟩
  rw [hrun.2.body_eq, (r.run_keeps web3).1]

end Request

end AnylWallet.Eth
