import AnylWallet.Eth.Web3Sizes
import AnylWallet.Helpers.Fromstring
import AnylWallet.Lib.JsonPrint

/-!
# What `eth_call` and `eth_estimateGas` ask for

* `IsTxRequest` says what a request is to read as: a JSON document with the name of the function,
  the request id and the parameters. `ReadsParams` says it of the parameters: the members that are
  not masked, each a string that reads as the field of the transaction, and `latest`.
* `isTxRequest_text`: the request text is such a document.
-/

namespace AnylWallet.Eth

open AnylWallet.Lib AnylWallet.Helpers

/-! ## What a request says -/

/-- The string is `0x` and the digits of the bytes. -/
def IsHexData (bytes s : List UInt8) : Prop :=
  ∃ digits, s = ascii "0x" ++ digits ∧ digits.length = 2 * bytes.length ∧
    (∀ c ∈ digits, IsHexDigit c) ∧ fromHex digits = bytes

/-- The calldata is printed. -/
def Transaction.HasCalldata (tx : Transaction) (txFlags : UInt8) : Prop :=
  tx.data ≠ 0 ∧ tx.dataLen ≠ 0 ∧ txFlags &&& txNoData = 0

instance (tx : Transaction) (txFlags : UInt8) : Decidable (tx.HasCalldata txFlags) :=
  inferInstanceAs (Decidable (_ ∧ _ ∧ _))

/-- A member that may be masked. -/
def shownMember {α : Type} (shown : Prop) [Decidable shown] (m : α) : List α :=
  if shown then [m] else []

/-- The members of the object that the flags do not mask, and what their strings are to read as. -/
def txMembers (sender : Address) (tx : Transaction) (txFlags : UInt8) :
    List (String × (List UInt8 → Prop)) :=
  ("to", IsHexData tx.toAddr.a.toList) ::
    (shownMember (txFlags &&& txNoFrom = 0) ("from", IsHexData sender.a.toList) ++
      shownMember (txFlags &&& txNoGas = 0) ("gas", (IsHexNumber · tx.gasLimit.toNat)) ++
      shownMember (txFlags &&& txNoGasprice = 0) ("gasPrice", (IsHexNumber · tx.gasPrice.toNat)) ++
      shownMember (txFlags &&& txNoValue = 0) ("value", (IsHexNumber · tx.value.toNat)) ++
      shownMember (tx.HasCalldata txFlags) ("data", IsHexData tx.calldata))

/-- A member of an object that is to read as this. -/
def ReadsMember (m : List UInt8 × Json.Value) (spec : String × (List UInt8 → Prop)) : Prop :=
  m.1 = ascii spec.1 ∧ ∃ s, m.2.string? = some s ∧ spec.2 s

/-- The parameters: the object, and the string `latest`. -/
def ReadsParams (sender : Address) (tx : Transaction) (txFlags : UInt8) (params : Json.Value) :
    Prop :=
  ∃ object latest, params.elems = [object, latest] ∧ latest.string? = some (ascii "latest") ∧
    object.isObject = true ∧
    List.Forall₂ ReadsMember object.members (txMembers sender tx txFlags)

/-- The text is a JSON document that asks for the function, with this id and these parameters. -/
def IsTxRequest (func : String) (reqId : UInt32) (params : Json.Value) (text : List UInt8) : Prop :=
  ∃ (doc : Json.Document) (jsonrpc id method : Json.Value), doc.text = text ∧
    doc.value.members = [(ascii "jsonrpc", jsonrpc), (ascii "id", id), (ascii "method", method),
      (ascii "params", params)] ∧
    jsonrpc.string? = some (ascii "2.0") ∧
    id.scalar? = some (numeral 10 reqId.toNat) ∧
    method.string? = some (ascii func)

/-- A request function succeeds and leaves the text in the buffer, with a NUL behind it. -/
def Leaves (r : Web3Ctx × ℤ) (text : List UInt8) : Prop :=
  r.2 = 0 ∧ r.1.buf.load 0 (text.length + 1) = text ++ [0]

/-! ## The pieces of the two requests -/

namespace Piece

/-- The pieces of `eth_call` or `eth_estimateGas`. -/
def txRequest (func : String) (reqId : UInt32) (sender : Address) (tx : Transaction)
    (txFlags : UInt8) : List Piece :=
  lit (jsonrpcHeader reqId func) :: (txparam sender tx txFlags ++ [lit jsonrpcTerminator])

/-- The pieces before the value. -/
def beforeValue (func : String) (reqId : UInt32) (sender : Address) (tx : Transaction)
    (txFlags : UInt8) : List Piece :=
  [lit (jsonrpcHeader reqId func), lit (ascii "\x7b"), lit (ascii "\"to\":")] ++ addr tx.toAddr ++
    member (txFlags &&& txNoFrom = 0) ",\"from\":" (addr sender) ++
    member (txFlags &&& txNoGas = 0) ",\"gas\":" (hexNumber tx.gasLimit.toUInt64) ++
    member (txFlags &&& txNoGasprice = 0) ",\"gasPrice\":" (hexNumber tx.gasPrice.toUInt64)

/-- The piece of the value. -/
def valueMember (tx : Transaction) (txFlags : UInt8) : List Piece :=
  member (txFlags &&& txNoValue = 0) ",\"value\":" (number tx.value)

/-- The texts behind the members. -/
def closing : List (List UInt8) := [ascii "\x7d", ascii ",\"latest\"", jsonrpcTerminator]

/-- The request in three parts: up to the value, the value, and the calldata with the end. -/
theorem txRequest_eq (func : String) (reqId : UInt32) (sender : Address) (tx : Transaction)
    (txFlags : UInt8) :
    txRequest func reqId sender tx txFlags =
      beforeValue func reqId sender tx txFlags ++ (valueMember tx txFlags ++
        (member (tx.HasCalldata txFlags) ",\"data\":" (data tx.calldata) ++ closing.map lit)) := by
  simp only [txRequest, txparam, beforeValue, valueMember, closing, List.append_assoc,
    List.cons_append, List.nil_append, List.map_cons, List.map_nil]
  rfl

end Piece

/-! ## Strings of digits -/

/-- A hex digit stands for itself in a string. -/
theorem isPlain_of_isHexDigit {c : UInt8} (h : IsHexDigit c) : Json.isPlain c = true := by
  have h34 : '"'.toUInt8.toNat = 34 := by decide
  have h92 : '\\'.toUInt8.toNat = 92 := by decide
  have h32 : (32 : UInt8).toNat = 32 := by decide
  simp only [Json.isPlain, Bool.and_eq_true, decide_eq_true_eq, bne_iff_ne, ne_eq,
    UInt8.le_iff_toNat_le, ← UInt8.toNat_inj, h34, h92, h32]
  rw [isHexDigit_iff] at h
  omega

/-- What is printed of a byte string reads as the byte string. -/
theorem isHexData_hexText (bytes : List UInt8) :
    IsHexData bytes (ascii "0x" ++ hexText bytes) :=
  ⟨hexText bytes, rfl, length_hexText bytes, isHexDigit_hexText bytes, fromHex_hexText bytes⟩

/-- A string of hex digits behind `0x`. -/
def hexBody (digits : List UInt8) (h : ∀ c ∈ digits, IsHexDigit c) : Json.Body :=
  .plain (ascii "0x" ++ digits) fun c hc =>
    (List.mem_append.mp hc).elim
      (fun hc => List.all_eq_true.mp (by decide : (ascii "0x").all Json.isPlain = true) c hc)
      fun hc => isPlain_of_isHexDigit (h c hc)

/-- The string of a byte string. -/
def dataValue (bytes : List UInt8) : Json.Value :=
  .string (hexBody (hexText bytes) (isHexDigit_hexText bytes))

/-- The string of a number. -/
def numberValue (n : ℕ) : Json.Value := .string (hexBody (numeral 16 n) (isHexDigit_numeral n))

/-- A digit below 10 may stand in a number. -/
theorem isScalarChar_digit {d : ℕ} (h : d < 10) : Json.isScalarChar (digit d) = true := by
  have hall : ∀ d : Fin 10, Json.isScalarChar (digit d) = true := by decide
  exact hall ⟨d, h⟩

/-- A number in decimal digits. -/
def decimalScalar (n : ℕ) : Json.Scalar where
  text := numeral 10 n
  ne_nil := numeral_ne_nil 10 n
  isScalarChar := by
    intro c hc
    unfold numeral at hc
    split at hc
    · rw [List.mem_singleton.mp hc]
      exact isScalarChar_digit (by norm_num)
    · obtain ⟨d, hd, rfl⟩ := List.mem_map.mp (List.mem_reverse.mp hc)
      exact isScalarChar_digit (Nat.digits_lt_base (by norm_num) hd)

/-! ## The document -/

/-- The members of the object behind `to`. -/
def txMemberValues (sender : Address) (tx : Transaction) (txFlags : UInt8) :
    List (Json.Body × Json.Value) :=
  shownMember (txFlags &&& txNoFrom = 0)
      (⟨ascii "from", by decide⟩, dataValue sender.a.toList) ++
    shownMember (txFlags &&& txNoGas = 0)
      (⟨ascii "gas", by decide⟩, numberValue tx.gasLimit.toNat) ++
    shownMember (txFlags &&& txNoGasprice = 0)
      (⟨ascii "gasPrice", by decide⟩, numberValue tx.gasPrice.toNat) ++
    shownMember (txFlags &&& txNoValue = 0)
      (⟨ascii "value", by decide⟩, numberValue tx.value.toNat) ++
    shownMember (tx.HasCalldata txFlags)
      (⟨ascii "data", by decide⟩, dataValue tx.calldata)

/-- The parameters. -/
def txParams (sender : Address) (tx : Transaction) (txFlags : UInt8) : Json.Value :=
  .compactArray
    (.compactObject (⟨ascii "to", by decide⟩, dataValue tx.toAddr.a.toList)
      (txMemberValues sender tx txFlags))
    [.string ⟨ascii "latest", by decide⟩]

theorem map_shownMember {α β : Type} (f : α → β) (shown : Prop) [Decidable shown] (a : α) :
    (shownMember shown a).map f = shownMember shown (f a) := by
  unfold shownMember
  split <;> rfl

/-- Members that may be masked read as they are to. -/
theorem forall₂_shownMember {α β : Type} {R : α → β → Prop} (shown : Prop) [Decidable shown]
    {a : α} {b : β} (h : R a b) : List.Forall₂ R (shownMember shown a) (shownMember shown b) := by
  unfold shownMember
  split
  · exact .cons h .nil
  · exact .nil

/-- **The parameters read as they are to.** -/
theorem readsParams_txParams (sender : Address) (tx : Transaction) (txFlags : UInt8) :
    ReadsParams sender tx txFlags (txParams sender tx txFlags) := by
  have hgas : tx.gasLimit.toNat < 16 ^ 64 := tx.gasLimit.toNat_lt.trans (by norm_num)
  have hprice : tx.gasPrice.toNat < 16 ^ 64 := tx.gasPrice.toNat_lt.trans (by norm_num)
  have hvalue : tx.value.toNat < 16 ^ 64 := lt_of_lt_of_eq tx.value.toNat_lt (by norm_num)
  refine ⟨_, _, Json.Elems.toList_compact _ _, rfl, rfl, ?_⟩
  rw [show (Json.Value.compactObject _ _).members = _ from Json.Members.toList_compact _ _]
  refine .cons ⟨rfl, _, rfl, isHexData_hexText _⟩ ?_
  simp only [txMemberValues, List.map_append, map_shownMember]
  refine List.rel_append (List.rel_append (List.rel_append (List.rel_append ?_ ?_) ?_) ?_) ?_
  · exact forall₂_shownMember _ ⟨rfl, _, rfl, isHexData_hexText _⟩
  · exact forall₂_shownMember _ ⟨rfl, _, rfl, isHexNumber_numeral (Or.inr rfl) hgas⟩
  · exact forall₂_shownMember _ ⟨rfl, _, rfl, isHexNumber_numeral (Or.inr rfl) hprice⟩
  · exact forall₂_shownMember _ ⟨rfl, _, rfl, isHexNumber_numeral (Or.inr rfl) hvalue⟩
  · exact forall₂_shownMember _ ⟨rfl, _, rfl, isHexData_hexText _⟩

/-- The document of a request. -/
def requestValue (func : Json.Body) (reqId : UInt32) (params : Json.Value) : Json.Value :=
  .compactObject (⟨ascii "jsonrpc", by decide⟩, .string ⟨ascii "2.0", by decide⟩)
    [(⟨ascii "id", by decide⟩, .scalar (decimalScalar reqId.toNat)),
      (⟨ascii "method", by decide⟩, .string func),
      (⟨ascii "params", by decide⟩, params)]

/-- The text of a masked or printed member, behind a comma. -/
theorem textAll_member (shown : Prop) [Decidable shown] (key : String) {val : List Piece}
    (body : Json.Body) {value : Json.Value}
    (hkey : ascii key = ','.toUInt8 :: (Json.quoted body ++ [':'.toUInt8]))
    (hval : Piece.textAll val = value.text) :
    Piece.textAll (Piece.member shown key val) =
      (shownMember shown (body, value)).flatMap fun m => ','.toUInt8 :: Json.memberText m := by
  unfold Piece.member shownMember
  split
  · rw [Piece.textAll, List.flatMap_cons, ← Piece.textAll, hval, Piece.text, hkey]
    simp [Json.memberText]
  · rfl

theorem textAll_append (ps qs : List Piece) :
    Piece.textAll (ps ++ qs) = Piece.textAll ps ++ Piece.textAll qs := List.flatMap_append

/-- A string of hex digits as it is printed. -/
theorem text_hexBody (digits : List UInt8) (h : ∀ c ∈ digits, IsHexDigit c) :
    (Json.Value.string (hexBody digits h)).text =
      ascii "\"0x" ++ digits ++ ascii "\"" := by
  have hopen : ascii "\"0x" = '"'.toUInt8 :: ascii "0x" := by decide
  have hclose : ascii "\"" = ['"'.toUInt8] := by decide
  rw [Json.Value.text, Json.quoted, hopen, hclose]
  rfl

/-- The text of an address. -/
theorem textAll_addr (a : Address) : Piece.textAll (Piece.addr a) = (dataValue a.a.toList).text := by
  rw [dataValue, text_hexBody]
  simp [Piece.addr, Piece.textAll, Piece.text]

/-- The text of a byte string. -/
theorem textAll_data (bytes : List UInt8) :
    Piece.textAll (Piece.data bytes) = (dataValue bytes).text := by
  rw [dataValue, text_hexBody]
  simp [Piece.data, Piece.textAll, Piece.text]

/-- The text of a small number. -/
theorem textAll_hexNumber (n : UInt32) :
    Piece.textAll (Piece.hexNumber n.toUInt64) = (numberValue n.toNat).text := by
  have hmod : n.toUInt64.toNat % 2 ^ 32 = n.toNat := by
    rw [UInt32.toNat_toUInt64]
    exact Nat.mod_eq_of_lt n.toNat_lt
  rw [numberValue, text_hexBody, Piece.hexNumber, Piece.textAll, List.flatMap_cons,
    List.flatMap_nil, List.append_nil, Piece.text, fmtHex, hmod]

/-- The text of a 256-bit number. -/
theorem textAll_number (val : Uint256) :
    Piece.textAll (Piece.number val) = (numberValue val.toNat).text := by
  rw [numberValue, text_hexBody]
  simp [Piece.number, Piece.textAll, Piece.text]

/-- The text of the members behind `to`. -/
theorem textAll_members (sender : Address) (tx : Transaction) (txFlags : UInt8) :
    Piece.textAll (Piece.member (txFlags &&& txNoFrom = 0) ",\"from\":" (Piece.addr sender)) ++
      Piece.textAll (Piece.member (txFlags &&& txNoGas = 0) ",\"gas\":"
        (Piece.hexNumber tx.gasLimit.toUInt64)) ++
      Piece.textAll (Piece.member (txFlags &&& txNoGasprice = 0) ",\"gasPrice\":"
        (Piece.hexNumber tx.gasPrice.toUInt64)) ++
      Piece.textAll (Piece.valueMember tx txFlags) ++
      Piece.textAll (Piece.member (tx.HasCalldata txFlags) ",\"data\":" (Piece.data tx.calldata)) =
    (txMemberValues sender tx txFlags).flatMap fun m => ','.toUInt8 :: Json.memberText m := by
  rw [textAll_member _ ",\"from\":" ⟨ascii "from", by decide⟩ (by decide) (textAll_addr sender),
    textAll_member _ ",\"gas\":" ⟨ascii "gas", by decide⟩ (by decide)
      (textAll_hexNumber tx.gasLimit),
    textAll_member _ ",\"gasPrice\":" ⟨ascii "gasPrice", by decide⟩ (by decide)
      (textAll_hexNumber tx.gasPrice),
    Piece.valueMember,
    textAll_member _ ",\"value\":" ⟨ascii "value", by decide⟩ (by decide) (textAll_number tx.value),
    textAll_member _ ",\"data\":" ⟨ascii "data", by decide⟩ (by decide) (textAll_data tx.calldata)]
  simp only [txMemberValues, List.flatMap_append]

/-- The text of the parameters. -/
theorem text_txParams (sender : Address) (tx : Transaction) (txFlags : UInt8) :
    (txParams sender tx txFlags).text =
      ascii "[" ++ Piece.textAll (Piece.txparam sender tx txFlags) ++ ascii "]" := by
  have hopen : ascii "[" = ['['.toUInt8] := by decide
  have hclose : ascii "]" = [']'.toUInt8] := by decide
  have hto : ascii "\x7b" ++ ascii "\"to\":" =
      '{'.toUInt8 :: (Json.quoted ⟨ascii "to", by decide⟩ ++ [':'.toUInt8]) := by decide
  have hlatest : ascii "\x7d" ++ ascii ",\"latest\"" =
      '}'.toUInt8 :: ','.toUInt8 :: Json.quoted ⟨ascii "latest", by decide⟩ := by decide
  have htext : Piece.textAll (Piece.txparam sender tx txFlags) =
      (ascii "\x7b" ++ ascii "\"to\":") ++ (dataValue tx.toAddr.a.toList).text ++
        ((txMemberValues sender tx txFlags).flatMap fun m => ','.toUInt8 :: Json.memberText m) ++
        (ascii "\x7d" ++ ascii ",\"latest\"") := by
    rw [← textAll_members, ← textAll_addr]
    simp only [Piece.txparam, textAll_append, List.append_assoc]
    rfl
  rw [txParams, Json.Value.text_compactArray, Json.Value.text_compactObject, htext, hto, hlatest,
    hopen, hclose, Json.memberText]
  simp only [List.flatMap_cons, List.flatMap_nil, Json.Value.text, List.append_assoc,
    List.cons_append, List.nil_append, List.append_nil]

/-- **The text of a request document**, by the text between the brackets of its parameters. -/
theorem text_requestValue_params {func : String} (hfunc : Json.isBody (ascii func) = true)
    {reqId : UInt32} (hid : reqId.toNat < 2 ^ 31) {params : Json.Value} {inner : List UInt8}
    (hparams : params.text = ascii "[" ++ inner ++ ascii "]") :
    (requestValue ⟨ascii func, hfunc⟩ reqId params).text =
      jsonrpcHeader reqId func ++ inner ++ jsonrpcTerminator := by
  have hhead : ascii "\x7b\"jsonrpc\":\"2.0\",\"id\":" =
      '{'.toUInt8 :: (Json.memberText (⟨ascii "jsonrpc", by decide⟩,
          .string ⟨ascii "2.0", by decide⟩) ++
        ','.toUInt8 :: (Json.quoted ⟨ascii "id", by decide⟩ ++ [':'.toUInt8])) := by decide
  have hmethod : ascii ",\"method\":\"" = ','.toUInt8 ::
      (Json.quoted ⟨ascii "method", by decide⟩ ++ [':'.toUInt8, '"'.toUInt8]) := by decide
  have hopen : ascii "\",\"params\":[" = '"'.toUInt8 :: ','.toUInt8 ::
      (Json.quoted ⟨ascii "params", by decide⟩ ++ ':'.toUInt8 :: ascii "[") := by decide
  have hend : jsonrpcTerminator = ascii "]" ++ ['}'.toUInt8] := by decide
  have hnum : fmtInt (sizeToInt reqId.toNat) = numeral 10 reqId.toNat := by
    rw [sizeToInt_of_lt hid, fmtInt, if_neg (by omega), Int.natAbs_natCast]
  rw [requestValue, Json.Value.text_compactObject, jsonrpcHeader, hhead, hmethod, hopen, hend, hnum]
  simp only [List.flatMap_cons, List.flatMap_nil, Json.memberText, Json.Value.text, hparams,
    decimalScalar, Json.quoted, List.append_assoc, List.cons_append, List.nil_append,
    List.append_nil]

/-- **A request document is a request.** -/
theorem isTxRequest_of_params {func : String} (hfunc : Json.isBody (ascii func) = true)
    {reqId : UInt32} (hid : reqId.toNat < 2 ^ 31) {params : Json.Value} {inner : List UInt8}
    (hparams : params.text = ascii "[" ++ inner ++ ascii "]") :
    IsTxRequest func reqId params (jsonrpcHeader reqId func ++ inner ++ jsonrpcTerminator) := by
  refine ⟨⟨.none, requestValue ⟨ascii func, hfunc⟩ reqId params, .none⟩, _, _, _, ?_,
    Json.Members.toList_compact _ _, rfl, rfl, rfl⟩
  rw [Json.Document.text, text_requestValue_params hfunc hid hparams]
  simp [Json.Blank.none]

/-- **The request text is a request.** -/
theorem isTxRequest_text {func : String} (hfunc : Json.isBody (ascii func) = true)
    {reqId : UInt32} (hid : reqId.toNat < 2 ^ 31) (sender : Address) (tx : Transaction)
    (txFlags : UInt8) :
    IsTxRequest func reqId (txParams sender tx txFlags)
      (Piece.textAll (Piece.txRequest func reqId sender tx txFlags)) := by
  have htext : Piece.textAll (Piece.txRequest func reqId sender tx txFlags) =
      jsonrpcHeader reqId func ++ Piece.textAll (Piece.txparam sender tx txFlags) ++
        jsonrpcTerminator := by
    simp [Piece.txRequest, Piece.textAll, Piece.text]
  rw [htext]
  exact isTxRequest_of_params hfunc hid (text_txParams sender tx txFlags)

end AnylWallet.Eth
