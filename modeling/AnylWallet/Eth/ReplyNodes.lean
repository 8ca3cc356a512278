import AnylWallet.Eth.Web3Jsonp
import AnylWallet.Helpers.DocumentBuf

/-!
# The decoders of replies on documents

What the loops over the tokens do when the buffer holds a document, in terms of its nodes.

* `uint10Of`, `int10Of`, `hexOf`: the numbers that are read from a node.
* `headReads` and `hexReads`: the numbers that the two loops of `jsonrpc_decode_hexencoded` store, in
  their order. The loops do not look where a node stands: a string `id` or `result` at any depth
  counts, as a key or as a value, and the node behind it is read and passed over.
* `headStores`: what the first loop stores of the error objects it comes to, and where it terminates
  their messages.
* `jsonrpcDecodeHexencoded_nodes`: what the decoder returns.
-/

namespace AnylWallet.Eth

open AnylWallet.Lib AnylWallet.Lib.Json AnylWallet.Helpers

/-! ## Numbers of nodes -/

/-- The node has a text that is read as it is. -/
def isText (n : Node) : Bool := n.kind = .string ∨ n.kind = .scalar

/-- The number that a conversion reads, if it ends with the node. -/
def readOf {α : Type} (convert : List UInt8 → Converted α) (n : Node) : Option α :=
  if isText n = true ∧ (convert n.text).erange = false ∧ (convert n.text).size = n.text.length then
    some (convert n.text).value
  else none

/-- The number that `__json_uint10` stores, if it returns 0. -/
def uint10Of (n : Node) : Option UInt64 := readOf (strtoul 10) n

/-- The number that `__json_int10` stores, if it returns 0. -/
def int10Of (n : Node) : Option ℤ := readOf (strtol 10) n

/-- The number that `__json_uint256_hex` stores, if it returns 0. -/
def hexOf (asserts : Bool) (n : Node) : Option Uint256 :=
  if isText n ∧ n.text.length < 68 then
    match fromstring256 asserts n.text clear256 with
    | .ok (v, ret) => if ret < 0 then none else some v
    | .error _ => none
  else none

variable {doc : Document} {buf : JsonBuf} {n : Node}

/-- The head of a text is all of it. -/
theorem head_of_isText (h : isText n = true) : n.head = n.text := by
  rw [isText, decide_eq_true_eq] at h
  unfold Node.head
  rcases h with h | h
  · rw [h]
  · rw [h]

/-- The head of a bracketed node is its bracket. -/
theorem exists_bracket (hformed : n.Formed) (h : isText n = false) :
    ∃ c, (c = '['.toUInt8 ∨ c = '{'.toUInt8) ∧ n.head = [c] ∧ n.text.head? = some c := by
  rw [isText, decide_eq_false_iff_not, not_or] at h
  have hhead : ∀ c : UInt8, n.text.head? = some c → n.text.take 1 = [c] := by
    intro c hc
    obtain ⟨rest, hrest⟩ := List.head?_eq_some_iff.mp hc
    rw [hrest]
    rfl
  unfold Node.Formed at hformed
  unfold Node.head
  cases hkind : n.kind with
  | string => exact absurd hkind h.1
  | scalar => exact absurd hkind h.2
  | array =>
      rw [hkind] at hformed
      exact ⟨_, Or.inl rfl, hhead _ hformed, hformed⟩
  | object =>
      rw [hkind] at hformed
      exact ⟨_, Or.inr rfl, hhead _ hformed, hformed⟩

/-- A character of a number or a word is no white space. -/
theorem isspace_of_isScalarChar {c : UInt8} (h : isScalarChar c = true) : isspace c = false := by
  simp only [isScalarChar, isspace, decide_eq_true_eq, decide_eq_false_iff_not,
    UInt8.le_iff_toNat_le, ← UInt8.toNat_inj, UInt8.reduceToNat] at h ⊢
  omega

/-- What may stand behind a text continues no number. -/
theorem endsNumber_of_ends {c : UInt8} (h : c = 0 ∨ ends c = true) : EndsNumber c := by
  simp only [ends, Json.isBlank, decide_eq_true_eq] at h
  rcases h with rfl | (rfl | rfl | rfl | rfl) | rfl | rfl | rfl
  all_goals decide

/-- **What is read of a text**: it, and behind it a character that continues no number. -/
theorem text_of_isText (h : Holds doc buf) (hlen : doc.text.length < 2 ^ 31) (hn : n ∈ doc.nodes)
    (htext : isText n = true) :
    ∃ tail, buf.text (Jsmntok.ofNode n).start = n.text ++ tail ∧
      (∀ c ∈ tail.head?, EndsNumber c) ∧
      ((∃ c ∈ n.text, isspace c = false) ∨ ∀ c ∈ tail.head?, isspace c = false) := by
  obtain ⟨tail, hread, hstring, hscalar⟩ := h.text_ofNode hlen hn
  rw [head_of_isText htext] at hread
  refine ⟨tail, hread, ?_⟩
  have hformed := doc.value.nodes_formed _ n hn
  rw [isText, decide_eq_true_eq] at htext
  rcases htext with hkind | hkind
  · have hends : ∀ c : UInt8, c = 0 ∨ c = '"'.toUInt8 → EndsNumber c ∧ isspace c = false := by
      rintro c (rfl | rfl)
      · decide
      · decide
    exact ⟨fun c hc => (hends c (hstring hkind c hc)).1,
      Or.inr fun c hc => (hends c (hstring hkind c hc)).2⟩
  · rw [Node.Formed, hkind] at hformed
    obtain ⟨hne, hchars⟩ := hformed
    obtain ⟨c, rest, hrest⟩ := List.exists_cons_of_ne_nil hne
    have hc : c ∈ n.text := by
      rw [hrest]
      exact List.mem_cons_self
    exact ⟨fun c hc => endsNumber_of_ends (hscalar hkind c hc),
      Or.inl ⟨c, hc, isspace_of_isScalarChar (hchars c hc)⟩⟩

/-- What is read of a bracketed node starts with its bracket. -/
theorem text_of_bracket (h : Holds doc buf) (hlen : doc.text.length < 2 ^ 31) (hn : n ∈ doc.nodes)
    (htext : isText n = false) :
    ∃ c rest, buf.text (Jsmntok.ofNode n).start = c :: rest ∧ EndsNumber c ∧ isspace c = false ∧
      ¬ IsHexDigit c ∧ c ≠ 0 ∧ 0 < n.text.length := by
  obtain ⟨tail, hread, -⟩ := h.text_ofNode hlen hn
  obtain ⟨c, hc, hhead, htext⟩ := exists_bracket (doc.value.nodes_formed _ n hn) htext
  refine ⟨c, tail, by rw [hread, hhead]; rfl, ?_⟩
  have hpos : 0 < n.text.length := by
    obtain ⟨rest, hrest⟩ := List.head?_eq_some_iff.mp htext
    rw [hrest]
    exact Nat.succ_pos _
  rcases hc with rfl | rfl
  · exact ⟨by decide, by decide, by decide, by decide, hpos⟩
  · exact ⟨by decide, by decide, by decide, by decide, hpos⟩

/-- Whether a conversion ends with its node. -/
theorem fits_ofNode {α : Type} (r : Converted α) (hlen : doc.text.length < 2 ^ 31)
    (hn : n ∈ doc.nodes) :
    Converted.fits r (.ofNode n) = decide (r.erange = false ∧ r.size = n.text.length) := by
  unfold Converted.fits
  rw [ofNode_eq hlen hn, decide_eq_decide, Bool.not_eq_true, Node.stop]
  simp only [Nat.cast_add]
  constructor
  · rintro ⟨herange, hsize⟩
    exact ⟨herange, by omega⟩
  · rintro ⟨herange, hsize⟩
    exact ⟨herange, by omega⟩

/-- A conversion on a node, if it reads on behind no text and nothing of a bracketed node. -/
theorem readOf_cases {α : Type} (convert : List UInt8 → Converted α)
    (happend : ∀ t tail, (∀ c ∈ tail.head?, EndsNumber c) →
      ((∃ c ∈ t, isspace c = false) ∨ ∀ c ∈ tail.head?, isspace c = false) →
        convert (t ++ tail) = convert t)
    (hcons : ∀ c rest, EndsNumber c → isspace c = false → (convert (c :: rest)).size = 0)
    (h : Holds doc buf) (hlen : doc.text.length < 2 ^ 31) (hn : n ∈ doc.nodes)
    {r : Converted α} (hr : r = convert (buf.text (Jsmntok.ofNode n).start)) :
    (∃ v, readOf convert n = some v ∧ (r.value, Converted.fits r (.ofNode n)) = (v, true)) ∨
      (readOf convert n = none ∧ ∃ v, (r.value, Converted.fits r (.ofNode n)) = (v, false)) := by
  subst hr
  rw [fits_ofNode _ hlen hn, readOf]
  cases htext : isText n with
  | true =>
      obtain ⟨tail, hread, hends, hspace⟩ := text_of_isText h hlen hn htext
      rw [hread, happend _ _ hends hspace]
      by_cases hfits : (convert n.text).erange = false ∧ (convert n.text).size = n.text.length
      · rw [if_pos ⟨rfl, hfits⟩, decide_eq_true hfits]
        exact Or.inl ⟨_, rfl, rfl⟩
      · rw [if_neg fun h => hfits h.2, decide_eq_false hfits]
        exact Or.inr ⟨rfl, _, rfl⟩
  | false =>
      obtain ⟨c, rest, hread, hends, hspace, -, -, hpos⟩ := text_of_bracket h hlen hn htext
      have hsize := hcons c rest hends hspace
      refine Or.inr ⟨if_neg fun h => Bool.false_ne_true h.1, (convert (c :: rest)).value, ?_⟩
      rw [hread, hsize, decide_eq_false fun hfits => absurd hfits.2 (Nat.ne_of_lt hpos)]

/-- **`__json_uint10` on a node.** -/
theorem jsonUint10_ofNode (h : Holds doc buf) (hlen : doc.text.length < 2 ^ 31)
    (hn : n ∈ doc.nodes) :
    (∃ v, uint10Of n = some v ∧ jsonUint10 buf (.ofNode n) = (v, true)) ∨
      (uint10Of n = none ∧ ∃ v, jsonUint10 buf (.ofNode n) = (v, false)) := by
  have hbase : 10 ≤ 16 := by decide
  have happend : ∀ t tail, (∀ c ∈ tail.head?, EndsNumber c) →
      ((∃ c ∈ t, isspace c = false) ∨ ∀ c ∈ tail.head?, isspace c = false) →
        strtoul 10 (t ++ tail) = strtoul 10 t := by
    intro t tail hends hspace
    exact strtoul_append hbase hends hspace
  have hcons : ∀ c rest, EndsNumber c → isspace c = false → (strtoul 10 (c :: rest)).size = 0 := by
    intro c rest hends hspace
    rw [strtoul_size, numberSize_cons hbase hends hspace]
  obtain ⟨r, hr⟩ : ∃ r, r = strtoul 10 (buf.text (Jsmntok.ofNode n).start) := ⟨_, rfl⟩
  have hread : jsonUint10 buf (.ofNode n) = (r.value, Converted.fits r (.ofNode n)) := by
    rw [hr]
    rfl
  rw [hread]
  exact readOf_cases (strtoul 10) happend hcons h hlen hn hr

/-- `strtol` on a node. -/
theorem readOf_strtol {base : ℕ} (hbase : base ≤ 16) (h : Holds doc buf)
    (hlen : doc.text.length < 2 ^ 31) (hn : n ∈ doc.nodes) {r : Converted ℤ}
    (hr : r = strtol base (buf.text (Jsmntok.ofNode n).start)) :
    (∃ z, readOf (strtol base) n = some z ∧
        (r.value, Converted.fits r (.ofNode n)) = (z, true)) ∨
      (readOf (strtol base) n = none ∧
        ∃ z, (r.value, Converted.fits r (.ofNode n)) = (z, false)) := by
  have happend : ∀ t tail, (∀ c ∈ tail.head?, EndsNumber c) →
      ((∃ c ∈ t, isspace c = false) ∨ ∀ c ∈ tail.head?, isspace c = false) →
        strtol base (t ++ tail) = strtol base t := by
    intro t tail hends hspace
    exact strtol_append hbase hends hspace
  have hcons : ∀ c rest, EndsNumber c → isspace c = false →
      (strtol base (c :: rest)).size = 0 := by
    intro c rest hends hspace
    rw [strtol_size, numberSize_cons hbase hends hspace]
  exact readOf_cases (strtol base) happend hcons h hlen hn hr

/-- **`__json_int10` on a node.** -/
theorem jsonInt10_ofNode (h : Holds doc buf) (hlen : doc.text.length < 2 ^ 31)
    (hn : n ∈ doc.nodes) :
    (∃ v, int10Of n = some v ∧ jsonInt10 buf (.ofNode n) = (v, true)) ∨
      (int10Of n = none ∧ ∃ v, jsonInt10 buf (.ofNode n) = (v, false)) := by
  obtain ⟨r, hr⟩ : ∃ r, r = strtol 10 (buf.text (Jsmntok.ofNode n).start) := ⟨_, rfl⟩
  have hread : jsonInt10 buf (.ofNode n) = (r.value, Converted.fits r (.ofNode n)) := by
    rw [hr]
    rfl
  rw [hread]
  exact readOf_strtol (by decide) h hlen hn hr

/-- A body or a number or a word holds no `NUL`. -/
theorem ne_zero_of_isText (hformed : n.Formed) (htext : isText n = true) : ∀ c ∈ n.text, c ≠ 0 := by
  rw [isText, decide_eq_true_eq] at htext
  unfold Node.Formed at hformed
  rcases htext with hkind | hkind
  · rw [hkind] at hformed
    exact ne_zero_of_isBody hformed
  · rw [hkind] at hformed
    exact Scalar.ne_zero ⟨n.text, hformed.1, hformed.2⟩

/-- **`__json_uint256_hex` on a node**: it stores the number of a text and returns 0, or it refuses the
node or ends in a fault. -/
theorem jsonUint256Hex_ofNode (asserts : Bool) (h : Holds doc buf) (hlen : doc.text.length < 2 ^ 31)
    (hn : n ∈ doc.nodes) (out : Uint256) :
    (∃ v, hexOf asserts n = some v ∧ jsonUint256Hex asserts buf (.ofNode n) out = .ok (v, 0)) ∨
      (hexOf asserts n = none ∧ ∀ v ret, jsonUint256Hex asserts buf (.ofNode n) out = .ok (v, ret) →
        ret < 0) := by
  have hsize : (Jsmntok.ofNode n).stop - (Jsmntok.ofNode n).start = (n.text.length : ℤ) := by
    rw [ofNode_eq hlen hn, Node.stop]
    simp only [Nat.cast_add]
    omega
  unfold jsonUint256Hex hexOf
  rw [hsize]
  by_cases hshort : n.text.length < 68
  swap
  · rw [if_neg fun h => hshort h.2, if_neg fun h => hshort (Int.ofNat_lt.mp h.2)]
    refine Or.inr ⟨rfl, fun v ret hend => ?_⟩
    cases hend
  have hfits : (0 : ℤ) ≤ n.text.length ∧ (n.text.length : ℤ) < 68 := by omega
  simp only [if_pos hfits]
  cases htext : isText n with
  | true =>
      obtain ⟨tail, hread, -⟩ := text_of_isText h hlen hn htext
      have htmp : ((buf.text (Jsmntok.ofNode n).start).take (n.text.length : ℤ).toNat).takeWhile
          (· ≠ 0) = n.text := by
        rw [hread, Int.toNat_natCast, List.take_left]
        exact takeWhile_ne_zero (ne_zero_of_isText (doc.value.nodes_formed _ n hn) htext)
      simp only [htmp, if_pos (And.intro trivial hshort)]
      rcases fromstring256_cases asserts n.text with ⟨v, hv⟩ | hrefuse
      · rw [hv, hv]
        exact Or.inl ⟨v, rfl, rfl⟩
      · obtain ⟨v, ret, hv, hret⟩ := hrefuse clear256
        obtain ⟨v', ret', hv', hret'⟩ := hrefuse out
        rw [hv, hv']
        refine Or.inr ⟨if_pos hret, fun w r hend => ?_⟩
        cases hend
        exact hret'
  | false =>
      obtain ⟨c, rest, hread, -, -, hbad, hne, hpos⟩ := text_of_bracket h hlen hn htext
      simp only [Bool.false_eq_true, false_and, if_false]
      refine Or.inr ⟨trivial, fun v ret hend => ?_⟩
      obtain ⟨k, hk⟩ : ∃ k, n.text.length = k + 1 := ⟨n.text.length - 1, by omega⟩
      have htmp : ((buf.text (Jsmntok.ofNode n).start).take (n.text.length : ℤ).toNat).takeWhile
          (· ≠ 0) = c :: (rest.take k).takeWhile (· ≠ 0) := by
        rw [hread, Int.toNat_natCast, hk, List.take_succ_cons]
        exact List.takeWhile_cons_of_pos (decide_eq_true hne)
      rw [htmp] at hend
      obtain ⟨v', ret', hv', hret'⟩ := fromstring256_of_bad_head asserts hbad _ out
      rw [hv'] at hend
      cases hend
      exact hret'

/-! ## The error object -/

/-- The loop of `__jsonrpc_error_obj` accepts the nodes, where it has this number of rounds left: its
keys are strings, and what stands behind `code` is a number. -/
def errorFine : ℕ → List Node → Bool
  | 0, _ => true
  | _ + 1, [] => false
  | left + 1, n :: rest =>
      if n.kind ≠ .string then false
      else if n.text = ascii "code" then
        match rest with
        | [] => false
        | v :: rest => (int10Of v).isSome && errorFine (left - 1) rest
      else if n.text = ascii "message" then
        match rest with
        | [] => false
        | _ :: rest => errorFine (left - 1) rest
      else errorFine left rest

theorem errorFine_cons (left : ℕ) (n : Node) (rest : List Node) :
    errorFine (left + 1) (n :: rest) =
      if n.kind ≠ .string then false
      else if n.text = ascii "code" then
        match rest with
        | [] => false
        | v :: rest => (int10Of v).isSome && errorFine (left - 1) rest
      else if n.text = ascii "message" then
        match rest with
        | [] => false
        | _ :: rest => errorFine (left - 1) rest
      else errorFine left rest := by
  rw [errorFine.eq_def]

/-- `__jsonrpc_error_obj` accepts what starts with these nodes. -/
def errorObjFine : List Node → Bool
  | [] => false
  | n :: rest => n.kind = .object && errorFine (2 * n.size) rest

/-- What the loop of `__jsonrpc_error_obj` stores. -/
inductive ErrorStore where
  /-- A number in `code`. -/
  | code (code : ℤ)
  /-- The position of a node in `message`, and a `NUL` behind its text. -/
  | message (value : Node)
deriving DecidableEq

/-- The error behind a store. -/
def ErrorStore.onError (e : JsonrpcError) : ErrorStore → JsonrpcError
  | .code z => { e with code := z }
  | .message value => { e with message := some value.start }

/-- The buffer behind a store. -/
def ErrorStore.onBuf (buf : JsonBuf) : ErrorStore → JsonBuf
  | .code _ => buf
  | .message value => { buf with bytes := buf.bytes.set value.stop 0 }

/-- The error behind stores. -/
def errorAfter (stores : List ErrorStore) (e : JsonrpcError) : JsonrpcError :=
  stores.foldl ErrorStore.onError e

/-- The buffer behind stores. -/
def bufAfter (stores : List ErrorStore) (buf : JsonBuf) : JsonBuf :=
  stores.foldl ErrorStore.onBuf buf

/-- What the loop of `__jsonrpc_error_obj` stores if it accepts the nodes, in its order. -/
def errorStores : ℕ → List Node → List ErrorStore
  | 0, _ => []
  | _ + 1, [] => []
  | left + 1, n :: rest =>
      if n.kind ≠ .string then []
      else if n.text = ascii "code" then
        match rest with
        | [] => []
        | v :: rest =>
            match int10Of v with
            | none => []
            | some code => .code code :: errorStores (left - 1) rest
      else if n.text = ascii "message" then
        match rest with
        | [] => []
        | v :: rest => .message v :: errorStores (left - 1) rest
      else errorStores left rest

theorem errorStores_cons (left : ℕ) (n : Node) (rest : List Node) :
    errorStores (left + 1) (n :: rest) =
      if n.kind ≠ .string then []
      else if n.text = ascii "code" then
        match rest with
        | [] => []
        | v :: rest =>
            match int10Of v with
            | none => []
            | some code => .code code :: errorStores (left - 1) rest
      else if n.text = ascii "message" then
        match rest with
        | [] => []
        | v :: rest => .message v :: errorStores (left - 1) rest
      else errorStores left rest := by
  rw [errorStores.eq_def]

/-- What `__jsonrpc_error_obj` stores, if it accepts what starts with these nodes. -/
def errorObjStores : List Node → List ErrorStore
  | [] => []
  | n :: rest => errorStores (2 * n.size) rest

/-- A key that the loop takes. -/
def isErrorKey (n : Node) : Bool := n.isString (ascii "code") || n.isString (ascii "message")

/-- How the loop over the error object ends: where it accepts the nodes, with its stores made and the
document still in the buffer. -/
def ErrorWalked (doc : Document) (fine : Bool) (stores : List ErrorStore) (buf : JsonBuf)
    (out : JsonrpcError)
    (r : Except Fault (Walked (ℕ × JsonBuf × JsonrpcError) (JsonBuf × JsonrpcError × ℤ))) : Prop :=
  if fine then
    Holds doc (bufAfter stores buf) ∧
      (r = .ok (.stopped (bufAfter stores buf, errorAfter stores out, 0)) ∨
        r = .ok (.through (0, bufAfter stores buf, errorAfter stores out)))
  else
    (∀ a, r = .ok (.stopped a) → a.2.2 < 0) ∧ ∀ s, r = .ok (.through s) → s.1 ≠ 0

/-- The token of a node is a string if the node is. -/
theorem type_ofNode_eq_string_iff {n : Node} :
    (Jsmntok.ofNode n).type = .string ↔ n.kind = .string := by
  rw [Jsmntok.ofNode]
  cases n.kind with
  | string | scalar | array | object => simp [JsmnType.ofKind]

section visit

variable {tok : Jsmntok} {toks : List Jsmntok} {left : ℕ} {out : JsonrpcError}

/-- A token that is no key. -/
theorem jsonrpcErrorVisit_other (htype : tok.type ≠ .string) :
    jsonrpcErrorVisit tok toks (left + 1, buf, out) = .ok (.stop (buf, out, -1)) := by
  unfold jsonrpcErrorVisit
  dsimp only
  rw [if_neg (Nat.succ_ne_zero left), if_pos htype]

/-- A key that is passed. -/
theorem jsonrpcErrorVisit_pass (htype : tok.type = .string)
    (hcode : jsoneq buf tok (ascii "code") = false)
    (hmessage : jsoneq buf tok (ascii "message") = false) :
    jsonrpcErrorVisit tok toks (left + 1, buf, out) = .ok (.pass (left, buf, out)) := by
  unfold jsonrpcErrorVisit
  dsimp only
  rw [if_neg (Nat.succ_ne_zero left), if_neg (not_not.mpr htype), hcode, hmessage,
    if_neg Bool.false_ne_true, if_neg Bool.false_ne_true, Nat.add_sub_cancel]

/-- A key without a value. -/
theorem jsonrpcErrorVisit_nil (htype : tok.type = .string)
    (hkey : jsoneq buf tok (ascii "code") = true ∨ jsoneq buf tok (ascii "message") = true) :
    jsonrpcErrorVisit tok [] (left + 1, buf, out) = .error .staleToken := by
  unfold jsonrpcErrorVisit
  dsimp only
  rw [if_neg (Nat.succ_ne_zero left), if_neg (not_not.mpr htype)]
  split
  · rfl
  · rename_i hcode
    rw [if_pos (hkey.resolve_left hcode)]

/-- The key `code`. -/
theorem jsonrpcErrorVisit_code {value : Jsmntok} {code : ℤ} {valid : Bool}
    (htype : tok.type = .string) (hcode : jsoneq buf tok (ascii "code") = true)
    (hread : jsonInt10 buf value = (code, valid)) :
    jsonrpcErrorVisit tok (value :: toks) (left + 1, buf, out) =
      if valid = true then .ok (.take (left + 1 - 2, buf, { out with code := code }))
      else .ok (.stop (buf, { out with code := code }, -1)) := by
  unfold jsonrpcErrorVisit
  dsimp only
  rw [if_neg (Nat.succ_ne_zero left), if_neg (not_not.mpr htype), if_pos hcode, hread]

/-- The key `message`. -/
theorem jsonrpcErrorVisit_message {value : Jsmntok} {buf' : JsonBuf} (htype : tok.type = .string)
    (hcode : jsoneq buf tok (ascii "code") = false)
    (hmessage : jsoneq buf tok (ascii "message") = true)
    (hbuf : buf.terminate value.stop = .ok buf') :
    jsonrpcErrorVisit tok (value :: toks) (left + 1, buf, out) =
      .ok (.take (left + 1 - 2, buf', { out with message := some value.start })) := by
  unfold jsonrpcErrorVisit
  dsimp only
  rw [if_neg (Nat.succ_ne_zero left), if_neg (not_not.mpr htype), hcode,
    if_neg Bool.false_ne_true, if_pos hmessage, hbuf]

end visit

/-- No round is left. -/
theorem errorWalked_zero (h : Holds doc buf) (toks : List Jsmntok) (out : JsonrpcError) :
    ErrorWalked doc true [] buf out (walk jsonrpcErrorVisit toks (0, buf, out)) := by
  refine ⟨h, ?_⟩
  cases toks with
  | nil => exact Or.inr rfl
  | cons tok toks => exact Or.inl (walk_stop rfl)

/-- A round that ends the loop refuses the error object. -/
theorem errorWalked_stop {tok : Jsmntok} {toks : List Jsmntok} {s : ℕ × JsonBuf × JsonrpcError}
    {a : JsonBuf × JsonrpcError × ℤ} (hvisit : jsonrpcErrorVisit tok toks s = .ok (.stop a))
    (hret : a.2.2 < 0) {stores : List ErrorStore} {out : JsonrpcError} :
    ErrorWalked doc false stores buf out (walk jsonrpcErrorVisit (tok :: toks) s) := by
  rw [walk_stop hvisit]
  refine ⟨fun a' ha => ?_, fun s hs => ?_⟩
  · cases ha
    exact hret
  · cases hs

/-- A round in which there is no token behind a key. -/
theorem errorWalked_error {tok : Jsmntok} {toks : List Jsmntok} {s : ℕ × JsonBuf × JsonrpcError}
    (fault : Fault) (hvisit : jsonrpcErrorVisit tok toks s = .error fault)
    {stores : List ErrorStore} {out : JsonrpcError} :
    ErrorWalked doc false stores buf out (walk jsonrpcErrorVisit (tok :: toks) s) := by
  rw [walk_error hvisit]
  refine ⟨fun a ha => ?_, fun s hs => ?_⟩
  · cases ha
  · cases hs

/-- A round that makes a store. -/
theorem errorWalked_cons {fine : Bool} {stores : List ErrorStore} {out : JsonrpcError}
    {r : Except Fault (Walked (ℕ × JsonBuf × JsonrpcError) (JsonBuf × JsonrpcError × ℤ))}
    (store : ErrorStore)
    (h : ErrorWalked doc fine stores (store.onBuf buf) (store.onError out) r) :
    ErrorWalked doc fine (store :: stores) buf out r := h

section round

variable {n v : Node} {rest : List Node} {left : ℕ} {out : JsonrpcError}

/-- A node that is no key ends the loop, or is passed over. -/
theorem errorWalked_pass (hlen : doc.text.length < 2 ^ 31) (hn : n ∈ doc.nodes)
    (hkey : isErrorKey n = false) (h : Holds doc buf)
    (hrest : ErrorWalked doc (errorFine left rest) (errorStores left rest) buf out
      (walk jsonrpcErrorVisit (rest.map Jsmntok.ofNode) (left, buf, out))) :
    ErrorWalked doc (errorFine (left + 1) (n :: rest)) (errorStores (left + 1) (n :: rest)) buf out
      (walk jsonrpcErrorVisit ((n :: rest).map Jsmntok.ofNode) (left + 1, buf, out)) := by
  rw [isErrorKey, Bool.or_eq_false_iff] at hkey
  rw [errorFine_cons, errorStores_cons, List.map_cons]
  by_cases hkind : n.kind = .string
  · have htype := type_ofNode_eq_string_iff.mpr hkind
    have hcode : n.text ≠ ascii "code" := fun heq =>
      absurd hkey.1 (by simp [Node.isString, hkind, heq])
    have hmessage : n.text ≠ ascii "message" := fun heq =>
      absurd hkey.2 (by simp [Node.isString, hkind, heq])
    have hpass := @jsonrpcErrorVisit_pass buf _ (rest.map .ofNode) left out htype
      ((h.jsoneq_eq hlen hn _).trans hkey.1) ((h.jsoneq_eq hlen hn _).trans hkey.2)
    rwa [if_neg (not_not.mpr hkind), if_neg (not_not.mpr hkind), if_neg hcode,
      if_neg hcode, if_neg hmessage, if_neg hmessage, walk_pass hpass]
  · rw [if_pos hkind]
    exact errorWalked_stop
      (jsonrpcErrorVisit_other fun htype => hkind (type_ofNode_eq_string_iff.mp htype))
      neg_one_lt_zero

/-- A key is a string. -/
theorem kind_of_isErrorKey (hkey : isErrorKey n = true) : n.kind = .string := by
  rw [isErrorKey, Bool.or_eq_true, Node.isString, Node.isString, decide_eq_true_eq,
    decide_eq_true_eq] at hkey
  exact hkey.elim And.left And.left

/-- A key behind which nothing stands. -/
theorem errorWalked_last (hlen : doc.text.length < 2 ^ 31) (hn : n ∈ doc.nodes)
    (hkey : isErrorKey n = true) (h : Holds doc buf) :
    ErrorWalked doc (errorFine (left + 1) [n]) (errorStores (left + 1) [n]) buf out
      (walk jsonrpcErrorVisit ([n].map Jsmntok.ofNode) (left + 1, buf, out)) := by
  have hkind := kind_of_isErrorKey hkey
  have hstale : jsoneq buf (.ofNode n) (ascii "code") = true ∨
      jsoneq buf (.ofNode n) (ascii "message") = true := by
    rw [h.jsoneq_eq hlen hn, h.jsoneq_eq hlen hn]
    exact Bool.or_eq_true_iff.mp hkey
  have hfalse : ∀ stores, ErrorWalked doc false stores buf out
      (walk jsonrpcErrorVisit ([n].map Jsmntok.ofNode) (left + 1, buf, out)) :=
    fun _ => errorWalked_error _
      (jsonrpcErrorVisit_nil (type_ofNode_eq_string_iff.mpr hkind) hstale)
  rw [errorFine_cons, errorStores_cons, if_neg (not_not.mpr hkind), if_neg (not_not.mpr hkind)]
  split
  · exact hfalse _
  · split
    · exact hfalse _
    · rename_i hcode hmessage
      simp [isErrorKey, Node.isString, hcode, hmessage] at hkey

/-- The key `code`: its number is stored, or ends the loop. -/
theorem errorWalked_code (hlen : doc.text.length < 2 ^ 31) (hn : n ∈ doc.nodes)
    (hkey : n.isString (ascii "code") = true) (hv : v ∈ doc.nodes) (h : Holds doc buf)
    (hrest : ∀ out, ErrorWalked doc (errorFine (left - 1) rest) (errorStores (left - 1) rest) buf out
      (walk jsonrpcErrorVisit (rest.map Jsmntok.ofNode) (left - 1, buf, out))) :
    ErrorWalked doc (errorFine (left + 1) (n :: v :: rest)) (errorStores (left + 1) (n :: v :: rest))
      buf out (walk jsonrpcErrorVisit ((n :: v :: rest).map Jsmntok.ofNode) (left + 1, buf, out)) := by
  obtain ⟨hkind, heq⟩ := of_decide_eq_true hkey
  have htype := type_ofNode_eq_string_iff.mpr hkind
  have hcode := (h.jsoneq_eq hlen hn (ascii "code")).trans hkey
  rw [errorFine_cons, errorStores_cons, if_neg (not_not.mpr hkind), if_neg (not_not.mpr hkind),
    if_pos heq, if_pos heq, List.map_cons, List.map_cons]
  rcases jsonInt10_ofNode h hlen hv with ⟨code, hsome, hread⟩ | ⟨hnone, code, hread⟩
  · have htake := @jsonrpcErrorVisit_code buf _ (rest.map .ofNode) left out _ _ _ htype hcode hread
    rw [if_pos rfl] at htake
    rw [walk_take htake]
    simp only [hsome, Option.isSome_some, Bool.true_and]
    exact errorWalked_cons (.code code) (hrest _)
  · have hstop := @jsonrpcErrorVisit_code buf _ (rest.map .ofNode) left out _ _ _ htype hcode hread
    rw [if_neg Bool.false_ne_true] at hstop
    simp only [hnone, Option.isSome_none, Bool.false_and]
    exact errorWalked_stop hstop neg_one_lt_zero

/-- The key `message`: the position behind it is stored, and a `NUL`. -/
theorem errorWalked_message (hobject : doc.value.isObject = true)
    (hlen : doc.text.length < 2 ^ 31) (hn : n ∈ doc.nodes)
    (hcode : n.isString (ascii "code") = false) (hkey : n.isString (ascii "message") = true)
    (hv : v ∈ doc.nodes.tail) (h : Holds doc buf)
    (hrest : ∀ {buf} out, Holds doc buf →
      ErrorWalked doc (errorFine (left - 1) rest) (errorStores (left - 1) rest) buf out
        (walk jsonrpcErrorVisit (rest.map Jsmntok.ofNode) (left - 1, buf, out))) :
    ErrorWalked doc (errorFine (left + 1) (n :: v :: rest)) (errorStores (left + 1) (n :: v :: rest))
      buf out (walk jsonrpcErrorVisit ((n :: v :: rest).map Jsmntok.ofNode) (left + 1, buf, out)) := by
  obtain ⟨hkind, heq⟩ := of_decide_eq_true hkey
  have hne : n.text ≠ ascii "code" := fun heq => of_decide_eq_false hcode ⟨hkind, heq⟩
  have hv' := List.mem_of_mem_tail hv
  have hbuf : buf.terminate v.stop = .ok (ErrorStore.onBuf buf (.message v)) := by
    refine if_pos ⟨Int.natCast_nonneg _, ?_⟩
    rw [h.length]
    exact Int.ofNat_lt.mpr (stop_lt_of_mem_tail hobject hv)
  have hstop : (Jsmntok.ofNode v).stop = (v.stop : ℤ) := by rw [ofNode_eq hlen hv']
  have hstart : (Jsmntok.ofNode v).start = (v.start : ℤ) := by rw [ofNode_eq hlen hv']
  have htake := @jsonrpcErrorVisit_message buf _ (rest.map .ofNode) left out _ _
    (type_ofNode_eq_string_iff.mpr hkind) ((h.jsoneq_eq hlen hn _).trans hcode)
    ((h.jsoneq_eq hlen hn _).trans hkey) (hstop ▸ hbuf)
  rw [hstart] at htake
  rw [errorFine_cons, errorStores_cons, if_neg (not_not.mpr hkind), if_neg (not_not.mpr hkind),
    if_neg hne, if_neg hne, if_pos heq, if_pos heq, List.map_cons, List.map_cons, walk_take htake]
  exact errorWalked_cons (.message v) (hrest _ (h.terminate hv' hbuf))

end round

/-- **The loop over the error object** on nodes. -/
theorem errorWalked (hobject : doc.value.isObject = true) (hlen : doc.text.length < 2 ^ 31)
    (l : List Node) {left : ℕ} {buf : JsonBuf} {out : JsonrpcError} (hl : l ⊆ doc.nodes.tail)
    (h : Holds doc buf) :
    ErrorWalked doc (errorFine left l) (errorStores left l) buf out
      (walk jsonrpcErrorVisit (l.map Jsmntok.ofNode) (left, buf, out)) := by
  induction l using takes_induction isErrorKey generalizing left buf out with
  | nil =>
      cases left with
      | zero => exact errorWalked_zero h [] out
      | succ left =>
          refine ⟨fun a ha => ?_, fun s hs => ?_⟩
          · cases ha
          · cases hs
            exact Nat.succ_ne_zero left
  | pass n rest hkey ih =>
      have hn : n ∈ doc.nodes := List.mem_of_mem_tail (hl List.mem_cons_self)
      cases left with
      | zero => exact errorWalked_zero h _ out
      | succ left =>
          exact errorWalked_pass hlen hn hkey h (ih (fun m hm => hl (List.mem_cons_of_mem _ hm)) h)
  | take n rest hkey ih =>
      have hn : n ∈ doc.nodes := List.mem_of_mem_tail (hl List.mem_cons_self)
      cases left with
      | zero => exact errorWalked_zero h _ out
      | succ left =>
          cases rest with
          | nil => exact errorWalked_last hlen hn hkey h
          | cons v rest =>
              have hv : v ∈ doc.nodes.tail := hl (List.mem_cons_of_mem _ List.mem_cons_self)
              have hrest : rest ⊆ doc.nodes.tail := fun m hm =>
                hl (List.mem_cons_of_mem _ (List.mem_cons_of_mem _ hm))
              cases hcode : n.isString (ascii "code") with
              | true =>
                  exact errorWalked_code hlen hn hcode (List.mem_of_mem_tail hv) h
                    fun _ => ih hrest h
              | false =>
                  rw [isErrorKey, hcode, Bool.false_or] at hkey
                  exact errorWalked_message hobject hlen hn hcode hkey hv h fun _ => ih hrest

/-- **`__jsonrpc_error_obj`** on nodes. -/
theorem jsonrpcErrorObj_nodes (hobject : doc.value.isObject = true)
    (hlen : doc.text.length < 2 ^ 31) {l : List Node} {buf : JsonBuf} {out : JsonrpcError}
    (hl : l ⊆ doc.nodes.tail) (h : Holds doc buf) :
    (errorObjFine l = true ∧ Holds doc (bufAfter (errorObjStores l) buf) ∧
        jsonrpcErrorObj buf (l.map Jsmntok.ofNode) out =
          .ok (bufAfter (errorObjStores l) buf, errorAfter (errorObjStores l) out, 0)) ∨
      (errorObjFine l = false ∧ ∀ r, jsonrpcErrorObj buf (l.map Jsmntok.ofNode) out = .ok r →
        r.2.2 < 0) := by
  cases l with
  | nil =>
      refine Or.inr ⟨rfl, fun r hr => ?_⟩
      cases hr
  | cons n rest =>
      unfold jsonrpcErrorObj errorObjFine
      rw [List.map_cons]
      dsimp only
      by_cases hkind : n.kind = .object
      · have htype : ¬ (Jsmntok.ofNode n).type ≠ .object := by
          simp [Jsmntok.ofNode, hkind, JsmnType.ofKind]
        have hwalked : ErrorWalked doc (errorFine (2 * n.size) rest)
            (errorStores (2 * n.size) rest) buf out
            (walk jsonrpcErrorVisit (rest.map Jsmntok.ofNode) (2 * n.size, buf, out)) :=
          errorWalked hobject hlen rest (fun m hm => hl (List.mem_cons_of_mem _ hm)) h
        rw [if_neg htype, decide_eq_true hkind, Bool.true_and]
        have hsize : (Jsmntok.ofNode n).size = n.size := rfl
        rw [hsize]
        unfold ErrorWalked at hwalked
        cases hfine : errorFine (2 * n.size) rest with
        | true =>
            rw [hfine, if_pos rfl] at hwalked
            obtain ⟨hholds, hend | hend⟩ := hwalked
            · exact Or.inl ⟨rfl, hholds, by rw [hend]; rfl⟩
            · exact Or.inl ⟨rfl, hholds, by rw [hend]; rfl⟩
        | false =>
            rw [hfine, if_neg Bool.false_ne_true] at hwalked
            refine Or.inr ⟨rfl, fun r hr => ?_⟩
            split at hr
            · cases hr
            · rename_i hend
              cases hr
              exact hwalked.1 _ hend
            · rename_i left buf' out' hend
              rw [if_neg (hwalked.2 _ hend)] at hr
              cases hr
      · have htype : (Jsmntok.ofNode n).type ≠ .object := by
          rw [Jsmntok.ofNode]
          cases hk : n.kind with
          | object => exact absurd hk hkind
          | string | scalar | array => simp [JsmnType.ofKind]
        rw [if_pos htype, decide_eq_false hkind, Bool.false_and]
        refine Or.inr ⟨rfl, fun r hr => ?_⟩
        cases hr
        exact neg_one_lt_zero

/-! ## The members `error` and `id` -/

/-- A key that the first loop takes. -/
def isHeadKey (n : Node) : Bool := n.isString (ascii "error") || n.isString (ascii "id")

/-- What the first loop stores in `id` at a key with these nodes behind it, if it goes on. -/
def headRead (q : Node × List Node) : Option (List UInt64) :=
  if q.1.isString (ascii "error") then if errorObjFine q.2 then some [] else none
  else (q.2.head?.bind uint10Of).map fun id => [id]

/-- The numbers that the first loop stores in `id`, if it comes to its end. -/
def headReads (l : List Node) : Option (List UInt64) :=
  ((takes isHeadKey l).mapM headRead).map List.flatten

theorem headReads_pass {rest : List Node} (h : isHeadKey n = false) :
    headReads (n :: rest) = headReads rest := by
  rw [headReads, takes_cons_neg h, headReads]

theorem headReads_take {rest : List Node} (h : isHeadKey n = true) :
    headReads (n :: rest) =
      (headRead (n, rest)).bind fun ids => (headReads rest.tail).map (ids ++ ·) := by
  rw [headReads, takes_cons_pos h, List.mapM_cons, headReads]
  cases headRead (n, rest) with
  | none => rfl
  | some ids =>
      cases (takes isHeadKey rest.tail).mapM headRead with
      | none => rfl
      | some idss => rfl

/-- What the first loop stores in `error` at a key with these nodes behind it, if it goes on. -/
def headStore (q : Node × List Node) : List ErrorStore :=
  if q.1.isString (ascii "error") then errorObjStores q.2 else []

/-- What the first loop stores in `error`, if it comes to its end. -/
def headStores (l : List Node) : List ErrorStore := (takes isHeadKey l).flatMap headStore

theorem headStores_pass {rest : List Node} (h : isHeadKey n = false) :
    headStores (n :: rest) = headStores rest := by
  rw [headStores, takes_cons_neg h, headStores]

theorem headStores_take {rest : List Node} (h : isHeadKey n = true) :
    headStores (n :: rest) = headStore (n, rest) ++ headStores rest.tail := by
  rw [headStores, takes_cons_pos h, List.flatMap_cons, headStores]

/-- The key `id`. -/
theorem jsonrpcResultVisit_id {tok value : Jsmntok} {toks : List Jsmntok} {out : JsonrpcResult}
    {id : UInt64} {valid : Bool} (herror : jsoneq buf tok (ascii "error") = false)
    (hid : jsoneq buf tok (ascii "id") = true) (hread : jsonUint10 buf value = (id, valid)) :
    jsonrpcResultVisit tok (value :: toks) (buf, out) =
      if valid = true then .ok (.take (buf, { out with id := id }))
      else .ok (.stop (buf, { out with id := id }, -1)) := by
  unfold jsonrpcResultVisit
  dsimp only
  rw [herror, if_neg Bool.false_ne_true, if_pos hid, hread]

/-- How the first loop ends: behind the last node with the last number and with what it has stored,
or with an error. -/
def HeadWalked (doc : Document) (ids : Option (List UInt64)) (stores : List ErrorStore)
    (buf : JsonBuf) (out : JsonrpcResult)
    (r : Except Fault (Walked (JsonBuf × JsonrpcResult) (JsonBuf × JsonrpcResult × ℤ))) : Prop :=
  match ids with
  | some ids => Holds doc (bufAfter stores buf) ∧
      r = .ok (.through (bufAfter stores buf,
        ⟨ids.getLast?.getD out.id, errorAfter stores out.error⟩))
  | none => ∀ w, r = .ok w → ∃ a, w = .stopped a ∧ a.2.2 < 0

/-- A visit that ends the first loop. -/
theorem headWalked_stop {tok : Jsmntok} {toks : List Jsmntok} {s : JsonBuf × JsonrpcResult}
    {stores : List ErrorStore} {out : JsonrpcResult}
    (hvisit : ∀ v, jsonrpcResultVisit tok toks s = .ok v → ∃ a, v = .stop a ∧ a.2.2 < 0) :
    HeadWalked doc none stores buf out (walk jsonrpcResultVisit (tok :: toks) s) := by
  intro w hw
  cases hv : jsonrpcResultVisit tok toks s with
  | error fault =>
      rw [walk_error hv] at hw
      cases hw
  | ok v =>
      obtain ⟨a, rfl, ha⟩ := hvisit v hv
      rw [walk_stop hv] at hw
      cases hw
      exact ⟨a, rfl, ha⟩

/-- The last number of two lists, one behind the other. -/
theorem getLast?_append_getD {α : Type} (l l' : List α) (a : α) :
    (l ++ l').getLast?.getD a = l'.getLast?.getD (l.getLast?.getD a) := by
  rw [List.getLast?_append]
  cases l'.getLast? with
  | none => rfl
  | some b => rfl

/-- What is stored in two lots. -/
theorem bufAfter_append (stores stores' : List ErrorStore) (buf : JsonBuf) :
    bufAfter (stores ++ stores') buf = bufAfter stores' (bufAfter stores buf) :=
  List.foldl_append

theorem errorAfter_append (stores stores' : List ErrorStore) (e : JsonrpcError) :
    errorAfter (stores ++ stores') e = errorAfter stores' (errorAfter stores e) :=
  List.foldl_append

/-- A visit that takes a node and stores these numbers. -/
theorem headWalked_take {tok : Jsmntok} {toks : List Jsmntok} {out : JsonrpcResult}
    {ids : List UInt64} {rest : Option (List UInt64)} {stores stores' : List ErrorStore}
    (hvisit : jsonrpcResultVisit tok toks (buf, out) =
      .ok (.take (bufAfter stores buf, ⟨ids.getLast?.getD out.id, errorAfter stores out.error⟩)))
    (h : HeadWalked doc rest stores' (bufAfter stores buf)
      ⟨ids.getLast?.getD out.id, errorAfter stores out.error⟩
      (walk jsonrpcResultVisit toks.tail
        (bufAfter stores buf, ⟨ids.getLast?.getD out.id, errorAfter stores out.error⟩))) :
    HeadWalked doc (rest.map (ids ++ ·)) (stores ++ stores') buf out
      (walk jsonrpcResultVisit (tok :: toks) (buf, out)) := by
  rw [walk_take hvisit]
  cases rest with
  | none => exact h
  | some rest =>
      obtain ⟨hholds, hend⟩ := h
      rw [← bufAfter_append] at hholds hend
      refine ⟨hholds, ?_⟩
      rw [hend, getLast?_append_getD, errorAfter_append]

section round

variable {n : Node} {rest : List Node} {out : JsonrpcResult}

/-- The key `error`: its object is read. -/
theorem headWalked_error (hobject : doc.value.isObject = true) (hlen : doc.text.length < 2 ^ 31)
    (hn : n ∈ doc.nodes) (hkey : n.isString (ascii "error") = true) (hrest : rest ⊆ doc.nodes.tail)
    (h : Holds doc buf)
    (htail : ∀ {buf} out, Holds doc buf → HeadWalked doc (headReads rest.tail) (headStores rest.tail)
      buf out (walk jsonrpcResultVisit (rest.tail.map Jsmntok.ofNode) (buf, out))) :
    HeadWalked doc (headReads (n :: rest)) (headStores (n :: rest)) buf out
      (walk jsonrpcResultVisit ((n :: rest).map Jsmntok.ofNode) (buf, out)) := by
  have hhead : isHeadKey n = true := by rw [isHeadKey, hkey, Bool.true_or]
  have herror := (h.jsoneq_eq hlen hn (ascii "error")).trans hkey
  rw [headReads_take hhead, headStores_take hhead, List.map_cons, headRead, headStore, if_pos hkey,
    if_pos hkey]
  rcases @jsonrpcErrorObj_nodes doc hobject hlen rest buf out.error hrest h with
    ⟨hfine, hholds, hobj⟩ | ⟨hfine, hobj⟩
  · rw [hfine, if_pos rfl, Option.bind_some]
    have htake : jsonrpcResultVisit (.ofNode n) (rest.map Jsmntok.ofNode) (buf, out) =
        .ok (.take (bufAfter (errorObjStores rest) buf,
          ⟨([] : List UInt64).getLast?.getD out.id,
            errorAfter (errorObjStores rest) out.error⟩)) := by
      unfold jsonrpcResultVisit
      dsimp only
      rw [if_pos herror, hobj]
      rfl
    refine headWalked_take htake ?_
    rw [← List.map_tail]
    exact htail _ hholds
  · rw [hfine, if_neg Bool.false_ne_true, Option.bind_none]
    refine headWalked_stop fun v hv => ?_
    unfold jsonrpcResultVisit at hv
    dsimp only at hv
    rw [if_pos herror] at hv
    split at hv
    · cases hv
    · rename_i hobj'
      have hneg := hobj _ hobj'
      rw [if_pos hneg] at hv
      obtain rfl := Except.ok.inj hv
      exact ⟨_, rfl, hneg⟩

/-- The key `id`: the number behind it is stored, or ends the loop. -/
theorem headWalked_id (hlen : doc.text.length < 2 ^ 31) (hn : n ∈ doc.nodes)
    (hnone : n.isString (ascii "error") = false) (hkey : n.isString (ascii "id") = true)
    (hrest : rest ⊆ doc.nodes.tail) (h : Holds doc buf)
    (htail : ∀ out, HeadWalked doc (headReads rest.tail) (headStores rest.tail) buf out
      (walk jsonrpcResultVisit (rest.tail.map Jsmntok.ofNode) (buf, out))) :
    HeadWalked doc (headReads (n :: rest)) (headStores (n :: rest)) buf out
      (walk jsonrpcResultVisit ((n :: rest).map Jsmntok.ofNode) (buf, out)) := by
  have hhead : isHeadKey n = true := by rw [isHeadKey, hkey, Bool.or_true]
  have herror := (h.jsoneq_eq hlen hn (ascii "error")).trans hnone
  have hid := (h.jsoneq_eq hlen hn (ascii "id")).trans hkey
  rw [headReads_take hhead, headStores_take hhead, List.map_cons, headRead, headStore, hnone,
    if_neg Bool.false_ne_true, if_neg Bool.false_ne_true]
  cases rest with
  | nil =>
      refine headWalked_stop fun v hv => ?_
      unfold jsonrpcResultVisit at hv
      dsimp only at hv
      rw [herror, if_neg Bool.false_ne_true, if_pos hid] at hv
      cases hv
  | cons v rest =>
      have hv : v ∈ doc.nodes := List.mem_of_mem_tail (hrest List.mem_cons_self)
      rw [List.head?_cons, Option.bind_some]
      rcases jsonUint10_ofNode h hlen hv with ⟨id, hsome, hread⟩ | ⟨hnone, id, hread⟩
      · rw [hsome, Option.map_some, Option.bind_some]
        have htake := @jsonrpcResultVisit_id buf _ _ (rest.map .ofNode) out _ _ herror hid hread
        rw [if_pos rfl] at htake
        exact @headWalked_take doc buf _ _ out [id] _ [] _ htake (htail _)
      · rw [hnone, Option.map_none, Option.bind_none]
        refine headWalked_stop fun w hw => ?_
        rw [List.map_cons, jsonrpcResultVisit_id herror hid hread,
          if_neg Bool.false_ne_true] at hw
        cases hw
        exact ⟨_, rfl, neg_one_lt_zero⟩

end round

/-- **The first loop** on nodes. -/
theorem headWalked (hobject : doc.value.isObject = true) (hlen : doc.text.length < 2 ^ 31)
    (l : List Node) {buf : JsonBuf} {out : JsonrpcResult} (hl : l ⊆ doc.nodes.tail)
    (h : Holds doc buf) :
    HeadWalked doc (headReads l) (headStores l) buf out
      (walk jsonrpcResultVisit (l.map Jsmntok.ofNode) (buf, out)) := by
  induction l using takes_induction isHeadKey generalizing buf out with
  | nil => exact ⟨h, rfl⟩
  | pass n rest hkey ih =>
      have hn : n ∈ doc.nodes := List.mem_of_mem_tail (hl List.mem_cons_self)
      have hpass : jsonrpcResultVisit (.ofNode n) (rest.map Jsmntok.ofNode) (buf, out) =
          .ok (.pass (buf, out)) := by
        rw [isHeadKey, Bool.or_eq_false_iff] at hkey
        unfold jsonrpcResultVisit
        dsimp only
        rw [h.jsoneq_eq hlen hn, h.jsoneq_eq hlen hn, hkey.1, hkey.2, if_neg Bool.false_ne_true,
          if_neg Bool.false_ne_true]
      rw [headReads_pass hkey, headStores_pass hkey, List.map_cons, walk_pass hpass]
      exact ih (fun m hm => hl (List.mem_cons_of_mem _ hm)) h
  | take n rest hkey ih =>
      have hn : n ∈ doc.nodes := List.mem_of_mem_tail (hl List.mem_cons_self)
      have hrest : rest ⊆ doc.nodes.tail := fun m hm => hl (List.mem_cons_of_mem _ hm)
      have htail : rest.tail ⊆ doc.nodes.tail := fun m hm => hrest (List.mem_of_mem_tail hm)
      cases herror : n.isString (ascii "error") with
      | true => exact headWalked_error hobject hlen hn herror hrest h fun _ => ih htail
      | false =>
          rw [isHeadKey, herror, Bool.false_or] at hkey
          exact headWalked_id hlen hn herror hkey hrest h fun _ => ih htail h

/-! ## The member `result` -/

/-- The numbers that the last loop stores at `out`, if it comes to its end. -/
def hexReads (asserts : Bool) (l : List Node) : Option (List Uint256) :=
  (takes (Node.isString (ascii "result")) l).mapM fun q => q.2.head?.bind (hexOf asserts)

theorem hexReads_pass {asserts : Bool} {rest : List Node}
    (h : n.isString (ascii "result") = false) :
    hexReads asserts (n :: rest) = hexReads asserts rest := by
  rw [hexReads, takes_cons_neg h, hexReads]

theorem hexReads_take {asserts : Bool} {rest : List Node}
    (h : n.isString (ascii "result") = true) :
    hexReads asserts (n :: rest) =
      (rest.head?.bind (hexOf asserts)).bind fun v => (hexReads asserts rest.tail).map (v :: ·) := by
  rw [hexReads, takes_cons_pos h, List.mapM_cons, hexReads]
  simp only [Option.bind_eq_bind, Option.map_eq_bind]
  rfl

section visit

variable {tok value : Jsmntok} {toks : List Jsmntok} {asserts : Bool} {out : Uint256}

/-- A key without a value. -/
theorem hexencodedVisit_nil (hkey : jsoneq buf tok (ascii "result") = true) :
    hexencodedVisit asserts buf tok [] out = .error .staleToken := by
  unfold hexencodedVisit
  rw [if_pos hkey]

/-- The value of a key is stored. -/
theorem hexencodedVisit_take {v : Uint256} (hkey : jsoneq buf tok (ascii "result") = true)
    (hread : jsonUint256Hex asserts buf value out = .ok (v, 0)) :
    hexencodedVisit asserts buf tok (value :: toks) out = .ok (.take v) := by
  unfold hexencodedVisit
  rw [if_pos hkey]
  dsimp only
  rw [hread]
  dsimp only
  rw [if_neg (lt_irrefl 0)]

/-- The value of a key is refused. -/
theorem hexencodedVisit_stop {visit : Visit Uint256 (Uint256 × ℤ)}
    (hkey : jsoneq buf tok (ascii "result") = true)
    (hread : ∀ v ret, jsonUint256Hex asserts buf value out = .ok (v, ret) → ret < 0)
    (h : hexencodedVisit asserts buf tok (value :: toks) out = .ok visit) :
    ∃ a, visit = .stop a ∧ a.2 < 0 := by
  unfold hexencodedVisit at h
  rw [if_pos hkey] at h
  dsimp only at h
  split at h
  · cases h
  · rename_i v ret hend
    rw [if_pos (hread v ret hend)] at h
    cases h
    exact ⟨_, rfl, hread v ret hend⟩

end visit

/-- How the last loop ends: behind the last node with the last number, or with an error. -/
def HexWalked (vals : Option (List Uint256)) (out : Uint256)
    (r : Except Fault (Walked Uint256 (Uint256 × ℤ))) : Prop :=
  match vals with
  | some vals => r = .ok (.through (vals.getLast?.getD out))
  | none => ∀ w, r = .ok w → ∃ a, w = .stopped a ∧ a.2 < 0

/-- **The last loop** on nodes. -/
theorem hexWalked (asserts : Bool) (hlen : doc.text.length < 2 ^ 31) (h : Holds doc buf)
    (l : List Node) {out : Uint256} (hl : l ⊆ doc.nodes.tail) :
    HexWalked (hexReads asserts l) out
      (walk (hexencodedVisit asserts buf) (l.map Jsmntok.ofNode) out) := by
  induction l using takes_induction (Node.isString (ascii "result")) generalizing out with
  | nil => rfl
  | pass n rest hkey ih =>
      have hn : n ∈ doc.nodes := List.mem_of_mem_tail (hl List.mem_cons_self)
      have hpass : hexencodedVisit asserts buf (.ofNode n) (rest.map Jsmntok.ofNode) out =
          .ok (.pass out) := by
        unfold hexencodedVisit
        rw [h.jsoneq_eq hlen hn, hkey, if_neg Bool.false_ne_true]
      rw [hexReads_pass hkey, List.map_cons, walk_pass hpass]
      exact ih fun m hm => hl (List.mem_cons_of_mem _ hm)
  | take n rest hkey ih =>
      have hn : n ∈ doc.nodes := List.mem_of_mem_tail (hl List.mem_cons_self)
      have hrest : rest ⊆ doc.nodes.tail := fun m hm => hl (List.mem_cons_of_mem _ hm)
      have htok := (h.jsoneq_eq hlen hn (ascii "result")).trans hkey
      rw [hexReads_take hkey, List.map_cons]
      cases rest with
      | nil =>
          intro w hw
          rw [List.map_nil, walk_error (hexencodedVisit_nil htok)] at hw
          cases hw
      | cons v rest =>
          have hv : v ∈ doc.nodes := List.mem_of_mem_tail (hrest List.mem_cons_self)
          rw [List.head?_cons, Option.bind_some, List.tail_cons, List.map_cons]
          rcases jsonUint256Hex_ofNode asserts h hlen hv out with
            ⟨val, hsome, hread⟩ | ⟨hnone, hread⟩
          · have hwalked := @ih val fun m hm => hrest (List.mem_cons_of_mem _ hm)
            rw [List.tail_cons] at hwalked
            rw [hsome, Option.bind_some, walk_take (hexencodedVisit_take htok hread), List.tail_cons]
            cases hvals : hexReads asserts rest with
            | none =>
                rw [hvals] at hwalked
                exact hwalked
            | some vals =>
                rw [hvals] at hwalked
                exact hwalked.trans (by rw [List.getLast?_cons, Option.getD_some])
          · rw [hnone, Option.bind_none]
            intro w hw
            cases hvisit : hexencodedVisit asserts buf (.ofNode n)
                (.ofNode v :: rest.map Jsmntok.ofNode) out with
            | error fault =>
                rw [walk_error hvisit] at hw
                cases hw
            | ok visit =>
                obtain ⟨a, rfl, ha⟩ := hexencodedVisit_stop htok hread hvisit
                rw [walk_stop hvisit] at hw
                cases hw
                exact ⟨a, rfl, ha⟩

/-! ## The decoder -/

/-- The first pass over the reply, on the nodes of an object. -/
theorem jsonrpcResult_nodes (asserts : Bool) (hobject : doc.value.isObject = true)
    (hlen : doc.text.length < 2 ^ 31) (h : Holds doc buf) (result : JsonrpcResult) :
    match headReads doc.nodes.tail with
    | some ids => Holds doc (bufAfter (headStores doc.nodes.tail) buf) ∧
        jsonrpcResult asserts buf (doc.nodes.map .ofNode) result =
          .ok (bufAfter (headStores doc.nodes.tail) buf,
            ⟨ids.getLast?.getD result.id, errorAfter (headStores doc.nodes.tail) result.error⟩, 0)
    | none => ∀ r, jsonrpcResult asserts buf (doc.nodes.map .ofNode) result = .ok r → r.2.2 < 0 := by
  have hwalked := @headWalked doc hobject hlen doc.nodes.tail buf result (fun m hm => hm) h
  obtain ⟨top, rest, hnodes, hkind⟩ : ∃ top rest, doc.nodes = top :: rest ∧ top.kind = .object := by
    obtain ⟨before, value, after⟩ := doc
    match value, hobject with
    | .emptyObject blank, _ => exact ⟨_, _, rfl, rfl⟩
    | .object blank members, _ => exact ⟨_, _, rfl, rfl⟩
  have htype : ¬ (Jsmntok.ofNode top).type ≠ .object := by
    simp [Jsmntok.ofNode, hkind, JsmnType.ofKind]
  have hcheck : check asserts ((Jsmntok.ofNode top :: rest.map .ofNode).length > 0) = .ok () :=
    check_of asserts (Nat.succ_pos _)
  unfold jsonrpcResult
  rw [hnodes, List.map_cons, hcheck]
  rw [hnodes] at hwalked
  dsimp only [List.tail_cons] at hwalked ⊢
  rw [if_neg htype]
  cases hids : headReads rest with
  | none =>
      rw [hids] at hwalked
      intro r hr
      split at hr
      · cases hr
      · rename_i hend
        obtain ⟨a, ha, hneg⟩ := hwalked _ hend
        cases ha
        cases hr
        exact hneg
      · rename_i hend
        obtain ⟨a, ha, -⟩ := hwalked _ hend
        cases ha
  | some ids =>
      rw [hids] at hwalked
      obtain ⟨hholds, hend⟩ := hwalked
      exact ⟨hholds, by rw [hend]⟩

/-- **`jsonrpc_decode_hexencoded`** on a document that is an object: it returns 0 with the last numbers
that its loops read, or it refuses the reply, or it ends in a fault. -/
theorem jsonrpcDecodeHexencoded_nodes (asserts : Bool) (hobject : doc.value.isObject = true)
    (hlen : doc.text.length < 2 ^ 31) (hroom : doc.nodes.length ≤ 64)
    (hbuf : buf.bytes = doc.text) (result : JsonrpcResult) (out : Uint256) :
    (∃ ids vals, headReads doc.nodes.tail = some ids ∧ hexReads asserts doc.nodes.tail = some vals ∧
        jsonrpcDecodeHexencoded asserts buf result out =
          .ok (bufAfter (headStores doc.nodes.tail) buf,
            ⟨ids.getLast?.getD result.id, errorAfter (headStores doc.nodes.tail) result.error⟩,
            vals.getLast?.getD out, 0)) ∨
      ((headReads doc.nodes.tail = none ∨ hexReads asserts doc.nodes.tail = none) ∧
        ∀ r, jsonrpcDecodeHexencoded asserts buf result out = .ok r → r.2.2.2 < 0) := by
  have hholds := holds_of_bytes hobject hbuf
  have hresult := jsonrpcResult_nodes asserts hobject hlen hholds result
  unfold jsonrpcDecodeHexencoded jsonrpcDecode
  rw [hbuf, jsmnParse_document doc hlen hroom]
  dsimp only
  cases hids : headReads doc.nodes.tail with
  | none =>
      rw [hids] at hresult
      refine Or.inr ⟨Or.inl rfl, fun r hr => ?_⟩
      split at hr
      · cases hr
      · rename_i hend
        rw [if_pos (hresult _ hend)] at hr
        cases hr
        exact neg_one_lt_zero
  | some ids =>
      rw [hids] at hresult
      obtain ⟨hholds', hend⟩ := hresult
      have hwalked := @hexWalked doc _ asserts hlen hholds' doc.nodes.tail out fun m hm => hm
      rw [hend]
      dsimp only
      rw [if_neg (lt_irrefl 0), ← List.map_tail]
      cases hvals : hexReads asserts doc.nodes.tail with
      | none =>
          rw [hvals] at hwalked
          refine Or.inr ⟨Or.inr rfl, fun r hr => ?_⟩
          split at hr
          · cases hr
          · rename_i hstop
            obtain ⟨a, ha, hneg⟩ := hwalked _ hstop
            cases ha
            cases hr
            exact hneg
          · rename_i hthrough
            obtain ⟨a, ha, -⟩ := hwalked _ hthrough
            cases ha
      | some vals =>
          rw [hvals] at hwalked
          refine Or.inl ⟨ids, vals, rfl, rfl, ?_⟩
          rw [show walk _ _ _ = _ from hwalked]

end AnylWallet.Eth
