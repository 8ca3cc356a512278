import AnylWallet.Eth.ReplyTexts
import AnylWallet.Lib.JsonPrint

/-!
# The receipts that `jsonrpc_decode_txreceipt` reads

`__json_txreceipt` finds the keys of a receipt by their places among the tokens.

* `readPairs`: its loop takes the nodes behind the object two by two for keys and values, from the
  third node on, as many times as the object has members but one. So the first member is not read,
  and behind a member that has parts the pairs are no members any more.
* `jsonrpcDecodeTxreceipt_nodes`: **what the decoder stores** of a reply where it comes to one string
  `result`, whatever the receipt is nested in and whatever is nested in it.
* `pairs_behind_first`, `readPairs_members`: where no member has parts, the pairs are the members
  behind the first one, and leave their numbers, unless one is too large for `strtol`.
-/

namespace AnylWallet.Eth

open AnylWallet.Lib AnylWallet.Lib.Json AnylWallet.Helpers

/-! ## Pairs of nodes -/

/-- The number that `__json_uint64_hex` stores, if it returns 0. -/
def uint64HexOf (n : Node) : Option UInt64 :=
  (readOf (strtol 16) n).map fun z => UInt64.ofNat (z % 2 ^ 64).toNat

/-- What two nodes leave in the receipt, taken for a key and its value; none, if they are refused. -/
def pairRead (e : Node × Node) (out : TxReceipt) : Option TxReceipt :=
  if e.1.kind ≠ .string then none
  else if e.1.text = ascii "status" then
    (uint64HexOf e.2).map fun (n : UInt64) => { out with status := if n > 0 then 1 else 0 }
  else if e.1.text = ascii "blockNumber" then
    (uint64HexOf e.2).map fun (n : UInt64) => { out with blockNumber := n }
  else some out

/-- The elements of a list two by two, up to a number of pairs. -/
def pairs {α : Type} : ℕ → List α → List (α × α)
  | 0, _ => []
  | count + 1, k :: v :: l => (k, v) :: pairs count l
  | _ + 1, _ => []

/-- What pairs leave in the receipt, one after the other. -/
def readPairs (es : List (Node × Node)) (out : TxReceipt) : Option TxReceipt :=
  es.foldlM (fun out e => pairRead e out) out

theorem readPairs_cons (e : Node × Node) (es : List (Node × Node)) (out : TxReceipt) :
    readPairs (e :: es) out = (pairRead e out).bind (readPairs es) := rfl

/-! ## The loop -/

variable {doc : Document} {buf : JsonBuf} {n k v : Node} {l : List Node} {out : TxReceipt}

/-- **`__json_uint64_hex` on a node.** -/
theorem jsonUint64Hex_ofNode (h : Holds doc buf) (hlen : doc.text.length < 2 ^ 31)
    (hn : n ∈ doc.nodes) :
    (∃ u, uint64HexOf n = some u ∧ jsonUint64Hex buf (.ofNode n) = (u, true)) ∨
      (uint64HexOf n = none ∧ ∃ u, jsonUint64Hex buf (.ofNode n) = (u, false)) := by
  unfold jsonUint64Hex uint64HexOf
  dsimp only
  rcases @readOf_strtol doc buf n 16 le_rfl h hlen hn _ rfl with ⟨z, hz, hend⟩ | ⟨hnone, z, hend⟩
  · obtain ⟨rfl, hfits⟩ := Prod.mk.inj hend
    rw [hz, hfits]
    exact Or.inl ⟨_, rfl, rfl⟩
  · obtain ⟨rfl, hfits⟩ := Prod.mk.inj hend
    rw [hnone, hfits]
    exact Or.inr ⟨rfl, _, rfl⟩

/-- **One round** reads the two tokens at its place. -/
theorem txreceiptRound_pair (h : Holds doc buf) (hlen : doc.text.length < 2 ^ 31)
    (hk : k ∈ doc.nodes) (hv : v ∈ doc.nodes) {toks : List Jsmntok} {i : ℕ}
    (hkey : toks[i * 2 + 1]? = some (.ofNode k)) (hvalue : toks[i * 2 + 2]? = some (.ofNode v)) :
    (∃ out', pairRead (k, v) out = some out' ∧ txreceiptRound buf toks i out = .ok (out', 0)) ∨
      (pairRead (k, v) out = none ∧ ∃ out', txreceiptRound buf toks i out = .ok (out', -1)) := by
  have hstatus := h.jsoneq_eq hlen hk (ascii "status")
  have hblock := h.jsoneq_eq hlen hk (ascii "blockNumber")
  unfold txreceiptRound pairRead
  rw [hkey]
  dsimp only
  by_cases hkind : k.kind = .string
  swap
  · rw [if_pos hkind, if_pos (mt type_ofNode_eq_string_iff.mp hkind)]
    exact Or.inr ⟨rfl, _, rfl⟩
  have hstring : ∀ s, k.isString s = decide (k.text = s) := fun s => by
    rw [Node.isString, hkind]
    simp
  rw [if_neg (not_not.mpr hkind), if_neg (not_not.mpr (type_ofNode_eq_string_iff.mpr hkind)),
    hstatus, hblock, hstring, hstring]
  simp only [decide_eq_true_eq, hvalue]
  by_cases hs : k.text = ascii "status"
  · rw [if_pos hs, if_pos hs]
    rcases jsonUint64Hex_ofNode h hlen hv with ⟨u, hu, hread⟩ | ⟨hnone, u, hread⟩
    · rw [hu, hread]
      exact Or.inl ⟨_, rfl, rfl⟩
    · rw [hnone, hread]
      exact Or.inr ⟨rfl, _, rfl⟩
  rw [if_neg hs, if_neg hs]
  by_cases hb : k.text = ascii "blockNumber"
  · rw [if_pos hb, if_pos hb]
    rcases jsonUint64Hex_ofNode h hlen hv with ⟨u, hu, hread⟩ | ⟨hnone, u, hread⟩
    · rw [hu, hread]
      exact Or.inl ⟨_, rfl, rfl⟩
    · rw [hnone, hread]
      exact Or.inr ⟨rfl, _, rfl⟩
  · rw [if_neg hb, if_neg hb]
    exact Or.inl ⟨_, rfl, rfl⟩

/-- **The loop** reads the tokens from its first round on two by two. -/
theorem txreceiptLoop_pairs (h : Holds doc buf) (hlen : doc.text.length < 2 ^ 31)
    {toks : List Jsmntok} {left i : ℕ} (hl : l ⊆ doc.nodes)
    (htoks : toks.drop (i * 2 + 1) = l.map .ofNode) (hroom : 2 * left ≤ l.length) :
    (∃ out', readPairs (pairs left l) out = some out' ∧
        txreceiptLoop buf toks left i out = .ok (out', 0)) ∨
      (readPairs (pairs left l) out = none ∧
        ∃ out', txreceiptLoop buf toks left i out = .ok (out', -1)) := by
  induction left generalizing l i out with
  | zero => exact Or.inl ⟨out, rfl, rfl⟩
  | succ left ih =>
      rcases l with _ | ⟨k, _ | ⟨v, l⟩⟩
      · rw [List.length_nil] at hroom
        omega
      · rw [List.length_singleton] at hroom
        omega
      rw [List.length_cons, List.length_cons] at hroom
      have hkey : toks[i * 2 + 1]? = some (.ofNode k) := by
        rw [← Nat.add_zero (i * 2 + 1), ← List.getElem?_drop, htoks]
        rfl
      have hvalue : toks[i * 2 + 2]? = some (.ofNode v) := by
        rw [show i * 2 + 2 = i * 2 + 1 + 1 from rfl, ← List.getElem?_drop, htoks]
        rfl
      have hdrop : toks.drop ((i + 1) * 2 + 1) = l.map .ofNode := by
        rw [show (i + 1) * 2 + 1 = i * 2 + 1 + 2 by omega, ← List.drop_drop, htoks]
        rfl
      have hrest : l ⊆ doc.nodes := fun m hm => hl (by simp [hm])
      rw [txreceiptLoop, pairs, readPairs_cons]
      rcases @txreceiptRound_pair doc buf k v out h hlen (hl (by simp)) (hl (by simp)) toks i hkey
          hvalue with ⟨out', hread, hround⟩ | ⟨hread, out', hround⟩
      · rw [hread, hround]
        exact ih hrest hdrop (by omega)
      · rw [hread, hround]
        exact Or.inr ⟨rfl, out', rfl⟩

/-- **`__json_txreceipt`** on the nodes of an object. -/
theorem jsonTxreceipt_nodes (h : Holds doc buf) (hlen : doc.text.length < 2 ^ 31) {top : Node}
    (hl : l ⊆ doc.nodes) (hkind : top.kind = .object) (hroom : 2 * top.size ≤ l.length) :
    (∃ out', readPairs (pairs (top.size - 1) (l.drop 2)) out = some out' ∧
        jsonTxreceipt buf ((top :: l).map .ofNode) out = .ok (out', 0)) ∨
      (readPairs (pairs (top.size - 1) (l.drop 2)) out = none ∧
        ∃ out', jsonTxreceipt buf ((top :: l).map .ofNode) out = .ok (out', -1)) := by
  have htype : ¬ (Jsmntok.ofNode top).type ≠ .object := by
    simp [Jsmntok.ofNode, hkind, JsmnType.ofKind]
  have hdrop : ((top :: l).map Jsmntok.ofNode).drop (1 * 2 + 1) = (l.drop 2).map .ofNode := by
    rw [List.map_drop]
    rfl
  unfold jsonTxreceipt
  rw [List.map_cons] at hdrop ⊢
  dsimp only
  rw [if_neg htype]
  exact txreceiptLoop_pairs h hlen (fun m hm => hl (List.mem_of_mem_drop hm)) hdrop
    (by rw [List.length_drop]; omega)

/-! ## The decoder -/

/-- The loop over the reply passes everything, where it comes to no string `result`. -/
theorem walk_txreceiptVisit_nil (h : Holds doc buf) (hlen : doc.text.length < 2 ^ 31)
    (hl : l ⊆ doc.nodes) (hnone : resultsTaken l = []) :
    walk (txreceiptVisit buf) (l.map .ofNode) out = .ok (.through out) := by
  induction l with
  | nil => rfl
  | cons n rest ih =>
      have hkey : n.isString (ascii "result") = false := by
        by_contra hkey
        exact takes_ne_nil ⟨n, List.mem_cons_self, Bool.not_eq_false _ ▸ hkey⟩ hnone
      have hpass : txreceiptVisit buf (.ofNode n) (rest.map .ofNode) out = .ok (.pass out) := by
        unfold txreceiptVisit
        rw [h.jsoneq_eq hlen (hl List.mem_cons_self), hkey, if_neg Bool.false_ne_true]
      rw [resultsTaken, takes_cons_neg hkey] at hnone
      rw [List.map_cons, walk_pass hpass]
      exact ih (fun m hm => hl (List.mem_cons_of_mem _ hm)) hnone

/-- **The loop over the reply**, where it comes to one string `result`: what is behind it is read as a
receipt. -/
theorem walk_txreceiptVisit (h : Holds doc buf) (hlen : doc.text.length < 2 ^ 31)
    (hl : l ⊆ doc.nodes) {rest : List Node} (honce : resultsTaken l = [(k, rest)])
    {r : TxReceipt × ℤ} (hr : jsonTxreceipt buf (rest.map .ofNode) out = .ok r) :
    walk (txreceiptVisit buf) (l.map .ofNode) out =
      .ok (if r.2 < 0 then .stopped r else .through r.1) := by
  induction l with
  | nil => cases honce
  | cons n rest' ih =>
      have hsub : rest' ⊆ doc.nodes := fun m hm => hl (List.mem_cons_of_mem _ hm)
      have htok := h.jsoneq_eq hlen (hl List.mem_cons_self) (ascii "result")
      cases hkey : n.isString (ascii "result") with
      | false =>
          have hpass : txreceiptVisit buf (.ofNode n) (rest'.map .ofNode) out = .ok (.pass out) := by
            unfold txreceiptVisit
            rw [htok, hkey, if_neg Bool.false_ne_true]
          rw [resultsTaken, takes_cons_neg hkey] at honce
          rw [List.map_cons, walk_pass hpass]
          exact ih hsub honce
      | true =>
          rw [resultsTaken, takes_cons_pos hkey] at honce
          obtain ⟨hfirst, hnone⟩ := List.cons.inj honce
          obtain ⟨rfl, rfl⟩ := Prod.mk.inj hfirst
          have hvisit : txreceiptVisit buf (.ofNode n) (rest'.map .ofNode) out =
              .ok (if r.2 < 0 then .stop r else .take r.1) := by
            unfold txreceiptVisit
            rw [htok, hkey, if_pos rfl, hr]
            dsimp only
            split
            · rfl
            · rfl
          rw [List.map_cons]
          by_cases hneg : r.2 < 0
          · rw [if_pos hneg] at hvisit ⊢
            exact walk_stop hvisit
          · rw [if_neg hneg] at hvisit ⊢
            rw [walk_take hvisit, ← List.map_tail]
            exact walk_txreceiptVisit_nil h hlen (fun m hm => hsub (List.mem_of_mem_tail hm)) hnone

/-- **`jsonrpc_decode_txreceipt`** on a document with one string `result`: it returns 0 with what the pairs
leave, or refuses the reply. -/
theorem jsonrpcDecodeTxreceipt_nodes (asserts : Bool) (hobject : doc.value.isObject = true)
    (hlen : doc.text.length < 2 ^ 31) (hroom : doc.nodes.length ≤ 64) (hbuf : buf.bytes = doc.text)
    {ids : List UInt64} (hids : headReads doc.nodes.tail = some ids) {top : Node}
    (honce : resultsTaken doc.nodes.tail = [(k, top :: l)]) (hl : l ⊆ doc.nodes)
    (hkind : top.kind = .object) (hsize : 2 * top.size ≤ l.length) (result : JsonrpcResult)
    (out : TxReceipt) :
    ∃ buf' result', (∃ out', readPairs (pairs (top.size - 1) (l.drop 2)) out = some out' ∧
        jsonrpcDecodeTxreceipt asserts buf result out = .ok (buf', result', out', 0)) ∨
      (readPairs (pairs (top.size - 1) (l.drop 2)) out = none ∧
        ∃ out', jsonrpcDecodeTxreceipt asserts buf result out = .ok (buf', result', out', -1)) := by
  have hresult := jsonrpcResult_nodes asserts hobject hlen (holds_of_bytes hobject hbuf) result
  rw [hids] at hresult
  obtain ⟨hholds, hend⟩ := hresult
  have hwalk := fun r => @walk_txreceiptVisit doc _ k doc.nodes.tail out hholds hlen
    (fun m hm => List.mem_of_mem_tail hm) _ honce r
  unfold jsonrpcDecodeTxreceipt jsonrpcDecode
  rw [hbuf, jsmnParse_document doc hlen hroom]
  dsimp only
  rw [hend]
  dsimp only
  rw [if_neg (lt_irrefl 0), ← List.map_tail]
  rcases @jsonTxreceipt_nodes doc _ l out hholds hlen top hl hkind hsize with
    ⟨out', hread, hreceipt⟩ | ⟨hread, out', hreceipt⟩
  · rw [hwalk _ hreceipt]
    exact ⟨_, _, Or.inl ⟨out', hread, rfl⟩⟩
  · rw [hwalk _ hreceipt]
    exact ⟨_, _, Or.inr ⟨hread, out', rfl⟩⟩

/-! ## Receipts without parts -/

/-- A text of `0x` and hex digits that denotes the number. -/
def IsQuantity (s : List UInt8) (n : ℕ) : Prop :=
  ∃ digits, s = ascii "0x" ++ digits ∧ digits ≠ [] ∧ (∀ c ∈ digits, isDigitOf 16 c = true) ∧
    numberOf 16 digits = n

/-- **`strtol` reads it**, unless it is too large. -/
theorem strtol_isQuantity {s : List UInt8} {n : ℕ} (h : IsQuantity s n) :
    strtol 16 s =
      if 2 ^ 63 ≤ n then ⟨2 ^ 63 - 1, s.length, true⟩ else ⟨n, s.length, false⟩ := by
  obtain ⟨digits, rfl, hne, hdigits, rfl⟩ := h
  obtain ⟨c, rest, rfl⟩ := List.exists_cons_of_ne_nil hne
  have hx : ascii "0x" = ['0'.toUInt8, 'x'.toUInt8] := by decide
  have hspace : ¬ isspace '0'.toUInt8 = true := by decide
  have hminus : ¬ '0'.toUInt8 = '-'.toUInt8 := by decide
  have hplus : ¬ '0'.toUInt8 = '+'.toUInt8 := by decide
  have hdrop : (ascii "0x" ++ c :: rest).dropWhile isspace = ascii "0x" ++ c :: rest := by
    rw [hx, List.cons_append, List.dropWhile_cons_of_neg hspace]
  have hhead : (ascii "0x" ++ c :: rest).head? = some '0'.toUInt8 := by
    rw [hx]
    rfl
  have htwo : (ascii "0x" ++ c :: rest).drop 2 = c :: rest := by
    rw [hx]
    rfl
  have hprefix : hasHexPrefix (ascii "0x" ++ c :: rest) = true := by
    have htake : (ascii "0x" ++ c :: rest).take 2 = ascii "0x" := by
      rw [hx]
      rfl
    unfold hasHexPrefix
    rw [htwo, htake]
    simp [hdigits c List.mem_cons_self]
  have hstart : numberStart 16 (ascii "0x" ++ c :: rest) = c :: rest := by
    unfold numberStart
    simp [hdrop, hhead, hminus, hplus, hprefix, htwo]
  have htaken : numberDigits 16 (ascii "0x" ++ c :: rest) = c :: rest := by
    rw [numberDigits, hstart]
    exact List.takeWhile_eq_self_iff.mpr hdigits
  have hsize : Helpers.numberSize 16 (ascii "0x" ++ c :: rest) = (ascii "0x" ++ c :: rest).length := by
    rw [Helpers.numberSize, htaken, hstart, if_neg (List.cons_ne_nil c rest), List.length_append]
    omega
  have hsign : ¬ isNegated (ascii "0x" ++ c :: rest) = true := by
    rw [isNegated, hdrop, hhead]
    simp [hminus]
  unfold strtol
  rw [htaken, hsize]
  dsimp only
  rw [if_neg hsign]

/-- The node is that of a value without parts. -/
def Shows (n : Node) (v : Value) : Prop :=
  n.kind = .string ∧ v.string? = some n.text ∨ n.kind = .scalar ∧ v.scalar? = some n.text

/-- The pair is that of a member. -/
def ShowsMember (e : Node × Node) (m : List UInt8 × Value) : Prop :=
  e.1.kind = .string ∧ e.1.text = m.1 ∧ Shows e.2 m.2

/-- No member has parts. -/
def IsFlat (receipt : Value) : Prop :=
  ∀ m ∈ receipt.members, (∃ s, m.2.string? = some s) ∨ ∃ s, m.2.scalar? = some s

/-- A value without parts has one node. -/
theorem exists_shows {v : Value} (h : (∃ s, v.string? = some s) ∨ ∃ s, v.scalar? = some s) (q : ℕ) :
    ∃ n, v.nodes q = [n] ∧ Shows n v := by
  rcases h with ⟨s, hs⟩ | ⟨s, hs⟩
  · cases v with
    | string body => exact ⟨_, rfl, Or.inl ⟨rfl, rfl⟩⟩
    | scalar | emptyArray | array | emptyObject | object => cases hs
  · cases v with
    | scalar scalar => exact ⟨_, rfl, Or.inr ⟨rfl, rfl⟩⟩
    | string | emptyArray | array | emptyObject | object => cases hs

/-- **Where no member has parts, the pairs are the members.** -/
theorem pairs_members : ∀ (members : Members) {p : ℕ} {behind : List Node},
    (∀ m ∈ members.toList, (∃ s, m.2.string? = some s) ∨ ∃ s, m.2.scalar? = some s) →
      List.Forall₂ ShowsMember (pairs members.count (members.nodes p ++ behind)) members.toList
  | .last key afterKey beforeValue value after, p, behind, hflat => by
      rw [Members.toList, List.forall_mem_singleton] at hflat
      obtain ⟨n, hn, hshows⟩ := exists_shows hflat
        (p + (quoted key).length + afterKey.text.length + 1 + beforeValue.text.length)
      rw [Members.nodes, hn]
      exact .cons ⟨rfl, rfl, hshows⟩ .nil
  | .cons key afterKey beforeValue value after before members, p, behind, hflat => by
      rw [Members.toList, List.forall_mem_cons] at hflat
      obtain ⟨n, hn, hshows⟩ := exists_shows hflat.1
        (p + (quoted key).length + afterKey.text.length + 1 + beforeValue.text.length)
      rw [Members.nodes, hn]
      exact .cons ⟨rfl, rfl, hshows⟩ (pairs_members members hflat.2)
/-- Behind the first two nodes they are the members behind the first one. -/
theorem pairs_behind_first (members : Members) (p : ℕ) (behind : List Node)
    (hflat : ∀ m ∈ members.toList, (∃ s, m.2.string? = some s) ∨ ∃ s, m.2.scalar? = some s) :
    List.Forall₂ ShowsMember (pairs (members.count - 1) ((members.nodes p ++ behind).drop 2))
      members.toList.tail := by
  cases members with
  | last key afterKey beforeValue value after => exact .nil
  | cons key afterKey beforeValue value after before members =>
      rw [Members.toList, List.forall_mem_cons] at hflat
      obtain ⟨n, hn, -⟩ := exists_shows hflat.1
        (p + (quoted key).length + afterKey.text.length + 1 + beforeValue.text.length)
      rw [Members.nodes, hn]
      exact pairs_members members hflat.2

/-- The number that is read of a quantity. -/
theorem uint64HexOf_isQuantity {n : Node} {v : Value} {s : List UInt8} {x : ℕ} (h : Shows n v)
    (hs : v.string? = some s) (hx : IsQuantity s x) :
    uint64HexOf n = if x < 2 ^ 63 then some (UInt64.ofNat x) else none := by
  rcases h with ⟨hkind, htext⟩ | ⟨-, hscalar⟩
  swap
  · cases v with
    | scalar scalar => cases hs
    | string | emptyArray | array | emptyObject | object => cases hscalar
  obtain rfl := Option.some.inj (hs.symm.trans htext)
  have htext : isText n = true := by
    rw [isText, hkind]
    rfl
  unfold uint64HexOf readOf
  rw [strtol_isQuantity hx]
  by_cases hlarge : 2 ^ 63 ≤ x
  · rw [if_pos hlarge, if_neg (not_lt.mpr hlarge), if_neg fun h => Bool.noConfusion h.2.1]
    rfl
  · have hmod : (x : ℤ) % 2 ^ 64 = x := by omega
    rw [if_neg hlarge, if_pos (not_le.mp hlarge), if_pos ⟨htext, rfl, rfl⟩, Option.map_some, hmod,
      Int.toNat_natCast]

/-- The status is 1 or 0. -/
theorem status_eq {st : ℕ} (h : st < 2 ^ 63) :
    (if UInt64.ofNat st > 0 then (1 : UInt8) else 0) = if st = 0 then 0 else 1 := by
  have hnat : (UInt64.ofNat st).toNat = st := by
    rw [UInt64.toNat_ofNat', Nat.mod_eq_of_lt (by omega)]
  by_cases hzero : st = 0
  · subst hzero
    rfl
  · rw [if_neg hzero, if_pos]
    rw [gt_iff_lt, UInt64.lt_iff_toNat_lt, hnat]
    exact Nat.pos_of_ne_zero hzero

section members

variable {es : List (Node × Node)} {ms : List (List UInt8 × Value)} {block status : ℕ}

/-- The members of these names are quantities, of these numbers. -/
structure QuantitiesOf (ms : List (List UInt8 × Value)) (block status : ℕ) : Prop where
  block : ∀ m ∈ ms, m.1 = ascii "blockNumber" → ∃ s, m.2.string? = some s ∧ IsQuantity s block
  status : ∀ m ∈ ms, m.1 = ascii "status" → ∃ s, m.2.string? = some s ∧ IsQuantity s status

theorem QuantitiesOf.tail {m : List UInt8 × Value} (h : QuantitiesOf (m :: ms) block status) :
    QuantitiesOf ms block status :=
  ⟨fun m hm => h.block m (List.mem_cons_of_mem _ hm),
    fun m hm => h.status m (List.mem_cons_of_mem _ hm)⟩

/-- One member. -/
theorem pairRead_member {e : Node × Node} {m : List UInt8 × Value} (he : ShowsMember e m)
    (h : QuantitiesOf (m :: ms) block status) (out : TxReceipt) :
    pairRead e out =
      if m.1 = ascii "status" then
        if status < 2 ^ 63 then some { out with status := if status = 0 then 0 else 1 } else none
      else if m.1 = ascii "blockNumber" then
        if block < 2 ^ 63 then some { out with blockNumber := UInt64.ofNat block } else none
      else some out := by
  obtain ⟨hkind, htext, hshows⟩ := he
  unfold pairRead
  rw [if_neg (not_not.mpr hkind), htext]
  by_cases hs : m.1 = ascii "status"
  · obtain ⟨s, hs', hx⟩ := h.status m List.mem_cons_self hs
    rw [if_pos hs, if_pos hs, uint64HexOf_isQuantity hshows hs' hx]
    by_cases hlt : status < 2 ^ 63
    · rw [if_pos hlt, if_pos hlt, Option.map_some, status_eq hlt]
    · rw [if_neg hlt, if_neg hlt, Option.map_none]
  rw [if_neg hs, if_neg hs]
  by_cases hb : m.1 = ascii "blockNumber"
  · obtain ⟨s, hs', hx⟩ := h.block m List.mem_cons_self hb
    rw [if_pos hb, if_pos hb, uint64HexOf_isQuantity hshows hs' hx]
    by_cases hlt : block < 2 ^ 63
    · rw [if_pos hlt, if_pos hlt, Option.map_some]
    · rw [if_neg hlt, if_neg hlt, Option.map_none]
  · rw [if_neg hb, if_neg hb]

/-- **What members leave in the receipt**: the numbers of those that are there, unless one is too
large for `strtol`. -/
theorem readPairs_members (hes : List.Forall₂ ShowsMember es ms)
    (h : QuantitiesOf ms block status) {out out' : TxReceipt} :
    readPairs es out = some out' ↔
      ((ascii "blockNumber" ∈ ms.map Prod.fst → block < 2 ^ 63) ∧
        (ascii "status" ∈ ms.map Prod.fst → status < 2 ^ 63)) ∧
      out' = ⟨if ascii "blockNumber" ∈ ms.map Prod.fst then UInt64.ofNat block else out.blockNumber,
        if ascii "status" ∈ ms.map Prod.fst then if status = 0 then 0 else 1 else out.status⟩ := by
  have hne : ¬ ascii "status" = ascii "blockNumber" := by decide
  have hne' : ¬ ascii "blockNumber" = ascii "status" := by decide
  induction hes generalizing out with
  | nil =>
      simp only [readPairs, List.foldlM_nil, List.map_nil, List.not_mem_nil, if_false, false_implies,
        true_and]
      exact ⟨fun h => (Option.some.inj h).symm, fun h => congrArg some h.symm⟩
  | @cons e m es ms he hes ih =>
      rw [readPairs_cons, pairRead_member he h]
      simp only [List.map_cons, List.mem_cons]
      by_cases hs : m.1 = ascii "status"
      · simp only [hs, hne', if_true, false_or, true_or, true_implies]
        by_cases hlt : status < 2 ^ 63
        · rw [if_pos hlt, Option.bind_some]
          refine (ih h.tail).trans ?_
          simp only [hlt, implies_true, ite_self]
        · rw [if_neg hlt, Option.bind_none]
          exact iff_of_false nofun fun h => hlt h.1.2
      by_cases hb : m.1 = ascii "blockNumber"
      · simp only [hb, hne, hne', if_true, if_false, false_or, true_or, true_implies]
        by_cases hlt : block < 2 ^ 63
        · rw [if_pos hlt, Option.bind_some]
          refine (ih h.tail).trans ?_
          simp only [hlt, implies_true, ite_self]
        · rw [if_neg hlt, Option.bind_none]
          exact iff_of_false nofun fun h => hlt h.1.1
      · rw [if_neg hs, if_neg hb, Option.bind_some]
        refine (ih h.tail).trans ?_
        simp only [Ne.symm hs, Ne.symm hb, false_or]

end members

end AnylWallet.Eth
