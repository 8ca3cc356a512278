import AnylWallet.Eth.TxRequest

/-!
# When `eth_call` and `eth_estimateGas` leave their request

* `ethCall_request_iff`: the code leaves a request in a buffer that is longer than the request text
  exactly when the digits of the value fit in the room as a `uint32_t`, and the calldata has fewer
  than `2 ^ 30` bytes, so that its digits are counted by an `int`.
* A value that does not fit makes the function fail (`Piece.verdict_txRequest`). Longer calldata
  makes it fail, or its digits are stored and then overwritten, from the place that the low 32 bits
  of their number give, so that what is left is too short for a request (`not_leaves_of_long`).
-/

namespace AnylWallet.Eth

open AnylWallet.Lib AnylWallet.Helpers

/-! ## The condition -/

/-- Where the digits of the value are printed. -/
def valuePlace (func : String) (reqId : UInt32) (sender : Address) (tx : Transaction)
    (txFlags : UInt8) : ℕ :=
  (Piece.textAll (Piece.beforeValue func reqId sender tx txFlags)).length +
    (ascii ",\"value\":\"0x").length

/-- The digits of the value fit in the room that `tostring256` is told of. -/
def ValueFits (tx : Transaction) (txFlags : UInt8) (outLength : ℕ) : Prop :=
  txFlags &&& txNoValue = 0 → (numeral 16 tx.value.toNat).length ≤ digitRoom outLength

/-- The digits of the value fit in the room as a `uint32_t`, and those of the calldata in an
`int`. -/
def TxRequestFits (func : String) (reqId : UInt32) (sender : Address) (tx : Transaction)
    (txFlags : UInt8) (size : ℕ) : Prop :=
  ValueFits tx txFlags ((size - valuePlace func reqId sender tx txFlags) % 2 ^ 32) ∧
    (tx.HasCalldata txFlags → tx.calldata.length < 2 ^ 30)

/-! ## Pieces that go -/

namespace Piece

/-- A piece that goes wherever it fits. -/
def Easy : Piece → Prop
  | lit _ => True
  | hex bytes => bytes ≠ [] ∧ 2 * bytes.length < 2 ^ 31
  | _ => False

theorem Easy.short {p : Piece} (h : p.Easy) : p.Short := by
  cases p with
  | lit text => trivial
  | hex bytes => exact h
  | check n => trivial
  | digits val => trivial

/-- A text, or a short byte string, goes where it fits. -/
theorem Easy.goes {p : Piece} (h : p.Easy) {size used : ℕ}
    (hfit : used + p.text.length < size) : p.outcome size used = .goes := by
  cases p with
  | lit text => exact if_pos hfit
  | hex bytes =>
      have hlt : 2 * bytes.length < 2 ^ 31 := h.2
      rw [text, length_hexText] at hfit
      simp only [outcome]
      rw [if_neg (by omega), if_neg (by omega), if_neg (by omega), if_pos ⟨hlt, hfit⟩]
  | check n => exact h.elim
  | digits val => exact h.elim

/-- A piece that goes is passed. -/
theorem verdict_cons_goes {p : Piece} {size used : ℕ} (h : p.outcome size used = .goes)
    (ps : List Piece) : verdict size used (p :: ps) = verdict size (used + p.text.length) ps := by
  rw [verdict, h]

/-- Easy pieces that fit are passed. -/
theorem verdict_append_easy {ps : List Piece} (hps : ∀ p ∈ ps, p.Easy) (qs : List Piece)
    {size used : ℕ} (hfit : used + (textAll ps).length < size) :
    verdict size used (ps ++ qs) = verdict size (used + (textAll ps).length) qs := by
  induction ps generalizing used with
  | nil => rfl
  | cons p ps ih =>
      have hlen : (textAll (p :: ps)).length = p.text.length + (textAll ps).length := by
        rw [textAll, List.flatMap_cons, List.length_append, ← textAll]
      rw [hlen] at hfit ⊢
      have hp := (hps p List.mem_cons_self).goes (show used + p.text.length < size by omega)
      rw [List.cons_append, verdict_cons_goes hp,
        ih (fun q hq => hps q (List.mem_cons_of_mem p hq)) (by omega), Nat.add_assoc]

/-- Texts are easy. -/
theorem easy_lits (ts : List (List UInt8)) : ∀ p ∈ ts.map lit, p.Easy := by
  intro p hp
  obtain ⟨t, -, rfl⟩ := List.mem_map.mp hp
  trivial

/-- The pieces of an address are easy. -/
theorem easy_addr (a : Address) : ∀ p ∈ addr a, p.Easy := by
  intro p hp
  simp only [addr, List.mem_cons, List.not_mem_nil, or_false] at hp
  have hlen : a.a.toList.length = 20 := by simp
  rcases hp with rfl | rfl | rfl
  · trivial
  · refine ⟨List.ne_nil_of_length_pos (by omega), ?_⟩
    rw [hlen]
    norm_num
  · trivial

/-- A small number is easy. -/
theorem easy_hexNumber (val : UInt64) : ∀ p ∈ hexNumber val, p.Easy := by
  intro p hp
  rw [List.mem_singleton.mp hp]
  trivial

/-- A member of easy pieces is easy. -/
theorem easy_member (shown : Prop) [Decidable shown] (key : String) {val : List Piece}
    (h : ∀ p ∈ val, p.Easy) : ∀ p ∈ member shown key val, p.Easy := by
  intro p hp
  unfold member at hp
  split at hp
  · rcases List.mem_cons.mp hp with rfl | hp
    · trivial
    · exact h p hp
  · simp at hp

/-- All pieces before the value are easy. -/
theorem easy_beforeValue (func : String) (reqId : UInt32) (sender : Address) (tx : Transaction)
    (txFlags : UInt8) : ∀ p ∈ beforeValue func reqId sender tx txFlags, p.Easy := by
  intro p hp
  simp only [beforeValue, List.mem_append] at hp
  rcases hp with (((hp | hp) | hp) | hp) | hp
  · exact easy_lits [jsonrpcHeader reqId func, ascii "\x7b", ascii "\"to\":"] p hp
  · exact easy_addr _ p hp
  · exact easy_member _ _ (easy_addr _) p hp
  · exact easy_member _ _ (easy_hexNumber _) p hp
  · exact easy_member _ _ (easy_hexNumber _) p hp

/-- The value goes if its digits fit in the room, and it stops the run otherwise. -/
theorem verdict_valueMember (tx : Transaction) (txFlags : UInt8) (qs : List Piece) (size used : ℕ)
    (hfit : used + (textAll (valueMember tx txFlags)).length < size) :
    (ValueFits tx txFlags ((size - (used + (ascii ",\"value\":\"0x").length)) % 2 ^ 32) →
      verdict size used (valueMember tx txFlags ++ qs) =
        verdict size (used + (textAll (valueMember tx txFlags)).length) qs) ∧
    (¬ ValueFits tx txFlags ((size - (used + (ascii ",\"value\":\"0x").length)) % 2 ^ 32) →
      verdict size used (valueMember tx txFlags ++ qs) = .stops) := by
  have hkey : (ascii ",\"value\":\"0x").length = 12 := by decide
  have hkey' : (ascii ",\"value\":").length = 9 := by decide
  have hopen : (ascii "\"0x").length = 3 := by decide
  have hclose : (ascii "\"").length = 1 := by decide
  rw [hkey]
  by_cases hshown : txFlags &&& txNoValue = 0
  · have hpieces : valueMember tx txFlags =
        [lit (ascii ",\"value\":"), lit (ascii "\"0x"), digits tx.value, lit (ascii "\"")] := by
      simp [valueMember, member, number, hshown]
    have hlen : (textAll (valueMember tx txFlags)).length =
        9 + (3 + ((numeral 16 tx.value.toNat).length + 1)) := by
      simp [hpieces, textAll, text, hkey', hopen, hclose]
    rw [hlen] at hfit ⊢
    have h1 : (lit (ascii ",\"value\":")).outcome size used = .goes :=
      if_pos (by rw [hkey']; omega)
    have h2 : (lit (ascii "\"0x")).outcome size (used + 9) = .goes :=
      if_pos (by rw [hopen]; omega)
    have h3 : (lit (ascii "\"")).outcome size
        (used + 12 + (numeral 16 tx.value.toNat).length) = .goes :=
      if_pos (by rw [hclose]; omega)
    have hstart : verdict size used (valueMember tx txFlags ++ qs) =
        verdict size (used + 12) (digits tx.value :: lit (ascii "\"") :: qs) := by
      rw [hpieces, List.cons_append, verdict_cons_goes h1, text, hkey', List.cons_append,
        verdict_cons_goes h2, text, hopen]
      rfl
    rw [hstart]
    constructor
    · intro hfits
      have hgo : (digits tx.value).outcome size (used + 12) = .goes := by
        have := hfits hshown
        simp only [outcome]
        rw [if_neg (by omega), if_pos (by omega)]
      rw [verdict_cons_goes hgo, text, verdict_cons_goes h3, text, hclose]
      congr 1
      omega
    · intro hfits
      have hroom : digitRoom ((size - (used + 12)) % 2 ^ 32) <
          (numeral 16 tx.value.toNat).length := by
        by_contra hle
        exact hfits fun _ => not_lt.mp hle
      have hstop : (digits tx.value).outcome size (used + 12) = .stops := if_pos hroom
      rw [verdict, hstop]
  · have hnil : valueMember tx txFlags = [] := if_neg hshown
    rw [hnil]
    exact ⟨fun _ => rfl, fun hfits => absurd (fun h => absurd h hshown) hfits⟩

/-- The calldata and the end go if the digits of the calldata can be counted. -/
theorem verdict_dataMember (tx : Transaction) (txFlags : UInt8)
    (hshort : tx.HasCalldata txFlags → tx.calldata.length < 2 ^ 30) {size used : ℕ}
    (hfit : used + (textAll (member (tx.HasCalldata txFlags) ",\"data\":" (data tx.calldata) ++
      closing.map lit)).length < size) :
    verdict size used (member (tx.HasCalldata txFlags) ",\"data\":" (data tx.calldata) ++
      closing.map lit) = .goes := by
  by_cases hshown : tx.HasCalldata txFlags
  · have hpieces : member (tx.HasCalldata txFlags) ",\"data\":" (data tx.calldata) ++
        closing.map lit = lit (ascii ",\"data\":") :: check tx.calldata.length ::
          ([lit (ascii "\"0x"), hex tx.calldata, lit (ascii "\"")] ++ closing.map lit) := by
      simp [member, data, hshown]
    have hrest : ∀ p ∈ [lit (ascii "\"0x"), hex tx.calldata, lit (ascii "\"")] ++ closing.map lit,
        p.Easy := by
      intro p hp
      rcases List.mem_append.mp hp with hp | hp
      · simp only [List.mem_cons, List.not_mem_nil, or_false] at hp
        rcases hp with rfl | rfl | rfl
        · trivial
        · have := hshort hshown
          exact ⟨List.ne_nil_of_length_pos (Nat.pos_of_ne_zero hshown.2.1), by omega⟩
        · trivial
      · exact easy_lits closing p hp
    have hlen : (textAll ([lit (ascii "\"0x"), hex tx.calldata, lit (ascii "\"")] ++
        closing.map lit)).length = 2 * tx.calldata.length + 16 := by
      have hopen : (ascii "\"0x").length = 3 := by decide
      have hclose : (ascii "\"").length = 1 := by decide
      have hend : (ascii "\x7d").length + ((ascii ",\"latest\"").length +
          jsonrpcTerminator.length) = 12 := by decide
      simp [textAll, text, length_hexText, closing, hopen, hclose]
      omega
    have hkey : (ascii ",\"data\":").length = 8 := by decide
    rw [hpieces] at hfit ⊢
    simp only [textAll, List.flatMap_cons, List.length_append] at hfit
    rw [← textAll, hlen, text, text, hkey, List.length_nil] at hfit
    have h1 : (lit (ascii ",\"data\":")).outcome size used = .goes :=
      if_pos (by rw [hkey]; omega)
    have h2 : (check tx.calldata.length).outcome size (used + 8) = .goes := if_pos (by omega)
    rw [verdict_cons_goes h1, text, hkey, verdict_cons_goes h2, text, List.length_nil]
    have := verdict_append_easy hrest [] (show used + 8 + 0 + _ < size by rw [hlen]; omega)
    rwa [List.append_nil] at this
  · have hnil : member (tx.HasCalldata txFlags) ",\"data\":" (data tx.calldata) = [] :=
      if_neg hshown
    rw [hnil, List.nil_append] at hfit ⊢
    have := verdict_append_easy (easy_lits closing) [] hfit
    rwa [List.append_nil] at this

/-- **When the request is printed.** -/
theorem verdict_txRequest {func : String} {reqId : UInt32} {sender : Address} {tx : Transaction}
    {txFlags : UInt8} {size : ℕ}
    (hfit : (textAll (txRequest func reqId sender tx txFlags)).length < size) :
    (TxRequestFits func reqId sender tx txFlags size →
      verdict size 0 (txRequest func reqId sender tx txFlags) = .goes) ∧
    (¬ ValueFits tx txFlags ((size - valuePlace func reqId sender tx txFlags) % 2 ^ 32) →
      verdict size 0 (txRequest func reqId sender tx txFlags) = .stops) := by
  rw [txRequest_eq, textAll_append, textAll_append, List.length_append, List.length_append] at hfit
  rw [txRequest_eq, verdict_append_easy (easy_beforeValue func reqId sender tx txFlags) _
    (by omega), Nat.zero_add]
  obtain ⟨hgoes, hstops⟩ := verdict_valueMember tx txFlags
    (member (tx.HasCalldata txFlags) ",\"data\":" (data tx.calldata) ++ closing.map lit) size
    (textAll (beforeValue func reqId sender tx txFlags)).length (by omega)
  constructor
  · intro hfits
    rw [hgoes hfits.1]
    exact verdict_dataMember tx txFlags hfits.2 (by omega)
  · exact hstops

end Piece

/-! ## A request that is printed, and one that is refused -/

/-- If every step goes, the request text is in the buffer. -/
theorem leaves_of_goes {r : Request} {web3 : Web3Ctx} (hpos : 0 < web3.bufSize)
    (hsize : web3.bufSize < 2 ^ 64) (hdata : r.HasData)
    (hv : Piece.verdict web3.bufSize 0 (r.pieces web3.reqId) = .goes) :
    Leaves (r.run web3) (r.text web3.reqId) := by
  have hrun := r.run_spec hpos hsize hdata
  rw [hv] at hrun
  obtain ⟨hret, hprinted⟩ := hrun
  have hnul := hprinted.rest _ le_rfl hprinted.lt
  have hheld := hprinted.held
  refine ⟨hret, ?_⟩
  rw [Region.load_add, Nat.zero_add, hheld]
  simp [Region.load, hnul]

/-- If a step stops, the request is refused. -/
theorem not_leaves_of_stops {r : Request} {web3 : Web3Ctx} (hpos : 0 < web3.bufSize)
    (hsize : web3.bufSize < 2 ^ 64) (hdata : r.HasData)
    (hv : Piece.verdict web3.bufSize 0 (r.pieces web3.reqId) = .stops) (text : List UInt8) :
    ¬ Leaves (r.run web3) text := by
  have hrun := r.run_spec hpos hsize hdata
  rw [hv] at hrun
  rintro ⟨hret, -⟩
  rw [hrun.1] at hret
  exact absurd hret (by decide)

/-! ## Long calldata -/

/-- After a run that succeeds the next steps go on. -/
theorem Piece.printAll_append_of_ret {ps : List Piece} {web3 : Web3Ctx}
    (h : (printAll ps web3).2 = 0) (qs : List Piece) :
    printAll (ps ++ qs) web3 = printAll qs (printAll ps web3).1 := by
  rw [printAll_append, Printer.next]
  simp only [h, lt_irrefl, if_false]

/-- Texts that fit leave a NUL behind them. -/
theorem byte_printAll_lits {web3 : Web3Ctx} {ts : List (List UInt8)} (hne : ts ≠ [])
    (hsize : web3.bufSize < 2 ^ 64) (hlt : web3.bufUsed + ts.flatten.length < web3.bufSize) :
    (Piece.printAll (ts.map Piece.lit) web3).1.buf.byte (web3.bufUsed + ts.flatten.length) = 0 := by
  obtain ⟨us, t, rfl⟩ := List.eq_nil_or_concat' ts |>.resolve_left hne
  rw [List.flatten_append, List.flatten_singleton, List.length_append] at hlt ⊢
  obtain ⟨hret, hused⟩ := @printAll_lits web3 us hsize (by omega)
  have hbuf := (Piece.printAll_grows (us.map Piece.lit) web3).1
  rw [List.map_append, Piece.printAll_append_of_ret hret]
  generalize (Piece.printAll (us.map Piece.lit) web3).1 = w at hused hbuf ⊢
  have hroom : w.room = w.bufSize - w.bufUsed := by
    rw [Web3Ctx.room]
    omega
  have htake : t.take (w.bufSize - w.bufUsed - 1) = t := List.take_of_length_le (by omega)
  have hprint : (Piece.printAll ([t].map Piece.lit) w).1.buf =
      w.buf.store w.bufUsed (t ++ [0]) := by
    rw [List.map_singleton, Piece.printAll, Piece.printAll, Piece.print_done, Piece.print,
      web3Printbuf, vsnprintf, hroom, if_neg (by omega), htake]
    simp only
    rw [if_neg (by omega)]
    rfl
  have hbyte : (w.buf.store w.bufUsed (t ++ [0])).byte (w.bufUsed + t.length) = _ :=
    w.buf.byte_store_add w.bufUsed (by simp)
  rw [hprint, ← Nat.add_assoc, ← hused, hbyte]
  simp

/-- The digits of a long byte string: the call fails, or counts them modulo `2 ^ 32`. -/
theorem web3Bintohex_long {web3 : Web3Ctx} {text bytes : List UInt8} (h : web3.Printed text)
    (hne : bytes ≠ []) (hfit : text.length + 2 * bytes.length ≤ web3.bufSize) :
    (web3Bintohex bytes web3).2 = -1 ∨
      ((web3Bintohex bytes web3).2 = 0 ∧ 2 * bytes.length % 2 ^ 32 < 2 ^ 31 ∧
        (web3Bintohex bytes web3).1.bufUsed = text.length + 2 * bytes.length % 2 ^ 32 ∧
        (web3Bintohex bytes web3).1.bufSize = web3.bufSize) := by
  have hsize := h.size
  have hcall := bintohexNonull_eq hne web3.buf web3.bufUsed web3.room
  rw [h.room_eq, if_neg (by omega), sizeToInt_eq] at hcall
  unfold web3Bintohex
  rw [h.room_eq, hcall]
  by_cases hneg : 2 ^ 31 ≤ 2 * bytes.length % 2 ^ 32
  · left
    simp only [if_pos hneg]
    rw [if_pos (by omega)]
  · right
    simp only [if_neg hneg]
    rw [if_neg (by omega)]
    refine ⟨rfl, by omega, ?_, rfl⟩
    rw [Web3Ctx.advance, Int.toNat_natCast, h.used]
    exact Nat.mod_eq_of_lt (by omega)

/-- There is no NUL inside of the text that is left, if the text has none. -/
theorem byte_ne_zero_of_leaves {r : Web3Ctx × ℤ} {text : List UInt8} (h : Leaves r text)
    (hne : ∀ c ∈ text, c ≠ 0) {i : ℕ} (hi : i < text.length) : r.1.buf.byte i ≠ 0 := by
  have hload : r.1.buf.load 0 text.length = text := by
    have := congrArg (List.take text.length) h.2
    rw [List.take_left, Region.load_add, List.take_left' (by simp)] at this
    exact this
  have hget : (r.1.buf.load 0 text.length)[i]? = some (r.1.buf.byte i) := by
    simp [Region.load, hi]
  rw [hload] at hget
  exact hne _ (List.mem_of_getElem? hget)

/-- Every member that is to be read is among the members. -/
theorem exists_of_mem_right {α β : Type} {R : α → β → Prop} {as : List α} {bs : List β}
    (h : List.Forall₂ R as bs) {b : β} (hb : b ∈ bs) : ∃ a ∈ as, R a b := by
  induction h with
  | nil => exact absurd hb List.not_mem_nil
  | cons hab _ ih =>
      rcases List.mem_cons.mp hb with rfl | hb
      · exact ⟨_, List.mem_cons_self, hab⟩
      · obtain ⟨a, ha, hR⟩ := ih hb
        exact ⟨a, List.mem_cons_of_mem _ ha, hR⟩

/-- A request is longer than the digits of its calldata. -/
theorem length_of_isTxRequest {func : String} {reqId : UInt32} {sender : Address}
    {tx : Transaction} {txFlags : UInt8} {params : Json.Value} {text : List UInt8}
    (hshown : tx.HasCalldata txFlags) (hrequest : IsTxRequest func reqId params text)
    (hparams : ReadsParams sender tx txFlags params) : 2 * tx.calldata.length < text.length := by
  obtain ⟨doc, jsonrpc, id, method, rfl, hmembers, -⟩ := hrequest
  obtain ⟨object, latest, helems, -, -, hobject⟩ := hparams
  have hspec : ("data", IsHexData tx.calldata) ∈ txMembers sender tx txFlags := by
    simp [txMembers, shownMember, hshown]
  obtain ⟨m, hm, -, s, hs, digits, rfl, hlen, -⟩ := exists_of_mem_right hobject hspec
  have h1 := Json.Value.length_le_of_string hs
  have h2 := Json.Value.length_le_of_mem_members hm
  have h3 := Json.Value.length_le_of_mem_elems (v := params) (w := object) (by rw [helems]; simp)
  have h4 := Json.Value.length_le_of_mem_members (v := doc.value) (m := (ascii "params", params))
    (by rw [hmembers]; simp)
  have hprefix : (ascii "0x").length = 2 := by decide
  rw [List.length_append, hprefix] at h1
  simp only [Json.Document.text, List.length_append]
  simp only at h4
  omega

/-- The text of a member. -/
theorem length_textAll_member_le (shown : Prop) [Decidable shown] (key : String)
    (val : List Piece) : (Piece.textAll (Piece.member shown key val)).length ≤
      (ascii key).length + (Piece.textAll val).length := by
  unfold Piece.member
  split
  · rw [Piece.textAll, List.flatMap_cons, List.length_append]
    exact le_rfl
  · exact Nat.zero_le _

/-- What stands before the calldata is short. -/
theorem length_before_le {func : String} (hfunc : (ascii func).length ≤ 64) {reqId : UInt32}
    (hid : reqId.toNat < 2 ^ 31) (sender : Address) (tx : Transaction) (txFlags : UInt8) :
    (Piece.textAll (Piece.beforeValue func reqId sender tx txFlags)).length +
      (Piece.textAll (Piece.valueMember tx txFlags)).length ≤ 1024 := by
  have hopen : (ascii "\"0x").length = 3 := by decide
  have hclose : (ascii "\"").length = 1 := by decide
  have hheader : (jsonrpcHeader reqId func).length ≤ 200 := by
    have hdigits : (numeral 10 reqId.toNat).length ≤ 10 :=
      length_numeral_le (by norm_num) (by norm_num) (hid.trans (by norm_num))
    have h1 : (ascii "\x7b\"jsonrpc\":\"2.0\",\"id\":").length ≤ 40 := by decide
    have h2 : (ascii ",\"method\":\"").length ≤ 40 := by decide
    have h3 : (ascii "\",\"params\":[").length ≤ 40 := by decide
    have hnum : fmtInt (sizeToInt reqId.toNat) = numeral 10 reqId.toNat := by
      rw [sizeToInt_of_lt hid, fmtInt, if_neg (by omega), Int.natAbs_natCast]
    simp only [jsonrpcHeader, hnum, List.length_append]
    omega
  have hto : (ascii "\x7b").length + (ascii "\"to\":").length ≤ 10 := by decide
  have haddr : ∀ a, (Piece.textAll (Piece.addr a)).length = 44 := by
    intro a
    simp [Piece.addr, Piece.textAll, Piece.text, length_hexText, hopen, hclose]
  have hhex : ∀ n : UInt64, (Piece.textAll (Piece.hexNumber n)).length ≤ 12 := by
    intro n
    have hdigits : (fmtHex n).length ≤ 8 :=
      length_numeral_le (by norm_num) (by norm_num)
        (lt_of_lt_of_eq (Nat.mod_lt _ (by norm_num)) (by norm_num))
    simp only [Piece.hexNumber, Piece.textAll, Piece.text, List.flatMap_cons, List.flatMap_nil,
      List.append_nil, List.length_append, hopen, hclose]
    omega
  have hnumber : (Piece.textAll (Piece.number tx.value)).length ≤ 68 := by
    have hdigits : (numeral 16 tx.value.toNat).length ≤ 64 :=
      length_numeral_le (by norm_num) (by norm_num) (lt_of_lt_of_eq tx.value.toNat_lt (by norm_num))
    simp only [Piece.number, Piece.textAll, Piece.text, List.flatMap_cons, List.flatMap_nil,
      List.append_nil, List.length_append, hopen, hclose]
    omega
  have hkeys : (ascii ",\"from\":").length + (ascii ",\"gas\":").length +
      (ascii ",\"gasPrice\":").length + (ascii ",\"value\":").length ≤ 50 := by decide
  have h1 := length_textAll_member_le (txFlags &&& txNoFrom = 0) ",\"from\":" (Piece.addr sender)
  have h2 := length_textAll_member_le (txFlags &&& txNoGas = 0) ",\"gas\":"
    (Piece.hexNumber tx.gasLimit.toUInt64)
  have h3 := length_textAll_member_le (txFlags &&& txNoGasprice = 0) ",\"gasPrice\":"
    (Piece.hexNumber tx.gasPrice.toUInt64)
  have h4 := length_textAll_member_le (txFlags &&& txNoValue = 0) ",\"value\":"
    (Piece.number tx.value)
  have hgas := hhex tx.gasLimit.toUInt64
  have hprice := hhex tx.gasPrice.toUInt64
  have hstart : (Piece.textAll [.lit (jsonrpcHeader reqId func), .lit (ascii "\x7b"),
      .lit (ascii "\"to\":")]).length =
      (jsonrpcHeader reqId func).length + ((ascii "\x7b").length + (ascii "\"to\":").length) := by
    simp [Piece.textAll, Piece.text]
  rw [haddr] at h1
  simp only [Piece.beforeValue, textAll_append, List.length_append, hstart, haddr,
    Piece.valueMember]
  omega

/-- The pieces before the digits of the calldata. -/
def Piece.beforeCalldata (func : String) (reqId : UInt32) (sender : Address) (tx : Transaction)
    (txFlags : UInt8) : List Piece :=
  beforeValue func reqId sender tx txFlags ++ (valueMember tx txFlags ++
    [lit (ascii ",\"data\":"), check tx.calldata.length, lit (ascii "\"0x")])

/-- Their text. -/
theorem length_beforeCalldata (func : String) (reqId : UInt32) (sender : Address)
    (tx : Transaction) (txFlags : UInt8) :
    (Piece.textAll (Piece.beforeCalldata func reqId sender tx txFlags)).length =
      (Piece.textAll (Piece.beforeValue func reqId sender tx txFlags)).length +
        (Piece.textAll (Piece.valueMember tx txFlags)).length + 11 := by
  have hlits : (Piece.textAll [.lit (ascii ",\"data\":"), .check tx.calldata.length,
      .lit (ascii "\"0x")]).length = 11 := rfl
  rw [Piece.beforeCalldata, textAll_append, textAll_append, List.length_append, List.length_append,
    hlits, Nat.add_assoc]

/-- They go if the value fits and there is room for the calldata. -/
theorem verdict_beforeCalldata {func : String} {reqId : UInt32} {sender : Address}
    {tx : Transaction} {txFlags : UInt8} {size : ℕ}
    (hfit : (Piece.textAll (Piece.beforeCalldata func reqId sender tx txFlags)).length +
      tx.calldata.length < size)
    (hvalue : ValueFits tx txFlags ((size - valuePlace func reqId sender tx txFlags) % 2 ^ 32)) :
    Piece.verdict size 0 (Piece.beforeCalldata func reqId sender tx txFlags) = .goes := by
  have hkey : (ascii ",\"data\":").length = 8 := by decide
  have hopen : (ascii "\"0x").length = 3 := by decide
  rw [length_beforeCalldata] at hfit
  rw [Piece.beforeCalldata, Piece.verdict_append_easy
    (Piece.easy_beforeValue func reqId sender tx txFlags) _ (by omega), Nat.zero_add]
  obtain ⟨hgoes, -⟩ := Piece.verdict_valueMember tx txFlags [.lit (ascii ",\"data\":"),
    .check tx.calldata.length, .lit (ascii "\"0x")] size
    (Piece.textAll (Piece.beforeValue func reqId sender tx txFlags)).length (by omega)
  rw [hgoes hvalue]
  generalize (Piece.textAll (Piece.beforeValue func reqId sender tx txFlags)).length +
    (Piece.textAll (Piece.valueMember tx txFlags)).length = used at hfit ⊢
  have h1 : (Piece.lit (ascii ",\"data\":")).outcome size used = .goes :=
    if_pos (by rw [hkey]; omega)
  have h2 : (Piece.check tx.calldata.length).outcome size (used + 8) = .goes :=
    if_pos (by omega)
  have h3 : (Piece.lit (ascii "\"0x")).outcome size (used + 8 + 0) = .goes :=
    if_pos (by rw [hopen]; omega)
  rw [Piece.verdict_cons_goes h1, Piece.text, hkey, Piece.verdict_cons_goes h2, Piece.text,
    List.length_nil, Piece.verdict_cons_goes h3, Piece.verdict]

/-- No byte string among them is long. -/
theorem shaped_beforeCalldata (func : String) (reqId : UInt32) (sender : Address)
    (tx : Transaction) (txFlags : UInt8) :
    Piece.Shaped (Piece.beforeCalldata func reqId sender tx txFlags) :=
  Piece.Shaped.append
    (fun p hp => (Piece.easy_beforeValue func reqId sender tx txFlags p hp).short)
    (Piece.Shaped.append (Piece.short_member _ (Piece.short_number _)) trivial)

/-- Long calldata is not in the text that is left. -/
theorem not_leaves_of_long {func : String} (hfunc : (ascii func).length ≤ 64) {web3 : Web3Ctx}
    {reqId : UInt32} (hid : reqId.toNat < 2 ^ 31) {sender : Address} {tx : Transaction}
    {txFlags : UInt8} (hshown : tx.HasCalldata txFlags) (hlong : 2 ^ 30 ≤ tx.calldata.length)
    (hsize : web3.bufSize < 2 ^ 64)
    (hfit : (Piece.textAll (Piece.txRequest func reqId sender tx txFlags)).length < web3.bufSize)
    (hvalue : ValueFits tx txFlags
      ((web3.bufSize - valuePlace func reqId sender tx txFlags) % 2 ^ 32))
    {text : List UInt8} {params : Json.Value}
    (hleaves : Leaves (Piece.printAll (Piece.txRequest func reqId sender tx txFlags)
      (web3Resetbuf web3)) text)
    (hrequest : IsTxRequest func reqId params text)
    (hparams : ReadsParams sender tx txFlags params) : False := by
  have hpieces : Piece.txRequest func reqId sender tx txFlags =
      Piece.beforeCalldata func reqId sender tx txFlags ++
        (.hex tx.calldata :: (ascii "\"" :: Piece.closing).map Piece.lit) := by
    rw [Piece.txRequest_eq, Piece.beforeCalldata, Piece.member, if_pos hshown]
    simp [Piece.data]
  have hbefore := length_before_le hfunc hid sender tx txFlags
  have hlen := length_beforeCalldata func reqId sender tx txFlags
  have hend : (ascii "\"" :: Piece.closing).flatten.length = 13 := by decide
  have htext : (Piece.textAll (.hex tx.calldata ::
      (ascii "\"" :: Piece.closing).map Piece.lit)).length = 2 * tx.calldata.length + 13 := by
    rw [Piece.textAll, List.flatMap_cons, List.length_append, Piece.text, length_hexText,
      List.flatMap_map, ← hend]
    rfl
  rw [hpieces, textAll_append, List.length_append, htext] at hfit
  rw [hpieces] at hleaves
  -- up to the digits every step goes
  have hgoes := verdict_beforeCalldata (show _ < web3.bufSize by omega) hvalue
  have hrun := Piece.printAll_spec (Web3Ctx.Printed.reset web3 (by omega) hsize)
    (shaped_beforeCalldata func reqId sender tx txFlags)
  have hreset : (web3Resetbuf web3).bufSize = web3.bufSize := rfl
  rw [List.nil_append, hreset, List.length_nil, hgoes] at hrun
  obtain ⟨hret, hprinted⟩ := hrun
  have hbuf := (Piece.printAll_grows (Piece.beforeCalldata func reqId sender tx txFlags)
    (web3Resetbuf web3)).1
  rw [hreset] at hbuf
  rw [Piece.printAll_append_of_ret hret] at hleaves
  generalize (Piece.printAll (Piece.beforeCalldata func reqId sender tx txFlags)
    (web3Resetbuf web3)).1 = w at hprinted hbuf hleaves
  have hne : tx.calldata ≠ [] := List.ne_nil_of_length_pos (Nat.pos_of_ne_zero hshown.2.1)
  rcases web3Bintohex_long hprinted hne (by omega) with hfail | ⟨hok, hmod, hused, hbuf'⟩
  · have hret := hleaves.1
    rw [Piece.printAll, Printer.next] at hret
    simp only [Piece.print, hfail, Int.reduceNeg, Int.neg_neg_iff_pos, Int.zero_lt_one,
      if_true] at hret
    exact absurd hret (by decide)
  · -- the digits are counted modulo 2 ^ 32, and the NUL behind the end is inside of the document
    have hnul := @byte_printAll_lits (web3Bintohex tx.calldata w).1 (ascii "\"" :: Piece.closing)
      (by simp) (by omega) (by omega)
    have hnext : (Piece.printAll (.hex tx.calldata ::
        (ascii "\"" :: Piece.closing).map Piece.lit) w).1 =
        (Piece.printAll ((ascii "\"" :: Piece.closing).map Piece.lit)
          (web3Bintohex tx.calldata w).1).1 := by
      rw [Piece.printAll, Printer.next]
      simp only [Piece.print, hok, lt_irrefl, if_false]
    rw [← hnext, hused, hend] at hnul
    have hlong' := length_of_isTxRequest hshown hrequest hparams
    obtain ⟨doc, -, -, -, rfl, -⟩ := hrequest
    exact absurd hnul (byte_ne_zero_of_leaves hleaves doc.ne_zero (by omega))

/-! ## Both requests -/

/-- The function succeeds and leaves a request with these parameters. -/
def AsksFor (func : String) (reqId : UInt32) (params : Json.Value) (r : Web3Ctx × ℤ) : Prop :=
  ∃ text, Leaves r text ∧ IsTxRequest func reqId params text

section request

variable {r : Request} {func : String} {web3 : Web3Ctx} {sender : Address} {tx : Transaction}
  {txFlags : UInt8} (hr : r.pieces web3.reqId = Piece.txRequest func web3.reqId sender tx txFlags)
  (hid : web3.reqId.toNat < 2 ^ 31) (hsize : web3.bufSize < 2 ^ 64)
  (hlong : (r.text web3.reqId).length < web3.bufSize)
include hr hid hsize hlong

/-- If the digits fit, the parameters are asked for. -/
theorem asksFor_of_fits (hfunc : Json.isBody (ascii func) = true) (hdata : r.HasData)
    (hfits : TxRequestFits func web3.reqId sender tx txFlags web3.bufSize) :
    AsksFor func web3.reqId (txParams sender tx txFlags) (r.run web3) := by
  have htext : r.text web3.reqId =
      Piece.textAll (Piece.txRequest func web3.reqId sender tx txFlags) := by
    rw [← hr]
    rfl
  have hgoes := (Piece.verdict_txRequest (htext ▸ hlong)).1 hfits
  rw [← hr] at hgoes
  refine ⟨_, leaves_of_goes (by omega) hsize hdata hgoes, ?_⟩
  rw [htext]
  exact isTxRequest_text hfunc hid sender tx txFlags

/-- If no parameters are asked for that read as they are to, the digits do not fit. -/
theorem fits_of_asksFor (hfunc : (ascii func).length ≤ 64) (hdata : r.HasData)
    {params : Json.Value} (hparams : ReadsParams sender tx txFlags params)
    (hasks : AsksFor func web3.reqId params (r.run web3)) :
    TxRequestFits func web3.reqId sender tx txFlags web3.bufSize := by
  have htext : r.text web3.reqId =
      Piece.textAll (Piece.txRequest func web3.reqId sender tx txFlags) := by
    rw [← hr]
    rfl
  rw [htext] at hlong
  obtain ⟨text, hleaves, hrequest⟩ := hasks
  have hvalue : ValueFits tx txFlags
      ((web3.bufSize - valuePlace func web3.reqId sender tx txFlags) % 2 ^ 32) := by
    by_contra hvalue
    have hstops := (Piece.verdict_txRequest hlong).2 hvalue
    rw [← hr] at hstops
    exact not_leaves_of_stops (by omega) hsize hdata hstops text hleaves
  refine ⟨hvalue, fun hshown => ?_⟩
  by_contra hcalldata
  rw [r.run_eq, hr] at hleaves
  exact not_leaves_of_long hfunc hid hshown (not_lt.mp hcalldata) hsize hlong hvalue hleaves
    hrequest hparams

end request

/-- **`eth_call` leaves its request, and without flags `eth_estimateGas` leaves one with the same
parameters**, exactly when the digits of the value and of the calldata fit. -/
theorem ethCall_request_iff (sender : Address) (tx : Transaction) (txFlags : UInt8)
    (web3 web3' : Web3Ctx) (hid : web3.reqId.toNat < 2 ^ 31) (hid' : web3'.reqId.toNat < 2 ^ 31)
    (hsize : web3.bufSize < 2 ^ 64) (hsize' : web3'.bufSize < 2 ^ 64)
    (hlong : ((Request.call sender tx txFlags).text web3.reqId).length < web3.bufSize)
    (hlong' : ((Request.estimateGas sender tx).text web3'.reqId).length < web3'.bufSize) :
    (∃ params, ReadsParams sender tx txFlags params ∧
        AsksFor "eth_call" web3.reqId params (ethCall sender tx txFlags web3) ∧
        (txFlags = 0 →
          AsksFor "eth_estimateGas" web3'.reqId params (ethEstimateGas sender tx web3'))) ↔
      TxRequestFits "eth_call" web3.reqId sender tx txFlags web3.bufSize ∧
        (txFlags = 0 →
          TxRequestFits "eth_estimateGas" web3'.reqId sender tx 0 web3'.bufSize) := by
  constructor
  · rintro ⟨params, hparams, hcall, hestimate⟩
    refine ⟨@fits_of_asksFor (.call sender tx txFlags) _ _ _ _ _ rfl hid hsize hlong (by decide)
      trivial params hparams hcall, fun hflags => ?_⟩
    subst hflags
    exact @fits_of_asksFor (.estimateGas sender tx) _ _ _ _ _ rfl hid' hsize' hlong' (by decide)
      trivial params hparams (hestimate rfl)
  · rintro ⟨hcall, hestimate⟩
    refine ⟨txParams sender tx txFlags, readsParams_txParams sender tx txFlags,
      @asksFor_of_fits (.call sender tx txFlags) _ _ _ _ _ rfl hid hsize hlong (by decide)
        trivial hcall, fun hflags => ?_⟩
    subst hflags
    exact @asksFor_of_fits (.estimateGas sender tx) _ _ _ _ _ rfl hid' hsize' hlong' (by decide)
      trivial (hestimate rfl)

/-! ## Concrete requests -/

/-- A call with the value 16. -/
def callWithValue : Transaction where
  nonce := 1
  gasPrice := 1
  gasLimit := 21000
  toAddr := ⟨Vector.replicate 20 0⟩
  value := ⟨⟨0, 0⟩, ⟨0, 16⟩⟩
  data := 0
  calldata := []

/-- The address it is from. -/
def callSender : Address := ⟨Vector.replicate 20 1⟩

theorem length_callWithValue :
    ((Request.call callSender callWithValue 0).text 1).length = 215 ∧
      ((Request.estimateGas callSender callWithValue).text 1).length = 222 := by decide +kernel

/-- `ethCall_request_iff` in buffers of 1024 bytes. -/
theorem ethCall_request_short :
    (∃ params, ReadsParams callSender callWithValue 0 params ∧
        AsksFor "eth_call" 1 params (ethCall callSender callWithValue 0 (emptyCtx 1024)) ∧
        ((0 : UInt8) = 0 → AsksFor "eth_estimateGas" 1 params
          (ethEstimateGas callSender callWithValue (emptyCtx 1024)))) ↔
      TxRequestFits "eth_call" 1 callSender callWithValue 0 1024 ∧
        ((0 : UInt8) = 0 → TxRequestFits "eth_estimateGas" 1 callSender callWithValue 0 1024) :=
  ethCall_request_iff callSender callWithValue 0 (emptyCtx 1024) (emptyCtx 1024) (by decide)
    (by decide) (by decide) (by decide)
    (lt_of_eq_of_lt length_callWithValue.1 (by decide))
    (lt_of_eq_of_lt length_callWithValue.2 (by decide))

/-- If the room at the digits of the value is 1 as a `uint32_t`, the call is refused. -/
theorem not_asksFor_of_room {size : ℕ} (hlong : 215 < size) (hsize : size < 2 ^ 64)
    (hroom : (size - 200) % 2 ^ 32 = 1) (params : Json.Value) :
    ¬ AsksFor "eth_call" 1 params ((Request.call callSender callWithValue 0).run (emptyCtx size)) := by
  have hplace : valuePlace "eth_call" 1 callSender callWithValue 0 = 200 := by decide +kernel
  have hdigits : (numeral 16 callWithValue.value.toNat).length = 2 := by decide +kernel
  have hone : digitRoom 1 = 1 := by decide
  have hvalue : ¬ ValueFits callWithValue 0
      ((size - valuePlace "eth_call" 1 callSender callWithValue 0) % 2 ^ 32) := by
    intro h
    have := h (by decide)
    rw [hplace, hdigits, hroom, hone] at this
    omega
  have hstops := (Piece.verdict_txRequest (lt_of_eq_of_lt length_callWithValue.1 hlong)).2 hvalue
  rintro ⟨text, hleaves, -⟩
  have hpos : 0 < size := by omega
  exact @not_leaves_of_stops (.call callSender callWithValue 0) (emptyCtx size) hpos hsize trivial
    hstops text hleaves

/-- Counterexample: in a buffer of `2 ^ 32 + 201` bytes. -/
theorem ethCall_not_asksFor :
    ((Request.call callSender callWithValue 0).text 1).length < 4294967497 ∧
      ∀ params, ¬ AsksFor "eth_call" 1 params
        (ethCall callSender callWithValue 0 (emptyCtx 4294967497)) :=
  ⟨lt_of_eq_of_lt length_callWithValue.1 (by norm_num),
    not_asksFor_of_room (by norm_num) (by norm_num) (by norm_num)⟩

end AnylWallet.Eth
