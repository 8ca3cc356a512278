import Mathlib.Data.List.TakeWhile
import AnylWallet.Helpers.Jsmn
import AnylWallet.Lib.Json

/-!
# What `jsmn_parse` finds in a JSON document

* `jsmnParse_document`: **on a document `jsmn_parse` returns one token for each node, in the order of
  the text**, with the positions of the node, if there is room for them and an `int` holds every
  position.
* The proof follows the text: `jsmnLoop_value`, `jsmnLoop_elems` and `jsmnLoop_members` say what the
  parser's loop does with a value, with the elements of an array and with the members of an object.
  Of the tokens that exist already these change only the size of the one that `toksuper` names.
-/

namespace AnylWallet.Helpers

open AnylWallet.Lib AnylWallet.Lib.Json

/-! ## Lists of tokens -/

/-- The size of token `i` is increased. -/
def addSize (i n : ℕ) (toks : List Jsmntok) : List Jsmntok :=
  toks.modify i fun tok => { tok with size := tok.size + n }

@[simp] theorem length_addSize (i n : ℕ) (toks : List Jsmntok) :
    (addSize i n toks).length = toks.length := List.length_modify _ _ _

theorem countIn_some (i : ℕ) (toks : List Jsmntok) : countIn (some i) toks = addSize i 1 toks := rfl

/-- Tokens behind it do not matter. -/
theorem addSize_append {i : ℕ} (n : ℕ) {toks : List Jsmntok} (h : i < toks.length)
    (l : List Jsmntok) : addSize i n (toks ++ l) = addSize i n toks ++ l := by
  unfold addSize
  induction toks generalizing i with
  | nil => cases h
  | cons tok toks ih =>
      cases i with
      | zero => rfl
      | succ i =>
          simp only [List.cons_append, List.modify_succ_cons]
          rw [ih (Nat.lt_of_succ_lt_succ h)]

/-- The token behind others. -/
theorem addSize_length (n : ℕ) (toks : List Jsmntok) (tok : Jsmntok) (l : List Jsmntok) :
    addSize toks.length n (toks ++ tok :: l) =
      toks ++ { tok with size := tok.size + n } :: l :=
  List.modifyTailIdx_add _ 0 toks (tok :: l)

/-- Sizes add up. -/
theorem addSize_addSize (i m n : ℕ) (toks : List Jsmntok) :
    addSize i n (addSize i m toks) = addSize i (m + n) toks := by
  unfold addSize
  rw [List.modify_modify_eq]
  simp only [Function.comp_def, Nat.add_assoc]

section lastIndex

variable {p : Jsmntok → Bool} {tok : Jsmntok} {l : List Jsmntok} {i : ℕ}

/-- The index of a token behind the first one. -/
theorem lastIndex_cons_some (h : lastIndex p l = some i) :
    lastIndex p (tok :: l) = some (i + 1) := by
  rw [lastIndex, h]

/-- There is none, so that the first token decides. -/
theorem lastIndex_cons_none (h : lastIndex p l = none) :
    lastIndex p (tok :: l) = if p tok then some 0 else none := by
  rw [lastIndex, h]

theorem lastIndex_singleton (h : p tok = true) : lastIndex p [tok] = some 0 :=
  (lastIndex_cons_none rfl).trans (if_pos h)

theorem lastIndex_append (p : Jsmntok → Bool) (l₁ l₂ : List Jsmntok) :
    lastIndex p (l₁ ++ l₂) =
      match lastIndex p l₂ with
      | some i => some (l₁.length + i)
      | none => lastIndex p l₁ := by
  induction l₁ with
  | nil =>
      rw [List.nil_append, List.length_nil]
      cases lastIndex p l₂ with
      | none => rfl
      | some i => simp
  | cons tok l₁ ih =>
      rw [List.cons_append]
      cases hl : lastIndex p l₂ with
      | none =>
          rw [hl] at ih
          cases hl₁ : lastIndex p l₁ with
          | none =>
              rw [lastIndex_cons_none (ih.trans hl₁)]
              exact (lastIndex_cons_none hl₁).symm
          | some i =>
              rw [lastIndex_cons_some (ih.trans hl₁)]
              exact (lastIndex_cons_some hl₁).symm
      | some i =>
          rw [hl] at ih
          rw [lastIndex_cons_some ih]
          simp only [List.length_cons]
          congr 1
          omega

/-- There is no index exactly when no token has the property. -/
theorem lastIndex_eq_none_iff : lastIndex p l = none ↔ ∀ tok ∈ l, p tok = false := by
  induction l with
  | nil => exact iff_of_true rfl fun _ htok => absurd htok List.not_mem_nil
  | cons tok l ih =>
      rw [List.forall_mem_cons, ← ih]
      cases hl : lastIndex p l with
      | none =>
          rw [lastIndex_cons_none hl]
          simp
      | some i =>
          rw [lastIndex_cons_some hl]
          simp

/-- Tokens without the property behind the others do not matter. -/
theorem lastIndex_append_none (l₁ : List Jsmntok) {l₂ : List Jsmntok}
    (h : ∀ tok ∈ l₂, p tok = false) : lastIndex p (l₁ ++ l₂) = lastIndex p l₁ := by
  rw [lastIndex_append, lastIndex_eq_none_iff.mpr h]

/-- The index is one of the list, and the token has the property. -/
theorem lastIndex_eq_some (h : lastIndex p l = some i) :
    ∃ tok, l[i]? = some tok ∧ p tok = true := by
  induction l generalizing i with
  | nil => cases h
  | cons tok l ih =>
      cases hl : lastIndex p l with
      | none =>
          rw [lastIndex_cons_none hl] at h
          split_ifs at h with hp
          cases h
          exact ⟨tok, rfl, hp⟩
      | some j =>
          rw [lastIndex_cons_some hl] at h
          cases h
          exact ih hl

/-- The sizes do not matter. -/
theorem lastIndex_addSize
    (hp : ∀ (tok : Jsmntok) (size : ℕ), p { tok with size := size } = p tok) (i n : ℕ)
    (toks : List Jsmntok) : lastIndex p (addSize i n toks) = lastIndex p toks := by
  have hcons : ∀ {tok tok' : Jsmntok} {toks toks' : List Jsmntok}, p tok' = p tok →
      lastIndex p toks' = lastIndex p toks →
        lastIndex p (tok' :: toks') = lastIndex p (tok :: toks) := by
    intro tok tok' toks toks' htok htoks
    cases hl : lastIndex p toks with
    | none => rw [lastIndex_cons_none (htoks.trans hl), lastIndex_cons_none hl, htok]
    | some i => rw [lastIndex_cons_some (htoks.trans hl), lastIndex_cons_some hl]
  induction toks generalizing i with
  | nil => simp [addSize]
  | cons tok toks ih =>
      cases i with
      | zero => exact hcons (hp _ _) rfl
      | succ i => exact hcons rfl (ih i)

/-- A stronger property that the last token has. -/
theorem lastIndex_and {q : Jsmntok → Bool} (h : lastIndex p l = some i)
    (hq : l[i]?.any q = true) : lastIndex (fun tok => q tok && p tok) l = some i := by
  induction l generalizing i with
  | nil => cases h
  | cons tok l ih =>
      cases hl : lastIndex p l with
      | none =>
          rw [lastIndex_cons_none hl] at h
          split_ifs at h with hp
          cases h
          have hnone : lastIndex (fun tok => q tok && p tok) l = none := by
            rw [lastIndex_eq_none_iff] at hl ⊢
            intro t ht
            rw [hl t ht, Bool.and_false]
          simp only [List.getElem?_cons_zero, Option.any_some] at hq
          rw [lastIndex_cons_none hnone, hq, hp]
          rfl
      | some j =>
          rw [lastIndex_cons_some hl] at h
          cases h
          exact lastIndex_cons_some (ih hl hq)

end lastIndex

/-! ## The loop on parts of a text -/

section loop

variable {numTokens pos : ℕ} {parser : JsmnParser} {js : List UInt8}

/-- Characters that have been read already are passed over. -/
theorem jsmnLoop_skip (s js : List UInt8) :
    jsmnLoop numTokens (s ++ js) s.length pos parser =
      jsmnLoop numTokens js 0 (pos + s.length) parser := by
  induction s generalizing pos with
  | nil => rfl
  | cons c s ih =>
      refine ih.trans ?_
      rw [List.length_cons]
      congr 1
      omega

/-- A `{`. -/
theorem jsmnLoop_openObject :
    jsmnLoop numTokens ('{'.toUInt8 :: js) 0 pos parser =
      (parser.openToken .object pos numTokens).bind (jsmnLoop numTokens js 0 (pos + 1)) := rfl

/-- A `[`. -/
theorem jsmnLoop_openArray :
    jsmnLoop numTokens ('['.toUInt8 :: js) 0 pos parser =
      (parser.openToken .array pos numTokens).bind (jsmnLoop numTokens js 0 (pos + 1)) := rfl

/-- A `}`. -/
theorem jsmnLoop_closeObject :
    jsmnLoop numTokens ('}'.toUInt8 :: js) 0 pos parser =
      (parser.closeToken .object pos).bind (jsmnLoop numTokens js 0 (pos + 1)) := rfl

/-- A `]`. -/
theorem jsmnLoop_closeArray :
    jsmnLoop numTokens (']'.toUInt8 :: js) 0 pos parser =
      (parser.closeToken .array pos).bind (jsmnLoop numTokens js 0 (pos + 1)) := rfl

/-- A `:`. -/
theorem jsmnLoop_colon :
    jsmnLoop numTokens (':'.toUInt8 :: js) 0 pos parser =
      jsmnLoop numTokens js 0 (pos + 1) parser.colon := rfl

/-- A `,`. -/
theorem jsmnLoop_comma :
    jsmnLoop numTokens (','.toUInt8 :: js) 0 pos parser =
      jsmnLoop numTokens js 0 (pos + 1) parser.comma := rfl

/-- White space is white space for the parser. -/
theorem isBlank_eq (c : UInt8) : isBlank c = Json.isBlank c := by
  unfold isBlank Json.isBlank
  simp only [decide_eq_decide]
  tauto

/-- White space is passed over. -/
theorem jsmnLoop_blank (blank : Blank) (js : List UInt8) :
    jsmnLoop numTokens (blank.text ++ js) 0 pos parser =
      jsmnLoop numTokens js 0 (pos + blank.text.length) parser := by
  obtain ⟨s, hs⟩ := blank
  induction s generalizing pos with
  | nil => rfl
  | cons c s ih =>
      have hc : isBlank c = true := (isBlank_eq c).trans (hs c List.mem_cons_self)
      have hbracket : ∀ d : UInt8, isBlank d = false → c ≠ d := by
        rintro d hd rfl
        rw [hc] at hd
        cases hd
      rw [List.cons_append, jsmnLoop, if_neg (hbracket _ (by decide)),
        if_neg (hbracket _ (by decide)), if_neg (hbracket _ (by decide)),
        if_neg (hbracket _ (by decide)), if_neg (hbracket _ (by decide)), if_pos hc]
      rw [ih fun d hd => hs d (List.mem_cons_of_mem _ hd)]
      congr 1
      simp only [List.length_cons]
      omega

/-- The closing quote. -/
theorem jsmnParseString_quote (js : List UInt8) : jsmnParseString ('"'.toUInt8 :: js) = some 0 := by
  rw [jsmnParseString.eq_def]
  exact if_pos rfl

/-- An ordinary character. -/
theorem jsmnParseString_plain {c : UInt8} (hquote : c ≠ '"'.toUInt8) (hescape : c ≠ '\\'.toUInt8)
    (js : List UInt8) : jsmnParseString (c :: js) = (jsmnParseString js).map (· + 1) := by
  rw [jsmnParseString.eq_def]
  simp only [if_neg hquote, if_neg hescape]

/-- An escape sequence of two characters. -/
theorem jsmnParseString_escaped {d : UInt8} (hd : isEscaped d = true) (js : List UInt8) :
    jsmnParseString ('\\'.toUInt8 :: d :: js) = (jsmnParseString js).map (· + 2) := by
  rw [jsmnParseString.eq_def]
  simp only [if_neg (show '\\'.toUInt8 ≠ '"'.toUInt8 by decide), if_true, hd]

/-- An escape sequence with four hex digits. -/
theorem jsmnParseString_unicode {h i j k : UInt8} (hhex : [h, i, j, k].all isHexDigit = true)
    (js : List UInt8) :
    jsmnParseString ('\\'.toUInt8 :: 'u'.toUInt8 :: h :: i :: j :: k :: js) =
      (jsmnParseString js).map (· + 6) := by
  rw [jsmnParseString.eq_def]
  simp only [if_neg (show '\\'.toUInt8 ≠ '"'.toUInt8 by decide), if_true, hhex,
    if_neg (show ¬ isEscaped 'u'.toUInt8 = true by decide)]

/-- The parser finds the end of a string. -/
theorem jsmnParseString_body {s : List UInt8} (h : isBody s = true) (js : List UInt8) :
    jsmnParseString (s ++ '"'.toUInt8 :: js) = some s.length := by
  fun_induction isBody s with
  | case1 => exact jsmnParseString_quote js
  | case2 s => cases h
  | case3 => cases h
  | case4 d s hd _ ih =>
      have hescaped : isEscaped d = true := decide_eq_true hd
      simp only [List.cons_append, jsmnParseString_escaped hescaped, ih h, Option.map_some,
        List.length_cons]
  | case5 h₀ i j k s _ _ ih =>
      rw [Bool.and_eq_true] at h
      have hhex : [h₀, i, j, k].all isHexDigit = true := h.1
      simp only [List.cons_append, jsmnParseString_unicode hhex, ih h.2, Option.map_some,
        List.length_cons]
  | case6 => cases h
  | case7 => cases h
  | case8 c s hquote hescape ih =>
      rw [Bool.and_eq_true] at h
      rw [List.cons_append, jsmnParseString_plain hquote hescape, ih h.2, Option.map_some,
        List.length_cons]

/-- A string. -/
theorem jsmnLoop_string (body : Body) (js : List UInt8) :
    jsmnLoop numTokens (quoted body ++ js) 0 pos parser =
      (parser.addToken .string (pos + 1) (pos + 1 + body.text.length) numTokens).bind
        (jsmnLoop numTokens js 0 (pos + (quoted body).length)) := by
  have hscan := jsmnParseString_body body.isBody js
  unfold quoted
  rw [List.cons_append, jsmnLoop, if_neg (by decide), if_neg (by decide), if_neg (by decide),
    if_neg (by decide), if_pos rfl, List.append_assoc, List.singleton_append, hscan]
  simp only [Option.bind_some]
  congr 1
  funext parser
  have hskip := @jsmnLoop_skip numTokens (pos + 1) parser (body.text ++ ['"'.toUInt8]) js
  rw [List.append_assoc, List.singleton_append, List.length_append, List.length_singleton] at hskip
  rw [hskip]
  congr 1
  simp only [List.length_cons, List.length_append, List.length_nil]
  omega

/-- A character of a scalar has a meaning for no other token. -/
theorem scalarChar_spec {c : UInt8} (h : isScalarChar c = true) :
    endsPrimitive c = false ∧ ¬ (c < 32 ∨ 127 ≤ c) ∧ c ≠ '{'.toUInt8 ∧ c ≠ '['.toUInt8 ∧
      c ≠ '"'.toUInt8 := by
  have hcolon : ':'.toUInt8 = 58 := by decide
  have hcomma : ','.toUInt8 = 44 := by decide
  have hopen : '['.toUInt8 = 91 := by decide
  have hclose : ']'.toUInt8 = 93 := by decide
  have hopen' : '{'.toUInt8 = 123 := by decide
  have hclose' : '}'.toUInt8 = 125 := by decide
  have hquote : '"'.toUInt8 = 34 := by decide
  simp only [isScalarChar, decide_eq_true_eq, endsPrimitive, isBlank, decide_eq_false_iff_not,
    hcolon, hcomma, hopen, hclose, hopen', hclose', hquote, UInt8.le_iff_toNat_le,
    UInt8.lt_iff_toNat_lt, ← UInt8.toNat_inj, UInt8.reduceToNat, ne_eq] at h ⊢
  omega

/-- The parser finds the end of a primitive. -/
theorem jsmnParsePrimitive_scalar {s js : List UInt8} (hs : ∀ c ∈ s, isScalarChar c = true)
    (hjs : ∀ c ∈ js.head?, endsPrimitive c = true) :
    jsmnParsePrimitive (s ++ js) = some s.length := by
  induction s with
  | nil =>
      cases js with
      | nil => rfl
      | cons c js => rw [List.nil_append, jsmnParsePrimitive, if_pos (hjs c rfl), List.length_nil]
  | cons c s ih =>
      obtain ⟨hend, hprint, -⟩ := scalarChar_spec (hs c List.mem_cons_self)
      rw [List.cons_append, jsmnParsePrimitive, hend, if_neg (by decide), if_neg hprint,
        ih fun d hd => hs d (List.mem_cons_of_mem _ hd), Option.map_some, List.length_cons]

/-- A number or a word. -/
theorem jsmnLoop_scalar (scalar : Scalar) (hjs : ∀ c ∈ js.head?, endsPrimitive c = true) :
    jsmnLoop numTokens (scalar.text ++ js) 0 pos parser =
      (parser.addToken .primitive pos (pos + scalar.text.length) numTokens).bind
        (jsmnLoop numTokens js 0 (pos + scalar.text.length)) := by
  obtain ⟨s, hne, hs⟩ := scalar
  obtain ⟨c, s, rfl⟩ := List.exists_cons_of_ne_nil hne
  have hscan := jsmnParsePrimitive_scalar hs hjs
  obtain ⟨hend, -, hopen, hopen', hquote⟩ := scalarChar_spec (hs c List.mem_cons_self)
  simp only [endsPrimitive, decide_eq_false_iff_not, not_or, Bool.not_eq_true] at hend
  obtain ⟨hcolon, hblank, hcomma, hclose, hclose'⟩ := hend
  have hskip := fun parser => @jsmnLoop_skip numTokens (pos + 1) parser s js
  rw [List.cons_append, jsmnLoop, if_neg hopen, if_neg hopen', if_neg hclose', if_neg hclose,
    if_neg hquote, hblank, if_neg (by decide), if_neg hcolon, if_neg hcomma, ← List.cons_append,
    hscan]
  simp only [Option.bind_some, List.length_cons, Nat.add_sub_cancel, hskip]
  congr 1
  funext parser
  congr 1
  omega

end loop

/-! ## Nodes and tokens -/

/-- The type of the token of a node. -/
def JsmnType.ofKind : Kind → JsmnType
  | .string => .string
  | .scalar => .primitive
  | .array => .array
  | .object => .object

/-- The token of a node. -/
def Jsmntok.ofNode (n : Node) : Jsmntok :=
  ⟨.ofKind n.kind, sizeToInt n.start, sizeToInt n.stop, n.size⟩

/-- The position of an `int` is not the mark of an open token. -/
theorem sizeToInt_ne_neg_one {n : ℕ} (h : n < 2 ^ 31) : sizeToInt n ≠ -1 := by
  rw [sizeToInt_of_lt h]
  omega

/-- A token that ends at a position is closed. -/
theorem isOpen_of_stop {tok : Jsmntok} {n : ℕ} (h : n < 2 ^ 31) (hstop : tok.stop = sizeToInt n) :
    tok.isOpen = false := by
  unfold Jsmntok.isOpen
  rw [decide_eq_false_iff_not, hstop]
  exact fun hopen => sizeToInt_ne_neg_one h hopen.2

/-- The token of a node is closed. -/
theorem isOpen_ofNode {n : Node} (h : n.stop < 2 ^ 31) : (Jsmntok.ofNode n).isOpen = false :=
  isOpen_of_stop h (by simp only [Jsmntok.ofNode])

/-- Closing a token that is followed by closed ones only. -/
theorem closeToken_eq {pre inner : List Jsmntok} {tok : Jsmntok} {type : JsmnType} {pos : ℕ}
    (htok : tok.isOpen = true) (htype : tok.type = type)
    (hinner : ∀ t ∈ inner, Jsmntok.isOpen t = false) (hpos : pos + 1 < 2 ^ 31)
    (toksuper : Option ℕ) :
    JsmnParser.closeToken ⟨pre ++ tok :: inner, toksuper⟩ type pos =
      some ⟨pre ++ { tok with stop := sizeToInt (pos + 1) } :: inner,
        lastIndex Jsmntok.isOpen pre⟩ := by
  subst htype
  have hlast : lastIndex Jsmntok.isOpen (pre ++ tok :: inner) = some pre.length := by
    rw [lastIndex_append, lastIndex, lastIndex_eq_none_iff.mpr hinner]
    simp only [htok, if_true, Nat.add_zero]
  have hclosed : Jsmntok.isOpen { tok with stop := sizeToInt (pos + 1) } = false :=
    isOpen_of_stop hpos (by simp only)
  unfold JsmnParser.closeToken
  simp only [hlast, List.getElem?_append_right le_rfl, Nat.sub_self, List.getElem?_cons_zero,
    ne_eq, not_true_eq_false, if_false, List.set_append_right _ _ le_rfl,
    List.set_cons_zero]
  have htake : (pre ++ { tok with stop := sizeToInt (pos + 1) } :: inner).take (pre.length + 1) =
      pre ++ [{ tok with stop := sizeToInt (pos + 1) }] := by
    rw [List.take_length_add_append, List.take_succ_cons, List.take_zero]
  have hopen : ∀ t ∈ [({ tok with stop := sizeToInt (pos + 1) } : Jsmntok)], t.isOpen = false := by
    intro t ht
    rw [List.mem_singleton.mp ht, hclosed]
  rw [htake, lastIndex_append_none pre hopen]

/-! ## The loop on values -/

/-- The innermost open token is the array or object `i`. -/
def Inside (i : ℕ) (toks : List Jsmntok) : Prop :=
  lastIndex Jsmntok.isOpen toks = some i ∧ toks[i]?.any Jsmntok.isContainer = true

theorem Inside.lt {i : ℕ} {toks : List Jsmntok} (h : Inside i toks) : i < toks.length := by
  obtain ⟨tok, htok, -⟩ := lastIndex_eq_some h.1
  exact (List.getElem?_eq_some_iff.mp htok).1

/-- Counting a member or adding closed tokens does not leave the container. -/
theorem Inside.add {i : ℕ} {toks : List Jsmntok} (h : Inside i toks) (n : ℕ)
    {l : List Jsmntok} (hl : ∀ t ∈ l, Jsmntok.isOpen t = false) :
    Inside i (addSize i n toks ++ l) := by
  constructor
  · rw [lastIndex_append_none _ hl, lastIndex_addSize (fun _ _ => rfl), h.1]
  · rw [List.getElem?_append_left (by rw [length_addSize]; exact h.lt)]
    unfold addSize
    rw [List.getElem?_modify]
    have hi := h.2
    rcases htok : toks[i]? with _ | tok
    · rw [htok] at hi
      cases hi
    · rw [htok] at hi
      simpa [Jsmntok.isContainer] using hi

/-- Inside a container a `,` changes nothing if the container is the one that counts. -/
theorem Inside.comma_self {i : ℕ} {toks : List Jsmntok} (h : Inside i toks) :
    JsmnParser.comma ⟨toks, some i⟩ = ⟨toks, some i⟩ := by
  unfold JsmnParser.comma
  simp only [h.2, if_true]

/-- After a `,` the container is the one that counts, not the key in front of a value. -/
theorem Inside.comma_key {i k : ℕ} {toks : List Jsmntok} (h : Inside i toks)
    (hk : toks[k]?.any Jsmntok.isContainer = false) :
    JsmnParser.comma ⟨toks, some k⟩ = ⟨toks, some i⟩ := by
  unfold JsmnParser.comma
  simp only [hk, Bool.false_eq_true, if_false]
  rw [lastIndex_and h.1 h.2]

/-- What `toksuper` is behind a value. -/
def superAfter (toks : List Jsmntok) (toksuper : Option ℕ) : Value → Option ℕ
  | .string _ => toksuper
  | .scalar _ => toksuper
  | _ => lastIndex Jsmntok.isOpen toks

/-- The head of white space and what stands behind it. -/
theorem head?_blank {blank : Blank} {js : List UInt8}
    (h : ∀ c ∈ js.head?, endsPrimitive c = true) :
    ∀ c ∈ (blank.text ++ js).head?, endsPrimitive c = true := by
  obtain ⟨s, hs⟩ := blank
  cases s with
  | nil => exact h
  | cons c s =>
      intro d hd
      obtain rfl : c = d := by simpa using hd
      have := (isBlank_eq c).trans (hs c List.mem_cons_self)
      simp [endsPrimitive, this]

variable {numTokens : ℕ}

/-- A string or a primitive, if there is room. -/
theorem addToken_eq {toks : List Jsmntok} (toksuper : Option ℕ) (n : Node) {type : JsmnType}
    (htype : type = .ofKind n.kind) (hsize : n.size = 0) (hroom : toks.length < numTokens) :
    JsmnParser.addToken ⟨toks, toksuper⟩ type n.start n.stop numTokens =
      some ⟨countIn toksuper toks ++ [.ofNode n], toksuper⟩ := by
  subst htype
  unfold JsmnParser.addToken Jsmntok.ofNode
  simp only [ge_iff_le, not_le.mpr hroom, if_false, hsize]

/-- An array or an object that has been opened. -/
def Jsmntok.opened (kind : Kind) (pos size : ℕ) : Jsmntok :=
  ⟨.ofKind kind, sizeToInt pos, -1, size⟩

theorem isOpen_opened {kind : Kind} {pos size : ℕ} (h : pos < 2 ^ 31) :
    (Jsmntok.opened kind pos size).isOpen = true := by
  unfold Jsmntok.isOpen Jsmntok.opened
  simp only [ne_eq, sizeToInt_ne_neg_one h, not_false_eq_true, and_self, decide_true]

/-- Opening an array or an object, if there is room. -/
theorem openToken_eq {toks : List Jsmntok} (toksuper : Option ℕ) (kind : Kind) (pos : ℕ)
    (hroom : toks.length < numTokens) :
    JsmnParser.openToken ⟨toks, toksuper⟩ (.ofKind kind) pos numTokens =
      some ⟨countIn toksuper toks ++ [.opened kind pos 0], some toks.length⟩ := by
  unfold JsmnParser.openToken Jsmntok.opened
  simp only [ge_iff_le, not_le.mpr hroom, if_false]

/-- Closing it. -/
theorem closeToken_opened {pre : List Jsmntok} {kind : Kind} {pos n q : ℕ} {nodes : List Node}
    (hnodes : ∀ m ∈ nodes, m.stop < 2 ^ 31) (hpos : pos < 2 ^ 31) (hq : q + 1 < 2 ^ 31)
    {text : List UInt8} (htext : pos + text.length = q + 1) (toksuper : Option ℕ) :
    JsmnParser.closeToken
        ⟨addSize pre.length n (pre ++ [.opened kind pos 0]) ++ nodes.map .ofNode, toksuper⟩
        (.ofKind kind) q =
      some ⟨pre ++ (⟨kind, pos, text, n⟩ :: nodes : List Node).map .ofNode,
        lastIndex Jsmntok.isOpen pre⟩ := by
  have hclosed : ∀ t ∈ nodes.map Jsmntok.ofNode, Jsmntok.isOpen t = false := by
    intro t ht
    obtain ⟨m, hm, rfl⟩ := List.mem_map.mp ht
    exact isOpen_ofNode (hnodes m hm)
  have hsize := addSize_length n pre (.opened kind pos 0) []
  have hopened : ({ Jsmntok.opened kind pos 0 with size := (Jsmntok.opened kind pos 0).size + n } :
      Jsmntok) = .opened kind pos n := by
    unfold Jsmntok.opened
    simp only [Nat.zero_add]
  rw [hopened] at hsize
  have hclose := @closeToken_eq pre _ (.opened kind pos n) (.ofKind kind) q (isOpen_opened hpos)
    (by unfold Jsmntok.opened; simp only) hclosed hq toksuper
  rw [hsize, List.append_assoc, List.singleton_append, hclose]
  simp only [Jsmntok.opened, List.map_cons, Jsmntok.ofNode, Node.stop, htext]

/-- An array or an object, from what the loop does between its brackets. -/
theorem jsmnLoop_container {kind : Kind} {o c : UInt8} {pos : ℕ} {toks : List Jsmntok}
    {toksuper : Option ℕ} {inner js : List UInt8} {n : ℕ} {nodes : List Node}
    (hopen : ∀ {pos parser js}, jsmnLoop numTokens (o :: js) 0 pos parser =
      (JsmnParser.openToken parser (.ofKind kind) pos numTokens).bind
        (jsmnLoop numTokens js 0 (pos + 1)))
    (hclose : ∀ {pos parser js}, jsmnLoop numTokens (c :: js) 0 pos parser =
      (JsmnParser.closeToken parser (.ofKind kind) pos).bind (jsmnLoop numTokens js 0 (pos + 1)))
    (hroom : toks.length < numTokens)
    (hpos : pos + (o :: (inner ++ [c])).length < 2 ^ 31) (hnodes : ∀ m ∈ nodes, m.stop < 2 ^ 31)
    (hinner : ∀ pre : List Jsmntok, pre.length = toks.length → ∃ toksuper',
      jsmnLoop numTokens (inner ++ c :: js) 0 (pos + 1)
          ⟨pre ++ [.opened kind pos 0], some pre.length⟩ =
        jsmnLoop numTokens (c :: js) 0 (pos + 1 + inner.length)
          ⟨addSize pre.length n (pre ++ [.opened kind pos 0]) ++ nodes.map .ofNode, toksuper'⟩) :
    jsmnLoop numTokens (o :: (inner ++ [c]) ++ js) 0 pos ⟨toks, toksuper⟩ =
      jsmnLoop numTokens js 0 (pos + (o :: (inner ++ [c])).length)
        ⟨countIn toksuper toks ++
          (⟨kind, pos, o :: (inner ++ [c]), n⟩ :: nodes : List Node).map .ofNode,
          lastIndex Jsmntok.isOpen toks⟩ := by
  have hlen : (o :: (inner ++ [c])).length = inner.length + 2 := by
    simp only [List.length_cons, List.length_append, List.length_nil]
  rw [hlen] at hpos
  have hlast : lastIndex Jsmntok.isOpen (countIn toksuper toks) = lastIndex Jsmntok.isOpen toks := by
    cases toksuper with
    | none => rfl
    | some i => exact lastIndex_addSize (fun _ _ => rfl) i 1 toks
  obtain ⟨toksuper', hloop⟩ := hinner (countIn toksuper toks) (length_countIn _ _)
  have hclosed := @closeToken_opened (countIn toksuper toks) kind pos n (pos + 1 + inner.length)
    nodes hnodes (by omega) (by omega) (o :: (inner ++ [c])) (by omega) toksuper'
  rw [length_countIn] at hloop hclosed
  rw [List.cons_append, hopen, openToken_eq toksuper kind pos hroom, Option.bind_some,
    List.append_assoc, List.singleton_append, hloop, hclose, hclosed, Option.bind_some, hlast, hlen]
  congr 1
  omega

/-- Behind an opening bracket the loop is inside. -/
theorem inside_opened {kind : Kind} {pos : ℕ} (hpos : pos < 2 ^ 31)
    (hkind : kind = .array ∨ kind = .object) (pre : List Jsmntok) :
    Inside pre.length (pre ++ [.opened kind pos 0]) := by
  constructor
  · rw [lastIndex_append, lastIndex_singleton (isOpen_opened hpos)]
    rfl
  · rw [List.getElem?_append_right le_rfl, Nat.sub_self, List.getElem?_cons_zero, Option.any_some]
    unfold Jsmntok.isContainer Jsmntok.opened JsmnType.ofKind
    rcases hkind with rfl | rfl
    · simp only [true_or, decide_true]
    · simp only [or_true, decide_true]

/-- Closing characters end a primitive. -/
theorem head?_delimiter {d : UInt8} (hd : endsPrimitive d = true) (js : List UInt8) :
    ∀ c ∈ (d :: js).head?, endsPrimitive c = true := by
  intro c hc
  obtain rfl : d = c := by simpa using hc
  exact hd

/-- Tokens of nodes are closed. -/
theorem isOpen_map_ofNode {nodes : List Node} (h : ∀ m ∈ nodes, m.stop < 2 ^ 31) :
    ∀ t ∈ nodes.map Jsmntok.ofNode, Jsmntok.isOpen t = false := by
  intro t ht
  obtain ⟨m, hm, rfl⟩ := List.mem_map.mp ht
  exact isOpen_ofNode (h m hm)

/-- Behind a value inside a container either that container counts, or what counted before. -/
theorem superAfter_inside {i : ℕ} {toks : List Jsmntok} (h : Inside i toks)
    (toksuper : Option ℕ) (value : Value) :
    superAfter toks toksuper value = toksuper ∨ superAfter toks toksuper value = some i := by
  cases value with
  | string body => exact Or.inl rfl
  | scalar scalar => exact Or.inl rfl
  | emptyArray blank => exact Or.inr h.1
  | array blank elems => exact Or.inr h.1
  | emptyObject blank => exact Or.inr h.1
  | object blank members => exact Or.inr h.1

/-- After a `,` behind a member the object is the one that counts. -/
theorem Inside.comma_member {i p : ℕ} {toks : List Jsmntok} {key : List UInt8}
    {nodes : List Node} {toksuper : Option ℕ}
    (h : Inside i (addSize i 1 toks ++ (⟨.string, p, key, 1⟩ :: nodes : List Node).map .ofNode))
    (hsuper : toksuper = some toks.length ∨ toksuper = some i) :
    JsmnParser.comma
        ⟨addSize i 1 toks ++ (⟨.string, p, key, 1⟩ :: nodes : List Node).map .ofNode, toksuper⟩ =
      ⟨addSize i 1 toks ++ (⟨.string, p, key, 1⟩ :: nodes : List Node).map .ofNode, some i⟩ := by
  rcases hsuper with rfl | rfl
  · apply h.comma_key
    rw [List.getElem?_append_right (by rw [length_addSize]), length_addSize, Nat.sub_self,
      List.map_cons, List.getElem?_cons_zero, Option.any_some]
    simp only [Jsmntok.isContainer, Jsmntok.ofNode, JsmnType.ofKind, reduceCtorEq, or_self,
      decide_false]
  · exact h.comma_self

/-- The loop on a member: the object counts the key, and the key counts its value. What counts
afterwards is the key or the object. -/
theorem jsmnLoop_member {key : Body} {afterKey beforeValue : Blank} {value : Value}
    {pos q i : ℕ} {toks : List Jsmntok} {js : List UInt8} (hin : Inside i toks)
    (hq : q = pos + (quoted key).length + afterKey.text.length + 1 + beforeValue.text.length)
    (hpos : q < 2 ^ 31) (hroom : toks.length < numTokens)
    (hvalue : ∀ toks' : List Jsmntok, toks'.length = toks.length + 1 →
      jsmnLoop numTokens (value.text ++ js) 0 q ⟨toks', some toks.length⟩ =
        jsmnLoop numTokens js 0 (q + value.text.length)
          ⟨countIn (some toks.length) toks' ++ (value.nodes q).map .ofNode,
            superAfter toks' (some toks.length) value⟩) :
    ∃ toksuper, (toksuper = some toks.length ∨ toksuper = some i) ∧
      jsmnLoop numTokens (quoted key ++ (afterKey.text ++
          ':'.toUInt8 :: (beforeValue.text ++ (value.text ++ js)))) 0 pos ⟨toks, some i⟩ =
        jsmnLoop numTokens js 0 (q + value.text.length)
          ⟨addSize i 1 toks ++
            (⟨.string, pos + 1, key.text, 1⟩ :: value.nodes q : List Node).map .ofNode, toksuper⟩ := by
  rw [length_quoted] at hq
  have hstop : Node.stop ⟨.string, pos + 1, key.text, 0⟩ < 2 ^ 31 := by
    simp only [Node.stop]
    omega
  have hadd := @addToken_eq numTokens toks (some i) ⟨.string, pos + 1, key.text, 0⟩ .string rfl rfl
    hroom
  have hin' : Inside i (addSize i 1 toks ++ [.ofNode ⟨.string, pos + 1, key.text, 0⟩]) :=
    hin.add 1 fun t ht => by rw [List.mem_singleton.mp ht]; exact isOpen_ofNode hstop
  have hlen : (addSize i 1 toks ++
      [Jsmntok.ofNode ⟨.string, pos + 1, key.text, 0⟩]).length = toks.length + 1 := by
    rw [List.length_append, length_addSize, List.length_singleton]
  have hcolon : JsmnParser.colon ⟨addSize i 1 toks ++ [.ofNode ⟨.string, pos + 1, key.text, 0⟩],
      some i⟩ = ⟨addSize i 1 toks ++ [.ofNode ⟨.string, pos + 1, key.text, 0⟩],
        some toks.length⟩ := by
    unfold JsmnParser.colon
    simp only [hlen, Nat.add_sub_cancel]
    rw [if_neg (by simp)]
  have hkey := addSize_length 1 (addSize i 1 toks) (.ofNode ⟨.string, pos + 1, key.text, 0⟩) []
  rw [length_addSize] at hkey
  refine ⟨_, superAfter_inside hin' (some toks.length) value, ?_⟩
  rw [jsmnLoop_string]
  refine (congrArg (fun parser => Option.bind parser _) hadd).trans ?_
  rw [Option.bind_some, countIn_some, jsmnLoop_blank, jsmnLoop_colon, hcolon, jsmnLoop_blank,
    length_quoted, show pos + (key.text.length + 2) + afterKey.text.length + 1 +
      beforeValue.text.length = q by omega, hvalue _ hlen, countIn_some, hkey]
  simp only [List.map_cons, List.append_assoc, List.singleton_append, Jsmntok.ofNode, Node.stop,
    Nat.zero_add]

mutual

/-- **The loop on a value**: its nodes are added, and it counts where `toksuper` says. -/
theorem jsmnLoop_value : ∀ (value : Value) {pos : ℕ} {toks : List Jsmntok} {toksuper : Option ℕ}
    {js : List UInt8}, pos + value.text.length < 2 ^ 31 →
    toks.length + (value.nodes pos).length ≤ numTokens →
    (∀ c ∈ js.head?, endsPrimitive c = true) →
    jsmnLoop numTokens (value.text ++ js) 0 pos ⟨toks, toksuper⟩ =
      jsmnLoop numTokens js 0 (pos + value.text.length)
        ⟨countIn toksuper toks ++ (value.nodes pos).map .ofNode, superAfter toks toksuper value⟩
  | .string body, pos, toks, toksuper, js, hpos, hroom, hjs => by
      have hadd := @addToken_eq numTokens toks toksuper ⟨.string, pos + 1, body.text, 0⟩ .string rfl rfl
        hroom
      rw [Value.text, jsmnLoop_string]
      exact congrArg (fun parser => Option.bind parser _) hadd
  | .scalar scalar, pos, toks, toksuper, js, hpos, hroom, hjs => by
      have hadd := @addToken_eq numTokens toks toksuper ⟨.scalar, pos, scalar.text, 0⟩ .primitive rfl
        rfl hroom
      rw [Value.text, jsmnLoop_scalar scalar hjs]
      exact congrArg (fun parser => Option.bind parser _) hadd
  | .emptyArray blank, pos, toks, toksuper, js, hpos, hroom, hjs => by
      refine @jsmnLoop_container numTokens .array _ _ _ _ _ _ _ 0 [] jsmnLoop_openArray
        jsmnLoop_closeArray hroom hpos (by simp) fun pre hpre => ⟨some pre.length, ?_⟩
      rw [jsmnLoop_blank, addSize_length]
      simp
  | .array blank elems, pos, toks, toksuper, js, hpos, hroom, hjs => by
      have hwithin := Elems.nodes_within elems (pos + 1 + blank.text.length)
      simp only [Value.text, List.length_cons, List.length_append, List.length_nil] at hpos
      simp only [Value.nodes, List.length_cons] at hroom
      refine @jsmnLoop_container numTokens .array _ _ _ _ _ _ _ _ _ jsmnLoop_openArray
        jsmnLoop_closeArray (by omega)
        (by simp only [List.length_cons, List.length_append, List.length_nil]; omega)
        (fun m hm => by have := hwithin m hm; omega) fun pre hpre => ⟨some pre.length, ?_⟩
      rw [List.append_assoc, jsmnLoop_blank,
        jsmnLoop_elems elems (inside_opened (by omega) (Or.inl rfl) pre) (by omega)
          (by rw [List.length_append, List.length_singleton]; omega)
          (head?_delimiter (by decide) js)]
      rw [List.length_append, Nat.add_assoc (pos + 1)]
  | .emptyObject blank, pos, toks, toksuper, js, hpos, hroom, hjs => by
      refine @jsmnLoop_container numTokens .object _ _ _ _ _ _ _ 0 [] jsmnLoop_openObject
        jsmnLoop_closeObject hroom hpos (by simp) fun pre hpre => ⟨some pre.length, ?_⟩
      rw [jsmnLoop_blank, addSize_length]
      simp
  | .object blank members, pos, toks, toksuper, js, hpos, hroom, hjs => by
      have hwithin := Members.nodes_within members (pos + 1 + blank.text.length)
      simp only [Value.text, List.length_cons, List.length_append, List.length_nil] at hpos
      simp only [Value.nodes, List.length_cons] at hroom
      refine @jsmnLoop_container numTokens .object _ _ _ _ _ _ _ _ _ jsmnLoop_openObject
        jsmnLoop_closeObject (by omega)
        (by simp only [List.length_cons, List.length_append, List.length_nil]; omega)
        (fun m hm => by have := hwithin m hm; omega) fun pre hpre => ?_
      have hin := @inside_opened .object pos (by omega) (Or.inr rfl) pre
      have hdelim := @head?_delimiter '}'.toUInt8 (by decide) js
      obtain ⟨toksuper', hloop⟩ :=
        @jsmnLoop_members members (pos + 1 + blank.text.length) _ _ _ hin (by omega)
          (by rw [List.length_append, List.length_singleton]; omega) hdelim
      refine ⟨toksuper', ?_⟩
      rw [List.append_assoc, jsmnLoop_blank, hloop, List.length_append, Nat.add_assoc (pos + 1)]

/-- **The loop on the elements of array `i`**: their nodes are added, and the array counts them. -/
theorem jsmnLoop_elems : ∀ (elems : Elems) {pos i : ℕ} {toks : List Jsmntok} {js : List UInt8},
    Inside i toks → pos + elems.text.length < 2 ^ 31 →
    toks.length + (elems.nodes pos).length ≤ numTokens →
    (∀ c ∈ js.head?, endsPrimitive c = true) →
    jsmnLoop numTokens (elems.text ++ js) 0 pos ⟨toks, some i⟩ =
      jsmnLoop numTokens js 0 (pos + elems.text.length)
        ⟨addSize i elems.count toks ++ (elems.nodes pos).map .ofNode, some i⟩
  | .last value after, pos, i, toks, js, hin, hpos, hroom, hjs => by
      simp only [Elems.text, List.length_append] at hpos ⊢
      have hvalue := @jsmnLoop_value value pos toks (some i) (after.text ++ js) (by omega) hroom
        (head?_blank hjs)
      have hsuper : superAfter toks (some i) value = some i := by
        rcases superAfter_inside hin (some i) value with h | h
        · exact h
        · exact h
      rw [List.append_assoc, hvalue, hsuper, jsmnLoop_blank, Nat.add_assoc]
      rfl
  | .cons value after before elems, pos, i, toks, js, hin, hpos, hroom, hjs => by
      simp only [Elems.text, List.length_append, List.length_cons] at hpos ⊢
      simp only [Elems.nodes, List.length_append] at hroom
      have hwithin := Value.nodes_within value pos
      have hvalue := @jsmnLoop_value value pos toks (some i)
        (after.text ++ ','.toUInt8 :: (before.text ++ (elems.text ++ js))) (by omega) (by omega)
        (head?_blank (head?_delimiter (by decide) _))
      have hsuper : superAfter toks (some i) value = some i := by
        rcases superAfter_inside hin (some i) value with h | h
        · exact h
        · exact h
      have hin' : Inside i (addSize i 1 toks ++ (value.nodes pos).map .ofNode) :=
        hin.add 1 (isOpen_map_ofNode fun m hm => by have := hwithin m hm; omega)
      have helems := @jsmnLoop_elems elems
        (pos + value.text.length + after.text.length + 1 + before.text.length) i
        (addSize i 1 toks ++ (value.nodes pos).map .ofNode) js hin' (by omega)
        (by rw [List.length_append, length_addSize, List.length_map]; omega) hjs
      simp only [List.append_assoc, List.cons_append] at hvalue ⊢
      rw [hvalue, hsuper, jsmnLoop_blank, jsmnLoop_comma, countIn_some, hin'.comma_self,
        jsmnLoop_blank, helems, addSize_append _ (by rw [length_addSize]; exact hin.lt),
        addSize_addSize, Elems.count, Nat.add_comm 1, Elems.nodes, List.map_append,
        List.append_assoc]
      congr 1
      omega

/-- **The loop on the members of object `i`**: their nodes are added, and the object counts them. -/
theorem jsmnLoop_members : ∀ (members : Members) {pos i : ℕ} {toks : List Jsmntok}
    {js : List UInt8}, Inside i toks → pos + members.text.length < 2 ^ 31 →
    toks.length + (members.nodes pos).length ≤ numTokens →
    (∀ c ∈ js.head?, endsPrimitive c = true) →
    ∃ toksuper, jsmnLoop numTokens (members.text ++ js) 0 pos ⟨toks, some i⟩ =
      jsmnLoop numTokens js 0 (pos + members.text.length)
        ⟨addSize i members.count toks ++ (members.nodes pos).map .ofNode, toksuper⟩
  | .last key afterKey beforeValue value after, pos, i, toks, js, hin, hpos, hroom, hjs => by
      simp only [Members.text, List.length_append, List.length_cons] at hpos ⊢
      simp only [Members.nodes, List.length_cons] at hroom
      have hvalue : ∀ toks' : List Jsmntok, toks'.length = toks.length + 1 → _ :=
        fun toks' hlen => @jsmnLoop_value value
          (pos + (quoted key).length + afterKey.text.length + 1 + beforeValue.text.length) toks'
          (some toks.length) (after.text ++ js) (by omega) (by omega) (head?_blank hjs)
      obtain ⟨toksuper, -, hmember⟩ := jsmnLoop_member hin rfl (by omega) (by omega) hvalue
      refine ⟨toksuper, ?_⟩
      simp only [List.append_assoc, List.cons_append]
      rw [hmember, jsmnLoop_blank, Members.count, Members.nodes]
      congr 1
      omega
  | .cons key afterKey beforeValue value after before members, pos, i, toks, js, hin, hpos, hroom,
      hjs => by
      simp only [Members.text, List.length_append, List.length_cons] at hpos ⊢
      simp only [Members.nodes, List.length_cons, List.length_append] at hroom
      obtain ⟨q, hq⟩ : ∃ q, q = pos + (quoted key).length + afterKey.text.length + 1 +
        beforeValue.text.length := ⟨_, rfl⟩
      rw [← hq] at hroom
      have hwithin := Value.nodes_within value q
      have hvalue : ∀ toks' : List Jsmntok, toks'.length = toks.length + 1 → _ :=
        fun toks' hlen => @jsmnLoop_value value q toks' (some toks.length)
          (after.text ++ ','.toUInt8 :: (before.text ++ (members.text ++ js))) (by omega) (by omega)
          (head?_blank (head?_delimiter (by decide) _))
      obtain ⟨toksuper, hsuper, hmember⟩ := jsmnLoop_member hin hq (by omega) (by omega) hvalue
      have hin' : Inside i (addSize i 1 toks ++
          (⟨.string, pos + 1, key.text, 1⟩ :: value.nodes q : List Node).map .ofNode) := by
        apply hin.add 1
        apply isOpen_map_ofNode
        intro m hm
        rcases List.mem_cons.mp hm with rfl | hm
        · simp only [Node.stop]
          rw [length_quoted] at hq hpos
          omega
        · have := hwithin m hm
          omega
      have hcomma := hin'.comma_member hsuper
      obtain ⟨toksuper', hmembers⟩ := @jsmnLoop_members members
        (q + value.text.length + after.text.length + 1 + before.text.length) i _ js hin' (by omega)
        (by rw [List.length_append, length_addSize, List.length_map, List.length_cons]; omega) hjs
      refine ⟨toksuper', ?_⟩
      simp only [List.append_assoc, List.cons_append]
      rw [hmember, jsmnLoop_blank, jsmnLoop_comma, hcomma, jsmnLoop_blank, hmembers,
        addSize_append _ (by rw [length_addSize]; exact hin.lt), addSize_addSize, Members.count,
        Nat.add_comm 1, Members.nodes, ← hq, ← List.cons_append, List.map_append, List.append_assoc]
      congr 1
      omega

end

/-! ## Documents -/

/-- A text without a `NUL` does not end early. -/
theorem takeWhile_ne_zero {s : List UInt8} (h : ∀ c ∈ s, c ≠ 0) :
    s.takeWhile (· ≠ 0) = s := by
  rw [List.takeWhile_eq_self_iff]
  intro c hc
  exact decide_eq_true (h c hc)

/-- **`jsmn_parse` finds the nodes of a document**, if there are tokens for them and an `int` holds
every position. -/
theorem jsmnParse_document (doc : Document) {numTokens : ℕ} (hlen : doc.text.length < 2 ^ 31)
    (hroom : doc.nodes.length ≤ numTokens) :
    jsmnParse doc.text numTokens = some (doc.nodes.map .ofNode) := by
  have hparts : doc.text.length =
      doc.before.text.length + doc.value.text.length + doc.after.text.length := by
    simp only [Document.text, List.length_append]
  have hwithin := doc.value.nodes_within doc.before.text.length
  have hvalue := @jsmnLoop_value numTokens doc.value doc.before.text.length [] none doc.after.text
    (by omega) (by rw [List.length_nil, Nat.zero_add]; exact hroom) (by
      have := @head?_blank doc.after [] (by simp)
      rwa [List.append_nil] at this)
  have hafter := @jsmnLoop_blank numTokens (doc.before.text.length + doc.value.text.length)
    ⟨countIn none [] ++ doc.nodes.map .ofNode, superAfter [] none doc.value⟩ doc.after []
  rw [List.append_nil] at hafter
  have hloop : jsmnLoop numTokens doc.text 0 0 ⟨[], none⟩ =
      some ⟨doc.nodes.map .ofNode, superAfter [] none doc.value⟩ := by
    rw [Document.text, List.append_assoc, jsmnLoop_blank, Nat.zero_add, hvalue]
    exact hafter
  have hopen : (doc.nodes.map Jsmntok.ofNode).any Jsmntok.isOpen = false := by
    rw [List.any_eq_false]
    intro tok htok
    rw [isOpen_map_ofNode (fun m hm => by have := hwithin m hm; omega) tok htok]
    exact Bool.false_ne_true
  unfold jsmnParse
  simp only [takeWhile_ne_zero doc.ne_zero, hloop, hopen, Bool.false_eq_true, if_false]
  rw [if_neg (by omega)]

end AnylWallet.Helpers
