import AnylWallet.Helpers.JsmnDocument
import AnylWallet.Lib.Nesting

/-!
# The tokens of any text

* `JsmnReads` is one round of the loop of `jsmn_parse`, with all that a string or a primitive takes.
  `jsmnLoop_induction`: what every round keeps holds behind the loop.
* `JsmnParser.Ordered` is what every round keeps: the tokens are parts of the text, of two tokens the
  later one lies behind the first one or inside it, and the sizes count tokens behind.
* `jsmnParse_wellFormed`: the text may be anything, in particular no JSON at all.
-/

namespace AnylWallet.Helpers

open AnylWallet.Lib

/-! ## Rounds of the loop -/

/-- The bracket that opens an object or an array. -/
def JsmnType.opener : JsmnType → Option UInt8
  | .object => some '{'.toUInt8
  | .array => some '['.toUInt8
  | .string => none
  | .primitive => none

/-- The bracket that closes it. -/
def JsmnType.closer : JsmnType → Option UInt8
  | .object => some '}'.toUInt8
  | .array => some ']'.toUInt8
  | .string => none
  | .primitive => none

/-- The closing quote is behind `n` characters: a quote among these is behind a backslash. -/
def ClosesAt (js : List UInt8) (n : ℕ) : Prop :=
  js[n]? = some '"'.toUInt8 ∧ ∀ k < n, js[k]? = some '"'.toUInt8 →
    ∃ i, k = i + 1 ∧ js[i]? = some '\\'.toUInt8

/-- `n` printable characters, in front of the end or of one that ends a primitive. -/
structure PrintableTo (js : List UInt8) (n : ℕ) : Prop where
  le : n ≤ js.length
  printable : ∀ k < n, ∀ c, js[k]? = some c → endsPrimitive c = false ∧ 32 ≤ c ∧ c < 127
  ends : ∀ c, js[n]? = some c → endsPrimitive c = true

/-- Characters that are read first, with no quote but behind a backslash. -/
theorem ClosesAt.append {js : List UInt8} {n : ℕ} (h : ClosesAt js n) (pre : List UInt8)
    (hpre : ∀ k < pre.length, pre[k]? = some '"'.toUInt8 →
      ∃ i, k = i + 1 ∧ pre[i]? = some '\\'.toUInt8) : ClosesAt (pre ++ js) (n + pre.length) := by
  have hback : ∀ i, (pre ++ js)[i + pre.length]? = js[i]? := fun i => by
    rw [List.getElem?_append_right (Nat.le_add_left _ _), Nat.add_sub_cancel]
  refine ⟨(hback n).trans h.1, fun k hk hquote => ?_⟩
  by_cases hlt : k < pre.length
  · rw [List.getElem?_append_left hlt] at hquote
    obtain ⟨i, rfl, hi⟩ := hpre k hlt hquote
    exact ⟨i, rfl, (List.getElem?_append_left (by omega)).trans hi⟩
  · obtain ⟨j, rfl⟩ := Nat.exists_eq_add_of_le' (Nat.le_of_not_lt hlt)
    obtain ⟨i, rfl, hi⟩ := h.2 j (by omega) ((hback j).symm.trans hquote)
    exact ⟨i + pre.length, by omega, (hback i).trans hi⟩

section loop

variable {numTokens pos : ℕ} {text : List UInt8} {parser parser' : JsmnParser}

end loop

/-! ## What a token is -/

/-- A token of this type from `start` to `stop`: a bracket that has not been closed, an object or an
array with both brackets, a string between two quotes, or a primitive. -/
inductive TokenOf (text : List UInt8) : JsmnType → ℤ → ℤ → Prop
  | opened {type : JsmnType} {p : ℕ} {c : UInt8} (hc : text[p]? = some c)
      (htype : type.opener = some c) : TokenOf text type p (-1)
  | bracketed {type : JsmnType} {p q : ℕ} {c d : UInt8} (hlt : p < q) (hc : text[p]? = some c)
      (hopener : type.opener = some c) (hd : text[q]? = some d) (hcloser : type.closer = some d) :
      TokenOf text type p ((q + 1 : ℕ) : ℤ)
  | string {p n : ℕ} (hc : text[p]? = some '"'.toUInt8) (h : ClosesAt (text.drop (p + 1)) n) :
      TokenOf text .string ((p + 1 : ℕ) : ℤ) ((p + 1 + n : ℕ) : ℤ)
  | primitive {p n : ℕ} (hn : 0 < n) (h : PrintableTo (text.drop p) n) :
      TokenOf text .primitive p ((p + n : ℕ) : ℤ)

/-- The token accounts for the character at `p`: it is one of its brackets or quotes, or a part of the
string or the primitive. -/
def Jsmntok.Covers (tok : Jsmntok) (p : ℕ) : Prop :=
  match tok.type with
  | .object => (p : ℤ) = tok.start ∨ (p : ℤ) + 1 = tok.stop
  | .array => (p : ℤ) = tok.start ∨ (p : ℤ) + 1 = tok.stop
  | .string => tok.start ≤ (p : ℤ) + 1 ∧ (p : ℤ) ≤ tok.stop
  | .primitive => tok.start ≤ (p : ℤ) ∧ (p : ℤ) < tok.stop

/-- The part of the text that the token is. -/
def Jsmntok.span (tok : Jsmntok) : Span where
  start := tok.start.toNat
  stop := if tok.stop = -1 then none else some tok.stop.toNat
  holds := tok.isContainer

/-- The token without its size. -/
def Jsmntok.bare (tok : Jsmntok) : Jsmntok := { tok with size := 0 }

/-- White space, a colon or a comma. -/
def isSeparator (c : UInt8) : Prop := isBlank c = true ∨ c = ':'.toUInt8 ∨ c = ','.toUInt8

/-- What is known of the tokens when `pos` is reached; their sizes do not matter. -/
structure Tokenized (text : List UInt8) (pos : ℕ) (toks : List Jsmntok) : Prop where
  tokenOf : ∀ tok ∈ toks, TokenOf text tok.type tok.start tok.stop
  nested : Nested pos (toks.map Jsmntok.span)
  covered : ∀ p < pos, ∀ c, text[p]? = some c → isSeparator c ∨ ∃ tok ∈ toks, tok.Covers p

section tokenized

variable {text : List UInt8} {pos pos' : ℕ} {toks pre post : List Jsmntok} {tok : Jsmntok}

/-- A token is added, which accounts for what has been read since. -/
theorem Tokenized.push (h : Tokenized text pos toks)
    (htok : TokenOf text tok.type tok.start tok.stop) (hstart : pos ≤ tok.span.start)
    (hwithin : tok.span.Within pos') (hcovers : ∀ p, pos ≤ p → p < pos' → tok.Covers p) :
    Tokenized text pos' (toks ++ [tok]) where
  tokenOf t ht := by
    rcases List.mem_append.mp ht with ht | ht
    · exact h.tokenOf t ht
    · rw [List.mem_singleton.mp ht]
      exact htok
  nested := by
    rw [List.map_append, List.map_singleton]
    exact h.nested.push hstart hwithin
  covered p hp c hc := by
    by_cases hlt : p < pos
    · refine (h.covered p hlt c hc).imp_right ?_
      rintro ⟨t, ht, hcovers⟩
      exact ⟨t, List.mem_append_left _ ht, hcovers⟩
    · exact Or.inr ⟨tok, List.mem_append_right _ List.mem_cons_self, hcovers p (by omega) hp⟩

end tokenized

/-! ## The operations of the parser -/

section parser

variable {text : List UInt8} {pos numTokens : ℕ} {toks : List Jsmntok}
  {parser parser' : JsmnParser} {type : JsmnType}

@[simp] theorem map_bare_countIn (toksuper : Option ℕ) (toks : List Jsmntok) :
    (countIn toksuper toks).map Jsmntok.bare = toks.map Jsmntok.bare := by
  cases toksuper with
  | none => rfl
  | some i =>
      refine List.ext_getElem? fun j => ?_
      rw [countIn, List.getElem?_map, List.getElem?_map, List.getElem?_modify]
      cases toks[j]? with
      | none => rfl
      | some tok =>
          refine congrArg some ?_
          split_ifs
          · rfl
          · rfl

/-- The sizes count tokens behind: each token that is added is counted at most once, by one in front of
it. -/
structure JsmnParser.Counted (parser : JsmnParser) : Prop where
  toksuper : ∀ i, parser.toksuper = some i → i < parser.toks.length
  size : ∀ i tok, parser.toks[i]? = some tok → i + tok.size < parser.toks.length
  sum : (parser.toks.map Jsmntok.size).sum ≤ parser.toks.length - 1

/-- One size grows by one. -/
theorem sum_size_modify_le (toks : List Jsmntok) (i : ℕ) :
    ((toks.modify i fun tok => { tok with size := tok.size + 1 }).map Jsmntok.size).sum ≤
      (toks.map Jsmntok.size).sum + 1 := by
  induction toks generalizing i with
  | nil => simp
  | cons tok toks ih =>
      cases i with
      | zero =>
          simp only [List.modify_zero_cons, List.map_cons, List.sum_cons]
          omega
      | succ i =>
          have := ih i
          simp only [List.modify_succ_cons, List.map_cons, List.sum_cons]
          omega

/-- A token of size 0 is added, and counted. -/
theorem JsmnParser.Counted.push (h : parser.Counted) {tok : Jsmntok} (hsize : tok.size = 0)
    (htoks : parser'.toks = countIn parser.toksuper parser.toks ++ [tok])
    (htoksuper : ∀ i, parser'.toksuper = some i → i < parser'.toks.length) : parser'.Counted := by
  have hlen : parser'.toks.length = parser.toks.length + 1 := by
    rw [htoks, List.length_append, length_countIn, List.length_singleton]
  -- what the size of an old token is
  have hold : ∀ i t, (countIn parser.toksuper parser.toks)[i]? = some t →
      i + t.size < parser.toks.length + 1 := by
    intro i t ht
    unfold countIn at ht
    split at ht
    · exact (h.size i t ht).trans (Nat.lt_succ_self _)
    · rw [List.getElem?_modify] at ht
      obtain ⟨t', ht', rfl⟩ := Option.map_eq_some_iff.mp ht
      have hlt := h.size i t' ht'
      split_ifs
      · dsimp only
        omega
      · exact hlt.trans (Nat.lt_succ_self _)
  refine ⟨htoksuper, fun i t ht => ?_, ?_⟩
  · rw [hlen]
    rw [htoks] at ht
    by_cases hi : i < (countIn parser.toksuper parser.toks).length
    · rw [List.getElem?_append_left hi] at ht
      exact hold i t ht
    · rw [List.getElem?_append_right (Nat.le_of_not_lt hi), List.getElem?_singleton,
        length_countIn] at ht
      rw [length_countIn] at hi
      split_ifs at ht with hzero
      rw [← Option.some.inj ht, hsize]
      omega
  · rw [htoks, List.map_append, List.sum_append, List.map_singleton, List.sum_singleton, hsize,
      ← htoks, hlen, Nat.add_sub_cancel, Nat.add_zero]
    have hsum := h.sum
    cases hsuper : parser.toksuper with
    | none =>
        rw [countIn]
        omega
    | some i =>
        have hlt := h.toksuper i hsuper
        have hle := sum_size_modify_le parser.toks i
        rw [countIn]
        omega

/-- Only the sizes matter, and where `toksuper` points to. -/
theorem JsmnParser.Counted.of_sizes (h : parser.Counted)
    (hsizes : parser'.toks.map Jsmntok.size = parser.toks.map Jsmntok.size)
    (htoksuper : ∀ i, parser'.toksuper = some i → i < parser'.toks.length) : parser'.Counted := by
  have hlen : parser'.toks.length = parser.toks.length := by
    simpa only [List.length_map] using congrArg List.length hsizes
  refine ⟨htoksuper, fun i tok htok => ?_, ?_⟩
  · have hmap : (parser.toks.map Jsmntok.size)[i]? = some tok.size := by
      rw [← hsizes, List.getElem?_map, htok]
      rfl
    obtain ⟨tok', htok', hsize⟩ := Option.map_eq_some_iff.mp (List.getElem?_map.symm.trans hmap)
    rw [hlen, ← hsize]
    exact h.size i tok' htok'
  · rw [hsizes, hlen]
    exact h.sum

/-- A comma counts no token. -/
theorem JsmnParser.Counted.comma (h : parser.Counted) : parser.comma.Counted := by
  refine h.of_sizes (by rw [JsmnParser.toks_comma]) fun i hi => ?_
  rw [JsmnParser.toks_comma]
  unfold JsmnParser.comma at hi
  split at hi
  · exact h.toksuper i hi
  · split_ifs at hi
    · exact h.toksuper i hi
    · split at hi
      · exact h.toksuper i hi
      · next j hlast =>
          obtain rfl := Option.some.inj hi
          obtain ⟨t, ht, -⟩ := lastIndex_eq_some hlast
          exact (List.getElem?_eq_some_iff.mp ht).1

/-- What is known of the parser when `pos` is reached. -/
structure JsmnParser.Ordered (text : List UInt8) (pos : ℕ) (parser : JsmnParser) : Prop where
  tokenized : Tokenized text pos (parser.toks.map Jsmntok.bare)
  counted : parser.Counted

/-- A token that is added. -/
theorem JsmnParser.Ordered.push (h : parser.Ordered text pos) {pos' start : ℕ} {stop : ℤ}
    (htoks : parser'.toks = countIn parser.toksuper parser.toks ++ [⟨type, start, stop, 0⟩])
    (htoksuper : ∀ i, parser'.toksuper = some i → i < parser'.toks.length)
    (htok : TokenOf text type start stop) (hstart : pos ≤ start)
    (hwithin : (Jsmntok.span ⟨type, start, stop, 0⟩).Within pos')
    (hcovers : ∀ p, pos ≤ p → p < pos' → Jsmntok.Covers ⟨type, start, stop, 0⟩ p) :
    parser'.Ordered text pos' where
  tokenized := by
    rw [htoks, List.map_append, map_bare_countIn]
    exact h.tokenized.push htok hstart hwithin hcovers
  counted := h.counted.push rfl htoks htoksuper

end parser

/-! ## The tokens that are returned -/

end AnylWallet.Helpers
