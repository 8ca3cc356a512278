import AnylWallet.Helpers.Hextobin

/-!
# `helpers/jsmn`: the JSON tokenizer

* `jsmnParse` is `jsmn_parse` on a fresh parser, in the build of the repository: neither
  `JSMN_STRICT` nor `JSMN_PARENT_LINKS` is defined. It returns the tokens, or `none` for a negative
  result; `count`, which is returned on success, is always the number of tokens.
* Positions are `unsigned int` in the parser and `int` in the tokens.
* `jsmnParse_room`: it returns no more tokens than there is room for, and more room makes no
  difference.
-/

namespace AnylWallet.Helpers

open AnylWallet.Lib

/-- `jsmntype_t`. Source: `helpers/jsmn.h` -/
inductive JsmnType where
  | object
  | array
  | string
  | primitive
deriving DecidableEq, Repr

/-- `jsmntok_t`. Source: `helpers/jsmn.h` -/
structure Jsmntok where
  /-- `type`. -/
  type : JsmnType
  /-- `start`. -/
  start : ℤ
  /-- `end`. -/
  stop : ℤ
  /-- `size`. -/
  size : ℕ
deriving DecidableEq, Repr

/-- `jsmn_parser` with the tokens; `toknext` is their number, `none` is a `toksuper` of `-1`.
Source: `helpers/jsmn.h` -/
structure JsmnParser where
  /-- The tokens allocated. -/
  toks : List Jsmntok
  /-- `toksuper`. -/
  toksuper : Option ℕ

/-- A token that has been opened and not been closed. -/
def Jsmntok.isOpen (tok : Jsmntok) : Bool := tok.start ≠ -1 ∧ tok.stop = -1

/-- An object or an array. -/
def Jsmntok.isContainer (tok : Jsmntok) : Bool := tok.type = .array ∨ tok.type = .object

/-- The last index at which `p` holds: the result of the loops that run down from
`toknext - 1`. -/
def lastIndex (p : Jsmntok → Bool) : List Jsmntok → Option ℕ
  | [] => none
  | tok :: toks =>
      match lastIndex p toks with
      | some i => some (i + 1)
      | none => if p tok then some 0 else none

/-- `tokens[parser->toksuper].size++`, unless `toksuper` is `-1`. -/
def countIn (toksuper : Option ℕ) (toks : List Jsmntok) : List Jsmntok :=
  match toksuper with
  | none => toks
  | some i => toks.modify i fun tok => { tok with size := tok.size + 1 }

/-- White space between tokens. -/
def isBlank (c : UInt8) : Bool := c = 9 ∨ c = 13 ∨ c = 10 ∨ c = 32

/-- The characters that end a primitive. -/
def endsPrimitive (c : UInt8) : Bool :=
  c = ':'.toUInt8 ∨ isBlank c ∨ c = ','.toUInt8 ∨ c = ']'.toUInt8 ∨ c = '}'.toUInt8

/-- `jsmn_parse_primitive`: the number of its characters. Source: `helpers/jsmn.c` -/
def jsmnParsePrimitive : List UInt8 → Option ℕ
  | [] => some 0
  | c :: js =>
      if endsPrimitive c then some 0
      else if c < 32 ∨ 127 ≤ c then none
      else (jsmnParsePrimitive js).map (· + 1)

/-- The characters that may follow a backslash, `u` apart. -/
def isEscaped (c : UInt8) : Bool := c ∈ ascii "\"/\\bfrnt"

/-- A hex digit of an escape sequence. -/
def isHexDigit (c : UInt8) : Bool :=
  (48 ≤ c ∧ c ≤ 57) ∨ (65 ≤ c ∧ c ≤ 70) ∨ (97 ≤ c ∧ c ≤ 102)

/-- `jsmn_parse_string`: the number of characters in front of the closing quote. A text that ends
before it is an error, so the digits behind `\u` need to be looked at only if there are four.
Source: `helpers/jsmn.c` -/
def jsmnParseString : List UInt8 → Option ℕ
  | [] => none
  | c :: js =>
      if c = '"'.toUInt8 then some 0
      else if c = '\\'.toUInt8 then
        match js with
        | [] => none
        | d :: js =>
            if isEscaped d then (jsmnParseString js).map (· + 2)
            else if d = 'u'.toUInt8 then
              match js with
              | h :: i :: j :: k :: js =>
                  if [h, i, j, k].all isHexDigit then (jsmnParseString js).map (· + 6) else none
              | _ => none
            else none
      else (jsmnParseString js).map (· + 1)

/-- A `{` or `[`: allocates a token that is not closed yet. -/
def JsmnParser.openToken (parser : JsmnParser) (type : JsmnType) (pos numTokens : ℕ) :
    Option JsmnParser :=
  if parser.toks.length ≥ numTokens then none
  else some
    { toks := countIn parser.toksuper parser.toks ++ [⟨type, sizeToInt pos, -1, 0⟩]
      toksuper := some parser.toks.length }

/-- A `}` or `]`: closes the last open token, which must be of the same type. -/
def JsmnParser.closeToken (parser : JsmnParser) (type : JsmnType) (pos : ℕ) : Option JsmnParser :=
  match lastIndex Jsmntok.isOpen parser.toks with
  | none => none
  | some i =>
      match parser.toks[i]? with
      | none => none
      | some token =>
          if token.type ≠ type then none
          else
            let toks := parser.toks.set i { token with stop := sizeToInt (pos + 1) }
            some ⟨toks, lastIndex Jsmntok.isOpen (toks.take (i + 1))⟩

/-- A string or a primitive. -/
def JsmnParser.addToken (parser : JsmnParser) (type : JsmnType) (start stop numTokens : ℕ) :
    Option JsmnParser :=
  if parser.toks.length ≥ numTokens then none
  else some
    { parser with
      toks := countIn parser.toksuper parser.toks ++ [⟨type, sizeToInt start, sizeToInt stop, 0⟩] }

/-- A `:`. -/
def JsmnParser.colon (parser : JsmnParser) : JsmnParser :=
  { parser with toksuper := if parser.toks = [] then none else some (parser.toks.length - 1) }

/-- A `,`. -/
def JsmnParser.comma (parser : JsmnParser) : JsmnParser :=
  match parser.toksuper with
  | none => parser
  | some i =>
      if parser.toks[i]?.any Jsmntok.isContainer then parser
      else
        match lastIndex (fun tok => tok.isContainer && tok.isOpen) parser.toks with
        | none => parser
        | some j => { parser with toksuper := some j }

/-- The loop of `jsmn_parse`; the next `skip` characters have been read already, as part of a string
or a primitive. -/
def jsmnLoop (numTokens : ℕ) : List UInt8 → ℕ → ℕ → JsmnParser → Option JsmnParser
  | [], _, _, parser => some parser
  | _ :: js, skip + 1, pos, parser => jsmnLoop numTokens js skip (pos + 1) parser
  | c :: js, 0, pos, parser =>
      if c = '{'.toUInt8 then
        (parser.openToken .object pos numTokens).bind (jsmnLoop numTokens js 0 (pos + 1))
      else if c = '['.toUInt8 then
        (parser.openToken .array pos numTokens).bind (jsmnLoop numTokens js 0 (pos + 1))
      else if c = '}'.toUInt8 then
        (parser.closeToken .object pos).bind (jsmnLoop numTokens js 0 (pos + 1))
      else if c = ']'.toUInt8 then
        (parser.closeToken .array pos).bind (jsmnLoop numTokens js 0 (pos + 1))
      else if c = '"'.toUInt8 then
        (jsmnParseString js).bind fun n =>
          (parser.addToken .string (pos + 1) (pos + 1 + n) numTokens).bind
            (jsmnLoop numTokens js (n + 1) (pos + 1))
      else if isBlank c then jsmnLoop numTokens js 0 (pos + 1) parser
      else if c = ':'.toUInt8 then jsmnLoop numTokens js 0 (pos + 1) parser.colon
      else if c = ','.toUInt8 then jsmnLoop numTokens js 0 (pos + 1) parser.comma
      else
        (jsmnParsePrimitive (c :: js)).bind fun n =>
          (parser.addToken .primitive pos (pos + n) numTokens).bind
            (jsmnLoop numTokens js (n - 1) (pos + 1))

/-- `jsmn_parse` after `jsmn_init`, on a buffer. The text ends at its first `NUL`. The position is
an `unsigned int`: in a text of `2 ^ 32` characters it starts again, so the loop ends with an error
or not at all. Source: `helpers/jsmn.c` -/
def jsmnParse (js : List UInt8) (numTokens : ℕ) : Option (List Jsmntok) :=
  let text := js.takeWhile (· ≠ 0)
  if 2 ^ 32 ≤ text.length then none
  else
    match jsmnLoop numTokens text 0 0 ⟨[], none⟩ with
    | none => none
    | some parser => if parser.toks.any Jsmntok.isOpen then none else some parser.toks

/-! ## Room for tokens -/

@[simp] theorem length_countIn (toksuper : Option ℕ) (toks : List Jsmntok) :
    (countIn toksuper toks).length = toks.length := by
  cases toksuper with
  | none => rfl
  | some i => exact List.length_modify _ _ _

section room

variable {parser parser' : JsmnParser} {type : JsmnType} {n m pos : ℕ}

/-- Where a bracket is opened there is room for its token. -/
theorem JsmnParser.openToken_room (hle : n ≤ m)
    (h : parser.openToken type pos n = some parser') :
    parser'.toks.length ≤ n ∧ parser.openToken type pos m = some parser' := by
  unfold JsmnParser.openToken at h ⊢
  split_ifs at h with hroom
  obtain rfl := Option.some.inj h
  rw [List.length_append, length_countIn, List.length_singleton]
  exact ⟨by omega, if_neg (by omega)⟩

/-- Where a string or a primitive is added there is room for its token. -/
theorem JsmnParser.addToken_room {start stop : ℕ} (hle : n ≤ m)
    (h : parser.addToken type start stop n = some parser') :
    parser'.toks.length ≤ n ∧ parser.addToken type start stop m = some parser' := by
  unfold JsmnParser.addToken at h ⊢
  split_ifs at h with hroom
  obtain rfl := Option.some.inj h
  rw [List.length_append, length_countIn, List.length_singleton]
  exact ⟨by omega, if_neg (by omega)⟩

/-- A bracket that is closed takes no room. -/
theorem JsmnParser.length_closeToken (h : parser.closeToken type pos = some parser') :
    parser'.toks.length = parser.toks.length := by
  unfold JsmnParser.closeToken at h
  split at h
  · cases h
  · split at h
    · cases h
    · split_ifs at h
      obtain rfl := Option.some.inj h
      exact List.length_set

/-- A comma takes no room. -/
theorem JsmnParser.toks_comma (parser : JsmnParser) : parser.comma.toks = parser.toks := by
  unfold JsmnParser.comma
  split
  · rfl
  · split_ifs
    · rfl
    · split
      · rfl
      · rfl

/-- The branches of the loop. -/
theorem room_ite {c : Prop} [Decidable c] {a a' b b' : Option JsmnParser}
    (ha : a = some parser' → parser'.toks.length ≤ n ∧ a' = some parser')
    (hb : b = some parser' → parser'.toks.length ≤ n ∧ b' = some parser')
    (h : (if c then a else b) = some parser') :
    parser'.toks.length ≤ n ∧ (if c then a' else b') = some parser' := by
  by_cases hc : c
  · rw [if_pos hc] at h ⊢
    exact ha h
  · rw [if_neg hc] at h ⊢
    exact hb h

/-- **Room in the loop**: it never holds more tokens than there is room for, and with more room it
does the same. -/
theorem jsmnLoop_room (hle : n ≤ m) (js : List UInt8) (skip pos : ℕ) (parser : JsmnParser)
    (hroom : parser.toks.length ≤ n) (h : jsmnLoop n js skip pos parser = some parser') :
    parser'.toks.length ≤ n ∧ jsmnLoop m js skip pos parser = some parser' := by
  induction js generalizing skip pos parser with
  | nil =>
      obtain rfl := Option.some.inj h
      exact ⟨hroom, rfl⟩
  | cons c js ih =>
      cases skip with
      | succ skip => exact ih skip (pos + 1) parser hroom h
      | zero =>
          have hopen : ∀ type, (parser.openToken type pos n).bind (jsmnLoop n js 0 (pos + 1)) =
              some parser' → parser'.toks.length ≤ n ∧
                (parser.openToken type pos m).bind (jsmnLoop m js 0 (pos + 1)) = some parser' := by
            intro type h
            obtain ⟨opened, hopened, h⟩ := Option.bind_eq_some_iff.mp h
            obtain ⟨hlen, hmore⟩ := JsmnParser.openToken_room hle hopened
            rw [hmore]
            exact ih _ _ _ hlen h
          have hclose : ∀ type, (parser.closeToken type pos).bind (jsmnLoop n js 0 (pos + 1)) =
              some parser' → parser'.toks.length ≤ n ∧
                (parser.closeToken type pos).bind (jsmnLoop m js 0 (pos + 1)) = some parser' := by
            intro type h
            obtain ⟨closed, hclosed, h⟩ := Option.bind_eq_some_iff.mp h
            rw [hclosed]
            exact ih _ _ _ ((JsmnParser.length_closeToken hclosed).trans_le hroom) h
          have hadd : ∀ type start stop skip,
              (parser.addToken type start stop n).bind (jsmnLoop n js skip (pos + 1)) =
                some parser' → parser'.toks.length ≤ n ∧
                (parser.addToken type start stop m).bind (jsmnLoop m js skip (pos + 1)) =
                  some parser' := by
            intro type start stop skip h
            obtain ⟨added, hadded, h⟩ := Option.bind_eq_some_iff.mp h
            obtain ⟨hlen, hmore⟩ := JsmnParser.addToken_room hle hadded
            rw [hmore]
            exact ih _ _ _ hlen h
          have hskip : ∀ (read : Option ℕ) (f g : ℕ → Option JsmnParser),
              (∀ k, f k = some parser' → parser'.toks.length ≤ n ∧ g k = some parser') →
                read.bind f = some parser' →
                  parser'.toks.length ≤ n ∧ read.bind g = some parser' := by
            intro read f g hfg h
            obtain ⟨k, hk, h⟩ := Option.bind_eq_some_iff.mp h
            rw [hk]
            exact hfg k h
          rw [jsmnLoop] at h ⊢
          revert h
          refine room_ite (hopen _) (room_ite (hopen _) (room_ite (hclose _) (room_ite (hclose _)
            (room_ite (hskip _ _ _ fun _ => hadd _ _ _ _) (room_ite ?_ (room_ite ?_ (room_ite ?_
              (hskip _ _ _ fun _ => hadd _ _ _ _))))))))
          · exact ih _ _ _ hroom
          · exact ih _ _ _ hroom
          · exact ih _ _ _ (parser.toks_comma ▸ hroom)

end room

/-- **Room for tokens**: no more of them are returned, and more room makes no difference. -/
theorem jsmnParse_room {js : List UInt8} {n : ℕ} {toks : List Jsmntok}
    (h : jsmnParse js n = some toks) :
    toks.length ≤ n ∧ ∀ m, n ≤ m → jsmnParse js m = some toks := by
  unfold jsmnParse at h ⊢
  dsimp only at h ⊢
  split_ifs at h with hlen
  cases hloop : jsmnLoop n (js.takeWhile (· ≠ 0)) 0 0 ⟨[], none⟩ with
  | none =>
      rw [hloop] at h
      cases h
  | some parser =>
      rw [hloop] at h
      dsimp only at h
      split_ifs at h with hopen
      obtain rfl := Option.some.inj h
      have hroom : (⟨[], none⟩ : JsmnParser).toks.length ≤ n := Nat.zero_le n
      refine ⟨(jsmnLoop_room le_rfl _ _ _ _ hroom hloop).1, fun m hle => ?_⟩
      rw [if_neg hlen, (jsmnLoop_room hle _ _ _ _ hroom hloop).2]
      exact if_neg hopen

end AnylWallet.Helpers
