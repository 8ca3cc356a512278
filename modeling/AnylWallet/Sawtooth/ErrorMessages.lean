import AnylWallet.Helpers.DocumentBuf
import AnylWallet.Helpers.Jsmn
import AnylWallet.Helpers.JsmnUtils
import AnylWallet.Lib.JsonPrint

/-!
# `sawtooth/error_parser`: the error replies of a validator

* `stParseErrorReply` finds the message of a reply `{"error": "…"}`.
* `errorMessage` is what it looks for: the value of the first member, a string, if the key is
  `error`.
* `stParseErrorReply_document`: **it finds this in every JSON document of at most four nodes**, wherever
  the white space stands, and nothing in one with more of them; the key of an empty object is read past
  the tokens.
-/

namespace AnylWallet.Sawtooth

open AnylWallet.Lib AnylWallet.Lib.Json AnylWallet.Helpers

/-- `st_parse_error_reply`: the position and the length of the message, or `none` for a result
of -1. Source: `sawtooth/error_parser.c` -/
def stParseErrorReply (buf : JsonBuf) : Except Fault (Option (ℤ × ℤ)) :=
  match jsmnParse buf.bytes 4 with
  | none => .ok none
  | some toks =>
      match toks with
      | [] => .ok none
      | tok :: rest =>
          if tok.type ≠ .object then .ok none
          else
            -- second item should be "error" key
            match rest with
            | [] => .error .staleToken
            | key :: rest =>
                if ¬ jsoneq buf key (ascii "error") then .ok none
                else
                  match rest with
                  | [] => .error .staleToken
                  | value :: _ =>
                      if value.type ≠ .string then .ok none
                      else .ok (some (value.start, value.stop - value.start))

/-- The message of a reply. -/
def errorMessage (value : Value) : Option (List UInt8) :=
  match value.members with
  | (key, v) :: _ => if key = ascii "error" then v.string? else none
  | [] => none

/-- The bytes that the caller is shown. -/
def shownMessage (buf : JsonBuf) (message : ℤ × ℤ) : List UInt8 :=
  (buf.text message.1).take message.2.toNat

variable {doc : Document}

/-- A document with more nodes than there are tokens is refused. -/
theorem jsmnParse_eq_none (hlen : doc.text.length < 2 ^ 31) {numTokens : ℕ}
    (h : numTokens < doc.nodes.length) : jsmnParse doc.text numTokens = none := by
  cases hparse : jsmnParse doc.text numTokens with
  | none => rfl
  | some toks =>
      obtain ⟨hroom, hmore⟩ := jsmnParse_room hparse
      have hnodes := jsmnParse_document doc hlen le_rfl
      rw [hmore _ h.le] at hnodes
      have hlength : toks.length = doc.nodes.length := by
        rw [Option.some.inj hnodes, List.length_map]
      omega

/-- The node is that of the value: a string with its text, or no string. -/
def IsFirst (n : Node) (value : Value) : Prop :=
  (n.kind = .string ∧ value.string? = some n.text) ∨ (n.kind ≠ .string ∧ value.string? = none)

/-- The first node of a value is its own. -/
theorem exists_first (value : Value) (p : ℕ) :
    ∃ n rest, value.nodes p = n :: rest ∧ IsFirst n value := by
  cases value with
  | string body => exact ⟨_, _, rfl, Or.inl ⟨rfl, rfl⟩⟩
  | scalar scalar => exact ⟨_, _, rfl, Or.inr ⟨Kind.noConfusion, rfl⟩⟩
  | emptyArray blank => exact ⟨_, _, rfl, Or.inr ⟨Kind.noConfusion, rfl⟩⟩
  | array blank elems => exact ⟨_, _, rfl, Or.inr ⟨Kind.noConfusion, rfl⟩⟩
  | emptyObject blank => exact ⟨_, _, rfl, Or.inr ⟨Kind.noConfusion, rfl⟩⟩
  | object blank members => exact ⟨_, _, rfl, Or.inr ⟨Kind.noConfusion, rfl⟩⟩

/-- The first two nodes of members are the key and the value of the first one. -/
theorem exists_first_member (members : Members) (p : ℕ) :
    ∃ key value others k v rest, members.toList = (key, value) :: others ∧
      members.nodes p = k :: v :: rest ∧ k.kind = .string ∧ k.text = key ∧ IsFirst v value := by
  cases members with
  | last key afterKey beforeValue value after =>
      obtain ⟨v, rest, hnodes, hfirst⟩ := exists_first value
        (p + (quoted key).length + afterKey.text.length + 1 + beforeValue.text.length)
      refine ⟨_, _, _, ⟨.string, p + 1, key.text, 1⟩, v, rest, rfl, ?_, rfl, rfl, hfirst⟩
      rw [Members.nodes, hnodes]
  | cons key afterKey beforeValue value after before members =>
      obtain ⟨v, rest, hnodes, hfirst⟩ := exists_first value
        (p + (quoted key).length + afterKey.text.length + 1 + beforeValue.text.length)
      have hcons : ∃ rest', (Members.cons key afterKey beforeValue value after before members).nodes p =
          ⟨.string, p + 1, key.text, 1⟩ :: v :: rest' := by
        rw [Members.nodes, hnodes]
        exact ⟨_, rfl⟩
      obtain ⟨rest', hcons⟩ := hcons
      exact ⟨_, _, _, ⟨.string, p + 1, key.text, 1⟩, v, rest', rfl, hcons, rfl, rfl, hfirst⟩

/-- A string is shown as it stands in the document. -/
theorem shownMessage_ofNode {buf : JsonBuf} (h : Holds doc buf) (hlen : doc.text.length < 2 ^ 31)
    {n : Node} (hn : n ∈ doc.nodes) (hstring : n.kind = .string) :
    shownMessage buf ((Jsmntok.ofNode n).start,
      (Jsmntok.ofNode n).stop - (Jsmntok.ofNode n).start) = n.text := by
  obtain ⟨tail, htext, -⟩ := h.text_ofNode hlen hn
  have hhead : n.head = n.text := by rw [Node.head, hstring]
  have hsize : ((Jsmntok.ofNode n).stop - (Jsmntok.ofNode n).start).toNat = n.text.length := by
    rw [ofNode_eq hlen hn, Node.stop]
    dsimp only
    omega
  rw [shownMessage, hsize, htext, hhead, List.take_left]

/-- The strings are the tokens of type `JSMN_STRING`. -/
theorem type_ofNode_eq_string (n : Node) : (Jsmntok.ofNode n).type = .string ↔ n.kind = .string := by
  rw [Jsmntok.ofNode]
  cases n.kind <;> simp [JsmnType.ofKind]

/-- The reply to an object with members: its first three tokens decide. -/
theorem stParseErrorReply_object {buf : JsonBuf} (h : Holds doc buf) (hbuf : buf.bytes = doc.text)
    (hlen : doc.text.length < 2 ^ 31) (hroom : doc.nodes.length ≤ 4) {object k v : Node}
    {rest : List Node} {value : Value} (hnodes : doc.nodes = object :: k :: v :: rest)
    (hobject : object.kind = .object) (hk : k.kind = .string) (hfirst : IsFirst v value) :
    (stParseErrorReply buf).map (Option.map (shownMessage buf)) =
      .ok (if k.text = ascii "error" then value.string? else none) := by
  have hmem : k ∈ doc.nodes := by simp [hnodes]
  have hkey := h.jsoneq_eq hlen hmem (ascii "error")
  have hshown := @shownMessage_ofNode _ _ h hlen v (by simp [hnodes])
  have htype : (Jsmntok.ofNode object).type = .object := by
    rw [Jsmntok.ofNode, hobject]
    rfl
  rw [stParseErrorReply, hbuf, jsmnParse_document doc hlen hroom, hnodes]
  simp only [List.map_cons, htype, hkey, Node.isString, hk, ne_eq, not_true_eq_false, if_false]
  by_cases herror : k.text = ascii "error"
  · rw [if_neg (by simp [herror]), if_pos herror]
    rcases hfirst with ⟨hstring, htext⟩ | ⟨hstring, htext⟩
    · have hv := (type_ofNode_eq_string v).mpr hstring
      rw [if_neg (not_not_intro hv), htext, Except.map, Option.map_some, hshown hstring]
    · have hv := mt (type_ofNode_eq_string v).mp hstring
      rw [if_pos hv, htext]
      rfl
  · rw [if_pos (by simp [herror]), if_neg herror]
    rfl

/-- **What `st_parse_error_reply` finds** in a document: the message of `{"error": …}` where it is
the first member of an object and a string, and nothing in any other document, or in one of more
than four nodes. It does not read on in the text, but for the key of an empty object. -/
theorem stParseErrorReply_document {buf : JsonBuf} (hbuf : buf.bytes = doc.text)
    (hlen : doc.text.length < 2 ^ 31) :
    (stParseErrorReply buf).map (Option.map (shownMessage buf)) =
      if 4 < doc.nodes.length then .ok none
      else
        match doc.value with
        | .emptyObject _ => .error .staleToken
        | value => .ok (errorMessage value) := by
  by_cases hmany : 4 < doc.nodes.length
  · rw [if_pos hmany, stParseErrorReply, hbuf, jsmnParse_eq_none hlen hmany]
    rfl
  · rw [if_neg hmany]
    have hroom := not_lt.mp hmany
    have hparse := jsmnParse_document doc hlen hroom
    have hnodes : doc.nodes = doc.value.nodes doc.before.text.length := rfl
    cases hvalue : doc.value with
    | object blank members =>
        have hholds : Holds doc buf := holds_of_bytes (by rw [hvalue]; rfl) hbuf
        obtain ⟨key, value, others, k, v, rest, hlist, hmembers, hk, rfl, hfirst⟩ :=
          exists_first_member members (doc.before.text.length + 1 + blank.text.length)
        rw [hvalue, Value.nodes, hmembers] at hnodes
        rw [stParseErrorReply_object hholds hbuf hlen hroom hnodes rfl hk hfirst]
        show _ = Except.ok (errorMessage (.object blank members))
        rw [errorMessage, Value.members, hlist]
    | string body | scalar scalar | emptyArray blank | array blank elems | emptyObject blank =>
        -- one token decides, and what stands behind it is none of the parser's
        rw [stParseErrorReply, hbuf, hparse, hnodes, hvalue]
        rfl

/-- The text of the key `error`. -/
theorem isBody_error : isBody (ascii "error") = true := by decide

/-- A reply with one member, the message of an error. -/
def errorReply (message : Body) : Document :=
  ⟨.none, .compactObject (⟨ascii "error", isBody_error⟩, .string message) [], .none⟩

/-- The message of a reply with one member is found. -/
theorem stParseErrorReply_document_errorReply :
    (stParseErrorReply ⟨[], ascii "\x7b\"error\":\"error\"\x7d", []⟩).map
        (Option.map (shownMessage ⟨[], ascii "\x7b\"error\":\"error\"\x7d", []⟩)) =
      .ok (some (ascii "error")) :=
  @stParseErrorReply_document (errorReply ⟨ascii "error", isBody_error⟩)
    ⟨[], ascii "\x7b\"error\":\"error\"\x7d", []⟩ (by decide) (by decide)

end AnylWallet.Sawtooth
