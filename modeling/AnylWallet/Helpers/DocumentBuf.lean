import AnylWallet.Helpers.JsmnDocument
import AnylWallet.Helpers.JsmnUtils

/-!
# Documents in a buffer

* `Holds doc buf`: the document stands in the buffer, but where the text of a node ends there may be
  a `NUL`. It does so at first (`holds_of_bytes`), and still does when a text is terminated
  (`Holds.terminate`), since no node ends inside the text of another.
* `Holds.jsoneq_eq`: which tokens are the string `s`.
-/

namespace AnylWallet.Helpers

open AnylWallet.Lib AnylWallet.Lib.Json

/-! ## The nodes of a document -/

/-- A node lies in the text of its document. -/
theorem stop_le_of_mem {doc : Document} {n : Node} (hn : n ∈ doc.nodes) :
    n.stop ≤ doc.text.length := by
  have := (doc.value.nodes_within _ n hn).2
  simp only [Document.text, List.length_append]
  omega

/-- All nodes but the first end in front of the last bracket of an object. -/
theorem stop_lt_of_mem_tail {doc : Document} (hobject : doc.value.isObject = true) {n : Node}
    (hn : n ∈ doc.nodes.tail) : n.stop < doc.text.length := by
  obtain ⟨before, value, after⟩ := doc
  match value, hobject with
  | .emptyObject blank, _ =>
      rw [Document.nodes, Value.nodes, List.tail_cons] at hn
      cases hn
  | .object blank members, _ =>
      rw [Document.nodes, Value.nodes, List.tail_cons] at hn
      have := (members.nodes_within _ n hn).2
      simp only [Document.text, Value.text, List.length_append, List.length_cons,
        List.length_nil] at this ⊢
      omega

/-- The token of a node of a document whose positions an `int` holds. -/
theorem ofNode_eq {doc : Document} (hlen : doc.text.length < 2 ^ 31) {n : Node}
    (hn : n ∈ doc.nodes) :
    Jsmntok.ofNode n = ⟨.ofKind n.kind, n.start, n.stop, n.size⟩ := by
  have hstop := stop_le_of_mem hn
  have hstart : n.start ≤ n.stop := Nat.le_add_right _ _
  rw [Jsmntok.ofNode, sizeToInt_of_lt (by omega), sizeToInt_of_lt (by omega)]

/-! ## The buffer -/

/-- The document stands in the buffer, with a `NUL` behind some of its nodes. -/
structure Holds (doc : Document) (buf : JsonBuf) : Prop where
  length : buf.bytes.length = doc.text.length
  stands : ∀ n ∈ doc.nodes, ∃ tail, (buf.bytes ++ buf.after).drop n.start = n.head ++ tail ∧
    (n.kind = .string → ∀ c ∈ tail.head?, c = 0 ∨ c = '"'.toUInt8) ∧
    (n.kind = .scalar → ∀ c ∈ tail.head?, c = 0 ∨ ends c = true)

/-- The head of a node, and the rest of its text. -/
theorem exists_head_append (n : Node) : ∃ inner, n.text = n.head ++ inner ∧
    (n.kind = .string ∨ n.kind = .scalar → inner = []) := by
  unfold Node.head
  cases n.kind with
  | string => exact ⟨[], (List.append_nil _).symm, fun _ => rfl⟩
  | scalar => exact ⟨[], (List.append_nil _).symm, fun _ => rfl⟩
  | array => exact ⟨n.text.drop 1, (List.take_append_drop _ _).symm, fun h => by simp at h⟩
  | object => exact ⟨n.text.drop 1, (List.take_append_drop _ _).symm, fun h => by simp at h⟩

/-- A buffer with the text of a document holds it. -/
theorem holds_of_bytes {doc : Document} (hobject : doc.value.isObject = true) {buf : JsonBuf}
    (h : buf.bytes = doc.text) : Holds doc buf where
  length := by rw [h]
  stands := by
    intro n hn
    obtain ⟨tail, htext, hstring, hscalar⟩ := Document.stands hobject buf.after n hn
    obtain ⟨inner, hinner, hnil⟩ := exists_head_append n
    refine ⟨inner ++ tail, ?_, fun hkind c hc => ?_, fun hkind c hc => ?_⟩
    · rw [h, htext, hinner, List.append_assoc]
    · rw [hnil (Or.inl hkind), List.nil_append, hstring hkind] at hc
      exact Or.inr (Option.some.inj hc).symm
    · rw [hnil (Or.inr hkind), List.nil_append] at hc
      exact Or.inr (hscalar hkind c hc)

/-- What stands at `q`, when a `NUL` is stored behind its first part. -/
theorem drop_set_append {bytes after head tail : List UInt8} {q p : ℕ}
    (h : (bytes ++ after).drop q = head ++ tail) (hp : p < bytes.length)
    (hbehind : q + head.length ≤ p) :
    ∃ tail', (bytes.set p 0 ++ after).drop q = head ++ tail' ∧
      ∀ c ∈ tail'.head?, c = 0 ∨ c ∈ tail.head? := by
  refine ⟨tail.set (p - q - head.length) 0, ?_, fun c hc => ?_⟩
  · rw [← List.set_append_left _ _ hp, List.drop_set, if_neg (by omega), h,
      List.set_append_right _ _ (by omega)]
  · cases tail with
    | nil => exact Or.inr hc
    | cons d tail =>
        cases hi : p - q - head.length with
        | zero =>
            rw [hi, List.set_cons_zero] at hc
            exact Or.inl (Option.some.inj hc).symm
        | succ i =>
            rw [hi, List.set_cons_succ] at hc
            exact Or.inr hc

/-- **A text that is terminated** leaves the document in the buffer. -/
theorem Holds.terminate {doc : Document} {buf buf' : JsonBuf} (h : Holds doc buf) {n : Node}
    (hn : n ∈ doc.nodes) (hbuf : buf.terminate n.stop = .ok buf') : Holds doc buf' := by
  have hlen := JsonBuf.length_terminate hbuf
  have hp := (buf.terminate_ok_iff n.stop).mp ⟨buf', hbuf⟩
  have hset : buf' = { buf with bytes := buf.bytes.set n.stop 0 } := by
    rw [JsonBuf.terminate, if_pos hp] at hbuf
    exact (Except.ok.inj hbuf).symm
  refine ⟨hlen.trans h.length, fun m hm => ?_⟩
  obtain ⟨tail, hdrop, hstring, hscalar⟩ := h.stands m hm
  have hlt : n.stop < buf.bytes.length := by omega
  rcases doc.value.nodes_apart _ n hn m hm with hbefore | hbehind
  · refine ⟨tail, ?_, hstring, hscalar⟩
    rw [hset, ← hdrop, ← List.set_append_left _ _ hlt, List.drop_set, if_pos hbefore]
  · obtain ⟨tail', hdrop', htail⟩ := drop_set_append hdrop hlt hbehind
    refine ⟨tail', ?_, fun hkind c hc => ?_, fun hkind c hc => ?_⟩
    · rw [hset]
      exact hdrop'
    · exact (htail c hc).elim Or.inl fun hc => hstring hkind c hc
    · exact (htail c hc).elim Or.inl fun hc => hscalar hkind c hc

/-! ## Reading a token -/

variable {doc : Document} {buf : JsonBuf} {n : Node}

/-- What the token of a node points to. -/
theorem Holds.text_ofNode (h : Holds doc buf) (hlen : doc.text.length < 2 ^ 31)
    (hn : n ∈ doc.nodes) :
    ∃ tail, buf.text (Jsmntok.ofNode n).start = n.head ++ tail ∧
      (n.kind = .string → ∀ c ∈ tail.head?, c = 0 ∨ c = '"'.toUInt8) ∧
      (n.kind = .scalar → ∀ c ∈ tail.head?, c = 0 ∨ ends c = true) := by
  obtain ⟨tail, hdrop, hends⟩ := h.stands n hn
  refine ⟨tail, ?_, hends⟩
  rw [ofNode_eq hlen hn, JsonBuf.text_natCast, hdrop]

/-- **Which tokens are the string `s`**: those of the strings with this text. -/
theorem Holds.jsoneq_eq (h : Holds doc buf) (hlen : doc.text.length < 2 ^ 31) (hn : n ∈ doc.nodes)
    (s : List UInt8) : jsoneq buf (.ofNode n) s = n.isString s := by
  obtain ⟨tail, htext, -⟩ := h.text_ofNode hlen hn
  unfold jsoneq Node.isString
  rw [htext, ofNode_eq hlen hn]
  have hlength : (s.length : ℤ) = (n.stop : ℤ) - (n.start : ℤ) ↔ s.length = n.text.length := by
    rw [Node.stop, Nat.cast_add]
    omega
  rw [decide_eq_decide]
  cases hkind : n.kind with
  | string =>
      have hhead : n.head = n.text := by
        rw [Node.head, hkind]
      rw [hhead]
      simp only [JsmnType.ofKind, hlength, true_and]
      constructor
      · rintro ⟨heq, htake⟩
        rw [heq, List.take_left] at htake
        exact htake
      · intro heq
        rw [← heq, List.take_left]
        exact ⟨rfl, rfl⟩
  | scalar | array | object => simp [JsmnType.ofKind]

end AnylWallet.Helpers
