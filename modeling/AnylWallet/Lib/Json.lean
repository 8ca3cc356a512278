import Mathlib.Data.List.Basic
import AnylWallet.Lib.Numeral

/-!
# JSON texts

* `Json.Value` is a JSON value as it is written, white space included. Every value of this type is
  well formed: the parts of a text carry their grammar (`Blank`, `Body`, `Scalar`).
* `Value.text` is the text. A `Scalar` is a run of letters, digits, signs and points; the numbers and
  the words `true`, `false` and `null` are such runs, and it is no matter here that others are too.
* `Value.nodes` lists a value and everything in it in the order of the text, the keys of objects
  included, each with its position and its text; the text stands there (`Value.stands`).
* Where a node ends no text of another node is cut (`Value.nodes_apart`).
-/

namespace AnylWallet.Lib.Json

/-! ## The parts of a text -/

/-- White space. -/
def isBlank (c : UInt8) : Bool := c = 32 ∨ c = 9 ∨ c = 10 ∨ c = 13

/-- A hex digit. -/
def isHex (c : UInt8) : Bool :=
  (48 ≤ c ∧ c ≤ 57) ∨ (65 ≤ c ∧ c ≤ 70) ∨ (97 ≤ c ∧ c ≤ 102)

/-- What stands between the quotes of a string: no control characters, and quotes and backslashes
only in escape sequences. -/
def isBody : List UInt8 → Bool
  | [] => true
  | c :: s =>
      if c = '"'.toUInt8 then false
      else if c = '\\'.toUInt8 then
        match s with
        | [] => false
        | d :: s =>
            if d ∈ ascii "\"/\\bfrnt" then isBody s
            else if d = 'u'.toUInt8 then
              match s with
              | h :: i :: j :: k :: s => [h, i, j, k].all isHex && isBody s
              | _ => false
            else false
      else decide (32 ≤ c) && isBody s

/-- A character of a number or of `true`, `false` and `null`. -/
def isScalarChar (c : UInt8) : Bool :=
  (48 ≤ c ∧ c ≤ 57) ∨ (65 ≤ c ∧ c ≤ 90) ∨ (97 ≤ c ∧ c ≤ 122) ∨ c = 43 ∨ c = 45 ∨ c = 46

/-- White space between tokens. -/
structure Blank where
  /-- The text. -/
  text : List UInt8
  /-- It is white space. -/
  isBlank : ∀ c ∈ text, isBlank c = true

/-- The text of a string, without its quotes. -/
structure Body where
  /-- The text. -/
  text : List UInt8
  /-- It may stand between quotes. -/
  isBody : isBody text = true

/-- The text of a number, or of `true`, `false` or `null`. -/
structure Scalar where
  /-- The text. -/
  text : List UInt8
  /-- It is not empty. -/
  ne_nil : text ≠ []
  /-- Its characters. -/
  isScalarChar : ∀ c ∈ text, isScalarChar c = true

/-- No white space. -/
def Blank.none : Blank := ⟨[], by simp⟩

/-! ## Values -/

mutual

/-- A JSON value as it is written. -/
inductive Value where
  | string (body : Body)
  | scalar (scalar : Scalar)
  | emptyArray (blank : Blank)
  | array (blank : Blank) (elems : Elems)
  | emptyObject (blank : Blank)
  | object (blank : Blank) (members : Members)

/-- The elements of an array. -/
inductive Elems where
  | last (value : Value) (after : Blank)
  | cons (value : Value) (after before : Blank) (elems : Elems)

/-- The members of an object. -/
inductive Members where
  | last (key : Body) (afterKey beforeValue : Blank) (value : Value) (after : Blank)
  | cons (key : Body) (afterKey beforeValue : Blank) (value : Value) (after before : Blank)
      (members : Members)

end

/-- A string with its quotes. -/
def quoted (body : Body) : List UInt8 := '"'.toUInt8 :: (body.text ++ ['"'.toUInt8])

mutual

/-- The text of a value. -/
def Value.text : Value → List UInt8
  | .string body => quoted body
  | .scalar scalar => scalar.text
  | .emptyArray blank => '['.toUInt8 :: (blank.text ++ [']'.toUInt8])
  | .array blank elems => '['.toUInt8 :: (blank.text ++ elems.text ++ [']'.toUInt8])
  | .emptyObject blank => '{'.toUInt8 :: (blank.text ++ ['}'.toUInt8])
  | .object blank members => '{'.toUInt8 :: (blank.text ++ members.text ++ ['}'.toUInt8])

/-- The text of the elements of an array. -/
def Elems.text : Elems → List UInt8
  | .last value after => value.text ++ after.text
  | .cons value after before elems =>
      value.text ++ after.text ++ ','.toUInt8 :: (before.text ++ elems.text)

/-- The text of the members of an object. -/
def Members.text : Members → List UInt8
  | .last key afterKey beforeValue value after =>
      quoted key ++ afterKey.text ++ ':'.toUInt8 :: (beforeValue.text ++ value.text ++ after.text)
  | .cons key afterKey beforeValue value after before members =>
      quoted key ++ afterKey.text ++
        ':'.toUInt8 :: (beforeValue.text ++ value.text ++ after.text ++
          ','.toUInt8 :: (before.text ++ members.text))

end

/-- The number of elements. -/
def Elems.count : Elems → ℕ
  | .last _ _ => 1
  | .cons _ _ _ elems => elems.count + 1

/-- The number of members. -/
def Members.count : Members → ℕ
  | .last _ _ _ _ _ => 1
  | .cons _ _ _ _ _ _ members => members.count + 1

/-- The keys and the values of the members. -/
def Members.toList : Members → List (List UInt8 × Value)
  | .last key _ _ value _ => [(key.text, value)]
  | .cons key _ _ value _ _ members => (key.text, value) :: members.toList

/-- The members of a value, if it is an object. -/
def Value.members : Value → List (List UInt8 × Value)
  | .object _ members => members.toList
  | _ => []

/-- The value is an object. -/
def Value.isObject : Value → Bool
  | .emptyObject _ => true
  | .object _ _ => true
  | _ => false

/-! ## Nodes -/

/-- The kinds of nodes. -/
inductive Kind where
  | string
  | scalar
  | array
  | object
deriving DecidableEq, Repr

/-- A value or a key in a text. -/
structure Node where
  /-- What it is. -/
  kind : Kind
  /-- Where its text starts: behind the opening quote for a string. -/
  start : ℕ
  /-- Its text; the text between the quotes for a string. -/
  text : List UInt8
  /-- The number of elements or members; 1 for a key, which has a value. -/
  size : ℕ
deriving DecidableEq, Repr

/-- Where the text of a node ends. -/
def Node.stop (n : Node) : ℕ := n.start + n.text.length

/-- The node is the string `s`, as a key or as a value. -/
def Node.isString (s : List UInt8) (n : Node) : Bool := n.kind = .string ∧ n.text = s

mutual

/-- A value that starts at `p`, and all that is in it, in the order of the text. -/
def Value.nodes (p : ℕ) : Value → List Node
  | .string body => [⟨.string, p + 1, body.text, 0⟩]
  | .scalar scalar => [⟨.scalar, p, scalar.text, 0⟩]
  | .emptyArray blank => [⟨.array, p, (Value.emptyArray blank).text, 0⟩]
  | .array blank elems =>
      ⟨.array, p, (Value.array blank elems).text, elems.count⟩ ::
        elems.nodes (p + 1 + blank.text.length)
  | .emptyObject blank => [⟨.object, p, (Value.emptyObject blank).text, 0⟩]
  | .object blank members =>
      ⟨.object, p, (Value.object blank members).text, members.count⟩ ::
        members.nodes (p + 1 + blank.text.length)

/-- The nodes of elements that start at `p`. -/
def Elems.nodes (p : ℕ) : Elems → List Node
  | .last value _ => value.nodes p
  | .cons value after before elems =>
      value.nodes p ++
        elems.nodes (p + value.text.length + after.text.length + 1 + before.text.length)

/-- The nodes of members that start at `p`. -/
def Members.nodes (p : ℕ) : Members → List Node
  | .last key afterKey beforeValue value _ =>
      ⟨.string, p + 1, key.text, 1⟩ ::
        value.nodes (p + (quoted key).length + afterKey.text.length + 1 + beforeValue.text.length)
  | .cons key afterKey beforeValue value after before members =>
      ⟨.string, p + 1, key.text, 1⟩ ::
        (value.nodes
            (p + (quoted key).length + afterKey.text.length + 1 + beforeValue.text.length) ++
          members.nodes
            (p + (quoted key).length + afterKey.text.length + 1 + beforeValue.text.length +
              value.text.length + after.text.length + 1 + before.text.length))

end

/-- The key of a member is one of the nodes, and behind it are those of the value. -/
theorem Members.exists_nodes_eq {key : List UInt8} {value : Value} :
    ∀ (members : Members) (p : ℕ), (key, value) ∈ members.toList →
      ∃ before n q behind, members.nodes p = before ++ n :: (value.nodes q ++ behind) ∧
        n.isString key = true
  | .last k _ _ v _, p, h => by
      obtain ⟨rfl, rfl⟩ := Prod.mk.inj (List.mem_singleton.mp h)
      exact ⟨[], _, _, [], by rw [Members.nodes, List.append_nil, List.nil_append],
        decide_eq_true ⟨rfl, rfl⟩⟩
  | .cons k _ _ v _ _ members, p, h => by
      rw [Members.toList, List.mem_cons] at h
      rcases h with h | h
      · obtain ⟨rfl, rfl⟩ := Prod.mk.inj h
        exact ⟨[], _, _, _, by rw [Members.nodes, List.nil_append], decide_eq_true ⟨rfl, rfl⟩⟩
      · obtain ⟨before, n, q, behind, hnodes, hkey⟩ := Members.exists_nodes_eq members _ h
        exact ⟨_ :: (_ ++ before), n, q, behind, by
          rw [Members.nodes, hnodes, List.cons_append, List.append_assoc], hkey⟩

/-- A value has a node. -/
theorem Value.exists_nodes_cons (v : Value) (p : ℕ) : ∃ n rest, v.nodes p = n :: rest := by
  cases v with
  | string | scalar | emptyArray | array | emptyObject | object => exact ⟨_, _, rfl⟩

/-- A member has two nodes at least. -/
theorem Members.two_mul_count_le : ∀ (members : Members) (p : ℕ),
    2 * members.count ≤ (members.nodes p).length
  | .last key afterKey beforeValue value after, p => by
      obtain ⟨n, rest, hn⟩ := value.exists_nodes_cons
        (p + (quoted key).length + afterKey.text.length + 1 + beforeValue.text.length)
      rw [Members.nodes, hn, Members.count, List.length_cons, List.length_cons]
      omega
  | .cons key afterKey beforeValue value after before members, p => by
      obtain ⟨n, rest, hn⟩ := value.exists_nodes_cons
        (p + (quoted key).length + afterKey.text.length + 1 + beforeValue.text.length)
      have hrest := Members.two_mul_count_le members
        (p + (quoted key).length + afterKey.text.length + 1 + beforeValue.text.length +
          value.text.length + after.text.length + 1 + before.text.length)
      rw [Members.nodes, hn, Members.count, List.length_cons, List.cons_append, List.length_cons,
        List.length_append]
      omega

/-- The members of an object are behind its first node. -/
theorem Value.exists_nodes_eq {key : List UInt8} {value v : Value}
    (h : (key, v) ∈ value.members) (p : ℕ) :
    ∃ before n q behind, (value.nodes p).tail = before ++ n :: (v.nodes q ++ behind) ∧
      n.isString key = true := by
  cases value with
  | object blank members => exact members.exists_nodes_eq _ h
  | _ => cases h

@[simp] theorem length_quoted (body : Body) : (quoted body).length = body.text.length + 2 := by
  simp only [quoted, List.length_cons, List.length_append, List.length_nil]

/-! ## Where nodes lie -/

mutual

/-- The nodes of a value lie in its text. -/
theorem Value.nodes_within : ∀ (value : Value) (p : ℕ), ∀ n ∈ value.nodes p,
    p ≤ n.start ∧ n.stop ≤ p + value.text.length
  | .string body, p, n, hn => by
      rw [Value.nodes, List.mem_singleton] at hn
      subst hn
      simp only [Node.stop, Value.text, length_quoted]
      omega
  | .scalar scalar, p, n, hn => by
      rw [Value.nodes, List.mem_singleton] at hn
      subst hn
      exact ⟨le_rfl, le_rfl⟩
  | .emptyArray blank, p, n, hn => by
      rw [Value.nodes, List.mem_singleton] at hn
      subst hn
      exact ⟨le_rfl, le_rfl⟩
  | .array blank elems, p, n, hn => by
      rw [Value.nodes, List.mem_cons] at hn
      rcases hn with rfl | hn
      · exact ⟨le_rfl, le_rfl⟩
      · have := Elems.nodes_within elems _ n hn
        simp only [Value.text, List.length_cons, List.length_append, List.length_nil]
        omega
  | .emptyObject blank, p, n, hn => by
      rw [Value.nodes, List.mem_singleton] at hn
      subst hn
      exact ⟨le_rfl, le_rfl⟩
  | .object blank members, p, n, hn => by
      rw [Value.nodes, List.mem_cons] at hn
      rcases hn with rfl | hn
      · exact ⟨le_rfl, le_rfl⟩
      · have := Members.nodes_within members _ n hn
        simp only [Value.text, List.length_cons, List.length_append, List.length_nil]
        omega

/-- The nodes of elements lie in their text. -/
theorem Elems.nodes_within : ∀ (elems : Elems) (p : ℕ), ∀ n ∈ elems.nodes p,
    p ≤ n.start ∧ n.stop ≤ p + elems.text.length
  | .last value after, p, n, hn => by
      have := Value.nodes_within value p n hn
      simp only [Elems.text, List.length_append]
      omega
  | .cons value after before elems, p, n, hn => by
      simp only [Elems.text, List.length_append, List.length_cons]
      rw [Elems.nodes, List.mem_append] at hn
      rcases hn with hn | hn
      · have := Value.nodes_within value p n hn
        omega
      · have := Elems.nodes_within elems _ n hn
        omega

/-- The nodes of members lie in their text. -/
theorem Members.nodes_within : ∀ (members : Members) (p : ℕ), ∀ n ∈ members.nodes p,
    p ≤ n.start ∧ n.stop ≤ p + members.text.length
  | .last key afterKey beforeValue value after, p, n, hn => by
      simp only [Members.text, List.length_append, List.length_cons, length_quoted]
      rw [Members.nodes, List.mem_cons] at hn
      rcases hn with rfl | hn
      · simp only [Node.stop]
        omega
      · have := Value.nodes_within value _ n hn
        rw [length_quoted] at this
        omega
  | .cons key afterKey beforeValue value after before members, p, n, hn => by
      simp only [Members.text, List.length_append, List.length_cons, length_quoted]
      rw [Members.nodes, List.mem_cons, List.mem_append] at hn
      rcases hn with rfl | hn | hn
      · simp only [Node.stop]
        omega
      · have := Value.nodes_within value _ n hn
        rw [length_quoted] at this
        omega
      · have := Members.nodes_within members _ n hn
        rw [length_quoted] at this
        omega

end

/-! ## Texts in documents -/

/-- A JSON document: a value with white space around it. -/
structure Document where
  /-- The white space in front. -/
  before : Blank
  /-- The value. -/
  value : Value
  /-- The white space behind. -/
  after : Blank

/-- The text of a document. -/
def Document.text (doc : Document) : List UInt8 :=
  doc.before.text ++ doc.value.text ++ doc.after.text

/-- The nodes of a document. -/
def Document.nodes (doc : Document) : List Node := doc.value.nodes doc.before.text.length

/-! ## Characters -/

/-- A string holds no `NUL`. -/
theorem ne_zero_of_isBody {s : List UInt8} (h : isBody s = true) : ∀ c ∈ s, c ≠ 0 := by
  fun_induction isBody s with
  | case1 => simp
  | case2 s => cases h
  | case3 => cases h
  | case4 d s hd _ ih =>
      have hd0 : d ≠ 0 := by
        rintro rfl
        exact absurd hd (by decide)
      simp only [List.mem_cons, forall_eq_or_imp]
      exact ⟨by decide, hd0, ih h⟩
  | case5 h₀ i j k s _ _ ih =>
      rw [Bool.and_eq_true] at h
      have hhex : ∀ c ∈ [h₀, i, j, k], c ≠ 0 := by
        rintro c hc rfl
        have := List.all_eq_true.mp h.1 0 hc
        exact absurd this (by decide)
      simp only [List.mem_cons, forall_eq_or_imp, List.not_mem_nil, false_implies, implies_true,
        and_true] at hhex ⊢
      exact ⟨by decide, by decide, hhex.1, hhex.2.1, hhex.2.2.1, hhex.2.2.2, ih h.2⟩
  | case6 => cases h
  | case7 => cases h
  | case8 c s hquote hescape ih =>
      rw [Bool.and_eq_true, decide_eq_true_eq] at h
      have hc : c ≠ 0 := by
        rintro rfl
        exact absurd h.1 (by decide)
      simp only [List.mem_cons, forall_eq_or_imp]
      exact ⟨hc, ih h.2⟩

theorem Blank.ne_zero (blank : Blank) : ∀ c ∈ blank.text, c ≠ 0 := by
  rintro c hc rfl
  exact absurd (blank.isBlank 0 hc) (by decide)

theorem Scalar.ne_zero (scalar : Scalar) : ∀ c ∈ scalar.text, c ≠ 0 := by
  rintro c hc rfl
  exact absurd (scalar.isScalarChar 0 hc) (by decide)

theorem quoted_ne_zero (body : Body) : ∀ c ∈ quoted body, c ≠ 0 := by
  have hbody := ne_zero_of_isBody body.isBody
  simp only [quoted, List.mem_cons, List.mem_append, List.not_mem_nil, or_false, forall_eq_or_imp]
  refine ⟨by decide, fun c hc => ?_⟩
  rcases hc with hc | rfl
  · exact hbody c hc
  · decide

/-- A text between brackets. -/
theorem bracketed_ne_zero {o e : UInt8} {inner : List UInt8} (ho : o ≠ 0) (he : e ≠ 0)
    (h : ∀ c ∈ inner, c ≠ 0) : ∀ c ∈ o :: (inner ++ [e]), c ≠ 0 := by
  simp only [List.mem_cons, List.mem_append, List.not_mem_nil, or_false, forall_eq_or_imp]
  exact ⟨ho, fun c hc => hc.elim (h c) fun hce => hce ▸ he⟩

/-- Texts behind each other. -/
theorem append_ne_zero {s t : List UInt8} (hs : ∀ c ∈ s, c ≠ 0) (ht : ∀ c ∈ t, c ≠ 0) :
    ∀ c ∈ s ++ t, c ≠ 0 :=
  fun c hc => (List.mem_append.mp hc).elim (hs c) (ht c)

/-- A character and a text. -/
theorem cons_ne_zero {d : UInt8} {t : List UInt8} (hd : d ≠ 0) (ht : ∀ c ∈ t, c ≠ 0) :
    ∀ c ∈ d :: t, c ≠ 0 :=
  fun c hc => (List.mem_cons.mp hc).elim (fun h => h ▸ hd) (ht c)

mutual

/-- No character of a value is `NUL`. -/
theorem Value.ne_zero : ∀ (value : Value), ∀ c ∈ value.text, c ≠ 0
  | .string body => quoted_ne_zero body
  | .scalar scalar => scalar.ne_zero
  | .emptyArray blank => bracketed_ne_zero (by decide) (by decide) blank.ne_zero
  | .array blank elems =>
      bracketed_ne_zero (by decide) (by decide) (append_ne_zero blank.ne_zero elems.ne_zero)
  | .emptyObject blank => bracketed_ne_zero (by decide) (by decide) blank.ne_zero
  | .object blank members =>
      bracketed_ne_zero (by decide) (by decide) (append_ne_zero blank.ne_zero members.ne_zero)

theorem Elems.ne_zero : ∀ (elems : Elems), ∀ c ∈ elems.text, c ≠ 0
  | .last value after => append_ne_zero value.ne_zero after.ne_zero
  | .cons value after before elems =>
      append_ne_zero (append_ne_zero value.ne_zero after.ne_zero)
        (cons_ne_zero (by decide) (append_ne_zero before.ne_zero elems.ne_zero))

theorem Members.ne_zero : ∀ (members : Members), ∀ c ∈ members.text, c ≠ 0
  | .last key afterKey beforeValue value after =>
      append_ne_zero (append_ne_zero (quoted_ne_zero key) afterKey.ne_zero)
        (cons_ne_zero (by decide)
          (append_ne_zero (append_ne_zero beforeValue.ne_zero value.ne_zero) after.ne_zero))
  | .cons key afterKey beforeValue value after before members =>
      append_ne_zero (append_ne_zero (quoted_ne_zero key) afterKey.ne_zero)
        (cons_ne_zero (by decide)
          (append_ne_zero
            (append_ne_zero (append_ne_zero beforeValue.ne_zero value.ne_zero) after.ne_zero)
            (cons_ne_zero (by decide) (append_ne_zero before.ne_zero members.ne_zero))))

end

/-- No character of a document is `NUL`. -/
theorem Document.ne_zero (doc : Document) : ∀ c ∈ doc.text, c ≠ 0 :=
  append_ne_zero (append_ne_zero doc.before.ne_zero doc.value.ne_zero) doc.after.ne_zero

/-! ## Where the texts of nodes stand -/

/-- A character that may stand behind a number or a word. -/
def ends (c : UInt8) : Bool :=
  isBlank c ∨ c = ','.toUInt8 ∨ c = ']'.toUInt8 ∨ c = '}'.toUInt8

/-- The text of the node stands at its position in `s`, in front of the closing quote of a string or
of a character that ends a number or a word. -/
def Stands (s : List UInt8) (n : Node) : Prop :=
  ∃ tail, s.drop n.start = n.text ++ tail ∧
    (n.kind = .string → tail.head? = some '"'.toUInt8) ∧
    (n.kind = .scalar → ∀ c ∈ tail.head?, ends c = true)

theorem ends_cons {d : UInt8} (hd : ends d = true) (s : List UInt8) :
    ∀ c ∈ (d :: s).head?, ends c = true := by
  intro c hc
  obtain rfl : d = c := by simpa using hc
  exact hd

theorem ends_blank (blank : Blank) {s : List UInt8} (h : ∀ c ∈ s.head?, ends c = true) :
    ∀ c ∈ (blank.text ++ s).head?, ends c = true := by
  obtain ⟨t, ht⟩ := blank
  cases t with
  | nil => exact h
  | cons c t =>
      refine ends_cons ?_ _
      simp only [ends, ht c List.mem_cons_self, true_or, decide_true]

/-- Behind the first part of a text stands the second. -/
theorem drop_length {s a b : List UInt8} {p : ℕ} (h : s.drop p = a ++ b) :
    s.drop (p + a.length) = b := by
  rw [← List.drop_drop, h, List.drop_left]

/-- Behind a character stands the next one. -/
theorem drop_succ {s b : List UInt8} {c : UInt8} {p : ℕ} (h : s.drop p = c :: b) :
    s.drop (p + 1) = b := by
  rw [← List.drop_drop, h, List.drop_one, List.tail_cons]

/-- A string stands behind its quote. -/
theorem stands_quoted {s rest : List UInt8} {p : ℕ} {body : Body} (size : ℕ)
    (h : s.drop p = quoted body ++ rest) : Stands s ⟨.string, p + 1, body.text, size⟩ := by
  refine ⟨'"'.toUInt8 :: rest, ?_, fun _ => rfl, fun hkind => (by cases hkind)⟩
  rw [quoted, List.cons_append, List.append_assoc] at h
  exact drop_succ h

/-- An array or an object stands where it starts. -/
theorem stands_container {s rest : List UInt8} {n : Node}
    (hkind : n.kind = .array ∨ n.kind = .object) (h : s.drop n.start = n.text ++ rest) :
    Stands s n := by
  refine ⟨rest, h, fun hstring => ?_, fun hscalar => ?_⟩
  · rw [hstring] at hkind
    rcases hkind with hkind | hkind <;> cases hkind
  · rw [hscalar] at hkind
    rcases hkind with hkind | hkind <;> cases hkind

mutual

/-- The nodes of a value stand in its text. -/
theorem Value.stands : ∀ (value : Value) {s rest : List UInt8} {p : ℕ},
    s.drop p = value.text ++ rest → (∀ c ∈ rest.head?, ends c = true) →
    ∀ n ∈ value.nodes p, Stands s n
  | .string body, s, rest, p, h, _, n, hn => by
      rw [Value.nodes, List.mem_singleton] at hn
      subst hn
      exact stands_quoted 0 h
  | .scalar scalar, s, rest, p, h, hrest, n, hn => by
      rw [Value.nodes, List.mem_singleton] at hn
      subst hn
      exact ⟨rest, h, fun hkind => (by cases hkind), fun _ => hrest⟩
  | .emptyArray blank, s, rest, p, h, _, n, hn => by
      rw [Value.nodes, List.mem_singleton] at hn
      subst hn
      exact stands_container (Or.inl rfl) h
  | .array blank elems, s, rest, p, h, _, n, hn => by
      rw [Value.nodes, List.mem_cons] at hn
      rcases hn with rfl | hn
      · exact stands_container (Or.inl rfl) h
      · rw [Value.text, List.cons_append, List.append_assoc, List.append_assoc] at h
        exact elems.stands (drop_length (drop_succ h)) (ends_cons (by decide) _) n hn
  | .emptyObject blank, s, rest, p, h, _, n, hn => by
      rw [Value.nodes, List.mem_singleton] at hn
      subst hn
      exact stands_container (Or.inr rfl) h
  | .object blank members, s, rest, p, h, _, n, hn => by
      rw [Value.nodes, List.mem_cons] at hn
      rcases hn with rfl | hn
      · exact stands_container (Or.inr rfl) h
      · rw [Value.text, List.cons_append, List.append_assoc, List.append_assoc] at h
        exact members.stands (drop_length (drop_succ h)) (ends_cons (by decide) _) n hn

/-- The nodes of elements stand in their text. -/
theorem Elems.stands : ∀ (elems : Elems) {s rest : List UInt8} {p : ℕ},
    s.drop p = elems.text ++ rest → (∀ c ∈ rest.head?, ends c = true) →
    ∀ n ∈ elems.nodes p, Stands s n
  | .last value after, s, rest, p, h, hrest, n, hn => by
      rw [Elems.text, List.append_assoc] at h
      exact value.stands h (ends_blank after hrest) n hn
  | .cons value after before elems, s, rest, p, h, hrest, n, hn => by
      simp only [Elems.text, List.append_assoc, List.cons_append] at h
      rw [Elems.nodes, List.mem_append] at hn
      rcases hn with hn | hn
      · exact value.stands h (ends_blank after (ends_cons (by decide) _)) n hn
      · exact elems.stands (drop_length (drop_succ (drop_length (drop_length h)))) hrest n hn

/-- The nodes of members stand in their text. -/
theorem Members.stands : ∀ (members : Members) {s rest : List UInt8} {p : ℕ},
    s.drop p = members.text ++ rest → (∀ c ∈ rest.head?, ends c = true) →
    ∀ n ∈ members.nodes p, Stands s n
  | .last key afterKey beforeValue value after, s, rest, p, h, hrest, n, hn => by
      simp only [Members.text, List.append_assoc, List.cons_append] at h
      rw [Members.nodes, List.mem_cons] at hn
      rcases hn with rfl | hn
      · exact stands_quoted 1 h
      · exact value.stands (drop_length (drop_succ (drop_length (drop_length h))))
          (ends_blank after hrest) n hn
  | .cons key afterKey beforeValue value after before members, s, rest, p, h, hrest, n, hn => by
      simp only [Members.text, List.append_assoc, List.cons_append] at h
      have hvalue := drop_length (drop_succ (drop_length (drop_length h)))
      rw [Members.nodes, List.mem_cons, List.mem_append] at hn
      rcases hn with rfl | hn | hn
      · exact stands_quoted 1 h
      · exact value.stands hvalue (ends_blank after (ends_cons (by decide) _)) n hn
      · exact members.stands (drop_length (drop_succ (drop_length (drop_length hvalue)))) hrest n hn

end

/-- The nodes of an object stand in its text, whatever is behind it. -/
theorem Value.stands_of_isObject {value : Value} (hobject : value.isObject = true)
    {s rest : List UInt8} {p : ℕ} (h : s.drop p = value.text ++ rest) :
    ∀ n ∈ value.nodes p, Stands s n := by
  intro n hn
  match value, hobject with
  | .emptyObject blank, _ =>
      rw [Value.nodes, List.mem_singleton] at hn
      subst hn
      exact stands_container (Or.inr rfl) h
  | .object blank members, _ =>
      rw [Value.nodes, List.mem_cons] at hn
      rcases hn with rfl | hn
      · exact stands_container (Or.inr rfl) h
      · rw [Value.text, List.cons_append, List.append_assoc, List.append_assoc] at h
        exact members.stands (drop_length (drop_succ h)) (ends_cons (by decide) _) n hn

/-- The nodes of a document that is an object stand in its text, whatever is behind it. -/
theorem Document.stands {doc : Document} (hobject : doc.value.isObject = true) (s : List UInt8) :
    ∀ n ∈ doc.nodes, Stands (doc.text ++ s) n := by
  have h : (doc.text ++ s).drop doc.before.text.length =
      doc.value.text ++ (doc.after.text ++ s) := by
    simp only [Document.text, List.append_assoc, List.drop_left]
  exact Value.stands_of_isObject hobject h

/-! ## The texts of nodes -/

/-- The text of the node is one of its kind. -/
def Node.Formed (n : Node) : Prop :=
  match n.kind with
  | .string => isBody n.text = true
  | .scalar => n.text ≠ [] ∧ ∀ c ∈ n.text, isScalarChar c = true
  | .array => n.text.head? = some '['.toUInt8
  | .object => n.text.head? = some '{'.toUInt8

mutual

/-- The nodes of a value. -/
theorem Value.nodes_formed : ∀ (value : Value) (p : ℕ), ∀ n ∈ value.nodes p, n.Formed
  | .string body, p, n, hn => by
      rw [Value.nodes, List.mem_singleton] at hn
      exact hn ▸ body.isBody
  | .scalar scalar, p, n, hn => by
      rw [Value.nodes, List.mem_singleton] at hn
      exact hn ▸ ⟨scalar.ne_nil, scalar.isScalarChar⟩
  | .emptyArray blank, p, n, hn => by
      rw [Value.nodes, List.mem_singleton] at hn
      exact hn ▸ rfl
  | .array blank elems, p, n, hn => by
      rw [Value.nodes, List.mem_cons] at hn
      rcases hn with rfl | hn
      · rfl
      · exact elems.nodes_formed _ n hn
  | .emptyObject blank, p, n, hn => by
      rw [Value.nodes, List.mem_singleton] at hn
      exact hn ▸ rfl
  | .object blank members, p, n, hn => by
      rw [Value.nodes, List.mem_cons] at hn
      rcases hn with rfl | hn
      · rfl
      · exact members.nodes_formed _ n hn

/-- The nodes of elements. -/
theorem Elems.nodes_formed : ∀ (elems : Elems) (p : ℕ), ∀ n ∈ elems.nodes p, n.Formed
  | .last value _, p, n, hn => value.nodes_formed p n hn
  | .cons value _ _ elems, p, n, hn => by
      rw [Elems.nodes, List.mem_append] at hn
      exact hn.elim (value.nodes_formed _ n) (elems.nodes_formed _ n)

/-- The nodes of members. -/
theorem Members.nodes_formed : ∀ (members : Members) (p : ℕ), ∀ n ∈ members.nodes p, n.Formed
  | .last key _ _ value _, p, n, hn => by
      rw [Members.nodes, List.mem_cons] at hn
      rcases hn with rfl | hn
      · exact key.isBody
      · exact value.nodes_formed _ n hn
  | .cons key _ _ value _ _ members, p, n, hn => by
      rw [Members.nodes, List.mem_cons, List.mem_append] at hn
      rcases hn with rfl | hn | hn
      · exact key.isBody
      · exact value.nodes_formed _ n hn
      · exact members.nodes_formed _ n hn

end

/-! ## Where nodes end -/

/-- What must be read of a node to know what it is: its text, or its bracket. -/
def Node.head (n : Node) : List UInt8 :=
  match n.kind with
  | .string => n.text
  | .scalar => n.text
  | .array => n.text.take 1
  | .object => n.text.take 1

theorem Node.length_head_le (n : Node) : n.head.length ≤ n.text.length := by
  unfold Node.head
  split
  · exact le_rfl
  · exact le_rfl
  · exact List.length_take_le' _ _
  · exact List.length_take_le' _ _

/-- No node ends inside the head of another. -/
def Apart (l : List Node) : Prop :=
  ∀ n ∈ l, ∀ m ∈ l, n.stop < m.start ∨ m.start + m.head.length ≤ n.stop

theorem apart_singleton (n : Node) : Apart [n] := by
  intro n₁ hn m hm
  rw [List.mem_singleton.mp hn, List.mem_singleton.mp hm]
  have := n.length_head_le
  exact Or.inr (by rw [Node.stop]; omega)

/-- Nodes behind each other. -/
theorem apart_append {l₁ l₂ : List Node} {q : ℕ} (h₁ : Apart l₁) (h₂ : Apart l₂)
    (hstop : ∀ n ∈ l₁, n.stop ≤ q) (hstart : ∀ n ∈ l₂, q < n.start) : Apart (l₁ ++ l₂) := by
  intro n hn m hm
  rcases List.mem_append.mp hn with hn | hn
  · rcases List.mem_append.mp hm with hm | hm
    · exact h₁ n hn m hm
    · have := hstop n hn
      have := hstart m hm
      exact Or.inl (by omega)
  · rcases List.mem_append.mp hm with hm | hm
    · have := hstop m hm
      have := hstart n hn
      have := m.length_head_le
      rw [Node.stop] at *
      exact Or.inr (by omega)
    · exact h₂ n hn m hm

/-- A container and what is in it. -/
theorem apart_container {n : Node} {l : List Node} (hkind : n.kind = .array ∨ n.kind = .object)
    (h : Apart l) (hwithin : ∀ m ∈ l, n.start < m.start ∧ m.stop ≤ n.stop) : Apart (n :: l) := by
  have hhead : n.head.length ≤ 1 := by
    unfold Node.head
    rcases hkind with hkind | hkind <;> rw [hkind] <;> exact List.length_take_le _ _
  intro n₁ hn₁ m hm
  rcases List.mem_cons.mp hn₁ with rfl | hinner
  · have := m.length_head_le
    rcases List.mem_cons.mp hm with rfl | hm
    · exact Or.inr (by rw [Node.stop]; omega)
    · have := (hwithin m hm).2
      rw [Node.stop] at this
      exact Or.inr (by omega)
  · rcases List.mem_cons.mp hm with rfl | hm
    · have := (hwithin n₁ hinner).1
      exact Or.inr (by rw [Node.stop]; omega)
    · exact h n₁ hinner m hm

mutual

/-- The nodes of a value. -/
theorem Value.nodes_apart : ∀ (value : Value) (p : ℕ), Apart (value.nodes p)
  | .string body, p => apart_singleton _
  | .scalar scalar, p => apart_singleton _
  | .emptyArray blank, p => apart_singleton _
  | .array blank elems, p => by
      refine apart_container (Or.inl rfl) (elems.nodes_apart _) fun m hm => ?_
      have := elems.nodes_within _ m hm
      simp only [Node.stop, Value.text, List.length_cons, List.length_append,
        List.length_nil] at this ⊢
      omega
  | .emptyObject blank, p => apart_singleton _
  | .object blank members, p => by
      refine apart_container (Or.inr rfl) (members.nodes_apart _) fun m hm => ?_
      have := members.nodes_within _ m hm
      simp only [Node.stop, Value.text, List.length_cons, List.length_append,
        List.length_nil] at this ⊢
      omega

/-- The nodes of elements. -/
theorem Elems.nodes_apart : ∀ (elems : Elems) (p : ℕ), Apart (elems.nodes p)
  | .last value after, p => value.nodes_apart p
  | .cons value after before elems, p =>
      apart_append (value.nodes_apart p) (elems.nodes_apart _)
        (fun n hn => (value.nodes_within p n hn).2) fun n hn => by
          have := (elems.nodes_within _ n hn).1
          omega

/-- The nodes of members. -/
theorem Members.nodes_apart : ∀ (members : Members) (p : ℕ), Apart (members.nodes p)
  | .last key afterKey beforeValue value after, p => by
      refine apart_append (q := p + 1 + key.text.length) (apart_singleton _) (value.nodes_apart _)
        (by simp [Node.stop]) fun n hn => ?_
      have := (value.nodes_within _ n hn).1
      rw [length_quoted] at this
      omega
  | .cons key afterKey beforeValue value after before members, p => by
      refine apart_append (q := p + 1 + key.text.length) (apart_singleton _)
        (apart_append (value.nodes_apart _) (members.nodes_apart _)
          (fun n hn => (value.nodes_within _ n hn).2) fun n hn => ?_)
        (by simp [Node.stop]) fun n hn => ?_
      · have := (members.nodes_within _ n hn).1
        omega
      · rcases List.mem_append.mp hn with hn | hn
        · have := (value.nodes_within _ n hn).1
          rw [length_quoted] at this
          omega
        · have := (members.nodes_within _ n hn).1
          rw [length_quoted] at this
          omega

end

end AnylWallet.Lib.Json
