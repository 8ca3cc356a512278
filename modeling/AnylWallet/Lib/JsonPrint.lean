import AnylWallet.Lib.Json

/-!
# JSON texts without white space

* `Members.compact` and `Elems.compact` are an object and an array as they are printed: the parts
  one after the other, with a comma between two of them (`Members.text_compact`,
  `Elems.text_compact`).
* `Body.plain` is a string of characters that need no escape sequence.
* `Value.members`, `Value.elems` and `Value.string` read a value; what is read is not longer than the
  text (`Value.length_le_of_mem_members`, `Value.length_le_of_mem_elems`).
-/

namespace AnylWallet.Lib.Json

open AnylWallet.Lib

/-! ## Strings -/

/-- A character that stands for itself in a string. -/
def isPlain (c : UInt8) : Bool := 32 ≤ c && c != '"'.toUInt8 && c != '\\'.toUInt8

/-- Such characters may stand between quotes. -/
theorem isBody_of_plain {s : List UInt8} (h : ∀ c ∈ s, isPlain c = true) : isBody s = true := by
  induction s with
  | nil => rfl
  | cons c s ih =>
      have hc := h c List.mem_cons_self
      have hrest := ih fun d hd => h d (List.mem_cons_of_mem c hd)
      simp only [isPlain, Bool.and_eq_true, decide_eq_true_eq, bne_iff_ne] at hc
      unfold isBody
      rw [if_neg hc.1.2, if_neg hc.2, hrest, Bool.and_true, decide_eq_true_eq]
      exact hc.1.1

/-- A string of such characters. -/
def Body.plain (s : List UInt8) (h : ∀ c ∈ s, isPlain c = true) : Body := ⟨s, isBody_of_plain h⟩

/-! ## Reading a value -/

/-- The elements. -/
def Elems.toList : Elems → List Value
  | .last value _ => [value]
  | .cons value _ _ elems => value :: elems.toList

/-- The elements of a value, if it is an array. -/
def Value.elems : Value → List Value
  | .array _ elems => elems.toList
  | _ => []

/-- The text between the quotes, if the value is a string. -/
def Value.string? : Value → Option (List UInt8)
  | .string body => some body.text
  | _ => none

/-- The text of a number or a word. -/
def Value.scalar? : Value → Option (List UInt8)
  | .scalar s => some s.text
  | _ => none

/-- A string is shorter than the value. -/
theorem Value.length_le_of_string {v : Value} {s : List UInt8} (h : v.string? = some s) :
    s.length ≤ v.text.length := by
  cases v with
  | string body =>
      cases h
      rw [Value.text, length_quoted]
      omega
  | _ => cases h

/-- An element is not longer than the elements. -/
theorem Elems.length_le_of_mem {v : Value} :
    ∀ {elems : Elems}, v ∈ elems.toList → v.text.length ≤ elems.text.length
  | .last value after, h => by
      rw [Elems.toList, List.mem_singleton] at h
      subst h
      simp only [Elems.text, List.length_append]
      omega
  | .cons value after before elems, h => by
      rw [Elems.toList, List.mem_cons] at h
      simp only [Elems.text, List.length_append, List.length_cons]
      rcases h with rfl | h
      · omega
      · have := Elems.length_le_of_mem h
        omega

/-- The value of a member is not longer than the members. -/
theorem Members.length_le_of_mem {m : List UInt8 × Value} :
    ∀ {members : Members}, m ∈ members.toList → m.2.text.length ≤ members.text.length
  | .last key afterKey beforeValue value after, h => by
      rw [Members.toList, List.mem_singleton] at h
      subst h
      simp only [Members.text, List.length_append, List.length_cons]
      omega
  | .cons key afterKey beforeValue value after before members, h => by
      rw [Members.toList, List.mem_cons] at h
      simp only [Members.text, List.length_append, List.length_cons]
      rcases h with rfl | h
      · simp only
        omega
      · have := Members.length_le_of_mem h
        omega

/-- **An element is not longer than the array.** -/
theorem Value.length_le_of_mem_elems {v w : Value} (h : w ∈ v.elems) :
    w.text.length ≤ v.text.length := by
  cases v with
  | array blank elems =>
      have := Elems.length_le_of_mem h
      simp only [Value.text, List.length_cons, List.length_append]
      omega
  | _ => exact absurd h List.not_mem_nil

/-- **The value of a member is not longer than the object.** -/
theorem Value.length_le_of_mem_members {v : Value} {m : List UInt8 × Value} (h : m ∈ v.members) :
    m.2.text.length ≤ v.text.length := by
  cases v with
  | object blank members =>
      have := Members.length_le_of_mem h
      simp only [Value.text, List.length_cons, List.length_append]
      omega
  | _ => exact absurd h List.not_mem_nil

/-! ## Printing a value -/

/-- Elements with commas between them. -/
def Elems.compact (value : Value) : List Value → Elems
  | [] => .last value .none
  | next :: rest => .cons value .none .none (Elems.compact next rest)

/-- Members with commas between them. -/
def Members.compact (m : Body × Value) : List (Body × Value) → Members
  | [] => .last m.1 .none .none m.2 .none
  | next :: rest => .cons m.1 .none .none m.2 .none .none (Members.compact next rest)

/-- A member as it is printed. -/
def memberText (m : Body × Value) : List UInt8 := quoted m.1 ++ ':'.toUInt8 :: m.2.text

@[simp] theorem Elems.toList_compact (value : Value) (rest : List Value) :
    (Elems.compact value rest).toList = value :: rest := by
  induction rest generalizing value with
  | nil => rfl
  | cons next rest ih => rw [Elems.compact, Elems.toList, ih]

@[simp] theorem Members.toList_compact (m : Body × Value) (rest : List (Body × Value)) :
    (Members.compact m rest).toList = (m :: rest).map fun m => (m.1.text, m.2) := by
  induction rest generalizing m with
  | nil => rfl
  | cons next rest ih =>
      rw [Members.compact, Members.toList, ih]
      rfl

/-- The text of elements. -/
theorem Elems.text_compact (value : Value) (rest : List Value) :
    (Elems.compact value rest).text =
      value.text ++ rest.flatMap fun v => ','.toUInt8 :: v.text := by
  induction rest generalizing value with
  | nil => simp [Elems.compact, Elems.text, Blank.none]
  | cons next rest ih =>
      rw [Elems.compact, Elems.text, ih, List.flatMap_cons]
      simp [Blank.none]

/-- The text of members. -/
theorem Members.text_compact (m : Body × Value) (rest : List (Body × Value)) :
    (Members.compact m rest).text =
      memberText m ++ rest.flatMap fun m => ','.toUInt8 :: memberText m := by
  induction rest generalizing m with
  | nil => simp [Members.compact, Members.text, Blank.none, memberText]
  | cons next rest ih =>
      rw [Members.compact, Members.text, ih, List.flatMap_cons]
      simp [Blank.none, memberText]

/-- An array as it is printed. -/
def Value.compactArray (value : Value) (rest : List Value) : Value :=
  .array .none (Elems.compact value rest)

/-- An object as it is printed. -/
def Value.compactObject (m : Body × Value) (rest : List (Body × Value)) : Value :=
  .object .none (Members.compact m rest)

/-- **The text of an array.** -/
theorem Value.text_compactArray (value : Value) (rest : List Value) :
    (Value.compactArray value rest).text =
      '['.toUInt8 :: (value.text ++ (rest.flatMap fun v => ','.toUInt8 :: v.text) ++
        [']'.toUInt8]) := by
  rw [Value.compactArray, Value.text, Elems.text_compact]
  simp [Blank.none]

/-- **The text of an object.** -/
theorem Value.text_compactObject (m : Body × Value) (rest : List (Body × Value)) :
    (Value.compactObject m rest).text =
      '{'.toUInt8 :: (memberText m ++ (rest.flatMap fun m => ','.toUInt8 :: memberText m) ++
        ['}'.toUInt8]) := by
  rw [Value.compactObject, Value.text, Members.text_compact]
  simp [Blank.none]

end AnylWallet.Lib.Json
