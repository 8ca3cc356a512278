import AnylWallet.Lib.Proto

/-!
# Protobuf messages with numbers

* `Field.bytes` is the encoding of a field in any of the four wire types. A message of valid fields is
  read back (`parse_fields`).
* `number` is the value of a field with a varint: the last one, or 0. `optNumber` is such a field as
  proto3 writes it: not at all where the number is 0.
* `zigzag` maps the numbers of a field of type `sint64` to those of a varint, and `unzigzag` back.
-/

namespace AnylWallet.Lib.Proto

open AnylWallet.Lib

/-! ## Fields of any wire type -/

/-- The encoding of a field: the tag, which is 8 times the number plus the wire type, and behind it the
value. -/
def Field.bytes (f : Field) : List UInt8 :=
  match f.value with
  | .varint n => varint (8 * f.number) ++ varint n
  | .fixed64 bytes => varint (8 * f.number + 1) ++ bytes
  | .len bytes => record f.number bytes
  | .fixed32 bytes => varint (8 * f.number + 5) ++ bytes

/-- The value can be written in its wire type: a varint has 64 bits, the fixed types have 8 and 4 bytes,
and the length of a string of bytes is a varint itself. -/
def Value.Valid : Value → Prop
  | .varint n => n < 2 ^ 64
  | .fixed64 bytes => bytes.length = 8
  | .len bytes => bytes.length < 2 ^ 64
  | .fixed32 bytes => bytes.length = 4

/-- A field with a number that the format has room for, and a value that can be written. -/
structure Field.Valid (f : Field) : Prop where
  pos : 0 < f.number
  lt : f.number < 2 ^ 29
  value : f.value.Valid

/-- A field is read back if its value is. -/
theorem reads_tagged {f : Field} {wireType : ℕ} {bs : List UInt8} (h : f.Valid) (hwire : wireType < 8)
    (hvalue : Reads (readValue f.number wireType) bs f) :
    Reads readField (varint (8 * f.number + wireType) ++ bs) f := by
  have hpos := h.pos
  have hlt := h.lt
  refine (reads_varint (by omega)).bind ?_
  rw [if_neg (by omega), show (8 * f.number + wireType) / 8 = f.number by omega,
    show (8 * f.number + wireType) % 8 = wireType by omega]
  exact hvalue

/-- Bytes are read back as the value of a field. -/
theorem reads_bytes (number : ℕ) (bytes : List UInt8) {value : List UInt8 → Value} :
    Reads ((Reader.takeBytes bytes.length).bind fun bytes =>
      Reader.done (⟨number, value bytes⟩ : Field)) bytes ⟨number, value bytes⟩ := by
  have hread := (Reads.takeBytes bytes).bind
    (f := fun bytes => Reader.done (⟨number, value bytes⟩ : Field)) (Reads.done _)
  rwa [List.append_nil] at hread

/-- **A field is read back.** -/
theorem Field.Valid.reads {f : Field} (h : f.Valid) : Reads readField f.bytes f := by
  obtain ⟨number, value⟩ := f
  cases value with
  | varint n =>
      have hread := (reads_varint h.value).bind
        (f := fun n => Reader.done (⟨number, .varint n⟩ : Field)) (Reads.done _)
      rw [List.append_nil] at hread
      exact @reads_tagged ⟨number, .varint n⟩ 0 _ h (by norm_num) hread
  | fixed64 bytes =>
      have hread := @reads_bytes number bytes .fixed64
      rw [h.value] at hread
      exact @reads_tagged ⟨number, .fixed64 bytes⟩ 1 _ h (by norm_num) hread
  | len bytes => exact reads_record h.pos h.lt h.value
  | fixed32 bytes =>
      have hread := @reads_bytes number bytes .fixed32
      rw [h.value] at hread
      exact @reads_tagged ⟨number, .fixed32 bytes⟩ 5 _ h (by norm_num) hread

/-- The tag takes a byte, so that no field is written as nothing. -/
theorem Field.bytes_ne_nil (f : Field) : f.bytes ≠ [] := by
  have htag : ∀ n bs, varint n ++ bs ≠ [] := by
    intro n bs h
    have hpos := (length_varint n).1
    rw [(List.append_eq_nil_iff.mp h).1] at hpos
    exact absurd hpos (Nat.lt_irrefl 0)
  obtain ⟨number, value⟩ := f
  cases value with
  | varint n => exact htag _ _
  | fixed64 bytes => exact htag _ _
  | len bytes => exact record_ne_nil number bytes
  | fixed32 bytes => exact htag _ _

/-! ## Messages -/

/-- The encoding of a message: its fields one after the other, with nothing in between and no end. -/
def message (fs : List Field) : List UInt8 := fs.flatMap Field.bytes

/-- A message without fields is empty. -/
@[simp] theorem message_nil : message [] = [] := rfl

/-- The fields of one message behind those of another. -/
@[simp] theorem message_append (fs gs : List Field) : message (fs ++ gs) = message fs ++ message gs :=
  List.flatMap_append

/-- A message of one field. -/
@[simp] theorem message_singleton (f : Field) : message [f] = f.bytes := List.flatMap_singleton _ _

/-- **A message is read back.** -/
theorem parse_fields {fs : List Field} (h : ∀ f ∈ fs, f.Valid) : parse (message fs) = some fs := by
  have hfields : ∀ f ∈ fs, f.bytes ≠ [] ∧ Reads readField f.bytes (id f) :=
    fun f hf => ⟨f.bytes_ne_nil, (h f hf).reads⟩
  have hread := readAll_flatMap hfields
  rwa [List.map_id] at hread

/-- A number below `128 ^ k` takes `k` bytes at most. -/
theorem length_varint_le {k n : ℕ} (hk : 0 < k) (hn : n < 128 ^ k) : (varint n).length ≤ k := by
  have hbytes : ∀ more n k, 0 < k → n < 128 ^ k → (varintBytes more n).length ≤ k := by
    intro more
    induction more with
    | zero => exact fun n k hk _ => hk
    | succ more ih =>
        intro n k hk hn
        rw [varintBytes]
        split_ifs with hlt
        · exact hk
        · obtain ⟨k, rfl⟩ := Nat.exists_eq_succ_of_ne_zero hk.ne'
          have hpos : 0 < k := by
            rcases Nat.eq_zero_or_pos k with rfl | hpos
            · exact absurd (by simpa using hn) hlt
            · exact hpos
          rw [pow_succ'] at hn
          exact Nat.succ_le_succ (ih (n / 128) k hpos (Nat.div_lt_of_lt_mul hn))
  exact hbytes 9 n k hk hn

/-- A message whose fields are valid, with an encoding of `n` bytes at most. -/
structure Bounded (n : ℕ) (fs : List Field) : Prop where
  valid : ∀ f ∈ fs, f.Valid
  length_le : (message fs).length ≤ n

namespace Bounded

variable {a b n number : ℕ} {fs gs : List Field}

/-- It is read back. -/
theorem parse (h : Bounded n fs) : Proto.parse (message fs) = some fs := parse_fields h.valid

/-- No fields take no bytes. -/
theorem nil : Bounded 0 [] where
  valid := by
    intro f hf
    cases hf
  length_le := Nat.le_refl 0

/-- **The bounds of two messages add up.** -/
theorem append (h : Bounded a fs) (h' : Bounded b gs) : Bounded (a + b) (fs ++ gs) where
  valid := by
    intro f hf
    rcases List.mem_append.mp hf with hf | hf
    · exact h.valid f hf
    · exact h'.valid f hf
  length_le := by
    rw [message_append, List.length_append]
    exact Nat.add_le_add h.length_le h'.length_le

/-- A field with bytes; its number takes two bytes at most. -/
theorem len (hpos : 0 < number) (hlt : number < 2 ^ 11) {k : ℕ} (hk : 0 < k) (hle : k ≤ 9)
    {bytes : List UInt8} (hlen : bytes.length ≤ n) (hn : n < 128 ^ k) :
    Bounded (n + k + 2) [⟨number, .len bytes⟩] where
  valid := by
    intro f hf
    have hpow : 128 ^ k ≤ 128 ^ 9 := Nat.pow_le_pow_right (by norm_num) hle
    rw [List.mem_singleton.mp hf]
    exact ⟨hpos, hlt.trans (by norm_num), (hlen.trans_lt (hn.trans_le hpow)).trans (by norm_num)⟩
  length_le := by
    have htag := @length_varint_le 2 (8 * number + 2) (by norm_num) (by norm_num; omega)
    have hvarint := length_varint_le hk (hlen.trans_lt hn)
    rw [message_singleton, Field.bytes]
    dsimp only
    rw [record, tag, List.length_append, List.length_append]
    omega

/-- Fields with messages, one for each element of a list. -/
theorem map {ι : Type} {l : List ι} {field : ι → Field} (h : ∀ x ∈ l, Bounded n [field x]) :
    Bounded (l.length * n) (l.map field) := by
  induction l with
  | nil =>
      rw [List.length_nil, Nat.zero_mul]
      exact nil
  | cons x l ih =>
      have hrest := ih fun y hy => h y (List.mem_cons_of_mem x hy)
      have hall := (h x List.mem_cons_self).append hrest
      rw [List.length_cons, Nat.succ_mul, Nat.add_comm]
      exact hall

end Bounded

/-- A message of records is not much longer than their bytes. -/
theorem length_records_le (fields : List (ℕ × List UInt8)) :
    (records fields).length ≤ (fields.map fun f => f.2.length + 20).sum := by
  induction fields with
  | nil => exact Nat.le_refl 0
  | cons f fields ih =>
      have hf := length_record_le f.1 f.2
      rw [records, List.flatMap_cons, List.length_append, List.map_cons, List.sum_cons]
      exact Nat.add_le_add hf ih

/-! ## Values by number -/

/-- The values of a field with varints, in order. -/
def numbers (number : ℕ) (fs : List Field) : List ℕ :=
  fs.filterMap fun f =>
    match f.value with
    | .varint n => if f.number = number then some n else none
    | _ => none

/-- The value of a field with a varint: the last one, or 0. -/
def number (number : ℕ) (fs : List Field) : ℕ := (numbers number fs).getLast?.getD 0

variable (k : ℕ) (fs gs : List Field)

/-- A message without fields has no elements. -/
@[simp] theorem repeated_nil : repeated k [] = [] := rfl

/-- Nor has it numbers. -/
@[simp] theorem numbers_nil : numbers k [] = [] := rfl

/-- The elements of a repeated field stand in the order of the message. -/
@[simp] theorem repeated_append : repeated k (fs ++ gs) = repeated k fs ++ repeated k gs :=
  List.filterMap_append

/-- So do its numbers. -/
@[simp] theorem numbers_append : numbers k (fs ++ gs) = numbers k fs ++ numbers k gs :=
  List.filterMap_append

/-- A field with bytes is one element of its number, and none of another. -/
@[simp] theorem repeated_len (n : ℕ) (bytes : List UInt8) :
    repeated k (⟨n, .len bytes⟩ :: fs) = (if n = k then [bytes] else []) ++ repeated k fs := by
  by_cases h : n = k
  · simp [repeated, h]
  · simp [repeated, h]

/-- It has no number. -/
@[simp] theorem numbers_len (n : ℕ) (bytes : List UInt8) :
    numbers k (⟨n, .len bytes⟩ :: fs) = numbers k fs := rfl

/-- The values of a field among fields with one number. -/
theorem repeated_map_len {ι : Type} (n : ℕ) (l : List ι) (bytes : ι → List UInt8) :
    repeated k (l.map fun x => (⟨n, .len (bytes x)⟩ : Field)) = if n = k then l.map bytes else [] := by
  induction l with
  | nil => simp
  | cons x l ih =>
      rw [List.map_cons, repeated_len, ih]
      split
      · rfl
      · rfl

/-! ## Numbers as proto3 writes them -/

/-- A field with a number that is not 0. -/
def optNumber (number n : ℕ) : List Field := if n = 0 then [] else [⟨number, .varint n⟩]

/-- A field with a number is no element with bytes. -/
@[simp] theorem repeated_optNumber (number n : ℕ) : repeated k (optNumber number n) = [] := by
  unfold optNumber
  split
  · rfl
  · rfl

/-- The number is read back, 0 as well. -/
@[simp] theorem numbers_optNumber (number n : ℕ) :
    numbers k (optNumber number n) = if number = k ∧ n ≠ 0 then [n] else [] := by
  unfold optNumber
  by_cases hn : n = 0
  · simp [hn]
  · by_cases h : number = k
    · simp [numbers, h, hn]
    · simp [numbers, h, hn]

/-- The number that is read of such a field. -/
theorem getD_optNumber (n : ℕ) : (if n = 0 then [] else [n]).getLast?.getD 0 = n := by
  by_cases h : n = 0
  · simp [h]
  · simp [h]

/-- Such a field takes few bytes; its number takes two at most. -/
theorem bounded_optNumber {number n : ℕ} (hpos : 0 < number) (hlt : number < 2 ^ 11)
    (hn : n < 2 ^ 64) : Bounded 12 (optNumber number n) := by
  unfold optNumber
  split
  · exact ⟨Bounded.nil.valid, Nat.zero_le _⟩
  · constructor
    · intro f hf
      rw [List.mem_singleton.mp hf]
      exact ⟨hpos, hlt.trans (by norm_num), hn⟩
    · have htag := @length_varint_le 2 (8 * number) (by norm_num) (by norm_num; omega)
      have hvarint := (length_varint n).2
      rw [message_singleton, Field.bytes, List.length_append]
      dsimp only
      omega

/-! ## Signed numbers -/

/-- The varint of a signed number. -/
def zigzag (v : ℤ) : ℕ := if v < 0 then (-2 * v - 1).toNat else (2 * v).toNat

/-- The signed number of a varint. -/
def unzigzag (n : ℕ) : ℤ := if n % 2 = 0 then n / 2 else -((n + 1) / 2)

/-- **A signed number is read back.** -/
theorem unzigzag_zigzag (v : ℤ) : unzigzag (zigzag v) = v := by
  unfold zigzag unzigzag
  split
  · split <;> omega
  · split <;> omega

/-- The signed numbers of 64 bits fill the varints of 64 bits. -/
theorem zigzag_lt {v : ℤ} (hle : -2 ^ 63 ≤ v) (hlt : v < 2 ^ 63) : zigzag v < 2 ^ 64 := by
  unfold zigzag
  split <;> omega

end AnylWallet.Lib.Proto
