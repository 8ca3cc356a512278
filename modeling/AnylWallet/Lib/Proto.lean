import AnylWallet.Lib.Reader
import Mathlib.Tactic.NormNum

/-!
# The protobuf wire format

* A message is a list of fields, each a number and a value. `parse` reads the fields of a message in
  any of the four wire types; `record` is the encoding of a length-delimited field, the one that
  strings, byte strings and submessages have.
* `reads_record`: a record is read back, and a part of one is not read at all. So a list of records
  is read back (`parse_records`), and a list that is cut gives only the records before the cut
  (`parse_take_records`).
* `repeated` and `singular` are the values of a field of a message: all of them in order, or the
  last one.
-/

namespace AnylWallet.Lib.Proto

open AnylWallet.Lib

/-! ## Varints -/

/-- The bytes of a number in groups of seven bits, at most `more + 1` of them. -/
def varintBytes : ℕ → ℕ → List UInt8
  | 0, n => [UInt8.ofNat n]
  | more + 1, n =>
      if n < 128 then [UInt8.ofNat n]
      else UInt8.ofNat (n % 128 + 128) :: varintBytes more (n / 128)

/-- The varint of a 64-bit number. -/
def varint (n : ℕ) : List UInt8 := varintBytes 9 n

/-- Read a number of at most `more + 1` groups. -/
def readVarintBytes : ℕ → Reader ℕ
  | _, [] => none
  | 0, b :: rest => if b.toNat < 128 then some (b.toNat, rest) else none
  | more + 1, b :: rest =>
      if b.toNat < 128 then some (b.toNat, rest)
      else
        match readVarintBytes more rest with
        | none => none
        | some (n, rest) => some (b.toNat - 128 + 128 * n, rest)

/-- Read a varint; what does not fit in 64 bits is dropped. -/
def readVarint : Reader ℕ := (readVarintBytes 9).bind fun n => Reader.done (n % 2 ^ 64)

/-- A byte of a varint. -/
theorem toNat_ofNat_of_lt {m : ℕ} (h : m < 256) : (UInt8.ofNat m).toNat = m := by
  rw [UInt8.toNat_ofNat']
  omega

/-- A number of one group is read back. -/
theorem reads_group {n : ℕ} (h : n < 128) (more : ℕ) :
    Reads (readVarintBytes more) [UInt8.ofNat n] n where
  whole rest := by
    have hn := toNat_ofNat_of_lt (h.trans (by decide))
    cases more <;> simp only [List.singleton_append, readVarintBytes, hn, if_pos h]
  cut k hk := by
    rw [List.length_singleton, Nat.lt_one_iff] at hk
    rw [hk, List.take_zero]
    cases more <;> rfl

/-- A number of at most `more + 1` groups is read back. -/
theorem reads_varintBytes {more n : ℕ} (h : n < 128 ^ (more + 1)) :
    Reads (readVarintBytes more) (varintBytes more n) n := by
  induction more generalizing n with
  | zero => exact reads_group (by simpa using h) 0
  | succ more ih =>
      rw [varintBytes]
      split_ifs with hn
      · exact reads_group hn (more + 1)
      · have hb := @toNat_ofNat_of_lt (n % 128 + 128) (by omega)
        have hb' : ¬ n % 128 + 128 < 128 := by omega
        have hrest := ih (Nat.div_lt_of_lt_mul (by rwa [pow_succ'] at h))
        constructor
        · intro rest
          have hsum : n % 128 + 128 - 128 + 128 * (n / 128) = n := by omega
          rw [List.cons_append, readVarintBytes, hb, if_neg hb', hrest.whole]
          dsimp only
          rw [hsum]
        · intro k hk
          cases k with
          | zero => rfl
          | succ k =>
              rw [List.take_succ_cons, readVarintBytes, hb, if_neg hb',
                hrest.cut k (by simpa using hk)]

/-- **A varint is read back.** -/
theorem reads_varint {n : ℕ} (h : n < 2 ^ 64) : Reads readVarint (varint n) n := by
  have hbytes : Reads (readVarintBytes 9) (varint n) n :=
    reads_varintBytes (h.trans (by norm_num))
  have hdone : Reads (Reader.done (n % 2 ^ 64)) [] n := by
    rw [Nat.mod_eq_of_lt h]
    exact Reads.done n
  have hread := hbytes.bind (f := fun n => Reader.done (n % 2 ^ 64)) hdone
  rwa [List.append_nil] at hread

/-- A varint has a byte at least, and ten at most. -/
theorem length_varint (n : ℕ) : 0 < (varint n).length ∧ (varint n).length ≤ 10 := by
  have hbytes : ∀ more n, 0 < (varintBytes more n).length ∧
      (varintBytes more n).length ≤ more + 1 := by
    intro more
    induction more with
    | zero => exact fun n => ⟨Nat.one_pos, Nat.le_refl 1⟩
    | succ more ih =>
        intro n
        rw [varintBytes]
        split_ifs
        · simp
        · have := ih (n / 128)
          rw [List.length_cons]
          omega
  exact hbytes 9 n

/-! ## Fields -/

/-- The value of a field on the wire. -/
inductive Value where
  | varint (n : ℕ)
  | fixed64 (bytes : List UInt8)
  | len (bytes : List UInt8)
  | fixed32 (bytes : List UInt8)
deriving DecidableEq

/-- A field on the wire. -/
structure Field where
  number : ℕ
  value : Value
deriving DecidableEq

/-- Read the value of a field of number `number`, by its wire type. -/
def readValue (number wireType : ℕ) : Reader Field :=
  match wireType with
  | 0 => readVarint.bind fun n => Reader.done ⟨number, .varint n⟩
  | 1 => (Reader.takeBytes 8).bind fun bytes => Reader.done ⟨number, .fixed64 bytes⟩
  | 2 => readVarint.bind fun len =>
      (Reader.takeBytes len).bind fun bytes => Reader.done ⟨number, .len bytes⟩
  | 5 => (Reader.takeBytes 4).bind fun bytes => Reader.done ⟨number, .fixed32 bytes⟩
  | _ => fun _ => none

/-- Read a field; its number is between 1 and `2 ^ 29 - 1`. -/
def readField : Reader Field :=
  readVarint.bind fun tag =>
    if tag / 8 = 0 ∨ 2 ^ 32 ≤ tag then fun _ => none else readValue (tag / 8) (tag % 8)

/-- **Parse a message** into its fields. -/
def parse (bs : List UInt8) : Option (List Field) := Reader.readAll readField bs

/-- The tag of a length-delimited field. -/
def tag (number : ℕ) : List UInt8 := varint (8 * number + 2)

/-- The encoding of a length-delimited field. -/
def record (number : ℕ) (bytes : List UInt8) : List UInt8 :=
  tag number ++ (varint bytes.length ++ bytes)

/-- **A record is read back.** -/
theorem reads_record {number : ℕ} {bytes : List UInt8} (hpos : 0 < number)
    (hnumber : number < 2 ^ 29) (hlen : bytes.length < 2 ^ 64) :
    Reads readField (record number bytes) ⟨number, .len bytes⟩ := by
  have hbytes : Reads ((Reader.takeBytes bytes.length).bind fun bytes =>
      Reader.done (⟨number, .len bytes⟩ : Field)) bytes ⟨number, .len bytes⟩ := by
    have := (Reads.takeBytes bytes).bind (f := fun bytes =>
      Reader.done (⟨number, .len bytes⟩ : Field)) (Reads.done _)
    rwa [List.append_nil] at this
  have hvalue : Reads (readValue number 2) (varint bytes.length ++ bytes) ⟨number, .len bytes⟩ :=
    (reads_varint hlen).bind hbytes
  refine (reads_varint (by omega)).bind ?_
  rw [if_neg (by omega), show (8 * number + 2) / 8 = number by omega,
    show (8 * number + 2) % 8 = 2 by omega]
  exact hvalue

theorem record_ne_nil (number : ℕ) (bytes : List UInt8) : record number bytes ≠ [] := by
  have := (length_varint (8 * number + 2)).1
  intro h
  rw [record, tag, List.append_eq_nil_iff] at h
  rw [h.1] at this
  exact absurd this (by simp)

/-! ## Messages of records -/

/-- A message of length-delimited fields. -/
def records (fields : List (ℕ × List UInt8)) : List UInt8 :=
  fields.flatMap fun f => record f.1 f.2

/-- The fields of such a message. -/
def lenFields (fields : List (ℕ × List UInt8)) : List Field :=
  fields.map fun f => ⟨f.1, .len f.2⟩

/-- Fields with valid numbers and lengths. -/
def Valid (fields : List (ℕ × List UInt8)) : Prop :=
  ∀ f ∈ fields, 0 < f.1 ∧ f.1 < 2 ^ 29 ∧ f.2.length < 2 ^ 64

variable {fields : List (ℕ × List UInt8)}

theorem Valid.reads (h : Valid fields) : ∀ f ∈ fields, record f.1 f.2 ≠ [] ∧
    Reads readField (record f.1 f.2) ⟨f.1, .len f.2⟩ := fun f hf =>
  ⟨record_ne_nil f.1 f.2, reads_record (h f hf).1 (h f hf).2.1 (h f hf).2.2⟩

/-- **A message is read back.** -/
theorem parse_records (h : Valid fields) : parse (records fields) = some (lenFields fields) :=
  readAll_flatMap h.reads

/-- **A message that is cut** gives only fields before the cut. -/
theorem parse_take_records (h : Valid fields) {k : ℕ} (hk : k < (records fields).length)
    {fs : List Field} (hparse : parse ((records fields).take k) = some fs) :
    ∃ before f after, fields = before ++ f :: after ∧ fs = lenFields before :=
  readAll_take h.reads hk hparse

/-- A record is longer than its bytes. -/
theorem length_lt_length_record (number : ℕ) (bytes : List UInt8) :
    bytes.length < (record number bytes).length := by
  have := (length_varint (8 * number + 2)).1
  rw [record, tag, List.length_append, List.length_append]
  omega

/-- The bytes of a field are shorter than the message. -/
theorem length_lt_of_mem {f : ℕ × List UInt8} (h : f ∈ fields) :
    f.2.length < (records fields).length := by
  obtain ⟨before, after, rfl⟩ := List.append_of_mem h
  have := length_lt_length_record f.1 f.2
  rw [records, List.flatMap_append, List.flatMap_cons, List.length_append, List.length_append]
  omega

/-- Fields with valid numbers are valid in a message that is not too long. -/
theorem valid_of_length (hnumber : ∀ f ∈ fields, 0 < f.1 ∧ f.1 < 2 ^ 29)
    (hlen : (records fields).length < 2 ^ 64) : Valid fields := fun f hf =>
  ⟨(hnumber f hf).1, (hnumber f hf).2, (length_lt_of_mem hf).trans hlen⟩

/-- A record is not much longer than its bytes. -/
theorem length_record_le (number : ℕ) (bytes : List UInt8) :
    (record number bytes).length ≤ bytes.length + 20 := by
  have htag := (length_varint (8 * number + 2)).2
  have hlen := (length_varint bytes.length).2
  rw [record, tag, List.length_append, List.length_append]
  omega

/-! ## The fields of a message by number -/

/-- The values of a repeated length-delimited field, in order. -/
def repeated (number : ℕ) (fs : List Field) : List (List UInt8) :=
  fs.filterMap fun f =>
    match f.value with
    | .len bytes => if f.number = number then some bytes else none
    | _ => none

/-- The value of a length-delimited field: the last one, or nothing. -/
def singular (number : ℕ) (fs : List Field) : List UInt8 :=
  (repeated number fs).getLast?.getD []

/-- The values of a field among records. -/
theorem repeated_lenFields (number : ℕ) (fields : List (ℕ × List UInt8)) :
    repeated number (lenFields fields) =
      (fields.filter fun f => f.1 == number).map Prod.snd := by
  induction fields with
  | nil => rfl
  | cons f fields ih =>
      rw [lenFields, List.map_cons, repeated, List.filterMap_cons]
      by_cases h : f.1 = number
      · simp only [h, if_true, List.filter_cons, beq_self_eq_true, List.map_cons]
        exact congrArg (f.2 :: ·) ih
      · simp only [h, if_false, List.filter_cons, beq_eq_false_iff_ne.mpr h]
        exact ih

end AnylWallet.Lib.Proto
