import AnylWallet.FishSupply.FishEncoders
import AnylWallet.Sawtooth.SignedTransactions
import Mathlib.Data.List.TakeWhile

/-!
# `payload`: records, and the transactions that carry them

* A `CharArray` ends with a NUL that `strncpy` never overwrites: of a string that is too long, the
  front is kept (`CharArray.text_strncpy`).
* `readPayload` is what a transaction handler reads of a payload: the one message that belongs to the
  action, with the value of every field in it. `readPayload_agent`, `readPayload_created` and
  `readPayload_updated`: it reads what the encoders were given.
* `signAndEncode_reads`: a payload that leaves room for it is sent as a list of one signed transaction.
-/

namespace AnylWallet.FishSupply

open AnylWallet.Lib AnylWallet.Helpers AnylWallet.Eth AnylWallet.Sawtooth

/-! ## Character arrays -/

/-- An array of `n + 1` characters, the last of which is NUL. -/
structure CharArray (n : ℕ) where
  bytes : List UInt8
  length_eq : bytes.length = n + 1
  last : bytes.getLast? = some 0

namespace CharArray

variable {n : ℕ}

/-- The characters before the first NUL. -/
def text (s : CharArray n) : List UInt8 := s.bytes.takeWhile (· ≠ 0)

/-- The last byte. -/
theorem drop_bytes (s : CharArray n) : s.bytes.drop n = [0] := by
  obtain ⟨front, hfront⟩ := List.getLast?_eq_some_iff.mp s.last
  have hlen := s.length_eq
  rw [hfront, List.length_append, List.length_singleton] at hlen
  rw [hfront, List.drop_append_of_le_length (by omega), List.drop_of_length_le (by omega)]
  rfl

/-- The characters are no more than there is room for. -/
theorem length_text_le (s : CharArray n) : s.text.length ≤ n := by
  obtain ⟨front, hfront⟩ := List.getLast?_eq_some_iff.mp s.last
  have hlen := s.length_eq
  rw [hfront, List.length_append, List.length_singleton] at hlen
  have hprefix : s.text <+: front := by
    rw [text, hfront, List.takeWhile_append]
    split
    · simp
    · exact List.takeWhile_prefix _
  exact hprefix.length_le.trans (by omega)

/-- `strncpy(s, src, sizeof(s) - 1)`. -/
def strncpy (s : CharArray n) (src : List UInt8) : CharArray n where
  bytes := (src.takeWhile (· ≠ 0)).take n ++
    List.replicate (n - (src.takeWhile (· ≠ 0)).length) 0 ++ s.bytes.drop n
  length_eq := by
    rw [s.drop_bytes, List.length_append, List.length_append, List.length_take,
      List.length_replicate, List.length_singleton]
    omega
  last := by
    rw [s.drop_bytes, List.getLast?_append]
    rfl

/-- **What `strncpy` keeps** of a string: its first `n` characters. -/
theorem text_strncpy (s : CharArray n) (src : List UInt8) :
    (s.strncpy src).text = (src.takeWhile (· ≠ 0)).take n := by
  have hchars : ∀ c ∈ (src.takeWhile (· ≠ 0)).take n, decide (c ≠ 0) = true := by
    intro c hc
    have hchar := List.mem_takeWhile_imp (List.mem_of_mem_take hc)
    exact hchar
  have hzeros : ∀ k, (List.replicate k (0 : UInt8) ++ [0]).takeWhile (· ≠ 0) = [] := by
    intro k
    cases k with
    | zero => rfl
    | succ k => rfl
  rw [text, strncpy]
  dsimp only
  rw [s.drop_bytes, List.append_assoc, List.takeWhile_append_of_pos hchars, hzeros, List.append_nil]

end CharArray

/-! ## The source -/

/-- `fish_record_t`. Source: `payload/payload.h` -/
structure FishRecord where
  weight : UInt64
  length : UInt64
  /-- `RECORD_SPECIES_LEN` characters. -/
  species : CharArray 3
  /-- `RECORD_ID_LEN` characters. -/
  id : CharArray 15
  latitude : Int64
  longitude : Int64

/-- `init_payload`; `now` is `tv_sec` of `gettimeofday`. Source: `payload/payload.c` -/
def initPayload (payload : SCPayload) (action : Action) (now : UInt64) : SCPayload :=
  { { payload with action := action }.initEncoder with timestamp := now }

/-- `fish_record_set_properties`, for an array of four. Source: `payload/payload.c` -/
def fishRecordSetProperties (rec : FishRecord) (properties : Vector PropertyValue 4) :
    Vector PropertyValue 4 :=
  let p0 := properties[0].initEncoder .number
  let p1 := properties[1].initEncoder .number
  let p2 := properties[2].initEncoder .string
  let p3 := properties[3].initEncoder .location
  #v[{ p0 with
        name := { p0.name with arg := some (ascii "weight") }
        numberValue := rec.weight.toInt64 },
    { p1 with
        name := { p1.name with arg := some (ascii "length") }
        numberValue := rec.length.toInt64 },
    { p2 with
        name := { p2.name with arg := some (ascii "species") }
        stringValue := { p2.stringValue with arg := some rec.species.text } },
    { p3 with
        name := { p3.name with arg := some (ascii "location") }
        locationValue := ⟨rec.latitude, rec.longitude⟩ }]

/-- What `encode_create_agent` encodes. -/
def agentPayload (now : UInt64) (agentName : List UInt8) : SCPayload :=
  let payload := initPayload .initDefault .createAgent now
  { payload with createAgent := ⟨{ payload.createAgent.name with arg := some agentName }⟩ }

/-- What `encode_createRecord` encodes. -/
def createdPayload (now : UInt64) (rec : FishRecord) : SCPayload :=
  let payload := initPayload .initDefault .createRecord now
  let properties := fishRecordSetProperties rec (.replicate 4 .zero)
  { payload with
    createRecord :=
      { properties := { payload.createRecord.properties with arg := some properties.toList }
        recordId := { payload.createRecord.recordId with arg := some rec.id.text }
        recordType := { payload.createRecord.recordType with arg := some (ascii "fish") } } }

/-- What `encode_updateProperties` encodes. -/
def updatedPayload (now : UInt64) (rec : FishRecord) : SCPayload :=
  let payload := initPayload .initDefault .updateProperties now
  let properties := fishRecordSetProperties rec (.replicate 4 .zero)
  { payload with
    updateProperties :=
      { properties := { payload.updateProperties.properties with arg := some properties.toList }
        recordId := { payload.updateProperties.recordId with arg := some rec.id.text } } }

section Source

variable (cr : StCrypto) (ecdsaGetPublicKey65 : Vector UInt8 32 → Vector UInt8 65) (pb : Nanopb)
  (writesEmpty : Bool)

/-- `encode_create_agent`. Source: `payload/payload.c` -/
def encodeCreateAgent (now : UInt64) (agentName : List UInt8) (buf : Region) (bufSize : UInt64) :
    Option Encoded :=
  stEncode pb (scPayloadMessage pb writesEmpty (agentPayload now agentName)) buf bufSize

/-- `encode_createRecord`. Source: `payload/payload.c` -/
def encodeCreateRecord (now : UInt64) (rec : FishRecord) (buf : Region) (bufSize : UInt64) :
    Option Encoded :=
  stEncode pb (scPayloadMessage pb writesEmpty (createdPayload now rec)) buf bufSize

/-- `encode_updateProperties`. Source: `payload/payload.c` -/
def encodeUpdateProperties (now : UInt64) (rec : FishRecord) (buf : Region) (bufSize : UInt64) :
    Option Encoded :=
  stEncode pb (scPayloadMessage pb writesEmpty (updatedPayload now rec)) buf bufSize

/-- The bytes as an array. -/
def arrayOf (n : ℕ) (bytes : List UInt8) : Vector UInt8 n := Vector.ofFn fun i => bytes.getD i 0

/-- The two addresses on the stack of `sign_and_encode`, before anything is stored. -/
structure AddressStack where
  input : StAddress
  output : StAddress

/-- The transaction that `sign_and_encode` signs. Source: `payload/payload.c` -/
def unsignedTx (asserts : Bool) (stk : AddressStack) (privkey : StPrivkey) (payload : StPayload) :
    Except Fault StTx := do
  let (batcher, _) ← hextobin asserts
    (ascii "034f355bdcb7cc0af728ef3cceb9615d90684bb5b2ca5f859ab0f0b704075871aa")
    (List.replicate 65 0)
  let (input, _) ← hextobin asserts (ascii "3400de") stk.input.a.toList
  let (output, _) ← hextobin asserts (ascii "3400de") stk.output.a.toList
  return {
    header :=
      { batcherPubkey := ⟨arrayOf 65 batcher⟩
        dependencies := []
        familyName := ⟨arrayOf 17 (ascii "supply_chain"), by decide⟩
        familyVersion := ⟨arrayOf 5 (ascii "1.1"), by decide⟩
        inputs := [⟨arrayOf 35 input⟩]
        nonce := ⟨arrayOf 5 (ascii "42"), by decide⟩
        outputs := [⟨arrayOf 35 output⟩]
        payloadSha512 := Vector.replicate 64 0
        signerPubkey := ⟨ecdsaGetPublicKey65 privkey.k⟩ }
    headerSignature := ⟨Vector.replicate 65 0⟩
    payload := payload }

/-- `sign_and_encode`; what `st_sign_tx` returns is not looked at. Source: `payload/payload.c` -/
def signAndEncode (asserts : Bool) (stk : AddressStack) (privkey : StPrivkey) (payload : StPayload)
    (buf : Region) (bufSize : UInt64) : Except Fault (Option Encoded) := do
  let tx ← unsignedTx ecdsaGetPublicKey65 asserts stk privkey payload
  let tx :=
    match stSignTx cr pb tx privkey buf bufSize with
    | some (tx, _) => tx
    | none => { tx with header := tx.header.setPayloadSha512 (cr.sha512Raw payload.buf) }
  return stEncodeTxList pb [tx] buf bufSize

end Source

/-! ## What a transaction handler reads -/

/-- A property as it is read. -/
structure Property where
  name : List UInt8
  dataType : ℕ
  bytesValue : List UInt8
  booleanValue : Bool
  numberValue : ℤ
  stringValue : List UInt8
  enumValue : List UInt8
  structValues : List (List UInt8)
  latitude : ℤ
  longitude : ℤ
deriving DecidableEq

/-- Read a `PropertyValue`; a field that is not there has its default. -/
def readProperty (bs : List UInt8) : Option Property := do
  let fs ← Proto.parse bs
  let loc ← Proto.parse (Proto.singular 17 fs)
  return {
    name := Proto.singular 1 fs
    dataType := Proto.number 2 fs
    bytesValue := Proto.singular 11 fs
    booleanValue := Proto.number 12 fs ≠ 0
    numberValue := Proto.unzigzag (Proto.number 13 fs)
    stringValue := Proto.singular 14 fs
    enumValue := Proto.singular 15 fs
    structValues := Proto.repeated 16 fs
    latitude := Proto.unzigzag (Proto.number 1 loc)
    longitude := Proto.unzigzag (Proto.number 2 loc) }

/-- What a payload asks for. -/
inductive Submission where
  | createAgent (name : List UInt8)
  | createRecord (recordId recordType : List UInt8) (properties : List Property)
  | updateProperties (recordId : List UInt8) (properties : List Property)
deriving DecidableEq

/-- Read an `SCPayload`: the timestamp, and the message of the action. -/
def readPayload (bs : List UInt8) : Option (ℕ × Submission) := do
  let fs ← Proto.parse bs
  match Proto.number 1 fs with
  | 0 => do
      let msg ← Proto.parse (Proto.singular 3 fs)
      return (Proto.number 2 fs, .createAgent (Proto.singular 1 msg))
  | 1 => do
      let msg ← Proto.parse (Proto.singular 4 fs)
      let properties ← (Proto.repeated 3 msg).mapM readProperty
      return (Proto.number 2 fs,
        .createRecord (Proto.singular 1 msg) (Proto.singular 2 msg) properties)
  | 4 => do
      let msg ← Proto.parse (Proto.singular 7 fs)
      let properties ← (Proto.repeated 2 msg).mapM readProperty
      return (Proto.number 2 fs, .updateProperties (Proto.singular 1 msg) properties)
  | _ => none

/-! ## Reading what is written -/

section Read

variable {writesEmpty : Bool} (k number : ℕ)

/-- The text of a callback that is set. -/
def Callback.texts (cb : Callback (List UInt8)) : List (List UInt8) :=
  if cb.encode then cb.arg.toList else []

@[simp] theorem repeated_stringField (cb : Callback (List UInt8)) :
    Proto.repeated k (stringField number cb) = if number = k then cb.texts else [] := by
  obtain ⟨encode, arg⟩ := cb
  cases encode with
  | false => simp [stringField, Callback.fields, Callback.texts]
  | true =>
      cases arg with
      | none => simp [stringField, Callback.fields, Callback.texts]
      | some text => simp [stringField, Callback.fields, Callback.texts]

@[simp] theorem numbers_stringField (cb : Callback (List UInt8)) :
    Proto.numbers k (stringField number cb) = [] := by
  obtain ⟨encode, arg⟩ := cb
  cases encode with
  | false => rfl
  | true =>
      cases arg with
      | none => rfl
      | some text => rfl

@[simp] theorem repeated_memberField (isZero : Bool) (fs : List Proto.Field) :
    Proto.repeated k (memberField writesEmpty number isZero fs) =
      if number = k then (if isZero = true ∧ writesEmpty = false then [] else [Proto.message fs])
      else [] := by
  unfold memberField
  split
  · simp
  · simp

@[simp] theorem numbers_memberField (isZero : Bool) (fs : List Proto.Field) :
    Proto.numbers k (memberField writesEmpty number isZero fs) = [] := by
  unfold memberField
  split
  · rfl
  · rfl

/-- A message without content is read as one that is not there. -/
theorem getD_memberField {isZero : Bool} {fs : List Proto.Field} (h : isZero = true → fs = []) :
    (if isZero = true ∧ writesEmpty = false then [] else [Proto.message fs]).getLast?.getD [] =
      Proto.message fs := by
  split
  · next hzero => rw [h hzero.1]; rfl
  · rfl

/-- A `Location` is short. -/
theorem bounded_location (loc : Location) : Proto.Bounded 24 loc.fields :=
  (Proto.bounded_optNumber (by norm_num) (by norm_num)
    (Proto.zigzag_lt loc.latitude.le_toInt loc.latitude.toInt_lt)).append
    (Proto.bounded_optNumber (by norm_num) (by norm_num)
      (Proto.zigzag_lt loc.longitude.le_toInt loc.longitude.toInt_lt))

variable {k number}

/-- A message in a message is not much longer. -/
theorem bounded_memberField {n : ℕ} {isZero : Bool} {fs : List Proto.Field} (h : Proto.Bounded n fs)
    (hpos : 0 < number) (hlt : number < 2 ^ 11) (hk : 0 < k) (hle : k ≤ 9) (hn : n < 128 ^ k) :
    Proto.Bounded (n + k + 2) (memberField writesEmpty number isZero fs) := by
  unfold memberField
  split
  · exact ⟨Proto.Bounded.nil.valid, Nat.zero_le _⟩
  · exact Proto.Bounded.len hpos hlt hk hle h.length_le hn

/-- A short string. -/
theorem bounded_stringField {n : ℕ} {cb : Callback (List UInt8)}
    (h : ∀ text, cb.arg = some text → text.length ≤ n) (hpos : 0 < number) (hlt : number < 2 ^ 11)
    (hk : 0 < k) (hle : k ≤ 9) (hn : n < 128 ^ k) :
    Proto.Bounded (n + k + 2) (stringField number cb) := by
  obtain ⟨encode, arg⟩ := cb
  cases encode with
  | false => exact ⟨Proto.Bounded.nil.valid, Nat.zero_le _⟩
  | true =>
      cases arg with
      | none => exact ⟨Proto.Bounded.nil.valid, Nat.zero_le _⟩
      | some text => exact Proto.Bounded.len hpos hlt hk hle (h text rfl) hn

/-- The properties that the encoders set. -/
structure PropertyValue.Short (value : PropertyValue) : Prop where
  name : ∀ text, value.name.arg = some text → text.length ≤ 8
  bytesValue : value.bytesValue = .null
  stringValue : ∀ text, value.stringValue.arg = some text → text.length ≤ 3
  enumValue : value.enumValue = .null

/-- They are short. -/
theorem PropertyValue.Short.bounded {value : PropertyValue} (h : value.Short) :
    Proto.Bounded 83 (value.fields writesEmpty) := by
  have htype : value.dataType.toNat < 2 ^ 64 := by
    cases value.dataType <;> decide
  have hflag : (if value.booleanValue then 1 else 0) < 2 ^ 64 := by
    cases value.booleanValue <;> decide
  have hbytes : Proto.Bounded 0 (value.bytesValue.fields fun pl => [⟨11, .len pl.buf⟩]) := by
    rw [h.bytesValue]
    exact Proto.Bounded.nil
  have henum : ∀ text, value.enumValue.arg = some text → text.length ≤ 0 := by
    rw [h.enumValue]
    intro text htext
    cases htext
  have hname := @bounded_stringField 1 1 8 _ h.name (by norm_num) (by norm_num) (by norm_num)
    (by norm_num) (by norm_num)
  have hstring := @bounded_stringField 1 14 3 _ h.stringValue (by norm_num) (by norm_num)
    (by norm_num) (by norm_num) (by norm_num)
  have henum' := @bounded_stringField 1 15 0 _ henum (by norm_num) (by norm_num) (by norm_num)
    (by norm_num) (by norm_num)
  have hlocation := @bounded_memberField writesEmpty 1 17 24 value.locationValue.isZero _
    (bounded_location value.locationValue) (by norm_num) (by norm_num) (by norm_num) (by norm_num)
    (by norm_num)
  exact (((((((hname.append (Proto.bounded_optNumber (by norm_num) (by norm_num) htype)).append
    hbytes).append (Proto.bounded_optNumber (by norm_num) (by norm_num) hflag)).append
    (Proto.bounded_optNumber (by norm_num) (by norm_num)
      (Proto.zigzag_lt value.numberValue.le_toInt value.numberValue.toInt_lt))).append
    hstring).append henum').append hlocation)

/-- What is read of a property. -/
def PropertyValue.read (value : PropertyValue) : Property where
  name := value.name.texts.getLast?.getD []
  dataType := value.dataType.toNat
  bytesValue := []
  booleanValue := value.booleanValue
  numberValue := value.numberValue.toInt
  stringValue := value.stringValue.texts.getLast?.getD []
  enumValue := []
  structValues := []
  latitude := value.locationValue.latitude.toInt
  longitude := value.locationValue.longitude.toInt

/-- **A property is read back.** -/
theorem PropertyValue.Short.readProperty {value : PropertyValue} (h : value.Short) :
    readProperty (Proto.message (value.fields writesEmpty)) = some value.read := by
  have hzero : value.locationValue.isZero = true → value.locationValue.fields = [] := by
    intro hzero
    obtain ⟨hlat, hlon⟩ := of_decide_eq_true hzero
    rw [Location.fields, hlat, hlon]
    rfl
  have hbytes : value.bytesValue.fields (fun pl => [(⟨11, .len pl.buf⟩ : Proto.Field)]) = [] := by
    rw [h.bytesValue]
    rfl
  have henum : value.enumValue.texts = [] := by
    rw [h.enumValue]
    rfl
  have hlocation : Proto.singular 17 (value.fields writesEmpty) =
      Proto.message value.locationValue.fields := by
    simp [Proto.singular, PropertyValue.fields, hbytes, getD_memberField hzero]
  have hboolean : (decide (Proto.number 12 (value.fields writesEmpty) ≠ 0)) = value.booleanValue := by
    cases hflag : value.booleanValue <;>
      simp [Proto.number, PropertyValue.fields, hbytes, hflag]
  have hnumber : Proto.number 13 (value.fields writesEmpty) = Proto.zigzag value.numberValue.toInt := by
    simp [Proto.number, PropertyValue.fields, hbytes, Proto.getD_optNumber]
  have htype : Proto.number 2 (value.fields writesEmpty) = value.dataType.toNat := by
    simp [Proto.number, PropertyValue.fields, hbytes, Proto.getD_optNumber]
  have hlat : Proto.number 1 value.locationValue.fields =
      Proto.zigzag value.locationValue.latitude.toInt := by
    simp [Proto.number, Location.fields, Proto.getD_optNumber]
  have hlon : Proto.number 2 value.locationValue.fields =
      Proto.zigzag value.locationValue.longitude.toInt := by
    simp [Proto.number, Location.fields, Proto.getD_optNumber]
  simp only [FishSupply.readProperty, h.bounded.parse, hlocation, (bounded_location _).parse,
    Option.bind_eq_bind, Option.bind_some, hboolean, hnumber, htype, hlat, hlon,
    Proto.unzigzag_zigzag]
  simp [PropertyValue.read, Proto.singular, PropertyValue.fields, hbytes, henum]

/-- Properties are read back. -/
theorem mapM_readProperty {lst : List PropertyValue} (h : ∀ value ∈ lst, value.Short) :
    (lst.map fun value => Proto.message (value.fields writesEmpty)).mapM readProperty =
      some (lst.map PropertyValue.read) := by
  induction lst with
  | nil => rfl
  | cons value lst ih =>
      have hrest := ih fun v hv => h v (List.mem_cons_of_mem value hv)
      rw [List.map_cons, List.mapM_cons, (h value List.mem_cons_self).readProperty, hrest]
      rfl

end Read

/-- A property with nothing but a name and a type. -/
def Property.named (name : String) (type : DataType) : Property :=
  ⟨ascii name, type.toNat, [], false, 0, [], [], [], 0, 0⟩

/-- The properties of a record. -/
def FishRecord.properties (rec : FishRecord) : List Property :=
  [{ Property.named "weight" .number with numberValue := rec.weight.toInt64.toInt },
    { Property.named "length" .number with numberValue := rec.length.toInt64.toInt },
    { Property.named "species" .string with stringValue := rec.species.text },
    { Property.named "location" .location with
      latitude := rec.latitude.toInt
      longitude := rec.longitude.toInt }]

/-- The array that `fish_record_set_properties` fills. -/
def FishRecord.values (rec : FishRecord) : List PropertyValue :=
  (fishRecordSetProperties rec (.replicate 4 .zero)).toList

theorem FishRecord.values_eq (rec : FishRecord) : rec.values =
    [{ PropertyValue.zero with
        name := ⟨true, some (ascii "weight")⟩, dataType := .number,
        numberValue := rec.weight.toInt64 },
      { PropertyValue.zero with
        name := ⟨true, some (ascii "length")⟩, dataType := .number,
        numberValue := rec.length.toInt64 },
      { PropertyValue.zero with
        name := ⟨true, some (ascii "species")⟩, dataType := .string,
        stringValue := ⟨true, some rec.species.text⟩ },
      { PropertyValue.zero with
        name := ⟨true, some (ascii "location")⟩, dataType := .location,
        locationValue := ⟨rec.latitude, rec.longitude⟩ }] := rfl

/-- They are read as its properties. -/
theorem FishRecord.map_read_values (rec : FishRecord) :
    rec.values.map PropertyValue.read = rec.properties := rfl

theorem FishRecord.short_values (rec : FishRecord) : ∀ value ∈ rec.values, value.Short := by
  have hnames : (ascii "weight").length ≤ 8 ∧ (ascii "length").length ≤ 8 ∧
      (ascii "species").length ≤ 8 ∧ (ascii "location").length ≤ 8 := by decide
  have hsome : ∀ {a : List UInt8} {n : ℕ}, a.length ≤ n →
      ∀ text, some a = some text → text.length ≤ n := by
    intro a n ha text h
    cases h
    exact ha
  have hnone : ∀ {n : ℕ}, ∀ text : List UInt8, none = some text → text.length ≤ n := by
    rintro n text h
    cases h
  intro value hvalue
  simp only [rec.values_eq, List.mem_cons, List.not_mem_nil, or_false] at hvalue
  rcases hvalue with rfl | rfl | rfl | rfl
  · exact ⟨hsome hnames.1, rfl, hnone, rfl⟩
  · exact ⟨hsome hnames.2.1, rfl, hnone, rfl⟩
  · exact ⟨hsome hnames.2.2.1, rfl, hsome rec.species.length_text_le, rfl⟩
  · exact ⟨hsome hnames.2.2.2, rfl, hnone, rfl⟩

section Payloads

variable {writesEmpty : Bool} (now : UInt64) (rec : FishRecord)

/-- The properties of a record take few bytes. -/
theorem bounded_values {number : ℕ} (hpos : 0 < number) (hlt : number < 2 ^ 11) :
    Proto.Bounded 344 (rec.values.map fun value =>
      ⟨number, .len (Proto.message (value.fields writesEmpty))⟩) := by
  have hall : ∀ value ∈ rec.values, Proto.Bounded 86
      [⟨number, .len (Proto.message (value.fields writesEmpty))⟩] := by
    intro value hvalue
    exact @Proto.Bounded.len 83 number hpos hlt 1 Nat.one_pos (by norm_num) _
      (rec.short_values value hvalue).bounded.length_le (by norm_num)
  have hfour : rec.values.length = 4 := by
    rw [rec.values_eq]
    rfl
  have hlist := Proto.Bounded.map hall
  rw [hfour] at hlist
  exact hlist

/-- A message that is not set takes few bytes. -/
theorem bounded_unset {number : ℕ} {isZero : Bool} (hpos : 0 < number) (hlt : number < 2 ^ 11) :
    Proto.Bounded 3 (memberField writesEmpty number isZero []) :=
  bounded_memberField Proto.Bounded.nil hpos hlt Nat.one_pos (by norm_num) (by norm_num)

/-- A payload takes little more than its messages. -/
theorem bounded_payload {payload : SCPayload} {a b c : ℕ}
    (hfinalize : payload.finalizeRecord = ⟨.null⟩)
    (hagent : Proto.Bounded a (stringField 1 payload.createAgent.name))
    (hcreate : Proto.Bounded b (payload.createRecord.fields writesEmpty))
    (hupdate : Proto.Bounded c (payload.updateProperties.fields writesEmpty))
    (ha : a < 128 ^ 2) (hb : b < 128 ^ 2) (hc : c < 128 ^ 2) :
    Proto.Bounded (a + b + c + 51) (payload.fields writesEmpty) := by
  have haction : payload.action.toNat < 2 ^ 64 := by
    cases payload.action <;> decide
  have hunset (number : ℕ) (hpos : 0 < number) (hlt : number < 2 ^ 11) :
      Proto.Bounded 3 (memberField writesEmpty number true []) := bounded_unset hpos hlt
  have hfinal : Proto.Bounded 3 (memberField writesEmpty 5 payload.finalizeRecord.recordId.isZero
      (stringField 1 payload.finalizeRecord.recordId)) := by
    rw [hfinalize]
    exact bounded_unset (by norm_num) (by norm_num)
  have hnumber : Proto.Bounded 12 (Proto.optNumber 1 payload.action.toNat) :=
    Proto.bounded_optNumber (by norm_num) (by norm_num) haction
  have htime : Proto.Bounded 12 (Proto.optNumber 2 payload.timestamp.toNat) :=
    Proto.bounded_optNumber (by norm_num) (by norm_num) payload.timestamp.toNat_lt
  have hmember {n : ℕ} {fs : List Proto.Field} (h : Proto.Bounded n fs) (hn : n < 128 ^ 2)
      (number : ℕ) (hpos : 0 < number) (hlt : number < 2 ^ 11) (isZero : Bool) :
      Proto.Bounded (n + 2 + 2) (memberField writesEmpty number isZero fs) :=
    bounded_memberField h hpos hlt Nat.two_pos (by norm_num) hn
  have hthree := (hnumber.append htime).append
    (hmember hagent ha 3 (by norm_num) (by norm_num) payload.createAgent.name.isZero)
  have hsix := ((hthree.append
    (hmember hcreate hb 4 (by norm_num) (by norm_num) (payload.createRecord.recordId.isZero &&
      payload.createRecord.recordType.isZero && payload.createRecord.properties.isZero))).append
    hfinal).append (hunset 6 (by norm_num) (by norm_num))
  have hall := (((hsix.append
    (hmember hupdate hc 7 (by norm_num) (by norm_num) (payload.updateProperties.recordId.isZero &&
      payload.updateProperties.properties.isZero))).append
    (hunset 8 (by norm_num) (by norm_num))).append (hunset 9 (by norm_num) (by norm_num))).append
    (hunset 10 (by norm_num) (by norm_num))
  exact ⟨hall.valid, hall.length_le.trans (by omega)⟩

/-- Nothing is written of a callback that is not set. -/
theorem fields_of_isZero {α : Type} {cb : Callback α} (h : cb.isZero = true)
    (fields : α → List Proto.Field) : cb.fields fields = [] := by
  obtain ⟨encode, arg⟩ := cb
  cases encode with
  | false => rfl
  | true => cases h

/-- The numbers of a payload. -/
theorem numbers_payload (payload : SCPayload) :
    Proto.number 1 (payload.fields writesEmpty) = payload.action.toNat ∧
      Proto.number 2 (payload.fields writesEmpty) = payload.timestamp.toNat := by
  constructor
  · simp [Proto.number, SCPayload.fields, Proto.getD_optNumber]
  · simp [Proto.number, SCPayload.fields, Proto.getD_optNumber]

/-- The messages of a payload. -/
theorem singular_payload (payload : SCPayload) :
    Proto.singular 3 (payload.fields writesEmpty) =
        Proto.message (stringField 1 payload.createAgent.name) ∧
      Proto.singular 4 (payload.fields writesEmpty) =
        Proto.message (payload.createRecord.fields writesEmpty) ∧
      Proto.singular 7 (payload.fields writesEmpty) =
        Proto.message (payload.updateProperties.fields writesEmpty) := by
  have hagent : payload.createAgent.name.isZero = true →
      stringField 1 payload.createAgent.name = [] := fun h => fields_of_isZero h _
  have hcreate : (payload.createRecord.recordId.isZero && payload.createRecord.recordType.isZero &&
      payload.createRecord.properties.isZero) = true →
      payload.createRecord.fields writesEmpty = [] := by
    intro h
    rw [Bool.and_eq_true, Bool.and_eq_true] at h
    rw [CreateRecordAction.fields, stringField, stringField, propertiesField,
      fields_of_isZero h.1.1, fields_of_isZero h.1.2, fields_of_isZero h.2]
    rfl
  have hupdate : (payload.updateProperties.recordId.isZero &&
      payload.updateProperties.properties.isZero) = true →
      payload.updateProperties.fields writesEmpty = [] := by
    intro h
    rw [Bool.and_eq_true] at h
    rw [UpdatePropertiesAction.fields, stringField, propertiesField, fields_of_isZero h.1,
      fields_of_isZero h.2]
    rfl
  have hread : ∀ k, Proto.singular k (payload.fields writesEmpty) =
      (Proto.repeated k (payload.fields writesEmpty)).getLast?.getD [] := fun k => rfl
  refine ⟨?_, ?_, ?_⟩
  · rw [hread, ← @getD_memberField writesEmpty _ _ hagent, SCPayload.fields]
    generalize payload.createAgent.name.isZero = isZero
    simp
  · rw [hread, ← @getD_memberField writesEmpty _ _ hcreate, SCPayload.fields]
    generalize (payload.createRecord.recordId.isZero && payload.createRecord.recordType.isZero &&
      payload.createRecord.properties.isZero) = isZero
    simp
  · rw [hread, ← @getD_memberField writesEmpty _ _ hupdate, SCPayload.fields]
    generalize (payload.updateProperties.recordId.isZero &&
      payload.updateProperties.properties.isZero) = isZero
    simp

/-! ### The three payloads -/

/-- A text is read as the value of its field. -/
theorem parse_text {number k : ℕ} {text : List UInt8} (hpos : 0 < number) (hlt : number < 2 ^ 11)
    (hk : 0 < k) (hle : k ≤ 9) (hlen : text.length < 128 ^ k) :
    Proto.Bounded (text.length + k + 2) (stringField number ⟨true, some text⟩) :=
  Proto.Bounded.len hpos hlt hk hle le_rfl hlen

/-- **The payload that creates an agent** is short, and is read back. -/
theorem readPayload_agent {agentName : List UInt8} (hlen : agentName.length ≤ 512) :
    (Proto.message ((agentPayload now agentName).fields writesEmpty)).length ≤
        agentName.length + 55 ∧
      readPayload (Proto.message ((agentPayload now agentName).fields writesEmpty)) =
        some (now.toNat, .createAgent agentName) := by
  have hagent : Proto.Bounded (agentName.length + 2 + 2)
      (stringField 1 (agentPayload now agentName).createAgent.name) :=
    parse_text (by norm_num) (by norm_num) Nat.two_pos (by norm_num) (by norm_num; omega)
  have hall := @bounded_payload writesEmpty (agentPayload now agentName) _ 0 0 rfl hagent
    Proto.Bounded.nil Proto.Bounded.nil (by norm_num; omega) (by norm_num) (by norm_num)
  obtain ⟨haction, htime⟩ := @numbers_payload writesEmpty (agentPayload now agentName)
  obtain ⟨hmessage, -, -⟩ := @singular_payload writesEmpty (agentPayload now agentName)
  have hname : Proto.singular 1 (stringField 1 (agentPayload now agentName).createAgent.name) =
      agentName := rfl
  refine ⟨hall.length_le.trans (by omega), ?_⟩
  simp only [readPayload, hall.parse, haction, htime, hmessage, hagent.parse, hname,
    Option.bind_eq_bind, Option.bind_some]
  rfl

/-- The properties of a record are read back. -/
theorem mapM_values : (rec.values.map fun value => Proto.message (value.fields writesEmpty)).mapM
    readProperty = some rec.properties :=
  (mapM_readProperty rec.short_values).trans (congrArg some rec.map_read_values)

/-- The fields of the message that creates a record. -/
theorem fields_created : (createdPayload now rec).createRecord.fields writesEmpty =
    [⟨1, .len rec.id.text⟩] ++ [⟨2, .len (ascii "fish")⟩] ++
      rec.values.map fun value => ⟨3, .len (Proto.message (value.fields writesEmpty))⟩ := rfl

/-- **The payload that creates a record** is short, and is read back. -/
theorem readPayload_created :
    (Proto.message ((createdPayload now rec).fields writesEmpty)).length ≤ 420 ∧
      readPayload (Proto.message ((createdPayload now rec).fields writesEmpty)) =
        some (now.toNat, .createRecord rec.id.text (ascii "fish") rec.properties) := by
  have hfish : (ascii "fish").length ≤ 4 := by decide
  have hid := @Proto.Bounded.len 15 1 (by norm_num) (by norm_num) 1 Nat.one_pos (by norm_num) _
    rec.id.length_text_le (by norm_num)
  have htype := @Proto.Bounded.len 4 2 (by norm_num) (by norm_num) 1 Nat.one_pos (by norm_num) _
    hfish (by norm_num)
  have hcreate := (hid.append htype).append
    (@bounded_values writesEmpty rec 3 (by norm_num) (by norm_num))
  rw [← fields_created now rec] at hcreate
  have hall := @bounded_payload writesEmpty (createdPayload now rec) 0 _ 0 rfl Proto.Bounded.nil
    hcreate Proto.Bounded.nil (by norm_num) (by norm_num) (by norm_num)
  obtain ⟨haction, htime⟩ := @numbers_payload writesEmpty (createdPayload now rec)
  obtain ⟨-, hmessage, -⟩ := @singular_payload writesEmpty (createdPayload now rec)
  have hnumber : (createdPayload now rec).action.toNat = 1 := rfl
  have hstamp : (createdPayload now rec).timestamp = now := rfl
  have htexts : Proto.singular 1 ((createdPayload now rec).createRecord.fields writesEmpty) =
      rec.id.text ∧ Proto.singular 2 ((createdPayload now rec).createRecord.fields writesEmpty) =
      ascii "fish" := by
    rw [fields_created]
    simp [Proto.singular, Proto.repeated_map_len]
  have hproperties : Proto.repeated 3 ((createdPayload now rec).createRecord.fields writesEmpty) =
      rec.values.map fun value => Proto.message (value.fields writesEmpty) := by
    rw [fields_created]
    simp [Proto.repeated_map_len]
  refine ⟨hall.length_le.trans (by norm_num), ?_⟩
  simp only [readPayload, hall.parse, haction, htime, hmessage, hcreate.parse, hnumber, hstamp,
    htexts, hproperties, mapM_values, Option.bind_eq_bind, Option.bind_some]
  rfl

/-- The fields of the message that updates a record. -/
theorem fields_updated : (updatedPayload now rec).updateProperties.fields writesEmpty =
    [⟨1, .len rec.id.text⟩] ++
      rec.values.map fun value => ⟨2, .len (Proto.message (value.fields writesEmpty))⟩ := rfl

/-- **The payload that updates a record** is short, and is read back. -/
theorem readPayload_updated :
    (Proto.message ((updatedPayload now rec).fields writesEmpty)).length ≤ 420 ∧
      readPayload (Proto.message ((updatedPayload now rec).fields writesEmpty)) =
        some (now.toNat, .updateProperties rec.id.text rec.properties) := by
  have hid := @Proto.Bounded.len 15 1 (by norm_num) (by norm_num) 1 Nat.one_pos (by norm_num) _
    rec.id.length_text_le (by norm_num)
  have hupdate := hid.append (@bounded_values writesEmpty rec 2 (by norm_num) (by norm_num))
  rw [← fields_updated now rec] at hupdate
  have hall := @bounded_payload writesEmpty (updatedPayload now rec) 0 0 _ rfl Proto.Bounded.nil
    Proto.Bounded.nil hupdate (by norm_num) (by norm_num) (by norm_num)
  obtain ⟨haction, htime⟩ := @numbers_payload writesEmpty (updatedPayload now rec)
  obtain ⟨-, -, hmessage⟩ := @singular_payload writesEmpty (updatedPayload now rec)
  have hnumber : (updatedPayload now rec).action.toNat = 4 := rfl
  have hstamp : (updatedPayload now rec).timestamp = now := rfl
  have htext : Proto.singular 1 ((updatedPayload now rec).updateProperties.fields writesEmpty) =
      rec.id.text := by
    rw [fields_updated]
    simp [Proto.singular, Proto.repeated_map_len]
  have hproperties : Proto.repeated 2
      ((updatedPayload now rec).updateProperties.fields writesEmpty) =
      rec.values.map fun value => Proto.message (value.fields writesEmpty) := by
    rw [fields_updated]
    simp [Proto.repeated_map_len]
  refine ⟨hall.length_le.trans (by norm_num), ?_⟩
  simp only [readPayload, hall.parse, haction, htime, hmessage, hupdate.parse, hnumber, hstamp,
    htext, hproperties, mapM_values, Option.bind_eq_bind, Option.bind_some]
  rfl

/-- **The callbacks of the three payloads are called with a list** and without `NULL` bytes. -/
theorem set_payloads (agentName : List UInt8) :
    (agentPayload now agentName).Set ∧ (createdPayload now rec).Set ∧ (updatedPayload now rec).Set := by
  have hnull : (Callback.null : Callback (List PropertyValue)).Set := by
    intro h
    cases h
  have hvalues : ∀ lst, some rec.values = some lst → ∀ value ∈ lst, value.bytesValue.Set := by
    rintro lst hlst value hvalue hencode
    cases hlst
    rw [(rec.short_values value hvalue).bytesValue] at hencode
    cases hencode
  refine ⟨⟨hnull, hnull, ?_⟩, ⟨?_, hnull, ?_⟩, ⟨hnull, ?_, ?_⟩⟩
  · rintro lst (h | h)
    · cases h
    · cases h
  · rintro - h
    cases h
  · rintro lst (h | h)
    · exact hvalues lst h
    · cases h
  · rintro - h
    cases h
  · rintro lst (h | h)
    · cases h
    · exact hvalues lst h

/-- A payload with a message that has content is not empty. -/
theorem message_payload_pos {payload : SCPayload}
    (h : payload.action.toNat ≠ 0 ∨ payload.createAgent.name.isZero = false) :
    0 < (Proto.message (payload.fields writesEmpty)).length := by
  rw [List.length_pos_iff]
  intro hempty
  have hfields : payload.fields writesEmpty = [] := by
    cases hcase : payload.fields writesEmpty with
    | nil => rfl
    | cons f fs =>
        rw [hcase, Proto.message, List.flatMap_cons] at hempty
        exact absurd (List.append_eq_nil_iff.mp hempty).1 f.bytes_ne_nil
  rcases h with haction | hname
  · have hnumber := (@numbers_payload writesEmpty payload).1
    rw [hfields] at hnumber
    exact haction hnumber.symm
  · have hmember : memberField writesEmpty 3 payload.createAgent.name.isZero
        (stringField 1 payload.createAgent.name) = [] := by
      simp only [SCPayload.fields, List.append_eq_nil_iff] at hfields
      exact hfields.1.1.1.1.1.1.1.2
    rw [hname] at hmember
    cases hmember

end Payloads

/-! ## The transaction -/

/-- The key of the batcher. -/
def batcherKey : Vector UInt8 65 :=
  arrayOf 65 [0x03, 0x4f, 0x35, 0x5b, 0xdc, 0xb7, 0xcc, 0x0a, 0xf7, 0x28, 0xef, 0x3c, 0xce, 0xb9, 0x61,
    0x5d, 0x90, 0x68, 0x4b, 0xb5, 0xb2, 0xca, 0x5f, 0x85, 0x9a, 0xb0, 0xf0, 0xb7, 0x04, 0x07, 0x58,
    0x71, 0xaa]

/-- The prefix of the addresses of the transaction family. -/
def familyPrefix : StAddress := ⟨arrayOf 35 [0x34, 0x00, 0xde]⟩

/-- The name of the transaction family. -/
def familyName : CString 17 := ⟨arrayOf 17 (ascii "supply_chain"), by decide⟩

/-- Its version. -/
def familyVersion : CString 5 := ⟨arrayOf 5 (ascii "1.1"), by decide⟩

/-- The nonce of every transaction. -/
def supplyNonce : CString 5 := ⟨arrayOf 5 (ascii "42"), by decide⟩

/-- The transaction that `sign_and_encode` signs. -/
def supplyTx (ecdsaGetPublicKey65 : Vector UInt8 32 → Vector UInt8 65) (privkey : StPrivkey)
    (payload : StPayload) : StTx where
  header :=
    { batcherPubkey := ⟨batcherKey⟩
      dependencies := []
      familyName := familyName
      familyVersion := familyVersion
      inputs := [familyPrefix]
      nonce := supplyNonce
      outputs := [familyPrefix]
      payloadSha512 := Vector.replicate 64 0
      signerPubkey := ⟨ecdsaGetPublicKey65 privkey.k⟩ }
  headerSignature := ⟨Vector.replicate 65 0⟩
  payload := payload

/-- The address prefix, whatever the array held. -/
theorem hextobin_prefix (asserts : Bool) (address : StAddress) :
    hextobin asserts (ascii "3400de") address.a.toList =
      .ok ([0x34, 0x00, 0xde] ++ List.replicate 32 0, 3) := by
  have hlen : address.a.toList.length = 35 := by simp
  have hzeros : hextobin asserts (ascii "3400de") address.a.toList =
      hextobin asserts (ascii "3400de") (List.replicate 35 0) := by
    simp only [hextobin, hextobinAt, hlen, List.length_replicate]
    rfl
  rw [hzeros]
  cases asserts with
  | false => decide
  | true => decide

/-- The key of the batcher. -/
theorem hextobin_batcher (asserts : Bool) :
    ∃ ret, hextobin asserts
        (ascii "034f355bdcb7cc0af728ef3cceb9615d90684bb5b2ca5f859ab0f0b704075871aa")
        (List.replicate 65 0) =
      .ok ([0x03, 0x4f, 0x35, 0x5b, 0xdc, 0xb7, 0xcc, 0x0a, 0xf7, 0x28, 0xef, 0x3c, 0xce, 0xb9, 0x61,
        0x5d, 0x90, 0x68, 0x4b, 0xb5, 0xb2, 0xca, 0x5f, 0x85, 0x9a, 0xb0, 0xf0, 0xb7, 0x04, 0x07, 0x58,
        0x71, 0xaa] ++ List.replicate 32 0, ret) := by
  refine ⟨33, ?_⟩
  cases asserts with
  | false => decide +kernel
  | true => decide +kernel

/-- The bytes behind those that are given are 0. -/
theorem arrayOf_append_zeros (n k : ℕ) (bytes : List UInt8) :
    arrayOf n (bytes ++ List.replicate k 0) = arrayOf n bytes := by
  refine Vector.ext fun i hi => ?_
  simp only [arrayOf, Vector.getElem_ofFn, List.getD_eq_getElem?_getD]
  rcases Nat.lt_or_ge i bytes.length with hlt | hge
  · rw [List.getElem?_append_left hlt]
  · rw [List.getElem?_append_right hge, List.getElem?_eq_none hge, List.getElem?_replicate]
    split
    · rfl
    · rfl

/-- **What `sign_and_encode` signs**: the conversions end, and leave nothing of the stack. -/
theorem unsignedTx_eq (ecdsaGetPublicKey65 : Vector UInt8 32 → Vector UInt8 65) (asserts : Bool)
    (stk : AddressStack) (privkey : StPrivkey) (payload : StPayload) :
    unsignedTx ecdsaGetPublicKey65 asserts stk privkey payload =
      .ok (supplyTx ecdsaGetPublicKey65 privkey payload) := by
  obtain ⟨ret, hbatcher⟩ := hextobin_batcher asserts
  simp only [unsignedTx, hbatcher, hextobin_prefix, bind, Except.bind, arrayOf_append_zeros]
  rfl

/-- The size of a list of one transaction. -/
theorem txListSize_singleton_le (tx : StTx) :
    txListSize [tx] ≤ (headerBytes tx.header).length + tx.payload.buf.length + 208 := by
  have hsignature : (signatureText tx).length = 128 := by
    simp [signatureText, length_hexText]
  have htx : (txBytes tx).length ≤
      (headerBytes tx.header).length + tx.payload.buf.length + 188 := by
    refine (Proto.length_records_le (txFields tx)).trans (le_of_eq ?_)
    simp only [txFields, hsignature, List.map_append, List.map_cons, List.map_nil,
      List.sum_append, List.sum_cons, List.sum_nil]
    omega
  have hlist : txListSize [tx] ≤ (txBytes tx).length + 20 := by
    refine (Proto.length_records_le (txListFields [tx])).trans (le_of_eq ?_)
    simp only [txListFields, List.map_cons, List.map_nil, List.sum_cons, List.sum_nil, Nat.add_zero]
  omega

section Sizes

variable {cr : StCrypto} {ecdsaGetPublicKey65 : Vector UInt8 32 → Vector UInt8 65}
  (privkey : StPrivkey) (payload : StPayload)

/-- The transaction as it is signed. -/
def supplySigned (cr : StCrypto) (ecdsaGetPublicKey65 : Vector UInt8 32 → Vector UInt8 65)
    (privkey : StPrivkey) (payload : StPayload) : StTx × List UInt8 :=
  signedTx cr (supplyTx ecdsaGetPublicKey65 privkey payload) privkey

/-- The fields of its header, with the hash of the payload. -/
def supplyHeader (ecdsaGetPublicKey65 : Vector UInt8 32 → Vector UInt8 65) (privkey : StPrivkey)
    (hash : Vector UInt8 64) : List (ℕ × List UInt8) :=
  [(1, ascii "034f355bdcb7cc0af728ef3cceb9615d90684bb5b2ca5f859ab0f0b704075871aa"),
    (3, ascii "supply_chain"), (4, ascii "1.1"), (5, ascii "3400de"), (6, ascii "42"),
    (7, ascii "3400de"), (9, hexText hash.toList),
    (10, hexText (ecdsaGetPublicKey65 privkey.k).toList)]

theorem headerFields_supply (hash : Vector UInt8 64) :
    headerFields ((supplyTx ecdsaGetPublicKey65 privkey payload).header.setPayloadSha512 hash) =
      supplyHeader ecdsaGetPublicKey65 privkey hash := by
  have hbatcher : hexText (batcherKey.toList.take 33) =
      ascii "034f355bdcb7cc0af728ef3cceb9615d90684bb5b2ca5f859ab0f0b704075871aa" := by
    decide +kernel
  have hprefix : hexText (familyPrefix.a.toList.take 3) = ascii "3400de" := by
    decide +kernel
  have htexts : familyName.text = ascii "supply_chain" ∧ familyVersion.text = ascii "1.1" ∧
      supplyNonce.text = ascii "42" := by
    decide +kernel
  have hhash : hash.toList.take 64 = hash.toList := List.take_of_length_le (by simp)
  have hkey : (ecdsaGetPublicKey65 privkey.k).toList.take 65 = (ecdsaGetPublicKey65 privkey.k).toList :=
    List.take_of_length_le (by simp)
  have hfields : headerFields
      ((supplyTx ecdsaGetPublicKey65 privkey payload).header.setPayloadSha512 hash) =
      [(1, hexText (batcherKey.toList.take 33)), (3, familyName.text), (4, familyVersion.text),
        (5, hexText (familyPrefix.a.toList.take 3)), (6, supplyNonce.text),
        (7, hexText (familyPrefix.a.toList.take 3)), (9, hexText (hash.toList.take 64)),
        (10, hexText ((ecdsaGetPublicKey65 privkey.k).toList.take 65))] := rfl
  rw [hfields, hbatcher, hprefix, htexts.1, htexts.2.1, htexts.2.2, hhash, hkey]
  rfl

/-- The header is short. -/
theorem length_supplyHeader_le (hash : Vector UInt8 64) :
    (Proto.records (supplyHeader ecdsaGetPublicKey65 privkey hash)).length ≤ 513 := by
  have htexts : (ascii "034f355bdcb7cc0af728ef3cceb9615d90684bb5b2ca5f859ab0f0b704075871aa").length =
      66 ∧ (ascii "supply_chain").length = 12 ∧ (ascii "1.1").length = 3 ∧
      (ascii "3400de").length = 6 ∧ (ascii "42").length = 2 := by decide
  have hlen := Proto.length_records_le (supplyHeader ecdsaGetPublicKey65 privkey hash)
  refine hlen.trans (le_of_eq ?_)
  simp [supplyHeader, length_hexText, htexts]

/-- What is signed. -/
theorem supplySigned_header : (supplySigned cr ecdsaGetPublicKey65 privkey payload).2 =
    Proto.records (supplyHeader ecdsaGetPublicKey65 privkey (cr.sha512Raw payload.buf)) := by
  rw [← headerFields_supply privkey payload]
  rfl

/-- The list is not much longer than the payload. -/
theorem txListSize_supply :
    txListSize [(supplySigned cr ecdsaGetPublicKey65 privkey payload).1] ≤
      payload.buf.length + 721 := by
  have hheader : (headerBytes (supplySigned cr ecdsaGetPublicKey65 privkey payload).1.header).length ≤
      513 := by
    have hbytes : headerBytes (supplySigned cr ecdsaGetPublicKey65 privkey payload).1.header =
        (supplySigned cr ecdsaGetPublicKey65 privkey payload).2 := rfl
    rw [hbytes, supplySigned_header]
    exact length_supplyHeader_le privkey _
  have hpayload : (supplySigned cr ecdsaGetPublicKey65 privkey payload).1.payload = payload := rfl
  have hsize := txListSize_singleton_le (supplySigned cr ecdsaGetPublicKey65 privkey payload).1
  rw [hpayload] at hsize
  omega

end Sizes

section Sent

variable {cr : StCrypto} {ecdsaGetPublicKey65 : Vector UInt8 32 → Vector UInt8 65} {pb : Nanopb}
  (hpb : pb.Standard)
include hpb

/-- **What `sign_and_encode` leaves** where there is room: a list that is read back as the transaction
that was signed, with its payload. -/
theorem signAndEncode_reads (asserts : Bool) (stk : AddressStack) (privkey : StPrivkey)
    {payload : StPayload} (buf : Region) {bufSize : UInt64}
    (hroom : payload.buf.length + 721 ≤ bufSize.toNat) (hlen : payload.buf.length < 2 ^ 30) :
    ∃ e, signAndEncode cr ecdsaGetPublicKey65 pb asserts stk privkey payload buf bufSize =
        .ok (some e) ∧
      0 < e.ret ∧ ReadsTxList cr [supplySigned cr ecdsaGetPublicKey65 privkey payload] e.output := by
  generalize hsigned : supplySigned cr ecdsaGetPublicKey65 privkey payload = signed
  have hsize : txListSize [signed.1] ≤ payload.buf.length + 721 := by
    rw [← hsigned]
    exact txListSize_supply privkey payload
  have hheader : signed.2.length ≤ 513 := by
    rw [← hsigned, supplySigned_header]
    exact length_supplyHeader_le privkey _
  have hsign : stSignTx cr pb (supplyTx ecdsaGetPublicKey65 privkey payload) privkey buf bufSize =
      some signed := by
    rw [← hsigned] at hheader ⊢
    exact stSignTx_of_le hpb _ privkey buf bufSize (hheader.trans_lt (by norm_num))
      (hheader.trans (by omega))
  have hprepared : ∀ t ∈ [signed], Prepared cr pb t := by
    intro t ht
    rw [List.mem_singleton.mp ht]
    exact ⟨_, privkey, buf, bufSize, hsign⟩
  have hlist := stEncodeTxList_of_le hpb [signed.1] buf bufSize (hsize.trans hroom)
  have hpos : 0 < txListSize [signed.1] :=
    Nat.zero_lt_of_lt (length_txBytes_lt (List.mem_singleton.mpr rfl))
  have hret : (⟨buf.store 0 (Proto.records (txListFields [signed.1])), txListSize [signed.1]⟩ :
      Encoded).ret = txListSize [signed.1] :=
    sizeToInt_of_lt (show txListSize [signed.1] < 2 ^ 31 by omega)
  have hreads := readsTxList_of_lt hpb hprepared hlist (by rw [hret]; omega) (by
    show txListSize [signed.1] < 2 ^ 32
    omega)
  refine ⟨_, ?_, ?_, hreads⟩
  · simp only [signAndEncode, unsignedTx_eq, bind, Except.bind, hsign]
    exact congrArg Except.ok hlist
  · rw [hret]
    omega

/-- **What an encoder of a payload leaves** where there is room. -/
theorem stEncode_payload {writesEmpty : Bool} {payload : SCPayload} (hset : payload.Set) (buf : Region)
    {bufSize : UInt64}
    (hroom : (Proto.message (payload.fields writesEmpty)).length ≤ bufSize.toNat) :
    stEncode pb (scPayloadMessage pb writesEmpty payload) buf bufSize =
      some ⟨buf.store 0 (Proto.message (payload.fields writesEmpty)),
        (Proto.message (payload.fields writesEmpty)).length⟩ := by
  obtain ⟨outs, hemits, hflat⟩ := @emitsAll_scPayload pb hpb writesEmpty payload hset
  rw [← hflat] at hroom ⊢
  exact stEncode_of_le hpb hemits buf bufSize hroom

end Sent

end AnylWallet.FishSupply
