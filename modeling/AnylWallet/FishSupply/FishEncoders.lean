import AnylWallet.Lib.ProtoMessage
import AnylWallet.Sawtooth.StTransaction

/-!
# `fish_encoders`: the messages of a payload

* A payload has callbacks for its strings and lists, as the messages of `sawtooth/encoders` have, and
  members that nanopb writes itself: numbers, and messages within the message. proto3 does not write a
  number that is 0. Whether a message without content is written depends on the version of nanopb
  (`writesEmpty`); it makes no difference to what is read.
* The `..Message` functions give the fields of a message with their callbacks, the `fields` functions
  give what is written, as fields of the wire format, and `emitsAll_..` says that they do.
-/

namespace AnylWallet.FishSupply

open AnylWallet.Lib AnylWallet.Sawtooth

/-! ## The members that nanopb writes -/

section Members

variable (pb : Nanopb)

/-- What nanopb does with a number: it is not written if it is 0. -/
def pbEncodeNumber (stream : pb.Stream) (field : PbField) (n : UInt64) : Option pb.Stream :=
  if n = 0 then some stream
  else do
    let stream ← pb.pbEncodeVarint stream (UInt64.ofNat (8 * field.tag))
    pb.pbEncodeVarint stream n

/-- What nanopb does with a number of type `sint64`. -/
def pbEncodeSigned (stream : pb.Stream) (field : PbField) (v : Int64) : Option pb.Stream :=
  pbEncodeNumber pb stream field (UInt64.ofNat (Proto.zigzag v.toInt))

/-- What nanopb does with a message, that has content or has not. -/
def pbEncodeMember (writesEmpty : Bool) (stream : pb.Stream) (field : PbField) (isZero : Bool)
    (msg : pb.Message) : Option pb.Stream :=
  if isZero = true ∧ writesEmpty = false then some stream
  else do
    let stream ← pb.pbEncodeTagForField stream field
    pb.pbEncodeSubmessage stream msg

end Members

/-- `pb_callback_t`: whether `funcs.encode` is set, and what `arg` points to. -/
structure Callback (α : Type) where
  encode : Bool
  arg : Option α

/-- A callback before anything is set. -/
def Callback.null {α : Type} : Callback α := ⟨false, none⟩

/-- Nothing is set. -/
def Callback.isZero {α : Type} (cb : Callback α) : Bool := !cb.encode && cb.arg.isNone

/-- What nanopb does with a callback. -/
def Callback.write {α : Type} {pb : Nanopb} (cb : Callback α)
    (write : pb.Stream → PbField → Option α → Option pb.Stream) (stream : pb.Stream)
    (field : PbField) : Option pb.Stream :=
  if cb.encode then write stream field cb.arg else some stream

/-! ## The messages -/

/-- `PropertySchema_DataType`. Source: `payload/protos/property.proto` -/
inductive DataType where
  | typeUnset
  | bytes
  | boolean
  | number
  | string
  | enum
  | struct
  | location
deriving DecidableEq, Repr

/-- Its number. -/
def DataType.toNat : DataType → ℕ
  | .typeUnset => 0
  | .bytes => 1
  | .boolean => 2
  | .number => 3
  | .string => 4
  | .enum => 5
  | .struct => 6
  | .location => 7

/-- `Location`. Source: `payload/protos/property.proto` -/
structure Location where
  latitude : Int64
  longitude : Int64

/-- `PropertyValue`. Source: `payload/protos/property.proto` -/
structure PropertyValue where
  name : Callback (List UInt8)
  dataType : DataType
  bytesValue : Callback StPayload
  booleanValue : Bool
  numberValue : Int64
  stringValue : Callback (List UInt8)
  enumValue : Callback (List UInt8)
  structValues : Callback Unit
  locationValue : Location

/-- A `PropertyValue` that is `{ 0 }`. -/
def PropertyValue.zero : PropertyValue :=
  ⟨.null, .typeUnset, .null, false, 0, .null, .null, .null, ⟨0, 0⟩⟩

/-- `SCPayload_Action`. Source: `payload/protos/payload.proto` -/
inductive Action where
  | createAgent
  | createRecord
  | finalizeRecord
  | createRecordType
  | updateProperties
  | createProposal
  | answerProposal
  | revokeReporter
deriving DecidableEq, Repr

/-- Its number. -/
def Action.toNat : Action → ℕ
  | .createAgent => 0
  | .createRecord => 1
  | .finalizeRecord => 2
  | .createRecordType => 3
  | .updateProperties => 4
  | .createProposal => 5
  | .answerProposal => 6
  | .revokeReporter => 7

/-- `CreateAgentAction`. Source: `payload/protos/payload.proto` -/
structure CreateAgentAction where
  name : Callback (List UInt8)

/-- `CreateRecordAction`. Source: `payload/protos/payload.proto` -/
structure CreateRecordAction where
  recordId : Callback (List UInt8)
  recordType : Callback (List UInt8)
  properties : Callback (List PropertyValue)

/-- `FinalizeRecordAction`. Source: `payload/protos/payload.proto` -/
structure FinalizeRecordAction where
  recordId : Callback (List UInt8)

/-- `UpdatePropertiesAction`. Source: `payload/protos/payload.proto` -/
structure UpdatePropertiesAction where
  recordId : Callback (List UInt8)
  properties : Callback (List PropertyValue)

/-- `SCPayload`, but for the four messages in it that no function sets.
Source: `payload/protos/payload.proto` -/
structure SCPayload where
  action : Action
  timestamp : UInt64
  createAgent : CreateAgentAction
  createRecord : CreateRecordAction
  finalizeRecord : FinalizeRecordAction
  updateProperties : UpdatePropertiesAction

/-- `SCPayload_init_default`. -/
def SCPayload.initDefault : SCPayload :=
  ⟨.createAgent, 0, ⟨.null⟩, ⟨.null, .null, .null⟩, ⟨.null⟩, ⟨.null, .null⟩⟩

/-! ## The encoders -/

/-- `PropertyValue_init_encoder`. Source: `payload/fish_encoders.c` -/
def PropertyValue.initEncoder (value : PropertyValue) (type : DataType) : PropertyValue :=
  let value := { value with name := { value.name with encode := true }, dataType := type }
  match type with
  | .string => { value with stringValue := { value.stringValue with encode := true } }
  | .bytes => { value with bytesValue := { value.bytesValue with encode := true } }
  | .struct => { value with structValues := { value.structValues with encode := true } }
  | .enum | .location | .boolean | .number | .typeUnset => value

/-- `UpdatePropertiesAction_init_encoder`. Source: `payload/fish_encoders.c` -/
def UpdatePropertiesAction.initEncoder (action : UpdatePropertiesAction) : UpdatePropertiesAction where
  recordId := { action.recordId with encode := true }
  properties := { action.properties with encode := true }

/-- `CreateRecordAction_init_encoder`. Source: `payload/fish_encoders.c` -/
def CreateRecordAction.initEncoder (action : CreateRecordAction) : CreateRecordAction where
  recordId := { action.recordId with encode := true }
  recordType := { action.recordType with encode := true }
  properties := { action.properties with encode := true }

/-- `SCPayload_init_encoder`. Source: `payload/fish_encoders.c` -/
def SCPayload.initEncoder (payload : SCPayload) : SCPayload :=
  match payload.action with
  | .createAgent => { payload with createAgent := ⟨{ payload.createAgent.name with encode := true }⟩ }
  | .createRecord => { payload with createRecord := payload.createRecord.initEncoder }
  | .updateProperties => { payload with updateProperties := payload.updateProperties.initEncoder }
  | .finalizeRecord =>
      { payload with finalizeRecord := ⟨{ payload.finalizeRecord.recordId with encode := true }⟩ }
  | .createRecordType | .createProposal | .answerProposal | .revokeReporter => payload

section Encoders

variable (pb : Nanopb) (writesEmpty : Bool)

/-- `Location_fields`. Source: `payload/protos/property.proto` -/
def locationMessage (loc : Location) : pb.Message :=
  [(⟨1⟩, fun s f => pbEncodeSigned pb s f loc.latitude),
    (⟨2⟩, fun s f => pbEncodeSigned pb s f loc.longitude)]

/-- Both numbers are 0. -/
def Location.isZero (loc : Location) : Bool := loc.latitude = 0 ∧ loc.longitude = 0

/-- `write_struct_values`. Source: `payload/fish_encoders.c` -/
def writeStructValues (stream : pb.Stream) (_ : PbField) (_ : Option Unit) : Option pb.Stream :=
  some stream

/-- `PropertyValue_fields`. Source: `payload/protos/property.proto` -/
def propertyValueMessage (value : PropertyValue) : pb.Message :=
  [(⟨1⟩, fun s f => value.name.write (writeString pb) s f),
    (⟨2⟩, fun s f => pbEncodeNumber pb s f (UInt64.ofNat value.dataType.toNat)),
    (⟨11⟩, fun s f => value.bytesValue.write (fun s f arg => arg.bind (writePayload pb s f)) s f),
    (⟨12⟩, fun s f => pbEncodeNumber pb s f (if value.booleanValue then 1 else 0)),
    (⟨13⟩, fun s f => pbEncodeSigned pb s f value.numberValue),
    (⟨14⟩, fun s f => value.stringValue.write (writeString pb) s f),
    (⟨15⟩, fun s f => value.enumValue.write (writeString pb) s f),
    (⟨16⟩, fun s f => value.structValues.write (writeStructValues pb) s f),
    (⟨17⟩, fun s f => pbEncodeMember pb writesEmpty s f value.locationValue.isZero
      (locationMessage pb value.locationValue))]

/-- `write_properties`, for an `arg` that is not `NULL`. Source: `payload/fish_encoders.c` -/
def writeProperties (stream : pb.Stream) (field : PbField) (lst : List PropertyValue) :
    Option pb.Stream :=
  lst.foldlM (fun stream value => do
    let stream ← pb.pbEncodeTagForField stream field
    pb.pbEncodeSubmessage stream (propertyValueMessage pb writesEmpty value)) stream

/-- `CreateAgentAction_fields`. Source: `payload/protos/payload.proto` -/
def createAgentMessage (action : CreateAgentAction) : pb.Message :=
  [(⟨1⟩, fun s f => action.name.write (writeString pb) s f)]

/-- `CreateRecordAction_fields`. Source: `payload/protos/payload.proto` -/
def createRecordMessage (action : CreateRecordAction) : pb.Message :=
  [(⟨1⟩, fun s f => action.recordId.write (writeString pb) s f),
    (⟨2⟩, fun s f => action.recordType.write (writeString pb) s f),
    (⟨3⟩, fun s f =>
      action.properties.write (fun s f arg => arg.bind (writeProperties pb writesEmpty s f)) s f)]

/-- `FinalizeRecordAction_fields`. Source: `payload/protos/payload.proto` -/
def finalizeRecordMessage (action : FinalizeRecordAction) : pb.Message :=
  [(⟨1⟩, fun s f => action.recordId.write (writeString pb) s f)]

/-- `UpdatePropertiesAction_fields`. Source: `payload/protos/payload.proto` -/
def updatePropertiesMessage (action : UpdatePropertiesAction) : pb.Message :=
  [(⟨1⟩, fun s f => action.recordId.write (writeString pb) s f),
    (⟨2⟩, fun s f =>
      action.properties.write (fun s f arg => arg.bind (writeProperties pb writesEmpty s f)) s f)]

/-- A message in the payload that no function sets. -/
def unsetMember (stream : pb.Stream) (field : PbField) : Option pb.Stream :=
  pbEncodeMember pb writesEmpty stream field true []

/-- `SCPayload_fields`. Source: `payload/protos/payload.proto` -/
def scPayloadMessage (payload : SCPayload) : pb.Message :=
  [(⟨1⟩, fun s f => pbEncodeNumber pb s f (UInt64.ofNat payload.action.toNat)),
    (⟨2⟩, fun s f => pbEncodeNumber pb s f payload.timestamp),
    (⟨3⟩, fun s f => pbEncodeMember pb writesEmpty s f payload.createAgent.name.isZero
      (createAgentMessage pb payload.createAgent)),
    (⟨4⟩, fun s f => pbEncodeMember pb writesEmpty s f
      (payload.createRecord.recordId.isZero && payload.createRecord.recordType.isZero &&
        payload.createRecord.properties.isZero)
      (createRecordMessage pb writesEmpty payload.createRecord)),
    (⟨5⟩, fun s f => pbEncodeMember pb writesEmpty s f payload.finalizeRecord.recordId.isZero
      (finalizeRecordMessage pb payload.finalizeRecord)),
    (⟨6⟩, fun s f => unsetMember pb writesEmpty s f),
    (⟨7⟩, fun s f => pbEncodeMember pb writesEmpty s f
      (payload.updateProperties.recordId.isZero && payload.updateProperties.properties.isZero)
      (updatePropertiesMessage pb writesEmpty payload.updateProperties)),
    (⟨8⟩, fun s f => unsetMember pb writesEmpty s f),
    (⟨9⟩, fun s f => unsetMember pb writesEmpty s f),
    (⟨10⟩, fun s f => unsetMember pb writesEmpty s f)]

end Encoders

/-! ## What is written -/

section Written

variable (writesEmpty : Bool)

/-- What a callback writes that writes these fields of its argument. -/
def Callback.fields {α : Type} (cb : Callback α) (fields : α → List Proto.Field) :
    List Proto.Field :=
  if cb.encode then cb.arg.elim [] fields else []

/-- A string, or nothing for `NULL`. -/
def stringField (number : ℕ) (cb : Callback (List UInt8)) : List Proto.Field :=
  cb.fields fun text => [⟨number, .len text⟩]

/-- A message that has content or has not. -/
def memberField (number : ℕ) (isZero : Bool) (fs : List Proto.Field) : List Proto.Field :=
  if isZero = true ∧ writesEmpty = false then [] else [⟨number, .len (Proto.message fs)⟩]

/-- The fields of a `Location`. -/
def Location.fields (loc : Location) : List Proto.Field :=
  Proto.optNumber 1 (Proto.zigzag loc.latitude.toInt) ++
    Proto.optNumber 2 (Proto.zigzag loc.longitude.toInt)

/-- The fields of a `PropertyValue`. -/
def PropertyValue.fields (value : PropertyValue) : List Proto.Field :=
  stringField 1 value.name ++ Proto.optNumber 2 value.dataType.toNat ++
    value.bytesValue.fields (fun pl => [⟨11, .len pl.buf⟩]) ++
    Proto.optNumber 12 (if value.booleanValue then 1 else 0) ++
    Proto.optNumber 13 (Proto.zigzag value.numberValue.toInt) ++ stringField 14 value.stringValue ++
    stringField 15 value.enumValue ++
    memberField writesEmpty 17 value.locationValue.isZero value.locationValue.fields

/-- A list of properties. -/
def propertiesField (number : ℕ) (cb : Callback (List PropertyValue)) : List Proto.Field :=
  cb.fields fun lst => lst.map fun value => ⟨number, .len (Proto.message (value.fields writesEmpty))⟩

/-- The fields of a `CreateRecordAction`. -/
def CreateRecordAction.fields (action : CreateRecordAction) : List Proto.Field :=
  stringField 1 action.recordId ++ stringField 2 action.recordType ++
    propertiesField writesEmpty 3 action.properties

/-- The fields of an `UpdatePropertiesAction`. -/
def UpdatePropertiesAction.fields (action : UpdatePropertiesAction) : List Proto.Field :=
  stringField 1 action.recordId ++ propertiesField writesEmpty 2 action.properties

/-- The fields of an `SCPayload`. -/
def SCPayload.fields (payload : SCPayload) : List Proto.Field :=
  Proto.optNumber 1 payload.action.toNat ++ Proto.optNumber 2 payload.timestamp.toNat ++
    memberField writesEmpty 3 payload.createAgent.name.isZero (stringField 1 payload.createAgent.name) ++
    memberField writesEmpty 4
      (payload.createRecord.recordId.isZero && payload.createRecord.recordType.isZero &&
        payload.createRecord.properties.isZero) (payload.createRecord.fields writesEmpty) ++
    memberField writesEmpty 5 payload.finalizeRecord.recordId.isZero
      (stringField 1 payload.finalizeRecord.recordId) ++
    memberField writesEmpty 6 true [] ++
    memberField writesEmpty 7
      (payload.updateProperties.recordId.isZero && payload.updateProperties.properties.isZero)
      (payload.updateProperties.fields writesEmpty) ++
    memberField writesEmpty 8 true [] ++ memberField writesEmpty 9 true [] ++
    memberField writesEmpty 10 true []

/-- A callback of a list or of bytes that is called has an argument. -/
def Callback.Set {α : Type} (cb : Callback α) : Prop := cb.encode = true → cb.arg ≠ none

/-- The callbacks that must not be called with `NULL` are not. -/
structure SCPayload.Set (payload : SCPayload) : Prop where
  created : payload.createRecord.properties.Set
  updated : payload.updateProperties.properties.Set
  bytes : ∀ lst, payload.createRecord.properties.arg = some lst ∨
    payload.updateProperties.properties.arg = some lst → ∀ value ∈ lst, value.bytesValue.Set

end Written

section Emits

open Nanopb

variable {pb : Nanopb} (hpb : pb.Standard) {writesEmpty : Bool}
include hpb

/-- A number. -/
theorem emits_number {field : PbField} (htag : field.tag < 2 ^ 29) (n : UInt64) :
    pb.Emits (fun s => pbEncodeNumber pb s field n)
      (Proto.message (Proto.optNumber field.tag n.toNat)) := by
  by_cases hn : n = 0
  · have hwrite : (fun s => pbEncodeNumber pb s field n) = some := by
      funext s
      rw [pbEncodeNumber, if_pos hn]
    rw [hwrite, hn]
    exact Emits.nothing hpb
  · have hnat : n.toNat ≠ 0 := fun h => hn (UInt64.toNat_inj.mp h)
    have hwrite : (fun s => pbEncodeNumber pb s field n) =
        fun s => (pb.pbEncodeVarint s (UInt64.ofNat (8 * field.tag))).bind (pb.pbEncodeVarint · n) := by
      funext s
      rw [pbEncodeNumber, if_neg hn]
      rfl
    have htagged : (UInt64.ofNat (8 * field.tag)).toNat = 8 * field.tag := by
      rw [UInt64.toNat_ofNat', Nat.mod_eq_of_lt (by omega)]
    have hbytes := (hpb.varint (UInt64.ofNat (8 * field.tag))).andThen hpb (hpb.varint n)
    rw [htagged] at hbytes
    rw [hwrite, Proto.optNumber, if_neg hnat, Proto.message_singleton]
    exact hbytes

/-- A signed number. -/
theorem emits_signed {field : PbField} (htag : field.tag < 2 ^ 29) (v : Int64) :
    pb.Emits (fun s => pbEncodeSigned pb s field v)
      (Proto.message (Proto.optNumber field.tag (Proto.zigzag v.toInt))) := by
  have hv := Proto.zigzag_lt v.le_toInt v.toInt_lt
  have hnat : (UInt64.ofNat (Proto.zigzag v.toInt)).toNat = Proto.zigzag v.toInt := by
    rw [UInt64.toNat_ofNat', Nat.mod_eq_of_lt hv]
  have hbytes := emits_number hpb htag (UInt64.ofNat (Proto.zigzag v.toInt))
  rwa [hnat] at hbytes

/-- A callback. -/
theorem emits_callback {α : Type} {cb : Callback α} {field : PbField}
    {write : pb.Stream → PbField → Option α → Option pb.Stream} {fields : α → List Proto.Field}
    (harg : ∀ a, cb.arg = some a → pb.Emits (fun s => write s field (some a)) (Proto.message (fields a)))
    (hnull : cb.Set ∨ ∀ s, write s field none = some s) :
    pb.Emits (fun s => cb.write write s field) (Proto.message (cb.fields fields)) := by
  obtain ⟨encode, arg⟩ := cb
  cases encode with
  | false => exact Emits.nothing hpb
  | true =>
      cases arg with
      | none =>
          rcases hnull with hset | hnull
          · exact absurd rfl (hset rfl)
          · have hwrite : (fun s => write s field none) = some := funext hnull
            show pb.Emits (fun s => write s field none) []
            rw [hwrite]
            exact Emits.nothing hpb
      | some a => exact harg a rfl

/-- A string. -/
theorem emits_string (field : PbField) (cb : Callback (List UInt8)) :
    pb.Emits (fun s => cb.write (writeString pb) s field)
      (Proto.message (stringField field.tag cb)) := by
  refine emits_callback hpb (fun text _ => ?_) (Or.inr fun s => rfl)
  rw [Proto.message_singleton]
  exact emits_writeString hpb field text

/-- A message in a message. -/
theorem emits_member (field : PbField) (isZero : Bool) {msg : pb.Message} {outs : List (List UInt8)}
    {fs : List Proto.Field} (hall : pb.EmitsAll msg outs) (houts : outs.flatten = Proto.message fs) :
    pb.Emits (fun s => pbEncodeMember pb writesEmpty s field isZero msg)
      (Proto.message (memberField writesEmpty field.tag isZero fs)) := by
  unfold pbEncodeMember memberField
  split
  · exact Emits.nothing hpb
  · rw [Proto.message_singleton, ← houts]
    exact emits_submessage hpb field hall

/-- A message that is not set. -/
theorem emits_unsetMember (field : PbField) :
    pb.Emits (fun s => unsetMember pb writesEmpty s field)
      (Proto.message (memberField writesEmpty field.tag true [])) :=
  emits_member hpb field true .nil rfl

/-- **The callbacks of a property.** -/
theorem emitsAll_propertyValue {value : PropertyValue} (hset : value.bytesValue.Set) :
    ∃ outs, pb.EmitsAll (propertyValueMessage pb writesEmpty value) outs ∧
      outs.flatten = Proto.message (value.fields writesEmpty) := by
  have hlocation : pb.EmitsAll (locationMessage pb value.locationValue)
      [Proto.message (Proto.optNumber 1 (Proto.zigzag value.locationValue.latitude.toInt)),
        Proto.message (Proto.optNumber 2 (Proto.zigzag value.locationValue.longitude.toInt))] :=
    .cons (emits_signed hpb (by norm_num) _) (.cons (emits_signed hpb (by norm_num) _) .nil)
  have hbytes : pb.Emits
      (fun s => value.bytesValue.write (fun s f arg => arg.bind (writePayload pb s f)) s ⟨11⟩)
      (Proto.message (value.bytesValue.fields fun pl => [⟨11, .len pl.buf⟩])) := by
    refine emits_callback hpb (fun pl _ => ?_) (Or.inl hset)
    rw [Proto.message_singleton]
    exact emits_writePayload hpb ⟨11⟩ pl
  have hstruct : pb.Emits (fun s => value.structValues.write (writeStructValues pb) s ⟨16⟩)
      (Proto.message (value.structValues.fields fun _ => [])) :=
    emits_callback hpb (fun _ _ => Emits.nothing hpb) (Or.inr fun s => rfl)
  have hnothing : value.structValues.fields (fun _ => []) = [] := by
    unfold Callback.fields
    split
    · cases value.structValues.arg with
      | none => rfl
      | some a => rfl
    · rfl
  have htype : (UInt64.ofNat value.dataType.toNat).toNat = value.dataType.toNat := by
    cases value.dataType <;> rfl
  have hflag : (if value.booleanValue then 1 else 0 : UInt64).toNat =
      if value.booleanValue then 1 else 0 := by
    cases value.booleanValue <;> rfl
  have hnumber := @emits_number pb hpb ⟨2⟩ (by norm_num) (UInt64.ofNat value.dataType.toNat)
  have hboolean := @emits_number pb hpb ⟨12⟩ (by norm_num) (if value.booleanValue then 1 else 0)
  rw [htype] at hnumber
  rw [hflag] at hboolean
  rw [hnothing] at hstruct
  refine ⟨_, .cons (emits_string hpb ⟨1⟩ value.name) (.cons hnumber (.cons hbytes (.cons hboolean
    (.cons (emits_signed hpb (by norm_num) _) (.cons (emits_string hpb ⟨14⟩ value.stringValue)
    (.cons (emits_string hpb ⟨15⟩ value.enumValue) (.cons hstruct
    (.cons (@emits_member pb hpb writesEmpty ⟨17⟩ _ _ _ value.locationValue.fields hlocation ?_)
    .nil)))))))), ?_⟩
  · simp only [Location.fields, Proto.message_append, List.flatten_cons, List.flatten_nil,
      List.append_nil]
  · simp only [PropertyValue.fields, Proto.message_append, Proto.message_nil, List.flatten_cons,
      List.flatten_nil, List.append_nil, List.nil_append, List.append_assoc]

/-- A list of properties. -/
theorem emits_properties (field : PbField) {cb : Callback (List PropertyValue)} (hset : cb.Set)
    (hbytes : ∀ lst, cb.arg = some lst → ∀ value ∈ lst, value.bytesValue.Set) :
    pb.Emits (fun s =>
        cb.write (fun s f arg => arg.bind (writeProperties pb writesEmpty s f)) s field)
      (Proto.message (propertiesField writesEmpty field.tag cb)) := by
  refine emits_callback hpb (fun lst hlst => ?_) (Or.inl hset)
  rw [Proto.message, List.flatMap_map]
  refine Emits.list hpb fun value hvalue => ?_
  obtain ⟨outs, hall, houts⟩ := emitsAll_propertyValue hpb (hbytes lst hlst value hvalue)
  have hrecord := emits_submessage hpb field hall
  rw [houts] at hrecord
  exact hrecord

/-- **The callbacks of a payload.** -/
theorem emitsAll_scPayload {payload : SCPayload} (hset : payload.Set) :
    ∃ outs, pb.EmitsAll (scPayloadMessage pb writesEmpty payload) outs ∧
      outs.flatten = Proto.message (payload.fields writesEmpty) := by
  have haction : (UInt64.ofNat payload.action.toNat).toNat = payload.action.toNat := by
    cases payload.action <;> rfl
  have hnumber := @emits_number pb hpb ⟨1⟩ (by norm_num) (UInt64.ofNat payload.action.toNat)
  rw [haction] at hnumber
  have hagent : pb.EmitsAll (createAgentMessage pb payload.createAgent)
      [Proto.message (stringField 1 payload.createAgent.name)] :=
    .cons (emits_string hpb ⟨1⟩ _) .nil
  have hrecord : pb.EmitsAll (createRecordMessage pb writesEmpty payload.createRecord)
      [Proto.message (stringField 1 payload.createRecord.recordId),
        Proto.message (stringField 2 payload.createRecord.recordType),
        Proto.message (propertiesField writesEmpty 3 payload.createRecord.properties)] :=
    .cons (emits_string hpb ⟨1⟩ _) (.cons (emits_string hpb ⟨2⟩ _)
      (.cons (emits_properties hpb ⟨3⟩ hset.created fun lst h => hset.bytes lst (Or.inl h)) .nil))
  have hfinalize : pb.EmitsAll (finalizeRecordMessage pb payload.finalizeRecord)
      [Proto.message (stringField 1 payload.finalizeRecord.recordId)] :=
    .cons (emits_string hpb ⟨1⟩ _) .nil
  have hupdate : pb.EmitsAll (updatePropertiesMessage pb writesEmpty payload.updateProperties)
      [Proto.message (stringField 1 payload.updateProperties.recordId),
        Proto.message (propertiesField writesEmpty 2 payload.updateProperties.properties)] :=
    .cons (emits_string hpb ⟨1⟩ _)
      (.cons (emits_properties hpb ⟨2⟩ hset.updated fun lst h => hset.bytes lst (Or.inr h)) .nil)
  refine ⟨_, .cons hnumber (.cons (emits_number hpb (by norm_num) payload.timestamp)
    (.cons (emits_member hpb ⟨3⟩ _ hagent List.flatten_singleton)
    (.cons (@emits_member pb hpb writesEmpty ⟨4⟩ _ _ _ (payload.createRecord.fields writesEmpty)
      hrecord ?_)
    (.cons (emits_member hpb ⟨5⟩ _ hfinalize List.flatten_singleton)
    (.cons (emits_unsetMember hpb ⟨6⟩)
    (.cons (@emits_member pb hpb writesEmpty ⟨7⟩ _ _ _ (payload.updateProperties.fields writesEmpty)
      hupdate ?_)
    (.cons (emits_unsetMember hpb ⟨8⟩) (.cons (emits_unsetMember hpb ⟨9⟩)
    (.cons (emits_unsetMember hpb ⟨10⟩) .nil))))))))), ?_⟩
  · simp only [CreateRecordAction.fields, Proto.message_append, List.flatten_cons, List.flatten_nil,
      List.append_nil, List.append_assoc]
  · simp only [UpdatePropertiesAction.fields, Proto.message_append, List.flatten_cons,
      List.flatten_nil, List.append_nil]
  · simp only [SCPayload.fields, Proto.message_append, List.flatten_cons, List.flatten_nil,
      List.append_nil, List.append_assoc]

end Emits

end AnylWallet.FishSupply
