import Mathlib.Data.List.Basic
import Mathlib.Tactic.Common

/-!
# `abi_compiler`: C functions from a contract's ABI

* The compiler turns every function of an ABI into a C function that fills a data block. The text it
  prints is kept as a structure here: a `Declaration` is what stands before the body, and a
  `Definition` has the statements of the body as a list of `Stmt`, in the order they are printed.
* An exception is an `Except` error. `compileMethodDeclaration` looks every type up in
  `typeMappings`, so a type that is not there raises a `KeyError` in the header and in the source.
* `compileContractC` renames overloads with a counter kept in the dictionary `compiled`;
  `compileContractH` does not.
-/

namespace AnylWallet.AbiCompiler

/-- A parameter of a function of an ABI. -/
structure AbiInput where
  name : String
  type : String
deriving DecidableEq, Repr

/-- An entry of an ABI. -/
structure AbiEntry where
  /-- `function`, `constructor`, `event`, .. -/
  type : String
  name : String
  inputs : List AbiInput
deriving DecidableEq, Repr

/-- The exceptions raised. -/
inductive PyError where
  | keyError (key : String)
  | assertionError
  | unsupportedDataType (type : String)
deriving DecidableEq, Repr

/-! ## The table of types -/

/-- The C functions named in the table. -/
inductive EncodeFn where
  | encodeUint
  | encodeUint128
  | encodeUint256
  | encodeInt
  | encodeAddress
  | encodeData
  /-- `default`, the name in the mapping used for a type that is not in the table. -/
  | default
deriving DecidableEq, Repr

/-- `Mapping`. Source: `abi_compiler/constants.py` -/
structure Mapping where
  type : String
  encodeFn : EncodeFn
  array : ℕ
  dynamic : ℕ

/-- `TYPE_MAPPINGS`; `none` is a missing key. Source: `abi_compiler/constants.py` -/
def typeMappings : String → Option Mapping
  | "uint256" => some ⟨"uint256_t *", .encodeUint256, 0, 0⟩
  | "uint192" => some ⟨"uint256_t *", .encodeUint256, 0, 0⟩
  | "uint128" => some ⟨"uint128_t *", .encodeUint128, 0, 0⟩
  | "uint64" => some ⟨"uint64_t", .encodeUint, 0, 0⟩
  | "uint32" => some ⟨"uint32_t", .encodeUint, 0, 0⟩
  | "uint16" => some ⟨"uint16_t", .encodeUint, 0, 0⟩
  | "uint8" => some ⟨"uint8_t", .encodeUint, 0, 0⟩
  | "uint" => some ⟨"uint64_t", .encodeUint, 0, 0⟩
  | "int64" => some ⟨"int64_t", .encodeInt, 0, 0⟩
  | "int32" => some ⟨"int32_t", .encodeInt, 0, 0⟩
  | "int16" => some ⟨"int16_t", .encodeInt, 0, 0⟩
  | "int8" => some ⟨"int8_t", .encodeInt, 0, 0⟩
  | "int" => some ⟨"int64_t", .encodeInt, 0, 0⟩
  | "address" => some ⟨"address_t *", .encodeAddress, 0, 0⟩
  | "bytes32" => some ⟨"uint8_t *", .encodeData, 1, 0⟩
  | "bytes" => some ⟨"uint8_t *", .encodeData, 1, 1⟩
  | _ => none

/-! ## The generated C -/

/-- A parameter of a C function. -/
structure CParam where
  type : String
  name : String
deriving DecidableEq, Repr

/-- `int name(params)`. -/
structure Declaration where
  name : String
  params : List CParam
deriving DecidableEq, Repr

/-- A generated statement. -/
inductive Stmt where
  /-- `fn(out, idx, var);` -/
  | encode (fn : EncodeFn) (idx : ℕ) (var : String)
  /-- `fn(out, idx, var, var_len);` -/
  | encodeWithLen (fn : EncodeFn) (idx : ℕ) (var : String)
  /-- `encode_uint(out, idx, (dyn_idx * 32) + 4);` -/
  | encodeLocation (idx : ℕ)
  /-- `encode_uint(out, dyn_idx++, var_len);` -/
  | encodeLength (var : String)
  /-- `for(size_t i = 0; i < (var_len / DATA_ITEM_LEN); i++)` around
  `fn(out+DATA_ITEM_LEN, dyn_idx++, var, MIN(DATA_ITEM_LEN, var_len - (i*DATA_ITEM_LEN)));` and
  `dyn_idx++;` -/
  | encodeWords (fn : EncodeFn) (var : String)
deriving DecidableEq, Repr

/-- The body of a generated function. After the statements it returns `(dyn_idx * 32) + 4`. -/
structure Body where
  /-- The literal in `uint32_t data_len = literal + 4;`. -/
  dataLen : ℕ
  /-- The literal that `dyn_idx` starts with. -/
  dynIdx : ℕ
  /-- `assert(var_len == digits);` -/
  asserts : List (String × List Char)
  /-- The argument of `data_set_selector`. -/
  selector : UInt32
  stmts : List Stmt

/-- A generated function; without a body it is `UNSUPPORTED_METHOD()`. -/
structure Definition where
  decl : Declaration
  body : Option Body

/-! ## The compiler -/

/-- `map_type`; the text it returns declares one or two parameters.
Source: `abi_compiler/__main__.py` -/
def mapType (t var : String) : Except PyError (List CParam) :=
  match typeMappings t with
  | none => .error (.keyError t)
  | some mapping =>
      if mapping.array = 1 then .ok [⟨mapping.type, var⟩, ⟨"size_t", var ++ "_len"⟩]
      else .ok [⟨mapping.type, var⟩]

/-- `t.replace('bytes', '')`. -/
def replaceBytes : List Char → List Char
  | 'b' :: 'y' :: 't' :: 'e' :: 's' :: cs => replaceBytes cs
  | c :: cs => c :: replaceBytes cs
  | [] => []

/-- `generate_data_asserts`. Source: `abi_compiler/__main__.py` -/
def generateDataAsserts (method : AbiEntry) : List (String × List Char) :=
  method.inputs.filterMap fun i =>
    match typeMappings i.type with
    | none => none
    | some mapping =>
        if mapping.array = 1 ∧ mapping.dynamic = 0 then some (i.name, replaceBytes i.type.toList)
        else none

/-- `re.match('^bytes\d+$', t)`; `decimal` tells the decimal digits of Unicode, and a newline may
stand at the end. -/
def matchBytesN (decimal : Char → Bool) : List Char → Bool
  | 'b' :: 'y' :: 't' :: 'e' :: 's' :: c :: cs =>
      decimal c && (cs.dropWhile decimal == [] || cs.dropWhile decimal == ['\n'])
  | _ => false

/-- `compute_data_len`. Source: `abi_compiler/__main__.py` -/
def computeDataLen (decimal : Char → Bool) (method : AbiEntry) : Except PyError ℕ :=
  match method.inputs.find? fun i =>
      !((typeMappings i.type).isSome || matchBytesN decimal i.type.toList) with
  | none => .ok (method.inputs.length * 32)
  | some i => .error (.unsupportedDataType i.type)

/-- `compile_method_declaration`. Source: `abi_compiler/__main__.py` -/
def compileMethodDeclaration (contractName methodName : String) (method : AbiEntry) :
    Except PyError Declaration :=
  if method.type ≠ "function" then .error .assertionError
  else do
    let inputs ← method.inputs.mapM fun inp => mapType inp.type inp.name
    .ok ⟨contractName ++ "_" ++ methodName, inputs.flatten ++ [⟨"data_block_t *", "out"⟩]⟩

/-- The statements for one parameter. Source: `abi_compiler/__main__.py`, `generate_assign_block` -/
def assignStmts (i : AbiInput) (idx : ℕ) : List Stmt :=
  let m : Mapping := ⟨"", .default, 0, 0⟩
  let mapping := (typeMappings i.type).getD m
  if mapping.array = 1 ∧ mapping.dynamic = 0 then [.encodeWithLen mapping.encodeFn idx i.name]
  else if mapping.array = 1 ∧ mapping.dynamic = 1 then
    [.encodeLocation idx, .encodeLength i.name, .encodeWords mapping.encodeFn i.name]
  else [.encode mapping.encodeFn idx i.name]

/-- The loop of `generate_assign_block`. Source: `abi_compiler/__main__.py` -/
def generateAssignBlock : List AbiInput → ℕ → List Stmt
  | [], _ => []
  | i :: inputs, idx => assignStmts i idx ++ generateAssignBlock inputs (idx + 1)

section

variable (decimal : Char → Bool) (functionAbiTo4byteSelector : AbiEntry → UInt32)

/-- `compile_method_definition`; the selector comes from `eth_utils`.
Source: `abi_compiler/__main__.py` -/
def compileMethodDefinition (contractName methodName : String) (method : AbiEntry) :
    Except PyError Definition :=
  let selector := functionAbiTo4byteSelector method
  let dataAsserts := generateDataAsserts method
  let assignBlock := generateAssignBlock method.inputs 0
  let dataLen := (computeDataLen decimal method).toOption
  do
    let decl ← compileMethodDeclaration contractName methodName method
    match dataLen with
    | none => .ok ⟨decl, none⟩
    | some dataLen => .ok ⟨decl, some ⟨dataLen, dataLen / 32, dataAsserts, selector, assignBlock⟩⟩

/-- `compile_contract_h`. Source: `abi_compiler/__main__.py` -/
def compileContractH (name : String) : List AbiEntry → Except PyError (List Declaration)
  | [] => .ok []
  | method :: abi =>
      if method.type ≠ "function" then compileContractH name abi
      else do
        let decl ← compileMethodDeclaration name method.name method
        let decls ← compileContractH name abi
        .ok (decl :: decls)

/-- The dictionary `compiled`, a `defaultdict(int)`. -/
abbrev Compiled := String → Option ℕ

/-- `compiled[key] += 1`. -/
def Compiled.incr (compiled : Compiled) (key : String) : Compiled :=
  Function.update compiled key (some ((compiled key).getD 0 + 1))

/-- The name under which a method is compiled: `name`, or `name_count` if `name` is a key. -/
def methodName (compiled : Compiled) (name : String) : String :=
  match compiled name with
  | some count => name ++ "_" ++ toString count
  | none => name

/-- The loop of `compile_contract_c`. Source: `abi_compiler/__main__.py` -/
def compileMethods (name : String) : Compiled → List AbiEntry → Except PyError (List Definition)
  | _, [] => .ok []
  | compiled, method :: abi =>
      if method.type ≠ "function" then compileMethods name compiled abi
      else do
        let methodName := methodName compiled method.name
        let definition ← compileMethodDefinition decimal functionAbiTo4byteSelector name methodName
          method
        let definitions ← compileMethods name (compiled.incr methodName) abi
        .ok (definition :: definitions)

/-- `compile_contract_c`. Source: `abi_compiler/__main__.py` -/
def compileContractC (name : String) (abi : List AbiEntry) : Except PyError (List Definition) :=
  compileMethods decimal functionAbiTo4byteSelector name (fun _ => none) abi

end

/-! ## One declaration -/

/-- Every type of the method is in the table. -/
def Mapped (m : AbiEntry) : Prop := ∀ i ∈ m.inputs, (typeMappings i.type).isSome = true

instance (m : AbiEntry) : Decidable (Mapped m) := inferInstanceAs (Decidable (∀ _ ∈ _, _))

/-- The parameters of a method whose types are all in the table. -/
def paramsOf (m : AbiEntry) : List CParam :=
  (m.inputs.map fun i => ((mapType i.type i.name).toOption.getD [])).flatten ++
    [⟨"data_block_t *", "out"⟩]

/-- A type of the table declares its parameters. -/
theorem mapType_ok {t : String} (var : String) (h : (typeMappings t).isSome = true) :
    mapType t var = .ok ((mapType t var).toOption.getD []) := by
  obtain ⟨mapping, hmapping⟩ := Option.isSome_iff_exists.mp h
  simp only [mapType, hmapping]
  split <;> rfl

/-- The types of a list of parameters are looked up one after the other. -/
theorem mapM_mapType_ok {inputs : List AbiInput}
    (h : ∀ i ∈ inputs, (typeMappings i.type).isSome = true) :
    (inputs.mapM fun i => mapType i.type i.name) =
      .ok (inputs.map fun i => (mapType i.type i.name).toOption.getD []) := by
  induction inputs with
  | nil => rfl
  | cons i inputs ih =>
      rw [List.mapM_cons, ih fun j hj => h j (List.mem_cons_of_mem i hj),
        mapType_ok i.name (h i List.mem_cons_self)]
      rfl

/-- A type that is not in the table raises. -/
theorem mapM_mapType_error {inputs : List AbiInput}
    (h : ¬ ∀ i ∈ inputs, (typeMappings i.type).isSome = true) :
    ∃ e, (inputs.mapM fun i => mapType i.type i.name) = .error e := by
  induction inputs with
  | nil => exact absurd (by simp) h
  | cons i inputs ih =>
      rw [List.mapM_cons]
      cases hi : typeMappings i.type with
      | none =>
          refine ⟨.keyError i.type, ?_⟩
          rw [mapType, hi]
          rfl
      | some mapping =>
          have hrest : ¬ ∀ j ∈ inputs, (typeMappings j.type).isSome = true := by
            intro hall
            apply h
            intro j hj
            rcases List.mem_cons.mp hj with rfl | hj
            · rw [hi]
              rfl
            · exact hall j hj
          obtain ⟨e, he⟩ := ih hrest
          rw [he, mapType_ok i.name (by rw [hi]; rfl)]
          exact ⟨e, rfl⟩

variable (contract name : String) {m : AbiEntry}

/-- The declaration of a function. -/
theorem compileMethodDeclaration_ok (hm : m.type = "function") (h : Mapped m) :
    compileMethodDeclaration contract name m = .ok ⟨contract ++ "_" ++ name, paramsOf m⟩ := by
  rw [compileMethodDeclaration, if_neg (not_not.mpr hm), mapM_mapType_ok h]
  rfl

/-- A function with a type that is not in the table. -/
theorem compileMethodDeclaration_error (hm : m.type = "function") (h : ¬ Mapped m) :
    ∃ e, compileMethodDeclaration contract name m = .error e := by
  obtain ⟨e, he⟩ := mapM_mapType_error h
  refine ⟨e, ?_⟩
  rw [compileMethodDeclaration, if_neg (not_not.mpr hm), he]
  rfl

variable (decimal : Char → Bool) (selectorOf : AbiEntry → UInt32)

/-- The basic size of the arguments. -/
theorem computeDataLen_ok (h : Mapped m) : computeDataLen decimal m = .ok (m.inputs.length * 32) := by
  have hnone : (m.inputs.find? fun i =>
      !((typeMappings i.type).isSome || matchBytesN decimal i.type.toList)) = none := by
    rw [List.find?_eq_none]
    intro i hi
    rw [h i hi]
    simp
  rw [computeDataLen, hnone]

/-- The definition of a function. -/
theorem compileMethodDefinition_ok (hm : m.type = "function") (h : Mapped m) :
    compileMethodDefinition decimal selectorOf contract name m =
      .ok ⟨⟨contract ++ "_" ++ name, paramsOf m⟩,
        some ⟨m.inputs.length * 32, m.inputs.length * 32 / 32, generateDataAsserts m, selectorOf m,
          generateAssignBlock m.inputs 0⟩⟩ := by
  rw [compileMethodDefinition, compileMethodDeclaration_ok contract name hm h,
    computeDataLen_ok decimal h]
  rfl

theorem compileMethodDefinition_error (hm : m.type = "function") (h : ¬ Mapped m) :
    ∃ e, compileMethodDefinition decimal selectorOf contract name m = .error e := by
  obtain ⟨e, he⟩ := compileMethodDeclaration_error contract name hm h
  refine ⟨e, ?_⟩
  rw [compileMethodDefinition, he]
  rfl

end AnylWallet.AbiCompiler
