import AnylWallet.AbiCompiler.Compile
import AnylWallet.Eth.Data
import AnylWallet.Helpers.Hextobin
import AnylWallet.Lib.SolidityAbi

/-!
# Running a generated function

* `Definition.call` runs a generated function on argument values: the parameters are looked up by
  name, the assertions are checked, and the statements run on the block and the variable `dyn_idx`.
  `none` is a failed assertion or an access outside what the arguments point to.
* `Arg` is an argument of a type the compiler knows, with the C values it is passed as
  (`Arg.cvalues`) and its value in the ABI (`Arg.abi`).
* **What a call does** (`callCompiled_eq`): it stops at a `bytes` argument of a whole word or more.
  Otherwise it is a list of writer calls (`callOps`), one on the word of every argument and one on
  a further word for every `bytes` argument.
* `IsC`: the names make the text a C function. A parameter that is unnamed, that is a keyword, or that is
  named as a variable or function of the body does not.
* `callCompiled_encodes_iff`: the block is the encoding exactly when there is no `bytes` argument,
  as the offset written for one counts the selector in.
-/

namespace AnylWallet.AbiCompiler

open AnylWallet.Lib AnylWallet.Helpers AnylWallet.Eth

/-! ## The meaning of the generated C -/

/-- The value of a C parameter. -/
inductive CValue where
  /-- An unsigned integer. -/
  | word (v : UInt64)
  /-- A `uint128_t *`, by what it points to. -/
  | uint128 (v : Uint128)
  /-- A `uint256_t *`. -/
  | uint256 (v : Uint256)
  /-- An `address_t *`. -/
  | address (v : Address)
  /-- A `uint8_t *`. -/
  | bytes (bs : List UInt8)
deriving DecidableEq

/-- The parameters in scope. -/
abbrev Env := List (String × CValue)

/-- The variables of a running function. -/
structure Frame where
  /-- The block at `out`. -/
  blk : DataBlock
  /-- `dyn_idx`, a `size_t`. -/
  dynIdx : UInt64

/-- `fn(out, idx, v)`. -/
def callEncode (blk : DataBlock) (idx : ℕ) : EncodeFn → CValue → Option DataBlock
  | .encodeUint, .word v => some (blk.encodeUint idx v)
  | .encodeUint128, .uint128 v => some (blk.encodeUint128 idx v)
  | .encodeUint256, .uint256 v => some (blk.encodeUint256 idx v)
  | .encodeAddress, .address v => some (blk.encodeAddress idx v)
  | _, _ => none

/-- `fn(out, idx, v, len)`. -/
def callEncodeWithLen (blk : DataBlock) (idx : ℕ) : EncodeFn → CValue → CValue → Option DataBlock
  | .encodeData, .bytes bs, .word len =>
      if len.toNat ≤ bs.length then blk.encodeData idx (bs.take len.toNat) else none
  | _, _, _ => none

/-- Run a statement. -/
def Stmt.exec (env : Env) (frame : Frame) : Stmt → Option Frame
  | encode fn idx var => do
      let v ← env.lookup var
      let blk ← callEncode frame.blk idx fn v
      some { frame with blk := blk }
  | encodeWithLen fn idx var => do
      let v ← env.lookup var
      let len ← env.lookup (var ++ "_len")
      let blk ← callEncodeWithLen frame.blk idx fn v len
      some { frame with blk := blk }
  | encodeLocation idx => some { frame with blk := frame.blk.encodeUint idx (frame.dynIdx * 32 + 4) }
  | encodeLength var =>
      match env.lookup (var ++ "_len") with
      | some (.word len) =>
          some ⟨frame.blk.encodeUint frame.dynIdx.toNat len, frame.dynIdx + 1⟩
      | _ => none
  | encodeWords _ var =>
      match env.lookup (var ++ "_len") with
      | some (.word len) =>
          -- a round would write through out + 32, which points far behind the one block at out
          if len.toNat / dataItemLen = 0 then some frame else none
      | _ => none

/-- The value of a literal of decimal digits. -/
def literal (digits : List Char) : ℕ :=
  digits.foldl (fun n c => 10 * n + (c.toNat - '0'.toNat)) 0

/-- Run the body of a function; the size check is in `uint32_t` arithmetic. -/
def Body.run (body : Body) (env : Env) (blk : DataBlock) : Option (DataBlock × ℤ) :=
  let dataLen := (body.dataLen + 4) % 2 ^ 32
  if ¬ body.asserts.all fun (var, digits) =>
      env.lookup (var ++ "_len") == some (.word (UInt64.ofNat (literal digits))) then none
  else if blk.dataLen.toNat < (dataLen + 4) % 2 ^ 32 then none
  else do
    let blk ← blk.dataSetSelector body.selector
    let frame ← body.stmts.foldlM (Stmt.exec env) ⟨blk, UInt64.ofNat body.dynIdx⟩
    some (frame.blk, sizeToInt (frame.dynIdx * 32 + 4).toNat)

/-- Call a generated function with the values of its parameters before `out`. -/
def Definition.call (d : Definition) (values : List CValue) (blk : DataBlock) :
    Option (DataBlock × ℤ) :=
  match d.body with
  | none => none
  | some body => body.run ((d.decl.params.map CParam.name).zip values) blk

/-! ## Arguments -/

/-- A value of a type of the ABI. -/
inductive ArgValue where
  | uint8 (v : UInt8)
  | uint16 (v : UInt16)
  | uint32 (v : UInt32)
  | uint64 (v : UInt64)
  | uint128 (v : BitVec 128)
  | uint256 (v : BitVec 256)
  | address (v : Address)
  | bytes32 (v : Vector UInt8 32)
  | bytes (bs : List UInt8)

/-- A named argument. -/
structure Arg where
  name : String
  value : ArgValue

namespace ArgValue

/-- The name of the type. -/
def type : ArgValue → String
  | uint8 _ => "uint8"
  | uint16 _ => "uint16"
  | uint32 _ => "uint32"
  | uint64 _ => "uint64"
  | uint128 _ => "uint128"
  | uint256 _ => "uint256"
  | address _ => "address"
  | bytes32 _ => "bytes32"
  | bytes _ => "bytes"

/-- The C values passed for it: wide numbers as their big-endian memory image, byte strings with
their length. -/
def cvalues : ArgValue → List CValue
  | uint8 v => [.word v.toUInt64]
  | uint16 v => [.word v.toUInt64]
  | uint32 v => [.word v.toUInt64]
  | uint64 v => [.word v]
  | uint128 v => [.uint128 (Uint128.ofImage (leBytes 16 v.toNat).reverse)]
  | uint256 v => [.uint256 (Uint256.ofImage (leBytes 32 v.toNat).reverse)]
  | address v => [.address v]
  | bytes32 v => [.bytes v.toList, .word 32]
  | bytes bs => [.bytes bs, .word (UInt64.ofNat bs.length)]

/-- The value in the ABI. -/
def abi : ArgValue → SolidityAbi.Value
  | uint8 v => .static ⟨SolidityAbi.wordOf v.toNat, by simp⟩
  | uint16 v => .static ⟨SolidityAbi.wordOf v.toNat, by simp⟩
  | uint32 v => .static ⟨SolidityAbi.wordOf v.toNat, by simp⟩
  | uint64 v => .static ⟨SolidityAbi.wordOf v.toNat, by simp⟩
  | uint128 v => .static ⟨SolidityAbi.wordOf v.toNat, by simp⟩
  | uint256 v => .static ⟨SolidityAbi.wordOf v.toNat, by simp⟩
  | address v => .static ⟨List.replicate 12 0 ++ v.a.toList, by simp⟩
  | bytes32 v => .static ⟨v.toList, by simp⟩
  | bytes bs => .dynamic bs

/-- The argument is a dynamic byte string. -/
def isBytes : ArgValue → Bool
  | bytes _ => true
  | _ => false

end ArgValue

/-- The function with these arguments. -/
def entryOf (name : String) (args : List Arg) : AbiEntry :=
  ⟨"function", name, args.map fun a => ⟨a.name, a.value.type⟩⟩

/-- The names of the C parameters of an argument. -/
def Arg.names (a : Arg) : List String :=
  match a.value with
  | .bytes32 _ | .bytes _ => [a.name, a.name ++ "_len"]
  | _ => [a.name]

section

variable (decimal : Char → Bool) (selectorOf : AbiEntry → UInt32)

/-- Compile the function with these arguments and call it with their values. The names go into the text
as they stand in the ABI: what is said of a call holds of the C function where the text is C, which is
`IsC`. -/
def callCompiled (contract methodName name : String) (args : List Arg) (blk : DataBlock) :
    Option (DataBlock × ℤ) :=
  match compileMethodDefinition decimal selectorOf contract methodName (entryOf name args) with
  | .error _ => none
  | .ok d => d.call (args.flatMap fun a => a.value.cvalues) blk

end

/-! ## Names -/

/-- The keywords of C, and those that the compilers of the project add. -/
def keywords : List String :=
  ["auto", "break", "case", "char", "const", "continue", "default", "do", "double", "else", "enum",
    "extern", "float", "for", "goto", "if", "inline", "int", "long", "register", "restrict", "return",
    "short", "signed", "sizeof", "static", "struct", "switch", "typedef", "union", "unsigned", "void",
    "volatile", "while", "_Alignas", "_Alignof", "_Atomic", "_Bool", "_Complex", "_Generic",
    "_Imaginary", "_Noreturn", "_Static_assert", "_Thread_local", "asm", "typeof", "__attribute__"]

/-- The names that a generated function uses itself, and those that `eth/data.h` declares. -/
def usedNames : List String :=
  ["out", "data_len", "dyn_idx", "i", "data_block_t", "size_t", "uint8_t", "uint16_t", "uint32_t",
    "uint64_t", "uint128_t", "uint256_t", "address_t", "encode_uint", "encode_uint128",
    "encode_uint256", "encode_int", "encode_address", "encode_data", "data_set_selector", "data_init",
    "item_clear", "decode_uint", "decode_data", "assert", "NULL", "MIN", "DATA_ITEM_LEN",
    "SELECTOR_LEN"]

/-- A letter or an underscore. -/
def isNondigit (c : Char) : Bool :=
  c == '_' || (97 ≤ c.toNat && c.toNat ≤ 122) || (65 ≤ c.toNat && c.toNat ≤ 90)

/-- An identifier of C. -/
def isIdentifier (s : String) : Bool :=
  (match s.toList with
    | [] => false
    | c :: cs => isNondigit c && cs.all fun c => isNondigit c || (48 ≤ c.toNat && c.toNat ≤ 57)) &&
    !keywords.contains s

/-- The generated text is C: the function and its parameters have identifiers as names, and every
parameter has a name of its own that is none of those that the function uses. A parameter of type
`bytes` or `bytes32` has a second one for its length. -/
structure IsC (contract methodName : String) (args : List Arg) : Prop where
  function : isIdentifier (contract ++ "_" ++ methodName) = true
  fresh : contract ++ "_" ++ methodName ∉ usedNames
  identifiers : (args.flatMap Arg.names).all isIdentifier = true
  distinct : (args.flatMap Arg.names ++ usedNames).Nodup

/-! ## The parameters in scope -/

/-- Every type of an argument is in the table. -/
theorem mapped_entryOf (name : String) (args : List Arg) : Mapped (entryOf name args) := by
  intro i hi
  obtain ⟨a, -, rfl⟩ := List.mem_map.mp hi
  cases h : a.value <;> rfl

/-- The bindings of the parameters of an argument. -/
def Arg.bindings (a : Arg) : Env := a.names.zip a.value.cvalues

/-- An argument has as many C parameters as C values. -/
theorem Arg.length_names (a : Arg) : a.names.length = a.value.cvalues.length := by
  rw [Arg.names]
  cases a.value <;> rfl

/-- The names of the C parameters of the function. -/
theorem map_name_paramsOf (name : String) (args : List Arg) :
    (paramsOf (entryOf name args)).map CParam.name = args.flatMap Arg.names ++ ["out"] := by
  rw [paramsOf, List.map_append, entryOf]
  congr 1
  induction args with
  | nil => rfl
  | cons a args ih =>
      rw [List.map_cons, List.map_cons, List.flatten_cons, List.map_append, ih, List.flatMap_cons]
      congr 1
      rw [Arg.names]
      cases a.value <;> rfl

/-- **The scope of a call**: every argument under its own names. -/
theorem zip_paramsOf (name : String) (args : List Arg) :
    ((paramsOf (entryOf name args)).map CParam.name).zip (args.flatMap fun a => a.value.cvalues) =
      args.flatMap Arg.bindings := by
  rw [map_name_paramsOf]
  induction args with
  | nil => rfl
  | cons a args ih =>
      rw [List.flatMap_cons, List.flatMap_cons, List.flatMap_cons, List.append_assoc,
        List.zip_append a.length_names, ih, Arg.bindings]

/-- With distinct names a binding is found. -/
theorem lookup_of_mem {env : Env} (hnodup : (env.map Prod.fst).Nodup) {x : String} {v : CValue}
    (h : (x, v) ∈ env) : env.lookup x = some v := by
  induction env with
  | nil => cases h
  | cons b env ih =>
      rw [List.map_cons, List.nodup_cons] at hnodup
      rcases List.mem_cons.mp h with rfl | h
      · exact List.lookup_cons_self
      · have hne : (x == b.1) = false := by
          rw [beq_eq_false_iff_ne]
          rintro rfl
          exact hnodup.1 (List.mem_map.mpr ⟨_, h, rfl⟩)
        rw [List.lookup_cons, hne]
        exact ih hnodup.2 h

/-- The parameters of every argument are in scope. -/
def InScope (env : Env) (a : Arg) : Prop := ∀ b ∈ a.bindings, env.lookup b.1 = some b.2

/-- Distinct parameters are all in scope. -/
theorem inScope_of_nodup {args : List Arg} (hnodup : (args.flatMap Arg.names).Nodup) {a : Arg}
    (ha : a ∈ args) : InScope (args.flatMap Arg.bindings) a := by
  have hfst : (args.flatMap Arg.bindings).map Prod.fst = args.flatMap Arg.names := by
    rw [List.map_flatMap]
    congr 1
    funext a
    exact List.map_fst_zip (le_of_eq a.length_names)
  intro b hb
  exact lookup_of_mem (hfst ▸ hnodup) (List.mem_flatMap.mpr ⟨a, ha, hb⟩)

/-! ## The calls of the writers -/

/-- A `bytes` argument shorter than a word: its loop makes no round. -/
def Arg.Short (a : Arg) : Prop :=
  match a.value with
  | .bytes bs => (UInt64.ofNat bs.length).toNat / dataItemLen = 0
  | _ => True

instance : ∀ a : Arg, Decidable a.Short
  | ⟨_, .bytes _⟩ => inferInstanceAs (Decidable (_ = 0))
  | ⟨_, .uint8 _⟩ | ⟨_, .uint16 _⟩ | ⟨_, .uint32 _⟩ | ⟨_, .uint64 _⟩ | ⟨_, .uint128 _⟩
  | ⟨_, .uint256 _⟩ | ⟨_, .address _⟩ | ⟨_, .bytes32 _⟩ => .isTrue trivial

/-- Other arguments have no loop. -/
theorem Arg.short_of_isBytes {a : Arg} (h : a.value.isBytes = false) : a.Short := by
  obtain ⟨name, value⟩ := a
  cases value with
  | bytes bs => cases h
  | _ => trivial

/-- How far an argument advances `dyn_idx`, if it is short. -/
def Arg.dynWords (a : Arg) : ℕ := if a.value.isBytes then 1 else 0

/-- The call on the word of an argument. -/
def Arg.headOp (idx dyn : ℕ) (a : Arg) : DataOp :=
  match a.value with
  | .uint8 v => .uint idx v.toUInt64
  | .uint16 v => .uint idx v.toUInt64
  | .uint32 v => .uint idx v.toUInt64
  | .uint64 v => .uint idx v
  | .uint128 v => .uint128 idx (Uint128.ofImage (leBytes 16 v.toNat).reverse)
  | .uint256 v => .uint256 idx (Uint256.ofImage (leBytes 32 v.toNat).reverse)
  | .address v => .address idx v
  | .bytes32 v => .data idx ⟨v.toList, by simp⟩
  | .bytes _ => .uint idx (UInt64.ofNat dyn * 32 + 4)

/-- The call on the word that `dyn_idx` counts. -/
def Arg.tailOps (dyn : ℕ) (a : Arg) : List DataOp :=
  match a.value with
  | .bytes bs => [.uint dyn (UInt64.ofNat bs.length)]
  | _ => []

/-- The calls made for a list of arguments. -/
def callOps : ℕ → ℕ → List Arg → List DataOp
  | _, _, [] => []
  | idx, dyn, a :: args =>
      a.headOp idx dyn :: (a.tailOps dyn ++ callOps (idx + 1) (dyn + a.dynWords) args)

/-- The call on the word of an argument is on that word. -/
@[simp] theorem Arg.slot_headOp (idx dyn : ℕ) (a : Arg) : (a.headOp idx dyn).slot = some idx := by
  rw [Arg.headOp]
  cases a.value <;> rfl

/-- The further call is on the word `dyn_idx`. -/
theorem Arg.slot_of_mem_tailOps {dyn : ℕ} {a : Arg} {op : DataOp} (h : op ∈ a.tailOps dyn) :
    op.slot = some dyn ∧ a.dynWords = 1 := by
  cases a with
  | mk name value =>
      cases value <;> simp only [Arg.tailOps, List.not_mem_nil] at h
      rw [List.mem_singleton.mp h]
      exact ⟨rfl, rfl⟩

/-- How far a list of short arguments advances `dyn_idx`. -/
def dynWords (args : List Arg) : ℕ := (args.map Arg.dynWords).sum

section Exec

variable {n : ℕ} {blk : DataBlock} (hlen : 4 + 32 * n ≤ blk.dataLen.toNat) (m : Region)
  {env : Env} {a : Arg}
include hlen

/-- A statement that calls a writer with the value of a parameter. -/
theorem exec_encode (done : List DataOp) {fn : EncodeFn} {idx : ℕ} {var : String} {v : CValue}
    {op : DataOp} (dynIdx : UInt64) (hvar : env.lookup var = some v) (hfits : op.Fits n)
    (hop : ∀ blk, callEncode blk idx fn v = op.run blk) :
    [Stmt.encode fn idx var].foldlM (Stmt.exec env)
        ⟨blk.withData (m.store 0 (blockBytes n done)), dynIdx⟩ =
      some ⟨blk.withData (m.store 0 (blockBytes n (done ++ [op]))), dynIdx⟩ := by
  simp only [List.foldlM_cons, List.foldlM_nil, Stmt.exec, hvar, Option.bind_eq_bind,
    Option.bind_some, hop, DataOp.run_store hlen m done hfits, Option.pure_def]

/-- A statement that calls a writer with a pointer and a length. -/
theorem exec_encodeWithLen (done : List DataOp) {idx : ℕ} {var : String}
    {bytes : { bs : List UInt8 // bs.length ≤ 32 }} {len : UInt64} (dynIdx : UInt64)
    (hvar : env.lookup var = some (.bytes bytes.1))
    (hlength : env.lookup (var ++ "_len") = some (.word len)) (hall : len.toNat = bytes.1.length)
    (hidx : idx < n) :
    [Stmt.encodeWithLen .encodeData idx var].foldlM (Stmt.exec env)
        ⟨blk.withData (m.store 0 (blockBytes n done)), dynIdx⟩ =
      some ⟨blk.withData (m.store 0 (blockBytes n (done ++ [.data idx bytes]))), dynIdx⟩ := by
  have hfits : (DataOp.data idx bytes).Fits n := by
    intro i hi
    cases hi
    exact hidx
  have hrun := DataOp.run_store hlen m done hfits
  rw [DataOp.run] at hrun
  simp only [List.foldlM_cons, List.foldlM_nil, Stmt.exec, hvar, hlength, Option.bind_eq_bind,
    Option.bind_some, callEncodeWithLen, hall, Nat.le_refl, if_true, List.take_length, hrun,
    Option.pure_def]

/-- The three statements of a dynamic parameter. -/
theorem exec_dynamic (done : List DataOp) {fn : EncodeFn} {idx dyn : ℕ} {var : String} {len : UInt64}
    (hlength : env.lookup (var ++ "_len") = some (.word len)) (hidx : idx < n) (hdyn : dyn < n) :
    [Stmt.encodeLocation idx, .encodeLength var, .encodeWords fn var].foldlM (Stmt.exec env)
        ⟨blk.withData (m.store 0 (blockBytes n done)), UInt64.ofNat dyn⟩ =
      if len.toNat / dataItemLen = 0 then
        some ⟨blk.withData (m.store 0 (blockBytes n
            (done ++ [.uint idx (UInt64.ofNat dyn * 32 + 4), .uint dyn len]))),
          UInt64.ofNat (dyn + 1)⟩
      else none := by
  have hfits : ∀ {i : ℕ} (v : UInt64), i < n → (DataOp.uint i v).Fits n := by
    intro i v hi j hj
    cases hj
    exact hi
  have hdynIdx : (UInt64.ofNat dyn).toNat = dyn := by
    have hlt := blk.dataLen.toNat_lt
    rw [UInt64.toNat_ofNat']
    omega
  have hlocation := DataOp.run_store hlen m done (hfits (UInt64.ofNat dyn * 32 + 4) hidx)
  have hword := DataOp.run_store hlen m (done ++ [.uint idx (UInt64.ofNat dyn * 32 + 4)])
    (hfits len hdyn)
  rw [DataOp.run, Option.some_inj] at hlocation hword
  simp only [List.foldlM_cons, List.foldlM_nil, Stmt.exec, hlength, Option.bind_eq_bind,
    Option.bind_some, hdynIdx, hlocation, hword, List.append_assoc, List.singleton_append,
    Option.pure_def]
  split
  · rw [Option.bind_some, UInt64.ofNat_add]
    rfl
  · rfl

/-- **The statements of one argument.** -/
theorem exec_assignStmts (henv : InScope env a) (done : List DataOp) {idx dyn : ℕ} (hidx : idx < n)
    (hdyn : dyn + a.dynWords ≤ n) :
    (assignStmts ⟨a.name, a.value.type⟩ idx).foldlM (Stmt.exec env)
        ⟨blk.withData (m.store 0 (blockBytes n done)), UInt64.ofNat dyn⟩ =
      if a.Short then
        some ⟨blk.withData (m.store 0
            (blockBytes n (done ++ (a.headOp idx dyn :: a.tailOps dyn)))),
          UInt64.ofNat (dyn + a.dynWords)⟩
      else none := by
  have hfits : (a.headOp idx dyn).Fits n := by
    intro i hi
    rw [Arg.slot_headOp] at hi
    cases hi
    exact hidx
  obtain ⟨name, value⟩ := a
  cases value with
  | uint8 v =>
      exact exec_encode hlen m done _ (henv (name, _) List.mem_cons_self) hfits fun _ => rfl
  | uint16 v =>
      exact exec_encode hlen m done _ (henv (name, _) List.mem_cons_self) hfits fun _ => rfl
  | uint32 v =>
      exact exec_encode hlen m done _ (henv (name, _) List.mem_cons_self) hfits fun _ => rfl
  | uint64 v =>
      exact exec_encode hlen m done _ (henv (name, _) List.mem_cons_self) hfits fun _ => rfl
  | uint128 v =>
      exact exec_encode hlen m done _ (henv (name, _) List.mem_cons_self) hfits fun _ => rfl
  | uint256 v =>
      exact exec_encode hlen m done _ (henv (name, _) List.mem_cons_self) hfits fun _ => rfl
  | address v =>
      exact exec_encode hlen m done _ (henv (name, _) List.mem_cons_self) hfits fun _ => rfl
  | bytes32 v =>
      have hvar := henv (name, .bytes v.toList) List.mem_cons_self
      have hlength := henv (name ++ "_len", .word 32)
        (List.mem_cons_of_mem _ List.mem_cons_self)
      exact exec_encodeWithLen hlen m done _ hvar hlength v.length_toList.symm hidx
  | bytes bs =>
      have hlength := henv (name ++ "_len", .word (UInt64.ofNat bs.length))
        (List.mem_cons_of_mem _ List.mem_cons_self)
      exact exec_dynamic hlen m done hlength hidx hdyn

/-- **The statements of all arguments.** -/
theorem exec_generateAssignBlock {args : List Arg} (henv : ∀ a ∈ args, InScope env a)
    (done : List DataOp) {idx dyn : ℕ} (hidx : idx + args.length ≤ n)
    (hdyn : dyn + dynWords args ≤ n) :
    (generateAssignBlock (args.map fun a => ⟨a.name, a.value.type⟩) idx).foldlM (Stmt.exec env)
        ⟨blk.withData (m.store 0 (blockBytes n done)), UInt64.ofNat dyn⟩ =
      if ∀ a ∈ args, a.Short then
        some ⟨blk.withData (m.store 0 (blockBytes n (done ++ callOps idx dyn args))),
          UInt64.ofNat (dyn + dynWords args)⟩
      else none := by
  induction args generalizing done idx dyn with
  | nil => simp [generateAssignBlock, callOps, dynWords]
  | cons a args ih =>
      have hcount : dynWords (a :: args) = a.dynWords + dynWords args := by simp [dynWords]
      rw [hcount] at hdyn
      rw [List.length_cons] at hidx
      rw [List.map_cons, generateAssignBlock, List.foldlM_append,
        exec_assignStmts hlen m (henv a List.mem_cons_self) done (by omega) (by omega)]
      by_cases ha : a.Short
      · rw [if_pos ha, Option.bind_eq_bind, Option.bind_some,
          ih (fun a' h => henv a' (List.mem_cons_of_mem a h)) _ (by omega) (by omega)]
        simp only [List.forall_mem_cons, ha, true_and, callOps, List.append_assoc, List.cons_append,
          hcount, Nat.add_assoc]
      · rw [if_neg ha, if_neg fun h => ha (h a List.mem_cons_self)]
        rfl

end Exec

/-! ## A call of the generated function -/

/-- The block after its memory has been cleared. -/
def zeroed (blk : DataBlock) : DataBlock :=
  blk.withData (blk.data.store 0 (List.replicate blk.dataLen.toNat 0))

/-- A cleared block holds the words before any call. -/
theorem exists_zeroed_eq {n : ℕ} {blk : DataBlock} (hlen : 4 + 32 * n ≤ blk.dataLen.toNat) :
    ∃ m : Region, zeroed blk = blk.withData (m.store 0 (blockBytes n [])) := by
  obtain ⟨rest, hrest⟩ := Nat.exists_eq_add_of_le hlen
  refine ⟨blk.data.store (0 + (blockBytes n []).length) (List.replicate rest 0), ?_⟩
  rw [zeroed, hrest, List.replicate_add, ← blockBytes_nil n, Region.store_before]

/-- The digits in the type `bytes32`. -/
theorem literal_bytes32 : UInt64.ofNat (literal (replaceBytes "bytes32".toList)) = 32 := by
  rw [show literal (replaceBytes "bytes32".toList) = 32 from rfl]
  rfl

/-- The assertions about lengths hold. -/
theorem generateDataAsserts_hold {env : Env} {args : List Arg} (henv : ∀ a ∈ args, InScope env a)
    (name : String) :
    ((generateDataAsserts (entryOf name args)).all fun (var, digits) =>
      env.lookup (var ++ "_len") == some (.word (UInt64.ofNat (literal digits)))) = true := by
  rw [List.all_eq_true]
  intro b hb
  obtain ⟨i, hi, hib⟩ := List.mem_filterMap.mp hb
  obtain ⟨a, ha, rfl⟩ := List.mem_map.mp hi
  have hscope := henv a ha
  obtain ⟨var, value⟩ := a
  cases value with
  | bytes32 v =>
      have hlength := hscope (var ++ "_len", .word 32) (List.mem_cons_of_mem _ List.mem_cons_self)
      cases hib
      rw [beq_iff_eq]
      exact hlength.trans (congrArg (fun w => some (CValue.word w)) literal_bytes32.symm)
  | _ => cases hib

/-! ## The words after a call -/

/-- The head of a `bytes` argument is the offset of its tail. -/
theorem Arg.head_bytes {a : Arg} (h : a.value.isBytes = true) (offset : ℕ) :
    SolidityAbi.head offset a.value.abi = SolidityAbi.wordOf offset := by
  obtain ⟨name, value⟩ := a
  cases value with
  | bytes bs => rfl
  | _ => cases h

/-- The calls made for a list of arguments, split at one of them. -/
theorem callOps_append (idx dyn : ℕ) (before after : List Arg) :
    callOps idx dyn (before ++ after) =
      callOps idx dyn before ++ callOps (idx + before.length) (dyn + dynWords before) after := by
  induction before generalizing idx dyn with
  | nil => simp [callOps, dynWords]
  | cons a before ih =>
      rw [List.cons_append, callOps, ih, callOps, List.cons_append, List.append_assoc]
      simp only [List.length_cons, dynWords, List.map_cons, List.sum_cons, Nat.add_assoc,
        Nat.add_comm 1]

/-- The calls made for a list of arguments are on their words and behind. -/
theorem le_slot_of_mem_callOps {idx dyn : ℕ} {args : List Arg} (hdyn : idx + args.length ≤ dyn)
    {op : DataOp} (h : op ∈ callOps idx dyn args) : ∃ i, op.slot = some i ∧ idx ≤ i := by
  induction args generalizing idx dyn with
  | nil => cases h
  | cons a args ih =>
      rw [List.length_cons] at hdyn
      rcases List.mem_cons.mp h with rfl | h
      · exact ⟨idx, a.slot_headOp idx dyn, Nat.le_refl idx⟩
      · rcases List.mem_append.mp h with h | h
        · exact ⟨dyn, (a.slot_of_mem_tailOps h).1, by omega⟩
        · obtain ⟨i, hi, hle⟩ := ih (by omega) h
          exact ⟨i, hi, by omega⟩

/-- **The last call on the word of an argument** is the call made for that argument. -/
theorem lastOn_callOps (done : List DataOp) {dyn : ℕ} (before : List Arg) (a : Arg)
    (after : List Arg) (hdyn : (before ++ a :: after).length ≤ dyn) :
    lastOn DataOp.slot (some before.length) (done ++ callOps 0 dyn (before ++ a :: after)) =
      some (a.headOp before.length (dyn + dynWords before)) := by
  rw [List.length_append, List.length_cons] at hdyn
  rw [callOps_append, Nat.zero_add, callOps, ← List.append_assoc, ← List.singleton_append,
    ← List.append_assoc, lastOn_append_of_forall_ne, lastOn_append_singleton, Arg.slot_headOp,
    if_pos rfl]
  intro op hop
  rcases List.mem_append.mp hop with hop | hop
  · rw [(a.slot_of_mem_tailOps hop).1, ne_eq, Option.some_inj]
    omega
  · obtain ⟨i, hi, hle⟩ := le_slot_of_mem_callOps (by omega) hop
    rw [hi, ne_eq, Option.some_inj]
    omega

/-- The selector after a call. -/
theorem lastSelector_callOps (selector : UInt32) {idx dyn : ℕ} {args : List Arg}
    (hdyn : idx + args.length ≤ dyn) :
    lastSelector (.setSelector selector :: callOps idx dyn args) =
      (leBytes 4 selector.toNat).reverse := by
  have hnone : ∀ op ∈ callOps idx dyn args, op.slot ≠ none := by
    intro op hop
    obtain ⟨i, hi, -⟩ := le_slot_of_mem_callOps hdyn hop
    rw [hi]
    exact Option.some_ne_none i
  rw [lastSelector, ← List.singleton_append, lastOn_append_of_forall_ne _ _ hnone]
  rfl

/-- **The word of a static argument** is its word in the ABI. -/
theorem Arg.image_headOp {a : Arg} (h : a.value.isBytes = false) (idx dyn offset : ℕ) :
    (a.headOp idx dyn).image = SolidityAbi.head offset a.value.abi := by
  have hnum : ∀ {v w n : ℕ}, n < 256 ^ v → v + w = 32 →
      List.replicate w 0 ++ (leBytes v n).reverse = SolidityAbi.wordOf n := fun h hw =>
    (SolidityAbi.wordOf_of_lt h hw).symm
  obtain ⟨name, value⟩ := a
  cases value with
  | uint8 v => exact hnum (v.toNat_lt.trans (by norm_num)) rfl
  | uint16 v => exact hnum (v.toNat_lt.trans (by norm_num)) rfl
  | uint32 v => exact hnum (v.toNat_lt.trans (by norm_num)) rfl
  | uint64 v => exact hnum (lt_of_lt_of_eq v.toNat_lt (by norm_num)) rfl
  | uint128 v =>
      simp only [Arg.headOp, DataOp.image]
      rw [Uint128.image_ofImage (by simp)]
      exact hnum (lt_of_lt_of_eq v.isLt (by norm_num)) rfl
  | uint256 v =>
      simp only [Arg.headOp, DataOp.image]
      rw [Uint256.image_ofImage (by simp)]
      rfl
  | address v => rfl
  | bytes32 v => simp [Arg.headOp, DataOp.image, ArgValue.abi, SolidityAbi.head]
  | bytes bs => cases h

/-- The word of a `bytes` argument is a number four past a multiple of 32. -/
theorem Arg.image_headOp_bytes {a : Arg} (h : a.value.isBytes = true) (idx : ℕ) {dyn : ℕ}
    (hdyn : 32 * dyn + 4 < 2 ^ 64) :
    (a.headOp idx dyn).image = SolidityAbi.wordOf (32 * dyn + 4) := by
  obtain ⟨name, value⟩ := a
  cases value with
  | bytes bs =>
      have hnat : (UInt64.ofNat dyn * 32 + 4).toNat = 32 * dyn + 4 := by
        rw [UInt64.toNat_add, UInt64.toNat_mul, UInt64.toNat_ofNat']
        simp only [UInt64.reduceToNat]
        omega
      simp only [Arg.headOp, DataOp.image, hnat]
      exact (SolidityAbi.wordOf_of_lt (lt_of_lt_of_eq hdyn (by norm_num)) rfl).symm
  | _ => cases h

section Call

variable (decimal : Char → Bool) (selectorOf : AbiEntry → UInt32) (contract methodName name : String)
  {args : List Arg} {blk : DataBlock}

/-- The memory that a call needs: the words of its arguments and of the lengths in the tail. -/
def wordCount (args : List Arg) : ℕ := args.length + dynWords args

/-- **What a call does.** -/
theorem callCompiled_eq (hnodup : (args.flatMap Arg.names).Nodup)
    (hlen : 4 + 32 * wordCount args ≤ blk.dataLen.toNat) :
    ∃ m : Region, callCompiled decimal selectorOf contract methodName name args (zeroed blk) =
      if ((args.length * 32 + 4) % 2 ^ 32 + 4) % 2 ^ 32 ≤ blk.dataLen.toNat ∧ ∀ a ∈ args, a.Short then
        some (blk.withData (m.store 0 (blockBytes (wordCount args)
            (.setSelector (selectorOf (entryOf name args)) :: callOps 0 args.length args))),
          sizeToInt (32 * wordCount args + 4))
      else none := by
  obtain ⟨m, hm⟩ := exists_zeroed_eq hlen
  refine ⟨m, ?_⟩
  have henv : ∀ a ∈ args, InScope (args.flatMap Arg.bindings) a := fun a ha =>
    inScope_of_nodup hnodup ha
  have hcount : (entryOf name args).inputs.length = args.length := List.length_map _
  have hfits : (DataOp.setSelector (selectorOf (entryOf name args))).Fits (wordCount args) := by
    intro i hi
    cases hi
  have hselector := DataOp.run_store hlen m [] hfits
  rw [DataOp.run, List.nil_append] at hselector
  have hidx : 0 + args.length ≤ wordCount args := by simp [wordCount]
  have hdyn : args.length + dynWords args ≤ wordCount args := Nat.le_refl _
  have hstmts := exec_generateAssignBlock hlen m henv
    [.setSelector (selectorOf (entryOf name args))] hidx hdyn
  have hret : (UInt64.ofNat (args.length + dynWords args) * 32 + 4).toNat =
      32 * wordCount args + 4 := by
    have hlt := blk.dataLen.toNat_lt
    rw [wordCount] at hlen ⊢
    rw [UInt64.toNat_add, UInt64.toNat_mul, UInt64.toNat_ofNat']
    simp only [UInt64.reduceToNat]
    omega
  rw [callCompiled, compileMethodDefinition_ok contract methodName decimal selectorOf rfl
    (mapped_entryOf name args)]
  simp only [Definition.call]
  rw [zip_paramsOf, Body.run]
  dsimp only
  rw [generateDataAsserts_hold henv name, if_neg (not_not.mpr rfl), hcount, hm, hselector,
    DataBlock.withData_dataLen, Nat.mul_div_cancel _ (by decide)]
  by_cases hsize : ((args.length * 32 + 4) % 2 ^ 32 + 4) % 2 ^ 32 ≤ blk.dataLen.toNat
  · rw [if_neg (Nat.not_lt.mpr hsize), Option.bind_eq_bind, Option.bind_some]
    by_cases hshort : ∀ a ∈ args, a.Short
    · rw [if_pos hshort] at hstmts
      rw [if_pos ⟨hsize, hshort⟩]
      refine (congrArg (Option.bind · _) hstmts).trans ?_
      rw [Option.bind_some]
      simp only [hret, List.singleton_append, wordCount]
    · rw [if_neg hshort] at hstmts
      rw [if_neg fun h => hshort h.2]
      exact congrArg (Option.bind · _) hstmts
  · rw [if_pos (Nat.lt_of_not_le hsize), if_neg fun h => hsize h.1]

/-- The bytes that a call should leave: the selector and the encoding of the arguments. -/
def callBytes (args : List Arg) : List UInt8 :=
  (leBytes 4 (selectorOf (entryOf name args)).toNat).reverse ++
    SolidityAbi.encode (args.map fun a => a.value.abi)

end Call

/-- A call left `bytes` at the start of the block and returned their number. -/
def Encodes (result : Option (DataBlock × ℤ)) (bytes : List UInt8) : Prop :=
  match result with
  | none => False
  | some (after, ret) => after.data.load 0 bytes.length = bytes ∧ ret = bytes.length

instance : ∀ result bytes, Decidable (Encodes result bytes)
  | none, _ => inferInstanceAs (Decidable False)
  | some _, _ => inferInstanceAs (Decidable (_ ∧ _))

/-- The encoding has room for every word of the call. -/
theorem wordCount_le (args : List Arg) :
    32 * wordCount args ≤ (SolidityAbi.encode (args.map fun a => a.value.abi)).length := by
  have htails : 32 * dynWords args ≤
      ((args.map fun a => a.value.abi).flatMap SolidityAbi.tail).length := by
    induction args with
    | nil => simp [dynWords]
    | cons a args ih =>
        have ha : 32 * a.dynWords ≤ (SolidityAbi.tail a.value.abi).length := by
          rw [Arg.dynWords]
          cases a.value <;>
            simp [ArgValue.isBytes, ArgValue.abi, SolidityAbi.tail]
        simp only [dynWords, List.map_cons, List.sum_cons, List.flatMap_cons,
          List.length_append] at ih ⊢
        omega
  rw [SolidityAbi.length_encode, List.length_map, wordCount]
  omega

/-- Without a `bytes` argument there is no tail. -/
theorem tails_eq_nil {args : List Arg} (h : ∀ a ∈ args, a.value.isBytes = false) :
    (args.map fun a => a.value.abi).flatMap SolidityAbi.tail = [] := by
  apply SolidityAbi.flatMap_tail_static
  intro v hv
  obtain ⟨a, ha, rfl⟩ := List.mem_map.mp hv
  have hstatic := h a ha
  cases hvalue : a.value with
  | bytes bs =>
      rw [hvalue] at hstatic
      cases hstatic
  | _ => rfl

/-- Without a `bytes` argument `dyn_idx` is not advanced. -/
theorem dynWords_eq_zero {args : List Arg} (h : ∀ a ∈ args, a.value.isBytes = false) :
    dynWords args = 0 := by
  induction args with
  | nil => rfl
  | cons a args ih =>
      have ha : a.dynWords = 0 := by
        rw [Arg.dynWords, h a List.mem_cons_self]
        rfl
      rw [dynWords, List.map_cons, List.sum_cons, ha, Nat.zero_add]
      exact ih fun a' h' => h a' (List.mem_cons_of_mem a h')

section Correct

variable (decimal : Char → Bool) (selectorOf : AbiEntry → UInt32) (contract methodName name : String)
  {args : List Arg} {blk : DataBlock}

/-- The word of an argument in the encoding of the arguments. -/
theorem word_encode (before : List Arg) (a : Arg) (after : List Arg) :
    ((SolidityAbi.encode ((before ++ a :: after).map fun a => a.value.abi)).drop
        (32 * before.length)).take 32 =
      SolidityAbi.head (32 * (before ++ a :: after).length +
        ((before.map fun a => a.value.abi).flatMap SolidityAbi.tail).length) a.value.abi := by
  have h := SolidityAbi.take_drop_encode (before.map fun a => a.value.abi) a.value.abi
    (after.map fun a => a.value.abi)
  rw [List.map_append, List.map_cons]
  simpa only [List.length_map, List.length_append, List.length_cons] using h

/-- Without a `bytes` argument the words of a call are the encoding. -/
theorem wordBytes_lastWord (h : ∀ a ∈ args, a.value.isBytes = false) (done : List DataOp) :
    (wordBytes fun i : Fin args.length =>
        lastWord (done ++ callOps 0 args.length args) i) =
      SolidityAbi.encode (args.map fun a => a.value.abi) := by
  apply wordBytes_eq
  · rw [SolidityAbi.length_encode, tails_eq_nil h, List.length_map]
    rfl
  · intro i
    have hsplit : args = args.take i ++ args[i] :: args.drop (i + 1) := by simp
    have hi : (args.take i).length = i := by simp
    have hbefore : ∀ a ∈ args.take i, a.value.isBytes = false := fun a ha =>
      h a (List.mem_of_mem_take ha)
    have hlength : (args.take i ++ args[i] :: args.drop (i + 1)).length ≤ args.length :=
      le_of_eq (congrArg List.length hsplit.symm)
    have hlast := lastOn_callOps done (args.take i) args[i] (args.drop (i + 1)) hlength
    have hword := word_encode (args.take i) args[i] (args.drop (i + 1))
    rw [← hsplit, hi] at hlast hword
    rw [hword, lastWord, hlast]
    exact (Arg.image_headOp (h _ (List.getElem_mem i.isLt)) i _ _).symm

/-- A call that leaves the encoding has no `bytes` argument: the first one would be found at an
offset that counts the selector in. -/
theorem isBytes_eq_false_of_load {m : Region}
    (hlen : 4 + 32 * wordCount args ≤ blk.dataLen.toNat)
    (hload : (m.store 0 (blockBytes (wordCount args)
        (.setSelector (selectorOf (entryOf name args)) :: callOps 0 args.length args))).load 0
          (callBytes selectorOf name args).length = callBytes selectorOf name args) :
    ∀ a ∈ args, a.value.isBytes = false := by
  by_contra hbytes
  obtain ⟨a, hfirst⟩ : ∃ a, args.find? (fun a => a.value.isBytes) = some a := by
    rw [← Option.isSome_iff_exists, List.find?_isSome]
    simpa using hbytes
  obtain ⟨ha, before, after, hsplit, hbefore⟩ := List.find?_eq_some_iff_append.mp hfirst
  have hstatic : ∀ a ∈ before, a.value.isBytes = false := fun b hb => by simpa using hbefore b hb
  have hi : before.length < wordCount args := by
    rw [wordCount, hsplit, List.length_append, List.length_cons]
    omega
  have hnum : 32 * args.length + 4 < 2 ^ 64 := by
    have hlt := blk.dataLen.toNat_lt
    rw [wordCount] at hlen
    omega
  -- the word as it is in the block
  have hlength : (before ++ a :: after).length ≤ args.length :=
    le_of_eq (congrArg List.length hsplit.symm)
  have hlast := lastOn_callOps [.setSelector (selectorOf (entryOf name args))] before a after
    hlength
  rw [← hsplit, List.singleton_append, dynWords_eq_zero hstatic, Nat.add_zero] at hlast
  have hword := load_lastWord hlen m
    (.setSelector (selectorOf (entryOf name args)) :: callOps 0 args.length args) hi
  rw [lastWord, hlast, computeItemIndex_eq hlen hi, lastImage,
    Arg.image_headOp_bytes ha before.length hnum] at hword
  -- the word as it is in the encoding
  have hencode := word_encode before a after
  rw [← hsplit, tails_eq_nil hstatic] at hencode
  have hroom : 32 * before.length + 32 ≤ (SolidityAbi.encode (args.map fun a => a.value.abi)).length :=
    (by omega : _ ≤ 32 * wordCount args).trans (wordCount_le args)
  have hselector : (leBytes 4 (selectorOf (entryOf name args)).toNat).reverse.length = 4 := by simp
  have hslice := congrArg (fun bs => (bs.drop (4 + 32 * before.length)).take 32) hload
  rw [Region.take_drop_load _ (by
      rw [callBytes, List.length_append, hselector]
      omega), Nat.zero_add, hword, callBytes, ← List.drop_drop, List.drop_left' hselector, hencode,
    Arg.head_bytes ha] at hslice
  have := SolidityAbi.wordOf_injective (hnum.trans (by norm_num)) (by
    rw [List.length_nil, Nat.add_zero]
    exact lt_of_le_of_lt (by omega) (hnum.trans (by norm_num))) hslice
  rw [List.length_nil] at this
  omega

/-- **When a generated function leaves the standard encoding**: exactly when it has no `bytes`
parameter, the block has the four bytes more than the encoding that its own assertion asks for, and
the size fits in the `int` it returns. The function is one whose text is C. -/
theorem callCompiled_encodes_iff (hc : IsC contract methodName args)
    (hroom : (callBytes selectorOf name args).length ≤ blk.dataLen.toNat) :
    Encodes (callCompiled decimal selectorOf contract methodName name args (zeroed blk))
        (callBytes selectorOf name args) ↔
      (∀ a ∈ args, a.value.isBytes = false) ∧ 32 * args.length + 8 ≤ blk.dataLen.toNat ∧
        32 * args.length + 4 < 2 ^ 31 := by
  have hlen : 4 + 32 * wordCount args ≤ blk.dataLen.toNat := by
    have := wordCount_le args
    rw [callBytes, List.length_append, List.length_reverse, length_leBytes] at hroom
    omega
  obtain ⟨m, hcall⟩ := callCompiled_eq decimal selectorOf contract methodName name
    (List.Nodup.of_append_left hc.distinct) hlen
  have hstatic : (∀ a ∈ args, a.value.isBytes = false) → wordCount args = args.length ∧
      (callBytes selectorOf name args).length = 4 + 32 * args.length := by
    intro h
    rw [wordCount, dynWords_eq_zero h, callBytes, List.length_append, List.length_reverse,
      length_leBytes, SolidityAbi.length_encode, tails_eq_nil h, List.length_map]
    exact ⟨rfl, rfl⟩
  rw [hcall]
  constructor
  · intro h
    by_cases hok : ((args.length * 32 + 4) % 2 ^ 32 + 4) % 2 ^ 32 ≤ blk.dataLen.toNat ∧
        ∀ a ∈ args, a.Short
    swap
    · rw [if_neg hok] at h
      exact h.elim
    rw [if_pos hok] at h
    obtain ⟨hload, hret⟩ := h
    have hbytes := isBytes_eq_false_of_load selectorOf name hlen hload
    obtain ⟨hcount, hsize⟩ := hstatic hbytes
    rw [hcount, hsize, Nat.add_comm 4, sizeToInt_eq_self_iff] at hret
    refine ⟨hbytes, ?_, hret⟩
    have := hok.1
    omega
  · rintro ⟨hbytes, hsize, hret⟩
    obtain ⟨hcount, hlength⟩ := hstatic hbytes
    have hshort : ∀ a ∈ args, a.Short := fun a ha => a.short_of_isBytes (hbytes a ha)
    rw [if_pos ⟨by omega, hshort⟩]
    refine ⟨?_, ?_⟩
    · have hblock : blockBytes args.length (.setSelector (selectorOf (entryOf name args)) ::
          callOps 0 args.length args) = callBytes selectorOf name args := by
        rw [blockBytes, lastSelector_callOps _ (le_of_eq (Nat.zero_add _)),
          ← List.singleton_append, wordBytes_lastWord hbytes, callBytes]
      rw [hcount, hblock]
      exact Region.load_store m 0 _
    · rw [hlength, hcount, Nat.add_comm 4]
      exact sizeToInt_of_lt hret

end Correct

/-- `transfer(address to, uint256 amount)` in a block of 72 bytes. -/
theorem callCompiled_encodes_transfer :
    Encodes (callCompiled Char.isDigit (fun _ => 0xa9059cbb) "Token" "transfer" "transfer"
        [⟨"to", .address ⟨Vector.replicate 20 0xab⟩⟩, ⟨"amount", .uint256 1000⟩]
        (zeroed ⟨72, ⟨fun _ => 0xff, 0⟩⟩))
      (callBytes (fun _ => 0xa9059cbb) "transfer"
        [⟨"to", .address ⟨Vector.replicate 20 0xab⟩⟩, ⟨"amount", .uint256 1000⟩]) :=
  (callCompiled_encodes_iff Char.isDigit (fun _ => 0xa9059cbb) "Token" "transfer" "transfer"
    ⟨by decide, by decide, by decide, by decide⟩ (by decide)).mpr
    ⟨by decide, by decide, by decide⟩

/-- `f(bytes payload)` of no bytes: its text is C, the offset written is 36, and the encoding has 32. -/
theorem callCompiled_not_encodes_bytes :
    IsC "T" "f" [⟨"payload", .bytes []⟩] ∧
      ¬ Encodes (callCompiled Char.isDigit (fun _ => 0xcafecafe) "T" "f" "f"
          [⟨"payload", .bytes []⟩] (zeroed ⟨132, ⟨fun _ => 0xff, 0⟩⟩))
        (callBytes (fun _ => 0xcafecafe) "f" [⟨"payload", .bytes []⟩]) := by
  refine ⟨⟨by decide, by decide, by decide, by decide⟩, ?_⟩
  decide

end AnylWallet.AbiCompiler
