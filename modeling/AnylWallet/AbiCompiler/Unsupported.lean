import AnylWallet.AbiCompiler.Compile

/-!
# Which methods the ABI compiler handles

`compile_method_definition` catches the exception of `compute_data_len` and prints a stub for a method
that has a type without a mapping. It then calls `compile_method_declaration`, which looks the same
types up again.

* `Handled`: the stub for such a method, and for every other one a body that encodes every parameter.
* `compileMethodDefinition_handled_iff`: no stub is ever printed; the declaration raises first.
-/

namespace AnylWallet.AbiCompiler

/-- The C function that a statement calls. -/
def Stmt.encodeFn : Stmt → EncodeFn
  | .encode fn _ _ => fn
  | .encodeWithLen fn _ _ => fn
  | .encodeLocation _ => .encodeUint
  | .encodeLength _ => .encodeUint
  | .encodeWords fn _ => fn

/-- The statement stores the value of the parameter at this index. -/
def Stmt.Stores (i : AbiInput) (idx : ℕ) : Stmt → Prop
  | .encode _ k var => k = idx ∧ var = i.name
  | .encodeWithLen _ k var => k = idx ∧ var = i.name
  | .encodeLocation _ => False
  | .encodeLength _ => False
  | .encodeWords _ var => var = i.name

/-- Every parameter is stored by the function that the table names for its type, and no statement
calls anything else than a function of the table. -/
def Body.EncodesAll (body : Body) (m : AbiEntry) : Prop :=
  (∀ idx i, m.inputs[idx]? = some i →
    ∃ mapping, typeMappings i.type = some mapping ∧
      ∃ s ∈ body.stmts, s.Stores i idx ∧ s.encodeFn = mapping.encodeFn) ∧
    ∀ s ∈ body.stmts, s.encodeFn ≠ .default

/-- The stub for a method with a type that has no mapping, and a whole body for any other one. -/
def Handled (m : AbiEntry) : Except PyError Definition → Prop
  | .error _ => False
  | .ok ⟨_, none⟩ => ¬ Mapped m
  | .ok ⟨_, some body⟩ => Mapped m ∧ body.EncodesAll m

/-! ## The statements of a body -/

/-- A row of the table names a function, and an array is of fixed length or dynamic. -/
theorem typeMappings_row {t : String} {mapping : Mapping} (h : typeMappings t = some mapping) :
    mapping.encodeFn ≠ .default ∧
      (mapping.array = 1 → mapping.dynamic = 0 ∨ mapping.dynamic = 1) := by
  unfold typeMappings at h
  split at h
  all_goals cases h
  all_goals decide

variable {i : AbiInput} {mapping : Mapping}

/-- The branch for a type of the table. -/
theorem assignStmts_eq (h : typeMappings i.type = some mapping) (idx : ℕ) :
    assignStmts i idx =
      if mapping.array = 1 ∧ mapping.dynamic = 0 then [.encodeWithLen mapping.encodeFn idx i.name]
      else if mapping.array = 1 ∧ mapping.dynamic = 1 then
        [.encodeLocation idx, .encodeLength i.name, .encodeWords mapping.encodeFn i.name]
      else [.encode mapping.encodeFn idx i.name] := by
  simp only [assignStmts, h, Option.getD_some]

/-- **The statements for a parameter** store it with the function of its type. -/
theorem assignStmts_stores (h : typeMappings i.type = some mapping) (idx : ℕ) :
    ∃ s ∈ assignStmts i idx, s.Stores i idx ∧ s.encodeFn = mapping.encodeFn := by
  rw [assignStmts_eq h]
  by_cases harray : mapping.array = 1
  · rcases (typeMappings_row h).2 harray with hfixed | hdyn
    · rw [if_pos ⟨harray, hfixed⟩]
      exact ⟨_, List.mem_singleton_self _, ⟨rfl, rfl⟩, rfl⟩
    · rw [if_neg (by omega), if_pos ⟨harray, hdyn⟩]
      exact ⟨.encodeWords mapping.encodeFn i.name, by simp, rfl, rfl⟩
  · rw [if_neg (by omega), if_neg (by omega)]
    exact ⟨_, List.mem_singleton_self _, ⟨rfl, rfl⟩, rfl⟩

/-- They call nothing but functions of the table. -/
theorem assignStmts_ne_default (h : typeMappings i.type = some mapping) {idx : ℕ} {s : Stmt}
    (hs : s ∈ assignStmts i idx) : s.encodeFn ≠ .default := by
  have hfn := (typeMappings_row h).1
  have huint : EncodeFn.encodeUint ≠ .default := EncodeFn.noConfusion
  rw [assignStmts_eq h] at hs
  split at hs
  · rw [List.mem_singleton.mp hs]
    exact hfn
  · split at hs
    · simp only [List.mem_cons, List.not_mem_nil, or_false] at hs
      rcases hs with rfl | rfl | rfl
      · exact huint
      · exact huint
      · exact hfn
    · rw [List.mem_singleton.mp hs]
      exact hfn

/-- The statements for the parameters stand in their order. -/
theorem mem_generateAssignBlock {inputs : List AbiInput} {start : ℕ} {s : Stmt} :
    s ∈ generateAssignBlock inputs start ↔
      ∃ idx i, inputs[idx]? = some i ∧ s ∈ assignStmts i (start + idx) := by
  induction inputs generalizing start with
  | nil => simp [generateAssignBlock]
  | cons i inputs ih =>
      rw [generateAssignBlock, List.mem_append, ih]
      constructor
      · rintro (hs | ⟨idx, j, hj, hs⟩)
        · exact ⟨0, i, rfl, hs⟩
        · refine ⟨idx + 1, j, hj, ?_⟩
          rwa [Nat.add_comm idx, ← Nat.add_assoc]
      · rintro ⟨idx, j, hj, hs⟩
        cases idx with
        | zero =>
            obtain rfl := Option.some.inj hj
            exact Or.inl hs
        | succ idx =>
            refine Or.inr ⟨idx, j, hj, ?_⟩
            rwa [Nat.add_assoc, Nat.add_comm 1]

/-- **A method whose types are all in the table** has all its parameters encoded. -/
theorem encodesAll_of_mapped {m : AbiEntry} (h : Mapped m) {body : Body}
    (hbody : body.stmts = generateAssignBlock m.inputs 0) : body.EncodesAll m := by
  have hmapping : ∀ {idx : ℕ} {i : AbiInput}, m.inputs[idx]? = some i →
      ∃ mapping, typeMappings i.type = some mapping := by
    intro idx i hi
    exact Option.isSome_iff_exists.mp (h i (List.mem_of_getElem? hi))
  refine ⟨?_, ?_⟩
  · intro idx i hi
    obtain ⟨mapping, hm⟩ := hmapping hi
    obtain ⟨s, hs, hstores⟩ := assignStmts_stores hm idx
    refine ⟨mapping, hm, s, ?_, hstores⟩
    rw [hbody, mem_generateAssignBlock]
    exact ⟨idx, i, hi, by rwa [Nat.zero_add]⟩
  · intro s hs
    rw [hbody, mem_generateAssignBlock] at hs
    obtain ⟨idx, i, hi, hs⟩ := hs
    obtain ⟨mapping, hm⟩ := hmapping hi
    exact assignStmts_ne_default hm hs

/-! ## The stub is never printed -/

/-- **Which functions the compiler handles**: those whose types are all in the table. For any other
one it raises, as `map_type` looks the type up before the stub for unsupported types is reached. -/
theorem compileMethodDefinition_handled_iff (decimal : Char → Bool) (selectorOf : AbiEntry → UInt32)
    (contractName methodName : String) {m : AbiEntry} (hm : m.type = "function") :
    Handled m (compileMethodDefinition decimal selectorOf contractName methodName m) ↔
      Mapped m := by
  constructor
  · intro hhandled
    by_contra h
    obtain ⟨e, he⟩ :=
      compileMethodDefinition_error contractName methodName decimal selectorOf hm h
    rw [he] at hhandled
    exact hhandled
  · intro h
    rw [compileMethodDefinition_ok contractName methodName decimal selectorOf hm h]
    exact ⟨h, encodesAll_of_mapped h rfl⟩

/-- `transfer(address,uint256)`. -/
theorem compileMethodDefinition_handled_transfer :
    Handled ⟨"function", "transfer", [⟨"_to", "address"⟩, ⟨"_value", "uint256"⟩]⟩
      (compileMethodDefinition Char.isDigit (fun _ => 0xa9059cbb) "Token" "transfer"
        ⟨"function", "transfer", [⟨"_to", "address"⟩, ⟨"_value", "uint256"⟩]⟩) :=
  (compileMethodDefinition_handled_iff Char.isDigit (fun _ => 0xa9059cbb) "Token" "transfer"
    rfl).mpr (by decide)

/-- `setApprovalForAll(address,bool)`. -/
theorem compileMethodDefinition_not_handled_bool :
    ¬ ∀ (decimal : Char → Bool) (selectorOf : AbiEntry → UInt32) (contractName methodName : String)
      (m : AbiEntry), m.type = "function" →
      Handled m (compileMethodDefinition decimal selectorOf contractName methodName m) := by
  intro h
  exact h Char.isDigit (fun _ => 0xa22cb465) "Token" "setApprovalForAll"
    ⟨"function", "setApprovalForAll", [⟨"_operator", "address"⟩, ⟨"_approved", "bool"⟩]⟩ rfl

end AnylWallet.AbiCompiler
