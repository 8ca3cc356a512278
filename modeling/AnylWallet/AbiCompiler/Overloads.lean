import AnylWallet.AbiCompiler.Compile
import Mathlib.Data.List.Nodup
import Mathlib.Data.List.Perm.Subperm

/-!
# The header and the source of a contract

* `Agree` says that the functions a source defines have distinct names and are the functions a
  header declares.
* `compileMethods_ok` gives what the source's loop produces: the declarations of the methods under
  the names `methodNames`, which depend on the names before them.
* **The header and the source agree exactly when no two functions share a name**
  (`compileContract_agree_iff`), or when a type without a mapping makes both fail. Without a shared
  name nothing is renamed (`methodNames_of_nodup`). With one, the header declares fewer names than
  there are functions, and the source cannot define as many distinct ones.
-/

namespace AnylWallet.AbiCompiler

/-- The functions of an ABI. -/
def functionsOf (abi : List AbiEntry) : List AbiEntry := abi.filter fun m => m.type == "function"

/-- A function in front of an ABI. -/
theorem functionsOf_cons {m : AbiEntry} (abi : List AbiEntry) (hm : m.type = "function") :
    functionsOf (m :: abi) = m :: functionsOf abi := by
  simp [functionsOf, hm]

/-- An entry in front of an ABI that is no function. -/
theorem functionsOf_skip {m : AbiEntry} (abi : List AbiEntry) (hm : m.type ≠ "function") :
    functionsOf (m :: abi) = functionsOf abi := by
  simp [functionsOf, hm]

/-- Induction over an ABI, whose entries are functions or are skipped. -/
theorem functionsOf_induction {motive : List AbiEntry → Prop} (nil : motive [])
    (skip : ∀ m abi, m.type ≠ "function" → motive abi → motive (m :: abi))
    (function : ∀ m abi, m.type = "function" → motive abi → motive (m :: abi))
    (abi : List AbiEntry) : motive abi := by
  induction abi with
  | nil => exact nil
  | cons m abi ih =>
      by_cases hm : m.type = "function"
      · exact function m abi hm ih
      · exact skip m abi hm ih

/-- **Agreement of a source and a header**: the functions defined have pairwise distinct names, and
they are the functions declared, with the same parameters. Where both compilations raise there is
neither a definition nor a declaration. -/
def Agree : Except PyError (List Definition) → Except PyError (List Declaration) → Prop
  | .ok definitions, .ok decls =>
      (definitions.map fun d => d.decl.name).Nodup ∧
        (∀ d ∈ definitions, d.decl ∈ decls) ∧ ∀ decl ∈ decls, decl ∈ definitions.map Definition.decl
  | .error _, .error _ => True
  | _, _ => False

instance : ∀ c h, Decidable (Agree c h)
  | .ok _, .ok _ => inferInstanceAs (Decidable (_ ∧ _ ∧ _))
  | .error _, .error _ => inferInstanceAs (Decidable True)
  | .ok _, .error _ | .error _, .ok _ => inferInstanceAs (Decidable False)

variable (contract : String) (decimal : Char → Bool) (selectorOf : AbiEntry → UInt32)

/-! ## The header and the source -/

/-- What the header's loop produces. -/
theorem compileContractH_ok {abi : List AbiEntry} (h : ∀ m ∈ functionsOf abi, Mapped m) :
    compileContractH contract abi =
      .ok ((functionsOf abi).map fun m => ⟨contract ++ "_" ++ m.name, paramsOf m⟩) := by
  induction abi using functionsOf_induction with
  | nil => rfl
  | skip m abi hm ih =>
      rw [functionsOf_skip abi hm] at h ⊢
      rw [compileContractH, if_pos hm, ih h]
  | function m abi hm ih =>
      rw [functionsOf_cons abi hm] at h ⊢
      obtain ⟨hmapped, hrest⟩ := List.forall_mem_cons.mp h
      rw [compileContractH, if_neg (not_not.mpr hm),
        compileMethodDeclaration_ok contract m.name hm hmapped, ih hrest]
      rfl

/-- A type that is not in the table makes the header fail. -/
theorem compileContractH_error {abi : List AbiEntry} (h : ¬ ∀ m ∈ functionsOf abi, Mapped m) :
    ∃ e, compileContractH contract abi = .error e := by
  induction abi using functionsOf_induction with
  | nil => exact absurd (by simp [functionsOf]) h
  | skip m abi hm ih =>
      rw [functionsOf_skip abi hm] at h
      rw [compileContractH, if_pos hm]
      exact ih h
  | function m abi hm ih =>
      rw [functionsOf_cons abi hm] at h
      rw [compileContractH, if_neg (not_not.mpr hm)]
      by_cases hmapped : Mapped m
      · obtain ⟨e, he⟩ := ih fun hall => h (List.forall_mem_cons.mpr ⟨hmapped, hall⟩)
        rw [compileMethodDeclaration_ok contract m.name hm hmapped, he]
        exact ⟨e, rfl⟩
      · obtain ⟨e, he⟩ := compileMethodDeclaration_error contract m.name hm hmapped
        rw [he]
        exact ⟨e, rfl⟩

/-- The names under which the functions are compiled. -/
def methodNames : Compiled → List AbiEntry → List String
  | _, [] => []
  | compiled, method :: abi =>
      if method.type ≠ "function" then methodNames compiled abi
      else methodName compiled method.name ::
        methodNames (compiled.incr (methodName compiled method.name)) abi

/-- Every function gets a name. -/
theorem length_methodNames (compiled : Compiled) (abi : List AbiEntry) :
    (methodNames compiled abi).length = (functionsOf abi).length := by
  induction abi using functionsOf_induction generalizing compiled with
  | nil => rfl
  | skip m abi hm ih => rw [functionsOf_skip abi hm, methodNames, if_pos hm, ih]
  | function m abi hm ih =>
      rw [functionsOf_cons abi hm, methodNames, if_neg (not_not.mpr hm), List.length_cons, ih,
        List.length_cons]

/-- What the source's loop produces. -/
theorem compileMethods_ok {abi : List AbiEntry} (h : ∀ m ∈ functionsOf abi, Mapped m)
    (compiled : Compiled) :
    ∃ definitions, compileMethods decimal selectorOf contract compiled abi = .ok definitions ∧
      definitions.map Definition.decl =
        List.zipWith (fun name m => ⟨contract ++ "_" ++ name, paramsOf m⟩)
          (methodNames compiled abi) (functionsOf abi) := by
  induction abi using functionsOf_induction generalizing compiled with
  | nil => exact ⟨[], rfl, rfl⟩
  | skip m abi hm ih =>
      rw [functionsOf_skip abi hm] at h ⊢
      rw [compileMethods, methodNames, if_pos hm, if_pos hm]
      exact ih h compiled
  | function m abi hm ih =>
      rw [functionsOf_cons abi hm] at h ⊢
      obtain ⟨hmapped, hrest⟩ := List.forall_mem_cons.mp h
      have hdef := compileMethodDefinition_ok contract (methodName compiled m.name) decimal
        selectorOf hm hmapped
      obtain ⟨definitions, hdefs, hdecls⟩ :=
        ih hrest (compiled.incr (methodName compiled m.name))
      rw [compileMethods, methodNames, if_neg (not_not.mpr hm), if_neg (not_not.mpr hm)]
      dsimp only
      rw [hdef, hdefs]
      refine ⟨_ :: definitions, rfl, ?_⟩
      rw [List.map_cons, hdecls, List.zipWith_cons_cons]

/-- A type that is not in the table makes the source fail. -/
theorem compileMethods_error {abi : List AbiEntry} (h : ¬ ∀ m ∈ functionsOf abi, Mapped m)
    (compiled : Compiled) :
    ∃ e, compileMethods decimal selectorOf contract compiled abi = .error e := by
  induction abi using functionsOf_induction generalizing compiled with
  | nil => exact absurd (by simp [functionsOf]) h
  | skip m abi hm ih =>
      rw [functionsOf_skip abi hm] at h
      rw [compileMethods, if_pos hm]
      exact ih h compiled
  | function m abi hm ih =>
      rw [functionsOf_cons abi hm] at h
      rw [compileMethods, if_neg (not_not.mpr hm)]
      dsimp only
      by_cases hmapped : Mapped m
      · have hdef := compileMethodDefinition_ok contract (methodName compiled m.name) decimal
          selectorOf hm hmapped
        obtain ⟨e, he⟩ := ih (fun hall => h (List.forall_mem_cons.mpr ⟨hmapped, hall⟩))
          (compiled.incr (methodName compiled m.name))
        rw [hdef]
        refine ⟨e, ?_⟩
        simp only [Bind.bind, Except.bind, he]
      · obtain ⟨e, he⟩ := compileMethodDefinition_error contract
          (methodName compiled m.name) decimal selectorOf hm hmapped
        rw [he]
        exact ⟨e, rfl⟩

/-! ## Shared names -/

/-- Without a shared name nothing is renamed. -/
theorem methodNames_of_nodup {abi : List AbiEntry} {compiled : Compiled}
    (hnodup : ((functionsOf abi).map AbiEntry.name).Nodup)
    (hnew : ∀ m ∈ functionsOf abi, compiled m.name = none) :
    methodNames compiled abi = (functionsOf abi).map AbiEntry.name := by
  induction abi using functionsOf_induction generalizing compiled with
  | nil => rfl
  | skip m abi hm ih =>
      rw [functionsOf_skip abi hm] at hnodup hnew ⊢
      rw [methodNames, if_pos hm]
      exact ih hnodup hnew
  | function m abi hm ih =>
      rw [functionsOf_cons abi hm] at hnodup hnew ⊢
      rw [List.map_cons, List.nodup_cons] at hnodup
      have hname : methodName compiled m.name = m.name := by
        rw [methodName, hnew m List.mem_cons_self]
      rw [methodNames, if_neg (not_not.mpr hm), hname, List.map_cons, ih hnodup.2]
      intro m' hm'
      have hne : m'.name ≠ m.name := fun h => hnodup.1 (h ▸ List.mem_map_of_mem hm')
      rw [Compiled.incr, Function.update_of_ne hne]
      exact hnew m' (List.mem_cons_of_mem m hm')

/-- The names of the declarations of the source. -/
theorem map_name_zipWith (names : List String) {fs : List AbiEntry}
    (hlen : names.length = fs.length) :
    ((List.zipWith (fun name m => (⟨contract ++ "_" ++ name, paramsOf m⟩ : Declaration)) names
      fs).map Declaration.name) = names.map fun name => contract ++ "_" ++ name := by
  induction names generalizing fs with
  | nil => rfl
  | cons name names ih =>
      cases fs with
      | nil => exact absurd hlen (by simp)
      | cons m fs => simpa using ih (by simpa using hlen)

/-- Distinct names that are all names of the header are as many as the names of the header only if
those are distinct, too. -/
theorem nodup_of_agree {names names' : List String} (hlen : names'.length = names.length)
    (hnodup : (names'.map fun name => contract ++ "_" ++ name).Nodup)
    (hsubset : (names'.map fun name => contract ++ "_" ++ name) ⊆
      names.map fun name => contract ++ "_" ++ name) : names.Nodup := by
  have hperm := (List.subperm_of_subset hnodup hsubset).perm_of_length_le (by simp [hlen])
  exact List.Nodup.of_map _ (hperm.nodup_iff.mp hnodup)

/-- **When the header and the source agree**: exactly when no two functions share a name, or when
both compilations raise because a type is not in the table. -/
theorem compileContract_agree_iff (abi : List AbiEntry) :
    Agree (compileContractC decimal selectorOf contract abi) (compileContractH contract abi) ↔
      ((functionsOf abi).map AbiEntry.name).Nodup ∨ ¬ ∀ m ∈ functionsOf abi, Mapped m := by
  by_cases hmapped : ∀ m ∈ functionsOf abi, Mapped m
  swap
  · obtain ⟨e, he⟩ := compileContractH_error contract hmapped
    obtain ⟨e', he'⟩ := compileMethods_error contract decimal selectorOf hmapped fun _ => none
    rw [compileContractC, he, he']
    exact ⟨fun _ => Or.inr hmapped, fun _ => trivial⟩
  obtain ⟨definitions, hdefs, hdecls⟩ :=
    compileMethods_ok contract decimal selectorOf hmapped fun _ => none
  have hlen := length_methodNames (fun _ => none) abi
  have hnames : definitions.map (fun d => d.decl.name) =
      (methodNames (fun _ => none) abi).map fun name => contract ++ "_" ++ name := by
    have := congrArg (List.map Declaration.name) hdecls
    rwa [List.map_map, map_name_zipWith contract _ hlen] at this
  rw [compileContractC, hdefs, compileContractH_ok contract hmapped]
  rw [or_iff_left (not_not.mpr hmapped)]
  constructor
  · rintro ⟨hnodup, hdeclared, -⟩
    rw [hnames] at hnodup
    refine nodup_of_agree contract (by simpa using hlen) hnodup ?_
    rw [← hnames]
    intro name hname
    obtain ⟨d, hd, rfl⟩ := List.mem_map.mp hname
    obtain ⟨m, hm, hmd⟩ := List.mem_map.mp (hdeclared d hd)
    rw [← hmd]
    simpa using ⟨m, hm, rfl⟩
  · intro hnodup
    have hsame : methodNames (fun _ => none) abi = (functionsOf abi).map AbiEntry.name :=
      methodNames_of_nodup hnodup fun _ _ => rfl
    have hall : definitions.map Definition.decl =
        (functionsOf abi).map fun m => ⟨contract ++ "_" ++ m.name, paramsOf m⟩ := by
      rw [hdecls, hsame, List.zipWith_map_left, List.zipWith_self]
    refine ⟨?_, ?_, ?_⟩
    · rw [hnames, hsame]
      exact List.Nodup.map (fun a b h => by simpa using h) hnodup
    · intro d hd
      rw [← hall]
      exact List.mem_map_of_mem hd
    · intro decl hdecl
      rwa [hall]

/-- Two overloads: the header declares `T_f` twice, the source defines `T_f` and `T_f_1`. -/
theorem compileContract_not_agree_overload :
    ¬ Agree
      (compileContractC Char.isDigit (fun _ => 0) "T"
        [⟨"function", "f", [⟨"a", "uint8"⟩]⟩, ⟨"function", "f", [⟨"a", "uint64"⟩]⟩])
      (compileContractH "T"
        [⟨"function", "f", [⟨"a", "uint8"⟩]⟩, ⟨"function", "f", [⟨"a", "uint64"⟩]⟩]) := by
  decide

end AnylWallet.AbiCompiler
