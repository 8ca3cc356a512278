import AnylWallet.AbiCompiler.Generated

/-!
# Generated functions on a block that was never initialised

* The shell hands a generated function an array on its stack without a call of `data_init`.
* Each writer clears the word that it is about, so one call replaces the whole word, whatever the
  memory holds (`DataOp.run_at`), and the words follow each other without a gap.
* **A call with static arguments** (`callCompiled_static`) is one store of the selector and the
  encoding: nothing of the array is left between them, and nothing behind them is changed.
-/

namespace AnylWallet.AbiCompiler

open AnylWallet.Lib AnylWallet.Helpers AnylWallet.Eth

/-! ## One call of a writer -/

/-- Clear a word and store a value inside it: the word is replaced. -/
theorem store_itemClear_at (m : Region) (place : ℕ) {p : ℕ} {b : List UInt8}
    (hp : p + b.length ≤ 32) :
    (m.store place (List.replicate 32 0)).store (place + p) b =
      m.store place (List.replicate p 0 ++ (b ++ List.replicate (32 - (p + b.length)) 0)) := by
  have hsplit : List.replicate 32 (0 : UInt8) = List.replicate p 0 ++
      (List.replicate b.length 0 ++ List.replicate (32 - (p + b.length)) 0) := by
    rw [List.replicate_append_replicate, List.replicate_append_replicate]
    congr 1
    omega
  rw [hsplit, m.store_over (by rw [List.length_replicate]) List.length_replicate]

section Writers

variable {blk : DataBlock} {i : ℕ} (hroom : 4 + 32 * (i + 1) ≤ blk.dataLen.toNat)
include hroom

/-- The place of a word that the block has. -/
theorem computeItemIndex_at : computeItemIndex i = 4 + 32 * i :=
  computeItemIndex_eq hroom (Nat.lt_succ_self i)

/-- **One call** of a writer replaces its word. -/
theorem run_at {op : DataOp} (hslot : op.slot = some i) :
    op.run blk = some (blk.withData (blk.data.store (4 + 32 * i) op.image)) := by
  have hplace := computeItemIndex_at hroom
  have hword : ∀ {p : ℕ} {b : List UInt8}, p + b.length ≤ 32 →
      op.image = List.replicate p 0 ++ (b ++ List.replicate (32 - (p + b.length)) 0) →
      (blk.itemClear i).data.store (computeItemIndex i + p) b =
        blk.data.store (4 + 32 * i) op.image := by
    intro p b hp himage
    rw [himage, ← store_itemClear_at _ _ hp, ← hplace]
    rfl
  cases op with
  | setSelector selector => cases hslot
  | uint idx val =>
      cases hslot
      refine congrArg (fun r => some (blk.withData r)) (hword ?_ ?_)
      · simp
      · simp [DataOp.image, leBytes_endianSwapU64]
  | uint128 idx val =>
      cases hslot
      refine congrArg (fun r => some (blk.withData r)) (hword ?_ ?_)
      · simp
      · simp [DataOp.image]
  | uint256 idx val =>
      cases hslot
      refine congrArg (fun r => some (blk.withData r)) (hword (p := 0) ?_ ?_)
      · simp
      · simp [DataOp.image]
  | address idx val =>
      cases hslot
      refine congrArg (fun r => some (blk.withData r)) (hword ?_ ?_)
      · simp
      · simp [DataOp.image]
  | data idx bytes =>
      cases hslot
      simp only [DataOp.run, DataBlock.encodeData, if_neg (Nat.not_lt.mpr bytes.2)]
      rw [if_neg (not_dataLen_le hroom (Nat.lt_succ_self i))]
      refine congrArg (fun r => some (blk.withData r)) (hword (p := 0) ?_ ?_)
      · simpa using bytes.2
      · simp [DataOp.image]

end Writers

/-- The selector is stored in front. -/
theorem run_setSelector {blk : DataBlock} (hroom : 4 ≤ blk.dataLen.toNat) (selector : UInt32) :
    blk.dataSetSelector selector =
      some (blk.withData (blk.data.store 0 (leBytes 4 selector.toNat).reverse)) := by
  have hfour : (4 : UInt64) ≤ blk.dataLen := UInt64.le_iff_toNat_le.mpr (by simpa using hroom)
  rw [DataBlock.dataSetSelector, if_pos hfour, leBytes_swapUint32]

/-! ## The statements of a function -/

section Exec

variable {env : Env} {a : Arg} {blk : DataBlock} {i : ℕ}

/-- The statement of a static argument is the call on its word. -/
theorem exec_static (henv : InScope env a) (hstatic : a.value.isBytes = false) (dynIdx : UInt64) :
    (assignStmts ⟨a.name, a.value.type⟩ i).foldlM (Stmt.exec env) ⟨blk, dynIdx⟩ =
      ((a.headOp i 0).run blk).map fun blk => ⟨blk, dynIdx⟩ := by
  obtain ⟨name, value⟩ := a
  have hvar : ∀ {v : CValue} {vs : List CValue}, value.cvalues = v :: vs →
      env.lookup name = some v := by
    intro v vs hv
    refine henv (name, v) ?_
    rw [Arg.bindings, hv, Arg.names]
    cases value <;> exact List.mem_cons_self
  have hone : ∀ {fn : EncodeFn} {v : CValue} {blk' : DataBlock},
      env.lookup name = some v → callEncode blk i fn v = some blk' →
      [Stmt.encode fn i name].foldlM (Stmt.exec env) ⟨blk, dynIdx⟩ = some ⟨blk', dynIdx⟩ := by
    intro fn v blk' hv hcall
    simp [Stmt.exec, hv, hcall]
  cases value with
  | bytes bs => cases hstatic
  | bytes32 v =>
      have hlength := henv (name ++ "_len", .word 32)
        (List.mem_cons_of_mem _ List.mem_cons_self)
      have htake : v.toList.take 32 = v.toList := List.take_of_length_le (by simp)
      have hstmt : assignStmts ⟨name, "bytes32"⟩ i = [.encodeWithLen .encodeData i name] := rfl
      simp only [ArgValue.type, hstmt, List.foldlM_cons, List.foldlM_nil, Stmt.exec, hvar rfl,
        hlength, Option.bind_eq_bind, Option.bind_some, callEncodeWithLen, UInt64.reduceToNat,
        Vector.length_toList, le_refl, if_true, htake, Arg.headOp, DataOp.run]
      cases blk.encodeData i v.toList with
      | none => rfl
      | some blk' => rfl
  | _ => exact hone (hvar rfl) rfl

/-- **The statements of static arguments** store their words one after the other. -/
theorem exec_statics {args : List Arg} (henv : ∀ a ∈ args, InScope env a)
    (hstatic : ∀ a ∈ args, a.value.isBytes = false) {done : List UInt8} (dynIdx : UInt64)
    (offset : ℕ) (m : Region) (hdone : done.length = 4 + 32 * i)
    (hroom : 4 + 32 * (i + args.length) ≤ blk.dataLen.toNat) :
    (generateAssignBlock (args.map fun a => ⟨a.name, a.value.type⟩) i).foldlM (Stmt.exec env)
        ⟨blk.withData (m.store 0 done), dynIdx⟩ =
      some ⟨blk.withData (m.store 0
        (done ++ SolidityAbi.heads offset (args.map fun a => a.value.abi))), dynIdx⟩ := by
  induction args generalizing i done offset with
  | nil => simp [generateAssignBlock, SolidityAbi.heads]
  | cons a args ih =>
      have ha := hstatic a List.mem_cons_self
      rw [List.length_cons] at hroom
      have hrun := @run_at (blk.withData (m.store 0 done)) i
        (by rw [DataBlock.withData_dataLen]; omega) (a.headOp i 0) (Arg.slot_headOp _ _ _)
      have hstore : (m.store 0 done).store (4 + 32 * i) (a.headOp i 0).image =
          m.store 0 (done ++ SolidityAbi.head offset a.value.abi) := by
        rw [Arg.image_headOp ha i 0 offset, ← hdone, ← Nat.zero_add done.length, m.store_append]
      have hlength : (SolidityAbi.head offset a.value.abi).length = 32 := by
        rw [← Arg.image_headOp ha i 0 offset]
        exact (a.headOp i 0).length_image (Arg.slot_headOp _ _ _)
      have hnext := @ih (i + 1) (fun b hb => henv b (List.mem_cons_of_mem a hb))
        (fun b hb => hstatic b (List.mem_cons_of_mem a hb))
        (done ++ SolidityAbi.head offset a.value.abi)
        (offset + (SolidityAbi.tail a.value.abi).length)
        (by rw [List.length_append, hdone, hlength]; omega) (by omega)
      rw [List.map_cons, generateAssignBlock, List.foldlM_append,
        exec_static (henv a List.mem_cons_self) ha, hrun, Option.map_some, Option.bind_eq_bind,
        Option.bind_some, DataBlock.withData_data, hstore]
      refine hnext.trans ?_
      rw [List.map_cons, SolidityAbi.heads, List.append_assoc]

end Exec

/-! ## A call -/

/-- **A call with static arguments** on any memory is one store of the selector and the encoding, of
which it returns the length. -/
theorem callCompiled_static (decimal : Char → Bool) (selectorOf : AbiEntry → UInt32)
    (contract methodName name : String) {args : List Arg} {blk : DataBlock}
    (hnodup : (args.flatMap Arg.names).Nodup) (hstatic : ∀ a ∈ args, a.value.isBytes = false)
    (hroom : 32 * args.length + 8 ≤ blk.dataLen.toNat) (hsize : 32 * args.length + 8 < 2 ^ 31) :
    callCompiled decimal selectorOf contract methodName name args blk =
      some (blk.withData (blk.data.store 0 (callBytes selectorOf name args)),
        ((callBytes selectorOf name args).length : ℤ)) := by
  have henv : ∀ a ∈ args, InScope (args.flatMap Arg.bindings) a := fun a ha =>
    inScope_of_nodup hnodup ha
  have hselector : (leBytes 4 (selectorOf (entryOf name args)).toNat).reverse.length = 4 := by simp
  have hlength : (callBytes selectorOf name args).length = 32 * args.length + 4 := by
    rw [callBytes, List.length_append, hselector, SolidityAbi.length_encode, tails_eq_nil hstatic,
      List.length_map, List.length_nil]
    omega
  have hcount : (entryOf name args).inputs.length = args.length := List.length_map _
  have hstmts := @exec_statics (args.flatMap Arg.bindings) blk 0 args henv hstatic
    (leBytes 4 (selectorOf (entryOf name args)).toNat).reverse (UInt64.ofNat args.length)
    (32 * args.length) blk.data hselector (by omega)
  have hdyn : (UInt64.ofNat args.length * 32 + 4).toNat = 32 * args.length + 4 := by
    rw [UInt64.toNat_add, UInt64.toNat_mul, UInt64.toNat_ofNat']
    simp only [UInt64.reduceToNat]
    omega
  rw [callCompiled, compileMethodDefinition_ok contract methodName decimal selectorOf rfl
    (mapped_entryOf name args)]
  simp only [Definition.call]
  rw [zip_paramsOf, Body.run]
  dsimp only
  rw [generateDataAsserts_hold henv name, if_neg (not_not.mpr rfl), hcount,
    if_neg (by omega), run_setSelector (by omega), Nat.mul_div_cancel _ (by decide),
    Option.bind_eq_bind, Option.bind_some]
  refine (congrArg (Option.bind · _) hstmts).trans ?_
  rw [Option.bind_some]
  dsimp only
  rw [hdyn, sizeToInt_of_lt (by omega), hlength, callBytes, SolidityAbi.encode,
    tails_eq_nil hstatic, List.append_nil, List.length_map]

end AnylWallet.AbiCompiler
