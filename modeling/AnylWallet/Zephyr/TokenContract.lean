import AnylWallet.AbiCompiler.StaticCalls
import AnylWallet.Zephyr.Amounts
import AnylWallet.Zephyr.Shell

/-!
# `zephyr-wallet/contracts/Token.sol`: the firmware with the functions of its token contract

* The build compiles the interface of the contract to C, and the commands call the functions it
  generates on an array of their stack. `withToken` is the firmware with these functions, in place
  of the parameters of `Device` and `Firmware`.
* `tokenCall_eq`: the calldata is the selector and the encoding of the arguments, whatever the array
  held before.
-/

namespace AnylWallet.Zephyr

open AnylWallet.Lib AnylWallet.Helpers AnylWallet.Eth AnylWallet.AbiCompiler

/-! ## The code -/

/-- The ABI of the interface. Source: `zephyr-wallet/contracts/Token.sol` -/
def tokenAbi : List AbiEntry :=
  [⟨"function", "totalSupply", []⟩,
    ⟨"function", "balanceOf", [⟨"_owner", "address"⟩]⟩,
    ⟨"function", "transfer", [⟨"_to", "address"⟩, ⟨"_value", "uint256"⟩]⟩,
    ⟨"function", "transferFrom",
      [⟨"_from", "address"⟩, ⟨"_to", "address"⟩, ⟨"_value", "uint256"⟩]⟩,
    ⟨"function", "approve", [⟨"_spender", "address"⟩, ⟨"_value", "uint256"⟩]⟩,
    ⟨"function", "allowance", [⟨"_owner", "address"⟩, ⟨"_spender", "address"⟩]⟩,
    ⟨"event", "Transfer", [⟨"_from", "address"⟩, ⟨"_to", "address"⟩, ⟨"_value", "uint256"⟩]⟩,
    ⟨"event", "Approval", [⟨"_owner", "address"⟩, ⟨"_spender", "address"⟩, ⟨"_value", "uint256"⟩]⟩,
    ⟨"function", "decimals", []⟩]

section

variable (decimal : Char → Bool) (selectorOf : AbiEntry → UInt32)

/-- `Token_<method>`, as it is in the generated file. -/
def tokenFunction (method : String) : Option Definition :=
  match compileContractC decimal selectorOf "Token" tokenAbi with
  | .error _ => none
  | .ok definitions => definitions.find? fun d => d.decl.name == "Token_" ++ method

/-- Call `Token_<method>` on the array `datablk[256+4]`: the calldata, or nothing where the function
returns a negative number. -/
def tokenCall (method : String) (values : List CValue) (datablk : Region) : Option (List UInt8) := do
  let function ← tokenFunction decimal selectorOf method
  let (blk, ret) ← function.call values ⟨256 + 4, datablk⟩
  if ret < 0 then none else some (blk.data.load 0 ret.toNat)

/-- The firmware with the functions of the token contract; `datablk` is the memory of the array. -/
def withToken (datablk : Region) (fw : Firmware) : Firmware :=
  { fw with
    tokenTransfer := fun addr value =>
      tokenCall decimal selectorOf "transfer" [.address addr, .uint256 value] datablk
    tokenDecimals := tokenCall decimal selectorOf "decimals" [] datablk
    tokenBalanceOf := fun owner =>
      tokenCall decimal selectorOf "balanceOf" [.address owner] datablk
    tokenTotalSupply := tokenCall decimal selectorOf "totalSupply" [] datablk }

/-- The cryptography is as before. -/
theorem crypto_withToken (datablk : Region) (fw : Firmware) :
    (withToken decimal selectorOf datablk fw).crypto = fw.crypto := by
  simp only [withToken]

end

/-! ## The calldata -/

/-- A number in memory is the argument with this image. -/
def uint256Arg (name : String) (value : Uint256) : Arg :=
  ⟨name, .uint256 (BitVec.ofNat 256 (ofBE value.image))⟩

/-- The number that an image of 32 bytes shows. -/
theorem toNat_ofBE_image (value : Uint256) :
    (BitVec.ofNat 256 (ofBE value.image)).toNat = ofBE value.image := by
  rw [BitVec.toNat_ofNat]
  exact Nat.mod_eq_of_lt (lt_of_lt_of_eq (ofBE_lt _) (by rw [Uint256.length_image]; norm_num))

/-- The image determines the number. -/
theorem image_injective : Function.Injective Uint256.image := by
  have hword : ∀ {v w : UInt64}, leBytes 8 v.toNat = leBytes 8 w.toNat → v = w := by
    intro v w h
    have hv : v.toNat < 256 ^ 8 := lt_of_lt_of_eq v.toNat_lt (by norm_num)
    have hw : w.toNat < 256 ^ 8 := lt_of_lt_of_eq w.toNat_lt (by norm_num)
    rw [← UInt64.toNat_inj, ← ofLE_leBytes hv, ← ofLE_leBytes hw, h]
  intro x y h
  rw [Uint256.image_eq, Uint256.image_eq] at h
  obtain ⟨ha, h⟩ := List.append_inj h (by simp)
  obtain ⟨hb, h⟩ := List.append_inj h (by simp)
  obtain ⟨hc, hd⟩ := List.append_inj h (by simp)
  exact Uint256.ext (congrArg₂ Uint128.mk (hword ha) (hword hb))
    (congrArg₂ Uint128.mk (hword hc) (hword hd))

/-- A number is what its image holds. -/
theorem ofImage_image (value : Uint256) : Uint256.ofImage value.image = value :=
  image_injective (Uint256.image_ofImage value.length_image)

/-- The value that a call passes for such an argument. -/
theorem cvalues_uint256Arg (name : String) (value : Uint256) :
    (uint256Arg name value).value.cvalues = [.uint256 value] := by
  have h := SolidityAbi.wordOf_ofBE value.length_image
  rw [SolidityAbi.wordOf] at h
  rw [uint256Arg, ArgValue.cvalues, toNat_ofBE_image, h, ofImage_image]

section

variable (decimal : Char → Bool) (selectorOf : AbiEntry → UInt32) (datablk : Region)

/-- **What a call of a generated function leaves**, if its arguments are static. -/
theorem tokenCall_eq {method : String} {args : List Arg}
    (hfunction : tokenFunction decimal selectorOf method =
      (compileMethodDefinition decimal selectorOf "Token" method (entryOf method args)).toOption)
    (hnodup : (args.flatMap Arg.names).Nodup) (hstatic : ∀ a ∈ args, a.value.isBytes = false)
    (hcount : args.length ≤ 7) :
    tokenCall decimal selectorOf method (args.flatMap fun a => a.value.cvalues) datablk =
      some (callBytes selectorOf method args) := by
  have hsize : (⟨256 + 4, datablk⟩ : DataBlock).dataLen.toNat = 260 := rfl
  have hcall := @callCompiled_static decimal selectorOf "Token" method method args
    ⟨256 + 4, datablk⟩ hnodup hstatic (by omega) (by omega)
  rw [callCompiled] at hcall
  rw [tokenCall, hfunction]
  cases hdef : compileMethodDefinition decimal selectorOf "Token" method (entryOf method args) with
  | error e =>
      rw [hdef] at hcall
      cases hcall
  | ok d =>
      rw [hdef] at hcall
      dsimp only at hcall
      simp only [Except.toOption, Option.bind_eq_bind, Option.bind_some, hcall]
      rw [if_neg (Int.not_lt.mpr (Int.natCast_nonneg _)), Int.toNat_natCast,
        DataBlock.withData_data, Region.load_store]

/-- It has four bytes and a word for every argument. -/
theorem length_callBytes {method : String} {args : List Arg}
    (hstatic : ∀ a ∈ args, a.value.isBytes = false) :
    (callBytes selectorOf method args).length = 4 + 32 * args.length := by
  rw [callBytes, List.length_append, List.length_reverse, length_leBytes,
    SolidityAbi.length_encode, tails_eq_nil hstatic, List.length_map, List.length_nil]
  omega

variable (fw : Firmware)

/-- The calldata of a transfer: the selector, the address and the amount. -/
theorem tokenTransfer_withToken (addr : Address) (value : Uint256) :
    (withToken decimal selectorOf datablk fw).tokenTransfer addr value =
      some (callBytes selectorOf "transfer"
        [⟨"_to", .address addr⟩, uint256Arg "_value" value]) := by
  have h := @tokenCall_eq decimal selectorOf datablk "transfer"
    [⟨"_to", .address addr⟩, uint256Arg "_value" value] rfl
    (by simp [Arg.names, uint256Arg]) (by simp [uint256Arg, ArgValue.isBytes]) (by simp)
  rw [List.flatMap_cons, List.flatMap_cons, List.flatMap_nil, cvalues_uint256Arg] at h
  exact h

/-- What stands in it. -/
theorem callBytes_transfer (addr : Address) (value : Uint256) :
    callBytes selectorOf "transfer" [⟨"_to", .address addr⟩, uint256Arg "_value" value] =
      (leBytes 4 (selectorOf
          ⟨"function", "transfer", [⟨"_to", "address"⟩, ⟨"_value", "uint256"⟩]⟩).toNat).reverse ++
        (List.replicate 12 0 ++ addr.a.toList ++ value.image) := by
  have hword := SolidityAbi.wordOf_ofBE value.length_image
  simp only [callBytes, entryOf, SolidityAbi.encode, SolidityAbi.heads, SolidityAbi.head,
    SolidityAbi.tail, uint256Arg, ArgValue.abi, ArgValue.type, toNat_ofBE_image, hword,
    List.map_cons, List.map_nil, List.flatMap_cons, List.flatMap_nil, List.append_nil]

/-- The other functions have one argument or none. -/
theorem tokenQueries_withToken {data : List UInt8} {owner : Address}
    (h : (withToken decimal selectorOf datablk fw).tokenDecimals = some data ∨
      (withToken decimal selectorOf datablk fw).tokenTotalSupply = some data ∨
      (withToken decimal selectorOf datablk fw).tokenBalanceOf owner = some data) :
    data.length ≤ 36 := by
  have hdecimals := @tokenCall_eq decimal selectorOf datablk "decimals" [] rfl (by simp) (by simp)
    (by simp)
  have hsupply := @tokenCall_eq decimal selectorOf datablk "totalSupply" [] rfl (by simp) (by simp)
    (by simp)
  have hbalance := @tokenCall_eq decimal selectorOf datablk "balanceOf"
    [⟨"_owner", .address owner⟩] rfl (by simp [Arg.names]) (by simp [ArgValue.isBytes]) (by simp)
  have hnone : ∀ method, (callBytes selectorOf method []).length = 4 := fun method =>
    length_callBytes selectorOf fun a ha => absurd ha List.not_mem_nil
  have hone : (callBytes selectorOf "balanceOf" [⟨"_owner", .address owner⟩]).length = 36 :=
    length_callBytes selectorOf fun a ha => List.mem_singleton.mp ha ▸ rfl
  rcases h with h | h | h
  · rw [← Option.some.inj (hdecimals.symm.trans h), hnone]
    decide
  · rw [← Option.some.inj (hsupply.symm.trans h), hnone]
    decide
  · rw [← Option.some.inj (hbalance.symm.trans h), hone]

end

end AnylWallet.Zephyr
