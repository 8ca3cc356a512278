import AnylWallet.Eth.Transaction
import AnylWallet.Helpers.Endian
import AnylWallet.Lib.Slots

/-!
# `eth/data`: the data block of a call

* The writers follow the source: each clears the word it is about and stores its value at an offset
  inside it. `none` is a failed assertion.
* `DataOp` is one call of a writer, `DataOp.run` runs it, and `dataRun` initialises a block and runs
  a list of calls.
* **A block after any calls** (`dataRun_last_written`): the last selector and the padded images of
  the last value of every word, as one store (`blockBytes`). One call updates one part of it
  (`DataOp.run_store`); the run is an induction on the calls (`foldlM_run_store`).
-/

namespace AnylWallet.Eth

open AnylWallet.Lib AnylWallet.Helpers

/-! ## The code -/

/-- `DATA_ITEM_LEN`. Source: `eth/data.h` -/
def dataItemLen : ℕ := 32

/-- `SELECTOR_LEN`. Source: `eth/data.h` -/
def selectorLen : ℕ := 4

/-- `data_block_t`. Source: `eth/data.h` -/
@[ext] structure DataBlock where
  /-- `data_len`, a `size_t`. -/
  dataLen : UInt64
  /-- The memory behind the pointer `data`. -/
  data : Region

/-- `compute_item_index`. Source: `eth/data.c` -/
def computeItemIndex (index : ℕ) : ℕ := (index * dataItemLen + selectorLen) % 2 ^ 64

/-- `swap_uint32`. Source: `eth/data.c` -/
def swapUint32 (val : UInt32) : UInt32 :=
  let val : UInt32 := ((val <<< 8) &&& (0xFF00FF00 : UInt32)) ||| ((val >>> 8) &&& (0xFF00FF : UInt32))
  (val <<< 16) ||| (val >>> 16)

namespace DataBlock

variable (blk : DataBlock)

/-- The block with other memory. -/
def withData (data : Region) : DataBlock := { blk with data := data }

@[simp] theorem withData_dataLen (data : Region) : (blk.withData data).dataLen = blk.dataLen := rfl

@[simp] theorem withData_data (data : Region) : (blk.withData data).data = data := rfl

/-- `data_init`; the difference is taken modulo `2 ^ 64`. Source: `eth/data.c` -/
def dataInit : Option DataBlock :=
  if (blk.dataLen - 4).toNat % dataItemLen = 0 then
    some (blk.withData (blk.data.store 0 (List.replicate blk.dataLen.toNat 0)))
  else none

/-- `data_set_selector`. Source: `eth/data.c` -/
def dataSetSelector (selector : UInt32) : Option DataBlock :=
  if 4 ≤ blk.dataLen then
    some (blk.withData (blk.data.store 0 (leBytes 4 (swapUint32 selector).toNat)))
  else none

/-- `item_clear`. Source: `eth/data.c` -/
def itemClear (idx : ℕ) : DataBlock :=
  blk.withData (blk.data.store (computeItemIndex idx) (List.replicate dataItemLen 0))

/-- `encode_uint`. Source: `eth/data.c` -/
def encodeUint (idx : ℕ) (val : UInt64) : DataBlock :=
  let blk := blk.itemClear idx
  let itemIdx := computeItemIndex idx
  blk.withData (blk.data.store (itemIdx + 3 * 8) (leBytes 8 (endianSwapU64 val).toNat))

/-- `encode_uint128`. Source: `eth/data.c` -/
def encodeUint128 (idx : ℕ) (val : Uint128) : DataBlock :=
  let blk := blk.itemClear idx
  let itemIdx := computeItemIndex idx
  blk.withData (blk.data.store (itemIdx + 16) val.image)

/-- `encode_uint256`. Source: `eth/data.c` -/
def encodeUint256 (idx : ℕ) (val : Uint256) : DataBlock :=
  let blk := blk.itemClear idx
  let itemIdx := computeItemIndex idx
  blk.withData (blk.data.store itemIdx val.image)

/-- `encode_address`. Source: `eth/data.c` -/
def encodeAddress (idx : ℕ) (val : Address) : DataBlock :=
  let blk := blk.itemClear idx
  let itemIdx := computeItemIndex idx
  blk.withData (blk.data.store (itemIdx + (32 - 20)) val.a.toList)

/-- `encode_data`; `data` holds the `data_len` bytes. Source: `eth/data.c` -/
def encodeData (idx : ℕ) (data : List UInt8) : Option DataBlock :=
  if 32 < data.length then none
  else
    let itemIdx := computeItemIndex idx
    if blk.dataLen.toNat ≤ itemIdx then none
    else
      let blk := blk.itemClear idx
      some (blk.withData (blk.data.store itemIdx data))

/-- `decode_uint`; `elements[1]` of the `uint128_t` is its last 8 bytes. Source: `eth/data.c` -/
def decodeUint (idx : ℕ) : Option UInt64 :=
  let itemIdx := computeItemIndex idx
  if blk.dataLen.toNat ≤ itemIdx then none
  else some (endianSwapU64 (UInt64.ofNat (ofLE (blk.data.load (itemIdx + 16 + 8) 8))))

/-- `decode_data`: the memory at `data_out` after it. Source: `eth/data.c` -/
def decodeData (idx : ℕ) (dataOut : Region) (dataOutLen : ℕ) : Option Region :=
  let itemIdx := computeItemIndex idx
  if blk.dataLen.toNat ≤ itemIdx then none
  else some (dataOut.store 0 (blk.data.load itemIdx (min dataOutLen dataItemLen)))

end DataBlock

/-! ## Calls of the writers -/

/-- One call of a writer. -/
inductive DataOp where
  /-- `data_set_selector` -/
  | setSelector (selector : UInt32)
  /-- `encode_uint` -/
  | uint (idx : ℕ) (val : UInt64)
  /-- `encode_uint128` -/
  | uint128 (idx : ℕ) (val : Uint128)
  /-- `encode_uint256` -/
  | uint256 (idx : ℕ) (val : Uint256)
  /-- `encode_address` -/
  | address (idx : ℕ) (val : Address)
  /-- `encode_data` of at most 32 bytes -/
  | data (idx : ℕ) (bytes : { bs : List UInt8 // bs.length ≤ 32 })

namespace DataOp

/-- Run a call. -/
def run (blk : DataBlock) : DataOp → Option DataBlock
  | setSelector selector => blk.dataSetSelector selector
  | uint idx val => some (blk.encodeUint idx val)
  | uint128 idx val => some (blk.encodeUint128 idx val)
  | uint256 idx val => some (blk.encodeUint256 idx val)
  | address idx val => some (blk.encodeAddress idx val)
  | data idx bytes => blk.encodeData idx bytes.1

/-- The part of the block that a call writes to: a word, or the selector. -/
def slot : DataOp → Option ℕ
  | setSelector _ => none
  | uint idx _ | uint128 idx _ | uint256 idx _ | address idx _ | data idx _ => some idx

/-- The call is on one of the first `n` words, or on the selector. -/
def Fits (n : ℕ) (op : DataOp) : Prop := ∀ i ∈ op.slot, i < n

instance (n : ℕ) (op : DataOp) : Decidable (op.Fits n) :=
  inferInstanceAs (Decidable (∀ i ∈ op.slot, i < n))

/-- What a call leaves in its part of the block: the padded image of its value. -/
def image : DataOp → List UInt8
  | setSelector selector => (leBytes 4 selector.toNat).reverse
  | uint _ val => List.replicate 24 0 ++ (leBytes 8 val.toNat).reverse
  | uint128 _ val => List.replicate 16 0 ++ val.image
  | uint256 _ val => val.image
  | address _ val => List.replicate 12 0 ++ val.a.toList
  | data _ bytes => bytes.1 ++ List.replicate (32 - bytes.1.length) 0

/-- An image of a word has its 32 bytes. -/
theorem length_image {op : DataOp} {i : ℕ} (h : op.slot = some i) : op.image.length = 32 := by
  cases op with
  | setSelector selector => cases h
  | uint idx val => simp [image]
  | uint128 idx val => simp [image]
  | uint256 idx val => simp [image]
  | address idx val => simp [image]
  | data idx bytes =>
      have := bytes.2
      simp only [image, List.length_append, List.length_replicate]
      omega

end DataOp

/-- Initialise the block and run the calls. -/
def dataRun (blk : DataBlock) (ops : List DataOp) : Option DataBlock := do
  let blk ← blk.dataInit
  ops.foldlM DataOp.run blk

/-! ## The block after the calls -/

/-- The bytes of a part of the block, by the last call on it. -/
def lastImage (width : ℕ) : Option DataOp → List UInt8
  | none => List.replicate width 0
  | some op => op.image

/-- The selector after the calls. -/
def lastSelector (ops : List DataOp) : List UInt8 := lastImage 4 (lastOn DataOp.slot none ops)

/-- A word after the calls. -/
def lastWord (ops : List DataOp) (i : ℕ) : List UInt8 :=
  lastImage 32 (lastOn DataOp.slot (some i) ops)

/-- The bytes of a block of `n` words after the calls. -/
def blockBytes (n : ℕ) (ops : List DataOp) : List UInt8 :=
  lastSelector ops ++ wordBytes fun i : Fin n => lastWord ops i

theorem length_lastWord (ops : List DataOp) (i : ℕ) : (lastWord ops i).length = 32 := by
  rw [lastWord]
  cases h : lastOn DataOp.slot (some i) ops with
  | none => simp [lastImage]
  | some op => exact op.length_image (key_of_lastOn _ h)

theorem length_lastSelector (ops : List DataOp) : (lastSelector ops).length = 4 := by
  rw [lastSelector]
  cases h : lastOn DataOp.slot none ops with
  | none => simp [lastImage]
  | some op =>
      have hslot := key_of_lastOn _ h
      cases op with
      | setSelector selector => simp [lastImage, DataOp.image]
      | _ => cases hslot

@[simp] theorem length_blockBytes (n : ℕ) (ops : List DataOp) :
    (blockBytes n ops).length = 4 + 32 * n := by
  rw [blockBytes, List.length_append, length_lastSelector,
    length_wordBytes fun i => length_lastWord ops i]

/-- Before any call the block is zero. -/
theorem blockBytes_nil (n : ℕ) : blockBytes n [] = List.replicate (4 + 32 * n) 0 := by
  have hzero : ∀ b ∈ blockBytes n [], b = 0 := by
    intro b hb
    simp only [blockBytes, lastSelector, lastWord, lastOn_nil, lastImage, wordBytes,
      List.mem_append, List.mem_flatten, List.mem_ofFn', Set.mem_range] at hb
    obtain hb | ⟨w, ⟨i, rfl⟩, hb⟩ := hb <;> exact (List.mem_replicate.mp hb).2
  rw [← length_blockBytes n []]
  exact List.eq_replicate_of_mem hzero

/-- A call on the selector. -/
theorem blockBytes_setSelector (n : ℕ) (ops : List DataOp) (selector : UInt32) :
    blockBytes n (ops ++ [.setSelector selector]) =
      (leBytes 4 selector.toNat).reverse ++ wordBytes fun i : Fin n => lastWord ops i := by
  have hword : ∀ i, lastWord (ops ++ [.setSelector selector]) i = lastWord ops i := by
    intro i
    simp [lastWord, lastOn_append_singleton, DataOp.slot]
  simp only [blockBytes, hword]
  rw [lastSelector, lastOn_append_singleton]
  rfl

/-- A call on a word. -/
theorem blockBytes_word {n : ℕ} (ops : List DataOp) {op : DataOp} {i : Fin n}
    (h : op.slot = some (i : ℕ)) :
    blockBytes n (ops ++ [op]) = lastSelector ops ++
      wordBytes (Function.update (fun j : Fin n => lastWord ops j) i op.image) := by
  have hselector : lastSelector (ops ++ [op]) = lastSelector ops := by
    simp [lastSelector, lastOn_append_singleton, h]
  have hword : (fun j : Fin n => lastWord (ops ++ [op]) j) =
      Function.update (fun j : Fin n => lastWord ops j) i op.image := by
    funext j
    rw [lastWord, lastOn_append_singleton, h, Function.update_apply]
    by_cases hj : j = i
    · rw [if_pos (by rw [hj]), if_pos hj]
      rfl
    · rw [if_neg (by simpa [Fin.ext_iff, eq_comm] using hj), if_neg hj]
      rfl
  rw [blockBytes, hselector, hword]

/-! ## One call -/

/-- The selector is stored in big-endian order. -/
theorem leBytes_swapUint32 (val : UInt32) :
    leBytes 4 (swapUint32 val).toNat = (leBytes 4 val.toNat).reverse := by
  apply leBytes_eq_reverse_of_testBit
  intro k hk j hj
  simp only [swapUint32, UInt32.toNat_or, UInt32.toNat_and, UInt32.toNat_shiftLeft,
    UInt32.toNat_shiftRight, Nat.testBit_or, Nat.testBit_and, Nat.testBit_shiftLeft,
    Nat.testBit_shiftRight, Nat.testBit_mod_two_pow, UInt32.toNat_ofNat]
  interval_cases k <;> interval_cases j <;> simp [Nat.testBit]

section Room

variable {n : ℕ} {blk : DataBlock} (hlen : 4 + 32 * n ≤ blk.dataLen.toNat) (m : Region)
include hlen

/-- The place of a word is inside the block. -/
theorem computeItemIndex_eq {i : ℕ} (hi : i < n) : computeItemIndex i = 4 + 32 * i := by
  have hlt := blk.dataLen.toNat_lt
  simp only [computeItemIndex, dataItemLen, selectorLen]
  omega

/-- The place of a word passes the check of `encode_data` and of the decoders. -/
theorem not_dataLen_le {i : ℕ} (hi : i < n) : ¬ blk.dataLen.toNat ≤ computeItemIndex i := by
  rw [computeItemIndex_eq hlen hi]
  omega

/-- Clear a word and store a value inside it. -/
theorem store_itemClear (ops : List DataOp) (i : Fin n) {p : ℕ} {b : List UInt8}
    (hp : p + b.length ≤ 32) :
    ((blk.withData (m.store 0 (blockBytes n ops))).itemClear i).data.store
        (computeItemIndex i + p) b =
      m.store 0 (lastSelector ops ++
        wordBytes (Function.update (fun j : Fin n => lastWord ops j) i
          (List.replicate p 0 ++ (b ++ List.replicate (32 - (p + b.length)) 0)))) := by
  have hplace := computeItemIndex_eq hlen i.isLt
  have hclear : (m.store 0 (lastSelector ops ++ wordBytes fun j : Fin n => lastWord ops j)).store
      (0 + (lastSelector ops).length + 32 * i) (List.replicate 32 0) = _ :=
    m.store_word (fun j => length_lastWord ops j) i rfl List.length_replicate
  rw [length_lastSelector, Nat.zero_add, ← hplace] at hclear
  have hwidth : ∀ j, (Function.update (fun j : Fin n => lastWord ops j) i
      (List.replicate 32 0) j).length = 32 := by
    intro j
    rw [Function.update_apply]
    split
    · exact List.length_replicate
    · exact length_lastWord ops j
  have hsplit : Function.update (fun j : Fin n => lastWord ops j) i (List.replicate 32 0) i =
      List.replicate p 0 ++
        (List.replicate b.length 0 ++ List.replicate (32 - (p + b.length)) 0) := by
    rw [Function.update_self, List.replicate_append_replicate, List.replicate_append_replicate]
    congr 1
    omega
  have hstore : (m.store 0 (lastSelector ops ++ wordBytes (Function.update
      (fun j : Fin n => lastWord ops j) i (List.replicate 32 0)))).store (computeItemIndex i + p) b =
      _ :=
    m.store_in_word hwidth i hsplit
      (by rw [length_lastSelector, List.length_replicate, Nat.zero_add, ← hplace])
      List.length_replicate
  rw [Function.update_idem] at hstore
  rw [DataBlock.itemClear, blockBytes]
  simp only [DataBlock.withData, dataItemLen]
  rw [hclear, hstore]

/-- **One call** changes its part of the block and nothing else. -/
theorem DataOp.run_store (ops : List DataOp) {op : DataOp} (hfits : op.Fits n) :
    op.run (blk.withData (m.store 0 (blockBytes n ops))) =
      some (blk.withData (m.store 0 (blockBytes n (ops ++ [op])))) := by
  have hword : ∀ {i p : ℕ} {b : List UInt8}, p + b.length ≤ 32 → op.slot = some i →
      op.image = List.replicate p 0 ++ (b ++ List.replicate (32 - (p + b.length)) 0) →
      ((blk.withData (m.store 0 (blockBytes n ops))).itemClear i).data.store
        (computeItemIndex i + p) b = m.store 0 (blockBytes n (ops ++ [op])) := by
    intro i p b hp hslot himage
    have hstore := store_itemClear hlen m ops ⟨i, hfits i hslot⟩ hp
    rw [← himage, ← blockBytes_word ops hslot] at hstore
    exact hstore
  cases op with
  | setSelector selector =>
      have hfour : 4 ≤ (blk.withData (m.store 0 (blockBytes n ops))).dataLen := by
        rw [UInt64.le_iff_toNat_le]
        exact (Nat.le_add_right 4 (32 * n)).trans hlen
      have hstore := m.store_over (p := 0) (a := []) (x := lastSelector ops)
        (b := leBytes 4 (swapUint32 selector).toNat)
        (c := wordBytes fun j : Fin n => lastWord ops j) rfl
        (by rw [length_lastSelector, length_leBytes])
      rw [List.nil_append, List.nil_append, leBytes_swapUint32, ← blockBytes_setSelector] at hstore
      simp only [run, DataBlock.dataSetSelector, if_pos hfour]
      rw [leBytes_swapUint32]
      exact congrArg (fun r => some (blk.withData r)) hstore
  | uint i val =>
      refine congrArg (fun r => some (blk.withData r)) (hword ?_ rfl ?_)
      · simp
      · simp [image, leBytes_endianSwapU64]
  | uint128 i val =>
      refine congrArg (fun r => some (blk.withData r)) (hword ?_ rfl ?_)
      · simp
      · simp [image]
  | uint256 i val =>
      refine congrArg (fun r => some (blk.withData r)) (hword (p := 0) ?_ rfl ?_)
      · simp
      · simp [image]
  | address i val =>
      refine congrArg (fun r => some (blk.withData r)) (hword ?_ rfl ?_)
      · simp
      · simp [image]
  | data i bytes =>
      simp only [run, DataBlock.encodeData, if_neg (Nat.not_lt.mpr bytes.2)]
      rw [DataBlock.withData_dataLen, if_neg (not_dataLen_le hlen (hfits i rfl))]
      refine congrArg (fun r => some (blk.withData r)) (hword (p := 0) ?_ rfl ?_)
      · simpa using bytes.2
      · simp [image]

/-- The calls of a list, one after the other. -/
theorem foldlM_run_store (done : List DataOp) {ops : List DataOp} (hops : ∀ op ∈ ops, op.Fits n) :
    ops.foldlM DataOp.run (blk.withData (m.store 0 (blockBytes n done))) =
      some (blk.withData (m.store 0 (blockBytes n (done ++ ops)))) := by
  induction ops generalizing done with
  | nil => simp
  | cons op ops ih =>
      rw [List.foldlM_cons, DataOp.run_store hlen m done (hops op List.mem_cons_self),
        Option.bind_eq_bind, Option.bind_some,
        ih (done ++ [op]) fun op' h => hops op' (List.mem_cons_of_mem op h),
        List.append_assoc, List.singleton_append]

/-! ## Reading the words back -/

/-- A word of the block after the calls. -/
theorem load_lastWord (ops : List DataOp) {i : ℕ} (hi : i < n) :
    (m.store 0 (blockBytes n ops)).load (computeItemIndex i) 32 = lastWord ops i := by
  rw [computeItemIndex_eq hlen hi, blockBytes]
  exact m.load_word (fun j : Fin n => length_lastWord ops j) ⟨i, hi⟩
    (by rw [length_lastSelector, Nat.zero_add])

/-- `decode_uint` at a word that was last written by `encode_uint`. -/
theorem decodeUint_store {ops : List DataOp} {i j : ℕ} {val : UInt64} (hi : i < n)
    (h : lastOn DataOp.slot (some i) ops = some (.uint j val)) :
    (blk.withData (m.store 0 (blockBytes n ops))).decodeUint i = some val := by
  have hload := load_lastWord hlen m ops hi
  have hword : lastWord ops i = List.replicate 24 0 ++ leBytes 8 (endianSwapU64 val).toNat := by
    rw [lastWord, h, leBytes_endianSwapU64]
    rfl
  rw [hword, show (32 : ℕ) = 24 + 8 from rfl, Region.load_add] at hload
  have htail := List.append_inj_right hload (by simp)
  have hread : ofLE ((m.store 0 (blockBytes n ops)).load (computeItemIndex i + 16 + 8) 8) =
      (endianSwapU64 val).toNat := by
    rw [Nat.add_assoc, htail, ofLE_leBytes]
    exact lt_of_lt_of_eq (UInt64.toNat_lt _) (by norm_num)
  rw [DataBlock.decodeUint, DataBlock.withData_dataLen, if_neg (not_dataLen_le hlen hi)]
  simp only [DataBlock.withData_data, hread, UInt64.ofNat_toNat, endianSwapU64_endianSwapU64]

/-- `decode_data` of 32 bytes at a word. -/
theorem decodeData_store (ops : List DataOp) {i : ℕ} (hi : i < n) (dataOut : Region) :
    (blk.withData (m.store 0 (blockBytes n ops))).decodeData i dataOut 32 =
      some (dataOut.store 0 (lastWord ops i)) := by
  rw [DataBlock.decodeData, DataBlock.withData_dataLen, if_neg (not_dataLen_le hlen hi),
    DataBlock.withData_data, dataItemLen, Nat.min_self, load_lastWord hlen m ops hi]

end Room

/-! ## A block of its own size -/

section Run

variable {n : ℕ} {blk : DataBlock} (hlen : blk.dataLen.toNat = 4 + 32 * n) {ops : List DataOp}
  (hops : ∀ op ∈ ops, op.Fits n)
include hlen hops

/-- The block after any calls, as one store. -/
theorem dataRun_eq :
    dataRun blk ops = some (blk.withData (blk.data.store 0 (blockBytes n ops))) := by
  have hinit : blk.dataInit = some (blk.withData (blk.data.store 0 (blockBytes n []))) := by
    have hmod : (blk.dataLen - 4).toNat % dataItemLen = 0 := by
      have hlt := blk.dataLen.toNat_lt
      rw [UInt64.toNat_sub, hlen]
      simp only [dataItemLen, UInt64.reduceToNat]
      omega
    rw [DataBlock.dataInit, if_pos hmod, blockBytes_nil, hlen]
  rw [dataRun, hinit, Option.bind_eq_bind, Option.bind_some,
    foldlM_run_store hlen.ge blk.data [] hops, List.nil_append]

/-- **The law of the writers.** After any calls the block is the last selector followed by the
padded images of the last values, nothing behind the block has changed, and the decoders give back
what was last encoded. -/
theorem dataRun_last_written :
    ∃ after, dataRun blk ops = some after ∧
      after.data.load 0 (4 + 32 * n) =
        lastSelector ops ++ (wordBytes fun i : Fin n => lastWord ops i) ∧
      (∀ p, 4 + 32 * n ≤ p → after.data.byte p = blk.data.byte p) ∧
      (∀ i val, lastOn DataOp.slot (some i) ops = some (.uint i val) →
        after.decodeUint i = some val) ∧
      ∀ i bytes dataOut, lastOn DataOp.slot (some i) ops = some (.data i bytes) →
        (after.decodeData i dataOut 32).map (fun out => out.load 0 32) =
          some (bytes.1 ++ List.replicate (32 - bytes.1.length) 0) := by
  have hidx : ∀ {i op}, lastOn DataOp.slot (some i) ops = some op → i < n := fun h =>
    hops _ (mem_of_lastOn _ h) _ (key_of_lastOn _ h)
  refine ⟨_, dataRun_eq hlen hops, ?_, ?_, ?_, ?_⟩
  · rw [← length_blockBytes n ops]
    exact blk.data.load_store 0 (blockBytes n ops)
  · intro p hp
    exact Region.byte_store_of_ge (by rwa [length_blockBytes, Nat.zero_add])
  · intro i val h
    exact decodeUint_store hlen.ge blk.data (hidx h) h
  · intro i bytes dataOut h
    have hword : lastWord ops i = bytes.1 ++ List.replicate (32 - bytes.1.length) 0 := by
      rw [lastWord, h]
      rfl
    have hload := dataOut.load_store 0 (lastWord ops i)
    rw [length_lastWord] at hload
    rw [decodeData_store hlen.ge blk.data ops (hidx h), Option.map_some, hload, hword]

end Run

/-- A block of two words: the second value of word 1 replaces the first one, word 0 stays zero. -/
theorem dataRun_last_written_twoWords :
    ∃ after, dataRun ⟨68, ⟨fun _ => 0xff, 0⟩⟩
        [.uint 1 7, .setSelector 0xa9059cbb, .data 1 ⟨[1, 2], by decide⟩] = some after ∧
      after.data.load 0 68 =
        [0xa9, 0x05, 0x9c, 0xbb] ++ List.replicate 32 0 ++ ([1, 2] ++ List.replicate 30 0) := by
  obtain ⟨after, hrun, hload, -⟩ := @dataRun_last_written 2 ⟨68, ⟨fun _ => 0xff, 0⟩⟩ (by decide)
    [.uint 1 7, .setSelector 0xa9059cbb, .data 1 ⟨[1, 2], by decide⟩] (by decide)
  exact ⟨after, hrun, hload.trans (by decide)⟩

end AnylWallet.Eth
