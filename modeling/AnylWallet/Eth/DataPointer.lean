import AnylWallet.Eth.EncodedSize

/-!
# What `tx_encode` writes besides the transaction

Two calls of `tx_encode` whose transactions differ only in where the calldata lies can write different
bytes: in place of no calldata the first byte of the pointer variable is written, and for a number
between `2 ^ 64` and `2 ^ 128` the stack above the argument of `rlp_encode_uint256`.

* `PointerBlind`: any two such calls store and return the same.
* `Apart`: two runs of `tx_encode` have four bytes in a row that differ. Later items keep them
  (`Apart.append`), and one of them is left by `prependHeader` (`Apart.prependHeader`), also where the
  16-bit counter has wrapped.
* `pointerBlind_iff`: the condition.
-/

namespace AnylWallet.Eth

open AnylWallet.Lib AnylWallet.Helpers
open AnylWallet.Lib.Rlp (lenPrefix encodeStr)

/-- Whatever lies on the stacks, a call with the calldata at `p` stores and returns what a call with
the same calldata at `q` does. -/
def PointerBlind (tx : Transaction) (p q : UInt64) (sig : Option Signature) : Prop :=
  ∀ (stk stk' : Stacks) (buf : Region) (bufSize bufSize' : ℕ),
    txEncode stk { tx with data := p } sig buf bufSize =
      txEncode stk' { tx with data := q } sig buf bufSize'

/-- `rlp_encode_uint256` takes its middle branch. -/
def ReadsStack (val : Uint256) : Prop := zero128 val.upper = true ∧ val.lower.upper ≠ 0

/-! ## Calls that agree -/

/-- Otherwise it does not depend on the stack. -/
theorem rlpEncodeUint256_congr {val : Uint256} (h : ¬ ReadsStack val) (stack stack' : ℕ → UInt8)
    (m : Region) (output : ℕ) :
    rlpEncodeUint256 stack m output val = rlpEncodeUint256 stack' m output val := by
  unfold rlpEncodeUint256
  by_cases hu : zero128 val.upper = true
  · have hlow : val.lower.upper = 0 := not_not.mp fun hlow => h ⟨hu, hlow⟩
    rw [if_pos hu, if_pos hu, if_pos hlow, if_pos hlow]
  · rw [if_neg hu, if_neg hu]

/-- Nor does `tx_encode`, if no number takes that branch. -/
theorem txEncode_congr_stacks {tx : Transaction} {sig : Option Signature}
    (hvalue : ¬ ReadsStack tx.value) (hsig : ∀ s ∈ sig, ¬ ReadsStack s.r ∧ ¬ ReadsStack s.s)
    (stk stk' : Stacks) (buf : Region) (bufSize bufSize' : ℕ) :
    txEncode stk tx sig buf bufSize = txEncode stk' tx sig buf bufSize' := by
  have hfields : txEncodeFields stk.value tx buf = txEncodeFields stk'.value tx buf := by
    unfold txEncodeFields
    simp only [rlpEncodeUint256_congr hvalue stk.value stk'.value]
  unfold txEncode
  rw [hfields]
  rcases sig with _ | s
  · rfl
  · obtain ⟨hr, hs⟩ := hsig s rfl
    simp only [txEncodeSignature, rlpEncodeUint256_congr hr stk.r stk'.r,
      rlpEncodeUint256_congr hs stk.s stk'.s]

/-- The byte of a pointer that is written. -/
theorem take_leBytes_pointer (p : UInt64) : (leBytes 8 p.toNat).take 1 = [UInt8.ofNat p.toNat] := rfl

/-- Where calldata is written, or the pointers have one low byte, the pointer does not matter. -/
theorem txEncode_congr_data {tx : Transaction} {p q : UInt64}
    (hvalid : tx.calldata ≠ [] → p ≠ 0 ∧ q ≠ 0)
    (h : tx.calldata ≠ [] ∨ p.toNat % 256 = q.toNat % 256) (stk : Stacks) (sig : Option Signature)
    (buf : Region) (bufSize : ℕ) :
    txEncode stk { tx with data := p } sig buf bufSize =
      txEncode stk { tx with data := q } sig buf bufSize := by
  have hfields : txEncodeFields stk.value { tx with data := p } buf =
      txEncodeFields stk.value { tx with data := q } buf := by
    unfold txEncodeFields Transaction.dataLen
    dsimp only
    by_cases hdata : tx.calldata = []
    · have hlow : UInt8.ofNat p.toNat = UInt8.ofNat q.toNat := by
        apply UInt8.toNat_inj.mp
        rw [UInt8.toNat_ofNat', UInt8.toNat_ofNat']
        exact h.resolve_left (not_not.mpr hdata)
      have hzero : tx.calldata.length = 0 := List.length_eq_zero_iff.mpr hdata
      rw [if_pos (Or.inr hzero), if_pos (Or.inr hzero)]
      simp only [rlpEncodeItem_pointer, take_leBytes_pointer, hlow]
    · obtain ⟨hp, hq⟩ := hvalid hdata
      have hne : tx.calldata.length ≠ 0 := fun h0 => hdata (List.length_eq_zero_iff.mp h0)
      rw [if_neg (not_or.mpr ⟨hp, hne⟩), if_neg (not_or.mpr ⟨hq, hne⟩)]
  unfold txEncode
  rw [hfields]

/-! ## Runs that differ in the stack -/

/-- A writer whose number of bytes is the same everywhere and that leaves what lies below. -/
structure Appends (item : Region → ℕ → Region × ℕ) : Prop where
  /-- The number it returns. -/
  size : ∀ m p m' p', (item m p).2 = (item m' p').2
  /-- The bytes below. -/
  keeps : ∀ m p i, i < p → (item m p).1.byte i = m.byte i

/-- Such is every writer that stores one string. -/
theorem appends_of_eq {item : Region → ℕ → Region × ℕ} {bs : List UInt8}
    (h : ∀ m p, item m p = (m.store p bs, bs.length)) : Appends item := by
  constructor
  · intro m p m' p'
    rw [h, h]
  · intro m p i hi
    rw [h]
    exact Region.byte_store_of_lt hi

/-- `encode_int_to_bytes` stores nothing below. -/
theorem byte_encodeIntLoop {output i : ℕ} (hi : i < output) (sizeTmp val : ℕ) (m : Region) :
    (encodeIntLoop output sizeTmp val m).byte i = m.byte i := by
  induction sizeTmp generalizing val m with
  | zero => rfl
  | succ sizeTmp ih =>
      rw [encodeIntLoop]
      split_ifs
      · rw [ih]
        exact Region.byte_store_of_lt (by omega)
      · rfl

/-- `rlp_encode_item` is such a writer, whatever the length. -/
theorem appends_rlpEncodeItem (input : List UInt8) (inputLen : ℕ) :
    Appends fun m p => rlpEncodeItem m p input inputLen := by
  constructor
  · intro m p m' p'
    simp only [rlpEncodeItem, encodeIntToBytes]
    split_ifs
    · rfl
    · rfl
    · rfl
    · rfl
  · intro m p i hi
    simp only [rlpEncodeItem, encodeIntToBytes]
    split_ifs
    · exact Region.byte_store_of_lt hi
    · exact Region.byte_store_of_lt hi
    · rw [Region.byte_store_of_lt (by omega), Region.byte_store_of_lt hi]
    · rw [Region.byte_store_of_lt (by omega), Region.byte_store_of_lt hi]
      exact byte_encodeIntLoop (by omega) _ _ _

/-- The two runs have got equally far, and four bytes in a row behind the first two differ. -/
structure Apart (st st' : TxOut) : Prop where
  dataP : st.dataP = st'.dataP
  total : st.totalDataLen = st'.totalDataLen
  total_lt : st.totalDataLen < 2 ^ 16
  differ : ∃ p, 3 ≤ p ∧ p + 4 ≤ st.dataP ∧
    ∀ i, p ≤ i → i < p + 4 → st.buf.byte i ≠ st'.buf.byte i

/-- **Later items keep the runs apart.** -/
theorem Apart.append {st st' : TxOut} (h : Apart st st') {item : Region → ℕ → Region × ℕ}
    (hitem : Appends item) : Apart (st.append item) (st'.append item) := by
  obtain ⟨buf, dataP, total⟩ := st
  obtain ⟨buf', dataP', total'⟩ := st'
  obtain ⟨rfl, rfl, -, p, hp, hpast, hdiffer⟩ := h
  dsimp only at hpast hdiffer
  have hsize : (item buf dataP).2 = (item buf' dataP).2 := hitem.size _ _ _ _
  refine ⟨?_, ?_, Nat.mod_lt _ (by norm_num), p, hp, ?_, fun i hi hi4 => ?_⟩
  · simp only [TxOut.append, hsize]
  · simp only [TxOut.append, hsize]
  · simp only [TxOut.append]
    omega
  · simp only [TxOut.append]
    rw [hitem.keeps _ _ _ (by omega), hitem.keeps _ _ _ (by omega)]
    exact hdiffer i hi hi4

/-- The size that is announced for a payload that 16 bits can count. -/
theorem rlpHeaderLen_le {n : ℕ} (h : n < 2 ^ 16) : 1 ≤ rlpHeaderLen n ∧ rlpHeaderLen n ≤ 3 := by
  rw [rlpHeaderLen_eq (by omega)]
  exact length_lenPrefix_le h

/-- A byte behind the header: moved up by its length, or left. -/
theorem byte_prependHeader {st : TxOut} (htotal : st.totalDataLen < 2 ^ 16) {i : ℕ} (hi : 3 ≤ i) :
    (i < st.totalDataLen →
        (prependHeader st).1.byte (rlpHeaderLen st.totalDataLen + i) = st.buf.byte i) ∧
      (rlpHeaderLen st.totalDataLen + st.totalDataLen ≤ i →
        (prependHeader st).1.byte i = st.buf.byte i) := by
  have hheader : (arrayHeader st.totalDataLen).length ≤ 3 := by
    have hbe : (beBytes st.totalDataLen).length ≤ 2 := length_beBytes_le_iff.mpr htotal
    unfold arrayHeader
    split_ifs
    · exact Nat.le_of_ble_eq_true rfl
    · rw [List.length_cons]
      omega
  have hload : (st.buf.load 0 st.totalDataLen).length = st.totalDataLen := by
    rw [Region.load, List.length_map, List.length_range]
  simp only [prependHeader, Region.move,
    rlpEncodeArrayHeader_eq (show st.totalDataLen < 2 ^ 32 by omega)]
  constructor
  · intro hin
    rw [Region.byte_store_of_ge (by omega), Region.byte_store_add _ _ (by omega)]
    simp only [Region.load, List.getElem_map, List.getElem_range, Nat.zero_add]
  · intro hout
    rw [Region.byte_store_of_ge (by omega), Region.byte_store_of_ge (by omega)]

/-- **One of the four bytes is left by the header.** -/
theorem Apart.prependHeader {st st' : TxOut} (h : Apart st st') :
    prependHeader st ≠ prependHeader st' := by
  obtain ⟨-, htotal, hlt, p, hp, -, hdiffer⟩ := h
  intro heq
  have hlt' : st'.totalDataLen < 2 ^ 16 := htotal ▸ hlt
  by_cases hin : p < st.totalDataLen
  · have hbyte := (byte_prependHeader hlt hp).1 hin
    have hbyte' := (byte_prependHeader hlt' hp).1 (htotal ▸ hin)
    rw [← htotal, ← heq, hbyte] at hbyte'
    exact hdiffer p le_rfl (by omega) hbyte'
  · have hheader := (rlpHeaderLen_le hlt).2
    have hbyte := (byte_prependHeader hlt (show 3 ≤ p + 3 by omega)).2 (by omega)
    have hbyte' := (byte_prependHeader hlt' (show 3 ≤ p + 3 by omega)).2 (by
      rw [← htotal]
      omega)
    rw [← heq, hbyte] at hbyte'
    exact hdiffer (p + 3) (by omega) (by omega) hbyte'

/-- A stack of ones. -/
def ones : ℕ → UInt8 := fun _ => 1

/-- A stack of twos. -/
def twos : ℕ → UInt8 := fun _ => 2

/-- **The middle branch sets runs with other stacks apart.** -/
theorem apart_of_readsStack {val : Uint256} (h : ReadsStack val) {st : TxOut} (hst : 2 ≤ st.dataP) :
    Apart (st.append fun m p => rlpEncodeUint256 ones m p val)
      (st.append fun m p => rlpEncodeUint256 twos m p val) := by
  have hstring : ∀ (b : UInt8), encodeStr (uint256String (fun _ => b) val) =
      0x9c :: List.replicate 28 b := by
    intro b
    unfold uint256String
    rw [if_pos h.1, if_neg h.2]
    rfl
  have hrun : ∀ b : UInt8, (st.append fun m p => rlpEncodeUint256 (fun _ => b) m p val) =
      st.push (0x9c :: List.replicate 28 b) := by
    intro b
    rw [← hstring]
    apply TxOut.append_eq_push (fun m p => rlpEncodeUint256_eq _ m p val)
    rw [hstring]
    exact Nat.lt_of_sub_ne_zero (by simp)
  have hbyte : ∀ b : UInt8, ∀ i, st.dataP + 1 ≤ i → i < st.dataP + 5 →
      (st.push (0x9c :: List.replicate 28 b)).buf.byte i = b := by
    intro b i hi hi5
    obtain ⟨k, rfl⟩ := Nat.exists_eq_add_of_le hi
    have hk : k + 1 < (0x9c :: List.replicate 28 b).length := by
      rw [List.length_cons, List.length_replicate]
      omega
    have hget := st.buf.byte_store_add st.dataP hk
    rw [List.getElem_cons_succ, List.getElem_replicate, Nat.add_comm k 1, ← Nat.add_assoc] at hget
    exact hget
  have hones : ones = fun _ => 1 := rfl
  have htwos : twos = fun _ => 2 := rfl
  rw [hones, htwos, hrun, hrun]
  refine ⟨rfl, rfl, Nat.mod_lt _ (by norm_num), st.dataP + 1, by omega, ?_, fun i hi hi5 => ?_⟩
  · simp only [TxOut.push, List.length_cons, List.length_replicate]
    omega
  · rw [hbyte 1 i hi (by omega), hbyte 2 i hi (by omega)]
    decide

/-- The writers of numbers are such writers. -/
theorem appends_rlpEncodeInteger (val : UInt64) : Appends fun m p => rlpEncodeInteger m p val :=
  appends_of_eq fun m p => rlpEncodeInteger_eq m p val

theorem appends_rlpEncodeUint256 (stack : ℕ → UInt8) (val : Uint256) :
    Appends fun m p => rlpEncodeUint256 stack m p val :=
  appends_of_eq fun m p => rlpEncodeUint256_eq stack m p val

/-- So the items of a signature keep runs apart. -/
theorem Apart.txEncodeSignature {st st' : TxOut} (h : Apart st st') (stackR stackS : ℕ → UInt8)
    (sig : Signature) :
    Apart (txEncodeSignature stackR stackS sig st) (txEncodeSignature stackR stackS sig st') := by
  unfold Eth.txEncodeSignature
  apply Apart.append _ (appends_rlpEncodeUint256 _ _)
  apply Apart.append _ (appends_rlpEncodeUint256 _ _)
  exact h.append (appends_rlpEncodeInteger _)

/-- Behind the destination `data_p` has passed 21 bytes. -/
theorem le_dataP_append_to (st : TxOut) (addr : Address) :
    21 ≤ (st.append fun m p => rlpEncodeItem m p addr.a.toList 20).dataP := by
  simp only [TxOut.append, rlpEncodeItem_to, length_encodeStr_to]
  omega

/-- **A value that takes the middle branch** sets the fields apart. -/
theorem apart_txEncodeFields {tx : Transaction} (h : ReadsStack tx.value) (buf : Region) :
    Apart (txEncodeFields ones tx buf) (txEncodeFields twos tx buf) := by
  unfold txEncodeFields
  dsimp only
  split_ifs
  · apply Apart.append _ (appends_rlpEncodeItem _ _)
    exact apart_of_readsStack h (le_trans (by norm_num) (le_dataP_append_to _ _))
  · apply Apart.append _ (appends_rlpEncodeItem _ _)
    exact apart_of_readsStack h (le_trans (by norm_num) (le_dataP_append_to _ _))

/-- No item moves it back. -/
theorem le_dataP_append (st : TxOut) (item : Region → ℕ → Region × ℕ) :
    st.dataP ≤ (st.append item).dataP := Nat.le_add_right _ _

/-- Behind the fields it has passed two bytes as well. -/
theorem two_le_dataP_txEncodeFields (stack : ℕ → UInt8) (tx : Transaction) (buf : Region) :
    2 ≤ (txEncodeFields stack tx buf).dataP := by
  unfold txEncodeFields
  dsimp only
  split_ifs
  · apply le_trans _ (le_dataP_append _ _)
    apply le_trans _ (le_dataP_append _ _)
    exact le_trans (by norm_num) (le_dataP_append_to _ _)
  · apply le_trans _ (le_dataP_append _ _)
    apply le_trans _ (le_dataP_append _ _)
    exact le_trans (by norm_num) (le_dataP_append_to _ _)

/-- **If the stack does not matter, no number takes the middle branch.** -/
theorem not_readsStack_of_blind {tx : Transaction} {sig : Option Signature}
    (h : ∀ (stk stk' : Stacks) (buf : Region) (bufSize : ℕ),
      txEncode stk tx sig buf bufSize = txEncode stk' tx sig buf bufSize) :
    ¬ ReadsStack tx.value ∧ ∀ s ∈ sig, ¬ ReadsStack s.r ∧ ¬ ReadsStack s.s := by
  refine ⟨fun hvalue => ?_, fun s hs => ⟨fun hr => ?_, fun hss => ?_⟩⟩
  · have hsame := h ⟨ones, ones, ones⟩ ⟨twos, ones, ones⟩ ⟨fun _ => 0, 0⟩ 0
    have hfields := apart_txEncodeFields hvalue ⟨fun _ => 0, 0⟩
    rcases sig with _ | s
    · exact hfields.prependHeader hsame
    · exact (hfields.txEncodeSignature ones ones s).prependHeader hsame
  · obtain rfl := Option.mem_def.mp hs
    have hsame := h ⟨ones, ones, ones⟩ ⟨ones, twos, ones⟩ ⟨fun _ => 0, 0⟩ 0
    refine Apart.prependHeader ?_ hsame
    unfold txEncodeSignature
    apply Apart.append _ (appends_rlpEncodeUint256 _ _)
    apply apart_of_readsStack hr
    exact le_trans (two_le_dataP_txEncodeFields _ _ _) (le_dataP_append _ _)
  · obtain rfl := Option.mem_def.mp hs
    have hsame := h ⟨ones, ones, ones⟩ ⟨ones, ones, twos⟩ ⟨fun _ => 0, 0⟩ 0
    refine Apart.prependHeader ?_ hsame
    unfold txEncodeSignature
    apply apart_of_readsStack hss
    apply le_trans _ (le_dataP_append _ _)
    exact le_trans (two_le_dataP_txEncodeFields _ _ _) (le_dataP_append _ _)

/-! ## Runs that differ in the pointer -/

/-- The payload with no calldata: the byte of the pointer stands between bytes that do not depend on
it. -/
theorem exists_writtenBytes (stk : Stacks) {tx : Transaction} (h : tx.calldata = [])
    (sig : Option Signature) :
    ∃ front back : List UInt8, front ≠ [] ∧ ∀ p : UInt64,
      writtenBytes stk { tx with data := p } sig =
        front ++ (encodeStr (itemString [UInt8.ofNat p.toNat]) ++ back) := by
  have hdata : ∀ p : UInt64,
      dataString { tx with data := p } = itemString [UInt8.ofNat p.toNat] := by
    intro p
    exact if_pos (Or.inr (List.length_eq_zero_iff.mpr h))
  obtain ⟨front, hfront, hfields⟩ : ∃ front : List UInt8, front ≠ [] ∧ ∀ p : UInt64,
      fieldBytes stk.value { tx with data := p } =
        front ++ encodeStr (itemString [UInt8.ofNat p.toNat]) := by
    refine ⟨encodeStr (beBytes tx.nonce.toNat) ++ (encodeStr (beBytes tx.gasPrice.toNat) ++
      (encodeStr (beBytes tx.gasLimit.toNat) ++ (encodeStr tx.toAddr.a.toList ++
        encodeStr (uint256String stk.value tx.value)))), ?_, fun p => ?_⟩
    · have hnil := Rlp.encode_ne_nil (.str (beBytes tx.nonce.toNat))
      rw [Rlp.encode] at hnil
      exact List.append_ne_nil_of_left_ne_nil hnil _
    · simp only [fieldBytes, fieldStrings, hdata, List.flatMap_cons, List.flatMap_nil,
        List.append_nil, List.append_assoc]
  rcases sig with _ | s
  · refine ⟨front, [], hfront, fun p => ?_⟩
    rw [writtenBytes, hfields, List.append_nil]
  · refine ⟨front, signatureBytes stk.r stk.s s, hfront, fun p => ?_⟩
    rw [writtenBytes, hfields, List.append_assoc]

/-- A payload is read off what is stored and returned for it, but for its first byte. -/
theorem tail_eq_of_prependHeader {m : Region} {bs bs' : List UInt8} (hbs : bs.length < 2 ^ 16 - 3)
    (hbs' : bs'.length < 2 ^ 16 - 3)
    (h : prependHeader (TxOut.wrote m bs) = prependHeader (TxOut.wrote m bs')) :
    bs.tail = bs'.tail := by
  have hlen : bs.length = bs'.length := by
    have hret := congrArg Prod.snd h
    have hheader := rlpHeaderLen_le (show bs.length < 2 ^ 16 by omega)
    have hheader' := rlpHeaderLen_le (show bs'.length < 2 ^ 16 by omega)
    have hmono : ∀ {a b : ℕ}, a ≤ b → b < 2 ^ 16 → rlpHeaderLen a ≤ rlpHeaderLen b := by
      intro a b hab hb
      rw [rlpHeaderLen_eq (by omega), rlpHeaderLen_eq (by omega)]
      exact length_lenPrefix_mono hab
    simp only [prependHeader, TxOut.wrote, Nat.cast_inj] at hret
    rcases Nat.le_total bs.length bs'.length with hle | hle
    · have := hmono hle (by omega)
      omega
    · have := hmono hle (by omega)
      omega
  by_cases h55 : bs.length = 55
  · rw [prependHeader_55 m h55, prependHeader_55 m (hlen ▸ h55)] at h
    have hstored := Region.eq_of_store_eq_store (by simp [hlen]) (Prod.mk.inj h).1
    exact (List.cons.inj (List.cons.inj hstored).2).2
  · rw [prependHeader_eq m hbs h55, prependHeader_eq m hbs' (hlen ▸ h55), ← hlen] at h
    have hstored := Region.eq_of_store_eq_store (by simp [hlen]) (Prod.mk.inj h).1
    rw [List.append_cancel_left hstored]

/-- Different bytes are written as different strings. -/
theorem itemString_singleton_inj {a b : UInt8} (h : itemString [a] = itemString [b]) : a = b := by
  have hzero : ∀ c : UInt8, itemString [c] = if c = 0 then [] else [c] := by
    intro c
    simp only [itemString, List.cons.injEq, and_true]
  rw [hzero, hzero] at h
  by_cases ha : a = 0
  · by_cases hb : b = 0
    · rw [ha, hb]
    · rw [if_pos ha, if_neg hb] at h
      cases h
  · by_cases hb : b = 0
    · rw [if_neg ha, if_pos hb] at h
      cases h
    · rw [if_neg ha, if_neg hb] at h
      exact (List.cons.inj h).1

/-- **If the pointer does not matter, and there is no calldata, the low bytes agree.** -/
theorem low_eq_of_blind {tx : Transaction} {p q : UInt64} {sig : Option Signature}
    (hdata : tx.calldata = []) (h : PointerBlind tx p q sig) : p.toNat % 256 = q.toNat % 256 := by
  obtain ⟨front, back, hfront, hwritten⟩ := exists_writtenBytes ⟨ones, ones, ones⟩ hdata sig
  have hbound : ∀ p : UInt64,
      (writtenBytes ⟨ones, ones, ones⟩ { tx with data := p } sig).length < 2 ^ 16 - 3 := by
    intro p
    have hfields := @length_fieldBytes_le ones { tx with data := p }
      (show tx.calldata.length ≤ 65000 by simp [hdata])
    rcases sig with _ | s
    · exact lt_of_le_of_lt hfields (by norm_num)
    · have hsig := length_signatureBytes_le ones ones s
      rw [writtenBytes, List.length_append]
      exact lt_of_le_of_lt (Nat.add_le_add hfields hsig) (by norm_num)
  have hrun : ∀ p : UInt64, txEncode ⟨ones, ones, ones⟩ { tx with data := p } sig ⟨fun _ => 0, 0⟩ 0 =
      prependHeader (TxOut.wrote ⟨fun _ => 0, 0⟩
        (writtenBytes ⟨ones, ones, ones⟩ { tx with data := p } sig)) := by
    intro p
    have hitem := @length_dataString_le { tx with data := p }
      (show tx.calldata.length ≤ 65000 by simp [hdata])
    rw [txEncode_eq_prependHeader _ _ (by simp [hdata]), TxOut.push_start]
    · exact lt_trans (hbound p) (by norm_num)
    · have := (length_encodeStr (s := dataString { tx with data := p }) (by omega)).2
      omega
  have hsame := h ⟨ones, ones, ones⟩ ⟨ones, ones, ones⟩ ⟨fun _ => 0, 0⟩ 0 0
  rw [hrun, hrun] at hsame
  have htail := tail_eq_of_prependHeader (hbound p) (hbound q) hsame
  rw [hwritten, hwritten, List.tail_append_of_ne_nil hfront, List.tail_append_of_ne_nil hfront] at htail
  have hencode : Rlp.encode (.str (itemString [UInt8.ofNat p.toNat])) =
      Rlp.encode (.str (itemString [UInt8.ofNat q.toNat])) := by
    rw [Rlp.encode, Rlp.encode]
    exact List.append_cancel_right (List.append_cancel_left htail)
  have hfits : ∀ b : UInt8, Rlp.Fits (.str (itemString [b])) := fun b =>
    lt_of_le_of_lt (length_itemString_le [b]) (by norm_num)
  have hlow := congrArg UInt8.toNat
    (itemString_singleton_inj (Rlp.Item.str.inj (Rlp.encode_inj (hfits _) (hfits _) hencode)))
  rwa [UInt8.toNat_ofNat', UInt8.toNat_ofNat'] at hlow

/-- **When only the transaction matters.** What is encoded does not depend on where the data stand,
or on what the stack holds, unless there are no data, where a byte of the pointer is written, or a
number takes the branch of `rlp_encode_uint256` that reads behind it. -/
theorem pointerBlind_iff (tx : Transaction) (p q : UInt64) (sig : Option Signature)
    (hvalid : tx.calldata ≠ [] → p ≠ 0 ∧ q ≠ 0) :
    PointerBlind tx p q sig ↔
      (tx.calldata ≠ [] ∨ p.toNat % 256 = q.toNat % 256) ∧ ¬ ReadsStack tx.value ∧
        ∀ s ∈ sig, ¬ ReadsStack s.r ∧ ¬ ReadsStack s.s := by
  constructor
  · intro h
    have hlow : tx.calldata ≠ [] ∨ p.toNat % 256 = q.toNat % 256 := by
      by_cases hdata : tx.calldata = []
      · exact Or.inr (low_eq_of_blind hdata h)
      · exact Or.inl hdata
    refine ⟨hlow, @not_readsStack_of_blind { tx with data := p } sig ?_⟩
    intro stk stk' buf bufSize
    rw [h stk stk' buf bufSize bufSize, txEncode_congr_data hvalid hlow]
  · rintro ⟨hlow, hvalue, hsig⟩ stk stk' buf bufSize bufSize'
    rw [txEncode_congr_data hvalid hlow stk sig buf bufSize]
    exact @txEncode_congr_stacks { tx with data := q } sig hvalue hsig stk stk' buf bufSize bufSize'

/-- A transfer with no calldata, and two aligned pointers. -/
theorem pointerBlind_iff_emptyTransfer :
    PointerBlind emptyTransfer 0x20000000 0x20000100 none ↔
      (emptyTransfer.calldata ≠ [] ∨
          (0x20000000 : UInt64).toNat % 256 = (0x20000100 : UInt64).toNat % 256) ∧
        ¬ ReadsStack emptyTransfer.value ∧
          ∀ s ∈ (none : Option Signature), ¬ ReadsStack s.r ∧ ¬ ReadsStack s.s :=
  pointerBlind_iff emptyTransfer 0x20000000 0x20000100 none fun h => absurd rfl h

/-- Counterexample: `NULL` is not written as another pointer is. -/
theorem not_pointerBlind_null : ¬ PointerBlind emptyTransfer 0 0x20000004 none := by
  intro h
  exact absurd (low_eq_of_blind rfl h) (by decide)

end AnylWallet.Eth
