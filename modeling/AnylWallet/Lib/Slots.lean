import AnylWallet.Lib.Region
import Mathlib.Data.List.OfFn

/-!
# A region of words behind a header

* `wordBytes f` is the memory of the words `f 0, f 1, ..`, all of one width. A store of a whole word
  inside it (`Region.store_word`) is `Function.update`, and a load of a word reads it back
  (`Region.load_word`).
* `lastOn key i ops` is the last of a list of operations that is on the slot `i`. It is found from
  the end, and grows with the list by one rule (`lastOn_append_singleton`), so a run that updates
  one slot a step ends with the last operation of every slot.
-/

namespace AnylWallet.Lib

variable {n k : ℕ}

/-! ## Words -/

/-- The memory of `n` words. -/
def wordBytes (f : Fin n → List UInt8) : List UInt8 := (List.ofFn f).flatten

/-- Blocks of one width lie at multiples of it. -/
theorem length_flatten_of_width {ws : List (List UInt8)} (h : ∀ w ∈ ws, w.length = k) :
    ws.flatten.length = k * ws.length := by
  rw [List.length_flatten, List.map_congr_left h, List.map_const',
    List.sum_replicate_nat, Nat.mul_comm]

variable {f : Fin n → List UInt8}

/-- `n` words of width `k`. -/
theorem length_wordBytes (h : ∀ i, (f i).length = k) : (wordBytes f).length = k * n := by
  rw [wordBytes, length_flatten_of_width, List.length_ofFn]
  intro w hw
  obtain ⟨i, rfl⟩ := (List.mem_ofFn' f w).mp hw
  exact h i

/-- The memory of the words, split around one of them. -/
theorem exists_wordBytes_eq (h : ∀ i, (f i).length = k) (i : Fin n) :
    ∃ before after, before.length = k * i ∧ wordBytes f = before ++ (f i ++ after) ∧
      ∀ b, wordBytes (Function.update f i b) = before ++ (b ++ after) := by
  have hi : (i : ℕ) < (List.ofFn f).length := by simp
  refine ⟨((List.ofFn f).take i).flatten, ((List.ofFn f).drop (i + 1)).flatten, ?_, ?_, ?_⟩
  · rw [length_flatten_of_width (k := k), List.length_take, List.length_ofFn,
      Nat.min_eq_left i.isLt.le]
    intro w hw
    obtain ⟨j, rfl⟩ := (List.mem_ofFn' f w).mp (List.mem_of_mem_take hw)
    exact h j
  · have hsplit := List.take_append_drop i (List.ofFn f)
    rw [List.drop_eq_getElem_cons hi, List.getElem_ofFn] at hsplit
    conv_lhs => rw [wordBytes, ← hsplit]
    simp
  · intro b
    have hset : List.ofFn (Function.update f i b) = (List.ofFn f).set i b := by
      apply List.ext_getElem
      · simp
      · intro j hj _
        simp only [List.getElem_ofFn, List.getElem_set, Function.update_apply, Fin.ext_iff,
          eq_comm]
    rw [wordBytes, hset, List.set_eq_take_append_cons_drop, if_pos hi]
    simp

/-- Bytes whose words are those of `f`. -/
theorem wordBytes_eq {bs : List UInt8} (hlen : bs.length = k * n)
    (h : ∀ i : Fin n, (bs.drop (k * i)).take k = f i) : wordBytes f = bs := by
  induction n generalizing bs with
  | zero => simp [wordBytes, List.length_eq_zero_iff.mp hlen]
  | succ n ih =>
      have hrest := @ih (fun i => f i.succ) (bs.drop k)
        (by rw [List.length_drop, hlen, Nat.mul_succ, Nat.add_sub_cancel]) fun i => by
          rw [List.drop_drop, ← h i.succ, Fin.val_succ, Nat.mul_succ, Nat.add_comm]
      have hfirst := h 0
      rw [Fin.val_zero, Nat.mul_zero, List.drop_zero] at hfirst
      rw [wordBytes, List.ofFn_succ, List.flatten_cons, ← hfirst]
      exact (congrArg _ hrest).trans (List.take_append_drop k bs)

namespace Region

/-- **A store inside a word** changes that part of that word only. -/
theorem store_in_word (m : Region) {p q : ℕ} {head a x b c : List UInt8}
    (h : ∀ i, (f i).length = k) (i : Fin n) (hi : f i = a ++ (x ++ c))
    (hq : q = p + head.length + k * i + a.length) (hb : x.length = b.length) :
    (m.store p (head ++ wordBytes f)).store q b =
      m.store p (head ++ wordBytes (Function.update f i (a ++ (b ++ c)))) := by
  obtain ⟨before, after, hlen, hf, hupdate⟩ := exists_wordBytes_eq h i
  have hassoc : ∀ y, head ++ (before ++ ((a ++ (y ++ c)) ++ after)) =
      (head ++ (before ++ a)) ++ (y ++ (c ++ after)) := by simp
  rw [hf, hupdate, hi, hassoc, hassoc]
  refine store_over m ?_ hb
  simp only [List.length_append]
  omega

/-- A store of a whole word. -/
theorem store_word (m : Region) {p q : ℕ} {head b : List UInt8} (h : ∀ i, (f i).length = k)
    (i : Fin n) (hq : q = p + head.length + k * i) (hb : b.length = k) :
    (m.store p (head ++ wordBytes f)).store q b =
      m.store p (head ++ wordBytes (Function.update f i b)) := by
  have hstore := store_in_word (a := []) (x := f i) (c := []) m h i (by simp) hq
    ((h i).trans hb.symm)
  rwa [List.nil_append, List.append_nil] at hstore

/-- A load of a whole word. -/
theorem load_word (m : Region) {p q : ℕ} {head : List UInt8} (h : ∀ i, (f i).length = k)
    (i : Fin n) (hq : q = p + head.length + k * i) :
    (m.store p (head ++ wordBytes f)).load q k = f i := by
  obtain ⟨before, after, hlen, hf, -⟩ := exists_wordBytes_eq h i
  have hpos : q = p + (head ++ before).length := by
    rw [List.length_append]
    omega
  have hdrop : ((head ++ before) ++ (f i ++ after)).drop (head ++ before).length =
      f i ++ after := List.drop_left' rfl
  rw [hf, ← List.append_assoc, hpos, load_store_slice, hdrop, ← h i, List.take_left' rfl]
  have := h i
  simp only [List.length_append]
  omega

end Region

/-! ## Operations on slots -/

section LastOn

variable {ι ω : Type*} [DecidableEq ι] (key : ω → ι)

/-- The last operation on a slot. -/
def lastOn (i : ι) (ops : List ω) : Option ω := ops.reverse.find? fun op => key op = i

@[simp] theorem lastOn_nil (i : ι) : lastOn key i [] = none := rfl

/-- One more operation. -/
theorem lastOn_append_singleton (i : ι) (ops : List ω) (op : ω) :
    lastOn key i (ops ++ [op]) = if key op = i then some op else lastOn key i ops := by
  rw [lastOn, List.reverse_append]
  by_cases h : key op = i
  · simp [h]
  · simp [h, lastOn]

/-- The last operation on a slot is on that slot. -/
theorem key_of_lastOn {i : ι} {ops : List ω} {op : ω} (h : lastOn key i ops = some op) :
    key op = i := by
  simpa using List.find?_some h

/-- The last operation on a slot is one of the operations. -/
theorem mem_of_lastOn {i : ι} {ops : List ω} {op : ω} (h : lastOn key i ops = some op) :
    op ∈ ops :=
  List.mem_reverse.mp (List.mem_of_find?_eq_some h)

/-- Operations on other slots do not count. -/
theorem lastOn_append_of_forall_ne {i : ι} (ops : List ω) {ops' : List ω}
    (h : ∀ op ∈ ops', key op ≠ i) : lastOn key i (ops ++ ops') = lastOn key i ops := by
  induction ops' generalizing ops with
  | nil => rw [List.append_nil]
  | cons op ops' ih =>
      rw [← List.singleton_append, ← List.append_assoc,
        ih (ops ++ [op]) fun op' h' => h op' (List.mem_cons_of_mem op h'),
        lastOn_append_singleton, if_neg (h op List.mem_cons_self)]

end LastOn

end AnylWallet.Lib
