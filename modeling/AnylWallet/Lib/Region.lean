import Mathlib.Data.List.Basic
import Mathlib.Tactic.Common

/-!
# Byte regions: the memory from one pointer on

* `Region` is the memory a C function reaches through one output pointer: a byte at every offset,
  and a mark `top`, one past the highest offset stored to so far. The mark is a ghost: no function
  reads it, and "writes only below `n`" is `top ≤ n`.
* `Region.store` is `memcpy` to an offset and `Region.load` reads bytes back.
* **Stores of neighbouring blocks merge** (`store_append`, `store_before`), in either order, so a
  function that fills a buffer piece by piece is one store of the concatenation. Loads then read
  the concatenation back (`load_store`, `load_store_of_disjoint`).
-/

namespace AnylWallet.Lib

/-- The memory from one pointer on. -/
@[ext] structure Region where
  /-- The byte at each offset. -/
  byte : ℕ → UInt8
  /-- One past the highest offset stored to so far. -/
  top : ℕ

namespace Region

/-- Store the block `bs` from offset `p` on. Storing an empty block is no store at all. -/
def store (m : Region) (p : ℕ) (bs : List UInt8) : Region where
  byte i := if p ≤ i then (bs[i - p]?).getD (m.byte i) else m.byte i
  top := if bs = [] then m.top else max m.top (p + bs.length)

/-- The `n` bytes from offset `p` on. -/
def load (m : Region) (p n : ℕ) : List UInt8 := (List.range n).map fun i => m.byte (p + i)

/-- Copy `n` bytes from offset `src` to offset `dst`; the two blocks may overlap. -/
def move (m : Region) (dst src n : ℕ) : Region := m.store dst (m.load src n)

/-! ## Bytes after a store -/

/-- A byte before the stored block is unchanged. -/
theorem byte_store_of_lt {m : Region} {p i : ℕ} {bs : List UInt8} (h : i < p) :
    (m.store p bs).byte i = m.byte i := by
  simp [store, Nat.not_le.mpr h]

/-- A byte after the stored block is unchanged. -/
theorem byte_store_of_ge {m : Region} {p i : ℕ} {bs : List UInt8} (h : p + bs.length ≤ i) :
    (m.store p bs).byte i = m.byte i := by
  have hi : bs[i - p]? = none := List.getElem?_eq_none (by omega)
  simp [store, hi]

/-- A byte of the stored block. -/
theorem byte_store_add (m : Region) (p : ℕ) {i : ℕ} {bs : List UInt8} (h : i < bs.length) :
    (m.store p bs).byte (p + i) = bs[i] := by
  simp [store, List.getElem?_eq_getElem h]

/-- The mark after a store. -/
theorem top_store (m : Region) (p : ℕ) (bs : List UInt8) :
    (m.store p bs).top = if bs = [] then m.top else max m.top (p + bs.length) := rfl

/-- A store never lowers the mark. -/
theorem top_le_top_store (m : Region) (p : ℕ) (bs : List UInt8) : m.top ≤ (m.store p bs).top := by
  rw [top_store]
  split <;> omega

/-- The mark stays below a bound that the store keeps to. -/
theorem top_store_le {m : Region} {p n : ℕ} {bs : List UInt8} (hm : m.top ≤ n)
    (h : p + bs.length ≤ n) : (m.store p bs).top ≤ n := by
  rw [top_store]
  split <;> omega

/-- A non-empty store reaches its end. -/
theorem le_top_store {m : Region} {p : ℕ} {bs : List UInt8} (h : bs ≠ []) :
    p + bs.length ≤ (m.store p bs).top := by
  rw [top_store, if_neg h]
  exact Nat.le_max_right _ _

/-! ## Merging stores -/

@[simp] theorem store_nil (m : Region) (p : ℕ) : m.store p [] = m :=
  Region.ext (funext fun i => by simp [store]) (by simp [store])

/-- Two neighbouring blocks, the left one stored first. -/
theorem store_append (m : Region) (p : ℕ) (a b : List UInt8) :
    (m.store p a).store (p + a.length) b = m.store p (a ++ b) := by
  refine Region.ext (funext fun i => ?_) ?_
  · simp only [store]
    by_cases hp : p ≤ i
    · by_cases ha : i - p < a.length
      · rw [List.getElem?_append_left ha]
        simp [hp, show ¬ p + a.length ≤ i by omega]
      · rw [List.getElem?_append_right (by omega)]
        simp only [hp, if_true, show p + a.length ≤ i by omega,
          List.getElem?_eq_none (Nat.not_lt.mp ha), Option.getD_none, Nat.sub_add_eq]
    · simp [hp, show ¬ p + a.length ≤ i by omega]
  · simp only [store, List.append_eq_nil_iff, List.length_append]
    by_cases ha : a = [] <;> by_cases hb : b = [] <;> simp [ha, hb]
    omega

/-- Stores of blocks that do not meet commute. -/
theorem store_comm (m : Region) {p q : ℕ} {a b : List UInt8}
    (h : p + a.length ≤ q ∨ q + b.length ≤ p) :
    (m.store p a).store q b = (m.store q b).store p a := by
  refine Region.ext (funext fun i => ?_) ?_
  · rcases Nat.lt_or_ge i q with hi | hi
    · rw [byte_store_of_lt hi]
      simp only [store, Nat.not_le.mpr hi, if_false]
    · rcases Nat.lt_or_ge i (q + b.length) with hi' | hi'
      · have hout : i < p ∨ p + a.length ≤ i := by omega
        have hcalc : ∀ m' : Region, (m'.store q b).byte i = b[i - q] := by
          intro m'
          have := byte_store_add m' q (show i - q < b.length by omega)
          rwa [Nat.add_sub_cancel' hi] at this
        rcases hout with hout | hout
        · rw [hcalc, byte_store_of_lt hout, hcalc]
        · rw [hcalc, byte_store_of_ge hout, hcalc]
      · rw [byte_store_of_ge hi']
        simp only [store, List.getElem?_eq_none (show b.length ≤ i - q by omega),
          Option.getD_none, ite_self]
  · simp only [store]
    split <;> split <;> omega

/-- Two neighbouring blocks, the right one stored first. -/
theorem store_before (m : Region) (p : ℕ) (a b : List UInt8) :
    (m.store (p + a.length) b).store p a = m.store p (a ++ b) := by
  rw [← store_append]
  exact (store_comm m (Or.inl (Nat.le_refl _))).symm

/-- A later store over the whole of an earlier one hides it. -/
theorem store_store_of_subset (m : Region) {p q : ℕ} {a b : List UInt8} (hq : q ≤ p)
    (h : p + a.length ≤ q + b.length) : (m.store p a).store q b = m.store q b := by
  by_cases ha : a = []
  · rw [ha, store_nil]
  have hpos : 0 < a.length := List.length_pos_iff.mpr ha
  have hb : b ≠ [] := by
    rintro rfl
    rw [List.length_nil] at h
    omega
  refine Region.ext (funext fun i => ?_) ?_
  · rcases Nat.lt_or_ge i q with hi | hi
    · rw [byte_store_of_lt hi, byte_store_of_lt hi, byte_store_of_lt (by omega)]
    · rcases Nat.lt_or_ge i (q + b.length) with hi' | hi'
      · have hin := byte_store_add (m.store p a) q (show i - q < b.length by omega)
        have hin' := byte_store_add m q (show i - q < b.length by omega)
        rw [Nat.add_sub_cancel' hi] at hin hin'
        rw [hin, hin']
      · rw [byte_store_of_ge hi', byte_store_of_ge hi', byte_store_of_ge (by omega)]
  · simp only [store, ha, hb, if_false]
    omega

/-- A block stored over a block of the same length inside a longer one replaces it. -/
theorem store_over (m : Region) {p q : ℕ} {a x b c : List UInt8} (hq : q = p + a.length)
    (hlen : x.length = b.length) :
    (m.store p (a ++ (x ++ c))).store q b = m.store p (a ++ (b ++ c)) := by
  subst hq
  rw [← store_append, ← store_append, ← store_append, ← store_append,
    store_comm _ (Or.inr (by omega)), store_store_of_subset _ (Nat.le_refl _) (by omega), hlen]

/-! ## Loads -/

@[simp] theorem length_load (m : Region) (p n : ℕ) : (m.load p n).length = n := by simp [load]

/-- Loading in two parts. -/
theorem load_add (m : Region) (p a b : ℕ) : m.load p (a + b) = m.load p a ++ m.load (p + a) b := by
  simp [load, List.range_add, Function.comp_def, Nat.add_assoc]

/-- A slice of a load is a load. -/
theorem take_drop_load (m : Region) {p q n len : ℕ} (h : q + n ≤ len) :
    ((m.load p len).drop q).take n = m.load (p + q) n := by
  obtain ⟨rest, rfl⟩ := Nat.exists_eq_add_of_le h
  rw [load_add, load_add, List.append_assoc, List.drop_left' (length_load m p q),
    List.take_left' (length_load m _ n)]

/-- Loads agree where the bytes do. -/
theorem load_congr {m m' : Region} {p n : ℕ} (h : ∀ i, i < n → m.byte (p + i) = m'.byte (p + i)) :
    m.load p n = m'.load p n := by
  apply List.map_congr_left
  intro i hi
  exact h i (List.mem_range.mp hi)

/-- A stored block reads back. -/
theorem load_store (m : Region) (p : ℕ) (bs : List UInt8) :
    (m.store p bs).load p bs.length = bs := by
  apply List.ext_getElem
  · simp
  · intro i _ hi
    simp only [load, List.getElem_map, List.getElem_range]
    exact byte_store_add m p hi

/-- Two stores of blocks of one length leave the same memory only if the blocks are equal. -/
theorem eq_of_store_eq_store {m : Region} {p : ℕ} {a b : List UInt8} (hl : a.length = b.length)
    (h : m.store p a = m.store p b) : a = b := by
  have ha := m.load_store p a
  rw [h, hl, m.load_store] at ha
  exact ha.symm

/-- A block before or after the stored one reads as before. -/
theorem load_store_of_disjoint {m : Region} {p q n : ℕ} {bs : List UInt8}
    (h : q + n ≤ p ∨ p + bs.length ≤ q) : (m.store p bs).load q n = m.load q n := by
  apply load_congr
  intro i hi
  rcases h with h | h
  · exact byte_store_of_lt (by omega)
  · exact byte_store_of_ge (by omega)

/-- The front of a stored block reads back. -/
theorem load_store_take (m : Region) (p : ℕ) {n : ℕ} {bs : List UInt8} (h : n ≤ bs.length) :
    (m.store p bs).load p n = bs.take n := by
  apply List.ext_getElem
  · simp [h]
  · intro i hi _
    simp only [load, List.getElem_map, List.getElem_range, List.getElem_take]
    rw [length_load] at hi
    exact byte_store_add m p (by omega)

/-- Inside one stored block, a load is a slice of it. -/
theorem load_store_slice (m : Region) (p : ℕ) {k n : ℕ} {bs : List UInt8}
    (h : k + n ≤ bs.length) : (m.store p bs).load (p + k) n = (bs.drop k).take n := by
  apply List.ext_getElem
  · simp
    omega
  · intro i hi _
    simp only [load, List.getElem_map, List.getElem_range, List.getElem_take, List.getElem_drop]
    rw [length_load] at hi
    rw [Nat.add_assoc]
    exact byte_store_add m p (by omega)

/-! ## Strings -/

/-- The NUL-terminated string at offset `p`. -/
def HoldsString (m : Region) (p : ℕ) (s : List UInt8) : Prop :=
  (∀ c ∈ s, c ≠ 0) ∧ m.load p (s.length + 1) = s ++ [0]

/-- Its characters and its NUL, byte by byte. -/
theorem holdsString_iff {m : Region} {p : ℕ} {s : List UInt8} :
    m.HoldsString p s ↔ (∀ c ∈ s, c ≠ 0) ∧ (∀ i c, s[i]? = some c → m.byte (p + i) = c) ∧
      m.byte (p + s.length) = 0 := by
  have hload : m.load p (s.length + 1) = m.load p s.length ++ [m.byte (p + s.length)] := by
    rw [load, List.range_succ, List.map_append, List.map_singleton, load]
  have hlen : (m.load p s.length).length = s.length := by
    rw [load, List.length_map, List.length_range]
  have hget : ∀ i (h : i < (m.load p s.length).length), (m.load p s.length)[i] = m.byte (p + i) := by
    intro i h
    simp only [load, List.getElem_map, List.getElem_range]
  unfold HoldsString
  rw [hload]
  refine and_congr_right fun _ => ⟨fun h => ?_, fun ⟨hbytes, hnul⟩ => ?_⟩
  · obtain ⟨hs, hnul⟩ := List.append_inj h hlen
    refine ⟨fun i c hc => ?_, (List.cons.inj hnul).1⟩
    obtain ⟨hi, rfl⟩ := List.getElem?_eq_some_iff.mp hc
    rw [← hget i (hlen.symm ▸ hi)]
    simp only [hs]
  · rw [hnul]
    congr 1
    apply List.ext_getElem hlen
    intro i hi hi'
    rw [hget i hi, hbytes i _ (List.getElem?_eq_getElem hi')]

/-- A string stored with its NUL. -/
theorem holdsString_store (m : Region) (p : ℕ) {s : List UInt8} (h : ∀ c ∈ s, c ≠ 0) :
    (m.store p (s ++ [0])).HoldsString p s := by
  refine ⟨h, ?_⟩
  have hload := m.load_store p (s ++ [0])
  rwa [List.length_append, List.length_singleton] at hload

/-- A string, without its NUL. -/
theorem HoldsString.load {m : Region} {p : ℕ} {s : List UInt8} (h : m.HoldsString p s) :
    m.load p s.length = s := by
  have hload := h.2
  rw [load_add] at hload
  exact (List.append_inj hload (length_load m p s.length)).1

/-- The first NUL ends the string. -/
theorem HoldsString.length_le {m : Region} {p : ℕ} {s t : List UInt8} (hs : m.HoldsString p s)
    (ht : m.HoldsString p t) : t.length ≤ s.length := by
  by_contra hlt
  obtain ⟨-, -, hnul⟩ := holdsString_iff.mp hs
  obtain ⟨hne, hbytes, -⟩ := holdsString_iff.mp ht
  have hget := List.getElem?_eq_getElem (Nat.not_le.mp hlt)
  exact hne _ (List.mem_of_getElem? hget) ((hbytes _ _ hget).symm.trans hnul)

/-- **There is one string at an offset.** -/
theorem HoldsString.unique {m : Region} {p : ℕ} {s t : List UInt8} (hs : m.HoldsString p s)
    (ht : m.HoldsString p t) : s = t := by
  have hlen : s.length = t.length := Nat.le_antisymm (ht.length_le hs) (hs.length_le ht)
  have hload := hs.2.symm.trans (hlen ▸ ht.2)
  exact List.append_cancel_right hload

end Region

end AnylWallet.Lib
