import AnylWallet.Helpers.Uint256Arith

/-!
# `helpers/uint256`: the shifts, store by store

`bits256` and the divisions shift a number in place: `target` is the operand. Here a number is an object
in a memory of words, its upper word first, and the functions are written with their stores in the order
of the source.

* `Objects`: two numbers are the same object, or they do not meet.
* `shiftl128At_eq`, `shiftl256At_eq`, `shiftr256At_eq`: what is stored is what the functions without a
  memory return, in place too. `shiftr128At_eq`: except in place by 64, where the upper word is
  overwritten before it is read (`shiftr128At_in_place`).
* `shiftsStored_iff`: when the four functions store the shifted number.
-/

namespace AnylWallet.Helpers

open AnylWallet.Lib

/-! ## Objects -/

/-- A memory of words of 64 bits. -/
abbrev Words := ℕ → UInt64

/-- Store a word. -/
def Words.set (m : Words) (p : ℕ) (w : UInt64) : Words := Function.update m p w

/-- A word holds what has been stored in it. -/
@[simp] theorem Words.set_self (m : Words) (p : ℕ) (w : UInt64) : m.set p w p = w := by
  rw [Words.set, Function.update_self]

/-- The other words hold what they held. -/
theorem Words.set_of_ne {p q : ℕ} (h : q ≠ p) (m : Words) (w : UInt64) : m.set p w q = m q := by
  rw [Words.set, Function.update_of_ne h]

/-- Stores in two words may change places. -/
theorem Words.set_comm {p q : ℕ} (h : p ≠ q) (m : Words) (v w : UInt64) :
    (m.set p v).set q w = (m.set q w).set p v := by
  simp only [Words.set, Function.update_comm h]

/-- The `uint128_t` at an address. -/
def read128 (m : Words) (p : ℕ) : Uint128 := ⟨m p, m (p + 1)⟩

/-- The `uint256_t` at an address. -/
def read256 (m : Words) (p : ℕ) : Uint256 := ⟨read128 m p, read128 m (p + 2)⟩

/-- Store a `uint128_t`. -/
def write128 (m : Words) (p : ℕ) (x : Uint128) : Words := (m.set p x.upper).set (p + 1) x.lower

/-- Store a `uint256_t`. -/
def write256 (m : Words) (p : ℕ) (x : Uint256) : Words :=
  write128 (write128 m p x.upper) (p + 2) x.lower

/-- Two objects of this size are the same one, or they do not meet. -/
def Objects (size number target : ℕ) : Prop :=
  number = target ∨ number + size ≤ target ∨ target + size ≤ number

/-- A `uint128_t` that has been stored is read back. -/
@[simp] theorem read128_write128 (m : Words) (p : ℕ) (x : Uint128) :
    read128 (write128 m p x) p = x := by
  rw [read128, write128, Words.set_self, Words.set_of_ne (by omega), Words.set_self]

/-- A store elsewhere. -/
theorem read128_write128_of_ne {p q : ℕ} (h : q + 2 ≤ p ∨ p + 2 ≤ q) (m : Words) (x : Uint128) :
    read128 (write128 m p x) q = read128 m q := by
  unfold read128 write128
  rw [Words.set_of_ne (by omega), Words.set_of_ne (by omega), Words.set_of_ne (by omega),
    Words.set_of_ne (by omega)]

/-- Stores of objects that do not meet commute. -/
theorem write128_comm {p q : ℕ} (h : q + 2 ≤ p ∨ p + 2 ≤ q) (m : Words) (x y : Uint128) :
    write128 (write128 m p x) q y = write128 (write128 m q y) p x := by
  unfold write128
  rw [Words.set_comm (show p + 1 ≠ q by omega), Words.set_comm (show p ≠ q by omega),
    Words.set_comm (show p + 1 ≠ q + 1 by omega), Words.set_comm (show p ≠ q + 1 by omega)]

/-- A `uint256_t` is stored by its halves. -/
theorem write256_mk (m : Words) (p : ℕ) (upper lower : Uint128) :
    write256 m p ⟨upper, lower⟩ = write128 (write128 m p upper) (p + 2) lower := rfl

/-- It is read back. -/
@[simp] theorem read256_write256 (m : Words) (p : ℕ) (x : Uint256) :
    read256 (write256 m p x) p = x := by
  rw [read256, write256, read128_write128, read128_write128_of_ne (by omega), read128_write128]

/-! ## The code -/

/-- `copy128`. Source: `helpers/uint256.c` -/
def copy128At (m : Words) (target number : ℕ) : Words :=
  let m := m.set target (m number)
  m.set (target + 1) (m (number + 1))

/-- `copy256`. Source: `helpers/uint256.c` -/
def copy256At (m : Words) (target number : ℕ) : Words :=
  let m := copy128At m target number
  copy128At m (target + 2) (number + 2)

/-- `clear128`. Source: `helpers/uint256.c` -/
def clear128At (m : Words) (target : ℕ) : Words :=
  let m := m.set target 0
  m.set (target + 1) 0

/-- `clear256`. Source: `helpers/uint256.c` -/
def clear256At (m : Words) (target : ℕ) : Words :=
  let m := clear128At m target
  clear128At m (target + 2)

/-- `shiftl128`. Source: `helpers/uint256.c` -/
def shiftl128At (m : Words) (number value target : ℕ) : Words :=
  if value ≥ 128 then clear128At m target
  else if value = 64 then
    let m := m.set target (m (number + 1))
    m.set (target + 1) 0
  else if value = 0 then copy128At m target number
  else if value < 64 then
    let m := m.set target
      ((m number <<< UInt64.ofNat value) + (m (number + 1) >>> UInt64.ofNat (64 - value)))
    m.set (target + 1) (m (number + 1) <<< UInt64.ofNat value)
  else
    let m := m.set target (m (number + 1) <<< UInt64.ofNat (value - 64))
    m.set (target + 1) 0

/-- `shiftr128`; `result` is a local object. Source: `helpers/uint256.c` -/
def shiftr128At (m : Words) (number value target : ℕ) : Words :=
  if value ≥ 128 then clear128At m target
  else if value = 64 then
    let m := m.set target 0
    m.set (target + 1) (m number)
  else if value = 0 then copy128At m target number
  else if value < 64 then
    let result : Uint128 := ⟨m number >>> UInt64.ofNat value,
      (m number <<< UInt64.ofNat (64 - value)) + (m (number + 1) >>> UInt64.ofNat value)⟩
    write128 m target result
  else
    let m := m.set (target + 1) (m number >>> UInt64.ofNat (value - 64))
    m.set target 0

/-- `shiftl256`; `tmp1`, `tmp2` and `result` are local objects. Source: `helpers/uint256.c` -/
def shiftl256At (m : Words) (number value target : ℕ) : Words :=
  if value ≥ 256 then clear256At m target
  else if value = 128 then
    let m := copy128At m target (number + 2)
    clear128At m (target + 2)
  else if value = 0 then copy256At m target number
  else if value < 128 then
    let tmp1 := shiftl128 (read128 m number) value
    let tmp2 := shiftr128 (read128 m (number + 2)) (128 - value)
    let result : Uint256 := ⟨add128 tmp1 tmp2, shiftl128 (read128 m (number + 2)) value⟩
    write256 m target result
  else
    let m := shiftl128At m (number + 2) (value - 128) target
    clear128At m (target + 2)

/-- `shiftr256`; `tmp1`, `tmp2` and `result` are local objects. Source: `helpers/uint256.c` -/
def shiftr256At (m : Words) (number value target : ℕ) : Words :=
  if value ≥ 256 then clear256At m target
  else if value = 128 then
    let m := copy128At m (target + 2) number
    clear128At m target
  else if value = 0 then copy256At m target number
  else if value < 128 then
    let tmp1 := shiftr128 (read128 m (number + 2)) value
    let tmp2 := shiftl128 (read128 m number) (128 - value)
    let result : Uint256 := ⟨shiftr128 (read128 m number) value, add128 tmp1 tmp2⟩
    write256 m target result
  else
    let m := shiftr128At m number (value - 128) (target + 2)
    clear128At m target

/-! ## What is stored -/

section

variable (m : Words) {number target : ℕ}

/-- `copy128` stores the number of its source, if the two objects are one or apart. -/
theorem copy128At_eq (h : Objects 2 number target) :
    copy128At m target number = write128 m target (read128 m number) := by
  unfold Objects at h
  rw [copy128At, write128, read128]
  dsimp only
  rw [Words.set_of_ne (show number + 1 ≠ target by omega)]

/-- `clear128` stores 0. -/
theorem clear128At_eq (target : ℕ) : clear128At m target = write128 m target clear128 := rfl

/-- `clear256` stores 0. -/
theorem clear256At_eq (target : ℕ) : clear256At m target = write256 m target clear256 := rfl

/-- `copy256` stores the number of its source, if the two objects are one or apart. -/
theorem copy256At_eq (h : Objects 4 number target) :
    copy256At m target number = write256 m target (read256 m number) := by
  unfold Objects at h
  have hupper := @copy128At_eq m number target (by unfold Objects; omega)
  have hlower := @copy128At_eq (write128 m target (read128 m number)) (number + 2) (target + 2)
    (by unfold Objects; omega)
  rw [copy256At, hupper, hlower, read128_write128_of_ne (by omega)]
  rfl

/-- **`shiftl128` in place or not.** -/
theorem shiftl128At_eq (h : Objects 2 number target) (value : ℕ) :
    shiftl128At m number value target =
      write128 m target (shiftl128 (read128 m number) value) := by
  have hcopy := copy128At_eq m h
  unfold Objects at h
  unfold shiftl128At shiftl128
  split
  · exact clear128At_eq m target
  split
  · rfl
  split
  · exact hcopy
  split
  · -- the lower word is read after the upper one has been stored
    have hread : ∀ w, (m.set target w) (number + 1) = m (number + 1) :=
      Words.set_of_ne (by omega) m
    dsimp only
    rw [hread]
    rfl
  · rfl

/-- **`shiftr128`, unless it is in place and by 64.** -/
theorem shiftr128At_eq (h : Objects 2 number target) {value : ℕ}
    (hne : ¬ (number = target ∧ value = 64)) :
    shiftr128At m number value target =
      write128 m target (shiftr128 (read128 m number) value) := by
  have hcopy := copy128At_eq m h
  unfold Objects at h
  unfold shiftr128At shiftr128
  split
  · exact clear128At_eq m target
  split
  · rename_i h64
    have hread : ∀ w, (m.set target w) number = m number := Words.set_of_ne (by omega) m
    dsimp only
    rw [hread]
    rfl
  split
  · exact hcopy
  split
  · rfl
  · exact Words.set_comm (by omega) m _ _

/-- In place and by 64, `shiftr128` loses the upper word. -/
theorem shiftr128At_in_place (p : ℕ) : shiftr128At m p 64 p = write128 m p clear128 := by
  unfold shiftr128At
  rw [if_neg (by decide), if_pos rfl]
  dsimp only
  rw [Words.set_self]
  rfl

/-- **`shiftl256` in place or not.** -/
theorem shiftl256At_eq (h : Objects 4 number target) (value : ℕ) :
    shiftl256At m number value target =
      write256 m target (shiftl256 (read256 m number) value) := by
  have hcopy := copy256At_eq m h
  unfold Objects at h
  -- the lower half of the operand and the upper one of the target
  have hhalf : Objects 2 (number + 2) target := by
    unfold Objects
    omega
  unfold shiftl256At shiftl256
  split
  · exact clear256At_eq m target
  split
  · dsimp only
    rw [copy128At_eq m hhalf]
    rfl
  split
  · exact hcopy
  split
  · rfl
  · dsimp only
    rw [shiftl128At_eq m hhalf, clear128At_eq, write256_mk, read256]

/-- **`shiftr256` in place or not.** -/
theorem shiftr256At_eq (h : Objects 4 number target) (value : ℕ) :
    shiftr256At m number value target =
      write256 m target (shiftr256 (read256 m number) value) := by
  have hcopy := copy256At_eq m h
  unfold Objects at h
  have hhalf : Objects 2 number (target + 2) := by
    unfold Objects
    omega
  -- the lower half is stored first
  have hswap : ∀ x : Uint128, clear128At (write128 m (target + 2) x) target =
      write256 m target ⟨clear128, x⟩ := by
    intro x
    rw [clear128At_eq, write256_mk]
    exact write128_comm (Or.inl le_rfl) m x clear128
  unfold shiftr256At shiftr256
  split
  · exact clear256At_eq m target
  split
  · dsimp only
    rw [copy128At_eq m hhalf, hswap]
    rfl
  split
  · exact hcopy
  split
  · rfl
  · dsimp only
    rw [shiftr128At_eq m hhalf (by omega), hswap, read256]

end

/-! ## The shifted number -/

/-- The four functions store the number shifted by `value` at `target`, which is the operand or does not
meet it. -/
structure ShiftsStored (m : Words) (number value target : ℕ) : Prop where
  shiftl128 : Objects 2 number target →
    (read128 (shiftl128At m number value target) target).toNat =
      (read128 m number).toNat * 2 ^ value % 2 ^ 128
  shiftl256 : Objects 4 number target →
    (read256 (shiftl256At m number value target) target).toNat =
      (read256 m number).toNat * 2 ^ value % 2 ^ 256
  shiftr128 : Objects 2 number target →
    (read128 (shiftr128At m number value target) target).toNat =
      (read128 m number).toNat / 2 ^ value
  shiftr256 : Objects 4 number target →
    (read256 (shiftr256At m number value target) target).toNat =
      (read256 m number).toNat / 2 ^ value

/-- **When the shifted numbers are stored**: always, but for `shiftr128` in place by 64 on a number that
does not fit in a word. -/
theorem shiftsStored_iff (m : Words) (number value target : ℕ) :
    ShiftsStored m number value target ↔
      ¬ (number = target ∧ value = 64 ∧ 2 ^ 64 ≤ (read128 m number).toNat) := by
  constructor
  · rintro h ⟨rfl, rfl, hbig⟩
    have hshift := h.shiftr128 (Or.inl rfl)
    rw [shiftr128At_in_place, read128_write128, toNat_clear128] at hshift
    have hpos := Nat.div_pos hbig (Nat.two_pow_pos 64)
    omega
  · intro h
    refine ⟨fun hobj => ?_, fun hobj => ?_, fun hobj => ?_, fun hobj => ?_⟩
    · rw [shiftl128At_eq m hobj, read128_write128]
      exact toNat_shiftl128 _ _
    · rw [shiftl256At_eq m hobj, read256_write256]
      exact toNat_shiftl256 _ _
    · by_cases hplace : number = target ∧ value = 64
      · -- the upper word is lost, but it is zero
        obtain ⟨rfl, rfl⟩ := hplace
        have hsmall : (read128 m number).toNat < 2 ^ 64 :=
          Nat.not_le.mp fun hbig => h ⟨rfl, rfl, hbig⟩
        rw [shiftr128At_in_place, read128_write128, toNat_clear128, Nat.div_eq_of_lt hsmall]
      · rw [shiftr128At_eq m hobj hplace, read128_write128, toNat_shiftr128]
    · rw [shiftr256At_eq m hobj, read256_write256, toNat_shiftr256]

/-- `2 ^ 64` shifted right in place by 64 is 0 instead of 1. -/
theorem not_shiftsStored_two_pow_64 :
    ¬ ∀ (m : Words) (number value target : ℕ), value < 2 ^ 32 →
      ShiftsStored m number value target := by
  intro hall
  have hshift := (hall (fun p => if p = 0 then 1 else 0) 0 64 0 (by decide)).shiftr128 (Or.inl rfl)
  have hstored : (read128 (shiftr128At (fun p => if p = 0 then 1 else 0) 0 64 0) 0).toNat = 0 := by
    decide
  have hright : (read128 (fun p => if p = 0 then 1 else 0) 0).toNat / 2 ^ 64 = 1 := by decide
  rw [hstored, hright] at hshift
  exact absurd hshift (by decide)

end AnylWallet.Helpers
