import Mathlib.Data.List.Basic
import Mathlib.Tactic.Common

/-!
# Readers of prefix codes

* A `Reader` takes a value off the front of a byte list. `Reads p bs a` says that `p` reads exactly
  `bs` as `a`: with anything behind it, and not at all when `bs` is cut short.
* `Reads.bind` reads two codes one behind the other. `readAll_flatMap` reads a list of codes, and
  `readAll_take` says what reading a cut list can give: the codes before the cut, and only if the
  cut is between two of them.
-/

namespace AnylWallet.Lib

variable {α β : Type}

/-- A reader: the value at the front and the bytes behind it. -/
abbrev Reader (α : Type) := List UInt8 → Option (α × List UInt8)

namespace Reader

/-- One reader behind the other. -/
def bind (p : Reader α) (f : α → Reader β) : Reader β := fun bs =>
  match p bs with
  | none => none
  | some (a, rest) => f a rest

/-- Read nothing. -/
def done (a : α) : Reader α := fun bs => some (a, bs)

/-- Read `n` bytes. -/
def takeBytes (n : ℕ) : Reader (List UInt8) := fun bs =>
  if n ≤ bs.length then some (bs.take n, bs.drop n) else none

/-- Read values to the end, at most `fuel` of them. -/
def readMany (p : Reader α) : ℕ → List UInt8 → Option (List α)
  | _, [] => some []
  | 0, _ :: _ => none
  | fuel + 1, b :: bs =>
      match p (b :: bs) with
      | none => none
      | some (a, rest) => (readMany p fuel rest).map (a :: ·)

/-- Read values to the end; every one takes a byte at least. -/
def readAll (p : Reader α) (bs : List UInt8) : Option (List α) := p.readMany bs.length bs

end Reader

open Reader

/-- The reader `p` reads the bytes `bs` as `a`. -/
structure Reads (p : Reader α) (bs : List UInt8) (a : α) : Prop where
  /-- Whatever comes behind is left. -/
  whole : ∀ rest, p (bs ++ rest) = some (a, rest)
  /-- Nothing is read from a part of the bytes. -/
  cut : ∀ k < bs.length, p (bs.take k) = none

namespace Reads

variable {p : Reader α} {bs cs : List UInt8} {a : α} {b : β}

/-- Two codes one behind the other. -/
theorem bind {f : α → Reader β} (hp : Reads p bs a) (hf : Reads (f a) cs b) :
    Reads (p.bind f) (bs ++ cs) b where
  whole rest := by
    rw [Reader.bind, List.append_assoc, hp.whole]
    exact hf.whole rest
  cut k hk := by
    rw [List.length_append] at hk
    rw [Reader.bind]
    rcases Nat.lt_or_ge k bs.length with h | h
    · rw [List.take_append_of_le_length (Nat.le_of_lt h), hp.cut k h]
    · rw [List.take_append, List.take_of_length_le h, hp.whole]
      exact hf.cut _ (by omega)

/-- Reading nothing. -/
theorem done (a : α) : Reads (Reader.done a) [] a :=
  ⟨fun _ => rfl, fun _ hk => absurd hk (Nat.not_lt_zero _)⟩

/-- Reading a known number of bytes. -/
theorem takeBytes (bs : List UInt8) : Reads (Reader.takeBytes bs.length) bs bs where
  whole rest := by
    rw [Reader.takeBytes, if_pos (by simp), List.take_left, List.drop_left]
  cut k hk := by
    rw [Reader.takeBytes, if_neg]
    rw [List.length_take]
    omega

end Reads

/-! ## Lists of codes -/

section ReadAll

variable {ι : Type} {p : Reader α} {code : ι → List UInt8} {value : ι → α}

/-- Codes are read one after the other. -/
theorem readMany_flatMap {l : List ι} (h : ∀ x ∈ l, code x ≠ [] ∧ Reads p (code x) (value x))
    (rest : List UInt8) {fuel : ℕ} (hfuel : (l.flatMap code ++ rest).length ≤ fuel) :
    ∃ fuel', rest.length ≤ fuel' ∧ readMany p fuel (l.flatMap code ++ rest) =
      (readMany p fuel' rest).map (l.map value ++ ·) := by
  induction l generalizing fuel with
  | nil => exact ⟨fuel, hfuel, by simp⟩
  | cons x l ih =>
      obtain ⟨hne, hread⟩ := h x List.mem_cons_self
      obtain ⟨b, bs, hcode⟩ := List.exists_cons_of_ne_nil hne
      rw [List.flatMap_cons, List.append_assoc, hcode, List.length_append, List.length_cons] at hfuel
      cases fuel with
      | zero => omega
      | succ fuel =>
          obtain ⟨fuel', hle, hrest⟩ := @ih (fun y hy => h y (List.mem_cons_of_mem x hy)) fuel
            (by omega)
          refine ⟨fuel', hle, ?_⟩
          have hwhole := hread.whole (l.flatMap code ++ rest)
          rw [hcode, List.cons_append] at hwhole
          rw [List.flatMap_cons, List.append_assoc, hcode, List.cons_append, readMany, hwhole]
          dsimp only
          rw [hrest, Option.map_map]
          rfl

/-- **A list of codes is read back.** -/
theorem readAll_flatMap {l : List ι} (h : ∀ x ∈ l, code x ≠ [] ∧ Reads p (code x) (value x)) :
    readAll p (l.flatMap code) = some (l.map value) := by
  obtain ⟨fuel', -, hread⟩ := readMany_flatMap h [] (Nat.le_of_eq (by rw [List.append_nil]))
  rw [List.append_nil] at hread
  rw [readAll, hread]
  cases fuel' <;> simp [readMany]

/-- A list of codes that is cut is one cut code behind whole ones. -/
theorem exists_take_flatMap (l : List ι) {k : ℕ} (hk : k < (l.flatMap code).length) :
    ∃ before x after n, l = before ++ x :: after ∧ n < (code x).length ∧
      (l.flatMap code).take k = before.flatMap code ++ (code x).take n := by
  induction l generalizing k with
  | nil => exact absurd hk (Nat.not_lt_zero _)
  | cons x l ih =>
      rw [List.flatMap_cons, List.length_append] at hk
      rcases Nat.lt_or_ge k (code x).length with h | h
      · refine ⟨[], x, l, k, rfl, h, ?_⟩
        rw [List.flatMap_cons, List.take_append_of_le_length (Nat.le_of_lt h)]
        rfl
      · obtain ⟨before, y, after, n, rfl, hn, htake⟩ := @ih (k - (code x).length) (by omega)
        refine ⟨x :: before, y, after, n, rfl, hn, ?_⟩
        rw [List.flatMap_cons, List.take_append, List.take_of_length_le h, htake,
          List.flatMap_cons, List.append_assoc]

/-- **What a cut list of codes gives**: the values before the cut, if it gives anything. -/
theorem readAll_take {l : List ι} (h : ∀ x ∈ l, code x ≠ [] ∧ Reads p (code x) (value x)) {k : ℕ}
    (hk : k < (l.flatMap code).length) {vs : List α}
    (hread : readAll p ((l.flatMap code).take k) = some vs) :
    ∃ before x after, l = before ++ x :: after ∧ vs = before.map value := by
  obtain ⟨before, x, after, n, hsplit, hn, htake⟩ := exists_take_flatMap l hk
  refine ⟨before, x, after, hsplit, ?_⟩
  have hbefore : ∀ y ∈ before, code y ≠ [] ∧ Reads p (code y) (value y) := fun y hy =>
    h y (hsplit ▸ List.mem_append_left _ hy)
  have hx := (h x (hsplit ▸ List.mem_append_right _ List.mem_cons_self)).2
  obtain ⟨fuel', -, hmany⟩ := readMany_flatMap hbefore ((code x).take n) (Nat.le_refl _)
  rw [htake, readAll, hmany] at hread
  have hcut := hx.cut n hn
  cases hrest : (code x).take n with
  | nil =>
      rw [hrest] at hread
      cases fuel' <;> simpa [readMany, eq_comm] using hread
  | cons b bs =>
      rw [hrest] at hread hcut
      cases fuel' with
      | zero => cases hread
      | succ fuel' =>
          rw [readMany, hcut] at hread
          cases hread

end ReadAll

end AnylWallet.Lib
