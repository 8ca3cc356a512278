import Mathlib.Order.Basic

/-!
# Counting semaphores

* A semaphore has a count up to a limit. `take?` succeeds when the count is not zero, and `give`
  stays at the limit.
* `OnePermit`: one permit lies in a semaphore or with one of its holders. It is kept when the permit
  is taken from the semaphore, passed on, or given back by its holder; so at most one process holds
  it.
-/

namespace AnylWallet.Lib

/-- A semaphore. -/
structure Semaphore (limit : ℕ) where
  count : ℕ
  count_le : count ≤ limit
deriving DecidableEq, Repr

namespace Semaphore

variable {limit : ℕ} {s s' : Semaphore limit}

/-- Take one, if there is one. -/
def take? (s : Semaphore limit) : Option (Semaphore limit) :=
  if s.count = 0 then none else some ⟨s.count - 1, Nat.le_trans (Nat.sub_le _ _) s.count_le⟩

/-- Give one; the count stays at the limit. -/
def give (s : Semaphore limit) : Semaphore limit := ⟨min (s.count + 1) limit, Nat.min_le_right _ _⟩

/-- There is none to take. -/
theorem take?_eq_none_iff : s.take? = none ↔ s.count = 0 := by
  unfold take?
  split
  · rename_i h
    exact iff_of_true rfl h
  · rename_i h
    exact iff_of_false (fun hsome => by cases hsome) h

/-- One is taken. -/
theorem take?_eq_some (h : s.take? = some s') : s.count ≠ 0 ∧ s'.count = s.count - 1 := by
  unfold take? at h
  split at h
  · cases h
  · rename_i hne
    cases h
    exact ⟨hne, rfl⟩

/-- The permit lies in the semaphore, or with the only process that holds it. -/
structure OnePermit {ι : Type*} (s : Semaphore 1) (holds : ι → Prop) : Prop where
  empty : ∀ i, holds i → s.count = 0
  unique : ∀ i j, holds i → holds j → i = j

section

variable {ι : Type*} {s s' : Semaphore 1} {holds holds' : ι → Prop} {i k : ι}

/-- Fewer hold it. -/
theorem OnePermit.mono (h : OnePermit s holds) (hsub : ∀ j, holds' j → holds j) :
    OnePermit s holds' where
  empty j hj := h.empty j (hsub j hj)
  unique j j' hj hj' := h.unique j j' (hsub j hj) (hsub j' hj')

/-- The one who takes it is the only one to hold it. -/
theorem OnePermit.take (h : OnePermit s holds) (htake : s.take? = some s')
    (hsub : ∀ j, holds' j → j = k ∨ holds j) : OnePermit s' holds' := by
  obtain ⟨hne, hcount⟩ := take?_eq_some htake
  have honly : ∀ j, holds' j → j = k := by
    intro j hj
    rcases hsub j hj with hk | hold
    · exact hk
    · exact absurd (h.empty j hold) hne
  refine ⟨fun j _ => ?_, fun j j' hj hj' => (honly j hj).trans (honly j' hj').symm⟩
  have hle := s.count_le
  omega

/-- A holder passes it on. -/
theorem OnePermit.pass (h : OnePermit s holds) (hi : holds i)
    (hsub : ∀ j, holds' j → j = k ∨ (holds j ∧ j ≠ i)) : OnePermit s holds' := by
  have honly : ∀ j, holds' j → j = k := by
    intro j hj
    rcases hsub j hj with hk | ⟨hold, hne⟩
    · exact hk
    · exact absurd (h.unique j i hold hi) hne
  exact ⟨fun _ _ => h.empty i hi, fun j j' hj hj' => (honly j hj).trans (honly j' hj').symm⟩

/-- A holder gives it back. -/
theorem OnePermit.give (h : OnePermit s holds) (hi : holds i)
    (hsub : ∀ j, holds' j → holds j ∧ j ≠ i) : OnePermit s.give holds' := by
  have hnone : ∀ j, ¬ holds' j := by
    intro j hj
    obtain ⟨hold, hne⟩ := hsub j hj
    exact hne (h.unique j i hold hi)
  exact ⟨fun j hj => absurd hj (hnone j), fun j _ hj => absurd hj (hnone j)⟩

end

end Semaphore

end AnylWallet.Lib
