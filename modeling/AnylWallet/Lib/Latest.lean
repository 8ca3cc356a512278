import Mathlib.Data.List.TakeWhile

/-!
# The latest entry of a log

* An entry of a log may set a value: `latest` is the value that was set last, and `since` are the
  entries behind the one that set it.
* `getD_latest_concat`: a variable that every step sets as its entry says, or keeps, holds the latest
  value behind a run.
-/

namespace AnylWallet.Lib

variable {α β : Type*} (f : α → Option β) (log : List α) (a : α)

/-- The value that was set last; none, if no entry of the log sets one. -/
def latest : Option β := (log.filterMap f).getLast?

/-- The entries behind the one that set it last; all of them, if no entry does. -/
def since : List α := (log.reverse.takeWhile fun a => (f a).isNone).reverse

/-- Nothing is set before the first entry. -/
@[simp] theorem latest_nil : latest f [] = none := rfl

/-- Nothing has happened before it. -/
@[simp] theorem since_nil : since f [] = [] := rfl

/-- One more entry sets its value over the one that was there, or leaves it. -/
theorem latest_concat : latest f (log ++ [a]) = (f a).or (latest f log) := by
  rw [latest, latest, List.filterMap_append, List.getLast?_append]
  cases h : f a with
  | none => simp [h]
  | some b => simp [h]

/-- **The variable behind one more step**: it holds what the entry of the step sets, or what it held
before. The variable starts at `b`. -/
theorem getD_latest_concat (b : β) :
    (latest f (log ++ [a])).getD b = (f a).getD ((latest f log).getD b) := by
  rw [latest_concat]
  cases f a with
  | none => rfl
  | some c => rfl

variable {f a}

/-- An entry that sets nothing is one more of them. -/
theorem since_concat_of_none (h : f a = none) : since f (log ++ [a]) = since f log ++ [a] := by
  simp [since, h]

/-- Behind an entry that sets a value there is none yet. -/
theorem since_concat_of_some {b : β} (h : f a = some b) : since f (log ++ [a]) = [] := by
  simp [since, h]

end AnylWallet.Lib
