import Mathlib.Data.List.Basic

/-!
# Walks over a list

A walk visits the elements of a list from the left and carries a state. A visit passes on to the
next element, takes the next element as well, or stops the walk; it may also fail.

* `walk_eq_through_iff`, `walk_eq_stopped_iff`: how a walk ends, by the states it reaches.
* `walk_same`: two walks whose visits decide the same end the same way, with related states.
* `takes` are the elements behind which a walk takes the next one, where a predicate decides it;
  `takesFrom` are those where the predicate depends on what is known from the elements in front.
* `walk_ends`: **a walk that takes what fits**: it fails, stops or ends behind the last element as the
  elements that it takes are complete and fit (`CompleteUpTo`).
-/

namespace AnylWallet.Lib

/-- What a visit decides. -/
inductive Visit (σ α : Type) where
  /-- Go on with the next element. -/
  | pass (s : σ)
  /-- Go on behind the next element. -/
  | take (s : σ)
  /-- End the walk. -/
  | stop (a : α)

/-- How a walk ends. -/
inductive Walked (σ α : Type) where
  /-- Behind the last element. -/
  | through (s : σ)
  /-- At a visit that stops it. -/
  | stopped (a : α)

variable {τ σ α ε : Type}

/-- The walk over a list; a visit sees its element and the elements behind it. -/
def walk (visit : τ → List τ → σ → Except ε (Visit σ α)) : List τ → σ → Except ε (Walked σ α)
  | [], s => .ok (.through s)
  | t :: rest, s =>
      match visit t rest s with
      | .error e => .error e
      | .ok (.stop a) => .ok (.stopped a)
      | .ok (.pass s) => walk visit rest s
      | .ok (.take s) =>
          match rest with
          | [] => .ok (.through s)
          | _ :: rest => walk visit rest s

variable {visit : τ → List τ → σ → Except ε (Visit σ α)} {t : τ} {l rest : List τ} {s s' : σ}

@[simp] theorem walk_nil (s : σ) : walk visit [] s = .ok (.through s) := rfl

/-- A visit that fails ends the walk. -/
theorem walk_error {e : ε} (h : visit t rest s = .error e) :
    walk visit (t :: rest) s = .error e := by
  rw [walk, h]

/-- A visit that stops ends the walk. -/
theorem walk_stop {a : α} (h : visit t rest s = .ok (.stop a)) :
    walk visit (t :: rest) s = .ok (.stopped a) := by
  rw [walk, h]

/-- A visit that passes leaves the walk to the elements behind it. -/
theorem walk_pass (h : visit t rest s = .ok (.pass s')) :
    walk visit (t :: rest) s = walk visit rest s' := by
  rw [walk, h]

/-- A visit that takes the next element leaves the walk to the elements behind that one. -/
theorem walk_take (h : visit t rest s = .ok (.take s')) :
    walk visit (t :: rest) s = walk visit rest.tail s' := by
  rw [walk, h]
  cases rest with
  | nil => rfl
  | cons _ _ => rfl

/-! ## What a walk reaches -/

/-- From the list `l` and the state `s` the walk comes to a list and a state. -/
inductive Reaches (visit : τ → List τ → σ → Except ε (Visit σ α)) :
    List τ → σ → List τ → σ → Prop
  | here (l : List τ) (s : σ) : Reaches visit l s l s
  | pass {t : τ} {rest l' : List τ} {s s' s'' : σ} :
      visit t rest s = .ok (.pass s') → Reaches visit rest s' l' s'' →
        Reaches visit (t :: rest) s l' s''
  | take {t : τ} {rest l' : List τ} {s s' s'' : σ} :
      visit t rest s = .ok (.take s') → Reaches visit rest.tail s' l' s'' →
        Reaches visit (t :: rest) s l' s''

/-- The walk goes on where it has come to. -/
theorem Reaches.walk_eq {l' : List τ} (h : Reaches visit l s l' s') :
    walk visit l s = walk visit l' s' := by
  induction h with
  | here l s => rfl
  | pass hvisit _ ih => rw [walk_pass hvisit, ih]
  | take hvisit _ ih => rw [walk_take hvisit, ih]

/-- **Every walk comes to an end**: behind the last element, or at a visit that fails or stops. -/
theorem exists_reaches (visit : τ → List τ → σ → Except ε (Visit σ α)) (l : List τ) (s : σ) :
    (∃ s', Reaches visit l s [] s') ∨
      ∃ t rest s', Reaches visit l s (t :: rest) s' ∧
        ((∃ e, visit t rest s' = .error e) ∨ ∃ a, visit t rest s' = .ok (.stop a)) := by
  induction hn : l.length using Nat.strongRecOn generalizing l s with
  | ind n ih =>
      subst hn
      cases l with
      | nil => exact Or.inl ⟨s, .here [] s⟩
      | cons t rest =>
          rcases hv : visit t rest s with e | v
          · exact Or.inr ⟨t, rest, s, .here _ _, Or.inl ⟨e, hv⟩⟩
          · cases v with
            | stop a => exact Or.inr ⟨t, rest, s, .here _ _, Or.inr ⟨a, hv⟩⟩
            | pass s₁ =>
                rcases ih _ (Nat.lt_succ_self _) rest s₁ rfl with ⟨s', h⟩ | ⟨t', rest', s', h, hend⟩
                · exact Or.inl ⟨s', .pass hv h⟩
                · exact Or.inr ⟨t', rest', s', .pass hv h, hend⟩
            | take s₁ =>
                have hlt : rest.tail.length < (t :: rest).length := by
                  rw [List.length_tail, List.length_cons]
                  omega
                rcases ih _ hlt rest.tail s₁ rfl with ⟨s', h⟩ | ⟨t', rest', s', h, hend⟩
                · exact Or.inl ⟨s', .take hv h⟩
                · exact Or.inr ⟨t', rest', s', .take hv h, hend⟩

/-- A walk ends behind the last element if and only if it reaches the empty list. -/
theorem walk_eq_through_iff :
    walk visit l s = .ok (.through s') ↔ Reaches visit l s [] s' := by
  refine ⟨fun h => ?_, fun hreach => hreach.walk_eq⟩
  rcases exists_reaches visit l s with ⟨s₁, hreach⟩ | ⟨t, rest, s₁, hreach, ⟨e', hv⟩ | ⟨a, hv⟩⟩
  · rw [hreach.walk_eq, walk_nil] at h
    cases h
    exact hreach
  · rw [hreach.walk_eq, walk_error hv] at h
    cases h
  · rw [hreach.walk_eq, walk_stop hv] at h
    cases h

/-- A walk stops as one of the visits it reaches does. -/
theorem walk_eq_stopped_iff {a : α} :
    walk visit l s = .ok (.stopped a) ↔
      ∃ t rest s', Reaches visit l s (t :: rest) s' ∧ visit t rest s' = .ok (.stop a) := by
  refine ⟨fun h => ?_, fun ⟨t, rest, s', hreach, hv⟩ => hreach.walk_eq.trans (walk_stop hv)⟩
  rcases exists_reaches visit l s with ⟨s', hreach⟩ | ⟨t, rest, s', hreach, ⟨e', hv⟩ | ⟨a', hv⟩⟩
  · rw [hreach.walk_eq, walk_nil] at h
    cases h
  · rw [hreach.walk_eq, walk_error hv] at h
    cases h
  · rw [hreach.walk_eq, walk_stop hv] at h
    cases h
    exact ⟨t, rest, s', hreach, hv⟩

/-! ## Two walks over one list -/

section same

variable {σ' α' : Type} {visit' : τ → List τ → σ' → Except ε (Visit σ' α')} {s₁ s₂ : σ} {s₁' : σ'}
  {R : σ → σ' → Prop} {A : α → α' → Prop}

/-- Two visits decide the same, with related states or results. -/
inductive SameVisit (R : σ → σ' → Prop) (A : α → α' → Prop) :
    Except ε (Visit σ α) → Except ε (Visit σ' α') → Prop
  | error (e : ε) : SameVisit R A (.error e) (.error e)
  | pass {s : σ} {s' : σ'} : R s s' → SameVisit R A (.ok (.pass s)) (.ok (.pass s'))
  | take {s : σ} {s' : σ'} : R s s' → SameVisit R A (.ok (.take s)) (.ok (.take s'))
  | stop {a : α} {a' : α'} : A a a' → SameVisit R A (.ok (.stop a)) (.ok (.stop a'))

/-- Two walks end the same way, with related states or results. -/
inductive SameWalk (R : σ → σ' → Prop) (A : α → α' → Prop) :
    Except ε (Walked σ α) → Except ε (Walked σ' α') → Prop
  | error (e : ε) : SameWalk R A (.error e) (.error e)
  | through {s : σ} {s' : σ'} : R s s' → SameWalk R A (.ok (.through s)) (.ok (.through s'))
  | stopped {a : α} {a' : α'} : A a a' → SameWalk R A (.ok (.stopped a)) (.ok (.stopped a'))

/-- Two computations have the same error, or related results. -/
inductive SameRun (A : α → α' → Prop) : Except ε α → Except ε α' → Prop
  | error (e : ε) : SameRun A (.error e) (.error e)
  | ok {a : α} {a' : α'} : A a a' → SameRun A (.ok a) (.ok a')

/-- Visits that decide the same, and walks that end the same way behind them. -/
theorem walk_same_cons (hfirst : SameVisit R A (visit t rest s₁) (visit' t rest s₁'))
    (hpass : ∀ s s', visit t rest s₁ = .ok (.pass s) → R s s' →
      SameWalk R A (walk visit rest s) (walk visit' rest s'))
    (htake : ∀ s s', visit t rest s₁ = .ok (.take s) → R s s' →
      SameWalk R A (walk visit rest.tail s) (walk visit' rest.tail s')) :
    SameWalk R A (walk visit (t :: rest) s₁) (walk visit' (t :: rest) s₁') := by
  generalize hv : visit t rest s₁ = v at hfirst
  generalize hv' : visit' t rest s₁' = v' at hfirst
  cases hfirst with
  | error e =>
      rw [walk_error hv, walk_error hv']
      exact .error e
  | @pass s s' hR =>
      rw [walk_pass hv, walk_pass hv']
      exact hpass s s' hv hR
  | @take s s' hR =>
      rw [walk_take hv, walk_take hv']
      exact htake s s' hv hR
  | stop hA =>
      rw [walk_stop hv, walk_stop hv']
      exact .stopped hA

/-- **Walks whose visits decide the same end the same way**; only visits that the first walk reaches
matter. -/
theorem walk_same (h : R s₁ s₁')
    (hvisit : ∀ t rest s s', Reaches visit l s₁ (t :: rest) s → R s s' →
      SameVisit R A (visit t rest s) (visit' t rest s')) :
    SameWalk R A (walk visit l s₁) (walk visit' l s₁') := by
  induction hn : l.length using Nat.strongRecOn generalizing l s₁ s₁' with
  | ind n ih =>
      subst hn
      rcases l with _ | ⟨t, rest⟩
      · exact .through h
      have hlt : rest.tail.length < (t :: rest).length := by
        rw [List.length_tail, List.length_cons]
        omega
      refine walk_same_cons (hvisit t rest s₁ s₁' (.here _ _) h) ?_ ?_
      · intro s s' hv hR
        exact ih _ (Nat.lt_succ_self _) hR
          (fun t' rest' s s' hreach hs => hvisit t' rest' s s' (.pass hv hreach) hs) rfl
      · intro s s' hv hR
        exact ih _ hlt hR
          (fun t' rest' s s' hreach hs => hvisit t' rest' s s' (.take hv hreach) hs) rfl

/-- Walks that decide the same at their first element, whatever their states are there. -/
theorem walk_same_of_visit (hfirst : SameVisit R A (visit t rest s₁) (visit' t rest s₁'))
    (hvisit : ∀ t rest s s', R s s' → SameVisit R A (visit t rest s) (visit' t rest s')) :
    SameWalk R A (walk visit (t :: rest) s₁) (walk visit' (t :: rest) s₁') := by
  refine walk_same_cons hfirst ?_ ?_
  · intro s s' _ hR
    exact walk_same hR fun t rest s s' _ => hvisit t rest s s'
  · intro s s' _ hR
    exact walk_same hR fun t rest s s' _ => hvisit t rest s s'

/-- What the first walk reaches, the second one reaches as well. -/
theorem Reaches.same {l' : List τ} (hreach : Reaches visit l s₁ l' s₂) (h : R s₁ s₁')
    (hvisit : ∀ t rest s s', R s s' → SameVisit R A (visit t rest s) (visit' t rest s')) :
    ∃ s₂', Reaches visit' l s₁' l' s₂' ∧ R s₂ s₂' := by
  induction hreach generalizing s₁' with
  | here l s => exact ⟨s₁', .here l s₁', h⟩
  | @pass t rest l' s s' s'' hv _ ih =>
      have hfirst := hvisit t rest s s₁' h
      rw [hv] at hfirst
      generalize hv' : visit' t rest s₁' = v' at hfirst
      cases hfirst with
      | pass hR =>
          obtain ⟨s₂', hreach', hR'⟩ := ih hR
          exact ⟨s₂', .pass hv' hreach', hR'⟩
  | @take t rest l' s s' s'' hv _ ih =>
      have hfirst := hvisit t rest s s₁' h
      rw [hv] at hfirst
      generalize hv' : visit' t rest s₁' = v' at hfirst
      cases hfirst with
      | take hR =>
          obtain ⟨s₂', hreach', hR'⟩ := ih hR
          exact ⟨s₂', .take hv' hreach', hR'⟩

end same

/-! ## The elements that are taken -/

/-- The elements that satisfy `p`, from the left, with what is behind each; the element behind one of
them is passed over. -/
def takes (p : τ → Bool) : List τ → List (τ × List τ)
  | [] => []
  | [t] => if p t then [(t, [])] else []
  | t :: u :: rest => if p t then (t, u :: rest) :: takes p rest else takes p (u :: rest)

variable {p : τ → Bool}

theorem takes_cons_neg (h : p t = false) : takes p (t :: rest) = takes p rest := by
  cases rest with
  | nil => simp [takes, h]
  | cons u rest => simp [takes, h]

theorem takes_cons_pos (h : p t = true) :
    takes p (t :: rest) = (t, rest) :: takes p rest.tail := by
  cases rest with
  | nil => simp [takes, h]
  | cons u rest => simp [takes, h]

/-- Induction along a list whose elements are passed or taken. -/
@[elab_as_elim] theorem takes_induction (p : τ → Bool) {motive : List τ → Prop} (l : List τ)
    (nil : motive [])
    (pass : ∀ t rest, p t = false → motive rest → motive (t :: rest))
    (take : ∀ t rest, p t = true → motive rest.tail → motive (t :: rest)) : motive l := by
  induction hn : l.length using Nat.strongRecOn generalizing l with
  | ind n ih =>
      subst hn
      cases l with
      | nil => exact nil
      | cons t rest =>
          have hrest : rest.tail.length < (t :: rest).length := by
            rw [List.length_tail, List.length_cons]
            omega
          cases hp : p t with
          | false => exact pass t rest hp (ih _ (Nat.lt_succ_self _) rest rfl)
          | true => exact take t rest hp (ih _ hrest rest.tail rfl)

/-- If there is such an element, one is taken. -/
theorem takes_ne_nil (h : ∃ t ∈ l, p t = true) : takes p l ≠ [] := by
  induction l using takes_induction p with
  | nil => simp at h
  | pass t rest hp ih =>
      rw [takes_cons_neg hp]
      obtain ⟨u, hu, hpu⟩ := h
      rcases List.mem_cons.mp hu with rfl | hu
      · rw [hp] at hpu
        cases hpu
      · exact ih ⟨u, hu, hpu⟩
  | take t rest hp _ =>
      rw [takes_cons_pos hp]
      exact List.cons_ne_nil _ _

/-- What is behind such an element is in the list. -/
theorem subset_of_mem_takes {q : τ × List τ} (h : q ∈ takes p l) : q.2 ⊆ l := by
  induction l using takes_induction p with
  | nil => cases h
  | pass t rest hp ih =>
      rw [takes_cons_neg hp] at h
      exact List.subset_cons_of_subset t (ih h)
  | take t rest hp ih =>
      rw [takes_cons_pos hp] at h
      rcases List.mem_cons.mp h with rfl | h
      · exact List.subset_cons_self t rest
      · exact List.subset_cons_of_subset t fun u hu => List.mem_of_mem_tail (ih h hu)

/-! ## Walks that take what fits -/

/-- How a computation ends: with a good result where all fits, with a bad one where something does not
fit and it is complete up to there, and with an error where it is not. -/
inductive Ends {β : Type} (complete fits : Prop) (good bad : β → Prop) : Except ε β → Prop
  | good {b : β} (hcomplete : complete) (hfits : fits) (hb : good b) :
      Ends complete fits good bad (.ok b)
  | bad {b : β} (hcomplete : complete) (hfits : ¬ fits) (hb : bad b) :
      Ends complete fits good bad (.ok b)
  | error (hcomplete : ¬ complete) (e : ε) : Ends complete fits good bad (.error e)

/-- It has a result if and only if it is complete. -/
theorem Ends.ok_iff {β : Type} {complete fits : Prop} {good bad : β → Prop} {r : Except ε β}
    (h : Ends complete fits good bad r) : (∃ b, r = .ok b) ↔ complete := by
  cases h with
  | good hcomplete => exact iff_of_true ⟨_, rfl⟩ hcomplete
  | bad hcomplete => exact iff_of_true ⟨_, rfl⟩ hcomplete
  | error hcomplete e => exact iff_of_false (by simp) hcomplete

/-- All elements are complete, up to the first one that does not fit. -/
def CompleteUpTo {β : Type} (fits complete : β → Prop) (l : List β) : Prop :=
  ∀ before b behind, l = before ++ b :: behind → (∀ a ∈ before, fits a) → complete b

@[simp] theorem completeUpTo_nil {β : Type} (fits complete : β → Prop) :
    CompleteUpTo fits complete [] := by
  intro before b behind h
  exact absurd h.symm (List.append_ne_nil_of_right_ne_nil _ (List.cons_ne_nil _ _))

/-- The first element decides whether the others matter. -/
theorem completeUpTo_cons {β : Type} {fits complete : β → Prop} {b : β} {l : List β} :
    CompleteUpTo fits complete (b :: l) ↔ complete b ∧ (fits b → CompleteUpTo fits complete l) := by
  constructor
  · refine fun h => ⟨h [] b l rfl (List.forall_mem_nil _), fun hb before a behind hl hbefore => ?_⟩
    exact h (b :: before) a behind (congrArg (b :: ·) hl) (List.forall_mem_cons.mpr ⟨hb, hbefore⟩)
  · rintro ⟨hb, hl⟩ before a behind heq hbefore
    cases before with
    | nil =>
        cases heq
        exact hb
    | cons c before =>
        cases heq
        obtain ⟨hc, hbefore⟩ := List.forall_mem_cons.mp hbefore
        exact hl hc before a behind rfl hbefore

section scan

variable {κ : Type} (key : κ → τ → Bool) (next : κ → τ → List τ → κ)

/-- The elements that satisfy `key`, from the left, each with what is known from those in front of it
and with what is behind it; the element behind one of them is passed over. -/
def takesFrom : κ → List τ → List (κ × τ × List τ)
  | _, [] => []
  | k, [t] => if key k t then [(k, t, [])] else []
  | k, t :: u :: rest =>
      if key k t then (k, t, u :: rest) :: takesFrom (next k t (u :: rest)) rest
      else takesFrom k (u :: rest)

/-- What is known behind all of them. -/
def knownBehind : κ → List τ → κ
  | k, [] => k
  | k, [t] => if key k t then next k t [] else k
  | k, t :: u :: rest =>
      if key k t then knownBehind (next k t (u :: rest)) rest else knownBehind k (u :: rest)

variable {key next}

theorem takesFrom_cons_neg {k : κ} (h : key k t = false) :
    takesFrom key next k (t :: rest) = takesFrom key next k rest ∧
      knownBehind key next k (t :: rest) = knownBehind key next k rest := by
  cases rest with
  | nil => simp [takesFrom, knownBehind, h]
  | cons u rest => simp [takesFrom, knownBehind, h]

theorem takesFrom_cons_pos {k : κ} (h : key k t = true) :
    takesFrom key next k (t :: rest) =
        (k, t, rest) :: takesFrom key next (next k t rest) rest.tail ∧
      knownBehind key next k (t :: rest) = knownBehind key next (next k t rest) rest.tail := by
  cases rest with
  | nil => simp [takesFrom, knownBehind, h]
  | cons u rest => simp [takesFrom, knownBehind, h]

/-- A visit passes what is no key, fails at a key that is not complete, stops at one that does not fit
and takes the others. -/
structure TakesKeys (visit : τ → List τ → σ → Except ε (Visit σ α)) (known : σ → κ)
    (key : κ → τ → Bool) (next : κ → τ → List τ → κ) (fits complete : κ × τ × List τ → Prop)
    (refused : α → Prop) : Prop where
  pass : ∀ t rest s, key (known s) t = false →
    ∃ s', visit t rest s = .ok (.pass s') ∧ known s' = known s
  fault : ∀ t rest s, key (known s) t = true → ¬ complete (known s, t, rest) →
    ∃ e, visit t rest s = .error e
  stop : ∀ t rest s, key (known s) t = true → complete (known s, t, rest) →
    ¬ fits (known s, t, rest) → ∃ a, visit t rest s = .ok (.stop a) ∧ refused a
  take : ∀ t rest s, key (known s) t = true → complete (known s, t, rest) →
    fits (known s, t, rest) → ∃ s', visit t rest s = .ok (.take s') ∧ known s' = next (known s) t rest

/-- A walk ended behind the last element, and this is known there. -/
def Walked.IsThrough (known : σ → κ) (k : κ) : Walked σ α → Prop
  | .through s => known s = k
  | .stopped _ => False

/-- A walk was stopped with such a result. -/
def Walked.IsStopped (refused : α → Prop) : Walked σ α → Prop
  | .through _ => False
  | .stopped a => refused a

/-- **How a walk that takes what fits ends.** -/
theorem walk_ends {known : σ → κ} {fits complete : κ × τ × List τ → Prop} {refused : α → Prop}
    (h : TakesKeys visit known key next fits complete refused) (l : List τ) (s : σ) :
    Ends (CompleteUpTo fits complete (takesFrom key next (known s) l))
      (∀ q ∈ takesFrom key next (known s) l, fits q)
      (Walked.IsThrough known (knownBehind key next (known s) l)) (Walked.IsStopped refused)
      (walk visit l s) := by
  induction hn : l.length using Nat.strongRecOn generalizing l s with
  | ind n ih =>
      subst hn
      rcases l with _ | ⟨t, rest⟩
      · exact .good (completeUpTo_nil _ _) (List.forall_mem_nil _) rfl
      have hlt : rest.tail.length < (t :: rest).length := by
        rw [List.length_tail, List.length_cons]
        omega
      cases hkey : key (known s) t with
      | false =>
          obtain ⟨s', hvisit, hs'⟩ := h.pass t rest s hkey
          rw [(takesFrom_cons_neg hkey).1, (takesFrom_cons_neg hkey).2, walk_pass hvisit, ← hs']
          exact ih _ (Nat.lt_succ_self _) rest s' rfl
      | true =>
          rw [(takesFrom_cons_pos hkey).1, (takesFrom_cons_pos hkey).2, completeUpTo_cons,
            List.forall_mem_cons]
          by_cases hcomplete : complete (known s, t, rest)
          swap
          · obtain ⟨e, hvisit⟩ := h.fault t rest s hkey hcomplete
            rw [walk_error hvisit]
            exact .error (fun hall => hcomplete hall.1) e
          by_cases hfits : fits (known s, t, rest)
          swap
          · obtain ⟨a, hvisit, ha⟩ := h.stop t rest s hkey hcomplete hfits
            rw [walk_stop hvisit]
            exact .bad ⟨hcomplete, fun h => absurd h hfits⟩ (fun hall => hfits hall.1) ha
          obtain ⟨s', hvisit, hs'⟩ := h.take t rest s hkey hcomplete hfits
          rw [walk_take hvisit, ← hs']
          have hrest := ih _ hlt rest.tail s' rfl
          simpa only [hcomplete, hfits, true_and, forall_const] using hrest

end scan

end AnylWallet.Lib
