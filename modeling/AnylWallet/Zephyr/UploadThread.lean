import Mathlib.Logic.Function.Basic
import AnylWallet.Lib.Interleaving
import AnylWallet.Lib.Semaphore

/-!
# `zephyr-wallet/upload`: the semaphores of the upload thread

* Shell contexts, of any type, run `upload start` and `upload stop`, and each start creates a thread.
  An `Event` lets one of them do its next operation on a semaphore. Assertions are not compiled in.
* `permit_step`: one permit of `upload_thread_sem` lies in the semaphore, with a command or with a
  thread; so there is at most one thread at any time.
* `sound_iff_clear`: `upload_thread_exit_sem` is zero when a thread is created, and no earlier
  request to stop will set it, in all states of a run exactly where the commands do not overlap as
  `Clear` says. For `upload stop` gives `upload_thread_sem` back before it takes
  `upload_thread_exit_sem`.
-/

namespace AnylWallet.Zephyr

open AnylWallet.Lib AnylWallet.Lib.Interleaving

/-- Where a shell context is. -/
inductive ShellPoint where
  /-- No command of the upload is under way. -/
  | prompt
  /-- `upload_start` has taken `upload_thread_sem`, and is about to create the thread. -/
  | creating
  /-- `upload_stop` has taken it at once, and is about to give it back. -/
  | notRunning
  /-- `upload_stop` has not taken it, and is about to give `upload_thread_exit_sem`. -/
  | signalling
  /-- `upload_stop` waits for the exit. -/
  | waiting
  /-- `upload_stop` has taken `upload_thread_sem` after the exit, and is about to give it back. -/
  | exited
  /-- `upload_stop` is about to take `upload_thread_exit_sem` back. -/
  | resetting
deriving DecidableEq, Repr

/-- Where an upload thread is. -/
inductive ThreadPoint where
  | absent
  /-- Created; it is about to take `upload_thread_sem`, for a millisecond. -/
  | created
  /-- About to look at `upload_thread_exit_sem`. -/
  | looping
  /-- Out of the loop; it is about to give `upload_thread_sem`. -/
  | leaving
  | ended
deriving DecidableEq, Repr

/-- The thread stands between its creation and its final `k_sem_give`. -/
def ThreadPoint.Live (t : ThreadPoint) : Prop := t = .created ∨ t = .looping ∨ t = .leaving

/-- The semaphores and the processes. Source: `zephyr-wallet/upload.c` -/
structure Sems (ι : Type*) where
  /-- `upload_thread_sem`. -/
  threadSem : Semaphore 1
  /-- `upload_thread_exit_sem`. -/
  exitSem : Semaphore 1
  shells : ι → ShellPoint
  /-- The threads, in the order of their creation. -/
  threads : ℕ → ThreadPoint
  /-- The number of threads that have been created. -/
  created : ℕ

namespace Sems

variable {ι : Type*} [DecidableEq ι]

/-- `K_SEM_DEFINE`; no command has been given. -/
def boot : Sems ι where
  threadSem := ⟨1, Nat.le_refl 1⟩
  exitSem := ⟨0, Nat.zero_le _⟩
  shells _ := .prompt
  threads _ := .absent
  created := 0

/-- The context goes on to this point. -/
def shellAt (st : Sems ι) (i : ι) (p : ShellPoint) : Sems ι :=
  { st with shells := Function.update st.shells i p }

/-- The thread goes on to this point. -/
def threadAt (st : Sems ι) (n : ℕ) (t : ThreadPoint) : Sems ι :=
  { st with threads := Function.update st.threads n t }

/-- The next operation of `upload_start` in a context. Source: `zephyr-wallet/upload.c` -/
def uploadStart (st : Sems ι) (i : ι) : Option (Sems ι) :=
  match st.shells i with
  | .prompt =>
      match st.threadSem.take? with
      -- "thread already started"
      | none => some st
      | some sem => some ({ st with threadSem := sem }.shellAt i .creating)
  | .creating =>
      some (({ st with created := st.created + 1 }.threadAt st.created .created).shellAt i .prompt)
  | _ => none

/-- The next operation of `upload_stop` in a context. Source: `zephyr-wallet/upload.c` -/
def uploadStop (st : Sems ι) (i : ι) : Option (Sems ι) :=
  match st.shells i with
  | .prompt =>
      match st.threadSem.take? with
      | some sem => some ({ st with threadSem := sem }.shellAt i .notRunning)
      | none => some (st.shellAt i .signalling)
  | .notRunning => some ({ st with threadSem := st.threadSem.give }.shellAt i .prompt)
  -- signal thread to exit
  | .signalling => some ({ st with exitSem := st.exitSem.give }.shellAt i .waiting)
  -- wait for the exit
  | .waiting => st.threadSem.take?.map fun sem => { st with threadSem := sem }.shellAt i .exited
  -- reset the semaphores
  | .exited => some ({ st with threadSem := st.threadSem.give }.shellAt i .resetting)
  | .resetting => st.exitSem.take?.map fun sem => { st with exitSem := sem }.shellAt i .prompt
  | .creating => none

/-- The next operation of a thread. Source: `zephyr-wallet/upload.c` -/
def uploadMain (st : Sems ι) (n : ℕ) : Option (Sems ι) :=
  match st.threads n with
  | .created =>
      -- what `k_sem_take` returns is not looked at
      match st.threadSem.take? with
      | none => some (st.threadAt n .looping)
      | some sem => some ({ st with threadSem := sem }.threadAt n .looping)
  | .looping => if st.exitSem.count = 0 then some st else some (st.threadAt n .leaving)
  | .leaving => some ({ st with threadSem := st.threadSem.give }.threadAt n .ended)
  | .absent | .ended => none

/-- Who does the next operation. -/
inductive Event (ι : Type*) where
  | start (i : ι)
  | stop (i : ι)
  | thread (n : ℕ)
deriving DecidableEq, Repr

/-- The state behind an event. -/
def step (st : Sems ι) : Event ι → Option (Sems ι)
  | .start i => st.uploadStart i
  | .stop i => st.uploadStop i
  | .thread n => st.uploadMain n

/-- There is at most one thread, and when one is created `upload_thread_exit_sem` is zero and no
request to stop is on its way. -/
structure Sound (st : Sems ι) : Prop where
  unique : ∀ m n, (st.threads m).Live → (st.threads n).Live → m = n
  exit_zero : ∀ i, st.shells i = .creating → st.exitSem.count = 0
  no_request : ∀ i j, st.shells i = .creating → st.shells j ≠ .signalling

/-- A start that takes `upload_thread_sem` finds `upload_thread_exit_sem` zero and no request to stop
on its way, and a stop that does not take it finds no start that is about to create a thread. -/
def Clear (st : Sems ι) : Event ι → Prop
  | .start i => st.shells i = .prompt → st.threadSem.count ≠ 0 →
      st.exitSem.count = 0 ∧ ∀ j, st.shells j ≠ .signalling
  | .stop i => st.shells i = .prompt → st.threadSem.count = 0 → ∀ j, st.shells j ≠ .creating
  | .thread _ => True

/-! ## What an event does -/

/-- What an event can do. -/
inductive Does (st : Sems ι) : Event ι → Sems ι → Prop where
  | alreadyStarted {i : ι} (hp : st.shells i = .prompt) (hcount : st.threadSem.count = 0) :
      Does st (.start i) st
  | startTakes {i : ι} {sem : Semaphore 1} (hp : st.shells i = .prompt)
      (htake : st.threadSem.take? = some sem) :
      Does st (.start i) ({ st with threadSem := sem }.shellAt i .creating)
  | creates {i : ι} (hp : st.shells i = .creating) :
      Does st (.start i)
        (({ st with created := st.created + 1 }.threadAt st.created .created).shellAt i .prompt)
  | stopTakes {i : ι} {sem : Semaphore 1} (hp : st.shells i = .prompt)
      (htake : st.threadSem.take? = some sem) :
      Does st (.stop i) ({ st with threadSem := sem }.shellAt i .notRunning)
  | requests {i : ι} (hp : st.shells i = .prompt) (hcount : st.threadSem.count = 0) :
      Does st (.stop i) (st.shellAt i .signalling)
  | givesBack {i : ι} (hp : st.shells i = .notRunning) :
      Does st (.stop i) ({ st with threadSem := st.threadSem.give }.shellAt i .prompt)
  | signals {i : ι} (hp : st.shells i = .signalling) :
      Does st (.stop i) ({ st with exitSem := st.exitSem.give }.shellAt i .waiting)
  | awaits {i : ι} {sem : Semaphore 1} (hp : st.shells i = .waiting)
      (htake : st.threadSem.take? = some sem) :
      Does st (.stop i) ({ st with threadSem := sem }.shellAt i .exited)
  | releases {i : ι} (hp : st.shells i = .exited) :
      Does st (.stop i) ({ st with threadSem := st.threadSem.give }.shellAt i .resetting)
  | resets {i : ι} {sem : Semaphore 1} (hp : st.shells i = .resetting)
      (htake : st.exitSem.take? = some sem) :
      Does st (.stop i) ({ st with exitSem := sem }.shellAt i .prompt)
  | enters {n : ℕ} (hp : st.threads n = .created) :
      Does st (.thread n) (st.threadAt n .looping)
  | enterTakes {n : ℕ} {sem : Semaphore 1} (hp : st.threads n = .created)
      (htake : st.threadSem.take? = some sem) :
      Does st (.thread n) ({ st with threadSem := sem }.threadAt n .looping)
  | loops {n : ℕ} (hp : st.threads n = .looping) : Does st (.thread n) st
  | leaves {n : ℕ} (hp : st.threads n = .looping) :
      Does st (.thread n) (st.threadAt n .leaving)
  | ends {n : ℕ} (hp : st.threads n = .leaving) :
      Does st (.thread n) ({ st with threadSem := st.threadSem.give }.threadAt n .ended)

variable {st st' : Sems ι} {e : Event ι}

/-- **What an event does** is one of these. -/
theorem does_of_step (h : st.step e = some st') : st.Does e st' := by
  cases e with
  | start i =>
      simp only [step, uploadStart] at h
      split at h
      · rename_i hp
        split at h
        · rename_i hnone
          cases h
          exact .alreadyStarted hp (Semaphore.take?_eq_none_iff.mp hnone)
        · rename_i sem htake
          cases h
          exact .startTakes hp htake
      · rename_i hp
        cases h
        exact .creates hp
      · cases h
  | stop i =>
      simp only [step, uploadStop] at h
      split at h
      · rename_i hp
        split at h
        · rename_i sem htake
          cases h
          exact .stopTakes hp htake
        · rename_i hnone
          cases h
          exact .requests hp (Semaphore.take?_eq_none_iff.mp hnone)
      · rename_i hp
        cases h
        exact .givesBack hp
      · rename_i hp
        cases h
        exact .signals hp
      · rename_i hp
        obtain ⟨sem, htake, rfl⟩ := Option.map_eq_some_iff.mp h
        exact .awaits hp htake
      · rename_i hp
        cases h
        exact .releases hp
      · rename_i hp
        obtain ⟨sem, htake, rfl⟩ := Option.map_eq_some_iff.mp h
        exact .resets hp htake
      · cases h
  | thread n =>
      simp only [step, uploadMain] at h
      split at h
      · rename_i hp
        split at h
        · cases h
          exact .enters hp
        · rename_i sem htake
          cases h
          exact .enterTakes hp htake
      · rename_i hp
        split at h
        · cases h
          exact .loops hp
        · cases h
          exact .leaves hp
      · rename_i hp
        cases h
        exact .ends hp
      · cases h
      · cases h

/-! ## One permit -/

/-- Who holds the permit of `upload_thread_sem`: a command that has taken it, or a thread that has
been created with it. -/
def Holds (st : Sems ι) : ι ⊕ ℕ → Prop
  | .inl i => st.shells i = .creating ∨ st.shells i = .notRunning ∨ st.shells i = .exited
  | .inr n => (st.threads n).Live

/-- Where the contexts are, when one has gone on. -/
theorem shellAt_shells (st : Sems ι) (i : ι) (p : ShellPoint) (j : ι) :
    (st.shellAt i p).shells j = if j = i then p else st.shells j :=
  Function.update_apply _ _ _ _

omit [DecidableEq ι] in
/-- Where the threads are. -/
theorem threadAt_threads (st : Sems ι) (n : ℕ) (t : ThreadPoint) (m : ℕ) :
    (st.threadAt n t).threads m = if m = n then t else st.threads m :=
  Function.update_apply _ _ _ _

/-- The others hold it as before. -/
theorem holds_shellAt {i : ι} {p : ShellPoint} {w : ι ⊕ ℕ} (h : (st.shellAt i p).Holds w) :
    (w = .inl i ∧ (p = .creating ∨ p = .notRunning ∨ p = .exited)) ∨ (st.Holds w ∧ w ≠ .inl i) := by
  rcases w with j | n
  · simp only [Holds, shellAt_shells] at h
    by_cases hj : j = i
    · rw [if_pos hj] at h
      exact Or.inl ⟨congrArg Sum.inl hj, h⟩
    · rw [if_neg hj] at h
      exact Or.inr ⟨h, fun heq => hj (Sum.inl.inj heq)⟩
  · exact Or.inr ⟨h, Sum.inr_ne_inl⟩

omit [DecidableEq ι] in
/-- So do the other threads. -/
theorem holds_threadAt {n : ℕ} {t : ThreadPoint} {w : ι ⊕ ℕ} (h : (st.threadAt n t).Holds w) :
    (w = .inr n ∧ t.Live) ∨ (st.Holds w ∧ w ≠ .inr n) := by
  rcases w with j | m
  · exact Or.inr ⟨h, Sum.inl_ne_inr⟩
  · simp only [Holds, threadAt_threads] at h
    by_cases hm : m = n
    · rw [if_pos hm] at h
      exact Or.inl ⟨congrArg Sum.inr hm, h⟩
    · rw [if_neg hm] at h
      exact Or.inr ⟨h, fun heq => hm (Sum.inr.inj heq)⟩

/-- A command that goes on without the permit leaves it with the others. -/
theorem holds_of_holds_shellAt {i : ι} {p : ShellPoint} {w : ι ⊕ ℕ}
    (hp : ¬ (p = .creating ∨ p = .notRunning ∨ p = .exited)) (h : (st.shellAt i p).Holds w) :
    st.Holds w ∧ w ≠ .inl i :=
  (holds_shellAt h).resolve_left fun hw => hp hw.2

/-- **One permit**: every event keeps it in the semaphore or with one holder. -/
theorem permit_step (h : st.Does e st') (hpermit : st.threadSem.OnePermit st.Holds) :
    st'.threadSem.OnePermit st'.Holds := by
  cases h with
  | alreadyStarted _ _ => exact hpermit
  | @startTakes i sem _ htake | @stopTakes i sem _ htake | @awaits i sem _ htake =>
      refine hpermit.take (k := .inl i) htake fun w hw => ?_
      rcases holds_shellAt hw with ⟨rfl, -⟩ | ⟨hold, -⟩
      · exact Or.inl rfl
      · exact Or.inr hold
  | @creates i hp =>
      -- the command passes it on to the thread
      have hi : st.Holds (.inl i) := Or.inl hp
      refine hpermit.pass (k := .inr st.created) hi fun w hw => ?_
      obtain ⟨hw, hne⟩ := holds_of_holds_shellAt (by simp) hw
      rcases holds_threadAt hw with ⟨rfl, -⟩ | ⟨hold, -⟩
      · exact Or.inl rfl
      · exact Or.inr ⟨hold, hne⟩
  | @requests i _ _ | @signals i _ | @resets i _ _ _ =>
      exact hpermit.mono fun w hw => (holds_of_holds_shellAt (by simp) hw).1
  | @givesBack i hp =>
      have hi : st.Holds (.inl i) := Or.inr (Or.inl hp)
      exact hpermit.give hi fun w hw => holds_of_holds_shellAt (by simp) hw
  | @releases i hp =>
      have hi : st.Holds (.inl i) := Or.inr (Or.inr hp)
      exact hpermit.give hi fun w hw => holds_of_holds_shellAt (by simp) hw
  | @enters n hp =>
      refine hpermit.mono fun w hw => ?_
      rcases holds_threadAt hw with ⟨rfl, -⟩ | ⟨hold, -⟩
      · exact Or.inl hp
      · exact hold
  | @enterTakes n sem hp htake =>
      have hn : st.Holds (.inr n) := Or.inl hp
      exact absurd (hpermit.empty _ hn) (Semaphore.take?_eq_some htake).1
  | loops _ => exact hpermit
  | @leaves n hp =>
      refine hpermit.mono fun w hw => ?_
      rcases holds_threadAt hw with ⟨rfl, -⟩ | ⟨hold, -⟩
      · exact Or.inr (Or.inl hp)
      · exact hold
  | @ends n hp =>
      have hn : st.Holds (.inr n) := Or.inr (Or.inr hp)
      refine hpermit.give hn fun w hw => ?_
      rcases holds_threadAt hw with ⟨-, h | h | h⟩ | hold
      · cases h
      · cases h
      · cases h
      · exact hold

omit [DecidableEq ι] in
/-- So there is at most one thread. -/
theorem unique_of_permit (h : st.threadSem.OnePermit st.Holds) (m n : ℕ)
    (hm : (st.threads m).Live) (hn : (st.threads n).Live) : m = n :=
  Sum.inr.inj (h.unique (.inr m) (.inr n) hm hn)

omit [DecidableEq ι] in
/-- It lies in the semaphore at the start. -/
theorem permit_boot : (boot : Sems ι).threadSem.OnePermit (boot : Sems ι).Holds := by
  have hnone : ∀ w, ¬ (boot : Sems ι).Holds w := by
    rintro (i | n) (h | h | h) <;> cases h
  exact ⟨fun w hw => absurd hw (hnone w), fun w _ hw => absurd hw (hnone w)⟩

/-! ## Sound states -/

/-- A context that has gone on to another point was there before. -/
theorem shells_of_shellAt {i j : ι} {p q : ShellPoint} (h : (st.shellAt i p).shells j = q)
    (hne : p ≠ q) : st.shells j = q := by
  rw [shellAt_shells] at h
  split at h
  · exact absurd h hne
  · exact h

omit [DecidableEq ι] in
/-- A state stays sound if no context comes to create a thread or to signal, and the count of
`upload_thread_exit_sem` does not grow. -/
theorem Sound.of_shells (h : st.Sound) (hpermit : st'.threadSem.OnePermit st'.Holds)
    (hcreating : ∀ j, st'.shells j = .creating → st.shells j = .creating)
    (hsignalling : ∀ j, st'.shells j = .signalling → st.shells j = .signalling)
    (hexit : st'.exitSem.count ≤ st.exitSem.count) : st'.Sound where
  unique := unique_of_permit hpermit
  exit_zero j hj := Nat.le_zero.mp (hexit.trans_eq (h.exit_zero j (hcreating j hj)))
  no_request j k hj hk := h.no_request j k (hcreating j hj) (hsignalling k hk)

/-- So it does when a context goes on to another point, where it does neither. -/
theorem Sound.of_shellAt {i : ι} {p : ShellPoint} {mid : Sems ι} (h : st.Sound)
    (hpermit : (mid.shellAt i p).threadSem.OnePermit (mid.shellAt i p).Holds)
    (hshells : mid.shells = st.shells) (hexit : mid.exitSem.count ≤ st.exitSem.count)
    (hcreating : p ≠ .creating) (hsignalling : p ≠ .signalling) : (mid.shellAt i p).Sound :=
  h.of_shells hpermit
    (fun _ hj => hshells ▸ shells_of_shellAt hj hcreating)
    (fun _ hj => hshells ▸ shells_of_shellAt hj hsignalling) hexit

/-- **A start that has taken the semaphore** is sound when `upload_thread_exit_sem` is zero and no
request is on its way. -/
theorem sound_startTakes_iff {i : ι} {sem : Semaphore 1} (hp : st.shells i = .prompt)
    (hpermit : sem.OnePermit ({ st with threadSem := sem }.shellAt i .creating).Holds) :
    ({ st with threadSem := sem }.shellAt i .creating).Sound ↔
      st.exitSem.count = 0 ∧ ∀ j, st.shells j ≠ .signalling := by
  have hi : ({ st with threadSem := sem }.shellAt i .creating).shells i = .creating := by
    rw [shellAt_shells, if_pos rfl]
  constructor
  · intro h
    refine ⟨h.exit_zero i hi, fun j hj => h.no_request i j hi ?_⟩
    have hne : j ≠ i := by
      rintro rfl
      cases hp.symm.trans hj
    rw [shellAt_shells, if_neg hne]
    exact hj
  · rintro ⟨hexit, hnone⟩
    refine ⟨unique_of_permit hpermit, fun j _ => hexit, fun j k _ hk => ?_⟩
    have hold : st.shells k = .signalling := shells_of_shellAt hk (by decide)
    exact hnone k hold

/-- **A stop that requests the exit** is sound when no start is about to create a thread. -/
theorem sound_requests_iff {i : ι} (hp : st.shells i = .prompt) (hsound : st.Sound) :
    (st.shellAt i .signalling).Sound ↔ ∀ j, st.shells j ≠ .creating := by
  have hi : (st.shellAt i .signalling).shells i = .signalling := by
    rw [shellAt_shells, if_pos rfl]
  constructor
  · intro h j hj
    have hne : j ≠ i := by
      rintro rfl
      cases hp.symm.trans hj
    refine h.no_request j i ?_ hi
    rw [shellAt_shells, if_neg hne]
    exact hj
  · intro hnone
    have hstart : ∀ j, (st.shellAt i .signalling).shells j ≠ .creating :=
      fun j hj => hnone j (shells_of_shellAt hj (by decide))
    exact ⟨hsound.unique, fun j hj => absurd hj (hstart j), fun j _ hj => absurd hj (hstart j)⟩

/-- **A sound state stays sound exactly where the event is clear.** -/
theorem sound_iff_clear_step (h : st.Does e st') (hpermit : st.threadSem.OnePermit st.Holds)
    (hsound : st.Sound) : st'.Sound ↔ st.Clear e := by
  have hpermit' := permit_step h hpermit
  cases h with
  | alreadyStarted hp hcount =>
      exact iff_of_true hsound fun _ hne => absurd hcount hne
  | startTakes hp htake =>
      have hne := (Semaphore.take?_eq_some htake).1
      refine (sound_startTakes_iff hp hpermit').trans ?_
      exact ⟨fun h _ _ => h, fun h => h hp hne⟩
  | creates hp =>
      refine iff_of_true (hsound.of_shellAt hpermit' rfl (Nat.le_refl _) (by decide) (by decide)) ?_
      intro hprompt
      cases hp.symm.trans hprompt
  | stopTakes hp htake =>
      refine iff_of_true (hsound.of_shellAt hpermit' rfl (Nat.le_refl _) (by decide) (by decide)) ?_
      exact fun _ hcount => absurd hcount (Semaphore.take?_eq_some htake).1
  | requests hp hcount =>
      rw [sound_requests_iff hp hsound]
      exact ⟨fun h _ _ => h, fun h => h hp hcount⟩
  | givesBack hp | awaits hp htake | releases hp =>
      refine iff_of_true (hsound.of_shellAt hpermit' rfl (Nat.le_refl _) (by decide) (by decide)) ?_
      intro hprompt
      cases hp.symm.trans hprompt
  | @signals i hp =>
      -- no start is about to create a thread, for the request was on its way
      have hnone : ∀ j, (({ st with exitSem := st.exitSem.give }.shellAt i .waiting).shells j) ≠
          .creating := by
        intro j hj
        have hold : st.shells j = .creating := shells_of_shellAt hj (by decide)
        exact hsound.no_request j i hold hp
      refine iff_of_true ⟨unique_of_permit hpermit', ?_, ?_⟩ fun hprompt => ?_
      · exact fun j hj => absurd hj (hnone j)
      · exact fun j _ hj => absurd hj (hnone j)
      · cases hp.symm.trans hprompt
  | resets hp htake =>
      have hle := (Semaphore.take?_eq_some htake).2.trans_le (Nat.sub_le _ 1)
      refine iff_of_true (hsound.of_shellAt hpermit' rfl hle (by decide) (by decide)) ?_
      intro hprompt
      cases hp.symm.trans hprompt
  | enters hp | enterTakes hp htake | leaves hp | ends hp =>
      have hsame := hsound.of_shells hpermit' (fun _ h => h) (fun _ h => h) (Nat.le_refl _)
      exact iff_of_true hsame trivial
  | loops hp => exact iff_of_true hsound trivial

/-! ## Runs -/

/-- An event that cannot happen is clear. -/
theorem clear_of_none (h : st.step e = none) : st.Clear e := by
  cases e with
  | start i =>
      intro hp
      simp only [step, uploadStart, hp] at h
      split at h <;> cases h
  | stop i =>
      intro hp
      simp only [step, uploadStop, hp] at h
      split at h <;> cases h
  | thread n => trivial

omit [DecidableEq ι] in
/-- The state at the start is sound. -/
theorem sound_boot : (boot : Sems ι).Sound where
  unique := unique_of_permit permit_boot
  exit_zero i h := by cases h
  no_request i j h := by cases h

/-- **There is at most one upload thread**, in every state of every run. -/
theorem uploadThread_unique {es : List (Event ι)} (h : run step boot es = some st) (m n : ℕ)
    (hm : (st.threads m).Live) (hn : (st.threads n).Live) : m = n := by
  have hpermit : st.threadSem.OnePermit st.Holds :=
    run_invariant (fun st : Sems ι => st.threadSem.OnePermit st.Holds)
      (fun _ _ _ hstep => permit_step (does_of_step hstep)) permit_boot h
  exact unique_of_permit hpermit m n hm hn

/-- **When the states of a run are sound**: exactly if its events are clear, that is no start takes
the semaphore while a stop is between its two steps, and no stop finds it taken while a start is
between its own. -/
theorem sound_iff_clear (es : List (Event ι)) :
    Along step Sound (boot : Sems ι) es ↔ Meets step Clear (boot : Sems ι) es :=
  along_iff_meets (fun _ _ _ hstep => permit_step (does_of_step hstep))
    (fun _ _ _ hstep hpermit hsound => sound_iff_clear_step (does_of_step hstep) hpermit hsound)
    (fun _ _ => clear_of_none) permit_boot sound_boot

/-- A start by one context, a stop by it, and a start by another context before the stop takes
`upload_thread_exit_sem` back. -/
def startBetween : List (Event ℕ) :=
  [.start 0, .start 0, .thread 0, .stop 0, .stop 0, .thread 0, .thread 0, .stop 0, .stop 0,
    .start 1]

/-- Counterexample: the count of `upload_thread_exit_sem` is 1 when the second thread is created. -/
theorem not_sound_startBetween : ¬ Along step Sound (boot : Sems ℕ) startBetween := by
  intro h
  have hrun : ∃ st, run step boot startBetween = some st ∧ st.shells 1 = .creating ∧
      st.exitSem.count = 1 := ⟨_, rfl, rfl, rfl⟩
  obtain ⟨st, hst, hcreating, hcount⟩ := hrun
  have hzero := (h.of_run hst).exit_zero 1 hcreating
  cases hzero.symm.trans hcount

end Sems

end AnylWallet.Zephyr
