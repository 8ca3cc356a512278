import AnylWallet.FishSupply.SawtoothShell

/-!
# `demo_shell`: the thread of the supply chain demo

* `uploadLine` is the text that `upload_main` executes at each turn: a new agent, the identifier and the
  species of a record, the record, and then updates without end. The shell of Zephyr is third-party
  code: any `ZephyrShell`, which finds the command of a line in the tables of `sawtooth_shell`.
* Between its lines the user may enter measurements (`StStep.IsSetting`); commands are run one at a
  time. `demoSteps` is what is run in the first turns.
* `demo_submits`: **at every turn** the thread has POSTed one agent, one record, and an update of this
  same record for each round, with what the user has entered last.
-/

namespace AnylWallet.FishSupply

open AnylWallet.Lib AnylWallet.Helpers AnylWallet.Sawtooth

/-! ## The shell -/

/-- Where a command is in the tables `sub_st` and `sub_st_record`. Source: `app/sawtooth_shell.c` -/
def StCommand.path : StCommand → List String
  | .createAgent => ["st", "create_agent"]
  | .createRecord => ["st", "create_record"]
  | .recordPrint => ["st", "record"]
  | .recordId => ["st", "record", "id"]
  | .recordLatitude => ["st", "record", "latitude"]
  | .recordLength => ["st", "record", "length"]
  | .recordLongitude => ["st", "record", "longitude"]
  | .recordSpecies => ["st", "record", "species"]
  | .recordWeight => ["st", "record", "weight"]
  | .updateRecord => ["st", "update_record"]

/-- The name of a command. -/
def StCommand.name (c : StCommand) : List UInt8 := ascii (c.path.getLastD "")

/-- Words with blanks between them. -/
def lineOf (words : List (List UInt8)) : List UInt8 := [' '.toUInt8].intercalate words

/-- A character that the shell reads as it is: no blank, no quote, no backslash, no wildcard. -/
def IsPlain (b : UInt8) : Prop :=
  33 ≤ b ∧ b ≤ 126 ∧ b ≠ '"'.toUInt8 ∧ b ≠ 39 ∧ b ≠ 92 ∧ b ≠ '*'.toUInt8 ∧ b ≠ '?'.toUInt8

instance (b : UInt8) : Decidable (IsPlain b) := inferInstanceAs (Decidable (_ ∧ _))

/-- A word that the shell reads as it is. -/
def IsWord (w : List UInt8) : Prop := w ≠ [] ∧ ∀ b ∈ w, IsPlain b

/-- **The shell**: the command that it finds in a line, and its arguments. `sub_st_record` has commands
of its own, so the words behind `record` need not be arguments. -/
structure ZephyrShell where
  execute : List UInt8 → Option (StCommand × List (List UInt8))
  execute_line : ∀ (c : StCommand) (args : List (List UInt8)), c ≠ .recordPrint → args.length ≤ 1 →
    (∀ a ∈ args, IsWord a) → (lineOf (c.path.map ascii ++ args)).length < 64 →
    execute (lineOf (c.path.map ascii ++ args)) = some (c, c.name :: args)

/-- `shell_execute_cmd`: a line without a command does nothing. -/
def ZephyrShell.steps (sh : ZephyrShell) (call : StCall) (line : List UInt8) : List StStep :=
  ((sh.execute line).map fun (c, argv) => ⟨c, call, argv⟩).toList

/-- The words behind these. -/
def wordsBehind : List (List UInt8) → List (List UInt8) → Option (List (List UInt8))
  | [], words => some words
  | _ :: _, [] => none
  | p :: path, w :: words => if p = w then wordsBehind path words else none

/-- The commands, `record` behind those of `sub_st_record`. -/
def commands : List StCommand :=
  [.createAgent, .createRecord, .updateRecord, .recordId, .recordLatitude, .recordLength,
    .recordLongitude, .recordSpecies, .recordWeight, .recordPrint]

/-- Such a shell splits its lines at the blanks. -/
def splittingShell : ZephyrShell where
  execute line := commands.findSome? fun c =>
    (wordsBehind (c.path.map ascii) (line.splitOn ' '.toUInt8)).map fun args => (c, c.name :: args)
  execute_line := by
    intro c args hc _ hplain _
    have hpath : ∀ c : StCommand, ∀ w ∈ c.path.map ascii, ' '.toUInt8 ∉ w := by
      intro c
      cases c <;> decide
    have hwords : ∀ w ∈ c.path.map ascii ++ args, ' '.toUInt8 ∉ w := by
      intro w hw hblank
      rcases List.mem_append.mp hw with hw | hw
      · exact hpath c w hw hblank
      · exact absurd ((hplain w hw).2 _ hblank) (by decide)
    have hne : c.path.map ascii ++ args ≠ [] := by
      cases c <;> exact List.cons_ne_nil _ _
    have hsplit : (lineOf (c.path.map ascii ++ args)).splitOn ' '.toUInt8 =
        c.path.map ascii ++ args := List.splitOn_intercalate _ hwords hne
    rw [hsplit]
    cases c with
    | recordPrint => exact absurd rfl hc
    | createAgent => rfl
    | createRecord => rfl
    | updateRecord => rfl
    | recordId => rfl
    | recordLatitude => rfl
    | recordLength => rfl
    | recordLongitude => rfl
    | recordSpecies => rfl
    | recordWeight => rfl

/-! ## The thread -/

/-- `snprintf` of a text into a buffer of this size. -/
def snprintf (size : ℕ) (text : List UInt8) : List UInt8 := text.take (size - 1)

/-- The agent. -/
def agentName (agent : UInt32) : List UInt8 := ascii "A-" ++ numeral 10 (agent % 10000).toNat

/-- The identifier of the record. -/
def recordName (rnd : UInt32) : List UInt8 := ascii "R-" ++ numeral 10 (rnd % 10000).toNat

/-- The species: the letter may be one behind `Z`. -/
def speciesName (rnd : UInt32) : List UInt8 := ascii "FA" ++ [(65 + rnd % 27).toUInt8]

/-- The line that `upload_main` executes at a turn; `agent` and `rnd` are what `sys_rand32_get` returns.
Source: `app/demo_shell.c` -/
def uploadLine (agent rnd : UInt32) : ℕ → List UInt8
  | 0 => snprintf 64 (ascii "st create_agent " ++ agentName agent)
  | 1 => snprintf 64 (ascii "st record id " ++ recordName rnd)
  | 2 => snprintf 64 (ascii "st record species " ++ speciesName rnd)
  | 3 => ascii "st create_record"
  | _ => ascii "st update_record"

/-- A command that sets a measurement, or shows the record. -/
def StStep.IsSetting (s : StStep) : Prop :=
  s.command ∈ [.recordWeight, .recordLength, .recordLatitude, .recordLongitude, .recordPrint]

/-- What the user enters before a turn of the thread, and what the turn meets. -/
structure Turn where
  user : List StStep
  call : StCall

/-- What is run in the first turns. -/
def demoSteps (sh : ZephyrShell) (agent rnd : UInt32) (turns : ℕ → Turn) (n : ℕ) : List StStep :=
  (List.range n).flatMap fun i =>
    (turns i).user ++ sh.steps (turns i).call (uploadLine agent rnd i)

/-- What the user enters in them. -/
def userSteps (turns : ℕ → Turn) (n : ℕ) : List StStep :=
  (List.range n).flatMap fun i => (turns i).user

/-- The entries of the user, with the identifier and the species of the thread. -/
def Entries.ofDemo (e : Entries) (rnd : UInt32) : Entries :=
  { e with id := recordName rnd, species := speciesName rnd }

/-- **What a turn is to submit** behind these steps. -/
def demoSubmission (agent rnd : UInt32) (turns : ℕ → Turn) (before : List StStep) (i : ℕ) :
    Option (StCall × Submission) :=
  let e := (Entries.after (before ++ userSteps turns (i + 1))).ofDemo rnd
  match i with
  | 0 => some ((turns i).call, .createAgent (agentName agent))
  | 1 | 2 => none
  | 3 => some ((turns i).call, .createRecord (recordName rnd) (ascii "fish") e.properties)
  | _ => some ((turns i).call, .updateProperties (recordName rnd) e.properties)

/-! ## A line -/

/-- The command of a turn. -/
def demoStep (agent rnd : UInt32) (call : StCall) : ℕ → StStep
  | 0 => ⟨.createAgent, call, [ascii "create_agent", agentName agent]⟩
  | 1 => ⟨.recordId, call, [ascii "id", recordName rnd]⟩
  | 2 => ⟨.recordSpecies, call, [ascii "species", speciesName rnd]⟩
  | 3 => ⟨.createRecord, call, [ascii "create_record"]⟩
  | _ => ⟨.updateRecord, call, [ascii "update_record"]⟩

/-- The characters are looked at one after the other. -/
theorem isWord_of_all {w : List UInt8} (hne : w.isEmpty = false)
    (hall : (w.all fun b => decide (IsPlain b)) = true) : IsWord w :=
  ⟨List.isEmpty_eq_false_iff.mp hne, fun b hb => of_decide_eq_true (List.all_eq_true.mp hall b hb)⟩

/-- A text with a number below 10000 behind it is a word, with four digits at most. -/
theorem isWord_numbered {head : List UInt8} (hhead : IsWord head) (n : UInt32) :
    IsWord (head ++ numeral 10 (n % 10000).toNat) ∧
      (head ++ numeral 10 (n % 10000).toNat).length ≤ head.length + 4 := by
  have hdigit : ∀ d, d < 10 → IsPlain (digit d) := by decide
  have hlt : (n % 10000).toNat < 10 ^ 4 := by
    rw [UInt32.toNat_mod]
    exact Nat.mod_lt _ (by decide)
  refine ⟨⟨List.append_ne_nil_of_left_ne_nil hhead.1 _, fun b hb => ?_⟩, ?_⟩
  · rcases List.mem_append.mp hb with hb | hb
    · exact hhead.2 b hb
    · obtain ⟨d, hd, rfl⟩ := exists_digit_of_mem_numeral (by decide) hb
      exact hdigit d hd
  · rw [List.length_append]
    exact Nat.add_le_add_left (length_numeral_le (by decide) (by decide) hlt) _

/-- The names of the thread are short words. -/
theorem agentName_word (agent : UInt32) : IsWord (agentName agent) ∧ (agentName agent).length ≤ 6 :=
  isWord_numbered (isWord_of_all rfl (by decide)) agent

theorem recordName_word (rnd : UInt32) : IsWord (recordName rnd) ∧ (recordName rnd).length ≤ 6 :=
  isWord_numbered (isWord_of_all rfl (by decide)) rnd

theorem speciesName_word (rnd : UInt32) : IsWord (speciesName rnd) := by
  have hall : ∀ k : ℕ, k < 27 → ((ascii "FA" ++ [(65 + UInt32.ofNat k).toUInt8]).all fun b =>
      decide (IsPlain b)) = true := by decide
  have hlt : (rnd % 27).toNat < 27 := by
    rw [UInt32.toNat_mod]
    exact Nat.mod_lt _ (by decide)
  have hword := hall _ hlt
  rw [UInt32.ofNat_toNat] at hword
  exact isWord_of_all rfl hword

/-- A line of one more word. -/
theorem lineOf_concat {words : List (List UInt8)} (h : words ≠ []) (arg : List UInt8) :
    lineOf (words ++ [arg]) = lineOf words ++ [' '.toUInt8] ++ arg := by
  unfold lineOf
  induction words with
  | nil => exact absurd rfl h
  | cons w words ih =>
      cases words with
      | nil => simp
      | cons w' words =>
          have hrest := ih (List.cons_ne_nil _ _)
          rw [List.cons_append] at hrest
          rw [List.cons_append, List.cons_append, List.intercalate_cons_cons, hrest,
            List.intercalate_cons_cons]
          simp only [List.append_assoc]

/-- A line of the thread that has an argument. -/
theorem steps_arg (sh : ZephyrShell) (call : StCall) {c : StCommand} (hc : c ≠ .recordPrint)
    {text arg : List UInt8} (htext : lineOf (c.path.map ascii) ++ [' '.toUInt8] = text)
    (hne : c.path.map ascii ≠ []) (hword : IsWord arg) (hlen : text.length + arg.length < 64) :
    sh.steps call (snprintf 64 (text ++ arg)) = [⟨c, call, [c.name, arg]⟩] := by
  have hline : text ++ arg = lineOf (c.path.map ascii ++ [arg]) := by
    rw [lineOf_concat hne, htext]
  have hfits : (text ++ arg).length < 64 := by
    rw [List.length_append]
    exact hlen
  rw [snprintf, List.take_of_length_le (Nat.le_of_lt_succ hfits), ZephyrShell.steps, hline,
    sh.execute_line c [arg] hc le_rfl (by simpa using hword) (hline ▸ hfits)]
  rfl

/-- A line of the thread that has none. -/
theorem steps_noArg (sh : ZephyrShell) (call : StCall) {c : StCommand} (hc : c ≠ .recordPrint)
    {text : List UInt8} (htext : text = lineOf (c.path.map ascii)) (hlen : text.length < 64) :
    sh.steps call text = [⟨c, call, [c.name]⟩] := by
  have hline : text = lineOf (c.path.map ascii ++ []) := by rw [List.append_nil, htext]
  rw [ZephyrShell.steps, hline,
    sh.execute_line c [] hc (Nat.zero_le _) (by simp) (hline ▸ hlen)]
  rfl

/-- **What a turn of the thread executes.** -/
theorem steps_uploadLine (sh : ZephyrShell) (agent rnd : UInt32) (call : StCall) (i : ℕ) :
    sh.steps call (uploadLine agent rnd i) = [demoStep agent rnd call i] := by
  have hagent : (ascii "st create_agent ").length = 16 := rfl
  have hid : (ascii "st record id ").length = 13 := rfl
  match i with
  | 0 =>
      obtain ⟨hword, hlen⟩ := agentName_word agent
      exact steps_arg sh call (c := .createAgent) (by decide) rfl (by decide) hword (by omega)
  | 1 =>
      obtain ⟨hword, hlen⟩ := recordName_word rnd
      exact steps_arg sh call (c := .recordId) (by decide) rfl (by decide) hword (by omega)
  | 2 =>
      exact steps_arg sh call (c := .recordSpecies) (by decide) rfl (by decide) (speciesName_word rnd)
        (show 18 + 3 < 64 by decide)
  | 3 =>
      exact steps_noArg sh call (c := .createRecord) (by decide) rfl
        (show (ascii "st create_record").length < 64 by decide)
  | i + 4 =>
      exact steps_noArg sh call (c := .updateRecord) (by decide) rfl
        (show (ascii "st update_record").length < 64 by decide)

/-! ## The turns -/

/-- The entries of the user behind this many turns, with what the thread has entered by then. -/
def Entries.atTurn (e : Entries) (rnd : UInt32) (n : ℕ) : Entries :=
  { e with
    id := if 1 < n then recordName rnd else e.id
    species := if 2 < n then speciesName rnd else e.species }

/-- A setting of the user is neither of the two, and submits nothing. -/
theorem update_of_isSetting {s : StStep} (h : s.IsSetting) (e : Entries) (rnd : UInt32) (n : ℕ) :
    (e.atTurn rnd n).update s = (e.update s).atTurn rnd n ∧ ∀ e, s.submission e = none := by
  obtain ⟨command, call, argv⟩ := s
  have hcommand : command = .recordWeight ∨ command = .recordLength ∨ command = .recordLatitude ∨
      command = .recordLongitude ∨ command = .recordPrint := by
    simpa [StStep.IsSetting] using h
  rcases hcommand with rfl | rfl | rfl | rfl | rfl
  all_goals
    refine ⟨?_, fun _ => rfl⟩
    cases hargv : argv[1]? with
    | none => simp [Entries.update, Entries.atTurn, hargv]
    | some arg => simp [Entries.update, Entries.atTurn, hargv]

/-- Settings of the user behind the steps of some turns. -/
theorem after_settings {steps base user : List StStep} {rnd : UInt32} {n : ℕ}
    (huser : ∀ s ∈ user, s.IsSetting)
    (h : Entries.after steps = (Entries.after base).atTurn rnd n) :
    Entries.after (steps ++ user) = (Entries.after (base ++ user)).atTurn rnd n ∧
      submissions (steps ++ user) = submissions steps := by
  induction user using List.reverseRecOn with
  | nil => simpa using h
  | append_singleton user s ih =>
      obtain ⟨hafter, hsubmissions⟩ := ih fun t ht => huser t (List.mem_append_left _ ht)
      obtain ⟨hupdate, hnone⟩ := @update_of_isSetting s (huser s (by simp))
        (Entries.after (base ++ user)) rnd n
      rw [← List.append_assoc, ← List.append_assoc, Entries.after_concat, Entries.after_concat,
        submissions_concat, hafter, hupdate, hsubmissions, hnone]
      simp

/-- The front of a word that is shorter. -/
theorem IsWord.front_eq {n : ℕ} {w : List UInt8} (h : IsWord w) (hlen : w.length ≤ n) :
    front n w = w := by
  have hne : ∀ b ∈ w, decide (b ≠ 0) = true := by
    intro b hb
    have hpos : (33 : UInt8) ≤ b := (h.2 b hb).1
    refine decide_eq_true ?_
    rintro rfl
    exact absurd hpos (by decide)
  rw [front, List.takeWhile_eq_self_iff.mpr hne, List.take_of_length_le hlen]

/-- **What a turn of the thread does to the entries.** -/
theorem demoStep_update (agent rnd : UInt32) (call : StCall) (e : Entries) (n : ℕ) :
    (e.atTurn rnd n).update (demoStep agent rnd call n) = e.atTurn rnd (n + 1) := by
  have hid := (recordName_word rnd).1.front_eq ((recordName_word rnd).2.trans (by decide : 6 ≤ 15))
  have hspecies := (speciesName_word rnd).front_eq (le_refl 3)
  match n with
  | 0 => rfl
  | 1 => simp [Entries.update, Entries.atTurn, demoStep, hid]
  | 2 => simp [Entries.update, Entries.atTurn, demoStep, hspecies]
  | 3 => rfl
  | n + 4 => simp [Entries.update, Entries.atTurn, demoStep]

/-- What it submits, with the entries of the user. -/
theorem demoStep_submission (agent rnd : UInt32) (turns : ℕ → Turn) (before : List StStep) (n : ℕ) :
    ((demoStep agent rnd (turns n).call n).submission
        ((Entries.after (before ++ userSteps turns (n + 1))).atTurn rnd n)).map
      ((demoStep agent rnd (turns n).call n).call, ·) =
      demoSubmission agent rnd turns before n := by
  match n with
  | 0 => rfl
  | 1 => rfl
  | 2 => rfl
  | 3 => rfl
  | n + 4 => simp [demoSubmission, demoStep, StStep.submission, Entries.atTurn, Entries.ofDemo]

variable {sh : ZephyrShell} {agent rnd : UInt32} {turns : ℕ → Turn} {before : List StStep}

/-- The steps of one more turn. -/
theorem demoSteps_succ (n : ℕ) :
    demoSteps sh agent rnd turns (n + 1) = demoSteps sh agent rnd turns n ++ (turns n).user ++
      [demoStep agent rnd (turns n).call n] := by
  rw [demoSteps, List.range_succ, List.flatMap_append, List.flatMap_singleton, steps_uploadLine,
    List.append_assoc, demoSteps]

/-- So for the user. -/
theorem userSteps_succ (n : ℕ) : userSteps turns (n + 1) = userSteps turns n ++ (turns n).user := by
  rw [userSteps, List.range_succ, List.flatMap_append, List.flatMap_singleton, userSteps]

/-- **What the first turns have entered and submitted.** -/
theorem demoSteps_spec (hturns : ∀ i, ∀ s ∈ (turns i).user, s.IsSetting) (n : ℕ) :
    Entries.after (before ++ demoSteps sh agent rnd turns n) =
        (Entries.after (before ++ userSteps turns n)).atTurn rnd n ∧
      submissions (before ++ demoSteps sh agent rnd turns n) =
        submissions before ++ (List.range n).filterMap (demoSubmission agent rnd turns before) := by
  induction n with
  | zero =>
      simp only [demoSteps, userSteps, List.range_zero, List.flatMap_nil, List.append_nil,
        List.filterMap_nil, and_true]
      rfl
  | succ n ih =>
      obtain ⟨hafter, hsubmissions⟩ := ih
      obtain ⟨hafter', hsubmissions'⟩ := after_settings (hturns n) hafter
      rw [List.append_assoc before (userSteps turns n), ← userSteps_succ] at hafter'
      rw [demoSteps_succ, ← List.append_assoc, ← List.append_assoc]
      constructor
      · rw [Entries.after_concat, hafter', demoStep_update]
      · have hlast : [n].filterMap (demoSubmission agent rnd turns before) =
            (demoSubmission agent rnd turns before n).toList := by
          cases hcase : demoSubmission agent rnd turns before n with
          | none => simp [hcase]
          | some x => simp [hcase]
        rw [submissions_concat, hafter', demoStep_submission, hsubmissions', hsubmissions,
          List.range_succ, List.filterMap_append, hlast, List.append_assoc]

/-- Every step of the turns leaves room for its transaction. -/
theorem demoSteps_fits (hturns : ∀ i, ∀ s ∈ (turns i).user, s.IsSetting) (n : ℕ) :
    ∀ s ∈ demoSteps sh agent rnd turns n, s.Fits := by
  have huser {s : StStep} (h : s.IsSetting) : s.Fits := by
    intro hcommand
    rw [StStep.IsSetting, hcommand] at h
    exact absurd h (by decide)
  have hthread (i : ℕ) : (demoStep agent rnd (turns i).call i).Fits := by
    match i with
    | 0 =>
        rintro - name hname
        obtain rfl : agentName agent = name := Option.some.inj hname
        exact (agentName_word agent).2.trans (by decide)
    | 1 => exact fun h => nomatch h
    | 2 => exact fun h => nomatch h
    | 3 => exact fun h => nomatch h
    | i + 4 => exact fun h => nomatch h
  intro s hs
  obtain ⟨i, -, hs⟩ := List.mem_flatMap.mp hs
  rcases List.mem_append.mp hs with hs | hs
  · exact huser (hturns i s hs)
  · rw [steps_uploadLine] at hs
    rw [List.mem_singleton.mp hs]
    exact hthread i

/-- **The demo at every turn.** Behind any commands, whatever the random numbers are and whatever
measurements the user enters between its lines, the thread has POSTed, each in one signed transaction
and in this order, a new agent, a record, and an update of this record for each round of its loop with
the last measurements. As in `submits_run`, the build is one without assertions. -/
theorem demo_submits {cr : StCrypto} {ecdsaGetPublicKey65 : Vector UInt8 32 → Vector UInt8 65}
    {pb : Nanopb} (hpb : pb.Standard) (writesEmpty : Bool)
    (hbefore : ∀ s ∈ before, s.Fits) (hturns : ∀ i, ∀ s ∈ (turns i).user, s.IsSetting) (n : ℕ) :
    ∃ record bodies sent,
      runSteps cr ecdsaGetPublicKey65 pb writesEmpty false initialRecord
        (before ++ demoSteps sh agent rnd turns n) = .ok (record, bodies ++ sent) ∧
      record.entries = (Entries.after (before ++ userSteps turns n)).atTurn rnd n ∧
      List.Forall₂ (Delivers cr ecdsaGetPublicKey65) (submissions before) bodies ∧
      List.Forall₂ (Delivers cr ecdsaGetPublicKey65)
        ((List.range n).filterMap (demoSubmission agent rnd turns before)) sent := by
  have hfits : ∀ s ∈ before ++ demoSteps sh agent rnd turns n, s.Fits := by
    intro s hs
    rcases List.mem_append.mp hs with hs | hs
    · exact hbefore s hs
    · exact demoSteps_fits hturns n s hs
  obtain ⟨record, bodies, hrun, hentries, hdelivers⟩ :=
    @submits_run cr ecdsaGetPublicKey65 pb hpb writesEmpty _ hfits
  obtain ⟨hafter, hsubmissions⟩ := @demoSteps_spec sh agent rnd turns before hturns n
  rw [hsubmissions] at hdelivers
  have hfirst := List.forall₂_take (submissions before).length hdelivers
  have hlast := List.forall₂_drop (submissions before).length hdelivers
  rw [List.take_left] at hfirst
  rw [List.drop_left] at hlast
  refine ⟨record, _, _, ?_, hentries.trans hafter, hfirst, hlast⟩
  rw [List.take_append_drop]
  exact hrun

/-- The user enters a weight before the last of six turns. -/
def sampleTurns (i : ℕ) : Turn where
  user :=
    if i = 5 then [⟨.recordWeight, sampleCall 6, [ascii "weight", ascii "13"]⟩] else []
  call := sampleCall (UInt64.ofNat i)

/-- The weight that is entered before the thread starts. -/
def sampleBefore : List StStep := [⟨.recordWeight, sampleCall 1, [ascii "weight", ascii "12"]⟩]

/-- `demo_submits` at the sixth turn. -/
theorem demo_submits_sample :
    ∃ record bodies sent,
      runSteps constantCrypto (fun _ => Vector.replicate 65 3) Nanopb.reference false false
        initialRecord (sampleBefore ++ demoSteps splittingShell 31415 27182 sampleTurns 6) =
          .ok (record, bodies ++ sent) ∧
      record.entries =
        (Entries.after (sampleBefore ++ userSteps sampleTurns 6)).atTurn 27182 6 ∧
      List.Forall₂ (Delivers constantCrypto fun _ => Vector.replicate 65 3)
        (submissions sampleBefore) bodies ∧
      List.Forall₂ (Delivers constantCrypto fun _ => Vector.replicate 65 3)
        ((List.range 6).filterMap (demoSubmission 31415 27182 sampleTurns sampleBefore)) sent := by
  refine demo_submits Nanopb.reference_standard false ?_ ?_ 6
  · intro s hs hcommand
    rw [List.mem_singleton.mp hs] at hcommand
    cases hcommand
  · intro i s hs
    rw [sampleTurns] at hs
    dsimp only at hs
    split at hs
    · rw [List.mem_singleton.mp hs]
      exact List.mem_cons_self
    · cases hs

end AnylWallet.FishSupply
