import AnylWallet.Eth.ReplyNodes
import AnylWallet.Helpers.TextNumbers

/-!
# The nodes of a reply that the decoders read as numbers

The decoders look for strings in the flat list of the nodes of a reply and read the node behind each as
its value. What they read is said here by the texts of the nodes alone.

* `idsTaken`, `errorsTaken` and `resultsTaken`: the strings `id`, `error` and `result` that are come to,
  with the nodes behind each.
* `ReadsId`, `ReadsResult`: the node behind one is a text that denotes a number (`DenotesUlong`,
  `DenotesHex`). `ReadsError`: it is an object, and `ErrorEntries` are the pairs of a string `code` or
  `message` and the node behind it among as many nodes as the object has names and values.
* `accepted_iff`: **the loops come to their ends** exactly where every such string is followed by what it
  asks for (`Accepted`). `lastId_iff`, `lastResult_iff`: the last numbers are the ones that they leave.
-/

namespace AnylWallet.Eth

open AnylWallet.Lib AnylWallet.Lib.Json AnylWallet.Helpers

/-! ## The strings that are come to -/

/-- The strings `id` that the first loop comes to, with what is behind each. A string `error` or `id`
counts wherever it stands, and the node behind it is passed over. -/
def idsTaken (l : List Node) : List (Node × List Node) :=
  (takes isHeadKey l).filter fun q => q.1.isString (ascii "id")

/-- The strings `error` that it comes to. -/
def errorsTaken (l : List Node) : List (Node × List Node) :=
  (takes isHeadKey l).filter fun q => q.1.isString (ascii "error")

/-- The strings `result` that the last loop comes to. -/
def resultsTaken (l : List Node) : List (Node × List Node) :=
  takes (Node.isString (ascii "result")) l

/-- The node behind a string `id` has a text that denotes this number. -/
def ReadsId (q : Node × List Node) (n : ℕ) : Prop :=
  ∃ v ∈ q.2.head?, isText v = true ∧ DenotesUlong v.text n

/-- The node behind a string `result` has a text that denotes this number. -/
def ReadsResult (q : Node × List Node) (n : ℕ) : Prop :=
  ∃ v ∈ q.2.head?, isText v = true ∧ DenotesHex v.text n

/-- The entries among the first nodes behind an error object, as many as are left: every node is a string
there but those behind a string `code`, which has a text that denotes a `long`, and those behind a
string `message`. -/
inductive ErrorEntries : ℕ → List Node → List (Node × Node) → Prop
  | done (l : List Node) : ErrorEntries 0 l []
  | other {left : ℕ} {n : Node} {l : List Node} {entries : List (Node × Node)}
      (hkind : n.kind = .string) (hkey : isErrorKey n = false) (h : ErrorEntries left l entries) :
      ErrorEntries (left + 1) (n :: l) entries
  | code {left : ℕ} {n v : Node} {l : List Node} {entries : List (Node × Node)} {z : ℤ}
      (hkey : n.isString (ascii "code") = true) (htext : isText v = true) (hz : DenotesLong v.text z)
      (h : ErrorEntries (left - 1) l entries) :
      ErrorEntries (left + 1) (n :: v :: l) ((n, v) :: entries)
  | message {left : ℕ} {n v : Node} {l : List Node} {entries : List (Node × Node)}
      (hkey : n.isString (ascii "message") = true) (h : ErrorEntries (left - 1) l entries) :
      ErrorEntries (left + 1) (n :: v :: l) ((n, v) :: entries)

/-- The node behind a string `error` is an object, and these are the entries among the nodes behind it,
of which there are two for each of its names. -/
def ReadsError (q : Node × List Node) (entries : List (Node × Node)) : Prop :=
  ∃ v ∈ q.2.head?, v.kind = .object ∧ ErrorEntries (2 * v.size) q.2.tail entries

/-- Every string that is come to is followed by what it asks for. -/
structure Accepted (l : List Node) : Prop where
  ids : ∀ q ∈ idsTaken l, ∃ n, ReadsId q n
  errors : ∀ q ∈ errorsTaken l, ∃ entries, ReadsError q entries
  results : ∀ q ∈ resultsTaken l, ∃ n, ReadsResult q n

/-! ## Numbers of nodes -/

variable {n : Node} {l rest : List Node}

/-- The number of a text that is read to its end. -/
theorem readOf_eq_some_iff {α : Type} {convert : List UInt8 → Converted α} {v : α} :
    readOf convert n = some v ↔ isText n = true ∧
      ((convert n.text).erange = false ∧ (convert n.text).size = n.text.length) ∧
        (convert n.text).value = v := by
  unfold readOf
  split_ifs with h
  · rw [Option.some.injEq]
    exact ⟨fun hv => ⟨h.1, h.2, hv⟩, fun hv => hv.2.2⟩
  · exact iff_of_false (fun hv => hv) fun hv => h ⟨hv.1, hv.2.1⟩

theorem uint10Of_eq_some_iff {v : UInt64} :
    uint10Of n = some v ↔ isText n = true ∧ DenotesUlong n.text v.toNat := by
  rw [uint10Of, readOf_eq_some_iff, ← strtoul_reads_iff, UInt64.toNat_inj]

theorem int10Of_eq_some_iff {z : ℤ} :
    int10Of n = some z ↔ isText n = true ∧ DenotesLong n.text z := by
  rw [int10Of, readOf_eq_some_iff, ← strtol_reads_iff]

/-- A text that denotes a hex number is short. -/
theorem length_lt_of_denotesHex {s : List UInt8} {m : ℕ} (h : DenotesHex s m) : s.length < 68 := by
  have hx : (ascii "0x").length = 2 := by decide
  have hshort := h.1.2
  rcases strip0x_cases s with hs | hs
  · rw [hs]
    omega
  · rw [hs, List.length_append, hx]
    omega

theorem hexOf_eq_some_iff {asserts : Bool} {v : Uint256} :
    hexOf asserts n = some v ↔ isText n = true ∧ DenotesHex n.text v.toNat := by
  rw [← fromstring256_reads_iff asserts clear256 v]
  unfold hexOf
  constructor
  · intro h
    split at h
    · rename_i htext
      split at h
      · rename_i w ret hend
        split at h
        · cases h
        · rename_i hret
          obtain ⟨out', ret', hret', ⟨hzero, -⟩ | ⟨hneg, -⟩⟩ :=
            fromstring256_strips asserts n.text clear256
          · cases hend.symm.trans hret'
            cases h
            rw [hzero] at hend
            exact ⟨htext.1, hend⟩
          · cases hend.symm.trans hret'
            omega
      · cases h
    · cases h
  · rintro ⟨htext, hend⟩
    have hlen := length_lt_of_denotesHex ((fromstring256_reads_iff asserts clear256 v).mp hend)
    rw [if_pos ⟨htext, hlen⟩, hend]
    exact if_neg (lt_irrefl 0)

/-- What is read behind a string `id`. -/
theorem readsId_iff {q : Node × List Node} {m : ℕ} :
    ReadsId q m ↔ ∃ v ∈ q.2.head?.bind uint10Of, v.toNat = m := by
  simp only [ReadsId, Option.mem_def, Option.bind_eq_some_iff]
  constructor
  · rintro ⟨v, hv, htext, hm⟩
    have hnat : (UInt64.ofNat m).toNat = m := by
      rw [UInt64.toNat_ofNat', Nat.mod_eq_of_lt]
      rcases hm with ⟨-, rfl⟩ | ⟨_, _, -, -, hm⟩
      · norm_num
      · omega
    rw [← hnat] at hm
    exact ⟨UInt64.ofNat m, ⟨v, hv, uint10Of_eq_some_iff.mpr ⟨htext, hm⟩⟩, hnat⟩
  · rintro ⟨w, ⟨v, hv, hw⟩, rfl⟩
    exact ⟨v, hv, uint10Of_eq_some_iff.mp hw⟩

/-- What is read behind a string `result`. -/
theorem readsResult_iff (asserts : Bool) {q : Node × List Node} {m : ℕ} :
    ReadsResult q m ↔ ∃ v ∈ q.2.head?.bind (hexOf asserts), v.toNat = m := by
  simp only [ReadsResult, Option.mem_def, Option.bind_eq_some_iff]
  constructor
  · rintro ⟨v, hv, htext, hm⟩
    obtain ⟨w, -, rfl⟩ := fromstring256_denotesHex asserts hm clear256
    exact ⟨w, ⟨v, hv, hexOf_eq_some_iff.mpr ⟨htext, hm⟩⟩, rfl⟩
  · rintro ⟨w, ⟨v, hv, hw⟩, rfl⟩
    exact ⟨v, hv, hexOf_eq_some_iff.mp hw⟩

/-! ## The entries of an error object -/

/-- A string that is no key has another text. -/
theorem isErrorKey_eq_false (hcode : n.text ≠ ascii "code") (hmessage : n.text ≠ ascii "message") :
    isErrorKey n = false := by
  rw [isErrorKey, Node.isString, Node.isString, decide_eq_false fun h => hcode h.2,
    decide_eq_false fun h => hmessage h.2, Bool.or_false]

theorem text_ne_of_isErrorKey_eq_false (hkind : n.kind = .string) (h : isErrorKey n = false) :
    n.text ≠ ascii "code" ∧ n.text ≠ ascii "message" := by
  rw [isErrorKey, Bool.or_eq_false_iff] at h
  exact ⟨fun heq => of_decide_eq_false h.1 ⟨hkind, heq⟩,
    fun heq => of_decide_eq_false h.2 ⟨hkind, heq⟩⟩

/-- **The loop over an error object accepts the nodes** exactly where they are entries and other
strings. -/
theorem errorFine_iff {left : ℕ} : errorFine left l = true ↔ ∃ entries, ErrorEntries left l entries := by
  constructor
  · intro h
    fun_induction errorFine left l with
    | case1 l => exact ⟨[], .done l⟩
    | case2 | case3 | case4 | case6 => cases h
    | case5 left n hkind hcode v rest ih =>
        rw [Bool.and_eq_true, Option.isSome_iff_exists] at h
        obtain ⟨⟨z, hz⟩, hrest⟩ := h
        obtain ⟨htext, hz⟩ := int10Of_eq_some_iff.mp hz
        obtain ⟨entries, hentries⟩ := ih hrest
        exact ⟨(n, v) :: entries, .code (decide_eq_true ⟨not_not.mp hkind, hcode⟩) htext hz hentries⟩
    | case7 left n hkind hcode hmessage v rest ih =>
        obtain ⟨entries, hentries⟩ := ih h
        exact ⟨(n, v) :: entries, .message (decide_eq_true ⟨not_not.mp hkind, hmessage⟩) hentries⟩
    | case8 left n rest hkind hcode hmessage ih =>
        obtain ⟨entries, hentries⟩ := ih h
        exact ⟨entries, .other (not_not.mp hkind) (isErrorKey_eq_false hcode hmessage) hentries⟩
  · rintro ⟨entries, h⟩
    induction h with
    | done l => rw [errorFine]
    | other hkind hkey _ ih =>
        obtain ⟨hcode, hmessage⟩ := text_ne_of_isErrorKey_eq_false hkind hkey
        rw [errorFine_cons, if_neg (not_not.mpr hkind), if_neg hcode, if_neg hmessage, ih]
    | code hkey htext hz _ ih =>
        obtain ⟨hkind, hcode⟩ := of_decide_eq_true hkey
        rw [errorFine_cons, if_neg (not_not.mpr hkind), if_pos hcode]
        dsimp only
        rw [ih, int10Of_eq_some_iff.mpr ⟨htext, hz⟩, Option.isSome_some, Bool.true_and]
    | message hkey _ ih =>
        obtain ⟨hkind, hmessage⟩ := of_decide_eq_true hkey
        have hcode : ¬ ascii "message" = ascii "code" := by decide
        rw [errorFine_cons, if_neg (not_not.mpr hkind), hmessage, if_neg hcode, if_pos rfl]
        exact ih

/-- An error object is accepted. -/
theorem readsError_iff {q : Node × List Node} :
    (∃ entries, ReadsError q entries) ↔ errorObjFine q.2 = true := by
  obtain ⟨key, rest⟩ := q
  cases rest with
  | nil => simp [ReadsError, errorObjFine]
  | cons v rest => simp [ReadsError, errorObjFine, errorFine_iff]

/-! ## The loops -/

/-- All elements are read if each of them is. -/
theorem mapM_isSome_iff {α β : Type} {f : α → Option β} {qs : List α} :
    (∃ bs, qs.mapM f = some bs) ↔ ∀ q ∈ qs, ∃ b, f q = some b := by
  induction qs with
  | nil => simp
  | cons q qs ih =>
      rw [List.forall_mem_cons, ← ih, List.mapM_cons]
      cases f q with
      | none => simp
      | some b => cases qs.mapM f with
        | none => simp
        | some bs => simp

/-- **What the first loop stores in `id`**: it comes to its end where the error objects are accepted and
a number stands behind every string `id`. -/
theorem headReads_eq_some_iff {ids : List UInt64} :
    headReads l = some ids ↔ (∀ q ∈ errorsTaken l, ∃ entries, ReadsError q entries) ∧
      (idsTaken l).mapM (fun q => q.2.head?.bind uint10Of) = some ids := by
  induction l using takes_induction isHeadKey generalizing ids with
  | nil => simp [headReads, errorsTaken, idsTaken, takes]
  | pass n rest hkey ih =>
      rw [headReads_pass hkey, ih, errorsTaken, errorsTaken, idsTaken, idsTaken, takes_cons_neg hkey]
  | take n rest hkey ih =>
      rw [headReads_take hkey, errorsTaken, idsTaken, takes_cons_pos hkey, List.filter_cons,
        List.filter_cons, headRead]
      cases herror : n.isString (ascii "error") with
      | true =>
          have hid : n.isString (ascii "id") = false := by
            refine decide_eq_false fun hid => ?_
            exact absurd ((of_decide_eq_true herror).2.symm.trans hid.2) (by decide)
          simp only [hid, if_true, Bool.false_eq_true, if_false, List.forall_mem_cons, readsError_iff]
          cases errorObjFine rest with
          | true =>
              simp only [if_true, Option.bind_some, List.nil_append, Option.map_id', true_and]
              simpa only [readsError_iff, errorsTaken, idsTaken] using ih
          | false => simp
      | false =>
          have hid : n.isString (ascii "id") = true := by
            rwa [isHeadKey, herror, Bool.false_or] at hkey
          simp only [hid, if_true, Bool.false_eq_true, if_false, List.mapM_cons, Option.bind_eq_bind]
          cases rest.head?.bind uint10Of with
          | none => simp
          | some id =>
              simp only [Option.map_some, Option.bind_some, Option.map_eq_some_iff,
                Option.bind_eq_some_iff, ih, errorsTaken, idsTaken]
              constructor
              · rintro ⟨ids', ⟨herrors, hids⟩, rfl⟩
                exact ⟨herrors, ids', hids, rfl⟩
              · rintro ⟨herrors, ids', hids, heq⟩
                exact ⟨ids', ⟨herrors, hids⟩, Option.some.inj heq⟩

/-- **What the last loop stores**: it comes to its end where a number stands behind every string
`result`. -/
theorem hexReads_isSome_iff (asserts : Bool) :
    (∃ vals, hexReads asserts l = some vals) ↔ ∀ q ∈ resultsTaken l, ∃ m, ReadsResult q m := by
  unfold hexReads
  rw [mapM_isSome_iff]
  refine forall₂_congr fun q _ => ?_
  simp only [readsResult_iff asserts, Option.mem_def]
  constructor
  · rintro ⟨v, hv⟩
    exact ⟨v.toNat, v, hv, rfl⟩
  · rintro ⟨_, v, hv, -⟩
    exact ⟨v, hv⟩

/-- When the first loop comes to its end. -/
theorem headReads_isSome_iff : (∃ ids, headReads l = some ids) ↔
    (∀ q ∈ idsTaken l, ∃ n, ReadsId q n) ∧ ∀ q ∈ errorsTaken l, ∃ entries, ReadsError q entries := by
  have hids : (∀ q ∈ idsTaken l, ∃ m, ReadsId q m) ↔
      ∃ ids, (idsTaken l).mapM (fun q => q.2.head?.bind uint10Of) = some ids := by
    rw [mapM_isSome_iff]
    refine forall₂_congr fun q _ => ?_
    simp only [readsId_iff, Option.mem_def]
    constructor
    · rintro ⟨_, v, hv, -⟩
      exact ⟨v, hv⟩
    · rintro ⟨v, hv⟩
      exact ⟨v.toNat, v, hv, rfl⟩
  simp only [headReads_eq_some_iff, exists_and_left, hids]
  exact and_comm

/-- **When both loops come to their ends.** -/
theorem accepted_iff (asserts : Bool) :
    Accepted l ↔ (∃ ids, headReads l = some ids) ∧ ∃ vals, hexReads asserts l = some vals := by
  rw [headReads_isSome_iff, hexReads_isSome_iff]
  constructor
  · exact fun h => ⟨⟨h.ids, h.errors⟩, h.results⟩
  · exact fun h => ⟨h.1.1, h.1.2, h.2⟩

end AnylWallet.Eth
