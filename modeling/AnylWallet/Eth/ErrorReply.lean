import AnylWallet.Eth.ErrorMembers
import AnylWallet.Eth.ReplyDocument

/-!
# What `jsonrpc_decode_hexencoded` makes of the error of a response

* `ErrorResponse`: the responses with an error, its code and its message.
* `ErrorReported`: the decoder returns 0 and leaves the code, and a message that is the text of the
  string and ends with a `NUL`.
* `errorReported_iff`: it does so exactly where the members of the error but its code are strings, every
  string that is come to is followed by what it asks for, the last code among the entries of the error
  objects denotes that one, and their last message reads as that text (`ErrorReads`). The loops step by
  one token over a value they do not know, and refuse one that is no string.
-/

namespace AnylWallet.Eth

open AnylWallet.Lib AnylWallet.Lib.Json AnylWallet.Helpers

/-! ## Stores -/

/-- The codes among stores. -/
def codesOf : List ErrorStore → List ℤ
  | [] => []
  | .code z :: stores => z :: codesOf stores
  | .message _ :: stores => codesOf stores

/-- The messages among stores. -/
def messagesOf : List ErrorStore → List Node
  | [] => []
  | .code _ :: stores => messagesOf stores
  | .message value :: stores => value :: messagesOf stores

/-- **The last store counts.** -/
theorem errorAfter_eq (stores : List ErrorStore) (e : JsonrpcError) :
    errorAfter stores e =
      ⟨(codesOf stores).getLast?.getD e.code,
        ((messagesOf stores).getLast?.map fun v => (v.start : ℤ)).or e.message⟩ := by
  induction stores generalizing e with
  | nil => rfl
  | cons store stores ih =>
      refine (ih _).trans ?_
      cases store with
      | code z =>
          rw [codesOf, messagesOf, List.getLast?_cons]
          rfl
      | message v =>
          rw [codesOf, messagesOf, List.getLast?_cons]
          cases (messagesOf stores).getLast? with
          | none => rfl
          | some u => rfl

/-- The bytes of the buffer behind stores: there is a `NUL` where the text of a message ends. -/
theorem bytes_bufAfter (stores : List ErrorStore) (buf : JsonBuf) (i : ℕ) :
    (bufAfter stores buf).bytes[i]? =
      if i ∈ (messagesOf stores).map Node.stop then buf.bytes[i]?.map fun _ => 0
      else buf.bytes[i]? := by
  induction stores generalizing buf with
  | nil => rfl
  | cons store stores ih =>
      refine (ih _).trans ?_
      cases store with
      | code z => rfl
      | message v =>
          have hset : (ErrorStore.onBuf buf (.message v)).bytes = buf.bytes.set v.stop 0 := rfl
          rw [messagesOf, List.map_cons, hset, List.getElem?_set]
          by_cases hi : v.stop = i
          · subst hi
            rw [if_pos rfl, if_pos List.mem_cons_self]
            by_cases hlt : v.stop < buf.bytes.length
            · simp [hlt]
            · simp [hlt]
          · have hmem : i ∈ v.stop :: (messagesOf stores).map Node.stop ↔
                i ∈ (messagesOf stores).map Node.stop :=
              List.mem_cons.trans (or_iff_right fun h => hi h.symm)
            rw [if_neg hi]
            simp only [hmem]

/-- What lies behind the buffer does not change. -/
theorem after_bufAfter (stores : List ErrorStore) (buf : JsonBuf) :
    (bufAfter stores buf).after = buf.after := by
  induction stores generalizing buf with
  | nil => rfl
  | cons store stores ih =>
      refine (ih _).trans ?_
      cases store with
      | code z => rfl
      | message v => rfl

/-- The stores of two lots. -/
theorem messagesOf_append (stores stores' : List ErrorStore) :
    messagesOf (stores ++ stores') = messagesOf stores ++ messagesOf stores' := by
  induction stores with
  | nil => rfl
  | cons store stores ih =>
      cases store with
      | code z => exact ih
      | message v => exact congrArg (v :: ·) ih

theorem codesOf_append (stores stores' : List ErrorStore) :
    codesOf (stores ++ stores') = codesOf stores ++ codesOf stores' := by
  induction stores with
  | nil => rfl
  | cons store stores ih =>
      cases store with
      | code z => exact congrArg (z :: ·) ih
      | message v => exact ih

/-- A message of an error object is one of its nodes. -/
theorem messagesOf_errorStores_subset (left : ℕ) (l : List Node) :
    messagesOf (errorStores left l) ⊆ l := by
  fun_induction errorStores left l with
  | case1 | case2 | case3 | case4 | case5 | case7 => simp [messagesOf]
  | case6 left n _ _ v rest _ _ ih =>
      rw [messagesOf]
      exact List.subset_cons_of_subset _ (List.subset_cons_of_subset _ ih)
  | case8 left n _ _ _ v rest ih =>
      rw [messagesOf]
      exact List.subset_cons_of_subset _ (List.cons_subset_cons _ ih)
  | case9 left n rest _ _ _ ih => exact List.subset_cons_of_subset _ ih

/-- A message that the first loop stores is one of the nodes. -/
theorem messagesOf_headStores_subset (l : List Node) : messagesOf (headStores l) ⊆ l := by
  induction l using takes_induction isHeadKey with
  | nil => exact List.nil_subset _
  | pass n rest hkey ih =>
      rw [headStores_pass hkey]
      exact List.subset_cons_of_subset _ ih
  | take n rest hkey ih =>
      rw [headStores_take hkey, messagesOf_append]
      refine List.append_subset.mpr ⟨List.subset_cons_of_subset _ ?_,
        List.subset_cons_of_subset _ (List.Subset.trans ih (List.tail_subset _))⟩
      unfold headStore
      split_ifs
      · cases rest with
        | nil => exact List.nil_subset _
        | cons m rest =>
            exact List.subset_cons_of_subset _ (messagesOf_errorStores_subset _ rest)
      · exact List.nil_subset _

/-! ## Entries -/

/-- The nodes behind the strings `key` among entries. -/
def valuesOf (key : String) (entries : List (Node × Node)) : List Node :=
  (entries.filter fun e => e.1.isString (ascii key)).map Prod.snd

/-- The nodes are the messages that are stored, and the numbers the codes denote are those that are. -/
structure StoresOf (stores : List ErrorStore) (entries : List (Node × Node)) : Prop where
  messages : messagesOf stores = valuesOf "message" entries
  codes : List.Forall₂ (fun v z => DenotesLong v.text z) (valuesOf "code" entries) (codesOf stores)

/-- Stores of two lots of entries. -/
theorem StoresOf.append {stores stores' : List ErrorStore} {entries entries' : List (Node × Node)}
    (h : StoresOf stores entries) (h' : StoresOf stores' entries') :
    StoresOf (stores ++ stores') (entries ++ entries') where
  messages := by
    rw [messagesOf_append, h.messages, h'.messages, valuesOf, valuesOf, valuesOf, List.filter_append,
      List.map_append]
  codes := by
    rw [codesOf_append, valuesOf, List.filter_append, List.map_append]
    exact List.rel_append h.codes h'.codes

/-- **The loop over an error object stores its entries.** -/
theorem storesOf_errorEntries {left : ℕ} {l : List Node} {entries : List (Node × Node)}
    (h : ErrorEntries left l entries) : StoresOf (errorStores left l) entries := by
  induction h with
  | done l =>
      rw [errorStores]
      exact ⟨rfl, .nil⟩
  | other hkind hkey _ ih =>
      obtain ⟨hcode, hmessage⟩ := text_ne_of_isErrorKey_eq_false hkind hkey
      rwa [errorStores_cons, if_neg (not_not.mpr hkind), if_neg hcode, if_neg hmessage]
  | @code left n v l entries z hkey htext hz _ ih =>
      obtain ⟨hkind, hcode⟩ := of_decide_eq_true hkey
      have hother : n.isString (ascii "message") = false := by
        refine decide_eq_false fun h => absurd (hcode.symm.trans h.2) (by decide)
      rw [errorStores_cons, if_neg (not_not.mpr hkind), if_pos hcode]
      dsimp only
      rw [int10Of_eq_some_iff.mpr ⟨htext, hz⟩]
      refine ⟨?_, ?_⟩
      · rw [messagesOf, ih.messages, valuesOf, valuesOf, List.filter_cons, hother,
          if_neg Bool.false_ne_true]
      · rw [codesOf, valuesOf, List.filter_cons, hkey, if_pos rfl]
        exact .cons hz ih.codes
  | @message left n v l entries hkey _ ih =>
      obtain ⟨hkind, hmessage⟩ := of_decide_eq_true hkey
      have hcode : ¬ ascii "message" = ascii "code" := by decide
      have hother : n.isString (ascii "code") = false := by
        refine decide_eq_false fun h => hcode (hmessage.symm.trans h.2)
      rw [errorStores_cons, if_neg (not_not.mpr hkind), hmessage, if_neg hcode, if_pos rfl]
      refine ⟨?_, ?_⟩
      · rw [messagesOf, ih.messages, valuesOf, valuesOf, List.filter_cons, hkey, if_pos rfl]
        rfl
      · rw [codesOf, valuesOf, List.filter_cons, hother, if_neg Bool.false_ne_true]
        exact ih.codes

/-- **The first loop stores the entries of the error objects that it comes to.** -/
theorem storesOf_headStores {l : List Node} {entries : List (List (Node × Node))}
    (h : List.Forall₂ ReadsError (errorsTaken l) entries) : StoresOf (headStores l) entries.flatten := by
  have hstores : headStores l = (errorsTaken l).flatMap fun q => errorObjStores q.2 := by
    unfold headStores errorsTaken
    induction takes isHeadKey l with
    | nil => rfl
    | cons q qs ih =>
        rw [List.flatMap_cons, ih, headStore, List.filter_cons]
        split_ifs
        · rfl
        · rfl
  rw [hstores]
  generalize errorsTaken l = taken at h
  induction h with
  | nil => exact ⟨rfl, .nil⟩
  | @cons q es qs ess hq _ ih =>
      rw [List.flatMap_cons, List.flatten_cons]
      refine StoresOf.append ?_ ih
      obtain ⟨v, hv, -, hentries⟩ := hq
      obtain ⟨rest, hrest⟩ := List.head?_eq_some_iff.mp hv
      rw [hrest] at hentries
      rw [hrest]
      exact storesOf_errorEntries hentries

/-- What is stored last is the last entry. -/
theorem last_of_forall₂ {α β : Type} {R : α → β → Prop} {l : List α} {l' : List β}
    (h : List.Forall₂ R l l') : Option.Rel R l.getLast? l'.getLast? := by
  have hreverse := List.forall₂_reverse_iff.mpr h
  rw [List.getLast?_eq_head?_reverse, List.getLast?_eq_head?_reverse]
  generalize l.reverse = r, l'.reverse = r' at hreverse
  cases hreverse with
  | nil => exact .none
  | cons ha _ => exact .some ha

/-! ## The text of a message -/

/-- The text stands where the message starts, and behind it ends the first of the messages that end
there or behind. -/
def ReadsAs (doc : Document) (messages : List Node) (v : Node) (text : List UInt8) : Prop :=
  text <+: doc.text.drop v.start ∧
    (∃ u ∈ messages, u.stop = v.start + text.length) ∧
    ∀ u ∈ messages, v.start ≤ u.stop → v.start + text.length ≤ u.stop

/-- A list starts with another one, element by element. -/
theorem prefix_iff_get? {α : Type} {s l : List α} :
    s <+: l ↔ ∀ (i : ℕ) (c : α), s[i]? = some c → l[i]? = some c := by
  rw [List.prefix_iff_getElem?]
  constructor
  · intro h i c hc
    obtain ⟨hi, rfl⟩ := List.getElem?_eq_some_iff.mp hc
    exact h i hi
  · exact fun h i hi => h i s[i] (List.getElem?_eq_getElem hi)

/-- A list starts with another one and an element behind it. -/
theorem append_singleton_prefix_iff {α : Type} {s l : List α} {a : α} :
    s ++ [a] <+: l ↔
      (∀ (i : ℕ) (c : α), s[i]? = some c → l[i]? = some c) ∧ l[s.length]? = some a := by
  rw [prefix_iff_get?]
  constructor
  · refine fun h => ⟨fun i c hc => h i c ?_, h s.length a List.getElem?_concat_length⟩
    rw [List.getElem?_append_left (List.getElem?_eq_some_iff.mp hc).1]
    exact hc
  · rintro ⟨hs, ha⟩ i c hc
    rcases lt_trichotomy i s.length with hi | rfl | hi
    · rw [List.getElem?_append_left hi] at hc
      exact hs i c hc
    · rw [List.getElem?_concat_length] at hc
      rw [ha, Option.some.inj hc]
    · have hlt := (List.getElem?_eq_some_iff.mp hc).1
      rw [List.length_append, List.length_singleton] at hlt
      omega

/-- **What a message reads as**, when the loop has made its stores. -/
theorem message_prefix_iff {doc : Document} {buf : JsonBuf} {stores : List ErrorStore} {v : Node}
    {text : List UInt8} (hlt : ∀ u ∈ messagesOf stores, u.stop < doc.text.length)
    (hbuf : buf.bytes = doc.text) (htext : ∀ c ∈ text, c ≠ 0) (hv : v ∈ messagesOf stores) :
    text ++ [0] <+: (bufAfter stores buf).text v.start ↔ ReadsAs doc (messagesOf stores) v text := by
  rw [JsonBuf.text_natCast, append_singleton_prefix_iff, after_bufAfter, ReadsAs, prefix_iff_get?]
  simp only [List.getElem?_drop]
  have hbytes : ∀ i, (bufAfter stores buf).bytes[i]? =
      if i ∈ (messagesOf stores).map Node.stop then doc.text[i]?.map fun _ => 0
      else doc.text[i]? := by
    intro i
    rw [bytes_bufAfter, hbuf]
  generalize (bufAfter stores buf).bytes = bytes at hbytes
  have hnul : ∀ u ∈ messagesOf stores, (bytes ++ buf.after)[u.stop]? = some 0 := by
    intro u hu
    have hget := hbytes u.stop
    rw [if_pos (List.mem_map_of_mem hu), List.getElem?_eq_getElem (hlt u hu), Option.map_some]
      at hget
    rwa [List.getElem?_append_left (List.getElem?_eq_some_iff.mp hget).1]
  have hsame : ∀ i, i < doc.text.length → i ∉ (messagesOf stores).map Node.stop →
      (bytes ++ buf.after)[i]? = doc.text[i]? := by
    intro i hi hnot
    have hget := hbytes i
    rw [if_neg hnot, List.getElem?_eq_getElem hi] at hget
    rw [List.getElem?_append_left (List.getElem?_eq_some_iff.mp hget).1, hget,
      List.getElem?_eq_getElem hi]
  constructor
  · rintro ⟨hchars, hend⟩
    -- no message ends inside the text, which holds no `NUL`
    have hfirst : ∀ u ∈ messagesOf stores, v.start ≤ u.stop → v.start + text.length ≤ u.stop := by
      intro u hu hle
      by_contra hin
      have hi : u.stop - v.start < text.length := by omega
      have hget := hchars _ _ (List.getElem?_eq_getElem hi)
      rw [Nat.add_sub_cancel' hle, hnul u hu] at hget
      exact htext _ (List.getElem_mem hi) (Option.some.inj hget).symm
    have hle := hfirst v hv (Nat.le_add_right _ _)
    have hvlt := hlt v hv
    refine ⟨fun i c hc => ?_, ?_, hfirst⟩
    · have hi : i < text.length := (List.getElem?_eq_some_iff.mp hc).1
      have hget := hchars i c hc
      rw [hsame (v.start + i) (by omega)] at hget
      · exact hget
      · rw [List.mem_map]
        rintro ⟨w, hw, hin⟩
        have := hfirst w hw (by omega)
        omega
    · by_contra hnone
      rw [hsame (v.start + text.length) (by omega)] at hend
      · exact doc.ne_zero 0 (List.mem_of_getElem? hend) rfl
      · rw [List.mem_map]
        exact hnone
  · rintro ⟨hstarts, ⟨u, hu, hstop⟩, hfirst⟩
    refine ⟨fun i c hc => ?_, hstop ▸ hnul u hu⟩
    have hget := hstarts i c hc
    have hi : i < text.length := (List.getElem?_eq_some_iff.mp hc).1
    rw [hsame _ (List.getElem?_eq_some_iff.mp hget).1, hget]
    rw [List.mem_map]
    rintro ⟨w, hw, hin⟩
    have := hfirst w hw (by omega)
    omega

/-! ## Responses with an error -/

/-- A decimal integer. -/
def IsDecimal (s : List UInt8) (z : ℤ) : Prop :=
  ∃ digits n, IsNumeral digits n ∧ (s = digits ∧ z = n ∨ s = ascii "-" ++ digits ∧ z = -n)

/-- A response whose error has this code, which a `long` holds, and this message. -/
structure ErrorResponse (doc : Document) (code : ℤ) (text : List UInt8) : Prop
    extends IsResponse doc where
  reported : ∃ e, (ascii "error", e) ∈ doc.value.members ∧ (e.members.map Prod.fst).Nodup ∧
    (∃ c s, (ascii "code", c) ∈ e.members ∧ c.scalar? = some s ∧ IsDecimal s code) ∧
    ∃ m, (ascii "message", m) ∈ e.members ∧ m.string? = some text
  fits : -2 ^ 63 ≤ code ∧ code < 2 ^ 63

/-- The decoder returns 0, and reports the code and the message, which ends with a `NUL`. -/
def ErrorReported (asserts : Bool) (doc : Document) (code : ℤ) (text : List UInt8) : Prop :=
  ∀ buf result out, buf.bytes = doc.text → ∃ buf' result' out',
    jsonrpcDecodeHexencoded asserts buf result out = .ok (buf', result', out', 0) ∧
      result'.error.code = code ∧ ∃ p ∈ result'.error.message, text ++ [0] <+: buf'.text p

/-- The condition on a response with an error: every member of the error but its code is a string; every
string `id` or `result` that is come to is followed by a text that denotes a number, and every string
`error` by an object with these entries; and of all the entries the last code denotes this one, and the
last message reads as this text. -/
structure ErrorReads (doc : Document) (code : ℤ) (text : List UInt8) : Prop where
  further : ∀ e, (ascii "error", e) ∈ doc.value.members →
    ∀ m ∈ e.members, m.1 ≠ ascii "code" → ∃ s, m.2.string? = some s
  ids : ∀ q ∈ idsTaken doc.nodes.tail, ∃ n, ReadsId q n
  results : ∀ q ∈ resultsTaken doc.nodes.tail, ∃ n, ReadsResult q n
  entries : ∃ entries, List.Forall₂ ReadsError (errorsTaken doc.nodes.tail) entries ∧
    (∃ v ∈ (valuesOf "code" entries.flatten).getLast?, DenotesLong v.text code) ∧
    ∃ v ∈ (valuesOf "message" entries.flatten).getLast?,
      ReadsAs doc (valuesOf "message" entries.flatten) v text

/-- The message holds no `NUL`. -/
theorem ErrorResponse.ne_zero {doc : Document} {code : ℤ} {text : List UInt8}
    (h : ErrorResponse doc code text) : ∀ c ∈ text, c ≠ 0 := by
  obtain ⟨e, -, -, -, m, -, hm⟩ := h.reported
  cases m with
  | string body =>
      obtain rfl := Option.some.inj hm
      exact ne_zero_of_isBody body.isBody
  | _ => cases hm

/-- The last code that is stored, by the last entry. -/
theorem lastCode_iff {stores : List ErrorStore} {entries : List (Node × Node)}
    (h : StoresOf stores entries) {code : ℤ} :
    (codesOf stores).getLast? = some code ↔
      ∃ v ∈ (valuesOf "code" entries).getLast?, DenotesLong v.text code := by
  have hlast := last_of_forall₂ h.codes
  generalize (valuesOf "code" entries).getLast? = v, (codesOf stores).getLast? = z at hlast
  cases hlast with
  | none => simp
  | @some v z hz =>
      have hunique : DenotesLong v.text code ↔ z = code := by
        rw [← strtol_reads_iff] at hz ⊢
        rw [hz.2, and_iff_right hz.1]
      simp [hunique]

/-- The entries of error objects that are accepted. -/
theorem exists_entries {qs : List (Node × List Node)}
    (h : ∀ q ∈ qs, ∃ entries, ReadsError q entries) : ∃ entries, List.Forall₂ ReadsError qs entries := by
  induction qs with
  | nil => exact ⟨[], .nil⟩
  | cons q qs ih =>
      obtain ⟨es, hes⟩ := h q List.mem_cons_self
      obtain ⟨ess, hess⟩ := ih fun q' hq' => h q' (List.mem_cons_of_mem _ hq')
      exact ⟨es :: ess, .cons hes hess⟩

theorem exists_of_forall₂ {qs : List (Node × List Node)} {entries : List (List (Node × Node))}
    (h : List.Forall₂ ReadsError qs entries) : ∀ q ∈ qs, ∃ entries, ReadsError q entries := by
  induction h with
  | nil => exact List.forall_mem_nil _
  | cons hq _ ih => exact List.forall_mem_cons.mpr ⟨⟨_, hq⟩, ih⟩

/-- In a response with an error that is accepted every member of the error but its code is a string. -/
theorem ErrorResponse.further {doc : Document} {code : ℤ} {text : List UInt8}
    (h : ErrorResponse doc code text) (haccepted : Accepted doc.nodes.tail) {e : Value}
    (he : (ascii "error", e) ∈ doc.value.members) :
    ∀ m ∈ e.members, m.1 ≠ ascii "code" → ∃ s, m.2.string? = some s := by
  obtain ⟨e', he', hnodup, ⟨c, s, hc, hs, -⟩, m, hm, htext⟩ := h.reported
  obtain rfl := h.value_eq he he'
  have hvalue : ∀ {m m' : List UInt8 × Value}, m ∈ e.members → m' ∈ e.members → m.1 = m'.1 →
      m = m' := fun hm hm' heq => List.inj_on_of_nodup_map hnodup hm hm' heq
  refine further_of_errorEntries he (fun m' hm' hkey => ?_) (fun m' hm' hkey => ?_) haccepted.ids
    haccepted.errors
  · obtain rfl := hvalue hm' hc hkey
    exact ⟨s, hs⟩
  · obtain rfl := hvalue hm' hm hkey
    exact ⟨text, htext⟩

/-- **When the error of a response is reported.** The further members of the error object are
strings, since the loop over it takes the value of a member that it does not know for the next key.
And in the whole document the strings that are taken for keys are followed by what they ask for,
with the code and the message of this object behind the last ones. -/
theorem errorReported_iff (asserts : Bool) {doc : Document} {code : ℤ} {text : List UInt8}
    (hresponse : ErrorResponse doc code text) (hlen : doc.text.length < 2 ^ 31)
    (hroom : doc.nodes.length ≤ 64) :
    ErrorReported asserts doc code text ↔ ErrorReads doc code text := by
  have hends := fun buf (hbuf : buf.bytes = doc.text) =>
    @jsonrpcDecodeHexencoded_nodes doc buf asserts hresponse.object hlen hroom hbuf
  have hlt : ∀ u ∈ messagesOf (headStores doc.nodes.tail), u.stop < doc.text.length := fun u hu =>
    stop_lt_of_mem_tail hresponse.object (messagesOf_headStores_subset _ hu)
  have hreads := fun buf v (hbuf : buf.bytes = doc.text) =>
    @message_prefix_iff doc buf (headStores doc.nodes.tail) v text hlt hbuf hresponse.ne_zero
  constructor
  · intro h
    -- the variables hold another code and no message before the call
    obtain ⟨buf', result', out', hend, hcode, p, hp, hstarts⟩ :=
      h ⟨[], doc.text, []⟩ ⟨0, ⟨code + 1, none⟩⟩ clear256 rfl
    rcases hends ⟨[], doc.text, []⟩ rfl ⟨0, ⟨code + 1, none⟩⟩ clear256 with
      ⟨ids, vals, hids, hvals, hend'⟩ | ⟨-, hneg⟩
    swap
    · exact absurd (hneg _ hend) (lt_irrefl 0)
    have haccepted := (accepted_iff asserts).mpr ⟨⟨ids, hids⟩, vals, hvals⟩
    obtain ⟨entries, hentries⟩ := exists_entries haccepted.errors
    have hstores := storesOf_headStores hentries
    cases hend.symm.trans hend'
    rw [errorAfter_eq] at hcode hp
    refine ⟨fun e he => hresponse.further haccepted he, haccepted.ids, haccepted.results, entries,
      hentries, (lastCode_iff hstores).mp ?_, ?_⟩
    · dsimp only at hcode
      cases hlast : (codesOf (headStores doc.nodes.tail)).getLast? with
      | none =>
          rw [hlast, Option.getD_none] at hcode
          omega
      | some z =>
          rw [hlast, Option.getD_some] at hcode
          rw [hcode]
    · rw [← hstores.messages]
      dsimp only at hp
      cases hlast : (messagesOf (headStores doc.nodes.tail)).getLast? with
      | none =>
          rw [hlast] at hp
          cases hp
      | some v =>
          have hmem := List.mem_of_getLast? hlast
          rw [hlast] at hp
          obtain rfl := Option.some.inj hp
          exact ⟨v, rfl, (hreads _ v rfl hmem).mp hstarts⟩
  · rintro ⟨-, hids, hresults, entries, hentries, hcode, hmessage⟩ buf result out hbuf
    have hstores := storesOf_headStores hentries
    rw [← hstores.messages] at hmessage
    obtain ⟨v, hv, htext⟩ := hmessage
    obtain ⟨⟨ids, hids⟩, vals, hvals⟩ :=
      (accepted_iff asserts).mp ⟨hids, exists_of_forall₂ hentries, hresults⟩
    rcases hends buf hbuf result out with ⟨ids', vals', -, -, hend⟩ | ⟨hnone | hnone, -⟩
    · refine ⟨_, _, _, hend, ?_, v.start, ?_, ?_⟩
      · rw [errorAfter_eq, (lastCode_iff hstores).mpr hcode]
        rfl
      · have hlast : (messagesOf (headStores doc.nodes.tail)).getLast? = some v := hv
        rw [errorAfter_eq, hlast]
        rfl
      · exact (hreads buf v hbuf (List.mem_of_getLast? hv)).mpr htext
    · rw [hnone] at hids
      cases hids
    · rw [hnone] at hvals
      cases hvals

/-- The error `{"code":3,"message":"execution reverted"}`, with these members behind it. -/
def revertError (rest : List (Body × Value)) : Value :=
  .compactObject (bodyOf "code" (Eq.refl true), numberText '3'.toUInt8 (Eq.refl true))
    ((bodyOf "message" (Eq.refl true), .string (bodyOf "execution reverted" (Eq.refl true))) :: rest)

/-- The response to a call that is reverted. -/
def revertReply (rest : List (Body × Value)) : Document where
  before := .none
  value := .compactObject (bodyOf "jsonrpc" (Eq.refl true), .string (bodyOf "2.0" (Eq.refl true)))
    [(bodyOf "id" (Eq.refl true), numberText '1'.toUInt8 (Eq.refl true)),
      (bodyOf "error" (Eq.refl true), revertError rest)]
  after := .none

/-- Such a reply is a response with an error. -/
theorem errorResponse_revertReply {rest : List (Body × Value)}
    (h : ([ascii "code", ascii "message"] ++ rest.map fun m => m.1.text).Nodup) :
    ErrorResponse (revertReply rest) 3 (ascii "execution reverted") := by
  have hmembers : (revertReply rest).value.members =
      [(ascii "jsonrpc", .string (bodyOf "2.0" (Eq.refl true))),
        (ascii "id", numberText '1'.toUInt8 (Eq.refl true)), (ascii "error", revertError rest)] :=
    Members.toList_compact _ _
  have hparts : (revertError rest).members =
      [(ascii "code", numberText '3'.toUInt8 (Eq.refl true)),
        (ascii "message", .string (bodyOf "execution reverted" (Eq.refl true)))] ++
          rest.map fun m => (m.1.text, m.2) :=
    Members.toList_compact _ _
  have hkeys : (revertReply rest).value.members.map Prod.fst =
      [ascii "jsonrpc", ascii "id", ascii "error"] := by
    rw [hmembers]
    rfl
  have hthree : IsNumeral (ascii "3") 3 := by
    refine ⟨by decide, fun c hc => ?_, by decide⟩
    obtain rfl : c = '3'.toUInt8 := List.mem_singleton.mp hc
    decide
  have hcode : (ascii "code", numberText '3'.toUInt8 (Eq.refl true)) ∈ (revertError rest).members := by
    rw [hparts]
    exact .head _
  have hmessage : (ascii "message", Value.string (bodyOf "execution reverted" (Eq.refl true))) ∈
      (revertError rest).members := by
    rw [hparts]
    exact .tail _ (.head _)
  have herror : (ascii "error", revertError rest) ∈ (revertReply rest).value.members := by
    rw [hmembers]
    exact .tail _ (.tail _ (.head _))
  have hnodup : ((revertReply rest).value.members.map Prod.fst).Nodup := by
    rw [hkeys]
    decide
  refine { object := rfl, nodup := hnodup, version := ?_, id := ?_, outcome := ?_, error := ?_,
           reported := ?_, fits := by decide }
  · refine ⟨.string (bodyOf "2.0" (Eq.refl true)), ?_, rfl⟩
    rw [hmembers]
    exact .head _
  · refine ⟨numberText '1'.toUInt8 (Eq.refl true), ?_⟩
    rw [hmembers]
    exact .tail _ (.head _)
  · refine iff_of_false (fun ⟨v, hv⟩ => ?_) (not_not.mpr ⟨_, herror⟩)
    have hkey : ascii "result" ∈ (revertReply rest).value.members.map Prod.fst :=
      List.mem_map_of_mem hv
    rw [hkeys] at hkey
    exact absurd hkey (by decide)
  · intro v hv
    obtain rfl : v = revertError rest :=
      congrArg Prod.snd (List.inj_on_of_nodup_map hnodup hv herror rfl)
    exact ⟨rfl, ⟨_, _, _, 3, hcode, rfl, Or.inl rfl, hthree⟩, _, _, hmessage, rfl⟩
  · refine ⟨revertError rest, herror, ?_, ⟨_, _, hcode, rfl, _, 3, hthree, Or.inl ⟨rfl, rfl⟩⟩, _,
      hmessage, rfl⟩
    rw [hparts, List.map_append, List.map_map]
    exact h

theorem errorReported_iff_revertReply :
    ErrorReported true (revertReply []) 3 (ascii "execution reverted") ↔
      ErrorReads (revertReply []) 3 (ascii "execution reverted") :=
  errorReported_iff true (errorResponse_revertReply (by decide)) (by decide) (by decide)

/-- `"data":0`. -/
def dataMember : Body × Value :=
  (bodyOf "data" (Eq.refl true), numberText '0'.toUInt8 (Eq.refl true))

/-- Counterexample: a response whose error has a member `data` that is a number is refused. -/
theorem not_errorReported_data : ¬ ∀ doc code text, ErrorResponse doc code text →
    doc.text.length < 2 ^ 31 → doc.nodes.length ≤ 64 → ErrorReported true doc code text := by
  intro h
  have hresponse : ErrorResponse (revertReply [dataMember]) 3 (ascii "execution reverted") :=
    errorResponse_revertReply (by decide)
  obtain ⟨buf', result', out', hend, -⟩ := h _ _ _ hresponse (by decide) (by decide)
    ⟨[], (revertReply [dataMember]).text, []⟩ ⟨0, ⟨0, none⟩⟩ clear256 rfl
  have hret : ((jsonrpcDecodeHexencoded true ⟨[], (revertReply [dataMember]).text, []⟩
      ⟨0, ⟨0, none⟩⟩ clear256).toOption.map fun r => r.2.2.2) = some (-1) := by
    decide +kernel
  rw [hend] at hret
  cases hret

end AnylWallet.Eth
