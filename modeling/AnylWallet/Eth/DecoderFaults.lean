import AnylWallet.Eth.ReplyNodes
import AnylWallet.Helpers.TextNumbers
import AnylWallet.Sawtooth.ErrorMessages

/-!
# When the decoders of replies end in a fault

The three decoders run on whatever a node sends. A run ends in a fault if an assertion fails, if a
token at or past the number of tokens is read, if a text does not fit in `tmp` or if a message would
be terminated outside the buffer.

The conditions are on the tokens of the reply: `headTokens`, `entryTokens` and `resultTokens` are the
tokens that the loops take for keys if all of them are followed by what they ask for. Of each it is said
whether the tokens that are read behind it are there (`HeadComplete`, `EntryComplete`, `HexComplete`,
`ReceiptComplete`), and whether they are what is asked for (`HeadFits`, ...), so that the loop goes on.

* `ReplyDecoder.faultless_iff`: **a decoder runs without a fault exactly when every such token up to the
  first one that does not fit is complete** (`ReplyDecoder.Readable`).
* `jsonrpcDecodeHexencoded_ends`: it returns 0 where all of them fit, and a negative number where one of
  them does not.
-/

namespace AnylWallet.Eth

open AnylWallet.Lib AnylWallet.Helpers

variable {buf : JsonBuf} {tok : Jsmntok} {rest toks : List Jsmntok}

/-! ## The error object -/

/-- The reply with a `NUL` at this position. -/
def cutAt (buf : JsonBuf) (pos : ℤ) : JsonBuf := { buf with bytes := buf.bytes.set pos.toNat 0 }

/-- The tokens that the loop over an error object comes to in this number of rounds, each with the reply
as the messages in front of it leave it, and with the tokens behind. The token behind a string `code` or
`message` is its value. -/
def entryTokens : JsonBuf → ℕ → List Jsmntok → List (JsonBuf × Jsmntok × List Jsmntok)
  | _, 0, _ => []
  | _, _ + 1, [] => []
  | buf, _ + 1, [tok] => [(buf, tok, [])]
  | buf, left + 1, tok :: value :: rest =>
      (buf, tok, value :: rest) ::
        if jsoneq buf tok (ascii "code") then entryTokens buf (left - 1) rest
        else if jsoneq buf tok (ascii "message") then
          entryTokens (cutAt buf value.stop) (left - 1) rest
        else entryTokens buf left (value :: rest)

/-- The reply as all these messages leave it. -/
def entriesBehind : JsonBuf → ℕ → List Jsmntok → JsonBuf
  | buf, 0, _ => buf
  | buf, _ + 1, [] => buf
  | buf, _ + 1, [_] => buf
  | buf, left + 1, tok :: value :: rest =>
      if jsoneq buf tok (ascii "code") then entriesBehind buf (left - 1) rest
      else if jsoneq buf tok (ascii "message") then
        entriesBehind (cutAt buf value.stop) (left - 1) rest
      else entriesBehind buf left (value :: rest)

/-- Behind a string `code` stands a token, and behind a string `message` one that ends in the buffer. -/
def EntryComplete (q : JsonBuf × Jsmntok × List Jsmntok) : Prop :=
  (jsoneq q.1 q.2.1 (ascii "code") = true → q.2.2 ≠ []) ∧
    (jsoneq q.1 q.2.1 (ascii "message") = true →
      ∃ value ∈ q.2.2.head?, 0 ≤ value.stop ∧ value.stop < q.1.bytes.length)

/-- The token is a string, and behind a string `code` stands a number. -/
def EntryFits (q : JsonBuf × Jsmntok × List Jsmntok) : Prop :=
  q.2.1.type = .string ∧ (jsoneq q.1 q.2.1 (ascii "code") = true →
    ∃ value ∈ q.2.2.head?, (jsonInt10 q.1 value).2 = true)

/-- The token behind a string `error` is there, and if it is an object, all that is read behind it. If
everything fits, two tokens are read for each of its members. -/
def ObjComplete (buf : JsonBuf) (toks : List Jsmntok) : Prop :=
  ∃ tok ∈ toks.head?, tok.type = .object →
    CompleteUpTo EntryFits EntryComplete (entryTokens buf (2 * tok.size) toks.tail) ∧
      ((∀ q ∈ entryTokens buf (2 * tok.size) toks.tail, EntryFits q) →
        2 * tok.size ≤ toks.tail.length)

/-- It is an object, and all that is read behind it fits. -/
def ObjFits (buf : JsonBuf) (toks : List Jsmntok) : Prop :=
  ∃ tok ∈ toks.head?, tok.type = .object ∧
    ∀ q ∈ entryTokens buf (2 * tok.size) toks.tail, EntryFits q

/-- The reply as the messages of the error object leave it. -/
def objBehind (buf : JsonBuf) : List Jsmntok → JsonBuf
  | [] => buf
  | tok :: rest => entriesBehind buf (2 * tok.size) rest

/-- What `__jsonrpc_error_obj` makes of the end of its loop. -/
def errorObjEnd : Except Fault (Walked (ℕ × JsonBuf × JsonrpcError) (JsonBuf × JsonrpcError × ℤ)) →
    Except Fault (JsonBuf × JsonrpcError × ℤ)
  | .error fault => .error fault
  | .ok (.stopped r) => .ok r
  | .ok (.through (left, buf, out)) => if left = 0 then .ok (buf, out, 0) else .error .staleToken

/-- A string is one of the two or none of them. -/
theorem jsoneq_message_of_code (h : jsoneq buf tok (ascii "code") = true) :
    jsoneq buf tok (ascii "message") = false := by
  refine decide_eq_false fun hmessage => ?_
  have hlen := (of_decide_eq_true h).2.1.trans hmessage.2.1.symm
  exact absurd hlen (by decide)

/-- A string has the type. -/
theorem type_of_jsoneq {s : List UInt8} (h : jsoneq buf tok s = true) : tok.type = .string :=
  (of_decide_eq_true h).1

theorem terminate_eq {pos : ℤ} (h : 0 ≤ pos ∧ pos < buf.bytes.length) :
    buf.terminate pos = .ok (cutAt buf pos) := if_pos h

section loop

variable {left : ℕ} {out : JsonrpcError}

/-- How the loop over an error object ends, on these tokens. -/
def ErrorEnds (buf : JsonBuf) (left : ℕ) (toks : List Jsmntok)
    (r : Except Fault (JsonBuf × JsonrpcError × ℤ)) : Prop :=
  Ends (CompleteUpTo EntryFits EntryComplete (entryTokens buf left toks) ∧
      ((∀ q ∈ entryTokens buf left toks, EntryFits q) → left ≤ toks.length))
    (∀ q ∈ entryTokens buf left toks, EntryFits q)
    (fun r => r.1 = entriesBehind buf left toks ∧ r.2.2 = 0) (fun r => r.2.2 < 0) r

/-- No round is left. -/
theorem errorEnds_zero :
    ErrorEnds buf 0 toks (errorObjEnd (walk jsonrpcErrorVisit toks (0, buf, out))) := by
  have hend : errorObjEnd (walk jsonrpcErrorVisit toks (0, buf, out)) = .ok (buf, out, 0) := by
    cases toks with
    | nil => rfl
    | cons tok toks =>
        have hstop : jsonrpcErrorVisit tok toks (0, buf, out) = .ok (.stop (buf, out, 0)) := rfl
        rw [walk_stop hstop]
        rfl
  rw [hend]
  unfold ErrorEnds entryTokens entriesBehind
  exact .good ⟨completeUpTo_nil _ _, fun _ => Nat.zero_le _⟩ (List.forall_mem_nil _) ⟨rfl, rfl⟩

theorem entryTokens_nil (buf : JsonBuf) (left : ℕ) :
    entryTokens buf left [] = [] ∧ entriesBehind buf left [] = buf := by
  cases left with
  | zero => exact ⟨rfl, rfl⟩
  | succ left => exact ⟨rfl, rfl⟩

/-- The first token is `code`. -/
theorem entryTokens_code (h : jsoneq buf tok (ascii "code") = true) :
    entryTokens buf (left + 1) (tok :: toks) =
        (buf, tok, toks) :: entryTokens buf (left - 1) toks.tail ∧
      entriesBehind buf (left + 1) (tok :: toks) = entriesBehind buf (left - 1) toks.tail := by
  cases toks with
  | nil =>
      rw [List.tail_nil, (entryTokens_nil buf _).1, (entryTokens_nil buf _).2]
      exact ⟨rfl, rfl⟩
  | cons value toks => simp [entryTokens, entriesBehind, h]

/-- It is `message`. -/
theorem entryTokens_message {value : Jsmntok} (h : jsoneq buf tok (ascii "message") = true) :
    entryTokens buf (left + 1) (tok :: value :: toks) =
        (buf, tok, value :: toks) :: entryTokens (cutAt buf value.stop) (left - 1) toks ∧
      entriesBehind buf (left + 1) (tok :: value :: toks) =
        entriesBehind (cutAt buf value.stop) (left - 1) toks := by
  have hcode : jsoneq buf tok (ascii "code") = false := by
    by_contra hcode
    rw [Bool.not_eq_false] at hcode
    rw [jsoneq_message_of_code hcode] at h
    cases h
  simp [entryTokens, entriesBehind, h, hcode]

/-- It is neither. -/
theorem entryTokens_pass (hcode : jsoneq buf tok (ascii "code") = false)
    (hmessage : jsoneq buf tok (ascii "message") = false) :
    entryTokens buf (left + 1) (tok :: toks) = (buf, tok, toks) :: entryTokens buf left toks ∧
      entriesBehind buf (left + 1) (tok :: toks) = entriesBehind buf left toks := by
  cases toks with
  | nil =>
      rw [(entryTokens_nil buf _).1, (entryTokens_nil buf _).2]
      exact ⟨rfl, rfl⟩
  | cons value toks => simp [entryTokens, entriesBehind, hcode, hmessage]

/-- There is another token that the loop comes to first. -/
theorem exists_entryTokens_cons :
    ∃ qs, entryTokens buf (left + 1) (tok :: toks) = (buf, tok, toks) :: qs := by
  cases toks with
  | nil => exact ⟨[], rfl⟩
  | cons value toks => exact ⟨_, rfl⟩

/-- A first token that is complete and does not fit. -/
theorem errorEnds_stop {r : JsonBuf × JsonrpcError × ℤ} (hcomplete : EntryComplete (buf, tok, toks))
    (hfits : ¬ EntryFits (buf, tok, toks))
    (hvisit : jsonrpcErrorVisit tok toks (left + 1, buf, out) = .ok (.stop r)) (hr : r.2.2 < 0) :
    ErrorEnds buf (left + 1) (tok :: toks)
      (errorObjEnd (walk jsonrpcErrorVisit (tok :: toks) (left + 1, buf, out))) := by
  obtain ⟨qs, hqs⟩ := @exists_entryTokens_cons buf tok toks left
  rw [walk_stop hvisit]
  unfold ErrorEnds
  rw [hqs]
  have hnot : ¬ ∀ q ∈ (buf, tok, toks) :: qs, EntryFits q := fun h => hfits (h _ List.mem_cons_self)
  exact .bad ⟨completeUpTo_cons.mpr ⟨hcomplete, fun h => absurd h hfits⟩, fun h => absurd h hnot⟩
    hnot hr

/-- A first token that is not complete. -/
theorem errorEnds_error (fault : Fault) (hcomplete : ¬ EntryComplete (buf, tok, toks))
    (hvisit : jsonrpcErrorVisit tok toks (left + 1, buf, out) = .error fault) :
    ErrorEnds buf (left + 1) (tok :: toks)
      (errorObjEnd (walk jsonrpcErrorVisit (tok :: toks) (left + 1, buf, out))) := by
  obtain ⟨qs, hqs⟩ := @exists_entryTokens_cons buf tok toks left
  rw [walk_error hvisit]
  unfold ErrorEnds
  rw [hqs]
  exact .error (fun h => hcomplete (completeUpTo_cons.mp h.1).1) fault

/-- A first token that is complete and fits leaves the loop to the tokens behind. -/
theorem errorEnds_cons {buf' : JsonBuf} {left' : ℕ} {toks' : List Jsmntok}
    {r : Except Fault (JsonBuf × JsonrpcError × ℤ)}
    (hcomplete : EntryComplete (buf, tok, toks)) (hfits : EntryFits (buf, tok, toks))
    (hqs : entryTokens buf (left + 1) (tok :: toks) = (buf, tok, toks) :: entryTokens buf' left' toks')
    (hbehind : entriesBehind buf (left + 1) (tok :: toks) = entriesBehind buf' left' toks')
    (hleft : left + 1 ≤ toks.length + 1 ↔ left' ≤ toks'.length) (h : ErrorEnds buf' left' toks' r) :
    ErrorEnds buf (left + 1) (tok :: toks) r := by
  unfold ErrorEnds at h ⊢
  rw [hqs, hbehind, completeUpTo_cons, List.forall_mem_cons, List.length_cons, hleft]
  simpa only [hcomplete, hfits, true_and, forall_const] using h

/-- **How the loop over an error object ends.** -/
theorem errorEnds (left : ℕ) (toks : List Jsmntok) (buf : JsonBuf) (out : JsonrpcError) :
    ErrorEnds buf left toks (errorObjEnd (walk jsonrpcErrorVisit toks (left, buf, out))) := by
  induction hn : toks.length using Nat.strongRecOn generalizing left toks buf out with
  | ind n ih =>
  subst hn
  rcases left with _ | left
  · exact errorEnds_zero
  rcases toks with _ | ⟨tok, toks⟩
  · refine .error (fun h => ?_) Fault.staleToken
    exact absurd (h.2 (by rw [(entryTokens_nil _ _).1]; exact List.forall_mem_nil _))
      (Nat.not_succ_le_zero _)
  have hlt : toks.length < (tok :: toks).length := Nat.lt_succ_self _
  by_cases htype : tok.type = .string
  swap
  · have hnone : ∀ s, ¬ jsoneq buf tok s = true := fun s h => htype (type_of_jsoneq h)
    exact errorEnds_stop ⟨fun h => absurd h (hnone _), fun h => absurd h (hnone _)⟩
      (fun h => htype h.1) (jsonrpcErrorVisit_other htype) neg_one_lt_zero
  cases hcode : jsoneq buf tok (ascii "code") with
  | true =>
      have hmessage := jsoneq_message_of_code hcode
      cases toks with
      | nil =>
          exact errorEnds_error _ (fun h => absurd rfl (h.1 hcode))
            (jsonrpcErrorVisit_nil htype (Or.inl hcode))
      | cons value toks =>
          have hcomplete : EntryComplete (buf, tok, value :: toks) :=
            ⟨fun _ => List.cons_ne_nil _ _, fun h => absurd (hmessage.symm.trans h) Bool.false_ne_true⟩
          have hvisit := @jsonrpcErrorVisit_code buf tok toks left out value (jsonInt10 buf value).1
            (jsonInt10 buf value).2 htype hcode rfl
          cases hvalid : (jsonInt10 buf value).2 with
          | false =>
              rw [hvalid, if_neg Bool.false_ne_true] at hvisit
              refine errorEnds_stop hcomplete (fun h => ?_) hvisit neg_one_lt_zero
              obtain ⟨_, hv, hfits⟩ := h.2 hcode
              cases hv
              exact Bool.false_ne_true (hvalid.symm.trans hfits)
          | true =>
              rw [hvalid, if_pos rfl] at hvisit
              rw [walk_take hvisit]
              refine errorEnds_cons hcomplete ⟨htype, fun _ => ⟨value, rfl, hvalid⟩⟩
                (entryTokens_code hcode).1 (entryTokens_code hcode).2 ?_ (ih _ ?_ _ _ _ _ rfl)
              · rw [List.length_cons, List.tail_cons]
                omega
              · rw [List.tail_cons, List.length_cons, List.length_cons]
                omega
  | false =>
      have hnot : ¬ jsoneq buf tok (ascii "code") = true := by rw [hcode]; exact Bool.false_ne_true
      cases hmessage : jsoneq buf tok (ascii "message") with
      | true =>
          cases toks with
          | nil =>
              refine errorEnds_error _ (fun h => ?_) (jsonrpcErrorVisit_nil htype (Or.inr hmessage))
              obtain ⟨_, hv, -⟩ := h.2 hmessage
              cases hv
          | cons value toks =>
              by_cases hstop : 0 ≤ value.stop ∧ value.stop < buf.bytes.length
              · rw [walk_take (jsonrpcErrorVisit_message htype hcode hmessage (terminate_eq hstop))]
                refine errorEnds_cons ⟨fun h => absurd h hnot, fun _ => ⟨value, rfl, hstop⟩⟩
                  ⟨htype, fun h => absurd h hnot⟩ (entryTokens_message hmessage).1
                  (entryTokens_message hmessage).2 ?_ (ih _ ?_ _ _ _ _ rfl)
                · rw [List.length_cons]
                  omega
                · rw [List.length_cons, List.length_cons]
                  omega
              · refine errorEnds_error .outside (fun h => ?_) ?_
                · obtain ⟨_, hv, hin⟩ := h.2 hmessage
                  cases hv
                  exact hstop hin
                · have hterm : buf.terminate value.stop = .error .outside := if_neg hstop
                  unfold jsonrpcErrorVisit
                  dsimp only
                  rw [if_neg (Nat.succ_ne_zero left), if_neg (not_not.mpr htype), if_neg hnot,
                    if_pos hmessage, hterm]
      | false =>
          have hnot' : ¬ jsoneq buf tok (ascii "message") = true := by
            rw [hmessage]
            exact Bool.false_ne_true
          rw [walk_pass (jsonrpcErrorVisit_pass htype hcode hmessage)]
          exact errorEnds_cons ⟨fun h => absurd h hnot, fun h => absurd h hnot'⟩
            ⟨htype, fun h => absurd h hnot⟩ (entryTokens_pass hcode hmessage).1
            (entryTokens_pass hcode hmessage).2 (by omega) (ih _ hlt _ _ _ _ rfl)

end loop

/-- **How `__jsonrpc_error_obj` ends.** -/
theorem jsonrpcErrorObj_ends (buf : JsonBuf) (toks : List Jsmntok) (out : JsonrpcError) :
    Ends (ObjComplete buf toks) (ObjFits buf toks) (fun r => r.1 = objBehind buf toks ∧ r.2.2 = 0)
      (fun r => r.2.2 < 0) (jsonrpcErrorObj buf toks out) := by
  rcases toks with _ | ⟨tok, rest⟩
  · refine .error (fun h => ?_) Fault.staleToken
    obtain ⟨_, htok, -⟩ := h
    cases htok
  unfold jsonrpcErrorObj ObjComplete ObjFits objBehind
  simp only [List.head?_cons, Option.mem_def, Option.some.injEq, exists_eq_left', List.tail_cons]
  by_cases htype : tok.type = .object
  · rw [if_neg (not_not.mpr htype)]
    simp only [htype, forall_const, true_and]
    exact errorEnds _ rest buf out
  · rw [if_pos htype]
    exact .bad (fun h => absurd h htype) (fun h => htype h.1) neg_one_lt_zero

/-! ## The members `error` and `id` -/

/-- The first loop takes the token for a key. -/
def isHeadToken (buf : JsonBuf) (tok : Jsmntok) : Bool :=
  jsoneq buf tok (ascii "error") || jsoneq buf tok (ascii "id")

/-- The reply as the messages of an error object leave it. -/
def headNext (buf : JsonBuf) (tok : Jsmntok) (rest : List Jsmntok) : JsonBuf :=
  if jsoneq buf tok (ascii "error") then objBehind buf rest else buf

/-- The strings `error` and `id` that the first loop comes to, each with the reply as the messages in
front of it leave it and with the tokens behind. -/
def headTokens (buf : JsonBuf) (toks : List Jsmntok) : List (JsonBuf × Jsmntok × List Jsmntok) :=
  takesFrom isHeadToken headNext buf toks

/-- The reply as all these messages leave it. -/
def headBehind (buf : JsonBuf) (toks : List Jsmntok) : JsonBuf :=
  knownBehind isHeadToken headNext buf toks

/-- What is read behind a string `error` is there, and behind a string `id` stands a token. -/
def HeadComplete (q : JsonBuf × Jsmntok × List Jsmntok) : Prop :=
  if jsoneq q.1 q.2.1 (ascii "error") then ObjComplete q.1 q.2.2 else q.2.2 ≠ []

/-- Behind a string `error` stands an error object, and behind a string `id` a number. -/
def HeadFits (q : JsonBuf × Jsmntok × List Jsmntok) : Prop :=
  if jsoneq q.1 q.2.1 (ascii "error") then ObjFits q.1 q.2.2
  else ∃ value ∈ q.2.2.head?, (jsonUint10 q.1 value).2 = true

/-- A round at a string `error`. -/
theorem jsonrpcResultVisit_error {out : JsonrpcResult} (h : jsoneq buf tok (ascii "error") = true) :
    (∀ fault, jsonrpcErrorObj buf rest out.error = .error fault →
      jsonrpcResultVisit tok rest (buf, out) = .error fault) ∧
    ∀ buf' error ret, jsonrpcErrorObj buf rest out.error = .ok (buf', error, ret) →
      jsonrpcResultVisit tok rest (buf, out) =
        if ret < 0 then .ok (.stop (buf', { out with error := error }, ret))
        else .ok (.take (buf', { out with error := error })) := by
  unfold jsonrpcResultVisit
  dsimp only
  rw [if_pos h]
  constructor
  · intro fault hobj
    rw [hobj]
  · intro buf' error ret hobj
    rw [hobj]

/-- A key is `id`, if it is not `error`. -/
theorem jsoneq_id_of_isHeadToken (h : isHeadToken buf tok = true)
    (herror : ¬ jsoneq buf tok (ascii "error") = true) : jsoneq buf tok (ascii "id") = true := by
  rw [isHeadToken, Bool.or_eq_true] at h
  exact h.resolve_left herror

/-- The first loop takes its keys. -/
theorem takesKeys_jsonrpcResultVisit :
    TakesKeys jsonrpcResultVisit Prod.fst isHeadToken headNext HeadFits HeadComplete
      fun r => r.2.2 < 0 := by
  constructor
  · rintro tok rest ⟨buf, out⟩ hkey
    rw [isHeadToken, Bool.or_eq_false_iff] at hkey
    refine ⟨(buf, out), ?_, rfl⟩
    unfold jsonrpcResultVisit
    dsimp only at hkey ⊢
    rw [hkey.1, hkey.2, if_neg Bool.false_ne_true, if_neg Bool.false_ne_true]
  · rintro tok rest ⟨buf, out⟩ hkey hcomplete
    unfold HeadComplete at hcomplete
    dsimp only at hkey hcomplete
    split_ifs at hcomplete with herror
    · have hends := jsonrpcErrorObj_ends buf rest out.error
      cases hobj : jsonrpcErrorObj buf rest out.error with
      | ok r => exact absurd (hends.ok_iff.mp ⟨r, hobj⟩) hcomplete
      | error fault => exact ⟨fault, (jsonrpcResultVisit_error herror).1 fault hobj⟩
    · obtain rfl := not_not.mp hcomplete
      refine ⟨.staleToken, ?_⟩
      unfold jsonrpcResultVisit
      dsimp only
      rw [if_neg herror, if_pos (jsoneq_id_of_isHeadToken hkey herror)]
  · rintro tok rest ⟨buf, out⟩ hkey hcomplete hfits
    unfold HeadComplete at hcomplete
    unfold HeadFits at hfits
    dsimp only at hkey hcomplete hfits
    split_ifs at hcomplete hfits with herror
    · have hends := jsonrpcErrorObj_ends buf rest out.error
      obtain ⟨⟨buf', error, ret⟩, hobj⟩ := hends.ok_iff.mpr hcomplete
      rw [hobj] at hends
      cases hends with
      | good _ h => exact absurd h hfits
      | bad _ _ hret =>
          exact ⟨(buf', { out with error := error }, ret),
            ((jsonrpcResultVisit_error herror).2 _ _ _ hobj).trans (if_pos hret), hret⟩
    · rcases rest with _ | ⟨value, rest⟩
      · exact absurd rfl hcomplete
      rw [Bool.not_eq_true] at herror
      have hkey' := jsoneq_id_of_isHeadToken hkey (by rw [herror]; exact Bool.false_ne_true)
      have hvisit := @jsonrpcResultVisit_id buf tok value rest out (jsonUint10 buf value).1
        (jsonUint10 buf value).2 herror hkey' rfl
      rw [if_neg fun h => hfits ⟨value, rfl, h⟩] at hvisit
      exact ⟨_, hvisit, neg_one_lt_zero⟩
  · rintro tok rest ⟨buf, out⟩ hkey hcomplete hfits
    unfold HeadComplete at hcomplete
    unfold HeadFits at hfits
    unfold headNext
    dsimp only at hkey hcomplete hfits ⊢
    split_ifs at hcomplete hfits ⊢ with herror
    · have hends := jsonrpcErrorObj_ends buf rest out.error
      obtain ⟨⟨buf', error, ret⟩, hobj⟩ := hends.ok_iff.mpr hcomplete
      rw [hobj] at hends
      cases hends with
      | bad _ h => exact absurd hfits h
      | good _ _ hb =>
          obtain ⟨hbuf, hret⟩ := hb
          exact ⟨(buf', { out with error := error }), ((jsonrpcResultVisit_error herror).2 _ _ _
            hobj).trans (if_neg (not_lt.mpr (le_of_eq hret.symm))), hbuf⟩
    · obtain ⟨value, hvalue, hvalid⟩ := hfits
      obtain ⟨rest, rfl⟩ := List.head?_eq_some_iff.mp hvalue
      rw [Bool.not_eq_true] at herror
      have hkey' := jsoneq_id_of_isHeadToken hkey (by rw [herror]; exact Bool.false_ne_true)
      have hvisit := @jsonrpcResultVisit_id buf tok value rest out (jsonUint10 buf value).1
        (jsonUint10 buf value).2 herror hkey' rfl
      rw [if_pos hvalid] at hvisit
      exact ⟨_, hvisit, rfl⟩

/-- There is a token, if assertions are on, and in a reply that is an object what is read behind the
strings `error` and `id` is there, up to the first one that does not fit. -/
def ResultComplete (asserts : Bool) (buf : JsonBuf) (toks : List Jsmntok) : Prop :=
  (asserts = true → toks ≠ []) ∧ ∀ tok ∈ toks.head?, tok.type = .object →
    CompleteUpTo HeadFits HeadComplete (headTokens buf toks.tail)

/-- The reply is an object, and all of them fit. -/
def ResultFits (buf : JsonBuf) (toks : List Jsmntok) : Prop :=
  (∃ tok ∈ toks.head?, tok.type = .object) ∧ ∀ q ∈ headTokens buf toks.tail, HeadFits q

/-- **How the first pass over the reply ends.** -/
theorem jsonrpcResult_ends (asserts : Bool) (buf : JsonBuf) (toks : List Jsmntok)
    (out : JsonrpcResult) :
    Ends (ResultComplete asserts buf toks) (ResultFits buf toks)
      (fun r => r.1 = headBehind buf toks.tail ∧ r.2.2 = 0) (fun r => r.2.2 < 0)
      (jsonrpcResult asserts buf toks out) := by
  unfold jsonrpcResult ResultComplete ResultFits check
  rcases toks with _ | ⟨tok, rest⟩
  · cases asserts with
    | true => exact .error (fun h => absurd rfl (h.1 rfl)) Fault.assertion
    | false => exact .bad (by simp) (by simp) neg_one_lt_zero
  simp only [List.length_cons, gt_iff_lt, Nat.zero_lt_succ, not_true_eq_false, and_false, if_false,
    ne_eq, reduceCtorEq, not_false_eq_true, implies_true, true_and, List.head?_cons, Option.mem_def,
    Option.some.injEq, forall_eq', exists_eq_left', List.tail_cons]
  by_cases htype : tok.type = .object
  swap
  · rw [if_pos htype]
    exact .bad (fun h => absurd h htype) (fun h => htype h.1) neg_one_lt_zero
  rw [if_neg (not_not.mpr htype)]
  simp only [htype, forall_const, true_and]
  have hends := walk_ends takesKeys_jsonrpcResultVisit rest (buf, out)
  generalize walk jsonrpcResultVisit rest (buf, out) = w at hends
  cases hends with
  | error hcomplete fault => exact .error hcomplete fault
  | @bad w hcomplete hfits hw =>
      cases w with
      | through => exact absurd hw id
      | stopped r => exact .bad hcomplete hfits hw
  | @good w hcomplete hfits hw =>
      cases w with
      | through s => exact .good hcomplete hfits ⟨hw, rfl⟩
      | stopped => exact absurd hw id

/-! ## The member `result` -/

/-- A key of the last loops. -/
def isResultToken (buf : JsonBuf) (tok : Jsmntok) : Bool := jsoneq buf tok (ascii "result")

/-- The strings `result` that the last loop comes to, with the tokens behind. -/
def resultTokens (buf : JsonBuf) (toks : List Jsmntok) : List (JsonBuf × Jsmntok × List Jsmntok) :=
  takesFrom isResultToken (fun buf _ _ => buf) buf toks

/-- The text of a token, up to a `NUL` in it. -/
def tokenText (buf : JsonBuf) (tok : Jsmntok) : List UInt8 :=
  ((buf.text tok.start).take (tok.stop - tok.start).toNat).takeWhile (· ≠ 0)

/-- Behind a string `result` stands a text that fits in `tmp` with its `NUL`. -/
def HexComplete (q : JsonBuf × Jsmntok × List Jsmntok) : Prop :=
  ∃ value ∈ q.2.2.head?, 0 ≤ value.stop - value.start ∧ value.stop - value.start < 68

/-- It denotes a number. -/
def HexFits (q : JsonBuf × Jsmntok × List Jsmntok) : Prop :=
  ∃ value ∈ q.2.2.head?, ∃ n, DenotesHex (tokenText q.1 value) n

/-- A round of the last loop at a key. -/
theorem hexencodedVisit_key {asserts : Bool} {value : Jsmntok} {out out' : Uint256} {ret : ℤ}
    (hkey : jsoneq buf tok (ascii "result") = true)
    (hroom : 0 ≤ value.stop - value.start ∧ value.stop - value.start < 68)
    (hread : fromstring256 asserts (tokenText buf value) out = .ok (out', ret)) :
    hexencodedVisit asserts buf tok (value :: rest) out =
      if ret < 0 then .ok (.stop (out', ret)) else .ok (.take out') := by
  unfold tokenText at hread
  unfold hexencodedVisit jsonUint256Hex
  rw [if_pos hkey]
  dsimp only
  rw [if_pos hroom, hread]

/-- The last loop for hex numbers takes its keys. -/
theorem takesKeys_hexencodedVisit (asserts : Bool) (buf : JsonBuf) :
    TakesKeys (hexencodedVisit asserts buf) (fun _ => buf) isResultToken (fun buf _ _ => buf)
      HexFits HexComplete fun r => r.2 < 0 := by
  constructor
  · intro tok rest out hkey
    refine ⟨out, ?_, rfl⟩
    unfold isResultToken at hkey
    unfold hexencodedVisit
    rw [hkey, if_neg Bool.false_ne_true]
  · intro tok rest out hkey hcomplete
    unfold isResultToken at hkey
    unfold hexencodedVisit
    rw [if_pos hkey]
    rcases rest with _ | ⟨value, rest⟩
    · exact ⟨_, rfl⟩
    · have hroom : ¬ (0 ≤ value.stop - value.start ∧ value.stop - value.start < 68) :=
        fun h => hcomplete ⟨value, rfl, h⟩
      unfold jsonUint256Hex
      dsimp only
      rw [if_neg hroom]
      exact ⟨_, rfl⟩
  · rintro tok rest out hkey ⟨value, hvalue, hroom⟩ hfits
    obtain ⟨rest, rfl⟩ := List.head?_eq_some_iff.mp hvalue
    obtain ⟨v, ret, hret, ⟨rfl, -⟩ | ⟨rfl, -⟩⟩ :=
      fromstring256_strips asserts (tokenText buf value) out
    · exact absurd ⟨value, rfl, _, (fromstring256_reads_iff asserts out v).mp hret⟩ hfits
    · rw [hexencodedVisit_key hkey hroom hret]
      exact ⟨_, if_pos neg_one_lt_zero, neg_one_lt_zero⟩
  · rintro tok rest out hkey ⟨value, hvalue, hroom⟩ ⟨value', hvalue', n, hn⟩
    obtain rfl := Option.some.inj (hvalue.symm.trans hvalue')
    obtain ⟨rest, rfl⟩ := List.head?_eq_some_iff.mp hvalue
    obtain ⟨v, hv, -⟩ := fromstring256_denotesHex asserts hn out
    rw [hexencodedVisit_key hkey hroom hv]
    exact ⟨v, if_neg (lt_irrefl 0), rfl⟩

/-! ## Receipts -/

/-- The receipt is refused in round `i`. -/
def ReceiptRefused (buf : JsonBuf) (toks : List Jsmntok) (i : ℕ) : Prop :=
  ∃ key ∈ toks[i * 2 + 1]?, key.type ≠ .string ∨
    (jsoneq buf key (ascii "status") = true ∨ jsoneq buf key (ascii "blockNumber") = true) ∧
      ∃ value ∈ toks[i * 2 + 2]?, (jsonUint64Hex buf value).2 = false

/-- The tokens that round `i` reads exist. -/
def ReceiptRoundComplete (buf : JsonBuf) (toks : List Jsmntok) (i : ℕ) : Prop :=
  ∃ key ∈ toks[i * 2 + 1]?, key.type = .string →
    jsoneq buf key (ascii "status") = true ∨ jsoneq buf key (ascii "blockNumber") = true →
      toks[i * 2 + 2]? ≠ none

/-- What a round does: it reads tokens that exist, and it returns a negative number exactly when
it refuses the receipt. -/
theorem txreceiptRound_spec (buf : JsonBuf) (toks : List Jsmntok) (i : ℕ) (out : TxReceipt) :
    (ReceiptRoundComplete buf toks i ∧ ∃ r, txreceiptRound buf toks i out = .ok r ∧
      (r.2 < 0 ↔ ReceiptRefused buf toks i)) ∨
    (¬ ReceiptRoundComplete buf toks i ∧ ∃ fault, txreceiptRound buf toks i out = .error fault) := by
  unfold txreceiptRound ReceiptRoundComplete ReceiptRefused
  rcases toks[i * 2 + 1]? with _ | key
  · exact Or.inr ⟨by simp, _, rfl⟩
  simp only [Option.mem_def, Option.some.injEq, exists_eq_left']
  by_cases htype : key.type = .string
  swap
  · exact Or.inl ⟨fun h => absurd h htype, (out, -1), by rw [if_pos htype], by simp [htype]⟩
  simp only [htype, ne_eq, not_true_eq_false, if_false, forall_const, false_or]
  by_cases hstatus : jsoneq buf key (ascii "status") = true
  · simp only [hstatus, if_true, true_or, forall_const, true_and]
    rcases toks[i * 2 + 2]? with _ | value
    · exact Or.inr ⟨by simp, _, rfl⟩
    · refine Or.inl ⟨by simp, ?_⟩
      rcases hvalid : (jsonUint64Hex buf value).2
      · exact ⟨(out, -1), by simp [hvalid], by simp [hvalid]⟩
      · exact ⟨({ out with status := if (jsonUint64Hex buf value).1 > 0 then 1 else 0 }, 0),
          by simp only [hvalid, if_true], by simp [hvalid]⟩
  rw [Bool.not_eq_true] at hstatus
  by_cases hblock : jsoneq buf key (ascii "blockNumber") = true
  · simp only [hstatus, hblock, if_true, Bool.false_eq_true, if_false, or_true, forall_const,
      true_and]
    rcases toks[i * 2 + 2]? with _ | value
    · exact Or.inr ⟨by simp, _, rfl⟩
    · refine Or.inl ⟨by simp, _, rfl, ?_⟩
      rcases hvalid : (jsonUint64Hex buf value).2
      · simp [hvalid]
      · simp [hvalid]
  · rw [Bool.not_eq_true] at hblock
    refine Or.inl ⟨by simp [hstatus, hblock], (out, 0), ?_, by simp [hstatus, hblock]⟩
    simp only [hstatus, hblock, Bool.false_eq_true, if_false]

/-- **How the loop over a receipt ends**: in the round in which it is refused, or behind the last one,
if the tokens exist up to there. -/
theorem txreceiptLoop_ends (buf : JsonBuf) (toks : List Jsmntok) (left i : ℕ) (out : TxReceipt) :
    Ends (CompleteUpTo (fun j => ¬ ReceiptRefused buf toks j) (ReceiptRoundComplete buf toks)
        (List.range' i left))
      (∀ j ∈ List.range' i left, ¬ ReceiptRefused buf toks j)
      (fun r => ¬ r.2 < 0) (fun r => r.2 < 0) (txreceiptLoop buf toks left i out) := by
  induction left generalizing i out with
  | zero => exact .good (completeUpTo_nil _ _) (List.forall_mem_nil _) (lt_irrefl 0)
  | succ left ih =>
      rw [txreceiptLoop, List.range'_succ, completeUpTo_cons, List.forall_mem_cons]
      rcases txreceiptRound_spec buf toks i out with
        ⟨hcomplete, ⟨out', ret⟩, hr, hret⟩ | ⟨hcomplete, fault, hr⟩
      · rw [hr]
        dsimp only at hret ⊢
        by_cases hneg : ret < 0
        · rw [if_pos hneg]
          exact .bad ⟨hcomplete, fun h => absurd (hret.mp hneg) h⟩ (fun h => h.1 (hret.mp hneg)) hneg
        · have hgo : ¬ ReceiptRefused buf toks i := fun h => hneg (hret.mpr h)
          rw [if_neg hneg]
          simpa only [hcomplete, hgo, not_false_eq_true, true_and, forall_const] using ih (i + 1) out'
      · rw [hr]
        exact .error (fun h => hcomplete h.1) fault

/-- Behind a key `result` stands a token, and if it is an object, the tokens that the rounds over its
members but the first read are there, up to the round in which the receipt is refused. -/
def ReceiptComplete (q : JsonBuf × Jsmntok × List Jsmntok) : Prop :=
  ∃ value ∈ q.2.2.head?, value.type = .object →
    CompleteUpTo (fun i => ¬ ReceiptRefused q.1 q.2.2 i) (ReceiptRoundComplete q.1 q.2.2)
      (List.range' 1 (value.size - 1))

/-- It is an object, and in no round the receipt is refused. -/
def ReceiptFits (q : JsonBuf × Jsmntok × List Jsmntok) : Prop :=
  ∃ value ∈ q.2.2.head?, value.type = .object ∧
    ∀ i ∈ List.range' 1 (value.size - 1), ¬ ReceiptRefused q.1 q.2.2 i

/-- **How `__json_txreceipt` ends.** -/
theorem jsonTxreceipt_ends (buf : JsonBuf) (tok : Jsmntok) (toks : List Jsmntok) (out : TxReceipt) :
    Ends (ReceiptComplete (buf, tok, toks)) (ReceiptFits (buf, tok, toks)) (fun r => ¬ r.2 < 0)
      (fun r => r.2 < 0) (jsonTxreceipt buf toks out) := by
  unfold jsonTxreceipt ReceiptComplete ReceiptFits
  rcases toks with _ | ⟨value, rest⟩
  · refine .error (fun h => ?_) Fault.staleToken
    obtain ⟨_, hvalue, -⟩ := h
    cases hvalue
  simp only [List.head?_cons, Option.mem_def, Option.some.injEq, exists_eq_left']
  by_cases htype : value.type = .object
  · rw [if_neg (not_not.mpr htype)]
    simp only [htype, forall_const, true_and]
    exact txreceiptLoop_ends buf (value :: rest) (value.size - 1) 1 out
  · rw [if_pos htype]
    exact .bad (fun h => absurd h htype) (fun h => htype h.1) neg_one_lt_zero

/-- The last loop for receipts takes its keys. -/
theorem takesKeys_txreceiptVisit (buf : JsonBuf) :
    TakesKeys (txreceiptVisit buf) (fun _ => buf) isResultToken (fun buf _ _ => buf)
      ReceiptFits ReceiptComplete fun r => r.2 < 0 := by
  have hkeyed : ∀ {tok rest out out' ret}, isResultToken buf tok = true →
      jsonTxreceipt buf rest out = .ok (out', ret) →
        txreceiptVisit buf tok rest out =
          if ret < 0 then .ok (.stop (out', ret)) else .ok (.take out') := by
    intro tok rest out out' ret hkey hr
    unfold isResultToken at hkey
    unfold txreceiptVisit
    rw [if_pos hkey, hr]
  constructor
  · intro tok rest out hkey
    refine ⟨out, ?_, rfl⟩
    unfold isResultToken at hkey
    unfold txreceiptVisit
    rw [hkey, if_neg Bool.false_ne_true]
  · intro tok rest out hkey hcomplete
    have hends := jsonTxreceipt_ends buf tok rest out
    cases hr : jsonTxreceipt buf rest out with
    | ok r => exact absurd (hends.ok_iff.mp ⟨r, hr⟩) hcomplete
    | error fault =>
        unfold isResultToken at hkey
        unfold txreceiptVisit
        rw [if_pos hkey, hr]
        exact ⟨fault, rfl⟩
  · intro tok rest out hkey hcomplete hfits
    have hends := jsonTxreceipt_ends buf tok rest out
    obtain ⟨⟨out', ret⟩, hr⟩ := hends.ok_iff.mpr hcomplete
    rw [hr] at hends
    cases hends with
    | good _ h => exact absurd h hfits
    | bad _ _ hret =>
        exact ⟨(out', ret), (hkeyed hkey hr).trans (if_pos hret), hret⟩
  · intro tok rest out hkey hcomplete hfits
    have hends := jsonTxreceipt_ends buf tok rest out
    obtain ⟨⟨out', ret⟩, hr⟩ := hends.ok_iff.mpr hcomplete
    rw [hr] at hends
    cases hends with
    | bad _ h => exact absurd hfits h
    | good _ _ hret =>
        exact ⟨out', (hkeyed hkey hr).trans (if_neg hret), rfl⟩

/-! ## The decoders -/

section decode

variable {α : Type} (asserts : Bool) (fits complete : JsonBuf × Jsmntok × List Jsmntok → Prop)

/-- What the two passes over a reply read is there, up to the first key that does not fit. -/
def ReplyComplete (buf : JsonBuf) : Prop :=
  ∀ toks ∈ jsmnParse buf.bytes 64, ResultComplete asserts buf toks ∧
    (ResultFits buf toks →
      CompleteUpTo fits complete (resultTokens (headBehind buf toks.tail) toks.tail))

/-- The reply is an object, and all keys of both passes fit. -/
def ReplyFits (buf : JsonBuf) : Prop :=
  ∃ toks ∈ jsmnParse buf.bytes 64, ResultFits buf toks ∧
    ∀ q ∈ resultTokens (headBehind buf toks.tail) toks.tail, fits q

variable {asserts fits complete}

/-- **How a decoder ends**: it returns 0 where everything fits, and otherwise a negative number, if what
it reads is there. -/
theorem jsonrpcDecode_ends
    {visit : JsonBuf → Jsmntok → List Jsmntok → α → Except Fault (Visit α (α × ℤ))}
    (hvisit : ∀ buf, TakesKeys (visit buf) (fun _ => buf) isResultToken (fun buf _ _ => buf) fits
      complete fun r => r.2 < 0) (buf : JsonBuf) (result : JsonrpcResult) (out : α) :
    Ends (ReplyComplete asserts fits complete buf) (ReplyFits fits buf) (fun r => r.2.2.2 = 0)
      (fun r => r.2.2.2 < 0) (jsonrpcDecode asserts visit buf result out) := by
  unfold jsonrpcDecode ReplyComplete ReplyFits
  rcases jsmnParse buf.bytes 64 with _ | toks
  · exact .bad (by simp) (by simp) neg_one_lt_zero
  simp only [Option.mem_def, Option.some.injEq, forall_eq', exists_eq_left']
  have hresult := jsonrpcResult_ends asserts buf toks result
  generalize jsonrpcResult asserts buf toks result = r at hresult
  cases hresult with
  | error hcomplete fault => exact .error (fun h => hcomplete h.1) fault
  | @bad r hcomplete hfits hr =>
      dsimp only
      rw [if_pos hr]
      exact .bad ⟨hcomplete, fun h => absurd h hfits⟩ (fun h => hfits h.1) neg_one_lt_zero
  | @good r hcomplete hfits hr =>
      obtain ⟨buf', result', ret⟩ := r
      obtain ⟨rfl, rfl⟩ := hr
      dsimp only
      rw [if_neg (lt_irrefl 0)]
      simp only [hcomplete, hfits, forall_const, true_and]
      have hends := walk_ends (hvisit (headBehind buf toks.tail)) toks.tail out
      unfold resultTokens
      generalize walk (visit (headBehind buf toks.tail)) toks.tail out = w at hends
      cases hends with
      | error hcomplete fault => exact .error hcomplete fault
      | @bad w hcomplete hfits hw =>
          cases w with
          | through => exact absurd hw id
          | stopped r => exact .bad hcomplete hfits hw
      | @good w hcomplete hfits hw =>
          cases w with
          | through s => exact .good hcomplete hfits rfl
          | stopped => exact absurd hw id

end decode

/-- **How `jsonrpc_decode_hexencoded` ends.** -/
theorem jsonrpcDecodeHexencoded_ends (asserts : Bool) (buf : JsonBuf) (result : JsonrpcResult)
    (out : Uint256) :
    Ends (ReplyComplete asserts HexFits HexComplete buf) (ReplyFits HexFits buf)
      (fun r => r.2.2.2 = 0) (fun r => r.2.2.2 < 0)
      (jsonrpcDecodeHexencoded asserts buf result out) :=
  jsonrpcDecode_ends (takesKeys_hexencodedVisit asserts) buf result out

/-- **How `jsonrpc_decode_txreceipt` ends.** -/
theorem jsonrpcDecodeTxreceipt_ends (asserts : Bool) (buf : JsonBuf) (result : JsonrpcResult)
    (out : TxReceipt) :
    Ends (ReplyComplete asserts ReceiptFits ReceiptComplete buf) (ReplyFits ReceiptFits buf)
      (fun r => r.2.2.2 = 0) (fun r => r.2.2.2 < 0)
      (jsonrpcDecodeTxreceipt asserts buf result out) :=
  jsonrpcDecode_ends takesKeys_txreceiptVisit buf result out

/-- A run of one of the three decoders: with the previous contents of `*result` and `*out`, where
it has them. -/
inductive ReplyDecoder where
  /-- `jsonrpc_decode_hexencoded`. -/
  | hexencoded (result : JsonrpcResult) (out : Uint256)
  /-- `jsonrpc_decode_txreceipt`. -/
  | txreceipt (result : JsonrpcResult) (out : TxReceipt)
  /-- `st_parse_error_reply`. -/
  | errorReply

/-- The run on a reply, with assertions, has no fault: no assertion fails, every token read is one
that `jsmn_parse` returned, the text copied to `tmp` is shorter than `tmp`, and the terminator of a
message is stored in the buffer. -/
def ReplyDecoder.Faultless (buf : JsonBuf) : ReplyDecoder → Prop
  | hexencoded result out => ∃ r, jsonrpcDecodeHexencoded true buf result out = .ok r
  | txreceipt result out => ∃ r, jsonrpcDecodeTxreceipt true buf result out = .ok r
  | errorReply => ∃ r, Sawtooth.stParseErrorReply buf = .ok r

/-- The reply has tokens where the decoder reads them, whatever `*result` and `*out` hold. -/
def ReplyDecoder.Readable (buf : JsonBuf) : ReplyDecoder → Prop
  | hexencoded _ _ => ReplyComplete true HexFits HexComplete buf
  | txreceipt _ _ => ReplyComplete true ReceiptFits ReceiptComplete buf
  | errorReply =>
      ∀ toks ∈ jsmnParse buf.bytes 4, ∀ tok ∈ toks.head?, tok.type = .object →
        ∃ key ∈ toks[1]?, jsoneq buf key (ascii "error") = true → toks[2]? ≠ none

/-- **When the decoders run without a fault.** In a reply that `jsmn_parse` accepts, a token follows
each key that is come to in front of the first one that is not followed by what it asks for, and
what is copied or terminated there has room. No more is asked behind that key, where the reply is
refused. -/
theorem ReplyDecoder.faultless_iff (decoder : ReplyDecoder) (buf : JsonBuf) :
    decoder.Faultless buf ↔ decoder.Readable buf := by
  cases decoder with
  | hexencoded result out => exact (jsonrpcDecodeHexencoded_ends true buf result out).ok_iff
  | txreceipt result out => exact (jsonrpcDecodeTxreceipt_ends true buf result out).ok_iff
  | errorReply =>
      unfold Faultless Readable Sawtooth.stParseErrorReply
      rcases jsmnParse buf.bytes 4 with _ | toks
      · simp
      simp only [Option.mem_def, Option.some.injEq, forall_eq']
      rcases toks with _ | ⟨tok, _ | ⟨key, rest⟩⟩
      · simp
      · by_cases htype : tok.type = .object
        · simp [htype]
        · simp [htype]
      · by_cases htype : tok.type = .object
        · by_cases herror : jsoneq buf key (ascii "error") = true
          · rcases rest with _ | ⟨value, rest⟩
            · simp [htype, herror]
            · by_cases hvalue : value.type = .string
              · simp [htype, herror, hvalue]
              · simp [htype, herror, hvalue]
          · simp [htype, herror]
        · simp [htype]

/-- The contents of `*result` before a call. -/
def blankResult : JsonrpcResult := ⟨0, ⟨0, none⟩⟩

/-- A buffer with nothing around it. -/
def replyOf (text : String) : JsonBuf := ⟨[], ascii text, []⟩

/-- **Every kind of fault occurs.** An empty reply fails the assertion on the number of tokens; the
value of a key without one is read past the tokens; 68 digits are copied to `tmp`; the value of a
message is the token behind the reply, which ends where the buffer does; and the key of an empty
object is read past the tokens. -/
theorem ReplyDecoder.not_faultless :
    ¬ (hexencoded blankResult clear256).Faultless (replyOf "") ∧
      ¬ (hexencoded blankResult clear256).Faultless (replyOf "\x7b\"result\"\x7d") ∧
      ¬ (hexencoded blankResult clear256).Faultless
        (replyOf ("\x7b\"result\":\"" ++ String.ofList (List.replicate 68 '0') ++ "\"\x7d")) ∧
      ¬ (txreceipt blankResult ⟨0, 0⟩).Faultless
        (replyOf "\x7b\"error\":\x7b\"message\"\x7d\x7d0") ∧
      ¬ errorReply.Faultless (replyOf "\x7b\x7d") := by
  have hfault : ∀ {α : Type} {x : Except Fault α} (fault : Fault), x = .error fault →
      ¬ ∃ r, x = .ok r := by
    rintro α x fault rfl ⟨r, hr⟩
    cases hr
  refine ⟨hfault .assertion ?_, hfault .staleToken ?_, hfault .tmpOverflow ?_, hfault .outside ?_,
    hfault .staleToken ?_⟩
  · decide
  · decide
  · decide
  · decide
  · decide

end AnylWallet.Eth
