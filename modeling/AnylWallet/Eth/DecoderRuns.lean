import AnylWallet.Eth.DecoderFaults
import AnylWallet.Helpers.FromstringStrips

/-!
# What the decoder of hex numbers takes from the contents of `*result`

`jsonrpc_decode_hexencoded` is called with a `*result` that nobody has filled. Two runs on one reply
are compared, which start with different contents of `*result` and `*out`.

* `jsonrpcDecodeHexencoded_same`: they have the same fault, or return the same number and leave the
  same buffer. Their codes are related as before, by any relation; and where the reply
  `StoresCode`, by any relation that holds between equal codes.
* `jsonrpcDecodeHexencoded_eq_zero_iff`: whether the reply is accepted does not depend on them.
-/

namespace AnylWallet.Eth

open AnylWallet.Lib AnylWallet.Helpers

variable {buf : JsonBuf} {tok : Jsmntok} {rest toks : List Jsmntok} {C : ℤ → ℤ → Prop}

/-! ## The error object -/

/-- States of the loop over the error object that differ in the contents of `*out` alone. -/
def ErrorStates (C : ℤ → ℤ → Prop) (s s' : ℕ × JsonBuf × JsonrpcError) : Prop :=
  s.1 = s'.1 ∧ s.2.1 = s'.2.1 ∧ C s.2.2.code s'.2.2.code

/-- Results of `__jsonrpc_error_obj` that differ in the contents of `*out` alone. -/
def ErrorResults (C : ℤ → ℤ → Prop) (r r' : JsonBuf × JsonrpcError × ℤ) : Prop :=
  r.1 = r'.1 ∧ r.2.2 = r'.2.2 ∧ C r.2.1.code r'.2.1.code

/-- One round: a member `code` is stored whatever was there before, and nothing else is. -/
theorem jsonrpcErrorVisit_same {left : ℕ} {e e' : JsonrpcError}
    (h : C e.code e'.code ∨ left ≠ 0 ∧ jsoneq buf tok (ascii "code") = true)
    (hcode : left ≠ 0 ∧ jsoneq buf tok (ascii "code") = true → ∀ v, C v v) :
    SameVisit (ErrorStates C) (ErrorResults C) (jsonrpcErrorVisit tok rest (left, buf, e))
      (jsonrpcErrorVisit tok rest (left, buf, e')) := by
  unfold jsonrpcErrorVisit
  dsimp only
  by_cases hkey : left ≠ 0 ∧ jsoneq buf tok (ascii "code") = true
  · rw [if_neg hkey.1, if_neg hkey.1, if_neg (not_not.mpr (type_of_jsoneq hkey.2)),
      if_neg (not_not.mpr (type_of_jsoneq hkey.2)), if_pos hkey.2, if_pos hkey.2]
    cases rest with
    | nil => exact .error _
    | cons value rest =>
        dsimp only
        split
        · exact .take ⟨rfl, rfl, hcode hkey _⟩
        · exact .stop ⟨rfl, rfl, hcode hkey _⟩
  have hC : C e.code e'.code := h.resolve_right hkey
  by_cases hleft : left = 0
  · rw [if_pos hleft, if_pos hleft]
    exact .stop ⟨rfl, rfl, hC⟩
  rw [if_neg hleft, if_neg hleft, if_neg fun hkey' => hkey ⟨hleft, hkey'⟩,
    if_neg fun hkey' => hkey ⟨hleft, hkey'⟩]
  split_ifs with htype hmessage
  · exact .stop ⟨rfl, rfl, hC⟩
  · cases rest with
    | nil => exact .error _
    | cons value rest =>
        dsimp only
        cases buf.terminate value.stop with
        | error fault => exact .error fault
        | ok buf' => exact .take ⟨rfl, rfl, hC⟩
  · exact .pass ⟨rfl, rfl, hC⟩

/-- What one run over the error object comes to, every run comes to. -/
theorem jsonrpcErrorVisit_reaches {l l' : List Jsmntok} {left left' : ℕ} {buf' : JsonBuf}
    {e e₁ : JsonrpcError}
    (h : Reaches jsonrpcErrorVisit l (left, buf, e) l' (left', buf', e₁)) (e' : JsonrpcError) :
    ∃ e₁', Reaches jsonrpcErrorVisit l (left, buf, e') l' (left', buf', e₁') := by
  have hstart : ErrorStates (fun _ _ => True) (left, buf, e) (left, buf, e') := ⟨rfl, rfl, trivial⟩
  have hvisit : ∀ tok rest s s', ErrorStates (fun _ _ => True) s s' →
      SameVisit (ErrorStates fun _ _ => True) (ErrorResults fun _ _ => True)
        (jsonrpcErrorVisit tok rest s) (jsonrpcErrorVisit tok rest s') := by
    rintro tok rest ⟨left, buf, e⟩ ⟨_, _, e'⟩ ⟨rfl, rfl, -⟩
    exact jsonrpcErrorVisit_same (Or.inl trivial) fun _ _ => trivial
  obtain ⟨⟨_, _, e₁'⟩, hreach, rfl, rfl, -⟩ := h.same hstart hvisit
  exact ⟨e₁', hreach⟩

/-- The loop over the error object whose tokens start here comes to a member `code`. -/
def ObjStoresCode (buf : JsonBuf) (toks : List Jsmntok) : Prop :=
  ∃ tok ∈ toks.head?, tok.type = .object ∧ ∃ key rest left buf' out out',
    Reaches jsonrpcErrorVisit toks.tail (2 * tok.size, buf, out) (key :: rest)
      (left, buf', out') ∧
    left ≠ 0 ∧ jsoneq buf' key (ascii "code") = true

/-- The error object: two runs end the same way. -/
theorem jsonrpcErrorObj_same {e e' : JsonrpcError} (h : C e.code e'.code ∨ ObjStoresCode buf toks)
    (hcode : ObjStoresCode buf toks → ∀ v, C v v) :
    SameRun (ErrorResults C) (jsonrpcErrorObj buf toks e) (jsonrpcErrorObj buf toks e') := by
  cases toks with
  | nil => exact .error _
  | cons tok rest =>
      unfold jsonrpcErrorObj
      dsimp only
      split_ifs with htype
      · refine .ok ⟨rfl, rfl, h.resolve_right ?_⟩
        rintro ⟨tok', htok', htype', -⟩
        exact htype (Option.some.inj htok' ▸ htype')
      have hwalk : SameWalk (ErrorStates C) (ErrorResults C)
          (walk jsonrpcErrorVisit rest (2 * tok.size, buf, e))
          (walk jsonrpcErrorVisit rest (2 * tok.size, buf, e')) := by
        by_cases hstores : ObjStoresCode buf (tok :: rest)
        · -- both walks come to the member, and hold the same code behind it
          have hC := hcode hstores
          obtain ⟨tok', htok', -, key, behind, left, buf', out, out', hreach, hleft, hkey⟩ := hstores
          obtain rfl := Option.some.inj htok'
          rw [List.tail_cons] at hreach
          obtain ⟨o, ho⟩ := jsonrpcErrorVisit_reaches hreach e
          obtain ⟨o', ho'⟩ := jsonrpcErrorVisit_reaches hreach e'
          rw [ho.walk_eq, ho'.walk_eq]
          refine walk_same_of_visit (jsonrpcErrorVisit_same (Or.inr ⟨hleft, hkey⟩) fun _ => hC) ?_
          rintro t rest ⟨left, buf, o⟩ ⟨left', buf', o'⟩ ⟨rfl, rfl, hstate⟩
          exact jsonrpcErrorVisit_same (Or.inl hstate) fun _ => hC
        · refine walk_same ⟨rfl, rfl, h.resolve_right hstores⟩ ?_
          rintro t rest' ⟨left, buf', o⟩ ⟨left', buf'', o'⟩ hreach ⟨rfl, rfl, hstate⟩
          refine jsonrpcErrorVisit_same (Or.inl hstate) fun ⟨hleft, hkey⟩ => absurd ?_ hstores
          exact ⟨tok, rfl, not_not.mp htype, t, rest', left, buf', e, o, hreach, hleft, hkey⟩
      generalize walk jsonrpcErrorVisit rest (2 * tok.size, buf, e) = w at hwalk
      generalize walk jsonrpcErrorVisit rest (2 * tok.size, buf, e') = w' at hwalk
      cases hwalk with
      | error fault => exact .error fault
      | @through s s' hstate =>
          obtain ⟨left, buf', o⟩ := s
          obtain ⟨left', buf'', o'⟩ := s'
          obtain ⟨rfl, rfl, hC⟩ := hstate
          dsimp only
          split
          · exact .ok ⟨rfl, rfl, hC⟩
          · exact .error _
      | stopped hres => exact .ok hres

/-! ## The members `error` and `id` -/

/-- States of the loop over the reply that differ in the contents of `*out` alone. -/
def ResultStates (C : ℤ → ℤ → Prop) (s s' : JsonBuf × JsonrpcResult) : Prop :=
  s.1 = s'.1 ∧ C s.2.error.code s'.2.error.code

/-- Results of `__jsonrpc_result` that differ in the contents of `*out` alone. -/
def ResultResults (C : ℤ → ℤ → Prop) (r r' : JsonBuf × JsonrpcResult × ℤ) : Prop :=
  r.1 = r'.1 ∧ r.2.2 = r'.2.2 ∧ C r.2.1.error.code r'.2.1.error.code

/-- The token is a key `error`, and the error object behind it has a member `code`. -/
def MemberStoresCode (buf : JsonBuf) (tok : Jsmntok) (rest : List Jsmntok) : Prop :=
  jsoneq buf tok (ascii "error") = true ∧ ObjStoresCode buf rest

/-- One round of the loop over the reply. -/
theorem jsonrpcResultVisit_same {out out' : JsonrpcResult}
    (h : C out.error.code out'.error.code ∨ MemberStoresCode buf tok rest)
    (hcode : MemberStoresCode buf tok rest → ∀ v, C v v) :
    SameVisit (ResultStates C) (ResultResults C) (jsonrpcResultVisit tok rest (buf, out))
      (jsonrpcResultVisit tok rest (buf, out')) := by
  unfold jsonrpcResultVisit
  dsimp only
  by_cases herror : jsoneq buf tok (ascii "error") = true
  · rw [if_pos herror, if_pos herror]
    have hobj := jsonrpcErrorObj_same (h.imp_right And.right) fun hobj => hcode ⟨herror, hobj⟩
    generalize jsonrpcErrorObj buf rest out.error = r at hobj
    generalize jsonrpcErrorObj buf rest out'.error = r' at hobj
    cases hobj with
    | error fault => exact .error fault
    | @ok r r' hres =>
        obtain ⟨buf₁, e, ret⟩ := r
        obtain ⟨_, e', _⟩ := r'
        obtain ⟨rfl, rfl, hC⟩ := hres
        dsimp only
        split_ifs
        · exact .stop ⟨rfl, rfl, hC⟩
        · exact .take ⟨rfl, hC⟩
  have hC : C out.error.code out'.error.code := h.resolve_right fun hkey => herror hkey.1
  rw [if_neg herror, if_neg herror]
  split_ifs
  · cases rest with
    | nil => exact .error _
    | cons value rest =>
        dsimp only
        split_ifs
        · exact .take ⟨rfl, hC⟩
        · exact .stop ⟨rfl, rfl, hC⟩
  · exact .pass ⟨rfl, hC⟩

/-- What one run over the reply comes to, every run comes to. -/
theorem jsonrpcResultVisit_reaches {l l' : List Jsmntok} {buf' : JsonBuf} {out out₁ : JsonrpcResult}
    (h : Reaches jsonrpcResultVisit l (buf, out) l' (buf', out₁)) (out' : JsonrpcResult) :
    ∃ out₁', Reaches jsonrpcResultVisit l (buf, out') l' (buf', out₁') := by
  have hstart : ResultStates (fun _ _ => True) (buf, out) (buf, out') := ⟨rfl, trivial⟩
  have hvisit : ∀ tok rest s s', ResultStates (fun _ _ => True) s s' →
      SameVisit (ResultStates fun _ _ => True) (ResultResults fun _ _ => True)
        (jsonrpcResultVisit tok rest s) (jsonrpcResultVisit tok rest s') := by
    rintro tok rest ⟨buf, out⟩ ⟨_, out'⟩ ⟨rfl, -⟩
    exact jsonrpcResultVisit_same (Or.inl trivial) fun _ _ => trivial
  obtain ⟨⟨_, out₁'⟩, hreach, rfl, -⟩ := h.same hstart hvisit
  exact ⟨out₁', hreach⟩

/-- The loop over the reply comes to a member `error` whose object has a member `code`. -/
def ReplyStoresCode (buf : JsonBuf) (toks : List Jsmntok) : Prop :=
  ∃ tok ∈ toks.head?, tok.type = .object ∧ ∃ key rest buf' out out',
    Reaches jsonrpcResultVisit toks.tail (buf, out) (key :: rest) (buf', out') ∧
    MemberStoresCode buf' key rest

/-- The first pass over the reply: two runs end the same way. -/
theorem jsonrpcResult_same {asserts : Bool} {out out' : JsonrpcResult}
    (h : C out.error.code out'.error.code ∨ ReplyStoresCode buf toks)
    (hcode : ReplyStoresCode buf toks → ∀ v, C v v) :
    SameRun (ResultResults C) (jsonrpcResult asserts buf toks out)
      (jsonrpcResult asserts buf toks out') := by
  unfold jsonrpcResult
  cases check asserts (toks.length > 0) with
  | error fault => exact .error fault
  | ok =>
      dsimp only
      cases toks with
      | nil => exact .ok ⟨rfl, rfl, h.resolve_right fun ⟨_, htok, _⟩ => nomatch htok⟩
      | cons tok rest =>
          dsimp only
          split_ifs with htype
          · refine .ok ⟨rfl, rfl, h.resolve_right ?_⟩
            rintro ⟨tok', htok', htype', -⟩
            exact htype (Option.some.inj htok' ▸ htype')
          have hwalk : SameWalk (ResultStates C) (ResultResults C)
              (walk jsonrpcResultVisit rest (buf, out))
              (walk jsonrpcResultVisit rest (buf, out')) := by
            by_cases hstores : ReplyStoresCode buf (tok :: rest)
            · have hC := hcode hstores
              obtain ⟨_, -, -, key, behind, buf', o, o', hreach, hkey⟩ := hstores
              rw [List.tail_cons] at hreach
              obtain ⟨o, ho⟩ := jsonrpcResultVisit_reaches hreach out
              obtain ⟨o', ho'⟩ := jsonrpcResultVisit_reaches hreach out'
              rw [ho.walk_eq, ho'.walk_eq]
              refine walk_same_of_visit (jsonrpcResultVisit_same (Or.inr hkey) fun _ => hC) ?_
              rintro t rest ⟨buf, o⟩ ⟨_, o'⟩ ⟨rfl, hstate⟩
              exact jsonrpcResultVisit_same (Or.inl hstate) fun _ => hC
            · refine walk_same ⟨rfl, h.resolve_right hstores⟩ ?_
              rintro t rest' ⟨buf', o⟩ ⟨_, o'⟩ hreach ⟨rfl, hstate⟩
              refine jsonrpcResultVisit_same (Or.inl hstate) fun hkey => absurd ?_ hstores
              exact ⟨tok, rfl, not_not.mp htype, t, rest', buf', out, o, hreach, hkey⟩
          generalize walk jsonrpcResultVisit rest (buf, out) = w at hwalk
          generalize walk jsonrpcResultVisit rest (buf, out') = w' at hwalk
          cases hwalk with
          | error fault => exact .error fault
          | @through s s' hstate =>
              obtain ⟨buf', o⟩ := s
              obtain ⟨_, o'⟩ := s'
              obtain ⟨rfl, hC⟩ := hstate
              exact .ok ⟨rfl, rfl, hC⟩
          | stopped hres => exact .ok hres

/-! ## The member `result` -/

/-- `__json_uint256_hex` returns the same for every previous content of `*out`. -/
theorem jsonUint256Hex_same (asserts : Bool) (buf : JsonBuf) (tok : Jsmntok) (out out' : Uint256) :
    SameRun (fun r r' => r.2 = r'.2 ∧ (r.2 = 0 ∨ r.2 = -1)) (jsonUint256Hex asserts buf tok out)
      (jsonUint256Hex asserts buf tok out') := by
  unfold jsonUint256Hex
  dsimp only
  split_ifs
  · generalize ((buf.text tok.start).take (tok.stop - tok.start).toNat).takeWhile (· ≠ 0) = s
    obtain ⟨v, ret, hr, hret⟩ := fromstring256_strips asserts s out
    obtain ⟨v', ret', hr', hret'⟩ := fromstring256_strips asserts s out'
    rw [hr, hr']
    rcases hret with ⟨rfl, hs⟩ | ⟨rfl, hs⟩ <;> rcases hret' with ⟨rfl, hs'⟩ | ⟨rfl, hs'⟩
    · exact .ok ⟨rfl, Or.inl rfl⟩
    · exact absurd hs hs'
    · exact absurd hs' hs
    · exact .ok ⟨rfl, Or.inr rfl⟩
  · exact .error _

/-- One round of the last loop; one that ends it returns -1. -/
theorem hexencodedVisit_same (asserts : Bool) (buf : JsonBuf) (tok : Jsmntok) (rest : List Jsmntok)
    (out out' : Uint256) :
    SameVisit (fun _ _ => True) (fun r r' => r.2 = r'.2 ∧ r.2 = -1)
      (hexencodedVisit asserts buf tok rest out) (hexencodedVisit asserts buf tok rest out') := by
  unfold hexencodedVisit
  split_ifs
  · cases rest with
    | nil => exact .error _
    | cons value rest =>
        dsimp only
        have hhex := jsonUint256Hex_same asserts buf value out out'
        generalize jsonUint256Hex asserts buf value out = r at hhex
        generalize jsonUint256Hex asserts buf value out' = r' at hhex
        cases hhex with
        | error fault => exact .error fault
        | @ok r r' hres =>
            obtain ⟨v, ret⟩ := r
            obtain ⟨v', _⟩ := r'
            obtain ⟨rfl, rfl | rfl⟩ := hres
            · exact .take trivial
            · exact .stop ⟨rfl, rfl⟩
  · exact .pass trivial

/-! ## The decoder -/

/-- A round that ends the loop refuses the reply. -/
theorem jsonrpcResultVisit_stop {out : JsonrpcResult} {r : JsonBuf × JsonrpcResult × ℤ}
    (h : jsonrpcResultVisit tok rest (buf, out) = .ok (.stop r)) : r.2.2 < 0 := by
  unfold jsonrpcResultVisit at h
  dsimp only at h
  split_ifs at h
  · rcases hobj : jsonrpcErrorObj buf rest out.error with fault | ⟨buf', error, ret⟩
    · rw [hobj] at h
      cases h
    · simp only [hobj] at h
      split_ifs at h with hret
      · simp only [Except.ok.injEq, Visit.stop.injEq] at h
        rwa [← h]
      · cases h
  · cases rest with
    | nil => cases h
    | cons value rest =>
        simp only at h
        split_ifs at h
        · cases h
        · simp only [Except.ok.injEq, Visit.stop.injEq] at h
          rw [← h]
          exact neg_one_lt_zero
  · cases h

/-- The first pass does not refuse the reply: it is an object, and the loop over its members comes
to its end. -/
theorem jsonrpcResult_accepts_iff {asserts : Bool} {out out' : JsonrpcResult} {buf' : JsonBuf}
    {ret : ℤ} :
    jsonrpcResult asserts buf toks out = .ok (buf', out', ret) ∧ 0 ≤ ret ↔
      (∃ tok ∈ toks.head?, tok.type = .object) ∧
        Reaches jsonrpcResultVisit toks.tail (buf, out) [] (buf', out') ∧ ret = 0 := by
  unfold jsonrpcResult check
  cases toks with
  | nil =>
      cases asserts
      · simp only [List.length_nil, gt_iff_lt, lt_irrefl, Bool.false_eq_true, false_and, if_false,
          Except.ok.injEq, Prod.mk.injEq, List.head?_nil, Option.mem_def, reduceCtorEq, exists_false,
          iff_false, not_and]
        omega
      · simp
  | cons tok rest =>
      simp only [List.length_cons, gt_iff_lt, Nat.zero_lt_succ, not_true_eq_false, and_false,
        if_false, List.head?_cons, Option.mem_def, Option.some.injEq, exists_eq_left',
        List.tail_cons]
      by_cases htype : tok.type = .object
      · rw [if_neg (not_not.mpr htype), ← walk_eq_through_iff]
        simp only [htype, true_and]
        rcases hw : walk jsonrpcResultVisit rest (buf, out) with
          fault | ⟨buf₁, out₁⟩ | ⟨buf₁, out₁, ret₁⟩
        · simp
        · simp only [Except.ok.injEq, Prod.mk.injEq, Walked.through.injEq]
          constructor
          · rintro ⟨⟨rfl, rfl, rfl⟩, -⟩
            exact ⟨⟨rfl, rfl⟩, rfl⟩
          · rintro ⟨⟨rfl, rfl⟩, rfl⟩
            exact ⟨⟨rfl, rfl, rfl⟩, le_rfl⟩
        · obtain ⟨key, rest', ⟨buf₂, out₂⟩, -, hv⟩ := walk_eq_stopped_iff.mp hw
          have hneg := jsonrpcResultVisit_stop hv
          simp only at hneg
          simp only [Except.ok.injEq, Prod.mk.injEq, reduceCtorEq, false_and, iff_false, not_and]
          rintro ⟨rfl, rfl, rfl⟩
          omega
      · rw [if_pos htype]
        simp only [Except.ok.injEq, Prod.mk.injEq, htype, false_and, iff_false, not_and]
        rintro ⟨rfl, rfl, rfl⟩
        omega

/-- Results of the decoder that differ in the contents of `*result` and `*out` alone. -/
def DecodeResults (C : ℤ → ℤ → Prop) (r r' : JsonBuf × JsonrpcResult × Uint256 × ℤ) : Prop :=
  r.1 = r'.1 ∧ (r.2.2.2 = r'.2.2.2 ∧ (r.2.2.2 = 0 ∨ r.2.2.2 = -1)) ∧
    C r.2.1.error.code r'.2.1.error.code

/-- The decoder stores a code that it finds in the reply. -/
def StoresCode (buf : JsonBuf) : Prop := ∃ toks ∈ jsmnParse buf.bytes 64, ReplyStoresCode buf toks

/-- **Two runs of the decoder on one reply.** -/
theorem jsonrpcDecodeHexencoded_same {asserts : Bool} {result result' : JsonrpcResult}
    {out out' : Uint256} (h : C result.error.code result'.error.code ∨ StoresCode buf)
    (hcode : StoresCode buf → ∀ v, C v v) :
    SameRun (DecodeResults C) (jsonrpcDecodeHexencoded asserts buf result out)
      (jsonrpcDecodeHexencoded asserts buf result' out') := by
  unfold jsonrpcDecodeHexencoded jsonrpcDecode
  rcases hparse : jsmnParse buf.bytes 64 with _ | toks
  · refine .ok ⟨rfl, ⟨rfl, Or.inr rfl⟩, h.resolve_right ?_⟩
    rintro ⟨toks, htoks, -⟩
    rw [hparse] at htoks
    cases htoks
  have hstores : StoresCode buf ↔ ReplyStoresCode buf toks :=
    ⟨fun ⟨_, htoks, hreply⟩ => Option.some.inj (hparse.symm.trans htoks) ▸ hreply,
      fun hreply => ⟨toks, hparse, hreply⟩⟩
  rw [hstores] at h hcode
  have hresult : SameRun (ResultResults C) (jsonrpcResult asserts buf toks result)
      (jsonrpcResult asserts buf toks result') := jsonrpcResult_same h hcode
  dsimp only
  generalize jsonrpcResult asserts buf toks result = r at hresult
  generalize jsonrpcResult asserts buf toks result' = r' at hresult
  cases hresult with
  | error fault => exact .error fault
  | @ok r r' hres =>
      obtain ⟨buf', res, ret⟩ := r
      obtain ⟨_, res', _⟩ := r'
      obtain ⟨rfl, rfl, hC⟩ := hres
      dsimp only
      split_ifs
      · exact .ok ⟨rfl, ⟨rfl, Or.inr rfl⟩, hC⟩
      have hwalk := @walk_same _ _ _ _ (hexencodedVisit asserts buf') toks.tail _ _
        (hexencodedVisit asserts buf') out out' (fun _ _ => True) _ trivial
        fun tok rest o o' _ _ => hexencodedVisit_same asserts buf' tok rest o o'
      generalize walk (hexencodedVisit asserts buf') toks.tail out = w at hwalk
      generalize walk (hexencodedVisit asserts buf') toks.tail out' = w' at hwalk
      cases hwalk with
      | error fault => exact .error fault
      | through _ => exact .ok ⟨rfl, ⟨rfl, Or.inl rfl⟩, hC⟩
      | @stopped a a' hA =>
          obtain ⟨o, ret⟩ := a
          obtain ⟨o', _⟩ := a'
          obtain ⟨rfl, rfl⟩ := hA
          exact .ok ⟨rfl, ⟨rfl, Or.inr rfl⟩, hC⟩

/-- The decoder returns 0 or -1. -/
theorem jsonrpcDecodeHexencoded_ret {asserts : Bool} {result : JsonrpcResult} {out : Uint256}
    {r : JsonBuf × JsonrpcResult × Uint256 × ℤ}
    (h : jsonrpcDecodeHexencoded asserts buf result out = .ok r) :
    r.2.2.2 = 0 ∨ r.2.2.2 = -1 := by
  have hsame : SameRun (DecodeResults fun _ _ => True)
      (jsonrpcDecodeHexencoded asserts buf result out)
      (jsonrpcDecodeHexencoded asserts buf result out) :=
    jsonrpcDecodeHexencoded_same (Or.inl trivial) fun _ _ => trivial
  rw [h] at hsame
  cases hsame with
  | ok hres => exact hres.2.1.2

/-- The decoder accepts the reply: it is an object, and the loops of both passes come to their end. -/
def Accepts (asserts : Bool) (buf : JsonBuf) : Prop :=
  ∃ toks ∈ jsmnParse buf.bytes 64, (∃ tok ∈ toks.head?, tok.type = .object) ∧
    ∃ result result' buf', Reaches jsonrpcResultVisit toks.tail (buf, result) [] (buf', result') ∧
      ∃ out out', Reaches (hexencodedVisit asserts buf') toks.tail out [] out'

/-- The last loop comes to its end for all contents of `*out` or for none. -/
theorem hexencodedVisit_reaches {asserts : Bool} {l l' : List Jsmntok} {out out₁ : Uint256}
    (h : Reaches (hexencodedVisit asserts buf) l out l' out₁) (out' : Uint256) :
    ∃ out₁', Reaches (hexencodedVisit asserts buf) l out' l' out₁' := by
  obtain ⟨out₁', hreach, -⟩ := @Reaches.same _ _ _ _ _ _ _ _ _ _ _ out' (fun _ _ => True) _ _ h
    trivial fun tok rest o o' _ => hexencodedVisit_same asserts buf tok rest o o'
  exact ⟨out₁', hreach⟩

/-- **When the decoder returns 0**, whatever `*result` and `*out` hold before. -/
theorem jsonrpcDecodeHexencoded_eq_zero_iff {asserts : Bool} (buf : JsonBuf)
    (result : JsonrpcResult) (out : Uint256) :
    (∃ r, jsonrpcDecodeHexencoded asserts buf result out = .ok r ∧ r.2.2.2 = 0) ↔
      Accepts asserts buf := by
  unfold jsonrpcDecodeHexencoded jsonrpcDecode Accepts
  rcases hparse : jsmnParse buf.bytes 64 with _ | toks
  · simp
  simp only [Option.mem_def, Option.some.injEq, exists_eq_left']
  constructor
  · rintro ⟨r, hr, hret⟩
    rcases hres : jsonrpcResult asserts buf toks result with fault | ⟨buf', res, ret⟩
    · rw [hres] at hr
      cases hr
    simp only [hres] at hr
    split_ifs at hr with hneg
    · rw [← Except.ok.inj hr] at hret
      exact absurd hret (show (-1 : ℤ) ≠ 0 by decide)
    obtain ⟨htype, hreach, -⟩ := jsonrpcResult_accepts_iff.mp ⟨hres, not_lt.mp hneg⟩
    refine ⟨htype, result, res, buf', hreach, out, ?_⟩
    rcases hw : walk (hexencodedVisit asserts buf') toks.tail out with fault | o | ⟨o, ret'⟩
    · rw [hw] at hr
      cases hr
    · exact ⟨o, walk_eq_through_iff.mp hw⟩
    · -- a round that ends the loop does not return 0
      obtain ⟨tok, rest, o', -, hstop⟩ := walk_eq_stopped_iff.mp hw
      have hsame := hexencodedVisit_same asserts buf' tok rest o' o'
      rw [hstop] at hsame
      cases hsame with
      | stop hA =>
          rw [hw] at hr
          rw [← Except.ok.inj hr] at hret
          exact absurd (hret.symm.trans hA.2) (by decide)
  · rintro ⟨htype, result₀, result₁, buf', hreach, out₀, out₁, hhex⟩
    obtain ⟨res, hreach⟩ := jsonrpcResultVisit_reaches hreach result
    obtain ⟨o, hhex⟩ := hexencodedVisit_reaches hhex out
    have hres : jsonrpcResult asserts buf toks result = .ok (buf', res, 0) :=
      (jsonrpcResult_accepts_iff.mpr ⟨htype, hreach, rfl⟩).1
    rw [hres]
    dsimp only
    rw [if_neg (lt_irrefl 0), walk_eq_through_iff.mpr hhex]
    exact ⟨_, rfl, rfl⟩

end AnylWallet.Eth
