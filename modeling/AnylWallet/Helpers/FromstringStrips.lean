import AnylWallet.Helpers.HextobinAccepts

/-!
# Which strings `fromstring256` accepts

`fromstring256`, `hextobin_2` and `hextobin` strip a `0x` each, and `hextobin` gets what is left
behind an odd digit.

* `fromstring256_strips`: what has to be hex digits for `fromstring256` to return 0.
* `fromstring256Exact_iff`: it reads exactly the hex numbers, unless the string is `Reprefixed`, with
  a second `0x` where one of the inner functions strips it.
-/

namespace AnylWallet.Helpers

open AnylWallet.Lib

/-- All characters are hex digits. -/
def AllHex (s : List UInt8) : Prop := ∀ c ∈ s, IsHexDigit c

/-- Hex digits are left behind a `0x`, or the string is hex digits. -/
theorem allHex_strip0x_iff {s : List UInt8} :
    AllHex (strip0x s) ↔
      AllHex s ∨ ∃ digits, digits ≠ [] ∧ AllHex digits ∧ s = ascii "0x" ++ digits := by
  constructor
  · intro h
    by_cases hstrip : s.length > 2 ∧ s.take 2 = ascii "0x"
    · refine Or.inr ⟨s.drop 2, ?_, ?_, ?_⟩
      · rw [Ne, List.drop_eq_nil_iff]
        omega
      · rwa [strip0x, if_pos hstrip] at h
      · rw [← hstrip.2, List.take_append_drop]
    · rw [strip0x, if_neg hstrip] at h
      exact Or.inl h
  · rintro (h | ⟨digits, hne, h, rfl⟩)
    · rwa [strip0x_hex h]
    · rwa [strip0x_append hne]

/-- A hex number is a string with 1 to 64 hex digits behind an optional `0x`. -/
theorem exists_isHexNumber_iff {s : List UInt8} :
    (∃ n, IsHexNumber s n) ↔
      (1 ≤ (strip0x s).length ∧ (strip0x s).length ≤ 64) ∧ AllHex (strip0x s) := by
  constructor
  · rintro ⟨n, digits, hs, hpos, hshort, hhex, -⟩
    rw [strip0x_isHexBytes hs (List.length_pos_iff.mp hpos) hhex]
    exact ⟨⟨hpos, hshort⟩, hhex⟩
  · rintro ⟨⟨hpos, hshort⟩, hhex⟩
    refine ⟨numberOf 16 (strip0x s), strip0x s, ?_, hpos, hshort, hhex, rfl⟩
    by_cases hstrip : s.length > 2 ∧ s.take 2 = ascii "0x"
    · refine Or.inr ?_
      rw [strip0x, if_pos hstrip, ← hstrip.2, List.take_append_drop]
    · exact Or.inl (if_neg hstrip).symm

/-- `hextobin` on an even string that has room accepts it if hex digits are left behind a `0x`. -/
theorem hextobin_strips (asserts : Bool) {s bytes : List UInt8} (hne : s ≠ [])
    (heven : s.length % 2 = 0) (hroom : s.length ≤ bytes.length * 2) (hshort : bytes.length ≤ 64) :
    ∃ after ret, hextobin asserts s bytes = .ok (after, ret) ∧
      (0 ≤ ret ↔ AllHex (strip0x s)) := by
  have hpos := List.length_pos_iff.mpr hne
  have hstrip := length_strip0x s
  have hkept : keptDigits bytes.length s = strip0x s := List.take_of_length_le (by omega)
  by_cases hhex : AllHex (strip0x s)
  · have haccepts : Accepts asserts bytes.length s := by
      refine ⟨hpos.ne', heven, fun _ => by omega, ?_⟩
      rwa [hkept]
    exact ⟨_, _, hextobin_of_accepts (by omega) haccepts,
      iff_of_true (Int.natCast_nonneg _) hhex⟩
  · have hrefuses : ¬ Accepts asserts bytes.length s := by
      intro haccepts
      have hdigits := haccepts.2.2.2
      rw [hkept] at hdigits
      exact hhex hdigits
    rcases hextobin_of_not_accepts (by omega) hrefuses with hfault | ⟨after, ret, hret, hneg⟩
    · obtain ⟨r, hr⟩ := hextobin_ok asserts hroom (by omega)
      rw [hfault] at hr
      cases hr
    · exact ⟨after, ret, hret, iff_of_false (not_le.mpr hneg) hhex⟩

/-- What has to be hex digits for `hextobin_2`: an odd string is read behind its first one. -/
def StripsToHex (s : List UInt8) : Prop :=
  if (strip0x s).length % 2 = 0 then AllHex (strip0x (strip0x s))
  else AllHex ((strip0x s).take 1) ∧ AllHex (strip0x ((strip0x s).drop 1))

/-- **What `hextobin_2` accepts** for a buffer of half its length. -/
theorem hextobin2_strips (asserts : Bool) {s : List UInt8} (hne : s ≠ []) (hshort : s.length ≤ 64)
    {size : ℕ} (hsize : size = s.length / 2 + s.length % 2) :
    ∃ after ret, hextobin2 asserts s (List.replicate size 0) = .ok (after, ret) ∧
      (0 ≤ ret ↔ StripsToHex s) := by
  have hpos := List.length_pos_iff.mpr hne
  have hstrip := length_strip0x s
  have hrep : (List.replicate size (0 : UInt8)).length = size := List.length_replicate
  have hcheck := check_of asserts (show (strip0x s).length ≤ size * 2 by omega)
  unfold hextobin2 StripsToHex
  rw [if_neg hpos.ne']
  simp only [hcheck, bind, Except.bind, hrep]
  generalize strip0x s = t at hstrip
  by_cases hodd : t.length % 2 = 0
  · rw [if_neg (not_not.mpr hodd), if_neg (by omega), if_pos hodd]
    apply hextobin_strips asserts (List.length_pos_iff.mp (by omega)) hodd
    · omega
    · omega
  · rw [if_pos hodd, if_neg hodd]
    rcases t with _ | ⟨c, rest⟩
    · exact absurd rfl hodd
    rw [List.length_cons] at hodd hstrip
    rw [List.getD_cons_zero, List.drop_one, List.tail_cons, List.take_succ_cons, List.take_zero]
    by_cases hc : ¬ IsHexDigit c
    · rw [if_pos (mapHex_neg_iff.mpr hc)]
      refine ⟨List.replicate size 0, eInvalidChar, rfl, iff_of_false (by decide) fun h => ?_⟩
      exact hc (h.1 c (List.mem_singleton_self c))
    · have hhead : AllHex [c] := by
        intro d hd
        rw [List.mem_singleton.mp hd]
        exact not_not.mp hc
      rw [if_neg (mt mapHex_neg_iff.mp hc)]
      by_cases hnil : rest = []
      · subst hnil
        refine ⟨_, 0, if_pos rfl, iff_of_true le_rfl ⟨hhead, ?_⟩⟩
        intro d hd
        cases hd
      · have hdrop : ((List.replicate size (0 : UInt8)).drop 1).length = size - 1 := by
          rw [List.length_drop, hrep]
        have hrest := List.length_pos_iff.mpr hnil
        obtain ⟨after, ret, hret, hiff⟩ := @hextobin_strips asserts rest
          ((List.replicate size 0).drop 1) hnil (by omega) (by omega) (by omega)
        refine ⟨_, ret, by rw [if_neg hrest.ne', hret], hiff.trans ?_⟩
        exact (and_iff_right hhead).symm

/-- **What `fromstring256` accepts**; everything else is refused with -1. -/
theorem fromstring256_strips (asserts : Bool) (s : List UInt8) (out : Uint256) :
    ∃ out' ret, fromstring256 asserts s out = .ok (out', ret) ∧
      (ret = 0 ∧ ((1 ≤ (strip0x s).length ∧ (strip0x s).length ≤ 64) ∧ StripsToHex (strip0x s)) ∨
        ret = -1 ∧
          ¬ ((1 ≤ (strip0x s).length ∧ (strip0x s).length ≤ 64) ∧ StripsToHex (strip0x s))) := by
  unfold fromstring256
  dsimp only
  by_cases hlen : (strip0x s).length < 1 ∨ (strip0x s).length > 64
  · exact ⟨out, -1, if_pos hlen, Or.inr ⟨rfl, by omega⟩⟩
  · rw [if_neg hlen]
    obtain ⟨after, ret, hret, hiff⟩ := hextobin2_strips asserts
      (List.length_pos_iff.mp (show 0 < (strip0x s).length by omega)) (by omega) rfl
    simp only [hret]
    by_cases hneg : ret < 0
    · refine ⟨clear256, -1, if_pos hneg, Or.inr ⟨rfl, fun h => ?_⟩⟩
      exact absurd (hiff.mpr h.2) (not_le.mpr hneg)
    · exact ⟨_, 0, if_neg hneg, Or.inl ⟨rfl, by omega, hiff.mp (not_lt.mp hneg)⟩⟩

/-! ## The second prefix -/

/-- The string is a hex number if and only if `fromstring256` returns 0, and then its value is what
is stored; what it refuses it refuses with -1. -/
def Fromstring256Exact (asserts : Bool) (s : List UInt8) : Prop :=
  ∀ out, ∃ out' ret, fromstring256 asserts s out = .ok (out', ret) ∧
    (ret = 0 ∧ IsHexNumber s out'.toNat ∨ ret = -1 ∧ ¬ ∃ n, IsHexNumber s n)

/-- A `0x` where `hextobin_2` or `hextobin` strips one: at the start, or, in front of an even number
of digits, behind another `0x`, an odd digit or both. -/
def StripsAgain (s : List UInt8) : Prop :=
  ∃ before digits : List UInt8,
    s = before ++ (ascii "0x" ++ digits) ∧ digits ≠ [] ∧ AllHex digits ∧
      (before = [] ∨ digits.length % 2 = 0 ∧
        (before = ascii "0x" ∨ ∃ c, IsHexDigit c ∧ (before = [c] ∨ before = ascii "0x" ++ [c])))

/-- There is one behind the prefix that `fromstring256` strips. -/
def Reprefixed (s : List UInt8) : Prop :=
  (strip0x s).length ≤ 64 ∧ StripsAgain (strip0x s)

/-- A string with a `0x` in it is not hex digits. -/
theorem not_allHex_0x (before digits : List UInt8) :
    ¬ AllHex (before ++ (ascii "0x" ++ digits)) := by
  intro h
  have hx : (0x78 : UInt8) ∈ ascii "0x" := by decide
  have hbad : ¬ IsHexDigit 0x78 := by decide
  exact hbad (h 0x78 (List.mem_append_right _ (List.mem_append_left _ hx)))

/-- From a string with one character in front of a `0x` nothing is stripped. -/
theorem strip0x_cons_0x (c : UInt8) (digits : List UInt8) :
    strip0x (c :: (ascii "0x" ++ digits)) = c :: (ascii "0x" ++ digits) := by
  refine if_neg fun ⟨_, htake⟩ => ?_
  have hsecond : (ascii "0x")[1]? = some '0'.toUInt8 := by
    rw [← htake]
    rfl
  exact absurd hsecond (by decide)

/-- Hex digits behind one `0x` strip to hex digits. -/
theorem stripsToHex_of_allHex {s : List UInt8} (h : AllHex (strip0x s)) : StripsToHex s := by
  have hdrop : AllHex ((strip0x s).drop 1) := fun c hc => h c (List.mem_of_mem_drop hc)
  unfold StripsToHex
  rw [strip0x_hex h, strip0x_hex hdrop]
  split_ifs
  · exact h
  · exact ⟨fun c hc => h c (List.mem_of_mem_take hc), hdrop⟩

/-- So does a `0x` behind a digit, if the digits behind it are even in number. -/
theorem stripsToHex_of_cons {s digits : List UInt8} {c : UInt8} (hc : IsHexDigit c)
    (heven : digits.length % 2 = 0) (hne : digits ≠ []) (hhex : AllHex digits)
    (hs : strip0x s = c :: (ascii "0x" ++ digits)) : StripsToHex s := by
  have hx : (ascii "0x").length = 2 := by decide
  have hodd : (c :: (ascii "0x" ++ digits)).length % 2 ≠ 0 := by
    rw [List.length_cons, List.length_append, hx]
    omega
  unfold StripsToHex
  rw [hs, if_neg hodd, List.take_succ_cons, List.take_zero, List.drop_one, List.tail_cons,
    strip0x_append hne]
  refine ⟨fun d hd => ?_, hhex⟩
  rwa [List.mem_singleton.mp hd]

/-- **What strips to hex digits** and is not hex digits has such a `0x`. -/
theorem stripsToHex_iff {s : List UInt8} : StripsToHex s ↔ AllHex s ∨ StripsAgain s := by
  have hx : (ascii "0x").length = 2 := by decide
  constructor
  · intro h
    have hone : AllHex (strip0x s) → AllHex s ∨ StripsAgain s := by
      intro hhex
      rcases allHex_strip0x_iff.mp hhex with hhex | ⟨digits, hne, hhex, hs⟩
      · exact Or.inl hhex
      · exact Or.inr ⟨[], digits, hs, hne, hhex, Or.inl rfl⟩
    unfold StripsToHex at h
    by_cases heven : (strip0x s).length % 2 = 0
    · rw [if_pos heven] at h
      rcases allHex_strip0x_iff.mp h with hhex | ⟨digits, hne, hhex, ht⟩
      · exact hone hhex
      · rw [ht, List.length_append, hx] at heven
        have hs := strip0x_cases s
        rw [ht] at hs
        rcases hs with hs | hs
        · exact Or.inr ⟨[], digits, hs, hne, hhex, Or.inl rfl⟩
        · exact Or.inr ⟨ascii "0x", digits, hs, hne, hhex, Or.inr ⟨by omega, Or.inl rfl⟩⟩
    · rw [if_neg heven] at h
      obtain ⟨hhead, htail⟩ := h
      rcases allHex_strip0x_iff.mp htail with hhex | ⟨digits, hne, hhex, ht⟩
      · apply hone
        intro c hc
        rw [← List.take_append_drop 1 (strip0x s), List.mem_append] at hc
        exact hc.elim (hhead c) (hhex c)
      · rcases hcons : strip0x s with _ | ⟨c, rest⟩
        · rw [hcons] at heven
          exact absurd rfl heven
        rw [hcons, List.drop_one, List.tail_cons] at ht
        rw [hcons, List.take_succ_cons, List.take_zero] at hhead
        rw [hcons, ht, List.length_cons, List.length_append, hx] at heven
        have hs := strip0x_cases s
        rw [hcons, ht] at hs
        have hc := hhead c (List.mem_singleton_self c)
        rcases hs with hs | hs
        · exact Or.inr ⟨[c], digits, hs, hne, hhex,
            Or.inr ⟨by omega, Or.inr ⟨c, hc, Or.inl rfl⟩⟩⟩
        · exact Or.inr ⟨ascii "0x" ++ [c], digits, by rw [hs, List.append_assoc]; rfl, hne, hhex,
            Or.inr ⟨by omega, Or.inr ⟨c, hc, Or.inr rfl⟩⟩⟩
  · rintro (hhex | ⟨before, digits, rfl, hne, hhex, hbefore⟩)
    · apply stripsToHex_of_allHex
      rwa [strip0x_hex hhex]
    · have hbehind : ascii "0x" ++ digits ≠ [] := fun hnil => hne (List.append_eq_nil_iff.mp hnil).2
      rcases hbefore with rfl | ⟨heven, rfl | ⟨c, hc, rfl | rfl⟩⟩
      · apply stripsToHex_of_allHex
        rwa [List.nil_append, strip0x_append hne]
      · unfold StripsToHex
        rw [strip0x_append hbehind, strip0x_append hne, List.length_append, hx, if_pos (by omega)]
        exact hhex
      · exact stripsToHex_of_cons hc heven hne hhex (strip0x_cons_0x c digits)
      · apply stripsToHex_of_cons hc heven hne hhex
        rw [List.append_assoc]
        exact strip0x_append (List.cons_ne_nil _ _)

/-- **When `fromstring256` reads exactly the hex numbers.** It does unless there is a second `0x`
behind the first one, at a place where `hextobin_2` or `hextobin` strips it once more: such a text
is no number and is accepted. -/
theorem fromstring256Exact_iff (asserts : Bool) (s : List UInt8) :
    Fromstring256Exact asserts s ↔ ¬ Reprefixed s := by
  have hreprefixed : Reprefixed s ↔ (1 ≤ (strip0x s).length ∧ (strip0x s).length ≤ 64) ∧
      StripsToHex (strip0x s) ∧ ¬ AllHex (strip0x s) := by
    rw [stripsToHex_iff]
    constructor
    · rintro ⟨hshort, hagain⟩
      have ⟨before, digits, hs, hne, _⟩ := hagain
      have hpos := List.length_pos_iff.mpr hne
      have hlen := congrArg List.length hs
      rw [List.length_append, List.length_append] at hlen
      refine ⟨⟨by omega, hshort⟩, Or.inr hagain, ?_⟩
      rw [hs]
      exact not_allHex_0x before digits
    · rintro ⟨⟨-, hshort⟩, hstrips, hbad⟩
      exact ⟨hshort, hstrips.resolve_left hbad⟩
  rw [hreprefixed]
  constructor
  · rintro h ⟨hlen, hstrips, hbad⟩
    obtain ⟨out', ret, hret, hcase⟩ := h clear256
    obtain ⟨out'', ret', hret', hcase'⟩ := fromstring256_strips asserts s clear256
    rw [hret] at hret'
    cases hret'
    rcases hcase' with ⟨hzero, -⟩ | ⟨-, hno⟩
    · rcases hcase with ⟨-, hnumber⟩ | ⟨hneg, -⟩
      · exact hbad (exists_isHexNumber_iff.mp ⟨_, hnumber⟩).2
      · omega
    · exact hno ⟨hlen, hstrips⟩
  · intro h out
    by_cases hnumber : ∃ n, IsHexNumber s n
    · obtain ⟨n, hn⟩ := hnumber
      obtain ⟨out', hret, rfl⟩ := fromstring256_hexNumber asserts hn out
      exact ⟨out', 0, hret, Or.inl ⟨rfl, hn⟩⟩
    · obtain ⟨out', ret, hret, ⟨-, hlen, hstrips⟩ | ⟨hneg, -⟩⟩ := fromstring256_strips asserts s out
      · exact absurd ⟨hlen, hstrips, fun hhex => hnumber (exists_isHexNumber_iff.mpr ⟨hlen, hhex⟩)⟩ h
      · exact ⟨out', ret, hret, Or.inr ⟨hneg, hnumber⟩⟩

/-- Counterexample: `0x0x12` is accepted. -/
theorem not_fromstring256Exact_0x0x12 : ¬ Fromstring256Exact true (ascii "0x0x12") := by
  intro h
  obtain ⟨out', ret, hret, ⟨-, hnumber⟩ | ⟨hneg, -⟩⟩ := h clear256
  · have hhex := (exists_isHexNumber_iff.mp ⟨_, hnumber⟩).2
    exact not_allHex_0x [] (ascii "12") hhex
  · have hzero : (fromstring256 true (ascii "0x0x12") clear256).map Prod.snd = .ok 0 := by decide
    rw [hret, hneg] at hzero
    cases hzero

end AnylWallet.Helpers
