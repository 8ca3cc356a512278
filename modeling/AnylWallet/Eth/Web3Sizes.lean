import AnylWallet.Eth.Web3

/-!
# Requests and the size of their buffer

* `KeepsToSize` is what a request function owes to its buffer: success exactly when the text and its
  NUL fit, and never a byte or a `buf_used` past the end.
* `__web3_printbuf` compares the length of its own piece with the size of the whole buffer, and
  `__web3_printdata` and `__web3_printuint256` let a piece of digits end exactly at the end of the
  buffer. `Piece.outcome` says what a step does where the buffer ends.
* **When a request keeps to its size** (`Request.keepsToSize_iff`): no step spills, and a step
  refuses only a request that does not fit.
-/

namespace AnylWallet.Eth

open AnylWallet.Lib AnylWallet.Helpers

/-! ## The property and the condition -/

/-- `buf_used` was never at or past the end of the buffer, and no byte past it was written. -/
def Web3Ctx.Confined (web3 : Web3Ctx) : Prop :=
  web3.peak < web3.bufSize ∧ web3.buf.top ≤ web3.bufSize

/-- The outcome of a request with this text on a buffer of `bufSize` bytes: it succeeds exactly when
the text is shorter than the buffer, which then holds the text and a NUL; otherwise it returns `-1`;
and it stays in the buffer. -/
def KeepsToSize (bufSize : ℕ) (text : List UInt8) (r : Web3Ctx × ℤ) : Prop :=
  (r.2 = 0 ↔ text.length < bufSize) ∧
    (r.2 = 0 → r.1.buf.load 0 (text.length + 1) = text ++ [0] ∧ r.1.bufUsed = text.length) ∧
    (r.2 ≠ 0 → r.2 = -1) ∧ r.1.Confined

/-- What a step does. -/
inductive Outcome where
  /-- It prints its text and leaves room for a NUL. -/
  | goes
  /-- It returns `-1`. -/
  | stops
  /-- It reports success and leaves `buf_used` or a byte past the end, or loses count. -/
  | spills
deriving DecidableEq

/-- What a step does with `used` bytes before it in a buffer of `size` bytes. -/
def Piece.outcome (size used : ℕ) : Piece → Outcome
  | lit text =>
      if used + text.length < size then .goes
      -- the test is against the whole buffer
      else if size ≤ text.length then .stops
      else .spills
  | check n => if used + n < size then .goes else .stops
  | hex bytes =>
      let n := 2 * bytes.length
      if size < used + n % 2 ^ 64 then .stops
      else if size < used + n then .spills
      -- the count returned as an `int` is negative
      else if 2 ^ 31 ≤ n % 2 ^ 32 then .stops
      else if n < 2 ^ 31 ∧ used + n < size then .goes
      else .spills
  | digits val =>
      let n := (numeral 16 val.toNat).length
      if digitRoom ((size - used) % 2 ^ 32) < n then .stops
      else if used + n < size then .goes
      else .spills

/-- The first outcome other than `goes`. -/
def Piece.verdict (size : ℕ) : ℕ → List Piece → Outcome
  | _, [] => .goes
  | used, p :: ps =>
      match p.outcome size used with
      | .goes => verdict size (used + p.text.length) ps
      | .stops => .stops
      | .spills => .spills

/-- The step that ends a run is in order: it does not spill, and if it stops then the text of
`length` bytes does not fit. -/
def Outcome.InOrder (size length : ℕ) : Outcome → Prop
  | goes => True
  | stops => size ≤ length
  | spills => False

/-- The end of the buffer is noticed: no step of the request spills, and if a step stops then the
text does not fit. -/
def Request.EndIsNoticed (r : Request) (reqId : UInt32) (size : ℕ) : Prop :=
  (Piece.verdict size 0 (r.pieces reqId)).InOrder size (r.text reqId).length

/-- The data of the request is not empty where it is always printed. -/
def Request.HasData : Request → Prop
  | sendRawTransaction data => data ≠ []
  | _ => True

/-! ## What a step never undoes -/

/-- The size stays, and the marks only rise. -/
def Web3Ctx.Grows (web3 web3' : Web3Ctx) : Prop :=
  web3'.bufSize = web3.bufSize ∧ web3.peak ≤ web3'.peak ∧ web3.buf.top ≤ web3'.buf.top

theorem Web3Ctx.Grows.refl (web3 : Web3Ctx) : web3.Grows web3 := ⟨rfl, le_rfl, le_rfl⟩

theorem Web3Ctx.Grows.trans {a b c : Web3Ctx} (h : a.Grows b) (h' : b.Grows c) : a.Grows c :=
  ⟨h'.1.trans h.1, h.2.1.trans h'.2.1, h.2.2.trans h'.2.2⟩

/-- Once outside, outside for good. -/
theorem Web3Ctx.Grows.not_confined {a b : Web3Ctx} (h : a.Grows b) (ha : ¬ a.Confined) :
    ¬ b.Confined := by
  rintro ⟨hpeak, htop⟩
  rw [h.1] at hpeak htop
  exact ha ⟨lt_of_le_of_lt h.2.1 hpeak, h.2.2.trans htop⟩

/-- A store and a larger `buf_used`. -/
theorem Web3Ctx.grows_advance (web3 : Web3Ctx) {m : Region} (h : web3.buf.top ≤ m.top) (n : ℕ) :
    web3.Grows ({ web3 with buf := m }.advance n) :=
  ⟨rfl, Nat.le_max_left _ _, h⟩

/-- `vsnprintf` only stores. -/
theorem top_vsnprintf (m : Region) (str size : ℕ) (text : List UInt8) :
    m.top ≤ (vsnprintf m str size text).1.top := by
  unfold vsnprintf
  split
  · exact le_rfl
  · exact Region.top_le_top_store _ _ _

/-- `bintohex_nonull` only stores. -/
theorem top_bintohexNonull (bytes : List UInt8) (m : Region) (out outLen : ℕ) :
    m.top ≤ (bintohexNonull bytes m out outLen).1.top := by
  unfold bintohexNonull
  split
  · exact le_rfl
  · split
    · exact le_rfl
    · rw [bintohexLoop_eq]
      exact Region.top_le_top_store _ _ _

/-- `tostring256` only stores. -/
theorem top_tostring256 (val : Uint256) (m : Region) (out outLength : ℕ) :
    m.top ≤ (tostring256 val 16 m out outLength).1.top := by
  rw [tostring256_eq val (by decide) (by decide)]
  split
  · exact Region.top_le_top_store _ _ _
  · exact Region.top_le_top_store _ _ _

/-- Every step keeps the size and only raises the marks. -/
theorem Piece.print_grows (p : Piece) (web3 : Web3Ctx) : web3.Grows (p.print web3).1 := by
  cases p with
  | lit text =>
      have htop := top_vsnprintf web3.buf web3.bufUsed web3.room text
      simp only [print, web3Printbuf]
      split
      · exact ⟨rfl, le_rfl, htop⟩
      · exact web3.grows_advance htop _
  | hex bytes =>
      have htop := top_bintohexNonull bytes web3.buf web3.bufUsed web3.room
      simp only [print, web3Bintohex]
      split
      · exact ⟨rfl, le_rfl, htop⟩
      · exact web3.grows_advance htop _
  | check n =>
      simp only [print, web3CheckRoom]
      split
      · exact Web3Ctx.Grows.refl _
      · exact Web3Ctx.Grows.refl _
  | digits val =>
      have htop := top_tostring256 val web3.buf web3.bufUsed (web3.room % 2 ^ 32)
      simp only [print, web3Tostring256]
      split
      · exact ⟨rfl, le_rfl, htop⟩
      · exact web3.grows_advance htop _

/-- So does every list of steps. -/
theorem Piece.printAll_grows (ps : List Piece) (web3 : Web3Ctx) :
    web3.Grows (printAll ps web3).1 := by
  induction ps generalizing web3 with
  | nil => exact Web3Ctx.Grows.refl _
  | cons p ps ih =>
      have hp := p.print_grows web3
      simp only [printAll, Printer.next]
      split
      · exact hp
      · exact hp.trans (ih _)

/-! ## One step -/

/-- `text` was printed so far, and the rest of the buffer is zero. -/
structure Web3Ctx.Printed (web3 : Web3Ctx) (text : List UInt8) : Prop where
  used : web3.bufUsed = text.length
  lt : text.length < web3.bufSize
  size : web3.bufSize < 2 ^ 64
  held : web3.buf.load 0 text.length = text
  rest : ∀ i, text.length ≤ i → i < web3.bufSize → web3.buf.byte i = 0
  confined : web3.Confined

namespace Web3Ctx.Printed

variable {web3 : Web3Ctx} {text : List UInt8}

/-- The room left. -/
theorem room_eq (h : web3.Printed text) : web3.room = web3.bufSize - text.length := by
  have h1 := h.lt
  have h2 := h.size
  rw [Web3Ctx.room, h.used]
  omega

/-- The buffer after the reset. -/
theorem reset (web3 : Web3Ctx) (hpos : 0 < web3.bufSize) (hsize : web3.bufSize < 2 ^ 64) :
    (web3Resetbuf web3).Printed [] where
  used := rfl
  lt := hpos
  size := hsize
  held := rfl
  rest := by
    intro i _ hi
    have hlen : i < (List.replicate web3.bufSize (0 : UInt8)).length := by
      rw [List.length_replicate]
      exact hi
    have := Region.byte_store_add ({ web3.buf with top := 0 } : Region) 0 hlen
    rw [Nat.zero_add, List.getElem_replicate] at this
    exact this
  confined := by
    refine ⟨hpos, ?_⟩
    simp only [web3Resetbuf, Region.top_store, List.length_replicate]
    split <;> omega

/-- More text is stored, with zeros behind it, and counted. -/
theorem append (h : web3.Printed text) {s z : List UInt8} (hz : ∀ b ∈ z, b = 0)
    (hlt : text.length + s.length < web3.bufSize)
    (hle : text.length + s.length + z.length ≤ web3.bufSize) :
    ({ web3 with buf := web3.buf.store web3.bufUsed (s ++ z) }.advance s.length).Printed
      (text ++ s) where
  used := by
    have := h.size
    rw [Web3Ctx.advance, h.used, List.length_append]
    simp only
    omega
  lt := by
    rw [List.length_append]
    exact hlt
  size := h.size
  held := by
    have hslice := @Region.load_store_take web3.buf text.length s.length (s ++ z) (by simp)
    have hbefore := @Region.load_store_of_disjoint web3.buf text.length 0 text.length (s ++ z)
      (Or.inl (by omega))
    rw [List.take_left] at hslice
    simp only [Web3Ctx.advance, h.used, List.length_append, Region.load_add, Nat.zero_add,
      hslice, hbefore, h.held]
  rest := by
    intro i hi hi'
    rw [List.length_append] at hi
    simp only [Web3Ctx.advance, h.used] at hi' ⊢
    by_cases hin : i < text.length + s.length + z.length
    · obtain ⟨k, rfl⟩ : ∃ k, i = text.length + k := ⟨i - text.length, by omega⟩
      have hk : k < (s ++ z).length := by
        rw [List.length_append]
        omega
      rw [Region.byte_store_add _ _ hk, List.getElem_append_right (by omega)]
      exact hz _ (List.getElem_mem _)
    · rw [Region.byte_store_of_ge (by rw [List.length_append]; omega)]
      exact h.rest i (by omega) hi'
  confined := by
    obtain ⟨hpeak, htop⟩ := h.confined
    refine ⟨?_, ?_⟩
    · simp only [Web3Ctx.advance, h.used]
      omega
    · simp only [Web3Ctx.advance, h.used, Region.top_store, List.length_append]
      split <;> omega

end Web3Ctx.Printed

/-- What an outcome means for the step `p` after `text`: a step that spills leaves the buffer, or it
is the step of a long byte string and counts at least `2 ^ 31` bytes too few. -/
def Outcome.Step (p : Piece) (text : List UInt8) (r : Web3Ctx × ℤ) : Outcome → Prop
  | goes => r.2 = 0 ∧ r.1.Printed (text ++ p.text)
  | stops => r.2 = -1 ∧ r.1.Confined
  | spills => ¬ r.1.Confined ∨
      (r.2 = 0 ∧ (∃ bytes, p = .hex bytes ∧ 2 ^ 31 ≤ 2 * bytes.length) ∧
        r.1.bufUsed + 2 ^ 31 ≤ (text ++ p.text).length ∧
        (text ++ p.text).length ≤ r.1.bufSize ∧ r.1.bufSize < 2 ^ 64)

section step

variable {web3 : Web3Ctx} {text : List UInt8}

/-- `__web3_printbuf`. -/
theorem step_lit (h : web3.Printed text) (s : List UInt8) :
    ((Piece.lit s).outcome web3.bufSize text.length).Step (.lit s) text (web3Printbuf s web3) := by
  obtain ⟨hpeak, htop⟩ := h.confined
  have hlt := h.lt
  have hroom := h.room_eq
  have hvs : vsnprintf web3.buf web3.bufUsed web3.room s = (web3.buf.store web3.bufUsed
      (s.take (web3.bufSize - text.length - 1) ++ [0]), s.length) := by
    rw [vsnprintf, hroom, if_neg (by omega)]
  have htop' : (web3.buf.store web3.bufUsed
      (s.take (web3.bufSize - text.length - 1) ++ [0])).top ≤ web3.bufSize := by
    apply Region.top_store_le htop
    rw [h.used, List.length_append, List.length_take, List.length_singleton]
    omega
  simp only [Piece.outcome, web3Printbuf, hvs]
  by_cases hfit : text.length + s.length < web3.bufSize
  · have htake : s.take (web3.bufSize - text.length - 1) = s := List.take_of_length_le (by omega)
    rw [if_pos hfit, if_neg (by omega), htake]
    exact ⟨rfl, h.append (by simp) hfit (by simp; omega)⟩
  · rw [if_neg hfit]
    by_cases hbig : web3.bufSize ≤ s.length
    · rw [if_pos hbig, if_pos hbig]
      exact ⟨rfl, hpeak, htop'⟩
    · rw [if_neg hbig, if_neg hbig]
      refine Or.inl fun hc => hfit ?_
      have := hc.1
      simp only [Web3Ctx.advance, h.used] at this
      omega

/-- The first line of `__web3_printdata`. -/
theorem step_check (h : web3.Printed text) (n : ℕ) :
    ((Piece.check n).outcome web3.bufSize text.length).Step (.check n) text
      (web3CheckRoom n web3) := by
  have hlt := h.lt
  have hroom := h.room_eq
  simp only [Piece.outcome, web3CheckRoom, hroom]
  by_cases hfit : text.length + n < web3.bufSize
  · rw [if_pos hfit, if_neg (by omega)]
    refine ⟨rfl, ?_⟩
    rwa [Piece.text, List.append_nil]
  · rw [if_neg hfit, if_pos (by omega)]
    exact ⟨rfl, h.confined⟩

/-- The digits of a byte string. -/
theorem step_hex (h : web3.Printed text) {bytes : List UInt8} (hne : bytes ≠ []) :
    ((Piece.hex bytes).outcome web3.bufSize text.length).Step (.hex bytes) text
      (web3Bintohex bytes web3) := by
  obtain ⟨hpeak, htop⟩ := h.confined
  have hlt := h.lt
  have hsize := h.size
  have hroom := h.room_eq
  have hpos : 0 < bytes.length := List.length_pos_iff.mpr hne
  have hlen := length_hexText bytes
  have hstore : hexText bytes ≠ [] := by
    intro h0
    rw [h0, List.length_nil] at hlen
    omega
  have hcall := bintohexNonull_eq hne web3.buf web3.bufUsed web3.room
  by_cases hstop : web3.bufSize < text.length + 2 * bytes.length % 2 ^ 64
  · rw [hroom, if_pos (by omega)] at hcall
    have hneg : eInvalidStringLen < 0 := by decide
    simp only [Piece.outcome, web3Bintohex, hroom, hcall, if_pos hstop, if_pos hneg]
    exact ⟨rfl, hpeak, htop⟩
  rw [hroom, if_neg (by omega)] at hcall
  simp only [Piece.outcome, web3Bintohex, hroom, hcall, if_neg hstop]
  by_cases hover : web3.bufSize < text.length + 2 * bytes.length
  · rw [if_pos hover]
    have hout : ¬ (web3.buf.store web3.bufUsed (hexText bytes)).top ≤ web3.bufSize := by
      have := Region.le_top_store (m := web3.buf) (p := web3.bufUsed) hstore
      rw [hlen, h.used] at this
      rw [h.used]
      omega
    refine Or.inl fun hc => hout ?_
    have := hc.2
    split at this
    · exact this
    · exact this
  rw [if_neg hover]
  have htop' : (web3.buf.store web3.bufUsed (hexText bytes)).top ≤ web3.bufSize := by
    apply Region.top_store_le htop
    rw [h.used, hlen]
    omega
  by_cases hneg : 2 ^ 31 ≤ 2 * bytes.length % 2 ^ 32
  · have hret : sizeToInt (2 * bytes.length) < 0 := by
      rw [sizeToInt_eq, if_pos hneg]
      omega
    simp only [if_pos hneg, if_pos hret]
    exact ⟨rfl, hpeak, htop'⟩
  · have hret : sizeToInt (2 * bytes.length) = (2 * bytes.length % 2 ^ 32 : ℕ) := by
      rw [sizeToInt_eq, if_neg hneg]
    have hnonneg : ¬ ((2 * bytes.length % 2 ^ 32 : ℕ) : ℤ) < 0 := by omega
    simp only [if_neg hneg, hret, if_neg hnonneg, Int.toNat_natCast]
    by_cases hgo : 2 * bytes.length < 2 ^ 31 ∧ text.length + 2 * bytes.length < web3.bufSize
    · have happ := h.append (s := hexText bytes) (z := []) (by simp) (by rw [hlen]; exact hgo.2)
        (by rw [hlen, List.length_nil]; omega)
      have hmod : 2 * bytes.length % 2 ^ 32 = 2 * bytes.length := Nat.mod_eq_of_lt (by omega)
      rw [List.append_nil, hlen] at happ
      rw [if_pos hgo, hmod]
      exact ⟨rfl, happ⟩
    · rw [if_neg hgo]
      by_cases hshort : 2 * bytes.length < 2 ^ 31
      · refine Or.inl fun hc => hgo ⟨hshort, ?_⟩
        have := hc.1
        simp only [Web3Ctx.advance, h.used] at this
        omega
      · refine Or.inr ⟨rfl, ⟨bytes, rfl, by omega⟩, ?_, ?_, hsize⟩
        · simp only [Piece.text, Web3Ctx.advance, h.used, List.length_append, hlen]
          omega
        · rw [Piece.text, List.length_append, hlen]
          simp only [Web3Ctx.advance]
          omega

/-- The digits of a number. -/
theorem step_digits (h : web3.Printed text) (val : Uint256) :
    ((Piece.digits val).outcome web3.bufSize text.length).Step (.digits val) text
      (web3Tostring256 val web3) := by
  obtain ⟨hpeak, htop⟩ := h.confined
  have hlt := h.lt
  have hroom := h.room_eq
  have hlen : (numeral 16 val.toNat).length ≤ 64 :=
    length_numeral_le (by decide) (by decide) (lt_of_lt_of_eq val.toNat_lt (by norm_num))
  have hcall := tostring256_eq val (show 1 < 16 by decide) le_rfl web3.buf web3.bufUsed
    ((web3.bufSize - text.length) % 2 ^ 32)
  by_cases hstop : digitRoom ((web3.bufSize - text.length) % 2 ^ 32) <
      (numeral 16 val.toNat).length
  · rw [if_neg (by omega)] at hcall
    simp only [Piece.outcome, web3Tostring256, hroom, hcall, if_pos hstop, if_true]
    refine ⟨rfl, hpeak, ?_⟩
    apply Region.top_store_le htop
    have hle : digitRoom ((web3.bufSize - text.length) % 2 ^ 32) ≤ web3.bufSize - text.length := by
      unfold digitRoom at hstop ⊢
      omega
    rw [h.used, List.length_take]
    omega
  · have hstr : strlen (web3.buf.store web3.bufUsed (numeral 16 val.toNat ++ [0])) web3.bufUsed =
        (numeral 16 val.toNat).length :=
      strlenLoop_holdsString (web3.buf.holdsString_store _ (numeral_ne_zero (by decide) le_rfl))
        (by omega)
    rw [if_pos (by omega)] at hcall
    simp only [Piece.outcome, web3Tostring256, hroom, hcall, if_neg hstop, Bool.true_eq_false,
      if_false, hstr]
    by_cases hgo : text.length + (numeral 16 val.toNat).length < web3.bufSize
    · rw [if_pos hgo]
      exact ⟨rfl, h.append (by simp) hgo (by simp; omega)⟩
    · rw [if_neg hgo]
      refine Or.inl fun hc => hgo ?_
      have := hc.1
      simp only [Web3Ctx.advance, h.used] at this
      omega

end step

/-! ## A whole request -/

/-- A list in which a byte string of `2 ^ 30` bytes or more is followed by short texts only, and no
byte string is empty. -/
def Piece.Shaped : List Piece → Prop
  | [] => True
  | hex bytes :: ps =>
      bytes ≠ [] ∧ (2 * bytes.length < 2 ^ 31 ∨ ∃ ts : List (List UInt8),
        ps = ts.map lit ∧ ts.flatten.length < 2 ^ 31) ∧ Shaped ps
  | _ :: ps => Shaped ps

/-- What a run of steps prints. -/
def Piece.textAll (ps : List Piece) : List UInt8 := ps.flatMap Piece.text

/-- What an outcome means for a whole run that prints up to `text`. -/
def Outcome.Run (text : List UInt8) (r : Web3Ctx × ℤ) : Outcome → Prop
  | goes => r.2 = 0 ∧ r.1.Printed text
  | stops => r.2 = -1 ∧ r.1.Confined
  | spills => ¬ r.1.Confined ∨ (r.2 = 0 ∧ r.1.bufUsed < text.length)

/-- One step, by its kind. -/
theorem Piece.print_step {web3 : Web3Ctx} {text : List UInt8} (h : web3.Printed text) {p : Piece}
    {ps : List Piece} (hp : Shaped (p :: ps)) :
    (p.outcome web3.bufSize text.length).Step p text (p.print web3) := by
  cases p with
  | lit s => exact step_lit h s
  | hex bytes => exact step_hex h hp.1
  | check n => exact step_check h n
  | digits val => exact step_digits h val

/-- Texts that fit are printed, whatever was printed before. -/
theorem printAll_lits {web3 : Web3Ctx} {ts : List (List UInt8)} (hsize : web3.bufSize < 2 ^ 64)
    (hlt : web3.bufUsed + ts.flatten.length < web3.bufSize) :
    (Piece.printAll (ts.map Piece.lit) web3).2 = 0 ∧
      (Piece.printAll (ts.map Piece.lit) web3).1.bufUsed =
        web3.bufUsed + ts.flatten.length := by
  induction ts generalizing web3 with
  | nil => exact ⟨rfl, rfl⟩
  | cons t ts ih =>
      rw [List.flatten_cons, List.length_append] at hlt
      have hstep : (web3Printbuf t web3).2 = 0 ∧
          (web3Printbuf t web3).1.bufUsed = web3.bufUsed + t.length ∧
          (web3Printbuf t web3).1.bufSize = web3.bufSize := by
        have hv : ∀ m p n, (vsnprintf m p n t).2 = t.length := by
          intro m p n
          unfold vsnprintf
          split
          · rfl
          · rfl
        simp only [web3Printbuf, hv]
        rw [if_neg (by omega)]
        refine ⟨rfl, ?_, rfl⟩
        simp only [Web3Ctx.advance]
        omega
      obtain ⟨hret, hused, hsize'⟩ := hstep
      have hnext : Piece.printAll ((t :: ts).map Piece.lit) web3 =
          Piece.printAll (ts.map Piece.lit) (web3Printbuf t web3).1 := by
        rw [List.map_cons, Piece.printAll, Printer.next]
        simp only [Piece.print, hret, lt_irrefl, if_false]
      rw [hnext, List.flatten_cons, List.length_append, ← Nat.add_assoc, ← hused]
      exact ih (by rwa [hsize']) (by rw [hsize', hused]; omega)

/-- **A run of steps** does what its verdict says. -/
theorem Piece.printAll_spec {web3 : Web3Ctx} {text : List UInt8} {ps : List Piece}
    (h : web3.Printed text) (hs : Shaped ps) :
    (verdict web3.bufSize text.length ps).Run (text ++ textAll ps) (printAll ps web3) := by
  induction ps generalizing web3 text with
  | nil =>
      rw [textAll, List.flatMap_nil, List.append_nil]
      exact ⟨rfl, h⟩
  | cons p ps ih =>
      have hstep := print_step h hs
      have hgrows := p.print_grows web3
      have htail : Shaped ps := by
        cases p with
        | hex bytes => exact hs.2.2
        | lit _ => exact hs
        | check _ => exact hs
        | digits _ => exact hs
      rw [verdict, printAll, Printer.next]
      cases hout : p.outcome web3.bufSize text.length with
      | goes =>
          rw [hout] at hstep
          obtain ⟨hret, hprinted⟩ := hstep
          have hrun := ih hprinted htail
          rw [hgrows.1, List.length_append] at hrun
          simp only [hret, lt_irrefl, if_false]
          rw [textAll, List.flatMap_cons, ← List.append_assoc]
          exact hrun
      | stops =>
          rw [hout] at hstep
          simp only [hstep.1]
          exact ⟨rfl, hstep.2⟩
      | spills =>
          rw [hout] at hstep
          rcases hstep with hout' | ⟨hret, ⟨bytes, rfl, hlong⟩, hused, hle, hsize⟩
          · refine Or.inl ?_
            simp only
            split
            · exact hout'
            · exact (printAll_grows ps _).not_confined hout'
          · -- only short texts follow, and they fit
            obtain ⟨ts, rfl, hts⟩ := hs.2.1.resolve_left (by omega)
            have htext : textAll (ts.map lit) = ts.flatten := by
              rw [textAll, List.flatMap_map, List.flatten_eq_flatMap]
              rfl
            have hlits := @printAll_lits _ ts hsize (by omega)
            simp only [hret, lt_irrefl, if_false]
            refine Or.inr ⟨hlits.1, ?_⟩
            rw [hlits.2, textAll, List.flatMap_cons, ← List.append_assoc, List.length_append,
              ← textAll, htext]
            omega

/-- A step that is not one of a long or empty byte string. -/
def Piece.Short : Piece → Prop
  | hex bytes => bytes ≠ [] ∧ 2 * bytes.length < 2 ^ 31
  | _ => True

/-- Short steps may stand before any others. -/
theorem Piece.Shaped.append {ps qs : List Piece} (hps : ∀ p ∈ ps, p.Short) (hqs : Shaped qs) :
    Shaped (ps ++ qs) := by
  induction ps with
  | nil => exact hqs
  | cons p ps ih =>
      have hrest := ih fun q hq => hps q (List.mem_cons_of_mem _ hq)
      have hp := hps p (by simp)
      cases p with
      | hex bytes => exact ⟨hp.1, Or.inl hp.2, hrest⟩
      | lit _ => exact hrest
      | check _ => exact hrest
      | digits _ => exact hrest

/-- Texts only. -/
theorem Piece.shaped_lits (ts : List (List UInt8)) : Shaped (ts.map lit) := by
  have := @Shaped.append (ts.map lit) [] (fun p hp => by
    obtain ⟨t, -, rfl⟩ := List.mem_map.mp hp
    trivial) trivial
  rwa [List.append_nil] at this

/-- A byte string before short texts. -/
theorem Piece.shaped_data {bytes : List UInt8} (hne : bytes ≠ []) {ts : List (List UInt8)}
    (hts : ts.flatten.length < 2 ^ 30) : Shaped (data bytes ++ ts.map lit) := by
  have hquote : (ascii "\"" :: ts).flatten.length < 2 ^ 31 := by
    have : (ascii "\"").length = 1 := by decide
    rw [List.flatten_cons, List.length_append]
    omega
  exact ⟨hne, Or.inr ⟨ascii "\"" :: ts, rfl, hquote⟩, shaped_lits (ascii "\"" :: ts)⟩

/-- The steps of an address are short. -/
theorem Piece.short_addr (a : Address) : ∀ p ∈ addr a, p.Short := by
  have hlen : a.a.toList.length = 20 := by simp
  intro p hp
  simp only [addr, List.mem_cons, List.not_mem_nil, or_false] at hp
  rcases hp with rfl | rfl | rfl
  · trivial
  · refine ⟨fun h => ?_, by rw [hlen]; decide⟩
    rw [h, List.length_nil] at hlen
    omega
  · trivial

/-- So are the steps of a number, small or large. -/
theorem Piece.short_number (val : Uint256) : ∀ p ∈ number val, p.Short := by
  intro p hp
  simp only [number, List.mem_cons, List.not_mem_nil, or_false] at hp
  rcases hp with rfl | rfl | rfl <;> trivial

/-- A small number is one text. -/
theorem Piece.short_hexNumber (val : UInt64) : ∀ p ∈ hexNumber val, p.Short := by
  intro p hp
  rw [List.mem_singleton.mp hp]
  trivial

/-- A member of short steps is short. -/
theorem Piece.short_member {shown : Prop} [Decidable shown] (key : String) {val : List Piece}
    (h : ∀ p ∈ val, p.Short) : ∀ p ∈ member shown key val, p.Short := by
  intro p hp
  unfold member at hp
  split at hp
  · rcases List.mem_cons.mp hp with rfl | hp
    · trivial
    · exact h p hp
  · simp at hp

/-- The parameters of `eth_call`, before short texts. -/
theorem Piece.shaped_txparam (sender : Address) (tx : Transaction) (txFlags : UInt8) :
    Shaped (txparam sender tx txFlags ++ [lit jsonrpcTerminator]) := by
  have hend : Shaped (member (tx.data ≠ 0 ∧ tx.dataLen ≠ 0 ∧ txFlags &&& txNoData = 0)
      ",\"data\":" (data tx.calldata) ++
        [ascii "\x7d", ascii ",\"latest\"", jsonrpcTerminator].map lit) := by
    unfold member
    split
    · rename_i hshown
      have hne : tx.calldata ≠ [] := fun h => hshown.2.1 (by rw [Transaction.dataLen, h]; rfl)
      exact @shaped_data _ hne [ascii "\x7d", ascii ",\"latest\"", jsonrpcTerminator] (by decide)
    · exact shaped_lits _
  have hopen : ∀ p ∈ [lit (ascii "\x7b"), lit (ascii "\"to\":")], p.Short := by
    intro p hp
    simp only [List.mem_cons, List.not_mem_nil, or_false] at hp
    rcases hp with rfl | rfl <;> trivial
  rw [txparam]
  simp only [List.append_assoc]
  exact Shaped.append hopen <| Shaped.append (short_addr _) <|
    Shaped.append (short_member _ (short_addr _)) <|
      Shaped.append (short_member _ (short_hexNumber _)) <|
        Shaped.append (short_member _ (short_hexNumber _)) <|
          Shaped.append (short_member _ (short_number _)) hend

/-- The steps of every request are of this kind. -/
theorem Request.shaped (r : Request) (reqId : UInt32) (hdata : r.HasData) :
    Piece.Shaped (r.pieces reqId) := by
  have haddr : ∀ a : Address, Piece.Shaped
      (Piece.addr a ++ [.lit (ascii ",\"latest\""), .lit jsonrpcTerminator]) := fun a =>
    Piece.Shaped.append (Piece.short_addr a)
      (Piece.shaped_lits [ascii ",\"latest\"", jsonrpcTerminator])
  have hterm : ∀ {bytes : List UInt8}, bytes ≠ [] →
      Piece.Shaped (Piece.data bytes ++ [.lit jsonrpcTerminator]) := fun h =>
    @Piece.shaped_data _ h [jsonrpcTerminator] (by decide)
  cases r with
  | getTransactionCount addr => exact haddr addr
  | blockNumber => exact Piece.shaped_lits [_, _]
  | sendRawTransaction data => exact hterm hdata
  | getBalance addr => exact haddr addr
  | call sender tx txFlags => exact Piece.shaped_txparam sender tx txFlags
  | estimateGas sender tx => exact Piece.shaped_txparam sender tx 0
  | getTransactionReceipt txHash =>
      refine hterm fun h => ?_
      have hlen : txHash.h.toList.length = 32 := by simp
      rw [h, List.length_nil] at hlen
      omega

/-- **How a request ends**, by the verdict on its steps. -/
theorem Request.run_spec (r : Request) {web3 : Web3Ctx} (hpos : 0 < web3.bufSize)
    (hsize : web3.bufSize < 2 ^ 64) (hdata : r.HasData) :
    (Piece.verdict web3.bufSize 0 (r.pieces web3.reqId)).Run (r.text web3.reqId) (r.run web3) := by
  have hrun := Piece.printAll_spec (Web3Ctx.Printed.reset web3 hpos hsize)
    (r.shaped web3.reqId hdata)
  rw [List.nil_append, ← r.run_eq] at hrun
  exact hrun

/-- **A request keeps to its buffer** if and only if the end of the buffer is noticed: the text
fits, or what is printed where it ends is refused for its size. The pieces of a request decide it by
their sizes alone. -/
theorem Request.keepsToSize_iff (r : Request) (web3 : Web3Ctx) (hpos : 0 < web3.bufSize)
    (hsize : web3.bufSize < 2 ^ 64) (hdata : r.HasData) :
    KeepsToSize web3.bufSize (r.text web3.reqId) (r.run web3) ↔
      r.EndIsNoticed web3.reqId web3.bufSize := by
  have hrun := r.run_spec hpos hsize hdata
  have hgrows := Piece.printAll_grows (r.pieces web3.reqId) (web3Resetbuf web3)
  rw [← r.run_eq] at hgrows
  have hbuf : (r.run web3).1.bufSize = web3.bufSize := hgrows.1
  rw [EndIsNoticed]
  cases hv : Piece.verdict web3.bufSize 0 (r.pieces web3.reqId) with
  | goes =>
      rw [hv] at hrun
      obtain ⟨hret, hprinted⟩ := hrun
      have hlt := hprinted.lt
      have hnul := hprinted.rest _ le_rfl hlt
      rw [hbuf] at hlt
      refine ⟨fun _ => trivial, fun _ => ⟨⟨fun _ => hlt, fun _ => hret⟩, fun _ => ⟨?_, hprinted.used⟩,
        fun h => absurd hret h, hprinted.confined⟩⟩
      rw [Region.load_add, hprinted.held, Nat.zero_add]
      simp [Region.load, hnul]
  | stops =>
      rw [hv] at hrun
      obtain ⟨hret, hconf⟩ := hrun
      have hne : (r.run web3).2 ≠ 0 := by
        rw [hret]
        decide
      constructor
      · rintro ⟨h, -⟩
        exact Nat.le_of_not_lt (mt h.mpr hne)
      · intro h
        exact ⟨⟨fun h0 => absurd h0 hne, fun hlt => absurd h (Nat.not_le.mpr hlt)⟩,
          fun h0 => absurd h0 hne, fun _ => hret, hconf⟩
  | spills =>
      rw [hv] at hrun
      refine ⟨?_, fun h => h.elim⟩
      rintro ⟨-, hheld, -, hconf⟩
      rcases hrun with hout | ⟨hret, hused⟩
      · exact hout hconf
      · exact Nat.ne_of_lt hused (hheld hret).2

/-- A buffer of this size, full of zeros, and the request id 1. -/
def emptyCtx (bufSize : ℕ) : Web3Ctx := ⟨⟨fun _ => 0, 0⟩, bufSize, 0, 1, 0⟩

/-- In 62 bytes `eth_blockNumber` reports success for a text of 63: the closing `]}` runs over the
end. -/
theorem ethBlockNumber_spills : ¬ KeepsToSize 62 (Request.blockNumber.text 1)
    (Request.blockNumber.run (emptyCtx 62)) := by
  rintro ⟨h, -⟩
  have hret : (Request.blockNumber.run (emptyCtx 62)).2 = 0 := by decide
  have hfit := h.mp hret
  revert hfit
  decide

/-- In 64 bytes it fits. -/
theorem ethBlockNumber_keepsToSize : KeepsToSize 64 (Request.blockNumber.text 1)
    (Request.blockNumber.run (emptyCtx 64)) :=
  (Request.keepsToSize_iff .blockNumber (emptyCtx 64) (by decide) (by decide) trivial).mpr
    (show Outcome.InOrder _ _ (Piece.verdict 64 0 (Request.blockNumber.pieces 1)) by
      rw [show Piece.verdict 64 0 (Request.blockNumber.pieces 1) = .goes by decide]
      trivial)

end AnylWallet.Eth
