import AnylWallet.Zephyr.History

/-!
# `tools/etherscan_query.py`: the readings on the other side

* `queryMain` is the script behind its download: `sanitizeInputs` keeps the first record of each hash,
  `formatTemp` reads two bytes of the data of each, by `int(s, 16)` (`pyInt`), and prints them.
* `Listing` is what an explorer may list of a run: records of transactions that the device has signed
  to an address, any of them missing, any of them repeated.
* `prints_readings`: **the script prints what the sensor has read**, modulo 256, once for each
  transaction of the upload that is listed, and nothing for a transfer.
-/

namespace AnylWallet.Tools

open AnylWallet.Eth AnylWallet.Zephyr

/-! ## `int(s, 16)` -/

/-- The character of ASCII that Python reads for another one in a number: a blank for white space, a
digit for a decimal digit. -/
structure PyText where
  toAscii : Char → Char
  toAscii_of_lt : ∀ c : Char, c.toNat < 127 → toAscii c = c

/-- White space of ASCII. -/
def isSpace (c : Char) : Bool := c.toNat = 32 ∨ (9 ≤ c.toNat ∧ c.toNat ≤ 13)

/-- The value of a digit, in either case. -/
def digitOf (c : Char) : Option ℕ :=
  if 48 ≤ c.toNat ∧ c.toNat ≤ 57 then some (c.toNat - 48)
  else if 97 ≤ c.toNat ∧ c.toNat ≤ 102 then some (c.toNat - 87)
  else if 65 ≤ c.toNat ∧ c.toNat ≤ 70 then some (c.toNat - 55)
  else none

/-- Digits, with single underscores between them and white space behind them. `digit` says that the
last character was a digit. -/
def intDigits : Bool → ℕ → List Char → Option ℕ
  | digit, n, [] => if digit = true then some n else none
  | digit, n, c :: s =>
      match digitOf c with
      | some d => intDigits true (16 * n + d) s
      | none =>
          if c = '_' ∧ digit = true then intDigits false n s
          else if digit = true ∧ (c :: s).all isSpace = true then some n
          else none

/-- A number behind its sign: a prefix, which an underscore may follow, and digits. -/
def intUnsigned (s : List Char) : Option ℕ :=
  if s.take 2 = ['0', 'x'] ∨ s.take 2 = ['0', 'X'] then
    intDigits false 0 (if (s.drop 2).head? = some '_' then s.drop 3 else s.drop 2)
  else intDigits false 0 s

/-- `int(s, 16)`; `none` when it raises. -/
def pyInt (py : PyText) (s : List Char) : Option ℤ :=
  let s := (s.map py.toAscii).dropWhile isSpace
  if s.head? = some '-' then (intUnsigned (s.drop 1)).map fun n : ℕ => -(n : ℤ)
  else if s.head? = some '+' then (intUnsigned (s.drop 1)).map fun n : ℕ => (n : ℤ)
  else (intUnsigned s).map fun n : ℕ => (n : ℤ)

/-- `s[start:stop]`. -/
def slice (start stop : ℕ) (s : String) : List Char := (s.toList.drop start).take (stop - start)

/-! ## The script -/

/-- A record of `inputs['result']`, with the members that the script reads. -/
structure TxRecord where
  blockNumber : String
  fromAddr : String
  toAddr : String
  hash : String
  input : String

/-- The lines that have been printed, and whether an exception has ended the script. -/
structure Printed where
  lines : List String
  raised : Bool

/-- The loop of `sanitize_inputs`, with `known_txh` and `new_result`. -/
def sanitizeLoop : List TxRecord → List String → List TxRecord → List TxRecord
  | [], _, newResult => newResult
  | x :: inputs, knownTxh, newResult =>
      if x.hash ∉ knownTxh then sanitizeLoop inputs (knownTxh ++ [x.hash]) (newResult ++ [x])
      else sanitizeLoop inputs knownTxh newResult

/-- `sanitize_inputs`. Source: `tools/etherscan_query.py` -/
def sanitizeInputs (inputs : List TxRecord) : List TxRecord := sanitizeLoop inputs [] []

/-- `format_hex`: it unpacks tuples of four members. Source: `tools/etherscan_query.py` -/
def formatHex : List (List String) → Printed
  | [] => ⟨[], false⟩
  | [blknum, f, t, val] :: values =>
      let rest := formatHex values
      ⟨(blknum ++ "\t" ++ f ++ "\t" ++ t ++ "\t" ++ val) :: rest.lines, rest.raised⟩
  | _ :: _ => ⟨[], true⟩

/-- The first line of `format_temp`. -/
def tempHeader : String := "#blknum\ttxhash\t\t\t\t\t\t\t\t\ttemp\thumidity"

/-- A line of `format_temp`. -/
def tempLine (blknum txhash : String) (temperature humidity : ℤ) : String :=
  blknum ++ "\t" ++ txhash ++ "\t" ++ toString temperature ++ "\t" ++ toString humidity

/-- The loop of `format_temp`. -/
def formatTempLoop (py : PyText) : List (List String) → Printed
  | [] => ⟨[], false⟩
  | [blknum, _, _, txhash, val] :: values =>
      match pyInt py (slice 2 4 val), pyInt py (slice 4 7 val) with
      | some temperature, some humidity =>
          let rest := formatTempLoop py values
          ⟨tempLine blknum txhash temperature humidity :: rest.lines, rest.raised⟩
      | _, _ => ⟨[], true⟩
  | _ :: _ => ⟨[], true⟩

/-- `format_temp`. Source: `tools/etherscan_query.py` -/
def formatTemp (py : PyText) (values : List (List String)) : Printed :=
  let rest := formatTempLoop py values
  ⟨tempHeader :: rest.lines, rest.raised⟩

/-- The values of `--decode`. -/
inductive Decode where
  | temp
  | hex

/-- The tuple of a record. -/
def valueOf (tx : TxRecord) : List String :=
  [tx.blockNumber, tx.fromAddr, tx.toAddr, tx.hash, tx.input]

/-- `main`, on the records that `get_inputs` has downloaded. Source: `tools/etherscan_query.py` -/
def queryMain (py : PyText) (decode : Decode) (inputs : List TxRecord) : Printed :=
  let values := ((sanitizeInputs inputs).filter fun tx => tx.input ≠ "0x").map valueOf
  match decode with
  | .hex => formatHex values
  | .temp => formatTemp py values

/-! ## The records -/

/-- What the loop adds are the first records of the hashes that are not known. -/
theorem sanitizeLoop_spec (inputs : List TxRecord) {newResult : List TxRecord}
    (hnew : (newResult.map TxRecord.hash).Nodup) :
    ∃ added, sanitizeLoop inputs (newResult.map TxRecord.hash) newResult = newResult ++ added ∧
      added.Sublist inputs ∧ ((newResult ++ added).map TxRecord.hash).Nodup ∧
      ∀ r ∈ inputs, r.hash ∈ (newResult ++ added).map TxRecord.hash := by
  induction inputs generalizing newResult with
  | nil => exact ⟨[], by simp [sanitizeLoop], List.Sublist.slnil, by simpa using hnew, by simp⟩
  | cons x inputs ih =>
      rw [sanitizeLoop]
      by_cases hknown : x.hash ∈ newResult.map TxRecord.hash
      · obtain ⟨added, heq, hsub, hnodup, hall⟩ := ih hnew
        rw [if_neg (not_not.mpr hknown), heq]
        refine ⟨added, rfl, hsub.cons x, hnodup, ?_⟩
        intro r hr
        rcases List.mem_cons.mp hr with rfl | hr
        · rw [List.map_append]
          exact List.mem_append_left _ hknown
        · exact hall r hr
      · have hmore : ((newResult ++ [x]).map TxRecord.hash).Nodup := by
          rw [List.map_append]
          refine hnew.append (List.nodup_singleton _) ?_
          intro a ha hx
          rw [List.mem_singleton.mp hx] at ha
          exact hknown ha
        obtain ⟨added, heq, hsub, hnodup, hall⟩ := ih hmore
        have hassoc : newResult ++ [x] ++ added = newResult ++ x :: added := by simp
        rw [List.map_append, hassoc] at heq
        rw [hassoc] at hnodup hall
        rw [if_pos hknown]
        refine ⟨x :: added, heq, hsub.cons_cons x, hnodup, ?_⟩
        intro r hr
        rcases List.mem_cons.mp hr with rfl | hr
        · exact List.mem_map_of_mem (by simp)
        · exact hall r hr

/-- **`sanitize_inputs` keeps one record of each hash**, in the order of the listing. -/
theorem sanitizeInputs_spec (inputs : List TxRecord) :
    (sanitizeInputs inputs).Sublist inputs ∧ ((sanitizeInputs inputs).map TxRecord.hash).Nodup ∧
      ∀ r ∈ inputs, r.hash ∈ (sanitizeInputs inputs).map TxRecord.hash := by
  obtain ⟨added, heq, hsub, hnodup, hall⟩ :=
    @sanitizeLoop_spec inputs [] List.nodup_nil
  rw [List.nil_append] at heq hnodup hall
  have heq : sanitizeInputs inputs = added := heq
  rw [heq]
  exact ⟨hsub, hnodup, hall⟩

/-! ## Two digits -/

/-- What is no digit is another character. -/
theorem ne_of_digitOf {c c' : Char} {d : ℕ} (h : digitOf c = some d) (h' : digitOf c' = none) :
    c ≠ c' := by
  rintro rfl
  rw [h] at h'
  cases h'

/-- A digit is a character of ASCII, and no white space. -/
theorem digitOf_range {c : Char} {d : ℕ} (h : digitOf c = some d) :
    c.toNat < 127 ∧ isSpace c = false := by
  have hrange : (48 ≤ c.toNat ∧ c.toNat ≤ 57) ∨ (97 ≤ c.toNat ∧ c.toNat ≤ 102) ∨
      (65 ≤ c.toNat ∧ c.toNat ≤ 70) := by
    unfold digitOf at h
    split at h
    · exact Or.inl ‹_›
    · split at h
      · exact Or.inr (Or.inl ‹_›)
      · split at h
        · exact Or.inr (Or.inr ‹_›)
        · cases h
  refine ⟨by omega, decide_eq_false ?_⟩
  omega

/-- **Two digits are read as their byte.** -/
theorem pyInt_pair (py : PyText) {c d : Char} {hi lo : ℕ} (hc : digitOf c = some hi)
    (hd : digitOf d = some lo) : pyInt py [c, d] = some ((16 * hi + lo : ℕ) : ℤ) := by
  obtain ⟨hcAscii, hcSpace⟩ := digitOf_range hc
  obtain ⟨hdAscii, -⟩ := digitOf_range hd
  have htext : ([c, d].map py.toAscii).dropWhile isSpace = [c, d] := by
    simp [py.toAscii_of_lt c hcAscii, py.toAscii_of_lt d hdAscii, hcSpace]
  have hminus : c ≠ '-' := ne_of_digitOf hc (by decide)
  have hplus : c ≠ '+' := ne_of_digitOf hc (by decide)
  have hx : d ≠ 'x' := ne_of_digitOf hd (by decide)
  have hX : d ≠ 'X' := ne_of_digitOf hd (by decide)
  have hunsigned : intUnsigned [c, d] = some (16 * hi + lo) := by
    simp [intUnsigned, hx, hX, intDigits, hc, hd]
  unfold pyInt
  simp only [htext, List.head?_cons, Option.some.injEq, hminus, hplus, if_false, hunsigned,
    Option.map_some]

/-- Hexadecimal digits of the bytes. -/
inductive HexText : List UInt8 → List Char → Prop
  | nil : HexText [] []
  | cons {c d : Char} {hi lo : ℕ} {b : UInt8} {bytes : List UInt8} {s : List Char} :
      digitOf c = some hi → digitOf d = some lo → 16 * hi + lo = b.toNat → HexText bytes s →
        HexText (b :: bytes) (c :: d :: s)

/-- The string is `0x` and the digits of the bytes. -/
def ShowsData (bytes : List UInt8) (s : String) : Prop :=
  ∃ digits, s.toList = '0' :: 'x' :: digits ∧ HexText bytes digits

/-- Without data it is `0x`. -/
theorem eq_of_showsData_nil {s : String} (h : ShowsData [] s) : s = "0x" := by
  obtain ⟨digits, htext, hdigits⟩ := h
  cases hdigits
  exact String.toList_injective htext

/-- **What the script reads in two bytes of data.** -/
theorem pyInt_slices (py : PyText) {a b : UInt8} {s : String} (h : ShowsData [a, b] s) :
    pyInt py (slice 2 4 s) = some (a.toNat : ℤ) ∧ pyInt py (slice 4 7 s) = some (b.toNat : ℤ) := by
  obtain ⟨digits, htext, hdigits⟩ := h
  obtain _ | ⟨hc, hd, ha, hrest⟩ := hdigits
  obtain _ | ⟨hc', hd', hb, hnil⟩ := hrest
  cases hnil
  have hfirst := pyInt_pair py hc hd
  have hsecond := pyInt_pair py hc' hd'
  rw [ha] at hfirst
  rw [hb] at hsecond
  unfold slice
  rw [htext]
  exact ⟨hfirst, hsecond⟩

/-! ## What is listed -/

/-- The transactions that are signed at an entry of the log. -/
def signedAt (s : Seen) : List Transaction := s.acts.filterMap Act.signed?

/-- The upload has sent this reading to the address. -/
def Uploaded (log : List Seen) (dest : Address) (reading : Int32 × Int32) : Prop :=
  ∃ s ∈ log, ∃ call, s.step = .round call dest (some reading)

/-- The bytes of a reading. -/
def readingBytes (reading : Int32 × Int32) : List UInt8 :=
  [reading.1.toUInt32.toUInt8, reading.2.toUInt32.toUInt8]

/-- **A listing of what a run has sent to an address.** Its records may repeat, and any transaction may
be missing. -/
structure Listing (log : List Seen) (dest : Address) where
  records : List TxRecord
  /-- Each shows the data of a transaction that the device has signed. -/
  signed : ∀ r ∈ records, ∃ s ∈ log, ∃ tx ∈ signedAt s,
    tx.toAddr = dest ∧ ShowsData tx.calldata r.input
  /-- A hash is that of one transaction. -/
  hash : ∀ r ∈ records, ∀ r' ∈ records, r.hash = r'.hash → r = r'

/-- A byte of a reading is the number modulo 256. -/
theorem toNat_readingByte (t : Int32) : (t.toUInt32.toUInt8.toNat : ℤ) = t.toInt % 256 := by
  have hbyte : t.toUInt32.toUInt8.toNat = t.toBitVec.toNat % 256 := by
    rw [UInt32.toNat_toUInt8]
    rfl
  have hint : t.toInt = t.toBitVec.toInt := rfl
  rw [hbyte, hint, BitVec.toInt_eq_toNat_cond]
  split
  · omega
  · omega

variable {fw : Firmware} {st : State} {steps : List Step} {pk : Vector UInt8 32}

/-- **What is signed in a run is ordered** by an account and contracts that the run has added. -/
theorem ordered_of_mem_log (h : run fw (bootState fw pk) steps = .ok st) {s : Seen}
    (hs : s ∈ logOf fw (bootState fw pk) steps) {tx : Transaction} (htx : tx ∈ signedAt s) :
    ∃ account tokens, tokens ⊆ tokensAfter (logOf fw (bootState fw pk) steps) ∧
      Ordered fw account tokens s.step tx := by
  induction steps using List.reverseRecOn generalizing st with
  | nil => cases hs
  | append_singleton steps step ih =>
      obtain ⟨mid, o, hmid, ho, rfl⟩ := run_concat h
      rw [logOf_concat hmid ho] at hs ⊢
      have hmore : tokensAfter (logOf fw (bootState fw pk) steps) ⊆
          tokensAfter (logOf fw (bootState fw pk) steps ++ [step.seen o]) := by
        unfold tokensAfter
        rw [List.filterMap_append]
        exact List.subset_append_left _ _
      rcases List.mem_append.mp hs with hs | hs
      · obtain ⟨account, tokens, hsub, hordered⟩ := ih hmid hs
        exact ⟨account, tokens, List.Subset.trans hsub hmore, hordered⟩
      · rw [List.mem_singleton.mp hs] at htx ⊢
        exact ⟨_, _, hmore, Step.run_ordered (lists_run hmid) ho htx⟩

/-- **A transaction that is no transfer of a token carries no data, or a reading of the sensor.** -/
theorem calldata_of_ordered {account : Account} {tokens : List (Address × UInt8)} {step : Step}
    {tx : Transaction} (h : Ordered fw account tokens step tx)
    (htokens : ∀ p ∈ tokens, p.1 ≠ tx.toAddr) :
    tx.calldata = [] ∨ ∃ call reading, step = .round call tx.toAddr (some reading) ∧
      tx.calldata = readingBytes reading := by
  unfold Ordered at h
  split at h
  · obtain ⟨-, -, rfl⟩ := h
    exact Or.inl rfl
  · obtain ⟨-, -, -, contract, decimals, data, htoken, -, rfl⟩ := h
    exact absurd rfl (htokens _ (List.mem_of_getElem? htoken))
  · subst h
    exact Or.inr ⟨_, _, rfl, rfl⟩
  · exact h.elim

/-- **A record with data shows a reading**, at an address that is no contract of the device. -/
theorem Listing.reading (h : run fw (bootState fw pk) steps = .ok st) {dest : Address}
    (hdest : ∀ p ∈ tokensAfter (logOf fw (bootState fw pk) steps), p.1 ≠ dest)
    (listing : Listing (logOf fw (bootState fw pk) steps) dest) {r : TxRecord}
    (hr : r ∈ listing.records) (hdata : r.input ≠ "0x") :
    ∃ reading, Uploaded (logOf fw (bootState fw pk) steps) dest reading ∧
      ShowsData (readingBytes reading) r.input := by
  obtain ⟨s, hs, tx, htx, rfl, hshows⟩ := listing.signed r hr
  obtain ⟨account, tokens, hsub, hordered⟩ := ordered_of_mem_log h hs htx
  rcases calldata_of_ordered hordered fun p hp => hdest p (hsub hp) with
    hnone | ⟨call, reading, hstep, hbytes⟩
  · rw [hnone] at hshows
    exact absurd (eq_of_showsData_nil hshows) hdata
  · rw [hbytes] at hshows
    exact ⟨reading, ⟨s, hs, call, hstep⟩, hshows⟩

/-! ## What is printed -/

/-- The line of a record that shows a reading. -/
def readingLine (p : TxRecord × (Int32 × Int32)) : String :=
  tempLine p.1.blockNumber p.1.hash (p.2.1.toInt % 256) (p.2.2.toInt % 256)

/-- The loop of `format_temp` prints the readings that are shown. -/
theorem formatTempLoop_readings (py : PyText) {shown : List (TxRecord × (Int32 × Int32))}
    (h : ∀ p ∈ shown, ShowsData (readingBytes p.2) p.1.input) :
    formatTempLoop py (shown.map fun p => valueOf p.1) = ⟨shown.map readingLine, false⟩ := by
  induction shown with
  | nil => rfl
  | cons p shown ih =>
      obtain ⟨htemperature, hhumidity⟩ := pyInt_slices py (h p List.mem_cons_self)
      rw [List.map_cons, List.map_cons, valueOf, formatTempLoop, htemperature, hhumidity,
        ih fun p hp => h p (List.mem_cons_of_mem _ hp)]
      dsimp only
      rw [toNat_readingByte, toNat_readingByte]
      rfl

/-- Records that each show something are the records of pairs. -/
theorem exists_pairs {α β : Type} {P : α → β → Prop} {l : List α} (h : ∀ a ∈ l, ∃ b, P a b) :
    ∃ pairs : List (α × β), pairs.map Prod.fst = l ∧ ∀ p ∈ pairs, P p.1 p.2 := by
  induction l with
  | nil => exact ⟨[], rfl, by simp⟩
  | cons a l ih =>
      obtain ⟨b, hb⟩ := h a List.mem_cons_self
      obtain ⟨pairs, hfst, hall⟩ := ih fun a ha => h a (List.mem_cons_of_mem _ ha)
      refine ⟨(a, b) :: pairs, by rw [List.map_cons, hfst], ?_⟩
      intro p hp
      rcases List.mem_cons.mp hp with rfl | hp
      · exact hb
      · exact hall p hp

/-- **The script prints what the sensor has read.** At an address that is no contract of the device, it
ends without an exception and prints, for each transaction with data of a listing, once and in the
order of the listing, the temperature and the humidity that a round of the upload has sent there,
modulo 256. -/
theorem prints_readings (py : PyText) (h : run fw (bootState fw pk) steps = .ok st) {dest : Address}
    (hdest : ∀ p ∈ tokensAfter (logOf fw (bootState fw pk) steps), p.1 ≠ dest)
    (listing : Listing (logOf fw (bootState fw pk) steps) dest) :
    ∃ shown : List (TxRecord × (Int32 × Int32)),
      queryMain py .temp listing.records = ⟨tempHeader :: shown.map readingLine, false⟩ ∧
      (shown.map Prod.fst).Sublist listing.records ∧ (shown.map fun p => p.1.hash).Nodup ∧
      (∀ r ∈ listing.records, r.input ≠ "0x" → r ∈ shown.map Prod.fst) ∧
      ∀ p ∈ shown, Uploaded (logOf fw (bootState fw pk) steps) dest p.2 ∧
        ShowsData (readingBytes p.2) p.1.input := by
  obtain ⟨hsub, hnodup, hall⟩ := sanitizeInputs_spec listing.records
  have hread : ∀ r ∈ (sanitizeInputs listing.records).filter fun tx => tx.input ≠ "0x",
      ∃ reading, Uploaded (logOf fw (bootState fw pk) steps) dest reading ∧
        ShowsData (readingBytes reading) r.input := by
    intro r hr
    obtain ⟨hmem, hdata⟩ := List.mem_filter.mp hr
    exact listing.reading h hdest (hsub.subset hmem) (of_decide_eq_true hdata)
  obtain ⟨shown, hfst, hshown⟩ := exists_pairs hread
  have hfilter : (shown.map Prod.fst).Sublist (sanitizeInputs listing.records) :=
    hfst ▸ List.filter_sublist
  refine ⟨shown, ?_, hfilter.trans hsub, ?_, ?_, hshown⟩
  · have hvalues : shown.map (fun p => valueOf p.1) = (shown.map Prod.fst).map valueOf := by
      rw [List.map_map]
      rfl
    have hloop := formatTempLoop_readings py fun p hp => (hshown p hp).2
    rw [hvalues, hfst] at hloop
    unfold queryMain
    dsimp only
    rw [formatTemp, hloop]
  · have hhashes : (shown.map fun p => p.1.hash) = (shown.map Prod.fst).map TxRecord.hash := by
      rw [List.map_map]
      rfl
    rw [hhashes]
    exact hnodup.sublist (hfilter.map _)
  · intro r hr hdata
    obtain ⟨r', hr', hhash⟩ := List.mem_map.mp (hall r hr)
    have hsame : r' = r := listing.hash r' (hsub.subset hr') r hr hhash
    rw [hfst]
    exact List.mem_filter.mpr ⟨hsame ▸ hr', decide_eq_true hdata⟩

/-- Characters of ASCII only. -/
def sampleText : PyText := ⟨id, fun _ _ => rfl⟩

/-- A round that reads 22 and -5. -/
def sampleRound : Step := .round sampleCall zeroAddress (some (22, -5))

/-- Its record. -/
def sampleRecord : TxRecord := ⟨"7", "0x01", "0x00", "0xab", "0x16fB"⟩

/-- The state behind it. -/
def sampleSent : Ended :=
  (uploadRound sampleFirmware.toDevice sampleCall (bootState sampleFirmware (Vector.replicate 32 1))
    zeroAddress (some (22, -5))).ended

/-- The record, twice. -/
def sampleListing : Listing (logOf sampleFirmware (bootState sampleFirmware (Vector.replicate 32 1))
    [sampleRound]) zeroAddress where
  records := [sampleRecord, sampleRecord]
  signed := by
    intro r hr
    have hr : r = sampleRecord := by simpa using hr
    subst hr
    have hsigned := (@sendDataEth_requests (bootState sampleFirmware (Vector.replicate 32 1))
      sampleFirmware.toDevice sampleCall zeroAddress 22 (-5)).1
    refine ⟨sampleRound.seen sampleSent, List.mem_singleton_self _, _,
      hsigned.symm ▸ List.mem_singleton_self _, rfl, ['1', '6', 'f', 'B'], rfl, ?_⟩
    exact .cons rfl rfl rfl (.cons rfl rfl rfl .nil)
  hash := by
    intro r hr r' hr' _
    have hr : r = sampleRecord := by simpa using hr
    have hr' : r' = sampleRecord := by simpa using hr'
    rw [hr, hr']

/-- One reading, listed twice. -/
theorem prints_readings_sampleRound : ∃ shown : List (TxRecord × (Int32 × Int32)),
    queryMain sampleText .temp [sampleRecord, sampleRecord] =
        ⟨tempHeader :: shown.map readingLine, false⟩ ∧
      (shown.map Prod.fst).Sublist [sampleRecord, sampleRecord] ∧
      (shown.map fun p => p.1.hash).Nodup ∧
      (∀ r ∈ [sampleRecord, sampleRecord], r.input ≠ "0x" → r ∈ shown.map Prod.fst) ∧
      ∀ p ∈ shown, Uploaded (logOf sampleFirmware
          (bootState sampleFirmware (Vector.replicate 32 1)) [sampleRound]) zeroAddress p.2 ∧
        ShowsData (readingBytes p.2) p.1.input :=
  @prints_readings sampleFirmware sampleSent.state [sampleRound] (Vector.replicate 32 1) sampleText
    rfl zeroAddress (fun _ hp => absurd hp List.not_mem_nil) sampleListing

-- a temperature below zero is not the one that is printed
example : (queryMain sampleText .temp [sampleRecord, sampleRecord]).lines =
    [tempHeader, "7\t0xab\t22\t251"] := by rfl

end AnylWallet.Tools
