import AnylWallet.FishSupply.Payload
import AnylWallet.Helpers.Strtol
import AnylWallet.Lib.Latest

/-!
# `sawtooth_shell`: the commands of the fish-supply example

* The commands that set a member of `_rec`, and the three that encode a payload into `_buf`, sign it
  and POST the transaction. `payload_written` is a `size_t`, so that an encoder that fails is not
  noticed (`StFault.overread`).
* `StStep.submission` is what a command is to submit, from the arguments of the commands before it
  (`Entries.after`): the number, the front of the identifier or of the species that was given last.
* `submits_run`: **every run** whose names of agents leave room in `_buf` POSTs its submissions, each
  in one signed transaction, in their order, in a build without assertions.
-/

namespace AnylWallet.FishSupply

open AnylWallet.Lib AnylWallet.Helpers AnylWallet.Sawtooth

/-! ## The source -/

/-- `_rec`. Source: `app/sawtooth_shell.c` -/
def initialRecord : FishRecord where
  weight := 0
  length := 0
  species := ⟨ascii "???" ++ [0], by decide, by decide⟩
  id := ⟨List.replicate 16 0, by decide, by decide⟩
  latitude := 0
  longitude := 0

/-- `PAYLOAD_BUF_SIZE`. Source: `app/sawtooth_shell.c` -/
def payloadBufSize : UInt64 := 2048

/-- The commands. -/
inductive StCommand where
  /-- `sub_record_id` -/
  | recordId
  /-- `sub_record_species` -/
  | recordSpecies
  /-- `sub_record_weight` -/
  | recordWeight
  /-- `sub_record_length` -/
  | recordLength
  /-- `sub_record_latitude` -/
  | recordLatitude
  /-- `sub_record_longitude` -/
  | recordLongitude
  /-- `sub_record_print` -/
  | recordPrint
  /-- `sub_create_agent` -/
  | createAgent
  /-- `sub_create_record` -/
  | createRecord
  /-- `sub_update_record` -/
  | updateRecord
deriving DecidableEq, Repr

/-- What a command meets. -/
structure StCall where
  /-- `tv_sec` of `gettimeofday`. -/
  now : UInt64
  /-- The key of the account. -/
  privkey : StPrivkey
  /-- The addresses on the stack of `sign_and_encode`. -/
  stk : AddressStack
  /-- The memory at `_buf`. -/
  buf : Region
  /-- What `http_send_data` returns. -/
  http : ℤ
  /-- `shell_help_requested` -/
  help : Bool

/-- What a command does. -/
inductive StAct where
  /-- A text is printed. -/
  | printed (text : String)
  /-- The members of a record are printed. -/
  | shown (record : FishRecord)
  /-- The bytes are the payload of `http_send_data`. -/
  | posted (body : List UInt8)

/-- Why a command does not end the way C defines. -/
inductive StFault where
  | fault (fault : Fault)
  /-- The payload is read past the end of `_buf`. -/
  | overread

/-- What a command ends with. -/
structure StEnded where
  record : FishRecord
  ret : ℤ
  acts : List StAct

/-- `ENOEXEC`. -/
def enoexec : ℤ := 8

/-- The memory from a position on. -/
def regionFrom (m : Region) (p : ℕ) : Region := ⟨fun i => m.byte (p + i), m.top - p⟩

/-- An `int` is below `2 ^ 31`. -/
theorem toNat_sizeToInt_lt (n : ℕ) : (sizeToInt n).toNat < 2 ^ 31 := by
  rw [sizeToInt_eq]
  split
  · omega
  · omega

/-- What an encoder tells of is not longer than an `int`. -/
theorem length_output_lt (e : Encoded) : e.output.length < 2 ^ 64 := by
  have hlt := toNat_sizeToInt_lt e.bytesWritten
  rw [Encoded.output, Region.length_load, Encoded.ret]
  omega

/-- What the caller of an encoder finds at the start of the buffer. -/
def payloadOf (e : Encoded) : StPayload := ⟨e.output, length_output_lt e⟩

theorem payloadOf_buf (e : Encoded) : (payloadOf e).buf = e.output := by
  dsimp only [payloadOf]

/-- The arguments of a command are an `argc` and an `argv`; the first one is its name. -/
def withArg (argv : List (List UInt8)) (missing : StEnded) (given : List UInt8 → StEnded) :
    StEnded :=
  match argv[1]? with
  | none => missing
  | some arg => given arg

/-- `CREATE_SUB_RECORD_INT`: the member is set before the text is looked at.
Source: `app/sawtooth_shell.c` -/
def subRecordInt (item : String) (set : UInt64 → FishRecord → FishRecord) (record : FishRecord)
    (argv : List (List UInt8)) : StEnded :=
  withArg argv ⟨record, -1, [.printed ("missing argument:" ++ item)]⟩ fun arg =>
    let conv := strtoul 10 arg
    let record := set conv.value record
    if conv.erange = true ∨ conv.size ≠ arg.length then
      ⟨record, -1, [.printed "invalid length\n"]⟩
    else ⟨record, 0, []⟩

section Source

variable (cr : StCrypto) (ecdsaGetPublicKey65 : Vector UInt8 32 → Vector UInt8 65) (pb : Nanopb)
  (writesEmpty asserts : Bool)

/-- `__sign_and_send`. The `body` that it would look for an error message in is always `NULL`.
Source: `app/sawtooth_shell.c` -/
def signAndSend (call : StCall) (record : FishRecord) (payload : StPayload) (buf : Region)
    (bufSize : UInt64) : Except StFault StEnded :=
  match signAndEncode cr ecdsaGetPublicKey65 pb asserts call.stk call.privkey payload buf
    bufSize with
  | .error fault => .error (.fault fault)
  | .ok none => .ok ⟨record, -1, []⟩
  | .ok (some e) =>
      if e.ret ≤ 0 then .ok ⟨record, -1, []⟩
      else
        .ok ⟨record, call.http, .posted e.output ::
          if call.http ≠ 200 then [.printed "error: HTTP send"] else []⟩

/-- What the three commands do with the payload that an encoder has left in `_buf`. -/
def submit (call : StCall) (record : FishRecord) (encoded : Option Encoded) : Except StFault StEnded :=
  match encoded with
  -- -1 is the largest `size_t`
  | none => .error .overread
  | some e =>
      if intToSize e.ret = 0 then .ok ⟨record, -1, []⟩
      else
        signAndSend cr ecdsaGetPublicKey65 pb asserts call record (payloadOf e)
          (regionFrom e.buf (intToSize e.ret)) (payloadBufSize - UInt64.ofNat (intToSize e.ret))

/-- A command. Source: `app/sawtooth_shell.c` -/
def StCommand.run (command : StCommand) (call : StCall) (record : FishRecord)
    (argv : List (List UInt8)) : Except StFault StEnded :=
  match command with
  | .recordSpecies =>
      .ok (withArg argv ⟨record, -1, [.printed "missing argument: 3-char species type"]⟩
        fun arg => ⟨{ record with species := record.species.strncpy arg }, 0, []⟩)
  | .recordId =>
      .ok (withArg argv ⟨record, -1, [.printed "missing argument: id"]⟩ fun arg =>
        ⟨{ record with id := record.id.strncpy arg }, 0, []⟩)
  | .recordWeight =>
      .ok (subRecordInt "weight" (fun v r => { r with weight := v }) record argv)
  | .recordLength =>
      .ok (subRecordInt "length" (fun v r => { r with length := v }) record argv)
  | .recordLatitude =>
      .ok (subRecordInt "latitude" (fun v r => { r with latitude := v.toInt64 }) record argv)
  | .recordLongitude =>
      .ok (subRecordInt "longitude" (fun v r => { r with longitude := v.toInt64 }) record argv)
  | .recordPrint => .ok ⟨record, if call.help then -enoexec else 0, [.shown record]⟩
  | .createAgent =>
      match argv[1]? with
      | none => .ok ⟨record, -1, [.printed "missing argument: agent name\n"]⟩
      | some name =>
          submit cr ecdsaGetPublicKey65 pb asserts call record
            (encodeCreateAgent pb writesEmpty call.now name call.buf payloadBufSize)
  | .createRecord =>
      submit cr ecdsaGetPublicKey65 pb asserts call record
        (encodeCreateRecord pb writesEmpty call.now record call.buf payloadBufSize)
  | .updateRecord =>
      submit cr ecdsaGetPublicKey65 pb asserts call record
        (encodeUpdateProperties pb writesEmpty call.now record call.buf payloadBufSize)

end Source

/-- A command that is entered. -/
structure StStep where
  command : StCommand
  call : StCall
  argv : List (List UInt8)

/-- What a command POSTs. -/
def StEnded.posts (o : StEnded) : List (List UInt8) :=
  o.acts.filterMap fun
    | .posted body => some body
    | _ => none

section Run

variable (cr : StCrypto) (ecdsaGetPublicKey65 : Vector UInt8 32 → Vector UInt8 65) (pb : Nanopb)
  (writesEmpty asserts : Bool)

/-- The record behind a run, and what is POSTed in it. -/
def runSteps (record : FishRecord) (steps : List StStep) :
    Except StFault (FishRecord × List (List UInt8)) :=
  steps.foldlM (fun (record, bodies) s => do
    let o ← s.command.run cr ecdsaGetPublicKey65 pb writesEmpty asserts s.call record s.argv
    return (o.record, bodies ++ o.posts)) (record, [])

end Run

/-! ## What a run is to submit -/

/-- What the commands have set. -/
structure Entries where
  id : List UInt8
  species : List UInt8
  weight : UInt64
  length : UInt64
  latitude : Int64
  longitude : Int64

/-- The properties of these entries. -/
def Entries.properties (e : Entries) : List Property :=
  [{ Property.named "weight" .number with numberValue := e.weight.toInt64.toInt },
    { Property.named "length" .number with numberValue := e.length.toInt64.toInt },
    { Property.named "species" .string with stringValue := e.species },
    { Property.named "location" .location with
      latitude := e.latitude.toInt
      longitude := e.longitude.toInt }]

/-- The argument of the last command of this kind that was given one. -/
def lastArg (command : StCommand) (steps : List StStep) : Option (List UInt8) :=
  latest (fun s => if s.command = command then s.argv[1]? else none) steps

/-- The front of a text. -/
def front (n : ℕ) (arg : List UInt8) : List UInt8 := (arg.takeWhile (· ≠ 0)).take n

/-- **What the commands of a run have set**: each member what the last command for it was given. -/
def Entries.after (steps : List StStep) : Entries where
  id := (lastArg .recordId steps).elim [] (front 15)
  species := (lastArg .recordSpecies steps).elim (ascii "???") (front 3)
  weight := (lastArg .recordWeight steps).elim 0 fun arg => (strtoul 10 arg).value
  length := (lastArg .recordLength steps).elim 0 fun arg => (strtoul 10 arg).value
  latitude := (lastArg .recordLatitude steps).elim 0 fun arg => (strtoul 10 arg).value.toInt64
  longitude := (lastArg .recordLongitude steps).elim 0 fun arg => (strtoul 10 arg).value.toInt64

/-- What a command submits. -/
def StStep.submission (s : StStep) (e : Entries) : Option Submission :=
  match s.command with
  | .createAgent => s.argv[1]?.map .createAgent
  | .createRecord => some (.createRecord e.id (ascii "fish") e.properties)
  | .updateRecord => some (.updateProperties e.id e.properties)
  | _ => none

/-- The submissions of a run, each with what its command meets. -/
def submissions (steps : List StStep) : List (StCall × Submission) :=
  (List.range steps.length).filterMap fun i =>
    steps[i]?.bind fun s => (s.submission (Entries.after (steps.take i))).map (s.call, ·)

/-- The body is a list of one transaction. Its header is that of the transaction family and of the
key, and is signed with the key; its payload is read as the submission. -/
def Delivers (cr : StCrypto) (ecdsaGetPublicKey65 : Vector UInt8 32 → Vector UInt8 65)
    (s : StCall × Submission) (body : List UInt8) : Prop :=
  ∃ t : StTx × List UInt8, ReadsTxList cr [t] body ∧
    t.2 = Proto.records
      (supplyHeader ecdsaGetPublicKey65 s.1.privkey (cr.sha512Raw t.1.payload.buf)) ∧
    t.1.headerSignature.s = stSignDataRawsig cr s.1.privkey t.2 ∧
    readPayload t.1.payload.buf = some (s.1.now.toNat, s.2)

/-- The name of an agent leaves room for the transaction. (A line of the shell is shorter.) -/
def StStep.Fits (s : StStep) : Prop :=
  s.command = .createAgent → ∀ name, s.argv[1]? = some name → name.length ≤ 512

/-! ## One command -/

/-- What a record holds. -/
def FishRecord.entries (record : FishRecord) : Entries :=
  ⟨record.id.text, record.species.text, record.weight, record.length, record.latitude,
    record.longitude⟩

section Step

variable {cr : StCrypto} {ecdsaGetPublicKey65 : Vector UInt8 32 → Vector UInt8 65} {pb : Nanopb}
  (hpb : pb.Standard) (writesEmpty asserts : Bool)

/-- The room behind a payload. -/
theorem toNat_payloadBufSize_sub {n : ℕ} (h : n ≤ 2048) :
    (payloadBufSize - UInt64.ofNat n).toNat = 2048 - n := by
  have hn : (UInt64.ofNat n).toNat = n := UInt64.toNat_ofNat_of_lt' (h.trans_lt (by norm_num))
  have hbuf : payloadBufSize.toNat = 2048 := rfl
  rw [UInt64.toNat_sub_of_le, hn, hbuf]
  rw [UInt64.le_iff_toNat_le, hn, hbuf]
  exact h

/-- A small number of bytes is returned as it is. -/
theorem intToSize_ret {e : Encoded} (h : e.bytesWritten < 2 ^ 31) :
    intToSize e.ret = e.bytesWritten := by
  rw [Encoded.ret, sizeToInt_of_lt h, intToSize]
  omega

theorem signedTx_signature (tx : StTx) (privkey : StPrivkey) :
    (signedTx cr tx privkey).1.headerSignature.s =
      stSignDataRawsig cr privkey (signedTx cr tx privkey).2 := rfl

include hpb in
/-- **A payload that leaves room for the transaction is POSTed.** -/
theorem submit_delivers {payload : SCPayload} (hset : payload.Set) {call : StCall}
    (record : FishRecord) {submission : Submission}
    (hpos : 0 < (Proto.message (payload.fields writesEmpty)).length)
    (hlen : (Proto.message (payload.fields writesEmpty)).length ≤ 663)
    (hread : readPayload (Proto.message (payload.fields writesEmpty)) =
      some (call.now.toNat, submission)) :
    ∃ o, submit cr ecdsaGetPublicKey65 pb asserts call record
        (stEncode pb (scPayloadMessage pb writesEmpty payload) call.buf payloadBufSize) = .ok o ∧
      List.Forall₂ (Delivers cr ecdsaGetPublicKey65) [(call, submission)] o.posts := by
  have hbuf : payloadBufSize.toNat = 2048 := rfl
  have hencode := stEncode_payload hpb hset call.buf (hlen.trans (by rw [hbuf]; norm_num))
  generalize Proto.message (payload.fields writesEmpty) = text at *
  have hret : intToSize (⟨call.buf.store 0 text, text.length⟩ : Encoded).ret = text.length :=
    intToSize_ret (hlen.trans_lt (by norm_num))
  have hnonneg : 0 ≤ (⟨call.buf.store 0 text, text.length⟩ : Encoded).ret := by
    rw [Encoded.ret, sizeToInt_of_lt (show text.length < 2 ^ 31 from hlen.trans_lt (by norm_num))]
    exact Int.natCast_nonneg _
  have houtput : (⟨call.buf.store 0 text, text.length⟩ : Encoded).output = text := by
    rw [Encoded.output_eq_message hnonneg
      (show text.length < 2 ^ 32 from hlen.trans_lt (by norm_num))]
    exact Region.load_store call.buf 0 text
  have htext : (payloadOf ⟨call.buf.store 0 text, text.length⟩).buf = text := by
    rw [payloadOf_buf, houtput]
  have hsize := toNat_payloadBufSize_sub (hlen.trans (by norm_num : 663 ≤ 2048))
  obtain ⟨e, hsend, hepos, hreads⟩ := @signAndEncode_reads cr ecdsaGetPublicKey65 pb hpb asserts
    call.stk call.privkey (payloadOf ⟨call.buf.store 0 text, text.length⟩)
    (regionFrom (call.buf.store 0 text) text.length)
    (payloadBufSize - UInt64.ofNat text.length) (by rw [htext, hsize]; omega)
    (by rw [htext]; exact hlen.trans_lt (by norm_num))
  have hpayload : (supplySigned cr ecdsaGetPublicKey65 call.privkey
      (payloadOf ⟨call.buf.store 0 text, text.length⟩)).1.payload =
      payloadOf ⟨call.buf.store 0 text, text.length⟩ := rfl
  refine ⟨⟨record, call.http, .posted e.output ::
    if call.http ≠ 200 then [.printed "error: HTTP send"] else []⟩, ?_, ?_⟩
  · rw [hencode]
    simp only [submit, hret, signAndSend]
    rw [if_neg hpos.ne', hsend]
    simp only [if_neg (not_le.mpr hepos)]
  · have hposts : StEnded.posts ⟨record, call.http, .posted e.output ::
        if call.http ≠ 200 then [.printed "error: HTTP send"] else []⟩ = [e.output] := by
      rw [StEnded.posts]
      split
      · rfl
      · rfl
    rw [hposts]
    refine .cons ⟨_, hreads, ?_, signedTx_signature _ _, ?_⟩ .nil
    · rw [hpayload]
      exact supplySigned_header call.privkey _
    · rw [hpayload, htext]
      exact hread

variable {record : FishRecord} {s : StStep}

include hpb in
/-- **What a command POSTs is its submission.** -/
theorem StStep.run_posts {s : StStep} (hfits : s.Fits) (record : FishRecord) :
    ∃ o, s.command.run cr ecdsaGetPublicKey65 pb writesEmpty asserts s.call record s.argv = .ok o ∧
      List.Forall₂ (Delivers cr ecdsaGetPublicKey65)
        ((s.submission record.entries).map (s.call, ·)).toList o.posts := by
  obtain ⟨command, call, argv⟩ := s
  have hquiet {o : StEnded} (hposts : o.posts = []) :
      List.Forall₂ (Delivers cr ecdsaGetPublicKey65) [] o.posts := by
    rw [hposts]
    exact .nil
  have harg {missing : StEnded} {given : List UInt8 → StEnded} (hmissing : missing.posts = [])
      (hgiven : ∀ arg, (given arg).posts = []) : (withArg argv missing given).posts = [] := by
    unfold withArg
    split
    · exact hmissing
    · exact hgiven _
  have hint (item : String) (set : UInt64 → FishRecord → FishRecord) :
      (subRecordInt item set record argv).posts = [] := by
    refine harg rfl fun arg => ?_
    dsimp only
    split
    · rfl
    · rfl
  cases command with
  | recordId => exact ⟨_, rfl, hquiet (harg rfl fun _ => rfl)⟩
  | recordSpecies => exact ⟨_, rfl, hquiet (harg rfl fun _ => rfl)⟩
  | recordWeight => exact ⟨_, rfl, hquiet (hint _ _)⟩
  | recordLength => exact ⟨_, rfl, hquiet (hint _ _)⟩
  | recordLatitude => exact ⟨_, rfl, hquiet (hint _ _)⟩
  | recordLongitude => exact ⟨_, rfl, hquiet (hint _ _)⟩
  | recordPrint => exact ⟨_, rfl, hquiet rfl⟩
  | createAgent =>
      cases hname : argv[1]? with
      | none =>
          refine ⟨⟨record, -1, [.printed "missing argument: agent name\n"]⟩, ?_, ?_⟩
          · simp only [StCommand.run, hname]
          · simp only [StStep.submission, hname, Option.map_none, Option.toList_none]
            exact hquiet rfl
      | some name =>
          obtain ⟨hlen, hread⟩ := @readPayload_agent writesEmpty call.now name (hfits rfl name hname)
          obtain ⟨o, hrun, hposts⟩ := submit_delivers hpb writesEmpty asserts
            (set_payloads call.now record name).1 record (message_payload_pos (.inr rfl))
            (hlen.trans (by have := hfits rfl name hname; omega)) hread
          refine ⟨o, ?_, ?_⟩
          · simp only [StCommand.run, hname]
            exact hrun
          · simp only [StStep.submission, hname, Option.map_some, Option.toList_some]
            exact hposts
  | createRecord =>
      obtain ⟨hlen, hread⟩ := @readPayload_created writesEmpty call.now record
      exact submit_delivers hpb writesEmpty asserts (set_payloads call.now record []).2.1 record
        (message_payload_pos (.inl Nat.one_ne_zero)) (hlen.trans (by norm_num)) hread
  | updateRecord =>
      obtain ⟨hlen, hread⟩ := @readPayload_updated writesEmpty call.now record
      exact submit_delivers hpb writesEmpty asserts (set_payloads call.now record []).2.2 record
        (message_payload_pos (.inl (by norm_num : (4 : ℕ) ≠ 0))) (hlen.trans (by norm_num)) hread

/-- What a step does to the entries. -/
def Entries.update (e : Entries) (s : StStep) : Entries :=
  match s.command with
  | .recordId => s.argv[1]?.elim e fun arg => { e with id := front 15 arg }
  | .recordSpecies => s.argv[1]?.elim e fun arg => { e with species := front 3 arg }
  | .recordWeight => s.argv[1]?.elim e fun arg => { e with weight := (strtoul 10 arg).value }
  | .recordLength => s.argv[1]?.elim e fun arg => { e with length := (strtoul 10 arg).value }
  | .recordLatitude =>
      s.argv[1]?.elim e fun arg => { e with latitude := (strtoul 10 arg).value.toInt64 }
  | .recordLongitude =>
      s.argv[1]?.elim e fun arg => { e with longitude := (strtoul 10 arg).value.toInt64 }
  | .recordPrint | .createAgent | .createRecord | .updateRecord => e

/-- No submission changes the record. -/
theorem submit_record {call : StCall} {record : FishRecord} {encoded : Option Encoded} {o : StEnded}
    (h : submit cr ecdsaGetPublicKey65 pb asserts call record encoded = .ok o) :
    o.record = record := by
  unfold submit at h
  split at h
  · cases h
  · split at h
    · cases h
      rfl
    · unfold signAndSend at h
      split at h
      · cases h
      · cases h
        rfl
      · split at h
        · cases h
          rfl
        · cases h
          rfl

/-- **What a command leaves in the record.** -/
theorem StStep.run_entries {s : StStep} {record : FishRecord} {o : StEnded}
    (h : s.command.run cr ecdsaGetPublicKey65 pb writesEmpty asserts s.call record s.argv = .ok o) :
    o.record.entries = record.entries.update s := by
  obtain ⟨command, call, argv⟩ := s
  have hint {item : String} {set : UInt64 → FishRecord → FishRecord} :
      (subRecordInt item set record argv).record =
        argv[1]?.elim record fun arg => set (strtoul 10 arg).value record := by
    unfold subRecordInt withArg
    split
    · next hnone => rw [hnone]; rfl
    · next arg hsome =>
        rw [hsome]
        dsimp only
        split
        · rfl
        · rfl
  have harg {missing : StEnded} {given : List UInt8 → StEnded} :
      (withArg argv missing given).record =
        argv[1]?.elim missing.record fun arg => (given arg).record := by
    unfold withArg
    cases argv[1]? with
    | none => rfl
    | some arg => rfl
  have hset {set : List UInt8 → FishRecord} {entries : List UInt8 → Entries}
      (h : ∀ arg, (set arg).entries = entries arg) :
      (argv[1]?.elim record set).entries = argv[1]?.elim record.entries entries := by
    cases argv[1]? with
    | none => rfl
    | some arg => exact h arg
  cases command with
  | recordId =>
      cases h
      rw [harg]
      refine hset fun arg => ?_
      simp only [FishRecord.entries, CharArray.text_strncpy, front]
  | recordSpecies =>
      cases h
      rw [harg]
      refine hset fun arg => ?_
      simp only [FishRecord.entries, CharArray.text_strncpy, front]
  | recordWeight =>
      cases h
      rw [hint]
      exact hset fun _ => rfl
  | recordLength =>
      cases h
      rw [hint]
      exact hset fun _ => rfl
  | recordLatitude =>
      cases h
      rw [hint]
      exact hset fun _ => rfl
  | recordLongitude =>
      cases h
      rw [hint]
      exact hset fun _ => rfl
  | recordPrint =>
      cases h
      rfl
  | createAgent =>
      have hrecord : o.record = record := by
        simp only [StCommand.run] at h
        split at h
        · cases h
          rfl
        · exact submit_record asserts h
      rw [hrecord]
      rfl
  | createRecord => rw [submit_record asserts h]; rfl
  | updateRecord => rw [submit_record asserts h]; rfl

end Step

/-! ## Runs -/

/-- The entries after one more step. -/
theorem Entries.after_concat (steps : List StStep) (s : StStep) :
    Entries.after (steps ++ [s]) = (Entries.after steps).update s := by
  obtain ⟨command, call, argv⟩ := s
  simp only [Entries.after, lastArg, latest_concat, Entries.update]
  cases command <;> cases argv[1]? <;> rfl

/-- The submissions of one more step. -/
theorem submissions_concat (steps : List StStep) (s : StStep) :
    submissions (steps ++ [s]) =
      submissions steps ++ ((s.submission (Entries.after steps)).map (s.call, ·)).toList := by
  have hinit : ∀ i ∈ List.range steps.length,
      ((steps ++ [s])[i]?.bind fun t =>
        (t.submission (Entries.after ((steps ++ [s]).take i))).map (t.call, ·)) =
      steps[i]?.bind fun t => (t.submission (Entries.after (steps.take i))).map (t.call, ·) := by
    intro i hi
    have hlt := List.mem_range.mp hi
    rw [List.getElem?_append_left hlt, List.take_append_of_le_length hlt.le]
  rw [submissions, submissions, List.length_append, List.length_singleton, List.range_succ,
    List.filterMap_append, List.filterMap_congr hinit]
  congr 1
  rw [List.filterMap_cons, List.getElem?_concat_length, List.take_left, Option.bind_some]
  cases (s.submission (Entries.after steps)).map (s.call, ·) with
  | none => rfl
  | some t => rfl

section

variable {cr : StCrypto} {ecdsaGetPublicKey65 : Vector UInt8 32 → Vector UInt8 65} {pb : Nanopb}

/-- **Every run POSTs its submissions**, each in one signed transaction, in their order; the record
behind it holds what the commands were given last. A POST is what is handed to `http_send_data`, and the
build is one without assertions: `__assert_nfo` would stop the second request of a run, as
`http_nfo_free` leaves `_priv` behind. -/
theorem submits_run (hpb : pb.Standard) (writesEmpty : Bool) {steps : List StStep}
    (hfits : ∀ s ∈ steps, s.Fits) :
    ∃ record bodies,
      runSteps cr ecdsaGetPublicKey65 pb writesEmpty false initialRecord steps =
        .ok (record, bodies) ∧
      record.entries = Entries.after steps ∧
      List.Forall₂ (Delivers cr ecdsaGetPublicKey65) (submissions steps) bodies := by
  induction steps using List.reverseRecOn with
  | nil => exact ⟨initialRecord, [], rfl, rfl, .nil⟩
  | append_singleton steps s ih =>
      obtain ⟨record, bodies, hrun, hentries, hbodies⟩ :=
        ih fun t ht => hfits t (List.mem_append_left _ ht)
      obtain ⟨o, ho, hposts⟩ := @StStep.run_posts cr ecdsaGetPublicKey65 pb hpb writesEmpty false s
        (hfits s (by simp)) record
      rw [hentries] at hposts
      refine ⟨o.record, bodies ++ o.posts, ?_, ?_, ?_⟩
      · rw [runSteps, List.foldlM_append, ← runSteps, hrun]
        simp only [List.foldlM_cons, List.foldlM_nil, bind, Except.bind, ho]
        rfl
      · rw [StStep.run_entries writesEmpty false ho, hentries, Entries.after_concat]
      · rw [submissions_concat]
        exact List.rel_append hbodies hposts

end

/-- A call at a second of the clock. -/
def sampleCall (now : UInt64) : StCall where
  now := now
  privkey := ⟨Vector.replicate 32 1⟩
  stk := ⟨⟨Vector.replicate 35 0⟩, ⟨Vector.replicate 35 0⟩⟩
  buf := ⟨fun _ => 0, 0⟩
  http := 200
  help := false

/-- An agent is created, and a record that is updated when its weight is known. -/
def sampleSteps : List StStep :=
  [⟨.createAgent, sampleCall 1, [ascii "create_agent", ascii "john"]⟩,
    ⟨.recordId, sampleCall 2, [ascii "id", ascii "fish-154"]⟩,
    ⟨.createRecord, sampleCall 3, [ascii "create_record"]⟩,
    ⟨.recordWeight, sampleCall 4, [ascii "weight", ascii "12"]⟩,
    ⟨.updateRecord, sampleCall 5, [ascii "update_record"]⟩]

/-- `submits_run` on these commands. -/
theorem submits_run_sample :
    ∃ record bodies,
      runSteps constantCrypto (fun _ => Vector.replicate 65 3) Nanopb.reference false false
        initialRecord sampleSteps = .ok (record, bodies) ∧
      record.entries = Entries.after sampleSteps ∧
      List.Forall₂ (Delivers constantCrypto fun _ => Vector.replicate 65 3)
        (submissions sampleSteps) bodies := by
  refine submits_run Nanopb.reference_standard false ?_
  intro s hs hcommand name hname
  simp only [sampleSteps, List.mem_cons, List.not_mem_nil, or_false] at hs
  rcases hs with rfl | rfl | rfl | rfl | rfl
  · cases hname
    decide
  · cases hcommand
  · cases hcommand
  · cases hcommand
  · cases hcommand

end AnylWallet.FishSupply
