import AnylWallet.Lib.Proto
import AnylWallet.Lib.Region

/-!
# nanopb

* The encoder of nanopb is third-party code: `Nanopb` has its functions as fields, on a type of
  streams that is not fixed. `none` is a result of `false`; what is then in the buffer is left open.
* `Nanopb.Standard` says that what a successful call writes is the standard protobuf encoding, given
  that every callback writes the same bytes on every stream, and that a call succeeds where these
  bytes fit. `Nanopb.Emits w bs` is this property of a writer; the writers below compose by
  `Emits.andThen` and `Emits.list`.
* `Nanopb.reference` has these properties: its streams hold what was written and the room left.
-/

namespace AnylWallet.Sawtooth

open AnylWallet.Lib

/-- `pb_field_t`: the number of a field. -/
structure PbField where
  tag : ℕ
deriving DecidableEq

/-- The functions of nanopb. -/
structure Nanopb where
  /-- `pb_ostream_t` -/
  Stream : Type
  /-- `pb_ostream_from_buffer` -/
  pbOstreamFromBuffer : Region → UInt64 → Stream
  /-- `stream.bytes_written` -/
  bytesWritten : Stream → ℕ
  /-- The memory at the buffer of a stream. -/
  buffer : Stream → Region
  /-- `pb_write` -/
  pbWrite : Stream → List UInt8 → Option Stream
  /-- `pb_encode_tag_for_field`, for a field that is length-delimited. -/
  pbEncodeTagForField : Stream → PbField → Option Stream
  /-- `pb_encode_varint` -/
  pbEncodeVarint : Stream → UInt64 → Option Stream
  /-- `pb_encode_string` -/
  pbEncodeString : Stream → List UInt8 → Option Stream
  /-- `pb_encode_submessage`, with the fields of the message and their callbacks. -/
  pbEncodeSubmessage : Stream → List (PbField × (Stream → PbField → Option Stream)) → Option Stream
  /-- `pb_encode` -/
  pbEncode : Stream → List (PbField × (Stream → PbField → Option Stream)) → Option Stream
  /-- The second stream is the first one after these bytes have been written. -/
  Wrote : Stream → List UInt8 → Stream → Prop
  /-- There is room for that many bytes. -/
  Fits : Stream → ℕ → Prop

namespace Nanopb

variable (pb : Nanopb)

/-- A writer. -/
abbrev Writer := pb.Stream → Option pb.Stream

/-- The fields of a message, with their callbacks. -/
abbrev Message := List (PbField × (pb.Stream → PbField → Option pb.Stream))

/-- The writer writes `bs` whenever it succeeds, and it succeeds where `bs` fits. -/
structure Emits (w : pb.Writer) (bs : List UInt8) : Prop where
  wrote : ∀ s s', w s = some s' → pb.Wrote s bs s'
  succeeds : ∀ s, pb.Fits s bs.length → ∃ s', w s = some s'

/-- The callbacks of a message write `outs`. -/
def EmitsAll (msg : pb.Message) (outs : List (List UInt8)) : Prop :=
  List.Forall₂ (fun f bs => pb.Emits (fun s => f.2 s f.1) bs) msg outs

/-- **nanopb writes the standard encoding.** -/
structure Standard : Prop where
  /-- Writing nothing. -/
  wrote_nil : ∀ s, pb.Wrote s [] s
  /-- Writing twice. -/
  wrote_append : ∀ {s t u a b}, pb.Wrote s a t → pb.Wrote t b u → pb.Wrote s (a ++ b) u
  /-- Less fits as well. -/
  fits_of_le : ∀ {s n k}, k ≤ n → pb.Fits s n → pb.Fits s k
  /-- What has been written takes its own room only. -/
  fits_of_wrote : ∀ {s t bs n}, pb.Wrote s bs t → pb.Fits s (bs.length + n) → pb.Fits t n
  /-- A buffer has room for what is not longer. -/
  fits_buffer : ∀ {m size n}, n ≤ size.toNat → pb.Fits (pb.pbOstreamFromBuffer m size) n
  /-- `pb_write` writes the bytes. -/
  write : ∀ bs, pb.Emits (pb.pbWrite · bs) bs
  /-- `pb_encode_tag_for_field` writes the tag of the field. -/
  tag : ∀ field, pb.Emits (pb.pbEncodeTagForField · field) (Proto.tag field.tag)
  /-- `pb_encode_varint` writes a varint. -/
  varint : ∀ n, pb.Emits (pb.pbEncodeVarint · n) (Proto.varint n.toNat)
  /-- `pb_encode_string` writes the length and the bytes. -/
  string : ∀ bs, pb.Emits (pb.pbEncodeString · bs) (Proto.varint bs.length ++ bs)
  /-- `pb_encode_submessage` writes the length and what the callbacks write. -/
  submessage : ∀ {msg outs}, pb.EmitsAll msg outs →
    pb.Emits (pb.pbEncodeSubmessage · msg) (Proto.varint outs.flatten.length ++ outs.flatten)
  /-- `pb_encode` writes what the callbacks write, in the order of the fields. -/
  encode : ∀ {msg outs}, pb.EmitsAll msg outs → pb.Emits (pb.pbEncode · msg) outs.flatten
  /-- A stream writes to the front of its buffer, and not past its end. -/
  buffer : ∀ {m size bs s}, pb.Wrote (pb.pbOstreamFromBuffer m size) bs s →
    pb.buffer s = m.store 0 bs ∧ pb.bytesWritten s = bs.length ∧ bs.length ≤ size.toNat

/-! ## Writers -/

variable {pb}

/-- One writer behind the other. -/
theorem Emits.andThen (hpb : pb.Standard) {w w' : pb.Writer} {a b : List UInt8}
    (h : pb.Emits w a) (h' : pb.Emits w' b) : pb.Emits (fun s => (w s).bind w') (a ++ b) where
  wrote s u hs := by
    obtain ⟨t, ht, hu⟩ := Option.bind_eq_some_iff.mp hs
    exact hpb.wrote_append (h.wrote s t ht) (h'.wrote t u hu)
  succeeds s hs := by
    rw [List.length_append] at hs
    obtain ⟨t, ht⟩ := h.succeeds s (hpb.fits_of_le (Nat.le_add_right _ _) hs)
    obtain ⟨u, hu⟩ := h'.succeeds t (hpb.fits_of_wrote (h.wrote s t ht) hs)
    exact ⟨u, Option.bind_eq_some_iff.mpr ⟨t, ht, hu⟩⟩

/-- A writer that writes nothing. -/
theorem Emits.nothing (hpb : pb.Standard) : pb.Emits some [] where
  wrote s s' hs := by
    cases hs
    exact hpb.wrote_nil s
  succeeds s _ := ⟨s, rfl⟩

/-- A writer for every element of a list. -/
theorem Emits.list (hpb : pb.Standard) {ι : Type} {w : pb.Stream → ι → Option pb.Stream}
    {out : ι → List UInt8} {l : List ι} (h : ∀ x ∈ l, pb.Emits (w · x) (out x)) :
    pb.Emits (fun s => l.foldlM w s) (l.flatMap out) := by
  induction l with
  | nil => exact Emits.nothing hpb
  | cons x l ih =>
      have hrest := ih fun y hy => h y (List.mem_cons_of_mem x hy)
      exact (h x List.mem_cons_self).andThen hpb hrest

/-! ## A nanopb with these properties -/

/-- A stream of the reference: the memory at the buffer before anything was written, the room, which
a sizing stream does not limit, and what was written. -/
structure RefStream where
  base : Region
  room : Option ℕ
  out : List UInt8

/-- Write bytes if there is room for them. -/
def RefStream.write (s : RefStream) (bs : List UInt8) : Option RefStream :=
  if (s.room.all fun room => s.out.length + bs.length ≤ room) then
    some { s with out := s.out ++ bs }
  else none

/-- Run the callbacks of a message in order. -/
def RefStream.run (s : RefStream)
    (msg : List (PbField × (RefStream → PbField → Option RefStream))) : Option RefStream :=
  msg.foldlM (fun s f => f.2 s f.1) s

/-- The reference. A submessage is first written to a sizing stream, for its length. -/
def reference : Nanopb where
  Stream := RefStream
  pbOstreamFromBuffer m size := ⟨m, some size.toNat, []⟩
  bytesWritten s := s.out.length
  buffer s := s.base.store 0 s.out
  pbWrite := RefStream.write
  pbEncodeTagForField s field := s.write (Proto.tag field.tag)
  pbEncodeVarint s n := s.write (Proto.varint n.toNat)
  pbEncodeString s bs := s.write (Proto.varint bs.length ++ bs)
  pbEncodeSubmessage s msg := do
    let sizing ← RefStream.run ⟨s.base, none, []⟩ msg
    let s ← s.write (Proto.varint sizing.out.length)
    s.run msg
  pbEncode s msg := s.run msg
  Wrote s bs s' := s'.base = s.base ∧ s'.room = s.room ∧ s'.out = s.out ++ bs ∧
    (s.room.all fun room => s'.out.length ≤ max room s.out.length)
  Fits s n := s.room.all fun room => s.out.length + n ≤ room

/-- Bytes fit into a stream that has no bound, or has room for them. -/
theorem reference_fits_iff {s : RefStream} {n : ℕ} :
    reference.Fits s n ↔ ∀ room, s.room = some room → s.out.length + n ≤ room := by
  simp only [reference, Option.all_eq_true, decide_eq_true_eq]

/-- What is written stays within the bound, unless the stream has exceeded it before. -/
theorem reference_wrote_iff {s t : RefStream} {bs : List UInt8} :
    reference.Wrote s bs t ↔ t.base = s.base ∧ t.room = s.room ∧ t.out = s.out ++ bs ∧
      ∀ room, s.room = some room → t.out.length ≤ max room s.out.length := by
  simp only [reference, Option.all_eq_true, decide_eq_true_eq]

theorem reference_wrote_nil (s : RefStream) : reference.Wrote s [] s :=
  reference_wrote_iff.mpr ⟨rfl, rfl, (List.append_nil _).symm, fun _ _ => le_max_right _ _⟩

theorem reference_wrote_append {s t u : RefStream} {a b : List UInt8}
    (h : reference.Wrote s a t) (h' : reference.Wrote t b u) : reference.Wrote s (a ++ b) u := by
  obtain ⟨hbase, hroom, hout, hbound⟩ := reference_wrote_iff.mp h
  obtain ⟨hbase', hroom', hout', hbound'⟩ := reference_wrote_iff.mp h'
  refine reference_wrote_iff.mpr ⟨hbase'.trans hbase, hroom'.trans hroom, ?_, ?_⟩
  · rw [hout', hout, List.append_assoc]
  · intro room hr
    have ht := hbound room hr
    have hu := hbound' room (hroom.trans hr)
    omega

theorem reference_fits_of_le {s : RefStream} {n k : ℕ} (hk : k ≤ n) (h : reference.Fits s n) :
    reference.Fits s k := by
  refine reference_fits_iff.mpr fun room hr => ?_
  have hn := reference_fits_iff.mp h room hr
  omega

theorem reference_fits_of_wrote {s t : RefStream} {bs : List UInt8} {n : ℕ}
    (hw : reference.Wrote s bs t) (h : reference.Fits s (bs.length + n)) : reference.Fits t n := by
  obtain ⟨-, hroom, hout, -⟩ := hw
  refine reference_fits_iff.mpr fun room hr => ?_
  have hn := reference_fits_iff.mp h room (hroom.symm.trans hr)
  rw [hout, List.length_append]
  omega

/-- A write to a stream of the reference. -/
theorem reference_write (bs : List UInt8) : reference.Emits (RefStream.write · bs) bs where
  wrote s s' h := by
    simp only [RefStream.write] at h
    split at h
    · next hroom =>
        cases h
        refine reference_wrote_iff.mpr ⟨rfl, rfl, rfl, fun room hr => ?_⟩
        have hbound := reference_fits_iff.mp hroom room hr
        rw [List.length_append]
        exact le_max_of_le_left hbound
    · cases h
  succeeds s h := ⟨_, if_pos h⟩

/-- The callbacks of a message write one after the other. -/
theorem reference_run {msg : reference.Message} {outs : List (List UInt8)}
    (h : reference.EmitsAll msg outs) : reference.Emits (RefStream.run · msg) outs.flatten := by
  induction h with
  | nil =>
      constructor
      · intro s s' hs
        cases hs
        exact reference_wrote_nil s
      · exact fun s _ => ⟨s, rfl⟩
  | cons hf _ ih =>
      constructor
      · intro s u hs
        obtain ⟨t, ht, hu⟩ := Option.bind_eq_some_iff.mp hs
        exact reference_wrote_append (hf.wrote s t ht) (ih.wrote t u hu)
      · intro s hs
        rw [List.flatten_cons, List.length_append] at hs
        obtain ⟨t, ht⟩ := hf.succeeds s (reference_fits_of_le (Nat.le_add_right _ _) hs)
        obtain ⟨u, hu⟩ := ih.succeeds t (reference_fits_of_wrote (hf.wrote s t ht) hs)
        exact ⟨u, Option.bind_eq_some_iff.mpr ⟨t, ht, hu⟩⟩

/-- A submessage of the reference: the sizing stream gives its length. -/
theorem reference_submessage {msg : reference.Message} {outs : List (List UInt8)}
    (h : reference.EmitsAll msg outs) : reference.Emits (reference.pbEncodeSubmessage · msg)
      (Proto.varint outs.flatten.length ++ outs.flatten) := by
  have hsized : ∀ s sizing : RefStream, RefStream.run ⟨s.base, none, []⟩ msg = some sizing →
      sizing.out = outs.flatten := by
    intro s sizing hsizing
    have := ((reference_run h).wrote _ _ hsizing).2.2.1
    rwa [List.nil_append] at this
  constructor
  · intro s u hs
    obtain ⟨sizing, hsizing, hs⟩ := Option.bind_eq_some_iff.mp hs
    obtain ⟨t, ht, hu⟩ := Option.bind_eq_some_iff.mp hs
    rw [hsized s sizing hsizing] at ht
    exact reference_wrote_append ((reference_write _).wrote s t ht)
      ((reference_run h).wrote t u hu)
  · intro s hs
    rw [List.length_append] at hs
    obtain ⟨sizing, hsizing⟩ := (reference_run h).succeeds ⟨s.base, none, []⟩ rfl
    obtain ⟨t, ht⟩ := (reference_write (Proto.varint outs.flatten.length)).succeeds s
      (reference_fits_of_le (Nat.le_add_right _ _) hs)
    obtain ⟨u, hu⟩ := (reference_run h).succeeds t
      (reference_fits_of_wrote ((reference_write _).wrote s t ht) hs)
    refine ⟨u, Option.bind_eq_some_iff.mpr ⟨sizing, hsizing, ?_⟩⟩
    refine Option.bind_eq_some_iff.mpr ⟨t, ?_, hu⟩
    rw [hsized s sizing hsizing]
    exact ht

/-- **The reference writes the standard encoding.** -/
theorem reference_standard : reference.Standard where
  wrote_nil := reference_wrote_nil
  wrote_append := reference_wrote_append
  fits_of_le := reference_fits_of_le
  fits_of_wrote := reference_fits_of_wrote
  fits_buffer h := by
    simp only [reference, List.length_nil, Option.all_some, decide_eq_true_eq]
    omega
  write := reference_write
  tag field := reference_write (Proto.tag field.tag)
  varint n := reference_write (Proto.varint n.toNat)
  string bs := reference_write (Proto.varint bs.length ++ bs)
  submessage := reference_submessage
  encode := reference_run
  buffer := by
    rintro m size bs s ⟨hbase, hroom, hout, hall⟩
    have hout' : s.out = bs := by simpa [reference] using hout
    refine ⟨?_, ?_, ?_⟩
    · show s.base.store 0 s.out = m.store 0 bs
      rw [hbase, hout']
      rfl
    · show s.out.length = bs.length
      rw [hout']
    · simpa [reference, hout'] using hall

end Nanopb

end AnylWallet.Sawtooth
