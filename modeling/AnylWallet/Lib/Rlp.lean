import AnylWallet.Lib.Radix

/-!
# Recursive length prefix (RLP): the canonical encoding and its decoder

* `Item` is an RLP value: a byte string or a list of values. `encode` is the canonical encoding of
  the Ethereum specification: a byte below `0x80` is itself; any other string and every list is a
  length prefix (`lenPrefix`) and the payload. A number is the string of its minimal big-endian
  bytes (`num`).
* `decode` is a strict decoder: it refuses every encoding that is not canonical (a single byte
  below `0x80` behind a prefix, a long length that would fit the short form or has a leading zero).
* **Round trip** (`decode_encode`): on the encoding of any item that `Fits`, followed by anything,
  the decoder gives back the item and leaves what follows. Hence encodings are prefix free
  (`encode_append_inj`), which is what tells apart a wrong encoding inside a longer buffer.
-/

namespace AnylWallet.Lib.Rlp

/-- An RLP value. -/
inductive Item where
  /-- A byte string. -/
  | str (bs : List UInt8)
  /-- A list of values. -/
  | list (xs : List Item)

/-! ## Encoding -/

/-- The prefix of a payload of `n` bytes; `base` is `0x80` for a string and `0xc0` for a list. -/
def lenPrefix (base : UInt8) (n : ℕ) : List UInt8 :=
  if n ≤ 55 then [base + UInt8.ofNat n]
  else (base + 55 + UInt8.ofNat (beBytes n).length) :: beBytes n

/-- A string that is its own encoding: one byte below `0x80`. -/
def IsSingle (bs : List UInt8) : Prop := ∃ b, bs = [b] ∧ b < 0x80

instance (bs : List UInt8) : Decidable (IsSingle bs) :=
  match bs with
  | [] => isFalse (by simp [IsSingle])
  | [b] => decidable_of_iff (b < 0x80) (by simp [IsSingle])
  | _ :: _ :: _ => isFalse (by simp [IsSingle])

/-- The canonical encoding of a byte string. -/
def encodeStr (bs : List UInt8) : List UInt8 :=
  if IsSingle bs then bs else lenPrefix 0x80 bs.length ++ bs

mutual

/-- The canonical encoding of an item. -/
def encode : Item → List UInt8
  | .str bs => encodeStr bs
  | .list xs => lenPrefix 0xc0 (encodeAll xs).length ++ encodeAll xs

/-- The payload of a list: the encodings of its items one after the other. -/
def encodeAll : List Item → List UInt8
  | [] => []
  | x :: xs => encode x ++ encodeAll xs

end

/-- The number `n` as an RLP value. -/
def num (n : ℕ) : Item := .str (beBytes n)

/-! ## Decoding -/

/-- The first `n` bytes and the rest. -/
def split (n : ℕ) (bs : List UInt8) : Option (List UInt8 × List UInt8) :=
  if n ≤ bs.length then some (bs.take n, bs.drop n) else none

/-- The payload length that a prefix byte `d` above its base announces, and what follows it. -/
def payloadLen (d : ℕ) (rest : List UInt8) : Option (ℕ × List UInt8) :=
  if d ≤ 55 then some (d, rest)
  else do
    let (len, rest) ← split (d - 55) rest
    if len.head? = some 0 ∨ ofBE len ≤ 55 then none else some (ofBE len, rest)

mutual

/-- Decode one item; `fuel` bounds the number of nested calls. -/
def decode : ℕ → List UInt8 → Option (Item × List UInt8)
  | 0, _ => none
  | _ + 1, [] => none
  | fuel + 1, b :: rest =>
      if b < 0x80 then some (.str [b], rest)
      else if b < 0xc0 then do
        let (n, rest) ← payloadLen (b.toNat - 0x80) rest
        let (s, t) ← split n rest
        if IsSingle s then none else some (.str s, t)
      else do
        let (n, rest) ← payloadLen (b.toNat - 0xc0) rest
        let (s, t) ← split n rest
        let xs ← decodeAll fuel s
        some (.list xs, t)

/-- Decode a payload to its last byte. -/
def decodeAll : ℕ → List UInt8 → Option (List Item)
  | 0, _ => none
  | _ + 1, [] => some []
  | fuel + 1, bs => do
      let (x, t) ← decode fuel bs
      let xs ← decodeAll fuel t
      some (x :: xs)

end

/-- Decode one item with fuel enough for every item of that length. -/
def decodeBytes (bs : List UInt8) : Option (Item × List UInt8) := decode (2 * bs.length) bs

/-! ## Round trip -/

mutual

/-- Every length in the item has at most eight bytes. -/
def Fits : Item → Prop
  | .str bs => bs.length < 256 ^ 8
  | .list xs => (encodeAll xs).length < 256 ^ 8 ∧ FitsAll xs

/-- Every item of the list fits. -/
def FitsAll : List Item → Prop
  | [] => True
  | x :: xs => Fits x ∧ FitsAll xs

end

@[simp] theorem split_append (a b : List UInt8) : split a.length (a ++ b) = some (a, b) := by
  simp [split]

/-- The prefix of a payload is never empty. -/
theorem lenPrefix_ne_nil (base : UInt8) (n : ℕ) : lenPrefix base n ≠ [] := by
  unfold lenPrefix
  split <;> simp

/-- No encoding is empty. -/
theorem encode_ne_nil (x : Item) : encode x ≠ [] := by
  cases x with
  | str bs =>
      simp only [encode, encodeStr]
      split
      · rename_i h
        obtain ⟨b, rfl, -⟩ := h
        simp
      · simp [lenPrefix_ne_nil]
  | list xs => simp [encode, lenPrefix_ne_nil]

/-- The first byte of a prefix lies `d` above its base, and from `d` and the bytes after it the
length is read back. -/
theorem exists_payloadLen_lenPrefix (base : UInt8) {n : ℕ} (hn : n < 256 ^ 8)
    (t : List UInt8) :
    ∃ d rest, lenPrefix base n ++ t = (base + UInt8.ofNat d) :: rest ∧ d ≤ 63 ∧
      payloadLen d rest = some (n, t) := by
  by_cases h : n ≤ 55
  · refine ⟨n, t, by simp [lenPrefix, h], by omega, by simp [payloadLen, h]⟩
  · have hlen : (beBytes n).length ≤ 8 := length_beBytes_le_iff.mpr hn
    have hpos : 0 < (beBytes n).length :=
      List.length_pos_iff.mpr (mt beBytes_eq_nil_iff.mp (by omega))
    refine ⟨55 + (beBytes n).length, beBytes n ++ t, ?_, by omega, ?_⟩
    · simp [lenPrefix, h, UInt8.add_assoc]
    · have hd : 55 + (beBytes n).length - 55 = (beBytes n).length := by omega
      simp only [payloadLen, show ¬ 55 + (beBytes n).length ≤ 55 by omega, if_false, hd,
        split_append, Option.bind_eq_bind, Option.bind_some, ofBE_beBytes,
        head?_beBytes_ne_zero n, h, false_or]

/-- A byte `d ≤ 63` above its base. -/
theorem toNat_base_add (base : UInt8) {d : ℕ} (hbase : base.toNat ≤ 0xc0) (hd : d ≤ 63) :
    (base + UInt8.ofNat d).toNat = base.toNat + d := by
  simp only [UInt8.toNat_add, UInt8.toNat_ofNat']
  omega

/-- A string is decoded from its encoding. -/
theorem decode_encodeStr {fuel : ℕ} {bs : List UInt8} (hf : 0 < fuel) (hfit : bs.length < 256 ^ 8)
    (t : List UInt8) : decode fuel (encodeStr bs ++ t) = some (.str bs, t) := by
  obtain ⟨fuel, rfl⟩ := Nat.exists_eq_succ_of_ne_zero (Nat.pos_iff_ne_zero.mp hf)
  by_cases hs : IsSingle bs
  · rw [encodeStr, if_pos hs]
    obtain ⟨b, rfl, hb⟩ := hs
    simp [decode, hb]
  · obtain ⟨d, rest, hp, hd, hlen⟩ :=
      exists_payloadLen_lenPrefix 0x80 hfit (bs ++ t)
    have hnat := toNat_base_add 0x80 (by decide) hd
    have hb : ¬ (0x80 + UInt8.ofNat d : UInt8) < 0x80 := by
      rw [UInt8.lt_iff_toNat_lt, hnat]
      simp
    have hb' : (0x80 + UInt8.ofNat d : UInt8) < 0xc0 := by
      rw [UInt8.lt_iff_toNat_lt, hnat]
      simp
      omega
    have hsub : (0x80 + UInt8.ofNat d : UInt8).toNat - 0x80 = d := by
      rw [hnat]
      simp
    rw [encodeStr, if_neg hs, List.append_assoc, hp, decode, if_neg hb, if_pos hb', hsub, hlen]
    simp [hs]

mutual

/-- **Round trip**: an item is decoded from its encoding, and what follows is left. -/
theorem decode_encode : (x : Item) → ∀ fuel : ℕ, 2 * (encode x).length ≤ fuel → Fits x →
    ∀ t, decode fuel (encode x ++ t) = some (x, t)
  | .str bs, fuel, hf, hfit, t => by
      have : 0 < (encode (.str bs)).length := List.length_pos_iff.mpr (encode_ne_nil _)
      rw [encode]
      exact decode_encodeStr (by omega) (by simpa [Fits] using hfit) t
  | .list xs, fuel, hf, hfit, t => by
      rw [Fits] at hfit
      obtain ⟨d, rest, hp, hd, hlen⟩ :=
        exists_payloadLen_lenPrefix 0xc0 hfit.1 (encodeAll xs ++ t)
      have hnat := toNat_base_add 0xc0 (by decide) hd
      have hb : ¬ (0xc0 + UInt8.ofNat d : UInt8) < 0x80 := by
        rw [UInt8.lt_iff_toNat_lt, hnat]
        simp
        omega
      have hb' : ¬ (0xc0 + UInt8.ofNat d : UInt8) < 0xc0 := by
        rw [UInt8.lt_iff_toNat_lt, hnat]
        simp
      have hsub : (0xc0 + UInt8.ofNat d : UInt8).toNat - 0xc0 = d := by
        rw [hnat]
        simp
      have hpre : 0 < (lenPrefix 0xc0 (encodeAll xs).length).length :=
        List.length_pos_iff.mpr (lenPrefix_ne_nil _ _)
      rw [encode, List.length_append] at hf
      obtain ⟨fuel, rfl⟩ : ∃ f, fuel = f + 1 := ⟨fuel - 1, by omega⟩
      rw [encode, List.append_assoc, hp, decode, if_neg hb, if_neg hb', hsub, hlen]
      simp [decodeAll_encodeAll xs fuel (by omega) hfit.2]

/-- A list of items is decoded from the concatenation of their encodings. -/
theorem decodeAll_encodeAll : (xs : List Item) → ∀ fuel : ℕ,
    2 * (encodeAll xs).length + 1 ≤ fuel → FitsAll xs → decodeAll fuel (encodeAll xs) = some xs
  | [], fuel, hf, _ => by
      obtain ⟨fuel, rfl⟩ : ∃ f, fuel = f + 1 := ⟨fuel - 1, by omega⟩
      simp [encodeAll, decodeAll]
  | x :: xs, fuel, hf, hfit => by
      rw [FitsAll] at hfit
      have hx : 0 < (encode x).length := List.length_pos_iff.mpr (encode_ne_nil x)
      rw [encodeAll, List.length_append] at hf
      obtain ⟨fuel, rfl⟩ : ∃ f, fuel = f + 1 := ⟨fuel - 1, by omega⟩
      have hne : encode x ++ encodeAll xs ≠ [] := by simp [encode_ne_nil]
      rw [encodeAll, decodeAll, decode_encode x _ (by omega) hfit.1 _]
      · simp [decodeAll_encodeAll xs fuel (by omega) hfit.2]
      · exact hne

end

/-- The decoder consumes the encoding of an item to its last byte. -/
theorem decodeBytes_encode {x : Item} (h : Fits x) : decodeBytes (encode x) = some (x, []) := by
  have := decode_encode x _ le_rfl h []
  rwa [List.append_nil] at this

/-- **Encodings are prefix free**: two buffers that start with an encoding and agree start with
the same item. -/
theorem encode_append_inj {x y : Item} {s t : List UInt8} (hx : Fits x) (hy : Fits y)
    (h : encode x ++ s = encode y ++ t) : x = y ∧ s = t := by
  have hfx := decode_encode x (2 * (encode x).length + 2 * (encode y).length) (by omega) hx s
  have hfy := decode_encode y (2 * (encode x).length + 2 * (encode y).length) (by omega) hy t
  rw [h, hfy] at hfx
  simp only [Option.some.injEq, Prod.mk.injEq] at hfx
  exact ⟨hfx.1.symm, hfx.2.symm⟩

/-! ## Lists of strings -/

/-- The payload of a list of strings. -/
theorem encodeAll_map_str (ss : List (List UInt8)) :
    encodeAll (ss.map Item.str) = ss.flatMap encodeStr := by
  induction ss with
  | nil => rfl
  | cons s ss ih => simp [encodeAll, encode, ih]

/-- A list of strings fits when its strings and its payload do. -/
theorem fits_list_map_str {ss : List (List UInt8)} (h : ∀ s ∈ ss, s.length < 256 ^ 8)
    (hp : (ss.flatMap encodeStr).length < 256 ^ 8) : Fits (.list (ss.map Item.str)) := by
  rw [Fits, encodeAll_map_str]
  refine ⟨hp, ?_⟩
  clear hp
  induction ss with
  | nil => simp [FitsAll]
  | cons s ss ih =>
      rw [List.map_cons, FitsAll, Fits]
      exact ⟨h s List.mem_cons_self, ih fun s hs => h s (List.mem_cons_of_mem _ hs)⟩

/-- A string is no longer than the payload that it is part of. -/
theorem length_le_payload {ss : List (List UInt8)} {s : List UInt8} (hs : s ∈ ss) :
    s.length ≤ (ss.flatMap encodeStr).length := by
  have hself : ∀ bs : List UInt8, bs.length ≤ (encodeStr bs).length := by
    intro bs
    unfold encodeStr
    split
    · exact le_rfl
    · rw [List.length_append]
      exact Nat.le_add_left _ _
  induction ss with
  | nil => cases hs
  | cons t ss ih =>
      rw [List.flatMap_cons, List.length_append]
      rcases List.mem_cons.mp hs with rfl | hs
      · exact (hself _).trans (Nat.le_add_right _ _)
      · exact (ih hs).trans (Nat.le_add_left _ _)

/-- So a list of strings fits when its payload does. -/
theorem fits_of_payload {ss : List (List UInt8)} (hp : (ss.flatMap encodeStr).length < 256 ^ 8) :
    Fits (.list (ss.map Item.str)) :=
  fits_list_map_str (fun _ hs => lt_of_le_of_lt (length_le_payload hs) hp) hp

/-- Two buffers that hold the encoding of one item each and agree hold the same item. -/
theorem encode_inj {x y : Item} (hx : Fits x) (hy : Fits y) (h : encode x = encode y) : x = y :=
  (encode_append_inj hx hy (congrArg (· ++ []) h)).1

end AnylWallet.Lib.Rlp
