import AnylWallet.Lib.SolidityAbi
import AnylWallet.Zephyr.Erc20Shell

/-!
# Which amounts `erc20 transfer` signs

* `shellGetUint64_ok_iff`: the strings that are read as an amount. They may be empty, or have white
  space or a sign, and denote less than `2 ^ 64`, as a `long` has 64 bits here.
* `image_amountOf`: the 32 bytes handed to `Token_transfer` are the word of the amount times the
  power of ten, where the power has 64 bits.
* `exact_iff`: so a transfer is the one asked for, or refused, unless the string is no plain numeral
  and is read all the same, or the power wraps around.
-/

namespace AnylWallet.Zephyr

open AnylWallet.Lib AnylWallet.Helpers AnylWallet.Eth
open AnylWallet.Lib.SolidityAbi (wordOf wordOf_ofBE)

/-- `Token_transfer` stores the 32 bytes it is given as the second argument word. -/
def Device.StoresAmount (dev : Device) : Prop :=
  ∀ addr amount data, dev.tokenTransfer addr amount = some data →
    (data.drop 36).take 32 = amount.image

/-- The second argument word of the calldata. -/
def amountWord (tx : Transaction) : List UInt8 := (tx.calldata.drop 36).take 32

/-- With a token of these decimals, whatever is signed for this amount moves the number that the
string denotes, in the units of the token, and this number fits. -/
def Exact (decimals : UInt8) (s : List UInt8) : Prop :=
  ∀ (dev : Device) (call : Call) (st : State) (argv : List (List UInt8)) (o : Outcome)
    (tkn : TokenNfo), dev.StoresAmount →
      (getTokenByIndex st.tokens (argv.getD 1 [])).2 = some tkn → tkn.decimals = decimals →
      argv[3]? = some s → erc20Transfer dev call st argv = .ok o →
        ∀ tx ∈ o.signed, ∃ n, n < 2 ^ 64 ∧ IsNumeral s n ∧ n * 10 ^ decimals.toNat < 2 ^ 256 ∧
          amountWord tx = wordOf (n * 10 ^ decimals.toNat)

/-! ## The amount that is read -/

/-- **What is read as an amount**: nothing at all, or an integer whose digits denote less than
`2 ^ 64`. -/
theorem shellGetUint64_ok_iff {s : List UInt8} :
    (shellGetUint64 s).2.2 = 0 ↔
      s = [] ∨ ∃ sign digits, IsInteger s sign digits ∧ numberOf 10 digits < 2 ^ 64 := by
  rw [← strtoul_whole_iff]
  unfold shellGetUint64 errnoAfter
  dsimp only
  cases (strtoul 10 s).erange with
  | false => by_cases hsize : (strtoul 10 s).size = s.length <;> simp [hsize]
  | true => simp [erange]

/-- The number of a numeral. -/
theorem toNat_shellGetUint64 {s : List UInt8} {n : ℕ} (h : IsNumeral s n) (hlt : n < 2 ^ 64) :
    (shellGetUint64 s).2.1.toNat = n := by
  obtain ⟨-, -, rfl⟩ := id h
  have hvalue : (shellGetUint64 s).2.1 = (strtoul 10 s).value := by
    unfold shellGetUint64
    dsimp only
    split
    · rfl
    · rfl
  rw [hvalue]
  exact (strtoul_isInteger h.isInteger).2 (by decide) hlt

/-! ## The amount that is signed -/

/-- **The bytes of an amount**, in the memory that `Token_transfer` is given. -/
theorem image_amountOf (txValue : UInt64) (decimals : UInt8) :
    (amountOf txValue decimals).image = wordOf (txValue.toNat * (10 ^ decimals.toNat % 2 ^ 64)) := by
  have hlen : ∀ x : Uint256, (writeu256BE x).length = 32 := fun x => by
    rw [writeu256BE_eq, Uint256.length_beImage]
  rw [amountOf, Uint256.image_ofImage (hlen _), writeu256BE_eq,
    ← wordOf_ofBE (Uint256.length_beImage _), Uint256.ofBE_beImage, toNat_mul256_set256Uint64,
    toNat_ipow]
  rfl

variable {dev : Device} {call : Call} {st : State} {argv : List (List UInt8)} {o : Outcome}
  {tkn : TokenNfo} {s : List UInt8} {decimals : UInt8}

/-- What is signed, the amount being read. -/
theorem amountWord_of_signed (hdev : dev.StoresAmount)
    (htoken : (getTokenByIndex st.tokens (argv.getD 1 [])).2 = some tkn) (hs : argv[3]? = some s)
    (h : erc20Transfer dev call st argv = .ok o) {tx : Transaction} (htx : tx ∈ o.signed) :
    (shellGetUint64 s).2.2 = 0 ∧
      amountWord tx =
        wordOf ((shellGetUint64 s).2.1.toNat * (10 ^ tkn.decimals.toNat % 2 ^ 64)) := by
  have hget : argv.getD 3 [] = s := by rw [List.getD_eq_getElem?_getD, hs, Option.getD_some]
  rcases erc20Transfer_cases h with
    hquiet | ⟨tkn', htoken', -, hamount, addressTo, amount, -, rfl, hend⟩
  · rw [hquiet.signed_eq] at htx
    cases htx
  · obtain rfl : tkn = tkn' := Option.some.inj (htoken.symm.trans htoken')
    rw [hget] at hamount hend
    rcases hend with ⟨-, rfl⟩ | ⟨data, hdata, rfl⟩
    · cases htx
    · rw [finishTransfer_signed _ _ _ _ _ rfl, List.mem_singleton] at htx
      refine ⟨hamount, ?_⟩
      rw [htx, ← image_amountOf]
      exact hdev _ _ _ hdata

/-- What is not read is refused. -/
theorem exact_of_refused (h0 : s ≠ [])
    (h : ∀ sign digits, IsInteger s sign digits → 2 ^ 64 ≤ numberOf 10 digits) :
    Exact decimals s := by
  intro dev call st argv o tkn hdev htoken _ hs hrun tx htx
  obtain ⟨hok, -⟩ := amountWord_of_signed hdev htoken hs hrun htx
  rcases shellGetUint64_ok_iff.mp hok with rfl | ⟨sign, digits, hint, hlt⟩
  · exact absurd rfl h0
  · exact absurd (h sign digits hint) (Nat.not_le_of_lt hlt)

/-- A numeral is the amount that is signed, if the power of ten fits in a word. -/
theorem exact_of_isNumeral {n : ℕ} (hlt : n < 2 ^ 64) (hs : IsNumeral s n)
    (h : decimals.toNat ≤ 19 ∨ n = 0) : Exact decimals s := by
  have hproduct : n * (10 ^ decimals.toNat % 2 ^ 64) = n * 10 ^ decimals.toNat := by
    rcases h with hle | rfl
    · rw [ten_pow_mod_of_le hle]
    · rw [Nat.zero_mul, Nat.zero_mul]
  have hmod : 10 ^ decimals.toNat % 2 ^ 64 < 2 ^ 64 := Nat.mod_lt _ (by norm_num)
  intro dev call st argv o tkn hdev htoken hdecimals harg hrun tx htx
  obtain ⟨-, hword⟩ := amountWord_of_signed hdev htoken harg hrun htx
  rw [toNat_shellGetUint64 hs hlt, hdecimals, hproduct] at hword
  refine ⟨n, hlt, hs, ?_, hword⟩
  have hbound := Nat.mul_lt_mul'' hlt hmod
  rw [hproduct] at hbound
  exact hbound.trans (by norm_num)

/-- The sample device stores the amount as its documentation says. -/
theorem sampleDevice_storesAmount (asserts : Bool) : (sampleDevice asserts).StoresAmount := by
  rintro addr amount data h
  obtain rfl := Option.some.inj h
  have hlen : 36 =
      ([0xa9, 0x05, 0x9c, 0xbb] ++ List.replicate 12 0 ++ addr.a.toList : List UInt8).length := by
    simp
  rw [hlen, List.drop_left, List.take_of_length_le (Uint256.length_image amount).le]

/-- Anything else is signed on some device as another amount. -/
theorem not_exact (hread : (shellGetUint64 s).2.2 = 0)
    (h : ∀ n, n < 2 ^ 64 → IsNumeral s n → 19 < decimals.toNat ∧ n ≠ 0) : ¬ Exact decimals s := by
  intro hexact
  have haddr := accepts_zeroAddress false
  have hdev := sampleDevice_storesAmount false
  have hrun := @erc20Transfer_ok (sampleDevice false) sampleCall (sampleState decimals zeroAddress)
    [[], ascii "0", hexText zeroAddress.a.toList, s]
    ⟨zeroAddress, decimals, Vector.replicate 4 0, 1⟩ _ rfl rfl haddr hread rfl
  generalize hend : finishTransfer (sampleDevice false) sampleCall _ _ _ = o at hrun
  obtain ⟨tx, htx⟩ : ∃ tx, tx ∈ o.signed := by
    rw [← hend, finishTransfer_signed _ _ _ _ _ rfl]
    exact ⟨_, List.mem_singleton_self _⟩
  obtain ⟨n, hlt, hnumeral, hfit, hword⟩ := hexact _ _ _ _ _ _ hdev rfl rfl rfl hrun tx htx
  obtain ⟨hlarge, hne⟩ := h n hlt hnumeral
  obtain ⟨-, hword'⟩ := amountWord_of_signed hdev rfl rfl hrun htx
  rw [hword, toNat_shellGetUint64 hnumeral hlt] at hword'
  have hmod : 10 ^ decimals.toNat % 2 ^ 64 < 2 ^ 64 := Nat.mod_lt _ (by norm_num)
  have hbound := Nat.mul_lt_mul'' hlt hmod
  have hsame := SolidityAbi.wordOf_injective (hfit.trans_eq (by norm_num))
    (hbound.trans (by norm_num)) hword'
  have hpow : 10 ^ decimals.toNat = 10 ^ decimals.toNat % 2 ^ 64 :=
    Nat.eq_of_mul_eq_mul_left (Nat.pos_of_ne_zero hne) hsame
  have hge : 10 ^ 20 ≤ 10 ^ decimals.toNat := Nat.pow_le_pow_right (by norm_num) hlarge
  omega

/-- **When the amount that is signed is the one asked for**: exactly for the strings that are not
read as an integer of 64 bits, and for the numerals, if the power of ten has 64 bits or nothing is
sent. -/
theorem exact_iff (decimals : UInt8) (s : List UInt8) :
    Exact decimals s ↔
      (s ≠ [] ∧ ∀ sign digits, IsInteger s sign digits → 2 ^ 64 ≤ numberOf 10 digits) ∨
        ∃ n, n < 2 ^ 64 ∧ IsNumeral s n ∧ (decimals.toNat ≤ 19 ∨ n = 0) := by
  constructor
  · intro hexact
    by_contra hnot
    obtain ⟨hread, hnumeral⟩ := not_or.mp hnot
    refine not_exact (shellGetUint64_ok_iff.mpr ?_) (fun n hlt hn => ?_) hexact
    · by_cases h0 : s = []
      · exact Or.inl h0
      · refine Or.inr (by_contra fun hnone => hread ⟨h0, fun sign digits hint => ?_⟩)
        exact Nat.le_of_not_lt fun hlt => hnone ⟨sign, digits, hint, hlt⟩
    · refine ⟨Nat.lt_of_not_le fun hle => ?_, fun h0 => ?_⟩
      · exact hnumeral ⟨n, hlt, hn, Or.inl hle⟩
      · exact hnumeral ⟨n, hlt, hn, Or.inr h0⟩
  · rintro (⟨h0, h⟩ | ⟨n, hlt, hn, h⟩)
    · exact exact_of_refused h0 h
    · exact exact_of_isNumeral hlt hn h

/-- `-1` moves `2 ^ 64 - 1` tokens. -/
theorem not_exact_minus_one : ¬ Exact 18 (ascii "-1") := by
  refine not_exact (by decide) fun n _ hn => ?_
  exact absurd (hn.2.1 '-'.toUInt8 (by decide)) (by decide)

end AnylWallet.Zephyr
