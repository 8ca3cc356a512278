import AnylWallet.Helpers.HextobinAccepts

/-!
# How long `hextobin` runs

The index of its loop is a `uint8_t`, which goes from 254 to 0.

* `hextobinAt_endless`: on 256 hex digits and a buffer of 128 bytes or more no number of rounds of the
  loop is enough.
* `exists_hextobinAt`: on any other string the loop ends.
-/

namespace AnylWallet.Helpers

open AnylWallet.Lib

/-- The digits behind an optional `0x` are even in number, and at least 256, all of them hex digits as
far as the index goes. -/
def IsLongHex (s : List UInt8) : Prop :=
  s.length % 2 = 0 ∧ 256 ≤ (strip0x s).length ∧ ∀ c ∈ (strip0x s).take 256, IsHexDigit c

/-- **The index comes round to 0 again**, however many rounds there are. -/
theorem hextobinLoop_endless {str : List UInt8} {blen : ℕ} (hblen : 128 ≤ blen)
    (hlen : 256 ≤ str.length) (hhex : ∀ c ∈ str.take 256, IsHexDigit c) (fuel : ℕ) {pos : UInt8}
    (heven : pos.toNat % 2 = 0) (bytes : List UInt8) :
    hextobinLoop str blen fuel pos bytes = .error .endless := by
  have hdigit : ∀ i, i < 256 → IsHexDigit (str.getD i 0) := by
    intro i hi
    apply hhex
    rw [List.getD_eq_getElem _ _ (by omega)]
    exact List.mem_take_iff_getElem.mpr ⟨i, by omega, rfl⟩
  induction fuel generalizing pos bytes with
  | zero => rfl
  | succ fuel ih =>
      have hpos := pos.toNat_lt
      have hnext := toNat_add_two pos
      rw [hextobinLoop_pair (by omega) (hdigit pos.toNat (by omega))
        (hdigit (pos.toNat + 1) (by omega))]
      exact ih (by omega) _

/-- `hextobin` on a long string of hex digits and a buffer that holds 256 of them. -/
theorem hextobinAt_endless {s bytes : List UInt8} (h : IsLongHex s) (hblen : 128 ≤ bytes.length)
    (asserts : Bool) (hcheck : asserts = true → (strip0x s).length ≤ bytes.length * 2)
    (fuel : ℕ) : hextobinAt fuel asserts s bytes = .error .endless := by
  obtain ⟨heven, hlen, hhex⟩ := h
  have hstrip := length_strip0x s
  rw [hextobinAt_even (by omega) heven hcheck]
  exact hextobinLoop_endless hblen hlen hhex fuel rfl _

/-- **On any other string `hextobin` ends**, if the buffer has room for 256 digits or for all there
are. -/
theorem exists_hextobinAt {s bytes : List UInt8} (h : ¬ IsLongHex s) (asserts : Bool)
    (hcheck : asserts = true → s.length % 2 = 0 → (strip0x s).length ≤ bytes.length * 2)
    (hroom : 128 ≤ bytes.length ∨ (strip0x s).length ≤ bytes.length * 2) :
    ∃ r, hextobinAt 129 asserts s bytes = .ok r := by
  by_cases hfirst : s.length = 0 ∨ s.length % 2 ≠ 0
  · obtain ⟨ret, hret, -⟩ := hextobin_untouched asserts hfirst bytes
    exact ⟨_, hret⟩
  obtain ⟨h0, hodd⟩ := not_or.mp hfirst
  have heven := not_not.mp hodd
  have hstrip := length_strip0x s
  have hrun := @hextobin_even asserts s bytes h0 heven fun hasserts => hcheck hasserts heven
  rcases Nat.lt_or_ge (strip0x s).length 256 with hshort | hlong
  · obtain ⟨r, hr⟩ := @hextobinLoop_ok (strip0x s) (by omega) bytes.length 128 0
      (List.replicate bytes.length 0) (by omega)
    exact ⟨r, hrun.trans hr⟩
  · have hbad : ∃ c ∈ (strip0x s).take 256, ¬ IsHexDigit c := by
      by_contra hnone
      exact h ⟨heven, hlong, fun c hc => not_not.mp fun hno => hnone ⟨c, hc, hno⟩⟩
    obtain ⟨c, hc, hneg⟩ := hbad
    obtain ⟨i, hi, hget⟩ := List.mem_take_iff_getElem.mp hc
    have hd : (strip0x s).getD i 0 = c := by
      rw [List.getD_eq_getElem _ _ (by omega), hget]
    obtain ⟨after, hafter⟩ := @hextobinLoop_bad (strip0x s) bytes.length 129 i 0
      (List.replicate bytes.length 0) (Nat.zero_le _) (by omega) (by omega) (by omega)
      (by rwa [hd]) (by rw [UInt8.toNat_zero]; omega)
    exact ⟨_, hrun.trans hafter⟩

end AnylWallet.Helpers
