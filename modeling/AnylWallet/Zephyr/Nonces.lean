import AnylWallet.Zephyr.Shell

/-!
# The nonces of a run

* Three commands read the nonce of the account and sign with it: `wallet transfer`, `erc20 transfer`
  and a round of the upload. `sends_cases`: only the last one advances it.
* `increasing_iff`: so in a run of them, where the node accepts every transaction, the nonces
  increase exactly if no transfer is followed by another signature, and the nonce does not wrap
  around.
-/

namespace AnylWallet.Zephyr

open AnylWallet.Lib AnylWallet.Helpers AnylWallet.Eth

/-- The transaction that an act signs. -/
def Act.signed? : Act → Option Transaction
  | .effect e => e.signed?
  | _ => none

/-- The transactions that a command signs. -/
def Ended.signed (o : Ended) : List Transaction := o.acts.filterMap Act.signed?

/-- The nonces of the transactions that are signed in a run. -/
def noncesIn (fw : Firmware) : State → List Step → List ℕ
  | _, [] => []
  | st, step :: steps =>
      match step.run fw st with
      | .error _ => []
      | .ok o => o.signed.map (fun tx => tx.nonce.toNat) ++ noncesIn fw o.state steps

/-- The step is `wallet transfer` or `erc20 transfer`. -/
def Step.IsTransfer : Step → Prop
  | .command c _ _ => c = .walletTransfer ∨ c = .erc20Transfer
  | _ => False

/-- The step is a transfer, or a round of the upload, and the node accepts what it sends. -/
def Step.Sends : Step → Prop
  | .command c call _ => (c = .walletTransfer ∨ c = .erc20Transfer) ∧ 0 ≤ call.reply.ret
  | .round call _ _ => 0 ≤ call.reply.ret
  | .elsewhere _ => False

/-- A transfer that is signed is the last signature of the run. -/
def TransferLast (fw : Firmware) : State → List Step → Prop
  | _, [] => True
  | st, step :: steps => ∀ o, step.run fw st = .ok o →
      (step.IsTransfer → o.signed ≠ [] → noncesIn fw o.state steps = []) ∧
        TransferLast fw o.state steps

/-! ## One step -/

variable {fw : Firmware} {st : State} {step : Step} {steps : List Step} {o : Ended}

/-- What a command signs, as a step has it. -/
theorem ended_signed (o : Outcome) : o.ended.signed = o.signed := by
  unfold Ended.signed Outcome.ended Outcome.signed
  rw [List.filterMap_map]
  rfl

/-- A transfer that is signed keeps the nonce of the account. -/
theorem finishTransfer_nonce {dev : Device} {call : Call} {tx : Transaction} {before : List Effect}
    {errno : ℤ} :
    (finishTransfer dev call { st with errno := errno } tx before).ended.state.account.nonce =
      st.account.nonce := by
  have hstate : (finishTransfer dev call { st with errno := errno } tx before).ended.state =
      (finishTransfer dev call { st with errno := errno } tx before).state := rfl
  rw [hstate, finishTransfer_state]

/-- It signs the one transaction. -/
theorem finishTransfer_signed_ended {dev : Device} {call : Call} {tx : Transaction}
    {before : List Effect} (h : before.filterMap Effect.signed? = []) :
    (finishTransfer dev call st tx before).ended.signed = [tx] :=
  (ended_signed _).trans (finishTransfer_signed dev call st tx before h)

/-- A quiet command keeps it, and signs nothing. -/
theorem Outcome.Quiet.nonce_eq {o : Outcome} (h : o.Quiet st) :
    o.ended.signed = [] ∧ o.ended.state.account.nonce = st.account.nonce := by
  have hstate : o.ended.state = o.state := rfl
  rw [hstate, h.state]
  exact ⟨(ended_signed o).trans h.signed_eq, rfl⟩

/-- **What a sending step does** to the nonce: it signs nothing and keeps it, or it signs with it.
Then a round of the upload advances it, and a transfer does not. -/
theorem sends_cases (hsends : step.Sends) (h : step.run fw st = .ok o) :
    (o.signed = [] ∧ o.state.account.nonce = st.account.nonce) ∨
      ∃ tx, o.signed = [tx] ∧ tx.nonce = st.account.nonce ∧
        ((step.IsTransfer ∧ o.state.account.nonce = st.account.nonce) ∨
          (¬ step.IsTransfer ∧ o.state.account.nonce = st.account.nonce + 1)) := by
  cases step with
  | command c call argv =>
      obtain ⟨hcommand, haccepted⟩ := hsends
      obtain rfl | rfl := id hcommand
      · obtain ⟨o, ho, rfl⟩ := exists_of_map_ended h
        rcases walletTransfer_cases ho with hquiet | ⟨-, txValue, rfl⟩
        · exact Or.inl hquiet.nonce_eq
        · exact Or.inr ⟨_, finishTransfer_signed_ended rfl, rfl,
            Or.inl ⟨hcommand, finishTransfer_nonce⟩⟩
      · obtain ⟨o, ho, rfl⟩ := exists_of_map_ended h
        rcases erc20Transfer_cases ho with
          hquiet | ⟨tkn, -, -, -, addressTo, amount, -, -, ⟨-, rfl⟩ | ⟨data, -, rfl⟩⟩
        · exact Or.inl hquiet.nonce_eq
        · exact Or.inl ⟨rfl, rfl⟩
        · exact Or.inr ⟨_, finishTransfer_signed_ended rfl, rfl,
            Or.inl ⟨hcommand, finishTransfer_nonce⟩⟩
  | round call uploadAddr sensor =>
      cases h
      rcases sensor with _ | ⟨temp, humidity⟩
      · exact Or.inl ⟨rfl, rfl⟩
      · have haccepted : ¬ call.reply.ret < 0 := Int.not_lt.mpr hsends
        have hround : uploadRound fw.toDevice call st uploadAddr (some (temp, humidity)) =
            ⟨{ st with account := st.account.setNonce (st.account.nonce + 1) }, 0,
              signAndSend fw.toDevice call st
                (dataTx st.account.nonce uploadAddr call.datablk temp humidity)⟩ := if_neg haccepted
        rw [hround]
        exact Or.inr ⟨_, ended_signed _, rfl, Or.inr ⟨id, rfl⟩⟩
  | elsewhere errno => exact hsends.elim

/-! ## Runs -/

/-- The nonces behind a step that signs nothing. -/
theorem noncesIn_of_quiet (h : step.run fw st = .ok o) (hquiet : o.signed = []) :
    noncesIn fw st (step :: steps) = noncesIn fw o.state steps := by
  rw [noncesIn, h]
  dsimp only
  rw [hquiet, List.map_nil, List.nil_append]

/-- The nonces behind a step that signs. -/
theorem noncesIn_of_signed {tx : Transaction} (h : step.run fw st = .ok o)
    (hsigned : o.signed = [tx]) :
    noncesIn fw st (step :: steps) = tx.nonce.toNat :: noncesIn fw o.state steps := by
  rw [noncesIn, h]
  dsimp only
  rw [hsigned]
  rfl

/-- **The first nonce** of a run is the one of the account. -/
theorem head?_noncesIn (hsends : ∀ step ∈ steps, step.Sends) {n : ℕ}
    (h : (noncesIn fw st steps).head? = some n) : n = st.account.nonce.toNat := by
  induction steps generalizing st with
  | nil => cases h
  | cons step steps ih =>
      cases hrun : step.run fw st with
      | error fault =>
          rw [noncesIn, hrun] at h
          cases h
      | ok o =>
          rcases sends_cases (hsends step List.mem_cons_self) hrun with
            ⟨hquiet, hnonce⟩ | ⟨tx, hsigned, hnonce, -⟩
          · rw [noncesIn_of_quiet hrun hquiet] at h
            rw [← hnonce]
            exact ih (fun step hstep => hsends step (List.mem_cons_of_mem _ hstep)) h
          · rw [noncesIn_of_signed hrun hsigned] at h
            rw [← hnonce]
            exact (Option.some.inj h).symm

/-- What increases behind a number, when the first one that follows is known. -/
theorem pairwise_cons_iff_head {n k : ℕ} {l : List ℕ} (hhead : ∀ {m}, l.head? = some m → m = k) :
    (n :: l).Pairwise (· < ·) ↔ (l = [] ∨ n < k) ∧ l.Pairwise (· < ·) := by
  rw [List.pairwise_cons]
  refine and_congr_left fun hpairwise => ?_
  cases l with
  | nil => exact iff_of_true (fun _ h => absurd h List.not_mem_nil) (Or.inl rfl)
  | cons m l =>
      obtain rfl : m = k := hhead rfl
      constructor
      · exact fun h => Or.inr (h _ List.mem_cons_self)
      · intro h j hj
        have hlt := h.resolve_left (List.cons_ne_nil _ _)
        rcases List.mem_cons.mp hj with rfl | hj
        · exact hlt
        · exact hlt.trans (List.rel_of_pairwise_cons hpairwise hj)

/-- **When the nonces increase**: no transfer is followed by another signature, and the nonce of the
account does not wrap around. A transfer signs with the nonce of the account and leaves it as it is;
a round of the upload counts it up. -/
theorem increasing_iff (fw : Firmware) (st : State) (steps : List Step)
    (hsends : ∀ step ∈ steps, step.Sends) :
    (noncesIn fw st steps).Pairwise (· < ·) ↔
      TransferLast fw st steps ∧
        st.account.nonce.toNat + (noncesIn fw st steps).length ≤ 2 ^ 32 := by
  induction steps generalizing st with
  | nil =>
      refine iff_of_true List.Pairwise.nil ⟨trivial, ?_⟩
      exact st.account.nonce.toNat_lt.le
  | cons step steps ih =>
      have hlt := st.account.nonce.toNat_lt
      have hrest : ∀ step ∈ steps, step.Sends :=
        fun step hstep => hsends step (List.mem_cons_of_mem _ hstep)
      cases hrun : step.run fw st with
      | error fault =>
          have hnil : noncesIn fw st (step :: steps) = [] := by rw [noncesIn, hrun]
          rw [hnil]
          refine iff_of_true List.Pairwise.nil ⟨fun o ho => ?_, hlt.le⟩
          cases hrun.symm.trans ho
      | ok o =>
          have hlast : TransferLast fw st (step :: steps) ↔
              (step.IsTransfer → o.signed ≠ [] → noncesIn fw o.state steps = []) ∧
                TransferLast fw o.state steps :=
            ⟨fun h => h o hrun, fun h o' ho' => Except.ok.inj (hrun.symm.trans ho') ▸ h⟩
          have hiff := ih o.state hrest
          have hhead : ∀ {n}, (noncesIn fw o.state steps).head? = some n →
              n = o.state.account.nonce.toNat := head?_noncesIn hrest
          rw [hlast]
          rcases sends_cases (hsends step List.mem_cons_self) hrun with
            ⟨hquiet, hnonce⟩ | ⟨tx, hsigned, htx, ⟨htransfer, hnonce⟩ | ⟨htransfer, hnonce⟩⟩
          · -- nothing is signed
            rw [noncesIn_of_quiet hrun hquiet, hiff, hnonce]
            exact and_congr_left fun _ => (and_iff_right fun _ hne => absurd hquiet hne).symm
          · -- a transfer: what follows starts with the same nonce
            have hne : o.signed ≠ [] := hsigned ▸ List.cons_ne_nil _ _
            rw [noncesIn_of_signed hrun hsigned, htx, pairwise_cons_iff_head hhead, hnonce]
            generalize noncesIn fw o.state steps = nonces at hiff
            constructor
            · rintro ⟨hnil | h, hpairwise⟩
              · subst hnil
                exact ⟨⟨fun _ _ => rfl, (hiff.mp hpairwise).1⟩, hlt⟩
              · exact absurd h (lt_irrefl _)
            · rintro ⟨⟨h, -⟩, -⟩
              obtain rfl := h htransfer hne
              exact ⟨Or.inl rfl, List.Pairwise.nil⟩
          · -- a round of the upload: what follows starts with the next one
            have hone : UInt32.toNat 1 = 1 := rfl
            rw [noncesIn_of_signed hrun hsigned, htx, pairwise_cons_iff_head hhead, hiff, hnonce,
              UInt32.toNat_add, hone, List.length_cons]
            generalize noncesIn fw o.state steps = nonces
            constructor
            · rintro ⟨hnext, h, hfits⟩
              refine ⟨⟨fun h => absurd h htransfer, h⟩, ?_⟩
              rcases hnext with rfl | hnext
              · exact hlt
              · omega
            · rintro ⟨⟨-, h⟩, hfits⟩
              cases nonces with
              | nil => exact ⟨Or.inl rfl, h, by simp; omega⟩
              | cons n nonces =>
                  rw [List.length_cons] at hfits ⊢
                  exact ⟨Or.inr (by omega), h, by omega⟩

/-- `wallet transfer` of 1 to an address of zeros. -/
def transferOne : Step :=
  .command .walletTransfer sampleCall [ascii "transfer", hexText zeroAddress.a.toList, ascii "1"]

/-- The node accepts it. -/
theorem sends_transferOne : ∀ step ∈ [transferOne, transferOne], step.Sends := by
  have hone : transferOne.Sends := ⟨Or.inl rfl, le_refl 0⟩
  intro step hstep
  rcases List.mem_cons.mp hstep with rfl | hstep
  · exact hone
  · rw [List.mem_singleton.mp hstep]
    exact hone

/-- Two transfers after the start. -/
theorem increasing_transferOne_iff :
    (noncesIn sampleFirmware (bootState sampleFirmware (Vector.replicate 32 1))
        [transferOne, transferOne]).Pairwise (· < ·) ↔
      TransferLast sampleFirmware (bootState sampleFirmware (Vector.replicate 32 1))
          [transferOne, transferOne] ∧
        (bootState sampleFirmware (Vector.replicate 32 1)).account.nonce.toNat +
          (noncesIn sampleFirmware (bootState sampleFirmware (Vector.replicate 32 1))
            [transferOne, transferOne]).length ≤ 2 ^ 32 :=
  increasing_iff _ _ _ sends_transferOne

/-- It signs with the nonce of the account, keeps it, and leaves `errno` zero. -/
theorem run_transferOne (st : State) (herrno : st.errno = 0) :
    ∃ o tx, transferOne.run sampleFirmware st = .ok o ∧ o.signed = [tx] ∧
      tx.nonce = st.account.nonce ∧ o.state.account.nonce = st.account.nonce ∧
      o.state.errno = 0 := by
  have haddr := accepts_zeroAddress false
  have hread : (strtoul 10 (ascii "1")).erange = false := by decide
  have hzero : errnoAfter (strtoul 10 (ascii "1")) st.errno = 0 := by
    rw [herrno]
    exact if_neg (hread.symm ▸ Bool.false_ne_true)
  have hrun := @walletTransfer_ok (sampleDevice false) sampleCall st
    [ascii "transfer", hexText zeroAddress.a.toList, ascii "1"] haddr (le_refl 3) hzero (by decide)
  have hstate := finishTransfer_state (sampleDevice false) sampleCall { st with errno := 0 }
    (transferTx st.account.nonce
      (addressOf (keptBytes 20 (hexText zeroAddress.a.toList))) (strtoul 10 (ascii "1")).value) []
  exact ⟨_, _, congrArg (Except.map Outcome.ended) hrun, finishTransfer_signed_ended rfl, rfl,
    finishTransfer_nonce, congrArg State.errno hstate⟩

/-- Counterexample: both transfers have the same nonce. -/
theorem not_increasing_transferOne :
    ¬ (noncesIn sampleFirmware (bootState sampleFirmware (Vector.replicate 32 1))
      [transferOne, transferOne]).Pairwise (· < ·) := by
  obtain ⟨o, tx, ho, hsigned, hnonce, hkept, herrno⟩ :=
    run_transferOne (bootState sampleFirmware (Vector.replicate 32 1)) rfl
  obtain ⟨o', tx', ho', hsigned', hnonce', -, -⟩ := run_transferOne o.state herrno
  rw [noncesIn_of_signed ho hsigned, noncesIn_of_signed ho' hsigned', hnonce, hnonce', hkept]
  intro hincreasing
  exact lt_irrefl _ (List.rel_of_pairwise_cons hincreasing List.mem_cons_self)

end AnylWallet.Zephyr
