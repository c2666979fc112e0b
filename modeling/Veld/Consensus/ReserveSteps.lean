import Veld.Consensus.ReserveVerify

/-!
# What moves the reserve record

One lemma per mutator of the reserve record and one for the verifier: what a success says. Supplies
are natural numbers here, as the mutators take them.
-/

namespace Veld.Reserve

open Wire Btcspv Option

/-! ## Verification -/

/-- What a verified claim promises the ledger. -/
structure Proven (sha256 : Bytes → Hash256) (state : State) (payload : Bytes)
    (validRecipient : Bytes → Bool) (payout : Option PayoutContext) (v : Verified) : Prop where
  decoded : decodeProof sha256 payload = some v.claim
  recipient : v.claim.mintAmount ≠ 0 → validRecipient v.recipient
  value : v.claim.newReserveValue ≤ max spvMaxCustodySats state.reserveValueSats
  payout : v.claim.operation = .payout → ∃ ctx, payout = some ctx ∧
    v.claim.exactCommitment = ctx.requestCommitment ∧ v.payoutRequestId = ctx.requestId ∧
    v.payoutPrincipalSats = ctx.principalSats ∧ v.payoutDestinationSpk = ctx.destinationSpk

section
variable {P : Profile} {sha256 : Bytes → Hash256} {state : State} {payload custodySpk : Bytes}
  {validRecipient : Bytes → Bool} {payout : Option PayoutContext} {claim : Claim}
  {tx : WitnessAwareBtcTx} {inputs : InputFacts} {i : ReserveInputs} {v : Verified}

variable {txid : Hash256}

theorem verifyOpen_eq_ok {recipient : Bytes}
    (h : verifyOpen sha256 claim txid recipient validRecipient i = .ok v) :
    v.claim = claim ∧ claim.newReserveValue ≤ spvMaxCustodySats ∧
      validRecipient v.recipient = true := by
  simp only [verifyOpen, bind_eq_ok, ensure_eq_ok] at h
  obtain ⟨-, ⟨-, -, -, -, -, hvalue, -, -, -, hrec, -⟩, heq⟩ := h
  cases heq
  exact ⟨rfl, hvalue, hrec⟩

theorem pendingDeposit_valid {parents : List Bytes} {index : Nat}
    {r : Bytes × BtcPrevout × BtcTxOut × Bool}
    (h : pendingDeposit sha256 parents inputs custodySpk validRecipient index = some r) :
    validRecipient r.1 := by
  simp only [pendingDeposit, bind_eq_some, guard_eq_some', pure_eq_some] at h
  obtain ⟨_, -, _, -, recipient, -, -, hvalid, _, -, _, -, rfl⟩ := h
  exact hvalid

theorem verifyDeposit_eq_ok {currentIndex : Nat}
    (h : verifyDeposit P sha256 state claim tx inputs custodySpk validRecipient i currentIndex =
      .ok v) :
    v.claim = claim ∧ claim.newReserveValue ≤ spvMaxCustodySats ∧
      validRecipient v.recipient = true := by
  simp only [verifyDeposit, bind_eq_ok, ensure_eq_ok, orElse_eq_ok] at h
  obtain ⟨-, ⟨-, -, -, hvalue, -⟩, r, hr, -, -, -, -, heq⟩ := h
  cases heq
  exact ⟨rfl, hvalue, pendingDeposit_valid hr⟩

theorem verifyRollover_eq_ok (h : verifyRollover state claim i = .ok v) :
    v.claim = claim ∧ claim.newReserveValue = state.reserveValueSats ∧ claim.mintAmount = 0 := by
  simp only [verifyRollover, bind_eq_ok, ensure_eq_ok] at h
  obtain ⟨-, ⟨-, hvalue, hmint, -⟩, heq⟩ := h
  cases heq
  exact ⟨rfl, hvalue, hmint⟩

theorem verifyPayout_eq_ok (h : verifyPayout state claim tx inputs payout i = .ok v) :
    v.claim = claim ∧ claim.newReserveValue ≤ state.reserveValueSats ∧ claim.mintAmount = 0 ∧
      ∃ ctx, payout = some ctx ∧ claim.exactCommitment = ctx.requestCommitment ∧
        v.payoutRequestId = ctx.requestId ∧ v.payoutPrincipalSats = ctx.principalSats ∧
        v.payoutDestinationSpk = ctx.destinationSpk := by
  simp only [verifyPayout, bind_eq_ok, ensure_eq_ok, orElse_eq_ok] at h
  obtain ⟨ctx, hctx, -, ⟨-, -, -, -, hmint, -, hexact, -⟩, -, ⟨-, hvalue, -⟩, heq⟩ := h
  cases heq
  exact ⟨rfl, hvalue ▸ Nat.sub_le _ _, hmint, ctx, hctx, hexact, rfl, rfl, rfl⟩

theorem verifyClose_eq_ok (h : verifyClose claim i = .ok v) :
    v.claim = claim ∧ claim.mintAmount = 0 := by
  simp only [verifyClose, bind_eq_ok, ensure_eq_ok] at h
  obtain ⟨-, ⟨-, hmint, -⟩, heq⟩ := h
  cases heq
  exact ⟨rfl, hmint⟩

theorem successorMatches_close {o : OutputFacts} (hop : claim.operation = .close)
    (h : successorMatches claim txid o = .ok ()) : claim.newReserveValue = 0 := by
  simp only [successorMatches, hop, ne_eq, not_true_eq_false, false_and, if_false,
    ensure_eq_ok] at h
  exact h.2.2.2

theorem verifyActive_proven {o : OutputFacts} (hdecoded : decodeProof sha256 payload = some claim)
    (hnotOpen : claim.operation ≠ .open) (hnotFreeze : claim.operation ≠ .freeze)
    (hsucc : successorMatches claim txid o = .ok ())
    (h : verifyActive P sha256 state claim tx inputs custodySpk validRecipient payout i = .ok v) :
    Proven sha256 state payload validRecipient payout v := by
  simp only [verifyActive, bind_eq_ok, orElse_eq_ok] at h
  obtain ⟨index, -, h⟩ := h
  cases hop : claim.operation with
  | «open» => exact absurd hop hnotOpen
  | freeze => exact absurd hop hnotFreeze
  | deposit =>
    simp only [hop] at h
    obtain ⟨rfl, hvalue, hrec⟩ := verifyDeposit_eq_ok h
    exact ⟨hdecoded, fun _ => hrec, hvalue.trans (le_max_left ..), by simp [hop]⟩
  | rollover =>
    simp only [hop] at h
    obtain ⟨rfl, hvalue, hmint⟩ := verifyRollover_eq_ok h
    exact ⟨hdecoded, by simp [hmint], hvalue.le.trans (le_max_right ..), by simp [hop]⟩
  | payout =>
    simp only [hop] at h
    obtain ⟨rfl, hvalue, hmint, hctx⟩ := verifyPayout_eq_ok h
    exact ⟨hdecoded, by simp [hmint], hvalue.trans (le_max_right ..), fun _ => hctx⟩
  | close =>
    simp only [hop] at h
    obtain ⟨rfl, hmint⟩ := verifyClose_eq_ok h
    exact ⟨hdecoded, by simp [hmint], by simp [successorMatches_close hop hsucc], by simp [hop]⟩

theorem verify_proven {headers : BtcHeaderChain} {supply depth : Nat}
    (h : verify P sha256 headers state supply payload custodySpk depth validRecipient payout =
      .ok v) : Proven sha256 state payload validRecipient payout v := by
  simp only [verify, bind_eq_ok, orElse_eq_ok, ensure_eq_ok] at h
  obtain ⟨claim, hdecoded, -, -, -, -, tx, -, -, -, c, -, inputs, -, outputTotal, -, -, -, -,
    hnotFreeze, -, -, i, -, ⟨⟩, hsucc, h⟩ := h
  by_cases hop : claim.operation = .open
  · rw [if_pos hop] at h
    obtain ⟨rfl, hvalue, hrec⟩ := verifyOpen_eq_ok h
    exact ⟨hdecoded, fun _ => hrec, hvalue.trans (le_max_left ..), by simp [hop]⟩
  · rw [if_neg hop] at h
    exact verifyActive_proven hdecoded hop hnotFreeze hsucc h

end

/-! ## Application -/

section
variable {P : Profile} {sha256 : Bytes → Hash256} {state next : State} {v : Verified}
  {before after : Nat}

/-- The principal a transition pays out. -/
def Verified.paid (v : Verified) : Nat :=
  if v.claim.operation = .payout then v.payoutPrincipalSats else 0

/-- What a transition does to the amounts. -/
structure Transition (state : State) (v : Verified) (before after : Nat) (next : State) : Prop where
  count : next.transitionCount = state.transitionCount + 1
  principal : next.openRedemptionPrincipal + v.paid = state.openRedemptionPrincipal
  holds : next.accountingHolds after = true
  value : next.reserveValueSats ≤ max v.claim.newReserveValue state.reserveValueSats

theorem nextState_eq_some (h : nextState state v before after = some next) :
    next.transitionCount = state.transitionCount ∧
      next.openRedemptionPrincipal + v.paid = state.openRedemptionPrincipal ∧
      next.reserveValueSats ≤ max v.claim.newReserveValue state.reserveValueSats := by
  unfold nextState at h
  unfold Verified.paid
  cases hop : v.claim.operation with
  | freeze => simp [hop] at h
  | payout =>
    simp only [hop, bind_eq_some, guard_eq_some', pure_eq_some] at h
    obtain ⟨-, -, -, ⟨hle, hpaid⟩, -, -, rfl⟩ := h
    split
    · exact ⟨rfl, by simp only [if_true]; omega, le_max_left ..⟩
    · exact ⟨rfl, by simp only [if_true]; omega, le_max_left ..⟩
  | «open» =>
    simp only [hop, bind_eq_some, guard_eq_some', pure_eq_some] at h
    obtain ⟨-, -, rfl⟩ := h
    exact ⟨rfl, by simp [State.withSuccessor], le_max_left ..⟩
  | deposit =>
    simp only [hop, bind_eq_some, guard_eq_some', pure_eq_some] at h
    obtain ⟨-, -, -, -, rfl⟩ := h
    exact ⟨rfl, by simp [State.withSuccessor], le_max_left ..⟩
  | rollover =>
    simp only [hop, bind_eq_some, guard_eq_some', pure_eq_some] at h
    obtain ⟨-, -, rfl⟩ := h
    exact ⟨rfl, by simp [State.withSuccessor], le_max_left ..⟩
  | close =>
    simp only [hop, bind_eq_some, guard_eq_some', pure_eq_some] at h
    obtain ⟨-, -, rfl⟩ := h
    exact ⟨rfl, by simp [State.emptied], Nat.zero_le _⟩

theorem applyAuthorized_eq_some (h : applyAuthorized P sha256 state v before after = some next) :
    Transition state v before after next := by
  simp only [applyAuthorized, bind_eq_some, guard_eq_some', pure_eq_some] at h
  obtain ⟨-, -, mid, hmid, -, hholds, rfl⟩ := h
  obtain ⟨hcount, hprincipal, hvalue⟩ := nextState_eq_some hmid
  exact ⟨by simp [hcount], hprincipal, hholds, hvalue⟩

theorem applyFreeze_eq_some {txid block : Hash256}
    (h : applyFreeze P sha256 state txid block = some next) :
    next.reserveValueSats = state.reserveValueSats ∧
      next.openRedemptionPrincipal = state.openRedemptionPrincipal ∧
      next.surplusSats = state.surplusSats := by
  simp only [applyFreeze, bind_eq_some, guard_eq_some', pure_eq_some] at h
  obtain ⟨-, -, rfl⟩ := h
  exact ⟨rfl, rfl, rfl⟩

theorem setProcessed_eq_some {height : Nat} {blockHash : Hash256}
    (h : setProcessed state height blockHash = some next) :
    next = { state with processedVeldHeight := height, processedVeldBlockHash := blockHash } := by
  unfold setProcessed at h
  split at h
  · exact (Option.some.inj h).symm
  · cases h

theorem openRedemption_eq_some {amount supply : Nat}
    (h : openRedemption state amount supply = some next) :
    next = { state with openRedemptionPrincipal := state.openRedemptionPrincipal + amount } ∧
      next.accountingHolds supply = true := by
  simp only [openRedemption, bind_eq_some, guard_eq_some', pure_eq_some] at h
  obtain ⟨-, -, -, hholds, rfl⟩ := h
  exact ⟨rfl, hholds⟩

theorem resolveDefaultOrCompensation_eq_some {amount supply : Nat} :
    resolveDefaultOrCompensation state amount supply = some next ↔
      amount ≠ 0 ∧ amount ≤ state.openRedemptionPrincipal ∧
      next = { state with openRedemptionPrincipal := state.openRedemptionPrincipal - amount } ∧
      next.accountingHolds supply = true := by
  simp only [resolveDefaultOrCompensation, bind_eq_some, guard_eq_some', pure_eq_some]
  constructor
  · rintro ⟨-, ⟨h0, hle⟩, -, hholds, rfl⟩
    exact ⟨h0, hle, rfl, hholds⟩
  · rintro ⟨h0, hle, rfl, hholds⟩
    exact ⟨(), ⟨h0, hle⟩, (), hholds, rfl⟩

end

end Veld.Reserve
