import Veld.Consensus.ReserveSteps
import Veld.Token.Books

/-!
# What the mutators of the token ledger do

One lemma per mutator: what it can write when it succeeds. The invariants of the ledger are proved
from these and never from the bodies of the mutators.
-/

namespace Veld

open Wire hiding bind_eq_ok
open Program

/-! ## Moves without a signature -/

/-- The ledger after `amount` of a token went from one account to another. -/
def Ledger.transfer (l : Ledger) (tokenId source dest : Bytes) (amount : Int) : Ledger :=
  if amount = 0 ∨ source = dest then l
  else (l.putRemaining tokenId source (l.balance tokenId source - amount)).putBalance tokenId dest
    (l.balance tokenId dest + amount)

variable {l l' : Ledger}
variable {amount : Int}

theorem ammMove_eq_some {tokenId source dest : Bytes} :
    ammMove l tokenId source dest amount = some l' ↔
      canAmmMove l tokenId source dest amount ∧
        l' = l.transfer tokenId source dest amount := by
  unfold ammMove
  cases h : canAmmMove l tokenId source dest amount with
  | false => simp
  | true =>
    have hpos : amount ≠ 0 := by
      simp only [canAmmMove, Bool.and_eq_true, decide_eq_true_eq] at h
      omega
    by_cases hsd : source = dest
    · simp [Ledger.transfer, hsd, eq_comm]
    · simp [Ledger.transfer, hsd, hpos, eq_comm]

theorem Ledger.balance_transfer (l : Ledger) (tokenId source dest : Bytes) (amount : Int)
    (account : Bytes) :
    (l.transfer tokenId source dest amount).balance tokenId account =
      l.balance tokenId account - (if account = source then amount else 0) +
        if account = dest then amount else 0 := by
  unfold Ledger.transfer
  split
  · rename_i h
    rcases h with rfl | rfl
    · simp
    · split <;> omega
  · rename_i h
    rw [Ledger.balance_putBalance, Ledger.balance_putRemaining]
    by_cases hd : account = dest
    · subst hd
      have : account ≠ source := fun hs => h (.inr hs.symm)
      simp [this]
    · by_cases hs : account = source
      · subst hs
        simp [hd]
      · simp [hd, hs]

theorem Ledger.transfer_frame (l : Ledger) (tokenId source dest : Bytes) (amount : Int) :
    { l.transfer tokenId source dest amount with balances := l.balances } = l := by
  unfold Ledger.transfer
  split <;> rfl

/-! ## Frames -/

variable {K : Carrier} {C : Crypto}

/-- What the operations on reservations and the bookkeeping of mints leave alone. -/
def Ledger.kept (l : Ledger) : Books × Nat × Int := (l.books, l.redeemWindowId, l.redeemedInWindow)

def Ledger.still (l : Ledger) : (Books × Nat × Int) × List Nat := (l.kept, l.recentWork)

/-- Refusal, as opposed to an exception. -/
def Refused (e : Stop) : Prop := e = .reject

theorem not_refused_thrown : ¬ Refused .thrown := by simp [Refused]

abbrev Still (written : Bool) (x : LedgerM Unit) : Prop := Guarded Refused Ledger.still written x

abbrev WorkKept (x : LedgerM Unit) : Prop := Guarded Refused Ledger.recentWork false x

theorem books_of_guarded {x : LedgerM Unit} {written : Bool} (hx : Still written x) (h : x l = .ok () l') :
    l'.books = l.books :=
  congrArg (·.1.1) (hx.keeps l () l' h)

theorem guarded_publishMint {t : MintTransition} : Still true (publishMint C K t) := by
  refine .bind ?_ fun _ => guarded_modify fun _ => rfl
  unfold extendEffect
  split
  · exact guarded_pure _
  · exact .after_get fun _ => (guarded_require _ not_refused_thrown).bind fun _ => guarded_modify fun _ => rfl

theorem guarded_commitInsertion {i : Insertion} {kind : MintEffect} {allocationId : Bytes} :
    Still true (commitInsertion C K i kind allocationId) :=
  .bind (guarded_modify fun _ => rfl) fun _ => guarded_publishMint

theorem guarded_commitMintPlan (plan : MintPlan) : Still true (commitMintPlan C K plan) := by
  cases plan with
  | unnamed => exact guarded_pure _
  | direct insertion => exact guarded_commitInsertion
  | reserved requestId outpoint =>
    refine guarded_of_quiet (fun l _ l' h => ?_) fun l _ l' h => guarded_publishMint.quiet _ _ _ h
    rw [commitMintPlan, get_bind_eq_ok, set_bind_eq_ok] at h
    exact (guarded_publishMint.keeps _ _ _ h).trans rfl

theorem guarded_commitDeposit (i : Option Insertion) : Still true (commitDeposit C K i) := by
  cases i with
  | none => exact guarded_pure _
  | some i => exact guarded_commitInsertion

/-! ## Credits -/

theorem Ledger.books_putBalance (l : Ledger) (tokenId address : Bytes) {v : Int} (hv : v ≠ 0) :
    (l.putBalance tokenId address v).books = l.books.setBalance tokenId address v := by
  simp [Ledger.books, Ledger.putBalance, Books.setBalance, hv]

theorem floor_of_admissible {v : Int} (hv : 0 ≤ v) (hpos : 0 < amount)
    (h : balanceAdmissible (v + amount)) : minAccountSats ≤ v + amount := by
  rcases h with h | h
  · omega
  · exact h

theorem ne_zero_of_floor {v : Int} (h : minAccountSats ≤ v) : v ≠ 0 := by
  unfold minAccountSats at h
  omega

theorem credit_books {tokenId address : Bytes} (hpos : 0 < amount)
    (h : credit tokenId address amount l = .ok () l') :
    l.books.Receives tokenId address amount ∧ l'.books = l.books.credit tokenId address amount := by
  simp only [credit, get_bind_eq_ok, check_bind_eq_ok, modify_eq_ok] at h
  obtain ⟨⟨-, -, hnonneg, -, hadm⟩, rfl⟩ := h
  have hfloor := floor_of_admissible hnonneg hpos hadm
  refine ⟨⟨hnonneg, hfloor⟩, ?_⟩
  change (l.putBalance _ _ _).books.setSupply _ _ = _
  rw [Ledger.books_putBalance l _ _ (ne_zero_of_floor hfloor)]
  rfl

theorem credit_supply_nonneg {tokenId address : Bytes}
    (h : credit tokenId address amount l = .ok () l') : 0 ≤ l.supplyOf tokenId := by
  simp only [credit, get_bind_eq_ok, check_bind_eq_ok] at h
  exact h.1.1

/-! ## Markers -/

/-- What the marker of a transaction may refer to. -/
def txScope (P : Profile) (C : Crypto) (height : Nat) (tx : Transaction) : Books.Scope where
  rolling := P.transitionV1Required
  account address := canCredit P C address = true
  txid := (tx.getTxID C).toHex
  height := height

abbrev Carrier.scope (P : Profile) (C : Crypto) (K : Carrier) : Books.Scope :=
  txScope P C K.height K.tx

section
variable {P : Profile} {C : Crypto} {V : View} {gate : PegGate} {K : Carrier} {op : TokenOpData}
  {issuer : Bytes} {l l' : Ledger}

theorem canCredit_of_authorized (hK : K.prevalidated = false) {address : Bytes}
    (h : authorized P C K address) : canCredit P C address := by
  simp only [authorized, hK, Bool.false_or] at h
  exact isCanonical_of_signed h

theorem applyTransfer_books (hK : K.prevalidated = false)
    (hreg : l.tokens.lookup op.tokenId ≠ none) (hpos : 0 < op.amount)
    (h : applyTransfer P C K op l = .ok () l') :
    Books.MarkerStep (K.scope P C) l.books l'.books := by
  simp only [applyTransfer, check_bind_eq_ok, get_bind_eq_ok] at h
  obtain ⟨⟨hto, -, -, hauth⟩, henough, h⟩ := h
  split at h
  · obtain ⟨-, rfl⟩ := pure_eq_ok.mp h
    exact .idle
  · rename_i hne
    simp only [check_bind_eq_ok, modify_eq_ok] at h
    obtain ⟨⟨hnonneg, -, hsrc, hdst⟩, rfl⟩ := h
    have hfloor := floor_of_admissible hnonneg hpos hdst
    rw [Ledger.books_putBalance _ _ _ (ne_zero_of_floor hfloor)]
    exact .transfer hreg (canCredit_of_authorized hK hauth) hto hne hpos ⟨henough, hsrc⟩
      ⟨hnonneg, hfloor⟩

theorem reserveAfterRedeem_eq_some {supply : Int} {r : Reserve.State} (hpos : 0 < op.amount)
    (hle : op.amount ≤ supply) (h : reserveAfterRedeem P l op supply = some r) :
    (P.transitionV1Required → op.tokenId = btcveldTokenId →
      (r.openRedemptionPrincipal : Int) = l.reserveState.openRedemptionPrincipal + op.amount ∧
      r.reserveValueSats = l.reserveState.reserveValueSats ∧
      Books.Covered r (supply - op.amount)) ∧
    (P.transitionV1Required = false → r = l.reserveState) := by
  unfold reserveAfterRedeem at h
  split at h
  · rename_i hv
    obtain ⟨rfl, hholds⟩ := Reserve.openRedemption_eq_some h
    refine ⟨fun _ _ => ⟨?_, rfl, Books.Held.covered ⟨by omega, hholds⟩⟩, by simp [hv.1]⟩
    simp only [Nat.cast_add]
    omega
  · rename_i hv
    cases h
    exact ⟨fun h1 h2 => absurd ⟨h1, h2⟩ hv, fun _ => rfl⟩

theorem applyRedeem_books (hK : K.prevalidated = false)
    (hreg : l.tokens.lookup op.tokenId ≠ none) (hpos : 0 < op.amount)
    (h : applyRedeem P C K op l = .ok () l') :
    Books.MarkerStep (K.scope P C) l.books l'.books := by
  simp only [applyRedeem, check_bind_eq_ok, get_bind_eq_ok, require_bind_eq_ok, modify_eq_ok] at h
  obtain ⟨⟨-, -, -, hauth⟩, -, -, balance, hbal, supply, hsup, ⟨hle, hleS, hadm⟩, r, hr, rfl⟩ := h
  have hb : l.books.balance op.tokenId op.fromAddr = balance := by
    simp [Books.balance, Ledger.books, hbal]
  have hs : l.books.supplyOf op.tokenId = supply := by simp [Books.supplyOf, Ledger.books, hsup]
  obtain ⟨hv1, hlegacy⟩ := reserveAfterRedeem_eq_some hpos hleS hr
  have hredeems : Books.Redeems (K.scope P C) l.books (redeemRecord C K op) r :=
    { registered := hreg
      account := canCredit_of_authorized hK hauth
      pos := hpos
      gives := ⟨by rw [← hb] at hle; exact hle, by rw [← hb] at hadm; exact hadm⟩
      txid := rfl
      height := rfl
      reserve := by rw [← hs] at hv1; exact hv1
      legacy := hlegacy }
  have hbooks := Books.MarkerStep.redeem hredeems
  unfold Books.redeemed Books.credit at hbooks
  simp only [redeemRecord, hb, hs, ← sub_eq_add_neg] at hbooks
  exact hbooks

theorem applyMint_books (hlegacy : op.tokenId = btcveldTokenId → P.transitionV1Required = false)
    (hsole : l.books.SoleToken) (hreg : l.tokens.lookup op.tokenId ≠ none) (hpos : 0 < op.amount)
    (h : applyMint P C K issuer op l = .ok () l') :
    Books.MarkerStep (K.scope P C) l.books l'.books := by
  simp only [applyMint, check_bind_eq_ok, get_bind_eq_ok, require_bind_eq_ok] at h
  obtain ⟨⟨hto, -⟩, plan, -, h⟩ := h
  obtain ⟨m, hcredit, hplan⟩ := unit_bind_eq_ok.mp h
  obtain ⟨hreceives, hm⟩ := credit_books hpos hcredit
  rw [books_of_guarded (guarded_commitMintPlan plan) hplan, hm]
  exact .mint (hlegacy (hsole _ hreg)) hreg hto hpos hreceives

/-- Reservations are no money: their four operations leave the books alone. -/
theorem guarded_applyReserve : Still false (applyReserve P C K issuer op) :=
  .after_check <| .after_get fun _ => .after_check <| .after_require fun _ =>
    .after_require fun _ => .after_require fun _ => .after_check <|
    .bind (guarded_modify fun _ => rfl) fun _ => guarded_modify fun _ => rfl

theorem guarded_applyExpose : Still false (applyExpose P C K issuer op) :=
  .after_check <| .after_require fun _ => .after_get fun _ => .after_require fun _ =>
    .after_check <| .after_require fun _ => guarded_modify fun _ => rfl

theorem guarded_applyCancel : Still false (applyCancel P C K issuer op) :=
  .after_check <| .after_require fun _ => .after_get fun _ => .after_require fun _ =>
    guarded_modify fun _ => rfl

theorem guarded_applyFund : Still false (applyFund P C V K issuer op) :=
  .after_check <| .after_require fun _ => .after_get fun _ => .after_require fun _ =>
    .after_require fun _ => .after_require fun _ => .bind (guarded_modify fun _ => rfl) fun _ =>
    guarded_commitInsertion

theorem MarkerStep_of_eq {S : Books.Scope} {b b' : Books} (h : b' = b) :
    Books.MarkerStep S b b' := h ▸ .idle

theorem applyTokenOp_books (hK : K.prevalidated = false) (hsole : l.books.SoleToken)
    (h : applyTokenOp P C V gate K op l = .ok () l') :
    Books.MarkerStep (K.scope P C) l.books l'.books := by
  simp only [applyTokenOp, check_bind_eq_ok, get_bind_eq_ok, require_bind_eq_ok] at h
  obtain ⟨issuer, hissuer, ⟨hpos, hroute⟩, h⟩ := h
  have hreg : l.tokens.lookup op.tokenId ≠ none := by simp [hissuer]
  cases hop : op.action with
  | mint =>
    simp only [hop] at h
    refine applyMint_books (fun ht => ?_) hsole hreg hpos h
    simpa [opRouteOpen, hop] using (hroute ht).1
  | transfer =>
    simp only [hop] at h
    exact applyTransfer_books hK hreg hpos h
  | redeem =>
    simp only [hop] at h
    exact applyRedeem_books hK hreg hpos h
  | reserve =>
    simp only [hop] at h
    exact MarkerStep_of_eq (books_of_guarded guarded_applyReserve h)
  | expose =>
    simp only [hop] at h
    exact MarkerStep_of_eq (books_of_guarded guarded_applyExpose h)
  | cancel =>
    simp only [hop] at h
    exact MarkerStep_of_eq (books_of_guarded guarded_applyCancel h)
  | fund =>
    simp only [hop] at h
    exact MarkerStep_of_eq (books_of_guarded guarded_applyFund h)

theorem spvDeposit_recipient {data : Bytes} {r : Btcspv.DepositResult}
    (h : spvDeposit P C V K l data = some r) : canCredit P C r.recipient := by
  simp only [spvDeposit, bind_eq_some, Option.guard_eq_some'] at h
  obtain ⟨headers, -, -, -, -, -, h⟩ := h
  exact Btcspv.verifyDepositMint_recipient (eq_ok_of_toOption h)

theorem maybeApplySpvMint_books {data : Bytes} (h : maybeApplySpvMint P C V K data l = .ok () l') :
    Books.MarkerStep (K.scope P C) l.books l'.books := by
  simp only [maybeApplySpvMint, check_bind_eq_ok, get_bind_eq_ok, require_bind_eq_ok] at h
  obtain ⟨⟨hlegacy, hreg⟩, r, hr, -, _, -, ⟨h0, -⟩, h⟩ := h
  obtain ⟨m, hcredit, hcommit⟩ := unit_bind_eq_ok.mp h
  obtain ⟨hreceives, hm⟩ := credit_books (by omega) hcredit
  rw [books_of_guarded guarded_commitInsertion hcommit, hm]
  exact .mint hlegacy hreg (spvDeposit_recipient hr) (by omega) hreceives

theorem creditTransition_books {v : Reserve.Verified} (h : creditTransition v l = .ok () l') :
    (v.claim.mintAmount ≠ 0 →
      l.books.Receives btcveldTokenId v.recipient v.claim.mintAmount) ∧
    l'.books = if v.claim.mintAmount = 0 then l.books
      else l.books.credit btcveldTokenId v.recipient v.claim.mintAmount := by
  unfold creditTransition at h
  split at h
  · rename_i h0
    obtain ⟨-, rfl⟩ := pure_eq_ok.mp h
    simp [h0]
  · rename_i h0
    obtain ⟨hreceives, hbooks⟩ := credit_books (by omega) h
    exact ⟨fun _ => hreceives, by rw [if_neg h0, hbooks]⟩

theorem sum_payoutsOf (v : Reserve.Verified) :
    ((payoutsOf v).map (·.principalSats)).sum = v.paid := by
  unfold payoutsOf Reserve.Verified.paid
  split <;> simp

theorem verifyTransition_eq_some {proof : Bytes} {v : Reserve.Verified}
    (h : verifyTransition P C V gate l proof = some v) :
    0 ≤ l.supplyOf btcveldTokenId ∧
      (v.claim.mintAmount ≠ 0 → canCredit P C v.recipient) ∧
      v.claim.newReserveValue ≤ max spvMaxCustodySats l.reserveState.reserveValueSats := by
  simp only [verifyTransition, bind_eq_some, Option.guard_eq_some'] at h
  obtain ⟨headers, -, claim, -, -, -, -, -, -, hsupply, h⟩ := h
  have hproven := Reserve.verify_proven (eq_ok_of_toOption h)
  exact ⟨hsupply, hproven.recipient, hproven.value⟩

theorem maybeApplyReserveTransition_books {proof : Bytes} {wrapper : Option TokenOpData}
    (h : maybeApplyReserveTransition P C V gate K proof wrapper l = .ok () l') :
    Books.MarkerStep (K.scope P C) l.books l'.books := by
  simp only [maybeApplyReserveTransition, check_bind_eq_ok, get_bind_eq_ok, require_bind_eq_ok] at h
  obtain ⟨⟨hv1, -, hreg, -⟩, v, hv, -, insertion, -, next, hnext, h⟩ := h
  obtain ⟨m, hcredit, h⟩ := unit_bind_eq_ok.mp h
  obtain ⟨n, hcommit, h⟩ := unit_bind_eq_ok.mp h
  obtain rfl := modify_eq_ok.mp h
  obtain ⟨hsupply, hrec, hvalue⟩ := verifyTransition_eq_some hv
  have ht := Reserve.applyAuthorized_eq_some hnext
  have hm := creditTransition_books hcredit
  have hholds : next.accountingHolds
      (l.supplyOf btcveldTokenId + v.claim.mintAmount).toNat = true := by
    rw [Int.toNat_add hsupply (by omega), Int.toNat_natCast]
    exact ht.holds
  have htransits : Books.Transits (K.scope P C) l.books v.recipient v.claim.mintAmount
      (payoutsOf v) next :=
    { rolling := hv1
      registered := hreg
      credit := fun h0 => ⟨hrec h0, hm.1 h0⟩
      principal := by rw [sum_payoutsOf]; exact ht.principal
      value := ht.value.trans (max_le hvalue (le_max_right ..))
      covered := Books.Held.covered ⟨by change 0 ≤ l.supplyOf btcveldTokenId + _; omega, hholds⟩ }
  have hbooks := Books.MarkerStep.transit htransits
  change Books.MarkerStep _ l.books { n.books with
    payouts := n.books.payouts ++ payoutsOf v, reserve := next }
  rw [books_of_guarded (guarded_commitDeposit insertion) hcommit, hm.2]
  unfold Books.transited at hbooks
  by_cases h0 : v.claim.mintAmount = 0
  · simp only [h0, if_true] at hbooks ⊢
    exact hbooks
  · simp only [h0, if_false] at hbooks ⊢
    exact hbooks

end

end Veld
