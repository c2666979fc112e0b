import Veld.Token.Steps

/-!
# The books over a block

A marker that is refused leaves no trace, so a block is a sequence of marker steps, one for each
transaction, between the opening of the block and its closing commitments.
-/

namespace Veld

open Wire hiding bind_eq_ok
open Program

/-! ## Refused markers leave no trace -/

section
variable {P : Profile} {C : Crypto} {V : View} {gate : PegGate} {K : Carrier} {op : TokenOpData}
  {issuer : Bytes}

theorem guarded_credit {tokenId address : Bytes} {amount : Int} :
    WorkKept (credit tokenId address amount) :=
  .after_get fun _ => .after_check <| guarded_modify fun _ => rfl

theorem guarded_applyTransfer : WorkKept (applyTransfer P C K op) := by
  refine .after_check <| .after_get fun l => .after_check ?_
  split
  · exact guarded_pure _
  · exact .after_check <| guarded_modify fun _ => rfl

theorem guarded_applyRedeem : WorkKept (applyRedeem P C K op) :=
  .after_check <| .after_check <| .after_get fun _ => .after_check <| .after_require fun _ =>
    .after_require fun _ => .after_check <| .after_require fun _ => guarded_modify fun _ => rfl

theorem guarded_applyMint : WorkKept (applyMint P C K issuer op) :=
  .after_check <| .after_get fun _ => .after_require fun plan => guarded_credit.bind fun _ =>
    (guarded_commitMintPlan plan).observe Prod.snd

theorem guarded_applyTokenOp : WorkKept (applyTokenOp P C V gate K op) := by
  refine .after_get fun _ => .after_require fun _ => .after_check ?_
  cases op.action with
  | mint => exact guarded_applyMint
  | transfer => exact guarded_applyTransfer
  | redeem => exact guarded_applyRedeem
  | reserve => exact guarded_applyReserve.observe Prod.snd
  | expose => exact guarded_applyExpose.observe Prod.snd
  | cancel => exact guarded_applyCancel.observe Prod.snd
  | fund => exact guarded_applyFund.observe Prod.snd

variable {data : Bytes}

theorem guarded_maybeApplySpvMint : WorkKept (maybeApplySpvMint P C V K data) :=
  .after_get fun _ => .after_check <| .after_require fun _ => .after_check <|
    .after_require fun _ => .after_check <| guarded_credit.bind fun _ => guarded_commitInsertion.observe Prod.snd

theorem guarded_maybeApplyReserveTransition {proof : Bytes} {wrapper : Option TokenOpData} :
    WorkKept (maybeApplyReserveTransition P C V gate K proof wrapper) := by
  refine .after_get fun _ => .after_check <| .after_require fun v => .after_check <|
    .after_require fun i => .after_require fun _ => .bind ?_ fun _ =>
    ((guarded_commitDeposit i).observe Prod.snd).bind fun _ => guarded_modify fun _ => rfl
  unfold creditTransition
  split
  · exact guarded_pure _
  · exact guarded_credit

theorem guarded_applyMarker {spvOn : Bool} :
    WorkKept (applyMarker P C V gate spvOn K data) := by
  unfold applyMarker
  split
  · exact .after_require fun _ => guarded_maybeApplyReserveTransition
  · split
    · split
      · exact guarded_maybeApplySpvMint
      · exact (readOnly_throw _).guarded
    · refine .after_require fun op => ?_
      split
      · exact .after_require fun _ => guarded_maybeApplyReserveTransition
      · exact guarded_applyTokenOp

/-! ## Transactions -/

theorem applyMarker_books {spvOn : Bool} {l l' : Ledger} (hK : K.prevalidated = false)
    (hsole : l.books.SoleToken) (h : applyMarker P C V gate spvOn K data l = .ok () l') :
    Books.MarkerStep (K.scope P C) l.books l'.books := by
  unfold applyMarker at h
  split at h
  · simp only [applyReserveMarker, require_bind_eq_ok] at h
    obtain ⟨_, -, h⟩ := h
    exact maybeApplyReserveTransition_books h
  · split at h
    · split at h
      · exact maybeApplySpvMint_books h
      · exact (throw_ne_ok h).elim
    · simp only [applyTokenMarker, require_bind_eq_ok] at h
      obtain ⟨op, -, h⟩ := h
      split at h
      · simp only [require_bind_eq_ok] at h
        obtain ⟨_, -, h⟩ := h
        exact maybeApplyReserveTransition_books h
      · exact applyTokenOp_books hK hsole h

section
variable {height txIndex : Nat} {spvOn : Bool} {tx : Transaction} {l l' : Ledger}

theorem guarded_applyTransactionMarkers :
    WorkKept (applyTransactionMarkers P C V gate tx height spvOn false false txIndex) := by
  unfold applyTransactionMarkers
  split
  · exact (readOnly_check _ _).guarded
  · exact guarded_applyMarker
  · exact (readOnly_throw _).guarded

theorem applyTransactionMarkers_eq_ok
    (h : applyTransactionMarkers P C V gate tx height spvOn false false txIndex l = .ok () l') :
    l' = l ∨ ∃ data ∈ payloads tx, ∃ vout,
      applyMarker P C V gate spvOn ⟨tx, height, txIndex, vout, false⟩ data l = .ok () l' := by
  rcases hm : markers P tx with _ | ⟨⟨data, vout⟩, _ | ⟨m, rest⟩⟩
  · simp only [applyTransactionMarkers, hm, check_eq_ok] at h
    exact .inl h.2.symm
  · have hmem : (data, vout) ∈ markers P tx := by simp [hm]
    simp only [applyTransactionMarkers, hm] at h
    exact .inr ⟨data, List.fst_mem_of_mem_zipIdx (List.mem_filter.mp hmem).1, vout, h⟩
  · simp only [applyTransactionMarkers, hm] at h
    exact (throw_ne_ok h).elim

theorem processTransaction_eq_ok
    (h : processTransaction P C V gate height spvOn tx txIndex l = .ok () l') :
    l' = l ∨ ∃ data ∈ payloads tx, ∃ vout,
      applyMarker P C V gate spvOn ⟨tx, height, txIndex, vout, false⟩ data l = .ok () l' := by
  unfold processTransaction at h
  split at h
  · rename_i m hx
    split at h
    · cases h
    · cases h
      exact .inl (guarded_applyTransactionMarkers.atomic l _ _ hx rfl)
  · exact applyTransactionMarkers_eq_ok h

theorem processTransaction_books (hsole : l.books.SoleToken)
    (h : processTransaction P C V gate height spvOn tx txIndex l = .ok () l') :
    Books.MarkerStep (txScope P C height tx) l.books l'.books := by
  rcases processTransaction_eq_ok h with rfl | ⟨data, -, vout, h⟩
  · exact .idle
  · exact applyMarker_books (K := ⟨tx, height, txIndex, vout, false⟩) rfl hsole h

theorem processTransactions_books {txs : List (Transaction × Nat)} (hsole : l.books.SoleToken)
    (h : processTransactions P C V gate height spvOn txs l = .ok () l') :
    Books.MarkerRun (txScope P C height) l.books (txs.map Prod.fst) l'.books := by
  induction txs generalizing l with
  | nil =>
    simp only [processTransactions, pure_eq_ok] at h
    exact h.2 ▸ .nil
  | cons t txs ih =>
    simp only [processTransactions, bind_eq_ok] at h
    obtain ⟨⟨⟩, m, hm, h⟩ := h
    have hstep := processTransaction_books hsole hm
    refine .cons hstep (ih ?_ h)
    unfold Books.SoleToken
    rw [hstep.tokens]
    exact hsole

end

/-! ## Blocks -/

section
variable {block : Block} {l l' : Ledger}

theorem freezeOnReorg_books {freeze : Bool} (h : freezeOnReorg P C freeze l = .ok () l') :
    ∃ r, l' = { l with reserveState := r } ∧ Books.SameAmounts l.reserveState r := by
  unfold freezeOnReorg at h
  split at h
  · simp only [get_bind_eq_ok, require_bind_eq_ok, set_eq_ok] at h
    obtain ⟨r, hr, rfl⟩ := h
    obtain ⟨hvalue, hprincipal, hsurplus⟩ := Reserve.applyFreeze_eq_some hr
    exact ⟨r, rfl, ⟨hvalue, hprincipal, hsurplus⟩⟩
  · obtain ⟨-, rfl⟩ := pure_eq_ok.mp h
    exact ⟨l.reserveState, rfl, .refl _⟩

theorem maybeRegisterBtcVeld_books (P : Profile) (height : Nat) (l : Ledger) :
    (maybeRegisterBtcVeld P height l).books =
      { l.books with
        tokens := if P.issuerAddress = [] ∨ l.tokens.lookup btcveldTokenId ≠ none then l.tokens
                  else l.tokens.insert btcveldTokenId P.issuerAddress } := by
  unfold maybeRegisterBtcVeld btcVeldActivationHeight
  by_cases h : P.issuerAddress = [] ∨ l.tokens.lookup btcveldTokenId ≠ none
  · rw [if_pos h, if_pos (h.imp_right .inr)]
    rfl
  · rw [if_neg h, if_neg (by simpa using h)]
    rfl

theorem beginBlock_books (P : Profile) (block : Block) (l : Ledger) :
    (beginBlock P block l).books = l.books.opened P l.reserveState :=
  maybeRegisterBtcVeld_books P block.height _

theorem guarded_commitRedeems {blockHash : Hash256} (rs : List TokenTransferRecord) :
    Still true (commitRedeems C blockHash rs) := by
  induction rs with
  | nil => exact guarded_pure _
  | cons r rs ih =>
    refine .bind ?_ fun _ => ih
    unfold commitRedeem
    split
    · exact guarded_pure _
    · exact .after_get fun _ => (guarded_check _ not_refused_thrown).bind fun _ =>
        (guarded_require _ not_refused_thrown).bind fun _ => guarded_modify fun _ => rfl

theorem closeReserve_books {before : Nat} (h : closeReserve C block before l = .ok () l') :
    ∃ r, l'.books = { l.books with reserve := r } ∧ Books.SameAmounts l.reserveState r ∧
      Books.Held r (l.supplyOf btcveldTokenId) := by
  simp only [closeReserve, get_bind_eq_ok, check_bind_eq_ok, require_bind_eq_ok,
    set_bind_eq_ok, modify_eq_ok] at h
  obtain ⟨hsupply, r, hr, ⟨hholds, -⟩, rfl⟩ := h
  obtain rfl := Reserve.setProcessed_eq_some hr
  exact ⟨_, rfl, ⟨rfl, rfl, rfl⟩, ⟨hsupply, hholds⟩⟩

/-- A block in the books: opened, one step for each transaction, closed. -/
structure BlockBooks (P : Profile) (C : Crypto) (block : Block) (b b' b₀ b₁ : Books) : Prop where
  opened : b₀ = b.opened P b₀.reserve
  kept : Books.SameAmounts b.reserve b₀.reserve
  run : Books.MarkerRun (txScope P C block.height) b₀ block.transactions b₁
  closed : b' = { b₁ with reserve := b'.reserve }
  closing : Books.SameAmounts b₁.reserve b'.reserve
  held : P.transitionV1Required → Books.Held b'.reserve (b'.supplyOf btcveldTokenId)

theorem processBody_books {freeze : Bool} (hsole : l.books.SoleToken)
    (h : processBody P C V gate block freeze l = .ok () l') :
    ∃ b₀ b₁, BlockBooks P C block l.books l'.books b₀ b₁ := by
  simp only [processBody, get_bind_eq_ok, unit_bind_eq_ok, modify_eq_ok] at h
  obtain ⟨_, hfreeze, _, rfl, m, hrun, n, hcommit, _, rfl, hclose⟩ := h
  obtain ⟨r, rfl, hkept⟩ := freezeOnReorg_books hfreeze
  have hopen := beginBlock_books P block { l with reserveState := r }
  have hrun := processTransactions_books (hopen ▸ hsole.opened r) hrun
  rw [hopen, List.zipIdx_map_fst] at hrun
  have hn : n.books = m.books := books_of_guarded (guarded_commitRedeems _) hcommit
  refine ⟨l.books.opened P r, m.books, ?_⟩
  split at hclose
  · obtain ⟨r', hbooks, hsame, hheld⟩ := closeReserve_books hclose
    change l'.books = { n.books with reserve := r' } at hbooks
    change Books.SameAmounts n.books.reserve r' at hsame
    change Books.Held r' (n.books.supplyOf btcveldTokenId) at hheld
    rw [hn] at hbooks hsame hheld
    rw [hbooks]
    exact ⟨rfl, hkept, hrun, rfl, hsame, fun _ => hheld⟩
  · rename_i hv1
    obtain ⟨-, rfl⟩ := pure_eq_ok.mp hclose
    change BlockBooks P C block l.books n.books _ _
    rw [hn]
    exact ⟨rfl, hkept, hrun, rfl, .refl _, fun h => absurd h hv1⟩

theorem processBlock_eq_ok (h : processBlock P C V gate block l = .ok () l') :
    ∃ freeze, processBody P C V gate block freeze l = .ok () l' := by
  simp only [processBlock, get_bind_eq_ok, check_bind_eq_ok, require_bind_eq_ok] at h
  obtain ⟨-, freeze, -, -, h⟩ := h
  obtain ⟨_, hc, h⟩ := unit_bind_eq_ok.mp h
  obtain ⟨-, rfl⟩ := check_eq_ok.mp hc
  split at h
  · cases h
  · exact ⟨freeze, h⟩

theorem processBlock_books (hsole : l.books.SoleToken)
    (h : processBlock P C V gate block l = .ok () l') :
    ∃ b₀ b₁, BlockBooks P C block l.books l'.books b₀ b₁ :=
  let ⟨_, hbody⟩ := processBlock_eq_ok h
  processBody_books hsole hbody

end

/-! ## Between blocks -/

/-- What a compensation has passed, and what it writes. -/
structure Compensates (P : Profile) (C : Crypto) (recipient : Bytes) (amount : Nat) (b b' : Books) :
    Prop where
  account : canCredit P C recipient = true
  pos : amount ≠ 0
  registered : b.tokens.lookup btcveldTokenId ≠ none
  receives : b.Receives btcveldTokenId recipient amount
  written : b' = { b.credit btcveldTokenId recipient amount with reserve := b'.reserve }
  reserve : P.transitionV1Required →
    b'.reserve.openRedemptionPrincipal + amount = b.reserve.openRedemptionPrincipal ∧
      b'.reserve.reserveValueSats = b.reserve.reserveValueSats ∧
      Books.Held b'.reserve (b.supplyOf btcveldTokenId + amount)

theorem compensateMint_books {recipient : Bytes} {amount : Nat} {l l' : Ledger}
    (h : compensateMint P C recipient amount l = .ok () l') :
    Compensates P C recipient amount l.books l'.books := by
  simp only [compensateMint, get_bind_eq_ok, check_bind_eq_ok, require_bind_eq_ok] at h
  obtain ⟨⟨hacct, hpos, hreg, -⟩, r, hr, h⟩ := h
  obtain ⟨m, hcredit, h⟩ := unit_bind_eq_ok.mp h
  obtain rfl := modify_eq_ok.mp h
  have hsupply := credit_supply_nonneg hcredit
  obtain ⟨hreceives, hm⟩ := credit_books (by omega) hcredit
  refine ⟨hacct, hpos, hreg, hreceives, ?_, fun hv1 => ?_⟩
  · rw [← hm]
    rfl
  · rw [if_pos hv1] at hr
    obtain ⟨-, hle, rfl, hholds⟩ := Reserve.resolveDefaultOrCompensation_eq_some.mp hr
    have hsum : 0 ≤ l.supplyOf btcveldTokenId + amount := by omega
    exact ⟨Nat.sub_add_cancel hle, rfl, ⟨hsum, hholds⟩⟩

end

end Veld
