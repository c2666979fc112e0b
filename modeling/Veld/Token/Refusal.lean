import Veld.Token.BlockSteps

/-!
# A refused block leaves the ledger as it was

`ProcessBlock` copies the ledger only for blocks with a marker that must apply, or when the reserve freezes. Any
other block is never refused once it has begun to write.
-/

namespace Veld

open Wire hiding bind_eq_ok
open Program List

section
variable {P : Profile} {C : Crypto} {V : View} {gate : PegGate} {K : Carrier} {op : TokenOpData}
  {issuer : Bytes} {l l' : Ledger}

/-! ## Operations that leave the reserve alone -/

structure SameReserve (l l' : Ledger) : Prop where
  supply : l'.supplyOf btcveldTokenId = l.supplyOf btcveldTokenId
  reserve : l'.reserveState = l.reserveState

theorem SameReserve.refl (l : Ledger) : SameReserve l l := ⟨rfl, rfl⟩

theorem SameReserve.trans {m : Ledger} (h : SameReserve l m) (h' : SameReserve m l') :
    SameReserve l l' := ⟨h'.supply.trans h.supply, h'.reserve.trans h.reserve⟩

theorem sameReserve_of_guarded {x : LedgerM Unit} {written : Bool} (hx : Still written x)
    (h : x l = .ok () l') : SameReserve l l' :=
  have hbooks := books_of_guarded hx h
  ⟨congrArg (Books.supplyOf · btcveldTokenId) hbooks, congrArg Books.reserve hbooks⟩

theorem supplyOf_putSupply_ne {tokenId : Bytes} (hne : tokenId ≠ btcveldTokenId) (v : Int) :
    (l.putSupply tokenId v).supplyOf btcveldTokenId = l.supplyOf btcveldTokenId := by
  unfold Ledger.supplyOf Ledger.putSupply
  rw [Table.lookup_insert_ite, if_neg hne.symm]

theorem credit_sameReserve {tokenId address : Bytes} {amount : Int}
    (hne : tokenId ≠ btcveldTokenId) (h : credit tokenId address amount l = .ok () l') :
    SameReserve l l' := by
  simp only [credit, get_bind_eq_ok, check_bind_eq_ok, modify_eq_ok] at h
  obtain ⟨-, rfl⟩ := h
  exact ⟨supplyOf_putSupply_ne hne _, rfl⟩

theorem applyMint_sameReserve (hne : op.tokenId ≠ btcveldTokenId)
    (h : applyMint P C K issuer op l = .ok () l') : SameReserve l l' := by
  simp only [applyMint, check_bind_eq_ok, get_bind_eq_ok, require_bind_eq_ok] at h
  obtain ⟨-, plan, -, h⟩ := h
  obtain ⟨m, hcredit, hplan⟩ := unit_bind_eq_ok.mp h
  exact (credit_sameReserve hne hcredit).trans (sameReserve_of_guarded (guarded_commitMintPlan plan) hplan)

theorem applyTransfer_sameReserve (h : applyTransfer P C K op l = .ok () l') :
    SameReserve l l' := by
  simp only [applyTransfer, check_bind_eq_ok, get_bind_eq_ok] at h
  obtain ⟨-, -, h⟩ := h
  split at h
  · obtain ⟨-, rfl⟩ := pure_eq_ok.mp h
    exact .refl _
  · simp only [check_bind_eq_ok, modify_eq_ok] at h
    obtain ⟨-, rfl⟩ := h
    exact ⟨rfl, rfl⟩

theorem applyRedeem_sameReserve (hne : op.tokenId ≠ btcveldTokenId)
    (h : applyRedeem P C K op l = .ok () l') : SameReserve l l' := by
  simp only [applyRedeem, check_bind_eq_ok, get_bind_eq_ok, require_bind_eq_ok, modify_eq_ok] at h
  obtain ⟨-, -, -, balance, -, supply, -, -, r, hr, rfl⟩ := h
  have hsame : r = l.reserveState := by
    rw [reserveAfterRedeem, if_neg fun h => hne h.2] at hr
    exact (Option.some.inj hr).symm
  exact ⟨supplyOf_putSupply_ne (l := l.putRemaining op.tokenId op.fromAddr (balance - op.amount)) hne _,
    hsame⟩

theorem applyTokenOp_sameReserve (hop : op.tokenId = btcveldTokenId → op.action = .transfer)
    (h : applyTokenOp P C V gate K op l = .ok () l') : SameReserve l l' := by
  simp only [applyTokenOp, get_bind_eq_ok, require_bind_eq_ok, check_bind_eq_ok] at h
  obtain ⟨issuer, -, -, h⟩ := h
  have hother : op.action ≠ .transfer → op.tokenId ≠ btcveldTokenId := fun hne ht => hne (hop ht)
  rcases haction : op.action <;> simp only [haction] at h hother
  · exact applyMint_sameReserve (hother (by simp)) h
  · exact applyTransfer_sameReserve h
  · exact applyRedeem_sameReserve (hother (by simp)) h
  · exact sameReserve_of_guarded guarded_applyReserve h
  · exact sameReserve_of_guarded guarded_applyExpose h
  · exact sameReserve_of_guarded guarded_applyCancel h
  · exact sameReserve_of_guarded guarded_applyFund h

/-! ## Transactions -/

theorem applyMarker_sameReserve {spvOn : Bool} {tx : Transaction} {data : Bytes}
    (hsensitive : hasReserveSensitiveMarker P tx = false) (hdata : data ∈ payloads tx)
    (h : applyMarker P C V gate spvOn K data l = .ok () l') : SameReserve l l' := by
  simp only [hasReserveSensitiveMarker, any_eq_false] at hsensitive
  have hpayload := hsensitive data hdata
  simp only [Bool.or_eq_true, not_or, Bool.not_eq_true] at hpayload
  obtain ⟨⟨⟨hpublic, hspv⟩, -⟩, hpeg⟩ := hpayload
  simp only [applyMarker, hpublic, hspv, Bool.false_eq_true, if_false, applyTokenMarker,
    require_bind_eq_ok] at h
  obtain ⟨op, hop, h⟩ := h
  have htoken : isTokenMarker data := by
    unfold isTokenMarker
    unfold decodeTokenOp at hop
    simp only [bind_eq_some, Option.guard_eq_some'] at hop
    obtain ⟨_, ⟨-, hstart⟩, -⟩ := hop
    exact hstart
  have htransfer : op.tokenId = btcveldTokenId → op.action = .transfer := by
    intro ht
    simpa [pegOp, htoken, hop, ht] using hpeg
  split at h
  · rename_i hcarrier
    obtain ⟨⟨htoken', hmint⟩, -⟩ : (op.tokenId = btcveldTokenId ∧ op.action = .mint) ∧ _ := by
      simpa [isReserveIssuerCarrier] using hcarrier.2
    rw [htransfer htoken'] at hmint
    cases hmint
  · exact applyTokenOp_sameReserve htransfer h

section
variable {height txIndex : Nat} {spvOn : Bool} {tx : Transaction} {txs : List (Transaction × Nat)}

theorem processTransaction_sameReserve (hsensitive : hasReserveSensitiveMarker P tx = false)
    (h : processTransaction P C V gate height spvOn tx txIndex l = .ok () l') : SameReserve l l' := by
  rcases processTransaction_eq_ok h with rfl | ⟨data, hdata, vout, h⟩
  · exact .refl _
  · exact applyMarker_sameReserve hsensitive hdata h

theorem processTransactions_sameReserve
    (hsensitive : ∀ t ∈ txs, hasReserveSensitiveMarker P t.1 = false)
    (h : processTransactions P C V gate height spvOn txs l = .ok () l') : SameReserve l l' := by
  induction txs generalizing l with
  | nil =>
    simp only [processTransactions, pure_eq_ok] at h
    exact h.2 ▸ .refl _
  | cons t txs ih =>
    simp only [processTransactions, bind_eq_ok] at h
    obtain ⟨⟨⟩, m, hm, h⟩ := h
    have hstep := processTransaction_sameReserve (hsensitive t mem_cons_self) hm
    exact hstep.trans (ih (fun t ht => hsensitive t (mem_cons_of_mem _ ht)) h)

theorem quiet_processTransaction (hstrict : strictMarkers P tx = false) :
    Quiet Refused (processTransaction P C V gate height spvOn tx txIndex) := by
  intro l e l' h
  unfold processTransaction at h
  split at h
  · simp [hstrict] at h
  · rename_i hother
    rintro rfl
    exact hother l' h

theorem quiet_processTransactions (hstrict : ∀ t ∈ txs, strictMarkers P t.1 = false) :
    Quiet Refused (processTransactions P C V gate height spvOn txs) := by
  induction txs with
  | nil => exact fun _ _ _ h => (pure_ne_error h).elim
  | cons t txs ih =>
    intro l e l' h
    rcases bind_eq_error.mp h with h | ⟨_, m, -, h⟩
    · exact quiet_processTransaction (hstrict t mem_cons_self) l e l' h
    · exact ih (fun t ht => hstrict t (mem_cons_of_mem _ ht)) m e l' h

end

/-! ## Blocks -/

variable {block : Block}

/-- The opening checks are all that the closing checks ask, when the reserve was left alone. -/
theorem closeReserve_ne_error (hv1 : P.transitionV1Required)
    (hhash : (block.getHash C).isZero = false) (hready : reserveReady P C block l)
    (hsame : SameReserve l l') {e : Stop} {m : Ledger} :
    closeReserve C block l.reserveState.transitionCount l' ≠ .error e m := by
  obtain ⟨hsupply, hholds, hheight, hprior, -⟩ := hready hv1
  have hcanonical : l.reserveState.canonical := by
    simp only [Reserve.State.accountingHolds, Bool.and_eq_true] at hholds
    exact hholds.1.1.1
  have hprocessed : Reserve.setProcessed l'.reserveState block.height (block.getHash C) =
      some { l.reserveState with
        processedVeldHeight := block.height
        processedVeldBlockHash := block.getHash C } := by
    rw [hsame.reserve, Reserve.setProcessed, if_pos]
    refine ⟨hcanonical, by simp [hhash], hheight, fun h hzero => hprior h (by simpa using hzero)⟩
  have hcloses : ∃ l'', closeReserve C block l.reserveState.transitionCount l' = .ok () l'' := by
    simp only [closeReserve, bind_eq_ok, get_eq_ok, check_eq_ok, require_eq_ok, set_eq_ok,
      modify_eq_ok]
    refine ⟨_, l', l', ⟨rfl, rfl⟩, (), l', ⟨hsame.supply ▸ hsupply, rfl⟩, _, l', ⟨hprocessed, rfl⟩,
      ⟨⟩, _, rfl, (), _, ⟨⟨?_, fun hne => absurd rfl hne⟩, rfl⟩, rfl⟩
    rw [hsame.supply]
    exact hholds
  obtain ⟨l'', hclose⟩ := hcloses
  rw [hclose]
  simp

theorem keepsSnapshot_eq_false {freeze : Bool}
    (hfreeze : freeze → P.transitionV1Required)
    (h : keepsSnapshot P block freeze = false) :
    freeze = false ∧ ∀ t ∈ block.transactions.zipIdx, strictMarkers P t.1 = false := by
  simp only [keepsSnapshot, Bool.or_eq_false_iff, any_eq_false, Bool.and_eq_false_iff] at h
  obtain ⟨hstrict, hno⟩ := h
  refine ⟨?_, fun t ht => ?_⟩
  · rcases hno with hno | hno
    · cases freeze with
      | false => rfl
      | true => exact absurd (hfreeze rfl) (by simp [hno])
    · exact hno
  · simpa using hstrict t.1 (fst_mem_of_mem_zipIdx ht)

/-- A block without a snapshot is never refused once it has begun to write. -/
theorem processBody_not_refused (hhash : (block.getHash C).isZero = false)
    (hready : reserveReady P C block l)
    (hstrict : ∀ t ∈ block.transactions.zipIdx, strictMarkers P t.1 = false) :
    processBody P C V gate block false l ≠ .error .reject l' := by
  intro h
  unfold processBody at h
  rw [get_bind_eq_error] at h
  rcases bind_eq_error.mp h with h | ⟨_, _, hfreeze, h⟩
  · exact (pure_ne_error h).elim
  obtain ⟨-, rfl⟩ := pure_eq_ok.mp hfreeze
  rw [modify_bind_eq_error] at h
  rcases bind_eq_error.mp h with h | ⟨_, m, hrun, h⟩
  · exact quiet_processTransactions hstrict _ _ _ h rfl
  rw [get_bind_eq_error] at h
  rcases bind_eq_error.mp h with h | ⟨_, n, hcommit, h⟩
  · exact (guarded_commitRedeems _).quiet _ _ _ h rfl
  rw [modify_bind_eq_error] at h
  split at h
  · rename_i hv1
    have hopen : SameReserve l (beginBlock P block l) := by
      have hbooks := beginBlock_books P block l
      exact ⟨congrArg (Books.supplyOf · btcveldTokenId) hbooks, congrArg Books.reserve hbooks⟩
    have hsensitive : ∀ t ∈ block.transactions.zipIdx, hasReserveSensitiveMarker P t.1 = false := by
      intro t ht
      have := hstrict t ht
      simp only [strictMarkers, hv1, Bool.true_and, Bool.or_eq_false_iff] at this
      exact this.2
    have hsame := (hopen.trans (processTransactions_sameReserve hsensitive hrun)).trans
      (sameReserve_of_guarded (guarded_commitRedeems _) hcommit)
    refine closeReserve_ne_error hv1 hhash hready ?_ h
    exact hsame.trans ⟨rfl, rfl⟩
  · exact (pure_ne_error h).elim

/-- A block that is refused leaves every part of the ledger as it was. -/
theorem refused_token_block_restores {block : Block} (hhash : (block.getHash C).isZero = false)
    (h : processBlock P C V gate block l = .error .reject l') : l' = l := by
  unfold processBlock at h
  rw [get_bind_eq_error] at h
  obtain heq | ⟨hready, h⟩ := check_bind_eq_error h
  · exact heq
  rcases bind_eq_error.mp h with h | ⟨freeze, _, hfreeze, h⟩
  · exact (readOnly_require _ _ l).2 _ _ h
  obtain ⟨hfreeze, rfl⟩ := require_eq_ok.mp hfreeze
  obtain heq | ⟨-, h⟩ := check_bind_eq_error h
  · exact heq
  obtain heq | ⟨-, h⟩ := check_bind_eq_error h
  · exact heq
  -- the snapshot, or a body that cannot be refused
  split at h
  · rename_i m hbody
    cases hsnapshot : keepsSnapshot P block freeze with
    | true =>
      rw [hsnapshot] at h
      cases h
      rfl
    | false =>
      have hv1 : freeze → P.transitionV1Required := by
        rintro rfl
        unfold reorgFreeze at hfreeze
        split at hfreeze
        · rename_i hactive
          exact hactive.1
        · cases hfreeze
      obtain ⟨rfl, hstrict⟩ := keepsSnapshot_eq_false hv1 hsnapshot
      exact absurd hbody (processBody_not_refused hhash hready hstrict)
  · rename_i hother
    exact absurd h (hother l')

end

def sampleRedeemBlock : Block where
  header := ⟨1, .zero, .zero, 0, 0, 0⟩
  transactions := [⟨1, [], [⟨0, buildOpReturnScript
    (encodeTokenOp ⟨.redeem, btcveldTokenId, aliceAddress, [], 2000, ascii "00"⟩)⟩], 0⟩]
  height := 1

theorem refused_token_block_restores_redeem :
    succeeds (processBlock .sample .blank ⟨none, fun _ => none⟩ ⟨true, true, true⟩
        sampleRedeemBlock) (Ledger.empty .sample Crypto.blank.sha256) = false ∧
      final (processBlock .sample .blank ⟨none, fun _ => none⟩ ⟨true, true, true⟩
        sampleRedeemBlock) (Ledger.empty .sample Crypto.blank.sha256) =
          Ledger.empty .sample Crypto.blank.sha256 := by
  have hrefused : (match processBlock .sample .blank ⟨none, fun _ => none⟩ ⟨true, true, true⟩
      sampleRedeemBlock (Ledger.empty .sample Crypto.blank.sha256) with
    | .error e _ => decide (e = .reject)
    | .ok _ _ => false) = true := by decide +kernel
  split at hrefused
  · rename_i e l' he
    have hl := refused_token_block_restores (by decide +kernel) (of_decide_eq_true hrefused ▸ he)
    simp [Program.succeeds, Program.final, he, hl]
  · cases hrefused

end Veld
