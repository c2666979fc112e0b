import Veld.Consensus.SpendJudgement
import Veld.Node.RedeemCovenant

/-!
# Relaying a payout

A proven spend that is classified as a payout is rebuilt as an RTP1 claim, encoded, verified and applied.
-/

namespace Veld.Reserve

open Wire Btcspv Btcveld List

variable {P : Profile} {sha256 : Bytes → Hash256} {state : State} {supply : Nat} {tx : Bytes}
  {parents : List Bytes} {custodySpk : Bytes} {validRecipient : Bytes → Bool}
  {lookup : Hash256 → Option PayoutContext} {ctx : PayoutContext} {f : SpendFacts}
  {c : SpendClassification}

/-! ## Classified payouts -/

structure PayoutFacts (P : Profile) (sha256 : Bytes → Hash256) (state : State) (supply : Nat)
    (tx : Bytes) (parents : List Bytes) (custodySpk : Bytes) (ctx : PayoutContext)
    (f : SpendFacts) : Prop where
  facts : spendFacts P sha256 state supply tx parents custodySpk = .ok f
  nonempty : state.status ≠ .empty
  once : ∃ index, onlyOne f.reserve.current = some index
  operation : f.auth.operation = .payout
  admitted : ctx.principalSats ≠ 0 ∧ ctx.destinationSpk ≠ [] ∧ f.reserve.otherCustody = 0 ∧
    2 ≤ f.inputs.prevouts.length ∧ f.auth.mintAmount = 0 ∧
    ctx.principalSats ≤ state.openRedemptionPrincipal ∧
    ctx.principalSats ≤ state.reserveValueSats
  paid : solePayment f.tx.outputs ctx.destinationSpk = some ctx.principalSats ∧
    (state.reserveValueSats - ctx.principalSats = 0 → f.outputs.custody.length = 0) ∧
    (state.reserveValueSats - ctx.principalSats ≠ 0 → f.outputs.custody.length = 1 ∧
      f.outputs.custodyValue = state.reserveValueSats - ctx.principalSats)

def payoutOf (state : State) (f : SpendFacts) (ctx : PayoutContext) : SpendClassification :=
  let successor := state.reserveValueSats - ctx.principalSats
  { operation := .payout, bitcoinTxid := f.tx.txid,
    newReserveTxid := if successor = 0 then Hash256.zero else f.tx.txid,
    newReserveVout := if successor = 0 then noVout else f.outputs.custodyVout,
    newReserveValue := if successor = 0 then 0 else f.outputs.custodyValue,
    exactCommitment := f.auth.exactCommitment, mintAmount := f.auth.mintAmount,
    payout := some ctx }

theorem classify_payout_iff :
    classifyBitcoinReserveSpend P sha256 state supply tx parents custodySpk validRecipient lookup =
        .ok c ∧ c.operation = .payout ↔
      ∃ f ctx, PayoutFacts P sha256 state supply tx parents custodySpk ctx f ∧
        lookup f.auth.exactCommitment = some ctx ∧ c = payoutOf state f ctx := by
  constructor
  · rintro ⟨h, hop⟩
    obtain ⟨f, hf, h⟩ := bind_eq_ok.mp h
    split at h
    · simp only [classifyOpen, bind_eq_ok] at h
      obtain ⟨-, -, heq⟩ := h
      cases heq
      cases hop
    · rename_i hactive
      obtain ⟨index, hindex, h⟩ := bind_eq_ok.mp h
      cases hauth : f.auth.operation with
      | «open» => simp [hauth] at h
      | freeze => simp [hauth] at h
      | rollover =>
        simp only [hauth, classifyRollover, bind_eq_ok] at h
        obtain ⟨-, -, heq⟩ := h
        cases heq
        cases hop
      | close =>
        simp only [hauth, classifyClose, bind_eq_ok] at h
        obtain ⟨-, -, heq⟩ := h
        cases heq
        cases hop
      | deposit =>
        simp only [hauth, classifyDeposit, bind_eq_ok] at h
        obtain ⟨_, _, ⟨_, _, _, _⟩, _, _, _, _, _, heq⟩ := h
        cases heq
        cases hop
      | payout =>
        simp only [hauth, classifyPayout, bind_eq_ok, orElse_eq_ok, ensure_eq_ok] at h
        obtain ⟨ctx, hctx, -, hadmitted, -, hpaid, heq⟩ := h
        cases heq
        exact ⟨f, ctx, ⟨hf, hactive, ⟨index, orElse_eq_ok.mp hindex⟩, hauth, hadmitted, hpaid⟩,
          hctx, rfl⟩
  · rintro ⟨f, ctx, ⟨hf, hactive, ⟨index, hindex⟩, hauth, hadmitted, hpaid⟩, hctx, rfl⟩
    refine ⟨bind_eq_ok.mpr ⟨f, hf, ?_⟩, rfl⟩
    rw [if_neg hactive]
    refine bind_eq_ok.mpr ⟨index, orElse_eq_ok.mpr hindex, ?_⟩
    simp only [hauth, classifyPayout, bind_eq_ok, orElse_eq_ok, ensure_eq_ok]
    exact ⟨ctx, hctx, (), hadmitted, (), hpaid, rfl⟩

/-- The facts every classified spend has. -/
structure SpendFacts.Tested (P : Profile) (sha256 : Bytes → Hash256) (state : State) (supply : Nat)
    (tx : Bytes) (parents : List Bytes) (custodySpk : Bytes) (f : SpendFacts) : Prop where
  script : custodySpk ≠ []
  accounting : state.accountingHolds supply = true
  parsed : parseWitnessAwareBtcTx sha256 tx maxDirectInputs 100000 = some f.tx
  inputs : readInputFacts sha256 tx parents = .ok f.inputs
  conserved : ∃ total, sumOutputs f.tx.outputs = some total ∧ total ≤ f.inputs.inputTotal
  outputs : f.outputs = outputFacts P sha256 f.tx.outputs custodySpk
  reserve : reserveInputs state (state.status != .empty) f.inputs custodySpk = some f.reserve
  unfrozen : state.status ≠ .frozen
  marker : onlyOne f.outputs.auths = some f.auth
  bound : f.outputs.nullData = 1 ∧ f.auth.priorCommitment = state.transitionCommitment

theorem spendFacts_tested
    (h : spendFacts P sha256 state supply tx parents custodySpk = .ok f) :
    f.Tested P sha256 state supply tx parents custodySpk := by
  simp only [spendFacts, bind_eq_ok, orElse_eq_ok, ensure_eq_ok, mapError_eq_ok] at h
  obtain ⟨_, ⟨hspk, hacc⟩, t, ht, inputs, hin, total, htotal, _, hle, reserve, hreserve, _, hfrozen,
    _, -, auth, hauth, _, hbound, heq⟩ := h
  cases heq
  exact ⟨hspk, hacc, ht, hin, ⟨total, htotal, hle⟩, rfl, hreserve, hfrozen, hauth, hbound⟩

theorem PayoutFacts.active (h : PayoutFacts P sha256 state supply tx parents custodySpk ctx f) :
    state.status = .active := by
  have hfrozen := (spendFacts_tested h.facts).unfrozen
  have hempty := h.nonempty
  cases hs : state.status with
  | empty => exact absurd hs hempty
  | active => rfl
  | frozen => exact absurd hs hfrozen

theorem PayoutFacts.successor (h : PayoutFacts P sha256 state supply tx parents custodySpk ctx f) :
    (payoutOf state f ctx).newReserveValue = state.reserveValueSats - ctx.principalSats := by
  simp only [payoutOf]
  split
  · rename_i hzero
    exact hzero.symm
  · rename_i hsome
    exact (h.paid.2.2 hsome).2

theorem custodyVout_lt {outputs : List BtcTxOut}
    (h : (outputFacts P sha256 outputs custodySpk).custody.length = 1) :
    (outputFacts P sha256 outputs custodySpk).custodyVout < outputs.length := by
  obtain ⟨⟨o, i⟩, hone⟩ := length_eq_one_iff.mp h
  have hmem : (o, i) ∈ (outputFacts P sha256 outputs custodySpk).custody := by
    rw [hone]
    exact mem_cons_self
  have hi := (mem_zipIdx (mem_filter.mp hmem).1).2.1
  simpa [OutputFacts.custodyVout, hone] using hi

theorem PayoutFacts.vout (h : PayoutFacts P sha256 state supply tx parents custodySpk ctx f) :
    (state.reserveValueSats - ctx.principalSats = 0 →
      (payoutOf state f ctx).newReserveVout = noVout) ∧
    (state.reserveValueSats - ctx.principalSats ≠ 0 →
      (payoutOf state f ctx).newReserveVout < noVout) := by
  have hf := spendFacts_tested h.facts
  refine ⟨fun hzero => if_pos hzero, fun hsome => ?_⟩
  have hone := (h.paid.2.2 hsome).1
  rw [hf.outputs] at hone
  have hlt := custodyVout_lt hone
  have hmany := parseWitnessAwareBtcTx_outputs_le hf.parsed
  simp only [payoutOf, if_neg hsome]
  rw [hf.outputs]
  unfold noVout
  omega

/-! ## Verification of the rebuilt claim -/

variable {C : Crypto} {s : ProvenSpend} {headers : BtcHeaderChain} {payload : Bytes} {depth : Nat}

def relayed (P : Profile) (C : Crypto) (state : State) (s : ProvenSpend) (f : SpendFacts)
    (ctx : PayoutContext) : Verified where
  claim := fsp2Claim P C state s (payoutOf state f ctx)
  payoutRequestId := ctx.requestId
  payoutPrincipalSats := ctx.principalSats
  payoutDestinationSpk := ctx.destinationSpk
  terminal := decide (state.reserveValueSats - ctx.principalSats = 0)

section
variable (h : PayoutFacts P C.sha256 state supply s.tx s.directParents custodySpk ctx f)
include h

theorem classifiedAs_fsp2Claim (hctx : ctx.requestCommitment = f.auth.exactCommitment) :
    classifiedAs P C.sha256 state supply (fsp2Claim P C state s (payoutOf state f ctx)) custodySpk
      validRecipient (some ctx) = .ok (payoutOf state f ctx) := by
  have hlookup : (some ctx).filter (fun p => p.requestCommitment == f.auth.exactCommitment) =
      some ctx := by simp [Option.filter, hctx]
  have hc : classifyBitcoinReserveSpend P C.sha256 state supply s.tx s.directParents custodySpk
      validRecipient (fun commitment => (some ctx).filter fun p => p.requestCommitment == commitment) =
        .ok (payoutOf state f ctx) ∧ (payoutOf state f ctx).operation = .payout :=
    classify_payout_iff.mpr ⟨f, ctx, h, hlookup, rfl⟩
  have hmint : (payoutOf state f ctx).mintAmount = 0 := h.admitted.2.2.2.2.1
  unfold classifiedAs
  simp only [fsp2Claim]
  rw [hc.1]
  exact if_pos ⟨rfl, rfl, rfl, rfl, rfl, rfl, hmint⟩

theorem markerMatches_fsp2Claim (recipient : Bytes) :
    markerMatches (fsp2Claim P C state s (payoutOf state f ctx)) recipient f.outputs = .ok () := by
  have hf := spendFacts_tested h.facts
  simp only [markerMatches, bind_eq_ok, orElse_eq_ok, ensure_eq_ok]
  exact ⟨f.auth, hf.marker, hf.bound.1, h.operation, hf.bound.2, rfl, h.admitted.2.2.2.2.1⟩

theorem successorMatches_fsp2Claim :
    successorMatches (fsp2Claim P C state s (payoutOf state f ctx)) f.tx.txid f.outputs =
      .ok () := by
  unfold successorMatches
  by_cases hzero : state.reserveValueSats - ctx.principalSats = 0
  · rw [if_neg (fun hc => hc.2 ⟨rfl, h.vout.1 hzero⟩)]
    simp only [fsp2Claim, payoutOf, if_pos hzero, ensure_eq_ok]
    exact ⟨h.paid.2.1 hzero, by decide, trivial, trivial⟩
  · have hlt := h.vout.2 hzero
    have hpaid := h.paid.2.2 hzero
    rw [if_pos ⟨by simp [fsp2Claim], fun hc => absurd hc.2 (Nat.ne_of_lt hlt)⟩]
    refine ensure_eq_ok.mpr ⟨hpaid.1, ?_, ?_, ?_, Nat.ne_of_lt hlt, ?_⟩
    · simp [fsp2Claim, payoutOf, if_neg hzero]
    · simp [fsp2Claim, payoutOf, if_neg hzero]
    · simp [fsp2Claim, payoutOf, if_neg hzero]
    · simp only [fsp2Claim, h.successor]
      exact hzero

theorem verifyPayout_fsp2Claim (hctx : ctx.requestCommitment = f.auth.exactCommitment) :
    verifyPayout state (fsp2Claim P C state s (payoutOf state f ctx)) f.tx f.inputs (some ctx)
      f.reserve = .ok (relayed P C state s f ctx) := by
  obtain ⟨hamount, hdest, hother, hinputs, hmint, -, hle⟩ := h.admitted
  simp only [verifyPayout, bind_eq_ok, orElse_eq_ok, ensure_eq_ok]
  refine ⟨ctx, rfl, (), ⟨hamount, hdest, hother, hinputs, rfl, rfl, hctx.symm, hle⟩, (),
    ⟨h.paid.1, h.successor, h.vout.1, fun hno => ?_⟩, rfl⟩
  by_contra hsome
  exact absurd hno (Nat.ne_of_lt (h.vout.2 hsome))

theorem verify_fsp2Claim (hctx : ctx.requestCommitment = f.auth.exactCommitment)
    (hmerkle : headers.verifyMerkle C.sha256 s.block f.tx.txid s.merkleBranch s.merkleDirections =
      true) (hfinal : headers.isFinalForExternalValue P s.block depth)
    (hdec : decodeProof C.sha256 payload =
      some (fsp2Claim P C state s (payoutOf state f ctx))) :
    verify P C.sha256 headers state supply payload custodySpk depth validRecipient (some ctx) =
      .ok (relayed P C state s f ctx) := by
  have hf := spendFacts_tested h.facts
  have hactive := h.active
  obtain ⟨total, htotal, hle⟩ := hf.conserved
  obtain ⟨index, hindex⟩ := h.once
  have hcanonical : state.canonical := by
    have := hf.accounting
    simp only [State.accountingHolds, Bool.and_eq_true] at this
    exact this.1.1.1
  have hreserve : reserveInputs state (state.status == .active) f.inputs custodySpk =
      some f.reserve := by
    have := hf.reserve
    rwa [hactive] at this ⊢
  unfold verify
  simp only [bind_eq_ok, orElse_eq_ok, ensure_eq_ok]
  refine ⟨_, hdec, (), ⟨hcanonical, hf.script, rfl, rfl, rfl, rfl, rfl, rfl⟩, (),
    ⟨hf.unfrozen, by simp [hactive, fsp2Claim]⟩, f.tx, hf.parsed, (), ⟨rfl, hmerkle, hfinal⟩,
    _, classifiedAs_fsp2Claim h hctx, f.inputs, hf.inputs, total, htotal, (), hle, (),
    by simp [fsp2Claim], (), hf.outputs ▸ markerMatches_fsp2Claim h _, f.reserve, hreserve, (),
    hf.outputs ▸ successorMatches_fsp2Claim h, ?_⟩
  rw [if_neg (by simp [fsp2Claim])]
  exact bind_eq_ok.mpr ⟨index, orElse_eq_ok.mpr hindex, verifyPayout_fsp2Claim h hctx⟩

end

/-! ## The codec -/

/-- The members of a reserve state within their widths. -/
structure State.Typed (state : State) : Prop where
  vout : state.reserveVout ≤ uint32Max
  value : state.reserveValueSats ≤ uint64Max
  count : state.transitionCount ≤ uint64Max

def relayedSize (s : ProvenSpend) : Nat :=
  284 + 32 * s.merkleBranch.length + s.tx.length + (s.directParents.map (4 + ·.length)).sum

theorem flatMap_parents_length (ps : List Bytes) :
    (ps.flatMap fun p => putLE 4 p.length ++ p).length = (ps.map (4 + ·.length)).sum := by
  induction ps with
  | nil => rfl
  | cons p ps ih =>
    rw [flatMap_cons, length_append, length_append, putLE_length, ih, map_cons,
      sum_cons]

theorem claimBytes_length (claim : Claim) (field : Bytes) :
    (claimBytes claim field).length =
      284 + 32 * claim.merkleBranch.length + claim.bitcoinTx.length +
        (claim.directParents.map (4 + ·.length)).sum + field.length := by
  have hmagic : (ascii "RTP1").length = 4 := by decide
  unfold claimBytes
  simp only [length_append, flatMap_parents_length, Btcnull.flatMap_bytes_length, putLE_length,
    Hash256.size, hmagic]
  omega

theorem claimBytes_fsp2Claim_length (c : SpendClassification) :
    (claimBytes (fsp2Claim P C state s c) []).length = relayedSize s :=
  claimBytes_length _ _

theorem decodeProof_encodeProof_of_fits {claim : Claim} (henc : claim.Encodable)
    (hno : claim.hasNullifierProof = false) (hnone : claim.nullifierProof = noProof)
    (hmin : 300 ≤ (claimBytes claim []).length)
    (hmax : (claimBytes claim []).length ≤ maxProofBytes) :
    decodeProof sha256 (encodeProof sha256 claim) = some claim := by
  have hdec : decodeProof sha256 (claimBytes claim []) = some claim :=
    decodeProof_claimBytes henc (.inl ⟨hno, hnone, rfl⟩) hmin hmax
  rw [encodeProof_of_decodeProof hdec, hdec]

theorem relayedSize_le_of_encodes (h : encodeProof C.sha256 (fsp2Claim P C state s c) ≠ []) :
    relayedSize s ≤ maxProofBytes := by
  have hsize := (tested_of_encodeProof h).size
  rwa [Claim.nullifierField, if_neg (by simp [fsp2Claim]), claimBytes_fsp2Claim_length] at hsize

theorem ne_nil_of_decodeProof {bs : Bytes} {claim : Claim} (h : decodeProof sha256 bs = some claim) :
    bs ≠ [] := by
  obtain ⟨-, -, -, -, hmin, -⟩ := decodeProof_eq_some h
  intro hnil
  rw [hnil] at hmin
  exact absurd hmin (by decide)

/-! ## Application of the rebuilt claim -/

theorem txid_ne_zero {maxInputs maxOutputs : Nat} {t : WitnessAwareBtcTx}
    (hnz : ∀ bs, sha256 bs ≠ .zero)
    (h : parseWitnessAwareBtcTx sha256 tx maxInputs maxOutputs = some t) :
    t.txid ≠ .zero := by
  obtain ⟨_, _, _, _, -, -, -, hid⟩ := parseWitnessAwareBtcTx_eq_some h
  rcases hid with ⟨-, _, _, -, -, hid⟩ | ⟨-, -, hid⟩
  · exact hid ▸ hnz _
  · exact hid ▸ hnz _

theorem accountingHolds_iff :
    state.accountingHolds supply ↔ state.canonical ∧
      supply ≤ uint64Max - state.openRedemptionPrincipal ∧
      supply + state.openRedemptionPrincipal ≤ uint64Max - state.surplusSats ∧
      state.reserveValueSats = supply + state.openRedemptionPrincipal + state.surplusSats := by
  simp only [State.accountingHolds, Bool.and_eq_true, decide_eq_true_eq, beq_iff_eq, and_assoc]

/-- The state after a relayed payout, before the count and commitment advance. -/
def paidState (state : State) (s : ProvenSpend) (f : SpendFacts) (ctx : PayoutContext) : State :=
  let opened := state.openRedemptionPrincipal - ctx.principalSats
  if state.reserveValueSats - ctx.principalSats = 0 then
    { state.emptied with openRedemptionPrincipal := opened, reserveValueSats := 0 }
  else
    { state with
      reserveTxid := f.tx.txid
      reserveVout := f.outputs.custodyVout
      reserveValueSats := state.reserveValueSats - ctx.principalSats
      reserveBitcoinBlock := s.block
      openRedemptionPrincipal := opened }

section
variable (h : PayoutFacts P C.sha256 state supply s.tx s.directParents custodySpk ctx f)
include h

theorem nextState_relayed :
    nextState state (relayed P C state s f ctx) supply supply = some (paidState state s f ctx) := by
  obtain ⟨-, -, -, -, -, hopen, hle⟩ := h.admitted
  obtain ⟨-, -, -, hvalue⟩ := accountingHolds_iff.mp (spendFacts_tested h.facts).accounting
  have hsuccessor := h.successor
  have hprincipal : state.reserveValueSats - (payoutOf state f ctx).newReserveValue =
      ctx.principalSats := by omega
  unfold nextState
  simp only [relayed, fsp2Claim, hprincipal]
  refine bind_step (guard_pos ⟨h.active, trivial, by omega⟩) ?_
  refine bind_step (guard_pos ⟨hopen, trivial⟩) ?_
  refine bind_step (guard_pos fun hterminal => ?_) ?_
  · have := of_decide_eq_true hterminal
    omega
  · unfold paidState
    by_cases hzero : state.reserveValueSats - ctx.principalSats = 0
    · simp [payoutOf, hzero]
    · simp [payoutOf, hzero, State.withSuccessor, (h.paid.2.2 hzero).2]

theorem paidState_accounting (hnz : ∀ bs, C.sha256 bs ≠ .zero)
    (hblock : s.block ≠ .zero) (count : Nat) (commitment : Hash256)
    (hcommitment : commitment ≠ .zero) :
    State.accountingHolds { paidState state s f ctx with
      transitionCount := count, transitionCommitment := commitment } supply = true := by
  obtain ⟨-, -, -, -, -, hopen, hle⟩ := h.admitted
  have hf := spendFacts_tested h.facts
  obtain ⟨-, hfit, hfit', hvalue⟩ := accountingHolds_iff.mp hf.accounting
  refine accountingHolds_iff.mpr ?_
  unfold paidState
  by_cases hzero : state.reserveValueSats - ctx.principalSats = 0
  · simp only [if_pos hzero]
    refine ⟨?_, ?_, ?_, ?_⟩
    · have hsurplus : state.surplusSats = 0 := by omega
      have hopened : state.openRedemptionPrincipal - ctx.principalSats = 0 := by omega
      simp [State.canonical, State.emptied, Hash256.isZero, hcommitment, hsurplus, hopened]
    · omega
    · simp only [State.emptied]
      omega
    · simp only [State.emptied]
      omega
  · have hvout := h.vout.2 hzero
    simp only [payoutOf, if_neg hzero] at hvout
    simp only [if_neg hzero]
    refine ⟨?_, ?_, ?_, ?_⟩
    · simp [State.canonical, State.hasOutpoint, Hash256.isZero, hcommitment, h.active, hblock,
        txid_ne_zero hnz hf.parsed, Nat.ne_of_lt hvout, hzero]
    · omega
    · omega
    · omega

end

def relayedState (P : Profile) (C : Crypto) (state : State) (s : ProvenSpend) (f : SpendFacts)
    (ctx : PayoutContext) : State :=
  { paidState state s f ctx with
    transitionCount := (paidState state s f ctx).transitionCount + 1
    transitionCommitment := transitionCommitment C.sha256 (relayed P C state s f ctx).claim }

/-- A relayed payout applies unless the transition counter is exhausted. -/
theorem applyAuthorized_relayed_iff
    (h : PayoutFacts P C.sha256 state supply s.tx s.directParents custodySpk ctx f)
    (hnz : ∀ bs, C.sha256 bs ≠ .zero) (hblock : s.block ≠ .zero) :
    (∃ next, applyAuthorized P C.sha256 state (relayed P C state s f ctx) supply supply =
      some next) ↔ state.transitionCount ≠ uint64Max := by
  constructor
  · rintro ⟨next, hnext⟩
    obtain ⟨_, hguard, -⟩ := bind_eq_some.mp hnext
    rw [Option.guard_eq_some'] at hguard
    exact hguard.2.2.2
  · intro hcount
    have hacc := (spendFacts_tested h.facts).accounting
    refine ⟨relayedState P C state s f ctx, ?_⟩
    unfold applyAuthorized
    refine (bind_of_eq_some (guard_pos ⟨by simp [relayed, fsp2Claim], hacc,
      ⟨rfl, rfl, rfl, rfl, rfl, rfl⟩, hcount⟩) _).trans ?_
    refine bind_step (nextState_relayed h) ?_
    exact bind_of_eq_some (guard_pos (paidState_accounting h hnz hblock _ _ (hnz _))) _

end Veld.Reserve

namespace Veld.Node

open Wire hiding bind_eq_ok
open Program Btcveld Btcspv Reserve List

section
variable {A : RedeemArchive} {P : Profile} {C : Crypto} {headers : BtcHeaderChain}
  {cov : Covenant A} {l : Ledger} {c : SpendClassification} {proof : FraudProof} {payload : Bytes}

def spendOf (proof : FraudProof) : ProvenSpend :=
  ⟨proof.spendBlock, proof.spendMerkleDirections, proof.spendMerkleBranch, proof.spendTx,
    proof.directParents⟩

theorem eq_singleton_of_onlyOne {α : Type} {xs : List α} {a : α} (h : onlyOne xs = some a) :
    xs = [a] := by
  unfold onlyOne at h
  split at h
  · cases h
    rfl
  · cases h

variable {ctx : PayoutContext}

theorem payoutLookup_commitment {commitment : Hash256}
    (h : (viewOf headers cov).payoutLookup commitment = some ctx) :
    ctx.requestCommitment = commitment := by
  simp only [viewOf, Option.map_eq_some_iff] at h
  obtain ⟨r, hr, rfl⟩ := h
  unfold Covenant.findOpenByCommitment at hr
  split at hr
  · cases hr
  · have hmem : r ∈ (cov.requests.entries.filter fun row =>
        row.2.status.isOpen && row.2.requestCommitment == commitment).map (·.2) := by
      rw [eq_singleton_of_onlyOne hr]
      exact mem_cons_self
    obtain ⟨row, hrow, rfl⟩ := mem_map.mp hmem
    have hopen := (mem_filter.mp hrow).2
    rw [Bool.and_eq_true, beq_iff_eq] at hopen
    exact hopen.2

variable {state : Reserve.State} {custodySpk : Bytes} {supply kBtc : Nat} {f : SpendFacts}

section
variable (htyped : state.Typed) (he : SpendEvidence P C.sha256 headers kBtc proof)
  (h : PayoutFacts P C.sha256 state supply proof.spendTx proof.directParents custodySpk ctx f)
include htyped he h

theorem encodable_fsp2Claim :
    (fsp2Claim P C state (spendOf proof) (payoutOf state f ctx)).Encodable := by
  have hinputs := (spendFacts_tested h.facts).inputs
  simp only [readInputFacts, Wire.bind_eq_ok, orElse_eq_ok, ensure_eq_ok, Prod.exists] at hinputs
  obtain ⟨spend, -, _, ⟨hlen, hne, hcount⟩, -⟩ := hinputs
  refine
    { priorVout := htyped.vout, priorValue := htyped.value, priorCount := htyped.count
      newVout := ?_, newValue := ?_, mint := Nat.zero_le _
      directions := he.directions, branch := he.branch, noHighBits := he.noHighBits
      txLong := he.txLong, txFits := he.txFits, parents := ?_, parentCount := hlen ▸ hcount
      parentsFit := he.parentsFit }
  · by_cases hzero : state.reserveValueSats - ctx.principalSats = 0
    · exact (h.vout.1 hzero).le
    · exact (h.vout.2 hzero).le
  · have hvalue := htyped.value
    have hsuccessor := h.successor
    simp only [fsp2Claim, hsuccessor]
    omega
  · intro hnil
    simp only [fsp2Claim, spendOf] at hnil
    rw [hnil, length_nil] at hlen
    exact hne (length_eq_zero_iff.mp hlen)

theorem decodeProof_fsp2Claim (hfits : relayedSize (spendOf proof) ≤ maxProofBytes) :
    decodeProof C.sha256 (encodeProof C.sha256
        (fsp2Claim P C state (spendOf proof) (payoutOf state f ctx))) =
      some (fsp2Claim P C state (spendOf proof) (payoutOf state f ctx)) := by
  refine decodeProof_encodeProof_of_fits (encodable_fsp2Claim htyped he h) rfl rfl ?_ ?_
  · have hlong := he.txLong
    rw [claimBytes_fsp2Claim_length]
    simp only [relayedSize, spendOf]
    omega
  · rw [claimBytes_fsp2Claim_length]
    exact hfits

end

theorem spendTxid_eq (he : SpendEvidence P C.sha256 headers kBtc proof)
    (h : PayoutFacts P C.sha256 state supply proof.spendTx proof.directParents custodySpk ctx f) :
    proof.spendTxid = f.tx.txid := by
  obtain ⟨t, ht, hid, -⟩ := he.spend
  have hparsed := (spendFacts_tested h.facts).parsed
  have hfew := parseWitnessAwareBtcTx_inputs_le hparsed
  have hwide : parseWitnessAwareBtcTx C.sha256 proof.spendTx maxMspvParentCount 100000 = some f.tx :=
    parseWitnessAwareBtcTx_limit hparsed (hfew.trans (by decide)) (by decide)
  obtain rfl : f.tx = t := Option.some.inj (hwide.symm.trans ht)
  exact hid.symm

theorem classifyBtcVeldReserveSpend_eq_ok {V : View} {tx : Bytes} {parents : List Bytes} :
    classifyBtcVeldReserveSpend P C V l tx parents = .ok c ↔ P.transitionV1Required ∧
      0 ≤ l.supplyOf btcveldTokenId ∧
      classifyBitcoinReserveSpend P C.sha256 l.reserveState (l.supplyOf btcveldTokenId).toNat tx
        parents P.custodySpk (canCredit P C) V.payoutLookup = .ok c := by
  unfold classifyBtcVeldReserveSpend
  split
  · rename_i hoff
    simp [hoff]
  · rename_i hon
    split
    · rename_i hneg
      simp [hneg]
    · rename_i hpos
      simp [Bool.not_eq_false _ ▸ hon, not_lt.mp hpos]

theorem applyFsp2AuthorizedReservePayout_succeeds_iff {V : View} {s : ProvenSpend}
    (hc : classifyBtcVeldReserveSpend P C V l s.tx s.directParents = .ok c)
    (hop : c.operation = .payout) (hctx : c.payout = some ctx) (hheaders : V.headers = some headers) :
    (∃ applied l', applyFsp2AuthorizedReservePayout P C V s l = .ok applied l') ↔
      (P.transitionV1Required ∧ l.reserveState.status = .active ∧
        s.merkleBranch.length ≤ 32 ∧
        (s.merkleBranch.length < 32 → s.merkleDirections >>> s.merkleBranch.length = 0) ∧
        l.lastBlockReserveEdges = 0 ∧ 0 ≤ l.supplyOf btcveldTokenId) ∧
      encodeProof C.sha256 (fsp2Claim P C l.reserveState s c) ≠ [] ∧
      ∃ v, Reserve.verify P C.sha256 headers l.reserveState (l.supplyOf btcveldTokenId).toNat
          (encodeProof C.sha256 (fsp2Claim P C l.reserveState s c)) P.custodySpk P.spvKBtc
          (canCredit P C) (some ctx) = .ok v ∧ v.claim.bitcoinTxid = c.bitcoinTxid ∧
        ∃ next, Reserve.applyAuthorized P C.sha256 l.reserveState v
          (l.supplyOf btcveldTokenId).toNat (l.supplyOf btcveldTokenId).toNat = some next := by
  simp only [applyFsp2AuthorizedReservePayout, get_bind_eq_ok, require_bind_eq_ok, check_bind_eq_ok]
  constructor
  · rintro ⟨applied, l', headers', hh, hchecks, c', hc', -, hencoded, v, hv, hid, next, hnext, -⟩
    obtain rfl : c = c' := Except.ok.inj (hc.symm.trans (eq_ok_of_toOption hc'))
    obtain rfl : headers = headers' := Option.some.inj (hheaders.symm.trans hh)
    exact ⟨hchecks, hencoded, v, hctx ▸ eq_ok_of_toOption hv, hid, next, hnext⟩
  · rintro ⟨hchecks, hencoded, v, hv, hid, next, hnext⟩
    exact ⟨_, _, headers, hheaders, hchecks, c, by rw [hc]; rfl, ⟨hop, by rw [hctx]; rfl⟩, hencoded,
      v, by rw [hctx, hv]; rfl, hid, next, hnext, rfl⟩

theorem spendBlock_ne_zero (hheaders : headers.get Hash256.zero = none)
    (he : SpendEvidence P C.sha256 headers kBtc proof) : proof.spendBlock ≠ .zero := by
  intro hzero
  have hmerkle := he.merkle
  rw [BtcHeaderChain.verifyMerkle, hzero, hheaders] at hmerkle
  cases hmerkle

/-- A payout that an accepted FSP2 proof carries and the classifier authorises is applied, unless
the block has moved the reserve already, the transition counter is exhausted, or the rebuilt proof
is longer than an RTP1 proof may be. -/
theorem classified_payout_applies_iff (hnz : ∀ bs, C.sha256 bs ≠ .zero)
    (hheaders : headers.get Hash256.zero = none) (htyped : l.reserveState.Typed)
    (hproof : verifyFsp2 P C.sha256 headers payload P.custodySpk P.spvKBtc = .ok proof)
    (hc : classifyBtcVeldReserveSpend P C (viewOf headers cov) l proof.spendTx
      proof.directParents = .ok c) (hop : c.operation = .payout) :
    (∃ applied l', applyFsp2AuthorizedReservePayout P C (viewOf headers cov) (spendOf proof) l =
      .ok applied l') ↔
      l.lastBlockReserveEdges = 0 ∧ l.reserveState.transitionCount ≠ uint64Max ∧
        relayedSize (spendOf proof) ≤ Reserve.maxProofBytes := by
  have he := verifyFsp2_evidence hproof
  have hblock : (spendOf proof).block ≠ .zero := spendBlock_ne_zero hheaders he
  obtain ⟨hv1, hsupply, hclass⟩ := classifyBtcVeldReserveSpend_eq_ok.mp hc
  obtain ⟨f, ctx, hf, hlookup, rfl⟩ := classify_payout_iff.mp ⟨hclass, hop⟩
  have hctx := payoutLookup_commitment hlookup
  have hmerkle : headers.verifyMerkle C.sha256 (spendOf proof).block f.tx.txid
      (spendOf proof).merkleBranch (spendOf proof).merkleDirections = true := by
    rw [← spendTxid_eq he hf]
    exact he.merkle
  have hspend : classifyBtcVeldReserveSpend P C (viewOf headers cov) l (spendOf proof).tx
      (spendOf proof).directParents = .ok (payoutOf l.reserveState f ctx) := hc
  have hpayout : (payoutOf l.reserveState f ctx).payout = some ctx := rfl
  have hverify (hfits : relayedSize (spendOf proof) ≤ Reserve.maxProofBytes) :
      Reserve.verify P C.sha256 headers l.reserveState (l.supplyOf btcveldTokenId).toNat
        (encodeProof C.sha256 (fsp2Claim P C l.reserveState (spendOf proof)
          (payoutOf l.reserveState f ctx))) P.custodySpk P.spvKBtc (canCredit P C) (some ctx) =
        .ok (relayed P C l.reserveState (spendOf proof) f ctx) :=
    verify_fsp2Claim hf hctx hmerkle he.final (decodeProof_fsp2Claim htyped he hf hfits)
  rw [applyFsp2AuthorizedReservePayout_succeeds_iff hspend hop hpayout rfl]
  constructor
  · rintro ⟨⟨-, -, -, -, hedges, -⟩, hencoded, v, hv, -, next, hnext⟩
    have hfits := relayedSize_le_of_encodes hencoded
    obtain rfl : v = _ := Except.ok.inj (hv.symm.trans (hverify hfits))
    exact ⟨hedges, (applyAuthorized_relayed_iff hf hnz hblock).mp ⟨next, hnext⟩, hfits⟩
  · rintro ⟨hedges, hcount, hfits⟩
    refine ⟨⟨hv1, hf.active, he.branch, he.noHighBits, hedges, hsupply⟩,
      ne_nil_of_decodeProof (decodeProof_fsp2Claim htyped he hf hfits), _, hverify hfits, rfl, ?_⟩
    exact (applyAuthorized_relayed_iff hf hnz hblock).mpr hcount

end

/-! ## A payout with parents of any size -/

def noArchive : RedeemArchive := ⟨Unit, (), false, fun _ _ => none, fun _ _ _ => none⟩

/-- A header chain whose block 0 holds every transaction, buried and observed. -/
def relayHeaders : BtcHeaderChain :=
  let tip : Hash256 := .fill 2
  { byHash := AList.insert Hash256.ones ⟨.ones, .zero, .ones, 0, 0, 0, 0⟩
      (AList.insert tip ⟨tip, .ones, .zero, 0, 0, 144, 0⟩ ∅)
    bestTip := tip
    observedCheckpoint := Hash256.ones
    bestChain := [Hash256.ones]
    cpHeight := 0
    cpTime := 0 }

/-- A request for 1000. -/
def openRequest : RedeemRequest where
  requestId := Hash256.ones
  amountSats := 1000
  destSpk := [0x51]
  requestHeight := 0
  deadlineHeight := 0
  status := .lockedIn
  veldRecipient := aliceAddress
  requestCommitment := Hash256.ones
  btcObservedHeight := 0

def relayCovenant : Covenant noArchive :=
  { Covenant.empty noArchive with requests := AList.insert Hash256.ones openRequest ∅ }

def relayLedger : Ledger :=
  { Ledger.empty .sample Crypto.blank.sha256 with
    supply := AList.insert btcveldTokenId 2000 ∅
    reserveState := sampleState }

/-- The outputs a payout spends: the reserve and two others for the fee. -/
def parentOutputs : List BtcTxOut :=
  [⟨5000, Profile.sample.custodySpk⟩, ⟨100, [0x52]⟩, ⟨100, [0x52]⟩]

/-- Their transaction, with an input script of `pad` bytes. -/
def paddedParent (pad : Nat) : Bytes :=
  serializeTx [(⟨.zero, 0⟩, List.replicate pad 0)] parentOutputs

def payoutTx : Bytes :=
  serializeTx [(⟨.ones, 0⟩, []), (⟨.ones, 1⟩, []), (⟨.ones, 2⟩, [])]
    [⟨1000, [0x51]⟩, ⟨4000, Profile.sample.custodySpk⟩, ⟨0, sampleMarker .payout Hash256.ones⟩]

def parentField (pad : Nat) : Bytes := putLE 4 (paddedParent pad).length ++ paddedParent pad

def payoutProof (pad : Nat) : Bytes :=
  ascii "FSP2" ++ (Hash256.ones.bytes ++ (putLE 4 0 ++ (putLE 1 0 ++ (putLE 4 payoutTx.length ++
    (payoutTx ++ (putLE 2 3 ++ (parentField pad ++ (parentField pad ++ parentField pad))))))))

/-- What the parser gives of it. -/
def provenPayout (pad : Nat) : FraudProof where
  spendTxid := Hash256.ones
  custodyValue := 5000
  totalInputValue := 5200
  spendOutputs := [⟨1000, [0x51]⟩, ⟨4000, Profile.sample.custodySpk⟩,
    ⟨0, sampleMarker .payout Hash256.ones⟩]
  spendBlock := Hash256.ones
  spendTx := payoutTx
  directParents := [paddedParent pad, paddedParent pad, paddedParent pad]

theorem payout_facts :
    (∀ o ∈ parentOutputs, o.value < 2 ^ 64 ∧ o.spk.length < 2 ^ 16) ∧
    (parentOutputs.flatMap putOutput).length = 63 ∧ payoutTx.length = 275 ∧
    (∀ o ∈ (provenPayout 0).spendOutputs, o.value < 2 ^ 64 ∧ o.spk.length < 2 ^ 16) ∧
    (relayHeaders.verifyMerkle Crypto.blank.sha256 Hash256.ones Hash256.ones [] 0 ∧
      relayHeaders.isFinalForExternalValue .sample Hash256.ones 144 = true) ∧
    Profile.sample.custodySpk ≠ [] ∧
    ((classifyBtcVeldReserveSpend .sample Crypto.blank (viewOf relayHeaders relayCovenant) relayLedger
      payoutTx (provenPayout 0).directParents).toOption.map (·.operation)) = some .payout ∧
    relayHeaders.get Hash256.zero = none ∧ relayedSize (spendOf (provenPayout 0)) ≤ maxProofBytes := by
  decide +kernel

variable {pad : Nat}

theorem parse_paddedParent (hpad : pad < 2 ^ 16) :
    parseWitnessAwareBtcTx Crypto.blank.sha256 (paddedParent pad) 100000 100000 =
      some ⟨.ones, false, [⟨.zero, 0⟩], parentOutputs⟩ := by
  refine parse_serializeTx (cons_ne_nil _ _) (by simp) (by simp) (by decide) (by decide)
    (by decide) ?_ payout_facts.1
  intro i hi
  obtain rfl := mem_singleton.mp hi
  exact ⟨Nat.two_pow_pos 32, by rwa [length_replicate]⟩

theorem paddedParent_length (pad : Nat) :
    (paddedParent pad).length = (Btcspv.putVarint pad).length + pad + 113 := by
  have houts := payout_facts.2.1
  have hone : (Btcspv.putVarint 1).length = 1 := by decide
  have hthree : (Btcspv.putVarint parentOutputs.length).length = 1 := by decide
  simp only [paddedParent, serializeTx, putInput, flatMap_cons, flatMap_nil,
    length_append, length_cons, length_nil, length_replicate, putLE_length,
    Hash256.size, Nat.zero_add, houts, hone, hthree]
  omega

theorem readSpendParent_parentField {n total : Nat} {t : SpendTotals} {o : BtcTxOut}
    (hpad : pad < 2 ^ 16) (hfits : parentFits total (paddedParent pad).length)
    (ho : parentOutputs[n]? = some o) (hinput : t.input ≤ uint64Max - o.value)
    (hcustody : t.custody ≤ uint64Max - o.value) (rest : Bytes) :
    readSpendParent Crypto.blank.sha256 Profile.sample.custodySpk ⟨.ones, n⟩ total t
        (parentField pad ++ rest) =
      .ok (paddedParent pad, ⟨t.input + o.value,
        if o.spk = Profile.sample.custodySpk then t.custody + o.value else t.custody⟩, rest) := by
  have hlen : (paddedParent pad).length < 256 ^ 4 := lt_of_le_of_lt hfits.2.1 (by decide)
  rw [parentField, append_assoc]
  simp only [readSpendParent, Wire.bind_eq_ok, orElse_eq_ok, ensure_eq_ok, Prod.exists]
  exact ⟨_, _, readLE_putLE hlen _, (), hfits, _, _, takeN_append _ _, _, parse_paddedParent hpad,
    (), rfl, o, ho, (), hinput, (), fun _ => hcustody, rfl⟩

section
variable (hpad : pad < 2 ^ 16) (h₀ : parentFits 0 (paddedParent pad).length)
  (h₁ : parentFits (paddedParent pad).length (paddedParent pad).length)
  (h₂ : parentFits ((paddedParent pad).length + (paddedParent pad).length) (paddedParent pad).length)
include hpad h₀ h₁ h₂

theorem readSpendParents_parentField :
    readSpendParents Crypto.blank.sha256 Profile.sample.custodySpk
        [⟨.ones, 0⟩, ⟨.ones, 1⟩, ⟨.ones, 2⟩] 0 {}
        (parentField pad ++ (parentField pad ++ parentField pad)) =
      .ok ((provenPayout pad).directParents, ⟨5200, 5000⟩, []) := by
  have hlast := readSpendParent_parentField (n := 2) (t := ⟨5100, 5000⟩) hpad h₂ rfl (by decide)
    (by decide) []
  rw [append_nil] at hlast
  simp only [readSpendParents, Wire.bind_eq_ok, Prod.exists]
  refine ⟨_, _, _, readSpendParent_parentField hpad h₀ rfl (by decide) (by decide) _, _, _, _,
    ⟨_, _, _, readSpendParent_parentField hpad (Nat.zero_add _ ▸ h₁) rfl (by simp [uint64Max])
      (by simp [uint64Max]) _, _, _, _, ⟨_, _, _, ?_, _, _, _, rfl, rfl⟩, rfl⟩, rfl⟩
  rw [Nat.zero_add]
  exact hlast

theorem verifyFsp2_payoutProof :
    verifyFsp2 .sample Crypto.blank.sha256 relayHeaders (payoutProof pad)
      Profile.sample.custodySpk 144 = .ok (provenPayout pad) := by
  obtain ⟨-, -, htx, houts, hincluded, hspk, -⟩ := payout_facts
  have hparse : parseWitnessAwareBtcTx Crypto.blank.sha256 payoutTx maxMspvParentCount 100000 =
      some ⟨.ones, false, [⟨.ones, 0⟩, ⟨.ones, 1⟩, ⟨.ones, 2⟩],
        (provenPayout pad).spendOutputs⟩ :=
    parse_serializeTx (by decide) (by decide) (by decide) (by decide) (by decide) (by decide)
      (by decide) houts
  have hbranch (rest : Bytes) : readBranch (putLE 4 0 ++ (putLE 1 0 ++ rest)) =
      some ((0, []), rest) :=
    @readBranch_put 0 [] (by decide) (by decide) (by decide) rest
  simp only [verifyFsp2, Wire.bind_eq_ok, orElse_eq_ok, ensure_eq_ok, Prod.exists]
  refine ⟨(), hspk, (), ⟨?_, rfl⟩, _, _, readHash_bytes _ _, _, _, _, hbranch _, _, _,
    readLE_putLE (by rw [htx]; decide) _, (), ?_, _, _, takeN_append _ _, _, _,
    readLE_putLE (by decide) _, _, hparse, (), hincluded, (), ⟨rfl, by decide⟩, _, _, _,
    readSpendParents_parentField hpad h₀ h₁ h₂, (), ⟨rfl, by decide⟩, rfl⟩
  · simp only [payoutProof, length_append, Hash256.size, putLE_length, htx]
    omega
  · rw [htx]
    decide

end

theorem sameTx_paddedParent {pad' : Nat} (hpad : pad < 2 ^ 16) (hpad' : pad' < 2 ^ 16) :
    SameTx Crypto.blank.sha256 (paddedParent pad) (paddedParent pad') :=
  ⟨_, _, parse_paddedParent hpad, parse_paddedParent hpad', rfl, rfl, rfl⟩

theorem classify_provenPayout (hpad : pad < 2 ^ 16) :
    ∃ c, classifyBtcVeldReserveSpend .sample Crypto.blank (viewOf relayHeaders relayCovenant)
      relayLedger (provenPayout pad).spendTx (provenPayout pad).directParents = .ok c ∧
        c.operation = .payout := by
  obtain ⟨-, -, -, -, -, -, hsmall, -⟩ := payout_facts
  obtain ⟨c, hc, hop⟩ := Option.map_eq_some_iff.mp hsmall
  obtain ⟨hv1, hsupply, hclass⟩ := classifyBtcVeldReserveSpend_eq_ok.mp (eq_ok_of_toOption hc)
  have hparent := sameTx_paddedParent (Nat.two_pow_pos 16) hpad
  obtain ⟨t, ht, -⟩ := classified_inputs hclass
  have hself : SameTx Crypto.blank.sha256 payoutTx payoutTx :=
    (sameTx_of_txid ht ht (by decide) (by decide) rfl (noCollision_self _ _)).1
  refine ⟨c, classifyBtcVeldReserveSpend_eq_ok.mpr ⟨hv1, hsupply, ?_⟩, hop⟩
  exact classifyBitcoinReserveSpend_same hself
    (.cons hparent (.cons hparent (.cons hparent .nil))) (fun _ _ h => h) hclass

theorem relayLedger_typed : relayLedger.reserveState.Typed := ⟨by decide, by decide, by decide⟩

/-- Three parents of 10516 bytes each: the parser accepts the proof and the classifier authorises the
payout, but the rebuilt proof is too long and the payout is refused. -/
theorem classified_payout_refused :
    verifyFsp2 .sample Crypto.blank.sha256 relayHeaders (payoutProof 10400)
        Profile.sample.custodySpk 144 = .ok (provenPayout 10400) ∧
      (∃ c, classifyBtcVeldReserveSpend .sample Crypto.blank (viewOf relayHeaders relayCovenant)
        relayLedger (provenPayout 10400).spendTx (provenPayout 10400).directParents = .ok c ∧
          c.operation = .payout) ∧
      relayLedger.lastBlockReserveEdges = 0 ∧
      ¬ ∃ applied l', applyFsp2AuthorizedReservePayout .sample Crypto.blank
        (viewOf relayHeaders relayCovenant) (spendOf (provenPayout 10400)) relayLedger =
          .ok applied l' := by
  have hlen : (paddedParent 10400).length = 10516 := by
    rw [paddedParent_length]
    decide
  have hsize : ¬ relayedSize (spendOf (provenPayout 10400)) ≤ maxProofBytes := by
    have htx := payout_facts.2.2.1
    simp only [relayedSize, spendOf, provenPayout, map_cons, map_nil, sum_cons,
      sum_nil, length_nil, hlen, htx]
    decide
  obtain ⟨c, hc, hop⟩ : ∃ c, classifyBtcVeldReserveSpend .sample Crypto.blank
      (viewOf relayHeaders relayCovenant) relayLedger (provenPayout 10400).spendTx
      (provenPayout 10400).directParents = .ok c ∧ c.operation = .payout :=
    classify_provenPayout (by decide)
  refine ⟨verifyFsp2_payoutProof (by decide) (hlen ▸ by decide) (hlen ▸ by decide)
    (hlen ▸ by decide), ⟨c, hc, hop⟩, rfl, fun ⟨_, _, h⟩ => ?_⟩
  simp only [applyFsp2AuthorizedReservePayout, get_bind_eq_ok, require_bind_eq_ok,
    check_bind_eq_ok] at h
  obtain ⟨_, -, -, c', -, -, hencoded, -⟩ := h
  exact hsize (relayedSize_le_of_encodes hencoded)

theorem classified_payout_applies_small :
    ∃ applied l', applyFsp2AuthorizedReservePayout .sample Crypto.blank
      (viewOf relayHeaders relayCovenant) (spendOf (provenPayout 0)) relayLedger =
        .ok applied l' := by
  have hlen : (paddedParent 0).length = 114 := by
    rw [paddedParent_length]
    decide
  have hproof : verifyFsp2 .sample Crypto.blank.sha256 relayHeaders (payoutProof 0)
      Profile.sample.custodySpk Profile.sample.spvKBtc = .ok (provenPayout 0) :=
    verifyFsp2_payoutProof (by decide) (hlen ▸ by decide) (hlen ▸ by decide) (hlen ▸ by decide)
  obtain ⟨c, hc, hop⟩ : ∃ c, classifyBtcVeldReserveSpend .sample Crypto.blank
      (viewOf relayHeaders relayCovenant) relayLedger (provenPayout 0).spendTx
      (provenPayout 0).directParents = .ok c ∧ c.operation = .payout :=
    classify_provenPayout (by decide)
  have hones : Hash256.ones ≠ .zero := by decide
  obtain ⟨-, -, -, -, -, -, -, hzero, hsize⟩ := payout_facts
  exact (classified_payout_applies_iff (fun _ => hones) hzero relayLedger_typed hproof hc
    hop).mpr ⟨rfl, by decide, hsize⟩

end Veld.Node
