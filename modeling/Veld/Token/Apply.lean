import Veld.Token.State

/-!
# Applying one token operation

`ApplyTokenOp`, `MaybeApplySpvMint` and `MaybeApplyReserveTransitionLocked_` of `core/onchain_tokens.h`.
-/

namespace Veld

open Wire Program

abbrev LedgerM := EStateM Stop Ledger

/-- What the ledger reads of other modules: the Bitcoin headers and the open redeem requests, both
possibly absent. -/
structure View where
  headers : Option Btcspv.BtcHeaderChain
  payoutLookup : Hash256 → Option Reserve.PayoutContext

/-- The carrier of a marker: transaction, position, height of its block. -/
structure Carrier where
  tx : Transaction
  height : Nat
  txIndex : Nat
  vout : Nat
  prevalidated : Bool

section
variable (P : Profile) (C : Crypto) (V : View) (gate : PegGate) (K : Carrier)

/-- `TxSignerAuthorized`, unless the caller has checked it. -/
def authorized (address : Bytes) : Bool :=
  K.prevalidated || txVerifiedSignedBy P C K.tx address

def canCredit (address : Bytes) : Bool := isCanonicalTokenCreditAddress C.sha256 P address

def carrierTxid : Bytes := (K.tx.getTxID C).toHex

/-! ## Mint effects -/

/-- The effect commitment advances only for markers with a block position. -/
def extendEffect (t : MintTransition) : LedgerM Unit :=
  if t.txIndex = uint32Max then pure ()
  else do
    let l ← get
    let root ← require (extendBtcVeldMintEffectCommitment C.sha256 l.mintEffectRoot K.height t)
      Stop.thrown
    modify fun l => { l with mintEffectRoot := root, mintEffectCount := l.mintEffectCount + 1 }

def publishMint (t : MintTransition) : LedgerM Unit := do
  extendEffect C K t
  modify fun l => { l with lastBlockMintTransitions := l.lastBlockMintTransitions ++ [t] }

/-- A nullifier insertion that was checked against the current root. -/
structure Insertion where
  outpoint : Bytes
  proofBytes : Bytes
  oldRoot : Hash256
  newRoot : Hash256

def effectRoom (l : Ledger) : Prop := K.txIndex ≠ uint32Max → l.mintEffectCount ≠ uint64Max

instance (l : Ledger) : Decidable (effectRoom K l) := by unfold effectRoom; infer_instance

/-- The checks in front of every insertion. -/
def planInsertion (l : Ledger) (outpoint : Bytes) (proof : Btcnull.Proof) : Option Insertion := do
  guard (l.mintNullifierCount ≠ uint64Max ∧ effectRoom K l)
  let inserted := Btcnull.insert C.sha256 l.mintNullifierRoot outpoint proof
  guard (inserted.ok = true)
  let proofBytes := Btcnull.encodeProof C.sha256 proof
  guard (proofBytes ≠ [])
  return ⟨outpoint, proofBytes, inserted.oldRoot, inserted.newRoot⟩

def commitInsertion (i : Insertion) (kind : MintEffect) (allocationId : Bytes) : LedgerM Unit := do
  modify fun l =>
    { l with mintNullifierRoot := i.newRoot, mintNullifierCount := l.mintNullifierCount + 1 }
  publishMint C K ⟨K.txIndex, K.vout, carrierTxid C K, i.outpoint, i.proofBytes, i.oldRoot, i.newRoot,
    kind, allocationId⟩

/-! ## Transfer and redeem -/

def applyTransfer (op : TokenOpData) : LedgerM Unit := do
  check (canCredit P C op.toAddr ∧ op.fromAddr ≠ [] ∧ op.toAddr ≠ [] ∧
    authorized P C K op.fromAddr = true) Stop.reject
  let l ← get
  let fromBalance := l.balance op.tokenId op.fromAddr
  let toBalance := l.balance op.tokenId op.toAddr
  check (op.amount ≤ fromBalance) Stop.reject
  if op.fromAddr = op.toAddr then pure ()
  else do
    check (0 ≤ toBalance ∧ toBalance ≤ int64Max - op.amount ∧
      balanceAdmissible (fromBalance - op.amount) ∧ balanceAdmissible (toBalance + op.amount))
      Stop.reject
    modify fun l => (l.putRemaining op.tokenId op.fromAddr (fromBalance - op.amount)).putBalance
      op.tokenId op.toAddr (toBalance + op.amount)

/-- The redeem guard's accumulator at a height, rolled to its window. -/
def redeemedAt (l : Ledger) (height : Nat) : Int :=
  if Redeemguard.windowId height = l.redeemWindowId then l.redeemedInWindow else 0

def reserveAfterRedeem (l : Ledger) (op : TokenOpData) (supply : Int) : Option Reserve.State :=
  if P.transitionV1Required ∧ op.tokenId = btcveldTokenId then
    Reserve.openRedemption l.reserveState op.amount.toNat (supply - op.amount).toNat
  else some l.reserveState

def redeemRecord (op : TokenOpData) : TokenTransferRecord :=
  ⟨carrierTxid C K, K.vout, op.tokenId, op.fromAddr, op.toAddr, op.amount, K.height, op.memo⟩

def guardedRedeem (op : TokenOpData) : Bool :=
  op.tokenId == btcveldTokenId && btcVeldRedeemGuardActive K.height

def applyRedeem (op : TokenOpData) : LedgerM Unit := do
  check (op.fromAddr ≠ [] ∧ op.toAddr = [] ∧ op.memo ≠ [] ∧ authorized P C K op.fromAddr)
    Stop.reject
  check (btcVeldRedeemSpkCheckActive K.height →
    btcVeldHex op.memo ≠ [] ∧ isStandardBtcRedeemSpk (btcVeldHex op.memo)) Stop.reject
  let l ← get
  check (guardedRedeem K op →
    Redeemguard.fitsWindow (redeemedAt l K.height) op.amount
      Redeemguard.launchWindowCeilingSats = true) Stop.reject
  let balance ← require (l.balances.lookup (balanceKey op.tokenId op.fromAddr)) Stop.reject
  let supply ← require (l.supply.lookup op.tokenId) Stop.reject
  check (op.amount ≤ balance ∧ op.amount ≤ supply ∧ balanceAdmissible (balance - op.amount))
    Stop.reject
  let reserve ← require (reserveAfterRedeem P l op supply) Stop.reject
  modify fun l =>
    { (l.putRemaining op.tokenId op.fromAddr (balance - op.amount)).putSupply op.tokenId
        (supply - op.amount) with
      reserveState := reserve
      redeemWindowId :=
        if guardedRedeem K op then Redeemguard.windowId K.height else l.redeemWindowId
      redeemedInWindow :=
        if guardedRedeem K op then redeemedAt l K.height + op.amount else l.redeemedInWindow
      lastBlockRedeems := l.lastBlockRedeems ++ [redeemRecord C K op] }

/-! ## Issuer mint -/

/-- What an issuer mint does besides crediting. -/
inductive MintPlan where
  | unnamed
  | direct (insertion : Insertion)
  | reserved (requestId outpoint : Bytes)

/-- A mint that completes a funded reservation names all its parts. -/
def completes (l : Ledger) (op : TokenOpData) (requestId scriptHex blindHex outpoint : Bytes) :
    Option MintPlan := do
  let r ← l.reservations.lookup requestId
  guard (r.exposed ∧ r.funded ∧ r.fundingOutpoint = outpoint ∧
    r.recipient = op.toAddr ∧ r.amountSats = op.amount ∧
    C1reserve.allocationCommitment C.sha256 requestId op.toAddr op.amount scriptHex blindHex =
      r.allocationCommitment)
  let supply := l.supplyOf btcveldTokenId
  guard (0 ≤ supply ∧ supply ≤ issuerMaxCustodySats - op.amount)
  return .reserved requestId outpoint

def mintPlan (l : Ledger) (op : TokenOpData) : Option MintPlan :=
  if op.tokenId ≠ btcveldTokenId then some .unnamed
  else if btcVeldMintDepositIdActive K.height = false then
    if l.issuerMintFits K.height op.amount then some .unnamed else none
  else
    match Btcnull.parseIssuerMemo C.sha256 op.memo with
    | some (.direct outpoint proof) => do
      guard (isValidBtcOutpointId outpoint ∧ P.custodyLineageRequired = false)
      let insertion ← planInsertion C K l outpoint proof
      guard (l.issuerMintFits K.height op.amount = true)
      return .direct insertion
    | some (.reserved requestId scriptHex blindHex outpoint) => do
      guard (isValidBtcOutpointId outpoint ∧ effectRoom K l)
      completes C l op requestId scriptHex blindHex outpoint
    | none => none

/-- The effect of a mint plan after the credit. -/
def commitMintPlan : MintPlan → LedgerM Unit
  | .unnamed => pure ()
  | .direct insertion => commitInsertion C K insertion .mint []
  | .reserved requestId outpoint => do
    let l ← get
    set { l with reservations := l.reservations.erase requestId }
    publishMint C K ⟨K.txIndex, K.vout, carrierTxid C K, outpoint, [], l.mintNullifierRoot,
      l.mintNullifierRoot, .c1Mint, requestId⟩

def credit (tokenId address : Bytes) (amount : Int) : LedgerM Unit := do
  let l ← get
  let supply := l.supplyOf tokenId
  let balance := l.balance tokenId address
  check (0 ≤ supply ∧ supply ≤ int64Max - amount ∧ 0 ≤ balance ∧ balance ≤ int64Max - amount ∧
    balanceAdmissible (balance + amount)) Stop.reject
  modify fun l => (l.putBalance tokenId address (balance + amount)).putSupply tokenId (supply + amount)

def applyMint (issuer : Bytes) (op : TokenOpData) : LedgerM Unit := do
  check (canCredit P C op.toAddr ∧ op.fromAddr ≠ [] ∧ op.toAddr ≠ [] ∧
    issuer = op.fromAddr ∧ authorized P C K op.fromAddr) Stop.reject
  let l ← get
  let plan ← require (mintPlan P C K l op) Stop.reject
  credit op.tokenId op.toAddr op.amount
  commitMintPlan C K plan

/-! ## C1 reservations -/

/-- What all four reservation operations ask: the peg token, its issuer, his signature. -/
def issuerOp (issuer : Bytes) (op : TokenOpData) : Prop :=
  canCredit P C op.toAddr ∧ op.tokenId = btcveldTokenId ∧ op.fromAddr ≠ [] ∧
    op.toAddr ≠ [] ∧ issuer = op.fromAddr ∧ authorized P C K op.fromAddr

instance (issuer : Bytes) (op : TokenOpData) : Decidable (issuerOp P C K issuer op) := by
  unfold issuerOp; infer_instance

/-- The next allocation sequence number, under the id that spells it. -/
def nextSequence (l : Ledger) (requestId : Bytes) : Option Nat := do
  let sequence ← C1reserve.allocationSequence requestId
  guard (l.c1SequenceHistoryCount = l.c1LastSequence ∧ l.c1LastSequence ≠ uint64Max ∧
    sequence = l.c1LastSequence + 1 ∧ l.reservations.lookup requestId = none)
  return sequence

def extendSequence (action : TokenAction) (op : TokenOpData) (sequence : Nat)
    (requestId commitment : Bytes) : LedgerM Unit :=
  modify fun l =>
    { l with
      c1LastSequence := sequence
      c1SequenceHistoryRoot := extendBtcVeldC1SequenceHistory C.sha256 l.c1SequenceHistoryRoot
        action sequence requestId op.toAddr commitment op.amount K.height
      c1SequenceHistoryCount := l.c1SequenceHistoryCount + 1 }

def amountInCustodyRange (amount : Int) : Prop :=
  C1reserve.minSats ≤ amount ∧ amount ≤ issuerMaxCustodySats

instance (amount : Int) : Decidable (amountInCustodyRange amount) := by
  unfold amountInCustodyRange; infer_instance

def applyReserve (issuer : Bytes) (op : TokenOpData) : LedgerM Unit := do
  check (issuerOp P C K issuer op ∧ amountInCustodyRange op.amount) Stop.reject
  let l ← get
  check (l.reservations.entries.length < C1reserve.maxActive) Stop.reject
  let (requestId, commitment) ← require (C1reserve.parseMemo op.memo) Stop.reject
  let sequence ← require (nextSequence l requestId) Stop.reject
  let expires ← require (C1reserve.expiryHeight K.height) Stop.reject
  check (l.issuerMintFits K.height op.amount = true) Stop.reject
  modify fun l =>
    { l with reservations := l.reservations.insert requestId
               { allocationId := requestId, sequence, recipient := op.toAddr,
                 allocationCommitment := commitment, amountSats := op.amount,
                 createdHeight := K.height, expiresHeight := expires } }
  extendSequence C K .reserve op sequence requestId commitment

def applyExpose (issuer : Bytes) (op : TokenOpData) : LedgerM Unit := do
  check (issuerOp P C K issuer op) Stop.reject
  let (requestId, commitment) ← require (C1reserve.parseExposureMemo op.memo) Stop.reject
  let l ← get
  let r ← require (l.reservations.lookup requestId) Stop.reject
  check (r.exposed = false ∧ K.height ≤ r.expiresHeight ∧
    C1reserve.hasFinalityDepth r.createdHeight K.height ∧ r.recipient = op.toAddr ∧
    r.amountSats = op.amount ∧ r.allocationCommitment = commitment) Stop.reject
  let (starts, expires) ← require (C1reserve.fundingWindow K.height) Stop.reject
  modify fun l =>
    { l with reservations := l.reservations.insert requestId
               { r with exposed := true, exposedHeight := K.height, fundingStartsHeight := starts,
                        fundingExpiresHeight := expires } }

def applyCancel (issuer : Bytes) (op : TokenOpData) : LedgerM Unit := do
  check (issuerOp P C K issuer op ∧ amountInCustodyRange op.amount) Stop.reject
  let (requestId, commitment) ← require (C1reserve.parseCancellationMemo op.memo) Stop.reject
  let l ← get
  let sequence ← require (nextSequence l requestId) Stop.reject
  extendSequence C K .cancel op sequence requestId commitment

/-- The reservation a funding memo opens, while it can be funded. -/
def fundable (l : Ledger) (op : TokenOpData) (memo : C1reserve.FundingMemo) :
    Option BtcVeldC1Reservation := do
  let r ← l.reservations.lookup memo.allocationId
  guard (r.exposed ∧ r.funded = false ∧ r.recipient = op.toAddr ∧
    r.amountSats = op.amount ∧ r.fundingStartsHeight ≤ K.height)
  let latest ← C1reserve.latestFundingAcceptanceHeight r.fundingExpiresHeight
  guard (K.height ≤ latest ∧
    C1reserve.allocationCommitment C.sha256 memo.allocationId op.toAddr op.amount memo.scriptHex
      memo.blindHex = r.allocationCommitment)
  return r

/-- `VerifyC1Funding` of a funding memo. -/
def fundingVerified (op : TokenOpData) (memo : C1reserve.FundingMemo) :
    Option Btcspv.C1FundingResult := do
  let headers ← V.headers
  let proof := (ofHex memo.proofHex).getD []
  let script := (ofHex memo.scriptHex).getD []
  guard (proof ≠ [] ∧ script ≠ [])
  (Btcspv.verifyC1Funding P C.sha256 headers proof script op.amount.toNat memo.outpoint
    P.spvKBtc).toOption

def applyFund (issuer : Bytes) (op : TokenOpData) : LedgerM Unit := do
  check (issuerOp P C K issuer op) Stop.reject
  let memo ← require (C1reserve.parseFundingMemo op.memo) Stop.reject
  let l ← get
  let r ← require (fundable C K l op memo) Stop.reject
  let verified ← require (fundingVerified P C V op memo) Stop.reject
  let insertion ← require (planInsertion C K l memo.outpoint verified.nullifierProof) Stop.reject
  modify fun l =>
    { l with reservations := l.reservations.insert memo.allocationId
               { r with funded := true, fundedHeight := K.height,
                        fundingOutpoint := memo.outpoint } }
  commitInsertion C K insertion .c1Fund memo.allocationId

/-! ## The operation as a whole -/

def isC1CompletionMint (op : TokenOpData) : Bool :=
  op.action == .mint && startsWith op.memo Btcnull.reservedIssuerMemoPrefix

def pegGateOpen (op : TokenOpData) : Bool :=
  match op.action with
  | .reserve => gate.mintAllowed
  | .expose => gate.mintAllowed
  | .mint => if isC1CompletionMint op then gate.completionAllowed else gate.mintAllowed
  | .fund => gate.fundingAllowed
  | .cancel => gate.completionAllowed
  | .redeem => gate.redeemAllowed
  | .transfer => true

/-- In the rolling-reserve profile the peg token is moved and redeemed only. -/
def opRouteOpen (op : TokenOpData) : Bool :=
  !P.transitionV1Required || op.action == .transfer || op.action == .redeem

def applyTokenOp (op : TokenOpData) : LedgerM Unit := do
  let l ← get
  let issuer ← require (l.tokens.lookup op.tokenId) Stop.reject
  check (0 < op.amount ∧
    (op.tokenId = btcveldTokenId → opRouteOpen P op ∧ pegGateOpen gate op)) Stop.reject
  match op.action with
  | .mint => applyMint P C K issuer op
  | .transfer => applyTransfer P C K op
  | .redeem => applyRedeem P C K op
  | .reserve => applyReserve P C K issuer op
  | .expose => applyExpose P C K issuer op
  | .cancel => applyCancel P C K issuer op
  | .fund => applyFund P C V K issuer op

/-! ## SPV mint -/

/-- `VerifyDepositMint` against the capacity that supply and reservations leave. -/
def spvDeposit (l : Ledger) (data : Bytes) : Option Btcspv.DepositResult := do
  let headers ← V.headers
  let proof := btcVeldHex (behind data "VELD_MSPV|")
  guard (proof ≠ [] ∧ data = ascii "VELD_MSPV|" ++ toHex proof)
  let supply := l.supplyOf btcveldTokenId
  let reserved := l.reservedC1Sats K.height
  guard (0 ≤ supply ∧ 0 ≤ reserved ∧ supply ≤ int64Max - reserved)
  (Btcspv.verifyDepositMint P C.sha256 headers proof P.custodySpk P.spvKBtc
    (supply + reserved).toNat spvMaxCustodySats (canCredit P C)).toOption

def maybeApplySpvMint (data : Bytes) : LedgerM Unit := do
  let l ← get
  check (P.transitionV1Required = false ∧ l.tokens.lookup btcveldTokenId ≠ none) Stop.reject
  let r ← require (spvDeposit P C V K l data) Stop.reject
  check (btcVeldMintDepositIdActive K.height ∧ isValidBtcOutpointId r.outpointId)
    Stop.reject
  let insertion ← require (planInsertion C K l r.outpointId r.nullifierProof) Stop.reject
  check (r.amount ≠ 0 ∧ (r.amount : Int) ≤ int64Max) Stop.reject
  credit btcveldTokenId r.recipient r.amount
  commitInsertion C K insertion .mint []

/-! ## Reserve transitions -/

def wrapperAllowed (l : Ledger) : Option TokenOpData → Prop
  | none => True
  | some op => op.action = .mint ∧ op.tokenId = btcveldTokenId ∧ op.fromAddr ≠ [] ∧
      op.toAddr ≠ [] ∧ 0 < op.amount ∧ l.tokens.lookup btcveldTokenId = some op.fromAddr ∧
      authorized P C K op.fromAddr = true

instance (l : Ledger) (w : Option TokenOpData) : Decidable (wrapperAllowed P C K l w) := by
  cases w <;> unfold wrapperAllowed <;> infer_instance

/-- It supplies no facts: what it says must be what was verified. -/
def wrapperAgrees (v : Reserve.Verified) : Option TokenOpData → Prop
  | none => True
  | some op => (v.claim.operation = .open ∨ v.claim.operation = .deposit) ∧
      (v.claim.mintAmount : Int) = op.amount ∧ v.recipient = op.toAddr

instance (v : Reserve.Verified) (w : Option TokenOpData) : Decidable (wrapperAgrees v w) := by
  cases w <;> unfold wrapperAgrees <;> infer_instance

def createsExposure (operation : Reserve.Operation) : Bool :=
  operation == .open || operation == .deposit

/-- Gate, payout context and verification of an RTP1 proof. -/
def verifyTransition (l : Ledger) (proof : Bytes) : Option Reserve.Verified := do
  let headers ← V.headers
  let claim ← Reserve.decodeProof C.sha256 proof
  guard (if createsExposure claim.operation then gate.mintAllowed = true
    else gate.completionAllowed = true)
  let payout := if claim.operation = .payout then V.payoutLookup claim.exactCommitment else none
  guard (claim.operation = .payout → payout.isSome)
  let supply := l.supplyOf btcveldTokenId
  guard (0 ≤ supply)
  (Reserve.verify P C.sha256 headers l.reserveState supply.toNat proof P.custodySpk P.spvKBtc
    (canCredit P C) payout).toOption

def planDeposit (l : Ledger) (v : Reserve.Verified) : Option (Option Insertion) :=
  if createsExposure v.claim.operation then do
    guard (v.claim.hasNullifierProof ∧ isValidBtcOutpointId v.pendingOutpoint)
    let insertion ← planInsertion C K l v.pendingOutpoint v.claim.nullifierProof
    return some insertion
  else some none

def commitDeposit : Option Insertion → LedgerM Unit
  | none => pure ()
  | some insertion => commitInsertion C K insertion .mint []

/-- The credit of a transition; most have none. -/
def creditTransition (v : Reserve.Verified) : LedgerM Unit :=
  if v.claim.mintAmount = 0 then pure ()
  else credit btcveldTokenId v.recipient v.claim.mintAmount

/-- The payout a transition hands to the redeem covenant. -/
def payoutsOf (v : Reserve.Verified) : List ReservePayout :=
  if v.claim.operation = .payout then
    [⟨v.payoutRequestId, v.claim.bitcoinTxid, v.payoutPrincipalSats, v.payoutDestinationSpk⟩]
  else []

/-- `MaybeApplyReserveTransitionLocked_`. -/
def maybeApplyReserveTransition (proof : Bytes) (wrapper : Option TokenOpData) : LedgerM Unit := do
  let l ← get
  check (P.transitionV1Required ∧ proof ≠ [] ∧ l.tokens.lookup btcveldTokenId ≠ none ∧
    wrapperAllowed P C K l wrapper) Stop.reject
  let v ← require (verifyTransition P C V gate l proof) Stop.reject
  let supply := l.supplyOf btcveldTokenId
  check (wrapperAgrees v wrapper ∧ (v.claim.mintAmount : Int) ≤ int64Max - supply) Stop.reject
  let insertion ← require (planDeposit C K l v) Stop.reject
  let next ← require (Reserve.applyAuthorized P C.sha256 l.reserveState v supply.toNat
    (supply.toNat + v.claim.mintAmount)) Stop.reject
  creditTransition v
  commitDeposit C K insertion
  modify fun l =>
    { l with lastBlockReservePayouts := l.lastBlockReservePayouts ++ payoutsOf v,
             reserveState := next }

end

end Veld
