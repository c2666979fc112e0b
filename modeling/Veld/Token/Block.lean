import Veld.Token.Apply

/-!
# The token ledger over a block

`ProcessBlock` of `core/onchain_tokens.h` and the other mutators that run around it: the AMM move,
the compensation mint, the payout and the freeze that a proven Bitcoin spend causes.
-/

namespace Veld

open Wire Program

section
variable (P : Profile) (C : Crypto)

/-! ## Markers -/

def isTokenMarker (data : Bytes) : Bool := startsWith data tokenOpReturnPrefix

def isSpvMarker (data : Bytes) : Bool := startsWith data "VELD_MSPV|"

/-- `IsReservePublicFamilyLocked_`. -/
def isReservePublicFamily (data : Bytes) : Bool :=
  P.transitionV1Required && startsWith data "VELD_RSV"

/-- `IsReserveIssuerCarrierLocked_`. -/
def isReserveIssuerCarrier (op : TokenOpData) : Bool :=
  op.tokenId == btcveldTokenId && op.action == .mint && startsWith op.memo "RTP1:"

/-- `RawClaimsBtcVeldTokenFamilyLocked_`: the second field names the peg token. -/
def rawClaimsBtcVeldTokenFamily (data : Bytes) : Bool :=
  isTokenMarker data &&
    match fields pipe (behind data tokenOpReturnPrefix) with
    | _ :: tokenId :: _ :: _ => tokenId == btcveldTokenId
    | _ => false

def payloads (tx : Transaction) : List Bytes := tx.outputs.map fun o => parseOpReturn o.scriptPubkey

/-- `CountReserveTransitionCarriersLocked_`. -/
def countReserveTransitionCarriers (tx : Transaction) : Nat :=
  (payloads tx).countP fun data =>
    isReservePublicFamily P data ||
      (isTokenMarker data && (decodeTokenOp P data).any isReserveIssuerCarrier)

def pegOp (data : Bytes) : Option TokenOpData :=
  if isTokenMarker data then (decodeTokenOp P data).filter fun op => op.tokenId == btcveldTokenId
  else none

/-- A payload that names the peg token but spells no operation on it. -/
def malformedPegOp (data : Bytes) : Bool :=
  P.transitionV1Required && isTokenMarker data && (pegOp P data).isNone &&
    rawClaimsBtcVeldTokenFamily data

/-- `HasReserveSensitiveMarkerLocked_`. -/
def hasReserveSensitiveMarker (tx : Transaction) : Bool :=
  (payloads tx).any fun data =>
    isReservePublicFamily P data || isSpvMarker data || malformedPegOp P data ||
      (pegOp P data).any fun op => op.action != .transfer

/-- `HasC1ReservationMarkerLocked_`. -/
def hasC1ReservationMarker (tx : Transaction) : Bool :=
  (payloads tx).any fun data =>
    malformedPegOp P data || (pegOp P data).any fun op =>
      op.action == .reserve || op.action == .expose || op.action == .cancel ||
        op.action == .fund || isC1CompletionMint op

/-- `HasForbiddenBtcVeldMarkerLocked_`. -/
def hasForbiddenBtcVeldMarker (gate : PegGate) (tx : Transaction) : Bool :=
  (payloads tx).any fun data =>
    if isSpvMarker data then P.transitionV1Required || !gate.mintAllowed
    else (pegOp P data).any fun op =>
      (P.transitionV1Required && !(opRouteOpen P op || isReserveIssuerCarrier op)) ||
        !pegGateOpen gate op

def markers (tx : Transaction) : List (Bytes × Nat) :=
  (payloads tx).zipIdx.filter fun m =>
    isSpvMarker m.1 || isReservePublicFamily P m.1 || isTokenMarker m.1

/-- The proof in a carrier: the exact lower-case text of its bytes behind the tag. -/
def carriedProof (tag : String) (text : Bytes) : Option Bytes := do
  guard (startsWith text tag = true)
  let proof := btcVeldHex (behind text tag)
  guard (proof ≠ [] ∧ text = ascii tag ++ toHex proof)
  return proof

end

section
variable (P : Profile) (C : Crypto) (V : View) (gate : PegGate)

/-- A token payload: a reserve transition in an issuer carrier, or a token operation. -/
def applyTokenMarker (K : Carrier) (data : Bytes) : LedgerM Unit := do
  let op ← require (decodeTokenOp P data) Stop.reject
  if P.transitionV1Required ∧ isReserveIssuerCarrier op = true then do
    let proof ← require (carriedProof "RTP1:" op.memo) Stop.reject
    maybeApplyReserveTransition P C V gate K proof (some op)
  else applyTokenOp P C V gate K op

def applyReserveMarker (K : Carrier) (data : Bytes) : LedgerM Unit := do
  let proof ← require (carriedProof "VELD_RSV1|" data) Stop.reject
  maybeApplyReserveTransition P C V gate K proof none

def applyMarker (spvOn : Bool) (K : Carrier) (data : Bytes) : LedgerM Unit :=
  if isReservePublicFamily P data then applyReserveMarker P C V gate K data
  else if isSpvMarker data then
    if spvOn then maybeApplySpvMint P C V K data else throw Stop.reject
  else applyTokenMarker P C V gate K data

/-- `ApplyTransactionMarkersLocked_`: a transaction has at most one marker. -/
def applyTransactionMarkers (tx : Transaction) (height : Nat) (spvOn requireMarker
    prevalidated : Bool) (txIndex : Nat) : LedgerM Unit :=
  match markers P tx with
  | [] => check (requireMarker = false) Stop.reject
  | [(data, vout)] => applyMarker P C V gate spvOn ⟨tx, height, txIndex, vout, prevalidated⟩ data
  | _ => throw Stop.reject

/-! ## Blocks -/

def strictMarkers (tx : Transaction) : Bool :=
  hasC1ReservationMarker P tx || (P.transitionV1Required && hasReserveSensitiveMarker P tx)

def processTransaction (height : Nat) (spvOn : Bool) (tx : Transaction) (txIndex : Nat) :
    LedgerM Unit := fun l =>
  match applyTransactionMarkers P C V gate tx height spvOn false false txIndex l with
  | .error .reject l' => if strictMarkers P tx then .error .reject l' else .ok () l'
  | outcome => outcome

def processTransactions (height : Nat) (spvOn : Bool) : List (Transaction × Nat) → LedgerM Unit
  | [] => pure ()
  | (tx, txIndex) :: rest => do
    processTransaction P C V gate height spvOn tx txIndex
    processTransactions height spvOn rest

def maybeRegisterBtcVeld (height : Nat) (l : Ledger) : Ledger :=
  if P.issuerAddress = [] ∨ height < btcVeldActivationHeight ∨
      l.tokens.lookup btcveldTokenId ≠ none then l
  else { l with tokens := l.tokens.insert btcveldTokenId P.issuerAddress }

/-- What happens before the first transaction. -/
def beginBlock (block : Block) (l : Ledger) : Ledger :=
  let l := { l with
    lastBlockRedeems := [], lastBlockMintTransitions := [], lastBlockReservePayouts := [],
    lastBlockReserveEdges := 0 }
  let l := l.pruneC1Reservations block.height
  let work := l.recentWork ++ [blockWorkForTier block.header.bits.toNat]
  maybeRegisterBtcVeld P block.height
    { l with recentWork := if Ledger.tierWindowBlocks < work.length then work.drop 1 else work }

/-- The order of the redeem index: transaction, then output. -/
def redeemBefore (a b : TokenTransferRecord) : Bool :=
  if a.txid ≠ b.txid then a.txid < b.txid else a.vout ≤ b.vout

def commitRedeem (blockHash : Hash256) (r : TokenTransferRecord) : LedgerM Unit :=
  if r.tokenId ≠ btcveldTokenId then pure ()
  else do
    let l ← get
    check (l.redeemCommitmentCount ≠ uint64Max) Stop.thrown
    let root ← require (extendBtcVeldRedeemCommitment C.sha256 l.redeemCommitmentRoot r blockHash)
      Stop.thrown
    modify fun l =>
      { l with redeemCommitmentRoot := root, redeemCommitmentCount := l.redeemCommitmentCount + 1 }

def commitRedeems (blockHash : Hash256) : List TokenTransferRecord → LedgerM Unit
  | [] => pure ()
  | r :: rest => do
    commitRedeem C blockHash r
    commitRedeems blockHash rest

/-- The closing checks of a block in the rolling-reserve profile. -/
def closeReserve (block : Block) (countBefore : Nat) : LedgerM Unit := do
  let l ← get
  check (0 ≤ l.supplyOf btcveldTokenId) Stop.reject
  let reserve ← require (Reserve.setProcessed l.reserveState block.height (block.getHash C))
    Stop.reject
  set { l with reserveState := reserve }
  check (reserve.accountingHolds (l.supplyOf btcveldTokenId).toNat ∧
    (reserve.transitionCount ≠ countBefore →
      countBefore ≠ uint64Max ∧ reserve.transitionCount = countBefore + 1)) Stop.reject
  modify fun l =>
    { l with lastBlockReserveEdges :=
        if reserve.transitionCount = countBefore then l.lastBlockReserveEdges else 1 }

/-- A Bitcoin reorganisation under the reserve freezes it. -/
def freezeOnReorg (freeze : Bool) : LedgerM Unit :=
  if freeze then do
    let l ← get
    let reserve ← require (Reserve.applyFreeze P C.sha256 l.reserveState l.reserveState.reserveTxid
      l.reserveState.reserveBitcoinBlock) Stop.reject
    set { l with reserveState := reserve }
  else pure ()

/-- The part of `ProcessBlock` that mutates. -/
def processBody (block : Block) (freeze : Bool) : LedgerM Unit := do
  let before ← get
  freezeOnReorg P C freeze
  modify (beginBlock P block)
  let spvOn := gate.mintAllowed && btcVeldSpvActive block.height && V.headers.isSome
  processTransactions P C V gate block.height spvOn block.transactions.zipIdx
  let l ← get
  commitRedeems C (block.getHash C) (l.lastBlockRedeems.mergeSort redeemBefore)
  modify fun l =>
    { l with
      redeemCommitmentProcessedHeight := block.height
      redeemCommitmentProcessedBlockHash := block.getHash C
      mintAccumulatorProcessedHeight := block.height
      mintAccumulatorProcessedBlockHash := block.getHash C }
  if P.transitionV1Required then closeReserve C block before.reserveState.transitionCount
  else pure ()

/-- Has the reserve lost its Bitcoin block? `none` without headers. -/
def reorgFreeze (l : Ledger) : Option Bool :=
  if P.transitionV1Required ∧ l.reserveState.status = .active then
    V.headers.map fun h =>
      !h.isFinalForExternalValue P l.reserveState.reserveBitcoinBlock P.spvKBtc
  else some false

/-- The opening checks of a block in the rolling-reserve profile. -/
def reserveReady (block : Block) (l : Ledger) : Prop :=
  P.transitionV1Required →
    0 ≤ l.supplyOf btcveldTokenId ∧
    l.reserveState.accountingHolds (l.supplyOf btcveldTokenId).toNat ∧
    l.reserveState.processedVeldHeight ≤ block.height ∧
    (block.height = l.reserveState.processedVeldHeight →
      l.reserveState.processedVeldBlockHash.isZero = false →
      l.reserveState.processedVeldBlockHash = block.getHash C) ∧
    (block.transactions.map (countReserveTransitionCarriers P)).sum ≤ 1

instance (block : Block) (l : Ledger) : Decidable (reserveReady P C block l) := by
  unfold reserveReady; infer_instance

/-- The blocks whose refusal restores the ledger. -/
def keepsSnapshot (block : Block) (freeze : Bool) : Bool :=
  block.transactions.any (fun tx => strictMarkers P tx) || (P.transitionV1Required && freeze)

def processBlock (block : Block) : LedgerM Unit := do
  let before ← get
  check (reserveReady P C block before) Stop.reject
  let freeze ← require (reorgFreeze P V before) Stop.reject
  check (freeze → (block.transactions.map (countReserveTransitionCarriers P)).sum = 0)
    Stop.reject
  check (block.transactions.all (fun tx => !hasForbiddenBtcVeldMarker P gate tx) = true) Stop.reject
  fun l =>
    match processBody P C V gate block freeze l with
    | .error .reject l' => .error .reject (if keepsSnapshot P block freeze then before else l')
    | outcome => outcome

/-! ## Mutators around the block -/

/-- `AmmMoveAllowedLocked_`, of `CanAmmMove` and `AmmMove`. -/
def canAmmMove (l : Ledger) (tokenId source dest : Bytes) (amount : Int) : Bool :=
  0 < amount && source != [] && dest != [] && (l.tokens.lookup tokenId).isSome &&
    amount ≤ l.balance tokenId source &&
    (source == dest || (0 ≤ l.balance tokenId dest &&
      l.balance tokenId dest ≤ int64Max - amount &&
      balanceAdmissible (l.balance tokenId source - amount) &&
      balanceAdmissible (l.balance tokenId dest + amount)))

/-- `AmmMove`: moves tokens without a signature. -/
def ammMove (l : Ledger) (tokenId source dest : Bytes) (amount : Int) : Option Ledger :=
  if canAmmMove l tokenId source dest amount then
    if source = dest then some l
    else some ((l.putRemaining tokenId source (l.balance tokenId source - amount)).putBalance
      tokenId dest (l.balance tokenId dest + amount))
  else none

/-- `CompensateMint`: re-mints what a redeem burned and no payout honoured. -/
def compensateMint (recipient : Bytes) (amount : Nat) : LedgerM Unit := do
  let l ← get
  check (canCredit P C recipient ∧ amount ≠ 0 ∧ l.tokens.lookup btcveldTokenId ≠ none ∧
    (amount : Int) ≤ int64Max) Stop.reject
  let supply := l.supplyOf btcveldTokenId
  let reserve ← require
    (if P.transitionV1Required then
      Reserve.resolveDefaultOrCompensation l.reserveState amount (supply + amount).toNat
    else some l.reserveState) Stop.reject
  credit btcveldTokenId recipient amount
  modify fun l => { l with reserveState := reserve }

def classifyBtcVeldReserveSpend (l : Ledger) (bitcoinTx : Bytes) (directParents : List Bytes) :
    Reserve.Classified Reserve.SpendClassification :=
  if P.transitionV1Required = false then
    .error (.unauthorizedSpend, "rolling reserve semantics are inactive")
  else if l.supplyOf btcveldTokenId < 0 then .error (.unauthorizedSpend, "negative btcVELD supply")
  else Reserve.classifyBitcoinReserveSpend P C.sha256 l.reserveState
    (l.supplyOf btcveldTokenId).toNat bitcoinTx directParents P.custodySpk (canCredit P C)
    V.payoutLookup

/-- A Bitcoin spend as an FSP2 proof presents it. -/
structure ProvenSpend where
  block : Hash256
  merkleDirections : Nat
  merkleBranch : List Hash256
  tx : Bytes
  directParents : List Bytes

def fsp2Claim (state : Reserve.State) (s : ProvenSpend) (c : Reserve.SpendClassification) :
    Reserve.Claim where
  operation := .payout
  networkBinding := Reserve.networkBinding P C.sha256
  priorCommitment := state.transitionCommitment
  priorReserveTxid := state.reserveTxid
  priorReserveVout := state.reserveVout
  priorReserveValue := state.reserveValueSats
  priorTransitionCount := state.transitionCount
  newReserveTxid := c.newReserveTxid
  newReserveVout := c.newReserveVout
  newReserveValue := c.newReserveValue
  bitcoinTxid := c.bitcoinTxid
  bitcoinBlock := s.block
  merkleDirections := s.merkleDirections
  merkleBranch := s.merkleBranch
  exactCommitment := c.exactCommitment
  bitcoinTx := s.tx
  directParents := s.directParents

/-- `ApplyFsp2AuthorizedReservePayout`. -/
def applyFsp2AuthorizedReservePayout (s : ProvenSpend) : LedgerM ReservePayout := do
  let l ← get
  let supply := l.supplyOf btcveldTokenId
  let headers ← require V.headers Stop.reject
  check (P.transitionV1Required ∧ l.reserveState.status = .active ∧
    s.merkleBranch.length ≤ 32 ∧
    (s.merkleBranch.length < 32 → s.merkleDirections >>> s.merkleBranch.length = 0) ∧
    l.lastBlockReserveEdges = 0 ∧ 0 ≤ supply) Stop.reject
  let c ← require (classifyBtcVeldReserveSpend P C V l s.tx s.directParents).toOption Stop.reject
  check (c.operation = .payout ∧ c.payout.isSome) Stop.reject
  let proof := Reserve.encodeProof C.sha256 (fsp2Claim P C l.reserveState s c)
  check (proof ≠ []) Stop.reject
  let v ← require (Reserve.verify P C.sha256 headers l.reserveState supply.toNat proof P.custodySpk
    P.spvKBtc (canCredit P C) c.payout).toOption Stop.reject
  check (v.claim.bitcoinTxid = c.bitcoinTxid) Stop.reject
  let next ← require (Reserve.applyAuthorized P C.sha256 l.reserveState v supply.toNat
    supply.toNat) Stop.reject
  let applied : ReservePayout :=
    ⟨v.payoutRequestId, v.claim.bitcoinTxid, v.payoutPrincipalSats, v.payoutDestinationSpk⟩
  set { l with
    reserveState := next
    lastBlockReservePayouts := l.lastBlockReservePayouts ++ [applied]
    lastBlockReserveEdges := 1 }
  return applied

end

end Veld
