import Veld.Consensus.ReserveTransition

/-!
# The rolling reserve: classification, verification, application

`consensus/btcveld_reserve_transition.h`, second part: what a Bitcoin transaction does to the reserve, the check
of an RTP1 proof, and the mutators of the reserve record.
-/

namespace Veld.Reserve

open Wire Btcspv

/-! ## Classification -/

inductive SpendDisposition where
  | notCurrentReserve
  | authorizedTransition
  | unauthorizedSpend
  deriving DecidableEq

structure SpendClassification where
  operation : Operation
  bitcoinTxid : Hash256
  newReserveTxid : Hash256 := .zero
  newReserveVout : Nat := noVout
  newReserveValue : Nat := 0
  exactCommitment : Hash256
  mintAmount : Nat
  recipient : Bytes := []
  pendingOutpoint : Bytes := []
  payout : Option PayoutContext := none

/-- What the output loop collects. -/
structure OutputFacts where
  auths : List AuthMarker
  nullData : Nat
  custody : List (BtcTxOut × Nat)

def OutputFacts.custodyVout (o : OutputFacts) : Nat := (o.custody.getLast?.map (·.2)).getD noVout

def OutputFacts.custodyValue (o : OutputFacts) : Nat :=
  (o.custody.getLast?.map (·.1.value)).getD 0

structure ReserveInputs where
  current : List Nat
  otherCustody : Nat

def reserveInputs (state : State) (held : Bool) (inputs : InputFacts) (custodySpk : Bytes) :
    Option ReserveInputs :=
  let isCurrent := fun p : BtcPrevout =>
    held && p.txid == state.reserveTxid && p.vout == state.reserveVout
  let spends := (inputs.prevouts.zip inputs.spentOutputs).zipIdx
  let current := spends.filter fun s => isCurrent s.1.1
  if current.all fun s => s.1.2.spk == custodySpk && s.1.2.value == state.reserveValueSats then
    some ⟨current.map (·.2),
      (spends.filter fun s => !isCurrent s.1.1 && s.1.2.spk == custodySpk).length⟩
  else none

/-- The amount paid to a script by a single output of positive value. -/
def solePayment (outputs : List BtcTxOut) (spk : Bytes) : Option Nat :=
  (onlyOne (outputs.filter fun o => 0 < o.value && o.spk == spk)).map (·.value)

section
variable (P : Profile) (sha256 : Bytes → Hash256)

def outputFacts (outputs : List BtcTxOut) (custodySpk : Bytes) : OutputFacts where
  auths := outputs.filterMap (parseAuthMarker P sha256)
  nullData := (outputs.filter fun o => o.spk.head? == some 0x6a).length
  custody := outputs.zipIdx.filter fun o => o.1.spk == custodySpk

/-- A DEPOSIT has no outputs but the successor and zero-value markers. -/
def onlyReserveOutputs (outputs : List BtcTxOut) (custodySpk : Bytes) : Bool :=
  outputs.all fun o =>
    o.spk == custodySpk || (o.value == 0 && (parseAuthMarker P sha256 o).isSome)

def pendingDeposit (directParents : List Bytes) (inputs : InputFacts) (custodySpk : Bytes)
    (validRecipient : Bytes → Bool) (index : Nat) :
    Option (Bytes × BtcPrevout × BtcTxOut × Bool) := do
  let parentTx ← directParents[index]?
  let parent ← parseWitnessAwareBtcTx sha256 parentTx 100000 100000
  let recipient ← extractRecipient parent.outputs
  guard (validRecipient recipient = true)
  let prevout ← inputs.prevouts[index]?
  let spent ← inputs.spentOutputs[index]?
  return (recipient, prevout, spent,
    decide ((parent.outputs.filter fun o => o.spk == custodySpk).length = 1))

abbrev Classified := Except (SpendDisposition × String)

def classifyOpen (txid : Hash256) (auth : AuthMarker) (o : OutputFacts) (i : ReserveInputs)
    (validRecipient : Bytes → Bool) : Classified SpendClassification := do
  ensure (auth.operation = .open ∧ i.current = [] ∧ i.otherCustody = 0 ∧ o.custody.length = 1 ∧
      o.custodyValue ≠ 0 ∧ o.custodyValue ≤ spvMaxCustodySats ∧
      auth.mintAmount ≤ o.custodyValue ∧ auth.openRecipient ≠ [] ∧
      validRecipient auth.openRecipient ∧
      auth.openRecipient.length = openAuthRecipientBytes)
    (SpendDisposition.notCurrentReserve, "EMPTY reserve transaction is not a canonical OPEN")
  return { operation := .open, bitcoinTxid := txid, newReserveTxid := txid,
           newReserveVout := o.custodyVout, newReserveValue := o.custodyValue,
           exactCommitment := openDepositCommitment sha256 o.custodyVout o.custodyValue
             auth.openRecipient,
           mintAmount := auth.mintAmount, recipient := auth.openRecipient,
           pendingOutpoint := btcDepositOutpointId txid o.custodyVout }

def classifyDeposit (state : State) (tx : WitnessAwareBtcTx) (directParents : List Bytes)
    (inputs : InputFacts) (custodySpk : Bytes) (validRecipient : Bytes → Bool) (auth : AuthMarker)
    (o : OutputFacts) (i : ReserveInputs) (currentIndex : Nat) :
    Classified SpendClassification := do
  ensure (inputs.prevouts.length = 2 ∧ i.otherCustody = 1 ∧ o.custody.length = 1 ∧
      state.reserveValueSats < o.custodyValue ∧ o.custodyValue ≤ spvMaxCustodySats)
    (SpendDisposition.unauthorizedSpend, "DEPOSIT input or successor shape is invalid")
  let (recipient, prevout, spent, oneOutput) ← orElse
    (pendingDeposit sha256 directParents inputs custodySpk validRecipient
      (if currentIndex = 0 then 1 else 0))
    (SpendDisposition.unauthorizedSpend, "DEPOSIT original recipient is unavailable")
  let increase := o.custodyValue - state.reserveValueSats
  ensure (oneOutput ∧ increase ≤ spent.value ∧ auth.mintAmount ≤ increase ∧
      auth.exactCommitment =
        pendingDepositCommitment sha256 prevout.txid prevout.vout spent.value recipient)
    (SpendDisposition.unauthorizedSpend, "DEPOSIT value or recipient commitment is invalid")
  ensure (onlyReserveOutputs P sha256 tx.outputs custodySpk = true)
    (SpendDisposition.unauthorizedSpend, "DEPOSIT carries a mixed payout/value output")
  return { operation := .deposit, bitcoinTxid := tx.txid, newReserveTxid := tx.txid,
           newReserveVout := o.custodyVout, newReserveValue := o.custodyValue,
           exactCommitment := auth.exactCommitment, mintAmount := auth.mintAmount, recipient,
           pendingOutpoint := btcDepositOutpointId prevout.txid prevout.vout }

def classifyRollover (state : State) (txid : Hash256) (auth : AuthMarker) (o : OutputFacts)
    (i : ReserveInputs) : Classified SpendClassification := do
  ensure (i.otherCustody = 0 ∧ o.custody.length = 1 ∧ o.custodyValue = state.reserveValueSats ∧
      auth.mintAmount = 0 ∧ auth.exactCommitment.isZero)
    (SpendDisposition.unauthorizedSpend, "ROLLOVER does not preserve the exact reserve")
  return { operation := .rollover, bitcoinTxid := txid, newReserveTxid := txid,
           newReserveVout := o.custodyVout, newReserveValue := o.custodyValue,
           exactCommitment := auth.exactCommitment, mintAmount := auth.mintAmount }

def classifyPayout (state : State) (tx : WitnessAwareBtcTx) (inputs : InputFacts)
    (payoutLookup : Hash256 → Option PayoutContext) (auth : AuthMarker) (o : OutputFacts)
    (i : ReserveInputs) : Classified SpendClassification := do
  let payout ← orElse (payoutLookup auth.exactCommitment)
    (SpendDisposition.unauthorizedSpend, "PAYOUT context or external fee input is invalid")
  ensure (payout.principalSats ≠ 0 ∧ payout.destinationSpk ≠ [] ∧ i.otherCustody = 0 ∧
      2 ≤ inputs.prevouts.length ∧ auth.mintAmount = 0 ∧
      payout.principalSats ≤ state.openRedemptionPrincipal ∧
      payout.principalSats ≤ state.reserveValueSats)
    (SpendDisposition.unauthorizedSpend, "PAYOUT context or external fee input is invalid")
  let successor := state.reserveValueSats - payout.principalSats
  ensure (solePayment tx.outputs payout.destinationSpk = some payout.principalSats ∧
      (successor = 0 → o.custody.length = 0) ∧
      (successor ≠ 0 → o.custody.length = 1 ∧ o.custodyValue = successor))
    (SpendDisposition.unauthorizedSpend, "PAYOUT does not reduce reserve by exact principal")
  return { operation := .payout, bitcoinTxid := tx.txid,
           newReserveTxid := if successor = 0 then Hash256.zero else tx.txid,
           newReserveVout := if successor = 0 then noVout else o.custodyVout,
           newReserveValue := if successor = 0 then 0 else o.custodyValue,
           exactCommitment := auth.exactCommitment, mintAmount := auth.mintAmount,
           payout := some payout }

def classifyClose (state : State) (circulatingSupply : Nat) (txid : Hash256) (auth : AuthMarker)
    (o : OutputFacts) (i : ReserveInputs) : Classified SpendClassification := do
  ensure (i.otherCustody = 0 ∧ o.custody.length = 0 ∧ auth.mintAmount = 0 ∧
      auth.exactCommitment.isZero ∧ circulatingSupply = 0 ∧
      state.openRedemptionPrincipal = 0 ∧ state.reserveValueSats = state.surplusSats)
    (SpendDisposition.unauthorizedSpend, "CLOSE has liabilities or a reserve successor")
  return { operation := .close, bitcoinTxid := txid, exactCommitment := auth.exactCommitment,
           mintAmount := auth.mintAmount }

structure SpendFacts where
  tx : WitnessAwareBtcTx
  inputs : InputFacts
  outputs : OutputFacts
  reserve : ReserveInputs
  auth : AuthMarker

def markerFailure (state : State) : SpendDisposition × String :=
  (if state.status = .empty then .notCurrentReserve else .unauthorizedSpend,
    "reserve spend must carry exactly one state-bound RVS1 null-data output")

def spendFacts (state : State) (circulatingSupply : Nat) (bitcoinTx : Bytes)
    (directParents : List Bytes) (custodySpk : Bytes) : Classified SpendFacts := do
  ensure (custodySpk ≠ [] ∧ state.accountingHolds circulatingSupply)
    (SpendDisposition.unauthorizedSpend, "reserve state or accounting is non-canonical")
  let tx ← orElse (parseWitnessAwareBtcTx sha256 bitcoinTx maxDirectInputs 100000)
    (SpendDisposition.unauthorizedSpend, "")
  let inputs ← (readInputFacts sha256 bitcoinTx directParents).mapError
    (SpendDisposition.unauthorizedSpend, ·)
  let outputTotal ← orElse (sumOutputs tx.outputs)
    (SpendDisposition.unauthorizedSpend, "Bitcoin transaction value conservation failed")
  ensure (outputTotal ≤ inputs.inputTotal)
    (SpendDisposition.unauthorizedSpend, "Bitcoin transaction value conservation failed")
  let outputs := outputFacts P sha256 tx.outputs custodySpk
  let reserve ← orElse (reserveInputs state (state.status != .empty) inputs custodySpk)
    (SpendDisposition.unauthorizedSpend, "current reserve parent differs from canonical state")
  ensure (state.status ≠ .frozen) (SpendDisposition.notCurrentReserve, "reserve is already frozen")
  ensure (state.status = .active → reserve.current ≠ [])
    (SpendDisposition.notCurrentReserve, "transaction does not spend the current reserve")
  let auth ← orElse (onlyOne outputs.auths) (markerFailure state)
  ensure (outputs.nullData = 1 ∧ auth.priorCommitment = state.transitionCommitment)
    (markerFailure state)
  return { tx, inputs, outputs, reserve, auth }

def consumedTwice : SpendDisposition × String :=
  (.unauthorizedSpend, "ACTIVE transition does not consume current reserve once")

def classifyBitcoinReserveSpend (state : State) (circulatingSupply : Nat) (bitcoinTx : Bytes)
    (directParents : List Bytes) (custodySpk : Bytes) (validRecipient : Bytes → Bool)
    (payoutLookup : Hash256 → Option PayoutContext) : Classified SpendClassification := do
  let f ← spendFacts P sha256 state circulatingSupply bitcoinTx directParents custodySpk
  if state.status = .empty then
    classifyOpen sha256 f.tx.txid f.auth f.outputs f.reserve validRecipient
  else
    let currentIndex ← orElse (onlyOne f.reserve.current) consumedTwice
    match f.auth.operation with
    | .open => .error consumedTwice
    | .freeze => .error consumedTwice
    | .deposit =>
      classifyDeposit P sha256 state f.tx directParents f.inputs custodySpk validRecipient f.auth
        f.outputs f.reserve currentIndex
    | .rollover => classifyRollover state f.tx.txid f.auth f.outputs f.reserve
    | .payout => classifyPayout state f.tx f.inputs payoutLookup f.auth f.outputs f.reserve
    | .close => classifyClose state circulatingSupply f.tx.txid f.auth f.outputs f.reserve

/-! ## Verification -/

/-- `Result`, of a proof that verified. -/
structure Verified where
  claim : Claim
  recipient : Bytes := []
  pendingOutpoint : Bytes := []
  pendingValue : Nat := 0
  payoutRequestId : Hash256 := .zero
  payoutPrincipalSats : Nat := 0
  payoutDestinationSpk : Bytes := []
  terminal : Bool := false
  deriving DecidableEq

def successorMatches (claim : Claim) (txid : Hash256) (o : OutputFacts) : Except String Unit :=
  if claim.operation ≠ .close ∧ ¬ (claim.operation = .payout ∧ claim.newReserveVout = noVout) then
    ensure (o.custody.length = 1 ∧ claim.newReserveTxid = txid ∧
      claim.newReserveVout = o.custodyVout ∧ claim.newReserveValue = o.custodyValue ∧
      claim.newReserveVout ≠ noVout ∧ claim.newReserveValue ≠ 0)
      "reserve successor output mismatch"
  else
    ensure (o.custody.length = 0 ∧ claim.newReserveTxid.isZero ∧
      claim.newReserveVout = noVout ∧ claim.newReserveValue = 0)
      "terminal transition must not create a reserve successor"

def verifyOpen (claim : Claim) (txid : Hash256) (recipient : Bytes)
    (validRecipient : Bytes → Bool) (i : ReserveInputs) : Except String Verified := do
  ensure (i.current = [] ∧ i.otherCustody = 0 ∧ claim.priorReserveVout = noVout ∧
    claim.priorReserveTxid.isZero ∧ claim.priorReserveValue = 0 ∧
    claim.newReserveValue ≤ spvMaxCustodySats ∧ claim.mintAmount ≤ claim.newReserveValue ∧
    claim.hasNullifierProof ∧ recipient ≠ [] ∧ validRecipient recipient ∧
    claim.exactCommitment =
      openDepositCommitment sha256 claim.newReserveVout claim.newReserveValue recipient)
    "OPEN does not prove one genuine external deposit"
  return { claim, recipient, pendingOutpoint := btcDepositOutpointId txid claim.newReserveVout,
           pendingValue := claim.newReserveValue }

def verifyDeposit (state : State) (claim : Claim) (tx : WitnessAwareBtcTx) (inputs : InputFacts)
    (custodySpk : Bytes) (validRecipient : Bytes → Bool) (i : ReserveInputs) (currentIndex : Nat) :
    Except String Verified := do
  ensure (inputs.prevouts.length = 2 ∧ i.otherCustody = 1 ∧
    state.reserveValueSats < claim.newReserveValue ∧ claim.newReserveValue ≤ spvMaxCustodySats ∧
    claim.hasNullifierProof = true)
    "DEPOSIT must consume current reserve and one pending deposit"
  let (recipient, prevout, spent, oneOutput) ← orElse
    (pendingDeposit sha256 claim.directParents inputs custodySpk validRecipient
      (if currentIndex = 0 then 1 else 0))
    "pending deposit commitment is unavailable"
  let increase := claim.newReserveValue - state.reserveValueSats
  ensure (oneOutput ∧ increase ≤ spent.value ∧ claim.mintAmount ≤ increase ∧
    claim.exactCommitment =
      pendingDepositCommitment sha256 prevout.txid prevout.vout spent.value recipient)
    "DEPOSIT amount or original recipient commitment mismatch"
  ensure (onlyReserveOutputs P sha256 tx.outputs custodySpk = true)
    "mixed DEPOSIT and payout/value output is forbidden"
  return { claim, recipient, pendingOutpoint := btcDepositOutpointId prevout.txid prevout.vout,
           pendingValue := spent.value }

def verifyRollover (state : State) (claim : Claim) (i : ReserveInputs) :
    Except String Verified := do
  ensure (i.otherCustody = 0 ∧ claim.newReserveValue = state.reserveValueSats ∧
    claim.mintAmount = 0 ∧ claim.exactCommitment.isZero ∧ claim.hasNullifierProof = false)
    "ROLLOVER must preserve the exact reserve value"
  return { claim }

def verifyPayout (state : State) (claim : Claim) (tx : WitnessAwareBtcTx) (inputs : InputFacts)
    (payout : Option PayoutContext) (i : ReserveInputs) : Except String Verified := do
  let payout ← orElse payout "PAYOUT context or external fee input is missing"
  ensure (payout.principalSats ≠ 0 ∧ payout.destinationSpk ≠ [] ∧ i.otherCustody = 0 ∧
    2 ≤ inputs.prevouts.length ∧ claim.mintAmount = 0 ∧ claim.hasNullifierProof = false ∧
    claim.exactCommitment = payout.requestCommitment ∧
    payout.principalSats ≤ state.reserveValueSats)
    "PAYOUT context or external fee input is missing"
  let successor := state.reserveValueSats - payout.principalSats
  ensure (solePayment tx.outputs payout.destinationSpk = some payout.principalSats ∧
    claim.newReserveValue = successor ∧ (successor = 0 ↔ claim.newReserveVout = noVout))
    "PAYOUT does not reduce reserve by exact principal"
  return { claim, payoutRequestId := payout.requestId, payoutPrincipalSats := payout.principalSats,
           payoutDestinationSpk := payout.destinationSpk, terminal := decide (successor = 0) }

def verifyClose (claim : Claim) (i : ReserveInputs) : Except String Verified := do
  ensure (i.otherCustody = 0 ∧ claim.mintAmount = 0 ∧ claim.exactCommitment.isZero ∧
    claim.hasNullifierProof = false) "CLOSE has non-canonical fields"
  return { claim, terminal := true }

def markerMatches (claim : Claim) (recipient : Bytes) (o : OutputFacts) : Except String Unit := do
  let auth ← orElse (onlyOne o.auths) "Bitcoin reserve authorization marker mismatch"
  ensure (o.nullData = 1 ∧ auth.operation = claim.operation ∧
    auth.priorCommitment = claim.priorCommitment ∧
    (if claim.operation = .open then auth.openRecipient = recipient
      else auth.exactCommitment = claim.exactCommitment) ∧
    auth.mintAmount = claim.mintAmount) "Bitcoin reserve authorization marker mismatch"

def classifiedAs (state : State) (circulatingSupply : Nat) (claim : Claim) (custodySpk : Bytes)
    (validRecipient : Bytes → Bool) (payout : Option PayoutContext) :
    Except String SpendClassification :=
  match classifyBitcoinReserveSpend P sha256 state circulatingSupply claim.bitcoinTx
      claim.directParents custodySpk validRecipient
      (fun commitment => payout.filter fun p => p.requestCommitment == commitment) with
  | .error (_, reason) =>
    .error (if reason = "" then "RTP1 claim differs from classified Bitcoin transition" else reason)
  | .ok c =>
    if c.operation = claim.operation ∧ c.bitcoinTxid = claim.bitcoinTxid ∧
        c.newReserveTxid = claim.newReserveTxid ∧ c.newReserveVout = claim.newReserveVout ∧
        c.newReserveValue = claim.newReserveValue ∧ c.exactCommitment = claim.exactCommitment ∧
        c.mintAmount = claim.mintAmount then .ok c
    else .error "RTP1 claim differs from classified Bitcoin transition"

/-- The branch of `verify` for a reserve that exists. -/
def verifyActive (state : State) (claim : Claim) (tx : WitnessAwareBtcTx) (inputs : InputFacts)
    (custodySpk : Bytes) (validRecipient : Bytes → Bool) (payout : Option PayoutContext)
    (i : ReserveInputs) : Except String Verified := do
  let currentIndex ← orElse (onlyOne i.current)
    "transition does not consume the exact current reserve once"
  match claim.operation with
  | .deposit =>
    verifyDeposit P sha256 state claim tx inputs custodySpk validRecipient i currentIndex
  | .rollover => verifyRollover state claim i
  | .payout => verifyPayout state claim tx inputs payout i
  | .close => verifyClose claim i
  -- neither reaches this point
  | .open => return { claim }
  | .freeze => return { claim }

def verify (headers : BtcHeaderChain) (state : State) (circulatingSupply : Nat) (payload : Bytes)
    (custodySpk : Bytes) (finalityDepth : Nat) (validRecipient : Bytes → Bool)
    (payout : Option PayoutContext) : Except String Verified := do
  let claim ← orElse (decodeProof sha256 payload) "malformed RTP1 reserve-transition proof"
  ensure (state.canonical ∧ custodySpk ≠ [] ∧ matchesPrior P sha256 state claim)
    "stale or incompatible reserve prior state"
  ensure (state.status ≠ .frozen ∧ (state.status = .empty ↔ claim.operation = .open))
    "reserve operation is invalid for current status"
  let tx ← orElse (parseWitnessAwareBtcTx sha256 claim.bitcoinTx maxDirectInputs 100000)
    "reserve Bitcoin transaction is non-canonical"
  ensure (claim.bitcoinTxid = tx.txid ∧
    headers.verifyMerkle sha256 claim.bitcoinBlock tx.txid claim.merkleBranch
      claim.merkleDirections ∧
    headers.isFinalForExternalValue P claim.bitcoinBlock finalityDepth = true)
    "reserve transaction is not final on the Bitcoin best chain"
  let c ← classifiedAs P sha256 state circulatingSupply claim custodySpk validRecipient payout
  let inputs ← readInputFacts sha256 claim.bitcoinTx claim.directParents
  let outputTotal ← orElse (sumOutputs tx.outputs) "Bitcoin transaction value conservation failed"
  ensure (outputTotal ≤ inputs.inputTotal) "Bitcoin transaction value conservation failed"
  let o := outputFacts P sha256 tx.outputs custodySpk
  ensure (claim.operation ≠ .freeze) "FREEZE uses the FSP2 current-reserve classifier"
  markerMatches claim c.recipient o
  let i ← orElse (reserveInputs state (state.status == .active) inputs custodySpk)
    "current reserve parent does not match state"
  successorMatches claim tx.txid o
  if claim.operation = .open then verifyOpen sha256 claim tx.txid c.recipient validRecipient i
  else verifyActive P sha256 state claim tx inputs custodySpk validRecipient payout i

/-! ## Application -/

def setProcessed (state : State) (height : Nat) (blockHash : Hash256) : Option State :=
  if state.canonical ∧ ¬ blockHash.isZero ∧ state.processedVeldHeight ≤ height ∧
      (height = state.processedVeldHeight → ¬ state.processedVeldBlockHash.isZero →
        state.processedVeldBlockHash = blockHash) then
    some { state with processedVeldHeight := height, processedVeldBlockHash := blockHash }
  else none

/-- The outpoint of the claim's successor. -/
def State.withSuccessor (state : State) (claim : Claim) : State :=
  { state with
    reserveTxid := claim.newReserveTxid
    reserveVout := claim.newReserveVout
    reserveValueSats := claim.newReserveValue
    reserveBitcoinBlock := claim.bitcoinBlock }

/-- The record of a reserve that ended. -/
def State.emptied (state : State) : State :=
  { state with
    status := .empty
    reserveTxid := .zero
    reserveVout := noVout
    reserveBitcoinBlock := .zero }

/-- The `switch` of `ApplyAuthorized`. -/
def nextState (state : State) (v : Verified) (before after : Nat) : Option State :=
  let claim := v.claim
  match claim.operation with
  | .open => do
    guard (state.status = .empty ∧ before ≤ after ∧ after - before = claim.mintAmount)
    return { state.withSuccessor claim with
      status := .active, surplusSats := sizeSub claim.newReserveValue claim.mintAmount }
  | .deposit => do
    guard (state.status = .active ∧ before ≤ after ∧ after - before = claim.mintAmount ∧
      state.reserveValueSats < claim.newReserveValue)
    let increase := claim.newReserveValue - state.reserveValueSats
    guard (claim.mintAmount ≤ increase ∧
      state.surplusSats ≤ uint64Max - (increase - claim.mintAmount))
    return { state.withSuccessor claim with
      surplusSats := state.surplusSats + (increase - claim.mintAmount) }
  | .rollover => do
    guard (state.status = .active ∧ after = before)
    return state.withSuccessor claim
  | .payout => do
    guard (state.status = .active ∧ after = before ∧
      claim.newReserveValue ≤ state.reserveValueSats)
    let principal := state.reserveValueSats - claim.newReserveValue
    guard (principal ≤ state.openRedemptionPrincipal ∧ v.payoutPrincipalSats = principal)
    let opened := state.openRedemptionPrincipal - principal
    guard (v.terminal → after = 0 ∧ opened = 0 ∧ state.surplusSats = 0)
    return if v.terminal then
        { state.emptied with
          openRedemptionPrincipal := opened, reserveValueSats := claim.newReserveValue }
      else { state.withSuccessor claim with openRedemptionPrincipal := opened }
  | .close => do
    guard (state.status = .active ∧ before = 0 ∧ after = 0 ∧ state.openRedemptionPrincipal = 0 ∧
      state.reserveValueSats = state.surplusSats)
    return { state.emptied with reserveValueSats := 0, surplusSats := 0 }
  | .freeze => none

def applyAuthorized (state : State) (v : Verified) (before after : Nat) : Option State := do
  guard (v.claim.operation ≠ .freeze ∧ state.accountingHolds before ∧
    matchesPrior P sha256 state v.claim ∧ state.transitionCount ≠ uint64Max)
  let next ← nextState state v before after
  let next := { next with
    transitionCount := next.transitionCount + 1
    transitionCommitment := transitionCommitment sha256 v.claim }
  guard (next.accountingHolds after = true)
  return next

/-- `ApplyFreeze`. The outpoint and value stay as an accounting record. -/
def applyFreeze (state : State) (unauthorizedSpendTxid bitcoinBlock : Hash256) : Option State := do
  guard (state.canonical ∧ state.status = .active ∧ ¬ unauthorizedSpendTxid.isZero ∧
    ¬ bitcoinBlock.isZero ∧ state.transitionCount ≠ uint64Max)
  let claim : Claim :=
    { operation := .freeze
      networkBinding := networkBinding P sha256
      priorCommitment := state.transitionCommitment
      priorReserveTxid := state.reserveTxid
      priorReserveVout := state.reserveVout
      priorReserveValue := state.reserveValueSats
      priorTransitionCount := state.transitionCount
      newReserveTxid := state.reserveTxid
      newReserveVout := state.reserveVout
      newReserveValue := state.reserveValueSats
      bitcoinTxid := unauthorizedSpendTxid
      bitcoinBlock }
  return { state with
    status := .frozen
    transitionCount := state.transitionCount + 1
    transitionCommitment := transitionCommitment sha256 claim }

end

def openRedemption (state : State) (amount circulatingSupplyAfterBurn : Nat) : Option State := do
  guard (state.status = .active ∧ amount ≠ 0 ∧
    state.openRedemptionPrincipal ≤ uint64Max - amount)
  let next := { state with openRedemptionPrincipal := state.openRedemptionPrincipal + amount }
  guard (next.accountingHolds circulatingSupplyAfterBurn = true)
  return next

def resolveDefaultOrCompensation (state : State) (amount circulatingSupplyAfter : Nat) :
    Option State := do
  guard (amount ≠ 0 ∧ amount ≤ state.openRedemptionPrincipal)
  let next := { state with openRedemptionPrincipal := state.openRedemptionPrincipal - amount }
  guard (next.accountingHolds circulatingSupplyAfter = true)
  return next

end Veld.Reserve
