import Veld.Amm.Quote
import Veld.Token.Block

/-!
# The pool ledger

`AmmLedger` of `core/amm_pool.h`: the text of an operation, the transaction that carries it, and the three
operations on the pool, its LP positions and the token ledger.
-/

namespace Veld.Amm

open Wire Program

/-! ## Operations -/

structure AmmOp where
  action : Bytes
  user : Bytes
  amt : Int
  extra : Int
  deriving DecidableEq

inductive AmmAction where
  | swapV2B
  | swapB2V
  | add
  | remove
  deriving DecidableEq

def AmmAction.ofText (text : Bytes) : Option AmmAction :=
  if text = ascii "SWAP_V2B" then some .swapV2B
  else if text = ascii "SWAP_B2V" then some .swapB2V
  else if text = ascii "ADD" then some .add
  else if text = ascii "REMOVE" then some .remove
  else none

def intText (n : Int) : Bytes :=
  if n < 0 then 45 :: toDecimal n.natAbs else toDecimal n.natAbs

def encodeAmmOp (op : AmmOp) : Bytes :=
  ascii "VELD_AMM|" ++ joinWith 124 [op.action, op.user, intText op.amt, intText op.extra]

def parseCanonicalAmmI64 : Bytes → Option Int
  | 45 :: digits =>
    if digits.head? = some 48 then none
    else (readDecimal (2 ^ 63) digits).map fun n => -(n : Int)
  | digits => (readDecimal (2 ^ 63 - 1) digits).map fun n => (n : Int)

inductive AmmOpParse where
  | none
  | valid (op : AmmOp)
  | invalid
  deriving DecidableEq

/-- One marker output: the canonical script of its text, no value, four fields. -/
def parseAmmMarker (o : TxOutput) (text : Bytes) : Option AmmOp := do
  guard (o.scriptPubkey = buildOpReturnScript text ∧ o.value = 0)
  match fields 124 (behind text "VELD_AMM|") with
  | [action, user, amt, extra] =>
    guard (action ≠ [] ∧ user ≠ [])
    let amt ← parseCanonicalAmmI64 amt
    let extra ← parseCanonicalAmmI64 extra
    return ⟨action, user, amt, extra⟩
  | _ => .none

/-- The output loop of `ParseAmmOpDetailed`: a second marker is invalid. -/
def scanAmmOutputs : List TxOutput → AmmOpParse → AmmOpParse
  | [], found => found
  | o :: rest, found =>
    let text := parseOpReturn o.scriptPubkey
    if startsWith text "VELD_AMM|" = false then scanAmmOutputs rest found
    else
      match found, parseAmmMarker o text with
      | .none, some op => scanAmmOutputs rest (.valid op)
      | _, _ => .invalid

def isOpReturn (o : TxOutput) : Bool := o.scriptPubkey.head? == some 0x6A

def parseAmmOpDetailed (tx : Transaction) : AmmOpParse :=
  match scanAmmOutputs tx.outputs .none with
  | .valid op => if (tx.outputs.filter isOpReturn).length = 1 then .valid op else .invalid
  | found => found

/-! ## The carrying transaction -/

def poolVeldScript (poolId : Bytes) : Bytes := ascii "AMMPOOLv1:" ++ poolId

def isAmmPoolScript (script : Bytes) : Bool :=
  10 < script.length && startsWith script "AMMPOOLv1:"

def maxAmmFundingInputs : Nat := 24
def maxAmmTxBytes : Nat := 128 * 1024

def ammTransactionEnvelopeWithinBounds (tx : Transaction) : Bool :=
  tx.version == 1 && tx.locktime == 0 && !tx.inputs.isEmpty &&
    tx.inputs.length ≤ maxAmmFundingInputs + 1 && tx.serialize.length ≤ maxAmmTxBytes &&
    tx.inputs.all fun i => i.sequence == 0xFFFFFFFF

/-- The first ADD, which creates the pool output. -/
def isSeed (p : AmmPool) : Bool := !p.utxoValid || p.lpSupply == 0

def validateAmmEnvelope (p : AmmPool) (op : AmmOp) (tx : Transaction) : Bool :=
  let action := AmmAction.ofText op.action
  let poolInputs := if action = some .add ∧ isSeed p = true then 0 else 1
  let count := tx.outputs.length
  ammTransactionEnvelopeWithinBounds tx && !tx.outputs.isEmpty &&
    poolInputs < tx.inputs.length && tx.inputs.length - poolInputs ≤ maxAmmFundingInputs &&
    (tx.outputs.getLast?.any fun o =>
      o.value == 0 && o.scriptPubkey == buildOpReturnScript (encodeAmmOp op)) &&
    (tx.outputs.head?.any fun o => o.scriptPubkey == p.veldScript) &&
    ((tx.outputs.drop 1).dropLast.all fun o =>
      !o.scriptPubkey.isEmpty && !isOpReturn o && !isAmmPoolScript o.scriptPubkey) &&
    match action with
    | some .swapV2B | some .add => count == 2 || count == 3
    | some .swapB2V | some .remove => count == 3 || count == 4
    | none => false

/-- `SpendsPool`: the pool output is input 0 and is recreated as output 0. -/
def spendsPool (p : AmmPool) (tx : Transaction) : Bool :=
  (tx.inputs.head?.any fun i =>
    i.prevTxHash == p.poolTxid && i.prevOutIndex.toNat == p.poolVout && i.scriptSig.isEmpty) &&
  tx.outputs.head?.any fun o => o.scriptPubkey == p.veldScript

def outputPays (tx : Transaction) (i : Nat) (value : Int) : Bool :=
  tx.outputs[i]?.any fun o => (o.value.toNat : Int) == value

section
variable (P : Profile) (C : Crypto)

def paysUser (tx : Transaction) (user : Bytes) (value : Int) : Bool :=
  let script := addressToScript C.sha256 P user
  script != [] && outputPays tx 1 value && tx.outputs[1]?.any fun o => o.scriptPubkey == script

def chainPool (p : AmmPool) (tx : Transaction) : AmmPool :=
  { p with poolTxid := tx.getTxID C, poolVout := 0, utxoValid := true }

/-! ## The tests of the operations -/

def ammSwapMinimumOutputSatisfied (veldIn : Bool) (minimumOut actualOut : Int) : Bool :=
  0 < actualOut &&
    if veldIn then 0 < minimumOut && minimumOut ≤ actualOut else minimumOut == 0

/-- The token leg of a swap: the pool pays the user, or the user, who signs and receives VELD in
output 1, pays the pool. -/
def swapLeg (p : AmmPool) (op : AmmOp) (v2b : Bool) (tx : Transaction) (tokens : Ledger)
    (out : Int) : Bool :=
  if v2b then canAmmMove tokens btcveldTokenId p.btcveldAddr op.user out
  else txVerifiedSignedBy P C tx op.user && paysUser P C tx op.user out &&
    canAmmMove tokens btcveldTokenId op.user p.btcveldAddr op.amt

/-- What `ApplySwap` tests before it writes. -/
def checkSwap (p : AmmPool) (op : AmmOp) (v2b : Bool) (tx : Transaction) (tokens : Ledger)
    (height : Nat) : Option SwapQuote := do
  guard (swapAllowed height = true)
  guard (p.utxoValid ∧ 0 < op.amt ∧ (if v2b then 0 < op.extra else op.extra = 0) ∧
    spendsPool p tx = true)
  guard (0 < reserveIn p v2b ∧ 0 < reserveOut p v2b)
  let quote ← (quoteSwap P p v2b op.amt height).toOption
  guard (ammSwapMinimumOutputSatisfied v2b op.extra quote.amountOut = true)
  guard (0 < quote.postReserveVeld ∧ 0 < quote.postReserveBtcveld)
  guard (dustThresholdUnits ≤ quote.postReserveVeld ∧
    (v2b = false → dustThresholdUnits ≤ quote.amountOut))
  guard (poolReserveAllowed height p.reserveBtcveld quote.postReserveBtcveld = true)
  guard (reserveIn p v2b * reserveOut p v2b ≤ quote.postReserveVeld * quote.postReserveBtcveld)
  guard (outputPays tx 0 quote.postReserveVeld = true)
  guard (swapLeg P C p op v2b tx tokens quote.amountOut = true)
  return quote

def checkedMulDivPositiveI64 (a b divisor : Int) : Option Int :=
  if a ≤ 0 ∨ b ≤ 0 ∨ divisor ≤ 0 then none
  else
    let q := a * b / divisor
    if q = 0 ∨ int64Max < q then none else some q

structure AddPlan where
  seed : Bool
  useBtc : Int
  minted : Int
  lockedLp : Int
  deriving DecidableEq

def initialSeedAuthorized (user : Bytes) (height : Nat) : Bool :=
  !marketSeedAnchorActive P height || user == P.issuerAddress

/-- The seed branch of `ApplyAdd`, up to the lock it records. -/
def seedQuote (op : AmmOp) (tx : Transaction) (tokens : Ledger) (height : Nat) :
    Option SeedQuote := do
  guard (dustThresholdUnits ≤ op.amt ∧ initialSeedAuthorized P op.user height)
  let quote ← quoteInitialSeedAtHeight P op.amt op.extra height
  let script := addressToScript C.sha256 P op.user
  let change ← tx.outputs[1]?
  guard (script ≠ [] ∧ tx.outputs.length = 3 ∧ change.scriptPubkey = script)
  let balance := tokens.balance btcveldTokenId op.user
  guard (op.extra ≤ balance)
  guard ((probeInitialSeedLiveness P op.amt op.extra height change.value.toNat
    (balance - op.extra)).isSome = true)
  return quote

/-- The seed branch of `ApplyAdd`. -/
def seedPlan (op : AmmOp) (tx : Transaction) (tokens : Ledger) (height : Nat) : Option AddPlan := do
  let quote ← seedQuote P C op tx tokens height
  guard (outputPays tx 0 op.amt = true)
  return ⟨true, op.extra, quote.lpMinted, quote.lockedLp⟩

/-- The other branch of `ApplyAdd`: shares are minted against the scarcer leg. -/
def depositPlan (p : AmmPool) (op : AmmOp) (tx : Transaction) : Option AddPlan := do
  guard (0 < p.reserveVeld ∧ 0 < p.reserveBtcveld ∧ 0 < p.lpSupply ∧ spendsPool p tx)
  let useBtc ← checkedMulDivPositiveI64 op.amt p.reserveBtcveld p.reserveVeld
  guard (useBtc ≤ op.extra)
  let fromVeld ← checkedMulDivPositiveI64 p.lpSupply op.amt p.reserveVeld
  let fromBtc ← checkedMulDivPositiveI64 p.lpSupply useBtc p.reserveBtcveld
  guard (op.amt ≤ int64Max - p.reserveVeld ∧ outputPays tx 0 (p.reserveVeld + op.amt))
  return ⟨false, useBtc, min fromVeld fromBtc, p.lockedLp⟩

def addPlan (p : AmmPool) (op : AmmOp) (tx : Transaction) (tokens : Ledger) (height : Nat) :
    Option AddPlan :=
  if isSeed p then seedPlan P C op tx tokens height else depositPlan p op tx

def lpKey (poolId user : Bytes) : Bytes := poolId ++ ascii ":" ++ user

def lpOf (lp : Table Bytes Int) (key : Bytes) : Int := (lp.lookup key).getD 0

def AddPlan.lpDelta (plan : AddPlan) : Int :=
  plan.minted + if plan.seed then plan.lockedLp else 0

/-- What `ApplyAdd` tests first. -/
def addAdmitted (p : AmmPool) (op : AmmOp) (tx : Transaction) : Prop :=
  0 < op.amt ∧ 0 < op.extra ∧ txVerifiedSignedBy P C tx op.user ∧
    (tx.outputs.head?.any fun o => o.scriptPubkey == p.veldScript) = true

instance (p : AmmPool) (op : AmmOp) (tx : Transaction) : Decidable (addAdmitted P C p op tx) := by
  unfold addAdmitted; infer_instance

/-- What `ApplyAdd` tests before it writes the outcome. -/
def checkAdd (poolId : Bytes) (p : AmmPool) (op : AmmOp) (tx : Transaction)
    (lp : Table Bytes Int) (tokens : Ledger) (height : Nat) : Option AddPlan := do
  guard (addAdmitted P C p op tx)
  let plan ← addPlan P C p op tx tokens height
  let reserveVeld := if plan.seed then 0 else p.reserveVeld
  let reserveBtcveld := if plan.seed then 0 else p.reserveBtcveld
  let lpSupply := if plan.seed then 0 else p.lpSupply
  guard (plan.lpDelta ≤ int64Max ∧ op.amt ≤ int64Max - reserveVeld ∧
    plan.useBtc ≤ int64Max - reserveBtcveld ∧ plan.lpDelta ≤ int64Max - lpSupply)
  let owner := lpOf lp (lpKey poolId op.user)
  guard (0 ≤ owner ∧ plan.minted ≤ int64Max - owner)
  guard (¬ (owner = 0 ∧ 0 < plan.minted ∧
    (plan.minted < lpMinPosition ∨ ammMaxLpIdentities ≤ lp.entries.length)))
  guard (poolReserveAllowed height reserveBtcveld (reserveBtcveld + plan.useBtc) = true)
  guard (canAmmMove tokens btcveldTokenId op.user p.btcveldAddr plan.useBtc = true)
  return plan

structure RemovePlan where
  veld : Int
  btcveld : Int
  deriving DecidableEq

/-- What `ApplyRemove` tests before it writes. -/
def checkRemove (poolId : Bytes) (p : AmmPool) (op : AmmOp) (tx : Transaction)
    (lp : Table Bytes Int) (tokens : Ledger) : Option RemovePlan := do
  guard (0 < op.amt ∧ op.extra = 0 ∧ 0 < p.lpSupply ∧ op.amt ≤ p.lpSupply ∧ 0 < p.reserveVeld ∧
    0 < p.reserveBtcveld ∧ p.utxoValid ∧ spendsPool p tx)
  guard (txVerifiedSignedBy P C tx op.user = true)
  let balance := lpOf lp (lpKey poolId op.user)
  guard (op.amt ≤ balance ∧ (balance - op.amt ≠ 0 → lpMinPosition ≤ balance - op.amt))
  let veld := p.reserveVeld * op.amt / p.lpSupply
  let btcveld := p.reserveBtcveld * op.amt / p.lpSupply
  guard (0 < veld ∧ dustThresholdUnits ≤ veld ∧ dustThresholdUnits ≤ p.reserveVeld - veld)
  guard (outputPays tx 0 (p.reserveVeld - veld) ∧ paysUser P C tx op.user veld)
  guard (0 < btcveld → canAmmMove tokens btcveldTokenId p.btcveldAddr op.user btcveld)
  return ⟨veld, btcveld⟩

/-! ## Application -/

structure OpState where
  pool : AmmPool
  lp : Table Bytes Int
  tokens : Ledger
  deriving DecidableEq

abbrev OpM := EStateM Stop OpState

/-- `AmmMove` on the token part of the state. -/
def moveTokens (source dest : Bytes) (amount : Int) : OpM Unit := do
  let s ← get
  let tokens ← require (ammMove s.tokens btcveldTokenId source dest amount) Stop.reject
  set { s with tokens }

/-- The token leg of a swap: the pool pays the user the output, or the user pays the input. -/
def moveSwapLeg (p : AmmPool) (op : AmmOp) (v2b : Bool) (out : Int) : OpM Unit :=
  if v2b then moveTokens p.btcveldAddr op.user out else moveTokens op.user p.btcveldAddr op.amt

/-- The token leg of a REMOVE, which may round to nothing. -/
def moveRemoveLeg (p : AmmPool) (op : AmmOp) (btcveld : Int) : OpM Unit :=
  if 0 < btcveld then moveTokens p.btcveldAddr op.user btcveld else pure ()

def applySwap (op : AmmOp) (v2b : Bool) (tx : Transaction) (dryRun : Bool) (height : Nat) :
    OpM Unit := do
  let s ← get
  let quote ← require (checkSwap P C s.pool op v2b tx s.tokens height) Stop.reject
  if dryRun then pure ()
  else do
    moveSwapLeg s.pool op v2b quote.amountOut
    modify fun s => { s with
      pool := chainPool C { s.pool with
        reserveVeld := quote.postReserveVeld
        reserveBtcveld := quote.postReserveBtcveld } tx }

def AddPlan.pool (plan : AddPlan) (p : AmmPool) (amt : Int) : AmmPool :=
  if plan.seed then
    { p with
      reserveVeld := amt
      reserveBtcveld := plan.useBtc
      anchorVeld := amt
      anchorBtcveld := plan.useBtc
      lpSupply := plan.lpDelta
      lockedLp := plan.lockedLp }
  else
    { p with
      reserveVeld := p.reserveVeld + amt
      reserveBtcveld := p.reserveBtcveld + plan.useBtc
      lpSupply := p.lpSupply + plan.lpDelta }

/-- `lp_[key] += minted`, which never creates an empty position. -/
def creditLp (lp : Table Bytes Int) (key : Bytes) (minted : Int) : Table Bytes Int :=
  if 0 < minted then lp.insert key (lpOf lp key + minted) else lp

/-- `lp_[key] -= amt`, which erases an empty position. -/
def debitLp (lp : Table Bytes Int) (key : Bytes) (amt : Int) : Table Bytes Int :=
  if lpOf lp key - amt = 0 then lp.erase key else lp.insert key (lpOf lp key - amt)

/-- The lock a seed records in the pool, in front of its last tests and also in a dry run. -/
def recordLock (op : AmmOp) (tx : Transaction) (height : Nat) (s : OpState) : OpState :=
  if addAdmitted P C s.pool op tx ∧ isSeed s.pool = true then
    match seedQuote P C op tx s.tokens height with
    | some quote => { s with pool := { s.pool with lockedLp := quote.lockedLp } }
    | none => s
  else s

def applyAdd (poolId : Bytes) (op : AmmOp) (tx : Transaction) (dryRun : Bool) (height : Nat) :
    OpM Unit := do
  let s ← get
  modify (recordLock P C op tx height)
  let plan ← require (checkAdd P C poolId s.pool op tx s.lp s.tokens height) Stop.reject
  if dryRun then pure ()
  else do
    moveTokens op.user s.pool.btcveldAddr plan.useBtc
    modify fun s => { s with
      pool := chainPool C (plan.pool s.pool op.amt) tx
      lp := creditLp s.lp (lpKey poolId op.user) plan.minted }

def applyRemove (poolId : Bytes) (op : AmmOp) (tx : Transaction) (dryRun : Bool) : OpM Unit := do
  let s ← get
  let plan ← require (checkRemove P C poolId s.pool op tx s.lp s.tokens) Stop.reject
  if dryRun then pure ()
  else do
    moveRemoveLeg s.pool op plan.btcveld
    modify fun s => { s with
      pool := chainPool C { s.pool with
        reserveVeld := s.pool.reserveVeld - plan.veld
        reserveBtcveld := s.pool.reserveBtcveld - plan.btcveld
        lpSupply := s.pool.lpSupply - op.amt } tx
      lp := debitLp s.lp (lpKey poolId op.user) op.amt }

/-- `ApplyAmmOpLocked`. -/
def applyAmmOp (poolId : Bytes) (op : AmmOp) (tx : Transaction) (dryRun : Bool) (height : Nat) :
    OpM Unit := do
  let s ← get
  check (validateAmmEnvelope s.pool op tx ∧
    isCanonicalTokenCreditAddress C.sha256 P op.user = true) Stop.reject
  match AmmAction.ofText op.action with
  | some .swapV2B => applySwap P C op true tx dryRun height
  | some .swapB2V => applySwap P C op false tx dryRun height
  | some .add => applyAdd P C poolId op tx dryRun height
  | some .remove => applyRemove P C poolId op tx dryRun
  | none => throw Stop.reject

/-! ## Blocks -/

def poolCreationAllowed (height : Nat) (gate : PegGate) : Bool :=
  gate.ammAllowed && P.issuerAddress != [] && btcVeldActivationHeight ≤ height &&
    fourBandHeight ≤ height && fourBandActive height

def newPool (poolId : Bytes) : AmmPool :=
  { exist := true, veldScript := poolVeldScript poolId, btcveldAddr := ascii "AMM:" ++ poolId }

structure AmmLedger where
  pools : Table Bytes AmmPool
  lp : Table Bytes Int
  deriving DecidableEq

def AmmLedger.empty : AmmLedger := ⟨∅, ∅⟩

def AmmLedger.pool (a : AmmLedger) (poolId : Bytes) : Option AmmPool :=
  (a.pools.lookup poolId).filter (·.exist)

structure AmmState where
  amm : AmmLedger
  tokens : Ledger
  deriving DecidableEq

abbrev AmmM := EStateM Stop AmmState

/-- The sole operation of a block with its transaction; `none` when a marker is malformed or there
are two. -/
def soleOp : List Transaction → Option (Option (AmmOp × Transaction))
  | [] => some none
  | tx :: rest =>
    match parseAmmOpDetailed tx, soleOp rest with
    | .none, found => found
    | .valid op, some none => some (some (op, tx))
    | _, _ => none

def maybeCreatePool (poolId : Bytes) (height : Nat) (gate : PegGate) (pools : Table Bytes AmmPool) :
    Table Bytes AmmPool :=
  if poolCreationAllowed P height gate then
    if ((pools.lookup poolId).any (·.exist)) = true then pools
    else pools.insert poolId (newPool poolId)
  else pools

/-- The live operation of a block; a failure rolls back. -/
def applyLive (poolId : Bytes) (op : AmmOp) (tx : Transaction) (height : Nat) (gate : PegGate) :
    AmmM Unit := do
  let before ← get
  let pools := maybeCreatePool P poolId height gate before.amm.pools
  match (pools.lookup poolId).filter (·.exist) with
  | none => set { before with amm := { before.amm with pools } }
  | some pool =>
    match applyAmmOp P C poolId op tx false height ⟨pool, before.amm.lp, before.tokens⟩ with
    | .ok _ s => set (⟨⟨pools.insert poolId s.pool, s.lp⟩, s.tokens⟩ : AmmState)
    | .error e _ => do
      set before
      throw e

def processBlock (poolId : Bytes) (block : Block) (gate : PegGate) : AmmM Unit := do
  let sole ← require (soleOp block.transactions) Stop.reject
  let s ← get
  let creationAllowed := poolCreationAllowed P block.height gate
  match sole with
  | none =>
    set { s with amm.pools := maybeCreatePool P poolId block.height gate s.amm.pools }
  | some (op, tx) => do
    check (gate.ammAllowed = true) Stop.reject
    if s.amm.pool poolId = none ∧ creationAllowed = false then pure ()
    else applyLive P C poolId op tx block.height gate

def poolInputPos (p : AmmPool) (tx : Transaction) : Option Nat :=
  tx.inputs.findIdx? fun i => i.prevTxHash == p.poolTxid && i.prevOutIndex.toNat == p.poolVout

def validateTransactions (poolId : Bytes) (p : AmmPool) (lp : Table Bytes Int) (tokens : Ledger)
    (height : Nat) : List Transaction → Nat → Bool
  | [], _ => true
  | tx :: rest, touches =>
    let pos := if p.utxoValid then poolInputPos p tx else none
    let spends := pos == some 0
    let creates := tx.outputs.head?.any fun o => o.scriptPubkey == p.veldScript
    if pos.any (0 < ·) then false
    else
      match parseAmmOpDetailed tx with
      | .valid op =>
        (spends || creates) && touches == 0 &&
          succeeds (applyAmmOp P C poolId op tx true height) ⟨p, lp, tokens⟩ &&
          validateTransactions poolId p lp tokens height rest (touches + 1)
      | _ =>
        !spends && !creates && validateTransactions poolId p lp tokens height rest touches

inductive TokenValidationFrame where
  | parentState
  | postBlockState
  deriving DecidableEq

def validationTokens (V : View) (block : Block) (gate : PegGate) (hasOp : Bool)
    (frame : TokenValidationFrame) (tokens : Ledger) : Option Ledger :=
  if hasOp ∧ frame = .parentState then
    match Veld.processBlock P C V gate block tokens with
    | .ok _ preview => some preview
    | .error _ _ => none
  else some tokens

def prospectivePool (a : AmmLedger) (poolId : Bytes) (height : Nat) (gate : PegGate) :
    Option AmmPool :=
  match a.pool poolId with
  | some p => some p
  | none => if poolCreationAllowed P height gate then some (newPool poolId) else none

def validateBlock (V : View) (a : AmmLedger) (poolId : Bytes) (block : Block) (tokens : Ledger)
    (gate : PegGate) (frame : TokenValidationFrame) : Bool :=
  match soleOp block.transactions with
  | none => false
  | some sole =>
    if sole.isSome ∧ gate.ammAllowed = false then false
    else
      match validationTokens P C V block gate sole.isSome frame tokens with
      | none => false
      | some tokens =>
        match prospectivePool P a poolId block.height gate with
        | none => true
        | some p => validateTransactions P C poolId p a.lp tokens block.height block.transactions 0

end

end Veld.Amm
