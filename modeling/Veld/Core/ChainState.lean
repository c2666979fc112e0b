import Veld.Lib.IndexedMap
import Veld.Core.Profile
import Veld.Core.Transaction

/-!
# The canonical chain state

The incremental state of `core/blockchain.h`: the unspent outputs with their script index, the spender index,
the supply, the collected fees and the heights at which each miner was paid.
-/

namespace Veld.Chain

open Wire

/-! ## Parameters -/

def blocksPerYear : Nat := blocksPerDay * 365
def annualEmissionUnits : Nat := 550000 * 100000000
def blockRewardUnits : Nat := annualEmissionUnits / blocksPerYear
def annualEmissionRemainder : Nat := annualEmissionUnits - blockRewardUnits * blocksPerYear
def maxMinerTierHistoryBlocks : Nat := 1095 * blocksPerDay

def expectedBlockSubsidy (height : Nat) : Nat :=
  if 0 < height ∧ height % blocksPerYear = 0 then blockRewardUnits + annualEmissionRemainder
  else blockRewardUnits

/-- The scripts of the protocol's custody addresses, which are no mining identities, and the test for
a payout to a key. -/
structure Custody where
  vaultScript : Bytes
  poolScript : Bytes
  endorsementScript : Bytes
  stakeVaultScript : Bytes
  bondYieldScript : Bytes
  isCanonicalKeyScript : Bytes → Nat → Bool

def Custody.scripts (X : Custody) : List Bytes :=
  [X.vaultScript, X.poolScript, X.endorsementScript, X.stakeVaultScript, X.bondYieldScript]

/-! ## Outputs -/

/-- What `UTXOKey` spells out. -/
abbrev OutPoint := Hash256 × UInt32

instance : LawfulBEq OutPoint := inferInstance

structure Utxo where
  txHash : Hash256
  outputIndex : UInt32
  value : UInt64
  scriptPubkey : Bytes
  blockHeight : Nat
  isCoinbase : Bool
  deriving DecidableEq

def Utxo.key (u : Utxo) : OutPoint := (u.txHash, u.outputIndex)

structure SpenderLocator where
  blockHeight : Nat
  txIndex : UInt32
  txid : Hash256
  deriving DecidableEq

def isOpReturn (script : Bytes) : Bool := script.head? = some 0x6A

def isProvablyUnspendableOutput (out : TxOutput) : Bool := isOpReturn out.scriptPubkey

/-- `TotalOutput`: one more than the maximum supply when the sum is above it. -/
def totalOutput (tx : Transaction) : Nat :=
  let total := (tx.outputs.map fun out => out.value.toNat).sum
  if maxSupplyUnits < total then maxSupplyUnits + 1 else total

abbrev Coins := IndexedMap OutPoint Utxo Bytes
abbrev Spenders := Finmap fun _ : OutPoint => SpenderLocator
abbrev MinerHeights := Finmap fun _ : Bytes => List Nat

def Utxo.scriptHex (u : Utxo) : Bytes := toHex u.scriptPubkey

def insertUTXO (u : Utxo) (coins : Coins) : Coins :=
  if isOpReturn u.scriptPubkey then coins else coins.add Utxo.scriptHex u.key u

def eraseUTXO (key : OutPoint) (coins : Coins) : Option Coins := coins.remove Utxo.scriptHex key

/-! ## What a block does to the outputs -/

inductive CoinStep where
  | create (u : Utxo)
  | spend (key : OutPoint) (spender : SpenderLocator)

def coinSteps (C : Crypto) (height txIndex : Nat) (tx : Transaction) : List CoinStep :=
  let txid := tx.getTxID C
  (tx.outputs.zipIdx.filterMap fun (out, i) =>
      if isProvablyUnspendableOutput out then none
      else some (.create ⟨txid, UInt32.ofNat i, out.value, out.scriptPubkey, height, tx.isCoinbase⟩)) ++
    if tx.isCoinbase then []
    else tx.inputs.map fun i =>
      .spend (i.prevTxHash, i.prevOutIndex) ⟨height, UInt32.ofNat txIndex, txid⟩

def blockSteps (C : Crypto) (b : Block) : List CoinStep :=
  b.transactions.zipIdx.flatMap fun (tx, i) => coinSteps C b.height i tx

/-- The preflight of `CommitBlock`: no outpoint is spent twice in the block, and each one that is spent
was created earlier in the block or is unspent. -/
def spendsAvailable (coins : Coins) : List CoinStep → List OutPoint → List OutPoint → Bool
  | [], _, _ => true
  | .create u :: rest, avail, spent => spendsAvailable coins rest (u.key :: avail) spent
  | .spend key _ :: rest, avail, spent =>
    key ∉ spent && (key ∈ avail || (coins.entries.lookup key).isSome) &&
      spendsAvailable coins rest avail (key :: spent)

/-- No outpoint is created twice, or over an unspent one. -/
def createsFresh (coins : Coins) : List CoinStep → List OutPoint → Bool
  | [], _ => true
  | .create u :: rest, created =>
    u.key ∉ created && (coins.entries.lookup u.key).isNone && createsFresh coins rest (u.key :: created)
  | .spend _ _ :: rest, created => createsFresh coins rest created

/-- `PrepareCanonicalSpendersForBlockNoLock`, for the spends of the block. -/
def prepareSpenders (spenders : Spenders) :
    List CoinStep → List OutPoint → Option (List (OutPoint × SpenderLocator))
  | [], _ => some []
  | .create _ :: rest, seen => prepareSpenders spenders rest seen
  | .spend key spender :: rest, seen =>
    if key ∈ seen ∨ (spenders.lookup key).isSome = true then none
    else (prepareSpenders spenders rest (key :: seen)).map fun additions => (key, spender) :: additions

/-- `ApplyCanonicalSpendersForBlockNoLock`; an entry that exists is not replaced. -/
def applySpenders (spenders : Spenders) (additions : List (OutPoint × SpenderLocator)) : Spenders :=
  additions.foldl
    (fun spenders (key, spender) =>
      if (spenders.lookup key).isSome then spenders else spenders.insert key spender) spenders

/-- `UnindexCanonicalSpendersForBlockNoLock`. -/
def unindexSpenders (steps : List CoinStep) (spenders : Spenders) : Spenders :=
  steps.foldl
    (fun spenders step =>
      match step with
      | .create _ => spenders
      | .spend key spender =>
        match spenders.lookup key with
        | some found =>
          if found.blockHeight = spender.blockHeight ∧ found.txid = spender.txid then spenders.erase key
          else spenders
        | none => spenders) spenders

def applyStep (coins : Coins) : CoinStep → Option Coins
  | .create u => some (insertUTXO u coins)
  | .spend key _ => eraseUTXO key coins

/-! ## Supply and fees -/

def advanceCanonicalSupply (b : Block) (supply : Nat) : Option Nat :=
  if maxSupplyUnits < supply then none
  else
    match b.transactions with
    | [] => some supply
    | coinbase :: _ =>
      let total := (coinbase.outputs.map fun out => out.value.toNat).sum
      if 2 ^ 64 ≤ total then none
      else some (supply + min (min total (expectedBlockSubsidy b.height)) (maxSupplyUnits - supply))

/-- What the coinbase pays above the subsidy is counted as fees. -/
def collectFees (b : Block) (fees : Nat) : Nat :=
  match b.transactions with
  | [] => fees
  | coinbase :: _ =>
    if expectedBlockSubsidy b.height < totalOutput coinbase then
      (fees + (totalOutput coinbase - expectedBlockSubsidy b.height)) % 2 ^ 64
    else fees

/-! ## Miners -/

def firstOccurrences (seen : List Bytes) : List Bytes → List Bytes
  | [] => []
  | x :: rest => if x ∈ seen then firstOccurrences seen rest else x :: firstOccurrences (x :: seen) rest

/-- `MinerScriptsForBlock_`. -/
def minerScripts (X : Custody) (b : Block) : List Bytes :=
  match b.transactions with
  | [] => []
  | coinbase :: _ =>
    firstOccurrences [] ((coinbase.outputs.filter fun out =>
      out.scriptPubkey ∉ X.scripts && X.isCanonicalKeyScript out.scriptPubkey b.height).map
        fun out => toHex out.scriptPubkey)

structure MinerBlockUndo where
  height : Nat
  hash : Hash256
  incremented : List Bytes
  pruned : List (Bytes × List Nat)
  deriving DecidableEq

def pushHeight (height : Nat) (miners : MinerHeights) (script : Bytes) : MinerHeights :=
  miners.insert script ((miners.lookup script).getD [] ++ [height])

/-- `PruneMinerHistoryKeyNoLock_`. -/
def pruneKey (cutoff : Nat) (acc : MinerHeights × List (Bytes × List Nat)) (script : Bytes) :
    MinerHeights × List (Bytes × List Nat) :=
  match acc.1.lookup script with
  | none => acc
  | some heights =>
    let removed := heights.takeWhile (· ≤ cutoff)
    let kept := heights.dropWhile (· ≤ cutoff)
    (if kept = [] then acc.1.erase script else acc.1.insert script kept,
      if removed = [] then acc.2 else (script, removed) :: acc.2)

def retiringScripts (X : Custody) (chain : List Block) (height : Nat) : List Bytes :=
  if maxMinerTierHistoryBlocks ≤ height then
    match chain.reverse[height - maxMinerTierHistoryBlocks]? with
    | some block => minerScripts X block
    | none => []
  else []

/-- `IndexMinerCoinbaseNoLock`, on the chain below the block. -/
def indexMinerCoinbase (C : Crypto) (X : Custody) (chain : List Block) (b : Block)
    (miners : MinerHeights) : MinerHeights × MinerBlockUndo :=
  let scripts := minerScripts X b
  let pruned := (retiringScripts X chain b.height).foldl
    (pruneKey (b.height - maxMinerTierHistoryBlocks)) (scripts.foldl (pushHeight b.height) miners, [])
  (pruned.1, ⟨b.height, b.getHash C, scripts, pruned.2⟩)

def popHeight (miners : MinerHeights) (script : Bytes) : MinerHeights :=
  let heights := ((miners.lookup script).getD []).dropLast
  if heights = [] then miners.erase script else miners.insert script heights

/-- `UndoMinerCoinbaseNoLock_`. -/
def undoMinerCoinbase (C : Crypto) (b : Block) (undo : MinerBlockUndo) (miners : MinerHeights) :
    Option MinerHeights :=
  if undo.height = b.height ∧ undo.hash = b.getHash C ∧
      ∀ script ∈ undo.incremented, ((miners.lookup script).getD []).getLast? = some b.height then
    some (undo.pruned.foldl
      (fun miners (script, removed) => miners.insert script (removed ++ (miners.lookup script).getD []))
      (undo.incremented.reverse.foldl popHeight miners))
  else none

/-! ## Commit and disconnect -/

/-- The chain, the last block first, and what is kept of it. -/
structure Ledger where
  chain : List Block
  coins : Coins
  spenders : Spenders
  supply : Nat
  fees : Nat
  miners : MinerHeights

def Ledger.empty : Ledger := ⟨[], IndexedMap.empty, ∅, 0, 0, ∅⟩

structure CanonicalBlockUndo where
  height : Nat
  hash : Hash256
  supplyBefore : Nat
  feesBefore : Nat
  parentSpent : List Utxo
  createdOutpoints : List OutPoint
  createdUnspentOutpoints : List OutPoint

structure State where
  ledger : Ledger
  canonicalUndo : List CanonicalBlockUndo
  minerUndo : List MinerBlockUndo

def State.empty : State := ⟨Ledger.empty, [], []⟩

def createdKeys (steps : List CoinStep) : List OutPoint :=
  steps.filterMap fun step => match step with
    | .create u => some u.key
    | .spend _ _ => none

def spentKeys (steps : List CoinStep) : List OutPoint :=
  steps.filterMap fun step => match step with
    | .create _ => none
    | .spend key _ => some key

section
variable (C : Crypto) (X : Custody)

def undoRecord (l : Ledger) (b : Block) : CanonicalBlockUndo :=
  let steps := blockSteps C b
  ⟨b.height, b.getHash C, l.supply, l.fees, (spentKeys steps).filterMap l.coins.entries.lookup,
    createdKeys steps, (createdKeys steps).filter (· ∉ spentKeys steps)⟩

/-- The checks and the writes of `CommitBlock`. -/
def commitLedger (l : Ledger) (b : Block) : Option Ledger := do
  let supply ← advanceCanonicalSupply b l.supply
  let steps := blockSteps C b
  guard (spendsAvailable l.coins steps [] [] = true)
  guard (createsFresh l.coins steps [] = true)
  guard (b.transactions.length ≤ 2 ^ 32)
  let additions ← prepareSpenders l.spenders steps []
  let coins ← steps.foldlM applyStep l.coins
  return ⟨b :: l.chain, coins, applySpenders l.spenders additions, supply, collectFees b l.fees,
    (indexMinerCoinbase C X l.chain b l.miners).1⟩

/-- `CommitBlock`. Both queues keep the last `MAX_REORG_DEPTH + 1` records. -/
def commitBlock (st : State) (b : Block) : Option State := do
  let ledger ← commitLedger C X st.ledger b
  return ⟨ledger, (undoRecord C st.ledger b :: st.canonicalUndo).take (maxReorgDepth + 1),
    ((indexMinerCoinbase C X st.ledger.chain b st.ledger.miners).2 :: st.minerUndo).take (maxReorgDepth + 1)⟩

def disconnectLedger (b : Block) (rest : List Block) (undo : CanonicalBlockUndo) (minerUndo : MinerBlockUndo)
    (l : Ledger) : Option Ledger := do
  guard (undo.height = b.height ∧ undo.hash = b.getHash C)
  guard (∀ u ∈ undo.parentSpent, l.coins.entries.lookup u.key = none)
  guard (∀ key ∈ undo.createdUnspentOutpoints, (l.coins.entries.lookup key).isSome)
  let miners ← undoMinerCoinbase C b minerUndo l.miners
  let cleared := undo.createdOutpoints.foldl (fun coins key => (eraseUTXO key coins).getD coins) l.coins
  return ⟨rest, undo.parentSpent.foldl (fun coins u => insertUTXO u coins) cleared,
    unindexSpenders (blockSteps C b) l.spenders, undo.supplyBefore, undo.feesBefore, miners⟩

/-- `DisconnectCanonicalTipNoLock_`. -/
def disconnectTip (st : State) : Option State :=
  match st.ledger.chain, st.canonicalUndo, st.minerUndo with
  | b :: rest, undo :: undos, minerUndo :: minerUndos =>
    (disconnectLedger C b rest undo minerUndo st.ledger).map fun ledger => ⟨ledger, undos, minerUndos⟩
  | _, _, _ => none

end

/-! ## Rebuilding -/

structure UTXOMapBundle where
  coins : Coins
  spenders : Spenders
  supplyUnits : Nat
  feesCollectedUnits : Nat

def UTXOMapBundle.empty : UTXOMapBundle := ⟨IndexedMap.empty, ∅, 0, 0⟩

/-- One output or input of `apply_block`. -/
def rebuildStep (maps : Coins × Spenders) : CoinStep → Option (Coins × Spenders)
  | .create u => some (insertUTXO u maps.1, maps.2)
  | .spend key spender =>
    if (maps.2.lookup key).isSome then none
    else (eraseUTXO key maps.1).map fun coins => (coins, maps.2.insert key spender)

/-- `apply_block` of `BuildUTXOSetInto`. -/
def rebuildBlock (C : Crypto) (out : UTXOMapBundle) (b : Block) : Option UTXOMapBundle := do
  guard (b.transactions.length ≤ 2 ^ 32)
  let (coins, spenders) ← (blockSteps C b).foldlM rebuildStep (out.coins, out.spenders)
  if b.transactions = [] then return ⟨coins, spenders, out.supplyUnits, out.feesCollectedUnits⟩
  else do
    let supply ← advanceCanonicalSupply b out.supplyUnits
    return ⟨coins, spenders, supply, collectFees b out.feesCollectedUnits⟩

/-- `BuildUTXOSetInto`, for the path of blocks from the genesis to the tip. -/
def buildUTXOSetInto (C : Crypto) (path : List Block) : Option UTXOMapBundle :=
  path.foldlM (rebuildBlock C) UTXOMapBundle.empty

/-- The miner history of a chain that is indexed forward, the last block first. -/
def indexForward (C : Crypto) (X : Custody) : List Block → MinerHeights
  | [] => ∅
  | b :: rest => (indexMinerCoinbase C X rest b (indexForward C X rest)).1

end Veld.Chain
