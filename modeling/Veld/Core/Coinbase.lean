import Veld.Core.BlockRules

/-!
# The coinbase and the acceptance of blocks

The coinbase allocation of `core/coinbase_allocation.h`, the coinbase checks of `core/blockchain.h`, and
what a block has to pass before it is committed.
-/

namespace Veld.Chain

open Wire

structure CoinbaseAllocation where
  subsidy : Nat
  miner : Nat
  pool : Nat
  vault : Nat
  endorsement : Nat
  deriving DecidableEq

def computeCoinbaseAllocation (height baseSubsidy parentSupply fees : Nat) : Option CoinbaseAllocation :=
  let subsidy := min baseSubsidy (maxSupplyUnits - parentSupply)
  if maxSupplyUnits < parentSupply ∨ maxSupplyUnits - subsidy < fees then none
  else if subsidy = 0 then
    some ⟨subsidy, fees - fees * 40 / 100 - fees * 10 / 100, 0, fees * 40 / 100, fees * 10 / 100⟩
  else if 0 < height ∧ height % vaultBlockInterval = 0 then some ⟨subsidy, 0, 0, subsidy + fees, 0⟩
  else if parentSupply < stakingUnlockSupply then
    some ⟨subsidy, subsidy * 50 / 100, 0, subsidy - subsidy * 50 / 100 + fees, 0⟩
  else
    some ⟨subsidy, subsidy - subsidy * 20 / 100 - subsidy * 20 / 100 - subsidy * 10 / 100, subsidy * 20 / 100,
      subsidy * 20 / 100 + fees, subsidy * 10 / 100⟩

def isFinalityCoinbaseMetadata (out : TxOutput) : Bool :=
  out.value = 0 && (ascii "VELD_FINALITY|").isPrefixOf (parseOpReturn out.scriptPubkey) &&
    out.scriptPubkey = buildOpReturnScript (parseOpReturn out.scriptPubkey)

def coinbaseLegs (coinbase : Transaction) : List TxOutput :=
  coinbase.outputs.filter fun out => !isFinalityCoinbaseMetadata out

def legSum (legs : List TxOutput) (p : Bytes → Bool) : Nat :=
  ((legs.filter fun out => p out.scriptPubkey).map fun out => out.value.toNat).sum

def legCount (legs : List TxOutput) (p : Bytes → Bool) : Nat :=
  (legs.filter fun out => p out.scriptPubkey).length

/-- The only shapes of a coinbase that pays nothing. -/
def zeroCoinbaseShape (coinbase : Transaction) : Bool :=
  (match coinbase.outputs with
    | [out] => out.scriptPubkey = [0x6A, 0x00]
    | _ => false) ||
    (coinbase.outputs ≠ [] && coinbase.outputs.all isFinalityCoinbaseMetadata)

section
variable (X : Custody) (R : TxRules)

def validateCoinbaseOutputs (l : Ledger) (b : Block) : Bool :=
  match b.transactions with
  | [] => false
  | coinbase :: _ =>
    let total := totalOutput coinbase
    let legs := coinbaseLegs coinbase
    let isVault := fun script : Bytes => decide (script = X.vaultScript)
    coinbase.isCoinbase && coinbase.outputs ≠ [] &&
      (coinbase.outputs.filter isFinalityCoinbaseMetadata).length ≤ maxFinalityMarkerOutputs &&
      if total = 0 then zeroCoinbaseShape coinbase
      else if !(R.protocolUpgradeActive b.height && l.supply = maxSupplyUnits) && 0 < b.height &&
          b.height % vaultBlockInterval = 0 then
        legs.all (fun out => out.scriptPubkey = X.vaultScript || out.scriptPubkey = X.endorsementScript) &&
          total * 80 / 100 ≤ legSum legs isVault
      else
        total * 10 / 100 ≤ legSum legs isVault &&
          legs.all fun out => isVault out.scriptPubkey || out.value.toNat ≤ total - total * 10 / 100 + 1

def resolvedInputs (coins : Coins) : List TxInput → Nat → Option Nat
  | [], total => some total
  | i :: rest, total =>
    if i.isCoinbase then resolvedInputs coins rest total
    else
      match coins.entries.lookup (outPointOf i) with
      | none => none
      | some u => if maxSupplyUnits < total + u.value.toNat then none
        else resolvedInputs coins rest (total + u.value.toNat)

def actualTxFees (coins : Coins) : List Transaction → Nat → Option Nat
  | [], fees => some fees
  | tx :: rest, fees =>
    if tx.isCoinbase then actualTxFees coins rest fees
    else
      match resolvedInputs coins tx.inputs 0 with
      | none => none
      | some total => if maxSupplyUnits < fees + (total - totalOutput tx) then none
        else actualTxFees coins rest (fees + (total - totalOutput tx))

def custodyDistinct : Bool :=
  X.scripts.all (· ≠ []) && X.vaultScript ≠ X.poolScript && X.vaultScript ≠ X.endorsementScript &&
    X.poolScript ≠ X.endorsementScript

/-- One leg for a positive share, none for an empty one. -/
def legMatches (legs : List TxOutput) (p : Bytes → Bool) (share : Nat) : Bool :=
  legSum legs p = share && legCount legs p = if 0 < share then 1 else 0

/-- The categories of the legs against the allocation. -/
def splitMatches (height : Nat) (coinbase : Transaction) (a : CoinbaseAllocation) : Bool :=
  let legs := coinbaseLegs coinbase
  let isOther := fun script : Bytes =>
    script ≠ X.vaultScript && script ≠ X.poolScript && script ≠ X.endorsementScript
  legs.all (fun out => out.scriptPubkey ≠ X.stakeVaultScript && out.scriptPubkey ≠ X.bondYieldScript) &&
    legMatches legs (· = X.poolScript) a.pool && legMatches legs (· = X.vaultScript) a.vault &&
    legMatches legs (· = X.endorsementScript) a.endorsement && legMatches legs isOther a.miner &&
    (a.miner = 0 || legs.all fun out => !isOther out.scriptPubkey || X.isCanonicalKeyScript out.scriptPubkey height)

def validateCanonicalCoinbaseSplit (l : Ledger) (b : Block) : Bool :=
  b.height = 0 ||
    match b.transactions with
    | [] => false
    | coinbase :: rest =>
      let effective := min (expectedBlockSubsidy b.height) (maxSupplyUnits - l.supply)
      match actualTxFees l.coins rest 0 with
      | none => false
      | some fees =>
        coinbase.isCoinbase && effective ≤ totalOutput coinbase && l.supply ≤ maxSupplyUnits &&
          fees ≤ maxSupplyUnits - effective && totalOutput coinbase = effective + fees && custodyDistinct X &&
          (coinbase.outputs.filter isFinalityCoinbaseMetadata).length ≤ maxFinalityMarkerOutputs &&
          if totalOutput coinbase = 0 then zeroCoinbaseShape coinbase
          else
            match computeCoinbaseAllocation b.height (expectedBlockSubsidy b.height) l.supply fees with
            | none => false
            | some a => splitMatches X b.height coinbase a

end

/-! ## Accepted blocks -/

/-- The block that `CreateGenesisBlock` makes: a coinbase with one empty output. -/
def isGenesisBlock (b : Block) : Bool :=
  b.height = 0 &&
    match b.transactions with
    | [coinbase] => coinbase.isCoinbase && coinbase.outputs = [⟨0, []⟩]
    | _ => false

section
variable (C : Crypto) (X : Custody) (R : TxRules) (engines : List Block → Engines)

def validateBlock (l : Ledger) (b : Block) : Bool :=
  let E := engines l.chain
  b.height = l.chain.length && 0 < b.height &&
    (l.chain.head?.any fun tip => b.header.prevBlockHash = tip.getHash C) &&
    b.transactions.all isValid &&
    validateCoinbaseOutputs X R l b && validateCanonicalCoinbaseSplit X l b &&
    validateExpectedPoolPayout C X E l b && validateExpectedEndorsementFlush X E l b &&
    validateExpectedVaultDistribution X E l b && validateExpectedBondMovements X E l b &&
    validateExpectedBondYieldSettlement X E l b &&
    (b.transactions.drop 1).all fun tx =>
      validateTransaction l.coins X R tx && !hasDustOutput tx dustThresholdUnits

def acceptBlock (l : Ledger) (b : Block) : Option Ledger := do
  guard (if l.chain = [] then isGenesisBlock b = true else validateBlock C X R engines l b = true)
  commitLedger C X l b

end

end Veld.Chain
