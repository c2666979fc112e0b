import Veld.Core.Settlement

/-!
# Rules for blocks

The money rules that a block of `core/blockchain.h` has to meet over the ledger below it: the structure and the
values of its transactions, the gates of the five mandatory settlements, and the coinbase.
-/

namespace Veld.Chain

open Wire

def maxStandardTransactionOutputs : Nat := 256
def maxSpendableScriptPubkeyBytes : Nat := 10000
def maxOpReturnScriptPubkeyBytes : Nat := 65535
def maxFinalityMarkerOutputs : Nat := 235
def vaultBlockInterval : Nat := 100
def stakingUnlockSupply : Nat := 10000 * 100000000

def outPointOf (i : TxInput) : OutPoint := (i.prevTxHash, i.prevOutIndex)

/-! ## Transactions -/

def legacyZeroCoinbaseShape (tx : Transaction) : Bool := tx.isCoinbase && tx.outputs = [⟨0, []⟩]

def outputValid (tx : Transaction) (out : TxOutput) : Bool :=
  (out.value ≠ 0 || isOpReturn out.scriptPubkey || legacyZeroCoinbaseShape tx) &&
    out.scriptPubkey.length ≤
      if isOpReturn out.scriptPubkey then maxOpReturnScriptPubkeyBytes else maxSpendableScriptPubkeyBytes

def isValid (tx : Transaction) : Bool :=
  tx.inputs ≠ [] && tx.outputs ≠ [] && totalOutput tx ≤ maxSupplyUnits &&
    tx.inputs.length ≤ maxTransactionInputs && tx.outputs.length ≤ maxTransactionOutputs &&
    tx.inputs.all (fun i => i.scriptSig.length ≤ maxTransactionScriptSigBytes) &&
    tx.outputs.all (outputValid tx) &&
    ((tx.inputs.filter fun i => !i.isCoinbase).map outPointOf).Nodup

def hasDustOutput (tx : Transaction) (threshold : Nat) : Bool :=
  threshold ≠ 0 && tx.outputs.any fun out =>
    !isOpReturn out.scriptPubkey && out.value ≠ 0 && out.value.toNat < threshold

/-- What the script engine, the marker rules and the upgrade schedule answer. -/
structure TxRules where
  markersAccepted : Transaction → Bool
  /-- The lock times, scripts and signatures of the inputs. -/
  inputsAuthorized : Coins → Transaction → Bool
  protocolUpgradeActive : Nat → Bool

section
variable (coins : Coins)

def coinValue (key : OutPoint) : Nat := ((coins.entries.lookup key).map fun u => u.value.toNat).getD 0

def inputTotal (tx : Transaction) : Nat := (tx.inputs.map fun i => coinValue coins (outPointOf i)).sum

def spendsFrom (script : Bytes) (i : TxInput) : Bool :=
  (coins.entries.lookup (outPointOf i)).any fun u => u.scriptPubkey = script

/-- The custody branches of `ValidateTransaction`: inputs of one custody script do not mix with others,
and a transaction that has only them is left to the gates. -/
def custodyVerdict (tx : Transaction) : List Bytes → Option Bool
  | [] => none
  | script :: rest =>
    if tx.inputs.any (spendsFrom coins script) then some (tx.inputs.all (spendsFrom coins script))
    else custodyVerdict tx rest

/-- The value rule: every input is there, and the outputs are covered. -/
def valuesCovered (tx : Transaction) : Bool :=
  tx.inputs.all (fun i => (coins.entries.lookup (outPointOf i)).any fun u => u.value.toNat ≤ maxSupplyUnits) &&
    inputTotal coins tx < 2 ^ 64 && totalOutput tx ≤ inputTotal coins tx

/-- `ValidateTransaction` for a transaction of a block that is no coinbase. -/
def validateTransaction (X : Custody) (R : TxRules) (tx : Transaction) : Bool :=
  isValid tx && !tx.isCoinbase && R.markersAccepted tx &&
    (custodyVerdict coins tx
      [X.poolScript, X.endorsementScript, X.vaultScript, X.stakeVaultScript, X.bondYieldScript]).getD
        (tx.outputs.length ≤ maxStandardTransactionOutputs && R.inputsAuthorized coins tx && valuesCovered coins tx)

/-! ## The gates of the settlements -/

/-- `GetUTXOsForScriptLocked_`, as a set of outpoints. -/
def custodyKeys (script : Bytes) : Finset OutPoint :=
  ((coins.index.lookup (toHex script)).getD ∅).filter fun key => (coins.entries.lookup key).isSome = true

def custodyBalance (script : Bytes) : Nat := ∑ key ∈ custodyKeys coins script, coinValue coins key

def outPointBefore (a b : OutPoint) : Bool :=
  if a.1 ≠ b.1 then a.1.bytes < b.1.bytes else a.2 < b.2

/-- `HasCanonicalProtocolInputs`. -/
def hasCanonicalProtocolInputs (tx : Transaction) (keys : Finset OutPoint) : Bool :=
  tx.version = 1 && tx.locktime = 0 && (tx.inputs.map outPointOf).toFinset = keys &&
    (tx.inputs.map outPointOf).Pairwise (fun a b => outPointBefore a b = true) &&
    tx.inputs.all fun i => i.scriptSig = [] && i.sequence = 0xFFFFFFFF

def payoutsOf (tx : Transaction) : List Payout := tx.outputs.map fun out => (out.scriptPubkey, out.value.toNat)

/-- Away from a boundary no transaction spends the custody script. -/
def custodyUntouched (script : Bytes) (b : Block) : Bool :=
  b.transactions.all fun tx => tx.isCoinbase || !tx.inputs.any (spendsFrom coins script)

/-- At a boundary there is exactly the settlement that was derived. -/
def settlementPresent (script : Bytes) (spends : Transaction → Bool) (expected : List Payout) (due : Bool)
    (b : Block) : Bool :=
  match (b.transactions.drop 1).filter spends with
  | [] => expected = [] && !due
  | [tx] => expected ≠ [] && payoutsOf tx = expected && hasCanonicalProtocolInputs tx (custodyKeys coins script)
  | _ => false

def spendsCustody (script : Bytes) (tx : Transaction) : Bool :=
  tx.inputs.any fun i => outPointOf i ∈ custodyKeys coins script

def spendsCustodyFirst (script : Bytes) (tx : Transaction) : Bool :=
  tx.inputs.head?.any fun i => outPointOf i ∈ custodyKeys coins script

end

section
variable (C : Crypto) (X : Custody) (E : Engines) (l : Ledger) (b : Block)

def settlementGate (script : Bytes) (interval : Nat) (spends : Transaction → Bool) (expected : List Payout)
    (due : Bool) : Bool :=
  b.height = 0 ||
    if b.height % interval ≠ 0 then custodyUntouched l.coins script b
    else settlementPresent l.coins script spends expected due b

def validateExpectedPoolPayout : Bool :=
  settlementGate l b X.poolScript comineWindowBlocks (spendsCustodyFirst l.coins X.poolScript)
    (computeExpectedPoolOutputs C X E l b.header.prevBlockHash (custodyBalance l.coins X.poolScript) b.height) false

def validateExpectedEndorsementFlush : Bool :=
  settlementGate l b X.endorsementScript vaultDistributionInterval (spendsCustody l.coins X.endorsementScript)
    (computeExpectedEndorsementFlushOutputs X E l (custodyBalance l.coins X.endorsementScript) b.height) false

def validateExpectedVaultDistribution : Bool :=
  settlementGate l b X.vaultScript vaultDistributionInterval (spendsCustody l.coins X.vaultScript)
    (computeExpectedVaultDistribution X E l (custodyBalance l.coins X.vaultScript) b.height) false

def validateExpectedBondMovements : Bool :=
  settlementGate l b X.stakeVaultScript bondSettlementInterval (spendsCustody l.coins X.stakeVaultScript)
    (computeExpectedBondMovements X E (custodyBalance l.coins X.stakeVaultScript) b.height)
    (E.bondSettlements.any fun row => 0 < row.units)

def validateExpectedBondYieldSettlement : Bool :=
  settlementGate l b X.bondYieldScript bondSettlementInterval (spendsCustody l.coins X.bondYieldScript)
    (computeExpectedBondYieldSettlement X E (custodyBalance l.coins X.bondYieldScript) b.height)
    (E.bondYieldSettlements.any fun row => 0 < row.units)

end

end Veld.Chain
