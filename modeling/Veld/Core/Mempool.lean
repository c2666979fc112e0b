import Veld.Lib.Sweep
import Veld.Core.BlockRules

/-!
# The pool of unconfirmed transactions

`core/mempool.h`: admission (`Add`), eviction and the four sweeps.
-/

namespace Veld.Chain

open Wire

def maxMempoolBytes : Nat := 500 * 1024 * 1024
def maxTxCount : Nat := 50000
def maxRelayTxBytes : Nat := 1024 * 1024
def txExpirySeconds : Nat := 72 * 3600
def minFeeRate : Nat := 1
def coinbaseMaturity : Nat := 100

inductive AddResult
  | accepted
  | duplicate
  | feeTooLow
  | invalid
  | deferredLocalWork
  | expiredNms
  | missingInput
  | full
  | doubleSpend
  | stakeAlreadyPending
  | stakeExceedsBalance
  | coinbaseImmature
  | validatorStateCooldown
  | malformedValidatorOp
  | publicTestnetExternalValueDisabled
  | runtimeAdmissionClosed
  deriving DecidableEq

structure MempoolEntry where
  /-- The transaction id, the key of `entries_`. -/
  key : Hash256
  tx : Transaction
  feeRate : Nat
  addedTime : Nat
  hadUnconfirmedParent : Bool
  baseLockingValidated : Bool
  deriving DecidableEq

def MempoolEntry.txSizeBytes (e : MempoolEntry) : Nat := e.tx.serialize.length

/-- The outputs a transaction spends; null inputs are passed over. -/
def spends (tx : Transaction) : List OutPoint := (tx.inputs.filter fun i => !i.isCoinbase).map outPointOf

def spentOutputs (pool : List MempoolEntry) : List OutPoint := pool.flatMap fun e => spends e.tx

def totalBytes (pool : List MempoolEntry) : Nat := (pool.map MempoolEntry.txSizeBytes).sum

/-- What the pool asks the chain. -/
structure ChainView where
  height : Nat
  getUTXO : OutPoint → Option Utxo
  validateTransactionLocking : Transaction → Bool
  validateCachedMempoolLockingContext : Transaction → Bool
  validateMempoolCanonicalInput : Transaction → Nat → Utxo → Except AddResult Unit
  verifyInputAgainstScript : Transaction → Nat → Bytes → Bool

/-- What the marker rules answer. -/
structure PoolRules where
  /-- The checks before the lock is taken, apart from those of `admissionChecks`. -/
  screen : List MempoolEntry → Transaction → Option AddResult
  isAmmPoolScript : Bytes → Bool
  /-- An operation of the liquidity pool or of a token: it may have no unconfirmed parent. -/
  needsCanonicalInputs : Transaction → Bool
  /-- The stake, validator and token checks after the inputs are resolved. -/
  markers : List MempoolEntry → Transaction → Option AddResult
  /-- The verdict of `PurgeInvalidAmmEntriesLocked` on an entry. -/
  ammInvalid : List MempoolEntry → MempoolEntry → Bool
  /-- The entry carries a mining share for another block than the next. -/
  nmsStale : Transaction → Bool

/-! ## Removal -/

/-- The entry has an input that names `parent`. -/
def isChild (parent child : MempoolEntry) : Bool :=
  child.tx.inputs.any fun i => !i.isCoinbase && i.prevTxHash == parent.key

/-- `RemoveWithDescendantsInternal`. -/
def removeWithDescendants (roots : List Hash256) (pool : List MempoolEntry) : List MempoolEntry :=
  Sweep.sweep isChild (fun e => decide (e.key ∈ roots)) pool

def expireOld (now : Nat) (pool : List MempoolEntry) : List MempoolEntry :=
  removeWithDescendants
    ((pool.filter fun e => e.addedTime ≤ now && txExpirySeconds < now - e.addedTime).map (·.key)) pool

/-- `Evict`: whether it took out the cheapest entry. -/
def evict (incomingFeeRate : Nat) : List MempoolEntry → Bool × List MempoolEntry
  | [] => (false, [])
  | lowest :: rest =>
    if incomingFeeRate ≤ lowest.feeRate then (false, lowest :: rest)
    else
      (totalBytes (removeWithDescendants [lowest.key] (lowest :: rest)) < totalBytes (lowest :: rest),
        removeWithDescendants [lowest.key] (lowest :: rest))

/-- There is room for a transaction of `size` bytes. -/
def hasRoom (size : Nat) (pool : List MempoolEntry) : Bool :=
  pool.length < maxTxCount && totalBytes pool + size ≤ maxMempoolBytes

/-- The eviction loop of `Add`. -/
def evictLoop (size feeRate : Nat) : Nat → List MempoolEntry → Bool × List MempoolEntry
  | 0, pool => (hasRoom size pool, pool)
  | n + 1, pool =>
    if hasRoom size pool then (true, pool)
    else match evict feeRate pool with
      | (true, pool') => evictLoop size feeRate n pool'
      | (false, pool') => (false, pool')

def findEntry (pool : List MempoolEntry) (key : Hash256) : Option MempoolEntry :=
  pool.find? fun e => e.key == key

section
variable (chain : ChainView) (rules : PoolRules)

/-- `PurgeInvalidAgainst`: an input has to name an output of its pooled parent or, without one, an output
the caller knows. -/
def purgeInvalidAgainst (utxoExists : OutPoint → Bool) (pool : List MempoolEntry) : List MempoolEntry :=
  Sweep.sweep (fun parent child => child.tx.inputs.any fun i => i.prevTxHash == parent.key)
    (fun e => !isValid e.tx || e.tx.isCoinbase || e.tx.inputs.any fun i =>
      match findEntry pool i.prevTxHash with
      | some parent => decide (parent.tx.outputs.length ≤ i.prevOutIndex.toNat)
      | none => !utxoExists (outPointOf i))
    pool

def sweepOrphans (pool : List MempoolEntry) : List MempoolEntry :=
  Sweep.sweep isChild
    (fun e => e.tx.inputs.any fun i => !i.isCoinbase && (findEntry pool i.prevTxHash).isNone &&
      (chain.getUTXO (outPointOf i)).isNone)
    pool

def immature (tip : Nat) (u : Utxo) : Bool :=
  u.isCoinbase && (tip < u.blockHeight || tip - u.blockHeight < coinbaseMaturity)

def staleInput (pool : List MempoolEntry) (total : Nat) (i : TxInput) : Option Nat :=
  if i.isCoinbase then some total
  else match chain.getUTXO (outPointOf i) with
    | some u =>
      if immature chain.height u || 2 ^ 64 ≤ total + u.value.toNat then none
      else some (total + u.value.toNat)
    | none => do
      let parent ← findEntry pool i.prevTxHash
      let out ← parent.tx.outputs[i.prevOutIndex.toNat]?
      if 2 ^ 64 ≤ total + out.value.toNat then none else some (total + out.value.toNat)

def allInputsCanonical (tx : Transaction) : Bool :=
  tx.inputs.all fun i => i.isCoinbase || (chain.getUTXO (outPointOf i)).isSome

/-- The check of an entry whose inputs are all on the chain now. -/
def relockFails (e : MempoolEntry) : Bool :=
  allInputsCanonical chain e.tx &&
    if e.baseLockingValidated then !chain.validateCachedMempoolLockingContext e.tx
    else e.hadUnconfirmedParent && !chain.validateTransactionLocking e.tx

def isStale (pool : List MempoolEntry) (e : MempoolEntry) : Bool :=
  !isValid e.tx || e.tx.isCoinbase || rules.nmsStale e.tx ||
    (match e.tx.inputs.foldlM (staleInput chain pool) 0 with
      | none => true
      | some total => decide (total < totalOutput e.tx)) ||
    relockFails chain e

/-- An entry that passed the check of `relockFails` need not be verified again. -/
def markRelocked (e : MempoolEntry) : MempoolEntry :=
  { e with
    baseLockingValidated :=
      e.baseLockingValidated || (allInputsCanonical chain e.tx && e.hadUnconfirmedParent) }

def isUnconfirmedChild (parent child : MempoolEntry) : Bool :=
  child.tx.inputs.any fun i =>
    !i.isCoinbase && (chain.getUTXO (outPointOf i)).isNone && i.prevTxHash == parent.key

/-- `PurgeInvalidAmmEntriesLocked`. -/
def purgeInvalidAmmEntries (pool : List MempoolEntry) : List MempoolEntry :=
  Sweep.sweep isChild (rules.ammInvalid pool) pool

def removeStale (pool : List MempoolEntry) : List MempoolEntry :=
  let afterAmm := purgeInvalidAmmEntries rules pool
  (Sweep.sweep (isUnconfirmedChild chain) (isStale chain rules afterAmm) afterAmm).map (markRelocked chain)

/-! ## Admission -/

structure AddRequest where
  tx : Transaction
  feeUnits : Nat
  currentHeight : Nat
  now : Nat

def feeRateOf (tx : Transaction) (feeUnits : Nat) : Nat :=
  if 0 < tx.serialize.length then feeUnits * 1000 % 2 ^ 64 / tx.serialize.length else 0

/-- The accumulators of the input loop. -/
structure Resolving where
  candidateSpends : List OutPoint
  resolvedInputTotal : Nat
  allInputsOnChain : Bool

def Resolving.add (st : Resolving) (key : OutPoint) (value : UInt64) (onChain : Bool) :
    Except AddResult Resolving :=
  if 2 ^ 64 ≤ st.resolvedInputTotal + value.toNat then .error .invalid
  else .ok ⟨key :: st.candidateSpends, st.resolvedInputTotal + value.toNat, st.allInputsOnChain && onChain⟩

/-- One round of the input loop of `Add`. -/
def resolveInput (pool : List MempoolEntry) (req : AddRequest) (st : Resolving) (row : TxInput × Nat) :
    Except AddResult Resolving :=
  if row.1.isCoinbase then .ok st
  else if outPointOf row.1 ∈ st.candidateSpends ∨ outPointOf row.1 ∈ spentOutputs pool then
    .error .doubleSpend
  else match chain.getUTXO (outPointOf row.1) with
    | some u =>
      if immature req.currentHeight u then .error .coinbaseImmature
      else if allInputsCanonical chain req.tx then st.add (outPointOf row.1) u.value true
      else match chain.validateMempoolCanonicalInput req.tx row.2 u with
        | .error r => .error r
        | .ok () => st.add (outPointOf row.1) u.value true
    | none => match findEntry pool row.1.prevTxHash with
      | none => .error .missingInput
      | some parent => match parent.tx.outputs[row.1.prevOutIndex.toNat]? with
        | none => .error .invalid
        | some out =>
          if rules.isAmmPoolScript out.scriptPubkey ||
            !chain.verifyInputAgainstScript req.tx row.2 out.scriptPubkey then .error .invalid
          else st.add (outPointOf row.1) out.value false

def refuse (answer : Option AddResult) : Except AddResult Unit :=
  match answer with
  | some r => .error r
  | none => .ok ()

def refuseIf (b : Bool) (r : AddResult) : Except AddResult Unit := if b then .error r else .ok ()

/-- All of `Add` before the eviction loop. -/
def admissionChecks (C : Crypto) (pool : List MempoolEntry) (req : AddRequest) :
    Except AddResult Resolving := do
  refuseIf (findEntry pool (req.tx.getTxID C)).isSome .duplicate
  refuseIf (!isValid req.tx) .invalid
  refuseIf (maxStandardTransactionOutputs < req.tx.outputs.length) .invalid
  refuseIf (maxRelayTxBytes < req.tx.serialize.length) .invalid
  refuseIf (feeRateOf req.tx req.feeUnits < minFeeRate) .feeTooLow
  refuseIf (hasDustOutput req.tx dustThresholdUnits) .invalid
  refuse (rules.screen pool req.tx)
  refuseIf (allInputsCanonical chain req.tx && !chain.validateTransactionLocking req.tx) .invalid
  let st ← req.tx.inputs.zipIdx.foldlM (resolveInput chain rules pool req) ⟨[], 0, true⟩
  refuseIf (rules.needsCanonicalInputs req.tx && !st.allInputsOnChain) .missingInput
  refuseIf (st.resolvedInputTotal < totalOutput req.tx) .invalid
  refuse (rules.markers pool req.tx)
  return st

def newEntry (C : Crypto) (req : AddRequest) (st : Resolving) : MempoolEntry where
  key := req.tx.getTxID C
  tx := req.tx
  feeRate := feeRateOf req.tx req.feeUnits
  addedTime := req.now
  hadUnconfirmedParent := !st.allInputsOnChain
  baseLockingValidated := st.allInputsOnChain

/-- Insertion into `fee_index_`: behind the entries of the same rate. -/
def insertEntry (e : MempoolEntry) : List MempoolEntry → List MempoolEntry
  | [] => [e]
  | x :: rest => if x.feeRate ≤ e.feeRate then x :: insertEntry e rest else e :: x :: rest

/-- `Add`. Entries evicted for a transaction that is then refused stay evicted. -/
def add (C : Crypto) (pool : List MempoolEntry) (req : AddRequest) : AddResult × List MempoolEntry :=
  match admissionChecks chain rules C pool req with
  | .error r => (r, pool)
  | .ok st =>
    match evictLoop req.tx.serialize.length (feeRateOf req.tx req.feeUnits) pool.length pool with
    | (true, pool') => (.accepted, insertEntry (newEntry C req st) pool')
    | (false, pool') => (.full, pool')

end

end Veld.Chain
