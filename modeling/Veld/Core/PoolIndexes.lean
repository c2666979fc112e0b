import Veld.Lib.Table
import Veld.Core.Mempool

/-!
# The indexes of the pool

The maps of `core/mempool.h` beside `entries_`: the byte total, the fee index, the spent outputs with their
spenders, the counts of token markers and reserved deposits, the pending stakers and the slot of the AMM.
-/

namespace Veld.Chain

open Wire

def maxTokenMempoolEntries : Nat := 999

/-- What the parsers of markers find in a transaction. -/
structure Markers where
  /-- `ExtractCanonicalTokenMarker` finds a token or deposit marker. -/
  tokenFamily : Transaction → Bool
  /-- `TokenReplayReservationKey`: the deposit that the transaction reserves. -/
  replayKey : Transaction → Option Bytes
  /-- The addresses of the canonical stake operations. -/
  stakeOps : Transaction → List Bytes
  /-- `ExtractStakeAddress`, over the outputs. -/
  stakeAddresses : Transaction → List Bytes
  /-- `ParseAmmOpDetailed` finds a valid operation. -/
  carriesAmm : Transaction → Bool

structure IndexedPool where
  entries : Table Hash256 MempoolEntry
  totalBytes : Nat
  feeIndex : List (Nat × Hash256)
  spentOutputs : Finset OutPoint
  spentByTx : Table OutPoint Hash256
  tokenMarkerCount : Nat
  pendingTokenReplayCounts : Table Bytes Nat
  pendingStakers : Table Bytes Hash256
  pendingAmmTx : Option Hash256

namespace IndexedPool

def empty : IndexedPool := ⟨∅, 0, [], ∅, ∅, 0, ∅, ∅, none⟩

/-- The entries in the order of the fee index. -/
def listed (p : IndexedPool) : List MempoolEntry := p.feeIndex.filterMap fun row => p.entries.lookup row.2

/-! ## Removal -/

/-- One input in `RemoveInternal`. -/
def release (key : Hash256) (spent : Finset OutPoint × Table OutPoint Hash256) (o : OutPoint) :
    Finset OutPoint × Table OutPoint Hash256 :=
  if spent.2.lookup o = some key then (spent.1.erase o, spent.2.erase o) else spent

/-- A reserved deposit given up. -/
def unreserve (counts : Table Bytes Nat) (deposit : Bytes) : Table Bytes Nat :=
  match counts.lookup deposit with
  | none => counts
  | some n => if n ≤ 1 then counts.erase deposit else counts.insert deposit (n - 1)

def unstake (key : Hash256) (stakers : Table Bytes Hash256) (staker : Bytes) : Table Bytes Hash256 :=
  if stakers.lookup staker = some key then stakers.erase staker else stakers

section
variable (M : Markers)

def removeInternal (p : IndexedPool) (key : Hash256) : IndexedPool :=
  match p.entries.lookup key with
  | none => p
  | some e =>
    let spent := (spends e.tx).foldl (release key) (p.spentOutputs, p.spentByTx)
    { entries := p.entries.erase key
      totalBytes := p.totalBytes - e.txSizeBytes
      feeIndex := p.feeIndex.erase (e.feeRate, key)
      spentOutputs := spent.1
      spentByTx := spent.2
      tokenMarkerCount :=
        if M.tokenFamily e.tx && 0 < p.tokenMarkerCount then p.tokenMarkerCount - 1 else p.tokenMarkerCount
      pendingTokenReplayCounts :=
        match M.replayKey e.tx with
        | none => p.pendingTokenReplayCounts
        | some deposit => unreserve p.pendingTokenReplayCounts deposit
      pendingStakers := (M.stakeAddresses e.tx).foldl (unstake key) p.pendingStakers
      pendingAmmTx := if p.pendingAmmTx = some key then none else p.pendingAmmTx }

def removeKeys (p : IndexedPool) (keys : List Hash256) : IndexedPool := keys.foldl (removeInternal M) p

/-- A sweep: what it does not keep goes. -/
def sweepTo (p : IndexedPool) (kept : List MempoolEntry) : IndexedPool :=
  p.removeKeys M ((p.listed.map MempoolEntry.key).filter fun key => key ∉ kept.map MempoolEntry.key)

def expireOld (p : IndexedPool) (now : Nat) : IndexedPool := p.sweepTo M (Chain.expireOld now p.listed)

def evict (p : IndexedPool) (incomingFeeRate : Nat) : Bool × IndexedPool :=
  match p.feeIndex with
  | [] => (false, p)
  | (lowest, key) :: _ =>
    if incomingFeeRate ≤ lowest then (false, p)
    else
      let p' := p.sweepTo M (removeWithDescendants [key] p.listed)
      (p'.totalBytes < p.totalBytes, p')

def hasRoom (p : IndexedPool) (size : Nat) : Bool :=
  p.entries.entries.length < maxTxCount && p.totalBytes + size ≤ maxMempoolBytes

/-- The eviction loop of `Add`. -/
def evictLoop (size feeRate : Nat) : Nat → IndexedPool → Bool × IndexedPool
  | 0, p => (p.hasRoom size, p)
  | n + 1, p =>
    if p.hasRoom size then (true, p)
    else match p.evict M feeRate with
      | (true, p') => evictLoop size feeRate n p'
      | (false, p') => (false, p')

/-! ## Sweeps -/

variable (chain : ChainView) (rules : PoolRules)

/-- `PurgeInvalidAmmEntriesLocked`: the slot of the AMM is set anew. -/
def purgeInvalidAmmEntries (p : IndexedPool) : IndexedPool :=
  let retained := p.listed.reverse.find? fun e => M.carriesAmm e.tx && !rules.ammInvalid p.listed e
  let p' := p.sweepTo M (Chain.purgeInvalidAmmEntries rules p.listed)
  { p' with
    pendingAmmTx :=
      match retained.filter fun e => (p'.entries.lookup e.key).isSome with
      | some e => some e.key
      | none => (p'.listed.find? fun e => M.carriesAmm e.tx).map MempoolEntry.key }

def removeStale (p : IndexedPool) : IndexedPool :=
  let p := p.purgeInvalidAmmEntries M rules
  let p := p.sweepTo M (Sweep.sweep (isUnconfirmedChild chain) (isStale chain rules p.listed) p.listed)
  { p with entries := p.entries.mapRows fun _ e => markRelocked chain e }

/-! ## Admission -/

/-- Insertion into `fee_index_`: behind the rows of the same rate. -/
def insertFee (row : Nat × Hash256) : List (Nat × Hash256) → List (Nat × Hash256)
  | [] => [row]
  | other :: rest => if other.1 ≤ row.1 then other :: insertFee row rest else row :: other :: rest

/-- One input of a transaction that is admitted. -/
def occupy (key : Hash256) (spent : Finset OutPoint × Table OutPoint Hash256) (o : OutPoint) :
    Finset OutPoint × Table OutPoint Hash256 :=
  (insert o spent.1, if (spent.2.lookup o).isSome then spent.2 else spent.2.insert o key)

/-- The end of `Add`. -/
def insertEntry (p : IndexedPool) (e : MempoolEntry) : IndexedPool :=
  let spent := (spends e.tx).foldl (occupy e.key) (p.spentOutputs, p.spentByTx)
  { entries := p.entries.insert e.key e
    totalBytes := p.totalBytes + e.txSizeBytes
    feeIndex := insertFee (e.feeRate, e.key) p.feeIndex
    spentOutputs := spent.1
    spentByTx := spent.2
    tokenMarkerCount := if M.tokenFamily e.tx then p.tokenMarkerCount + 1 else p.tokenMarkerCount
    pendingTokenReplayCounts :=
      match M.replayKey e.tx with
      | none => p.pendingTokenReplayCounts
      | some deposit =>
        p.pendingTokenReplayCounts.insert deposit ((p.pendingTokenReplayCounts.lookup deposit).getD 0 + 1)
    pendingStakers := (M.stakeAddresses e.tx).foldl (fun stakers staker => stakers.insert staker e.key) p.pendingStakers
    pendingAmmTx := if M.carriesAmm e.tx then some e.key else p.pendingAmmTx }

def ammTaken (p : IndexedPool) : Bool := p.pendingAmmTx.any fun key => (p.entries.lookup key).isSome

def admitEntry (C : Crypto) (p : IndexedPool) (req : AddRequest) : AddResult × IndexedPool :=
  if (spends req.tx).any fun o => o ∈ p.spentOutputs then (.doubleSpend, p)
  else match admissionChecks chain rules C p.listed req with
    | .error r => (r, p)
    | .ok st =>
      if (M.stakeOps req.tx).any fun staker => (p.pendingStakers.lookup staker).isSome then (.stakeAlreadyPending, p)
      else if M.tokenFamily req.tx && maxTokenMempoolEntries ≤ p.tokenMarkerCount then (.full, p)
      else if (M.replayKey req.tx).any fun deposit => (p.pendingTokenReplayCounts.lookup deposit).getD 0 ≠ 0 then
        (.doubleSpend, p)
      else match evictLoop M req.tx.serialize.length (feeRateOf req.tx req.feeUnits) p.totalBytes p with
        | (true, p) => (.accepted, p.insertEntry M (newEntry C req st))
        | (false, p) => (.full, p)

def add (C : Crypto) (p : IndexedPool) (req : AddRequest) : AddResult × IndexedPool :=
  if (p.entries.lookup (req.tx.getTxID C)).isSome then (.duplicate, p)
  else if M.carriesAmm req.tx && p.ammTaken then (.doubleSpend, p)
  else (if M.carriesAmm req.tx then { p with pendingAmmTx := none } else p).admitEntry M chain rules C req

end

/-! ## Operations -/

inductive Operation where
  | add (req : AddRequest)
  | remove (key : Hash256)
  | removeConfirmed (keys : List Hash256)
  | expireOld (now : Nat)
  | purgeInvalidAgainst (utxoExists : OutPoint → Bool)
  | purgeInvalidAmmEntries
  | removeStale
  | sweepOrphans

/-- One operation, with what the chain and the marker rules answer to it. -/
def run (M : Markers) (C : Crypto) (p : IndexedPool) (call : ChainView × PoolRules × Operation) : IndexedPool :=
  match call with
  | (chain, rules, .add req) => (p.add M chain rules C req).2
  | (_, _, .remove key) => p.removeInternal M key
  | (_, _, .removeConfirmed keys) => p.removeKeys M keys
  | (_, _, .expireOld now) => p.expireOld M now
  | (_, _, .purgeInvalidAgainst utxoExists) => p.sweepTo M (Chain.purgeInvalidAgainst utxoExists p.listed)
  | (_, rules, .purgeInvalidAmmEntries) => p.purgeInvalidAmmEntries M rules
  | (chain, rules, .removeStale) => p.removeStale M chain rules
  | (chain, _, .sweepOrphans) => p.sweepTo M (Chain.sweepOrphans chain p.listed)

end IndexedPool

end Veld.Chain
