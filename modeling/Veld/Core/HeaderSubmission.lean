import Veld.Core.BtcHeaderChain
import Veld.Core.PowTarget

/-!
# Header submission

The write side of `core/btc_header_chain.h` with the arithmetic of `core/btc_pow.h`: the checks of a submitted
header, most-work selection, the index of the selected chain, the observed checkpoint, snapshot and restore.
-/

namespace Veld.Btcspv

open Wire

/-! ## Headers -/

/-- An 80-byte header: version, parent, Merkle root, time, bits, nonce. -/
structure RawHeader where
  bytes : Bytes
  size : bytes.length = 80
  deriving DecidableEq

namespace RawHeader
variable (raw : RawHeader)

def prevHash : Hash256 := ⟨(raw.bytes.drop 4).take 32, by simp [raw.size]⟩

def merkleRoot : Hash256 := ⟨(raw.bytes.drop 36).take 32, by simp [raw.size]⟩

def time : Nat := getLE ((raw.bytes.drop 68).take 4)

def bits : Nat := getLE ((raw.bytes.drop 72).take 4)

/-- `BtcHeaderHash`. -/
def hash (sha256 : Bytes → Hash256) : Hash256 := hash256d sha256 raw.bytes

end RawHeader

def checkProofOfWork (sha256 : Bytes → Hash256) (raw : RawHeader) (bits powLimit : Nat) : Bool :=
  let c := compactToTarget bits
  !c.negative && !c.overflow && c.target != 0 && decide (c.target ≤ powLimit) &&
    decide (getLE (raw.hash sha256).bytes ≤ c.target)

/-- `BlockWork` of `core/btc_pow.h`, in 256-bit arithmetic. -/
def targetWork (target : Nat) : Nat :=
  if (target + 1) % 2 ^ 256 = 0 then 0
  else ((2 ^ 256 - 1 - target) / (target + 1) + 1) % 2 ^ 256

/-- The value of a conversion to `uint32_t`. -/
def toUint32 (v : Int) : Nat := (v % 2 ^ 32).toNat

/-- `CalcNextBits`. -/
def calcNextBits (oldBits : Nat) (actualTimespan : Int) (powLimit : Nat) (targetTimespan : Int) :
    Nat :=
  let low := if actualTimespan < targetTimespan.tdiv 4 then targetTimespan.tdiv 4 else actualTimespan
  let span := if targetTimespan * 4 < low then targetTimespan * 4 else low
  let t := (compactToTarget oldBits).target * toUint32 span % 2 ^ 256 / toUint32 targetTimespan
  targetToCompact (if powLimit < t then powLimit else t)

/-! ## Parameters and the first state -/

structure BtcCheckpoint where
  height : Nat
  hash : Hash256
  bits : Nat
  time : Nat
  chainWork : Nat
  /-- The times before the checkpoint, oldest first. -/
  prev10Times : Vector Nat 10

/-- The members of the chain object that its constructor fixes. -/
structure ChainParams where
  cp : BtcCheckpoint
  powLimit : Nat
  retargetInterval : Nat := 2016
  targetTimespan : Int := 14 * 24 * 60 * 60
  noRetarget : Bool := false

/-- `StateSnapshot`: all but the index of the selected chain. -/
structure StateSnapshot where
  byHash : AList fun _ : Hash256 => BtcHeaderRecord
  bestTip : Hash256
  observedCheckpoint : Hash256

/-- The record `Init` stores for the checkpoint; its parent is not known. -/
def BtcCheckpoint.record (cp : BtcCheckpoint) : BtcHeaderRecord where
  blockHash := cp.hash
  prevHash := .zero
  merkleRoot := .zero
  time := cp.time
  bits := cp.bits
  height := cp.height
  chainWork := cp.chainWork

/-- The chain a constructor leaves. -/
def ChainParams.init (P : ChainParams) : BtcHeaderChain where
  byHash := AList.insert P.cp.hash P.cp.record ∅
  bestTip := P.cp.hash
  observedCheckpoint := .zero
  bestChain := [P.cp.hash]
  cpHeight := P.cp.height
  cpTime := P.cp.time

namespace BtcHeaderChain

variable (sha256 : Bytes → Hash256) (P : ChainParams) (ch : BtcHeaderChain)

/-! ## The rules for a child -/

/-- The loop of `ExpectedBits`: `n` links back, if all are stored. -/
def walkBack : Nat → BtcHeaderRecord → Option BtcHeaderRecord
  | 0, r => some r
  | n + 1, r =>
    match ch.get r.prevHash with
    | none => none
    | some p => walkBack n p

/-- `ExpectedBits`: 0 when the first header of the epoch is missing. -/
def expectedBits (parent : BtcHeaderRecord) : Nat :=
  if P.noRetarget then parent.bits
  else if (parent.height + 1) % 2 ^ 32 % P.retargetInterval ≠ 0 then parent.bits
  else
    match ch.walkBack (P.retargetInterval - 1) parent with
    | none => 0
    | some first =>
      calcNextBits parent.bits ((parent.time : Int) - first.time) P.powLimit P.targetTimespan

/-- The times `MedianTimePast` collects, at most `n` of them: past the checkpoint come the times
pinned with it. (The loop's `guard` cannot be reached before eleven times are there.) -/
def pastTimes : Nat → BtcHeaderRecord → List Nat
  | 0, _ => []
  | n + 1, r =>
    r.time ::
      if r.blockHash = P.cp.hash then P.cp.prev10Times.toList.reverse.take n
      else
        match ch.get r.prevHash with
        | none => []
        | some p => pastTimes n p

def medianTimePast (parent : BtcHeaderRecord) : Nat :=
  let t := (ch.pastTimes P 11 parent).insertionSort (· ≤ ·)
  t.getD (t.length / 2) 0

/-- What `SubmitHeader` asks of a header whose parent is stored. -/
def validChild (raw : RawHeader) (veldBlockTime : Nat) (parent : BtcHeaderRecord) : Bool :=
  let want := ch.expectedBits P parent
  checkProofOfWork sha256 raw raw.bits P.powLimit && want != 0 && raw.bits == want &&
    decide (ch.medianTimePast P parent < raw.time) &&
    !(veldBlockTime != 0 && decide ((veldBlockTime + 7200) % 2 ^ 32 < raw.time))

/-- The work a record adds to its parent's. -/
def headerWork (bits : Nat) : Nat := targetWork (compactToTarget bits).target

def childRecord (raw : RawHeader) (parent : BtcHeaderRecord) : BtcHeaderRecord where
  blockHash := raw.hash sha256
  prevHash := raw.prevHash
  merkleRoot := raw.merkleRoot
  time := raw.time
  bits := raw.bits
  height := (parent.height + 1) % 2 ^ 32
  chainWork := (parent.chainWork + headerWork raw.bits) % 2 ^ 256

/-! ## The selected chain -/

def rebuildFrom : Nat → Hash256 → Nat → List Hash256 → List Hash256
  | 0, _, _, _ => []
  | n + 1, cur, expectedHeight, above =>
    match ch.get cur with
    | none => []
    | some r =>
      if r.height ≠ expectedHeight then []
      else if cur = P.cp.hash then
        if expectedHeight ≠ P.cp.height then [] else cur :: above
      else if expectedHeight = 0 then []
      else rebuildFrom n r.prevHash (expectedHeight - 1) (cur :: above)

def rebuildBestChainIndex : BtcHeaderChain :=
  { ch with
    bestChain :=
      match ch.get ch.bestTip with
      | none => []
      | some tip =>
        if tip.height < P.cp.height then []
        else ch.rebuildFrom P (ch.byHash.entries.length + 1) ch.bestTip tip.height [] }

/-- The loop of `DescendsFromLocked_`. -/
def descendsLoop (ancestor : Hash256) (ancestorHeight : Nat) : Nat → Hash256 → Nat → Bool
  | 0, _, _ => false
  | n + 1, child, height =>
    if child = ancestor then true
    else if height ≤ ancestorHeight then false
    else
      match ch.get child with
      | none => false
      | some r => descendsLoop ancestor ancestorHeight n r.prevHash (height - 1)

/-- `DescendsFromLocked_`. -/
def descendsFrom (child ancestor : Hash256) : Bool :=
  match ch.get ancestor, ch.get child with
  | some anc, some cur =>
    if cur.height < anc.height then false
    else ch.descendsLoop ancestor anc.height (ch.byHash.entries.length + 1) child cur.height
  | _, _ => false

def selectTip (bh : Hash256) (r old : BtcHeaderRecord) : BtcHeaderChain :=
  let moved := { ch with bestTip := bh }
  if r.prevHash = ch.bestTip ∧ r.height = (old.height + 1) % 2 ^ 32 ∧ P.cp.height ≤ r.height ∧
      ch.bestChain.length = r.height - P.cp.height then
    { moved with bestChain := ch.bestChain ++ [bh] }
  else moved.rebuildBestChainIndex P

/-! ## Operations -/

/-- `by_hash_[bh] = r`. -/
def store (bh : Hash256) (r : BtcHeaderRecord) : BtcHeaderChain :=
  { ch with byHash := ch.byHash.insert bh r }

/-- `by_hash_.erase(bh)`. -/
def unstore (bh : Hash256) : BtcHeaderChain := { ch with byHash := ch.byHash.erase bh }

def submitHeader (raw : RawHeader) (veldBlockTime : Nat) : Bool × BtcHeaderChain :=
  let bh := raw.hash sha256
  if (ch.get bh).isSome then (true, ch)
  else
    match ch.get raw.prevHash with
    | none => (false, ch)
    | some parent =>
      if ch.validChild sha256 P raw veldBlockTime parent then
        let r := childRecord sha256 raw parent
        let stored := ch.store bh r
        match stored.get ch.bestTip with
        | none => (false, stored.unstore bh)
        | some best =>
          if best.chainWork < r.chainWork then
            if ch.observedCheckpoint ≠ .zero ∧
                stored.descendsFrom bh ch.observedCheckpoint = false then
              (false, stored.unstore bh)
            else (true, stored.selectTip P bh r best)
          else (true, stored)
      else (false, ch)

def promoteObservedCheckpoint (blockHash : Hash256) : Bool × BtcHeaderChain :=
  match ch.get blockHash with
  | none => (false, ch)
  | some candidate =>
    if ch.onBestChain blockHash = false then (false, ch)
    else if ch.observedCheckpoint = blockHash then (true, ch)
    else
      let promoted := { ch with observedCheckpoint := blockHash }
      if ch.observedCheckpoint = .zero then (true, promoted)
      else
        match ch.get ch.observedCheckpoint with
        | none => (false, ch)
        | some prior =>
          if ch.onBestChain ch.observedCheckpoint = false then (false, ch)
          else if candidate.height ≤ prior.height then
            (ch.descendsFrom ch.observedCheckpoint blockHash, ch)
          else (true, promoted)

/-- `ObservedCheckpointHeight`: 0 when none is stored. -/
def observedCheckpointHeight : Nat :=
  match ch.get ch.observedCheckpoint with
  | some r => r.height
  | none => 0

def snapshotState : StateSnapshot := ⟨ch.byHash, ch.bestTip, ch.observedCheckpoint⟩

/-- `RestoreState`; the answer is false where the source throws. -/
def restoreState (s : StateSnapshot) : Bool × BtcHeaderChain :=
  let restored := { ch with
    byHash := s.byHash, bestTip := s.bestTip, observedCheckpoint := s.observedCheckpoint }
  let rebuilt := restored.rebuildBestChainIndex P
  (!(s.observedCheckpoint != Hash256.zero &&
      ((rebuilt.get s.observedCheckpoint).isNone || !rebuilt.onBestChain s.observedCheckpoint)),
    rebuilt)

end BtcHeaderChain

end Veld.Btcspv
