import Veld.Lib.Table
import Veld.Consensus.FinalityDaemon

/-!
# Assembling certificates

`CertAssembler` of `consensus/finality_producer.h`: a bounded pool of authenticated votes, in buckets of one
claim each, with one slot for each signer and round that also keeps a conflicting vote as evidence.
-/

namespace Veld.Finality

open Wire

/-! ## The carried form -/

def finQcBinaryPrefix : Bytes := ascii "VELD_FINALITY|QB2|"
def maxFinalityQcBytes : Nat := 7500000

/-- The bytes of a certificate behind the marker. -/
def qcBody (qc : QuorumCert) (sigs : List Bytes) : Bytes :=
  putLE 8 qc.epochId ++ (putLE 1 qc.phase.code ++ (putLE 4 qc.round ++
    (putLE 8 qc.source.height.toNat ++ (qc.source.hash.bytes ++
      (putLE 8 qc.target.height.toNat ++ (qc.target.hash.bytes ++
        (putLE 2 qc.bitmap.length ++ (qc.bitmap ++ (putLE 2 sigs.length ++ sigs.flatMap id)))))))))

/-- `EncodeQc`; nothing when the certificate has no carried form. -/
def encodeQc (qc : QuorumCert) (sigs : List Bytes) : Bytes :=
  if qc.bitmap = [] ∨ 65535 < qc.bitmap.length ∨ sigs = [] ∨ 65535 < sigs.length ∨
      sigs.any (fun sig => sig.length ≠ sigMaxBytes) = true then []
  else if maxFinalityQcBytes < (finQcBinaryPrefix ++ qcBody qc sigs).length then []
  else finQcBinaryPrefix ++ qcBody qc sigs

/-- `DecodeQc`: the set root and the weight are not carried. -/
def decodeQc (data : Bytes) : Option (QuorumCert × List Bytes) := do
  guard (data.length ≤ maxFinalityQcBytes ∧ data.take finQcBinaryPrefix.length = finQcBinaryPrefix)
  let (epochId, r) ← readLE 8 (data.drop finQcBinaryPrefix.length)
  let (code, r) ← readLE 1 r
  let phase ← Phase.ofCode code
  let (round, r) ← readLE 4 r
  let (sourceHeight, r) ← readLE 8 r
  let (sourceHash, r) ← readHash r
  let (targetHeight, r) ← readLE 8 r
  let (targetHash, r) ← readHash r
  let (bitmapLength, r) ← readLE 2 r
  guard (bitmapLength ≠ 0)
  let (bitmap, r) ← takeN bitmapLength r
  let (sigCount, r) ← readLE 2 r
  guard (sigCount ≠ 0)
  let (sigs, r) ← readMany (takeN sigMaxBytes) sigCount r
  guard (r = [])
  let source : CheckpointRef := ⟨UInt64.ofNat sourceHeight, sourceHash⟩
  let target : CheckpointRef := ⟨UInt64.ofNat targetHeight, targetHash⟩
  guard (sourceRefWellFormed source target ∧
    isScheduledCheckpoint target.height.toNat ∧ epochOf target.height.toNat = epochId ∧
    round = checkpointRound target.height.toNat)
  return (⟨epochId, .zero, phase, round, source, target, bitmap, 0⟩, sigs)

/-! ## The pool -/

def maxPoolVotes : Nat := 8192
def maxPoolBytes : Nat := 64 * 1024 * 1024

/-- `Key`: a claim. -/
structure BucketKey where
  epoch : Nat
  setRoot : Hash256
  phase : Phase
  round : Nat
  source : CheckpointRef
  target : CheckpointRef
  deriving DecidableEq

def BucketKey.rank (k : BucketKey) : List Nat :=
  k.epoch :: (k.setRoot.bytes.map UInt8.toNat ++ [k.phase.code, k.round, k.source.height.toNat] ++
    k.source.hash.bytes.map UInt8.toNat ++ [k.target.height.toNat] ++
    k.target.hash.bytes.map UInt8.toNat)

structure SignerRoundKey where
  epoch : Nat
  setRoot : Hash256
  phase : Phase
  round : Nat
  signer : Hash256
  deriving DecidableEq

structure SignerRoundVotes where
  first : SignedVote
  conflict : Option SignedVote

structure CertAssembler where
  pool : Table BucketKey (List SignedVote)
  signerRounds : Table SignerRoundKey SignerRoundVotes
  /-- By epoch and signer. -/
  evidenceSigners : Table (Nat × Hash256) SignerRoundKey
  voteCount : Nat
  poolBytes : Nat
  highestEpoch : Nat
  haveEpoch : Bool

def CertAssembler.empty : CertAssembler := ⟨∅, ∅, ∅, 0, 0, 0, false⟩

def SignedVote.bucketKey (v : SignedVote) : BucketKey :=
  ⟨v.epochId, v.setRoot, v.phase, v.round, v.source, v.target⟩

def QuorumCert.bucketKey (qc : QuorumCert) (phase : Phase) : BucketKey :=
  ⟨qc.epochId, qc.setRoot, phase, qc.round, qc.source, qc.target⟩

def sameVoteClaim (a b : SignedVote) : Bool :=
  a.bucketKey = b.bucketKey && a.pubkeyHex = b.pubkeyHex

section
variable (K : Context) (sizeofVote : Nat)

def SignedVote.signerKey (v : SignedVote) : SignerRoundKey :=
  ⟨v.epochId, v.setRoot, v.phase, v.round, pubkeyCommit K v.pubkeyHex⟩

def voteBytes (v : SignedVote) : Nat := sizeofVote + v.pubkeyHex.length + v.signature.length

def SignerRoundVotes.count (r : SignerRoundVotes) : Nat := if r.conflict.isSome then 2 else 1

def SignerRoundVotes.bytes (r : SignerRoundVotes) : Nat :=
  voteBytes sizeofVote r.first + (r.conflict.map (voteBytes sizeofVote)).getD 0

namespace CertAssembler

/-- `RecomputeAccountingLocked_`. -/
def recomputeAccounting (c : CertAssembler) : CertAssembler :=
  { c with
    voteCount := Table.total SignerRoundVotes.count c.signerRounds
    poolBytes := Table.total (SignerRoundVotes.bytes sizeofVote) c.signerRounds }

/-- `PruneBelowEpochLocked_`. -/
def pruneBelowEpoch (keepFrom : Nat) (c : CertAssembler) : CertAssembler :=
  recomputeAccounting sizeofVote
    { c with
      pool := Table.keep (fun k _ => keepFrom ≤ k.epoch) c.pool
      signerRounds := Table.keep (fun k _ => keepFrom ≤ k.epoch) c.signerRounds
      evidenceSigners := Table.keep (fun k _ => keepFrom ≤ k.1) c.evidenceSigners }

/-- A vote of a newer epoch drops all but the epoch before. -/
def enterEpoch (v : SignedVote) (c : CertAssembler) : CertAssembler :=
  if !c.haveEpoch || c.highestEpoch < v.epochId then
    pruneBelowEpoch sizeofVote (v.epochId - 1) { c with highestEpoch := v.epochId, haveEpoch := true }
  else c

def hasCapacity (v : SignedVote) (c : CertAssembler) : Bool :=
  c.voteCount < maxPoolVotes && voteBytes sizeofVote v ≤ maxPoolBytes - min c.poolBytes maxPoolBytes

def storeFirst (v : SignedVote) (c : CertAssembler) : CertAssembler :=
  { c with
    pool := c.pool.insert v.bucketKey ((c.pool.lookup v.bucketKey).getD [] ++ [v])
    signerRounds := c.signerRounds.insert (v.signerKey K) ⟨v, none⟩
    voteCount := c.voteCount + 1
    poolBytes := c.poolBytes + voteBytes sizeofVote v }

def storeConflict (v : SignedVote) (slot : SignerRoundVotes) (c : CertAssembler) : CertAssembler :=
  { c with
    signerRounds := c.signerRounds.insert (v.signerKey K) { slot with conflict := some v }
    evidenceSigners := c.evidenceSigners.insert (v.epochId, pubkeyCommit K v.pubkeyHex) (v.signerKey K)
    voteCount := c.voteCount + 1
    poolBytes := c.poolBytes + voteBytes sizeofVote v }

/-- `StoreAuthenticatedVote_` in the epoch of the vote. -/
def storeInEpoch (v : SignedVote) (c : CertAssembler) : Bool × CertAssembler :=
  if v.epochId + 1 < c.highestEpoch then (false, c)
  else match c.signerRounds.lookup (v.signerKey K) with
    | some slot =>
      if sameVoteClaim slot.first v ||
          (c.evidenceSigners.lookup (v.epochId, pubkeyCommit K v.pubkeyHex)).isSome ||
          slot.conflict.isSome || !hasCapacity sizeofVote v c then (false, c)
      else (true, storeConflict K sizeofVote v slot c)
    | none =>
      if !hasCapacity sizeofVote v c then (false, c) else (true, storeFirst K sizeofVote v c)

def storeAuthenticatedVote (v : SignedVote) (c : CertAssembler) : Bool × CertAssembler :=
  storeInEpoch K sizeofVote v (enterEpoch sizeofVote v c)

def offerAuthenticated (a : AuthenticatedVote) (s : EpochSnapshot) (c : CertAssembler) :
    Bool × CertAssembler :=
  if a.snapshotEpoch = s.epochId ∧ a.snapshotRoot = s.root ∧
      voteClaimWellFormed a.vote s.epochId s.root ∧
      (((signerIndex s a.memberCommit).bind fun i => s.entries[i]?).any
        fun member => member.pubkeyHex = a.vote.pubkeyHex) = true then
    storeAuthenticatedVote K sizeofVote a.vote c
  else (false, c)

def offer (v : SignedVote) (s : EpochSnapshot) (c : CertAssembler) : Bool × CertAssembler :=
  match authenticateVote K v s with
  | none => (false, c)
  | some a => offerAuthenticated K sizeofVote a s c

def reclaim (c : CertAssembler) (v : SignedVote) : CertAssembler :=
  match c.signerRounds.lookup (v.signerKey K) with
  | some slot =>
    if slot.conflict.isSome then c
    else
      { c with
        signerRounds := c.signerRounds.erase (v.signerKey K)
        voteCount := c.voteCount - 1
        poolBytes := c.poolBytes - voteBytes sizeofVote slot.first }
  | none => c

/-- `RemoveBucketLocked_`. -/
def removeBucket (k : BucketKey) (c : CertAssembler) : CertAssembler :=
  match c.pool.lookup k with
  | none => c
  | some votes =>
    let c' := votes.foldl (reclaim K sizeofVote) c
    { c' with pool := c'.pool.erase k }

def remove (qc : QuorumCert) (c : CertAssembler) : CertAssembler :=
  removeBucket K sizeofVote (qc.bucketKey qc.phase) c

def removeFinalizedClaim (qc : QuorumCert) (c : CertAssembler) : CertAssembler :=
  if qc.phase = .precommit then
    removeBucket K sizeofVote (qc.bucketKey .prevote)
      (removeBucket K sizeofVote (qc.bucketKey .precommit) c)
  else c

def removeSignerEpoch (epoch : Nat) (signer : Hash256) (c : CertAssembler) : CertAssembler :=
  recomputeAccounting sizeofVote
    { c with
      pool := Table.keep (fun k votes => k.epoch ≠ epoch || votes ≠ [])
        (Table.mapRows (fun k votes =>
          if k.epoch = epoch then votes.filter fun v => pubkeyCommit K v.pubkeyHex ≠ signer else votes) c.pool)
      signerRounds := Table.keep (fun k _ => ¬ (k.epoch = epoch ∧ k.signer = signer)) c.signerRounds
      evidenceSigners := c.evidenceSigners.erase (epoch, signer) }

end CertAssembler

/-! ## Assembly -/

def setBit (bitmap : Bytes) (i : Nat) : Bytes :=
  bitmap.modify (i / 8) fun b => b ||| UInt8.ofNat (2 ^ (i % 8))

/-- One vote in `AssembleVerifiedBucket_`: its bit, which must not be set yet. -/
def markSigner (s : EpochSnapshot) (bitmap : Bytes) (v : SignedVote) : Option Bytes := do
  let i ← signerIndex s (pubkeyCommit K v.pubkeyHex)
  if bitSet bitmap i then none else some (setBit bitmap i)

def assembleVerifiedBucket (k : BucketKey) (votes : List SignedVote) (s : EpochSnapshot) :
    Option QuorumCert := do
  guard (votes ≠ [] ∧ snapshotWellFormed K s ∧ k.epoch = s.epochId ∧ k.setRoot = s.root)
  let bitmap ← votes.foldlM (markSigner K s) (List.replicate ((s.entries.length + 7) / 8) 0)
  let qc : QuorumCert :=
    ⟨k.epoch, k.setRoot, k.phase, k.round, k.source, k.target, bitmap, bitmapWeight s bitmap⟩
  guard (qcWellFormed K qc s = true)
  return qc

/-- The signatures of a bucket in the order of the members. -/
def collectSigs (bitmap : Bytes) (votes : List SignedVote) : Nat → List SnapshotEntry → List Bytes
  | _, [] => []
  | i, e :: rest =>
    if bitSet bitmap i then
      ((votes.find? fun v => pubkeyCommit K v.pubkeyHex = e.pubkeyCommit).map SignedVote.signature).toList ++
        collectSigs bitmap votes (i + 1) rest
    else collectSigs bitmap votes (i + 1) rest

/-- The certificate of one bucket in `TryAssemble`. -/
def assembleBucket (s : EpochSnapshot) (phase : Option Phase) (accept : QuorumCert × List Bytes → Bool)
    (k : BucketKey) (votes : List SignedVote) : Option (QuorumCert × List Bytes) := do
  guard (k.epoch = s.epochId ∧ phase.all (fun p => k.phase = p) = true)
  let qc ← assembleVerifiedBucket K k votes s
  guard (accept (qc, collectSigs K qc.bitmap votes 0 s.entries) = true)
  return (qc, collectSigs K qc.bitmap votes 0 s.entries)

/-- `TryAssemble`. -/
def tryAssemble (s : EpochSnapshot) (phase : Option Phase) (accept : QuorumCert × List Bytes → Bool)
    (c : CertAssembler) : Option (QuorumCert × List Bytes) :=
  (c.pool.entries.mergeSort fun a b => a.1.rank ≤ b.1.rank).findSome?
    fun row => assembleBucket K s phase accept row.1 row.2

end

/-! ## Runs -/

inductive AssemblerCall
  | offer (v : SignedVote) (s : EpochSnapshot)
  | remove (qc : QuorumCert)
  | removeFinalizedClaim (qc : QuorumCert)
  | removeSignerEpoch (epoch : Nat) (signer : Hash256)
  | prune (keepFrom : Nat)

def AssemblerCall.run (K : Context) (sizeofVote : Nat) (c : CertAssembler) : AssemblerCall → CertAssembler
  | .offer v s => (c.offer K sizeofVote v s).2
  | .remove qc => c.remove K sizeofVote qc
  | .removeFinalizedClaim qc => c.removeFinalizedClaim K sizeofVote qc
  | .removeSignerEpoch epoch signer => c.removeSignerEpoch K sizeofVote epoch signer
  | .prune keepFrom => c.pruneBelowEpoch sizeofVote keepFrom

def assemblerRun (K : Context) (sizeofVote : Nat) (calls : List AssemblerCall) : CertAssembler :=
  calls.foldl (AssemblerCall.run K sizeofVote) .empty

end Veld.Finality
