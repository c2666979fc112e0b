import Veld.Core.Profile
import Veld.Consensus.FinalityQc

/-!
# The state of finality

`FinalityState` of `consensus/finality_state.h`, with the structural check of certificates and the records of
`consensus/finality_qc.h`: which epochs have qualified, the frozen sets that are kept, and the record of the
last certificate.
-/

namespace Veld.Finality

open Wire

def snapshotRetention : Nat := 2

def FinalizedRecord.null : FinalizedRecord := ⟨0, .null, .zero, 0, .precommit, .zero, .null, 0⟩

def FinalizedRecord.isNull (r : FinalizedRecord) : Bool := r.target.isNull

section
variable (K : Context)

def qcCommitment (qc : QuorumCert) : Hash256 :=
  sha256Domain K.sha256 "VELD_FINALITY_QC_v1|"
    (putLE 8 qc.epochId ++ qc.setRoot.bytes ++ putLE 1 qc.phase.code ++ putLE 4 qc.round ++
      putLE 8 qc.source.height.toNat ++ qc.source.hash.bytes ++ putLE 8 qc.target.height.toNat ++
      qc.target.hash.bytes ++ putLenPrefixed qc.bitmap ++ putLE 8 qc.weight)

def finalize (qc : QuorumCert) (s : EpochSnapshot) (carrier : CheckpointRef) : Option FinalizedRecord :=
  if qc.phase = .precommit ∧ qcWellFormed K qc s ∧ s.qualified ∧
      inVoteWindow qc.target.height.toNat carrier.height.toNat = true then
    some ⟨qc.epochId, qc.target, qc.setRoot, qc.round, qc.phase, qcCommitment K qc, carrier, qc.target.height.toNat⟩
  else none

def recordDigest (r : FinalizedRecord) : Hash256 :=
  sha256Domain K.sha256 "VELD_FINALITY_RECORD_v1|"
    (putLE 8 r.epochId ++ putLE 8 r.target.height.toNat ++ r.target.hash.bytes ++ r.setRoot.bytes ++
      putLE 4 r.round ++ putLE 1 r.phase.code ++ r.certCommit.bytes ++ putLE 8 r.carrier.height.toNat ++
      r.carrier.hash.bytes ++ putLE 8 r.retentionFloor)

end

def recordSupersedes (incoming current : FinalizedRecord) : Bool :=
  current.isNull || current.target.height < incoming.target.height

def reorgAllowed (r : FinalizedRecord) (commonAncestorHeight : Nat) (branchHas : CheckpointRef → Bool) : Bool :=
  r.isNull || (r.target.height.toNat ≤ commonAncestorHeight && branchHas r.target && branchHas r.carrier)

structure FinalityState where
  consecutiveQualifiedEpochs : Nat
  finalityEverActive : Bool
  everPromotedAnchor : Bool
  /-- The frozen sets that are kept, the oldest first. -/
  snapshots : List EpochSnapshot
  record : FinalizedRecord
  certifiedCarrierRecord : FinalizedRecord
  securityUpgradeActive : Bool

namespace FinalityState

def initial : FinalityState := ⟨0, false, false, [], .null, .null, false⟩

/-- `OnBlockHeight`: the upgrade takes over the record that is there. -/
def onBlockHeight (height : Nat) (f : FinalityState) : FinalityState :=
  if consensusSecurityUpgradeActive height && !f.securityUpgradeActive then
    { f with certifiedCarrierRecord := f.record, securityUpgradeActive := true }
  else f

def anchorAuthorizationRecord (f : FinalityState) : FinalizedRecord :=
  if f.securityUpgradeActive then f.certifiedCarrierRecord else f.record

def requiredReorgAncestor (f : FinalityState) : Nat :=
  if f.record.isNull then 0
  else if consensusSecurityUpgradeActive f.record.carrier.height.toNat then f.record.target.height.toNat
  else f.record.carrier.height.toNat

def onEpochBoundary (K : Context) (snap : EpochSnapshot) (f : FinalityState) : Option FinalityState :=
  if !snapshotWellFormed K snap then none
  else match f.snapshots.find? fun s => s.epochId = snap.epochId with
    | some prior =>
      if prior.snapshotHeight = snap.snapshotHeight ∧ prior.totalWeight = snap.totalWeight ∧
          prior.root = snap.root then some f
      else none
    | none =>
      if f.snapshots.getLast?.any fun s => snap.epochId ≤ s.epochId then none
      else
        let kept := f.snapshots ++ [snap]
        let count :=
          if !snapshotQualifies K snap then 0
          else if f.consecutiveQualifiedEpochs = 2 ^ 32 - 1 then f.consecutiveQualifiedEpochs
          else f.consecutiveQualifiedEpochs + 1
        some { f with
          snapshots := kept.drop (kept.length - snapshotRetention)
          consecutiveQualifiedEpochs := count
          finalityEverActive := f.finalityEverActive || 2 ≤ count }

def finalityActive (f : FinalityState) : Bool := 2 ≤ f.consecutiveQualifiedEpochs

def anchorWarmupComplete (f : FinalityState) : Bool := 3 ≤ f.consecutiveQualifiedEpochs

def linksTo (qc : QuorumCert) (r : FinalizedRecord) : Bool :=
  if r.isNull then qc.source.isNull
  else qc.source = r.target && r.target.height < qc.target.height && r.epochId ≤ qc.epochId

def onCertificate (K : Context) (qc : QuorumCert) (carrier : CheckpointRef) (canonicalTargetHash : Hash256)
    (f : FinalityState) : Option FinalityState := do
  let s ← f.snapshots.find? fun s => s.epochId = qc.epochId
  guard (f.finalityActive ∧ qc.target.hash = canonicalTargetHash ∧ linksTo qc f.record)
  let candidate ← finalize K qc s carrier
  guard (recordSupersedes candidate f.record = true)
  return { f with
    certifiedCarrierRecord :=
      if f.securityUpgradeActive && !f.record.isNull && f.record.carrier.height ≤ candidate.target.height then f.record
      else f.certifiedCarrierRecord
    record := candidate }

/-- `FeedFinalityCerts_` of `node/node.h`; `chain` has the hashes of the blocks below. -/
def feedFinalityCerts (K : Context) (chain : List Hash256) (blockHash : Hash256) (cert : Option DecodedQc)
    (f : FinalityState) : Option FinalityState :=
  match cert with
  | none => some f
  | some d => do
    guard (d.qc.phase = .precommit ∧ inVoteWindow d.qc.target.height.toNat chain.length)
    let s ← f.snapshots.find? fun s => s.epochId = d.qc.epochId
    let d ← verifyDecodedQc K d s
    let canonicalTarget ← chain[d.qc.target.height.toNat]?
    guard (canonicalTarget = d.qc.target.hash)
    f.onCertificate K d.qc ⟨UInt64.ofNat chain.length, blockHash⟩ canonicalTarget

/-- `MaybeSnapshotEpochFor_`. -/
def maybeSnapshotEpoch (K : Context) (height : Nat) (snap : EpochSnapshot) (f : FinalityState) :
    Option FinalityState :=
  if height + 1 = (epochOf height + 1) * epochBlocks then
    f.onEpochBoundary K { snap with epochId := epochOf height + 1, snapshotHeight := height }
  else some f

def finalizedHeight (f : FinalityState) : Nat := if f.record.isNull then 0 else f.record.target.height.toNat

def reorgPermitted (f : FinalityState) (commonAncestorHeight : Nat) (branchHas : CheckpointRef → Bool) : Bool :=
  f.record.isNull ||
    if !consensusSecurityUpgradeActive f.record.carrier.height.toNat then
      reorgAllowed f.record commonAncestorHeight branchHas
    else f.record.target.height.toNat ≤ commonAncestorHeight && branchHas f.record.target

def candidateRetainsFinality (f candidate : FinalityState) (branchHas : CheckpointRef → Bool) : Bool :=
  f.record.isNull || branchHas f.record.target &&
    if !consensusSecurityUpgradeActive f.record.carrier.height.toNat then branchHas f.record.carrier
    else !candidate.record.isNull && f.record.target.height ≤ candidate.record.target.height &&
      (candidate.record.target.height ≠ f.record.target.height ||
        candidate.record.target.hash = f.record.target.hash)

end FinalityState

/-! ## Records -/

/-- What `Finalize` puts into a record. -/
structure Certified (r : FinalizedRecord) : Prop where
  phase : r.phase = .precommit
  scheduled : isScheduledCheckpoint r.target.height.toNat = true
  epoch : epochOf r.target.height.toNat = r.epochId
  round : r.round = checkpointRound r.target.height.toNat
  window : inVoteWindow r.target.height.toNat r.carrier.height.toNat = true
  floor : r.retentionFloor = r.target.height.toNat

section
variable {K : Context} {qc : QuorumCert} {s : EpochSnapshot} {carrier : CheckpointRef} {r : FinalizedRecord}

theorem finalize_eq_some (h : finalize K qc s carrier = some r) :
    Certified r ∧ r.target = qc.target ∧ r.carrier = carrier ∧ r.epochId = s.epochId ∧ r.setRoot = s.root ∧
      r.certCommit = qcCommitment K qc := by
  unfold finalize at h
  split_ifs at h with hok
  obtain ⟨hphase, hwf, -, hwindow⟩ := hok
  cases h
  simp only [qcWellFormed, Bool.and_eq_true, decide_eq_true_eq] at hwf
  obtain ⟨⟨⟨⟨⟨⟨⟨⟨⟨⟨-, hid⟩, hroot⟩, hscheduled⟩, hepoch⟩, hround⟩, -⟩, -⟩, -⟩, -⟩, -⟩ := hwf
  exact ⟨⟨hphase, hscheduled, hepoch, hround, hwindow, rfl⟩, rfl, rfl, hid, hroot, rfl⟩

theorem Certified.isNull (h : Certified r) : r.isNull = false := by
  have hne := (isScheduledCheckpoint_iff.mp h.scheduled).1
  have hheight : (r.target.height == 0) = false := by
    refine beq_false_of_ne fun heq => hne ?_
    rw [heq]
    rfl
  simp [FinalizedRecord.isNull, CheckpointRef.isNull, hheight]

theorem inVoteWindow_bounds {target inclusion : Nat} (h : inVoteWindow target inclusion) :
    target < inclusion ∧ inclusion ≤ target + 20 := by
  simp only [inVoteWindow, Bool.and_eq_true, decide_eq_true_eq] at h
  refine ⟨h.1, h.2.trans ((Nat.mod_le _ _).trans ?_)⟩
  exact le_rfl

theorem Certified.target_lt_carrier (h : Certified r) : r.target.height.toNat < r.carrier.height.toNat :=
  (inVoteWindow_bounds h.window).1

/-- Checkpoints are as far apart as a certificate may lag: a later target is at or above the carrier. -/
theorem Certified.carrier_le_target {r' : FinalizedRecord} (h : Certified r) (h' : Certified r')
    (hlt : r.target.height.toNat < r'.target.height.toNat) : r.carrier.height.toNat ≤ r'.target.height.toNat := by
  have hle := (inVoteWindow_bounds h.window).2
  have hmod := (isScheduledCheckpoint_iff.mp h.scheduled).2
  have hmod' := (isScheduledCheckpoint_iff.mp h'.scheduled).2
  omega

end

end Veld.Finality
