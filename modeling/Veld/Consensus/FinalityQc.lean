import Veld.Lib.Quorum
import Veld.Core.Hash

/-!
# Finality certificates

`consensus/finality_qc.h` and the certificate half of `consensus/finality_codec.h`: checkpoints and
their rounds, the frozen validator set of an epoch, quorum certificates, and `VerifyDecodedQc`, which
turns a bitmap of claimed signers into evidence that each of them signed.
-/

namespace Veld.Finality

open Wire List

def epochBlocks : Nat := 480
def checkpointInterval : Nat := 20
def voteWindowBlocks : Nat := checkpointInterval
def minValidatorCount : Nat := 7
def maxFinalityValidatorCount : Nat := 3398
/-- `BOND_PER_KEY_UNITS`: the bond of a validator, no less and no more. -/
def bondPerKeyUnits : Nat := 10000 * 100000000
def totalBondFloor : Nat := minValidatorCount * bondPerKeyUnits
def pubkeyBytes : Nat := 1952
def sigMaxBytes : Nat := 3309

inductive Phase where
  | prevote
  | precommit
  deriving DecidableEq

def Phase.code : Phase → Nat
  | prevote => 1
  | precommit => 2

structure CheckpointRef where
  height : UInt64
  hash : Hash256
  deriving DecidableEq

/-- The reference of a chain on which nothing is final. -/
def CheckpointRef.null : CheckpointRef := ⟨0, .zero⟩

def CheckpointRef.isNull (c : CheckpointRef) : Bool := c.height == 0 && c.hash.isZero

structure SnapshotEntry where
  pubkeyCommit : Hash256
  address : Bytes
  registeredHeight : Nat
  weight : Nat
  pubkeyHex : Bytes
  deriving DecidableEq

structure EpochSnapshot where
  epochId : Nat
  snapshotHeight : Nat
  entries : List SnapshotEntry
  totalWeight : Nat
  root : Hash256
  deriving DecidableEq

def EpochSnapshot.qualified (s : EpochSnapshot) : Bool :=
  minValidatorCount ≤ s.entries.length && s.entries.length ≤ maxFinalityValidatorCount &&
    totalBondFloor ≤ s.totalWeight

structure QuorumCert where
  epochId : Nat
  setRoot : Hash256
  phase : Phase
  round : Nat
  source : CheckpointRef
  target : CheckpointRef
  bitmap : Bytes
  weight : Nat
  deriving DecidableEq

/-- `DecodedQc`. The length of the bitmap is read from a 16-bit field. -/
structure DecodedQc where
  qc : QuorumCert
  sigs : List Bytes
  bitmap_length : qc.bitmap.length < 2 ^ 16
  deriving DecidableEq

structure FinalizedRecord where
  epochId : Nat
  target : CheckpointRef
  setRoot : Hash256
  round : Nat
  phase : Phase
  certCommit : Hash256
  carrier : CheckpointRef
  retentionFloor : Nat
  deriving DecidableEq

/-- What the finality code is compiled and linked with: the hash, the ML-DSA check of a public key, a
message and a signature, and the identity of the chain. -/
structure Context where
  sha256 : Bytes → Hash256
  verify : Bytes → Bytes → Bytes → Bool
  networkId : Nat
  genesisHash : Hash256

/-! ## Checkpoints -/

def isSupermajority (weight totalWeight : Nat) : Bool :=
  totalWeight ≠ 0 && totalWeight * 2 < weight * 3

def isScheduledCheckpoint (height : Nat) : Bool := height ≠ 0 && height % checkpointInterval = 0

def checkpointRound (height : Nat) : Nat := height % epochBlocks / checkpointInterval

def consensusRoundNewer (epoch round priorEpoch priorRound : Nat) : Bool :=
  priorEpoch < epoch || (epoch = priorEpoch && priorRound < round)

def sourceRefWellFormed (source target : CheckpointRef) : Bool :=
  source.isNull || (source.height ≠ 0 && isScheduledCheckpoint source.height.toNat &&
    source.height.toNat < target.height.toNat)

def inVoteWindow (targetHeight inclusionHeight : Nat) : Bool :=
  targetHeight < inclusionHeight && inclusionHeight ≤ (targetHeight + voteWindowBlocks) % 2 ^ 64

def epochOf (height : Nat) : Nat := height / epochBlocks

theorem isScheduledCheckpoint_iff {height : Nat} :
    isScheduledCheckpoint height ↔ height ≠ 0 ∧ height % 20 = 0 := by
  rw [isScheduledCheckpoint, Bool.and_eq_true, decide_eq_true_eq, decide_eq_true_eq]
  exact Iff.rfl

theorem checkpoint_unique {a b : Nat} (ha : isScheduledCheckpoint a)
    (hb : isScheduledCheckpoint b) (hepoch : epochOf a = epochOf b)
    (hround : checkpointRound a = checkpointRound b) : a = b := by
  rw [isScheduledCheckpoint_iff] at ha hb
  simp only [epochOf, checkpointRound, epochBlocks, checkpointInterval] at hepoch hround
  omega

/-! ## Snapshots -/

section
variable (K : Context)

def pubkeyCommit (pubkeyHex : Bytes) : Hash256 :=
  sha256Domain K.sha256 "VELD_FINALITY_PUBKEY_v1|" pubkeyHex

def snapshotRoot (entries : List SnapshotEntry) (epochId snapshotHeight totalWeight : Nat) :
    Hash256 :=
  sha256Domain K.sha256 "VELD_FINALITY_SNAPSHOT_v1|"
    (putLE 8 epochId ++ putLE 8 snapshotHeight ++ putLE 8 entries.length ++ putLE 8 totalWeight ++
      entries.flatMap fun e => e.pubkeyCommit.bytes ++ putLenPrefixed e.address ++
        putLE 8 e.registeredHeight ++ putLE 8 e.weight)

def entryWellFormed (e : SnapshotEntry) : Bool :=
  e.weight = bondPerKeyUnits && e.address ≠ [] && e.pubkeyHex.length = 2 * pubkeyBytes &&
    pubkeyCommit K e.pubkeyHex = e.pubkeyCommit

/-- `SnapshotWellFormed`. -/
def snapshotWellFormed (s : EpochSnapshot) : Bool :=
  s.entries.all (entryWellFormed K) &&
    decide (s.entries.IsChain fun a b => a.pubkeyCommit.bytes < b.pubkeyCommit.bytes) &&
    (s.entries.map SnapshotEntry.weight).sum % 2 ^ 64 = s.totalWeight &&
    snapshotRoot K s.entries s.epochId s.snapshotHeight s.totalWeight = s.root

/-- `SnapshotQualifies` of `consensus/finality_snapshot.h`. -/
def snapshotQualifies (s : EpochSnapshot) : Bool := snapshotWellFormed K s && s.qualified

/-- `SignerIndex`. -/
def signerIndex (s : EpochSnapshot) (commit : Hash256) : Option Nat :=
  let i := s.entries.findIdx fun e => ¬ e.pubkeyCommit.bytes < commit.bytes
  match s.entries[i]? with
  | some e => if e.pubkeyCommit = commit then some i else none
  | none => none

/-! ## Certificates -/

def votePreimage (epochId : Nat) (setRoot : Hash256) (phase : Phase) (round : Nat)
    (source target : CheckpointRef) : Bytes :=
  ascii "VELD_FINALITY_VOTE_v1|" ++ (putLE 4 K.networkId ++ (K.genesisHash.bytes ++
    (putLE 8 epochId ++ (setRoot.bytes ++ (putLE 1 phase.code ++ (putLE 4 round ++
      (putLE 8 source.height.toNat ++ (source.hash.bytes ++
        (putLE 8 target.height.toNat ++ target.hash.bytes)))))))))

def bitSet (bitmap : Bytes) (i : Nat) : Bool := (bitmap.getD (i / 8) 0).toNat.testBit (i % 8)

def EpochSnapshot.weightAt (s : EpochSnapshot) (i : Nat) : Nat := (s.entries[i]?.map (·.weight)).getD 0

def EpochSnapshot.signers (s : EpochSnapshot) (bitmap : Bytes) : Finset Nat :=
  (Finset.range s.entries.length).filter fun i => bitSet bitmap i

/-- `BitmapWeight`. A bit behind the end of the bitmap is not set. -/
def bitmapWeight (s : EpochSnapshot) (bitmap : Bytes) : Nat :=
  (∑ i ∈ s.signers bitmap, s.weightAt i) % 2 ^ 64

/-- No bit is set behind the last member. -/
def noExtraBits (s : EpochSnapshot) (bitmap : Bytes) : Bool :=
  (List.range (bitmap.length * 8)).all fun i => i < s.entries.length || !bitSet bitmap i

def hexToPublicKey (hex : Bytes) : Option Bytes :=
  if hex.length = 2 * pubkeyBytes then ofHex hex else none

def signatureValid (message : Bytes) (e : SnapshotEntry) (sig : Bytes) : Bool :=
  sig.length = sigMaxBytes && (hexToPublicKey e.pubkeyHex).any fun pk => K.verify pk message sig

/-- The signatures in the order of the set bits, from member `i` on: one for each and none left. -/
def checkSigs (message bitmap : Bytes) : Nat → List SnapshotEntry → List Bytes → Bool
  | _, [], sigs => sigs.isEmpty
  | i, e :: rest, sigs =>
    if bitSet bitmap i then
      match sigs with
      | [] => false
      | sig :: sigs => signatureValid K message e sig && checkSigs message bitmap (i + 1) rest sigs
    else checkSigs message bitmap (i + 1) rest sigs

def certMessage (qc : QuorumCert) (s : EpochSnapshot) : Bytes :=
  votePreimage K qc.epochId s.root qc.phase qc.round qc.source qc.target

/-- What `VerifyDecodedQc` checks of a certificate, with a bitmap of any length. -/
def certAccepted (qc : QuorumCert) (sigs : List Bytes) (s : EpochSnapshot) : Bool :=
  snapshotWellFormed K s && qc.epochId = s.epochId &&
    epochOf qc.target.height.toNat = qc.epochId &&
    qc.round = checkpointRound qc.target.height.toNat &&
    qc.bitmap.length = (s.entries.length + 7) / 8 &&
    isScheduledCheckpoint qc.target.height.toNat && sourceRefWellFormed qc.source qc.target &&
    noExtraBits s qc.bitmap &&
    checkSigs K (certMessage K qc s) qc.bitmap 0 s.entries sigs &&
    isSupermajority (bitmapWeight s qc.bitmap) s.totalWeight

/-- `VerifyDecodedQc`: the certificate with the root and the weight filled in. -/
def verifyDecodedQc (d : DecodedQc) (s : EpochSnapshot) : Option DecodedQc :=
  if certAccepted K d.qc d.sigs s then
    some { d with qc := { d.qc with setRoot := s.root, weight := bitmapWeight s d.qc.bitmap } }
  else none

def qcWellFormed (qc : QuorumCert) (s : EpochSnapshot) : Bool :=
  snapshotWellFormed K s && qc.epochId = s.epochId && qc.setRoot = s.root &&
    isScheduledCheckpoint qc.target.height.toNat && epochOf qc.target.height.toNat = qc.epochId &&
    qc.round = checkpointRound qc.target.height.toNat && sourceRefWellFormed qc.source qc.target &&
    qc.bitmap.length = (s.entries.length + 7) / 8 && noExtraBits s qc.bitmap &&
    bitmapWeight s qc.bitmap = qc.weight && isSupermajority qc.weight s.totalWeight

end

/-! ## What an accepted certificate says -/

section
variable {K : Context} {s : EpochSnapshot} {d e : DecodedQc}

/-- Everything `VerifyDecodedQc` has checked. -/
structure Verified (K : Context) (s : EpochSnapshot) (d : DecodedQc) : Prop where
  snapshot : snapshotWellFormed K s = true
  epoch : d.qc.epochId = s.epochId
  targetEpoch : epochOf d.qc.target.height.toNat = s.epochId
  round : d.qc.round = checkpointRound d.qc.target.height.toNat
  bitmapLength : d.qc.bitmap.length = (s.entries.length + 7) / 8
  scheduled : isScheduledCheckpoint d.qc.target.height.toNat = true
  source : sourceRefWellFormed d.qc.source d.qc.target = true
  sigs : checkSigs K (certMessage K d.qc s) d.qc.bitmap 0 s.entries d.sigs = true
  weight : isSupermajority (bitmapWeight s d.qc.bitmap) s.totalWeight = true

theorem verified_of_verifyDecodedQc (h : verifyDecodedQc K d s = some e) : Verified K s d := by
  unfold verifyDecodedQc at h
  split at h
  · rename_i hok
    simp only [certAccepted, Bool.and_eq_true, decide_eq_true_eq] at hok
    obtain ⟨⟨⟨⟨⟨⟨⟨⟨⟨hs, hepoch⟩, htarget⟩, hround⟩, hlen⟩, hscheduled⟩, hsource⟩, -⟩, hsigs⟩, hw⟩ := hok
    exact ⟨hs, hepoch, htarget.trans hepoch, hround, hlen, hscheduled, hsource, hsigs, hw⟩
  · cases h

theorem verifyDecodedQc_isSome (h : (verifyDecodedQc K d s).isSome) : verifyDecodedQc K d s =
      some { d with qc := { d.qc with setRoot := s.root, weight := bitmapWeight s d.qc.bitmap } } := by
  unfold verifyDecodedQc at h ⊢
  split
  · rfl
  · rename_i hno
    rw [if_neg hno] at h
    cases h

def sigIndex (bitmap : Bytes) (i : Nat) : Nat := (List.range i).countP (bitSet bitmap)

variable {member : SnapshotEntry}

theorem checkSigs_get {message bitmap : Bytes} {start : Nat} {entries : List SnapshotEntry}
    {sigs : List Bytes} (h : checkSigs K message bitmap start entries sigs) {j : Nat}
    (hmember : entries[j]? = some member) (hbit : bitSet bitmap (start + j)) :
    ∃ sig, sigs[(List.range j).countP fun m => bitSet bitmap (start + m)]? = some sig ∧
      signatureValid K message member sig = true := by
  induction entries generalizing start sigs j with
  | nil => cases hmember
  | cons first rest ih =>
    have hshift : ∀ j, start + (j + 1) = start + 1 + j := fun j => by omega
    have hcount : ∀ j, (List.range (j + 1)).countP (fun m => bitSet bitmap (start + m)) =
        (List.range j).countP (fun m => bitSet bitmap (start + 1 + m)) +
          if bitSet bitmap start then 1 else 0 := by
      intro j
      have hnext : (fun m => bitSet bitmap (start + m)) ∘ Nat.succ =
          fun m => bitSet bitmap (start + 1 + m) :=
        funext fun m => congrArg (bitSet bitmap) (hshift m)
      rw [range_succ_eq_map, countP_cons, countP_map, hnext]
      rfl
    unfold checkSigs at h
    cases j with
    | zero =>
      cases hmember
      rw [Nat.add_zero] at hbit
      rw [if_pos hbit] at h
      split at h
      · cases h
      · rw [Bool.and_eq_true] at h
        exact ⟨_, rfl, h.1⟩
    | succ j =>
      rw [hshift] at hbit
      rw [hcount]
      by_cases hfirst : bitSet bitmap start = true
      · rw [if_pos hfirst] at h ⊢
        split at h
        · cases h
        · rw [Bool.and_eq_true] at h
          exact ih h.2 hmember hbit
      · rw [if_neg hfirst] at h ⊢
        exact ih h hmember hbit

theorem Verified.signed (h : Verified K s d) {i : Nat} (hi : i ∈ s.signers d.qc.bitmap) :
    ∃ member sig, s.entries[i]? = some member ∧ d.sigs[sigIndex d.qc.bitmap i]? = some sig ∧
      signatureValid K (certMessage K d.qc s) member sig = true := by
  obtain ⟨hlt, hbit⟩ := Finset.mem_filter.mp hi
  have hmember := List.getElem?_eq_getElem (Finset.mem_range.mp hlt)
  have hget := checkSigs_get h.sigs hmember (by rwa [Nat.zero_add])
  simp only [Nat.zero_add] at hget
  obtain ⟨sig, hsig, hvalid⟩ := hget
  exact ⟨_, sig, hmember, hsig, hvalid⟩

section
variable (h : snapshotWellFormed K s)
include h

theorem entry_wellFormed {i : Nat} (hmember : s.entries[i]? = some member) :
    entryWellFormed K member := by
  simp only [snapshotWellFormed, Bool.and_eq_true] at h
  exact all_eq_true.mp h.1.1.1 member (mem_of_getElem? hmember)

theorem entry_weight {i : Nat} (hi : i < s.entries.length) : s.weightAt i = bondPerKeyUnits := by
  have hmember := List.getElem?_eq_getElem hi
  have hwf := entry_wellFormed h hmember
  simp only [entryWellFormed, Bool.and_eq_true, decide_eq_true_eq] at hwf
  simp [EpochSnapshot.weightAt, hmember, hwf.1.1.1]

theorem sum_weights_lt (hlen : s.entries.length < 2 ^ 20) {A : Finset Nat}
    (hA : A ⊆ Finset.range s.entries.length) : ∑ i ∈ A, s.weightAt i < 2 ^ 64 := by
  have hle : ∑ i ∈ A, s.weightAt i ≤ A.card * bondPerKeyUnits := by
    rw [← smul_eq_mul]
    exact Finset.sum_le_card_nsmul _ _ _ fun i hi =>
      (entry_weight h (Finset.mem_range.mp (hA hi))).le
  have hcard : A.card ≤ s.entries.length := by simpa using Finset.card_le_card hA
  have hbound : A.card * bondPerKeyUnits ≤ 2 ^ 20 * bondPerKeyUnits :=
    Nat.mul_le_mul_right _ (hcard.trans hlen.le)
  exact lt_of_le_of_lt (hle.trans hbound) (by decide)

theorem totalWeight_eq (hlen : s.entries.length < 2 ^ 20) :
    s.totalWeight = ∑ i ∈ Finset.range s.entries.length, s.weightAt i := by
  have hsum : ∑ i ∈ Finset.range s.entries.length, s.weightAt i =
      (s.entries.map SnapshotEntry.weight).sum := by
    rw [Finset.sum_range, ← sum_ofFn]
    congr 1
    refine ext_getElem (by simp) fun i _ _ => ?_
    simp [EpochSnapshot.weightAt]
  rw [hsum]
  have hlt := sum_weights_lt h hlen (Finset.Subset.refl _)
  rw [hsum] at hlt
  simp only [snapshotWellFormed, Bool.and_eq_true, decide_eq_true_eq] at h
  rw [← h.1.2, Nat.mod_eq_of_lt hlt]

end

theorem Verified.length_lt (h : Verified K s d) : s.entries.length < 2 ^ 20 := by
  have hbitmap := d.bitmap_length
  have hlen := h.bitmapLength
  omega

theorem Verified.supermajority (h : Verified K s d) :
    Quorum.Supermajority (Finset.range s.entries.length) s.weightAt (s.signers d.qc.bitmap) := by
  have hsub : s.signers d.qc.bitmap ⊆ Finset.range s.entries.length := Finset.filter_subset _ _
  have hw := h.weight
  simp only [isSupermajority, bitmapWeight, Bool.and_eq_true, decide_eq_true_eq,
    Nat.mod_eq_of_lt (sum_weights_lt h.snapshot h.length_lt hsub),
    totalWeight_eq h.snapshot h.length_lt] at hw
  refine ⟨hsub, ?_⟩
  have hlt := hw.2
  omega

theorem Verified.height_eq {d' : DecodedQc} (h : Verified K s d) (h' : Verified K s d')
    (hround : d.qc.round = d'.qc.round) : d.qc.target.height = d'.qc.target.height := by
  refine UInt64.toNat_inj.mp (checkpoint_unique h.scheduled h'.scheduled ?_ ?_)
  · rw [h.targetEpoch, h'.targetEpoch]
  · rw [← h.round, ← h'.round, hround]

end

end Veld.Finality
