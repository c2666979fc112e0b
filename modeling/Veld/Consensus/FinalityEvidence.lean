import Veld.Consensus.FinalityQc

/-!
# Votes and evidence of equivocation

`consensus/finality_votes.h` and `consensus/finality_equivocation.h`: authentication of a vote against
the snapshot, and the validation of a pair of votes as evidence against their signer.
-/

namespace Veld.Finality

open Wire List

structure SignedVote where
  epochId : Nat
  setRoot : Hash256
  phase : Phase
  round : Nat
  source : CheckpointRef
  target : CheckpointRef
  pubkeyHex : Bytes
  signature : Bytes
  deriving DecidableEq

/-- The capability that `AuthenticateVote` hands out. -/
structure AuthenticatedVote where
  vote : SignedVote
  snapshotEpoch : Nat
  snapshotRoot : Hash256
  memberCommit : Hash256

structure EquivocationEvidence where
  first : SignedVote
  second : SignedVote
  id : Hash256
  signerCommit : Hash256

def voteClaimWellFormed (v : SignedVote) (snapshotEpoch : Nat) (snapshotRoot : Hash256) : Bool :=
  v.epochId = snapshotEpoch && v.setRoot = snapshotRoot &&
    isScheduledCheckpoint v.target.height.toNat && epochOf v.target.height.toNat = v.epochId &&
    v.round = checkpointRound v.target.height.toNat && sourceRefWellFormed v.source v.target &&
    v.signature.length = sigMaxBytes

/-- `FromHexBytes`: lower-case digits only. -/
def fromHexBytes (hex : Bytes) : Option Bytes := if hex.all isLowerHex then ofHex hex else none

/-- A public key in the spelling of the snapshots. -/
def canonicalPubkey (hex : Bytes) : Bool :=
  hex.length = 2 * pubkeyBytes && (fromHexBytes hex).any fun key => key.length = pubkeyBytes

section
variable (K : Context)

def voteMessage (v : SignedVote) : Bytes :=
  votePreimage K v.epochId v.setRoot v.phase v.round v.source v.target

def authenticateVoteForMember (v : SignedVote) (snapshotEpoch : Nat) (snapshotRoot : Hash256)
    (member : SnapshotEntry) : Option AuthenticatedVote :=
  if voteClaimWellFormed v snapshotEpoch snapshotRoot &&
      pubkeyCommit K v.pubkeyHex = member.pubkeyCommit && v.pubkeyHex = member.pubkeyHex &&
      (hexToPublicKey v.pubkeyHex).any fun pk => K.verify pk (voteMessage K v) v.signature then
    some ⟨v, snapshotEpoch, snapshotRoot, pubkeyCommit K v.pubkeyHex⟩
  else none

def authenticateVote (v : SignedVote) (s : EpochSnapshot) : Option AuthenticatedVote := do
  guard (voteClaimWellFormed v s.epochId s.root = true)
  let i ← signerIndex s (pubkeyCommit K v.pubkeyHex)
  let member ← s.entries[i]?
  authenticateVoteForMember K v s.epochId s.root member

def verifyVote (v : SignedVote) (s : EpochSnapshot) : Bool := (authenticateVote K v s).isSome

end

/-- `EncodeSignedVoteWire`. -/
def encodeSignedVoteWire (v : SignedVote) : Bytes :=
  match hexToPublicKey v.pubkeyHex with
  | none => []
  | some pk =>
    if v.signature.length = sigMaxBytes then
      ascii "FVT1" ++ (putLE 8 v.epochId ++ (v.setRoot.bytes ++ (putLE 1 v.phase.code ++
        (putLE 4 v.round ++ (putLE 8 v.source.height.toNat ++ (v.source.hash.bytes ++
          (putLE 8 v.target.height.toNat ++ (v.target.hash.bytes ++ (pk ++ v.signature)))))))))
    else []

/-- `wire::SIGNED_VOTE_BYTES`. -/
def signedVoteWireBytes : Nat := 4 + 8 + 32 + 1 + 4 + 8 + 32 + 8 + 32 + pubkeyBytes + sigMaxBytes

def equivocationClaimsWellFormed (a b : SignedVote) (canonicalTipHeight : Nat) : Bool :=
  a.pubkeyHex = b.pubkeyHex && a.epochId = b.epochId && a.setRoot = b.setRoot && a.phase = b.phase &&
    a.round = b.round && canonicalPubkey a.pubkeyHex && a.target.height = b.target.height &&
    a.target.hash ≠ b.target.hash && voteClaimWellFormed a a.epochId a.setRoot &&
    voteClaimWellFormed b b.epochId b.setRoot && a.target.height.toNat ≤ canonicalTipHeight &&
    b.target.height.toNat ≤ canonicalTipHeight && a.signature ≠ b.signature

section
variable (K : Context)

/-- `MakeCanonical`: the vote with the smaller target hash comes first. -/
def makeCanonical (a b : SignedVote) : Option EquivocationEvidence :=
  let (first, second) := if b.target.hash.bytes < a.target.hash.bytes then (b, a) else (a, b)
  let firstWire := encodeSignedVoteWire first
  let secondWire := encodeSignedVoteWire second
  if firstWire.length = signedVoteWireBytes ∧ secondWire.length = signedVoteWireBytes then
    some ⟨first, second,
      sha256Domain K.sha256 "VELD_FINALITY_EQUIVOCATION_PAIR_v1|" (firstWire ++ secondWire),
      pubkeyCommit K a.pubkeyHex⟩
  else none

def validateAuthenticatedEquivocationPair (a b : AuthenticatedVote) (canonicalTipHeight : Nat) :
    Option EquivocationEvidence :=
  if a.snapshotEpoch = b.snapshotEpoch ∧ a.snapshotRoot = b.snapshotRoot ∧
      a.memberCommit = b.memberCommit ∧ a.snapshotEpoch = a.vote.epochId ∧
      b.snapshotEpoch = b.vote.epochId ∧ a.snapshotRoot = a.vote.setRoot ∧
      b.snapshotRoot = b.vote.setRoot ∧ a.memberCommit = pubkeyCommit K a.vote.pubkeyHex ∧
      b.memberCommit = pubkeyCommit K b.vote.pubkeyHex ∧
      equivocationClaimsWellFormed a.vote b.vote canonicalTipHeight = true then
    makeCanonical K a.vote b.vote
  else none

def validateEquivocationPair (a b : SignedVote) (retainedSnapshot : EpochSnapshot)
    (canonicalTipHeight : Nat) : Option EquivocationEvidence := do
  guard (equivocationClaimsWellFormed a b canonicalTipHeight ∧
    snapshotWellFormed K retainedSnapshot = true)
  let authenticatedA ← authenticateVote K a retainedSnapshot
  let authenticatedB ← authenticateVote K b retainedSnapshot
  validateAuthenticatedEquivocationPair K authenticatedA authenticatedB canonicalTipHeight

end

/-- The claim of a certificate with a key and a signature. -/
def QuorumCert.vote (qc : QuorumCert) (s : EpochSnapshot) (pubkeyHex signature : Bytes) : SignedVote :=
  ⟨qc.epochId, s.root, qc.phase, qc.round, qc.source, qc.target, pubkeyHex, signature⟩

def DecodedQc.voteAt (d : DecodedQc) (s : EpochSnapshot) (i : Nat) : Option SignedVote := do
  let member ← s.entries[i]?
  let sig ← d.sigs[sigIndex d.qc.bitmap i]?
  return d.qc.vote s member.pubkeyHex sig

/-- Votes with different contents have different signatures. -/
def Context.Binding (K : Context) : Prop :=
  ∀ pk message message' sig, K.verify pk message sig → K.verify pk message' sig →
    message = message'

/-! ## Members and their votes -/

section
variable {K : Context} {s : EpochSnapshot} {d : DecodedQc} {i : Nat} {member : SnapshotEntry}

theorem votePreimage_inj {epoch epoch' round round' : Nat} {root root' : Hash256}
    {phase phase' : Phase} {source source' target target' : CheckpointRef}
    (h : votePreimage K epoch root phase round source target =
      votePreimage K epoch' root' phase' round' source' target') :
    root = root' ∧ phase = phase' ∧ source = source' ∧ target = target' := by
  have hheight {a b : UInt64} (hab : putLE 8 a.toNat = putLE 8 b.toNat) : a = b := by
    have := congrArg getLE hab
    rw [getLE_putLE a.toNat_lt, getLE_putLE b.toNat_lt] at this
    exact UInt64.toNat_inj.mp this
  unfold votePreimage at h
  obtain ⟨-, h⟩ := append_inj h rfl
  obtain ⟨-, h⟩ := append_inj h (by simp)
  obtain ⟨-, h⟩ := append_inj h rfl
  obtain ⟨-, h⟩ := append_inj h (by simp)
  obtain ⟨hroot, h⟩ := append_inj h (by rw [root.size, root'.size])
  obtain ⟨hphase, h⟩ := append_inj h (by simp)
  obtain ⟨-, h⟩ := append_inj h (by simp)
  obtain ⟨hsh, h⟩ := append_inj h (by simp)
  obtain ⟨hshash, h⟩ := append_inj h (by rw [source.hash.size, source'.hash.size])
  obtain ⟨hth, hthash⟩ := append_inj h (by simp)
  have hp : phase = phase' := by
    cases phase <;> cases phase' <;> first | rfl | (exact absurd hphase (by decide))
  cases source
  cases source'
  cases target
  cases target'
  refine ⟨Hash256.ext_bytes hroot, hp, ?_, ?_⟩
  · rw [CheckpointRef.mk.injEq]
    exact ⟨hheight hsh, Hash256.ext_bytes hshash⟩
  · rw [CheckpointRef.mk.injEq]
    exact ⟨hheight hth, Hash256.ext_bytes hthash⟩

theorem signerIndex_entry (h : snapshotWellFormed K s) (hmember : s.entries[i]? = some member) :
    signerIndex s member.pubkeyCommit = some i := by
  obtain ⟨hi, hget⟩ := List.getElem?_eq_some_iff.mp hmember
  simp only [snapshotWellFormed, Bool.and_eq_true, decide_eq_true_eq] at h
  have hchain : (s.entries.map fun e => e.pubkeyCommit.bytes).IsChain (· < ·) :=
    (isChain_map _).mpr h.1.1.2
  have hpair := (isChain_iff_pairwise.mp hchain)
  have hfind : (s.entries.findIdx fun e => ¬ e.pubkeyCommit.bytes < member.pubkeyCommit.bytes) = i := by
    rw [findIdx_eq hi]
    refine ⟨by simp [hget], fun j hj => ?_⟩
    have hlt := pairwise_iff_getElem.mp hpair j i (by simpa using hj.trans hi)
      (by simpa using hi) hj
    simp only [getElem_map, hget] at hlt
    simpa using hlt
  simp only [signerIndex, hfind, hmember, if_true]

theorem Verified.voteAt (h : Verified K s d) (hi : i ∈ s.signers d.qc.bitmap) :
    ∃ member sig, s.entries[i]? = some member ∧ d.voteAt s i = some (d.qc.vote s member.pubkeyHex sig) ∧
      signatureValid K (certMessage K d.qc s) member sig = true := by
  obtain ⟨member, sig, hmember, hsig, hvalid⟩ := h.signed hi
  exact ⟨member, sig, hmember, by simp [DecodedQc.voteAt, hmember, hsig], hvalid⟩

variable {message sig : Bytes}

theorem signatureValid_iff :
    signatureValid K message member sig ↔ sig.length = sigMaxBytes ∧
      ∃ pk, hexToPublicKey member.pubkeyHex = some pk ∧ K.verify pk message sig := by
  simp [signatureValid, Option.any_eq_true]

theorem entry_commit (h : snapshotWellFormed K s) (hmember : s.entries[i]? = some member) :
    pubkeyCommit K member.pubkeyHex = member.pubkeyCommit := by
  have hwf := entry_wellFormed h hmember
  simp only [entryWellFormed, Bool.and_eq_true, decide_eq_true_eq] at hwf
  exact hwf.2

theorem hexToPublicKey_length {hex pk : Bytes} (h : hexToPublicKey hex = some pk) :
    hex.length = 2 * pubkeyBytes ∧ pk.length = pubkeyBytes := by
  unfold hexToPublicKey at h
  split at h
  · rename_i hlen
    have := ofHex_length h
    exact ⟨hlen, by omega⟩
  · cases h

theorem encodeSignedVoteWire_length {v : SignedVote} {pk : Bytes}
    (hpk : hexToPublicKey v.pubkeyHex = some pk) (hsig : v.signature.length = sigMaxBytes) :
    (encodeSignedVoteWire v).length = signedVoteWireBytes := by
  rw [encodeSignedVoteWire, hpk]
  simp only [if_pos hsig]
  simp only [length_append, putLE_length, Hash256.size, (hexToPublicKey_length hpk).2, hsig,
    signedVoteWireBytes]
  rfl

section
variable {sig : Bytes} (h : Verified K s d) (hmember : s.entries[i]? = some member)
  (hvalid : signatureValid K (certMessage K d.qc s) member sig)
include h hvalid

theorem Verified.claim : voteClaimWellFormed (d.qc.vote s member.pubkeyHex sig) s.epochId s.root := by
  have hsig := (signatureValid_iff.mp hvalid).1
  simp [voteClaimWellFormed, QuorumCert.vote, h.epoch, h.targetEpoch, h.scheduled, h.round, h.source, hsig]

include hmember

theorem Verified.authenticates :
    authenticateVote K (d.qc.vote s member.pubkeyHex sig) s =
      some ⟨d.qc.vote s member.pubkeyHex sig, s.epochId, s.root, member.pubkeyCommit⟩ := by
  have hcommit := entry_commit h.snapshot hmember
  obtain ⟨-, pk, hpk, hverify⟩ := signatureValid_iff.mp hvalid
  have hclaim := h.claim hvalid
  have hpub : (d.qc.vote s member.pubkeyHex sig).pubkeyHex = member.pubkeyHex := rfl
  have hmessage : voteMessage K (d.qc.vote s member.pubkeyHex sig) = certMessage K d.qc s := rfl
  have hsignature : (d.qc.vote s member.pubkeyHex sig).signature = sig := rfl
  simp [authenticateVote, authenticateVoteForMember, hclaim, hpub, hcommit,
    signerIndex_entry h.snapshot hmember, hmember, hpk, hmessage, hsignature, hverify]

end

theorem wire_length_of_valid (hvalid : signatureValid K message member sig) :
    (encodeSignedVoteWire (d.qc.vote s member.pubkeyHex sig)).length = signedVoteWireBytes := by
  obtain ⟨hsig, pk, hpk, -⟩ := signatureValid_iff.mp hvalid
  exact encodeSignedVoteWire_length hpk hsig

theorem canonicalPubkey_of_valid (hvalid : signatureValid K message member sig)
    (hlower : member.pubkeyHex.all isLowerHex) :
    canonicalPubkey member.pubkeyHex := by
  obtain ⟨-, pk, hpk, -⟩ := signatureValid_iff.mp hvalid
  obtain ⟨hlen, hpklen⟩ := hexToPublicKey_length hpk
  rw [hexToPublicKey, if_pos hlen] at hpk
  simp [canonicalPubkey, fromHexBytes, hlower, hlen, hpk, hpklen]

end

/-! ## Accountability -/

def EpochSnapshot.LowerCase (s : EpochSnapshot) : Prop := ∀ e ∈ s.entries, e.pubkeyHex.all isLowerHex

section
variable {K : Context} {s : EpochSnapshot} {d d' e e' : DecodedQc}

theorem Verified.evidence (hbind : K.Binding) (hlower : s.LowerCase) (h : Verified K s d)
    (h' : Verified K s d') (hphase : d.qc.phase = d'.qc.phase) (hround : d.qc.round = d'.qc.round)
    (htarget : d.qc.target ≠ d'.qc.target) {i tip : Nat} (hi : i ∈ s.signers d.qc.bitmap)
    (hi' : i ∈ s.signers d'.qc.bitmap) (htip : d.qc.target.height.toNat ≤ tip) :
    ∃ a b, d.voteAt s i = some a ∧ d'.voteAt s i = some b ∧
      (validateEquivocationPair K a b s tip).isSome = true := by
  obtain ⟨member, sig, hmember, hvote, hvalid⟩ := h.voteAt hi
  obtain ⟨member', sig', hmember', hvote', hvalid'⟩ := h'.voteAt hi'
  obtain rfl : member = member' := Option.some.inj (hmember.symm.trans hmember')
  refine ⟨_, _, hvote, hvote', ?_⟩
  have hheight := h.height_eq h' hround
  have hhash : d.qc.target.hash ≠ d'.qc.target.hash := fun heq =>
    htarget (by cases hd : d.qc.target; cases hd' : d'.qc.target; simp_all)
  have hsig : sig ≠ sig' := by
    rintro rfl
    obtain ⟨-, pk, hpk, hverify⟩ := signatureValid_iff.mp hvalid
    obtain ⟨-, pk', hpk', hverify'⟩ := signatureValid_iff.mp hvalid'
    obtain rfl : pk = pk' := Option.some.inj (hpk.symm.trans hpk')
    exact htarget (votePreimage_inj (hbind _ _ _ _ hverify hverify')).2.2.2
  have hclaims : equivocationClaimsWellFormed (d.qc.vote s member.pubkeyHex sig)
      (d'.qc.vote s member.pubkeyHex sig') tip = true := by
    have hkey := canonicalPubkey_of_valid hvalid (hlower member (mem_of_getElem? hmember))
    have hclaim := h.claim hvalid
    have hclaim' := h'.claim hvalid'
    rw [← h.epoch] at hclaim
    rw [← h'.epoch] at hclaim'
    simp only [equivocationClaimsWellFormed, Bool.and_eq_true, decide_eq_true_eq]
    exact ⟨⟨⟨⟨⟨⟨⟨⟨⟨⟨⟨⟨rfl, h.epoch.trans h'.epoch.symm⟩, rfl⟩, hphase⟩, hround⟩, hkey⟩, hheight⟩, hhash⟩,
      hclaim⟩, hclaim'⟩, htip⟩, hheight ▸ htip⟩, hsig⟩
  have hcommit := entry_commit h.snapshot hmember
  have hmake : (makeCanonical K (d.qc.vote s member.pubkeyHex sig)
      (d'.qc.vote s member.pubkeyHex sig')).isSome = true := by
    unfold makeCanonical
    split
    rename_i first second hpair
    split at hpair <;> cases hpair <;>
      simp only [wire_length_of_valid hvalid, wire_length_of_valid hvalid', and_self, if_true,
        Option.isSome_some]
  have hguard := And.intro hclaims h.snapshot
  simp only [validateEquivocationPair, guard_pos hguard, h.authenticates hmember hvalid,
    h'.authenticates hmember hvalid', some_bind]
  unfold validateAuthenticatedEquivocationPair
  rw [if_pos ⟨rfl, rfl, rfl, h.epoch.symm, h'.epoch.symm, rfl, rfl, hcommit.symm, hcommit.symm, hclaims⟩]
  exact hmake

/-- Finality is accountable: the members of both of two conflicting certificates hold more than one
third of the weight, and the votes that the certificates carry convict each of them. -/
theorem finality_accountable (hbind : K.Binding) (hlower : s.LowerCase)
    (h : verifyDecodedQc K d s = some e) (h' : verifyDecodedQc K d' s = some e')
    (hphase : d.qc.phase = d'.qc.phase) (hround : d.qc.round = d'.qc.round)
    (htarget : d.qc.target ≠ d'.qc.target) :
    s.totalWeight < 3 * ∑ i ∈ s.signers d.qc.bitmap ∩ s.signers d'.qc.bitmap, s.weightAt i ∧
    ∀ i ∈ s.signers d.qc.bitmap ∩ s.signers d'.qc.bitmap, ∀ tip, d.qc.target.height.toNat ≤ tip →
      ∃ a b, d.voteAt s i = some a ∧ d'.voteAt s i = some b ∧
        (validateEquivocationPair K a b s tip).isSome = true := by
  have hv := verified_of_verifyDecodedQc h
  have hv' := verified_of_verifyDecodedQc h'
  refine ⟨?_, fun i hi tip htip => ?_⟩
  · rw [totalWeight_eq hv.snapshot hv.length_lt]
    exact hv.supermajority.third_lt_inter hv'.supermajority
  · obtain ⟨hmem, hmem'⟩ := Finset.mem_inter.mp hi
    exact hv.evidence hbind hlower hv' hphase hround htarget hmem hmem' htip

end

/-! A validator that signs two targets. Its signature is the message, filled up. -/

def fillSignature (message : Bytes) : Bytes := message ++ List.replicate (sigMaxBytes - 183) 0

def soloContext : Context where
  sha256 _ := .zero
  verify _ message sig := message.length = 183 && sig = fillSignature message
  networkId := 0x54
  genesisHash := .zero

def soloSnapshot : EpochSnapshot where
  epochId := 1
  snapshotHeight := 479
  entries := [⟨.zero, [86], 0, bondPerKeyUnits, List.replicate (2 * pubkeyBytes) 48⟩]
  totalWeight := bondPerKeyUnits
  root := .zero

def soloCert (hash : Hash256) : QuorumCert where
  epochId := 1
  setRoot := .zero
  phase := .prevote
  round := 1
  source := CheckpointRef.null
  target := ⟨500, hash⟩
  bitmap := [1]
  weight := 0

theorem bitmap_fits : 1 < 2 ^ 16 := by decide

theorem soloContext_binding : soloContext.Binding := by
  intro pk message message' sig h h'
  simp only [soloContext, Bool.and_eq_true, decide_eq_true_eq] at h h'
  exact (append_inj (h.2.symm.trans h'.2) (h.1.trans h'.1.symm)).1

/-! Seven members of one weight, of which five sign a certificate. -/

def sevenContext : Context where
  sha256 bytes := ⟨List.replicate 31 0 ++ [bytes.getLastD 0], rfl⟩
  verify := soloContext.verify
  networkId := 0x54
  genesisHash := .zero

def sevenMember (i : Nat) : SnapshotEntry where
  pubkeyCommit := ⟨List.replicate 31 0 ++ [UInt8.ofNat (49 + i)], rfl⟩
  address := [86]
  registeredHeight := 0
  weight := bondPerKeyUnits
  pubkeyHex := List.replicate (2 * pubkeyBytes - 1) 48 ++ [UInt8.ofNat (49 + i)]

def sevenSnapshot : EpochSnapshot where
  epochId := 1
  snapshotHeight := 479
  entries := (List.range 7).map sevenMember
  totalWeight := 7 * bondPerKeyUnits
  root := .zero

def sevenTarget : CheckpointRef := ⟨500, .zero⟩

def sevenCert (phase : Phase) : QuorumCert where
  epochId := 1
  setRoot := .zero
  phase := phase
  round := 1
  source := CheckpointRef.null
  target := sevenTarget
  bitmap := [31]
  weight := 0

/-- The certificate with the signatures of five members. -/
def sevenSigned (qc : QuorumCert) (signers : UInt8) : DecodedQc where
  qc := { qc with bitmap := [signers] }
  sigs := List.replicate 5 (fillSignature (certMessage sevenContext qc sevenSnapshot))
  bitmap_length := bitmap_fits

/-- Another block at the height of the target, signed by the last five. -/
def sevenConflict : DecodedQc := sevenSigned { sevenCert .precommit with target := ⟨500, .fill 1⟩ } 124

theorem sevenSigned_verified :
    (verifyDecodedQc sevenContext (sevenSigned (sevenCert .prevote) 31) sevenSnapshot).isSome ∧
    (verifyDecodedQc sevenContext (sevenSigned (sevenCert .precommit) 31) sevenSnapshot).isSome ∧
    (verifyDecodedQc sevenContext (sevenSigned (sevenCert .precommit) 62) sevenSnapshot).isSome ∧
    (verifyDecodedQc sevenContext sevenConflict sevenSnapshot).isSome := by
  decide +kernel

/-- The three members between the two certificates hold three sevenths of the weight, and each is convicted. -/
theorem finality_accountable_seven :
    sevenSnapshot.totalWeight < 3 * ∑ i ∈ sevenSnapshot.signers [31] ∩ sevenSnapshot.signers [124],
      sevenSnapshot.weightAt i ∧
    ∃ a b, (sevenSigned (sevenCert .precommit) 31).voteAt sevenSnapshot 2 = some a ∧
      sevenConflict.voteAt sevenSnapshot 2 = some b ∧
      (validateEquivocationPair sevenContext a b sevenSnapshot 500).isSome = true := by
  obtain ⟨-, hfirst, -, hconflict⟩ := sevenSigned_verified
  obtain ⟨e, he⟩ := Option.isSome_iff_exists.mp hfirst
  obtain ⟨e', he'⟩ := Option.isSome_iff_exists.mp hconflict
  have hlower : sevenSnapshot.LowerCase := by
    unfold EpochSnapshot.LowerCase
    decide +kernel
  have hbind : sevenContext.Binding := soloContext_binding
  obtain ⟨hweight, hconvicts⟩ := finality_accountable hbind hlower he he' rfl rfl (by decide)
  exact ⟨hweight, hconvicts 2 (by decide) 500 (by decide)⟩

end Veld.Finality
