import Veld.Consensus.Validators

/-!
# From detected equivocation to the slash

A pair of votes passes through three pieces of code: the detector validates it, `BuildSlashEquivOp` writes it
out, and the registry reads and judges the text again.
-/

namespace Veld.Validators

open Wire Finality List

/-! ## What the detector has checked -/

/-- Two votes of one key that convict it. -/
structure Convicts (K : Context) (x y : SignedVote) : Prop where
  pubkey : x.pubkeyHex = y.pubkeyHex
  epoch : x.epochId = y.epochId
  root : x.setRoot = y.setRoot
  phase : x.phase = y.phase
  round : x.round = y.round
  canonical : canonicalPubkey x.pubkeyHex = true
  height : x.target.height = y.target.height
  hash : x.target.hash ≠ y.target.hash
  claim : voteClaimWellFormed x x.epochId x.setRoot = true
  claim' : voteClaimWellFormed y y.epochId y.setRoot = true
  signature : x.signature ≠ y.signature
  signed : ((hexToPublicKey x.pubkeyHex).any fun pk => K.verify pk (voteMessage K x) x.signature) = true
  signed' : ((hexToPublicKey y.pubkeyHex).any fun pk => K.verify pk (voteMessage K y) y.signature) = true

section
variable {K : Context} {a b x y : SignedVote} {retained : EpochSnapshot} {tip : Nat}
  {e : EquivocationEvidence}

theorem Convicts.symm (h : Convicts K x y) : Convicts K y x where
  pubkey := h.pubkey.symm
  epoch := h.epoch.symm
  root := h.root.symm
  phase := h.phase.symm
  round := h.round.symm
  canonical := h.pubkey ▸ h.canonical
  height := h.height.symm
  hash := h.hash.symm
  claim := h.claim'
  claim' := h.claim
  signature := h.signature.symm
  signed := h.signed'
  signed' := h.signed

theorem authenticateVote_eq_some {auth : AuthenticatedVote} (h : authenticateVote K a retained = some auth) :
    auth.vote = a ∧
      ((hexToPublicKey a.pubkeyHex).any fun pk => K.verify pk (voteMessage K a) a.signature) = true := by
  simp only [authenticateVote, bind_eq_some] at h
  obtain ⟨-, -, i, -, member, -, hauth⟩ := h
  unfold authenticateVoteForMember at hauth
  split_ifs at hauth with hok
  cases hauth
  rw [Bool.and_eq_true] at hok
  exact ⟨rfl, hok.2⟩

theorem makeCanonical_eq_some (h : makeCanonical K a b = some e) :
    (e.first = a ∧ e.second = b) ∨ (e.first = b ∧ e.second = a) := by
  unfold makeCanonical at h
  split at h
  rename_i first second hpair
  dsimp only at h
  split at h
  · cases h
    split at hpair <;> cases hpair
    · exact .inr ⟨rfl, rfl⟩
    · exact .inl ⟨rfl, rfl⟩
  · cases h

theorem convicts_of_validateEquivocationPair (h : validateEquivocationPair K a b retained tip = some e) :
    Convicts K e.first e.second := by
  simp only [validateEquivocationPair, bind_eq_some, Option.guard_eq_some', exists_const] at h
  obtain ⟨⟨hclaims, -⟩, authA, hA, authB, hB, hpair⟩ := h
  obtain ⟨hvoteA, hsignedA⟩ := authenticateVote_eq_some hA
  obtain ⟨hvoteB, hsignedB⟩ := authenticateVote_eq_some hB
  have hmake : makeCanonical K a b = some e := by
    unfold validateAuthenticatedEquivocationPair at hpair
    split_ifs at hpair
    rwa [hvoteA, hvoteB] at hpair
  simp only [equivocationClaimsWellFormed, Bool.and_eq_true, decide_eq_true_eq] at hclaims
  obtain ⟨⟨⟨⟨⟨⟨⟨⟨⟨⟨⟨⟨hpub, hepoch⟩, hroot⟩, hphase⟩, hround⟩, hcanonical⟩, hheight⟩, hhash⟩, hclaimA⟩,
    hclaimB⟩, -⟩, -⟩, hsig⟩ := hclaims
  have hab : Convicts K a b :=
    ⟨hpub, hepoch, hroot, hphase, hround, hcanonical, hheight, hhash, hclaimA, hclaimB, hsig, hsignedA,
      hsignedB⟩
  obtain ⟨hfirst, hsecond⟩ | ⟨hfirst, hsecond⟩ := makeCanonical_eq_some hmake
  · rw [hfirst, hsecond]
    exact hab
  · rw [hfirst, hsecond]
    exact hab.symm

end

/-! ## The text -/

theorem readHashHex_toHex (h : Hash256) : readHashHex h.toHex = some h := by
  have htext : isLowerHexText 64 (toHex h.bytes) := isLowerHexText_toHex (by rw [h.size])
  have hof : Hash256.ofBytes? h.bytes = some h := dif_pos h.size
  rw [readHashHex, Hash256.toHex, if_pos htext, ofHex_toHex, Option.bind_some, hof]

theorem readCheckpoint_write (c : CheckpointRef) :
    readCheckpoint (toDecimal c.height.toNat) c.hash.toHex = some c := by
  have hlt := c.height.toNat_lt
  have hle : c.height.toNat ≤ uint64Max := by
    unfold uint64Max
    omega
  simp only [readCheckpoint, readDecimal_toDecimal hle, readHashHex_toHex, some_bind,
    UInt64.ofNat_toNat]
  rfl

theorem readPhase_write (p : Phase) : readPhase (toDecimal p.code) = some p := by
  cases p <;> decide

theorem readSignature_write {sig : Bytes} (h : sig.length = sigMaxBytes) :
    readSignature (toHex sig) = some sig := by
  have htext : isLowerHexText (2 * sigMaxBytes) (toHex sig) := isLowerHexText_toHex (by rw [h])
  rw [readSignature, if_pos htext, ofHex_toHex]

def equivFields (x y : SignedVote) : List Bytes :=
  [ascii "SLASH_EQUIV", x.pubkeyHex, toDecimal x.epochId, x.setRoot.toHex, toDecimal x.phase.code,
    toDecimal x.round, toDecimal x.source.height.toNat, x.source.hash.toHex,
    toDecimal x.target.height.toNat, x.target.hash.toHex, toHex x.signature,
    toDecimal y.source.height.toNat, y.source.hash.toHex, toDecimal y.target.height.toNat,
    y.target.hash.toHex, toHex y.signature, ascii "v1"]

section
variable {K : Context} {x y : SignedVote} (h : Convicts K x y)
include h

theorem Convicts.lowerHex : isLowerHexText (2 * pubkeyBytes) x.pubkeyHex := by
  have hkey := h.canonical
  simp only [canonicalPubkey, fromHexBytes, Bool.and_eq_true, decide_eq_true_eq] at hkey
  rw [isLowerHexText, Bool.and_eq_true, beq_iff_eq]
  refine ⟨hkey.1, ?_⟩
  by_contra hnot
  rw [if_neg hnot] at hkey
  exact absurd hkey.2 (by simp)

theorem Convicts.claim_parts : isScheduledCheckpoint x.target.height.toNat ∧
    epochOf x.target.height.toNat = x.epochId ∧ x.round = checkpointRound x.target.height.toNat ∧
    sourceRefWellFormed x.source x.target ∧ x.signature.length = sigMaxBytes := by
  have hclaim := h.claim
  simp only [voteClaimWellFormed, Bool.and_eq_true, decide_eq_true_eq] at hclaim
  obtain ⟨⟨⟨⟨⟨⟨-, -⟩, hscheduled⟩, hepoch⟩, hround⟩, hsource⟩, hsig⟩ := hclaim
  exact ⟨hscheduled, hepoch, hround, hsource, hsig⟩

theorem Convicts.epoch_le : x.epochId ≤ uint64Max := by
  obtain ⟨-, hepoch, -⟩ := h.claim_parts
  have hlt := x.target.height.toNat_lt
  rw [← hepoch]
  unfold epochOf epochBlocks uint64Max
  omega

theorem Convicts.round_le : x.round ≤ uint32Max := by
  obtain ⟨-, -, hround, -⟩ := h.claim_parts
  rw [hround]
  unfold checkpointRound epochBlocks checkpointInterval uint32Max
  omega

theorem Convicts.readEquivocation : readEquivocation (equivFields x y) = some (x, y) := by
  have hround64 : x.round ≤ uint64Max := h.round_le.trans (by decide)
  have hguard : x.round ≤ uint32Max ∧ ascii "v1" = ascii "v1" ∧
      isLowerHexText (2 * pubkeyBytes) x.pubkeyHex = true := ⟨h.round_le, rfl, h.lowerHex⟩
  obtain ⟨-, -, -, -, hsig⟩ := h.claim_parts
  obtain ⟨-, -, -, -, hsig'⟩ := h.symm.claim_parts
  unfold Validators.readEquivocation equivFields
  refine bind_step (readDecimal_toDecimal h.epoch_le) ?_
  refine bind_step (readPhase_write _) ?_
  refine bind_step (readDecimal_toDecimal hround64) ?_
  refine bind_step (guard_pos hguard) ?_
  refine bind_step (readHashHex_toHex _) ?_
  refine bind_step (readCheckpoint_write _) ?_
  refine bind_step (readCheckpoint_write _) ?_
  refine bind_step (readSignature_write hsig) ?_
  refine bind_step (readCheckpoint_write _) ?_
  refine bind_step (readCheckpoint_write _) ?_
  refine bind_step (readSignature_write hsig') ?_
  have hy : (⟨x.epochId, x.setRoot, x.phase, x.round, y.source, y.target, x.pubkeyHex, y.signature⟩ :
      SignedVote) = y := by
    rw [h.epoch, h.root, h.phase, h.round, h.pubkey]
  rw [hy]
  rfl

theorem Convicts.bar_notMem : ∀ p ∈ equivFields x y, (124 : UInt8) ∉ p := by
  have hdec (n : Nat) : (124 : UInt8) ∉ toDecimal n :=
    bar_notMem_of_digits fun c hc => isDigit_of_mem_toDecimal hc
  have hhex (bs : Bytes) : (124 : UInt8) ∉ toHex bs := bar_notMem_of_lowerHex (all_isLowerHex_toHex bs)
  have hkey : (124 : UInt8) ∉ x.pubkeyHex := by
    have hlower := h.lowerHex
    rw [isLowerHexText, Bool.and_eq_true] at hlower
    exact bar_notMem_of_lowerHex hlower.2
  have hname : (124 : UInt8) ∉ ascii "SLASH_EQUIV" := by decide
  have hversion : (124 : UInt8) ∉ ascii "v1" := by decide
  simp only [equivFields, forall_mem_cons, not_mem_nil, false_implies, implies_true, and_true]
  exact ⟨hname, hkey, hdec _, hhex _, hdec _, hdec _, hdec _, hhex _, hdec _, hhex _, hhex _, hdec _,
    hhex _, hdec _, hhex _, hhex _, hversion⟩

theorem Convicts.getlines : getlines 124 (joinWith 124 (equivFields x y)) = equivFields x y := by
  refine getlines_joinWith (by simp [equivFields]) h.bar_notMem ?_
  have hlast : (equivFields x y).getLast? = some (ascii "v1") := rfl
  rw [hlast]
  decide

end

/-! ## The carrier -/

theorem parseOpReturn_build {data : Bytes} (hlow : 255 < data.length) (hhigh : data.length < 2 ^ 16) :
    parseOpReturn (buildOpReturnScript data) = data := by
  have hput : putLE 2 data.length = [UInt8.ofNat data.length, UInt8.ofNat (data.length / 256)] := rfl
  have hlen : data.length % 256 + 256 * (data.length / 256 % 256) = data.length := by omega
  rw [buildOpReturnScript, if_neg (by omega), if_neg (by omega), hput]
  have hwide : ¬ data.length ≤ 255 := by omega
  simp [parseOpReturn, parseOpReturn.exactly, hlen, hwide]

section
variable {K : Context} {x y : SignedVote} (h : Convicts K x y)
include h

theorem Convicts.text_length :
    255 < (ascii valPrefix ++ joinWith 124 (equivFields x y)).length ∧
      (ascii valPrefix ++ joinWith 124 (equivFields x y)).length < 2 ^ 16 := by
  have hdec {n : Nat} (hn : n ≤ uint64Max) : (toDecimal n).length ≤ 20 :=
    length_toDecimal (by omega) (lt_of_le_of_lt hn (by decide))
  have hheight (c : CheckpointRef) : (toDecimal c.height.toNat).length ≤ 20 := by
    have hlt := c.height.toNat_lt
    exact hdec (by unfold uint64Max; omega)
  have hhash (c : Hash256) : c.toHex.length = 64 := by rw [Hash256.toHex, length_toHex, c.size]
  obtain ⟨-, -, -, -, hsig⟩ := h.claim_parts
  obtain ⟨-, -, -, -, hsig'⟩ := h.symm.claim_parts
  have hkey : x.pubkeyHex.length = 3904 := by
    have hlower := h.lowerHex
    rw [isLowerHexText, Bool.and_eq_true, beq_iff_eq] at hlower
    exact hlower.1
  have hepoch := hdec h.epoch_le
  have hround := hdec (h.round_le.trans (by decide))
  have hphase : (toDecimal x.phase.code).length ≤ 20 := hdec (by cases x.phase <;> decide)
  have h1 := hheight x.source
  have h2 := hheight x.target
  have h3 := hheight y.source
  have h4 := hheight y.target
  have hname : (ascii "SLASH_EQUIV").length = 11 := rfl
  have hprefix : (ascii valPrefix).length = 15 := rfl
  have hversion : (ascii "v1").length = 2 := rfl
  have hbytes : sigMaxBytes = 3309 := rfl
  rw [length_append, equivFields, joinWith_length]
  simp only [map_cons, map_nil, sum_cons, sum_nil, length_cons, length_nil,
    hhash, length_toHex, hsig, hsig', hkey, hname, hprefix, hversion, hbytes]
  omega

theorem Convicts.parseOpReturn :
    parseOpReturn (buildOpReturnScript (ascii valPrefix ++ joinWith 124 (equivFields x y))) =
      ascii valPrefix ++ joinWith 124 (equivFields x y) :=
  parseOpReturn_build h.text_length.1 h.text_length.2

end

/-! ## The judgement -/

/-- The registration floor does not bar the operation: the fork or the security upgrade is active, or
enough is staked. -/
def FloorOpen (env : Env) (height : Nat) (s : Registry) : Prop :=
  registrationForkActive env height ∨ env.systemAlwaysActive ∨
    env.validatorUnlockStaked ≤ s.totalStaked ∨ consensusSecurityUpgradeHeight ≤ height

def mirrorAccepts (env : Env) (height : Nat) (s : Registry) (x : SignedVote) : Bool :=
  canAcceptFinalityEquivocationEvidence env height s x.pubkeyHex x.epochId x.setRoot x.phase.code x.round
    x.target.height.toNat

/-- A key in the first input, and the address it spends from. -/
def SignedFirst (env : Env) (tx : Transaction) (address : Bytes) : Prop :=
  ∃ i sig key, tx.inputs.head? = some i ∧ parseScriptSig i.scriptSig = some (sig, key) ∧
    keyAddress env key = address

section
variable {env : Env} {height : Nat} {tx : Transaction} {s : Registry} {x y : SignedVote}
  {v : ValidatorRecord} {reporter : Bytes}

theorem registrationFloorPermits_iff {action : Bytes} (h : action ≠ ascii "REGISTER") :
    registrationFloorPermits env height s action ↔ FloorOpen env height s := by
  simp only [registrationFloorPermits, consensusSecurityUpgradeActive, FloorOpen, h, ne_eq, not_false_eq_true,
    decide_true, Bool.and_true, Bool.or_eq_true, Bool.not_eq_true', Bool.and_eq_false_iff,
    decide_eq_false_iff_not, decide_eq_true_eq, not_lt, Bool.not_eq_false']
  tauto

theorem base58Shift_ne_nil {digits : List Nat} (h : digits ≠ []) (carry : Nat) :
    base58Shift digits carry ≠ [] := by
  cases digits with
  | nil => exact absurd rfl h
  | cons d ds => simp [base58Shift]

theorem keyAddress_ne_nil (env : Env) (key : Bytes) : keyAddress env key ≠ [] := by
  have hfold : ∀ (data : Bytes) (digits : List Nat), digits ≠ [] →
      data.foldl (fun ds b => base58Shift ds b.toNat) digits ≠ [] := by
    intro data
    induction data with
    | nil => exact fun digits h => h
    | cons b data ih => exact fun digits h => ih _ (base58Shift_ne_nil h _)
  simp only [keyAddress, base58CheckEncode, ne_eq, append_eq_nil_iff, map_eq_nil_iff,
    reverse_eq_nil_iff, not_and]
  exact fun _ => hfold _ _ (by simp)

theorem SignedFirst.slasherAddress (h : SignedFirst env tx reporter) :
    slasherAddress env tx = reporter ∧ reporter ≠ [] := by
  obtain ⟨i, sig, key, hinput, hparse, rfl⟩ := h
  refine ⟨?_, keyAddress_ne_nil env key⟩
  rw [Validators.slasherAddress, hinput]
  simp only [hparse, Option.map_some, Option.getD_some]

theorem mirrorAccepts_iff : mirrorAccepts env height s x ↔
    (x.phase.code = Phase.code .prevote ∨ x.phase.code = Phase.code .precommit) ∧
    isScheduledCheckpoint x.target.height.toNat ∧ epochOf x.target.height.toNat = x.epochId ∧
    checkpointRound x.target.height.toNat = x.round ∧ x.target.height.toNat ≤ height ∧
    height - x.target.height.toNat ≤ finalityEquivEvidenceWindow ∧
    isLowerHexText (2 * pubkeyBytes) x.pubkeyHex ∧
    inFrozenSet env s x.epochId x.setRoot x.pubkeyHex ∧
    (∃ v, s.validators.lookup x.pubkeyHex = some v ∧ v.slashedEquivocation = false ∧
      v.registeredHeight ≤ x.target.height.toNat ∧
      evidenceOpenAt env.K s.finalityMembership v height = true) ∧
    equivocationKey x.pubkeyHex x.epochId x.round ∉ s.slashedEvidenceKeys ∧
    s.finalityEquivocations.lookup x.pubkeyHex = none := by
  simp only [mirrorAccepts, canAcceptFinalityEquivocationEvidence, Bool.and_eq_true, Bool.or_eq_true,
    decide_eq_true_eq, Option.any_eq_true, Bool.not_eq_true', and_assoc]

theorem Convicts.slashEquiv (h : Convicts env.K x y) (hmirror : mirrorAccepts env height s x)
    (hv : s.validators.lookup x.pubkeyHex = some v) (hsigned : SignedFirst env tx reporter)
    (hother : reporter ≠ v.address) (data : Bytes) :
    slashEquiv env height tx data (equivFields x y) s =
      some (convictEquivocation env height tx data x y v s) := by
  obtain ⟨-, hscheduled, hepoch, hround, hreached, hwindow, -, hmember, ⟨v', hv', hfresh, hterm, hopen⟩, hkey,
    hnone⟩ := mirrorAccepts_iff.mp hmirror
  obtain rfl : v = v' := Option.some.inj (hv.symm.trans hv')
  obtain ⟨-, -, -, hsource, -⟩ := h.claim_parts
  obtain ⟨-, -, -, hsource', -⟩ := h.symm.claim_parts
  obtain ⟨hslasher, hnamed⟩ := hsigned.slasherAddress
  have htarget : x.target ≠ y.target := fun heq => h.hash (congrArg CheckpointRef.hash heq)
  have hvalid : evidenceVoteValid height x := by
    simp only [evidenceVoteValid, hscheduled, hepoch, hround, hsource, hreached, decide_true, Bool.and_self]
  have hvalid' : evidenceVoteValid height y := by
    simp only [evidenceVoteValid, ← h.height, hscheduled, hepoch, hround, hsource', hreached, h.epoch, h.round,
      decide_true, Bool.and_self]
  have hoffence : equivocates height x y := by
    simp only [equivocates, hvalid, hvalid', h.height, Bool.and_true, Bool.and_eq_true, decide_eq_true_eq,
      ne_eq]
    exact ⟨⟨⟨htarget, h.signature⟩, trivial⟩, h.height ▸ hwindow⟩
  unfold Validators.slashEquiv
  refine bind_step h.readEquivocation ?_
  refine bind_step (guard_pos ⟨hoffence, hmember⟩) ?_
  refine bind_step hv ?_
  refine bind_step (guard_pos ⟨hfresh, hterm, hopen⟩) ?_
  refine bind_step (guard_pos ⟨h.signed, h.signed'⟩) ?_
  refine bind_step (guard_pos ⟨hslasher ▸ hnamed, hslasher ▸ hother⟩) ?_
  exact bind_of_eq_some (guard_pos ⟨hkey, hnone⟩) _

theorem Convicts.processOp (h : Convicts env.K x y) :
    processOp env height tx (ascii valPrefix ++ joinWith 124 (equivFields x y)) s =
      if registrationFloorPermits env height s (ascii "SLASH_EQUIV") = true then
        Validators.slashEquiv env height tx (ascii valPrefix ++ joinWith 124 (equivFields x y))
          (equivFields x y) s
      else none := by
  have hrest : behind (ascii valPrefix ++ joinWith 124 (equivFields x y)) valPrefix =
      joinWith 124 (equivFields x y) := drop_left
  have hregister : ascii "SLASH_EQUIV" ≠ ascii "REGISTER" := by decide
  have hderegister : ascii "SLASH_EQUIV" ≠ ascii "DEREGISTER" := by decide
  have hhead : equivFields x y = ascii "SLASH_EQUIV" :: (equivFields x y).tail := rfl
  have hlength : (equivFields x y).length = 17 := rfl
  unfold Validators.processOp
  simp only [hrest, h.getlines]
  rw [hhead]
  simp only [headD_cons, hregister, hderegister, false_and, if_false, true_and]
  rw [← hhead, hlength, if_pos rfl]

def Carries (out : TxOutput) (e : EquivocationEvidence) : Prop :=
  out.scriptPubkey = buildOpReturnScript (buildSlashEquivOp e)

theorem processOutput_evidence {e : EquivocationEvidence} {out : TxOutput}
    (h : Convicts env.K e.first e.second) (hout : Carries out e) :
    processOutput env height tx s out =
      if registrationFloorPermits env height s (ascii "SLASH_EQUIV") = true then
        (slashEquiv env height tx (buildSlashEquivOp e) (equivFields e.first e.second) s).getD s
      else s := by
  have hdata : Validators.parseOpReturn out.scriptPubkey = buildSlashEquivOp e := by
    rw [hout]
    exact h.parseOpReturn
  have hstarts : startsWith (buildSlashEquivOp e) valPrefix :=
    isPrefixOf_iff_prefix.mpr (prefix_append _ _)
  have hop : Validators.processOp env height tx (buildSlashEquivOp e) s =
      if registrationFloorPermits env height s (ascii "SLASH_EQUIV") = true then
        slashEquiv env height tx (buildSlashEquivOp e) (equivFields e.first e.second) s
      else none := h.processOp
  unfold processOutput
  rw [hdata, if_pos hstarts, hop]
  split <;> rfl

def MarkedEquivocator (s : Registry) (pubkeyHex : Bytes) : Prop :=
  ∃ v, s.validators.lookup pubkeyHex = some v ∧ v.slashed ∧ v.slashedEquivocation ∧
    v.active = false

/-- Detected equivocation leads to a slash exactly when the registration floor is open: for a pair the
detector accepts and a registry whose mirror accepts it, the text that is written out, in a transaction
that another address signs, marks the offender. -/
theorem equivocation_slashed_iff {a b : SignedVote} {retained : EpochSnapshot} {tip : Nat}
    {e : EquivocationEvidence} {out : TxOutput}
    (hpair : validateEquivocationPair env.K a b retained tip = some e)
    (hmirror : mirrorAccepts env height s e.first) (hsigned : SignedFirst env tx reporter)
    (hother : ∀ v, s.validators.lookup e.first.pubkeyHex = some v → reporter ≠ v.address)
    (hout : Carries out e) :
    MarkedEquivocator (processOutput env height tx s out) e.first.pubkeyHex ↔ FloorOpen env height s := by
  have hconvicts := convicts_of_validateEquivocationPair hpair
  have hname : ascii "SLASH_EQUIV" ≠ ascii "REGISTER" := by decide
  obtain ⟨-, -, -, -, -, -, -, -, ⟨v, hv, hfresh, -⟩, -⟩ := mirrorAccepts_iff.mp hmirror
  rw [processOutput_evidence hconvicts hout, ← registrationFloorPermits_iff hname]
  split
  · rename_i hfloor
    rw [hconvicts.slashEquiv hmirror hv hsigned (hother v hv), Option.getD_some]
    refine iff_of_true ⟨_, AList.lookup_insert _, rfl, rfl, rfl⟩ hfloor
  · rename_i hfloor
    refine iff_of_false ?_ hfloor
    rintro ⟨v', hv', -, hmarked, -⟩
    obtain rfl : v = v' := Option.some.inj (hv.symm.trans hv')
    exact absurd (hfresh.symm.trans hmarked) (by decide)

end

/-! A validator that has signed two targets at height 500. -/

def soloEnv : Env where
  P := Profile.sample
  C := Crypto.blank
  K := soloContext
  hash160 _ := List.replicate 20 0
  verifyEndorsement _ _ _ _ := false
  systemAlwaysActive := false
  registrationForkHeight := 9500
  minValidatorStake := bondPerKeyUnits
  validatorUnlockStaked := bondPerKeyUnits

def soloKey : Bytes := List.replicate (2 * pubkeyBytes) 48

def soloRecord : ValidatorRecord where
  pubkeyHex := soloKey
  address := [86]
  registeredHeight := 0
  active := true
  slashed := false
  slashedEquivocation := false
  slashedAtHeight := 0
  bondCustodial := true
  bondUnits := bondPerKeyUnits
  deregisteredAtHeight := 0
  lastFinalityVoteHeight := 0
  principalSettledAt := 0

def soloRegistry : Registry :=
  { Registry.empty 0 0 with
    validators := (∅ : Table Bytes ValidatorRecord).insert soloKey soloRecord
    finalityMembership := AList.singleton 1 ⟨.zero, [Hash256.zero]⟩ }

def soloVoteFor (hash : Hash256) : SignedVote :=
  (soloCert hash).vote soloSnapshot soloKey
    (fillSignature (certMessage soloContext (soloCert hash) soloSnapshot))

/-- The transaction of a reporter. -/
def reportTx (out : TxOutput) : Transaction where
  version := 1
  inputs := [⟨.ones, 0, 0x4D :: putLE 2 3311 ++ List.replicate 3311 0 ++
    (0x4D :: putLE 2 pubkeyBytes) ++ List.replicate pubkeyBytes 0, 0xFFFFFFFF⟩]
  outputs := [out]
  locktime := 0

theorem solo_pair : ∃ e, validateEquivocationPair soloContext (soloVoteFor Hash256.zero)
    (soloVoteFor Hash256.ones) soloSnapshot 600 = some e ∧ e.first = soloVoteFor Hash256.zero := by
  have hsome : (validateEquivocationPair soloContext (soloVoteFor Hash256.zero) (soloVoteFor Hash256.ones)
      soloSnapshot 600).isSome = true := by decide +kernel
  obtain ⟨e, he⟩ := Option.isSome_iff_exists.mp hsome
  have hfirst : (validateEquivocationPair soloContext (soloVoteFor Hash256.zero) (soloVoteFor Hash256.ones)
      soloSnapshot 600).map EquivocationEvidence.first = some (soloVoteFor Hash256.zero) := by decide +kernel
  rw [he] at hfirst
  exact ⟨e, he, Option.some.inj hfirst⟩

theorem solo_mirror : ∀ height ∈ [600, 2900],
    mirrorAccepts soloEnv height soloRegistry (soloVoteFor Hash256.zero) = true := by decide +kernel

theorem solo_signed (out : TxOutput) : ∃ reporter, SignedFirst soloEnv (reportTx out) reporter ∧
    reporter ≠ soloRecord.address := by
  have hparse : ∃ sig key, parseScriptSig (0x4D :: putLE 2 3311 ++ List.replicate 3311 0 ++
      (0x4D :: putLE 2 pubkeyBytes) ++ List.replicate pubkeyBytes 0) = some (sig, key) := by
    have hsome : (parseScriptSig (0x4D :: putLE 2 3311 ++ List.replicate 3311 0 ++
      (0x4D :: putLE 2 pubkeyBytes) ++ List.replicate pubkeyBytes 0)).isSome = true := by decide +kernel
    obtain ⟨parsed, hparsed⟩ := Option.isSome_iff_exists.mp hsome
    exact ⟨parsed.1, parsed.2, hparsed⟩
  obtain ⟨sig, key, hparse⟩ := hparse
  have hother : keyAddress soloEnv [] ≠ soloRecord.address := by decide +kernel
  exact ⟨keyAddress soloEnv key, ⟨_, sig, key, rfl, hparse, rfl⟩, hother⟩

theorem equivocation_slashed_iff_solo : ∃ e out, Carries out e ∧
    MarkedEquivocator (processOutput soloEnv 2900 (reportTx out) soloRegistry out) soloKey := by
  obtain ⟨e, hpair, hfirst⟩ := solo_pair
  let out : TxOutput := ⟨0, buildOpReturnScript (buildSlashEquivOp e)⟩
  obtain ⟨reporter, hsigned, hother⟩ := solo_signed out
  have hkey : e.first.pubkeyHex = soloKey := by rw [hfirst]; rfl
  have hmirror : mirrorAccepts soloEnv 2900 soloRegistry e.first :=
    hfirst ▸ solo_mirror 2900 (by decide)
  have hrecord : ∀ v, soloRegistry.validators.lookup e.first.pubkeyHex = some v → reporter ≠ v.address := by
    intro v hv
    have hlookup : soloRegistry.validators.lookup soloKey = some soloRecord := AList.lookup_insert _
    rw [hkey, hlookup] at hv
    cases hv
    exact hother
  have hcarries : Carries out e := rfl
  have hfloor : FloorOpen soloEnv 2900 soloRegistry := .inr (.inr (.inr (by decide)))
  have hpair' : validateEquivocationPair soloEnv.K (soloVoteFor Hash256.zero) (soloVoteFor Hash256.ones)
      soloSnapshot 600 = some e := hpair
  refine ⟨e, out, hcarries, hkey ▸ ?_⟩
  exact (equivocation_slashed_iff hpair' hmirror hsigned hrecord hcarries).mpr hfloor

/-- Before the security upgrade, with too little staked, the registry ignores evidence that its mirror
has accepted. -/
theorem mirrored_evidence_ignored : ∃ e out,
    validateEquivocationPair soloEnv.K (soloVoteFor Hash256.zero) (soloVoteFor Hash256.ones) soloSnapshot 600 =
      some e ∧
    mirrorAccepts soloEnv 600 soloRegistry e.first ∧ Carries out e ∧
    (∃ reporter, SignedFirst soloEnv (reportTx out) reporter ∧ reporter ≠ soloRecord.address) ∧
    processOutput soloEnv 600 (reportTx out) soloRegistry out = soloRegistry := by
  obtain ⟨e, hpair, hfirst⟩ := solo_pair
  let out : TxOutput := ⟨0, buildOpReturnScript (buildSlashEquivOp e)⟩
  have hconvicts : Convicts soloEnv.K e.first e.second := convicts_of_validateEquivocationPair hpair
  have hfloor : registrationFloorPermits soloEnv 600 soloRegistry (ascii "SLASH_EQUIV") ≠ true := by decide
  have hcarries : Carries out e := rfl
  refine ⟨e, out, hpair, hfirst ▸ solo_mirror 600 (by decide), hcarries, solo_signed out, ?_⟩
  rw [processOutput_evidence hconvicts hcarries, if_neg hfloor]

end Veld.Validators
