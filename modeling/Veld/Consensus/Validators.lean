import Veld.Lib.Table
import Veld.Lib.Text
import Veld.Core.Script
import Veld.Core.Settlement
import Veld.Consensus.FinalityEvidence

/-!
# The validator registry

`consensus/validators.h`: the records of the validators, the schedule on which a bond is paid out, and
the operations that transactions carry: registration, exit, and the two kinds of evidence.
-/

namespace Veld.Validators

open Wire Finality Chain

/-! ## Parameters -/

def validatorOpCooldownBlocks : Nat := 100
def slashEvidenceWindow : Nat := 7 * blocksPerDay
def finalityEquivEvidenceWindow : Nat := 90 * epochBlocks
def finalityCleanExitWindow : Nat := finalityEquivEvidenceWindow
def maxSlashedEvidence : Nat := 50000
def maxEvidencePerPubkey : Nat := 10
def stakeVaultAddress : Bytes := ascii "VV6pcrLQvxq7uBZEFtc4qxCizQ26azxTtK"

/-- What the registry is compiled and linked with. -/
structure Env where
  P : Profile
  C : Crypto
  K : Context
  /-- `Hash160Compute`. -/
  hash160 : Bytes → Bytes
  /-- The signature of a key on the endorsement of a block hash at a height. -/
  verifyEndorsement : Bytes → Nat → Hash256 → Bytes → Bool
  /-- `VALIDATOR_SYSTEM_ALWAYS_ACTIVE`. -/
  systemAlwaysActive : Bool
  /-- `VALIDATOR_REGISTRATION_FORK_HEIGHT` (0 is never). -/
  registrationForkHeight : Nat
  minValidatorStake : Nat
  validatorUnlockStaked : Nat

structure ValidatorRecord where
  pubkeyHex : Bytes
  address : Bytes
  registeredHeight : Nat
  active : Bool
  slashed : Bool
  slashedEquivocation : Bool
  slashedAtHeight : Nat
  bondCustodial : Bool
  bondUnits : Nat
  deregisteredAtHeight : Nat
  lastFinalityVoteHeight : Nat
  principalSettledAt : Nat
  deriving DecidableEq

structure SlashEvidence where
  pubkeyHex : Bytes
  address : Bytes
  height : Nat
  hashAHex : Bytes
  hashBHex : Bytes
  sigAHex : Bytes
  sigBHex : Bytes
  slasherAddress : Bytes
  evidenceBlock : Nat
  deriving DecidableEq

/-- `FinalityMembershipRecord`. -/
structure MembershipRecord where
  root : Hash256
  members : List Hash256
  deriving DecidableEq

structure EquivocationRecord where
  epoch : Nat
  phase : Phase
  round : Nat
  targetA : CheckpointRef
  targetB : CheckpointRef
  evidenceBlock : Nat
  slasherAddress : Bytes
  evidenceCommit : Hash256
  deriving DecidableEq

structure BondYieldTranche where
  accrualHeight : Nat
  units : Nat
  deriving DecidableEq

structure Registry where
  validators : Table Bytes ValidatorRecord
  lastOpHeight : Table Bytes Nat
  bondYieldEscrow : Table Bytes (List BondYieldTranche)
  slashedEvidence : List SlashEvidence
  slashedEvidenceKeys : List Bytes
  evidencePerPubkey : Table Bytes Nat
  slashedPubkeys : List Bytes
  finalityMembership : Table Nat MembershipRecord
  finalityEquivocations : Table Bytes EquivocationRecord
  totalStaked : Nat
  minStakeOverride : Nat

def Registry.empty (totalStaked minStakeOverride : Nat) : Registry :=
  ⟨∅, ∅, ∅, [], [], ∅, [], ∅, ∅, totalStaked, minStakeOverride⟩

/-! ## The schedule of the principal -/

def clampHeight (h : Nat) : Nat := min h uint64Max

/-- The first boundary strictly behind a height. -/
def boundaryAfter (h : Nat) : Nat := (h / bondSettlementInterval + 1) * bondSettlementInterval

/-- The first boundary at a height or behind it. -/
def boundaryFrom (h : Nat) : Nat :=
  (h + bondSettlementInterval - 1) / bondSettlementInterval * bondSettlementInterval

def deregEvidenceCooldown : Nat := max validatorOpCooldownBlocks finalityCleanExitWindow

/-- The end of the evidence window of the last counted vote, if there was one. -/
def voteEvidenceEnd (lastFinalityVoteHeight : Nat) : Nat :=
  if lastFinalityVoteHeight ≠ 0 then lastFinalityVoteHeight + finalityEquivEvidenceWindow else 0

def deregReturnBoundary (deregisteredAtHeight lastFinalityVoteHeight : Nat) : Nat :=
  clampHeight (boundaryAfter
    (max (deregisteredAtHeight + deregEvidenceCooldown) (voteEvidenceEnd lastFinalityVoteHeight)))

def slashSettlementBoundary (slashedAtHeight : Nat) : Nat :=
  clampHeight (boundaryFrom (slashedAtHeight + validatorOpCooldownBlocks))

/-- `LegacyPrincipalBoundary`; 0 is none. -/
def legacyPrincipalBoundary (v : ValidatorRecord) : Nat :=
  if !v.bondCustodial || v.bondUnits = 0 then 0
  else if v.slashed && v.slashedAtHeight ≠ 0 then slashSettlementBoundary v.slashedAtHeight
  else if !v.slashed && v.deregisteredAtHeight ≠ 0 then
    deregReturnBoundary v.deregisteredAtHeight v.lastFinalityVoteHeight
  else 0

/-- `PrincipalAlreadyPaidLocked`. -/
def principalAlreadyPaid (v : ValidatorRecord) (height : Nat) : Bool :=
  v.principalSettledAt ≠ 0 ||
    consensusSecurityUpgradeActive height && legacyPrincipalBoundary v ≠ 0 &&
      legacyPrincipalBoundary v < consensusSecurityUpgradeHeight

/-- The end of the evidence window of the last checkpoint of an epoch. -/
def epochEvidenceEnd (epoch : Nat) : Nat := (epoch + 1) * epochBlocks - 1 + finalityEquivEvidenceWindow

section
variable (K : Context)

/-- A frozen set in which the term of the record has a vote. -/
def boundBy (v : ValidatorRecord) (epoch : Nat) (m : MembershipRecord) : Bool :=
  pubkeyCommit K v.pubkeyHex ∈ m.members && v.registeredHeight ≤ (epoch + 1) * epochBlocks - 1

/-- The latest height at which evidence against the record may be included. -/
def evidenceEnd (membership : Table Nat MembershipRecord) (v : ValidatorRecord) : Nat :=
  let exit := if v.slashed then v.slashedAtHeight + slashEvidenceWindow
    else v.deregisteredAtHeight + deregEvidenceCooldown
  membership.entries.foldl
    (fun last row => if boundBy K v row.1 row.2 then max last (epochEvidenceEnd row.1) else last)
    (max exit (voteEvidenceEnd v.lastFinalityVoteHeight))

/-- `PrincipalSettlementBoundaryLocked`; 0 is none. -/
def principalSettlementBoundary (membership : Table Nat MembershipRecord) (v : ValidatorRecord)
    (height : Nat) : Nat :=
  if !consensusSecurityUpgradeActive height then legacyPrincipalBoundary v
  else if legacyPrincipalBoundary v = 0 || principalAlreadyPaid v height then 0
  else clampHeight (boundaryAfter (evidenceEnd K membership v))

/-- `PrincipalEvidenceOpenLocked`. -/
def principalEvidenceOpen (membership : Table Nat MembershipRecord) (v : ValidatorRecord)
    (height : Nat) : Bool :=
  if !v.bondCustodial || v.bondUnits = 0 then true
  else if principalAlreadyPaid v height then false
  else principalSettlementBoundary K membership v height = 0 ||
    height < principalSettlementBoundary K membership v height

/-- Whether evidence against the term is still taken. -/
def evidenceOpenAt (membership : Table Nat MembershipRecord) (v : ValidatorRecord)
    (height : Nat) : Bool :=
  if consensusSecurityUpgradeActive height then principalEvidenceOpen K membership v height
  else !(v.deregisteredAtHeight ≠ 0 && !v.slashed &&
    deregReturnBoundary v.deregisteredAtHeight v.lastFinalityVoteHeight ≤ height)

/-- `DeregisteredBondPendingAtLocked`. -/
def deregisteredBondPendingAt (v : ValidatorRecord) (height : Nat) : Bool :=
  v.bondCustodial && !v.slashed && v.bondUnits ≠ 0 && v.deregisteredAtHeight ≠ 0 &&
    if consensusSecurityUpgradeActive height then
      if v.principalSettledAt ≠ 0 then height ≤ v.principalSettledAt
      else !principalAlreadyPaid v height
    else height ≤ deregReturnBoundary v.deregisteredAtHeight v.lastFinalityVoteHeight

end

/-! ## Carriers and addresses -/

/-- `ParseOpReturn` of the registry: one minimal push that fills the script. -/
def parseOpReturn : Bytes → Bytes
  | 0x6A :: push :: rest =>
    if push ≤ 75 then exactly push.toNat rest
    else match push, rest with
      | 0x4C, n :: data => if n.toNat ≤ 75 then [] else exactly n.toNat data
      | 0x4D, lo :: hi :: data =>
        if lo.toNat + 256 * hi.toNat ≤ 255 then [] else exactly (lo.toNat + 256 * hi.toNat) data
      | _, _ => []
  | _ => []
where
  exactly (len : Nat) (data : Bytes) : Bytes := if data.length = len then data else []

def valPrefix : String := "VELD_VALIDATOR|"

/-- `pqc::ParseScriptSig`: the signature and the key of an input. -/
def parseScriptSig (ss : Bytes) : Option (Bytes × Bytes) := do
  let (op, rest) ← readLE 1 ss
  guard (op = 0x4D)
  let (sigLength, rest) ← readLE 2 rest
  guard (sigLength = 3311)
  let (sig, rest) ← takeN sigLength rest
  let (op, rest) ← readLE 1 rest
  guard (op = 0x4D)
  let (keyLength, rest) ← readLE 2 rest
  guard (keyLength = pubkeyBytes)
  let (key, rest) ← takeN keyLength rest
  guard (rest = [])
  return (sig, key)

/-- `ds := 256 * ds + carry` in base 58, least significant digit first. -/
def base58Shift : List Nat → Nat → List Nat
  | [], carry => if carry = 0 then [] else if carry < 58 then [carry] else [carry % 58, carry / 58]
  | d :: ds, carry => (carry + 256 * d) % 58 :: base58Shift ds ((carry + 256 * d) / 58)

def base58CheckEncode (sha256 : Bytes → Hash256) (payload : Bytes) : Bytes :=
  let data := payload ++ (hash256d sha256 payload).bytes.take 4
  let digits := data.foldl (fun ds b => base58Shift ds b.toNat) [0]
  List.replicate (data.takeWhile (· = 0)).length 49 ++
    digits.reverse.map fun d => base58Alphabet.getD d 0

/-- `ScriptToAddress` of the pay-to-key-hash script of a key. -/
def keyAddress (env : Env) (key : Bytes) : Bytes :=
  base58CheckEncode env.C.sha256 (0x46 :: env.hash160 key)

def pubkeyToAddress (env : Env) (key : Bytes) : Bytes :=
  if key.length = pubkeyBytes then keyAddress env key else []

/-- The address that signs the first input, the reporter of evidence. -/
def slasherAddress (env : Env) (tx : Transaction) : Bytes :=
  match tx.inputs.head? with
  | none => []
  | some i => ((parseScriptSig i.scriptSig).map fun parsed => keyAddress env parsed.2).getD []

/-! ## Operations -/

section
variable (env : Env) (height : Nat) (tx : Transaction)

/-- `ValidatorRegistrationForkActive`. -/
def registrationForkActive : Bool :=
  env.registrationForkHeight ≠ 0 && env.registrationForkHeight ≤ height

def registrationFloorPermits (s : Registry) (action : Bytes) : Bool :=
  registrationForkActive env height ||
    !(!env.systemAlwaysActive && s.totalStaked < env.validatorUnlockStaked) ||
    consensusSecurityUpgradeActive height && action ≠ ascii "REGISTER"

def effectiveMinStake (s : Registry) : Nat :=
  if s.minStakeOverride ≠ 0 then s.minStakeOverride else env.minValidatorStake

/-- The address has no operation in the last blocks. -/
def cooledDown (s : Registry) (address : Bytes) : Bool :=
  (s.lastOpHeight.lookup address).all fun last => last + validatorOpCooldownBlocks ≤ height

/-- `TrimExpiredCooldownsLocked`. -/
def trimExpiredCooldowns (s : Registry) : Registry :=
  if height < validatorOpCooldownBlocks then s
  else { s with lastOpHeight := s.lastOpHeight.keep fun _ last => height - validatorOpCooldownBlocks ≤ last }

def sentToVault : Nat :=
  ((tx.outputs.filter fun out =>
    out.scriptPubkey = addressToScript env.C.sha256 env.P stakeVaultAddress).map fun out =>
      out.value.toNat).sum

def newRecord (pubkeyHex address : Bytes) : ValidatorRecord where
  pubkeyHex := pubkeyHex
  address := address
  registeredHeight := height
  active := true
  slashed := false
  slashedEquivocation := false
  slashedAtHeight := 0
  bondCustodial := true
  bondUnits := sentToVault env tx
  deregisteredAtHeight := 0
  lastFinalityVoteHeight := 0
  principalSettledAt := 0

/-- The record of the key, if there is one, leaves room for a new term. -/
def termOver (s : Registry) (pubkeyHex : Bytes) : Bool :=
  ((s.validators.lookup pubkeyHex).all fun v =>
    !v.active && !deregisteredBondPendingAt v height) &&
    (s.bondYieldEscrow.lookup pubkeyHex).all fun tranches => tranches = []

/-- The `REGISTER` branch of `ProcessOp`; the new bond is what the transaction sends to the vault. -/
def register (pubkeyHex : Bytes) (s : Registry) : Option Registry := do
  guard (isLowerHexText (2 * pubkeyBytes) pubkeyHex ∧ pubkeyHex ∉ s.slashedPubkeys)
  let key ← ofHex pubkeyHex
  let address := pubkeyToAddress env key
  guard (address ≠ [] ∧ txVerifiedSignedBy env.P env.C tx address ∧
    cooledDown height s address = true)
  guard (addressToScript env.C.sha256 env.P stakeVaultAddress ≠ [] ∧ sentToVault env tx ≤ uint64Max ∧
    effectiveMinStake env s ≤ sentToVault env tx)
  guard (termOver height s pubkeyHex = true)
  guard (∀ row ∈ s.validators.entries, row.2.active → row.2.address ≠ address)
  return trimExpiredCooldowns height
    { s with
      validators := s.validators.insert pubkeyHex (newRecord env height tx pubkeyHex address)
      lastOpHeight := s.lastOpHeight.insert address height }

def leave (v : ValidatorRecord) : ValidatorRecord :=
  { v with
    active := false
    deregisteredAtHeight :=
      if v.bondCustodial && !v.slashed && v.deregisteredAtHeight = 0 then height
      else v.deregisteredAtHeight }

def deregister (pubkeyHex : Bytes) (s : Registry) : Option Registry := do
  guard (isLowerHexText (2 * pubkeyBytes) pubkeyHex = true)
  let v ← s.validators.lookup pubkeyHex
  guard (v.active ∧ txVerifiedSignedBy env.P env.C tx v.address ∧
    cooledDown height s v.address = true)
  return trimExpiredCooldowns height
    { s with
      validators := s.validators.insert pubkeyHex (leave height v)
      lastOpHeight := s.lastOpHeight.insert v.address height }

def convict (v : ValidatorRecord) : ValidatorRecord :=
  { v with
    slashed := true
    active := false
    slashedAtHeight :=
      if v.slashedAtHeight = 0 || height < v.slashedAtHeight then height else v.slashedAtHeight }

/-- `CanAcceptSlashEvidenceLocked`. -/
def canAcceptSlashEvidence (s : Registry) (pubkeyHex : Bytes) (sigHeight : Nat) : Bool :=
  sigHeight ≤ height && height - sigHeight ≤ slashEvidenceWindow &&
    (s.validators.lookup pubkeyHex).any fun v =>
      evidenceOpenAt env.K s.finalityMembership v height && v.registeredHeight ≤ sigHeight

def readHashHex (hex : Bytes) : Option Hash256 :=
  if isLowerHexText 64 hex = true then (ofHex hex).bind Hash256.ofBytes? else none

/-- `VerifyEndorseSignature` for text of the checked length. -/
def verifyEndorseSignature (pubkeyHex : Bytes) (sigHeight : Nat) (hash : Hash256) (sigHex : Bytes) : Bool :=
  (ofHex pubkeyHex).any fun key => (ofHex sigHex).any fun sig =>
    env.verifyEndorsement key sigHeight hash sig

/-- The `SLASH` branch: two endorsements of one height. -/
def slash : List Bytes → Registry → Option Registry
  | [_, pubkeyHex, heightText, hashAHex, sigAHex, hashBHex, sigBHex, version], s => do
    let sigHeight ← readDecimal uint64Max heightText
    guard (version = ascii "v1" ∨ version = [])
    guard (isLowerHexText (2 * pubkeyBytes) pubkeyHex ∧ hashAHex ≠ hashBHex ∧ sigAHex ≠ sigBHex ∧
      isLowerHexText (2 * sigMaxBytes) sigAHex ∧ isLowerHexText (2 * sigMaxBytes) sigBHex)
    let hashA ← readHashHex hashAHex
    let hashB ← readHashHex hashBHex
    guard (canAcceptSlashEvidence env height s pubkeyHex sigHeight = true)
    let v ← s.validators.lookup pubkeyHex
    guard (verifyEndorseSignature env pubkeyHex sigHeight hashA sigAHex ∧
      verifyEndorseSignature env pubkeyHex sigHeight hashB sigBHex = true)
    let key := pubkeyHex ++ ascii ":" ++ toDecimal sigHeight
    let count := (s.evidencePerPubkey.lookup pubkeyHex).getD 0
    guard (key ∉ s.slashedEvidenceKeys ∧ s.slashedEvidence.length < maxSlashedEvidence ∧
      count < maxEvidencePerPubkey)
    let slasher := if slasherAddress env tx = v.address then [] else slasherAddress env tx
    return { s with
      validators := s.validators.insert pubkeyHex (convict height v)
      lastOpHeight := s.lastOpHeight.insert v.address height
      slashedEvidence := s.slashedEvidence ++
        [⟨pubkeyHex, v.address, sigHeight, hashAHex, hashBHex, sigAHex, sigBHex, slasher, height⟩]
      slashedEvidenceKeys := key :: s.slashedEvidenceKeys
      evidencePerPubkey := s.evidencePerPubkey.insert pubkeyHex (count + 1)
      slashedPubkeys := pubkeyHex :: s.slashedPubkeys }
  | _, _ => none

/-! ### Evidence of equivocation -/

def readPhase (text : Bytes) : Option Phase :=
  if text = ascii "1" then some .prevote else if text = ascii "2" then some .precommit else none

def readCheckpoint (heightText hashHex : Bytes) : Option CheckpointRef := do
  let h ← readDecimal uint64Max heightText
  let hash ← readHashHex hashHex
  return ⟨UInt64.ofNat h, hash⟩

def readSignature (sigHex : Bytes) : Option Bytes :=
  if isLowerHexText (2 * sigMaxBytes) sigHex = true then ofHex sigHex else none

/-- The seventeen fields. -/
def readEquivocation : List Bytes → Option (SignedVote × SignedVote)
  | [_, pubkeyHex, epochText, setRootHex, phaseText, roundText, srcAHeight, srcAHash, tgtAHeight, tgtAHash,
      sigAHex, srcBHeight, srcBHash, tgtBHeight, tgtBHash, sigBHex, version] => do
    let epoch ← readDecimal uint64Max epochText
    let phase ← readPhase phaseText
    let round ← readDecimal uint64Max roundText
    guard (round ≤ uint32Max ∧ version = ascii "v1" ∧ isLowerHexText (2 * pubkeyBytes) pubkeyHex)
    let setRoot ← readHashHex setRootHex
    let sourceA ← readCheckpoint srcAHeight srcAHash
    let targetA ← readCheckpoint tgtAHeight tgtAHash
    let sigA ← readSignature sigAHex
    let sourceB ← readCheckpoint srcBHeight srcBHash
    let targetB ← readCheckpoint tgtBHeight tgtBHash
    let sigB ← readSignature sigBHex
    return (⟨epoch, setRoot, phase, round, sourceA, targetA, pubkeyHex, sigA⟩,
      ⟨epoch, setRoot, phase, round, sourceB, targetB, pubkeyHex, sigB⟩)
  | _ => none

def evidenceVoteValid (v : SignedVote) : Bool :=
  isScheduledCheckpoint v.target.height.toNat && epochOf v.target.height.toNat = v.epochId &&
    checkpointRound v.target.height.toNat = v.round && sourceRefWellFormed v.source v.target &&
    v.target.height.toNat ≤ height

/-- The offence: two targets of one round, inside the window. -/
def equivocates (a b : SignedVote) : Bool :=
  a.target ≠ b.target && a.signature ≠ b.signature && evidenceVoteValid height a &&
    evidenceVoteValid height b && a.target.height = b.target.height &&
    height - a.target.height.toNat ≤ finalityEquivEvidenceWindow

def inFrozenSet (s : Registry) (epoch : Nat) (root : Hash256) (pubkeyHex : Bytes) : Bool :=
  (s.finalityMembership.lookup epoch).any fun m =>
    m.root = root && pubkeyCommit env.K pubkeyHex ∈ m.members

/-- `VerifyFinalityVoteSignature`, for a vote whose other fields are checked. -/
def verifyFinalityVoteSignature (v : SignedVote) : Bool :=
  (hexToPublicKey v.pubkeyHex).any fun key => env.K.verify key (voteMessage env.K v) v.signature

def equivocationKey (pubkeyHex : Bytes) (epoch round : Nat) : Bytes :=
  ascii "EQ:" ++ pubkeyHex ++ ascii ":" ++ toDecimal epoch ++ ascii ":" ++ toDecimal round

def convictEquivocation (data : Bytes) (a b : SignedVote) (v : ValidatorRecord) (s : Registry) : Registry :=
  { s with
    validators := s.validators.insert a.pubkeyHex { convict height v with slashedEquivocation := true }
    lastOpHeight := s.lastOpHeight.insert v.address height
    slashedEvidenceKeys := equivocationKey a.pubkeyHex a.epochId a.round :: s.slashedEvidenceKeys
    slashedPubkeys := a.pubkeyHex :: s.slashedPubkeys
    finalityEquivocations := s.finalityEquivocations.insert a.pubkeyHex
      ⟨a.epochId, a.phase, a.round, a.target, b.target, height, slasherAddress env tx,
        sha256Domain env.K.sha256 "VELD_FINALITY_EQUIV_EVIDENCE_v1|" data⟩ }

/-- The `SLASH_EQUIV` branch. -/
def slashEquiv (data : Bytes) (parts : List Bytes) (s : Registry) : Option Registry := do
  let (a, b) ← readEquivocation parts
  guard (equivocates height a b ∧ inFrozenSet env s a.epochId a.setRoot a.pubkeyHex)
  let v ← s.validators.lookup a.pubkeyHex
  guard (v.slashedEquivocation = false ∧ v.registeredHeight ≤ a.target.height.toNat ∧
    evidenceOpenAt env.K s.finalityMembership v height = true)
  guard (verifyFinalityVoteSignature env a ∧ verifyFinalityVoteSignature env b)
  guard (slasherAddress env tx ≠ [] ∧ slasherAddress env tx ≠ v.address)
  guard (equivocationKey a.pubkeyHex a.epochId a.round ∉ s.slashedEvidenceKeys ∧
    s.finalityEquivocations.lookup a.pubkeyHex = none)
  return convictEquivocation env height tx data a b v s

/-- `ProcessOp`; nothing when the operation changes nothing. -/
def processOp (data : Bytes) (s : Registry) : Option Registry :=
  let rest := behind data valPrefix
  let parts := getlines 124 rest
  if registrationFloorPermits env height s (parts.headD []) then
    match parts with
    | [] => none
    | action :: _ =>
      if action = ascii "REGISTER" ∧ parts.length = 2 ∧ rest.count 124 = 1 then
        register env height tx (parts.getD 1 []) s
      else if action = ascii "DEREGISTER" ∧ parts.length = 2 ∧ rest.count 124 = 1 then
        deregister env height tx (parts.getD 1 []) s
      else if action = ascii "SLASH_EQUIV" ∧ parts.length = 17 then slashEquiv env height tx data parts s
      else if action = ascii "SLASH" ∧ parts.length = 8 then slash env height tx parts s
      else none
  else none

def processOutput (s : Registry) (out : TxOutput) : Registry :=
  let data := parseOpReturn out.scriptPubkey
  if startsWith data valPrefix then (processOp env height tx data s).getD s else s

/-! ## Preparation -/

def canAcceptFinalityEquivocationEvidence (s : Registry) (pubkeyHex : Bytes) (epoch : Nat)
    (setRoot : Hash256) (phase round targetHeight : Nat) : Bool :=
  (phase = Phase.code .prevote || phase = Phase.code .precommit) && isScheduledCheckpoint targetHeight &&
    epochOf targetHeight = epoch && checkpointRound targetHeight = round && targetHeight ≤ height &&
    height - targetHeight ≤ finalityEquivEvidenceWindow &&
    isLowerHexText (2 * pubkeyBytes) pubkeyHex && inFrozenSet env s epoch setRoot pubkeyHex &&
    ((s.validators.lookup pubkeyHex).any fun v =>
      !v.slashedEquivocation && v.registeredHeight ≤ targetHeight &&
        evidenceOpenAt env.K s.finalityMembership v height) &&
    equivocationKey pubkeyHex epoch round ∉ s.slashedEvidenceKeys &&
    s.finalityEquivocations.lookup pubkeyHex = none

end

def buildSlashEquivOp (e : EquivocationEvidence) : Bytes :=
  ascii valPrefix ++ joinWith 124
    [ascii "SLASH_EQUIV", e.first.pubkeyHex, toDecimal e.first.epochId, e.first.setRoot.toHex,
      toDecimal e.first.phase.code, toDecimal e.first.round,
      toDecimal e.first.source.height.toNat, e.first.source.hash.toHex,
      toDecimal e.first.target.height.toNat, e.first.target.hash.toHex, toHex e.first.signature,
      toDecimal e.second.source.height.toNat, e.second.source.hash.toHex,
      toDecimal e.second.target.height.toNat, e.second.target.hash.toHex, toHex e.second.signature,
      ascii "v1"]

end Veld.Validators
