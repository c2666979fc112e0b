import Veld.Lib.Table
import Veld.Core.ChainState

/-!
# Governance

`consensus/governance.h`: proposals and votes carried by OP_RETURN outputs.
-/

namespace Veld.Governance

open Wire Chain

inductive ProposalStatus
  | open
  | passed
  | rejected
  | expired
  | timelocked
  deriving DecidableEq

inductive VoteChoice
  | yes
  | no
  | abstain
  deriving DecidableEq

inductive ProposalType
  | general
  | protocolUpgrade
  deriving DecidableEq

structure Proposal where
  id : Nat
  type : ProposalType
  title : Bytes
  description : Bytes
  proposer : Bytes
  createdAt : Nat
  expiresAt : Nat
  status : ProposalStatus
  /-- The counters have 32 bits in the source. -/
  votesYes : Nat
  votesNo : Nat
  votesAbstain : Nat
  votes : Table Bytes VoteChoice
  timelockUntil : Nat
  /-- From the transaction and output that created it. -/
  creationIdentity : Bytes
  /-- Zero is the legacy round, which no vote can be bound to. -/
  voteRoundStart : Nat

/-! ## Parameters -/

def voteDurationBlocks : Nat := 14 * blocksPerDay
def protocolTimelock : Nat := 7 * blocksPerDay
def submitCooldownBlocks : Nat := blocksPerDay / 2
def voteChangeCooldownBlocks : Nat := 6
def sigReplayWindowBlocks : Nat := 60
def pruneDelayBlocks : Nat := 30 * blocksPerDay
def maxTime : Nat := 2 ^ 63 - 1

def passPct : ProposalType → Nat
  | .general => 51
  | .protocolUpgrade => 67

/-- The build's schedule and the functions of other units. -/
structure Env where
  securityUpgradeHeight : Nat
  stateMigrationHeight : Nat
  chainIdPrefix : Bytes
  sha256 : Bytes → Hash256
  /-- `VerifyGovSig pubkey sig challenge`. -/
  verifyGovSig : Bytes → Bytes → Bytes → Bool
  pubKeyHexToAddress : Bytes → Bytes
  base64UrlDecode : Bytes → Bytes

/-- What the validator registry answers once it has processed the block. -/
structure Registry where
  bondGateOpen : Bool
  isValidatorByAddress : Bytes → Bool
  minVotesRequired : ProposalType → Nat

structure State where
  nextId : Nat
  proposals : Table Nat Proposal
  lastProposalBlock : Table Bytes Nat
  /-- Keyed by voter and proposal. -/
  lastVoteBlock : Table (Bytes × Nat) Nat
  securityUpgradeActive : Bool

/-- A governance payload with the transaction and output that carry it. -/
structure Carried where
  txid : Hash256
  outputIndex : Nat
  data : Bytes

section
variable (env : Env)

def securityUpgradeActiveAt (height : Nat) : Bool :=
  env.securityUpgradeHeight ≠ 0 && env.securityUpgradeHeight ≤ height

def stateMigrationActiveAt (height : Nat) : Bool :=
  env.stateMigrationHeight ≠ 0 && env.stateMigrationHeight ≤ height

/-! ## Identities and challenges -/

def canonicalIdentity (value : Bytes) : Bool := isLowerHexText 64 value

def proposalCreationIdentity (o : Carried) : Bytes :=
  (sha256Domain env.sha256 "VELD_GOV_CREATION_v1|"
    (putLenPrefixed env.chainIdPrefix ++ o.txid.bytes ++ putLE 8 o.outputIndex)).toHex

/-- `VoteIdentity`: what names the round of a proposal in a vote. -/
def voteIdentity (p : Proposal) : Bytes :=
  if !canonicalIdentity p.creationIdentity || p.voteRoundStart = 0 then []
  else (sha256Domain env.sha256 "VELD_GOV_ROUND_v1|"
    (putLenPrefixed p.creationIdentity ++ putLE 8 p.voteRoundStart)).toHex

def VoteChoice.text : VoteChoice → Bytes
  | .yes => ascii "yes"
  | .no => ascii "no"
  | .abstain => ascii "abstain"

def ProposalType.text : ProposalType → Bytes
  | .general => ascii "general"
  | .protocolUpgrade => ascii "protocol_upgrade"

def buildVoteChallenge (id : Nat) (choice : VoteChoice) (signedHeight : Nat) (identity : Bytes) : Bytes :=
  if identity ≠ [] then
    env.chainIdPrefix ++ ascii "GOV_VOTE_V2:" ++ toDecimal id ++ ascii ":" ++ identity ++ ascii ":" ++
      choice.text ++ ascii ":@" ++ toDecimal signedHeight
  else
    env.chainIdPrefix ++ ascii "GOV_VOTE:" ++ toDecimal id ++ ascii ":" ++ choice.text ++ ascii ":@" ++
      toDecimal signedHeight

def buildProposalChallenge (type : ProposalType) (proposer title description : Bytes) (signedHeight : Nat)
    (typedMarker framed : Bool) : Bytes :=
  if framed then
    env.chainIdPrefix ++ ascii "GOV_PROPOSAL_V2:" ++
      [type.text, proposer, title, description, toDecimal signedHeight].flatMap fun field =>
        toDecimal field.length ++ ascii ":" ++ field
  else
    env.chainIdPrefix ++ ascii "GOV_PROPOSAL:" ++ (if typedMarker then type.text ++ ascii ":" else []) ++
      title ++ ascii "|" ++ description ++ ascii ":@" ++ toDecimal signedHeight

/-! ## Markers -/

/-- The signed content of a vote. -/
structure SignedVote where
  proposalId : Nat
  voter : Bytes
  round : Bytes
  choice : VoteChoice
  signedHeight : Nat
  deriving DecidableEq

structure VoteMarker where
  vote : SignedVote
  pubkeyHex : Bytes
  sigHex : Bytes

structure ProposalMarker where
  type : ProposalType
  typedMarker : Bool
  proposer : Bytes
  title : Bytes
  description : Bytes
  signedHeight : Nat
  pubkeyHex : Bytes
  sigHex : Bytes

def readUint64 (bs : Bytes) : Option Nat := readDecimal (2 ^ 64 - 1) bs

def parseChoice (t : Bytes) : Option VoteChoice :=
  if t = ascii "y" then some .yes
  else if t = ascii "n" then some .no
  else if t = ascii "a" then some .abstain
  else none

def parseProposalType (t : Bytes) : Option ProposalType :=
  if t = ascii "general" then some .general
  else if t = ascii "protocol_upgrade" then some .protocolUpgrade
  else none

/-- The vote branch of `ProcessOpLocked`: `V2` with its round after the upgrade, `V` before. -/
def parseVote (bound : Bool) (fs : List Bytes) : Option VoteMarker :=
  match bound, fs with
  | false, [_, op, id, voter, choice, signed, pubkey, sig] => do
    guard (op = ascii "V")
    let proposalId ← readUint64 id
    let signedHeight ← readUint64 signed
    let choice ← parseChoice choice
    return ⟨⟨proposalId, voter, [], choice, signedHeight⟩, pubkey, sig⟩
  | true, [_, op, id, voter, choice, signed, pubkey, sig, round] => do
    guard (op = ascii "V2")
    let proposalId ← readUint64 id
    let signedHeight ← readUint64 signed
    let choice ← parseChoice choice
    return ⟨⟨proposalId, voter, round, choice, signedHeight⟩, pubkey, sig⟩
  | _, _ => none

/-- The proposal branches of `ProcessOpLocked`: the untyped form with nine fields and the typed form with
ten. -/
def parseProposal (framed : Bool) (fs : List Bytes) : Option ProposalMarker :=
  match fs with
  | [_, op, proposer, title, description, timestamp, signed, pubkey, sig] => do
    guard (op = ascii "P" ∧ framed = false)
    let _ ← readUint64 timestamp
    let signedHeight ← readUint64 signed
    return ⟨.general, false, proposer, env.base64UrlDecode title, env.base64UrlDecode description,
      signedHeight, pubkey, sig⟩
  | [_, op, type, proposer, title, description, timestamp, signed, pubkey, sig] => do
    guard ((op = ascii "P" ∧ framed = false) ∨ (op = ascii "P2" ∧ framed ∧ timestamp = ascii "0"))
    let type ← parseProposalType type
    let _ ← readUint64 timestamp
    let signedHeight ← readUint64 signed
    return ⟨type, true, proposer, env.base64UrlDecode title, env.base64UrlDecode description,
      signedHeight, pubkey, sig⟩
  | _ => none

/-! ## Operations -/

/-- The signature is fresh at this height. -/
def inReplayWindow (height signedHeight : Nat) : Prop :=
  height ≤ (signedHeight + sigReplayWindowBlocks) % 2 ^ 64 ∧ signedHeight ≤ height + 1

instance (height signedHeight : Nat) : Decidable (inReplayWindow height signedHeight) :=
  inferInstanceAs (Decidable (_ ∧ _))

def applyProposalFromChain (reg : Registry) (height : Nat) (o : Carried) (m : ProposalMarker) (s : State) :
    Option State := do
  guard (inReplayWindow height m.signedHeight)
  guard (env.verifyGovSig m.pubkeyHex m.sigHex (buildProposalChallenge env m.type m.proposer m.title
    m.description m.signedHeight m.typedMarker (stateMigrationActiveAt env height)) = true)
  guard (env.pubKeyHexToAddress m.pubkeyHex = m.proposer)
  guard (m.title ≠ [] ∧ m.title.length ≤ 200 ∧ m.description.length ≤ 4096)
  guard ((s.lastProposalBlock.lookup m.proposer).all (fun last => last + submitCooldownBlocks ≤ height) = true)
  guard (reg.isValidatorByAddress m.proposer = true)
  guard (reg.bondGateOpen = true)
  guard (securityUpgradeActiveAt env height →
    canonicalIdentity (proposalCreationIdentity env o) ∧ height ≤ maxTime - voteDurationBlocks)
  return { s with
    nextId := s.nextId + 1
    proposals := s.proposals.insert s.nextId
      { id := s.nextId, type := m.type, title := m.title, description := m.description,
        proposer := m.proposer, createdAt := height, expiresAt := height + voteDurationBlocks,
        status := .open, votesYes := 0, votesNo := 0, votesAbstain := 0, votes := ∅, timelockUntil := 0,
        creationIdentity := proposalCreationIdentity env o,
        voteRoundStart := if securityUpgradeActiveAt env height then height else 0 }
    lastProposalBlock := s.lastProposalBlock.insert m.proposer height }

def Proposal.uncount (p : Proposal) : Option VoteChoice → Proposal
  | none => p
  | some .yes => { p with votesYes := p.votesYes - 1 }
  | some .no => { p with votesNo := p.votesNo - 1 }
  | some .abstain => { p with votesAbstain := p.votesAbstain - 1 }

def Proposal.count (p : Proposal) : VoteChoice → Proposal
  | .yes => { p with votesYes := p.votesYes + 1 }
  | .no => { p with votesNo := p.votesNo + 1 }
  | .abstain => { p with votesAbstain := p.votesAbstain + 1 }

/-- The vote is recorded and counted, in place of the voter's earlier one. -/
def Proposal.record (p : Proposal) (voter : Bytes) (choice : VoteChoice) : Proposal :=
  { (p.uncount (p.votes.lookup voter)).count choice with votes := p.votes.insert voter choice }

/-- A voter may change the choice once the cooldown since the last vote is over. -/
def mayChange (s : State) (p : Proposal) (height : Nat) (v : SignedVote) : Bool :=
  (p.votes.lookup v.voter).all fun choice =>
    choice ≠ v.choice &&
      (s.lastVoteBlock.lookup (v.voter, v.proposalId)).all fun last => last + voteChangeCooldownBlocks ≤ height

def applyVoteFromChain (reg : Registry) (height : Nat) (m : VoteMarker) (s : State) : Option State := do
  guard (reg.bondGateOpen = true)
  guard (inReplayWindow height m.vote.signedHeight)
  guard (securityUpgradeActiveAt env height →
    canonicalIdentity m.vote.round ∧
      (s.proposals.lookup m.vote.proposalId).any (fun p => m.vote.round = voteIdentity env p) = true)
  guard (env.verifyGovSig m.pubkeyHex m.sigHex
    (buildVoteChallenge env m.vote.proposalId m.vote.choice m.vote.signedHeight m.vote.round) = true)
  guard (env.pubKeyHexToAddress m.pubkeyHex = m.vote.voter)
  guard (reg.isValidatorByAddress m.vote.voter = true)
  let p ← s.proposals.lookup m.vote.proposalId
  guard (p.status = .open)
  guard (mayChange s p height m.vote = true)
  return { s with
    proposals := s.proposals.insert m.vote.proposalId (p.record m.vote.voter m.vote.choice)
    lastVoteBlock := s.lastVoteBlock.insert (m.vote.voter, m.vote.proposalId) height }

def processOpLocked (reg : Registry) (height : Nat) (o : Carried) (s : State) : Option State :=
  match parseProposal env (stateMigrationActiveAt env height) (fields 124 o.data) with
  | some m => applyProposalFromChain env reg height o m s
  | none => do
    let m ← parseVote (securityUpgradeActiveAt env height) (fields 124 o.data)
    applyVoteFromChain env reg height m s

/-! ## Blocks -/

/-- A proposal still undecided at the upgrade starts a new round without votes. -/
def restartRound (p : Proposal) : Proposal :=
  if p.status = .open ∨ p.status = .timelocked then
    { p with
      status := .open
      votes := ∅
      votesYes := 0
      votesNo := 0
      votesAbstain := 0
      timelockUntil := 0
      voteRoundStart := env.securityUpgradeHeight
      expiresAt := env.securityUpgradeHeight + voteDurationBlocks }
  else p

/-- The migration at the upgrade; nothing when a proposal has no identity or the expiry would overflow. -/
def migrate (s : State) : Option State :=
  if (s.proposals.entries.all fun row => canonicalIdentity row.2.creationIdentity) &&
      env.securityUpgradeHeight ≤ maxTime - voteDurationBlocks then
    some { s with
      proposals := Table.mapRows (fun _ => restartRound env) s.proposals
      lastVoteBlock := ∅
      securityUpgradeActive := true }
  else none

def checkAndFinalize (reg : Registry) (height : Nat) (p : Proposal) : Proposal :=
  let total := p.votesYes + p.votesNo
  if total < reg.minVotesRequired p.type ∨ total = 0 then p
  else if passPct p.type ≤ p.votesYes * 100 / total then
    match p.type with
    | .protocolUpgrade => { p with status := .timelocked, timelockUntil := height + protocolTimelock }
    | .general => { p with status := .passed }
  else if 100 - passPct p.type < p.votesNo * 100 / total then { p with status := .rejected }
  else p

def checkTimelockActivation (height : Nat) (p : Proposal) : Proposal :=
  if p.timelockUntil ≤ height then { p with status := .passed } else p

/-- `FinalizeProposal` of an open proposal. -/
def finalizeProposal (reg : Registry) (height : Nat) (p : Proposal) : Proposal :=
  let total := p.votesYes + p.votesNo
  if total ≠ 0 ∧ reg.minVotesRequired p.type ≤ total ∧ passPct p.type ≤ p.votesYes * 100 / total then
    match p.type with
    | .protocolUpgrade => { p with status := .timelocked, timelockUntil := height + protocolTimelock }
    | .general => { p with status := .passed }
  else { p with status := .expired }

def settleProposal (reg : Registry) (height : Nat) (p : Proposal) : Proposal :=
  match p.status with
  | .open => checkAndFinalize reg height p
  | .timelocked => checkTimelockActivation height p
  | _ => p

/-- The expiry loop; an expiry that is no block height never comes. -/
def expireProposal (reg : Registry) (height : Nat) (p : Proposal) : Proposal :=
  if p.status = .open ∧ p.expiresAt ≠ 0 ∧ p.expiresAt ≤ 1000000000 ∧ p.expiresAt ≤ height then
    finalizeProposal reg height p
  else p

def prunable (height : Nat) (p : Proposal) : Bool :=
  (p.status = .passed || p.status = .expired || p.status = .rejected) &&
    0 < p.expiresAt && p.expiresAt < 1000000000 && p.expiresAt + pruneDelayBlocks < height

/-- `PruneExpiredLocked_`. -/
def pruneExpired (height : Nat) (s : State) : State :=
  { s with
    lastProposalBlock := Table.keep (fun _ last => height - submitCooldownBlocks ≤ last) s.lastProposalBlock
    lastVoteBlock := Table.keep (fun _ last => height - voteChangeCooldownBlocks ≤ last) s.lastVoteBlock
    proposals := Table.keep (fun _ p => !prunable height p) s.proposals }

/-- The votes applied so far, in order; the source keeps no such list. -/
abbrev Log := List SignedVote

def stepOp (reg : Registry) (height : Nat) (acc : State × Log) (o : Carried) : State × Log :=
  match processOpLocked env reg height o acc.1 with
  | none => acc
  | some s =>
    (s, acc.2 ++ ((parseVote true (fields 124 o.data)).map VoteMarker.vote).toList.filter fun _ =>
      securityUpgradeActiveAt env height)

def closeBlock (reg : Registry) (height : Nat) (s : State) : State :=
  let settled :=
    { s with
      proposals := Table.mapRows (fun _ => expireProposal reg height)
        (Table.mapRows (fun _ => settleProposal reg height) s.proposals) }
  if 0 < height ∧ height % blocksPerDay = 0 then pruneExpired height settled else settled

structure GovBlock where
  carried : List Carried
  registry : Registry

/-- The first block after the upgrade migrates the state. -/
def enterBlock (height : Nat) (s : State) : Option State :=
  if securityUpgradeActiveAt env height && !s.securityUpgradeActive then migrate env s else some s

/-- `ProcessBlock`, with the votes it applies; nothing when it throws. -/
def processBlock (height : Nat) (b : GovBlock) (acc : State × Log) : Option (State × Log) := do
  let s ← enterBlock env height acc.1
  let (s, log) := b.carried.foldl (stepOp env b.registry height) (s, acc.2)
  return (closeBlock b.registry height s, log)

/-- The blocks from `height` on. -/
def run : Nat → State × Log → List GovBlock → Option (State × Log)
  | _, acc, [] => some acc
  | height, acc, b :: rest => do
    let acc ← processBlock env height b acc
    run (height + 1) acc rest

/-- `ParseOpReturnPayload`: one minimal push that ends the script. -/
def parseOpReturnPayload : Bytes → Bytes
  | 0x6A :: op :: rest =>
    if 1 ≤ op ∧ op ≤ 0x4B then if rest.length = op.toNat then rest else []
    else match op, rest with
      | 0x4C, n :: data => if 0x4B < n ∧ data.length = n.toNat then data else []
      | 0x4D, lo :: hi :: data =>
        if 0xFF < lo.toNat + 256 * hi.toNat ∧ data.length = lo.toNat + 256 * hi.toNat then data else []
      | _, _ => []
  | _ => []

end

end Veld.Governance
