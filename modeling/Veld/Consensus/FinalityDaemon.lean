import Veld.Consensus.FinalityEvidence

/-!
# The finality daemon

The validator's side: `FinalityVoter` of `consensus/finality_producer.h`, the daemon of
`consensus/finality_daemon.h` and its journal of `consensus/finality_signing_journal.h`.
-/

namespace Veld.Finality

open Wire

structure Lock where
  held : Bool
  epochId : Nat
  round : Nat
  target : CheckpointRef
  deriving DecidableEq

def Lock.free : Lock := ⟨false, 0, 0, CheckpointRef.null⟩

structure DaemonJournal where
  version : Nat
  lock : Lock
  lastVote : Option SignedVote
  deriving DecidableEq

def DaemonJournal.fresh : DaemonJournal := ⟨1, Lock.free, none⟩

def lockedPrevoteAllowed (lock : Lock) (newEpoch newRound : Nat) (newTarget : CheckpointRef)
    (unlockProof : Option QuorumCert) (extendsLock : Bool) : Bool :=
  !lock.held || lock.target = newTarget ||
    (consensusRoundNewer newEpoch newRound lock.epochId lock.round &&
      ((extendsLock && lock.target.height < newTarget.height) ||
        unlockProof.any fun p => p.phase = .prevote && p.epochId = newEpoch &&
          p.target = newTarget && p.round = newRound))

/-! ## The voter -/

section
variable (K : Context) (pubkeyHex : Bytes)

def memberOf (s : EpochSnapshot) : Bool := (signerIndex s (pubkeyCommit K pubkeyHex)).isSome

/-- `Sign_`, with the bytes that `dilithium::Sign` returns. -/
def signVote (s : EpochSnapshot) (phase : Phase) (round : Nat) (source target : CheckpointRef)
    (signature : Bytes) : SignedVote :=
  ⟨s.epochId, s.root, phase, round, source, target, pubkeyHex, signature⟩

/-- The unlock proof of a prevote: it may be absent, but not bad. -/
def verifiedUnlock (s : EpochSnapshot) : Option DecodedQc → Option (Option QuorumCert)
  | none => some none
  | some proof => do
    let proof ← verifyDecodedQc K proof s
    guard (proof.qc.phase = .prevote)
    return some proof.qc

def prevote (lock : Lock) (s : EpochSnapshot) (round : Nat) (source target : CheckpointRef)
    (unlockProof : Option DecodedQc) (extendsLock : Bool) (signature : Bytes) : Option SignedVote := do
  guard (memberOf K pubkeyHex s ∧ isScheduledCheckpoint target.height.toNat ∧
    round = checkpointRound target.height.toNat ∧ target.isNull = false ∧
    sourceRefWellFormed source target = true)
  let unlock ← verifiedUnlock K s unlockProof
  guard (lockedPrevoteAllowed lock s.epochId round target unlock extendsLock = true)
  return signVote pubkeyHex s .prevote round source target signature

/-- `Precommit`: the vote and the lock that is taken with it. -/
def precommit (lock : Lock) (s : EpochSnapshot) (round : Nat) (source target : CheckpointRef)
    (prevoteQc : DecodedQc) (signature : Bytes) : Option (SignedVote × Lock) := do
  guard (memberOf K pubkeyHex s ∧ round = checkpointRound target.height.toNat)
  let proof ← verifyDecodedQc K prevoteQc s
  guard (proof.qc.phase = .prevote ∧ proof.qc.round = round ∧ proof.qc.source = source ∧
    proof.qc.target = target)
  guard (lock.held = false ∨ lock.target = target ∨
    consensusRoundNewer s.epochId round lock.epochId lock.round = true)
  return (signVote pubkeyHex s .precommit round source target signature,
    ⟨true, s.epochId, round, target⟩)

end

/-! ## The journal -/

def Phase.ofCode (code : Nat) : Option Phase :=
  if code = 1 then some .prevote else if code = 2 then some .precommit else none

def decodeSignedVoteWire (bytes : Bytes) : Option SignedVote := do
  guard (bytes.length = signedVoteWireBytes ∧ bytes.take 4 = ascii "FVT1")
  let (epochId, r) ← readLE 8 (bytes.drop 4)
  let (setRoot, r) ← readHash r
  let (code, r) ← readLE 1 r
  let phase ← Phase.ofCode code
  let (round, r) ← readLE 4 r
  let (sourceHeight, r) ← readLE 8 r
  let (sourceHash, r) ← readHash r
  let (targetHeight, r) ← readLE 8 r
  let (targetHash, r) ← readHash r
  let (pk, signature) ← takeN pubkeyBytes r
  let source : CheckpointRef := ⟨UInt64.ofNat sourceHeight, sourceHash⟩
  let target : CheckpointRef := ⟨UInt64.ofNat targetHeight, targetHash⟩
  guard (sourceRefWellFormed source target ∧
    isScheduledCheckpoint target.height.toNat ∧ epochOf target.height.toNat = epochId)
  return ⟨epochId, setRoot, phase, round, source, target, toHex pk, signature⟩

/-- The last vote of a journal, behind the byte that announces it. -/
def readJournalVote (hasVote : Nat) (bytes : Bytes) : Option (Option SignedVote) :=
  if hasVote = 1 then
    if bytes.length = signedVoteWireBytes then (decodeSignedVoteWire bytes).map some else none
  else if bytes = [] then some none else none

def journalVote : Option SignedVote → Bytes
  | none => putLE 1 0
  | some v => putLE 1 1 ++ encodeSignedVoteWire v

def journalBody (j : DaemonJournal) : Bytes :=
  ascii "VFJ1" ++ (putLE 4 j.version ++ (putLE 1 j.lock.held.toNat ++ (putLE 8 j.lock.epochId ++
    (putLE 4 j.lock.round ++ (putLE 8 j.lock.target.height.toNat ++ (j.lock.target.hash.bytes ++
      journalVote j.lastVote))))))

section
variable (K : Context)

def journalChecksum (body : Bytes) : Hash256 :=
  sha256Domain K.sha256 "VELD_FINALITY_DAEMON_JOURNAL_v1|" body

/-- `encode_finality_journal`; nothing when the vote has no wire form. -/
def encodeFinalityJournal (j : DaemonJournal) : Bytes :=
  if j.lastVote.all fun v => (encodeSignedVoteWire v).length = signedVoteWireBytes then
    journalBody j ++ (journalChecksum K (journalBody j)).bytes
  else []

def journalBase : Nat := 4 + 4 + 1 + 8 + 4 + 8 + 32 + 1

def decodeFinalityJournal (bytes : Bytes) : Option DaemonJournal := do
  guard (bytes.length = journalBase + 32 ∨ bytes.length = journalBase + signedVoteWireBytes + 32)
  guard (bytes.take 4 = ascii "VFJ1")
  let body := bytes.take (bytes.length - 32)
  guard ((journalChecksum K body).bytes = bytes.drop (bytes.length - 32))
  let (version, r) ← readLE 4 (body.drop 4)
  let (held, r) ← readLE 1 r
  guard (held ≤ 1)
  let (epochId, r) ← readLE 8 r
  let (round, r) ← readLE 4 r
  let (height, r) ← readLE 8 r
  let (hash, r) ← readHash r
  let (hasVote, r) ← readLE 1 r
  guard (hasVote ≤ 1)
  let lastVote ← readJournalVote hasVote r
  return ⟨version, ⟨held ≠ 0, epochId, round, ⟨UInt64.ofNat height, hash⟩⟩, lastVote⟩

end

/-! ## The machine -/

/-- How an atomic write ends: it is reported done; it is reported failed, or the process dies in it,
and the new bytes are there or the old ones are. -/
inductive WriteOutcome where
  | written
  | failed (stored : Bool)
  | crashed (stored : Bool)

/-- The new content is on the disk afterwards. -/
def WriteOutcome.stored : WriteOutcome → Bool
  | written => true
  | failed stored => stored
  | crashed stored => stored

/-- The files of the validator: the journal, the marker of its initialisation, and the journal of an
older version. -/
structure Disk where
  journal : Option Bytes
  marker : Option Bytes
  legacy : Option Bytes

structure DaemonState where
  lock : Lock
  journal : DaemonJournal
  journalInvalid : Bool
  journalVoteDelivered : Bool
  latestPrevoteQc : Option DecodedQc
  /-- `expected_` of the journal object: what it last read or wrote. -/
  expected : Bytes

structure Validator where
  disk : Disk
  /-- The running daemon. -/
  daemon : Option DaemonState
  /-- The votes that were gossiped, the last one first. -/
  sent : List SignedVote

/-- What the restart meets: reading fails, or how the two initial writes end. -/
structure LoadEnv where
  readError : Bool
  initJournal : WriteOutcome
  initMarker : WriteOutcome

def journalMarker : Bytes := ascii "VFJ-SAFETY-1\n"

/-- What `Load` comes back with: a journal and the bytes it stands for, a journal that stops the
daemon, or nothing because the process died. -/
inductive Loaded where
  | ready (journal : DaemonJournal) (expected : Bytes)
  | invalid
  | crashed

section
variable (K : Context)

/-- The end of `Load`: the marker is written if it is not there yet. -/
def finishLoad (env : LoadEnv) (disk : Disk) (bytes : Bytes) : Disk × Loaded :=
  match decodeFinalityJournal K bytes with
  | none => (disk, .invalid)
  | some journal =>
    match disk.marker with
    | some _ => (disk, .ready journal bytes)
    | none =>
      let disk := if env.initMarker.stored then { disk with marker := some journalMarker } else disk
      match env.initMarker with
      | .written => (disk, .ready journal bytes)
      | .failed _ => (disk, .invalid)
      | .crashed _ => (disk, .crashed)

/-- `DurableFinalityJournal::Load`. -/
def loadJournal (env : LoadEnv) (disk : Disk) : Disk × Loaded :=
  if env.readError || disk.marker.any (· ≠ journalMarker) then (disk, .invalid)
  else
    match disk.journal with
    | some bytes => finishLoad K env disk bytes
    | none =>
      if disk.marker.isSome then (disk, .invalid)
      else
        let bytes := disk.legacy.getD (encodeFinalityJournal K .fresh)
        if (decodeFinalityJournal K bytes).isNone then (disk, .invalid)
        else
          let disk := if env.initJournal.stored then { disk with journal := some bytes } else disk
          match env.initJournal with
          | .written => finishLoad K env disk bytes
          | .failed _ => (disk, .invalid)
          | .crashed _ => (disk, .crashed)

end

def journalAccepted (pubkeyHex : Bytes) (j : DaemonJournal) : Bool :=
  j.version = 1 &&
    (!j.lock.held || (isScheduledCheckpoint j.lock.target.height.toNat &&
      epochOf j.lock.target.height.toNat = j.lock.epochId &&
      checkpointRound j.lock.target.height.toNat = j.lock.round)) &&
    j.lastVote.all fun v => isScheduledCheckpoint v.target.height.toNat &&
      epochOf v.target.height.toNat = v.epochId && checkpointRound v.target.height.toNat = v.round &&
      v.pubkeyHex = pubkeyHex &&
      (v.phase ≠ .precommit || (j.lock.held && j.lock.epochId = v.epochId &&
        j.lock.round = v.round && j.lock.target = v.target))

def stoppedDaemon : DaemonState := ⟨Lock.free, .fresh, true, false, none, []⟩

/-- The constructor: the journal is loaded and its lock is restored. -/
def construct (pubkeyHex : Bytes) : Loaded → Option DaemonState
  | .crashed => none
  | .invalid => some stoppedDaemon
  | .ready journal expected =>
    some (if journalAccepted pubkeyHex journal then ⟨journal.lock, journal, false, false, none, expected⟩
      else stoppedDaemon)

def restart (K : Context) (pubkeyHex : Bytes) (env : LoadEnv) (m : Validator) : Validator :=
  let (disk, loaded) := loadJournal K env m.disk
  { m with disk := disk, daemon := construct pubkeyHex loaded }

/-! ## A tick -/

structure WorkGrant where
  live : Bool
  liveAfterSigning : Bool
  liveBeforeGossip : Bool

/-- How the submission of a vote ends. -/
inductive GossipOutcome where
  | sent
  | refused
  | threw
  | crashed (left : Bool)

structure TickEnv where
  tip : UInt64
  snapshot : Nat → Option EpochSnapshot
  prevoteQc : Option DecodedQc
  blockHash : UInt64 → Option Hash256
  authorizeTarget : CheckpointRef → Bool
  finalized : Option FinalizedRecord
  grant : Option WorkGrant
  /-- What `dilithium::Sign` returns. -/
  signature : Bytes
  persist : WriteOutcome
  gossip : GossipOutcome

def newestVotableCheckpoint (tip : UInt64) : UInt64 :=
  if tip = 0 then 0 else (tip - 1) / 20 * 20

section
variable (K : Context) (pubkeyHex : Bytes)

def observePrevoteQc (qc : DecodedQc) (snapshot : EpochSnapshot) (st : DaemonState) : DaemonState :=
  match verifyDecodedQc K qc snapshot with
  | some verified =>
    if verified.qc.phase = .prevote then { st with latestPrevoteQc := some verified } else st
  | none => st

/-- The certificate in memory is for exactly this claim. -/
def prevoteQcMatches (st : DaemonState) (snapshot : EpochSnapshot) (source target : CheckpointRef)
    (round : Nat) : Bool :=
  st.latestPrevoteQc.any fun d => d.qc.epochId = snapshot.epochId && d.qc.source = source &&
    d.qc.target = target && d.qc.round = round

/-- What the last vote of the journal allows. -/
inductive JournalVerdict where
  | proceed
  | refuse
  | spoil
  | resend (last : SignedVote)
  deriving DecidableEq

def lastSnapshot (env : TickEnv) (snapshot : EpochSnapshot) (last : SignedVote) : Option EpochSnapshot :=
  if last.epochId = snapshot.epochId then some snapshot
  else (env.snapshot last.epochId).filter fun s => snapshotQualifies K s && s.epochId = last.epochId

/-- The frame rules of `Tick`: no vote in an older frame, in the frame of the last vote only its own
claim, and of that only the step from prevote to precommit. -/
def journalVerdict (env : TickEnv) (st : DaemonState) (snapshot : EpochSnapshot)
    (source target : CheckpointRef) (round : Nat) : JournalVerdict :=
  match st.journal.lastVote with
  | none => .proceed
  | some last =>
    if !(lastSnapshot K env snapshot last).any (verifyVote K last) then .spoil
    else if last.epochId = snapshot.epochId ∧ last.round = round then
      if last.source = source ∧ last.target = target then
        if last.phase = .precommit ∨ prevoteQcMatches st snapshot source target round = false then
          if st.journalVoteDelivered then .refuse else .resend last
        else .proceed
      else .refuse
    else if consensusRoundNewer snapshot.epochId round last.epochId last.round then .proceed
    else .refuse

end

/-- The daemon after its work on the machine. -/
def Validator.running (m : Validator) (st : DaemonState) : Validator := { m with daemon := some st }

/-- `gossip_vote` and what follows it. -/
def gossipVote (outcome : GossipOutcome) (vote : SignedVote) (finish : DaemonState → DaemonState)
    (st : DaemonState) (m : Validator) : Validator :=
  match outcome with
  | .sent =>
    { m with daemon := some { finish st with journalVoteDelivered := true }, sent := vote :: m.sent }
  | .refused => { m with daemon := some (finish st), sent := vote :: m.sent }
  | .threw => { m with daemon := some st, sent := vote :: m.sent }
  | .crashed left => { m with daemon := none, sent := if left then vote :: m.sent else m.sent }

/-- `Persist_` over `DurableFinalityJournal::Persist`: the journal on the disk must be the one that was
last written. -/
def persistThen (K : Context) (outcome : WriteOutcome) (next : DaemonJournal) (st : DaemonState)
    (m : Validator) (andThen : DaemonState → Validator → Validator) : Validator :=
  let bytes := encodeFinalityJournal K next
  if m.disk.journal ≠ some st.expected ∨ bytes = [] then m.running { st with journalInvalid := true }
  else
    let m := if outcome.stored then { m with disk := { m.disk with journal := some bytes } } else m
    match outcome with
    | .written => andThen { st with journal := next, journalVoteDelivered := false, expected := bytes } m
    | .failed _ => m.running { st with journalInvalid := true }
    | .crashed _ => { m with daemon := none }

def castVote (K : Context) (env : TickEnv) (grant : WorkGrant) (vote : SignedVote)
    (finish : DaemonState → DaemonState) (st : DaemonState) (m : Validator) : Validator :=
  if grant.liveAfterSigning then
    persistThen K env.persist ⟨1, st.lock, some vote⟩ st m fun st m =>
      if grant.liveBeforeGossip then gossipVote env.gossip vote finish st m else m.running st
  else m.running st

section
variable (K : Context) (pubkeyHex : Bytes) (env : TickEnv)

def extendsLock (lock : Lock) (target : CheckpointRef) : Bool :=
  lock.held && target ≠ lock.target && lock.target.height < target.height &&
    env.blockHash lock.target.height = some lock.target.hash

def precommitStep (grant : WorkGrant) (snapshot : EpochSnapshot) (round : Nat)
    (source target : CheckpointRef) (st : DaemonState) (m : Validator) : Validator :=
  match st.latestPrevoteQc.bind fun qc =>
      precommit K pubkeyHex st.lock snapshot round source target qc env.signature with
  | some (vote, lock) =>
    castVote K env grant vote (fun st => { st with latestPrevoteQc := none }) { st with lock := lock } m
  | none => m.running st

def prevoteStep (grant : WorkGrant) (snapshot : EpochSnapshot) (round : Nat)
    (source target : CheckpointRef) (st : DaemonState) (m : Validator) : Validator :=
  match prevote K pubkeyHex st.lock snapshot round source target none (extendsLock env st.lock target)
      env.signature with
  | some vote => castVote K env grant vote id st m
  | none => m.running st

/-- The part of `Tick` that needs a work grant. -/
def withGrant (st : DaemonState) (m : Validator) (work : WorkGrant → Validator) : Validator :=
  match env.grant with
  | some grant => if grant.live then work grant else m.running st
  | none => m.running st

/-- `Tick` once the target is known. -/
def tickTarget (snapshot : EpochSnapshot) (target : CheckpointRef) (st : DaemonState) (m : Validator) :
    Validator :=
  let source := (env.finalized.map (·.target)).getD CheckpointRef.null
  let round := checkpointRound target.height.toNat
  match journalVerdict K env st snapshot source target round with
  | .refuse => m.running st
  | .spoil => m.running { st with journalInvalid := true }
  | .resend last => withGrant env st m fun _ => gossipVote env.gossip last id st m
  | .proceed =>
    withGrant env st m fun grant =>
      if prevoteQcMatches st snapshot source target round then
        precommitStep K pubkeyHex env grant snapshot round source target st m
      else prevoteStep K pubkeyHex env grant snapshot round source target st m

/-- `Tick` of a daemon that may sign. -/
def tickRunning (st : DaemonState) (m : Validator) : Validator :=
  let targetHeight := newestVotableCheckpoint env.tip
  if targetHeight = 0 then m.running st
  else
    match (env.snapshot (epochOf targetHeight.toNat)).filter fun s =>
        snapshotQualifies K s && s.epochId = epochOf targetHeight.toNat with
    | none => m.running st
    | some snapshot =>
      let st := env.prevoteQc.elim st fun qc => observePrevoteQc K qc snapshot st
      match env.blockHash targetHeight with
      | none => m.running st
      | some hash =>
        if inVoteWindow targetHeight.toNat env.tip.toNat && env.authorizeTarget ⟨targetHeight, hash⟩ then
          tickTarget K pubkeyHex env snapshot ⟨targetHeight, hash⟩ st m
        else m.running st

end

/-- What can happen to a validator. -/
inductive Event where
  | restart (env : LoadEnv)
  | tick (env : TickEnv)
  | observe (qc : DecodedQc) (snapshot : EpochSnapshot)
  | crash

/-- One event. Ticks and certificates reach a running daemon only. -/
def step (K : Context) (pubkeyHex : Bytes) (m : Validator) : Event → Validator
  | .restart env => restart K pubkeyHex env m
  | .crash => { m with daemon := none }
  | .observe qc snapshot => { m with daemon := m.daemon.map (observePrevoteQc K qc snapshot) }
  | .tick env =>
    match m.daemon with
    | none => m
    | some st => if st.journalInvalid then m else tickRunning K pubkeyHex env st m

/-- A validator whose files are given, before its first start. -/
def Validator.off (disk : Disk) : Validator := ⟨disk, none, []⟩

def run (K : Context) (pubkeyHex : Bytes) (m : Validator) (events : List Event) : Validator :=
  events.foldl (step K pubkeyHex) m

end Veld.Finality
