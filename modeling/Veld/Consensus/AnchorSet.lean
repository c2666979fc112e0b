import Veld.Lib.Table
import Veld.Consensus.FinalityState

/-!
# Bitcoin anchors

`AnchorSet` of `consensus/btcveld_anchor.h`, the two calls of `node/node.h` that feed it (`FeedAnchors_`
and `PromoteFinalizedAnchors_`), and the floor store of `consensus/btcveld_anchor_floor_store.h`.
-/

namespace Veld.Anchors

open Wire Finality

def acceptWindow : Nat := 1000
def pendingCap : Nat := acceptWindow + 1

def targetInWindow (target carrying : Nat) : Bool := target ≤ carrying && carrying - target ≤ acceptWindow

/-- `BtcVeldAnchorActive`. -/
def anchorActive (finalizedHeight : Nat) : Bool := 0 < finalizedHeight

/-- `BtcVeldAnchorTargetValid`. -/
def anchorTargetValid (r : FinalizedRecord) (target : Nat) (hash : Hash256) (carrying : Nat) : Bool :=
  !r.isNull && anchorActive r.target.height.toNat && target ≠ 0 && target ≤ r.target.height.toNat &&
    targetInWindow target carrying && (target ≠ r.target.height.toNat || hash = r.target.hash)

/-- What `VerifyAnchor` has read from a proof. -/
structure AnchorResult where
  veldHeight : Nat
  veldBlockHash : Hash256
  btcBlockHash : Hash256
  btcTxid : Hash256

structure Entry where
  veldBlockHash : Hash256
  carryingVeldHeight : Nat
  carryingVeldHash : Hash256
  btcBlockHash : Hash256
  btcTxid : Hash256
  authorizationVeldHeight : Nat
  authorizationVeldHash : Hash256
  authorizationFinalityDigest : Hash256
  deriving DecidableEq

structure PermanentCheckpoint where
  targetHeight : Nat
  entry : Entry
  authorizationRecord : FinalizedRecord
  deriving DecidableEq

structure AnchorSet where
  anchored : Table Nat Entry
  pending : Table Nat Entry
  permanent : Option PermanentCheckpoint
  used : Finset Hash256
  highWater : Nat
  retainFrom : Nat
  retiredCount : Nat
  retiredRoot : Hash256

def AnchorSet.empty : AnchorSet := ⟨∅, ∅, none, ∅, 0, 0, 0, .zero⟩

/-! ## Retirement -/

section
variable (K : Context)

/-- `FoldRetiredLocked_`. -/
def foldRetired (height : Nat) (e : Entry) (s : AnchorSet) : AnchorSet :=
  { s with
    retiredCount := s.retiredCount + 1
    retiredRoot := sha256Domain K.sha256 "VELD_ANCHOR_RETIRED_v3|"
      (s.retiredRoot.bytes ++ putLE 8 height ++ e.veldBlockHash.bytes ++ putLE 8 e.carryingVeldHeight ++
        e.carryingVeldHash.bytes ++ e.btcBlockHash.bytes ++ e.btcTxid.bytes ++ putLE 8 e.authorizationVeldHeight ++
        e.authorizationVeldHash.bytes ++ e.authorizationFinalityDigest.bytes) }

/-- One promoted target leaves the window. -/
def retire (s : AnchorSet) (height : Nat) : AnchorSet :=
  match s.anchored.lookup height with
  | none => s
  | some e =>
    let s := foldRetired K height e s
    { s with used := s.used.erase e.btcTxid, anchored := s.anchored.erase height }

def sortedKeys (t : Table Nat Entry) (p : Nat → Entry → Bool) : List Nat :=
  ((t.keep p).keys).mergeSort fun a b => decide (a ≤ b)

/-- `AdvanceHeightLocked_`. -/
def advanceHeight (canonicalHeight : Nat) (s : AnchorSet) : AnchorSet :=
  let nextFloor := canonicalHeight - acceptWindow
  if nextFloor ≤ s.retainFrom then s
  else
    let s := (sortedKeys s.anchored fun height _ => height < nextFloor).foldl (retire K) s
    { s with retainFrom := nextFloor }

/-! ## Staging -/

def stage (r : AnchorResult) (carryingHeight : Nat) (carryingHash : Hash256) (s : AnchorSet) : AnchorSet :=
  if carryingHeight < r.veldHeight ∨ carryingHash = .zero ∨ r.btcBlockHash = .zero then s
  else
    let s := advanceHeight K carryingHeight s
    if r.veldHeight < s.retainFrom ∨ (s.anchored.lookup r.veldHeight).isSome ∨
        (s.pending.lookup r.veldHeight).isSome ∨ r.btcTxid ∈ s.used ∨
        pendingCap ≤ s.pending.entries.length then s
    else { s with
      used := insert r.btcTxid s.used
      pending := s.pending.insert r.veldHeight
        ⟨r.veldBlockHash, carryingHeight, carryingHash, r.btcBlockHash, r.btcTxid, 0, .zero, .zero⟩ }

/-! ## Promotion -/

structure PromotionResult where
  ok : Bool
  promoted : Nat
  droppedBtcReorg : Nat
  deriving DecidableEq

def PromotionResult.failed : PromotionResult := ⟨false, 0, 0⟩

/-- A staged proof whose Bitcoin block is gone. -/
def dropPending (target : Nat) (e : Entry) (s : AnchorSet) : AnchorSet :=
  { s with used := s.used.erase e.btcTxid, pending := s.pending.erase target }

/-- A staged proof with the record that lets it in. -/
def authorize (auth : FinalizedRecord) (e : Entry) : Entry :=
  { e with
    authorizationVeldHeight := auth.carrier.height.toNat
    authorizationVeldHash := auth.carrier.hash
    authorizationFinalityDigest := recordDigest K auth }

/-- A staged proof becomes an anchor; one that is older than the window is only counted. -/
def installAnchor (auth : FinalizedRecord) (target : Nat) (staged : Entry) (s : AnchorSet) : AnchorSet :=
  let e := authorize K auth staged
  let s := { s with pending := s.pending.erase target }
  let s := if target < s.retainFrom then
      let s := foldRetired K target e s
      { s with used := s.used.erase e.btcTxid }
    else { s with anchored := s.anchored.insert target e }
  { s with
    highWater := max s.highWater target
    permanent := match s.permanent with
      | none => some ⟨target, e, auth⟩
      | some p => if p.targetHeight < target then some ⟨target, e, auth⟩ else some p }

section
variable (resolveCarrier : Nat → Option Hash256) (isBtcFinal : Hash256 → Bool) (auth : FinalizedRecord)

/-- The last loop of `PromoteFinalized`. -/
def promoteLoop : List Nat → PromotionResult → AnchorSet → PromotionResult × AnchorSet
  | [], result, s => (result, s)
  | target :: rest, result, s =>
    match s.pending.lookup target with
    | none => (.failed, s)
    | some e =>
      if !isBtcFinal e.btcBlockHash then
        promoteLoop rest { result with droppedBtcReorg := result.droppedBtcReorg + 1 } (dropPending target e s)
      else if auth.target.height.toNat < e.carryingVeldHeight ∨ auth.carrier.height.toNat < e.carryingVeldHeight then
        (.failed, s)
      else
        promoteLoop rest { result with promoted := result.promoted + 1 } (installAnchor K auth target e s)

/-- The record that a promotion rests on, and the carrier of the last one. -/
def authorizationValid (finalizedHeight : Nat) (s : AnchorSet) : Bool :=
  !auth.isNull && auth.phase = .precommit && auth.target.height.toNat = finalizedHeight &&
    auth.target.height ≤ auth.carrier.height && auth.carrier.hash ≠ Hash256.zero &&
    recordDigest K auth ≠ Hash256.zero &&
    s.permanent.all fun p =>
      p.authorizationRecord.isNull ||
        resolveCarrier p.authorizationRecord.carrier.height.toNat = some p.authorizationRecord.carrier.hash

def promoteFinalized (finalizedHeight : Nat) (s : AnchorSet) : PromotionResult × AnchorSet :=
  let eligible := sortedKeys s.pending fun _ e => e.carryingVeldHeight ≤ finalizedHeight
  if eligible ≠ [] && !authorizationValid K resolveCarrier auth finalizedHeight s then (.failed, s)
  else if !(eligible.all fun target => (s.pending.lookup target).any fun e =>
      resolveCarrier e.carryingVeldHeight = some e.carryingVeldHash) then (.failed, s)
  else promoteLoop K isBtcFinal auth eligible ⟨true, 0, 0⟩ s

end

/-! ## Fork choice -/

def AnchorSet.allows (s : AnchorSet) (height : Nat) (hash : Hash256) : Bool :=
  (s.permanent.all fun p => p.targetHeight ≠ height || p.entry.veldBlockHash = hash) &&
    (s.anchored.lookup height).all fun e => e.veldBlockHash = hash

def AnchorSet.permanentReorgPermitted (s : AnchorSet) (commonAncestorHeight : Nat) : Bool :=
  s.permanent.all fun p =>
    let carrier :=
      if !p.authorizationRecord.isNull then p.authorizationRecord.carrier.height.toNat
      else if p.entry.authorizationVeldHeight ≠ 0 then p.entry.authorizationVeldHeight
      else p.entry.carryingVeldHeight
    carrier ≤ commonAncestorHeight

/-! ## The calls of the node -/

/-- One proof of a block, in the loop of `FeedAnchors_`. -/
def feedAnchor (chain : List Hash256) (blockHash : Hash256) (f : FinalityState) (s : AnchorSet) (r : AnchorResult) :
    AnchorSet :=
  let height := chain.length
  if r.veldHeight ≤ f.finalizedHeight ∧ anchorTargetValid f.record r.veldHeight r.veldBlockHash height ∧
      r.veldHeight ≤ height ∧ (chain ++ [blockHash])[r.veldHeight]? = some r.veldBlockHash ∧
      targetInWindow r.veldHeight height = true then
    stage K r height blockHash s
  else s

/-- `FeedAnchors_`. The state of finality has been told the height. -/
def feedAnchors (chain : List Hash256) (blockHash : Hash256) (proofs : List AnchorResult) (f : FinalityState)
    (s : AnchorSet) : AnchorSet :=
  let s := advanceHeight K chain.length s
  if !f.anchorWarmupComplete || f.record.isNull || !anchorActive f.record.target.height.toNat then s
  else proofs.foldl (feedAnchor K chain blockHash f) s

def promoteFinalizedAnchors (chain : List Hash256) (isBtcFinal promoteObserved : Hash256 → Bool)
    (f : FinalityState) (s : AnchorSet) : Option (FinalityState × AnchorSet) :=
  let auth := f.anchorAuthorizationRecord
  if auth.isNull || !anchorActive auth.target.height.toNat then some (f, s)
  else
    let (promotion, s) := promoteFinalized K (fun h => chain[h]?) isBtcFinal auth auth.target.height.toNat s
    if !promotion.ok then none
    else if promotion.promoted = 0 then some (f, s)
    else if s.permanent.any fun p => promoteObserved p.entry.btcBlockHash then
      some ({ f with everPromotedAnchor := true }, s)
    else none

end

/-! ## The floor store -/

structure FloorRecord where
  networkMagic : Nat
  genesisHash : Hash256
  checkpoint : PermanentCheckpoint
  floorDigest : Hash256
  deriving DecidableEq

section
variable (K : Context)

/-- `CanonicalPrefix`. -/
def floorBody (networkMagic : Nat) (genesisHash : Hash256) (p : PermanentCheckpoint) : Bytes :=
  ascii "VLF1" ++ putLE 4 networkMagic ++ genesisHash.bytes ++ putLE 8 p.targetHeight ++
    p.entry.veldBlockHash.bytes ++ putLE 8 p.entry.carryingVeldHeight ++ p.entry.carryingVeldHash.bytes ++
    p.entry.btcBlockHash.bytes ++ p.entry.btcTxid.bytes ++ putLE 8 p.authorizationRecord.epochId ++
    putLE 8 p.authorizationRecord.target.height.toNat ++ p.authorizationRecord.target.hash.bytes ++
    p.authorizationRecord.setRoot.bytes ++ putLE 4 p.authorizationRecord.round ++
    putLE 1 p.authorizationRecord.phase.code ++ p.authorizationRecord.certCommit.bytes ++
    putLE 8 p.authorizationRecord.carrier.height.toNat ++ p.authorizationRecord.carrier.hash.bytes ++
    putLE 8 p.authorizationRecord.retentionFloor

def computeFloorDigest (networkMagic : Nat) (genesisHash : Hash256) (p : PermanentCheckpoint) : Hash256 :=
  sha256Domain K.sha256 "VELD_ANCHOR_LOCAL_FLOOR_V1|" (floorBody networkMagic genesisHash p)

def validateCheckpoint (p : PermanentCheckpoint) : Except String Unit :=
  let e := p.entry
  let f := p.authorizationRecord
  if p.targetHeight = 0 ∨ e.veldBlockHash = .zero then .error "VLF1 target T is null"
  else if e.carryingVeldHeight ≤ p.targetHeight ∨ e.carryingVeldHash = .zero then
    .error "VLF1 proof carrier A must be exact and later than T"
  else if !targetInWindow p.targetHeight e.carryingVeldHeight then
    .error "VLF1 proof carrier A is outside the anchor admission window"
  else if e.btcBlockHash = .zero ∨ e.btcTxid = .zero then
    .error "VLF1 Bitcoin proof identity is null"
  else if f.isNull then .error "VLF1 authorization record is null"
  else if f.phase ≠ .precommit then .error "VLF1 authorization is not a PRECOMMIT record"
  else if f.epochId = 0 ∨ isScheduledCheckpoint f.target.height.toNat = false ∨
      f.epochId ≠ epochOf f.target.height.toNat ∨ f.round ≠ checkpointRound f.target.height.toNat then
    .error "VLF1 authorization target/epoch/round is inconsistent"
  else if f.target.hash = .zero ∨ f.setRoot = .zero ∨ f.certCommit = .zero ∨
      f.carrier.hash = .zero then .error "VLF1 authorization contains a null commitment"
  else if inVoteWindow f.target.height.toNat f.carrier.height.toNat = false ∨
      f.retentionFloor ≠ f.target.height.toNat then
    .error "VLF1 authorization carrier/retention fields are inconsistent"
  else if f.target.height.toNat < e.carryingVeldHeight then
    .error "VLF1 finality target does not cover proof carrier A"
  else if e.carryingVeldHeight = f.target.height.toNat ∧ e.carryingVeldHash ≠ f.target.hash then
    .error "VLF1 proof carrier A conflicts with finality target at the same height"
  else if e.authorizationVeldHeight ≠ f.carrier.height.toNat ∨ e.authorizationVeldHash ≠ f.carrier.hash ∨
      e.authorizationFinalityDigest ≠ recordDigest K f then
    .error "VLF1 redundant authorization fields conflict with full record"
  else .ok ()

/-- `Validate`. -/
def validateFloor (r : FloorRecord) : Except String Unit := do
  if r.genesisHash = .zero then .error "VLF1 genesis identity is null"
  validateCheckpoint K r.checkpoint
  if r.floorDigest ≠ computeFloorDigest K r.networkMagic r.genesisHash r.checkpoint then
    .error "VLF1 floor digest mismatch"

/-- `Make`. -/
def makeFloor (networkMagic : Nat) (genesisHash : Hash256) (p : PermanentCheckpoint) : Except String FloorRecord := do
  if genesisHash = .zero then .error "VLF1 genesis identity is null"
  validateCheckpoint K p
  return ⟨networkMagic, genesisHash, p, computeFloorDigest K networkMagic genesisHash p⟩

inductive MergeResult where
  | installed
  | advanced
  | idempotent
  | rejected (error : String)
  deriving DecidableEq

def classify (current : Option FloorRecord) (incoming : FloorRecord) : MergeResult :=
  match validateFloor K incoming with
  | .error error => .rejected error
  | .ok () =>
    match current with
    | none => .installed
    | some c =>
      if incoming.networkMagic ≠ c.networkMagic ∨ incoming.genesisHash ≠ c.genesisHash then
        .rejected "VLF1 merge changes network or genesis identity"
      else if incoming.floorDigest = c.floorDigest ∧
          floorBody incoming.networkMagic incoming.genesisHash incoming.checkpoint =
            floorBody c.networkMagic c.genesisHash c.checkpoint then .idempotent
      else if incoming.checkpoint.targetHeight ≤ c.checkpoint.targetHeight then
        .rejected "VLF1 merge is lower or conflicts at the current T"
      else if incoming.checkpoint.authorizationRecord.carrier.height ≤
          c.checkpoint.authorizationRecord.carrier.height then
        .rejected "VLF1 merge must advance finality carrier C with T"
      else .advanced

end

/-! ## Blocks -/

structure Node where
  chain : List Hash256
  finality : FinalityState
  anchors : AnchorSet

def Node.initial : Node := ⟨[], .initial, .empty⟩

/-- What a block brings: its hash, its anchor proofs, its certificate, and what the Bitcoin headers and the
validator registry answer at its height. -/
structure BlockInput where
  hash : Hash256
  proofs : List AnchorResult
  cert : Option DecodedQc
  isBtcFinal : Hash256 → Bool
  promoteObserved : Hash256 → Bool
  snapshot : EpochSnapshot

/-- The part of the module transition of `node/node.h` that concerns finality and anchors. -/
def applyBlock (K : Context) (b : BlockInput) (n : Node) : Option Node := do
  let f := n.finality.onBlockHeight n.chain.length
  let s := feedAnchors K n.chain b.hash b.proofs f n.anchors
  let f ← f.feedFinalityCerts K n.chain b.hash b.cert
  let (f, s) ← promoteFinalizedAnchors K n.chain b.isBtcFinal b.promoteObserved f s
  let f ← f.maybeSnapshotEpoch K n.chain.length b.snapshot
  return ⟨n.chain ++ [b.hash], f, s⟩

end Veld.Anchors
