import Veld.Consensus.Validators
import Veld.Core.BlockRules

/-!
# The staking ledger

`StakingLedger` of `consensus/staking.h` and the grammar of `core/stake_marker.h`. A stake is a record of
its owner's address; once outpoint backing is active, each record names the unspent output that backs it,
and a transaction may spend that output only as the unlock that releases it.
-/

namespace Veld.Staking

open Wire Chain

def maxVaultPayoutStakers : Nat := maxTransactionOutputs - 2
def maxStakeUnits : Nat := 10000 * 100000000
def unstakeHistoryCap : Nat := 43200
def noVout : UInt32 := 0xFFFFFFFF

/-- The build and the node's configuration of the ledger. -/
structure Env where
  P : Profile
  C : Crypto
  /-- `STAKE_OUTPOINT_BACKING_ACTIVATION_HEIGHT` (0 is never). -/
  backingActivation : Nat
  minStakeUnits : Nat
  protocolUpgradeActive : Nat → Bool
  stakingActivationUnits : Nat
  minStakeOverride : Nat

structure StakeRecord where
  address : Bytes
  amountUnits : Nat
  lockedAtHeight : Nat
  unlockHeight : Nat
  active : Bool
  lockupTier : Nat
  backingTxid : Hash256
  backingVout : UInt32
  deriving DecidableEq

def StakeRecord.backing (r : StakeRecord) : OutPoint := (r.backingTxid, r.backingVout)

structure UnstakeRecord where
  address : Bytes
  amountUnits : Nat
  blockHeight : Nat
  deriving DecidableEq

structure StakingLedger where
  stakes : Table Bytes (List StakeRecord)
  unstakeHistory : List UnstakeRecord
  totalStake : Nat
  pendingDistributionHeight : Nat

def StakingLedger.empty : StakingLedger := ⟨∅, [], 0, 0⟩

def StakingLedger.records (s : StakingLedger) : List StakeRecord := s.stakes.entries.flatMap Sigma.snd

/-! ## Operations -/

inductive Action where
  | lock
  | unlock
  deriving DecidableEq

structure CanonicalStakeOp where
  action : Action
  address : Bytes
  amountUnits : Nat
  lockupTier : Nat
  deriving DecidableEq

def stakePrefix : String := "VELD_STAKE|"

def parseCanonicalStakeOp (payload : Bytes) : Option CanonicalStakeOp :=
  if startsWith payload "VELD_STAKE|LOCK|" then
    match fields 124 (behind payload "VELD_STAKE|LOCK|") with
    | [address, amountText, [0x54, tier]] =>
      if address = [] ∨ tier < 49 ∨ 52 < tier then none
      else (readDecimal uint64Max amountText).map fun amount => ⟨.lock, address, amount, tier.toNat - 48⟩
    | _ => none
  else if startsWith payload "VELD_STAKE|UNLOCK|" then
    match fields 124 (behind payload "VELD_STAKE|UNLOCK|") with
    | [address, amountText] =>
      if address = [] then none
      else (readDecimal uint64Max amountText).map fun amount => ⟨.unlock, address, amount, 0⟩
    | _ => none
  else none

def stakeUnlockPreservesMinimum (current mature requested effectiveMin : Nat) : Bool :=
  mature ≤ current &&
    (current - min requested mature = 0 || effectiveMin ≤ current - min requested mature)

/-- `LOCKUP_TIERS[tier - 1].blocks`. -/
def lockupTierBlocks (tier : Nat) : Nat :=
  match tier with
  | 2 => 14 * blocksPerDay
  | 3 => 30 * blocksPerDay
  | 4 => 90 * blocksPerDay
  | _ => 7 * blocksPerDay

section
variable (env : Env)

def stakeOutpointBackingActive (height : Nat) : Bool :=
  env.backingActivation ≠ 0 && env.backingActivation ≤ height

def minimumStakeAtHeight (height : Nat) : Nat :=
  if env.protocolUpgradeActive height then env.minStakeUnits / 2 else env.minStakeUnits

def effectiveMinStake (height : Nat) : Nat :=
  if 0 < env.minStakeOverride then env.minStakeOverride else minimumStakeAtHeight env height

def recordEconomicallyBacked (r : StakeRecord) : Bool :=
  r.active && (env.backingActivation = 0 || r.backingVout ≠ noVout)

def backedUnits (records : List StakeRecord) : Nat :=
  ((records.filter (recordEconomicallyBacked env)).map StakeRecord.amountUnits).sum

/-- The record can leave at the height. -/
def matured (height : Nat) (r : StakeRecord) : Bool :=
  recordEconomicallyBacked env r && r.unlockHeight ≤ height

/-! ## Unlock plans -/

structure UnlockPlan where
  consumed : List StakeRecord
  backingInputUnits : Nat
  residualUnits : Nat
  valid : Bool

def UnlockPlan.invalid : UnlockPlan := ⟨[], 0, 0, false⟩

/-- The loop of `PlanUnlockLocked`. -/
def planUnlockFrom (height : Nat) : List StakeRecord → Nat → UnlockPlan → UnlockPlan
  | [], _, plan => plan
  | r :: rest, remaining, plan =>
    if !matured env height r then planUnlockFrom height rest remaining plan
    else if uint64Max - r.amountUnits < plan.backingInputUnits then .invalid
    else if remaining ≤ r.amountUnits then
      ⟨plan.consumed ++ [r], plan.backingInputUnits + r.amountUnits, r.amountUnits - remaining, true⟩
    else
      planUnlockFrom height rest (remaining - r.amountUnits)
        ⟨plan.consumed ++ [r], plan.backingInputUnits + r.amountUnits, plan.residualUnits, plan.valid⟩

/-- `PlanUnlockLocked`. -/
def planUnlock (s : StakingLedger) (address : Bytes) (requested height : Nat) : UnlockPlan :=
  if requested = 0 then .invalid
  else match s.stakes.lookup address with
    | none => .invalid
    | some records => planUnlockFrom env height records requested .invalid

/-! ## Spends of backing outputs -/

def stakeTexts (tx : Transaction) : List Bytes :=
  (tx.outputs.map fun out => Validators.parseOpReturn out.scriptPubkey).filter fun data => startsWith data stakePrefix

def activeBackings (s : StakingLedger) : List OutPoint :=
  (s.records.filter (recordEconomicallyBacked env)).map StakeRecord.backing

def spentBackings (s : StakingLedger) (tx : Transaction) : Finset OutPoint :=
  ((tx.inputs.map outPointOf).filter (· ∈ activeBackings env s)).toFinset

def ownerScript (address : Bytes) : Bytes := addressToScript env.C.sha256 env.P address

def bindsOutputZero (tx : Transaction) (address : Bytes) (amount : Nat) : Bool :=
  tx.outputs.head?.any fun out => out.value.toNat = amount && out.scriptPubkey = ownerScript env address

def backingSpendMatches (s : StakingLedger) (tx : Transaction) (height : Nat) (op : CanonicalStakeOp) : Bool :=
  let spent := spentBackings env s tx
  match op.action with
  | .lock => spent = ∅ && bindsOutputZero env tx op.address op.amountUnits
  | .unlock =>
    let plan := planUnlock env s op.address op.amountUnits height
    plan.valid && plan.consumed ≠ [] && spent.card = plan.consumed.length &&
      plan.consumed.all (fun r => r.backing ∈ spent) &&
      (plan.residualUnits = 0 || bindsOutputZero env tx op.address plan.residualUnits)

/-- `ValidateBackingSpendLocked`. -/
def validateBackingSpend (s : StakingLedger) (tx : Transaction) (height : Nat) : Bool :=
  match (stakeTexts tx).mapM parseCanonicalStakeOp with
  | none => false
  | some [] => spentBackings env s tx = ∅
  | some [op] =>
    ownerScript env op.address ≠ [] && txVerifiedSignedBy env.P env.C tx op.address &&
      backingSpendMatches env s tx height op
  | some _ => false

/-! ## Applying operations -/

section
variable (supply height : Nat) (tx : Transaction)

/-- An operation that is refused: it rejects the block once backing is active, before that it is ignored. -/
def refuse (s : StakingLedger) : Option StakingLedger :=
  if stakeOutpointBackingActive env height then none else some s

def newRecord (op : CanonicalStakeOp) : StakeRecord where
  address := op.address
  amountUnits := op.amountUnits
  lockedAtHeight := height
  unlockHeight := height + lockupTierBlocks op.lockupTier
  active := true
  lockupTier := op.lockupTier
  backingTxid := if stakeOutpointBackingActive env height then tx.getTxID env.C else Hash256.zero
  backingVout := if stakeOutpointBackingActive env height then 0 else noVout

/-- The `LOCK` branch of `ProcessStakeOp`. -/
def lock (op : CanonicalStakeOp) (s : StakingLedger) : Option StakingLedger :=
  let records := (s.stakes.lookup op.address).getD []
  let current := backedUnits env records
  if op.amountUnits < effectiveMinStake env height then refuse env height s
  else if !txVerifiedSignedBy env.P env.C tx op.address then refuse env height s
  else if supply < env.stakingActivationUnits then refuse env height s
  else if maxStakeUnits < current ∨ maxStakeUnits - current < op.amountUnits then refuse env height s
  else if 10 * Chain.blocksPerYear < lockupTierBlocks op.lockupTier then refuse env height s
  else if current = 0 ∧ maxVaultPayoutStakers ≤ s.stakes.entries.length then none
  else if uint64Max - op.amountUnits < s.totalStake then refuse env height s
  else some { s with
    stakes := s.stakes.insert op.address (records ++ [newRecord env height tx op])
    totalStake := s.totalStake + op.amountUnits }

def rebind (r : StakeRecord) (residual : Nat) : StakeRecord :=
  { r with
    amountUnits := residual
    backingTxid := if stakeOutpointBackingActive env height then tx.getTxID env.C else r.backingTxid
    backingVout := if stakeOutpointBackingActive env height then 0 else r.backingVout }

def consume : List StakeRecord → Nat → List StakeRecord × List Nat
  | [], _ => ([], [])
  | r :: rest, remaining =>
    if !matured env height r then
      let (records, exits) := consume rest remaining
      (r :: records, exits)
    else if remaining = 0 then (r :: rest, [])
    else if r.amountUnits ≤ remaining then
      let (records, exits) := consume rest (remaining - r.amountUnits)
      ({ r with active := false } :: records, r.amountUnits :: exits)
    else
      let (records, exits) := consume rest 0
      (rebind env height tx r (r.amountUnits - remaining) :: records, remaining :: exits)

def release (address : Bytes) (outcome : List StakeRecord × List Nat) (s : StakingLedger) : StakingLedger :=
  let kept := outcome.1.filter StakeRecord.active
  let history := s.unstakeHistory ++ outcome.2.map fun amount => ⟨address, amount, height⟩
  { s with
    stakes := if kept = [] then s.stakes.erase address else s.stakes.insert address kept
    unstakeHistory := history.drop (history.length - unstakeHistoryCap)
    totalStake := outcome.2.foldl (· - ·) s.totalStake }

def unlock (op : CanonicalStakeOp) (s : StakingLedger) : Option StakingLedger :=
  if !txVerifiedSignedBy env.P env.C tx op.address then refuse env height s
  else match s.stakes.lookup op.address with
    | none => refuse env height s
    | some records =>
      let current := backedUnits env records
      let mature := backedUnits env (records.filter fun r => r.unlockHeight ≤ height)
      if uint64Max < current then refuse env height s
      else if !stakeUnlockPreservesMinimum current mature op.amountUnits (effectiveMinStake env height) then
        refuse env height s
      else if stakeOutpointBackingActive env height &&
          !(planUnlock env s op.address op.amountUnits height).valid then none
      else some (release height op.address (consume env height tx records op.amountUnits) s)

def processStakeOp (data : Bytes) (s : StakingLedger) : Option StakingLedger :=
  match parseCanonicalStakeOp data with
  | none => refuse env height s
  | some op =>
    if op.amountUnits = 0 ∨ maxStakeUnits < op.amountUnits then refuse env height s
    else match op.action with
      | .lock => lock env supply height tx op s
      | .unlock => unlock env height tx op s

def processTransaction (s : StakingLedger) : Option StakingLedger :=
  if stakeOutpointBackingActive env height && !validateBackingSpend env s tx height then none
  else (stakeTexts tx).foldlM (fun s data => processStakeOp env supply height tx data s) s

end

/-- `ProcessBlock`, with the supply after the block. -/
def processBlock (supply : Nat) (b : Block) (s : StakingLedger) : Option StakingLedger := do
  let s ← b.transactions.foldlM (fun s tx => processTransaction env supply b.height tx s) s
  return { s with
    pendingDistributionHeight :=
      if 0 < b.height ∧ b.height % vaultDistributionInterval = 0 then b.height else s.pendingDistributionHeight }

def applySlashBondLockup (address : Bytes) (minUnlockHeight : Nat) (s : StakingLedger) : StakingLedger :=
  { s with
    stakes := s.stakes.mapRows fun key records =>
      if key = address then
        records.map fun r =>
          if recordEconomicallyBacked env r then { r with unlockHeight := max r.unlockHeight minUnlockHeight } else r
      else records }

end

end Veld.Staking
