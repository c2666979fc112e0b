import Veld.Core.ChainState

/-!
# Mandatory settlements

The outputs that every node derives at a boundary height for the five custody scripts: the miner pool
lottery, the endorsement flush, the vault distribution, and the bond principal and bond yield
settlements of `core/blockchain.h`.
-/

namespace Veld.Chain

open Wire

/-! ## Parameters -/

def comineWindowBlocks : Nat := 100
def vaultDistributionInterval : Nat := blocksPerDay
def bondSettlementInterval : Nat := blocksPerDay
def lotteryFleetSizeThreshold : Nat := 1000
def lotteryKSmallFleet : Nat := 5
def lotteryKLargeFleet : Nat := 20
def lotteryAggSeedK : Nat := 8
def vaultDistributionPpm : Nat := 80000
def vaultInflowPayoutPpm : Nat := 900000
def vaultConcentrationCapPpm : Nat := 750000
def vaultMinDistributableUnits : Nat := 1000
def slashSlasherPpm : Nat := 250000
def slashVaultPpm : Nat := 250000
def slashEquivSlasherPpm : Nat := 250000
def slashEquivBurnPpm : Nat := 750000

/-- One entry of `bond_settlements_fn_`: an address, 0 for a release, 1 for a slash and 2 for an
equivocation, the units, and the address of the slasher, if any. -/
structure BondRow where
  address : Bytes
  kind : Nat
  units : Nat
  slasher : Bytes
  deriving DecidableEq

/-- The order in which the entries are settled. -/
def BondRow.before (a b : BondRow) : Bool :=
  if a.address ≠ b.address then a.address < b.address
  else if a.kind ≠ b.kind then a.kind < b.kind
  else if a.units ≠ b.units then a.units < b.units
  else a.slasher ≤ b.slasher

/-- What the engines of the node answer on the parent state. -/
structure Engines where
  addressToScript : Bytes → Bytes
  stakingActivationUnits : Nat
  /-- The co-mining credits of each miner script, in the order of the tally. -/
  nmsCredits : List (Bytes × Nat)
  nmsBondSatisfied : Bytes → Bool
  /-- The accepted endorsements of the window, by address. -/
  endorsementCounts : List (Bytes × Nat)
  weightedStake : List (Bytes × Nat)
  bondYieldAddress : Bytes
  bondYieldWeight : Nat
  bondSettlements : List BondRow
  bondYieldSettlements : List BondRow

/-- A script and an amount. -/
abbrev Payout := Bytes × Nat

def payoutTotal (outs : List Payout) : Nat := (outs.map Prod.snd).sum

def changeOutput (script : Bytes) (amount : Nat) : List Payout := if 0 < amount then [(script, amount)] else []

def ppmOf (units rate : Nat) : Nat := units * rate / 1000000

section
variable (C : Crypto) (X : Custody) (E : Engines)

/-! ## The miner pool -/

def eligibleMiners : List Bytes :=
  (E.nmsCredits.filter fun row =>
    row.2 ≠ 0 && row.1 ≠ [] && row.1 ≠ X.vaultScript && row.1 ≠ X.poolScript &&
      row.1 ≠ X.endorsementScript && E.nmsBondSatisfied row.1).map Prod.fst

def lotterySeed (chain : List Block) (prevBlockHash : Hash256) (height : Nat) : Hash256 :=
  let start := height - lotteryAggSeedK
  let headers := (List.range' start (height - start)).map fun h => chain.reverse[h]?
  if headers.all Option.isSome && headers ≠ [] then
    hash256d C.sha256 (headers.flatMap fun b => (b.map fun b => b.header.serialize).getD [])
  else hash256d C.sha256 prevBlockHash.bytes

def drawSlots (count : Nat) : Nat → Hash256 → List Nat → List Nat
  | 0, _, won => won
  | slots + 1, seed, won =>
    let live := (List.range count).filter (· ∉ won)
    match live[getLE (seed.bytes.take 8) % live.length]? with
    | none => won
    | some pick => drawSlots count slots (hash256d C.sha256 seed.bytes) (won ++ [pick])

def lotteryPayout (eligible : List Bytes) (slots : Nat) (winners : List Nat) (balance : Nat) : List Payout :=
  match winners with
  | [] => [(X.poolScript, balance)]
  | first :: _ =>
    let perSlot := balance / slots
    let remainder := balance - perSlot * slots
    let paid := ((List.range eligible.length).filter (· ∈ winners)).map fun i =>
      (eligible.getD i [], perSlot + if i = first then remainder else 0)
    paid ++ changeOutput X.poolScript (balance - payoutTotal paid)

/-- `K_eff`: how many slots are drawn. -/
def lotterySlots (count : Nat) : Nat :=
  if lotteryFleetSizeThreshold ≤ count then lotteryKLargeFleet else lotteryKSmallFleet

/-- `ComputeExpectedPoolOutputs_LockHeld`. -/
def computeExpectedPoolOutputs (l : Ledger) (prevBlockHash : Hash256) (balance height : Nat) : List Payout :=
  if balance = 0 then []
  else if l.supply < E.stakingActivationUnits then []
  else if eligibleMiners X E = [] then [(X.poolScript, balance)]
  else
    lotteryPayout X (eligibleMiners X E) (lotterySlots (eligibleMiners X E).length)
      (drawSlots C (eligibleMiners X E).length (lotterySlots (eligibleMiners X E).length)
        (lotterySeed C l.chain prevBlockHash height) []) balance

/-! ## The endorsement pool -/

/-- The shares of the endorsers; the product is one of 64-bit numbers. -/
def endorsementShares (distributable : Nat) : List Payout :=
  let total := (E.endorsementCounts.map Prod.snd).sum
  E.endorsementCounts.filterMap fun row =>
    let share := distributable * row.2 % 2 ^ 64 / total
    if E.addressToScript row.1 ≠ [] ∧ 0 < share then some (E.addressToScript row.1, share) else none

/-- `ComputeExpectedEndorsementFlushOutputs` without a fee reserve. -/
def computeExpectedEndorsementFlushOutputs (l : Ledger) (balance height : Nat) : List Payout :=
  if height = 0 then []
  else if l.supply < E.stakingActivationUnits then []
  else if balance = 0 then []
  else if (E.endorsementCounts.map Prod.snd).sum = 0 then [(X.vaultScript, balance)]
  else
    match endorsementShares E balance with
    | [] => []
    | (script, share) :: rest =>
      (script, share + (balance - payoutTotal ((script, share) :: rest))) :: rest

/-! ## The vault -/

/-- `ComputeVaultInflowSinceLastDistribution_Locked`. -/
def vaultInflow (chain : List Block) (height : Nat) : Nat :=
  if height = 0 ∨ chain.length < height then 0
  else
    let start := if vaultDistributionInterval ≤ height then height - vaultDistributionInterval + 1 else 1
    ((List.range' start (height + 1 - start)).map fun h =>
      match chain.reverse[h]? with
      | none => 0
      | some b =>
        match b.transactions with
        | [] => 0
        | coinbase :: _ =>
          if coinbase.isCoinbase then
            ((coinbase.outputs.filter fun out => out.scriptPubkey = X.vaultScript).map fun out =>
              out.value.toNat).sum
          else 0).sum

def addWeight (address : Bytes) (weight : Nat) : List (Bytes × Nat) → List (Bytes × Nat)
  | [] => [(address, min weight (2 ^ 64 - 1))]
  | (a, w) :: rest =>
    if a = address then (a, min (w + weight) (2 ^ 64 - 1)) :: rest
    else if address < a then (address, min weight (2 ^ 64 - 1)) :: (a, w) :: rest
    else (a, w) :: addWeight address weight rest

def effectiveStake : List (Bytes × Nat) :=
  if 0 < E.bondYieldWeight then addWeight E.bondYieldAddress E.bondYieldWeight E.weightedStake
  else E.weightedStake

def vaultShares (distributable : Nat) (stake : List (Bytes × Nat)) : List (Bytes × Nat) :=
  let total := (stake.map Prod.snd).sum
  (stake.map fun row =>
    (row.1, min (distributable * row.2 / total) (ppmOf distributable vaultConcentrationCapPpm))).filter
      fun row => row.2 ≠ 0

def vaultDistributable (chain : List Block) (balance height : Nat) : Nat :=
  min (ppmOf balance vaultDistributionPpm) (ppmOf (vaultInflow X chain height) vaultInflowPayoutPpm)

/-- A share whose address has no script is not paid out. -/
def paidShares (shares : List (Bytes × Nat)) : List Payout :=
  shares.filterMap fun row =>
    if E.addressToScript row.1 ≠ [] then some (E.addressToScript row.1, row.2) else none

def vaultPayout (shares : List (Bytes × Nat)) (balance : Nat) : List Payout :=
  if paidShares E shares = [] then [(X.vaultScript, balance)]
  else if balance < payoutTotal shares then []
  else paidShares E shares ++ changeOutput X.vaultScript (balance - payoutTotal shares)

/-- `ComputeExpectedVaultDistribution` without a fee reserve. -/
def computeExpectedVaultDistribution (l : Ledger) (balance height : Nat) : List Payout :=
  if height = 0 ∨ height % vaultDistributionInterval ≠ 0 ∨ balance = 0 then []
  else if l.supply < E.stakingActivationUnits ∨
      vaultDistributable X l.chain balance height < vaultMinDistributableUnits then [(X.vaultScript, balance)]
  else if 2 ^ 64 ≤ ((effectiveStake E).map Prod.snd).sum then []
  else if ((effectiveStake E).map Prod.snd).sum = 0 then [(X.vaultScript, balance)]
  else vaultPayout X E (vaultShares (vaultDistributable X l.chain balance height) (effectiveStake E)) balance

/-! ## Bonds -/

def finalityEquivocationBurnScript : Bytes := buildOpReturnScript (ascii "VELD_BURN|FINALITY_EQUIVOCATION|v1")

def slashOutputs (equivocation : Bool) (script slasher : Bytes) (slasherShare confiscation returned : Nat) :
    List Payout :=
  let bounty : List Payout := if 0 < slasherShare ∧ slasher ≠ [] then [(slasher, slasherShare)] else []
  let confiscated := if 0 < slasherShare ∧ slasher = [] then confiscation + slasherShare else confiscation
  let taken : List Payout :=
    if confiscated = 0 then []
    else if equivocation then [(finalityEquivocationBurnScript, confiscated)]
    else [(X.vaultScript, confiscated)]
  bounty ++ taken ++ changeOutput script returned

/-- The principal of one entry. -/
def bondMovementOutputs (row : BondRow) : List Payout :=
  let script := E.addressToScript row.address
  if row.kind = 0 then [(script, row.units)]
  else
    let equivocation : Bool := row.kind = 2
    let bounty := ppmOf row.units (if equivocation then slashEquivSlasherPpm else slashSlasherPpm)
    let part := ppmOf row.units (if equivocation then slashEquivBurnPpm else slashVaultPpm)
    let slasherShare := if row.slasher = [] then 0 else bounty
    let confiscation := if row.slasher = [] then part + bounty else part
    let returned := row.units - slasherShare - confiscation
    -- what the division leaves of an equivocator's bond is burned as well
    if equivocation then
      slashOutputs X true script (E.addressToScript row.slasher) slasherShare (confiscation + returned) 0
    else slashOutputs X false script (E.addressToScript row.slasher) slasherShare confiscation returned

/-- The yield of one entry; a slash confiscates all of it. -/
def bondYieldOutputs (row : BondRow) : List Payout :=
  let script := E.addressToScript row.address
  if row.kind = 0 then [(script, row.units)]
  else
    let equivocation : Bool := row.kind = 2
    let bounty := ppmOf row.units (if equivocation then slashEquivSlasherPpm else slashSlasherPpm)
    let slasherShare := if row.slasher = [] then 0 else bounty
    slashOutputs X equivocation script (E.addressToScript row.slasher) slasherShare (row.units - slasherShare) 0

def settleRows (outputs : BondRow → List Payout) : List BondRow → Nat → Option (List Payout × Nat)
  | [], paid => some ([], paid)
  | row :: rest, paid =>
    if row.units = 0 ∨ E.addressToScript row.address = [] then settleRows outputs rest paid
    else if 2 ^ 64 ≤ paid + row.units then none
    else (settleRows outputs rest (paid + row.units)).map fun (outs, total) => (outputs row ++ outs, total)

/-- The settlement of the entries out of a custody script, with its change. -/
def settlementOutputs (custodyScript : Bytes) (outputs : BondRow → List Payout) (rows : List BondRow)
    (balance height : Nat) : List Payout :=
  if height = 0 ∨ height % bondSettlementInterval ≠ 0 then []
  else
    match settleRows E outputs (rows.mergeSort BondRow.before) 0 with
    | none => []
    | some (outs, paid) =>
      if outs = [] ∨ balance < paid then []
      else outs ++ changeOutput custodyScript (balance - paid)

def computeExpectedBondMovements (balance height : Nat) : List Payout :=
  settlementOutputs E X.stakeVaultScript (bondMovementOutputs X E) E.bondSettlements balance height

def computeExpectedBondYieldSettlement (balance height : Nat) : List Payout :=
  settlementOutputs E X.bondYieldScript (bondYieldOutputs X E) E.bondYieldSettlements balance height

end

end Veld.Chain
