import Veld.Token.State

/-!
# Quotes of the VELD/btcVELD pool

The pure arithmetic of `core/amm_pool.h`: the constant-product output, the fee schedules, the quote of a first
seed and the probe that a seed leaves a swap executable.
-/

namespace Veld.Amm

open Wire

/-! ## Parameters -/

def minLiquidity : Int := 1000
def feeDenom : Int := 10000
def ammSeedLockVeldUnits : Int := 5000000000
def ammSeedLockBtcveldSats : Int := 50000
def lpMinPosition : Int := 1000
def ammMaxLpIdentities : Nat := 65536

/-- `BTCVELD_AMM_FEE_MIN_BPS`. -/
def ammFeeMinBps : Int := 30
/-- `BTCVELD_AMM_FLAT_FEE_BPS`. -/
def ammFlatFeeBps : Int := 30
/-- `BTCVELD_AMM_BAND_FEE_BPS`. -/
def ammBandFeeBps : List Int := [30, 50, 75, 100]
/-- `BTCVELD_AMM_MAX_POOL_BTCVELD_SATS`. -/
def ammMaxPoolBtcveldSats : Int := 1000000000
/-- `BTCVELD_AMM_OPENING_VELD_UNITS_PER_BTCVELD_SAT`. -/
def ammOpeningVeldUnitsPerSat : Int := 100000
def ammSeedLivenessTxFeeUnits : Int := 100000

/-- `BTCVELD_AMM_FOURBAND_ACTIVATION_HEIGHT`, which is also the height of the pool and of the swap
gate. -/
def fourBandHeight : Nat := 1

def fourBandActive (height : Nat) : Bool := activeFrom fourBandHeight height

section
variable (P : Profile)

def flatFeeActive (height : Nat) : Bool := activeFrom P.ammFlatFeeHeight height

def marketSeedAnchorActive (height : Nat) : Bool := activeFrom P.ammMarketSeedHeight height

end

/-- `BtcVeldAmmGateActive`. -/
def ammGateActive (height : Nat) : Bool := activeFrom 1 height

/-- `ammgate::SwapAllowed`; the unlock height is zero. -/
def swapAllowed (height : Nat) : Bool := !ammGateActive height || 0 ≤ height

/-- `ammgate::PoolReserveAllowed`. -/
def poolReserveAllowed (height : Nat) (oldReserve newReserve : Int) : Bool :=
  0 ≤ newReserve &&
    (!ammGateActive height || newReserve ≤ oldReserve || newReserve ≤ ammMaxPoolBtcveldSats)

/-! ## Swaps -/

structure AmmPool where
  reserveVeld : Int := 0
  reserveBtcveld : Int := 0
  lpSupply : Int := 0
  /-- LP units that belong to nobody. -/
  lockedLp : Int := 0
  feeBps : Int := 100
  anchorVeld : Int := 0
  anchorBtcveld : Int := 0
  exist : Bool := false
  poolTxid : Hash256 := .zero
  poolVout : Nat := 0
  utxoValid : Bool := false
  veldScript : Bytes := []
  btcveldAddr : Bytes := []
  deriving DecidableEq

def grossSwapOut (rin rout amtIn : Int) : Option Int :=
  if rin ≤ 0 ∨ rout ≤ 0 ∨ amtIn ≤ 0 then none
  else
    let gross := rout * amtIn / (rin + amtIn)
    if gross ≤ 0 ∨ rout ≤ gross then none else some gross

/-- `SwapOut`: the output after the fee, which is charged in the output asset. -/
def swapOut (rin rout amtIn feeBps : Int) : Option Int :=
  if feeDenom ≤ feeBps then none
  else
    match grossSwapOut rin rout amtIn with
    | none => none
    | some gross =>
      let out := gross * (feeDenom - feeBps) / feeDenom
      if out ≤ 0 ∨ rout ≤ out then none else some out

def anchorCrossDistance (veld btcveld anchorVeld anchorBtcveld : Int) : Int :=
  |veld * anchorBtcveld - btcveld * anchorVeld|

/-- `BandFeeBps`: the fee and the number of the band a deviation falls in; edges belong to the
lower band. -/
def bandFeeBps (delta den : Int) : Int × Nat :=
  if den = 0 then (100, 4)
  else if feeDenom * delta ≤ 500 * den then (30, 1)
  else if feeDenom * delta ≤ 1000 * den then (50, 2)
  else if feeDenom * delta ≤ 2000 * den then (75, 3)
  else (100, 4)

inductive SwapRejectCode where
  | feeModelNotActive
  | invalidAnchor
  | invalidState
  | feeScheduleNoFixedPoint
  deriving DecidableEq

structure SwapQuote where
  grossOut : Int
  amountOut : Int
  feeOut : Int
  feeBps : Int
  rebalancesAnchor : Bool := false
  band : Nat := 0
  postReserveVeld : Int
  postReserveBtcveld : Int
  deriving DecidableEq

/-- The reserves after a swap: the whole input stays, the output goes. -/
def postVeld (p : AmmPool) (veldIn : Bool) (amtIn out : Int) : Int :=
  if veldIn then p.reserveVeld + amtIn else p.reserveVeld - out

def postBtcveld (p : AmmPool) (veldIn : Bool) (amtIn out : Int) : Int :=
  if veldIn then p.reserveBtcveld - out else p.reserveBtcveld + amtIn

def reserveIn (p : AmmPool) (veldIn : Bool) : Int :=
  if veldIn then p.reserveVeld else p.reserveBtcveld

def reserveOut (p : AmmPool) (veldIn : Bool) : Int :=
  if veldIn then p.reserveBtcveld else p.reserveVeld

structure FeeEval where
  feeBps : Int
  out : Int
  postVeld : Int
  postBtc : Int
  rebalances : Bool
  band : Nat
  /-- Charging this fee leads to the band that charges it. -/
  fixedPoint : Bool

def evalFee (p : AmmPool) (veldIn : Bool) (amtIn charged : Int) : Option FeeEval :=
  match swapOut (reserveIn p veldIn) (reserveOut p veldIn) amtIn charged with
  | none => none
  | some out =>
    let veld := postVeld p veldIn amtIn out
    let btc := postBtcveld p veldIn amtIn out
    if veld ≤ 0 ∨ btc ≤ 0 then none
    else
      let before := anchorCrossDistance p.reserveVeld p.reserveBtcveld p.anchorVeld p.anchorBtcveld
      let delta := anchorCrossDistance veld btc p.anchorVeld p.anchorBtcveld
      let (fee, band) := bandFeeBps delta (btc * p.anchorVeld)
      if delta * p.reserveBtcveld ≤ before * btc then
        some ⟨charged, out, veld, btc, true, 1, charged == ammFeeMinBps⟩
      else some ⟨charged, out, veld, btc, false, band, fee == charged⟩

def quoteFourBand (p : AmmPool) (veldIn : Bool) (amtIn gross : Int) :
    Except SwapRejectCode SwapQuote :=
  let evals := ammBandFeeBps.filterMap (evalFee p veldIn amtIn)
  match evals.filter (·.fixedPoint) with
  | [e] => .ok ⟨gross, e.out, gross - e.out, e.feeBps, e.rebalances, e.band, e.postVeld, e.postBtc⟩
  | _ => .error (if evals.isEmpty then .invalidState else .feeScheduleNoFixedPoint)

def quoteFlat (p : AmmPool) (veldIn : Bool) (amtIn gross : Int) : Except SwapRejectCode SwapQuote :=
  match swapOut (reserveIn p veldIn) (reserveOut p veldIn) amtIn ammFlatFeeBps with
  | none => .error .invalidState
  | some out =>
    .ok { grossOut := gross, amountOut := out, feeOut := gross - out, feeBps := ammFlatFeeBps,
          postReserveVeld := postVeld p veldIn amtIn out,
          postReserveBtcveld := postBtcveld p veldIn amtIn out }

/-- `QuoteSwapLocked`. -/
def quoteSwap (P : Profile) (p : AmmPool) (veldIn : Bool) (amtIn : Int) (height : Nat) :
    Except SwapRejectCode SwapQuote :=
  if fourBandActive height = false then .error .feeModelNotActive
  else if p.exist = false ∨ p.reserveVeld ≤ 0 ∨ p.reserveBtcveld ≤ 0 ∨ amtIn ≤ 0 then
    .error .invalidState
  else if p.anchorVeld ≤ 0 ∨ p.anchorBtcveld ≤ 0 then .error .invalidAnchor
  else
    match grossSwapOut (reserveIn p veldIn) (reserveOut p veldIn) amtIn with
    | none => .error .invalidState
    | some gross =>
      if int64Max - reserveIn p veldIn < amtIn then .error .invalidState
      else if flatFeeActive P height then quoteFlat p veldIn amtIn gross
      else quoteFourBand p veldIn amtIn gross

/-! ## The first seed -/

/-- The first loop of `IsqrtU128`: down to a number whose square fits. -/
def sqrtDown (n : Nat) : Nat → Nat
  | 0 => 0
  | x + 1 => if n < (x + 1) * (x + 1) then sqrtDown n x else x + 1

/-- The second loop of `IsqrtU128`: up while the next square fits. -/
def sqrtUp (n x : Nat) : Nat :=
  if h : (x + 1) * (x + 1) ≤ n then sqrtUp n (x + 1) else x
termination_by n - x
decreasing_by
  have : x + 1 ≤ (x + 1) * (x + 1) := Nat.le_mul_self _
  omega

/-- `IsqrtU128`, from the estimate of the floating-point square root. -/
def isqrtFrom (estimate n : Nat) : Nat :=
  if n = 0 then 0 else sqrtUp n (sqrtDown n (estimate + 2))

/-- `IsqrtU128`; the estimate does not matter (`isqrtFrom_eq_sqrt`). -/
def isqrtU128 (n : Int) : Int := isqrtFrom n.toNat.sqrt n.toNat

/-- `CeilDivU128`. -/
def ceilDiv (a b : Int) : Int := (a + b - 1) / b

/-- `LockedSeedUnits`. -/
def lockedSeedUnits (g veld btc : Int) : Int :=
  min (max (max minLiquidity (ceilDiv (g * ammSeedLockVeldUnits) veld))
    (ceilDiv (g * ammSeedLockBtcveldSats) btc)) g

structure SeedQuote where
  grossLp : Int
  lockedLp : Int
  lpMinted : Int
  deriving DecidableEq

def isCanonicalOpeningSeedRatio (veldUnits btcveldSats : Int) : Bool :=
  0 < veldUnits && 0 < btcveldSats && btcveldSats ≤ int64Max / ammOpeningVeldUnitsPerSat &&
    veldUnits == btcveldSats * ammOpeningVeldUnitsPerSat

def quoteInitialSeedPolicy (veldUnits btcveldSats : Int) (marketAnchor : Bool) : Option SeedQuote :=
  if (marketAnchor = false ∧ isCanonicalOpeningSeedRatio veldUnits btcveldSats = false) ∨
      veldUnits < ammSeedLockVeldUnits ∨ btcveldSats < ammSeedLockBtcveldSats ∨
      ammMaxPoolBtcveldSats < btcveldSats ∨ maxSupplyUnits < veldUnits then none
  else
    let gross := isqrtU128 (veldUnits * btcveldSats)
    if gross ≤ minLiquidity then none
    else
      let locked := lockedSeedUnits gross veldUnits btcveldSats
      let minted := gross - locked
      if minted ≠ 0 ∧ minted < lpMinPosition then none else some ⟨gross, locked, minted⟩

/-- `potentially_executable` of the probe. -/
def potentiallyExecutable (initialK : Int) (q : SwapQuote) (veldIn : Bool) : Bool :=
  0 < q.amountOut && 0 < q.postReserveVeld && dustThresholdUnits ≤ q.postReserveVeld &&
    q.postReserveVeld ≤ maxSupplyUnits && minAccountSats ≤ q.postReserveBtcveld &&
    q.postReserveBtcveld ≤ ammMaxPoolBtcveldSats &&
    initialK ≤ q.postReserveVeld * q.postReserveBtcveld &&
    (veldIn || dustThresholdUnits ≤ q.amountOut)

def leastInput (veldUnits btcveldSats : Int) (lo hi : Nat) : Nat :=
  if lo < hi then
    let mid := lo + (hi - lo) / 2
    if (swapOut veldUnits btcveldSats mid ammFeeMinBps).isSome then
      leastInput veldUnits btcveldSats lo mid
    else leastInput veldUnits btcveldSats (mid + 1) hi
  else lo
termination_by hi - lo

inductive SeedLivenessDirection where
  | b2v
  | v2b
  deriving DecidableEq

structure SeedLivenessProbe where
  direction : SeedLivenessDirection
  amountIn : Int
  quote : SwapQuote
  deriving DecidableEq

section
variable (P : Profile)

/-- The quote of the probe's swap, when it could be executed. -/
def probeSwap (pool : AmmPool) (veldIn : Bool) (amountIn : Int) (height : Nat) :
    Option SeedLivenessProbe :=
  match quoteSwap P pool veldIn amountIn height with
  | .error _ => none
  | .ok q =>
    if potentiallyExecutable (pool.reserveVeld * pool.reserveBtcveld) q veldIn then
      some ⟨if veldIn then .v2b else .b2v, amountIn, q⟩
    else none

def probeV2b (pool : AmmPool) (height : Nat) (continuationUnits remainingSats : Int) :
    Option SeedLivenessProbe :=
  if remainingSats < minAccountSats ∨ continuationUnits ≤ ammSeedLivenessTxFeeUnits then none
  else
    let maxInput := continuationUnits - ammSeedLivenessTxFeeUnits
    if maxInput ≤ int64Max ∧
        (swapOut pool.reserveVeld pool.reserveBtcveld maxInput ammFeeMinBps).isSome = true then
      probeSwap P pool true (leastInput pool.reserveVeld pool.reserveBtcveld 1 maxInput.toNat) height
    else none

/-- `ProbeInitialSeedLivenessWithResources_`. -/
def probeInitialSeedLiveness (veldUnits btcveldSats : Int) (height : Nat)
    (continuationUnits remainingSats : Int) : Option SeedLivenessProbe :=
  if quoteInitialSeedPolicy veldUnits btcveldSats (marketSeedAnchorActive P height) = none ∨
      fourBandActive height = false ∨ swapAllowed height = false then none
  else
    let pool : AmmPool :=
      { exist := true, reserveVeld := veldUnits, reserveBtcveld := btcveldSats,
        anchorVeld := veldUnits, anchorBtcveld := btcveldSats }
    if btcveldSats < ammMaxPoolBtcveldSats ∧ ammSeedLivenessTxFeeUnits ≤ continuationUnits ∧
        minAccountSats + 1 ≤ remainingSats then
      match probeSwap P pool false 1 height with
      | some probe => some probe
      | none => probeV2b P pool height continuationUnits remainingSats
    else probeV2b P pool height continuationUnits remainingSats

/-- `QuoteInitialSeedAtHeight`. -/
def quoteInitialSeedAtHeight (veldUnits btcveldSats : Int) (height : Nat) : Option SeedQuote :=
  match quoteInitialSeedPolicy veldUnits btcveldSats (marketSeedAnchorActive P height) with
  | none => none
  | some quote =>
    let headroom := maxSupplyUnits - veldUnits
    if headroom ≤ ammSeedLivenessTxFeeUnits then none
    else if (probeInitialSeedLiveness P veldUnits btcveldSats height
        (headroom - ammSeedLivenessTxFeeUnits) (minAccountSats + 1)).isSome then some quote
    else none

end

end Veld.Amm
