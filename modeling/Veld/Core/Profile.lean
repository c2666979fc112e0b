import Veld.Lib.Wire

/-!
# Build profiles

The program fixes its consensus parameters at compile time. The ones that differ between builds
are the fields of `Profile`; a theorem about the program holds for every value of them unless it
says otherwise. `publicMainnet` is one build of `core/constants.h` and the `btcveld_*_params.h`
headers.
-/

namespace Veld

open Wire

structure Profile where
  /-- `GENESIS_HASH` and `DEPLOYMENT_PROFILE_ID`, which bind proofs to one network. -/
  genesisHash : Bytes
  deploymentProfileId : Bytes
  /-- `reserve::TRANSITION_V1_REQUIRED`: the rolling-reserve profile. -/
  transitionV1Required : Bool
  /-- `btcnull::CUSTODY_LINEAGE_REQUIRED`. -/
  custodyLineageRequired : Bool
  /-- `REDEEM_PAYOUT_BINDING_REQUIRED`: payout and spend proofs in their second version. -/
  redeemPayoutBindingRequired : Bool
  /-- `SECURITY_STATE_MIGRATION_HEIGHT` (0 is never). -/
  securityStateMigrationHeight : Nat
  /-- `VELD_MAINNET_POW`: only main-network address versions are accepted. -/
  mainnetPow : Bool
  /-- `VELD_PUBLIC_MAINNET` or `VELD_BTCVELD_REGTEST`: the wide token carriers. -/
  wideCarriers : Bool
  /-- `btcspv::EXTERNAL_VALUE_FRESHNESS_REQUIRED`. -/
  freshnessRequired : Bool
  /-- `btcspv::EXTERNAL_VALUE_OBSERVATION_REQUIRED`. -/
  observationRequired : Bool
  /-- `BTCVELD_SPV_K_BTC`: Bitcoin burial depth. -/
  spvKBtc : Nat
  /-- `BtcVeldCustodySpk()`. -/
  custodySpk : Bytes
  /-- `BTCVELD_ISSUER_ADDRESS`. -/
  issuerAddress : Bytes
  /-- `BTCVELD_REDEEM_ACTIVATION_HEIGHT` (0 is dormant). -/
  redeemActivationHeight : Nat
  /-- `BTCVELD_REDEEM_SLA`, in Veld blocks. -/
  redeemSla : Nat
  /-- `BTCVELD_SIGNER_MIN_BOND_SATS`. -/
  signerMinBondSats : Nat
  /-- `BTCVELD_AMM_MARKET_SEED_ACTIVATION_HEIGHT` (0 is off). -/
  ammMarketSeedHeight : Nat
  /-- `BTCVELD_AMM_FLAT_FEE_ACTIVATION_HEIGHT` (0 is off). -/
  ammFlatFeeHeight : Nat

namespace Profile

def publicMainnet : Profile where
  genesisHash := ascii "880a0057852ffcfa35119a83e556802848ed5cb469b260fb9fbd20e8b97ae77b"
  deploymentProfileId := ascii "veld-public-mainnet-v2"
  transitionV1Required := true
  custodyLineageRequired := true
  redeemPayoutBindingRequired := true
  securityStateMigrationHeight := 3840
  mainnetPow := true
  wideCarriers := true
  freshnessRequired := true
  observationRequired := true
  spvKBtc := 144
  custodySpk := (ofHex (ascii
    "5120e1375941632c9404dd62c8c5d75449feccf1271b4b8f083dcd054784203a782e")).getD []
  issuerAddress := ascii "VUjD1JoewGkiGxRqJ52FkK1UiMotjsp9Tg"
  redeemActivationHeight := 0
  redeemSla := 1000
  signerMinBondSats := 100000000
  ammMarketSeedHeight := 1
  ammFlatFeeHeight := 9500

end Profile

/-! ## Parameters common to all builds -/

def int64Max : Int := 2 ^ 63 - 1

def uint64Max : Nat := 2 ^ 64 - 1

def uint32Max : Nat := 2 ^ 32 - 1

def blocksPerDay : Nat := 480

def maxReorgDepth : Nat := 100

def maxSupplyUnits : Nat := 21000000 * 100000000

def dustThresholdUnits : Nat := 1000

def maxTransactionInputs : Nat := 10000

def maxTransactionOutputs : Nat := 10000

def maxTransactionScriptSigBytes : Nat := 32768

def consensusSecurityUpgradeHeight : Nat := 2880

def consensusSecurityUpgradeActive (height : Nat) : Bool := consensusSecurityUpgradeHeight ≤ height

def btcveldTokenId : Bytes := ascii "btcVELD"

/-- `BTCVELD_SPV_MAX_CUSTODY_SATS`: ten bitcoin. -/
def spvMaxCustodySats : Nat := 1000000000

/-- `BTCVELD_ISSUER_MAX_CUSTODY_SATS`. -/
def issuerMaxCustodySats : Int := 1000000000

end Veld
