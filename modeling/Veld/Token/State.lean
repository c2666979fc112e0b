import Veld.Lib.Program
import Veld.Lib.Table
import Veld.Core.PowTarget
import Veld.Consensus.C1Reservation
import Veld.Consensus.ReserveVerify

/-!
# The token ledger

The state of `OnChainTokenLedger` (`core/onchain_tokens.h`) and the gates and ceilings its operations read: the
peg gate, the redeem window, the tier ladder and the issuer's capacity.
-/

namespace Veld

open Wire

/-! ## Gates -/

/-- `BtcVeldPegGateState`. -/
structure PegGate where
  unlocked : Bool
  mintLive : Bool
  ammLive : Bool
  deriving DecidableEq

namespace PegGate
variable (g : PegGate)

def mintAllowed : Bool := g.unlocked && g.mintLive
def completionAllowed : Bool := g.unlocked
def fundingAllowed : Bool := g.unlocked && g.mintLive
def redeemAllowed : Bool := g.unlocked
def ammAllowed : Bool := g.unlocked && g.ammLive

end PegGate

/-- An activation height; zero is off. -/
def activeFrom (activation height : Nat) : Bool := activation != 0 && activation ≤ height

def btcVeldActivationHeight : Nat := 0
def btcVeldMintDepositIdActive (height : Nat) : Bool := activeFrom 1 height
def btcVeldSpvActive (height : Nat) : Bool := activeFrom 1 height
def btcVeldRedeemGuardActive (height : Nat) : Bool := activeFrom 1 height
def btcVeldRedeemSpkCheckActive (height : Nat) : Bool := activeFrom 1 height
def btcVeldTierLadderActive (height : Nat) : Bool := activeFrom 1 height

namespace Redeemguard

def windowId (height : Nat) : Nat := height / blocksPerDay

def windowCeilingSats (custodyCap : Int) : Int :=
  if custodyCap ≤ 0 then 0 else custodyCap * 200000 / 1000000

def launchWindowCeilingSats : Int := windowCeilingSats spvMaxCustodySats

def fitsWindow (redeemedInWindow amount ceiling : Int) : Bool :=
  0 < amount && 0 ≤ redeemedInWindow && 0 < ceiling && redeemedInWindow ≤ ceiling &&
    amount ≤ ceiling - redeemedInWindow

end Redeemguard

namespace Tierladder

/-- Minimum sustained work and custody cap, ascending. -/
def tiers : List (Nat × Int) :=
  [(4500000, 1000000), (45000000, 10000000), (450000000, 100000000), (4500000000, 1000000000)]

def tierCap (sustainedWork : Nat) : Int :=
  ((tiers.takeWhile fun t => t.1 ≤ sustainedWork).getLast?.map (·.2)).getD 100000

def effectiveMintCeiling (declaredCap liveSupply : Int) (sustainedWork : Nat) : Int :=
  max (max liveSupply 0) (min (tierCap sustainedWork) (max declaredCap 0))

end Tierladder

def isStandardBtcRedeemSpk (s : Bytes) : Bool :=
  (s.length == 25 && s.take 3 == [0x76, 0xa9, 0x14] && s.drop 23 == [0x88, 0xac]) ||
  (s.length == 23 && s.take 2 == [0xa9, 0x14] && s.drop 22 == [0x87]) ||
  match s with
  | v :: plen :: program =>
    4 ≤ s.length && s.length ≤ 42 && (v == 0 || (0x51 ≤ v && v ≤ 0x60)) && 2 ≤ plen && plen ≤ 40 &&
      plen.toNat == program.length && (v != 0 || plen == 20 || plen == 32)
  | _ => false

/-- `BtcVeldHex_`: bytes of the hexadecimal text before the first NUL, empty when malformed. -/
def btcVeldHex (text : Bytes) : Bytes := (ofHex (text.takeWhile (· != 0))).getD []

/-! ## State -/

structure BtcVeldC1Reservation where
  allocationId : Bytes
  sequence : Nat
  recipient : Bytes
  allocationCommitment : Bytes
  amountSats : Int
  createdHeight : Nat
  expiresHeight : Nat
  exposed : Bool := false
  exposedHeight : Nat := 0
  fundingStartsHeight : Nat := 0
  fundingExpiresHeight : Nat := 0
  funded : Bool := false
  fundedHeight : Nat := 0
  fundingOutpoint : Bytes := []
  deriving DecidableEq

/-- `BtcVeldReservePayoutTransition`. -/
structure ReservePayout where
  requestId : Hash256
  payoutTxid : Hash256
  principalSats : Nat
  destinationSpk : Bytes
  deriving DecidableEq

structure Ledger where
  /-- The issuer of each registered token. -/
  tokens : Table Bytes Bytes
  balances : Table Bytes Int
  supply : Table Bytes Int
  reservations : Table Bytes BtcVeldC1Reservation
  lastBlockRedeems : List TokenTransferRecord
  lastBlockMintTransitions : List MintTransition
  lastBlockReservePayouts : List ReservePayout
  lastBlockReserveEdges : Nat
  reserveState : Reserve.State
  redeemWindowId : Nat
  redeemedInWindow : Int
  recentWork : List Nat
  mintNullifierRoot : Hash256
  mintNullifierCount : Nat
  mintEffectRoot : Hash256
  mintEffectCount : Nat
  mintAccumulatorProcessedHeight : Nat
  mintAccumulatorProcessedBlockHash : Hash256
  c1LastSequence : Nat
  c1SequenceHistoryCount : Nat
  c1SequenceHistoryRoot : Hash256
  redeemCommitmentCount : Nat
  redeemCommitmentRoot : Hash256
  redeemCommitmentProcessedHeight : Nat
  redeemCommitmentProcessedBlockHash : Hash256
  deriving DecidableEq

def Ledger.empty (P : Profile) (sha256 : Bytes → Hash256) : Ledger where
  tokens := ∅
  balances := ∅
  supply := ∅
  reservations := ∅
  lastBlockRedeems := []
  lastBlockMintTransitions := []
  lastBlockReservePayouts := []
  lastBlockReserveEdges := 0
  reserveState := Reserve.State.initial P sha256
  redeemWindowId := 0
  redeemedInWindow := 0
  recentWork := []
  mintNullifierRoot := Btcnull.emptyRoot sha256
  mintNullifierCount := 0
  mintEffectRoot := emptyBtcVeldMintEffectCommitment sha256
  mintEffectCount := 0
  mintAccumulatorProcessedHeight := 0
  mintAccumulatorProcessedBlockHash := .zero
  c1LastSequence := 0
  c1SequenceHistoryCount := 0
  c1SequenceHistoryRoot := emptyBtcVeldC1SequenceHistory sha256
  redeemCommitmentCount := 0
  redeemCommitmentRoot := emptyBtcVeldRedeemCommitment sha256
  redeemCommitmentProcessedHeight := 0
  redeemCommitmentProcessedBlockHash := .zero

/-- The key of a balance: token and address joined by a colon. -/
def balanceKey (tokenId address : Bytes) : Bytes := tokenId ++ 58 :: address

theorem balanceKey_inj {tokenId a b : Bytes} : balanceKey tokenId a = balanceKey tokenId b ↔ a = b := by
  simp [balanceKey]

def minAccountSats : Int := 1000

/-- `BalanceAdmissible`: nothing, or at least the floor. -/
def balanceAdmissible (b : Int) : Prop := b = 0 ∨ minAccountSats ≤ b

instance (b : Int) : Decidable (balanceAdmissible b) := by unfold balanceAdmissible; infer_instance

namespace Ledger
variable (l : Ledger)

def balance (tokenId address : Bytes) : Int := (l.balances.lookup (balanceKey tokenId address)).getD 0

def supplyOf (tokenId : Bytes) : Int := (l.supply.lookup tokenId).getD 0

/-- Writes the balance a debit leaves; a zero balance has no entry. -/
def putRemaining (tokenId address : Bytes) (b : Int) : Ledger :=
  { l with balances := if b = 0 then l.balances.erase (balanceKey tokenId address)
                       else l.balances.insert (balanceKey tokenId address) b }

def putBalance (tokenId address : Bytes) (b : Int) : Ledger :=
  { l with balances := l.balances.insert (balanceKey tokenId address) b }

def putSupply (tokenId : Bytes) (s : Int) : Ledger :=
  { l with supply := l.supply.insert tokenId s }

theorem balance_putBalance (tokenId address : Bytes) (b : Int) (other : Bytes) :
    (l.putBalance tokenId address b).balance tokenId other =
      if other = address then b else l.balance tokenId other := by
  simp only [balance, putBalance, Table.lookup_insert_ite, balanceKey_inj]
  split <;> rfl

theorem balance_putRemaining (tokenId address : Bytes) (b : Int) (other : Bytes) :
    (l.putRemaining tokenId address b).balance tokenId other =
      if other = address then b else l.balance tokenId other := by
  by_cases hb : b = 0
  · simp only [balance, putRemaining, hb, if_true, Table.lookup_erase_ite, balanceKey_inj]
    split <;> rfl
  · simp only [balance, putRemaining, hb, if_false, Table.lookup_insert_ite, balanceKey_inj]
    split <;> rfl

/-! ## Ceilings -/

def tierWindowBlocks : Nat := 14 * blocksPerDay

/-- `SustainedWorkLocked_`. -/
def sustainedWork : Nat :=
  if l.recentWork.length < tierWindowBlocks then 0
  else (l.recentWork.drop (l.recentWork.length - tierWindowBlocks)).foldl min uint64Max

/-- `PruneC1ReservationsLocked_`. -/
def pruneC1Reservations (height : Nat) : Ledger :=
  { l with reservations := Table.keep (fun _ r =>
      !(if r.exposed then !r.funded && r.fundingExpiresHeight < height
        else r.expiresHeight < height)) l.reservations }

/-- `ReservedC1SatsLocked_`: what live reservations promise, saturated. -/
def reservedC1Sats (height : Nat) : Int :=
  (l.reservations.entries.foldl (fun total row =>
    total.bind fun t =>
      let r := row.2
      if !r.funded && (if r.exposed then r.fundingExpiresHeight < height
          else r.expiresHeight < height) then some t
      else if r.amountSats ≤ 0 ∨ int64Max - r.amountSats < t then none
      else some (t + r.amountSats)) (some 0)).getD int64Max

/-- The effective ceiling of `IssuerMintCapacityLocked_`. -/
def issuerCeiling (height : Nat) : Int :=
  if btcVeldTierLadderActive height then
    Tierladder.effectiveMintCeiling issuerMaxCustodySats (l.supplyOf btcveldTokenId) l.sustainedWork
  else issuerMaxCustodySats

/-- `BtcVeldIssuerMintFitsCapacity` of the capacity at this height. -/
def issuerMintFits (height : Nat) (amount : Int) : Bool :=
  let supply := l.supplyOf btcveldTokenId
  let ceiling := l.issuerCeiling height
  let reserved := l.reservedC1Sats height
  0 < amount && 0 ≤ supply && 0 ≤ reserved && supply ≤ ceiling && supply ≤ ceiling - reserved &&
    amount ≤ ceiling - supply - reserved

end Ledger

end Veld
