import Veld.Token.Op
import Veld.Consensus.MintNullifier

/-!
# C1 reservations and issuer memos

`consensus/btcveld_c1_reservation.h` and the memo forms of `consensus/btcveld_mint_nullifier.h`: the
allocation of issuer capacity to a deposit that is yet to be made, and the memos by which an issuer
mint names the outpoint it consumes.
-/

namespace Veld

open Wire

namespace C1reserve

def minSats : Int := 10000
def lifetimeBlocks : Nat := 7 * blocksPerDay
def finalityDepth : Nat := maxReorgDepth + 1
def maxActive : Nat := (issuerMaxCustodySats / minSats).toNat

def hasFinalityDepth (acceptedHeight currentHeight : Nat) : Prop :=
  acceptedHeight ≤ uint64Max - (finalityDepth - 1) ∧
    acceptedHeight + (finalityDepth - 1) ≤ currentHeight

instance (a c : Nat) : Decidable (hasFinalityDepth a c) := by
  unfold hasFinalityDepth; infer_instance

/-- `FundingWindow`: first and last height of the funding term. -/
def fundingWindow (exposedHeight : Nat) : Option (Nat × Nat) := do
  guard (exposedHeight ≤ uint64Max - (finalityDepth - 1))
  let starts := exposedHeight + (finalityDepth - 1)
  guard (starts ≤ uint64Max - (lifetimeBlocks - 1))
  return (starts, starts + (lifetimeBlocks - 1))

def latestFundingAcceptanceHeight (capacityExpires : Nat) : Option Nat := do
  guard (finalityDepth - 1 ≤ capacityExpires)
  return capacityExpires - (finalityDepth - 1)

def expiryHeight (acceptedHeight : Nat) : Option Nat := do
  guard (acceptedHeight ≤ uint64Max - (lifetimeBlocks - 1))
  return acceptedHeight + (lifetimeBlocks - 1)

def zeros (n : Nat) : Bytes := List.replicate n 48

/-- `IsAllocationId`. -/
def isAllocationId (value : Bytes) : Bool :=
  isLowerHexText 32 value && value.take 16 == zeros 16 && value.drop 16 != zeros 16

def allocationSequence (value : Bytes) : Option Nat := do
  guard (isAllocationId value = true)
  let sequence := (value.drop 16).foldl (fun n c => n * 16 + (hexNibble c).getD 0) 0
  guard (sequence ≠ 0)
  return sequence

def isP2trScriptHex (value : Bytes) : Bool := isLowerHexText 68 value && startsWith value "5120"

def isCommitmentHex (value : Bytes) : Bool := isLowerHexText 64 value

def isBlindHex (value : Bytes) : Bool := isCommitmentHex value && value.any (· != 48)

def isCanonicalOutpoint (value : Bytes) : Bool :=
  match fields 58 value with
  | [txid, vout] => isLowerHexText 64 txid && vout.length ≤ 10 && (readDecimal uint32Max vout).isSome
  | _ => false

/-- `AllocationCommitment`, empty on malformed parts. -/
def allocationCommitment (sha256 : Bytes → Hash256) (allocationId recipient : Bytes) (amount : Int)
    (scriptHex blindHex : Bytes) : Bytes :=
  if isAllocationId allocationId ∧ recipient ≠ [] ∧ 0 < amount ∧
      isP2trScriptHex scriptHex ∧ isBlindHex blindHex = true then
    (sha256Domain sha256 "VELD_BTCVELD_C1_ALLOCATION_COMMITMENT_v2|"
      (putLenPrefixed allocationId ++ putLenPrefixed recipient ++ putLE 8 amount.toNat ++
        putLenPrefixed scriptHex ++ putLenPrefixed blindHex)).toHex
  else []

def memoFields (tag : String) (memo : Bytes) : Option (List Bytes) :=
  if startsWith memo tag then some (fields 59 (behind memo tag)) else none

def parseAllocationMemo (tag : String) (memo : Bytes) : Option (Bytes × Bytes) := do
  match ← memoFields tag memo with
  | [allocationId, commitment] =>
    guard (isAllocationId allocationId ∧ isCommitmentHex commitment)
    return (allocationId, commitment)
  | _ => none

def parseMemo : Bytes → Option (Bytes × Bytes) := parseAllocationMemo "C1R1;"

def parseExposureMemo : Bytes → Option (Bytes × Bytes) := parseAllocationMemo "C1E1;"

def parseCancellationMemo : Bytes → Option (Bytes × Bytes) := parseAllocationMemo "C1C1;"

structure FundingMemo where
  allocationId : Bytes
  scriptHex : Bytes
  blindHex : Bytes
  outpoint : Bytes
  proofHex : Bytes

def parseFundingMemo (memo : Bytes) : Option FundingMemo := do
  match ← memoFields "C1F1;" memo with
  | [allocationId, scriptHex, blindHex, outpoint, proofHex] =>
    guard (isAllocationId allocationId ∧ isP2trScriptHex scriptHex ∧
      isBlindHex blindHex ∧ isCanonicalOutpoint outpoint ∧
      174 ≤ proofHex.length ∧ proofHex.length ≤ 38000 ∧ proofHex.length % 2 = 0 ∧
      proofHex.all isLowerHex = true)
    return ⟨allocationId, scriptHex, blindHex, outpoint, proofHex⟩
  | _ => none

end C1reserve

/-! ## Issuer memos -/

namespace Btcnull

def reservedIssuerMemoPrefix : String := "MNP2;"

/-- What an issuer mint says about its outpoint: it inserts it with a proof, or it completes a
funded reservation. -/
inductive IssuerMemo where
  | direct (outpoint : Bytes) (proof : Proof)
  | reserved (requestId scriptHex blindHex outpoint : Bytes)

def parseIssuerMemo (sha256 : Bytes → Hash256) (memo : Bytes) : Option IssuerMemo :=
  if startsWith memo "MNP1;" then do
    let outpoint := (behind memo "MNP1;").takeWhile (· != 59)
    let rest := (behind memo "MNP1;").dropWhile (· != 59)
    guard (outpoint ≠ [] ∧ 2 ≤ rest.length)
    let hex := rest.drop 1
    guard (minProofBytes * 2 ≤ hex.length ∧ hex.length ≤ maxProofBytes * 2 ∧
      hex.length % 2 = 0 ∧ hex.all isLowerHex)
    let proof ← decodeProof sha256 ((ofHex hex).getD [])
    guard (ascii "MNP1;" ++ outpoint ++ [59] ++ toHex (encodeProof sha256 proof) = memo)
    return .direct outpoint proof
  else do
    match ← C1reserve.memoFields reservedIssuerMemoPrefix memo with
    | [requestId, scriptHex, blindHex, outpoint] =>
      guard (C1reserve.isAllocationId requestId ∧
        C1reserve.isP2trScriptHex scriptHex ∧ C1reserve.isCommitmentHex blindHex)
      return .reserved requestId scriptHex blindHex outpoint
    | _ => none

end Btcnull

/-- `ExtendBtcVeldMintEffectCommitment`; `none` where the source throws. -/
def extendBtcVeldMintEffectCommitment (sha256 : Bytes → Hash256) (previous : Hash256)
    (height : Nat) (t : MintTransition) : Option Hash256 :=
  if t.txIndex ≠ uint32Max ∧ t.txid.length = 64 ∧ isValidBtcOutpointId t.outpoint ∧
      (t.effectKind ≠ .c1Mint → t.oldRoot ≠ t.newRoot) ∧
      (t.effectKind = .c1Mint → t.oldRoot = t.newRoot) ∧
      (t.effectKind ≠ .mint → C1reserve.isAllocationId t.c1AllocationId) ∧
      (t.effectKind = .mint → t.c1AllocationId = []) then
    some (sha256Domain sha256 mintEffectCommitmentDomain
      (previous.bytes ++ putLE 8 height ++ putLE 4 t.txIndex ++ putLE 4 t.markerVout ++
        putLenPrefixed t.txid ++ putLenPrefixed t.outpoint ++ putLenPrefixed t.effectKind.text ++
        putLenPrefixed t.c1AllocationId ++ t.oldRoot.bytes ++ t.newRoot.bytes))
  else none

end Veld
