import Veld.Core.Profile
import Veld.Core.Hash

/-!
# Token operations

The text form of a token operation (`EncodeTokenOp`, `DecodeTokenOp` of `core/onchain_tokens.h`),
Bitcoin outpoint names, and the rolling commitments the ledger extends with every accepted effect.
-/

namespace Veld

open Wire

inductive TokenAction where
  | mint
  | transfer
  | redeem
  | reserve
  | expose
  | cancel
  | fund
  deriving DecidableEq

namespace TokenAction

def text : TokenAction → Bytes
  | mint => ascii "MINT"
  | transfer => ascii "TRANSFER"
  | redeem => ascii "REDEEM"
  | reserve => ascii "RESERVE"
  | expose => ascii "EXPOSE"
  | cancel => ascii "CANCEL"
  | fund => ascii "FUND"

def ofText (t : Bytes) : Option TokenAction :=
  [mint, transfer, redeem, reserve, expose, cancel, fund].find? fun a => a.text == t

end TokenAction

structure TokenOpData where
  action : TokenAction
  tokenId : Bytes
  fromAddr : Bytes
  toAddr : Bytes
  amount : Int
  memo : Bytes
  deriving DecidableEq

def pipe : UInt8 := 124

def tokenOpReturnPrefix : String := "VELD_TOKEN|"

def encodeTokenOp (d : TokenOpData) : Bytes :=
  ascii tokenOpReturnPrefix ++
    joinWith pipe [d.action.text, d.tokenId, d.fromAddr, d.toAddr, ascii (toString d.amount), d.memo]

def maxTokenIdBytes : Nat := 32
def maxTokenAccountBytes : Nat := 128
def maxTokenGeneralMemoBytes : Nat := 512
def maxTokenFundMemoBytes : Nat := 40000

section
variable (P : Profile)

def maxTokenOpPayloadBytes : Nat := if P.wideCarriers then 65535 else 42000

def maxTokenMemoBytes : Nat := if P.wideCarriers then 64000 else 20000

def memoLimit (action : TokenAction) (tokenId : Bytes) : Nat :=
  if action = .fund ∧ tokenId = btcveldTokenId then maxTokenFundMemoBytes
  else if action = .mint ∧ tokenId = btcveldTokenId then maxTokenMemoBytes P
  else maxTokenGeneralMemoBytes

/-- `DecodeTokenOp`. The memo keeps the separators it contains. -/
def decodeTokenOp (data : Bytes) : Option TokenOpData := do
  guard (data.length ≤ maxTokenOpPayloadBytes P ∧ startsWith data tokenOpReturnPrefix)
  match getlines pipe (behind data tokenOpReturnPrefix) with
  | actionText :: tokenId :: fromAddr :: toAddr :: amountText :: memoParts =>
    let action ← TokenAction.ofText actionText
    guard (tokenId ≠ [] ∧ tokenId.length ≤ maxTokenIdBytes ∧
      fromAddr.length ≤ maxTokenAccountBytes ∧ toAddr.length ≤ maxTokenAccountBytes)
    let amount ← readDecimal int64Max.toNat amountText
    guard (amount ≠ 0)
    let op : TokenOpData := ⟨action, tokenId, fromAddr, toAddr, amount, joinWith pipe memoParts⟩
    guard (op.memo.length ≤ memoLimit P action tokenId ∧ encodeTokenOp op = data)
    return op
  | _ => none

end

/-- `IsValidBtcOutpointId`. -/
def isValidBtcOutpointId (s : Bytes) : Bool :=
  66 ≤ s.length && s[64]? == some 58 && (s.take 64).all isLowerHex &&
    (s.drop 65).length ≤ 10 && (readDecimal uint32Max (s.drop 65)).isSome

/-! ## Records and commitments -/

structure TokenTransferRecord where
  txid : Bytes
  vout : Nat
  tokenId : Bytes
  fromAddr : Bytes
  toAddr : Bytes
  amount : Int
  blockHeight : Nat
  memo : Bytes
  deriving DecidableEq

/-- The kinds of mint effects: an insertion that credits, an insertion that reserves, and the later
credit of a reserved outpoint. -/
inductive MintEffect where
  | mint
  | c1Fund
  | c1Mint
  deriving DecidableEq

def MintEffect.text : MintEffect → Bytes
  | mint => ascii "MINT"
  | c1Fund => ascii "C1_FUND"
  | c1Mint => ascii "C1_MINT"

structure MintTransition where
  txIndex : Nat
  markerVout : Nat
  txid : Bytes
  outpoint : Bytes
  proof : Bytes
  oldRoot : Hash256
  newRoot : Hash256
  effectKind : MintEffect
  c1AllocationId : Bytes
  deriving DecidableEq

section
variable (sha256 : Bytes → Hash256)

def redeemCommitmentDomain : String := "VELD_BTCVELD_REDEEM_COMMITMENT_v1|"

def emptyBtcVeldRedeemCommitment : Hash256 := sha256Domain sha256 redeemCommitmentDomain []

/-- `ExtendBtcVeldRedeemCommitment`. -/
def extendBtcVeldRedeemCommitment (previous : Hash256) (r : TokenTransferRecord)
    (blockHash : Hash256) : Option Hash256 :=
  if r.toAddr = [] ∧ r.tokenId = btcveldTokenId ∧ r.txid ≠ [] ∧ 0 < r.amount then
    some (sha256Domain sha256 redeemCommitmentDomain
      (previous.bytes ++ blockHash.bytes ++ putLenPrefixed r.txid ++ putLE 4 r.vout ++
        putLenPrefixed r.tokenId ++ putLenPrefixed r.fromAddr ++ putLenPrefixed r.toAddr ++
        putLE 8 r.amount.toNat ++ putLE 8 r.blockHeight ++ putLenPrefixed r.memo ++ [0, 0, 1]))
  else none

def mintEffectCommitmentDomain : String := "VELD/BTCVELD/MINT_ACCEPTED_EFFECT/v2"

def emptyBtcVeldMintEffectCommitment : Hash256 := sha256Domain sha256 mintEffectCommitmentDomain []

def c1SequenceHistoryDomain : String := "VELD/BTCVELD/C1_SEQUENCE_HISTORY/v2"

def emptyBtcVeldC1SequenceHistory : Hash256 := sha256Domain sha256 c1SequenceHistoryDomain []

def extendBtcVeldC1SequenceHistory (previous : Hash256) (transition : TokenAction)
    (sequence : Nat) (requestId recipient commitment : Bytes) (amount : Int) (height : Nat) :
    Hash256 :=
  sha256Domain sha256 c1SequenceHistoryDomain
    (previous.bytes ++ putLenPrefixed transition.text ++ putLE 8 sequence ++
      putLenPrefixed requestId ++ putLenPrefixed recipient ++ putLenPrefixed commitment ++
      putLE 8 amount.toNat ++ putLE 8 height)

end

end Veld
