import Veld.Core.Script
import Veld.Core.BtcDepositVerify

/-!
# The rolling reserve: records and wire forms

`consensus/btcveld_reserve_transition.h`, first part. The Bitcoin backing is one outpoint, the reserve.
-/

namespace Veld.Reserve

open Wire Btcspv

inductive Status where
  | empty
  | active
  | frozen
  deriving DecidableEq

inductive Operation where
  | open
  | deposit
  | rollover
  | payout
  | close
  | freeze
  deriving DecidableEq

def Operation.code : Operation → Nat
  | .open => 1
  | .deposit => 2
  | .rollover => 3
  | .payout => 4
  | .close => 5
  | .freeze => 6

def Operation.ofCode : Nat → Option Operation
  | 1 => some .open
  | 2 => some .deposit
  | 3 => some .rollover
  | 4 => some .payout
  | 5 => some .close
  | 6 => some .freeze
  | _ => none

def noVout : Nat := 0xffffffff

def maxDirectInputs : Nat := 8

def maxProofBytes : Nat :=
  4 + 1 + 7 * 32 + 4 + 8 + 8 + 4 + 8 + 4 + 1 + 32 * 32 + 8 + 4 + maxMspvStrippedTxBytes + 2 +
    maxDirectInputs * 4 + maxMspvParentTotalBytes + 4 + Btcnull.maxProofBytes

section
variable (P : Profile) (sha256 : Bytes → Hash256)

def networkBinding : Hash256 :=
  sha256Domain sha256 "VELD/BTCVELD/RESERVE_NETWORK/v1"
    (putLenPrefixed P.genesisHash ++ putLenPrefixed P.deploymentProfileId ++
      putLenPrefixed (ascii "btcveld-reserve-outpoint-v1"))

def emptyTransitionCommitment : Hash256 :=
  sha256Domain sha256 "VELD/BTCVELD/RESERVE_TRANSITIONS/v1/EMPTY" (networkBinding P sha256).bytes

end

structure State where
  status : Status
  reserveTxid : Hash256
  reserveVout : Nat
  reserveValueSats : Nat
  reserveBitcoinBlock : Hash256
  transitionCount : Nat
  transitionCommitment : Hash256
  surplusSats : Nat
  openRedemptionPrincipal : Nat
  processedVeldHeight : Nat
  processedVeldBlockHash : Hash256
  deriving DecidableEq

def State.initial (P : Profile) (sha256 : Bytes → Hash256) : State where
  status := .empty
  reserveTxid := .zero
  reserveVout := noVout
  reserveValueSats := 0
  reserveBitcoinBlock := .zero
  transitionCount := 0
  transitionCommitment := emptyTransitionCommitment P sha256
  surplusSats := 0
  openRedemptionPrincipal := 0
  processedVeldHeight := 0
  processedVeldBlockHash := .zero

namespace State
variable (s : State)

def hasOutpoint : Bool :=
  s.status != .empty && !s.reserveTxid.isZero && s.reserveVout != noVout && s.reserveValueSats != 0

def canonical : Bool :=
  !s.transitionCommitment.isZero &&
    match s.status with
    | .empty =>
      s.reserveTxid.isZero && s.reserveVout == noVout && s.reserveValueSats == 0 &&
        s.reserveBitcoinBlock.isZero && s.surplusSats == 0 && s.openRedemptionPrincipal == 0
    | _ => s.hasOutpoint && !s.reserveBitcoinBlock.isZero

/-- The reserve covers supply, open principal and surplus exactly. -/
def accountingHolds (circulatingSupply : Nat) : Bool :=
  s.canonical && circulatingSupply ≤ uint64Max - s.openRedemptionPrincipal &&
    circulatingSupply + s.openRedemptionPrincipal ≤ uint64Max - s.surplusSats &&
    s.reserveValueSats == circulatingSupply + s.openRedemptionPrincipal + s.surplusSats

theorem reserveValue_of_accountingHolds {s : State} {supply : Nat}
    (h : s.accountingHolds supply) :
    s.reserveValueSats = supply + s.openRedemptionPrincipal + s.surplusSats := by
  simp only [accountingHolds, Bool.and_eq_true, beq_iff_eq] at h
  exact h.2

end State

def noProof : Btcnull.Proof := ⟨.zero, []⟩

structure Claim where
  operation : Operation := .open
  networkBinding : Hash256 := .zero
  priorCommitment : Hash256 := .zero
  priorReserveTxid : Hash256 := .zero
  priorReserveVout : Nat := noVout
  priorReserveValue : Nat := 0
  priorTransitionCount : Nat := 0
  newReserveTxid : Hash256 := .zero
  newReserveVout : Nat := noVout
  newReserveValue : Nat := 0
  bitcoinTxid : Hash256 := .zero
  bitcoinBlock : Hash256 := .zero
  merkleDirections : Nat := 0
  merkleBranch : List Hash256 := []
  exactCommitment : Hash256 := .zero
  mintAmount : Nat := 0
  bitcoinTx : Bytes := []
  directParents : List Bytes := []
  nullifierProof : Btcnull.Proof := noProof
  hasNullifierProof : Bool := false
  deriving DecidableEq

structure PayoutContext where
  requestId : Hash256
  requestCommitment : Hash256
  principalSats : Nat
  destinationSpk : Bytes
  deriving DecidableEq

/-! ## RTP1 -/

section
variable (sha256 : Bytes → Hash256)

/-- The nullifier field: absent when its size is zero. -/
def readNullifier (bs : Bytes) : Option ((Btcnull.Proof × Bool) × Bytes) := do
  let (size, rest) ← readLE 4 bs
  let (field, rest) ← takeN size rest
  if size = 0 then return ((noProof, false), rest) else
  guard (Btcnull.minProofBytes ≤ size ∧ size ≤ Btcnull.maxProofBytes)
  let proof ← Btcnull.decodeProof sha256 field
  return ((proof, true), rest)

/-- The fixed-width fields up to the Bitcoin block, over a default claim. -/
def readFixedFields (bs : Bytes) : Option (Claim × Bytes) := do
  let (code, r) ← readLE 1 bs
  let operation ← Operation.ofCode code
  let (networkBinding, r) ← readHash r
  let (priorCommitment, r) ← readHash r
  let (priorReserveTxid, r) ← readHash r
  let (priorReserveVout, r) ← readLE 4 r
  let (priorReserveValue, r) ← readLE 8 r
  let (priorTransitionCount, r) ← readLE 8 r
  let (newReserveTxid, r) ← readHash r
  let (newReserveVout, r) ← readLE 4 r
  let (newReserveValue, r) ← readLE 8 r
  let (bitcoinTxid, r) ← readHash r
  let (bitcoinBlock, r) ← readHash r
  return ({ operation, networkBinding, priorCommitment, priorReserveTxid, priorReserveVout,
            priorReserveValue, priorTransitionCount, newReserveTxid, newReserveVout,
            newReserveValue, bitcoinTxid, bitcoinBlock }, r)

def decodeProof (bs : Bytes) : Option Claim := do
  guard (bs.length ≤ maxProofBytes ∧ 300 ≤ bs.length)
  let (magic, r) ← takeN 4 bs
  guard (magic = ascii "RTP1")
  let (claim, r) ← readFixedFields r
  let ((merkleDirections, merkleBranch), r) ← readBranch r
  let (exactCommitment, r) ← readHash r
  let (mintAmount, r) ← readLE 8 r
  let (txSize, r) ← readLE 4 r
  guard (64 < txSize ∧ txSize ≤ maxMspvStrippedTxBytes)
  let (bitcoinTx, r) ← takeN txSize r
  let (directParents, r) ← readParentList maxDirectInputs r
  let ((nullifierProof, hasNullifierProof), r) ← readNullifier sha256 r
  guard (r = [])
  return { claim with merkleDirections, merkleBranch, exactCommitment, mintAmount, bitcoinTx,
                      directParents, nullifierProof, hasNullifierProof }

/-- The bytes `EncodeProof` writes, before its own checks. -/
def claimBytes (claim : Claim) (nullifier : Bytes) : Bytes :=
  ascii "RTP1" ++ putLE 1 claim.operation.code ++ claim.networkBinding.bytes ++
    claim.priorCommitment.bytes ++ claim.priorReserveTxid.bytes ++
    putLE 4 claim.priorReserveVout ++ putLE 8 claim.priorReserveValue ++
    putLE 8 claim.priorTransitionCount ++ claim.newReserveTxid.bytes ++
    putLE 4 claim.newReserveVout ++ putLE 8 claim.newReserveValue ++ claim.bitcoinTxid.bytes ++
    claim.bitcoinBlock.bytes ++ putLE 4 claim.merkleDirections ++
    putLE 1 claim.merkleBranch.length ++ claim.merkleBranch.flatMap Hash256.bytes ++
    claim.exactCommitment.bytes ++ putLE 8 claim.mintAmount ++ putLE 4 claim.bitcoinTx.length ++
    claim.bitcoinTx ++ putLE 2 claim.directParents.length ++
    claim.directParents.flatMap (fun p => putLE 4 p.length ++ p) ++ putLE 4 nullifier.length ++
    nullifier

/-- `EncodeProof`, empty when the claim has no encoding. -/
def encodeProof (claim : Claim) : Bytes :=
  let nullifier := if claim.hasNullifierProof then Btcnull.encodeProof sha256 claim.nullifierProof
    else []
  if claim.merkleBranch.length ≤ 32 ∧ claim.merkleDirections ≤ uint32Max ∧
      (claim.merkleBranch.length < 32 → claim.merkleDirections >>> claim.merkleBranch.length = 0) ∧
      64 < claim.bitcoinTx.length ∧ claim.bitcoinTx.length ≤ maxMspvStrippedTxBytes ∧
      claim.directParents ≠ [] ∧ claim.directParents.length ≤ maxDirectInputs ∧
      ParentsFit 0 claim.directParents ∧
      (claim.hasNullifierProof →
        Btcnull.minProofBytes ≤ nullifier.length ∧ nullifier.length ≤ Btcnull.maxProofBytes ∧
          (Btcnull.decodeProof sha256 nullifier).isSome) ∧
      (claimBytes claim nullifier).length ≤ maxProofBytes ∧
      (decodeProof sha256 (claimBytes claim nullifier)).isSome then
    claimBytes claim nullifier
  else []

end

variable {sha256 : Bytes → Hash256}

theorem parentsFit_of_decodeProof {bs : Bytes} {claim : Claim}
    (h : decodeProof sha256 bs = some claim) : ParentsFit 0 claim.directParents := by
  simp only [decodeProof, bind_eq_some, Prod.exists, Option.guard_eq_some', pure_eq_some] at h
  obtain ⟨_, -, _, _, -, _, -, head, _, -, _, _, _, -, _, _, -, _, _, -, _, _, -, _, -, _, _, -,
    parents, _, hparents, -, -, -, -, -, -, rfl⟩ := h
  exact parentsFit_of_readParentList hparents

theorem parentsFit_of_encodeProof {claim : Claim} (h : encodeProof sha256 claim ≠ []) :
    ParentsFit 0 claim.directParents := by
  unfold encodeProof at h
  by_contra hfit
  exact h (if_neg fun hc => hfit hc.2.2.2.2.2.2.2.1)

/-- Fields within the width the wire gives them. -/
structure Claim.Encodable (claim : Claim) : Prop where
  priorVout : claim.priorReserveVout ≤ uint32Max
  priorValue : claim.priorReserveValue ≤ uint64Max
  priorCount : claim.priorTransitionCount ≤ uint64Max
  newVout : claim.newReserveVout ≤ uint32Max
  newValue : claim.newReserveValue ≤ uint64Max
  mint : claim.mintAmount ≤ uint64Max
  directions : claim.merkleDirections ≤ uint32Max
  branch : claim.merkleBranch.length ≤ 32
  noHighBits : claim.merkleBranch.length < 32 →
    claim.merkleDirections >>> claim.merkleBranch.length = 0
  txLong : 64 < claim.bitcoinTx.length
  txFits : claim.bitcoinTx.length ≤ maxMspvStrippedTxBytes
  parents : claim.directParents ≠ []
  parentCount : claim.directParents.length ≤ maxDirectInputs
  parentsFit : ParentsFit 0 claim.directParents

section
variable {sha256 : Bytes → Hash256}

theorem Operation.ofCode_code (op : Operation) : Operation.ofCode op.code = some op := by
  cases op <;> rfl

theorem readBranch_put {dirs : Nat} {branch : List Hash256} (hdirs : dirs ≤ uint32Max)
    (hlen : branch.length ≤ 32) (hbits : branch.length < 32 → dirs >>> branch.length = 0)
    (rest : Bytes) :
    readBranch (putLE 4 dirs ++ (putLE 1 branch.length ++ (branch.flatMap Hash256.bytes ++ rest))) =
      some ((dirs, branch), rest) := by
  have hdirs' : dirs < 256 ^ 4 := by unfold uint32Max at hdirs; omega
  have hlen' : branch.length < 256 ^ 1 := by omega
  have hmany : readMany readHash branch.length (branch.flatMap Hash256.bytes ++ rest) =
      some (branch, rest) := readMany_flatMap (fun h _ rest => readHash_bytes h rest) rest
  simp only [readBranch, readLE_putLE hdirs', readLE_putLE hlen', hmany, guard_pos (And.intro hlen
    hbits), Option.pure_def, some_bind]

variable {claim : Claim}

theorem readFixedFields_put (h : claim.Encodable) (rest : Bytes) :
    readFixedFields (putLE 1 claim.operation.code ++ (claim.networkBinding.bytes ++
        (claim.priorCommitment.bytes ++ (claim.priorReserveTxid.bytes ++
        (putLE 4 claim.priorReserveVout ++ (putLE 8 claim.priorReserveValue ++
        (putLE 8 claim.priorTransitionCount ++ (claim.newReserveTxid.bytes ++
        (putLE 4 claim.newReserveVout ++ (putLE 8 claim.newReserveValue ++
        (claim.bitcoinTxid.bytes ++ (claim.bitcoinBlock.bytes ++ rest)))))))))))) =
      some ({ operation := claim.operation, networkBinding := claim.networkBinding,
              priorCommitment := claim.priorCommitment, priorReserveTxid := claim.priorReserveTxid,
              priorReserveVout := claim.priorReserveVout,
              priorReserveValue := claim.priorReserveValue,
              priorTransitionCount := claim.priorTransitionCount,
              newReserveTxid := claim.newReserveTxid, newReserveVout := claim.newReserveVout,
              newReserveValue := claim.newReserveValue, bitcoinTxid := claim.bitcoinTxid,
              bitcoinBlock := claim.bitcoinBlock }, rest) := by
  have hcode : claim.operation.code < 256 ^ 1 := by cases claim.operation <;> decide
  have hpv : claim.priorReserveVout < 256 ^ 4 := lt_of_le_of_lt h.priorVout (by decide)
  have hpw : claim.priorReserveValue < 256 ^ 8 := lt_of_le_of_lt h.priorValue (by decide)
  have hpc : claim.priorTransitionCount < 256 ^ 8 := lt_of_le_of_lt h.priorCount (by decide)
  have hnv : claim.newReserveVout < 256 ^ 4 := lt_of_le_of_lt h.newVout (by decide)
  have hnw : claim.newReserveValue < 256 ^ 8 := lt_of_le_of_lt h.newValue (by decide)
  unfold readFixedFields
  refine bind_step (readLE_putLE hcode _) ?_
  refine bind_step (Operation.ofCode_code _) ?_
  refine bind_step (readHash_bytes _ _) ?_
  refine bind_step (readHash_bytes _ _) ?_
  refine bind_step (readHash_bytes _ _) ?_
  refine bind_step (readLE_putLE hpv _) ?_
  refine bind_step (readLE_putLE hpw _) ?_
  refine bind_step (readLE_putLE hpc _) ?_
  refine bind_step (readHash_bytes _ _) ?_
  refine bind_step (readLE_putLE hnv _) ?_
  refine bind_step (readLE_putLE hnw _) ?_
  refine bind_step (readHash_bytes _ _) ?_
  refine bind_step (readHash_bytes _ _) ?_
  rfl

/-- The nullifier field of a claim: nothing, or the encoding of its proof. -/
def nullifierEncodes (sha256 : Bytes → Hash256) (claim : Claim) (field : Bytes) : Prop :=
  (claim.hasNullifierProof = false ∧ claim.nullifierProof = noProof ∧ field = []) ∨
    (claim.hasNullifierProof ∧ Btcnull.minProofBytes ≤ field.length ∧
      field.length ≤ Btcnull.maxProofBytes ∧
      Btcnull.decodeProof sha256 field = some claim.nullifierProof)

theorem readNullifier_put {field : Bytes} (h : nullifierEncodes sha256 claim field) :
    readNullifier sha256 (putLE 4 field.length ++ (field ++ [])) =
      some ((claim.nullifierProof, claim.hasNullifierProof), []) := by
  rcases h with ⟨hno, hproof, rfl⟩ | ⟨hyes, hmin, hmax, hdec⟩
  · rw [hno, hproof]
    rfl
  · have hne : field.length ≠ 0 := by unfold Btcnull.minProofBytes at hmin; omega
    have hsize : field.length < 256 ^ 4 :=
      lt_of_le_of_lt hmax (by norm_num [Btcnull.maxProofBytes, Btcnull.treeDepth])
    simp only [readNullifier, readLE_putLE hsize, takeN_append, hne, if_false, guard_pos (And.intro
      hmin hmax), hdec, hyes, Option.pure_def, some_bind]

theorem decodeProof_claimBytes {field : Bytes} (h : claim.Encodable)
    (hnull : nullifierEncodes sha256 claim field) (hmin : 300 ≤ (claimBytes claim field).length)
    (hmax : (claimBytes claim field).length ≤ maxProofBytes) :
    decodeProof sha256 (claimBytes claim field) = some claim := by
  have htx : claim.bitcoinTx.length < 256 ^ 4 :=
    lt_of_le_of_lt h.txFits (by norm_num [maxMspvStrippedTxBytes])
  have hmint : claim.mintAmount < 256 ^ 8 := lt_of_le_of_lt h.mint (by decide)
  have hcount : claim.directParents.length < 256 ^ 2 := lt_of_le_of_lt h.parentCount (by decide)
  have hpos : claim.directParents.length ≠ 0 := by simpa using h.parents
  have hmagic : ∀ rest, takeN 4 (ascii "RTP1" ++ rest) = some (ascii "RTP1", rest) :=
    fun rest => takeN_append (ascii "RTP1") rest
  have hparents : ∀ rest, readParentList maxDirectInputs (putLE 2 claim.directParents.length ++
      (claim.directParents.flatMap (fun p => putLE 4 p.length ++ p) ++ rest)) =
        some (claim.directParents, rest) := by
    intro rest
    unfold readParentList
    refine bind_step (readLE_putLE hcount _) ?_
    refine bind_step (guard_pos ⟨hpos, h.parentCount⟩) ?_
    exact readParents_flatMap h.parentsFit rest
  rw [← List.append_nil (claimBytes claim field)] at hmin hmax ⊢
  generalize hbs : claimBytes claim field ++ [] = bs at hmin hmax ⊢
  unfold claimBytes at hbs
  simp only [List.append_assoc] at hbs
  unfold decodeProof
  refine bind_step (guard_pos ⟨hmax, hmin⟩) ?_
  rw [← hbs]
  refine bind_step (hmagic _) ?_
  refine bind_step (guard_pos rfl) ?_
  refine bind_step (readFixedFields_put h _) ?_
  refine bind_step (readBranch_put h.directions h.branch h.noHighBits _) ?_
  refine bind_step (readHash_bytes _ _) ?_
  refine bind_step (readLE_putLE hmint _) ?_
  refine bind_step (readLE_putLE htx _) ?_
  refine bind_step (guard_pos ⟨h.txLong, h.txFits⟩) ?_
  refine bind_step (takeN_append _ _) ?_
  refine bind_step (hparents _) ?_
  refine bind_step (readNullifier_put hnull) ?_
  rfl

end

/-! ## What a Bitcoin transaction says about the reserve -/

structure AuthMarker where
  operation : Operation
  priorCommitment : Hash256
  exactCommitment : Hash256
  mintAmount : Nat
  openRecipient : Bytes
  deriving DecidableEq

def openAuthRecipientBytes : Nat := 34
def openAuthPayloadBytes : Nat := 4 + 1 + 32 + openAuthRecipientBytes + 8
def standardAuthPayloadBytes : Nat := 4 + 1 + 32 + 32 + 8
def maxStandardNullDataScriptBytes : Nat := 83

structure InputFacts where
  prevouts : List BtcPrevout
  spentOutputs : List BtcTxOut
  inputTotal : Nat

section
variable (P : Profile) (sha256 : Bytes → Hash256)

/-- `ParseAuthMarker`: the RVS1 null-data output that authorises a transition. -/
def parseAuthMarker (output : BtcTxOut) : Option AuthMarker := do
  let bytes := extractOpReturn output.spk
  guard ((bytes.length = openAuthPayloadBytes ∨ bytes.length = standardAuthPayloadBytes) ∧
    output.spk.length = bytes.length + 3 ∧
    output.spk.take 3 = [0x6a, 0x4c, UInt8.ofNat bytes.length] ∧
    output.spk.length ≤ maxStandardNullDataScriptBytes ∧ bytes.take 4 = ascii "RVS1")
  let (code, r) ← readLE 1 (bytes.drop 4)
  let operation ← Operation.ofCode code
  guard (operation ≠ .freeze)
  let (priorCommitment, r) ← readHash r
  if operation = .open then
    guard (bytes.length = openAuthPayloadBytes)
    let (openRecipient, r) ← takeN openAuthRecipientBytes r
    guard (isCanonicalTokenCreditAddress sha256 P openRecipient = true)
    let (mintAmount, _) ← readLE 8 r
    return ⟨operation, priorCommitment, .zero, mintAmount, openRecipient⟩
  else
    guard (bytes.length = standardAuthPayloadBytes)
    let (exactCommitment, r) ← readHash r
    let (mintAmount, _) ← readLE 8 r
    return ⟨operation, priorCommitment, exactCommitment, mintAmount, []⟩

def openDepositCommitment (reserveVout reserveValue : Nat) (recipient : Bytes) : Hash256 :=
  sha256Domain sha256 "VELD/BTCVELD/PENDING_DEPOSIT/v1/OPEN"
    (putLE 4 reserveVout ++ putLE 8 reserveValue ++ putLenPrefixed recipient)

def pendingDepositCommitment (txid : Hash256) (vout value : Nat) (recipient : Bytes) : Hash256 :=
  sha256Domain sha256 "VELD/BTCVELD/PENDING_DEPOSIT/v1"
    (txid.bytes ++ putLE 4 vout ++ putLE 8 value ++ putLenPrefixed recipient)

def transitionCommitment (claim : Claim) : Hash256 :=
  sha256Domain sha256 "VELD/BTCVELD/RESERVE_TRANSITION/v1"
    (claim.networkBinding.bytes ++ claim.priorCommitment.bytes ++ claim.priorReserveTxid.bytes ++
      putLE 4 claim.priorReserveVout ++ putLE 8 claim.priorReserveValue ++
      putLE 8 claim.priorTransitionCount ++ claim.newReserveTxid.bytes ++
      putLE 4 claim.newReserveVout ++ putLE 8 claim.newReserveValue ++ claim.bitcoinTxid.bytes ++
      claim.bitcoinBlock.bytes ++ putLE 1 claim.operation.code ++ claim.exactCommitment.bytes ++
      putLE 8 claim.mintAmount)

def spentOutputs : List (BtcPrevout × Bytes) → Nat → Except String (List BtcTxOut × Nat)
  | [], total => .ok ([], total)
  | (prev, parentTx) :: rest, total => do
    ensure (¬ (prev.txid.isZero ∧ prev.vout = uint32Max))
      "reserve transaction cannot spend a coinbase marker"
    let parent ← orElse (parseWitnessAwareBtcTx sha256 parentTx 100000 100000)
      "direct parent hash mismatch"
    ensure (parent.txid = prev.txid) "direct parent hash mismatch"
    let spent ← orElse parent.outputs[prev.vout]? "direct parent output is unavailable"
    ensure (total ≤ uint64Max - spent.value) "Bitcoin input value overflow"
    let (spents, total) ← spentOutputs rest (total + spent.value)
    return (spent :: spents, total)

/-- `ReadInputFacts`, of the transaction and parents of a claim. -/
def readInputFacts (bitcoinTx : Bytes) (directParents : List Bytes) : Except String InputFacts := do
  let spend ← orElse (parseWitnessAwareBtcTx sha256 bitcoinTx maxDirectInputs 100000)
    "Bitcoin input serialization is non-canonical"
  ensure (spend.prevouts.length = directParents.length ∧ spend.prevouts ≠ [] ∧
    spend.prevouts.length ≤ maxDirectInputs) "direct parent set does not match Bitcoin inputs"
  let (spents, total) ← spentOutputs sha256 (spend.prevouts.zip directParents) 0
  return ⟨spend.prevouts, spents, total⟩

/-- `MatchesPrior`: the claim starts from this state. -/
def matchesPrior (state : State) (claim : Claim) : Prop :=
  claim.networkBinding = networkBinding P sha256 ∧
    claim.priorCommitment = state.transitionCommitment ∧
    claim.priorReserveTxid = state.reserveTxid ∧ claim.priorReserveVout = state.reserveVout ∧
    claim.priorReserveValue = state.reserveValueSats ∧
    claim.priorTransitionCount = state.transitionCount

instance (state : State) (claim : Claim) : Decidable (matchesPrior P sha256 state claim) := by
  unfold matchesPrior; infer_instance

end

/-- `ExtractRecipient`: the recipient when exactly one output carries the tag. -/
def extractRecipient (outputs : List BtcTxOut) : Option Bytes := onlyOne (recipientTags outputs)

def sumOutputs (outputs : List BtcTxOut) : Option Nat :=
  outputs.foldlM (fun total o => if total ≤ uint64Max - o.value then some (total + o.value) else none)
    0

end Veld.Reserve
