import Veld.Consensus.SignerBond
import Veld.Consensus.ReserveTransition

/-!
# Proven payouts and proven spends

`consensus/btcveld_redeem_spv.h` and the parts of the covenant it calls: a payout proof (PSP2, or
PSPV in builds without payout binding) closes a redeem request, a spend proof (FSP2, or FSPV) shows
a transaction that moved custody.
-/

namespace Veld.Btcveld

open Wire Program Btcspv

section
variable (P : Profile) (sha256 : Bytes → Hash256)

/-! ## Payout proofs -/

structure PayoutProof where
  requestId : Hash256
  payoutTxid : Hash256
  outputs : List BtcTxOut
  requestCommitment : Hash256 := .zero
  payoutBtcHeight : Nat
  provenInputSats : Nat := 0

/-! ## Resolution of a payout -/

structure PayoutShape where
  canonical : Bool := true
  paid : Nat := 0
  total : Nat := 0
  destinations : Nat := 0
  commitments : Nat := 0
  changes : Nat := 0

/-- The output loop: destination, commitment and change are recognised, anything else is not; an
overflow ends it. -/
def payoutShape (r : RedeemRequest) (custodySpk : Bytes) :
    List BtcTxOut → PayoutShape → PayoutShape
  | [], shape => shape
  | o :: rest, shape =>
    if uint64Max - o.value < shape.total then { shape with canonical := false }
    else
      let shape := { shape with total := shape.total + o.value }
      if o.spk = r.destSpk ∧ 0 < o.value then
        let shape := { shape with destinations := shape.destinations + 1 }
        if uint64Max - o.value < shape.paid then { shape with canonical := false }
        else payoutShape r custodySpk rest { shape with paid := shape.paid + o.value }
      else if o.value = 0 ∧ o.spk = redeemRequestCommitmentScript r.requestCommitment then
        payoutShape r custodySpk rest { shape with commitments := shape.commitments + 1 }
      else if custodySpk ≠ [] ∧ o.spk = custodySpk ∧ 0 < o.value then
        payoutShape r custodySpk rest { shape with changes := shape.changes + 1 }
      else payoutShape r custodySpk rest { shape with canonical := false }

def maxProvenPayoutFeeSats : Nat := 100000

/-- One request, one commitment, at most one change output, a bounded fee. -/
def payoutCanonical (r : RedeemRequest) (custodySpk : Bytes) (provenInputSats : Nat)
    (outputs : List BtcTxOut) : Bool :=
  let s := payoutShape r custodySpk outputs {}
  s.canonical && custodySpk != [] && r.destSpk != custodySpk && 0 < provenInputSats &&
    s.destinations == 1 && s.commitments == 1 && s.changes ≤ 1 && s.paid == r.amountSats &&
    s.total ≤ provenInputSats && provenInputSats - s.total ≤ maxProvenPayoutFeeSats

/-- What the historical builds count as paid: everything to the destination. -/
def paidTo (spk : Bytes) (outputs : List BtcTxOut) : Option Nat :=
  outputs.foldlM (fun paid o =>
    if o.spk ≠ spk then some paid
    else if uint64Max - o.value < paid then none
    else some (paid + o.value)) 0

/-- Closes a request by a wrong payout: the verdict compensates its owner. -/
def defaultByPayout {A : RedeemArchive} (r : RedeemRequest) (payoutTxid : Hash256) :
    CovenantM A SlashVerdict := do
  releaseRequestLock r.requestId r.amountSats
  modify fun c =>
    { c with requests := c.requests.insert r.requestId
               { r with status := .defaulted, fulfilledTxid := payoutTxid } }
  return { slash := true, reason := .wrongPayout, compensateSats := r.amountSats,
           compensateTo := r.veldRecipient, slashSats := r.amountSats }

/-- Marks a request as paid or, failing that, as wrongly paid. -/
def closeByPayout {A : RedeemArchive} (r : RedeemRequest) (payoutTxid : Hash256) (correct : Bool) :
    CovenantM A (Option SlashVerdict) := do
  modify fun c => { c with consumedPayouts := payoutTxid :: c.consumedPayouts }
  if correct then do
    markFulfilled r.requestId payoutTxid r.amountSats r.destSpk
    return none
  else do
    let v ← defaultByPayout r payoutTxid
    return some v

/-- `ResolveProvenPayout` of a verified proof: `none` when the request is fulfilled, a verdict when
the payout was wrong. -/
def resolveProvenPayout {A : RedeemArchive} (proof : PayoutProof) (custodySpk : Bytes) :
    CovenantM A (Option SlashVerdict) := do
  let c ← get
  let r ← require (c.requests.lookup proof.requestId) Stop.reject
  check (r.status.closed = false) Stop.reject
  check (if P.redeemPayoutBindingRequired then
      proof.requestCommitment.isZero = false ∧ proof.payoutBtcHeight ≠ uint64Max ∧
        custodySpk ≠ [] ∧ proof.provenInputSats ≠ 0 ∧ proof.requestCommitment = r.requestCommitment
    else proof.requestCommitment.isZero ∨ proof.requestCommitment = r.requestCommitment)
    Stop.reject
  check (r.btcObservedHeight < proof.payoutBtcHeight) Stop.reject
  let fraud ← isConsumedFraudSpend sha256 proof.payoutTxid
  check (fraud = false) Stop.reject
  let used ← isConsumedPayout sha256 proof.payoutTxid
  check (used = false) Stop.reject
  if P.redeemPayoutBindingRequired then
    closeByPayout r proof.payoutTxid
      (payoutCanonical r custodySpk proof.provenInputSats proof.outputs)
  else do
    let paid ← require (paidTo r.destSpk proof.outputs) Stop.reject
    closeByPayout r proof.payoutTxid (decide (paid = r.amountSats))

/-! ## Spend proofs -/

structure FraudProof where
  spendTxid : Hash256
  custodyValue : Nat
  totalInputValue : Nat
  spendOutputs : List BtcTxOut
  spendBlock : Hash256 := .zero
  spendMerkleDirections : Nat := 0
  spendMerkleBranch : List Hash256 := []
  spendTx : Bytes := []
  directParents : List Bytes := []

/-- The values the parent loop adds up. -/
structure SpendTotals where
  input : Nat := 0
  custody : Nat := 0

def readSpendParent (custodySpk : Bytes) (prev : BtcPrevout) (parentTotal : Nat)
    (t : SpendTotals) (bs : Bytes) : Except String (Bytes × SpendTotals × Bytes) := do
  let (size, rest) ← orElse (readLE 4 bs) "truncated FSP2 parent"
  ensure (parentFits parentTotal size) "invalid FSP2 parent length"
  let (parentTx, rest) ← orElse (takeN size rest) "invalid FSP2 parent length"
  let parent ← orElse (parseWitnessAwareBtcTx sha256 parentTx 100000 100000)
    "FSP2 parent hash mismatch"
  ensure (parent.txid = prev.txid) "FSP2 parent hash mismatch"
  let input ← orElse parent.outputs[prev.vout]? "FSP2 parent output invalid"
  ensure (t.input ≤ uint64Max - input.value) "FSP2 input value overflow"
  ensure (input.spk = custodySpk → t.custody ≤ uint64Max - input.value)
    "FSP2 custody value overflow"
  return (parentTx, ⟨t.input + input.value,
    if input.spk = custodySpk then t.custody + input.value else t.custody⟩, rest)

/-- The parent loop of FSP2, one parent per input. -/
def readSpendParents (custodySpk : Bytes) : List BtcPrevout → Nat → SpendTotals → Bytes →
    Except String (List Bytes × SpendTotals × Bytes)
  | [], _, t, bs => .ok ([], t, bs)
  | prev :: prevs, parentTotal, t, bs => do
    let (parentTx, t, rest) ← readSpendParent sha256 custodySpk prev parentTotal t bs
    let (parents, t, rest) ←
      readSpendParents custodySpk prevs (parentTotal + parentTx.length) t rest
    return (parentTx :: parents, t, rest)

/-- The FSP2 branch of `VerifyFraudulentSpend`. -/
def verifyFsp2 (ch : BtcHeaderChain) (p custodySpk : Bytes) (kBtc : Nat) :
    Except String FraudProof := do
  ensure (custodySpk ≠ []) "custody script/proof unavailable"
  ensure (4 + 32 + 4 + 1 + 4 + 10 + 2 ≤ p.length ∧ p.take 4 = ascii "FSP2") "malformed FSP2 proof"
  let (block, r) ← orElse (readHash (p.drop 4)) "malformed FSP2 proof"
  let ((dirs, branch), r) ← orElse (readBranch r) "invalid FSP2 merkle branch"
  let (spendLen, r) ← orElse (readLE 4 r) "invalid FSP2 merkle branch"
  ensure (64 < spendLen ∧ spendLen ≤ maxMspvStrippedTxBytes) "invalid FSP2 spend length"
  let (spendTx, r) ← orElse (takeN spendLen r) "invalid FSP2 spend length"
  let (count, r) ← orElse (readLE 2 r) "invalid FSP2 spend length"
  let spend ← orElse (parseWitnessAwareBtcTx sha256 spendTx maxMspvParentCount 100000)
    "FSP2 spend serialization is non-canonical"
  ensure (ch.verifyMerkle sha256 block spend.txid branch dirs ∧
    ch.isFinalForExternalValue P block kBtc = true) "FSP2 spend is not final on the best chain"
  ensure (count = spend.prevouts.length ∧ count ≠ 0 ∧ count ≤ maxMspvParentCount)
    "FSP2 parent set is incomplete"
  let (parents, t, r) ← readSpendParents sha256 custodySpk spend.prevouts 0 {} r
  ensure (r = [] ∧ t.custody ≠ 0) "FSP2 is trailing, non-custody, or unparseable"
  return ⟨spend.txid, t.custody, t.input, spend.outputs, block, dirs, branch, spendTx, parents⟩

/-- The funding half of the historical proof: the custody output existed. -/
def readFspvFunding (ch : BtcHeaderChain) (custodySpk : Bytes) (kBtc : Nat) (r : Bytes) :
    Except String ((Hash256 × Nat × BtcTxOut) × Bytes) := do
  let (block, r) ← orElse (readHash r) "trunc F"
  ensure (4 ≤ r.length) "trunc F"
  let ((dirs, branch), r) ← orElse (readBranch r) "bad F merkle"
  ensure (8 ≤ r.length) "trunc F vout/len"
  let (custodyVout, r) ← orElse (readLE 4 r) "trunc F vout/len"
  let (len, r) ← orElse (readLE 4 r) "trunc F vout/len"
  ensure (64 < len) "bad F txlen"
  let (tx, r) ← orElse (takeN len r) "bad F txlen"
  let txid := hash256d sha256 tx
  ensure (ch.verifyMerkle sha256 block txid branch dirs = true) "F merkle invalid"
  ensure (ch.isFinal block kBtc = true) "F not final"
  let outs ← orElse (parseBtcTxOutputs tx) "F unparseable"
  let custody ← orElse outs[custodyVout]? "custody_vout out of range"
  ensure (custody.spk = custodySpk) "funding output is not the custody spk"
  return ((txid, custodyVout, custody), r)

/-- The spending half of the historical proof: the custody output was consumed. -/
def readFspvSpend (ch : BtcHeaderChain) (kBtc : Nat) (fundingTxid : Hash256) (custodyVout : Nat)
    (r : Bytes) : Except String (Hash256 × List BtcTxOut) := do
  let (block, r) ← orElse (readHash r) "trunc S"
  ensure (4 ≤ r.length) "trunc S"
  let ((dirs, branch), r) ← orElse (readBranch r) "bad S merkle"
  ensure (8 ≤ r.length) "trunc S vin/len"
  let (spendVin, r) ← orElse (readLE 4 r) "trunc S vin/len"
  let (len, tx) ← orElse (readLE 4 r) "trunc S vin/len"
  ensure (tx.length = len ∧ 64 < len) "bad S txlen"
  let txid := hash256d sha256 tx
  ensure (ch.verifyMerkle sha256 block txid branch dirs = true) "S merkle invalid"
  ensure (ch.isFinal block kBtc = true) "S not final"
  let prev ← orElse (parseBtcTxInputPrevout tx spendVin) "S input parse"
  ensure (prev.txid = fundingTxid ∧ prev.vout = custodyVout)
    "spend does not reference the custody output"
  let outs ← orElse (parseBtcTxOutputs tx) "S unparseable"
  return (txid, outs)

def verifyFspv (ch : BtcHeaderChain) (p custodySpk : Bytes) (kBtc : Nat) :
    Except String FraudProof := do
  ensure (custodySpk ≠ []) "custody script/proof unavailable"
  ensure (p.take 4 = ascii "FSPV") "malformed fraud op"
  let ((fundingTxid, custodyVout, custody), r) ←
    readFspvFunding sha256 ch custodySpk kBtc (p.drop 4)
  let (spendTxid, spendOutputs) ← readFspvSpend sha256 ch kBtc fundingTxid custodyVout r
  return { spendTxid, custodyValue := custody.value, totalInputValue := custody.value, spendOutputs }

def verifyFraudulentSpend (ch : BtcHeaderChain) (p custodySpk : Bytes) (kBtc : Nat) :
    Except String FraudProof :=
  if P.redeemPayoutBindingRequired then verifyFsp2 P sha256 ch p custodySpk kBtc
  else verifyFspv sha256 ch p custodySpk kBtc

end

/-! ## The parents of a spend proof -/

section
variable {P : Profile} {sha256 : Bytes → Hash256}
variable {custodySpk : Bytes}

theorem parentFits_of_readSpendParent {prev : BtcPrevout} {total : Nat} {t t' : SpendTotals}
    {bs parentTx rest : Bytes}
    (h : readSpendParent sha256 custodySpk prev total t bs = .ok (parentTx, t', rest)) :
    parentFits total parentTx.length := by
  simp only [readSpendParent, Wire.bind_eq_ok, orElse_eq_ok, ensure_eq_ok, Prod.exists] at h
  obtain ⟨size, _, -, _, hfit, parent, _, htake, _, -, _, -, _, -, _, -, _, -, heq⟩ := h
  cases heq
  rw [(takeN_eq_some.mp htake).2]
  exact hfit

theorem parentsFit_of_readSpendParents {prevs : List BtcPrevout} {total : Nat} {t t' : SpendTotals}
    {bs rest : Bytes} {parents : List Bytes}
    (h : readSpendParents sha256 custodySpk prevs total t bs = .ok (parents, t', rest)) :
    ParentsFit total parents := by
  induction prevs generalizing total t bs parents with
  | nil =>
    cases h
    trivial
  | cons prev prevs ih =>
    simp only [readSpendParents, Wire.bind_eq_ok, Prod.exists] at h
    obtain ⟨parentTx, t₁, r₁, hparent, parents', t₂, r₂, hrest, heq⟩ := h
    cases heq
    exact ⟨parentFits_of_readSpendParent hparent, ih hrest⟩

theorem parentsFit_of_verifyFraudulentSpend {ch : BtcHeaderChain} {p : Bytes} {kBtc : Nat}
    {proof : FraudProof} (h : verifyFraudulentSpend P sha256 ch p custodySpk kBtc = .ok proof) :
    ParentsFit 0 proof.directParents := by
  unfold verifyFraudulentSpend at h
  split at h
  · simp only [verifyFsp2, Wire.bind_eq_ok, orElse_eq_ok, ensure_eq_ok, Prod.exists] at h
    obtain ⟨_, -, _, -, _, _, -, _, _, _, -, _, _, -, _, -, _, _, -, _, _, -, _, -, _, -, _, -,
      parents, _, _, hparents, _, -, heq⟩ := h
    cases heq
    exact parentsFit_of_readSpendParents hparents
  · simp only [verifyFspv, Wire.bind_eq_ok, ensure_eq_ok, Prod.exists] at h
    obtain ⟨_, -, _, -, _, _, _, _, -, _, _, -, heq⟩ := h
    cases heq
    trivial

/-- The parent lists of accepted Bitcoin proofs, by the format that carried them. -/
inductive AcceptedParents (P : Profile) (sha256 : Bytes → Hash256) : List Bytes → Prop
  | reserveDecoder {bs : Bytes} {claim : Reserve.Claim} :
      Reserve.decodeProof sha256 bs = some claim → AcceptedParents P sha256 claim.directParents
  | reserveEncoder {claim : Reserve.Claim} :
      Reserve.encodeProof sha256 claim ≠ [] → AcceptedParents P sha256 claim.directParents
  | c1Funding {bs : Bytes} {proof : DepositProof} :
      parseC1FundingProof P sha256 bs = some proof → AcceptedParents P sha256 proof.parents
  | spvMint {bs : Bytes} {proof : DepositProof} :
      parseMintSpvOp P sha256 bs = some proof → AcceptedParents P sha256 proof.parents
  | redeemSpend {ch : BtcHeaderChain} {p custodySpk : Bytes} {kBtc : Nat} {proof : FraudProof} :
      verifyFraudulentSpend P sha256 ch p custodySpk kBtc = .ok proof →
        AcceptedParents P sha256 proof.directParents

theorem AcceptedParents.fit {parents : List Bytes} (h : AcceptedParents P sha256 parents) :
    ParentsFit 0 parents := by
  cases h with
  | reserveDecoder h => exact Reserve.parentsFit_of_decodeProof h
  | reserveEncoder h => exact Reserve.parentsFit_of_encodeProof h
  | c1Funding h | spvMint h => exact parentsFit_of_parseDepositProof h
  | redeemSpend h => exact parentsFit_of_verifyFraudulentSpend h

/-- The parents of an accepted proof stay within the total limit exactly when no single parent is
longer than that limit: the subtraction of the running test wraps around for a longer one. -/
theorem acceptedParents_total_le_iff {parents : List Bytes}
    (h : AcceptedParents P sha256 parents) :
    (parents.map List.length).sum ≤ maxMspvParentTotalBytes ↔
      ∀ p ∈ parents, p.length ≤ maxMspvParentTotalBytes :=
  parentTotal_le_iff h.fit

end

def oneParentClaim (size : Nat) : Reserve.Claim :=
  { bitcoinTx := List.replicate 65 0, directParents := [List.replicate size 0] }

theorem oneParentClaim_total (size : Nat) :
    ((oneParentClaim size).directParents.map List.length).sum = size := by
  simp [oneParentClaim]

theorem encodable_oneParentClaim {size : Nat} (hfit : parentFits 0 size) :
    (oneParentClaim size).Encodable where
  priorVout := (by decide : Reserve.noVout ≤ uint32Max)
  priorValue := Nat.zero_le _
  priorCount := Nat.zero_le _
  newVout := (by decide : Reserve.noVout ≤ uint32Max)
  newValue := Nat.zero_le _
  mint := Nat.zero_le _
  directions := Nat.zero_le _
  branch := Nat.zero_le _
  noHighBits := fun _ => rfl
  txLong := by simp [oneParentClaim]
  txFits := by simp [oneParentClaim, maxMspvStrippedTxBytes]
  parents := by simp [oneParentClaim]
  parentCount := by simp [oneParentClaim, Reserve.maxDirectInputs]
  parentsFit := ⟨by simpa using hfit, trivial⟩

theorem claimBytes_oneParentClaim_length (size : Nat) :
    (Reserve.claimBytes (oneParentClaim size) []).length = 353 + size := by
  have hmagic : (ascii "RTP1").length = 4 := by decide
  unfold Reserve.claimBytes
  simp only [List.length_append, putLE_length, Hash256.size, hmagic]
  simp [oneParentClaim]
  omega

theorem accepted_oneParentClaim {size : Nat} (hfit : parentFits 0 size) :
    AcceptedParents Profile.publicMainnet (fun _ => Hash256.zero) (oneParentClaim size).directParents := by
  have hsize := hfit.2.1
  suffices hdecode : Reserve.decodeProof (fun _ => Hash256.zero)
      (Reserve.claimBytes (oneParentClaim size) []) = some (oneParentClaim size) from
    .reserveDecoder hdecode
  refine Reserve.decodeProof_claimBytes (encodable_oneParentClaim hfit) (.inl ⟨rfl, rfl, rfl⟩) ?_ ?_
  · rw [claimBytes_oneParentClaim_length]
    omega
  · rw [claimBytes_oneParentClaim_length]
    norm_num [Reserve.maxProofBytes, maxMspvParentTxBytes, maxMspvStrippedTxBytes,
      Reserve.maxDirectInputs, maxMspvParentTotalBytes, Btcnull.maxProofBytes,
      Btcnull.treeDepth] at hsize ⊢
    omega

theorem acceptedParents_total_le_iff_ten :
    ((oneParentClaim 10).directParents.map List.length).sum ≤ maxMspvParentTotalBytes ↔
      ∀ p ∈ (oneParentClaim 10).directParents, p.length ≤ maxMspvParentTotalBytes :=
  acceptedParents_total_le_iff (accepted_oneParentClaim (by decide))

/-- One parent of 10001 bytes passes the test of the running total, and the total is over the
limit. -/
theorem acceptedParents_over_limit :
    AcceptedParents Profile.publicMainnet (fun _ => Hash256.zero) (oneParentClaim 10001).directParents ∧
      maxMspvParentTotalBytes < ((oneParentClaim 10001).directParents.map List.length).sum := by
  refine ⟨accepted_oneParentClaim (by decide), ?_⟩
  rw [oneParentClaim_total]
  decide

end Veld.Btcveld
