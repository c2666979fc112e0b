import Veld.Core.BtcTx
import Veld.Core.BtcHeaderChain
import Veld.Consensus.MintNullifier

/-!
# Bitcoin deposit proofs

The proof formats of `core/btc_deposit_verify.h`. A C1 funding proof and an SPV mint proof are the same record
under two magics and two transaction size windows.
-/

namespace Veld.Btcspv

open Wire Btcnull List

def maxMspvStrippedTxBytes : Nat := 12000
def maxMspvParentTxBytes : Nat := 12000
def maxMspvParentTotalBytes : Nat := 10000

/-- Subtraction of `size_t`. -/
def sizeSub (a b : Nat) : Nat := (a + 2 ^ 64 - b) % 2 ^ 64

/-! ## Formats -/

/-- Direction bits and branch: at most 32 siblings, no bit above them. -/
def readBranch (bs : Bytes) : Option ((Nat × List Hash256) × Bytes) := do
  let (dirs, rest) ← readLE 4 bs
  let (mlen, rest) ← readLE 1 rest
  guard (mlen ≤ 32 ∧ (mlen < 32 → dirs >>> mlen = 0))
  let (branch, rest) ← readMany readHash mlen rest
  return ((dirs, branch), rest)

structure Inclusion where
  blockHash : Hash256
  dirs : Nat
  branch : List Hash256
  tx : Bytes
  deriving DecidableEq

/-- A transaction of `minTx` to `maxTx` bytes with its branch in a block. -/
def readInclusion (minTx maxTx : Nat) (bs : Bytes) : Option (Inclusion × Bytes) := do
  let (blockHash, rest) ← readHash bs
  let ((dirs, branch), rest) ← readBranch rest
  let (txLen, rest) ← readLE 4 rest
  guard (minTx ≤ txLen ∧ txLen ≤ maxTx)
  let (tx, rest) ← takeN txLen rest
  return (⟨blockHash, dirs, branch, tx⟩, rest)

/-- The size tests of one parent: its own window, and the running total. -/
def parentFits (total size : Nat) : Prop :=
  10 ≤ size ∧ size ≤ maxMspvParentTxBytes ∧ total ≤ sizeSub maxMspvParentTotalBytes size

instance (total size : Nat) : Decidable (parentFits total size) := by
  unfold parentFits; infer_instance

def readParents : Nat → Nat → Bytes → Option (List Bytes × Bytes)
  | 0, _, bs => some ([], bs)
  | count + 1, total, bs => do
    let (size, rest) ← readLE 4 bs
    guard (parentFits total size)
    let (parent, rest) ← takeN size rest
    let (parents, rest) ← readParents count (total + size) rest
    return (parent :: parents, rest)

def readParentList (maxCount : Nat) (bs : Bytes) : Option (List Bytes × Bytes) := do
  let (count, rest) ← readLE 2 bs
  guard (count ≠ 0 ∧ count ≤ maxCount)
  readParents count 0 rest

structure DepositProof where
  inclusion : Inclusion
  parents : List Bytes
  nullifier : Proof
  deriving DecidableEq

section
variable (P : Profile) (sha256 : Bytes → Hash256)

/-- The parent list, present only in builds with custody lineage. -/
def readLineageParents (bs : Bytes) : Option (List Bytes × Bytes) :=
  if P.custodyLineageRequired then readParentList maxMspvParentCount bs else some ([], bs)

def parseDepositProof (minLen : Nat) (magic : String) (minTx maxTx : Nat) (bs : Bytes) :
    Option DepositProof := do
  guard (minLen ≤ bs.length)
  let (head, rest) ← takeN 4 bs
  guard (head = ascii magic)
  let (inclusion, rest) ← readInclusion minTx maxTx rest
  let (parents, rest) ← readLineageParents P rest
  guard (minProofBytes ≤ rest.length ∧ rest.length ≤ maxProofBytes)
  let nullifier ← decodeProof sha256 rest
  return ⟨inclusion, parents, nullifier⟩

def parseC1FundingProof (bs : Bytes) : Option DepositProof :=
  parseDepositProof P sha256 (4 + 32 + 4 + 1 + 4 + 10)
    (if P.custodyLineageRequired then "CFP2" else "CFP1") 10 8000 bs

def parseMintSpvOp (bs : Bytes) : Option DepositProof :=
  parseDepositProof P sha256 (4 + 32 + 4 + 1 + 4 + minProofBytes)
    (if P.custodyLineageRequired then "MSP3" else "MSP2") 1 maxMspvStrippedTxBytes bs

/-! ## Verification -/

structure LineageReasons where
  incomplete : String
  hashMismatch : String
  outputInvalid : String
  overflow : String

/-- The value the inputs take from outputs locked by `script`. -/
def custodyInputs (reasons : LineageReasons) (script : Bytes) :
    List (BtcPrevout × Bytes) → Nat → Except String Nat
  | [], total => .ok total
  | (prev, parent) :: rest, total => do
    ensure (hash256d sha256 parent = prev.txid) reasons.hashMismatch
    let outs ← orElse (parseBtcTxOutputs parent) reasons.outputInvalid
    let input ← orElse outs[prev.vout]? reasons.outputInvalid
    if input.spk = script then do
      ensure (total ≤ uint64Max - input.value) reasons.overflow
      custodyInputs reasons script rest (total + input.value)
    else custodyInputs reasons script rest total

/-- Every input has its parent; the custody value they carry in. -/
def inputLineage (reasons : LineageReasons) (tx : Bytes) (parents : List Bytes) (script : Bytes) :
    Except String Nat := do
  let prevouts ← orElse (parseBtcTxPrevouts tx) reasons.incomplete
  ensure (prevouts.length = parents.length) reasons.incomplete
  custodyInputs sha256 reasons script (prevouts.zip parents) 0

def evaluateCustodyInputLineage (tx : Bytes) (parents : List Bytes) (custodySpk : Bytes) :
    Except String Nat := do
  ensure (custodySpk ≠ []) "custody script unavailable"
  inputLineage sha256 ⟨"input lineage is incomplete", "lineage parent hash mismatch",
    "lineage parent output invalid", "custody input amount overflow"⟩ tx parents custodySpk

/-- The sole element of a list. -/
def onlyOne {α : Type} : List α → Option α
  | [a] => some a
  | _ => none

structure C1FundingResult where
  outpointId : Bytes
  nullifierProof : Proof

/-- The custody value a C1 funding transaction carries in. -/
def c1FundingInputs (tx : Bytes) (parents : List Bytes) (script : Bytes) : Except String Nat :=
  if P.custodyLineageRequired then
    inputLineage sha256 ⟨"funding input lineage is incomplete",
      "funding lineage parent hash mismatch", "funding lineage parent output invalid",
      "funding custody input overflow"⟩ tx parents script
  else .ok 0

def verifyC1Funding (ch : BtcHeaderChain) (payload exactScript : Bytes) (exactAmount : Nat)
    (exactOutpoint : Bytes) (kBtc : Nat) : Except String C1FundingResult := do
  ensure (exactScript ≠ [] ∧ exactAmount ≠ 0) "empty script or zero amount"
  let proof ← orElse (parseC1FundingProof P sha256 payload)
    (if P.custodyLineageRequired then "malformed CFP2" else "malformed CFP1")
  let tx := proof.inclusion.tx
  ensure (64 < tx.length) "funding tx is merkle-ambiguous"
  let txid := hash256d sha256 tx
  ensure (ch.verifyMerkle sha256 proof.inclusion.blockHash txid proof.inclusion.branch
      proof.inclusion.dirs ∧
    ch.isFinalForExternalValue P proof.inclusion.blockHash kBtc = true)
    "funding proof is not validator-observed final on best chain"
  let outputs ← orElse (parseBtcTxOutputs tx) "funding tx is not canonical legacy serialization"
  let inputs ← c1FundingInputs P sha256 tx proof.parents exactScript
  let found := outputs.zipIdx.filter fun o =>
    o.1.spk == exactScript && (P.custodyLineageRequired || o.1.value == exactAmount)
  let output ← orElse (onlyOne found) "funding tx lacks one exact script/amount output"
  ensure (P.custodyLineageRequired →
    inputs < output.1.value ∧ output.1.value - inputs = exactAmount)
    "funding does not add the exact net-new allocation"
  let outpointId := btcDepositOutpointId txid output.2
  ensure (outpointId = exactOutpoint) "funding outpoint differs from proven transaction"
  return ⟨outpointId, proof.nullifier⟩

structure DepositResult where
  recipient : Bytes
  amount : Nat
  depositKey : Hash256
  depositVout : Nat
  outpointId : Bytes
  nullifierProof : Proof
  custodyInputAmount : Nat
  custodyOutputAmount : Nat

def depositInputs (tx : Bytes) (parents : List Bytes) (custodySpk : Bytes) : Except String Nat :=
  if P.custodyLineageRequired then evaluateCustodyInputLineage sha256 tx parents custodySpk
  else .ok 0

def verifyDepositMint (ch : BtcHeaderChain) (payload custodySpk : Bytes) (kBtc currentSupply
    maxCustody : Nat) (validRecipient : Bytes → Bool) : Except String DepositResult := do
  ensure (custodySpk ≠ []) "custody script is empty / not configured"
  let proof ← orElse (parseMintSpvOp P sha256 payload) "malformed MSP3/lineage/nullifier op"
  let tx := proof.inclusion.tx
  ensure (64 < tx.length) "deposit tx implausibly short (merkle-ambiguity guard)"
  let txid := hash256d sha256 tx
  ensure (ch.verifyMerkle sha256 proof.inclusion.blockHash txid proof.inclusion.branch
    proof.inclusion.dirs = true) "merkle proof invalid"
  ensure (ch.isFinalForExternalValue P proof.inclusion.blockHash kBtc = true)
    "block not deep and validator-observed on the Bitcoin best chain"
  let outs ← orElse (parseBtcTxOutputs tx) "deposit tx unparseable"
  let inputs ← depositInputs P sha256 tx proof.parents custodySpk
  let (output, vout) ← orElse (onlyOne (outs.zipIdx.filter fun o => o.1.spk == custodySpk))
    "deposit must have exactly one custody output"
  let recipient ← orElse (onlyOne (recipientTags outs))
    "deposit must have exactly one btcVELD OP_RETURN"
  ensure (validRecipient recipient = true) "invalid recipient address"
  ensure (output.value ≠ 0 ∧ (P.custodyLineageRequired → inputs < output.value))
    "transaction adds no net-new external custody"
  let netNew := output.value - inputs
  ensure (currentSupply ≤ maxCustody ∧ netNew ≤ maxCustody - currentSupply) "over custody cap"
  return ⟨recipient, netNew, txid, vout, btcDepositOutpointId txid vout, proof.nullifier, inputs,
    output.value⟩

end

variable {sha256 : Bytes → Hash256}

theorem verifyDepositMint_recipient {P : Profile} {ch : BtcHeaderChain} {payload custodySpk : Bytes}
    {kBtc currentSupply maxCustody : Nat} {validRecipient : Bytes → Bool} {r : DepositResult}
    (h : verifyDepositMint P sha256 ch payload custodySpk kBtc currentSupply maxCustody
      validRecipient = .ok r) : validRecipient r.recipient := by
  simp only [verifyDepositMint, bind_eq_ok, ensure_eq_ok, orElse_eq_ok] at h
  obtain ⟨-, -, proof, -, -, -, -, -, -, -, outs, -, inputs, -, output, -, recipient, -, -, hvalid,
    -, -, -, -, heq⟩ := h
  cases heq
  exact hvalid

/-! ## The parent total -/

def ParentsFit : Nat → List Bytes → Prop
  | _, [] => True
  | total, p :: ps => parentFits total p.length ∧ ParentsFit (total + p.length) ps

instance : ∀ (total : Nat) (ps : List Bytes), Decidable (ParentsFit total ps)
  | _, [] => .isTrue trivial
  | total, p :: ps =>
    @instDecidableAnd _ _ _ (instDecidableParentsFit (total + p.length) ps)

variable {ps : List Bytes}

theorem parentsFit_of_readParents {count total : Nat} {bs rest : Bytes}
    (h : readParents count total bs = some (ps, rest)) : ParentsFit total ps := by
  induction count generalizing total bs ps rest with
  | zero =>
    simp only [readParents, Option.some.injEq, Prod.mk.injEq] at h
    rw [← h.1]
    trivial
  | succ count ih =>
    simp only [readParents, bind_eq_some, Prod.exists, Option.guard_eq_some', pure_eq_some,
      Prod.mk.injEq] at h
    obtain ⟨size, r1, -, -, hfit, parent, r2, htake, ps', r3, hrest, rfl, rfl⟩ := h
    have hlen := (takeN_eq_some.mp htake).2
    rw [← hlen] at hfit hrest
    exact ⟨hfit, ih hrest⟩

theorem readParents_flatMap {total : Nat} (h : ParentsFit total ps) (rest : Bytes) :
    readParents ps.length total (ps.flatMap (fun p => putLE 4 p.length ++ p) ++ rest) =
      some (ps, rest) := by
  induction ps generalizing total with
  | nil => rfl
  | cons p ps ih =>
    obtain ⟨hp, hps⟩ := h
    have hsize : p.length < 256 ^ 4 := by
      have := hp.2.1
      unfold maxMspvParentTxBytes at this
      omega
    simp only [length_cons, readParents, flatMap_cons, append_assoc, readLE_putLE
      hsize, takeN_append, ih hps, guard_pos hp, Option.pure_def, some_bind]

theorem sizeSub_of_le {a b : Nat} (hb : b ≤ a) (ha : a < 2 ^ 64) : sizeSub a b = a - b := by
  unfold sizeSub
  rw [show a + 2 ^ 64 - b = (a - b) + 2 ^ 64 by omega, Nat.add_mod_right, Nat.mod_eq_of_lt (by omega)]

theorem sum_le_of_parentsFit {total : Nat} (hfit : ParentsFit total ps)
    (htotal : total ≤ maxMspvParentTotalBytes)
    (hsmall : ∀ p ∈ ps, p.length ≤ maxMspvParentTotalBytes) :
    total + (ps.map List.length).sum ≤ maxMspvParentTotalBytes := by
  induction ps generalizing total with
  | nil => simpa using htotal
  | cons p ps ih =>
    obtain ⟨⟨-, -, hrun⟩, hrest⟩ := hfit
    have hp := hsmall p (by simp)
    rw [sizeSub_of_le hp (by unfold maxMspvParentTotalBytes; omega)] at hrun
    have := ih hrest (by omega) fun q hq => hsmall q (by simp [hq])
    simp only [map_cons, sum_cons]
    omega

/-- An accepted parent list keeps the total limit exactly when no single parent exceeds it. -/
theorem parentTotal_le_iff (hfit : ParentsFit 0 ps) :
    (ps.map List.length).sum ≤ maxMspvParentTotalBytes ↔
      ∀ p ∈ ps, p.length ≤ maxMspvParentTotalBytes := by
  constructor
  · intro hsum p hp
    exact le_trans (single_le_sum (by simp) _ (mem_map_of_mem hp)) hsum
  · intro hsmall
    simpa using sum_le_of_parentsFit hfit (Nat.zero_le _) hsmall

theorem parentsFit_of_readParentList {maxCount : Nat} {bs rest : Bytes}
    (h : readParentList maxCount bs = some (ps, rest)) : ParentsFit 0 ps := by
  simp only [readParentList, bind_eq_some, Prod.exists, Option.guard_eq_some'] at h
  obtain ⟨count, r, -, -, -, h⟩ := h
  exact parentsFit_of_readParents h

theorem parentsFit_of_parseDepositProof {P : Profile} {minLen minTx maxTx : Nat} {magic : String}
    {bs : Bytes} {proof : DepositProof}
    (h : parseDepositProof P sha256 minLen magic minTx maxTx bs = some proof) :
    ParentsFit 0 proof.parents := by
  simp only [parseDepositProof, bind_eq_some, Prod.exists, Option.guard_eq_some', pure_eq_some] at h
  obtain ⟨-, -, -, -, -, -, -, inclusion, r1, -, parents, r2, hparents, -, -, nullifier, -, rfl⟩ := h
  unfold readLineageParents at hparents
  split at hparents
  · exact parentsFit_of_readParentList hparents
  · obtain ⟨rfl, -⟩ := Prod.mk.inj (Option.some.inj hparents)
    trivial

end Veld.Btcspv
