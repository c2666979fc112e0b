import Veld.Core.TxBinding
import Veld.Consensus.RedeemSpv
import Veld.Consensus.ReserveCodec
import Veld.Consensus.ReserveSteps

/-!
# One judgement of a reserve spend

The classifier reads of a transaction and its parents only what their ids bind, and of the payout lookup only
the answer for the marker's commitment.
-/

namespace Veld.Reserve

open Wire Btcspv Btcveld List

variable {P : Profile} {sha256 : Bytes → Hash256} {tx tx' : Bytes} {parents parents' : List Bytes}

/-! ## What is read of the parents -/

/-- A parent serialises the transaction an input spends. -/
def ParentOf (sha256 : Bytes → Hash256) (prev : BtcPrevout) (parentTx : Bytes) : Prop :=
  ∃ parent, parseWitnessAwareBtcTx sha256 parentTx 100000 100000 = some parent ∧
    parent.txid = prev.txid

variable {prevs : List BtcPrevout}
variable {total : Nat} {r : List BtcTxOut × Nat}

theorem spentOutputs_parents (hlen : prevs.length = parents.length)
    (h : spentOutputs sha256 (prevs.zip parents) total = .ok r) :
    List.Forall₂ (ParentOf sha256) prevs parents := by
  induction prevs generalizing parents total r with
  | nil =>
    cases parents with
    | nil => exact .nil
    | cons p parents => cases hlen
  | cons prev prevs ih =>
    cases parents with
    | nil => cases hlen
    | cons p parents =>
      simp only [zip_cons_cons, spentOutputs, bind_eq_ok, orElse_eq_ok, ensure_eq_ok,
        Prod.exists] at h
      obtain ⟨-, -, parent, hparent, -, hid, _, -, -, -, _, _, hrest, -⟩ := h
      exact .cons ⟨parent, hparent, hid⟩ (ih (Nat.succ.inj hlen) hrest)

theorem spentOutputs_same (hsame : List.Forall₂ (SameTx sha256) parents parents')
    (h : spentOutputs sha256 (prevs.zip parents) total = .ok r) :
    spentOutputs sha256 (prevs.zip parents') total = .ok r := by
  induction prevs generalizing parents parents' total r with
  | nil => simpa using h
  | cons prev prevs ih =>
    cases hsame with
    | nil => exact h
    | cons hp hrest =>
      simp only [zip_cons_cons, spentOutputs, bind_eq_ok, orElse_eq_ok, ensure_eq_ok,
        Prod.exists] at h ⊢
      obtain ⟨u, hcoinbase, parent, hparent, u', hid, spent, hspent, u'', htotal, spents, total',
        htail, heq⟩ := h
      obtain ⟨t, t', ht, ht', hids, -, houts⟩ := hp
      obtain rfl : parent = t := Option.some.inj (hparent.symm.trans ht)
      exact ⟨u, hcoinbase, t', ht', u', hids ▸ hid, spent, houts ▸ hspent, u'', htotal, spents,
        total', ih hrest htail, heq⟩

theorem readInputFacts_same {f : InputFacts} (htx : SameTx sha256 tx tx')
    (hsame : List.Forall₂ (SameTx sha256) parents parents')
    (h : readInputFacts sha256 tx parents = .ok f) :
    readInputFacts sha256 tx' parents' = .ok f := by
  simp only [readInputFacts, bind_eq_ok, orElse_eq_ok, ensure_eq_ok, Prod.exists] at h ⊢
  obtain ⟨spend, hspend, u, ⟨hlen, hne, hmax⟩, spents, total, hspents, heq⟩ := h
  obtain ⟨spend', hspend', -, hprev, -⟩ := htx.parse hspend (by decide) (by decide)
  rw [← hprev] at hlen hne hmax hspents heq
  exact ⟨spend', hspend', u, ⟨hlen.trans hsame.length_eq, hne, hmax⟩, spents, total,
    spentOutputs_same hsame hspents, heq⟩

theorem pendingDeposit_same {inputs : InputFacts} {custodySpk : Bytes}
    {validRecipient : Bytes → Bool} {index : Nat} {r : Bytes × BtcPrevout × BtcTxOut × Bool}
    (hsame : List.Forall₂ (SameTx sha256) parents parents')
    (h : pendingDeposit sha256 parents inputs custodySpk validRecipient index = some r) :
    pendingDeposit sha256 parents' inputs custodySpk validRecipient index = some r := by
  simp only [pendingDeposit, bind_eq_some, Option.guard_eq_some', Option.pure_def] at h ⊢
  obtain ⟨parentTx, hat, parent, hparent, hrest⟩ := h
  obtain ⟨hlt, rfl⟩ := List.getElem?_eq_some_iff.mp hat
  have hlt' : index < parents'.length := hsame.length_eq ▸ hlt
  obtain ⟨t, t', ht, ht', -, -, houts⟩ := hsame.get hlt hlt'
  obtain rfl : parent = t := Option.some.inj (hparent.symm.trans ht)
  rw [houts] at hrest
  exact ⟨parents'[index], List.getElem?_eq_getElem hlt', t', ht', hrest⟩

/-! ## What is read of the transaction -/

variable {state : State} {supply : Nat} {custodySpk : Bytes} {validRecipient : Bytes → Bool}
  {lookup lookup' : Hash256 → Option PayoutContext}

theorem mapError_eq_ok {ε ε' α : Type} {x : Except ε α} {f : ε → ε'} {a : α} :
    x.mapError f = .ok a ↔ x = .ok a := by
  cases x <;> simp [Except.mapError]

theorem spendFacts_same {f : SpendFacts} (htx : SameTx sha256 tx tx')
    (hsame : List.Forall₂ (SameTx sha256) parents parents')
    (h : spendFacts P sha256 state supply tx parents custodySpk = .ok f) :
    ∃ t, t.txid = f.tx.txid ∧ t.outputs = f.tx.outputs ∧
      spendFacts P sha256 state supply tx' parents' custodySpk = .ok { f with tx := t } := by
  simp only [spendFacts, bind_eq_ok, orElse_eq_ok, ensure_eq_ok, mapError_eq_ok] at h ⊢
  obtain ⟨u, hstate, t, ht, inputs, hinputs, total, htotal, rest⟩ := h
  obtain ⟨t', ht', hid, -, houts⟩ := htx.parse ht (by decide) (by decide)
  have hinputs' := readInputFacts_same htx hsame hinputs
  rw [← houts] at htotal rest
  obtain ⟨u₁, hle, reserve, hreserve, u₂, hfrozen, u₃, hcurrent, auth, hauth, u₄, hmarker, heq⟩ := rest
  cases heq
  refine ⟨t', hid, houts, u, hstate, t', ht', inputs, hinputs', total, htotal, u₁, hle, reserve,
    hreserve, u₂, hfrozen, u₃, hcurrent, auth, hauth, u₄, hmarker, ?_⟩
  rfl

variable {c : SpendClassification}

theorem classifyBitcoinReserveSpend_same (htx : SameTx sha256 tx tx')
    (hsame : List.Forall₂ (SameTx sha256) parents parents')
    (hlookup : ∀ commitment ctx, lookup commitment = some ctx → lookup' commitment = some ctx)
    (h : classifyBitcoinReserveSpend P sha256 state supply tx parents custodySpk validRecipient
      lookup = .ok c) :
    classifyBitcoinReserveSpend P sha256 state supply tx' parents' custodySpk validRecipient
      lookup' = .ok c := by
  obtain ⟨f, hf, h⟩ := bind_eq_ok.mp h
  obtain ⟨t, hid, houts, hf'⟩ := spendFacts_same htx hsame hf
  refine bind_eq_ok.mpr ⟨_, hf', ?_⟩
  split at h
  · rename_i hempty
    rw [if_pos hempty]
    rw [← hid] at h
    exact h
  · rename_i hactive
    rw [if_neg hactive]
    obtain ⟨index, hindex, h⟩ := bind_eq_ok.mp h
    refine bind_eq_ok.mpr ⟨index, hindex, ?_⟩
    cases hop : f.auth.operation with
    | «open» | freeze => simp [hop] at h
    | rollover | close =>
      simp only [hop, ← hid] at h ⊢
      exact h
    | payout =>
      simp only [hop] at h ⊢
      simp only [classifyPayout, bind_eq_ok, orElse_eq_ok, ← hid, ← houts] at h ⊢
      obtain ⟨ctx, hctx, h⟩ := h
      exact ⟨ctx, hlookup _ _ hctx, h⟩
    | deposit =>
      simp only [hop] at h ⊢
      simp only [classifyDeposit, bind_eq_ok, orElse_eq_ok, ← hid, ← houts] at h ⊢
      obtain ⟨u, hshape, r, hr, h⟩ := h
      exact ⟨u, hshape, r, pendingDeposit_same hsame hr, h⟩

/-! ## Spend proofs -/

/-- What an accepted FSP2 proof establishes. -/
structure SpendEvidence (P : Profile) (sha256 : Bytes → Hash256) (headers : BtcHeaderChain)
    (kBtc : Nat) (proof : FraudProof) : Prop where
  spend : ∃ t, parseWitnessAwareBtcTx sha256 proof.spendTx maxMspvParentCount 100000 = some t ∧
    t.txid = proof.spendTxid ∧ List.Forall₂ (ParentOf sha256) t.prevouts proof.directParents
  merkle : headers.verifyMerkle sha256 proof.spendBlock proof.spendTxid proof.spendMerkleBranch
    proof.spendMerkleDirections = true
  final : headers.isFinalForExternalValue P proof.spendBlock kBtc = true
  directions : proof.spendMerkleDirections ≤ uint32Max
  branch : proof.spendMerkleBranch.length ≤ 32
  noHighBits : proof.spendMerkleBranch.length < 32 →
    proof.spendMerkleDirections >>> proof.spendMerkleBranch.length = 0
  txLong : 64 < proof.spendTx.length
  txFits : proof.spendTx.length ≤ maxMspvStrippedTxBytes
  parentsFit : ParentsFit 0 proof.directParents

theorem readSpendParents_parents {t t' : SpendTotals} {bs rest : Bytes}
    (h : readSpendParents sha256 custodySpk prevs total t bs = .ok (parents, t', rest)) :
    List.Forall₂ (ParentOf sha256) prevs parents := by
  induction prevs generalizing total t bs parents with
  | nil =>
    cases h
    exact .nil
  | cons prev prevs ih =>
    simp only [readSpendParents, bind_eq_ok, Prod.exists] at h
    obtain ⟨parentTx, t₁, r₁, hparent, parents', t₂, r₂, hrest, heq⟩ := h
    cases heq
    simp only [readSpendParent, bind_eq_ok, orElse_eq_ok, ensure_eq_ok, Prod.exists] at hparent
    obtain ⟨_, _, -, _, -, _, _, -, parent, hparse, _, hid, _, -, _, -, _, -, heq⟩ := hparent
    cases heq
    exact .cons ⟨parent, hparse, hid⟩ (ih hrest)

theorem verifyFsp2_evidence {headers : BtcHeaderChain} {p : Bytes} {kBtc : Nat} {proof : FraudProof}
    (h : verifyFsp2 P sha256 headers p custodySpk kBtc = .ok proof) :
    SpendEvidence P sha256 headers kBtc proof := by
  simp only [verifyFsp2, bind_eq_ok, orElse_eq_ok, ensure_eq_ok, Prod.exists] at h
  obtain ⟨_, -, _, -, block, _, -, dirs, branch, _, hbranch, size, _, -, _, ⟨hlong, hfits⟩, spendTx, _,
    htake, count, _, -, spend, hspend, _, ⟨hmerkle, hfinal⟩, _, -, parents, totals, rest, hparents, _,
    -, heq⟩ := h
  cases heq
  obtain ⟨-, hdirs, hlen, hbits⟩ := readBranch_eq_put hbranch
  rw [← (takeN_eq_some.mp htake).2] at hlong hfits
  exact ⟨⟨spend, hspend, rfl, readSpendParents_parents hparents⟩, hmerkle, hfinal, hdirs, hlen, hbits,
    hlong, hfits, parentsFit_of_readSpendParents hparents⟩

/-! ## Transitions are no evidence -/

theorem sameTx_parents (h : List.Forall₂ (ParentOf sha256) prevs parents)
    (h' : List.Forall₂ (ParentOf sha256) prevs parents')
    (hfree : ∀ p ∈ parents, ∀ p' ∈ parents', NoCollision sha256 p p') :
    List.Forall₂ (SameTx sha256) parents parents' := by
  induction h generalizing parents' with
  | nil =>
    cases h'
    exact .nil
  | cons hp _ ih =>
    cases h' with
    | cons hp' hrest' =>
      obtain ⟨t, ht, hid⟩ := hp
      obtain ⟨t', ht', hid'⟩ := hp'
      have hsame := sameTx_of_txid ht ht' le_rfl le_rfl (hid.trans hid'.symm)
        (hfree _ mem_cons_self _ mem_cons_self)
      exact .cons hsame.1 (ih hrest' fun p hm p' hm' =>
        hfree p (mem_cons_of_mem _ hm) p' (mem_cons_of_mem _ hm'))

theorem sameTx_self (h : List.Forall₂ (ParentOf sha256) prevs parents) :
    List.Forall₂ (SameTx sha256) parents parents := by
  induction h with
  | nil => exact .nil
  | cons hp _ ih =>
    obtain ⟨t, ht, -⟩ := hp
    exact .cons (sameTx_of_txid ht ht le_rfl le_rfl rfl (noCollision_self _ _)).1 ih

theorem classified_inputs
    (h : classifyBitcoinReserveSpend P sha256 state supply tx parents custodySpk validRecipient
      lookup = .ok c) :
    ∃ t, parseWitnessAwareBtcTx sha256 tx maxDirectInputs 100000 = some t ∧
      List.Forall₂ (ParentOf sha256) t.prevouts parents := by
  obtain ⟨f, hf, -⟩ := bind_eq_ok.mp h
  simp only [spendFacts, bind_eq_ok, orElse_eq_ok, ensure_eq_ok, mapError_eq_ok] at hf
  obtain ⟨-, -, t, ht, inputs, hinputs, -⟩ := hf
  simp only [readInputFacts, bind_eq_ok, orElse_eq_ok, ensure_eq_ok, Prod.exists] at hinputs
  obtain ⟨spend, hspend, -, ⟨hlen, -⟩, spents, total, hspents, -⟩ := hinputs
  exact ⟨spend, hspend, spentOutputs_parents hlen hspents⟩

variable {headers : BtcHeaderChain} {payload : Bytes} {depth : Nat} {payout : Option PayoutContext}
  {v : Verified}

theorem verify_classified
    (h : verify P sha256 headers state supply payload custodySpk depth validRecipient payout =
      .ok v) :
    ∃ t c, parseWitnessAwareBtcTx sha256 v.claim.bitcoinTx maxDirectInputs 100000 = some t ∧
      v.claim.bitcoinTxid = t.txid ∧ c.operation = v.claim.operation ∧
      classifyBitcoinReserveSpend P sha256 state supply v.claim.bitcoinTx v.claim.directParents
        custodySpk validRecipient (fun commitment =>
          payout.filter fun p => p.requestCommitment == commitment) = .ok c := by
  have hdecoded := (verify_proven h).decoded
  simp only [verify, bind_eq_ok, orElse_eq_ok, ensure_eq_ok] at h
  obtain ⟨claim, hclaim, -, -, -, -, t, ht, -, ⟨hid, -⟩, c, hc, -⟩ := h
  obtain rfl : claim = v.claim := Option.some.inj (hclaim.symm.trans hdecoded)
  refine ⟨t, c, ht, hid, ?_⟩
  unfold classifiedAs at hc
  split at hc
  · cases hc
  · rename_i c' hc'
    split at hc
    · rename_i hmatch
      cases hc
      exact ⟨hmatch.1, hc'⟩
    · cases hc

/-- A claim that verifies is classified as an authorised transition of its operation, from its own
bytes and from those of every accepted FSP2 proof of the same transaction. -/
theorem verified_transition_authorized
    (hv : verify P sha256 headers state supply payload custodySpk depth validRecipient payout =
      .ok v)
    (hlookup : ∀ ctx, payout = some ctx → lookup ctx.requestCommitment = some ctx) :
    (∃ c, classifyBitcoinReserveSpend P sha256 state supply v.claim.bitcoinTx v.claim.directParents
        custodySpk validRecipient lookup = .ok c ∧ c.operation = v.claim.operation) ∧
      ∀ headers' p kBtc proof, verifyFsp2 P sha256 headers' p custodySpk kBtc = .ok proof →
        proof.spendTxid = v.claim.bitcoinTxid →
        NoCollision sha256 v.claim.bitcoinTx proof.spendTx →
        (∀ a ∈ v.claim.directParents, ∀ b ∈ proof.directParents, NoCollision sha256 a b) →
        ∃ c, classifyBitcoinReserveSpend P sha256 state supply proof.spendTx proof.directParents
          custodySpk validRecipient lookup = .ok c ∧ c.operation = v.claim.operation := by
  obtain ⟨t, c, ht, hid, hop, hc⟩ := verify_classified hv
  have hfound : ∀ commitment ctx,
      (payout.filter fun p => p.requestCommitment == commitment) = some ctx →
      lookup commitment = some ctx := by
    intro commitment ctx hctx
    obtain ⟨hsome, heq⟩ := Option.filter_eq_some_iff.mp hctx
    rw [← eq_of_beq heq]
    exact hlookup ctx hsome
  obtain ⟨t₀, ht₀, hparents⟩ := classified_inputs hc
  obtain rfl : t = t₀ := Option.some.inj (ht.symm.trans ht₀)
  refine ⟨⟨c, ?_, hop⟩, fun headers' p kBtc proof hproof hspend hfree hfreeParents => ⟨c, ?_, hop⟩⟩
  · have hself := sameTx_of_txid ht ht (by decide) (by decide) rfl (noCollision_self _ _)
    exact classifyBitcoinReserveSpend_same hself.1 (sameTx_self hparents) hfound hc
  · obtain ⟨t', ht', hid', hparents'⟩ := (verifyFsp2_evidence hproof).spend
    obtain ⟨hsame, hprev, -⟩ := sameTx_of_txid ht ht' (by decide) (by decide)
      (hid.symm.trans (hspend.symm.trans hid'.symm)) hfree
    rw [hprev] at hparents
    exact classifyBitcoinReserveSpend_same hsame
      (sameTx_parents hparents hparents' hfreeParents) hfound hc

/-! ## A rollover -/

/-- A reserve of 5000: 2000 in circulation, 1000 asked back, 2000 over. -/
def sampleState : State where
  status := .active
  reserveTxid := Hash256.ones
  reserveVout := 0
  reserveValueSats := 5000
  reserveBitcoinBlock := Hash256.ones
  transitionCount := 1
  transitionCommitment := Hash256.ones
  surplusSats := 2000
  openRedemptionPrincipal := 1000
  processedVeldHeight := 0
  processedVeldBlockHash := .zero

/-- A header chain whose block 0 holds every transaction, buried and observed. -/
def sampleHeaders : BtcHeaderChain where
  byHash := AList.insert Hash256.ones ⟨.ones, .zero, .ones, 0, 0, 0, 0⟩
    (AList.insert Hash256.zero ⟨.zero, .ones, .zero, 0, 0, 144, 0⟩ ∅)
  bestTip := .zero
  observedCheckpoint := Hash256.ones
  bestChain := [Hash256.ones]
  cpHeight := 0
  cpTime := 0

/-- The null-data script that authorises an operation on `sampleState`. -/
def sampleMarker (op : Operation) (exact : Hash256) : Bytes :=
  [0x6a, 0x4c, 77] ++ ascii "RVS1" ++ putLE 1 op.code ++ Hash256.ones.bytes ++ exact.bytes ++ putLE 8 0

def sampleParent : Bytes :=
  serializeTx [(⟨.ones, 0⟩, [])] [⟨5000, Profile.sample.custodySpk⟩]

def sampleRollover : Bytes :=
  serializeTx [(⟨.ones, 0⟩, [])]
    [⟨5000, Profile.sample.custodySpk⟩, ⟨0, sampleMarker .rollover Hash256.zero⟩]

def sampleRolloverClaim : Claim where
  operation := .rollover
  networkBinding := Hash256.ones
  priorCommitment := Hash256.ones
  priorReserveTxid := Hash256.ones
  priorReserveVout := 0
  priorReserveValue := 5000
  priorTransitionCount := 1
  newReserveTxid := Hash256.ones
  newReserveVout := 0
  newReserveValue := 5000
  bitcoinTxid := Hash256.ones
  bitcoinBlock := Hash256.ones
  bitcoinTx := sampleRollover
  directParents := [sampleParent]

theorem verified_transition_authorized_rollover :
    ∃ v, verify .sample Crypto.blank.sha256 sampleHeaders sampleState 2000
        (encodeProof Crypto.blank.sha256 sampleRolloverClaim) Profile.sample.custodySpk 144
        (fun _ => true) none = .ok v ∧
      ∃ c, classifyBitcoinReserveSpend .sample Crypto.blank.sha256 sampleState 2000
        v.claim.bitcoinTx v.claim.directParents Profile.sample.custodySpk (fun _ => true)
        (fun _ => none) = .ok c ∧ c.operation = v.claim.operation := by
  have hverifies : (verify .sample Crypto.blank.sha256 sampleHeaders sampleState 2000
      (encodeProof Crypto.blank.sha256 sampleRolloverClaim) Profile.sample.custodySpk 144
      (fun _ => true) none).toOption.isSome = true := by decide +kernel
  obtain ⟨v, hv⟩ := Option.isSome_iff_exists.mp hverifies
  have hv := eq_ok_of_toOption hv
  exact ⟨v, hv, (verified_transition_authorized hv (by simp)).1⟩

end Veld.Reserve
