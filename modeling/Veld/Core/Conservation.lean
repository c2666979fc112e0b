import Veld.Core.ChainReplay
import Veld.Core.SettlementSums
import Veld.Core.Coinbase

/-!
# Native money is conserved

Every transaction of an accepted block spends at least what it creates: an ordinary one by the value rule, a
settlement because its gate pins both its inputs and its outputs.
-/

namespace Veld.Chain

open Wire IndexedMap List

def unspentTotal (coins : Coins) : Nat := weigh (fun u : Utxo => u.value.toNat) coins.entries

def outputSum (tx : Transaction) : Nat := (tx.outputs.map fun out => out.value.toNat).sum

/-! ## What the steps of a block do to the total -/

def createdValue (steps : List CoinStep) : Nat :=
  (steps.filterMap fun step => match step with
    | .create u => some u.value.toNat
    | .spend _ _ => none).sum

section
variable {coins coins' : Coins} {steps : List CoinStep}

theorem unspentTotal_insertUTXO (coins : Coins) (u : Utxo) :
    unspentTotal (insertUTXO u coins) ≤ unspentTotal coins + u.value.toNat := by
  unfold insertUTXO
  split
  · exact Nat.le_add_right _ _
  · exact weigh_insert_le _ _ _ _

theorem unspentTotal_eraseUTXO {key : OutPoint} (h : eraseUTXO key coins = some coins') :
    unspentTotal coins' + coinValue coins key = unspentTotal coins := by
  unfold eraseUTXO IndexedMap.remove at h
  split at h
  · cases h
  · rename_i u hu
    cases h
    rw [coinValue, hu]
    exact weigh_erase _ hu

theorem unspentTotal_steps (hdisjoint : ∀ k ∈ createdKeys steps, k ∉ spentKeys steps)
    (hnodup : (spentKeys steps).Nodup) (h : steps.foldlM applyStep coins = some coins') :
    unspentTotal coins' + ((spentKeys steps).map (coinValue coins)).sum ≤
      unspentTotal coins + createdValue steps := by
  induction steps generalizing coins with
  | nil =>
    cases h
    exact le_rfl
  | cons step rest ih =>
    rw [foldlM_cons, bind_eq_some] at h
    obtain ⟨next, hnext, hrest⟩ := h
    cases step with
    | create u =>
      cases hnext
      have hkeys : ∀ k ∈ spentKeys rest, coinValue (insertUTXO u coins) k = coinValue coins k := by
        intro k hk
        have hne : k ≠ u.key := fun heq => hdisjoint u.key mem_cons_self (heq ▸ hk)
        unfold insertUTXO
        split
        · rfl
        · rw [coinValue, coinValue, lookup_add, if_neg hne]
      have hstep := ih (fun k hk => hdisjoint k (mem_cons_of_mem _ hk)) hnodup hrest
      rw [map_congr_left hkeys] at hstep
      have hinsert := unspentTotal_insertUTXO coins u
      have hcreated : createdValue (.create u :: rest) = u.value.toNat + createdValue rest := sum_cons
      have hspent : spentKeys (.create u :: rest) = spentKeys rest := rfl
      rw [hcreated, hspent]
      omega
    | spend key spender =>
      have hspent : spentKeys (.spend key spender :: rest) = key :: spentKeys rest := rfl
      have hcreated : createdValue (.spend key spender :: rest) = createdValue rest := rfl
      rw [hspent] at hnodup hdisjoint
      obtain ⟨hnot, hnodup⟩ := nodup_cons.mp hnodup
      have hkeys : ∀ k ∈ spentKeys rest, coinValue next k = coinValue coins k := by
        intro k hk
        have hne : k ≠ key := fun heq => hnot (heq ▸ hk)
        rw [coinValue, coinValue, lookup_remove hnext, if_neg hne]
      have hstep := ih (fun k hk hmem => hdisjoint k hk (mem_cons_of_mem _ hmem)) hnodup hrest
      rw [map_congr_left hkeys] at hstep
      have herase := unspentTotal_eraseUTXO hnext
      rw [hspent, hcreated, map_cons, sum_cons]
      omega

end

/-! ## The steps of a block, transaction by transaction -/

theorem createdValue_append (a b : List CoinStep) : createdValue (a ++ b) = createdValue a + createdValue b := by
  simp [createdValue, filterMap_append]

theorem spentKeys_append (a b : List CoinStep) : spentKeys (a ++ b) = spentKeys a ++ spentKeys b := by
  simp [spentKeys, filterMap_append]

theorem spentKeys_coinSteps (C : Crypto) (height i : Nat) (tx : Transaction) :
    spentKeys (coinSteps C height i tx) = if tx.isCoinbase then [] else tx.inputs.map outPointOf := by
  have hcreates : ∀ outs : List (TxOutput × Nat), spentKeys (outs.filterMap fun row =>
      if isProvablyUnspendableOutput row.1 then none
      else some (.create ⟨tx.getTxID C, UInt32.ofNat row.2, row.1.value, row.1.scriptPubkey, height,
        tx.isCoinbase⟩)) = [] := by
    intro outs
    induction outs with
    | nil => rfl
    | cons row rest ih =>
      rw [filterMap_cons]
      split
      · exact ih
      · rename_i step hstep
        split_ifs at hstep
        cases hstep
        exact ih
  rw [coinSteps, spentKeys_append, hcreates, nil_append]
  split
  · rfl
  · simp only [spentKeys, filterMap_map]
    induction tx.inputs with
    | nil => rfl
    | cons input rest ih =>
      rw [filterMap_cons, map_cons, ih]
      rfl

theorem createdValue_coinSteps (C : Crypto) (height i : Nat) (tx : Transaction) :
    createdValue (coinSteps C height i tx) ≤ outputSum tx := by
  have hcreates : ∀ (outs : List TxOutput) (n : Nat), createdValue ((outs.zipIdx n).filterMap fun row =>
      if isProvablyUnspendableOutput row.1 then none
      else some (.create ⟨tx.getTxID C, UInt32.ofNat row.2, row.1.value, row.1.scriptPubkey, height,
        tx.isCoinbase⟩)) ≤ (outs.map fun out => out.value.toNat).sum := by
    intro outs
    induction outs with
    | nil => exact fun _ => le_rfl
    | cons out rest ih =>
      intro n
      have hrest := ih (n + 1)
      rw [zipIdx_cons, filterMap_cons, map_cons, sum_cons]
      split
      · omega
      · rename_i step hstep
        split_ifs at hstep
        cases hstep
        exact Nat.add_le_add_left hrest _
  have hspends : ∀ inputs : List TxInput, createdValue (inputs.map fun i' =>
      (.spend (i'.prevTxHash, i'.prevOutIndex) ⟨height, UInt32.ofNat i, tx.getTxID C⟩ : CoinStep)) = 0 := by
    intro inputs
    simp [createdValue]
  rw [coinSteps, createdValue_append]
  have hall := hcreates tx.outputs 0
  split
  · exact hall
  · rw [hspends, Nat.add_zero]
    exact hall

theorem spentKeys_blockSteps (C : Crypto) (height : Nat) (txs : List Transaction) (n : Nat) :
    spentKeys ((txs.zipIdx n).flatMap fun row => coinSteps C height row.2 row.1) =
      (txs.filter fun tx => !tx.isCoinbase).flatMap fun tx => tx.inputs.map outPointOf := by
  induction txs generalizing n with
  | nil => rfl
  | cons tx rest ih =>
    rw [zipIdx_cons, flatMap_cons, spentKeys_append, ih, spentKeys_coinSteps, filter_cons]
    cases tx.isCoinbase with
    | true => rfl
    | false => rfl

theorem createdValue_blockSteps (C : Crypto) (height : Nat) (txs : List Transaction) (n : Nat) :
    createdValue ((txs.zipIdx n).flatMap fun row => coinSteps C height row.2 row.1) ≤
      (txs.map outputSum).sum := by
  induction txs generalizing n with
  | nil => exact le_rfl
  | cons tx rest ih =>
    rw [zipIdx_cons, flatMap_cons, createdValue_append, map_cons, sum_cons]
    exact Nat.add_le_add (createdValue_coinSteps C height n tx) (ih (n + 1))

theorem sum_coinValue_flatMap (coins : Coins) (txs : List Transaction) :
    ((txs.flatMap fun tx => tx.inputs.map outPointOf).map (coinValue coins)).sum =
      (txs.map (inputTotal coins)).sum := by
  induction txs with
  | nil => rfl
  | cons tx rest ih =>
    rw [flatMap_cons, map_append, sum_append, ih, map_cons, sum_cons, inputTotal,
      map_map]
    rfl

/-! ## Every transaction is covered by its inputs -/

section
variable {coins : Coins} {X : Custody} {tx : Transaction}

theorem outputSum_of_isValid (h : isValid tx) : totalOutput tx = outputSum tx := by
  simp only [isValid, Bool.and_eq_true, decide_eq_true_eq] at h
  have hle := h.1.1.1.1.1.2
  simp only [totalOutput] at hle ⊢
  split
  · rename_i hlt
    rw [if_pos hlt] at hle
    omega
  · rfl

/-- All inputs are unspent outputs. -/
def Resolved (coins : Coins) (tx : Transaction) : Prop :=
  ∀ i ∈ tx.inputs, (coins.entries.lookup (outPointOf i)).isSome

variable {script : Bytes}

theorem spendsFrom_iff {i : TxInput} :
    spendsFrom coins script i ↔
      ∃ u, coins.entries.lookup (outPointOf i) = some u ∧ u.scriptPubkey = script := by
  unfold spendsFrom
  cases coins.entries.lookup (outPointOf i) with
  | none => simp
  | some u => simp

theorem mem_custodyKeys (hcoherent : Coherent Utxo.scriptHex coins) {i : TxInput}
    (h : spendsFrom coins script i) : outPointOf i ∈ custodyKeys coins script := by
  obtain ⟨u, hu, hscript⟩ := spendsFrom_iff.mp h
  refine Finset.mem_filter.mpr ⟨(hcoherent.mem _ _).mpr ⟨u, hu, ?_⟩, by rw [hu]; rfl⟩
  rw [Utxo.scriptHex, hscript]

theorem custodyVerdict_eq_some {scripts : List Bytes} {verdict : Bool}
    (h : custodyVerdict coins tx scripts = some verdict) :
    ∃ script ∈ scripts, tx.inputs.any (spendsFrom coins script) ∧
      tx.inputs.all (spendsFrom coins script) = verdict := by
  induction scripts with
  | nil => cases h
  | cons script rest ih =>
    rw [custodyVerdict] at h
    split_ifs at h with hany
    · exact ⟨script, mem_cons_self, hany, Option.some.inj h⟩
    · obtain ⟨script', hmem, hrest⟩ := ih h
      exact ⟨script', mem_cons_of_mem _ hmem, hrest⟩

theorem outputSum_eq_payoutTotal (tx : Transaction) : outputSum tx = payoutTotal (payoutsOf tx) := by
  rw [outputSum, payoutTotal, payoutsOf, map_map]
  rfl

theorem inputTotal_of_canonical
    (h : hasCanonicalProtocolInputs tx (custodyKeys coins script)) :
    inputTotal coins tx = custodyBalance coins script := by
  simp only [hasCanonicalProtocolInputs, Bool.and_eq_true, decide_eq_true_eq] at h
  obtain ⟨⟨⟨-, hkeys⟩, hordered⟩, -⟩ := h
  have hnodup : (tx.inputs.map outPointOf).Nodup := by
    refine hordered.imp fun {a b} hbefore heq => ?_
    subst heq
    simp [outPointBefore] at hbefore
  rw [custodyBalance, ← hkeys, sum_toFinset _ hnodup, inputTotal, map_map]
  rfl

theorem settlementGate_covers {l : Ledger} {b : Block} {interval : Nat}
    {spends : Transaction → Bool} {expected : List Payout} {due : Bool}
    (hgate : settlementGate l b script interval spends expected due) (hheight : 0 < b.height)
    (hexpected : expected ≠ [] → payoutTotal expected ≤ custodyBalance l.coins script)
    (hmem : tx ∈ b.transactions.drop 1) (hcoinbase : tx.isCoinbase = false)
    (hany : tx.inputs.any (spendsFrom l.coins script)) (hspends : spends tx) :
    outputSum tx ≤ inputTotal l.coins tx := by
  have hne : ¬ b.height = 0 := by omega
  simp only [settlementGate, hne, decide_false, Bool.false_or] at hgate
  split_ifs at hgate with hboundary
  · have huntouched := all_eq_true.mp hgate tx (mem_of_mem_drop hmem)
    simp [hcoinbase, hany] at huntouched
  · have hfound : tx ∈ (b.transactions.drop 1).filter spends := mem_filter.mpr ⟨hmem, hspends⟩
    unfold settlementPresent at hgate
    split at hgate
    · rename_i hnone
      rw [hnone] at hfound
      cases hfound
    · rename_i settlement hone
      rw [hone, mem_singleton] at hfound
      subst hfound
      simp only [Bool.and_eq_true, decide_eq_true_eq] at hgate
      obtain ⟨⟨hsome, houtputs⟩, hinputs⟩ := hgate
      rw [outputSum_eq_payoutTotal, houtputs, inputTotal_of_canonical hinputs]
      exact hexpected hsome
    · cases hgate

end

structure Gated (C : Crypto) (X : Custody) (E : Engines) (l : Ledger) (b : Block) : Prop where
  height : 0 < b.height
  pool : validateExpectedPoolPayout C X E l b = true
  endorsement : validateExpectedEndorsementFlush X E l b = true
  vault : validateExpectedVaultDistribution X E l b = true
  bonds : validateExpectedBondMovements X E l b = true
  yields : validateExpectedBondYieldSettlement X E l b = true

section
variable {C : Crypto} {X : Custody} {R : TxRules} {E : Engines} {l : Ledger} {b : Block} {tx : Transaction}

section
variable (hg : Gated C X E l b) (hcoherent : Coherent Utxo.scriptHex l.coins)
  (hmem : tx ∈ b.transactions.drop 1)
include hg hcoherent hmem

theorem Gated.covers (hcoinbase : tx.isCoinbase = false) {script : Bytes} (hscript : script ∈
      [X.poolScript, X.endorsementScript, X.vaultScript, X.stakeVaultScript, X.bondYieldScript])
    (hany : tx.inputs.any (spendsFrom l.coins script))
    (hall : tx.inputs.all (spendsFrom l.coins script)) :
    outputSum tx ≤ inputTotal l.coins tx := by
  have hspends : spendsCustody l.coins script tx := by
    obtain ⟨i, hi, hfrom⟩ := any_eq_true.mp hany
    exact any_eq_true.mpr ⟨i, hi, decide_eq_true (mem_custodyKeys hcoherent hfrom)⟩
  have hfirst : spendsCustodyFirst l.coins script tx := by
    obtain ⟨i, hi, -⟩ := any_eq_true.mp hany
    obtain ⟨first, rest, hinputs⟩ := exists_cons_of_ne_nil (ne_nil_of_mem hi)
    have hfrom := all_eq_true.mp hall first (by rw [hinputs]; exact mem_cons_self)
    simpa [spendsCustodyFirst, hinputs] using mem_custodyKeys hcoherent hfrom
  simp only [mem_cons, not_mem_nil, or_false] at hscript
  rcases hscript with rfl | rfl | rfl | rfl | rfl
  · exact settlementGate_covers hg.pool hg.height (fun h => (poolOutputs_total C X E l _ h).le) hmem hcoinbase
      hany hfirst
  · exact settlementGate_covers hg.endorsement hg.height (fun h => (endorsementOutputs_total X E l h).le) hmem
      hcoinbase hany hspends
  · exact settlementGate_covers hg.vault hg.height (fun _ => vaultOutputs_le X E l _ _) hmem hcoinbase hany hspends
  · exact settlementGate_covers hg.bonds hg.height
      (fun h => (settlementOutputs_total E (bondMovementOutputs_total X E) h).le) hmem hcoinbase hany hspends
  · exact settlementGate_covers hg.yields hg.height
      (fun h => (settlementOutputs_total E (bondYieldOutputs_total X E) h).le) hmem hcoinbase hany hspends

theorem Gated.transaction (hvalid : validateTransaction l.coins X R tx) :
    tx.isCoinbase = false ∧ Resolved l.coins tx ∧ outputSum tx ≤ inputTotal l.coins tx := by
  simp only [validateTransaction, Bool.and_eq_true, Bool.not_eq_true'] at hvalid
  obtain ⟨⟨⟨hbasic, hcoinbase⟩, -⟩, hverdict⟩ := hvalid
  refine ⟨hcoinbase, ?_⟩
  cases hcustody : custodyVerdict l.coins tx
      [X.poolScript, X.endorsementScript, X.vaultScript, X.stakeVaultScript, X.bondYieldScript] with
  | none =>
    simp only [hcustody, Option.getD_none, valuesCovered, Bool.and_eq_true, decide_eq_true_eq] at hverdict
    obtain ⟨-, ⟨hinputs, -⟩, hcovered⟩ := hverdict
    rw [outputSum_of_isValid hbasic] at hcovered
    refine ⟨fun i hi => ?_, hcovered⟩
    have hi := all_eq_true.mp hinputs i hi
    cases hlookup : l.coins.entries.lookup (outPointOf i) with
    | none => rw [hlookup] at hi; cases hi
    | some u => rfl
  | some verdict =>
    rw [hcustody, Option.getD_some] at hverdict
    subst hverdict
    obtain ⟨script, hscript, hany, hall⟩ := custodyVerdict_eq_some hcustody
    refine ⟨fun i hi => ?_, hg.covers hcoherent hmem hcoinbase hscript hany hall⟩
    obtain ⟨u, hu, -⟩ := spendsFrom_iff.mp (all_eq_true.mp hall i hi)
    rw [hu]
    rfl

end

end

/-! ## The coinbase -/

def namedInputTotal (coins : Coins) (tx : Transaction) : Nat :=
  ((tx.inputs.filter fun i => !i.isCoinbase).map fun i => coinValue coins (outPointOf i)).sum

/-- What the transactions of a block leave to its coinbase. -/
def blockFees (coins : Coins) (b : Block) : Nat :=
  ((b.transactions.drop 1).map fun tx => namedInputTotal coins tx - outputSum tx).sum

theorem namedInputTotal_le (coins : Coins) (tx : Transaction) : namedInputTotal coins tx ≤ inputTotal coins tx := by
  unfold namedInputTotal inputTotal
  exact (filter_sublist.map _).sum_le_sum (by simp)

theorem resolvedInputs_eq {coins : Coins} {inputs : List TxInput} {total result : Nat}
    (h : resolvedInputs coins inputs total = some result) :
    result = total + ((inputs.filter fun i => !i.isCoinbase).map fun i => coinValue coins (outPointOf i)).sum := by
  induction inputs generalizing total with
  | nil =>
    cases h
    rfl
  | cons i rest ih =>
    rw [resolvedInputs] at h
    rw [filter_cons]
    split_ifs at h with hnull
    · rw [if_neg (by simpa using hnull)]
      exact ih h
    · split at h
      · cases h
      · rename_i u hu
        split_ifs at h
        rw [if_pos (by simpa using hnull), map_cons, sum_cons, coinValue, hu, ih h]
        simp only [Option.map_some, Option.getD_some]
        omega

theorem actualTxFees_eq {coins : Coins} {txs : List Transaction} {fees result : Nat}
    (hcoinbase : ∀ tx ∈ txs, tx.isCoinbase = false) (hvalid : ∀ tx ∈ txs, isValid tx)
    (h : actualTxFees coins txs fees = some result) :
    result = fees + (txs.map fun tx => namedInputTotal coins tx - outputSum tx).sum := by
  induction txs generalizing fees with
  | nil =>
    cases h
    rfl
  | cons tx rest ih =>
    rw [actualTxFees, hcoinbase tx mem_cons_self, if_neg Bool.false_ne_true] at h
    split at h
    · cases h
    · rename_i total htotal
      split_ifs at h
      have hinputs := resolvedInputs_eq htotal
      rw [Nat.zero_add] at hinputs
      rw [ih (fun tx htx => hcoinbase tx (mem_cons_of_mem _ htx))
        (fun tx htx => hvalid tx (mem_cons_of_mem _ htx)) h, map_cons, sum_cons, namedInputTotal,
        ← hinputs, outputSum_of_isValid (hvalid tx mem_cons_self)]
      omega

theorem computeCoinbaseAllocation_total {height base supply fees : Nat} {a : CoinbaseAllocation}
    (h : computeCoinbaseAllocation height base supply fees = some a) :
    a.miner + a.pool + a.vault + a.endorsement = a.subsidy + fees ∧
      a.subsidy = min base (maxSupplyUnits - supply) := by
  dsimp only [computeCoinbaseAllocation] at h
  generalize min base (maxSupplyUnits - supply) = subsidy at h ⊢
  split_ifs at h
  all_goals
    obtain rfl := Option.some.inj h
    refine ⟨?_, rfl⟩
    dsimp only
    omega

/-! ## Blocks and chains -/

/-- The subsidy of a block over a supply; the genesis has none. -/
def subsidyOf (height supply : Nat) : Nat :=
  if height = 0 then 0 else min (expectedBlockSubsidy height) (maxSupplyUnits - supply)

/-- What the blocks have issued, the lowest one first. -/
def issuedSubsidies (blocks : List Block) : Nat := blocks.foldl (fun s b => s + subsidyOf b.height s) 0

def coinbaseSum (b : Block) : Nat := (b.transactions.head?.map outputSum).getD 0

/-- What holds of the money in every ledger. -/
structure Ledger.Solvent (l : Ledger) : Prop where
  sound : l.Sound
  capped : l.supply ≤ maxSupplyUnits
  covered : unspentTotal l.coins ≤ l.supply

section
variable {C : Crypto} {X : Custody} {R : TxRules} {engines : List Block → Engines} {l l' : Ledger} {b : Block}

/-- What the checks of a block say about its money. -/
structure Balanced (l : Ledger) (b : Block) : Prop where
  coinbase : ∃ coinbase rest, b.transactions = coinbase :: rest ∧ coinbase.isCoinbase
  others : ∀ tx ∈ b.transactions.drop 1, tx.isCoinbase = false ∧ Resolved l.coins tx ∧
    outputSum tx ≤ inputTotal l.coins tx
  total : coinbaseSum b = subsidyOf b.height l.supply + blockFees l.coins b
  genesis : b.height = 0 → coinbaseSum b = 0

theorem balanced_of_genesis (h : isGenesisBlock b) : Balanced l b := by
  simp only [isGenesisBlock, Bool.and_eq_true, decide_eq_true_eq] at h
  obtain ⟨hheight, hshape⟩ := h
  split at hshape
  · rename_i coinbase htxs
    simp only [Bool.and_eq_true, decide_eq_true_eq] at hshape
    have hsum : coinbaseSum b = 0 := by simp [coinbaseSum, htxs, outputSum, hshape.2]
    refine ⟨⟨coinbase, [], htxs, hshape.1⟩, ?_, ?_, fun _ => hsum⟩
    · rw [htxs]
      exact forall_mem_nil _
    · rw [hsum, subsidyOf, if_pos hheight, blockFees, htxs]
      rfl
  · cases hshape

theorem balanced_of_validateBlock (hcoherent : Coherent Utxo.scriptHex l.coins)
    (h : validateBlock C X R engines l b) : Balanced l b := by
  simp only [validateBlock, Bool.and_eq_true, decide_eq_true_eq] at h
  obtain ⟨⟨⟨⟨⟨⟨⟨⟨⟨⟨⟨-, hheight⟩, -⟩, hvalid⟩, -⟩, hsplit⟩, hpool⟩, hendorse⟩, hvault⟩, hbonds⟩, hyields⟩, htxs⟩ := h
  have hg : Gated C X (engines l.chain) l b := ⟨hheight, hpool, hendorse, hvault, hbonds, hyields⟩
  have hothers : ∀ tx ∈ b.transactions.drop 1, tx.isCoinbase = false ∧ Resolved l.coins tx ∧
      outputSum tx ≤ inputTotal l.coins tx := by
    intro tx hmem
    have htx := all_eq_true.mp htxs tx hmem
    simp only [Bool.and_eq_true] at htx
    exact hg.transaction hcoherent hmem htx.1
  have hne : ¬ b.height = 0 := by omega
  simp only [validateCanonicalCoinbaseSplit, hne, decide_false, Bool.false_or] at hsplit
  split at hsplit
  · cases hsplit
  · rename_i coinbase rest hblock
    have hdrop : b.transactions.drop 1 = rest := by rw [hblock]; rfl
    split at hsplit
    · cases hsplit
    · rename_i fees hfees
      simp only [Bool.and_eq_true, decide_eq_true_eq] at hsplit
      obtain ⟨⟨⟨⟨⟨⟨⟨hcoinbase, -⟩, -⟩, -⟩, htotal⟩, -⟩, -⟩, -⟩ := hsplit
      have hbasic : ∀ tx ∈ b.transactions, isValid tx := all_eq_true.mp hvalid
      refine ⟨⟨coinbase, rest, hblock, hcoinbase⟩, hothers, ?_, fun hheight' => absurd hheight' hne⟩
      have hsum := actualTxFees_eq (fun tx htx => (hothers tx (hdrop ▸ htx)).1)
        (fun tx htx => hbasic tx (by rw [hblock]; exact mem_cons_of_mem _ htx)) hfees
      rw [outputSum_of_isValid (hbasic coinbase (by rw [hblock]; exact mem_cons_self)), hsum,
        Nat.zero_add] at htotal
      rw [coinbaseSum, blockFees, subsidyOf, if_neg hne, hdrop, hblock]
      exact htotal

section
variable (hbal : Balanced l b)
include hbal

theorem Balanced.spent :
    spentKeys (blockSteps C b) = (b.transactions.drop 1).flatMap fun tx => tx.inputs.map outPointOf := by
  obtain ⟨coinbase, rest, hblock, hcoinbase⟩ := hbal.coinbase
  have hdrop : b.transactions.drop 1 = rest := by rw [hblock]; rfl
  have hothers := hbal.others
  rw [hdrop] at hothers
  have hfilter : (b.transactions.filter fun tx => !tx.isCoinbase) = rest := by
    rw [hblock, filter_cons, hcoinbase]
    exact filter_eq_self.mpr fun tx htx => by rw [(hothers tx htx).1]; rfl
  rw [hdrop, ← hfilter]
  exact spentKeys_blockSteps C b.height b.transactions 0

theorem Balanced.disjoint (h : Committed C X l b l') :
    ∀ k ∈ createdKeys (blockSteps C b), k ∉ spentKeys (blockSteps C b) := by
  intro k hk hmem
  obtain ⟨-, hfresh⟩ := createsFresh_spec h.fresh
  rw [hbal.spent, mem_flatMap] at hmem
  obtain ⟨tx, htx, hkey⟩ := hmem
  obtain ⟨i, hi, rfl⟩ := mem_map.mp hkey
  have hresolved := (hbal.others tx htx).2.1 i hi
  rw [(hfresh _ hk).2] at hresolved
  cases hresolved

theorem Balanced.unspent (h : Committed C X l b l') :
    unspentTotal l'.coins ≤ unspentTotal l.coins + subsidyOf b.height l.supply := by
  obtain ⟨coinbase, rest, hblock, hcoinbase⟩ := hbal.coinbase
  have hdrop : b.transactions.drop 1 = rest := by rw [hblock]; rfl
  have hothers := hbal.others
  have htotal := hbal.total
  rw [blockFees, hdrop] at htotal
  rw [hdrop] at hothers
  have hspent : spentKeys (blockSteps C b) = rest.flatMap fun tx => tx.inputs.map outPointOf := by
    rw [hbal.spent, hdrop]
  obtain ⟨hnodup, -, -⟩ := spendsAvailable_spec h.available
  have hdisjoint := hbal.disjoint h
  have hsteps := unspentTotal_steps hdisjoint hnodup h.coins
  have hcreated := createdValue_blockSteps C b.height b.transactions 0
  rw [hspent, sum_coinValue_flatMap] at hsteps
  rw [hblock, map_cons, sum_cons] at hcreated
  have hcreated' : createdValue (blockSteps C b) ≤ outputSum coinbase + (rest.map outputSum).sum := by
    rw [blockSteps, hblock]
    exact hcreated
  have hsum : coinbaseSum b = outputSum coinbase := by rw [coinbaseSum, hblock]; rfl
  -- fees and outputs of the transactions are within their inputs
  have hfees : ∀ txs : List Transaction, (∀ tx ∈ txs, outputSum tx ≤ inputTotal l.coins tx) →
      (txs.map fun tx => namedInputTotal l.coins tx - outputSum tx).sum + (txs.map outputSum).sum ≤
        (txs.map (inputTotal l.coins)).sum := by
    intro txs hcovered
    induction txs with
    | nil => exact le_rfl
    | cons tx txs ih =>
      have hrest := ih fun tx htx => hcovered tx (mem_cons_of_mem _ htx)
      have htx := hcovered tx mem_cons_self
      have hnamed := namedInputTotal_le l.coins tx
      simp only [map_cons, sum_cons]
      omega
  have hall := hfees rest fun tx htx => (hothers tx htx).2.2
  omega

theorem Balanced.supply (hcapped : l.supply ≤ maxSupplyUnits) (h : Committed C X l b l') :
    l'.supply = l.supply + subsidyOf b.height l.supply := by
  obtain ⟨coinbase, rest, hblock, -⟩ := hbal.coinbase
  have htotal := hbal.total
  have hsum : coinbaseSum b = outputSum coinbase := by rw [coinbaseSum, hblock]; rfl
  have hsupply := h.supply
  rw [advanceCanonicalSupply, if_neg (by omega), hblock] at hsupply
  simp only at hsupply
  split_ifs at hsupply
  have heq := (Option.some.inj hsupply).symm
  have houtputs : (coinbase.outputs.map fun out => out.value.toNat).sum = outputSum coinbase := rfl
  have hzero := hbal.genesis
  rw [houtputs] at heq
  unfold subsidyOf at htotal ⊢
  split_ifs at htotal ⊢ with hheight
  · have hnone := hzero hheight
    omega
  · omega

end

theorem acceptBlock_balanced (hl : l.Sound) (h : acceptBlock C X R engines l b = some l') :
    Balanced l b ∧ Committed C X l b l' := by
  simp only [acceptBlock, bind_eq_some, Option.guard_eq_some'] at h
  obtain ⟨-, hchecks, hcommit⟩ := h
  refine ⟨?_, commitLedger_eq_some.mp hcommit⟩
  split_ifs at hchecks
  · exact balanced_of_genesis hchecks
  · exact balanced_of_validateBlock hl.coherent hchecks

theorem Ledger.Solvent.accept (hl : l.Solvent) (h : acceptBlock C X R engines l b = some l') :
    l'.Solvent ∧ l'.supply = l.supply + subsidyOf b.height l.supply := by
  obtain ⟨hbal, hcommitted⟩ := acceptBlock_balanced hl.sound h
  have hsupply := hbal.supply hl.capped hcommitted
  have hunspent := hbal.unspent hcommitted
  have hcapped := hl.capped
  have hcovered := hl.covered
  have hsubsidy : subsidyOf b.height l.supply ≤ maxSupplyUnits - l.supply := by
    unfold subsidyOf
    split_ifs
    · exact Nat.zero_le _
    · exact Nat.min_le_right _ _
  exact ⟨⟨hcommitted.sound hl.sound, by omega, by omega⟩, hsupply⟩

theorem Ledger.solvent_empty : Ledger.empty.Solvent where
  sound := Ledger.sound_empty
  capped := Nat.zero_le _
  covered := by
    rw [unspentTotal, weigh, Ledger.empty, IndexedMap.empty, Finmap.keys_empty]
    exact Nat.le_refl _

theorem Ledger.Solvent.run (hl : l.Solvent) {blocks : List Block}
    (h : blocks.foldlM (acceptBlock C X R engines) l = some l') :
    l'.Solvent ∧ l'.supply = blocks.foldl (fun s b => s + subsidyOf b.height s) l.supply := by
  induction blocks generalizing l with
  | nil =>
    cases h
    exact ⟨hl, rfl⟩
  | cons b rest ih =>
    rw [foldlM_cons, bind_eq_some] at h
    obtain ⟨next, hnext, hrest⟩ := h
    obtain ⟨hsolvent, hsupply⟩ := hl.accept hnext
    obtain ⟨hsolvent', hsupply'⟩ := ih hsolvent hrest
    exact ⟨hsolvent', by rw [hsupply', hsupply, foldl_cons]⟩

/-- Native money is conserved on every chain of accepted blocks: the supply is what the blocks have
issued and within the cap, the legs of each coinbase are its subsidy and its fees, and the unspent
outputs are within the supply. -/
theorem native_money_conserved {blocks : List Block}
    (h : blocks.foldlM (acceptBlock C X R engines) Ledger.empty = some l) :
    l.supply = issuedSubsidies blocks ∧ l.supply ≤ maxSupplyUnits ∧ unspentTotal l.coins ≤ l.supply ∧
      ∀ before b after, blocks = before ++ b :: after →
        ∃ parent, before.foldlM (acceptBlock C X R engines) Ledger.empty = some parent ∧
          coinbaseSum b = subsidyOf b.height parent.supply + blockFees parent.coins b ∧
          ∀ a, computeCoinbaseAllocation b.height (expectedBlockSubsidy b.height) parent.supply
              (blockFees parent.coins b) = some a → 0 < b.height →
            a.miner + a.pool + a.vault + a.endorsement = coinbaseSum b := by
  obtain ⟨hsolvent, hsupply⟩ := Ledger.solvent_empty.run h
  refine ⟨hsupply, hsolvent.capped, hsolvent.covered, ?_⟩
  rintro before b after rfl
  rw [foldlM_append, bind_eq_some] at h
  obtain ⟨parent, hparent, hrest⟩ := h
  rw [foldlM_cons, bind_eq_some] at hrest
  obtain ⟨next, hnext, -⟩ := hrest
  obtain ⟨hbal, -⟩ := acceptBlock_balanced (Ledger.solvent_empty.run hparent).1.sound hnext
  refine ⟨parent, hparent, hbal.total, fun a ha hheight => ?_⟩
  obtain ⟨htotal, hsubsidy⟩ := computeCoinbaseAllocation_total ha
  rw [htotal, hsubsidy, hbal.total, subsidyOf, if_neg (by omega)]

end

/-! The genesis and a first block that pays its miner and the vault. -/

def TxRules.sample : TxRules := ⟨fun _ => true, fun _ _ => true, fun _ => false⟩

def Engines.sample : Engines where
  addressToScript address := address
  stakingActivationUnits := stakingUnlockSupply
  nmsCredits := []
  nmsBondSatisfied _ := true
  endorsementCounts := []
  weightedStake := []
  bondYieldAddress := []
  bondYieldWeight := 0
  bondSettlements := []
  bondYieldSettlements := []

def sampleZeroGenesis : Block :=
  ⟨⟨1, .zero, .zero, 0, 0, 0⟩, [⟨1, [⟨.zero, 0xFFFFFFFF, [], 0⟩], [⟨0, []⟩], 0⟩], 0⟩

def sampleFirstBlock : Block :=
  ⟨⟨2, sampleZeroGenesis.getHash Crypto.firstBytes, .zero, 0, 0, 0⟩,
    [⟨2, [⟨.zero, 0xFFFFFFFF, [], 0⟩], [⟨156963470, [0x76]⟩, ⟨156963470, [0x51]⟩], 0⟩], 1⟩

theorem native_money_conserved_first :
    ∃ l, [sampleZeroGenesis, sampleFirstBlock].foldlM
        (acceptBlock Crypto.firstBytes Custody.sample TxRules.sample fun _ => Engines.sample) Ledger.empty = some l ∧
      l.supply = 313926940 ∧ unspentTotal l.coins ≤ l.supply := by
  have hok : ([sampleZeroGenesis, sampleFirstBlock].foldlM (acceptBlock Crypto.firstBytes Custody.sample
      TxRules.sample fun _ => Engines.sample) Ledger.empty).isSome = true := by
    decide +kernel
  obtain ⟨l, hl⟩ := Option.isSome_iff_exists.mp hok
  obtain ⟨hsupply, -, hcovered, -⟩ := native_money_conserved hl
  refine ⟨l, hl, ?_, hcovered⟩
  rw [hsupply]
  decide

end Veld.Chain
