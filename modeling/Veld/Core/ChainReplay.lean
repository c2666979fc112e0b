import Veld.Core.ChainUndo

/-!
# The chain state does not depend on the path

Whatever blocks were committed and disconnected before, the state is the one that the blocks of the chain give
when they are applied in order from nothing.
-/

namespace Veld.Chain

open Wire IndexedMap List

section
variable {C : Crypto} {X : Custody} {l l' : Ledger} {b : Block}

/-- What holds of the maps of every ledger. -/
structure Ledger.Sound (l : Ledger) : Prop where
  coherent : Coherent Utxo.scriptHex l.coins
  keyed : Keyed l.coins
  miners : NoneIdle l.miners

theorem Ledger.sound_empty : Ledger.empty.Sound where
  coherent := coherent_empty
  keyed k u h := by
    rw [Ledger.empty, IndexedMap.empty, Finmap.lookup_empty] at h
    cases h
  miners script h := by
    rw [Ledger.empty, Finmap.lookup_empty] at h
    cases h

/-- Everything a commit has checked and done. -/
structure Committed (C : Crypto) (X : Custody) (l : Ledger) (b : Block) (l' : Ledger) : Prop where
  supply : advanceCanonicalSupply b l.supply = some l'.supply
  available : spendsAvailable l.coins (blockSteps C b) [] [] = true
  fresh : createsFresh l.coins (blockSteps C b) [] = true
  count : b.transactions.length ≤ 2 ^ 32
  spenders : ∃ additions, prepareSpenders l.spenders (blockSteps C b) [] = some additions ∧
    l'.spenders = applySpenders l.spenders additions
  coins : (blockSteps C b).foldlM applyStep l.coins = some l'.coins
  chain : l'.chain = b :: l.chain
  fees : l'.fees = collectFees b l.fees
  miners : l'.miners = (indexMinerCoinbase C X l.chain b l.miners).1

theorem commitLedger_eq_some : commitLedger C X l b = some l' ↔ Committed C X l b l' := by
  constructor
  · intro h
    simp only [commitLedger, bind_eq_some, Option.guard_eq_some', pure_eq_some] at h
    obtain ⟨supply, hsupply, -, havailable, -, hfresh, -, hcount, additions, hadditions, coins, hcoins, rfl⟩ := h
    exact ⟨hsupply, havailable, hfresh, hcount, ⟨additions, hadditions, rfl⟩, hcoins, rfl, rfl, rfl⟩
  · rintro ⟨hsupply, havailable, hfresh, hcount, ⟨additions, hadditions, hspenders⟩, hcoins, hchain, hfees, hminers⟩
    simp only [commitLedger, hsupply, havailable, hfresh, hadditions, hcoins, guard_pos trivial,
      guard_pos hcount, some_bind, Option.pure_def, ← hspenders, ← hchain, ← hfees, ← hminers]

theorem Committed.applicable (h : Committed C X l b l') :
    Applicable l.coins ((blockSteps C b).map CoinStep.effect) :=
  applicable_of_checks h.available h.fresh

section
variable (hl : l.Sound) (h : Committed C X l b l')
include hl h

theorem Committed.applied :
    Applied Utxo.scriptHex l.coins l'.coins ((blockSteps C b).map CoinStep.effect) := by
  obtain ⟨coins, hcoins⟩ := h.applicable.applied hl.coherent
  have heq := h.coins
  rw [foldlM_applyStep (blockSteps_spendable C b), hcoins.applied] at heq
  cases heq
  exact hcoins

theorem Committed.sound : l'.Sound where
  coherent := (h.applied hl).coherent
  keyed := hl.keyed.applySteps (blockSteps_spendable C b) h.coins
  miners := by
    rw [h.miners]
    exact hl.miners.index

theorem Committed.disconnect :
    disconnectLedger C b l.chain (undoRecord C l b) (indexMinerCoinbase C X l.chain b l.miners).2 l' = some l := by
  have happlied := h.applied hl
  have hsame : (undoRecord C l b).height = b.height ∧ (undoRecord C l b).hash = b.getHash C := ⟨rfl, rfl⟩
  have hparent : ∀ u ∈ (undoRecord C l b).parentSpent, l'.coins.entries.lookup u.key = none := by
    intro u hu
    obtain ⟨k, hk, hlookup⟩ := mem_filterMap.mp hu
    rw [(hl.keyed k u hlookup).1]
    exact happlied.spent k (by rwa [spent_effects])
  have hcreated : ∀ key ∈ (undoRecord C l b).createdUnspentOutpoints,
      (l'.coins.entries.lookup key).isSome = true := by
    intro key hkey
    obtain ⟨hmem, hunspent⟩ := mem_filter.mp hkey
    refine happlied.created key (by rwa [created_effects]) ?_
    rw [spent_effects]
    simpa using hunspent
  obtain ⟨additions, hadditions, hspenders⟩ := h.spenders
  have hminers : undoMinerCoinbase C b (indexMinerCoinbase C X l.chain b l.miners).2 l'.miners = some l.miners := by
    rw [h.miners]
    exact undoMiner_index hl.miners
  have hunindexed : unindexSpenders (blockSteps C b) l'.spenders = l.spenders := by
    rw [hspenders]
    exact unindexSpenders_apply hadditions
  have hcoins : (undoRecord C l b).parentSpent.foldl (fun coins u => insertUTXO u coins)
      ((undoRecord C l b).createdOutpoints.foldl (fun coins key => (eraseUTXO key coins).getD coins) l'.coins) =
      l.coins := by
    rw [undoRecord, restore_eq hl.keyed]
    exact happlied.rollback hl.coherent h.applicable
  simp only [disconnectLedger, guard_pos hsame, guard_pos hparent, guard_pos hcreated, hminers,
    some_bind, Option.pure_def, hcoins, hunindexed]
  rfl

end

/-! ## Rebuilding -/

def Ledger.bundle (l : Ledger) : UTXOMapBundle := ⟨l.coins, l.spenders, l.supply, l.fees⟩

theorem foldlM_rebuildStep {coins coins' : Coins} {spenders : Spenders} {steps : List CoinStep}
    (happly : steps.foldlM applyStep coins = some coins')
    (hnodup : ((spendPairs steps).map Prod.fst).Nodup)
    (hfresh : ∀ pair ∈ spendPairs steps, spenders.lookup pair.1 = none) :
    steps.foldlM rebuildStep (coins, spenders) = some (coins', applySpenders spenders (spendPairs steps)) := by
  induction steps generalizing coins spenders with
  | nil =>
    cases happly
    rfl
  | cons step rest ih =>
    rw [foldlM_cons, bind_eq_some] at happly
    obtain ⟨next, hnext, hrest⟩ := happly
    rw [foldlM_cons]
    cases step with
    | create u =>
      cases hnext
      exact ih hrest hnodup hfresh
    | spend key spender =>
      have hpairs : spendPairs (.spend key spender :: rest) = (key, spender) :: spendPairs rest := by
        simp [spendPairs]
      rw [hpairs] at hnodup hfresh ⊢
      obtain ⟨hnot, hnodup⟩ := nodup_cons.mp hnodup
      have hnone := hfresh _ mem_cons_self
      have hstep : rebuildStep (coins, spenders) (.spend key spender) =
          some (next, spenders.insert key spender) := by
        have herase : eraseUTXO key coins = some next := hnext
        simp [rebuildStep, hnone, herase]
      have happend : applySpenders spenders ((key, spender) :: spendPairs rest) =
          applySpenders (spenders.insert key spender) (spendPairs rest) := by
        simp [applySpenders, hnone]
      rw [hstep, happend]
      refine ih hrest hnodup fun pair hpair => ?_
      have hne : pair.1 ≠ key := fun heq => hnot (mem_map.mpr ⟨pair, hpair, heq⟩)
      rw [lookup_insert_ite, if_neg hne]
      exact hfresh pair (mem_cons_of_mem _ hpair)

theorem Committed.rebuild (h : Committed C X l b l') : rebuildBlock C l.bundle b = some l'.bundle := by
  obtain ⟨additions, hadditions, hspenders⟩ := h.spenders
  obtain ⟨heq, hnodup, hfresh⟩ := prepareSpenders_spec hadditions
  have hmaps := foldlM_rebuildStep h.coins (heq ▸ hnodup) (fun pair hpair => (hfresh pair (heq ▸ hpair)).2)
  rw [← heq, ← hspenders] at hmaps
  have hsupply := h.supply
  have hfees := h.fees
  simp only [rebuildBlock, Ledger.bundle, guard_pos h.count, hmaps, some_bind]
  split
  · rename_i hempty
    have hsame : l'.supply = l.supply := by
      unfold advanceCanonicalSupply at hsupply
      split at hsupply
      · cases hsupply
      · simp only [hempty, Option.some.injEq] at hsupply
        exact hsupply.symm
    have hfees' : l'.fees = l.fees := by rw [hfees, collectFees, hempty]
    rw [hsame, hfees']
    rfl
  · simp only [hsupply, hfees]
    rfl

/-! ## Runs -/

/-- The ledger that the blocks of a chain give, the last block first. -/
def replay (C : Crypto) (X : Custody) : List Block → Option Ledger
  | [] => some Ledger.empty
  | b :: rest => (replay C X rest).bind fun l => commitLedger C X l b

def undoRecords (C : Crypto) (X : Custody) : List Block → List (CanonicalBlockUndo × MinerBlockUndo)
  | [] => []
  | b :: rest =>
    match replay C X rest with
    | some l => (undoRecord C l b, (indexMinerCoinbase C X rest b l.miners).2) :: undoRecords C X rest
    | none => []

theorem replay_sound {chain : List Block} (h : replay C X chain = some l) : l.Sound ∧ l.chain = chain := by
  induction chain generalizing l with
  | nil =>
    cases h
    exact ⟨Ledger.sound_empty, rfl⟩
  | cons b rest ih =>
    obtain ⟨below, hbelow, hcommit⟩ := bind_eq_some.mp h
    have hc := commitLedger_eq_some.mp hcommit
    obtain ⟨hsound, hchain⟩ := ih hbelow
    exact ⟨hc.sound hsound, hc.chain.trans (by rw [hchain])⟩

theorem replay_rebuild {chain : List Block} (h : replay C X chain = some l) :
    buildUTXOSetInto C chain.reverse = some l.bundle ∧ l.miners = indexForward C X chain := by
  induction chain generalizing l with
  | nil =>
    cases h
    exact ⟨rfl, rfl⟩
  | cons b rest ih =>
    obtain ⟨below, hbelow, hcommit⟩ := bind_eq_some.mp h
    have hc := commitLedger_eq_some.mp hcommit
    obtain ⟨hbuild, hminers⟩ := ih hbelow
    constructor
    · unfold buildUTXOSetInto at hbuild ⊢
      rw [reverse_cons, foldlM_append, hbuild]
      simpa using hc.rebuild
    · rw [hc.miners, (replay_sound hbelow).2, hminers]
      rfl

end

section
variable (C : Crypto) (X : Custody)

structure State.Consistent (st : State) : Prop where
  ledger : replay C X st.ledger.chain = some st.ledger
  canonicalUndo : st.canonicalUndo <+: (undoRecords C X st.ledger.chain).map Prod.fst
  minerUndo : st.minerUndo <+: (undoRecords C X st.ledger.chain).map Prod.snd

end

section
variable {C : Crypto} {X : Custody} {st st' : State} {b : Block}

theorem State.consistent_empty : State.empty.Consistent C X := ⟨rfl, prefix_rfl, prefix_rfl⟩

theorem commitBlock_eq_some (h : commitBlock C X st b = some st') :
    Committed C X st.ledger b st'.ledger ∧
      st'.canonicalUndo = (undoRecord C st.ledger b :: st.canonicalUndo).take (maxReorgDepth + 1) ∧
      st'.minerUndo = ((indexMinerCoinbase C X st.ledger.chain b st.ledger.miners).2 :: st.minerUndo).take
        (maxReorgDepth + 1) := by
  simp only [commitBlock, bind_eq_some, pure_eq_some] at h
  obtain ⟨ledger, hledger, rfl⟩ := h
  exact ⟨commitLedger_eq_some.mp hledger, rfl, rfl⟩

theorem State.Consistent.records (h : st.Consistent C X) (b : Block) :
    undoRecords C X (b :: st.ledger.chain) =
      (undoRecord C st.ledger b, (indexMinerCoinbase C X st.ledger.chain b st.ledger.miners).2) ::
        undoRecords C X st.ledger.chain := by
  rw [undoRecords, h.ledger]

theorem State.Consistent.commit (h : st.Consistent C X) (hcommit : commitBlock C X st b = some st') :
    st'.Consistent C X := by
  obtain ⟨hledger, hundo, hminer⟩ := commitBlock_eq_some hcommit
  have hrecords := h.records b
  refine ⟨?_, ?_, ?_⟩
  · rw [hledger.chain, replay, h.ledger, Option.bind_some]
    exact commitLedger_eq_some.mpr hledger
  · rw [hundo, hledger.chain, hrecords, map_cons]
    exact (List.take_prefix _ _).trans (prefix_cons_inj _ |>.mpr h.canonicalUndo)
  · rw [hminer, hledger.chain, hrecords, map_cons]
    exact (List.take_prefix _ _).trans (prefix_cons_inj _ |>.mpr h.minerUndo)

/-- A disconnect goes back one block, as long as both queues have a record. -/
theorem State.Consistent.disconnect_eq {rest : List Block} {undo : CanonicalBlockUndo}
    {undos : List CanonicalBlockUndo} {minerUndo : MinerBlockUndo} {minerUndos : List MinerBlockUndo}
    (h : st.Consistent C X) (hchain : st.ledger.chain = b :: rest) (hundo : st.canonicalUndo = undo :: undos)
    (hminer : st.minerUndo = minerUndo :: minerUndos) :
    ∃ below, replay C X rest = some below ∧ disconnectTip C st = some ⟨below, undos, minerUndos⟩ ∧
      State.Consistent C X ⟨below, undos, minerUndos⟩ := by
  have hledger := h.ledger
  rw [hchain, replay, Option.bind_eq_some_iff] at hledger
  obtain ⟨below, hbelow, hcommit⟩ := hledger
  have hc := commitLedger_eq_some.mp hcommit
  obtain ⟨hsound, hrest⟩ := replay_sound hbelow
  have hprefix := h.canonicalUndo
  have hprefix' := h.minerUndo
  rw [hchain, undoRecords, hbelow] at hprefix hprefix'
  simp only [hundo, hminer, map_cons, cons_prefix_cons] at hprefix hprefix'
  obtain ⟨rfl, hundos⟩ := hprefix
  obtain ⟨rfl, hminers⟩ := hprefix'
  refine ⟨below, hbelow, ?_, ?_⟩
  · have hback := hc.disconnect hsound
    rw [hrest] at hback
    simp only [disconnectTip, hchain, hundo, hminer, hback, Option.map_some]
  · exact ⟨by rw [hrest]; exact hbelow, by rw [hrest]; exact hundos, by rw [hrest]; exact hminers⟩

theorem State.Consistent.disconnect (h : st.Consistent C X) (hdisconnect : disconnectTip C st = some st') :
    st'.Consistent C X := by
  unfold disconnectTip at hdisconnect
  split at hdisconnect
  · rename_i b rest undo undos minerUndo minerUndos hchain hundo hminer
    obtain ⟨below, -, heq, hconsistent⟩ := h.disconnect_eq hchain hundo hminer
    simp only [disconnectTip, hchain, hundo, hminer] at heq
    rw [hdisconnect] at heq
    cases heq
    exact hconsistent
  · cases hdisconnect

/-- What a node does to its chain. -/
inductive ChainOp where
  | commit (b : Block)
  | disconnect

def applyOp (C : Crypto) (X : Custody) (st : State) : ChainOp → Option State
  | .commit b => commitBlock C X st b
  | .disconnect => disconnectTip C st

def runOps (C : Crypto) (X : Custody) (st : State) (ops : List ChainOp) : Option State :=
  ops.foldlM (applyOp C X) st

theorem State.Consistent.run (h : st.Consistent C X) {ops : List ChainOp}
    (hrun : runOps C X st ops = some st') : st'.Consistent C X := by
  unfold runOps at hrun
  induction ops generalizing st with
  | nil =>
    cases hrun
    exact h
  | cons op rest ih =>
    rw [foldlM_cons, bind_eq_some] at hrun
    obtain ⟨next, hnext, hrest⟩ := hrun
    refine ih ?_ hrest
    cases op with
    | commit b => exact h.commit hnext
    | disconnect => exact h.disconnect hnext

theorem State.Consistent.disconnect_commit (h : st.Consistent C X) (hcommit : commitBlock C X st b = some st') :
    ∃ st'', disconnectTip C st' = some st'' ∧ st''.ledger = st.ledger := by
  obtain ⟨hledger, hundo, hminer⟩ := commitBlock_eq_some hcommit
  obtain ⟨below, hbelow, hback, -⟩ := (h.commit hcommit).disconnect_eq hledger.chain
    (hundo.trans (take_succ_cons)) (hminer.trans (take_succ_cons))
  cases hbelow.symm.trans h.ledger
  exact ⟨_, hback, rfl⟩

/-- The incremental chain state is path independent: after every sequence of commits and disconnects
the maps, the supply and the fees are those that `BuildUTXOSetInto` computes for the chain, the miner
history is the one of indexing the chain forward, and a disconnect exactly undoes a commit. -/
theorem state_path_independent {ops : List ChainOp} (h : runOps C X State.empty ops = some st) :
    buildUTXOSetInto C st.ledger.chain.reverse = some st.ledger.bundle ∧
      st.ledger.miners = indexForward C X st.ledger.chain ∧
      ∀ b st', commitBlock C X st b = some st' →
        ∃ st'', disconnectTip C st' = some st'' ∧ st''.ledger = st.ledger := by
  have hconsistent := State.consistent_empty.run h
  obtain ⟨hbuild, hminers⟩ := replay_rebuild hconsistent.ledger
  exact ⟨hbuild, hminers, fun b st' hcommit => hconsistent.disconnect_commit hcommit⟩

end

/-! A block that spends the output of the genesis and, in a second transaction, the output of the first;
it is committed, disconnected and committed again. -/

def Crypto.firstBytes : Crypto where
  sha256 bytes := ⟨(bytes ++ List.replicate 32 0).take 32, Hash256.size_leading _⟩
  verifyP2PKHInputSig _ _ _ := true

def Custody.sample : Custody where
  vaultScript := [0x51]
  poolScript := [0x52]
  endorsementScript := [0x53]
  stakeVaultScript := [0x54]
  bondYieldScript := [0x55]
  isCanonicalKeyScript _ _ := true

def sampleCoinbase (version : UInt32) (value : UInt64) : Transaction :=
  ⟨version, [⟨.zero, 0xFFFFFFFF, [], 0⟩], [⟨value, [0x76]⟩], 0⟩

def sampleSpend (version : UInt32) (parent : Transaction) (value : UInt64) : Transaction :=
  ⟨version, [⟨parent.getTxID Crypto.firstBytes, 0, [], 0⟩], [⟨value, [0x77]⟩], 0⟩

def sampleGenesis : Block :=
  ⟨⟨1, .zero, .zero, 0, 0, 0⟩, [sampleCoinbase 1 313926940], 0⟩

def sampleBlock : Block :=
  let first := sampleSpend 3 (sampleCoinbase 1 313926940) 313926940
  ⟨⟨2, .zero, .zero, 0, 0, 0⟩,
    [sampleCoinbase 2 313926940, first, sampleSpend 4 first 313926940], 1⟩

theorem state_path_independent_sample :
    ∃ st, runOps Crypto.firstBytes Custody.sample State.empty
        [.commit sampleGenesis, .commit sampleBlock, .disconnect, .commit sampleBlock] = some st ∧
      buildUTXOSetInto Crypto.firstBytes st.ledger.chain.reverse = some st.ledger.bundle := by
  have hok : (runOps Crypto.firstBytes Custody.sample State.empty
      [.commit sampleGenesis, .commit sampleBlock, .disconnect, .commit sampleBlock]).isSome = true := by
    decide +kernel
  obtain ⟨st, hst⟩ := Option.isSome_iff_exists.mp hok
  exact ⟨st, hst, (state_path_independent hst).1⟩

end Veld.Chain
