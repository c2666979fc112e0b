import Veld.Core.ChainState

/-!
# A disconnect undoes a commit

Part by part: the outputs and their script index, the spender index, and the miner history.
-/

namespace Veld.Chain

open Wire IndexedMap List

/-! ## Outputs -/

def CoinStep.effect : CoinStep → Effect OutPoint Utxo
  | .create u => .create u.key u
  | .spend key _ => .spend key

theorem created_effects (steps : List CoinStep) : created (steps.map CoinStep.effect) = createdKeys steps := by
  simp only [created, createdKeys, filterMap_map]
  congr
  funext step
  cases step <;> rfl

theorem spent_effects (steps : List CoinStep) : spent (steps.map CoinStep.effect) = spentKeys steps := by
  simp only [spent, spentKeys, filterMap_map]
  congr
  funext step
  cases step <;> rfl

section
variable {coins : Coins} {steps : List CoinStep}

theorem createsFresh_spec {created : List OutPoint} (h : createsFresh coins steps created) :
    (createdKeys steps).Nodup ∧
      ∀ k ∈ createdKeys steps, k ∉ created ∧ coins.entries.lookup k = none := by
  induction steps generalizing created with
  | nil => exact ⟨nodup_nil, forall_mem_nil _⟩
  | cons step rest ih =>
    cases step with
    | create u =>
      simp only [createsFresh, Bool.and_eq_true, decide_eq_true_eq, Option.isNone_iff_eq_none] at h
      obtain ⟨⟨hnew, hfresh⟩, hrest⟩ := h
      obtain ⟨hnodup, hkeys⟩ := ih hrest
      have hcons : createdKeys (.create u :: rest) = u.key :: createdKeys rest := by simp [createdKeys]
      rw [hcons]
      refine ⟨nodup_cons.mpr ⟨fun hmem => (hkeys _ hmem).1 mem_cons_self, hnodup⟩, ?_⟩
      intro k hk
      rcases mem_cons.mp hk with rfl | hk
      · exact ⟨hnew, hfresh⟩
      · exact ⟨fun hmem => (hkeys k hk).1 (mem_cons_of_mem _ hmem), (hkeys k hk).2⟩
    | spend key spender =>
      have hcons : createdKeys (.spend key spender :: rest) = createdKeys rest := by simp [createdKeys]
      rw [hcons]
      exact ih h

theorem spendsAvailable_spec {avail spent : List OutPoint}
    (h : spendsAvailable coins steps avail spent) :
    (spentKeys steps).Nodup ∧ (∀ k ∈ spentKeys steps, k ∉ spent) ∧
      ∀ before k spender after, steps = before ++ .spend k spender :: after →
        (coins.entries.lookup k).isSome ∨ k ∈ avail ∨ k ∈ createdKeys before := by
  induction steps generalizing avail spent with
  | nil =>
    refine ⟨nodup_nil, forall_mem_nil _, fun before k spender after heq => ?_⟩
    simp at heq
  | cons step rest ih =>
    cases step with
    | create u =>
      obtain ⟨hnodup, hspent, hpresent⟩ := ih h
      have hcons : spentKeys (.create u :: rest) = spentKeys rest := by simp [spentKeys]
      rw [hcons]
      refine ⟨hnodup, hspent, fun before k spender after heq => ?_⟩
      cases before with
      | nil => cases heq
      | cons first before =>
        obtain ⟨rfl, htail⟩ := List.cons.inj heq
        have hkeys : createdKeys (.create u :: before) = u.key :: createdKeys before := by simp [createdKeys]
        rw [hkeys, mem_cons]
        rcases hpresent before k spender after htail with hthere | havail | hcreated
        · exact .inl hthere
        · rcases mem_cons.mp havail with rfl | havail
          · exact .inr (.inr (.inl rfl))
          · exact .inr (.inl havail)
        · exact .inr (.inr (.inr hcreated))
    | spend key spender =>
      simp only [spendsAvailable, Bool.and_eq_true, Bool.or_eq_true, decide_eq_true_eq] at h
      obtain ⟨⟨hnew, hthere⟩, hrest⟩ := h
      obtain ⟨hnodup, hspent, hpresent⟩ := ih hrest
      have hcons : spentKeys (.spend key spender :: rest) = key :: spentKeys rest := by simp [spentKeys]
      rw [hcons]
      refine ⟨nodup_cons.mpr ⟨fun hmem => hspent key hmem mem_cons_self, hnodup⟩, ?_, ?_⟩
      · intro k hk
        rcases mem_cons.mp hk with rfl | hk
        · exact hnew
        · exact fun hmem => hspent k hk (mem_cons_of_mem _ hmem)
      · intro before k spender' after heq
        cases before with
        | nil =>
          cases heq
          exact hthere.symm.imp_right .inl
        | cons first before =>
          obtain ⟨rfl, htail⟩ := List.cons.inj heq
          have hkeys : createdKeys (.spend key spender :: before) = createdKeys before := by simp [createdKeys]
          rw [hkeys]
          exact hpresent before k spender' after htail

theorem applicable_of_checks (havailable : spendsAvailable coins steps [] [])
    (hfresh : createsFresh coins steps []) : Applicable coins (steps.map CoinStep.effect) := by
  obtain ⟨hcreated, hnone⟩ := createsFresh_spec hfresh
  obtain ⟨hspent, -, hpresent⟩ := spendsAvailable_spec havailable
  refine ⟨by rwa [created_effects], ?_, by rwa [spent_effects], ?_⟩
  · rw [created_effects]
    exact fun k hk => (hnone k hk).2
  · intro before k after heq
    obtain ⟨front, back, rfl, rfl, hback⟩ := map_eq_append_iff.mp heq
    obtain ⟨step, rest, rfl, hstep, rfl⟩ := map_eq_cons_iff.mp hback
    cases step with
    | create u => cases hstep
    | spend key spender =>
      cases hstep
      rw [created_effects]
      rcases hpresent front k spender rest rfl with hthere | havail | hmem
      · exact .inl hthere
      · cases havail
      · exact .inr hmem

end

/-- A row is under its own key and can be spent. -/
def Keyed (coins : Coins) : Prop :=
  ∀ k u, coins.entries.lookup k = some u → u.key = k ∧ isOpReturn u.scriptPubkey = false

/-- What is created can be spent. -/
def Spendable (steps : List CoinStep) : Prop :=
  ∀ u, .create u ∈ steps → isOpReturn u.scriptPubkey = false

theorem blockSteps_spendable (C : Crypto) (b : Block) : Spendable (blockSteps C b) := by
  intro u hu
  obtain ⟨⟨tx, i⟩, -, hmem⟩ := mem_flatMap.mp hu
  rcases mem_append.mp hmem with hout | hin
  · obtain ⟨⟨out, j⟩, -, hstep⟩ := mem_filterMap.mp hout
    simp only at hstep
    split at hstep
    · cases hstep
    · rename_i hspendable
      cases hstep
      exact Bool.eq_false_iff.mpr hspendable
  · split at hin
    · cases hin
    · obtain ⟨input, -, heq⟩ := mem_map.mp hin
      cases heq

section
variable {coins coins' : Coins} {steps : List CoinStep}

theorem foldlM_applyStep (h : Spendable steps) :
    steps.foldlM applyStep coins = applyAll Utxo.scriptHex coins (steps.map CoinStep.effect) := by
  induction steps generalizing coins with
  | nil => rfl
  | cons step rest ih =>
    have hstep : applyStep coins step = applyEffect Utxo.scriptHex coins step.effect := by
      cases step with
      | create u =>
        have hu := h u mem_cons_self
        simp [applyStep, insertUTXO, hu, CoinStep.effect, applyEffect]
      | spend key spender => rfl
    have hrest : Spendable rest := fun u hu => h u (mem_cons_of_mem _ hu)
    unfold applyAll at ih ⊢
    rw [map_cons, foldlM_cons, foldlM_cons, hstep]
    congr
    funext coins
    exact ih hrest

theorem Keyed.applyStep (h : Keyed coins) {step : CoinStep}
    (hstep : ∀ u, step = .create u → isOpReturn u.scriptPubkey = false)
    (happly : applyStep coins step = some coins') : Keyed coins' := by
  intro k u hlookup
  cases step with
  | create v =>
    have hv := hstep v rfl
    simp only [Chain.applyStep, insertUTXO, hv, Bool.false_eq_true, if_false, Option.some.injEq] at happly
    subst happly
    rw [lookup_add] at hlookup
    split at hlookup
    · rename_i heq
      cases hlookup
      exact ⟨heq.symm, hv⟩
    · exact h k u hlookup
  | spend key spender =>
    rw [lookup_remove happly] at hlookup
    split_ifs at hlookup
    exact h k u hlookup

theorem Keyed.applySteps (h : Keyed coins) (hsteps : Spendable steps)
    (happly : steps.foldlM Chain.applyStep coins = some coins') : Keyed coins' := by
  induction steps generalizing coins with
  | nil =>
    cases happly
    exact h
  | cons step rest ih =>
    rw [foldlM_cons, bind_eq_some] at happly
    obtain ⟨next, hnext, hrest⟩ := happly
    have hkeyed := h.applyStep (fun u hu => hsteps u (hu ▸ mem_cons_self)) hnext
    exact ih hkeyed (fun u hu => hsteps u (mem_cons_of_mem _ hu)) hrest

theorem parentSpent_eq (h : Keyed coins) :
    spentRows coins (steps.map CoinStep.effect) =
      ((spentKeys steps).filterMap coins.entries.lookup).map fun u => (u.key, u) := by
  rw [spentRows, spent_effects, map_filterMap]
  refine filterMap_congr fun k _ => ?_
  cases hlookup : coins.entries.lookup k with
  | none => rfl
  | some u => rw [Option.map_some, Option.map_some, (h k u hlookup).1]

theorem restore_eq (h : Keyed coins) (current : Coins) :
    ((spentKeys steps).filterMap coins.entries.lookup).foldl (fun coins u => insertUTXO u coins)
        ((createdKeys steps).foldl (fun coins key => (eraseUTXO key coins).getD coins) current) =
      rollback Utxo.scriptHex (created (steps.map CoinStep.effect))
        (spentRows coins (steps.map CoinStep.effect)) current := by
  rw [rollback, parentSpent_eq h, created_effects, foldl_map]
  refine foldl_ext _ _ _ fun acc u hu => ?_
  obtain ⟨k, -, hlookup⟩ := mem_filterMap.mp hu
  rw [insertUTXO, if_neg (by rw [(h k u hlookup).2]; decide)]

end

/-! ## Spenders -/

def spendPairs (steps : List CoinStep) : List (OutPoint × SpenderLocator) :=
  steps.filterMap fun step => match step with
    | .create _ => none
    | .spend key spender => some (key, spender)

variable {additions : List (OutPoint × SpenderLocator)}

theorem prepareSpenders_spec {spenders : Spenders} {steps : List CoinStep} {seen : List OutPoint}
    (h : prepareSpenders spenders steps seen = some additions) :
    additions = spendPairs steps ∧ (additions.map Prod.fst).Nodup ∧
      ∀ pair ∈ additions, pair.1 ∉ seen ∧ spenders.lookup pair.1 = none := by
  induction steps generalizing seen additions with
  | nil =>
    cases h
    exact ⟨rfl, nodup_nil, forall_mem_nil _⟩
  | cons step rest ih =>
    cases step with
    | create u => exact ih h
    | spend key spender =>
      unfold prepareSpenders at h
      split_ifs at h with hnew
      push Not at hnew
      obtain ⟨additions', hrest, rfl⟩ := Option.map_eq_some_iff.mp h
      obtain ⟨heq, hnodup, hfresh⟩ := ih hrest
      refine ⟨?_, nodup_cons.mpr ⟨fun hmem => ?_, hnodup⟩, fun pair hpair => ?_⟩
      · rw [heq]
        simp [spendPairs]
      · obtain ⟨pair, hpair, hkey⟩ := mem_map.mp hmem
        exact (hfresh pair hpair).1 (hkey ▸ mem_cons_self)
      · rcases mem_cons.mp hpair with rfl | hpair
        · exact ⟨hnew.1, by simpa using hnew.2⟩
        · exact ⟨fun hmem => (hfresh pair hpair).1 (mem_cons_of_mem _ hmem), (hfresh pair hpair).2⟩

/-- An entry goes if it is the one that the block has made. -/
def unindexPair (spenders : Spenders) (pair : OutPoint × SpenderLocator) : Spenders :=
  match spenders.lookup pair.1 with
  | some found =>
    if found.blockHeight = pair.2.blockHeight ∧ found.txid = pair.2.txid then spenders.erase pair.1
    else spenders
  | none => spenders

theorem unindexSpenders_eq (steps : List CoinStep) (spenders : Spenders) :
    unindexSpenders steps spenders = (spendPairs steps).foldl unindexPair spenders := by
  unfold unindexSpenders
  induction steps generalizing spenders with
  | nil => rfl
  | cons step rest ih =>
    rw [foldl_cons, ih]
    cases step with
    | create u | spend key spender => rfl

theorem lookup_unindexPair (spenders : Spenders) (pair : OutPoint × SpenderLocator) (key : OutPoint) :
    (unindexPair spenders pair).lookup key = if key = pair.1 then (spenders.lookup pair.1).filter fun found =>
      ¬(found.blockHeight = pair.2.blockHeight ∧ found.txid = pair.2.txid) else spenders.lookup key := by
  unfold unindexPair
  cases hfound : spenders.lookup pair.1 with
  | none =>
    split_ifs with heq
    · exact heq ▸ hfound
    · rfl
  | some found =>
    dsimp only
    by_cases hsame : found.blockHeight = pair.2.blockHeight ∧ found.txid = pair.2.txid
    · rw [if_pos hsame, lookup_erase_ite]
      simp only [Option.filter_some, hsame, and_self, not_true, decide_false, Bool.false_eq_true, if_false]
    · rw [if_neg hsame, Option.filter_some, if_pos (decide_eq_true hsame)]
      split_ifs with heq
      · exact heq ▸ hfound
      · rfl

def firstSpender (pair : OutPoint × SpenderLocator) (found : Option SpenderLocator) : Option SpenderLocator :=
  some (found.getD pair.2)

theorem lookup_applySpender (spenders : Spenders) (pair : OutPoint × SpenderLocator) (key : OutPoint) :
    (if (spenders.lookup pair.1).isSome then spenders else spenders.insert pair.1 pair.2).lookup key =
      if key = pair.1 then firstSpender pair (spenders.lookup pair.1) else spenders.lookup key := by
  cases hfound : spenders.lookup pair.1 with
  | none => exact lookup_insert_ite _ _ _ _
  | some found =>
    rw [if_pos Option.isSome_some]
    split_ifs with heq
    · exact heq ▸ hfound
    · rfl

theorem unindexSpenders_apply {spenders : Spenders} {steps : List CoinStep}
    (h : prepareSpenders spenders steps [] = some additions) :
    unindexSpenders steps (applySpenders spenders additions) = spenders := by
  obtain ⟨heq, hnodup, hfresh⟩ := prepareSpenders_spec h
  rw [unindexSpenders_eq, ← heq]
  refine Finmap.ext_lookup fun key => ?_
  by_cases hkey : key ∈ additions.map Prod.fst
  · obtain ⟨pair, hpair, rfl⟩ := mem_map.mp hkey
    rw [lookup_foldl_of_mem lookup_unindexPair hnodup hpair, applySpenders,
      lookup_foldl_of_mem lookup_applySpender hnodup hpair, (hfresh pair hpair).2]
    simp [firstSpender]
  · rw [lookup_foldl_of_notMem lookup_unindexPair hkey, applySpenders, lookup_foldl_of_notMem lookup_applySpender hkey]

/-! ## Miners -/

theorem firstOccurrences_nodup (seen scripts : List Bytes) :
    (firstOccurrences seen scripts).Nodup ∧ ∀ x ∈ firstOccurrences seen scripts, x ∉ seen := by
  induction scripts generalizing seen with
  | nil => exact ⟨nodup_nil, forall_mem_nil _⟩
  | cons x rest ih =>
    unfold firstOccurrences
    split
    · exact ih seen
    · rename_i hnew
      obtain ⟨hnodup, hdisjoint⟩ := ih (x :: seen)
      refine ⟨nodup_cons.mpr ⟨fun hmem => hdisjoint x hmem mem_cons_self, hnodup⟩, ?_⟩
      intro y hy
      rcases mem_cons.mp hy with rfl | hy
      · exact hnew
      · exact fun hmem => hdisjoint y hy (mem_cons_of_mem _ hmem)

theorem minerScripts_nodup (X : Custody) (b : Block) : (minerScripts X b).Nodup := by
  unfold minerScripts
  split
  · exact nodup_nil
  · exact (firstOccurrences_nodup _ _).1

theorem retiringScripts_nodup (X : Custody) (chain : List Block) (height : Nat) :
    (retiringScripts X chain height).Nodup := by
  unfold retiringScripts
  split
  · split
    · exact minerScripts_nodup X _
    · exact nodup_nil
  · exact nodup_nil

/-- No miner is kept without a height. -/
def NoneIdle (miners : MinerHeights) : Prop := ∀ script, miners.lookup script ≠ some []

section
variable {height cutoff : Nat}

def pushed (height : Nat) (heights : Option (List Nat)) : Option (List Nat) :=
  some (heights.getD [] ++ [height])

def pruned (cutoff : Nat) : Option (List Nat) → Option (List Nat)
  | none => none
  | some heights =>
    if heights.dropWhile (· ≤ cutoff) = [] then none else some (heights.dropWhile (· ≤ cutoff))

def popped (heights : Option (List Nat)) : Option (List Nat) :=
  if (heights.getD []).dropLast = [] then none else some (heights.getD []).dropLast

theorem lookup_pushHeight (miners : MinerHeights) (script script' : Bytes) :
    (pushHeight height miners script).lookup script' =
      if script' = script then pushed height (miners.lookup script) else miners.lookup script' :=
  lookup_insert_ite _ _ _ _

theorem lookup_popHeight (miners : MinerHeights) (script script' : Bytes) :
    (popHeight miners script).lookup script' =
      if script' = script then popped (miners.lookup script) else miners.lookup script' := by
  unfold popHeight popped
  simp only
  split
  · rw [lookup_erase_ite]
  · rw [lookup_insert_ite]

theorem pruneKey_fst (acc : MinerHeights × List (Bytes × List Nat)) (script script' : Bytes) :
    (pruneKey cutoff acc script).1.lookup script' =
      if script' = script then pruned cutoff (acc.1.lookup script) else acc.1.lookup script' := by
  unfold pruneKey
  split
  · rename_i hnone
    split
    · subst script'
      rw [hnone]
      rfl
    · rfl
  · rename_i heights hsome
    simp only [hsome, pruned]
    split
    · rw [lookup_erase_ite]
    · rw [lookup_insert_ite]

/-- What pruning takes from a miner, if it takes anything. -/
def removed (cutoff : Nat) (heights : Option (List Nat)) : List Nat :=
  (heights.getD []).takeWhile (· ≤ cutoff)

theorem pruneAll_spec {scripts : List Bytes} (hnodup : scripts.Nodup)
    (acc : MinerHeights × List (Bytes × List Nat)) :
    (∀ script, (scripts.foldl (pruneKey cutoff) acc).1.lookup script =
      if script ∈ scripts then pruned cutoff (acc.1.lookup script) else acc.1.lookup script) ∧
    (scripts.foldl (pruneKey cutoff) acc).2 =
      (scripts.filterMap fun script =>
        if removed cutoff (acc.1.lookup script) = [] then none
        else some (script, removed cutoff (acc.1.lookup script))).reverse ++ acc.2 := by
  induction scripts generalizing acc with
  | nil => simp
  | cons script rest ih =>
    obtain ⟨hnot, hnodup⟩ := nodup_cons.mp hnodup
    obtain ⟨hlookup, hpruned⟩ := ih hnodup (pruneKey cutoff acc script)
    have hsame : ∀ other ∈ rest, (pruneKey cutoff acc script).1.lookup other = acc.1.lookup other := by
      intro other hother
      have hne : other ≠ script := fun heq => hnot (heq ▸ hother)
      rw [pruneKey_fst, if_neg hne]
    constructor
    · intro other
      rw [foldl_cons, hlookup, pruneKey_fst]
      by_cases hk : other = script
      · subst hk
        simp [hnot]
      · simp [hk]
    · have hrest : (rest.filterMap fun script' =>
          if removed cutoff ((pruneKey cutoff acc script).1.lookup script') = [] then none
          else some (script', removed cutoff ((pruneKey cutoff acc script).1.lookup script'))) =
          rest.filterMap fun script' =>
            if removed cutoff (acc.1.lookup script') = [] then none
            else some (script', removed cutoff (acc.1.lookup script')) :=
        filterMap_congr fun other hother => by rw [hsame other hother]
      have hhead : (pruneKey cutoff acc script).2 =
          if removed cutoff (acc.1.lookup script) = [] then acc.2
          else (script, removed cutoff (acc.1.lookup script)) :: acc.2 := by
        unfold pruneKey removed
        split
        · rename_i hnone
          simp [hnone]
        · rename_i heights hsome
          simp [hsome]
      rw [foldl_cons, hpruned, hrest, hhead, filterMap_cons]
      by_cases hempty : removed cutoff (acc.1.lookup script) = []
      · simp [hempty]
      · simp [hempty]

def restored (pair : Bytes × List Nat) (heights : Option (List Nat)) : Option (List Nat) :=
  some (pair.2 ++ heights.getD [])

theorem lookup_restoreHeights (miners : MinerHeights) (pair : Bytes × List Nat) (script : Bytes) :
    (miners.insert pair.1 (pair.2 ++ (miners.lookup pair.1).getD [])).lookup script =
      if script = pair.1 then restored pair (miners.lookup pair.1) else miners.lookup script :=
  lookup_insert_ite _ _ _ _

end

section
variable {C : Crypto} {X : Custody} {chain : List Block} {b : Block} {miners : MinerHeights}

theorem dropWhile_snoc {cutoff height : Nat} (h : cutoff < height) (heights : List Nat) :
    (heights ++ [height]).dropWhile (· ≤ cutoff) = heights.dropWhile (· ≤ cutoff) ++ [height] ∧
      (heights ++ [height]).takeWhile (· ≤ cutoff) = heights.takeWhile (· ≤ cutoff) := by
  induction heights with
  | nil => simp [h]
  | cons first rest ih =>
    by_cases hfirst : first ≤ cutoff
    · simpa [hfirst] using ih
    · simp [hfirst]

theorem cutoff_lt {height : Nat} (h : maxMinerTierHistoryBlocks ≤ height) :
    height - maxMinerTierHistoryBlocks < height := by
  have hpos : 0 < maxMinerTierHistoryBlocks := by decide
  omega

/-- The height below which the history of the miners that retire is pruned. -/
def cutoffOf (b : Block) : Nat := b.height - maxMinerTierHistoryBlocks

variable {script : Bytes}

theorem cutoffOf_lt (h : script ∈ retiringScripts X chain b.height) : cutoffOf b < b.height := by
  unfold retiringScripts at h
  split at h
  · rename_i hge
    exact cutoff_lt hge
  · cases h

/-- The history of one miner with the payment of a block. -/
def paidHeights (X : Custody) (b : Block) (miners : MinerHeights) (script : Bytes) : Option (List Nat) :=
  if script ∈ minerScripts X b then pushed b.height (miners.lookup script) else miners.lookup script

theorem lookup_pushAll (script : Bytes) :
    ((minerScripts X b).foldl (pushHeight b.height) miners).lookup script = paidHeights X b miners script := by
  rw [lookup_foldl_pointwise lookup_pushHeight (minerScripts_nodup X b), paidHeights]
  split_ifs <;> rfl

theorem lookup_indexMiner (script : Bytes) :
    (indexMinerCoinbase C X chain b miners).1.lookup script =
      if script ∈ retiringScripts X chain b.height then pruned (cutoffOf b) (paidHeights X b miners script)
      else paidHeights X b miners script := by
  simp only [indexMinerCoinbase]
  rw [(pruneAll_spec (retiringScripts_nodup X chain b.height) _).1, lookup_pushAll]
  rfl

theorem pruned_eq {cutoff : Nat} (heights : List Nat) (hne : heights ≠ []) :
    removed cutoff (some heights) ++ (pruned cutoff (some heights)).getD [] = heights ∧
      (removed cutoff (some heights) = [] → pruned cutoff (some heights) = some heights) := by
  have hsplit := takeWhile_append_dropWhile (p := (· ≤ cutoff)) (l := heights)
  have hkept : (pruned cutoff (some heights)).getD [] = heights.dropWhile (· ≤ cutoff) := by
    simp only [pruned]
    split
    · rename_i hempty
      exact hempty.symm
    · rfl
  refine ⟨by rw [hkept]; exact hsplit, fun hnone => ?_⟩
  rw [show heights.takeWhile (· ≤ cutoff) = [] from hnone, nil_append] at hsplit
  simp only [pruned, hsplit, if_neg hne]

theorem pruned_undo {heights : List Nat} :
    (script, heights) ∈ (indexMinerCoinbase C X chain b miners).2.pruned ↔
      script ∈ retiringScripts X chain b.height ∧ heights ≠ [] ∧
        heights = removed (cutoffOf b) (paidHeights X b miners script) := by
  simp only [indexMinerCoinbase]
  rw [(pruneAll_spec (retiringScripts_nodup X chain b.height) _).2, append_nil, mem_reverse,
    mem_filterMap]
  simp only [lookup_pushAll]
  constructor
  · rintro ⟨script', hmem, hsome⟩
    split_ifs at hsome with hne
    cases hsome
    exact ⟨hmem, hne, rfl⟩
  · rintro ⟨hmem, hne, rfl⟩
    exact ⟨script, hmem, if_neg hne⟩

theorem pruned_undo_nodup : ((indexMinerCoinbase C X chain b miners).2.pruned.map Prod.fst).Nodup := by
  simp only [indexMinerCoinbase]
  rw [(pruneAll_spec (retiringScripts_nodup X chain b.height) _).2, append_nil, map_reverse,
    nodup_reverse]
  refine (retiringScripts_nodup X chain b.height).sublist ?_
  generalize retiringScripts X chain b.height = scripts
  induction scripts with
  | nil => simp
  | cons script rest ih =>
    rw [filterMap_cons]
    split
    · rename_i hnone
      exact ih.cons _
    · rename_i pair hsome
      have hfst : pair.1 = script := by
        simp only at hsome
        split_ifs at hsome
        cases hsome
        rfl
      rw [map_cons, hfst]
      exact ih.cons_cons _

theorem lookup_paid (h : script ∈ minerScripts X b) :
    (indexMinerCoinbase C X chain b miners).1.lookup script =
      some ((if script ∈ retiringScripts X chain b.height then
        ((miners.lookup script).getD []).dropWhile (· ≤ cutoffOf b)
        else (miners.lookup script).getD []) ++ [b.height]) := by
  rw [lookup_indexMiner, paidHeights, if_pos h]
  by_cases hretire : script ∈ retiringScripts X chain b.height
  · have hdrop := (dropWhile_snoc (cutoffOf_lt hretire) ((miners.lookup script).getD [])).1
    rw [if_pos hretire, if_pos hretire, pushed, pruned, hdrop]
    simp
  · rw [if_neg hretire, if_neg hretire, pushed]

theorem popped_lookup (h : NoneIdle miners) :
    (if script ∈ minerScripts X b then popped ((indexMinerCoinbase C X chain b miners).1.lookup script)
      else (indexMinerCoinbase C X chain b miners).1.lookup script) =
      if script ∈ retiringScripts X chain b.height then pruned (cutoffOf b) (miners.lookup script)
      else miners.lookup script := by
  have hidle := h script
  by_cases hpaid : script ∈ minerScripts X b
  · rw [if_pos hpaid, lookup_paid hpaid]
    by_cases hretire : script ∈ retiringScripts X chain b.height
    · rw [if_pos hretire, if_pos hretire]
      cases hlookup : miners.lookup script with
      | none | some heights => simp [popped, pruned]
    · rw [if_neg hretire, if_neg hretire]
      cases hlookup : miners.lookup script with
      | none => simp [popped]
      | some heights =>
        have hne : heights ≠ [] := by
          rintro rfl
          exact hidle hlookup
        simp [popped, hne]
  · rw [if_neg hpaid, lookup_indexMiner, paidHeights, if_neg hpaid]

theorem removed_paid (hretire : script ∈ retiringScripts X chain b.height) :
    removed (cutoffOf b) (paidHeights X b miners script) = removed (cutoffOf b) (miners.lookup script) := by
  unfold paidHeights
  split
  · exact (dropWhile_snoc (cutoffOf_lt hretire) _).2
  · rfl

theorem undoMiner_index (h : NoneIdle miners) :
    undoMinerCoinbase C b (indexMinerCoinbase C X chain b miners).2 (indexMinerCoinbase C X chain b miners).1 =
      some miners := by
  have hlast : ∀ script ∈ minerScripts X b,
      (((indexMinerCoinbase C X chain b miners).1.lookup script).getD []).getLast? = some b.height := by
    intro script hscript
    rw [lookup_paid hscript]
    simp
  have hcheck : (indexMinerCoinbase C X chain b miners).2.height = b.height ∧
      (indexMinerCoinbase C X chain b miners).2.hash = b.getHash C ∧
      ∀ script ∈ (indexMinerCoinbase C X chain b miners).2.incremented,
        (((indexMinerCoinbase C X chain b miners).1.lookup script).getD []).getLast? = some b.height :=
    ⟨rfl, rfl, hlast⟩
  rw [undoMinerCoinbase, if_pos hcheck, Option.some.injEq]
  refine Finmap.ext_lookup fun script => ?_
  have hpopped : ((minerScripts X b).reverse.foldl popHeight
      (indexMinerCoinbase C X chain b miners).1).lookup script =
      if script ∈ retiringScripts X chain b.height then pruned (cutoffOf b) (miners.lookup script)
      else miners.lookup script := by
    rw [lookup_foldl_pointwise lookup_popHeight (nodup_reverse.mpr (minerScripts_nodup X b)),
      ← popped_lookup h]
    simp only [mem_reverse]
    split_ifs <;> rfl
  have hincremented : (indexMinerCoinbase C X chain b miners).2.incremented = minerScripts X b := rfl
  by_cases hkept : ∃ heights, (script, heights) ∈ (indexMinerCoinbase C X chain b miners).2.pruned
  · obtain ⟨heights, hmem⟩ := hkept
    obtain ⟨hretire, hne, heq⟩ := pruned_undo.mp hmem
    rw [removed_paid hretire] at heq
    refine (lookup_foldl_of_mem lookup_restoreHeights pruned_undo_nodup hmem _).trans ?_
    rw [hincremented, hpopped, if_pos hretire, restored]
    cases hlookup : miners.lookup script with
    | none =>
      rw [hlookup] at heq
      exact absurd heq hne
    | some old =>
      have hold : old ≠ [] := by
        rintro rfl
        exact h script hlookup
      rw [heq, hlookup, (pruned_eq old hold).1]
  · have hnotMem : script ∉ (indexMinerCoinbase C X chain b miners).2.pruned.map Prod.fst := by
      intro hmem
      obtain ⟨⟨script', heights⟩, hpair, rfl⟩ := mem_map.mp hmem
      exact hkept ⟨heights, hpair⟩
    refine (lookup_foldl_of_notMem lookup_restoreHeights hnotMem _).trans ?_
    rw [hincremented, hpopped]
    split
    · rename_i hretire
      -- nothing was removed, so nothing changed
      cases hlookup : miners.lookup script with
      | none => rfl
      | some old =>
        have hold : old ≠ [] := by
          rintro rfl
          exact h script hlookup
        refine (pruned_eq old hold).2 (Classical.byContradiction fun hne => hkept ⟨_, pruned_undo.mpr
          ⟨hretire, ?_, rfl⟩⟩)
        rwa [removed_paid hretire, hlookup]
    · rfl

theorem NoneIdle.index (h : NoneIdle miners) : NoneIdle (indexMinerCoinbase C X chain b miners).1 := by
  intro script hlookup
  rw [lookup_indexMiner] at hlookup
  have hpaid : paidHeights X b miners script ≠ some [] := by
    unfold paidHeights
    split
    · simp [pushed]
    · exact h script
  split at hlookup
  · cases hpay : paidHeights X b miners script with
    | none =>
      rw [hpay] at hlookup
      cases hlookup
    | some heights =>
      simp only [hpay, pruned] at hlookup
      split_ifs at hlookup with hne
      exact hne (Option.some.inj hlookup)
  · exact hpaid hlookup

end

end Veld.Chain
