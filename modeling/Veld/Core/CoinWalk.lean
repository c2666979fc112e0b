import Veld.Core.Conservation

/-!
# Outputs along the steps of a block

What the steps of an accepted block do to one output, and how the facts about a block split over its
transactions, so that a module that walks the transactions can be compared with the outputs.
-/

namespace Veld.Chain

open IndexedMap Wire List

/-- Steps that create new outpoints, each one once, and spend none of them. -/
structure Clean (coins : Coins) (steps : List CoinStep) : Prop where
  nodup : (createdKeys steps).Nodup
  fresh : ∀ k ∈ createdKeys steps, coins.entries.lookup k = none
  disjoint : ∀ k ∈ createdKeys steps, k ∉ spentKeys steps

theorem createdKeys_append (a b : List CoinStep) : createdKeys (a ++ b) = createdKeys a ++ createdKeys b := by
  simp [createdKeys, filterMap_append]

section
variable {coins coins' mid : Coins} {steps a b : List CoinStep} {k : OutPoint}

section
variable (h : steps.foldlM applyStep coins = some coins')
include h

theorem lookup_of_uncreated (hcreated : k ∉ createdKeys steps) :
    coins'.entries.lookup k = if k ∈ spentKeys steps then none else coins.entries.lookup k := by
  induction steps generalizing coins with
  | nil =>
    cases h
    rfl
  | cons step rest ih =>
    rw [foldlM_cons, bind_eq_some] at h
    obtain ⟨next, hnext, hrest⟩ := h
    cases step with
    | create u =>
      have hkeys : createdKeys (.create u :: rest) = u.key :: createdKeys rest := rfl
      rw [hkeys, mem_cons, not_or] at hcreated
      cases hnext
      rw [ih hrest hcreated.2, show spentKeys (.create u :: rest) = spentKeys rest from rfl]
      unfold insertUTXO
      split_ifs
      · rfl
      · rfl
      · rw [lookup_add, if_neg hcreated.1]
    | spend key spender =>
      rw [ih hrest hcreated, lookup_remove hnext,
        show spentKeys (.spend key spender :: rest) = key :: spentKeys rest from rfl]
      by_cases hrest : k ∈ spentKeys rest
      · simp [hrest]
      · simp [hrest]

theorem lookup_of_untouched (hcreated : k ∉ createdKeys steps) (hspent : k ∉ spentKeys steps) :
    coins'.entries.lookup k = coins.entries.lookup k := by
  rw [lookup_of_uncreated h hcreated, if_neg hspent]

theorem lookup_none_of_uncreated (hcreated : k ∉ createdKeys steps)
    (hnone : coins.entries.lookup k = none) : coins'.entries.lookup k = none := by
  rw [lookup_of_uncreated h hcreated, hnone, ite_self]

theorem lookup_of_created {u : Utxo} (hclean : Clean coins steps) (hmem : .create u ∈ steps)
    (hspendable : isOpReturn u.scriptPubkey = false) : coins'.entries.lookup u.key = some u := by
  obtain ⟨before, after, rfl⟩ := append_of_mem hmem
  rw [foldlM_append, bind_eq_some] at h
  obtain ⟨mid, -, hafter⟩ := h
  have hkeys : createdKeys (before ++ .create u :: after) = createdKeys before ++ u.key :: createdKeys after := by
    rw [createdKeys_append]
    rfl
  have hcreated : u.key ∉ createdKeys after := by
    have hnodup := hclean.nodup
    rw [hkeys] at hnodup
    exact (nodup_cons.mp (nodup_append.mp hnodup).2.1).1
  have hspent : u.key ∉ spentKeys after := fun hin => by
    refine hclean.disjoint u.key (by simp [hkeys]) ?_
    rw [spentKeys_append]
    exact mem_append_right _ hin
  have hstep : (.create u :: after : List CoinStep).foldlM applyStep mid =
      after.foldlM applyStep (insertUTXO u mid) := rfl
  rw [hstep] at hafter
  rw [lookup_of_untouched hafter hcreated hspent, insertUTXO, if_neg (by rw [hspendable]; decide), lookup_add,
    if_pos rfl]

end

theorem Clean.left (h : Clean coins (a ++ b)) : Clean coins a := by
  have hnodup := h.nodup
  rw [createdKeys_append] at hnodup
  have hmem {k : OutPoint} (hk : k ∈ createdKeys a) : k ∈ createdKeys (a ++ b) := by
    rw [createdKeys_append]
    exact mem_append_left _ hk
  refine ⟨(nodup_append.mp hnodup).1, fun k hk => h.fresh k (hmem hk), fun k hk hin => ?_⟩
  refine h.disjoint k (hmem hk) ?_
  rw [spentKeys_append]
  exact mem_append_left _ hin

theorem Clean.right (h : Clean coins (a ++ b)) (hfold : a.foldlM applyStep coins = some mid) : Clean mid b := by
  have hnodup := h.nodup
  rw [createdKeys_append] at hnodup
  obtain ⟨-, hb, hne⟩ := nodup_append.mp hnodup
  have hmem {k : OutPoint} (hk : k ∈ createdKeys b) : k ∈ createdKeys (a ++ b) := by
    rw [createdKeys_append]
    exact mem_append_right _ hk
  refine ⟨hb, fun k hk => ?_, fun k hk hin => ?_⟩
  · exact lookup_none_of_uncreated hfold (fun hin => hne k hin k hk rfl) (h.fresh k (hmem hk))
  · refine h.disjoint k (hmem hk) ?_
    rw [spentKeys_append]
    exact mem_append_right _ hin

end

section
variable {C : Crypto} {X : Custody} {R : TxRules} {engines : List Block → Engines} {l l' : Ledger} {b : Block}

theorem acceptBlock_clean (hl : l.Sound) (h : acceptBlock C X R engines l b = some l') :
    Clean l.coins (blockSteps C b) := by
  obtain ⟨hbal, hcommitted⟩ := acceptBlock_balanced hl h
  obtain ⟨hnodup, hfresh⟩ := createsFresh_spec hcommitted.fresh
  exact ⟨hnodup, fun k hk => (hfresh k hk).2, hbal.disjoint hcommitted⟩

theorem lookup_output_zero {coins coins' : Coins} {height i : Nat} {tx : Transaction} {out : TxOutput}
    (h : (coinSteps C height i tx).foldlM applyStep coins = some coins')
    (hclean : Clean coins (coinSteps C height i tx))
    (hout : tx.outputs.head? = some out) (hspendable : isOpReturn out.scriptPubkey = false) :
    (tx.getTxID C, 0) ∈ createdKeys (coinSteps C height i tx) ∧
      coins'.entries.lookup (tx.getTxID C, 0) =
        some ⟨tx.getTxID C, 0, out.value, out.scriptPubkey, height, tx.isCoinbase⟩ := by
  obtain ⟨rest, houts⟩ := List.head?_eq_some_iff.mp hout
  have hmem : .create ⟨tx.getTxID C, 0, out.value, out.scriptPubkey, height, tx.isCoinbase⟩ ∈
      coinSteps C height i tx := by
    refine mem_append_left _ (mem_filterMap.mpr ⟨(out, 0), ?_, ?_⟩)
    · rw [houts]
      exact mem_cons_self
    · simp only [isProvablyUnspendableOutput, hspendable, Bool.false_eq_true, if_false]
      rfl
  exact ⟨mem_filterMap.mpr ⟨_, hmem, rfl⟩, lookup_of_created h hclean hmem hspendable⟩

end

end Veld.Chain
