import Veld.Consensus.AnchorFloor

/-!
# Finality over forks

The node follows blocks on its tip and moves to other branches. Two gates of `node/node.h` stand before a move:
how deep it may go, and what the finality state of the replayed branch must still say.
-/

namespace Veld.Anchors

open Wire Finality List

section
variable {K : Context} {b : BlockInput} {n n' base : Node} {history : List Nat}

abbrev Extends (K : Context) : Node → Node → Prop := Relation.ReflTransGen fun n n' => ∃ b, Step K b n n'

/-- A block on the tip, or a reorganisation over the last block of `base` to a branch that was replayed from
there, with `finality_reorg_gate_` and `finality_reorg_retention_gate_` open. -/
inductive Moves (K : Context) (n : Node) : Node → Prop
  | block {b : BlockInput} {n' : Node} (h : Step K b n n') : Moves K n n'
  | reorg {base n' : Node} {history : List Nat} (reached : Reached K base history) (old : Extends K base n)
    (new : Extends K base n') (gate : n.finality.requiredReorgAncestor < base.chain.length)
    (retains : n.finality.candidateRetainsFinality n'.finality
      (fun r => n'.chain[r.height.toNat]? = some r.hash) = true) : Moves K n n'

/-- A record that changes in a block is carried by that block. -/
theorem Step.record (h : Step K b n n') :
    n'.finality.record = n.finality.record ∨ n'.finality.record.carrier.height.toNat = n.chain.length := by
  obtain ⟨f₂, f₃, s₃, hcert, hpromote, hsnap, -⟩ := applyBlock_eq_some h.applied
  obtain ⟨⟨flag, rfl⟩, -⟩ := promoteFinalizedAnchors_eq_some hpromote
  have hlast : n'.finality.record = f₂.record := (maybeSnapshotEpoch_record hsnap).trans rfl
  have hfirst : (n.finality.onBlockHeight n.chain.length).record = n.finality.record := by
    unfold FinalityState.onBlockHeight
    split_ifs <;> rfl
  rw [hlast, ← hfirst]
  unfold FinalityState.feedFinalityCerts at hcert
  cases hb : b.cert with
  | none =>
    rw [hb] at hcert
    cases hcert
    exact .inl rfl
  | some d =>
    simp only [hb, bind_eq_some, Option.guard_eq_some', exists_const] at hcert
    obtain ⟨-, s, -, d', -, canonical, -, -, hcert⟩ := hcert
    obtain ⟨s, -, candidate, hfinal, -, -, rfl⟩ := onCertificate_eq_some hcert
    right
    rw [(finalize_eq_some hfinal).2.2.1]
    exact Nat.mod_eq_of_lt h.fits

theorem Node.Inv.extends (h : base.Inv K) (hext : Extends K base n) :
    n.Inv K ∧ base.chain <+: n.chain ∧ base.finality.finalizedHeight ≤ n.finality.finalizedHeight ∧
      (n.finality.record = base.finality.record ∨
        base.chain.length ≤ n.finality.record.carrier.height.toNat) := by
  induction hext with
  | refl => exact ⟨h, List.prefix_rfl, le_rfl, .inl rfl⟩
  | tail _ hstep ih =>
    obtain ⟨b, hstep⟩ := hstep
    obtain ⟨hinv, hchain, hheight, hrecord⟩ := ih
    obtain ⟨hinv', heffect⟩ := hinv.step hstep
    obtain ⟨-, -, -, -, -, -, hnext, -⟩ := applyBlock_eq_some hstep.applied
    refine ⟨hinv', hnext ▸ hchain.trans ( List.prefix_append _ _), hheight.trans heffect.finalized, ?_⟩
    obtain hsame | hcarrier := hstep.record
    · rwa [hsame]
    · exact .inr (hcarrier ▸ hchain.length_le)

/-- The retention gate: the branch is at least as final as what it replaces. -/
theorem finalized_le_of_retains
    (hrecord : n.finality.record = base.finality.record ∨ base.chain.length ≤ n.finality.record.carrier.height.toNat)
    (hbase : base.finality.finalizedHeight ≤ n'.finality.finalizedHeight)
    (hgate : n.finality.requiredReorgAncestor < base.chain.length) {branchHas : CheckpointRef → Bool}
    (hretains : n.finality.candidateRetainsFinality n'.finality branchHas) :
    n.finality.finalizedHeight ≤ n'.finality.finalizedHeight := by
  cases hnull : n.finality.record.isNull with
  | true =>
    rw [FinalityState.finalizedHeight, if_pos hnull]
    exact Nat.zero_le _
  | false =>
    unfold FinalityState.requiredReorgAncestor at hgate
    unfold FinalityState.candidateRetainsFinality at hretains
    cases hup : consensusSecurityUpgradeActive n.finality.record.carrier.height.toNat with
    | false =>
      -- a pinned carrier lies on the common part, so the record is the one of the ancestor
      simp only [hnull, hup, Bool.false_eq_true, if_false] at hgate
      rw [finalizedHeight_congr (hrecord.resolve_right hgate.not_ge)]
      exact hbase
    | true =>
      simp only [hnull, hup, Bool.false_or, Bool.not_true, Bool.false_eq_true, if_false, Bool.and_eq_true,
        Bool.not_eq_true', decide_eq_true_eq] at hretains
      obtain ⟨-, ⟨hsome, hle⟩, -⟩ := hretains
      simp only [FinalityState.finalizedHeight, hnull, hsome, Bool.false_eq_true, if_false]
      exact hle

/-- What is finalized stays finalized. Over any sequence of blocks and reorganisations the finalized height does
not fall, and a block that was finalized stays in the chain at its height. -/
theorem finality_survives_reorgs (h : Reached K n history)
    (hmoves : Relation.ReflTransGen (Moves K) n n') :
    n.finality.finalizedHeight ≤ n'.finality.finalizedHeight ∧
      (n.finality.record.isNull = false →
        n'.chain[n.finality.finalizedHeight]? = some n.finality.record.target.hash) := by
  have hrun : n'.Inv K ∧ n.finality.finalizedHeight ≤ n'.finality.finalizedHeight ∧
      (n.finality.record.isNull = false →
        n'.chain[n.finality.finalizedHeight]? = some n.finality.record.target.hash) := by
    induction hmoves with
    | refl =>
      have hinv := h.inv.1
      refine ⟨hinv, le_rfl, fun hnull => ?_⟩
      rw [FinalityState.finalizedHeight, hnull]
      exact (hinv.sound.record hnull).target
    | tail _ hmove ih =>
      obtain ⟨hinv, hheight, hkept⟩ := ih
      cases hmove with
      | block hstep =>
        obtain ⟨hinv', ⟨t, ht⟩, hup, -⟩ := hinv.extends (.single ⟨_, hstep⟩)
        refine ⟨hinv', hheight.trans hup, fun hnull => ?_⟩
        have hget := hkept hnull
        rw [← ht, List.getElem?_append_left (List.getElem?_eq_some_iff.mp hget).1]
        exact hget
      | reorg reached old new gate retains =>
        obtain ⟨-, ⟨t, ht⟩, -, hrecord⟩ := reached.inv.1.extends old
        obtain ⟨hinv', ⟨t', ht'⟩, hup, -⟩ := reached.inv.1.extends new
        refine ⟨hinv', hheight.trans (finalized_le_of_retains hrecord hup gate retains), fun hnull => ?_⟩
        -- the block lies at or below the ancestor that the first gate asks for
        have hbelow := (hheight.trans hinv.sound.required.1).trans_lt gate
        have hget := hkept hnull
        rw [← ht, List.getElem?_append_left hbelow] at hget
        rw [← ht', List.getElem?_append_left hbelow]
        exact hget
  exact hrun.2

end

/-- A block above the finalized one that carries nothing. -/
def sampleFork (hash : Hash256) : Node :=
  ⟨sampleChain 1462 ++ [hash], sampleNode.finality, { samplePromoted with retainFrom := 462 }⟩

theorem sampleNode_chain : sampleNode.chain = sampleChain 1462 := by rw [sampleNode]

theorem sampleNode_anchors : sampleNode.anchors = samplePromoted := by rw [sampleNode]

theorem samplePromoted_advance :
    advanceHeight sampleContext 1462 samplePromoted = { samplePromoted with retainFrom := 462 } := by
  have hkept : sortedKeys samplePromoted.anchored (fun height _ => height < 1462 - acceptWindow) = [] :=
    sortedKeys_singleton
  unfold advanceHeight
  dsimp only
  rw [if_neg (by decide), hkept]
  rfl

theorem samplePromoted_idle {p : Nat → Entry → Bool} :
    sortedKeys ({ samplePromoted with retainFrom := 462 } : AnchorSet).pending p = [] := by
  have hpending : samplePromoted.pending = ∅ := (installAnchor_parts _ _ _ _).1.trans (AList.ext rfl)
  dsimp only
  rw [hpending, sortedKeys_empty]

theorem sampleFork_step {hash : Hash256} (h : hash ≠ .zero) :
    Step sampleContext { sampleBlock 1462 with hash := hash } sampleNode (sampleFork hash) where
  fits := by
    rw [sampleNode, sampleChain_length]
    decide
  hash := h
  txids _ hr := absurd hr not_mem_nil
  roots := sampleFinality_roots
  commit := sample_makes_permanent.commit
  applied := by
    simp only [applyBlock, sampleBlock, sampleNode_chain, sampleNode_anchors, sampleChain_length,
      sampleFinality_height (show 1462 < 2880 by decide), feedAnchors_nil,
      samplePromoted_advance, FinalityState.feedFinalityCerts, some_bind,
      promoteFinalizedAnchors_idle samplePromoted_idle,
      sampleFinalized_snapshot (show 1459 ≤ 1462 ∧ 1462 < 1919 by decide),
      Option.pure_def, sampleFork]

/-- Two blocks at height 1462, over a chain whose block 1460 is finalized. -/
theorem finality_survives_reorgs_fork : ∃ n n', Moves sampleContext n n' ∧ n.chain ≠ n'.chain ∧
    n.finality.record.isNull = false ∧ n.finality.finalizedHeight = 1460 ∧ 1460 ≤ n'.finality.finalizedHeight ∧
    n'.chain[1460]? = some (sampleHash 1460) := by
  have hold := sampleFork_step (sampleHash_ne_zero 1462)
  have hnew := sampleFork_step (show Hash256.fill 4 ≠ .zero by decide)
  obtain ⟨history, hstaged⟩ := sample_staged
  have hbase := hstaged.block sample_makes_permanent
  obtain ⟨-, -, -, -, -, -, -, hrequired, hheight, -⟩ := sample_facts
  have hgate : sampleNode.finality.requiredReorgAncestor < sampleNode.chain.length := by
    rw [hrequired, sampleNode_chain, sampleChain_length]
    decide
  have hmove : Moves sampleContext (sampleFork (sampleHash 1462)) (sampleFork (.fill 4)) :=
    .reorg hbase (.single ⟨_, hold⟩) (.single ⟨_, hnew⟩) hgate (by decide +kernel)
  have hne : sampleChain 1462 ++ [sampleHash 1462] ≠ sampleChain 1462 ++ [Hash256.fill 4] := fun heq =>
    absurd (cons.inj (append_cancel_left heq)).1 (by decide)
  obtain ⟨hup, hkept⟩ := finality_survives_reorgs (hbase.block hold) (.single hmove)
  rw [sampleFork, hheight] at hup hkept
  exact ⟨_, _, hmove, hne, rfl, hheight, hup, hkept rfl⟩

end Veld.Anchors
