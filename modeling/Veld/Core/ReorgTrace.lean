import Veld.Core.Reorg

/-!
# Reorganisations that are not kept

A reorganisation that is not kept has pushed the records of its candidates through the bounded undo queues.
-/

namespace Veld.Chain

open Wire List

section
variable {C : Crypto} {X : Custody} {st st' : State} {b : Block}

/-- An attempt that was not kept has restored the ledger and every depth it could go back to. -/
def Reorg.LeavesNoTrace (C : Crypto) (st : State) : Reorg → Prop
  | .restored _ st' => st'.ledger = st.ledger ∧
      ∀ depth, undoHorizon C st depth → undoHorizon C st' depth
  | .stuck => False
  | .refused _ | .framePending | .adopted _ => True

/-- The blocks are numbered from the bottom of the chain. -/
def Numbered : List Block → Prop
  | [] => True
  | b :: rest => b.height = rest.length ∧ Numbered rest

theorem Numbered.lt_height {tail below : List Block} {ancestor : Block} (h : Numbered (tail ++ ancestor :: below)) :
    ∀ b ∈ tail, ancestor.height < b.height := by
  induction tail with
  | nil => exact forall_mem_nil _
  | cons b rest ih =>
    rw [cons_append] at h
    obtain ⟨hb, hrest⟩ := h
    have hancestor : ∀ blocks : List Block, Numbered (blocks ++ ancestor :: below) →
        ancestor.height = below.length := by
      intro blocks hblocks
      induction blocks with
      | nil => exact hblocks.1
      | cons _ _ ih' => exact ih' hblocks.2
    intro b' hb'
    rcases mem_cons.mp hb' with rfl | hmem
    · rw [hb, hancestor rest hrest, length_append, length_cons]
      omega
    · exact ih hrest b' hmem

theorem le_height_of_linkedFrom {prev : Hash256} {height : Nat} {blocks : List Block}
    (h : linkedFrom C prev height blocks) : ∀ b ∈ blocks, height ≤ b.height := by
  induction blocks generalizing prev height with
  | nil => exact forall_mem_nil _
  | cons b rest ih =>
    simp only [linkedFrom, Bool.and_eq_true, decide_eq_true_eq] at h
    obtain ⟨⟨hb, -⟩, hrest⟩ := h
    intro b' hb'
    rcases mem_cons.mp hb' with rfl | hmem
    · exact hb.ge
    · exact Nat.le_of_succ_le (ih hrest b' hmem)

/-- The ledger after the blocks, as long as each is valid where it stands. -/
def validOnto (C : Crypto) (X : Custody) (valid : Ledger → Block → Bool) (l : Ledger) (blocks : List Block) :
    Option Ledger :=
  blocks.foldlM (fun l b => if valid l b then commitLedger C X l b else none) l

structure Midway (C : Crypto) (X : Custody) (st : State) (tail : List Block) (ancestor : Block)
    (below : List Block) (mid : State) (above : List Block) : Prop where
  ready : mid.Ready C X
  chain : mid.ledger.chain = above ++ ancestor :: below
  higher : ∀ b ∈ above, ancestor.height < b.height
  records : above.length ≤ mid.canonicalUndo.length
  kept : ∀ depth, undoHorizon C st depth →
    depth ≤ mid.canonicalUndo.length - above.length + tail.length

section
variable {tip ancestor : Block} {tail below above : List Block} {mid : State}
  {valid : Ledger → Block → Bool}

theorem Midway.noTrace (h : st.Ready C X) (hold : st.ledger.chain = tail ++ ancestor :: below)
    (htip : st.ledger.chain.head? = some tip) (hm : Midway C X st tail ancestor below mid above)
    (d : ReorgDisposition) :
    (restoreAfterFailure C X (frameOf C tip ancestor tail) d mid).LeavesNoTrace C st := by
  obtain ⟨st', hst', hready, hledger, hlength⟩ :=
    restoreFrame_some h hold htip hm.ready hm.chain hm.higher hm.records
  simp only [restoreAfterFailure, hst', Reorg.LeavesNoTrace]
  refine ⟨hledger, fun depth hdepth => ?_⟩
  have hkept := hm.kept depth hdepth
  obtain ⟨hmax, hchain, -⟩ := h.undoHorizon_iff.mp hdepth
  refine hready.undoHorizon_iff.mpr ⟨hmax, by rwa [hledger], ?_⟩
  rw [hlength]
  omega

theorem disconnectOld_noTrace (env : ReorgEnv) (h : st.Ready C X)
    (hold : st.ledger.chain = tail ++ ancestor :: below) (htip : st.ledger.chain.head? = some tip)
    (hm : Midway C X st tail ancestor below mid above) (i : Nat) :
    match disconnectOld C X env (frameOf C tip ancestor tail) above.length i mid with
    | .error result => result.LeavesNoTrace C st
    | .ok mid' => Midway C X st tail ancestor below mid' [] ∧
        mid'.canonicalUndo.length = mid.canonicalUndo.length - above.length := by
  induction above generalizing mid i with
  | nil => exact ⟨hm, rfl⟩
  | cons b rest ih =>
    have hrecords := hm.records
    rw [length_cons] at hrecords
    obtain ⟨next, hnext, hready, hchain, hlength⟩ := hm.ready.disconnect_some hm.chain (by omega)
    have hm' : Midway C X st tail ancestor below next rest := by
      refine ⟨hready, hchain, fun b' hb' => hm.higher b' (mem_cons_of_mem _ hb'), by omega, ?_⟩
      intro depth hdepth
      have hkept := hm.kept depth hdepth
      rw [length_cons] at hkept
      omega
    have hstep := ih hm' (i + 1)
    simp only [length_cons, disconnectOld, hnext]
    by_cases hclean : env.cleaned i = true
    · rw [if_pos hclean]
      have hsub : next.canonicalUndo.length - rest.length = mid.canonicalUndo.length - (rest.length + 1) := by
        omega
      rwa [hsub] at hstep
    · rw [if_neg hclean]
      exact hm'.noTrace h hold htip _

/-- One more candidate on top keeps the restore possible, as long as the branch is short enough. -/
theorem Midway.commit {mid' : State} (h : st.Ready C X)
    (hhorizon : undoHorizon C st tail.length)
    (hm : Midway C X st tail ancestor below mid above) (hlength : mid.canonicalUndo.length =
      min (st.canonicalUndo.length - tail.length + above.length) (maxReorgDepth + 1))
    (hb : ancestor.height < b.height) (hcommit : commitBlock C X mid b = some mid')
    (hfits : ∀ depth, undoHorizon C st depth →
      above.length + 1 + depth ≤ tail.length + maxReorgDepth + 1) :
    Midway C X st tail ancestor below mid' (b :: above) ∧
      mid'.canonicalUndo.length =
        min (st.canonicalUndo.length - tail.length + (above.length + 1)) (maxReorgDepth + 1) := by
  obtain ⟨hready, hchain, hlength'⟩ := hm.ready.commit hcommit
  have hself := hfits _ hhorizon
  obtain ⟨-, -, htail⟩ := h.undoHorizon_iff.mp hhorizon
  have hundo : mid'.canonicalUndo.length =
      min (st.canonicalUndo.length - tail.length + (above.length + 1)) (maxReorgDepth + 1) := by
    omega
  refine ⟨⟨hready, by rw [hchain, hm.chain]; rfl, ?_, ?_, ?_⟩, hundo⟩
  · intro b' hb'
    rcases mem_cons.mp hb' with rfl | hmem
    · exact hb
    · exact hm.higher b' hmem
  · rw [length_cons]
    omega
  · intro depth hdepth
    have hroom := hfits depth hdepth
    obtain ⟨-, -, hdepth'⟩ := h.undoHorizon_iff.mp hdepth
    rw [length_cons]
    omega

variable {alt : List Block}

section
variable (env : ReorgEnv) (h : st.Ready C X) (hold : st.ledger.chain = tail ++ ancestor :: below)
  (htip : st.ledger.chain.head? = some tip)
include env h hold htip

theorem applyAlt_noTrace (hhorizon : undoHorizon C st tail.length)
    (hhigher : ∀ b ∈ alt, ancestor.height < b.height)
    (hm : Midway C X st tail ancestor below mid above) (hlength : mid.canonicalUndo.length =
      min (st.canonicalUndo.length - tail.length + above.length) (maxReorgDepth + 1))
    (hfits : ∀ n ≤ alt.length, (validOnto C X valid mid.ledger (alt.take n)).isSome →
      ∀ depth, undoHorizon C st depth → above.length + n + depth ≤ tail.length + maxReorgDepth + 1)
    (i : Nat) :
    match applyAlt C X valid env (frameOf C tip ancestor tail) alt i mid with
    | .error result => result.LeavesNoTrace C st
    | .ok mid' => ∃ above', Midway C X st tail ancestor below mid' above' := by
  induction alt generalizing mid above i with
  | nil => exact ⟨above, hm⟩
  | cons b rest ih =>
    have hback := fun d => hm.noTrace h hold htip d
    rw [applyAlt]
    -- the block may be put off, invalid, refused by the overlay or refused by the commit
    rcases hverdict : replayVerdict valid (env.deferred i) mid.ledger b with _ | _ | _
    · have hvalid : valid mid.ledger b = true := by
        unfold replayVerdict at hverdict
        split_ifs at hverdict with hdeferred hvalid
        exact hvalid
      by_cases hadvanced : env.overlayAdvanced i = true
      · simp only [if_pos hadvanced]
        rcases hcommit : commitBlock C X mid b with _ | next
        · exact hback _
        · have hledger : commitLedger C X mid.ledger b = some next.ledger :=
            commitLedger_eq_some.mpr (commitBlock_eq_some hcommit).1
          have hnext : ∀ n, validOnto C X valid mid.ledger ((b :: rest).take (n + 1)) =
              validOnto C X valid next.ledger (rest.take n) := by
            intro n
            simp [validOnto, hvalid, hledger]
          have hone : (validOnto C X valid mid.ledger ((b :: rest).take 1)).isSome = true := by
            rw [hnext 0]
            rfl
          obtain ⟨hm', hlength'⟩ := hm.commit h hhorizon hlength (hhigher b mem_cons_self) hcommit
            (hfits 1 (by simp) hone)
          refine ih (fun b' hb' => hhigher b' (mem_cons_of_mem _ hb')) hm' hlength' ?_ (i + 1)
          intro n hn hsome depth hdepth
          have hroom := hfits (n + 1) (Nat.succ_le_succ hn) (by rwa [hnext n]) depth hdepth
          rw [length_cons]
          omega
      · simp only [if_neg hadvanced]
        exact hback _
    · exact hback _
    · exact hback _

theorem finishReorg_noTrace (hm : Midway C X st tail ancestor below mid above) :
    (finishReorg C X env (frameOf C tip ancestor tail) mid).LeavesNoTrace C st := by
  have hback := fun d => hm.noTrace h hold htip d
  unfold finishReorg
  split_ifs
  · exact hback _
  · exact hback _
  · exact hback _
  · exact hback _
  · trivial

theorem attemptReorg_noTrace (hnumbered : Numbered st.ledger.chain)
    (hhorizon : undoHorizon C st tail.length)
    (hhigher : ∀ b ∈ alt, ancestor.height < b.height) {base : Ledger}
    (hbase : replay C X (ancestor :: below) = some base)
    (hfits : ∀ n ≤ alt.length, (validOnto C X valid base (alt.take n)).isSome →
      ∀ depth, undoHorizon C st depth → n + depth ≤ tail.length + maxReorgDepth + 1) :
    (attemptReorg C X valid env (frameOf C tip ancestor tail) alt st).LeavesNoTrace C st := by
  obtain ⟨-, -, htail⟩ := h.undoHorizon_iff.mp hhorizon
  have hstart : Midway C X st tail ancestor below st tail := by
    refine ⟨h, hold, ?_, htail, ?_⟩
    · rw [hold] at hnumbered
      exact hnumbered.lt_height
    · intro depth hdepth
      obtain ⟨-, -, hdepth'⟩ := h.undoHorizon_iff.mp hdepth
      omega
  have hcount : (frameOf C tip ancestor tail).oldTail.length = tail.length := length_reverse
  have hdisconnected := disconnectOld_noTrace env h hold htip hstart 0
  rw [attemptReorg, hcount]
  split
  · rename_i result heq
    rw [heq] at hdisconnected
    exact hdisconnected
  · rename_i mid heq
    rw [heq] at hdisconnected
    obtain ⟨hm, hlength⟩ := hdisconnected
    have hledger : mid.ledger = base := by
      have hreplay := hm.ready.consistent.ledger
      rw [hm.chain, nil_append, hbase] at hreplay
      exact (Option.some.inj hreplay).symm
    have hbounded := h.bounded
    have hlength' : mid.canonicalUndo.length =
        min (st.canonicalUndo.length - tail.length + ([] : List Block).length) (maxReorgDepth + 1) := by
      rw [hlength, length_nil]
      omega
    have hfits' : ∀ n ≤ alt.length, (validOnto C X valid mid.ledger (alt.take n)).isSome →
        ∀ depth, undoHorizon C st depth →
          ([] : List Block).length + n + depth ≤ tail.length + maxReorgDepth + 1 := by
      intro n hn hsome depth hdepth
      rw [length_nil, Nat.zero_add]
      exact hfits n hn (by rwa [← hledger]) depth hdepth
    have happlied := applyAlt_noTrace env h hold htip hhorizon hhigher hm hlength' hfits' 0
    split_ifs
    · split
      · rename_i result heq'
        rw [heq'] at happlied
        exact happlied
      · rename_i mid' heq'
        rw [heq'] at happlied
        obtain ⟨above', hm'⟩ := happlied
        exact finishReorg_noTrace env h hold htip hm'
    · exact hm.noTrace h hold htip _

end

/-! ## A branch that is put off late -/

/-- An attempt in which nothing goes wrong before the block of this position, which is put off; without
such a block finality is not retained. -/
def putOffAt (position : Nat) : ReorgEnv where
  retryReady := true
  framePending := false
  gatesOpen := true
  provenance := true
  cleaned _ := true
  overlayBuilt := true
  deferred i := i = position
  overlayAdvanced _ := true
  retainsFinality := false
  validationOnly := false
  bodiesWritten := true
  durable := true

theorem disconnectOld_putOff (position : Nat) (frame : RollbackFrame) (h : mid.Ready C X)
    (hchain : mid.ledger.chain = above ++ below) (hundo : above.length ≤ mid.canonicalUndo.length) (i : Nat) :
    ∃ mid', disconnectOld C X (putOffAt position) frame above.length i mid = .ok mid' ∧ mid'.Ready C X ∧
      mid'.ledger.chain = below ∧ mid'.canonicalUndo.length = mid.canonicalUndo.length - above.length := by
  induction above generalizing mid i with
  | nil => exact ⟨mid, rfl, h, hchain, rfl⟩
  | cons b rest ih =>
    rw [length_cons] at hundo
    obtain ⟨next, hnext, hready, hrest, hlength⟩ := h.disconnect_some hchain (by omega)
    obtain ⟨mid', hmid', hready', hchain', hlength'⟩ := ih hready hrest (by omega) (i + 1)
    refine ⟨mid', ?_, hready', hchain', ?_⟩
    · simp only [length_cons, disconnectOld, hnext]
      exact hmid'
    · rw [hlength', hlength, length_cons]
      omega

theorem applyAlt_putOff (frame : RollbackFrame) {n i : Nat} (hn : n ≤ alt.length)
    (hvalid : (validOnto C X valid mid.ledger (alt.take n)).isSome) :
    ∃ mid', (alt.take n).foldlM (commitBlock C X) mid = some mid' ∧
      applyAlt C X valid (putOffAt (i + n)) frame alt i mid =
        if n < alt.length then .error (restoreAfterFailure C X frame .deferredLocalWork mid') else .ok mid' := by
  induction alt generalizing mid n i with
  | nil =>
    refine ⟨mid, ?_, rfl⟩
    rw [take_nil]
    rfl
  | cons b rest ih =>
    cases n with
    | zero =>
      refine ⟨mid, rfl, ?_⟩
      simp [applyAlt, replayVerdict, putOffAt]
    | succ n =>
      obtain ⟨l, hl⟩ := Option.isSome_iff_exists.mp hvalid
      simp only [validOnto, take_succ_cons, foldlM_cons, bind_eq_some] at hl
      obtain ⟨ledger, hledger, hrest⟩ := hl
      split_ifs at hledger with hb
      have hcommit : ∃ next, commitBlock C X mid b = some next ∧ next.ledger = ledger := by
        simp only [commitBlock, hledger, some_bind, Option.pure_def]
        exact ⟨_, rfl, rfl⟩
      obtain ⟨next, hnext, rfl⟩ := hcommit
      obtain ⟨mid', hmid', happly⟩ := ih (Nat.le_of_succ_le_succ hn)
        (Option.isSome_iff_exists.mpr ⟨l, hrest⟩)
      refine ⟨mid', ?_, ?_⟩
      · rw [take_succ_cons, foldlM_cons, hnext]
        exact hmid'
      · have hposition : i + 1 + n = i + (n + 1) := by omega
        have hnot : ¬ i = i + (n + 1) := by omega
        rw [hposition] at happly
        simp only [applyAlt, replayVerdict, putOffAt, hnot, decide_false, hb, hnext] at happly ⊢
        simpa using happly

theorem attemptReorg_putOff (frame : RollbackFrame) (h : st.Ready C X)
    (hold : st.ledger.chain = tail ++ below) (hcount : frame.oldTail.length = tail.length)
    (hundo : tail.length ≤ st.canonicalUndo.length) {base : Ledger}
    (hbase : replay C X below = some base) {n : Nat} (hn : n ≤ alt.length)
    (hvalid : (validOnto C X valid base (alt.take n)).isSome) :
    ∃ mid, attemptReorg C X valid (putOffAt n) frame alt st =
        restoreAfterFailure C X frame .deferredLocalWork mid ∧ mid.Ready C X ∧
      mid.ledger.chain = (alt.take n).reverse ++ below ∧ mid.canonicalUndo.length ≤ maxReorgDepth + 1 := by
  obtain ⟨start, hstart, hready, hchain, -⟩ := disconnectOld_putOff n frame h hold hundo 0
  have hledger : start.ledger = base := by
    have hreplay := hready.consistent.ledger
    rw [hchain, hbase] at hreplay
    exact (Option.some.inj hreplay).symm
  rw [← hledger] at hvalid
  obtain ⟨mid, hmid, happly⟩ := applyAlt_putOff (i := 0) frame hn hvalid
  obtain ⟨hready', hchain', -⟩ := hready.commitAll hmid
  rw [Nat.zero_add] at happly
  refine ⟨mid, ?_, hready', by rw [hchain', hchain], hready'.bounded⟩
  simp only [attemptReorg, hcount, hstart, happly]
  split_ifs
  · rfl
  · rfl
  · contradiction

/-- A reorganisation within the code's budgets that is not kept leaves no trace, however it ends, exactly
if no valid start of the candidate branch is so long that its records displace those of a depth the node
could go back to. -/
theorem reorg_leaves_no_trace_iff {ops : List ChainOp} (hrun : runOps C X State.empty ops = some st)
    (hnumbered : Numbered st.ledger.chain) {depth : Nat} (hdepth : undoHorizon C st depth)
    {ancestor : Block} (hancestor : st.ledger.chain[depth]? = some ancestor) {alt : List Block}
    (halt : branchAccepted C ancestor alt) {base : Ledger}
    (hbase : replay C X (st.ledger.chain.drop depth) = some base) :
    (∀ env, (reorganizeBounded C X valid env depth alt st).LeavesNoTrace C st) ↔
      ∀ n ≤ alt.length, (validOnto C X valid base (alt.take n)).isSome →
        ∀ d, undoHorizon C st d → n + d ≤ depth + maxReorgDepth + 1 := by
  have h := State.ready_empty.run hrun
  obtain ⟨hmax, hlt, hundo⟩ := h.undoHorizon_iff.mp hdepth
  have hdrop : st.ledger.chain.drop depth = ancestor :: st.ledger.chain.drop (depth + 1) := by
    obtain ⟨hlt', heq⟩ := List.getElem?_eq_some_iff.mp hancestor
    rw [← heq]
    exact drop_eq_getElem_cons hlt'
  have hold : st.ledger.chain = st.ledger.chain.take depth ++ ancestor :: st.ledger.chain.drop (depth + 1) := by
    rw [← hdrop, take_append_drop]
  have htail : (st.ledger.chain.take depth).length = depth := length_take_of_le hlt.le
  obtain ⟨tip, rest, hcons⟩ := exists_cons_of_length_pos (Nat.zero_lt_of_lt hlt)
  have htip : st.ledger.chain.head? = some tip := by rw [hcons, List.head?_cons]
  rw [hdrop] at hbase
  -- the attempt itself, once the checks before it have passed
  have hattempt : ∀ env : ReorgEnv, env.retryReady → env.framePending = false →
      env.gatesOpen → env.provenance →
      reorganizeBounded C X valid env depth alt st =
        attemptReorg C X valid env (frameOf C tip ancestor (st.ledger.chain.take depth)) alt st := by
    intro env hready hframe hgates hprovenance
    rw [reorganizeBounded, hancestor]
    simp [hcons, hready, hframe, hgates, hprovenance, hdepth, halt]
  constructor
  · intro hall n hn hvalid d hd
    have hcount : (frameOf C tip ancestor (st.ledger.chain.take depth)).oldTail.length =
        (st.ledger.chain.take depth).length := length_reverse
    obtain ⟨mid, hmid, hready, hchain, hbounded⟩ := attemptReorg_putOff _ h hold hcount
      (by rwa [htail]) hbase hn hvalid
    have hnone := hall (putOffAt n)
    rw [hattempt _ rfl rfl rfl rfl, hmid, restoreAfterFailure] at hnone
    split at hnone
    · rename_i restored hrestored
      obtain ⟨hledger, hkept⟩ := hnone
      obtain ⟨hready', kept, hrecords, hlength⟩ := restoreFrame_length hready hchain hrestored (by rw [hledger, ← hold])
      obtain ⟨-, -, hd'⟩ := hready'.undoHorizon_iff.mp (hkept d hd)
      rw [length_reverse, length_take_of_le hn] at hrecords
      rw [htail] at hlength
      omega
    · exact hnone.elim
  · intro hfits env
    have hhigher : ∀ b ∈ alt, ancestor.height < b.height := by
      simp only [branchAccepted, Bool.and_eq_true] at halt
      exact le_height_of_linkedFrom halt.1.2
    by_cases hready : env.retryReady ∧ env.framePending = false ∧ env.gatesOpen ∧
        env.provenance = true
    · rw [hattempt env hready.1 hready.2.1 hready.2.2.1 hready.2.2.2]
      exact attemptReorg_noTrace env h hold htip hnumbered (by rwa [htail]) hhigher hbase
        (by rwa [htail])
    · rw [reorganizeBounded, hancestor]
      simp only [hcons, hdepth, halt, Bool.not_true, Bool.false_eq_true, if_false]
      split_ifs with hback hframe hgates hprovenance
      · trivial
      · trivial
      · trivial
      · trivial
      · exact absurd ⟨by simpa using hback, by simpa using hframe, by simpa using hgates,
          by simpa using hprovenance⟩ hready

end

end

/-! A chain of two blocks and branches over its genesis. A branch of one block leaves no trace; one of
102 blocks that is put off at the end cannot be taken back, since the queues hold 101 records. -/

/-- Blocks with a coinbase of their own, each over the one before. -/
def sampleBranch (prev : Hash256) : Nat → Nat → List Block
  | _, 0 => []
  | height, count + 1 =>
    let b : Block := ⟨⟨UInt32.ofNat (2 * height), prev, .zero, 0, 0, 0⟩,
      [sampleCoinbase (UInt32.ofNat (2 * height)) 313926940], height⟩
    b :: sampleBranch (b.getHash Crypto.firstBytes) (height + 1) count

def sampleOps : List ChainOp := [.commit sampleGenesis, .commit sampleBlock]

theorem reorg_leaves_no_trace_iff_one :
    ∃ st, runOps Crypto.firstBytes Custody.sample State.empty sampleOps = some st ∧
      ∀ env, (reorganizeBounded Crypto.firstBytes Custody.sample (fun _ _ => true) env 1
        (sampleBranch (sampleGenesis.getHash Crypto.firstBytes) 1 1) st).LeavesNoTrace Crypto.firstBytes st := by
  have hrun : ((runOps Crypto.firstBytes Custody.sample State.empty sampleOps).map fun st =>
      undoHorizon Crypto.firstBytes st 1) = some true := by
    decide +kernel
  obtain ⟨st, hst, hhorizon⟩ := Option.map_eq_some_iff.mp hrun
  have hchain : st.ledger.chain = [sampleBlock, sampleGenesis] := by
    have hcommits := hst
    simp only [runOps, sampleOps, foldlM_cons, foldlM_nil, applyOp, bind_eq_some,
      pure_eq_some] at hcommits
    obtain ⟨first, hfirst, last, hlast, rfl⟩ := hcommits
    rw [(commitBlock_eq_some hlast).1.chain, (commitBlock_eq_some hfirst).1.chain]
    rfl
  have hbase : (replay Crypto.firstBytes Custody.sample [sampleGenesis]).isSome := by decide +kernel
  obtain ⟨base, hbase⟩ := Option.isSome_iff_exists.mp hbase
  have hancestor : st.ledger.chain[1]? = some sampleGenesis := by
    rw [hchain]
    rfl
  have hbase' : replay Crypto.firstBytes Custody.sample (st.ledger.chain.drop 1) = some base := by
    rw [hchain]
    exact hbase
  refine ⟨st, hst, ?_⟩
  refine (reorg_leaves_no_trace_iff hst ?_ hhorizon hancestor ?_ hbase').mpr ?_
  · rw [hchain]
    exact ⟨rfl, rfl, trivial⟩
  · decide +kernel
  · intro n hn _ d hd
    have hn' : n ≤ 1 := hn
    have hd' : d < 100 := by
      simp only [undoHorizon, Bool.and_eq_true, decide_eq_true_eq] at hd
      exact hd.1.1.1.1
    rw [maxReorgDepth]
    omega

def Reorg.goesThrough : Reorg → Bool
  | .stuck => false
  | _ => true

theorem reorg_restore_fails :
    ∃ st, runOps Crypto.firstBytes Custody.sample State.empty sampleOps = some st ∧
      ¬ (reorganizeBounded Crypto.firstBytes Custody.sample (fun _ _ => true) (putOffAt 102) 1
        (sampleBranch (sampleGenesis.getHash Crypto.firstBytes) 1 102) st).LeavesNoTrace Crypto.firstBytes st := by
  have hstuck : ((runOps Crypto.firstBytes Custody.sample State.empty sampleOps).map fun st =>
      (reorganizeBounded Crypto.firstBytes Custody.sample (fun _ _ => true) (putOffAt 102) 1
        (sampleBranch (sampleGenesis.getHash Crypto.firstBytes) 1 102) st).goesThrough) = some false := by
    decide +kernel
  obtain ⟨st, hst, hno⟩ := Option.map_eq_some_iff.mp hstuck
  refine ⟨st, hst, ?_⟩
  generalize reorganizeBounded _ _ _ _ _ _ st = result at hno
  cases result with
  | stuck => exact id
  | refused _ | framePending | adopted _ | restored _ _ => cases hno

/-! ## Adoption -/

section
variable {C : Crypto} {X : Custody} {frame : RollbackFrame} {st st' mid : State}

theorem restoreAfterFailure_ne_adopted (d : ReorgDisposition) :
    restoreAfterFailure C X frame d mid ≠ .adopted st' := by
  unfold restoreAfterFailure
  split <;> simp

theorem disconnectOld_cases (env : ReorgEnv) (frame : RollbackFrame) (st' : State) (count i : Nat)
    (h : mid.Ready C X) :
    match disconnectOld C X env frame count i mid with
    | .error result => result ≠ .adopted st'
    | .ok base => base.Ready C X ∧ base.ledger.chain = mid.ledger.chain.drop count := by
  induction count generalizing i mid with
  | zero => exact ⟨h, rfl⟩
  | succ count ih =>
    rw [disconnectOld]
    cases hback : disconnectTip C mid with
    | none => exact restoreAfterFailure_ne_adopted _
    | some next =>
      obtain ⟨hready, hlength, hundo⟩ := h.disconnect hback
      obtain ⟨b, rest, hchain⟩ := exists_cons_of_length_eq_add_one hlength
      obtain ⟨_, hnext, -, hrest, -⟩ := h.disconnect_some hchain (by omega)
      cases hback.symm.trans hnext
      have hih := ih (i + 1) hready
      rw [hrest] at hih
      dsimp only
      split_ifs
      · rwa [hchain]
      · exact restoreAfterFailure_ne_adopted _

theorem applyAlt_cases (valid : Ledger → Block → Bool) (env : ReorgEnv) (frame : RollbackFrame) (st' : State)
    (alt : List Block) (i : Nat) (h : mid.Ready C X) :
    match applyAlt C X valid env frame alt i mid with
    | .error result => result ≠ .adopted st'
    | .ok last => last.Ready C X ∧ last.ledger.chain = alt.reverse ++ mid.ledger.chain ∧
        validOnto C X valid mid.ledger alt = some last.ledger := by
  induction alt generalizing i mid with
  | nil => exact ⟨h, rfl, rfl⟩
  | cons b rest ih =>
    rw [applyAlt]
    cases hverdict : replayVerdict valid (env.deferred i) mid.ledger b with
    | consensusInvalid | deferredLocalWork => exact restoreAfterFailure_ne_adopted _
    | valid =>
      have hvalid : valid mid.ledger b := by
        unfold replayVerdict at hverdict
        split_ifs at hverdict with _ hvalid
        exact hvalid
      dsimp only
      split_ifs
      · cases hcommit : commitBlock C X mid b with
        | none => exact restoreAfterFailure_ne_adopted _
        | some next =>
          obtain ⟨hready, hchain, -⟩ := h.commit hcommit
          have hledger := commitLedger_eq_some.mpr (commitBlock_eq_some hcommit).1
          have hih := ih (i + 1) hready
          simpa only [validOnto, foldlM_cons, if_pos hvalid, hledger, some_bind, reverse_cons, append_assoc,
            singleton_append, ← hchain] using hih
      · exact restoreAfterFailure_ne_adopted _

/-- An adopted branch has been validated block by block from the replayed ancestor on, and the node is
where replaying the new chain from genesis puts it. -/
theorem adopted_reorg_is_replay {valid : Ledger → Block → Bool} {env : ReorgEnv} {ops : List ChainOp}
    (hrun : runOps C X State.empty ops = some st) {depth : Nat} {alt : List Block}
    (h : reorganizeBounded C X valid env depth alt st = .adopted st') :
    st'.ledger.chain = alt.reverse ++ st.ledger.chain.drop depth ∧
      replay C X st'.ledger.chain = some st'.ledger ∧
      ∃ base, replay C X (st.ledger.chain.drop depth) = some base ∧
        validOnto C X valid base alt = some st'.ledger := by
  unfold reorganizeBounded at h
  split at h
  · cases h
  split at h
  · cases h
  split at h
  swap
  · cases h
  rename_i tip _ ancestor _ hancestor
  split_ifs at h
  have htail : (frameOf C tip ancestor (st.ledger.chain.take depth)).oldTail.length = depth := by
    have := (List.getElem?_eq_some_iff.mp hancestor).1
    simp only [frameOf, length_reverse, length_take]
    omega
  rw [attemptReorg, htail] at h
  generalize frameOf C tip ancestor (st.ledger.chain.take depth) = frame at h
  have hdown := disconnectOld_cases env frame st' depth 0 (State.ready_empty.run hrun)
  split at h <;> rename_i hdisconnect <;> rw [hdisconnect] at hdown
  · exact (hdown h).elim
  obtain ⟨hbase, hchain⟩ := hdown
  split_ifs at h
  swap
  · exact (restoreAfterFailure_ne_adopted _ h).elim
  have hup := applyAlt_cases valid env frame st' alt 0 hbase
  split at h <;> rename_i happly <;> rw [happly] at hup
  · exact (hup h).elim
  obtain ⟨hlast, hchain', hvalid⟩ := hup
  unfold finishReorg at h
  split_ifs at h
  all_goals first
    | exact (restoreAfterFailure_ne_adopted _ h).elim
    | cases h
  rw [hchain] at hchain'
  exact ⟨hchain', hlast.consistent.ledger, _, hchain ▸ hbase.consistent.ledger, hvalid⟩

end

def Reorg.isAdopted : Reorg → Bool
  | .adopted _ => true
  | _ => false

theorem adopted_reorg_is_replay_one :
    ∃ st st', reorganizeBounded Crypto.firstBytes .sample (fun _ _ => true)
        { putOffAt 1 with retainsFinality := true } 1
        (sampleBranch (sampleGenesis.getHash Crypto.firstBytes) 1 1) st = .adopted st' ∧
      replay Crypto.firstBytes .sample st'.ledger.chain = some st'.ledger := by
  have hrun : ((runOps Crypto.firstBytes .sample State.empty sampleOps).any fun st =>
      (reorganizeBounded Crypto.firstBytes .sample (fun _ _ => true) { putOffAt 1 with retainsFinality := true } 1
      (sampleBranch (sampleGenesis.getHash Crypto.firstBytes) 1 1) st).isAdopted) = true := by
    decide +kernel
  obtain ⟨st, hst, hadopted⟩ := (Option.any_eq_true _ _).mp hrun
  generalize hresult : reorganizeBounded _ _ _ _ _ _ st = result at hadopted
  cases result with
  | adopted st' => exact ⟨st, st', hresult, (adopted_reorg_is_replay hst hresult).2.1⟩
  | refused _ | framePending | restored _ _ | stuck => cases hadopted

end Veld.Chain
