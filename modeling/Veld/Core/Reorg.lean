import Veld.Core.ChainReplay

/-!
# Bounded reorganisations

`ReorganizeBounded_` of `core/blockchain.h` on the chain state: the canonical tail above the common
ancestor is disconnected, the candidate branch is validated and committed block by block, and if it is
not kept, `RestoreReorgFrameNoLock_` disconnects what was committed and commits the old tail again.
-/

namespace Veld.Chain

open Wire List

inductive ReorgDisposition where
  | applied
  | consensusInvalid
  | deferredLocalWork
  deriving DecidableEq

/-- `ReplayValidationDisposition`. -/
inductive ReplayVerdict where
  | valid
  | consensusInvalid
  | deferredLocalWork
  deriving DecidableEq

/-- `ValidateBlockForReplay`. -/
def replayVerdict (valid : Ledger → Block → Bool) (deferred : Bool) (l : Ledger) (b : Block) : ReplayVerdict :=
  if deferred then .deferredLocalWork else if valid l b then .valid else .consensusInvalid

/-- What the attempt meets outside the chain state. -/
structure ReorgEnv where
  /-- `ReorgRetryReadyNoLock_`: no backoff is running for this tip. -/
  retryReady : Bool
  /-- An earlier rollback frame or its protected side branches are still there. -/
  framePending : Bool
  /-- The anchor gate and the finality gate accept the ancestor. -/
  gatesOpen : Bool
  /-- Every candidate has its proof-of-work provenance. -/
  provenance : Bool
  /-- The side branches were pruned after each disconnect. -/
  cleaned : Nat → Bool
  overlayBuilt : Bool
  /-- The validation of a candidate is put off. -/
  deferred : Nat → Bool
  overlayAdvanced : Nat → Bool
  retainsFinality : Bool
  validationOnly : Bool
  bodiesWritten : Bool
  /-- The durable transition was written. -/
  durable : Bool

structure RollbackFrame where
  ancestorHeight : Nat
  ancestorHash : Hash256
  oldTipHash : Hash256
  /-- The old blocks above the ancestor, the lowest first. -/
  oldTail : List Block

def frameOf (C : Crypto) (tip ancestor : Block) (tail : List Block) : RollbackFrame :=
  ⟨ancestor.height, ancestor.getHash C, tip.getHash C, tail.reverse⟩

/-- How an attempt ends: refused before anything was touched, adopted, restored, or with a restore that
failed, which asks for a restart. A frame that is still pending is refused as invalid and asks for one too. -/
inductive Reorg where
  | refused (d : ReorgDisposition)
  | framePending
  | adopted (st : State)
  | restored (d : ReorgDisposition) (st : State)
  | stuck

section
variable (C : Crypto) (X : Custody)

/-- The first loop of the restore: blocks above the ancestor are disconnected. -/
def disconnectTo (ancestorHeight : Nat) : Nat → State → Option State
  | 0, st => some st
  | fuel + 1, st =>
    match st.ledger.chain with
    | [] => some st
    | b :: _ =>
      if ancestorHeight < b.height then (disconnectTip C st).bind (disconnectTo ancestorHeight fuel)
      else some st

/-- `RestoreReorgFrameNoLock_`. -/
def restoreFrame (frame : RollbackFrame) (st : State) : Option State := do
  let st ← disconnectTo C frame.ancestorHeight st.ledger.chain.length st
  guard (∃ b ∈ st.ledger.chain.head?, b.height = frame.ancestorHeight ∧ b.getHash C = frame.ancestorHash)
  let st ← frame.oldTail.foldlM (commitBlock C X) st
  guard (∃ b ∈ st.ledger.chain.head?, b.getHash C = frame.oldTipHash)
  return st

def restoreAfterFailure (frame : RollbackFrame) (d : ReorgDisposition) (st : State) : Reorg :=
  match restoreFrame C X frame st with
  | some st => .restored d st
  | none => .stuck

variable (valid : Ledger → Block → Bool) (env : ReorgEnv) (frame : RollbackFrame)

def disconnectOld : Nat → Nat → State → Except Reorg State
  | 0, _, st => .ok st
  | count + 1, i, st =>
    match disconnectTip C st with
    | none => .error (restoreAfterFailure C X frame .consensusInvalid st)
    | some st =>
      if env.cleaned i then disconnectOld count (i + 1) st
      else .error (restoreAfterFailure C X frame .consensusInvalid st)

/-- The candidates are validated and committed one by one. -/
def applyAlt : List Block → Nat → State → Except Reorg State
  | [], _, st => .ok st
  | b :: rest, i, st =>
    match replayVerdict valid (env.deferred i) st.ledger b with
    | .deferredLocalWork => .error (restoreAfterFailure C X frame .deferredLocalWork st)
    | .consensusInvalid => .error (restoreAfterFailure C X frame .consensusInvalid st)
    | .valid =>
      if env.overlayAdvanced i then
        match commitBlock C X st b with
        | none => .error (restoreAfterFailure C X frame .consensusInvalid st)
        | some st => applyAlt rest (i + 1) st
      else .error (restoreAfterFailure C X frame .consensusInvalid st)

/-- What follows once the whole branch is committed. -/
def finishReorg (st : State) : Reorg :=
  if !env.retainsFinality then restoreAfterFailure C X frame .deferredLocalWork st
  else if env.validationOnly then restoreAfterFailure C X frame .applied st
  else if !env.bodiesWritten then restoreAfterFailure C X frame .deferredLocalWork st
  else if !env.durable then restoreAfterFailure C X frame .consensusInvalid st
  else .adopted st

/-- The part of the attempt that touches the state. -/
def attemptReorg (alt : List Block) (st : State) : Reorg :=
  match disconnectOld C X env frame frame.oldTail.length 0 st with
  | .error result => result
  | .ok st =>
    if env.overlayBuilt then
      match applyAlt C X valid env frame alt 0 st with
      | .error result => result
      | .ok st => finishReorg C X env frame st
    else restoreAfterFailure C X frame .consensusInvalid st

end

/-- Each candidate has the next height and names the block before it. -/
def linkedFrom (C : Crypto) : Hash256 → Nat → List Block → Bool
  | _, _, [] => true
  | prev, height, b :: rest =>
    b.height = height && b.header.prevBlockHash = prev && linkedFrom C (b.getHash C) (height + 1) rest

def recordsMatch (C : Crypto) (undos : List CanonicalBlockUndo) (blocks : List Block) : Bool :=
  (undos.zip blocks).all fun (undo, b) => undo.height = b.height && undo.hash = b.getHash C

/-- The depths to which the undo queues allow a reorganisation. -/
def undoHorizon (C : Crypto) (st : State) (depth : Nat) : Bool :=
  depth < maxReorgDepth && depth < st.ledger.chain.length && depth ≤ st.canonicalUndo.length &&
    depth ≤ st.minerUndo.length && recordsMatch C (st.canonicalUndo.take depth) (st.ledger.chain.take depth)

/-- The checks on the candidate branch over its ancestor. -/
def branchAccepted (C : Crypto) (ancestor : Block) (alt : List Block) : Bool :=
  alt ≠ [] && linkedFrom C (ancestor.getHash C) (ancestor.height + 1) alt && alt.length ≤ 2 * maxReorgDepth

def reorganizeBounded (C : Crypto) (X : Custody) (valid : Ledger → Block → Bool) (env : ReorgEnv)
    (depth : Nat) (alt : List Block) (st : State) : Reorg :=
  if !env.retryReady then .refused .deferredLocalWork
  else if env.framePending then .framePending
  else match st.ledger.chain, st.ledger.chain[depth]? with
    | tip :: _, some ancestor =>
      if !env.gatesOpen then .refused .consensusInvalid
      else if !undoHorizon C st depth then .refused .consensusInvalid
      else if !branchAccepted C ancestor alt then .refused .consensusInvalid
      else if !env.provenance then .refused .deferredLocalWork
      else
        attemptReorg C X valid env (frameOf C tip ancestor (st.ledger.chain.take depth)) alt st
    | _, _ => .refused .consensusInvalid

/-! ## The queues along an attempt -/

section
variable (C : Crypto) (X : Custody)

/-- A state of a node with its two queues of the same, bounded, length. -/
structure State.Ready (st : State) : Prop where
  consistent : st.Consistent C X
  level : st.minerUndo.length = st.canonicalUndo.length
  bounded : st.canonicalUndo.length ≤ maxReorgDepth + 1

end

section
variable {C : Crypto} {X : Custody} {st st' : State} {b : Block}

theorem State.ready_empty : State.empty.Ready C X := ⟨State.consistent_empty, rfl, Nat.zero_le _⟩

theorem State.Ready.commit (h : st.Ready C X) (hcommit : commitBlock C X st b = some st') :
    st'.Ready C X ∧ st'.ledger.chain = b :: st.ledger.chain ∧
      st'.canonicalUndo.length = min (st.canonicalUndo.length + 1) (maxReorgDepth + 1) := by
  obtain ⟨hledger, hundo, hminer⟩ := commitBlock_eq_some hcommit
  have hlevel := h.level
  have hlength : st'.canonicalUndo.length = min (st.canonicalUndo.length + 1) (maxReorgDepth + 1) := by
    rw [hundo, length_take, length_cons, Nat.min_comm]
  refine ⟨⟨h.consistent.commit hcommit, ?_, ?_⟩, hledger.chain, hlength⟩
  · rw [hlength, hminer, length_take, length_cons, hlevel, Nat.min_comm]
  · rw [hlength]
    exact Nat.min_le_right _ _

theorem State.Ready.disconnect (h : st.Ready C X) (hdisconnect : disconnectTip C st = some st') :
    st'.Ready C X ∧ st.ledger.chain.length = st'.ledger.chain.length + 1 ∧
      st.canonicalUndo.length = st'.canonicalUndo.length + 1 := by
  have hconsistent := h.consistent.disconnect hdisconnect
  have hlevel := h.level
  have hbounded := h.bounded
  unfold disconnectTip at hdisconnect
  split at hdisconnect
  · rename_i b rest undo undos minerUndo minerUndos hchain hundo hminer
    obtain ⟨below, hbelow, heq, -⟩ := h.consistent.disconnect_eq hchain hundo hminer
    simp only [disconnectTip, hchain, hundo, hminer] at heq
    rw [hdisconnect] at heq
    cases heq
    have hsame := (replay_sound hbelow).2
    simp only [hundo, hminer, length_cons] at hlevel hbounded
    refine ⟨⟨hconsistent, Nat.succ.inj hlevel, Nat.le_of_succ_le hbounded⟩, ?_, ?_⟩
    · rw [hchain, hsame, length_cons]
    · rw [hundo, length_cons]
  · cases hdisconnect

theorem State.Ready.disconnect_some {rest : List Block} (h : st.Ready C X) (hchain : st.ledger.chain = b :: rest)
    (hundo : 0 < st.canonicalUndo.length) :
    ∃ st', disconnectTip C st = some st' ∧ st'.Ready C X ∧ st'.ledger.chain = rest ∧
      st'.canonicalUndo.length = st.canonicalUndo.length - 1 := by
  have hminer : 0 < st.minerUndo.length := by
    rw [h.level]
    exact hundo
  obtain ⟨undo, undos, hundos⟩ := exists_cons_of_length_pos hundo
  obtain ⟨minerUndo, minerUndos, hminerUndos⟩ := exists_cons_of_length_pos hminer
  obtain ⟨below, hbelow, hback, -⟩ := h.consistent.disconnect_eq hchain hundos hminerUndos
  obtain ⟨hready, -, hlength⟩ := h.disconnect hback
  exact ⟨_, hback, hready, (replay_sound hbelow).2, by omega⟩

theorem State.Ready.run (h : st.Ready C X) {ops : List ChainOp} (hrun : runOps C X st ops = some st') :
    st'.Ready C X := by
  unfold runOps at hrun
  induction ops generalizing st with
  | nil =>
    cases hrun
    exact h
  | cons op rest ih =>
    rw [foldlM_cons, bind_eq_some] at hrun
    obtain ⟨next, hnext, hrest⟩ := hrun
    refine ih ?_ hrest
    cases op with
    | commit b => exact (h.commit hnext).1
    | disconnect => exact (h.disconnect hnext).1

theorem State.Ready.commitAll (h : st.Ready C X) {blocks : List Block}
    (hrun : blocks.foldlM (commitBlock C X) st = some st') :
    st'.Ready C X ∧ st'.ledger.chain = blocks.reverse ++ st.ledger.chain ∧
      st'.canonicalUndo.length = min (st.canonicalUndo.length + blocks.length) (maxReorgDepth + 1) := by
  induction blocks generalizing st with
  | nil =>
    cases hrun
    exact ⟨h, rfl, (Nat.min_eq_left h.bounded).symm⟩
  | cons b rest ih =>
    rw [foldlM_cons, bind_eq_some] at hrun
    obtain ⟨next, hnext, hrest⟩ := hrun
    obtain ⟨hready, hchain, hlength⟩ := h.commit hnext
    obtain ⟨hready', hchain', hlength'⟩ := ih hready hrest
    refine ⟨hready', ?_, ?_⟩
    · rw [hchain', hchain, reverse_cons, append_assoc, singleton_append]
    · rw [hlength', hlength, length_cons]
      omega

theorem replay_append_isSome {above below : List Block} (h : (replay C X (above ++ below)).isSome) :
    (replay C X below).isSome := by
  induction above with
  | nil => exact h
  | cons b rest ih =>
    obtain ⟨l, hl⟩ := Option.isSome_iff_exists.mp h
    obtain ⟨l', hl', -⟩ := bind_eq_some.mp hl
    exact ih (Option.isSome_iff_exists.mpr ⟨l', hl'⟩)

theorem State.Ready.commitAll_some (h : st.Ready C X) {blocks : List Block}
    (hreplay : (replay C X (blocks.reverse ++ st.ledger.chain)).isSome) :
    ∃ st', blocks.foldlM (commitBlock C X) st = some st' := by
  induction blocks generalizing st with
  | nil => exact ⟨st, rfl⟩
  | cons b rest ih =>
    rw [reverse_cons, append_assoc, singleton_append] at hreplay
    obtain ⟨l, hl⟩ := Option.isSome_iff_exists.mp (replay_append_isSome hreplay)
    rw [replay, h.consistent.ledger, Option.bind_some] at hl
    have hcommit : ∃ next, commitBlock C X st b = some next := by
      simp only [commitBlock, hl, some_bind, Option.pure_def]
      exact ⟨_, rfl⟩
    obtain ⟨next, hnext⟩ := hcommit
    obtain ⟨hready, hchain, -⟩ := h.commit hnext
    rw [← hchain] at hreplay
    obtain ⟨st', hst'⟩ := ih hready hreplay
    refine ⟨st', ?_⟩
    rw [foldlM_cons, hnext]
    exact hst'

/-! ## The restore -/

theorem State.Ready.disconnectTo_some {above base : List Block} {ancestorHeight fuel : Nat} (h : st.Ready C X)
    (hchain : st.ledger.chain = above ++ base) (habove : ∀ b ∈ above, ancestorHeight < b.height)
    (hbase : ∀ b ∈ base.head?, b.height = ancestorHeight) (hundo : above.length ≤ st.canonicalUndo.length)
    (hfuel : above.length ≤ fuel) :
    ∃ st', disconnectTo C ancestorHeight fuel st = some st' ∧ st'.Ready C X ∧ st'.ledger.chain = base ∧
      st'.canonicalUndo.length = st.canonicalUndo.length - above.length := by
  induction above generalizing st fuel with
  | nil =>
    refine ⟨st, ?_, h, hchain, rfl⟩
    cases fuel with
    | zero => rfl
    | succ fuel =>
      cases base with
      | nil => simp only [disconnectTo, hchain, append_nil]
      | cons b rest =>
        have hb : ¬ ancestorHeight < b.height := (hbase b rfl).not_gt
        simp only [disconnectTo, hchain, nil_append, if_neg hb]
  | cons b rest ih =>
    obtain ⟨fuel, rfl⟩ : ∃ n, fuel = n + 1 := ⟨fuel - 1, by rw [length_cons] at hfuel; omega⟩
    rw [length_cons] at hundo hfuel
    obtain ⟨next, hnext, hready, hrest, hlength⟩ := h.disconnect_some hchain (by omega)
    obtain ⟨st', hst', hready', hchain', hlength'⟩ :=
      ih hready hrest (fun b hb => habove b (mem_cons_of_mem _ hb)) (by omega) (by omega : rest.length ≤ fuel)
    refine ⟨st', ?_, hready', hchain', ?_⟩
    · have hb := habove b mem_cons_self
      simp only [disconnectTo, hchain, cons_append, if_pos hb, hnext, Option.bind_some]
      exact hst'
    · rw [hlength', hlength, length_cons]
      omega

theorem State.Ready.disconnectTo_length {ancestorHeight fuel : Nat} (h : st.Ready C X)
    (hrun : disconnectTo C ancestorHeight fuel st = some st') :
    st'.Ready C X ∧
      st'.canonicalUndo.length + st.ledger.chain.length = st.canonicalUndo.length + st'.ledger.chain.length := by
  induction fuel generalizing st with
  | zero =>
    cases hrun
    exact ⟨h, rfl⟩
  | succ fuel ih =>
    rw [disconnectTo] at hrun
    split at hrun
    · cases hrun
      exact ⟨h, rfl⟩
    · split at hrun
      · obtain ⟨next, hnext, hrest⟩ := bind_eq_some.mp hrun
        obtain ⟨hready, hchain, hundo⟩ := h.disconnect hnext
        obtain ⟨hready', hlength⟩ := ih hready hrest
        exact ⟨hready', by omega⟩
      · cases hrun
        exact ⟨h, rfl⟩

section
variable {tip ancestor : Block} {tail above below : List Block} {mid : State}

/-- The restore from a state over the ancestor: it goes through if every block above the ancestor still
has its record, and it leaves the ledger as it was. -/
theorem restoreFrame_some (h : st.Ready C X) (hold : st.ledger.chain = tail ++ ancestor :: below)
    (htip : st.ledger.chain.head? = some tip) (hmid : mid.Ready C X)
    (hchain : mid.ledger.chain = above ++ ancestor :: below) (habove : ∀ b ∈ above, ancestor.height < b.height)
    (hundo : above.length ≤ mid.canonicalUndo.length) :
    ∃ st', restoreFrame C X (frameOf C tip ancestor tail) mid = some st' ∧ st'.Ready C X ∧
      st'.ledger = st.ledger ∧
      st'.canonicalUndo.length =
        min (mid.canonicalUndo.length - above.length + tail.length) (maxReorgDepth + 1) := by
  have hfuel : above.length ≤ mid.ledger.chain.length := by
    rw [hchain, length_append]
    exact Nat.le_add_right _ _
  obtain ⟨base, hbase, hready, hbelow, hlength⟩ := hmid.disconnectTo_some hchain habove
    (fun b hb => by rw [Option.mem_some.mp hb]) hundo hfuel
  have hreplay : (replay C X (tail.reverse.reverse ++ base.ledger.chain)).isSome := by
    rw [reverse_reverse, hbelow, ← hold, h.consistent.ledger, Option.isSome_some]
  obtain ⟨st', hst'⟩ := hready.commitAll_some hreplay
  obtain ⟨hready', hchain', hlength'⟩ := hready.commitAll hst'
  rw [reverse_reverse, hbelow, ← hold] at hchain'
  have hguard : ∃ b ∈ base.ledger.chain.head?,
      b.height = (frameOf C tip ancestor tail).ancestorHeight ∧
        b.getHash C = (frameOf C tip ancestor tail).ancestorHash := by
    rw [hbelow]
    exact ⟨ancestor, rfl, rfl, rfl⟩
  have hguard' : ∃ b ∈ st'.ledger.chain.head?, b.getHash C = (frameOf C tip ancestor tail).oldTipHash := by
    rw [hchain', htip]
    exact ⟨tip, rfl, rfl⟩
  refine ⟨st', ?_, hready', ?_, ?_⟩
  · have hbase' : disconnectTo C (frameOf C tip ancestor tail).ancestorHeight mid.ledger.chain.length mid =
        some base := hbase
    have hst'' : (frameOf C tip ancestor tail).oldTail.foldlM (commitBlock C X) base = some st' := hst'
    simp only [restoreFrame, hbase', guard_pos hguard, hst'', guard_pos hguard', some_bind,
      Option.pure_def]
  · have hledger := hready'.consistent.ledger
    rw [hchain', h.consistent.ledger] at hledger
    exact (Option.some.inj hledger).symm
  · rw [hlength', hlength, length_reverse]

theorem restoreFrame_length (hmid : mid.Ready C X) (hchain : mid.ledger.chain = above ++ ancestor :: below)
    (hrun : restoreFrame C X (frameOf C tip ancestor tail) mid = some st')
    (hsame : st'.ledger.chain = tail ++ ancestor :: below) :
    st'.Ready C X ∧ ∃ kept, mid.canonicalUndo.length = kept + above.length ∧
      st'.canonicalUndo.length = min (kept + tail.length) (maxReorgDepth + 1) := by
  simp only [restoreFrame, bind_eq_some, Option.guard_eq_some', pure_eq_some] at hrun
  obtain ⟨base, hbase, -, -, st'', hst'', -, -, rfl⟩ := hrun
  obtain ⟨hready, hlength⟩ := hmid.disconnectTo_length hbase
  obtain ⟨hready', hchain', hlength'⟩ := hready.commitAll hst''
  have hcount := congrArg List.length (hchain'.symm.trans hsame)
  have hold : (frameOf C tip ancestor tail).oldTail.length = tail.length := length_reverse
  simp only [length_append, length_reverse, length_cons, hold, hchain] at hcount hlength hlength'
  exact ⟨hready', base.canonicalUndo.length, by omega, hlength'⟩

end

theorem recordsMatch_of_records {chain : List Block} {undos : List CanonicalBlockUndo}
    (hreplay : (replay C X chain).isSome) (hundos : undos <+: (undoRecords C X chain).map Prod.fst)
    (depth : Nat) : recordsMatch C (undos.take depth) (chain.take depth) := by
  induction chain generalizing undos depth with
  | nil => simp [recordsMatch]
  | cons b rest ih =>
    have hall : (replay C X ([b] ++ rest)).isSome := hreplay
    have hbelow := replay_append_isSome hall
    obtain ⟨l, hl⟩ := Option.isSome_iff_exists.mp hbelow
    rw [undoRecords, hl] at hundos
    cases undos with
    | nil => simp [recordsMatch]
    | cons undo undos =>
      simp only [map_cons, cons_prefix_cons] at hundos
      obtain ⟨rfl, hundos⟩ := hundos
      cases depth with
      | zero => rfl
      | succ depth =>
        have hrest := ih hbelow hundos depth
        simp only [recordsMatch] at hrest
        simp [recordsMatch, undoRecord, hrest]

theorem State.Ready.undoHorizon_iff (h : st.Ready C X) {depth : Nat} :
    undoHorizon C st depth ↔
      depth < maxReorgDepth ∧ depth < st.ledger.chain.length ∧ depth ≤ st.canonicalUndo.length := by
  have hreplay : (replay C X st.ledger.chain).isSome := by
    rw [h.consistent.ledger, Option.isSome_some]
  have hrecords := recordsMatch_of_records hreplay h.consistent.canonicalUndo depth
  simp only [undoHorizon, hrecords, h.level, Bool.and_eq_true, decide_eq_true_eq, and_true]
  tauto

end

end Veld.Chain
