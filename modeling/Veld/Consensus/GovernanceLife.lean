import Veld.Consensus.GovernanceVotes

/-!
# The course of a proposal

What the blocks of a run do to a proposal: its counters stay those of its vote table, and its status moves
from open to a decision, for protocol upgrades through the timelock.
-/

namespace Veld.Governance

open Wire Table

/-! ## The quorum -/

def quorumGeneral : Nat := 7
def quorumProtocol : Nat := 10

/-- `ValidatorRegistry::GetDynamicMinVotes`. -/
def getDynamicMinVotes (active pct quorum : Nat) (hardQuorum : Bool) : Nat :=
  let threshold := min ((active * pct + 99) / 100) (2 ^ 32 - 1)
  if hardQuorum then max quorum threshold
  else if active = 0 then 1
  else if active < quorum then max 1 threshold
  else max quorum threshold

def getMinVotesRequired (active : Nat) : ProposalType → Nat
  | .protocolUpgrade => getDynamicMinVotes active (passPct .protocolUpgrade) quorumProtocol true
  | .general => getDynamicMinVotes active (passPct .general) quorumGeneral false

/-! ## Counters and moves -/

/-- The number of such choices in the vote table. -/
def Proposal.tally (p : Proposal) (choice : VoteChoice) : Nat :=
  Table.total (fun c => if c = choice then 1 else 0) p.votes

def Proposal.counter (p : Proposal) : VoteChoice → Nat
  | .yes => p.votesYes
  | .no => p.votesNo
  | .abstain => p.votesAbstain

def Proposal.Counted (p : Proposal) : Prop := ∀ choice, p.counter choice = p.tally choice

/-- What a block at `height` makes of a proposal. -/
inductive Moves (height : Nat) (p p' : Proposal) : Prop
  | kept : p' = p → Moves height p p'
  | voted : p.status = .open → p'.status = .open → Moves height p p'
  | decided : p.status = .open →
      p'.status = .rejected ∨ p'.status = .expired ∨ p'.status = .passed ∧ p.type = .general → Moves height p p'
  | locked : p.status = .open → p.type = .protocolUpgrade → p'.status = .timelocked →
      p'.timelockUntil = height + protocolTimelock → quorumProtocol ≤ p'.votesYes + p'.votesNo → Moves height p p'
  | unlocked : p.status = .timelocked → p.timelockUntil ≤ height → p' = { p with status := .passed } →
      Moves height p p'

def State.initial : State := ⟨1, ∅, ∅, ∅, false⟩

/-- The block migrates the state before it reads its markers. -/
def migrates (env : Env) (height : Nat) (s : State) : Bool :=
  securityUpgradeActiveAt env height && !s.securityUpgradeActive

/-- A proposal of the state before the block, or a new one under an id that no earlier one has had. -/
def Enters (env : Env) (height : Nat) (s : State) (id : Nat) (p : Proposal) : Prop :=
  (∃ q, s.proposals.lookup id = some q ∧ p = if migrates env height s then restartRound env q else q) ∨
    s.proposals.lookup id = none ∧ s.nextId ≤ id ∧ p.status = .open

variable {env : Env} {reg : Registry} {s s' s'' : State} {height id : Nat} {o : Carried} {p p' q : Proposal}
  {acc acc' : State × Log} {b : GovBlock}

theorem Proposal.Counted.record (h : p.Counted) (voter : Bytes) (choice : VoteChoice) :
    (p.record voter choice).Counted := by
  intro c
  have hc := h c
  have hinsert := total_insert (f := fun c' => if c' = c then 1 else 0) voter choice p.votes
  have herase := total_erase (f := fun c' => if c' = c then 1 else 0) voter p.votes
  unfold Proposal.tally at hc ⊢
  rcases hl : p.votes.lookup voter with _ | ⟨⟨⟩⟩ <;> cases choice <;> cases c <;>
    simp [Proposal.record, Proposal.uncount, Proposal.count, Proposal.counter, hl] at hc hinsert herase ⊢ <;> omega

theorem record_status_type (p : Proposal) (voter : Bytes) (choice : VoteChoice) :
    (p.record voter choice).status = p.status ∧ (p.record voter choice).type = p.type := by
  rcases hl : p.votes.lookup voter with _ | ⟨⟨⟩⟩ <;> cases choice <;>
    simp [Proposal.record, Proposal.uncount, Proposal.count, hl]

/-! ## The close of a block -/

theorem expireProposal_of_ne (h : p.status ≠ .open) : expireProposal reg height p = p := by
  simp [expireProposal, h]

section
variable (hquorum : quorumProtocol ≤ reg.minVotesRequired .protocolUpgrade)
include hquorum

theorem finalizeProposal_moves (hopen : p.status = .open) : Moves height p (finalizeProposal reg height p) := by
  unfold finalizeProposal
  dsimp only
  split_ifs with h
  · split
    · next htype => exact .locked hopen htype rfl rfl (hquorum.trans (htype ▸ h.2.1))
    · next htype => exact .decided hopen (.inr (.inr ⟨rfl, htype⟩))
  · exact .decided hopen (.inr (.inl rfl))

theorem checkAndFinalize_moves (hopen : p.status = .open) : checkAndFinalize reg height p = p ∨
    Moves height p (checkAndFinalize reg height p) ∧ (checkAndFinalize reg height p).status ≠ .open := by
  unfold checkAndFinalize
  dsimp only
  split_ifs with h
  · exact .inl rfl
  · split
    · next htype => exact .inr ⟨.locked hopen htype rfl rfl (hquorum.trans (by rw [← htype]; simp only; omega)), nofun⟩
    · next htype => exact .inr ⟨.decided hopen (.inr (.inr ⟨rfl, htype⟩)), nofun⟩
  · exact .inr ⟨.decided hopen (.inl rfl), nofun⟩
  · exact .inl rfl

theorem close_moves : Moves height p (expireProposal reg height (settleProposal reg height p)) := by
  unfold settleProposal
  split
  · next hopen =>
    obtain heq | ⟨hmoves, hne⟩ := checkAndFinalize_moves hquorum hopen
    · rw [heq, expireProposal]
      split
      · exact finalizeProposal_moves hquorum hopen
      · exact .kept rfl
    · rwa [expireProposal_of_ne hne]
  · next hlocked =>
    unfold checkTimelockActivation
    split
    · next hover => exact .unlocked hlocked hover (expireProposal_of_ne nofun)
    · exact .kept (expireProposal_of_ne (by simp [hlocked]))
  · next hopen _ => exact .kept (expireProposal_of_ne hopen)

end

/-! ## The markers of a block -/

/-- What votes make of a proposal. -/
def Votes (p q : Proposal) : Prop := q = p ∨ p.status = .open ∧ q.status = .open ∧ q.type = p.type

theorem Moves.of_votes (hv : Votes p q) (h : Moves height q p') : Moves height p p' := by
  obtain rfl | ⟨hp, hq, htype⟩ := hv
  · exact h
  · cases h with
    | kept heq => exact .voted hp (heq ▸ hq)
    | voted _ h => exact .voted hp h
    | decided _ h => exact .decided hp (htype ▸ h)
    | locked _ ht h hlock hvotes => exact .locked hp (htype ▸ ht) h hlock hvotes
    | unlocked h => cases hq.symm.trans h

structure Follows (s s' : State) : Prop where
  nextId : s.nextId ≤ s'.nextId
  active : s'.securityUpgradeActive = s.securityUpgradeActive
  origin : ∀ id q, s'.proposals.lookup id = some q →
    (∃ p, s.proposals.lookup id = some p ∧ Votes p q) ∨ s.nextId ≤ id ∧ q.status = .open

def Sound (s : State) : Prop := ∀ id p, s.proposals.lookup id = some p → id < s.nextId ∧ p.Counted

theorem Follows.trans (h : Follows s s') (h' : Follows s' s'') : Follows s s'' := by
  refine ⟨h.nextId.trans h'.nextId, h'.active.trans h.active, fun id r hr => ?_⟩
  obtain ⟨q, hq, hqr⟩ | ⟨hid, hopen⟩ := h'.origin id r hr
  · obtain rfl | ⟨hopen, hopen', htype⟩ := hqr
    · exact h.origin id r hq
    · refine (h.origin id q hq).imp (fun ⟨p, hp, hpq⟩ => ⟨p, hp, .inr ?_⟩) fun h => ⟨h.1, hopen'⟩
      obtain rfl | ⟨hp, -, ht⟩ := hpq
      · exact ⟨hopen, hopen', htype⟩
      · exact ⟨hp, hopen', htype.trans ht⟩
  · exact .inr ⟨h.nextId.trans hid, hopen⟩

theorem processOpLocked_follows (h : Sound s) (hop : processOpLocked env reg height o s = some s') :
    Follows s s' ∧ Sound s' := by
  have hsame : ∀ id q, s.proposals.lookup id = some q →
      (∃ p, s.proposals.lookup id = some p ∧ Votes p q) ∨ s.nextId ≤ id ∧ q.status = .open :=
    fun id q hq => .inl ⟨q, hq, .inl rfl⟩
  unfold processOpLocked at hop
  split at hop
  · obtain ⟨p, hvotes, -, hprops, hact, hnext, hopen, hy, hn, ha⟩ := applyProposalFromChain_eq_some hop
    have hcounted : p.Counted := by
      rintro ⟨⟩ <;> simp [Proposal.tally, Proposal.counter, hvotes, hy, hn, ha]
    refine ⟨⟨by omega, hact, ?_⟩, ?_⟩
    · rw [hprops]
      exact forall_insert hsame (.inr ⟨le_rfl, hopen⟩)
    · unfold Sound
      rw [hprops, hnext]
      exact forall_insert (fun id q hq => ⟨(h id q hq).1.trans (Nat.lt_succ_self _), (h id q hq).2⟩)
        ⟨Nat.lt_succ_self _, hcounted⟩
  · simp only [bind_eq_some] at hop
    obtain ⟨m, -, happ⟩ := hop
    obtain ⟨-, p, hp, -, -, hopen, rfl⟩ := applyVoteFromChain_eq_some happ
    obtain ⟨hstatus, htype⟩ := record_status_type p m.vote.voter m.vote.choice
    exact ⟨⟨le_rfl, rfl, forall_insert hsame (.inl ⟨p, hp, .inr ⟨hopen, hstatus.trans hopen, htype⟩⟩)⟩,
      forall_insert h ⟨(h _ p hp).1, (h _ p hp).2.record _ _⟩⟩

theorem foldl_follows (ops : List Carried) (h : Sound acc.1) :
    Follows acc.1 (ops.foldl (stepOp env reg height) acc).1 ∧ Sound (ops.foldl (stepOp env reg height) acc).1 := by
  induction ops generalizing acc with
  | nil => exact ⟨⟨le_rfl, rfl, fun id q hq => .inl ⟨q, hq, .inl rfl⟩⟩, h⟩
  | cons o ops ih =>
    cases hop : processOpLocked env reg height o acc.1 with
    | none => simpa [stepOp, hop] using ih h
    | some s' =>
      obtain ⟨hfirst, hsound⟩ := processOpLocked_follows h hop
      have hrest := @ih (stepOp env reg height acc o) (by simpa [stepOp, hop] using hsound)
      have hstep : (stepOp env reg height acc o).1 = s' := by simp [stepOp, hop]
      rw [hstep] at hrest
      exact ⟨hfirst.trans hrest.1, hrest.2⟩

/-! ## Blocks and runs -/

theorem enterBlock_spec (h : Sound s) (he : enterBlock env height s = some s') :
    Sound s' ∧ s'.nextId = s.nextId ∧
      s'.securityUpgradeActive = (s.securityUpgradeActive || securityUpgradeActiveAt env height) ∧
      ∀ id p, s'.proposals.lookup id = some p →
        ∃ q, s.proposals.lookup id = some q ∧ p = if migrates env height s then restartRound env q else q := by
  unfold enterBlock at he
  rw [← migrates] at he
  split at he
  · next hm =>
    unfold migrate at he
    split at he
    · cases he
      refine ⟨fun id p hp => ?_, rfl, by simp_all [migrates], fun id p hp => ?_⟩
      all_goals
        rw [lookup_mapRows, Option.map_eq_some_iff] at hp
        obtain ⟨q, hq, rfl⟩ := hp
      · refine ⟨(h id q hq).1, ?_⟩
        unfold restartRound
        split
        · rintro ⟨⟩ <;> rfl
        · exact (h id q hq).2
      · exact ⟨q, hq, by rw [if_pos hm]⟩
    · cases he
  · next hm =>
    cases he
    exact ⟨h, rfl, by cases h : s.securityUpgradeActive <;> simp_all [migrates],
      fun id p hp => ⟨p, hp, by rw [if_neg hm]⟩⟩

theorem processBlock_spec (h : Sound acc.1) (hb : processBlock env height b acc = some acc') :
    ∃ entered markers, enterBlock env height acc.1 = some entered ∧ Follows entered markers ∧ Sound markers ∧
      acc'.1 = closeBlock b.registry height markers := by
  simp only [processBlock, bind_eq_some, pure_eq_some] at hb
  obtain ⟨entered, he, rfl⟩ := hb
  obtain ⟨hfollows, hsound⟩ := @foldl_follows env b.registry height (entered, acc.2) b.carried (enterBlock_spec h he).1
  exact ⟨entered, _, he, hfollows, hsound, rfl⟩

theorem Sound.processBlock (h : Sound acc.1) (hb : processBlock env height b acc = some acc') : Sound acc'.1 := by
  obtain ⟨entered, markers, -, -, hsound, heq⟩ := processBlock_spec h hb
  intro id p' hp'
  rw [heq] at hp' ⊢
  obtain ⟨p, hp, -, _, _, rfl⟩ := closeBlock_lookup hp'
  obtain ⟨hid, hcounted⟩ := hsound id p hp
  exact ⟨by rwa [closeBlock_nextId], hcounted⟩

theorem Sound.run {blocks : List GovBlock} (h : Sound acc.1) (hr : run env height acc blocks = some acc') :
    Sound acc'.1 := by
  induction blocks generalizing height acc with
  | nil =>
    cases hr
    exact h
  | cons b rest ih =>
    simp only [Governance.run, bind_eq_some] at hr
    obtain ⟨next, hb, hr⟩ := hr
    exact ih (h.processBlock hb) hr

theorem Proposal.Counted.le_voters (h : p.Counted) (choice : VoteChoice) :
    p.counter choice ≤ p.votes.entries.length := by
  have hrow : ∀ n ∈ p.votes.entries.map fun row => if row.2 = choice then 1 else 0, n ≤ 1 := by
    intro n hn
    obtain ⟨row, -, rfl⟩ := List.mem_map.mp hn
    split <;> decide
  rw [h choice, Proposal.tally, Table.total]
  simpa using List.sum_le_card_nsmul _ 1 hrow

/-- In every block of a run: the migration comes once, the counters are those of the vote table, so that 32 bits
hold them while there are fewer voters than that, and a proposal moves only as `Moves` says. -/
theorem proposals_run_their_course {start active : Nat} {blocks : List GovBlock}
    (hrun : run env start (State.initial, []) blocks = some acc)
    (hreg : b.registry.minVotesRequired = getMinVotesRequired active)
    (hb : processBlock env (start + blocks.length) b acc = some acc') :
    acc'.1.securityUpgradeActive =
        (acc.1.securityUpgradeActive || securityUpgradeActiveAt env (start + blocks.length)) ∧
      ∀ id p', acc'.1.proposals.lookup id = some p' →
        (p'.Counted ∧ ∀ choice, p'.counter choice ≤ p'.votes.entries.length) ∧
          ∃ p, Enters env (start + blocks.length) acc.1 id p ∧ p'.type = p.type ∧
            Moves (start + blocks.length) p p' := by
  have hsound : Sound acc.1 := Sound.run (fun _ _ hp => by cases hp) hrun
  have hquorum : quorumProtocol ≤ b.registry.minVotesRequired .protocolUpgrade := by
    rw [hreg]
    exact le_max_left _ _
  obtain ⟨entered, markers, he, hfollows, hmarkers, heq⟩ := processBlock_spec hsound hb
  obtain ⟨-, hnext, hactive, horigin⟩ := enterBlock_spec hsound he
  have hcounted : ∀ id p', acc'.1.proposals.lookup id = some p' → p'.Counted :=
    fun id p' hp' => (hsound.processBlock hb id p' hp').2
  refine ⟨?_, fun id p' hp' => ⟨⟨hcounted id p' hp', (hcounted id p' hp').le_voters⟩, ?_⟩⟩
  · rw [heq, closeBlock_active, hfollows.active, hactive]
  · rw [heq] at hp'
    obtain ⟨q, hq, hclose, _, _, hfields⟩ := closeBlock_lookup hp'
    have hmoves := hclose ▸ close_moves hquorum
    have htype : p'.type = q.type := by rw [hfields]
    obtain ⟨p, hp, hvotes⟩ | ⟨hid, hopen⟩ := hfollows.origin id q hq
    · refine ⟨p, .inl (horigin id p hp), htype.trans ?_, hmoves.of_votes hvotes⟩
      obtain rfl | ⟨-, -, h⟩ := hvotes
      · rfl
      · exact h
    · refine ⟨q, .inr ⟨?_, hnext ▸ hid, hopen⟩, htype, hmoves⟩
      by_contra hsome
      obtain ⟨r, hr⟩ := Option.ne_none_iff_exists'.mp hsome
      have := (hsound id r hr).1
      omega

/-- A yes vote under a quorum of one. -/
def sampleDeciding : GovBlock := ⟨[sampleVote "y" .yes 2881], true, fun _ => true, getMinVotesRequired 0⟩

/-- A vote, its change and a block that decides: the proposal moves from open to passed. -/
theorem proposals_run_their_course_decided :
    ∃ acc acc' p p', run sampleEnv 2880 (State.initial, []) (sampleReplay.take 13) = some acc ∧
      processBlock sampleEnv 2893 sampleDeciding acc = some acc' ∧ acc'.1.proposals.lookup 1 = some p' ∧
      p'.status = .passed ∧ p'.votesYes = 1 ∧ p'.Counted ∧ Enters sampleEnv 2893 acc.1 1 p ∧ Moves 2893 p p' := by
  have hrun : ((run sampleEnv 2880 (State.initial, []) (sampleReplay.take 13)).any fun acc =>
      (processBlock sampleEnv 2893 sampleDeciding acc).any fun acc' =>
        (acc'.1.proposals.lookup 1).any fun p' => p'.status = .passed && p'.votesYes = 1) = true := by
    decide +kernel
  simp only [Option.any_eq_true, Bool.and_eq_true, decide_eq_true_eq] at hrun
  obtain ⟨acc, hrun, acc', hb, p', hp', hstatus, hyes⟩ := hrun
  have hcourse :=
    @proposals_run_their_course sampleEnv acc acc' sampleDeciding 2880 0 (sampleReplay.take 13) hrun rfl hb
  obtain ⟨⟨hcounted, -⟩, p, henters, -, hmoves⟩ := hcourse.2 1 p' hp'
  exact ⟨acc, acc', p, p', hrun, hb, hp', hstatus, hyes, hcounted, henters, hmoves⟩

end Veld.Governance
