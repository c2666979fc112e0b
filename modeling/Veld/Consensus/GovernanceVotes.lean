import Veld.Consensus.Governance

/-!
# Which vote is recorded

The choice on record for a voter should be the one they signed last, and a signed vote should count once. The
engine does not compare the heights at which votes were signed. Its guards refuse a signature that is too old, a
vote for the choice on record and a change during the cooldown; the property holds exactly in the runs in which
every vote that passes them was signed after the votes it replaces.
-/

namespace Veld.Governance

open Wire Chain List Table

def SameBallot (v w : SignedVote) : Prop :=
  v.voter = w.voter ∧ v.proposalId = w.proposalId ∧ v.round = w.round

/-- Every choice on record in a bound round was signed in an applied vote, and every other applied vote of that
ballot was signed before. -/
def Latest (env : Env) (s : State) (log : Log) : Prop :=
  ∀ id p, s.proposals.lookup id = some p → p.voteRoundStart ≠ 0 →
    ∀ voter choice, p.votes.lookup voter = some choice →
      ∃ v ∈ log, v.voter = voter ∧ v.proposalId = id ∧ v.round = voteIdentity env p ∧ v.choice = choice ∧
        ∀ w ∈ log, SameBallot w v → w ≠ v → w.signedHeight < v.signedHeight

/-- A signed vote counts once, and the latest one signed is on record. -/
structure CountsOnce (env : Env) (acc : State × Log) : Prop where
  once : acc.2.Nodup
  latest : Latest env acc.1 acc.2

section
variable (env : Env)

def wellSigned (m : VoteMarker) : Bool :=
  env.verifyGovSig m.pubkeyHex m.sigHex
      (buildVoteChallenge env m.vote.proposalId m.vote.choice m.vote.signedHeight m.vote.round) &&
    env.pubKeyHexToAddress m.pubkeyHex = m.vote.voter

def carriedVote (o : Carried) : Option SignedVote :=
  ((parseVote true (fields 124 o.data)).filter (wellSigned env)).map VoteMarker.vote

def opVotes (height : Nat) (o : Carried) : List SignedVote :=
  if securityUpgradeActiveAt env height then (carriedVote env o).toList else []

/-- The vote of a marker that the engine admits on the state before it. -/
def admitted (reg : Registry) (height : Nat) (o : Carried) (s : State) : List SignedVote :=
  if (processOpLocked env reg height o s).isSome then opVotes env height o else []

/-- A vote that the engine admits was signed after every applied vote of its ballot. -/
def OnlyNewer (height : Nat) (reg : Registry) (acc : State × Log) (o : Carried) : Prop :=
  ∀ v ∈ admitted env reg height o acc.1, ∀ w ∈ acc.2, SameBallot w v → w.signedHeight < v.signedHeight

section
variable (P : Nat → Registry → State × Log → Carried → Prop)

/-- `P` holds of each marker of a block, on the state and the votes before it. -/
def EachMarker (height : Nat) (reg : Registry) : State × Log → List Carried → Prop
  | _, [] => True
  | acc, o :: rest => P height reg acc o ∧ EachMarker height reg (stepOp env reg height acc o) rest

/-- `P` holds of each marker of the blocks from `height` on. -/
def AllMarkers : Nat → State × Log → List GovBlock → Prop
  | _, _, [] => True
  | height, acc, b :: rest =>
    (∀ s ∈ enterBlock env height acc.1, EachMarker env P height b.registry (s, acc.2) b.carried) ∧
      ∀ acc' ∈ processBlock env height b acc, AllMarkers (height + 1) acc' rest

end

instance (v w : SignedVote) : Decidable (SameBallot v w) := by
  unfold SameBallot
  infer_instance

instance : ∀ height reg acc o, Decidable (OnlyNewer env height reg acc o) := by
  unfold OnlyNewer
  infer_instance

section
variable {P : Nat → Registry → State × Log → Carried → Prop} [∀ height reg acc o, Decidable (P height reg acc o)]

instance EachMarker.decidable (height : Nat) (reg : Registry) :
    ∀ acc ops, Decidable (EachMarker env P height reg acc ops)
  | _, [] => .isTrue trivial
  | acc, o :: rest =>
    have := EachMarker.decidable height reg (stepOp env reg height acc o) rest
    inferInstanceAs (Decidable (_ ∧ _))

instance AllMarkers.decidable : ∀ height acc blocks, Decidable (AllMarkers env P height acc blocks)
  | _, _, [] => .isTrue trivial
  | height, _, _ :: rest =>
    have := fun acc' => AllMarkers.decidable (height + 1) acc' rest
    inferInstanceAs (Decidable (_ ∧ _))

end

end

variable {env : Env} {reg : Registry} {s s' : State} {log log' : Log} {height id : Nat} {o : Carried}
  {p : Proposal} {v w : SignedVote}

/-! ## What a marker does -/

theorem voteRoundStart_ne_zero (h : canonicalIdentity (voteIdentity env p)) : p.voteRoundStart ≠ 0 := by
  intro hzero
  rw [voteIdentity, hzero] at h
  simp [canonicalIdentity, isLowerHexText] at h

theorem applyVoteFromChain_eq_some {m : VoteMarker}
    (h : applyVoteFromChain env reg height m s = some s') :
    wellSigned env m ∧
      ∃ p, s.proposals.lookup m.vote.proposalId = some p ∧
        (securityUpgradeActiveAt env height →
          m.vote.round = voteIdentity env p ∧ p.voteRoundStart ≠ 0) ∧
        (∀ choice, p.votes.lookup m.vote.voter = some choice → choice ≠ m.vote.choice) ∧
        p.status = .open ∧ s' = { s with
          proposals := s.proposals.insert m.vote.proposalId (p.record m.vote.voter m.vote.choice)
          lastVoteBlock := s.lastVoteBlock.insert (m.vote.voter, m.vote.proposalId) height } := by
  simp only [applyVoteFromChain, bind_eq_some, Option.guard_eq_some', pure_eq_some,
    exists_const] at h
  obtain ⟨-, -, hround, hsig, haddr, -, p, hp, hopen, hchange, rfl⟩ := h
  refine ⟨by simp [wellSigned, hsig, haddr], p, hp, fun hbound => ?_, fun choice hchoice => ?_, hopen, rfl⟩
  · obtain ⟨hcanonical, hidentity⟩ := hround hbound
    have hidentity : m.vote.round = voteIdentity env p := by simpa [hp] using hidentity
    exact ⟨hidentity, voteRoundStart_ne_zero (hidentity ▸ hcanonical)⟩
  · simp only [mayChange, hchoice, Option.all_some, Bool.and_eq_true, decide_eq_true_eq] at hchange
    exact hchange.1

theorem applyProposalFromChain_eq_some {m : ProposalMarker}
    (h : applyProposalFromChain env reg height o m s = some s') :
    ∃ p : Proposal, p.votes = ∅ ∧
      p.voteRoundStart = (if securityUpgradeActiveAt env height then height else 0) ∧
      s'.proposals = s.proposals.insert s.nextId p ∧
      s'.securityUpgradeActive = s.securityUpgradeActive ∧ s'.nextId = s.nextId + 1 ∧
      p.status = .open ∧ p.votesYes = 0 ∧ p.votesNo = 0 ∧ p.votesAbstain = 0 := by
  simp only [applyProposalFromChain, bind_eq_some, Option.guard_eq_some', pure_eq_some,
    exists_const] at h
  obtain ⟨-, -, -, -, -, -, -, -, rfl⟩ := h
  exact ⟨_, rfl, rfl, rfl, rfl, rfl, rfl, rfl, rfl, rfl⟩

theorem parseVote_of_parseProposal {framed bound : Bool} {fs : List Bytes} {m : ProposalMarker}
    (h : parseProposal env framed fs = some m) : parseVote bound fs = none := by
  have hP : (ascii "P" : Bytes) ≠ ascii "V2" := by decide
  have hP' : (ascii "P" : Bytes) ≠ ascii "V" := by decide
  have hP2 : (ascii "P2" : Bytes) ≠ ascii "V2" := by decide
  unfold parseProposal at h
  split at h
  · next op _ _ _ _ _ _ _ =>
    simp only [bind_eq_some, Option.guard_eq_some', exists_const] at h
    obtain ⟨⟨rfl, -⟩, -⟩ := h
    cases bound <;> simp [parseVote, hP, guard]
  · cases bound <;> rfl
  · cases h

/-- A marker is refused, adds a proposal without votes or records a vote. -/
inductive OpCase (env : Env) (reg : Registry) (height : Nat) (o : Carried) (acc : State × Log) : State × Log → Prop
  | refused : admitted env reg height o acc.1 = [] → OpCase env reg height o acc acc
  | proposed {s' : State} {p : Proposal} :
      admitted env reg height o acc.1 = [] → p.votes = ∅ →
      p.voteRoundStart = (if securityUpgradeActiveAt env height then height else 0) →
      s'.proposals = acc.1.proposals.insert acc.1.nextId p → s'.nextId = acc.1.nextId + 1 →
      s'.securityUpgradeActive = acc.1.securityUpgradeActive → OpCase env reg height o acc (s', acc.2)
  | voted {s' : State} {p : Proposal} {v : SignedVote} :
      admitted env reg height o acc.1 = (if securityUpgradeActiveAt env height then [v] else []) →
      acc.1.proposals.lookup v.proposalId = some p →
      (securityUpgradeActiveAt env height → v.round = voteIdentity env p ∧ p.voteRoundStart ≠ 0) →
      (∀ choice, p.votes.lookup v.voter = some choice → choice ≠ v.choice) →
      s'.proposals = acc.1.proposals.insert v.proposalId (p.record v.voter v.choice) → s'.nextId = acc.1.nextId →
      s'.securityUpgradeActive = acc.1.securityUpgradeActive →
      OpCase env reg height o acc (s', acc.2 ++ admitted env reg height o acc.1)

theorem stepOp_cases (reg : Registry) (acc : State × Log) :
    OpCase env reg height o acc (stepOp env reg height acc o) := by
  unfold stepOp
  cases hop : processOpLocked env reg height o acc.1 with
  | none => exact .refused (by simp [admitted, hop])
  | some s' =>
    have hadmitted : admitted env reg height o acc.1 = opVotes env height o := by simp [admitted, hop]
    unfold processOpLocked at hop
    split at hop
    · next m hm =>
      obtain ⟨p, hvotes, hround, hprops, hact, hnext, -⟩ := applyProposalFromChain_eq_some hop
      have hnone : parseVote true (fields 124 o.data) = none := parseVote_of_parseProposal hm
      have hcase : OpCase env reg height o acc (s', acc.2) :=
        .proposed (by simp [hadmitted, opVotes, carriedVote, hnone]) hvotes hround hprops hnext hact
      simpa [hnone] using hcase
    · simp only [bind_eq_some] at hop
      obtain ⟨m, hm, happ⟩ := hop
      obtain ⟨hsigned, p, hp, hround, hchange, -, heq⟩ := applyVoteFromChain_eq_some happ
      have hnew : admitted env reg height o acc.1 =
          if securityUpgradeActiveAt env height then [m.vote] else [] := by
        rw [hadmitted, opVotes]
        split
        · next hbound =>
          rw [hbound] at hm
          simp [carriedVote, hm, hsigned, Option.filter]
        · rfl
      have hcase : OpCase env reg height o acc (s', acc.2 ++ admitted env reg height o acc.1) :=
        .voted hnew hp hround hchange (by rw [heq]) (by rw [heq]) (by rw [heq])
      rw [hnew] at hcase
      cases hbound : securityUpgradeActiveAt env height with
      | true =>
        rw [hbound] at hm
        simpa [hm, hbound] using hcase
      | false => simpa [hbound] using hcase

/-! ## The invariant -/

/-- A proposal keeps what a ballot is about. -/
structure SameRound (p' p : Proposal) : Prop where
  votes : p'.votes = p.votes
  voteRoundStart : p'.voteRoundStart = p.voteRoundStart
  creationIdentity : p'.creationIdentity = p.creationIdentity

theorem SameRound.voteIdentity {p' : Proposal} (h : SameRound p' p) :
    voteIdentity env p' = voteIdentity env p := by
  rw [Governance.voteIdentity, Governance.voteIdentity, h.voteRoundStart, h.creationIdentity]

theorem record_voteRoundStart (p : Proposal) (voter : Bytes) (choice : VoteChoice) :
    (p.record voter choice).voteRoundStart = p.voteRoundStart := by
  rcases hl : p.votes.lookup voter with _ | ⟨⟨⟩⟩ <;> cases choice <;>
    simp [Proposal.record, Proposal.uncount, Proposal.count, hl]

theorem record_creationIdentity (p : Proposal) (voter : Bytes) (choice : VoteChoice) :
    (p.record voter choice).creationIdentity = p.creationIdentity := by
  rcases hl : p.votes.lookup voter with _ | ⟨⟨⟩⟩ <;> cases choice <;>
    simp [Proposal.record, Proposal.uncount, Proposal.count, hl]

theorem voteIdentity_record (p : Proposal) (voter : Bytes) (choice : VoteChoice) :
    voteIdentity env (p.record voter choice) = voteIdentity env p := by
  rw [voteIdentity, voteIdentity, record_voteRoundStart, record_creationIdentity]

theorem Latest.of_sameRound (h : Latest env s log)
    (hs : ∀ id p', s'.proposals.lookup id = some p' →
      ∃ p, s.proposals.lookup id = some p ∧ SameRound p' p) : Latest env s' log := by
  intro id p' hp' hround voter choice hvote
  obtain ⟨p, hp, hsame⟩ := hs id p' hp'
  rw [hsame.votes] at hvote
  rw [hsame.voteRoundStart] at hround
  obtain ⟨v, hv, hvoter, hid, hidentity, hrest⟩ := h id p hp hround voter choice hvote
  exact ⟨v, hv, hvoter, hid, hidentity.trans hsame.voteIdentity.symm, hrest⟩

theorem Latest.propose (h : Latest env s log) (hvotes : p.votes = ∅)
    (hs : s'.proposals = s.proposals.insert id p) : Latest env s' log := by
  unfold Latest
  rw [hs]
  refine forall_insert h fun hround voter choice hvote => ?_
  rw [hvotes, AList.lookup_empty] at hvote
  cases hvote

theorem Latest.vote (h : Latest env s log) (hp : s.proposals.lookup v.proposalId = some p)
    (hround : v.round = voteIdentity env p) (hlast : ∀ w ∈ log, SameBallot w v → w.signedHeight < v.signedHeight)
    (hs : s'.proposals = s.proposals.insert v.proposalId (p.record v.voter v.choice)) :
    Latest env s' (log ++ [v]) := by
  intro id' p' hp' hstart voter choice hvote
  -- a record of another ballot keeps its vote, and the new vote is not of that ballot
  have hother : ∀ q, s.proposals.lookup id' = some q → q.voteRoundStart ≠ 0 →
      q.votes.lookup voter = some choice → (voter ≠ v.voter ∨ id' ≠ v.proposalId) →
      ∃ u ∈ log ++ [v], u.voter = voter ∧ u.proposalId = id' ∧ u.round = voteIdentity env q ∧
        u.choice = choice ∧ ∀ w ∈ log ++ [v], SameBallot w u → w ≠ u → w.signedHeight < u.signedHeight := by
    intro q hq hqs hqv hne
    obtain ⟨u, hu, huv, huid, hur, huc, hmax⟩ := h id' q hq hqs voter choice hqv
    refine ⟨u, mem_append_left _ hu, huv, huid, hur, huc, fun w hw hsame hne' => ?_⟩
    rcases mem_append.mp hw with hw | hw
    · exact hmax w hw hsame hne'
    · rw [mem_singleton.mp hw] at hsame
      rcases hne with hne | hne
      · exact absurd (huv.symm.trans hsame.1.symm) hne
      · exact absurd (huid.symm.trans hsame.2.1.symm) hne
  rw [hs] at hp'
  obtain ⟨rfl, rfl⟩ | ⟨hne, hp'⟩ := lookup_insert_eq_some.mp hp'
  · rw [record_voteRoundStart] at hstart
    rw [voteIdentity_record]
    obtain ⟨hvoter, rfl⟩ | ⟨hvoter, hvote⟩ := lookup_insert_eq_some.mp hvote
    · refine ⟨v, by simp, hvoter.symm, rfl, hround, rfl, fun w hw hsame hne => ?_⟩
      rcases mem_append.mp hw with hw | hw
      · exact hlast w hw hsame
      · exact absurd (mem_singleton.mp hw) hne
    · exact hother p hp hstart hvote (.inl hvoter)
  · exact hother p' hp' hstart hvote (.inr hne)

/-- What holds of the engine between two markers. -/
structure Kept (env : Env) (acc : State × Log) : Prop where
  counts : CountsOnce env acc
  unbound : acc.1.securityUpgradeActive = false →
    acc.2 = [] ∧ ∀ id p, acc.1.proposals.lookup id = some p → p.voteRoundStart = 0
  ids : ∀ id p, acc.1.proposals.lookup id = some p → id < acc.1.nextId
  known : ∀ w ∈ acc.2, w.proposalId < acc.1.nextId
  recorded : ∀ w ∈ acc.2, ∀ p, acc.1.proposals.lookup w.proposalId = some p → w.round = voteIdentity env p →
    (p.votes.lookup w.voter).isSome = true

variable {acc acc' : State × Log}

theorem CountsOnce.of_unbound (h : ∀ id p, s.proposals.lookup id = some p → p.voteRoundStart = 0) :
    CountsOnce env (s, []) := ⟨nodup_nil, fun id p hp hround => absurd (h id p hp) hround⟩

theorem Kept.propose (h : Kept env acc) (hvotes : p.votes = ∅)
    (hround : p.voteRoundStart = (if securityUpgradeActiveAt env height then height else 0))
    (hactive : acc.1.securityUpgradeActive = securityUpgradeActiveAt env height)
    (hprops : s'.proposals = acc.1.proposals.insert acc.1.nextId p) (hnext : s'.nextId = acc.1.nextId + 1)
    (hact : s'.securityUpgradeActive = acc.1.securityUpgradeActive) : Kept env (s', acc.2) := by
  refine ⟨⟨h.counts.once, h.counts.latest.propose hvotes hprops⟩, fun hoff => ?_, ?_, fun w hw => ?_,
    fun w hw q hq hidentity => ?_⟩
  · rw [hact] at hoff
    refine ⟨(h.unbound hoff).1, ?_⟩
    rw [hprops]
    exact forall_insert (h.unbound hoff).2 (by rw [hround, if_neg (by simp [← hactive, hoff])])
  · rw [hprops, hnext]
    exact forall_insert (fun id q hq => (h.ids id q hq).trans (Nat.lt_succ_self _)) (Nat.lt_succ_self _)
  · rw [hnext]
    exact (h.known w hw).trans (Nat.lt_succ_self _)
  · rw [hprops] at hq
    obtain ⟨hid, -⟩ | ⟨-, hq⟩ := lookup_insert_eq_some.mp hq
    · exact absurd (h.known w hw) (by rw [hid]; exact lt_irrefl _)
    · exact h.recorded w hw q hq hidentity

theorem Kept.vote (h : Kept env acc) (hactive : acc.1.securityUpgradeActive)
    (hp : acc.1.proposals.lookup v.proposalId = some p) (hround : v.round = voteIdentity env p)
    (hlast : ∀ w ∈ acc.2, SameBallot w v → w.signedHeight < v.signedHeight)
    (hprops : s'.proposals = acc.1.proposals.insert v.proposalId (p.record v.voter v.choice))
    (hnext : s'.nextId = acc.1.nextId) (hact : s'.securityUpgradeActive = acc.1.securityUpgradeActive) :
    Kept env (s', acc.2 ++ [v]) := by
  refine ⟨⟨?_, h.counts.latest.vote hp hround hlast hprops⟩, fun hoff => ?_, ?_, fun w hw => ?_,
    fun w hw q hq hidentity => ?_⟩
  · refine nodup_append.mpr ⟨h.counts.once, nodup_singleton v, fun w hw u hu heq => ?_⟩
    rw [mem_singleton.mp hu] at heq
    exact lt_irrefl _ (hlast v (heq ▸ hw) ⟨rfl, rfl, rfl⟩)
  · rw [show (s', acc.2 ++ [v]).1.securityUpgradeActive = true from hact.trans hactive] at hoff
    cases hoff
  · rw [hprops, hnext]
    exact forall_insert h.ids (h.ids _ p hp)
  · rw [hnext]
    rcases mem_append.mp hw with hw | hw
    · exact h.known w hw
    · exact mem_singleton.mp hw ▸ h.ids _ p hp
  · rw [hprops] at hq
    have hvoter : (w.voter = v.voter ∨ (p.votes.lookup w.voter).isSome) →
        ((p.record v.voter v.choice).votes.lookup w.voter).isSome = true := by
      intro hor
      rw [Proposal.record, lookup_insert_ite]
      split
      · rfl
      · next hne => exact hor.resolve_left hne
    rcases mem_append.mp hw with hw | hw
    · obtain ⟨hid, rfl⟩ | ⟨-, hq⟩ := lookup_insert_eq_some.mp hq
      · rw [voteIdentity_record] at hidentity
        exact hvoter (.inr (h.recorded w hw p (hid ▸ hp) hidentity))
      · exact h.recorded w hw q hq hidentity
    · cases mem_singleton.mp hw
      obtain ⟨-, rfl⟩ | ⟨hne, -⟩ := lookup_insert_eq_some.mp hq
      · exact hvoter (.inl rfl)
      · exact absurd rfl hne

theorem Kept.step (h : Kept env acc) (hactive : acc.1.securityUpgradeActive = securityUpgradeActiveAt env height)
    (hop : OpCase env reg height o acc acc') (hnewer : OnlyNewer env height reg acc o) :
    Kept env acc' ∧ acc'.1.securityUpgradeActive = securityUpgradeActiveAt env height := by
  cases hop with
  | refused => exact ⟨h, hactive⟩
  | proposed _ hvotes hround hprops hnext hact =>
    exact ⟨h.propose hvotes hround hactive hprops hnext hact, hact.trans hactive⟩
  | @voted s' p v hadmitted hp hround _ hprops hnext hact =>
    refine ⟨?_, hact.trans hactive⟩
    cases hbound : securityUpgradeActiveAt env height with
    | true =>
      rw [hbound, if_pos rfl] at hadmitted
      have hlast := hnewer v (by rw [hadmitted]; exact mem_singleton_self v)
      rw [hadmitted]
      exact h.vote (hactive.trans hbound) hp (hround hbound).1 hlast hprops hnext hact
    | false =>
      -- before the upgrade no round is bound and no vote is logged
      rw [hbound, if_neg Bool.false_ne_true] at hadmitted
      obtain ⟨hlog, hlegacy⟩ := h.unbound (hactive.trans hbound)
      have hlegacy' : ∀ id q, s'.proposals.lookup id = some q → q.voteRoundStart = 0 := by
        rw [hprops]
        exact forall_insert hlegacy ((record_voteRoundStart ..).trans (hlegacy _ p hp))
      rw [hadmitted, hlog, append_nil]
      refine ⟨.of_unbound hlegacy', fun _ => ⟨rfl, hlegacy'⟩, ?_, nofun, nofun⟩
      rw [hprops, hnext]
      exact forall_insert h.ids (h.ids _ p hp)

/-- An older vote takes the place of a newer one for another choice, so the newer one is no longer on record. -/
theorem Kept.newer (h : Kept env acc) (hop : OpCase env reg height o acc acc') (hcounts : CountsOnce env acc') :
    OnlyNewer env height reg acc o := by
  intro v' hv' w hw hsame
  cases hop with
  | refused hnone | proposed hnone =>
    rw [hnone] at hv'
    cases hv'
  | @voted s' p v hadmitted hp hround hchange hprops _ _ =>
    cases hbound : securityUpgradeActiveAt env height with
    | false =>
      rw [hadmitted, hbound] at hv'
      cases hv'
    | true =>
      rw [hbound, if_pos rfl] at hadmitted
      rw [hadmitted] at hv' hcounts
      rw [mem_singleton.mp hv'] at hsame ⊢
      obtain ⟨hidentity, hstart⟩ := hround hbound
      obtain ⟨hvoter, hid, hround'⟩ := hsame
      obtain ⟨choice, hchoice⟩ := Option.isSome_iff_exists.mp
        (h.recorded w hw p (hid ▸ hp) (hround'.trans hidentity))
      rw [hvoter] at hchoice
      obtain ⟨before, hbefore, hbv, hbid, hbround, hbchoice, hbmax⟩ :=
        h.counts.latest _ p hp hstart v.voter choice hchoice
      have hrecord : (p.record v.voter v.choice).votes.lookup v.voter = some v.choice := AList.lookup_insert _
      obtain ⟨after, hafter, hav, haid, haround, hachoice, hamax⟩ :=
        hcounts.latest v.proposalId (p.record v.voter v.choice) (by rw [hprops]; exact AList.lookup_insert _)
          (by rwa [record_voteRoundStart]) v.voter v.choice hrecord
      rw [voteIdentity_record] at haround
      have hfresh : v ∉ acc.2 := fun hmem =>
        (nodup_append.mp hcounts.once).2.2 v hmem v (mem_singleton_self v) rfl
      rcases mem_append.mp hafter with hafter | hafter
      · have hne : before ≠ after := by
          rintro rfl
          exact hchange choice hchoice (hbchoice.symm.trans hachoice)
        have hballot : SameBallot after before :=
          ⟨hav.trans hbv.symm, haid.trans hbid.symm, haround.trans hbround.symm⟩
        have hlower := hbmax after hafter hballot hne.symm
        have hhigher := hamax before (mem_append_left _ hbefore)
          ⟨hballot.1.symm, hballot.2.1.symm, hballot.2.2.symm⟩ hne
        omega
      · rw [mem_singleton.mp hafter] at hamax
        exact hamax w (mem_append_left _ hw) ⟨hvoter, hid, hround'⟩ fun heq => hfresh (heq ▸ hw)

/-- The markers of a block. -/
theorem Kept.markers (reg : Registry) (ops : List Carried) (h : Kept env acc)
    (hactive : acc.1.securityUpgradeActive = securityUpgradeActiveAt env height) :
    (EachMarker env (OnlyNewer env) height reg acc ops ↔
      EachMarker env (fun height reg acc o => CountsOnce env (stepOp env reg height acc o)) height reg acc ops) ∧
    (EachMarker env (OnlyNewer env) height reg acc ops →
      Kept env (ops.foldl (stepOp env reg height) acc) ∧
        (ops.foldl (stepOp env reg height) acc).1.securityUpgradeActive = securityUpgradeActiveAt env height) := by
  induction ops generalizing acc with
  | nil => exact ⟨Iff.rfl, fun _ => ⟨h, hactive⟩⟩
  | cons o rest ih =>
    have hcase : OpCase env reg height o acc (stepOp env reg height acc o) := stepOp_cases reg acc
    have hfirst : OnlyNewer env height reg acc o ↔ CountsOnce env (stepOp env reg height acc o) :=
      ⟨fun hnewer => (h.step hactive hcase hnewer).1.counts, h.newer hcase⟩
    constructor
    · refine (and_congr_right fun hnewer => ?_).trans (and_congr_left' hfirst)
      obtain ⟨hnext, hactive'⟩ := h.step hactive hcase hnewer
      exact (ih hnext hactive').1
    · rintro ⟨hnewer, hrest⟩
      obtain ⟨hnext, hactive'⟩ := h.step hactive hcase hnewer
      exact (ih hnext hactive').2 hrest

/-! ## Blocks -/

theorem settleProposal_fields (reg : Registry) (height : Nat) (p : Proposal) :
    ∃ status lock, settleProposal reg height p = { p with status := status, timelockUntil := lock } := by
  unfold settleProposal checkAndFinalize checkTimelockActivation
  dsimp only
  split
  · split_ifs
    · exact ⟨_, _, rfl⟩
    · split <;> exact ⟨_, _, rfl⟩
    · exact ⟨_, _, rfl⟩
    · exact ⟨_, _, rfl⟩
  · split <;> exact ⟨_, _, rfl⟩
  · exact ⟨_, _, rfl⟩

theorem expireProposal_fields (reg : Registry) (height : Nat) (p : Proposal) :
    ∃ status lock, expireProposal reg height p = { p with status := status, timelockUntil := lock } := by
  unfold expireProposal finalizeProposal
  dsimp only
  split_ifs
  · split <;> exact ⟨_, _, rfl⟩
  · exact ⟨_, _, rfl⟩
  · exact ⟨_, _, rfl⟩

theorem closeBlock_lookup {p' : Proposal} (h : (closeBlock reg height s).proposals.lookup id = some p') :
    ∃ p, s.proposals.lookup id = some p ∧ p' = expireProposal reg height (settleProposal reg height p) ∧
      ∃ status lock, p' = { p with status := status, timelockUntil := lock } := by
  have hlookup : (Table.mapRows (fun _ => expireProposal reg height)
      (Table.mapRows (fun _ => settleProposal reg height) s.proposals)).lookup id = some p' := by
    unfold closeBlock at h
    dsimp only at h
    split at h
    · exact (lookup_keep.mp h).1
    · exact h
  simp only [lookup_mapRows, Option.map_eq_some_iff] at hlookup
  obtain ⟨_, ⟨p, hp, rfl⟩, rfl⟩ := hlookup
  obtain ⟨status, lock, hsettle⟩ := settleProposal_fields reg height p
  obtain ⟨status', lock', hexpire⟩ := expireProposal_fields reg height (settleProposal reg height p)
  exact ⟨p, hp, rfl, status', lock', by rw [hexpire, hsettle]⟩

theorem closeBlock_sameRound {p' : Proposal} (h : (closeBlock reg height s).proposals.lookup id = some p') :
    ∃ p, s.proposals.lookup id = some p ∧ SameRound p' p := by
  obtain ⟨p, hp, -, _, _, rfl⟩ := closeBlock_lookup h
  exact ⟨p, hp, rfl, rfl, rfl⟩

theorem closeBlock_active : (closeBlock reg height s).securityUpgradeActive = s.securityUpgradeActive := by
  unfold closeBlock
  dsimp only
  split <;> rfl

theorem closeBlock_nextId : (closeBlock reg height s).nextId = s.nextId := by
  unfold closeBlock
  dsimp only
  split <;> rfl

theorem Kept.close (reg : Registry) (height : Nat) (h : Kept env acc) :
    Kept env (closeBlock reg height acc.1, acc.2) where
  counts := ⟨h.counts.once, h.counts.latest.of_sameRound fun _ _ => closeBlock_sameRound⟩
  unbound hoff := by
    obtain ⟨hlog, hlegacy⟩ := h.unbound (closeBlock_active.symm.trans hoff)
    refine ⟨hlog, fun id p' hp' => ?_⟩
    obtain ⟨p, hp, hsame⟩ := closeBlock_sameRound hp'
    rw [hsame.voteRoundStart]
    exact hlegacy id p hp
  ids id p' hp' := by
    obtain ⟨p, hp, -⟩ := closeBlock_sameRound hp'
    rw [closeBlock_nextId]
    exact h.ids id p hp
  known w hw := by
    rw [closeBlock_nextId]
    exact h.known w hw
  recorded w hw p' hp' hidentity := by
    obtain ⟨p, hp, hsame⟩ := closeBlock_sameRound hp'
    rw [hsame.votes]
    exact h.recorded w hw p hp (hidentity.trans hsame.voteIdentity)

theorem Kept.migrate (h : Kept env acc) (hoff : acc.1.securityUpgradeActive = false)
    (hm : migrate env acc.1 = some s') : Kept env (s', acc.2) ∧ s'.securityUpgradeActive := by
  obtain ⟨hlog, hlegacy⟩ := h.unbound hoff
  unfold Governance.migrate at hm
  split at hm
  · cases hm
    rw [hlog]
    have hrow : ∀ id p', (Table.mapRows (fun _ => restartRound env) acc.1.proposals).lookup id = some p' →
        ∃ p, acc.1.proposals.lookup id = some p ∧ p' = restartRound env p := by
      intro id p' hp'
      rw [lookup_mapRows, Option.map_eq_some_iff] at hp'
      obtain ⟨p, hp, rfl⟩ := hp'
      exact ⟨p, hp, rfl⟩
    refine ⟨⟨⟨nodup_nil, fun id p' hp' hround voter choice hvote => ?_⟩, (by cases ·), fun id p' hp' => ?_,
      nofun, nofun⟩, rfl⟩
    · obtain ⟨p, hp, rfl⟩ := hrow id p' hp'
      unfold restartRound at hvote hround
      split at hvote
      · rw [AList.lookup_empty] at hvote
        cases hvote
      · next hdone =>
        rw [if_neg hdone] at hround
        exact absurd (hlegacy id p hp) hround
    · obtain ⟨p, hp, -⟩ := hrow id p' hp'
      exact h.ids id p hp
  · cases hm

theorem Kept.enter (h : Kept env acc)
    (hactive : acc.1.securityUpgradeActive → securityUpgradeActiveAt env height)
    (he : enterBlock env height acc.1 = some s') :
    Kept env (s', acc.2) ∧ s'.securityUpgradeActive = securityUpgradeActiveAt env height := by
  unfold enterBlock at he
  split at he
  · next hgo =>
    simp only [Bool.and_eq_true, Bool.not_eq_true'] at hgo
    obtain ⟨hkept, hon⟩ := h.migrate hgo.2 he
    exact ⟨hkept, hon.trans hgo.1.symm⟩
  · next hstay =>
    cases he
    refine ⟨h, ?_⟩
    cases hact : acc.1.securityUpgradeActive with
    | true => exact (hactive hact).symm
    | false => simpa [hact] using hstay

theorem Kept.run {blocks : List GovBlock} (h : Kept env acc)
    (hactive : acc.1.securityUpgradeActive → securityUpgradeActiveAt env height) :
    (AllMarkers env (OnlyNewer env) height acc blocks ↔
      AllMarkers env (fun height reg acc o => CountsOnce env (stepOp env reg height acc o)) height acc blocks) ∧
    (AllMarkers env (OnlyNewer env) height acc blocks →
      ∀ acc' ∈ run env height acc blocks, CountsOnce env acc') := by
  induction blocks generalizing height acc with
  | nil =>
    refine ⟨Iff.rfl, fun _ acc' hacc' => ?_⟩
    cases hacc'
    exact h.counts
  | cons b rest ih =>
    simp only [AllMarkers, processBlock, Governance.run, Option.mem_def, bind_eq_some, pure_eq_some]
    cases hentered : enterBlock env height acc.1 with
    | none => simp
    | some s =>
      obtain ⟨hkept, hon⟩ := h.enter hactive hentered
      obtain ⟨hiff, hfold⟩ := hkept.markers b.registry b.carried hon
      have hnext := fun hnewer => (hfold hnewer).1.close b.registry height
      have hactive' : EachMarker env (OnlyNewer env) height b.registry (s, acc.2) b.carried →
          (closeBlock b.registry height (b.carried.foldl (stepOp env b.registry height)
            (s, acc.2)).1).securityUpgradeActive → securityUpgradeActiveAt env (height + 1) := by
        intro hnewer hup
        rw [closeBlock_active, (hfold hnewer).2] at hup
        simp only [securityUpgradeActiveAt, Bool.and_eq_true, decide_eq_true_eq] at hup ⊢
        exact ⟨hup.1, by omega⟩
      simp only [Option.some.injEq, forall_eq', exists_eq_left']
      constructor
      · refine (and_congr_right fun hnewer => ?_).trans (and_congr_left' hiff)
        exact (ih (hnext hnewer) (hactive' hnewer)).1
      · rintro ⟨hnewer, hrest⟩
        exact (ih (hnext hnewer) (hactive' hnewer)).2 hrest

/-! ## Runs from the upgrade -/

/-- A state from before the upgrade: no proposal is in a bound round. -/
structure Unbound (s : State) : Prop where
  inactive : s.securityUpgradeActive = false
  legacy : ∀ id p, s.proposals.lookup id = some p → p.voteRoundStart = 0
  ids : ∀ id p, s.proposals.lookup id = some p → id < s.nextId

/-- After each marker of a run every vote has counted once and the latest one signed is on record, exactly when each
vote that the engine admits was signed after the applied votes of its ballot. -/
theorem votes_count_once {blocks : List GovBlock} (hs : Unbound s) :
    (AllMarkers env (OnlyNewer env) height (s, []) blocks ↔
      AllMarkers env (fun height reg acc o => CountsOnce env (stepOp env reg height acc o)) height (s, []) blocks) ∧
    (AllMarkers env (OnlyNewer env) height (s, []) blocks →
      ∀ acc, run env height (s, []) blocks = some acc → CountsOnce env acc) := by
  have hkept : Kept env (s, []) :=
    ⟨.of_unbound hs.legacy, fun _ => ⟨rfl, hs.legacy⟩, hs.ids, nofun, nofun⟩
  exact hkept.run fun hon => by
    rw [show (s, ([] : Log)).1 = s from rfl, hs.inactive] at hon
    cases hon

/-! ### A vote restored -/

/-- A signature is the key followed by the signed text in hexadecimal. -/
def sampleEnv : Env where
  securityUpgradeHeight := 2880
  stateMigrationHeight := 0
  chainIdPrefix := []
  sha256 _ := .zero
  verifyGovSig pubkey sig challenge := sig = pubkey ++ toHex challenge
  pubKeyHexToAddress pubkey := pubkey
  base64UrlDecode text := text

def sampleRegistry : Registry := ⟨true, fun _ => true, fun _ => 7⟩

def sampleStart : State := ⟨1, ∅, ∅, ∅, false⟩

def sampleMarker (pieces : List Bytes) : Carried :=
  ⟨.zero, 0, joinWith 124 (ascii "VELD_GOV" :: pieces)⟩

/-- A proposal of `alice`, signed at the height of the upgrade. -/
def sampleProposal : Carried :=
  sampleMarker [ascii "P", ascii "general", ascii "alice", ascii "t", ascii "d", ascii "0", ascii "2880",
    ascii "alice", ascii "alice" ++ toHex (buildProposalChallenge sampleEnv .general (ascii "alice")
      (ascii "t") (ascii "d") 2880 true false)]

def sampleVote (text : String) (choice : VoteChoice) (signedHeight : Nat) : Carried :=
  sampleMarker [ascii "V2", ascii "1", ascii "bob", ascii text, toDecimal signedHeight, ascii "bob",
    ascii "bob" ++ toHex (buildVoteChallenge sampleEnv 1 choice signedHeight Hash256.zero.toHex),
    Hash256.zero.toHex]

def sampleGovBlock (carried : List Carried) : GovBlock := ⟨carried, sampleRegistry⟩

def sampleReplay : List GovBlock :=
  [sampleGovBlock [sampleProposal], sampleGovBlock [sampleVote "y" .yes 2881]] ++
    List.replicate 5 (sampleGovBlock []) ++ [sampleGovBlock [sampleVote "n" .no 2887]] ++
    List.replicate 5 (sampleGovBlock []) ++ [sampleGovBlock [sampleVote "y" .yes 2881]]

theorem sampleStart_unbound : Unbound sampleStart := by
  refine ⟨rfl, fun id p h => ?_, fun id p h => ?_⟩
  all_goals
    rw [show sampleStart.proposals = ∅ from rfl, AList.lookup_empty] at h
    cases h

def sampleYes : SignedVote := ⟨1, ascii "bob", Hash256.zero.toHex, .yes, 2881⟩
def sampleNo : SignedVote := ⟨1, ascii "bob", Hash256.zero.toHex, .no, 2887⟩

/-- The yes vote counts twice, and yes is on record although the no vote was signed later. -/
theorem vote_counts_twice : ∃ acc, run sampleEnv 2880 (sampleStart, []) sampleReplay = some acc ∧
    acc.2 = [sampleYes, sampleNo, sampleYes] ∧ ¬ acc.2.Nodup ∧ ¬ Latest sampleEnv acc.1 acc.2 := by
  have hrecord : ((run sampleEnv 2880 (sampleStart, []) sampleReplay).map fun acc =>
      (acc.2, (acc.1.proposals.lookup 1).map fun p => (p.voteRoundStart, p.votes.lookup (ascii "bob"),
        voteIdentity sampleEnv p))) =
      some ([sampleYes, sampleNo, sampleYes], some (2880, some .yes, Hash256.zero.toHex)) := by
    decide +kernel
  obtain ⟨⟨s, log⟩, hrun, heq⟩ := Option.map_eq_some_iff.mp hrecord
  simp only [Prod.mk.injEq, Option.map_eq_some_iff] at heq
  obtain ⟨rfl, p, hp, hstart, hvote, hround⟩ := heq
  have htwice : ¬ [sampleYes, sampleNo, sampleYes].Nodup := by decide
  refine ⟨_, hrun, rfl, htwice, fun hlatest => ?_⟩
  obtain ⟨v, hv, -, -, -, hchoice, hmax⟩ := hlatest 1 p hp (by rw [hstart]; decide) _ _ hvote
  have hyes : v = sampleYes := by
    simp only [mem_cons, not_mem_nil, or_false] at hv
    rcases hv with rfl | rfl | rfl
    · rfl
    · cases hchoice
    · rfl
  have hlt := hmax sampleNo (by simp) (hyes ▸ ⟨rfl, rfl, rfl⟩) (by rw [hyes]; decide)
  rw [hyes] at hlt
  exact absurd hlt (by decide)

/-- The yes vote comes again for the choice on record, and again during the cooldown after the no vote. -/
def sampleRefused : List GovBlock :=
  [sampleGovBlock [sampleProposal], sampleGovBlock [sampleVote "y" .yes 2881],
      sampleGovBlock [sampleVote "y" .yes 2881]] ++ List.replicate 4 (sampleGovBlock []) ++
    [sampleGovBlock [sampleVote "n" .no 2887], sampleGovBlock [sampleVote "y" .yes 2881]]

theorem votes_count_once_refused : ∃ acc, run sampleEnv 2880 (sampleStart, []) sampleRefused = some acc ∧
    acc.2 = [sampleYes, sampleNo] ∧ CountsOnce sampleEnv acc := by
  have hnewer : AllMarkers sampleEnv (OnlyNewer sampleEnv) 2880 (sampleStart, []) sampleRefused := by
    decide +kernel
  have hlog : (run sampleEnv 2880 (sampleStart, []) sampleRefused).map (·.2) = some [sampleYes, sampleNo] := by
    decide +kernel
  obtain ⟨acc, hrun, hlog⟩ := Option.map_eq_some_iff.mp hlog
  exact ⟨acc, hrun, hlog, (votes_count_once sampleStart_unbound).2 hnewer acc hrun⟩

end Veld.Governance
