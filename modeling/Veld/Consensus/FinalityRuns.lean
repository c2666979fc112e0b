import Veld.Consensus.FinalityState

/-!
# Records along a chain

What holds of the record of the last certificate, and of the record that may authorize an anchor, in every
state that blocks lead to.
-/

namespace Veld.Finality

open Wire List

/-- A record that a certificate on the chain has left: its target and its carrier are blocks of the chain. -/
structure Retained (chain : List Hash256) (r : FinalizedRecord) : Prop where
  certified : Certified r
  epoch : 1 ≤ r.epochId
  target : chain[r.target.height.toNat]? = some r.target.hash
  carrier : chain[r.carrier.height.toNat]? = some r.carrier.hash
  setRoot : r.setRoot ≠ .zero
  certCommit : r.certCommit ≠ .zero

/-- One record is the other, or the other has finalized its carrier. -/
def Before (a r : FinalizedRecord) : Prop :=
  a = r ∨ (a.target.height.toNat < r.target.height.toNat ∧ a.carrier.height.toNat ≤ r.target.height.toNat)

/-- The state of finality over the chain below the next block. -/
structure OnChain (chain : List Hash256) (f : FinalityState) : Prop where
  snapshots : ∀ s ∈ f.snapshots, 1 ≤ s.epochId ∧ s.root ≠ .zero
  record : f.record.isNull = false → Retained chain f.record
  certified : f.certifiedCarrierRecord.isNull = false →
    Retained chain f.certifiedCarrierRecord ∧ f.record.isNull = false ∧ Before f.certifiedCarrierRecord f.record
  inactive : f.securityUpgradeActive = false → chain.length ≤ consensusSecurityUpgradeHeight
  behind : f.securityUpgradeActive → consensusSecurityUpgradeActive f.record.carrier.height.toNat →
    f.certifiedCarrierRecord.isNull = false →
    f.certifiedCarrierRecord.carrier.height.toNat ≤ f.record.target.height.toNat

section
variable {K : Context} {chain : List Hash256} {f f' : FinalityState} {r a : FinalizedRecord} {hash : Hash256}

theorem Retained.extend (h : Retained chain r) (hash : Hash256) : Retained (chain ++ [hash]) r where
  certified := h.certified
  epoch := h.epoch
  target := by
    rw [List.getElem?_append_left (List.getElem?_eq_some_iff.mp h.target).1]
    exact h.target
  carrier := by
    rw [List.getElem?_append_left (List.getElem?_eq_some_iff.mp h.carrier).1]
    exact h.carrier
  setRoot := h.setRoot
  certCommit := h.certCommit

theorem Retained.carrier_lt (h : Retained chain r) : r.carrier.height.toNat < chain.length :=
  (List.getElem?_eq_some_iff.mp h.carrier).1

theorem Retained.target_lt (h : Retained chain r) : r.target.height.toNat < r.carrier.height.toNat :=
  h.certified.target_lt_carrier

theorem Before.carrier_le (h : Before a r) (hr : Certified r) :
    a.carrier.height.toNat ≤ r.carrier.height.toNat ∧ a.target.height.toNat ≤ r.target.height.toNat := by
  have := hr.target_lt_carrier
  rcases h with rfl | ⟨htarget, hcarrier⟩
  · exact ⟨le_rfl, le_rfl⟩
  · omega

theorem OnChain.initial : OnChain [] .initial where
  snapshots _ h := by cases h
  record h := by cases h
  certified h := by cases h
  inactive _ := Nat.zero_le _
  behind h := by cases h

theorem OnChain.onBlockHeight (h : OnChain chain f) (hash : Hash256) :
    OnChain (chain ++ [hash]) (f.onBlockHeight chain.length) ∧
      (f.onBlockHeight chain.length).anchorAuthorizationRecord = f.anchorAuthorizationRecord ∧
      (f.onBlockHeight chain.length).record = f.record ∧
      (f.onBlockHeight chain.length).consecutiveQualifiedEpochs = f.consecutiveQualifiedEpochs := by
  have hrecord : f.record.isNull = false → Retained (chain ++ [hash]) f.record := fun hr => (h.record hr).extend hash
  unfold FinalityState.onBlockHeight
  split_ifs with hup
  · simp only [Bool.and_eq_true, Bool.not_eq_true'] at hup
    obtain ⟨-, hoff⟩ := hup
    refine ⟨⟨h.snapshots, hrecord, fun hr => ⟨hrecord hr, hr, .inl rfl⟩, nofun,
      fun _ hlate hr => ?_⟩, ?_, rfl, rfl⟩
    · have hlate : consensusSecurityUpgradeHeight ≤ f.record.carrier.height.toNat := of_decide_eq_true hlate
      have := (h.record hr).carrier_lt
      have := h.inactive hoff
      omega
    · simp [FinalityState.anchorAuthorizationRecord, hoff]
  · refine ⟨⟨h.snapshots, hrecord, fun hr => ?_, fun hoff => ?_, h.behind⟩, rfl, rfl, rfl⟩
    · obtain ⟨hret, hsome, hbefore⟩ := h.certified hr
      exact ⟨hret.extend hash, hsome, hbefore⟩
    · simp only [hoff, Bool.not_false, Bool.and_true, consensusSecurityUpgradeActive, decide_eq_true_eq] at hup
      rw [length_append, length_singleton]
      omega

structure Progress (height : Nat) (f f' : FinalityState) : Prop where
  finalized : f.finalizedHeight ≤ f'.finalizedHeight
  active : f'.securityUpgradeActive = f.securityUpgradeActive
  authorization : f'.anchorAuthorizationRecord = f.anchorAuthorizationRecord ∨
    (f'.anchorAuthorizationRecord.isNull = false ∧ f'.record.carrier.height.toNat = height ∧
      (f.anchorAuthorizationRecord.isNull = false →
        f.anchorAuthorizationRecord.target.height.toNat < f'.anchorAuthorizationRecord.target.height.toNat ∧
        f.anchorAuthorizationRecord.carrier.height.toNat < f'.anchorAuthorizationRecord.carrier.height.toNat))

theorem Progress.refl (height : Nat) (f : FinalityState) : Progress height f f := ⟨le_rfl, rfl, .inl rfl⟩

theorem onCertificate_eq_some {qc : QuorumCert} {carrier : CheckpointRef} {canonical : Hash256}
    (h : f.onCertificate K qc carrier canonical = some f') :
    ∃ s ∈ f.snapshots, ∃ candidate, finalize K qc s carrier = some candidate ∧ qc.target.hash = canonical ∧
      (f.record.isNull = false → f.record.target.height < candidate.target.height) ∧
      f' = { f with
        certifiedCarrierRecord :=
          if f.securityUpgradeActive && !f.record.isNull && f.record.carrier.height ≤ candidate.target.height then
            f.record
          else f.certifiedCarrierRecord
        record := candidate } := by
  simp only [FinalityState.onCertificate, bind_eq_some, Option.guard_eq_some', exists_const,
    pure_eq_some] at h
  obtain ⟨s, hs, ⟨-, hhash, -⟩, candidate, hfinal, hsupersedes, rfl⟩ := h
  refine ⟨s, mem_of_find?_eq_some hs, candidate, hfinal, hhash, fun hnull => ?_, rfl⟩
  simpa [recordSupersedes, hnull] using hsupersedes

section
variable (hcommit : f'.record.isNull = false → f'.record.certCommit ≠ .zero)
  (h : OnChain (chain ++ [hash]) f) (hfits : chain.length < 2 ^ 64)
  (hbelow : f.record.isNull = false → f.record.carrier.height.toNat < chain.length)
include hcommit h hfits hbelow

theorem OnChain.onCertificate {qc : QuorumCert}
    (htarget : chain[qc.target.height.toNat]? = some qc.target.hash)
    (hcert : f.onCertificate K qc ⟨UInt64.ofNat chain.length, hash⟩ qc.target.hash = some f') :
    OnChain (chain ++ [hash]) f' ∧ Progress chain.length f f' := by
  obtain ⟨s, hs, candidate, hfinal, -, hnewer, rfl⟩ := onCertificate_eq_some hcert
  obtain ⟨hcertified, hqc, hcarrier, hepoch, hroot, -⟩ := finalize_eq_some hfinal
  have hheight : candidate.carrier.height.toNat = chain.length := by
    rw [hcarrier]
    exact Nat.mod_eq_of_lt hfits
  have hretained : Retained (chain ++ [hash]) candidate := by
    refine ⟨hcertified, hepoch ▸ (h.snapshots s hs).1, ?_, ?_, hroot ▸ (h.snapshots s hs).2,
      hcommit hcertified.isNull⟩
    · rw [hqc, List.getElem?_append_left (List.getElem?_eq_some_iff.mp htarget).1]
      exact htarget
    · rw [hheight, hcarrier, List.getElem?_concat_length]
  have hsome : candidate.isNull = false := hcertified.isNull
  -- the new target is at or above the carrier of the old record
  have hstep : f.record.isNull = false → f.record.target.height.toNat < candidate.target.height.toNat ∧
      f.record.carrier.height.toNat ≤ candidate.target.height.toNat := fun hr =>
    have hlt : f.record.target.height.toNat < candidate.target.height.toNat := hnewer hr
    ⟨hlt, (h.record hr).certified.carrier_le_target hcertified hlt⟩
  have hfinalized : f.finalizedHeight ≤ candidate.target.height.toNat := by
    unfold FinalityState.finalizedHeight
    split_ifs with hnull
    · exact Nat.zero_le _
    · exact (hstep (by simpa using hnull)).1.le
  have hcertifies : f.record.isNull = false →
      (f.securityUpgradeActive && !f.record.isNull && f.record.carrier.height ≤ candidate.target.height) =
        f.securityUpgradeActive := fun hr => by
    have hle : f.record.carrier.height ≤ candidate.target.height := (hstep hr).2
    simp [hr, hle]
  refine ⟨⟨h.snapshots, fun _ => hretained, fun hc => ?_, h.inactive, fun hactive hlate hc => ?_⟩,
    ⟨?_, rfl, ?_⟩⟩
  · dsimp only at hc ⊢
    refine ⟨?_, hsome, ?_⟩
    · split_ifs at hc ⊢ with hcond
      · exact h.record hc
      · exact (h.certified hc).1
    · split_ifs at hc ⊢ with hcond
      · exact .inr (hstep hc)
      · obtain ⟨hret, hr, hbefore⟩ := h.certified hc
        have hle := hbefore.carrier_le (h.record hr).certified
        have := hstep hr
        exact .inr ⟨by omega, by omega⟩
  · dsimp only at hc ⊢
    split_ifs at hc ⊢ with hcond
    · exact (hstep hc).2
    · obtain ⟨-, hr, -⟩ := h.certified hc
      rw [hcertifies hr] at hcond
      exact absurd hactive hcond
  · change f.finalizedHeight ≤ if candidate.isNull then 0 else candidate.target.height.toNat
    rw [if_neg (by rw [hsome]; decide)]
    exact hfinalized
  · simp only [FinalityState.anchorAuthorizationRecord]
    cases hactive : f.securityUpgradeActive with
    | false =>
      simp only [Bool.false_eq_true, if_false]
      refine .inr ⟨hsome, hheight, fun hr => ⟨(hstep hr).1, ?_⟩⟩
      rw [hheight]
      exact hbelow hr
    | true =>
      simp only [if_true]
      cases hr : f.record.isNull with
      | true =>
        left
        simp
      | false =>
        have hle : f.record.carrier.height ≤ candidate.target.height := (hstep hr).2
        simp only [Bool.not_false, Bool.and_true, hle, decide_true, if_true]
        cases hc : f.certifiedCarrierRecord.isNull with
        | true => exact .inr ⟨hr, hheight, nofun⟩
        | false =>
          obtain ⟨-, -, heq | ⟨htargets, hcarriers⟩⟩ := h.certified hc
          · exact .inl heq.symm
          · have := (h.record hr).target_lt
            exact .inr ⟨hr, hheight, fun _ => ⟨htargets, by omega⟩⟩

theorem OnChain.feedFinalityCerts {cert : Option DecodedQc}
    (hfeed : f.feedFinalityCerts K chain hash cert = some f') :
    OnChain (chain ++ [hash]) f' ∧ Progress chain.length f f' := by
  unfold FinalityState.feedFinalityCerts at hfeed
  cases cert with
  | none =>
    cases hfeed
    exact ⟨h, .refl _ f⟩
  | some d =>
    simp only [bind_eq_some, Option.guard_eq_some', exists_const] at hfeed
    obtain ⟨-, s, -, d', -, canonical, htarget, rfl, hcert⟩ := hfeed
    exact h.onCertificate hcommit hfits hbelow htarget hcert

end

theorem onEpochBoundary_eq_some {snap : EpochSnapshot} (h : f.onEpochBoundary K snap = some f') :
    (∀ s ∈ f'.snapshots, s ∈ f.snapshots ∨ s = snap) ∧ f'.record = f.record ∧
      f'.certifiedCarrierRecord = f.certifiedCarrierRecord ∧ f'.securityUpgradeActive = f.securityUpgradeActive := by
  unfold FinalityState.onEpochBoundary at h
  by_cases hwf : snapshotWellFormed K snap = true
  swap
  · rw [if_pos (by simpa using hwf)] at h
    cases h
  rw [if_neg (by simpa using hwf)] at h
  split at h
  · split_ifs at h
    cases h
    exact ⟨fun s hs => .inl hs, rfl, rfl, rfl⟩
  · by_cases hold : (f.snapshots.getLast?.any fun s => decide (snap.epochId ≤ s.epochId)) = true
    · rw [if_pos hold] at h
      cases h
    · rw [if_neg hold] at h
      cases h
      refine ⟨fun s hs => ?_, rfl, rfl, rfl⟩
      exact (mem_append.mp (mem_of_mem_drop hs)).imp_right mem_singleton.mp

theorem maybeSnapshotEpoch_record {height : Nat} {snap : EpochSnapshot}
    (hsnap : f.maybeSnapshotEpoch K height snap = some f') : f'.record = f.record := by
  unfold FinalityState.maybeSnapshotEpoch at hsnap
  split_ifs at hsnap
  · exact (onEpochBoundary_eq_some hsnap).2.1
  · rw [← Option.some.inj hsnap]

theorem OnChain.maybeSnapshotEpoch {height : Nat} {snap : EpochSnapshot}
    (hroots : ∀ s ∈ f'.snapshots, s.root ≠ .zero) (h : OnChain chain f)
    (hsnap : f.maybeSnapshotEpoch K height snap = some f') :
    OnChain chain f' ∧ f'.anchorAuthorizationRecord = f.anchorAuthorizationRecord := by
  unfold FinalityState.maybeSnapshotEpoch at hsnap
  split_ifs at hsnap with hboundary
  · obtain ⟨hsets, hrecord, hcertified, hactive⟩ := onEpochBoundary_eq_some hsnap
    refine ⟨⟨fun s hs => ⟨?_, hroots s hs⟩, ?_, ?_, ?_, ?_⟩, ?_⟩
    · obtain hs | rfl := hsets s hs
      · exact (h.snapshots s hs).1
      · exact Nat.le_add_left _ _
    · rw [hrecord]
      exact h.record
    · rw [hrecord, hcertified]
      exact h.certified
    · rw [hactive]
      exact h.inactive
    · rw [hrecord, hcertified, hactive]
      exact h.behind
    · rw [FinalityState.anchorAuthorizationRecord, FinalityState.anchorAuthorizationRecord, hrecord, hcertified,
        hactive]
  · cases hsnap
    exact ⟨h, rfl⟩

theorem OnChain.authorization (h : OnChain chain f) (ha : f.anchorAuthorizationRecord.isNull = false) :
    Retained chain f.anchorAuthorizationRecord ∧ f.record.isNull = false ∧
      Before f.anchorAuthorizationRecord f.record := by
  unfold FinalityState.anchorAuthorizationRecord at ha ⊢
  split_ifs at ha ⊢ with hactive
  · exact h.certified ha
  · exact ⟨h.record ha, ha, .inl rfl⟩

theorem OnChain.authorization_carrier (h : OnChain chain f) (ha : f.anchorAuthorizationRecord.isNull = false)
    (hlate : consensusSecurityUpgradeHeight ≤ f.record.carrier.height.toNat) :
    f.anchorAuthorizationRecord.carrier.height.toNat ≤ f.record.target.height.toNat := by
  have hactive : f.securityUpgradeActive := by
    by_contra hoff
    have := h.inactive (by simpa using hoff)
    have := (h.record (h.authorization ha).2.1).carrier_lt
    omega
  rw [FinalityState.anchorAuthorizationRecord, if_pos hactive] at ha ⊢
  exact h.behind hactive (decide_eq_true hlate) ha

theorem OnChain.required (h : OnChain chain f) :
    f.finalizedHeight ≤ f.requiredReorgAncestor ∧
      (f.anchorAuthorizationRecord.isNull = false →
        f.anchorAuthorizationRecord.carrier.height.toNat ≤ f.requiredReorgAncestor) := by
  unfold FinalityState.finalizedHeight FinalityState.requiredReorgAncestor consensusSecurityUpgradeActive
  cases hr : f.record.isNull with
  | true =>
    refine ⟨le_rfl, fun ha => ?_⟩
    rw [(h.authorization ha).2.1] at hr
    cases hr
  | false =>
    simp only [Bool.false_eq_true, if_false, decide_eq_true_eq]
    have hret := h.record hr
    split_ifs with hlate
    · exact ⟨le_rfl, fun ha => h.authorization_carrier ha hlate⟩
    · exact ⟨hret.target_lt.le, fun ha => ((h.authorization ha).2.2.carrier_le hret.certified).1⟩

/-- The branch that leaves the chain above `ancestor`: of the blocks of the chain it has those up to there. -/
def LeavesAt (chain : List Hash256) (ancestor : Nat) (branchHas : CheckpointRef → Bool) : Prop :=
  ∀ r, branchHas r → chain[r.height.toNat]? = some r.hash → r.height.toNat ≤ ancestor

theorem OnChain.reorgPermitted {ancestor : Nat} {branchHas : CheckpointRef → Bool} (h : OnChain chain f)
    (hbranch : LeavesAt chain ancestor branchHas) (hok : f.reorgPermitted ancestor branchHas) :
    f.requiredReorgAncestor ≤ ancestor := by
  unfold FinalityState.reorgPermitted at hok
  unfold FinalityState.requiredReorgAncestor
  cases hr : f.record.isNull with
  | true => exact Nat.zero_le _
  | false =>
    simp only [hr, Bool.false_or, reorgAllowed] at hok
    simp only [Bool.false_eq_true, if_false]
    cases hlate : consensusSecurityUpgradeActive f.record.carrier.height.toNat with
    | false =>
      simp only [hlate, Bool.not_false, if_true, Bool.and_eq_true] at hok
      exact hbranch _ hok.2 (h.record hr).carrier
    | true =>
      simp only [hlate, Bool.not_true, Bool.false_eq_true, if_false, Bool.and_eq_true, decide_eq_true_eq] at hok
      exact hok.1

end

end Veld.Finality
