import Veld.Lib.LockedVoting
import Veld.Consensus.FinalityHonest

/-!
# Finality is safe inside an epoch

The validators of one snapshot together. The honest ones run the daemon, each on its own machine and
its own view of the chain; the others do what they like, except that they cannot sign for an honest one.
-/

namespace Veld.Finality

open Wire LockedVoting List

/-! ## The network -/

section
variable (K : Context) (s : EpochSnapshot) (honest : Nat → Prop)
  (ancestor : CheckpointRef → CheckpointRef → Prop)

def Unforged (net : Nat → Validator) (sigs : List Bytes) : Prop :=
  ∀ i member pk, honest i → s.entries[i]? = some member → hexToPublicKey member.pubkeyHex = some pk →
    ∀ sig ∈ sigs, ∀ message, K.verify pk message sig →
      ∃ v ∈ (net i).sent, voteMessage K v = message

structure Sees (env : TickEnv) : Prop where
  snapshot : ∀ s', env.snapshot s.epochId = some s' → s' = s
  chain : ∀ a b : CheckpointRef, env.blockHash a.height = some a.hash →
    env.blockHash b.height = some b.hash → a.height < b.height → ancestor a b

/-- What may happen to an honest member: any restart, crash and tick, with certificates that are not
forged. -/
def Event.Fair (net : Nat → Validator) : Event → Prop
  | restart _ => True
  | crash => True
  | observe qc _ => Unforged K s honest net qc.sigs
  | tick env => Sees s ancestor env ∧ ∀ qc, env.prevoteQc = some qc → Unforged K s honest net qc.sigs

/-- The states of the honest members over every schedule, from their first start on. -/
inductive Reachable : (Nat → Validator) → Prop where
  | start {disk : Nat → Disk} :
    (∀ i, (disk i).journal = none ∧ (disk i).legacy = none) → Reachable fun i => Validator.off (disk i)
  | step {net : Nat → Validator} {i : Nat} {member : SnapshotEntry} {event : Event} :
    Reachable net → honest i → s.entries[i]? = some member → event.Fair K s honest ancestor net →
    Reachable (Function.update net i (step K member.pubkeyHex (net i) event))

def election : Election Nat CheckpointRef where
  members := Finset.range s.entries.length
  weight := s.weightAt
  honest := honest
  height t := t.height.toNat
  ancestor := ancestor

instance [DecidablePred honest] : DecidablePred (election s honest ancestor).honest :=
  inferInstanceAs (DecidablePred honest)

end

def SignedVote.ballot (v : SignedVote) : Ballot CheckpointRef :=
  match v.phase with
  | .prevote => .prevote v.target
  | .precommit => .precommit v.target

@[simp] theorem SignedVote.ballot_target (v : SignedVote) : v.ballot.target = v.target := by
  unfold SignedVote.ballot
  split <;> rfl

theorem SignedVote.phase_eq_prevote {v : SignedVote} {t : CheckpointRef} (h : v.ballot = .prevote t) :
    v.phase = .prevote ∧ v.target = t := by
  unfold SignedVote.ballot at h
  split at h
  · rename_i hphase
    cases h
    exact ⟨hphase, rfl⟩
  · cases h

theorem SignedVote.phase_eq_precommit {v : SignedVote} {t : CheckpointRef} (h : v.ballot = .precommit t) :
    v.phase = .precommit ∧ v.target = t := by
  unfold SignedVote.ballot at h
  split at h
  · cases h
  · rename_i hphase
    cases h
    exact ⟨hphase, rfl⟩

/-! ## What a member remembers -/

/-- The epoch and the round are those of the target. -/
structure Framed (epochId round : Nat) (target : CheckpointRef) : Prop where
  scheduled : isScheduledCheckpoint target.height.toNat = true
  epoch : epochId = epochOf target.height.toNat
  round : round = checkpointRound target.height.toNat

theorem Framed.height_lt {epoch epoch' round round' : Nat} {target target' : CheckpointRef}
    (h : Framed epoch round target) (h' : Framed epoch' round' target')
    (hnewer : consensusRoundNewer epoch' round' epoch round) :
    target.height.toNat < target'.height.toNat := by
  rw [consensusRoundNewer_iff, h.epoch, h.round, h'.epoch, h'.round] at hnewer
  have hscheduled := isScheduledCheckpoint_iff.mp h.scheduled
  have hscheduled' := isScheduledCheckpoint_iff.mp h'.scheduled
  simp only [epochOf, checkpointRound, epochBlocks, checkpointInterval] at hnewer
  omega

/-- The lock is on the target, or in a higher frame. -/
def Lock.Over (lock : Lock) (v : SignedVote) : Prop :=
  lock.held ∧ (lock.target = v.target ∨
    consensusRoundNewer lock.epochId lock.round v.epochId v.round = true)

section
variable (P : Election Nat CheckpointRef) (epoch : Nat) (H : List (Nat × Ballot CheckpointRef))

structure Guarded (sent : List SignedVote) (j : DaemonJournal) : Prop where
  remembers : Remembers sent j
  framed : ∀ v, v ∈ sent ∨ j.lastVote = some v → Framed v.epochId v.round v.target
  lockFramed : j.lock.held → Framed j.lock.epochId j.lock.round j.lock.target
  lockBacked : j.lock.held → j.lock.epochId = epoch → P.Backed H (.prevote j.lock.target)
  locked : ∀ v, v ∈ sent ∨ j.lastVote = some v → v.phase = .precommit → j.lock.Over v
  backed : ∀ v, j.lastVote = some v → v.phase = .precommit → v.epochId = epoch →
    P.Backed H (.prevote v.target)
  justified : ∀ v, j.lastVote = some v → v.phase = .prevote → v.epochId = epoch →
    ∀ p ∈ sent, p.phase = .precommit → p.epochId = epoch → P.Justified H p.target v.target

/-- The signatures of honest members on claims of the epoch are in the history. -/
def Logged (K : Context) (s : EpochSnapshot) (_ : List SignedVote) (qc : DecodedQc) : Prop :=
  ∀ i member pk, P.honest i → s.entries[i]? = some member → hexToPublicKey member.pubkeyHex = some pk →
    ∀ sig ∈ qc.sigs, ∀ v : SignedVote, epochOf v.target.height.toNat = epoch →
      K.verify pk (voteMessage K v) sig → (i, v.ballot) ∈ H

end

section
variable {K : Context} {s : EpochSnapshot} {honest : Nat → Prop} {pubkeyHex : Bytes}
  {ancestor : CheckpointRef → CheckpointRef → Prop} {H H' : List (Nat × Ballot CheckpointRef)}
  {sent : List SignedVote} {j : DaemonJournal}

variable {P : Election Nat CheckpointRef} {epoch : Nat}

theorem Guarded.mono (h : Guarded P epoch H sent j) (hsub : H ⊆ H') :
    Guarded P epoch H' sent j where
  remembers := h.remembers
  framed := h.framed
  lockFramed := h.lockFramed
  lockBacked hheld hepoch := (h.lockBacked hheld hepoch).mono hsub
  locked := h.locked
  backed v hv hphase hepoch := (h.backed v hv hphase hepoch).mono hsub
  justified v hv hphase hepoch p hp hcommit hpe := (h.justified v hv hphase hepoch p hp hcommit hpe).mono hsub

theorem Verified.backed {d : DecodedQc} (h : Verified K s d)
    (hlogged : Logged (election s honest ancestor) s.epochId H K s sent d) {b : Ballot CheckpointRef}
    (hb : (d.qc.vote s [] []).ballot = b) : (election s honest ancestor).Backed H b := by
  refine ⟨s.signers d.qc.bitmap, h.supermajority, fun i hi hhonest => ?_⟩
  obtain ⟨member, sig, hmember, hsig, hvalid⟩ := h.signed hi
  obtain ⟨-, pk, hpk, hverify⟩ := signatureValid_iff.mp hvalid
  rw [← hb]
  exact hlogged i member pk hhonest hmember hpk sig (mem_of_getElem? hsig) (d.qc.vote s [] [])
    h.targetEpoch hverify

theorem guarded_fresh : Guarded P epoch H [] .fresh where
  remembers := ⟨⟨version_fits, by decide, by decide, nofun⟩, nofun⟩
  framed v hv := by simp [DaemonJournal.fresh] at hv
  lockFramed hheld := by cases hheld
  lockBacked hheld := by cases hheld
  locked v hv := by simp [DaemonJournal.fresh] at hv
  backed v hv := by cases hv
  justified v hv := by cases hv

theorem Guarded.respell {j' : DaemonJournal} (h : Guarded P epoch H sent j)
    (hremembers : Remembers sent j'.view) (halike : j.Alike j') :
    Guarded P epoch H sent j'.view := by
  have hlock : j'.view.lock = j.lock := halike.lock
  -- a last vote has the phase, the frame and the target of the one it respells
  have hlast : ∀ v', j'.view.lastVote = some v' → ∃ v, j.lastVote = some v ∧ v.Respelled v' := by
    intro v' hv'
    obtain ⟨-, hnone⟩ | ⟨last, key, hlast, hlast'⟩ := halike.cases
    · cases hnone.symm.trans hv'
    · cases hlast'.symm.trans hv'
      exact ⟨last, hlast, key, rfl⟩
  refine ⟨hremembers, ?_, hlock ▸ h.lockFramed, hlock ▸ h.lockBacked, ?_, ?_, ?_⟩
  · rintro v' (hsent | hv')
    · exact h.framed v' (.inl hsent)
    · obtain ⟨v, hv, key, rfl⟩ := hlast v' hv'
      exact h.framed v (.inr hv)
  · rw [hlock]
    rintro v' (hsent | hv') hphase
    · exact h.locked v' (.inl hsent) hphase
    · obtain ⟨v, hv, key, rfl⟩ := hlast v' hv'
      exact h.locked v (.inr hv) hphase
  · intro v' hv' hphase hepoch
    obtain ⟨v, hv, key, rfl⟩ := hlast v' hv'
    exact h.backed v hv hphase hepoch
  · intro v' hv' hphase hepoch
    obtain ⟨v, hv, key, rfl⟩ := hlast v' hv'
    exact h.justified v hv hphase hepoch

theorem Guarded.gossip {v v' : SignedVote} (h : Guarded P epoch H sent j)
    (hremembers : Remembers (v :: sent) j) (hlast : j.lastVote = some v') (hv : v.Respelled v') :
    Guarded P epoch H (v :: sent) j := by
  obtain ⟨key, rfl⟩ := hv
  have hframed := h.framed _ (.inr hlast)
  have hlocked := h.locked _ (.inr hlast)
  refine ⟨hremembers, ?_, h.lockFramed, h.lockBacked, ?_, h.backed, ?_⟩
  · rintro w (hw | hw)
    · rcases mem_cons.mp hw with rfl | hw
      · exact hframed
      · exact h.framed w (.inl hw)
    · exact h.framed w (.inr hw)
  · rintro w (hw | hw) hphase
    · rcases mem_cons.mp hw with rfl | hw
      · exact hlocked hphase
      · exact h.locked w (.inl hw) hphase
    · exact h.locked w (.inr hw) hphase
  · intro w hw hphase hepoch p hp hcommit hpe
    rcases mem_cons.mp hp with rfl | hp
    · -- the last vote is a prevote
      cases hlast.symm.trans hw
      cases hcommit.symm.trans hphase
    · exact h.justified w hw hphase hepoch p hp hcommit hpe

section
variable {env : TickEnv} {snapshot : EpochSnapshot} {lock : Lock} {last : Option SignedVote}
  {source target : CheckpointRef} {round : Nat} {vote : SignedVote}

section
variable (hsees : Sees s ancestor env) (haim : Aim K env snapshot target)
  (h : Guarded (election s honest ancestor) s.epochId H sent ⟨1, lock, last⟩)
include hsees haim h

theorem Guarded.prevote (hremembers : Remembers sent ⟨1, lock, some vote⟩)
    (hvote : prevote K pubkeyHex lock snapshot round source target none (extendsLock env lock target)
      env.signature = some vote) :
    Guarded (election s honest ancestor) s.epochId H sent ⟨1, lock, some vote⟩ := by
  obtain ⟨rfl, hround, hallowed⟩ := prevote_eq_some hvote
  have hframed : Framed snapshot.epochId round target := ⟨haim.scheduled, haim.epoch, hround⟩
  refine ⟨hremembers, ?_, h.lockFramed, h.lockBacked, ?_, ?_, ?_⟩
  · rintro v (hv | hv)
    · exact h.framed v (.inl hv)
    · cases hv
      exact hframed
  · rintro v (hv | hv) hphase
    · exact h.locked v (.inl hv) hphase
    · cases hv
      cases hphase
  · intro v hv hphase
    cases hv
    cases hphase
  · intro v hv _ hepoch p hp hcommit hpe
    cases hv
    have hepoch : snapshot.epochId = s.epochId := hepoch
    obtain ⟨hheld, hover⟩ : lock.Over p := h.locked p (.inl hp) hcommit
    have hlock : Framed lock.epochId lock.round lock.target := h.lockFramed hheld
    have hpframed := h.framed p (.inl hp)
    -- the lock is on the target, or the target is over the block of the lock
    have hreach : lock.target = target ∨ ancestor lock.target target ∧
        consensusRoundNewer snapshot.epochId round lock.epochId lock.round = true := by
      simp only [lockedPrevoteAllowed, hheld, Bool.not_true, Bool.false_or, Option.any_none, Bool.or_false,
        Bool.or_eq_true, Bool.and_eq_true, decide_eq_true_eq] at hallowed
      refine hallowed.imp_right fun hover => ⟨?_, hover.1⟩
      simp only [extendsLock, Bool.and_eq_true, decide_eq_true_eq] at hover
      exact hsees.chain _ _ hover.2.1.2 haim.onChain hover.2.2
    refine ⟨lock.target, ?_, hreach.imp_right And.left⟩
    refine hover.imp_right fun hnewer => ⟨hpframed.height_lt hlock hnewer, h.lockBacked hheld ?_⟩
    -- the epoch of the lock is between that of the precommit and that of the prevote
    rw [consensusRoundNewer_iff] at hnewer
    rcases hreach with heq | ⟨-, hnewer'⟩
    · have hsame : lock.epochId = epochOf target.height.toNat := heq ▸ hlock.epoch
      rw [hsame, ← haim.epoch, hepoch]
    · rw [consensusRoundNewer_iff] at hnewer'
      show lock.epochId = s.epochId
      omega

theorem Guarded.precommit {qc : DecodedQc} {lock' : Lock}
    (hlogged : Logged (election s honest ancestor) s.epochId H K s sent qc)
    (hremembers : Remembers sent ⟨1, lock', last⟩ ∧ Remembers sent ⟨1, lock', some vote⟩)
    (hvote : precommit K pubkeyHex lock snapshot round source target qc env.signature =
      some (vote, lock')) :
    Guarded (election s honest ancestor) s.epochId H sent ⟨1, lock', last⟩ ∧
      Guarded (election s honest ancestor) s.epochId H sent ⟨1, lock', some vote⟩ := by
  obtain ⟨rfl, rfl, hround, hverified, hphase, -, htarget, hguard⟩ := precommit_eq_some hvote
  have hframed : Framed snapshot.epochId round target := ⟨haim.scheduled, haim.epoch, hround⟩
  have hbacked : snapshot.epochId = s.epochId →
      (election s honest ancestor).Backed H (.prevote target) := by
    intro hepoch
    have hsame : snapshot = s := hsees.snapshot snapshot (by rw [← hepoch, haim.epoch]; exact haim.retained)
    subst hsame
    exact hverified.backed hlogged (by simp [QuorumCert.vote, SignedVote.ballot, hphase, htarget])
  have hover : ∀ v, v ∈ sent ∨ last = some v → v.phase = .precommit →
      Lock.Over ⟨true, snapshot.epochId, round, target⟩ v := by
    intro v hv hcommit
    obtain ⟨hheld, hover⟩ : lock.Over v := h.locked v hv hcommit
    have hlock : Framed lock.epochId lock.round lock.target := h.lockFramed hheld
    have hvframed := h.framed v hv
    refine ⟨rfl, ?_⟩
    rcases hguard with hfree | heq | hnewer
    · cases hfree.symm.trans hheld
    · -- the lock was on this target already
      rcases hover with hover | hover
      · exact .inl (heq.symm.trans hover)
      · right
        have hepoch : snapshot.epochId = lock.epochId := by rw [hframed.epoch, hlock.epoch, heq]
        have hround : round = lock.round := by rw [hframed.round, hlock.round, heq]
        simpa only [hepoch, hround] using hover
    · right
      rw [consensusRoundNewer_iff] at hnewer
      rcases hover with hover | hover
      · have hepoch : lock.epochId = v.epochId := by rw [hlock.epoch, hvframed.epoch, hover]
        have hround : lock.round = v.round := by rw [hlock.round, hvframed.round, hover]
        rw [consensusRoundNewer_iff, ← hepoch, ← hround]
        exact hnewer
      · rw [consensusRoundNewer_iff] at hover ⊢
        show v.epochId < snapshot.epochId ∨ snapshot.epochId = v.epochId ∧ v.round < round
        omega
  refine ⟨⟨hremembers.1, h.framed, fun _ => hframed, fun _ => hbacked, hover, h.backed, h.justified⟩,
    ⟨hremembers.2, ?_, fun _ => hframed, fun _ => hbacked, ?_, ?_, ?_⟩⟩
  · rintro v (hv | hv)
    · exact h.framed v (.inl hv)
    · cases hv
      exact hframed
  · rintro v (hv | hv) hcommit
    · exact hover v (.inl hv) hcommit
    · cases hv
      exact ⟨rfl, .inl rfl⟩
  · intro v hv _ hepoch
    cases hv
    exact hbacked hepoch
  · intro v hv hprevote
    cases hv
    cases hprevote

end

end

theorem guarded_rules (K : Context) (s : EpochSnapshot) (honest : Nat → Prop) (pubkeyHex : Bytes)
    (ancestor : CheckpointRef → CheckpointRef → Prop) (H : List (Nat × Ballot CheckpointRef)) :
    Rules K pubkeyHex (Guarded (election s honest ancestor) s.epochId H)
      (Logged (election s honest ancestor) s.epochId H K s) (Sees s ancestor) where
  fits h := h.remembers.1
  respell h halike := h.respell ((remembers_rules K pubkeyHex).respell h.remembers halike) halike
  gossip h hlast hv := h.gossip ((remembers_rules K pubkeyHex).gossip h.remembers hlast hv) hlast hv
  usable_cons h := h
  usable_verified := by
    intro sent qc qc' s' h hverify
    unfold verifyDecodedQc at hverify
    split at hverify
    · cases hverify
      exact h
    · cases hverify
  prevote hsees haim h hadv hvote :=
    h.prevote hsees haim ((remembers_rules K pubkeyHex).prevote trivial haim h.remembers hadv hvote) hvote
  precommit hsees haim h hlogged hadv hvote :=
    h.precommit hsees haim hlogged
      ((remembers_rules K pubkeyHex).precommit trivial haim h.remembers trivial hadv hvote) hvote

/-! ## The runs of the network -/

theorem Keeps.mono {Safe Safe' : List SignedVote → DaemonJournal → Prop}
    {Usable Usable' : List SignedVote → DecodedQc → Prop} {m : Validator}
    (h : Keeps K Safe Usable m) (hsafe : ∀ {sent j}, Safe sent j → Safe' sent j)
    (husable : ∀ {sent qc}, Usable sent qc → Usable' sent qc) : Keeps K Safe' Usable' m where
  stored bytes j hbytes hj := hsafe (h.stored bytes j hbytes hj)
  unstored hnone := ⟨(h.unstored hnone).1, fun j hj => hsafe ((h.unstored hnone).2 j hj)⟩
  memory st hst hok := by
    obtain ⟨hview, hqc, hdisk⟩ := h.memory st hst hok
    exact ⟨hsafe hview, fun qc hlatest => husable (hqc qc hlatest), hdisk⟩

/-- A member in the history: it has exactly the votes of the epoch that the member has sent, and the
member is guarded relative to it. -/
structure Tracked (K : Context) (s : EpochSnapshot) (honest : Nat → Prop)
    (ancestor : CheckpointRef → CheckpointRef → Prop) (H : List (Nat × Ballot CheckpointRef)) (i : Nat)
    (m : Validator) : Prop where
  framed : ∀ v ∈ m.sent, Framed v.epochId v.round v.target
  logged : ∀ v ∈ m.sent, v.epochId = s.epochId → (i, v.ballot) ∈ H
  sent : ∀ b, (i, b) ∈ H → ∃ v ∈ m.sent, v.epochId = s.epochId ∧ v.ballot = b
  keeps : Keeps K (Guarded (election s honest ancestor) s.epochId H)
    (Logged (election s honest ancestor) s.epochId H K s) m

/-- The history of a run is valid and has the votes of the honest members. -/
structure Recorded (K : Context) (s : EpochSnapshot) (honest : Nat → Prop)
    (ancestor : CheckpointRef → CheckpointRef → Prop) (net : Nat → Validator)
    (H : List (Nat × Ballot CheckpointRef)) : Prop where
  valid : (election s honest ancestor).Valid H
  tracked : ∀ i, honest i → Tracked K s honest ancestor H i (net i)

section
variable {net : Nat → Validator} {i : Nat} {event : Event}

theorem off_guarded {Usable : List SignedVote → DecodedQc → Prop} {disk : Disk}
    (hdisk : disk.journal = none ∧ disk.legacy = none) :
    Keeps K (Guarded P epoch []) Usable (Validator.off disk) where
  stored bytes j hbytes := by cases hdisk.1.symm.trans hbytes
  unstored _ := by
    refine ⟨rfl, fun j hj => ?_⟩
    have hlegacy : (Validator.off disk).disk.legacy = none := hdisk.2
    rw [hlegacy, Option.getD_none] at hj
    have hfresh : Guarded P epoch [] [] .fresh := guarded_fresh
    have halike := decodeFinalityJournal_encode hfresh.remembers.1 hj
    exact hfresh.respell ((remembers_rules K []).respell hfresh.remembers halike) halike
  memory st hst := by cases hst

theorem Recorded.start {disk : Nat → Disk} (hdisk : ∀ i, (disk i).journal = none ∧ (disk i).legacy = none) :
    Recorded K s honest ancestor (fun i => Validator.off (disk i)) [] where
  valid := .nil
  tracked i _ := {
    framed := nofun
    logged := nofun
    sent := nofun
    keeps := off_guarded (hdisk i) }

theorem Recorded.unforged (h : Recorded K s honest ancestor net H) {qc : DecodedQc}
    (hqc : Unforged K s honest net qc.sigs) (sent : List SignedVote) :
    Logged (election s honest ancestor) s.epochId H K s sent qc := by
  intro i member pk hi hmember hpk sig hsig v hepoch hverify
  obtain ⟨w, hw, hmessage⟩ := hqc i member pk hi hmember hpk sig hsig _ hverify
  obtain ⟨-, hphase, -, htarget⟩ := votePreimage_inj hmessage
  have hballot : w.ballot = v.ballot := by
    unfold SignedVote.ballot
    rw [hphase, htarget]
  rw [← hballot]
  refine (h.tracked i hi).logged w hw ?_
  rw [((h.tracked i hi).framed w hw).epoch, htarget, hepoch]

theorem Tracked.allowed {m : Validator} (h : Tracked K s honest ancestor H i m) {v : SignedVote}
    (hguard : Guarded (election s honest ancestor) s.epochId H m.sent j)
    (hlast : j.lastVote = some v) (hepoch : v.epochId = s.epochId) :
    (election s honest ancestor).Allowed H i v.ballot := by
  have hv := hguard.framed v (.inr hlast)
  -- what the member has sent is in a lower frame or makes the same claim
  have hbelow : ∀ w ∈ m.sent, w.target.height.toNat < v.target.height.toNat ∨ w.target = v.target := by
    intro w hw
    obtain ⟨last, hlast', hcover⟩ := hguard.remembers.2 w hw
    obtain rfl := Option.some.inj (hlast.symm.trans hlast')
    rcases hcover with holder | ⟨-, -, -, htarget⟩
    · exact .inl ((hguard.framed w (.inl hw)).height_lt hv holder)
    · exact .inr htarget
  refine ⟨fun b hb => ?_, fun b hb hheight => ?_, fun t ht => ?_, fun t t' ht hmem => ?_⟩
  · obtain ⟨w, hw, -, rfl⟩ := h.sent b hb
    rw [SignedVote.ballot_target, SignedVote.ballot_target]
    rcases hbelow w hw with hlt | heq
    · exact hlt.le
    · rw [heq]
  · obtain ⟨w, hw, -, rfl⟩ := h.sent b hb
    rw [SignedVote.ballot_target, SignedVote.ballot_target] at hheight ⊢
    rcases hbelow w hw with hlt | heq
    · exact absurd hheight hlt.ne
    · exact heq
  · obtain ⟨hphase, rfl⟩ := SignedVote.phase_eq_precommit ht
    exact hguard.backed v hlast hphase hepoch
  · obtain ⟨hphase, rfl⟩ := SignedVote.phase_eq_prevote ht
    obtain ⟨p, hp, hpe, hballot⟩ := h.sent _ hmem
    obtain ⟨hcommit, rfl⟩ := SignedVote.phase_eq_precommit hballot
    exact hguard.justified v hlast hphase hepoch p hp hcommit hpe

section
variable {H : List (Nat × Ballot CheckpointRef)} {m₀ m : Validator} {v : SignedVote}

theorem Tracked.other (h : Tracked K s honest ancestor H i m) {k : Nat} (hne : i ≠ k) (b : Ballot CheckpointRef) :
    Tracked K s honest ancestor ((k, b) :: H) i m where
  framed := h.framed
  logged v hv hepoch := mem_cons_of_mem _ (h.logged v hv hepoch)
  sent b hmem := by
    rcases mem_cons.mp hmem with heq | hmem
    · cases heq
      exact absurd rfl hne
    · exact h.sent b hmem
  keeps := h.keeps.mono (fun hj => hj.mono (subset_cons_self _ _))
    fun hqc k member pk hk hmember hpk sig hsig w hw hverify =>
      mem_cons_of_mem _ (hqc k member pk hk hmember hpk sig hsig w hw hverify)

section
variable (h : Tracked K s honest ancestor H i m₀)
  (hkeeps : Keeps K (Guarded (election s honest ancestor) s.epochId H)
    (Logged (election s honest ancestor) s.epochId H K s) m)
include h hkeeps

theorem Tracked.silent (hsub : m₀.sent ⊆ m.sent)
    (hnew : ∀ v ∈ m.sent, v ∈ m₀.sent ∨ Framed v.epochId v.round v.target ∧ v.epochId ≠ s.epochId) :
    Tracked K s honest ancestor H i m where
  framed v hv := (hnew v hv).elim (h.framed v) And.left
  logged v hv hepoch := (hnew v hv).elim (fun hold => h.logged v hold hepoch) fun hother =>
    absurd hepoch hother.2
  sent b hmem := by
    obtain ⟨v, hv, hvb⟩ := h.sent b hmem
    exact ⟨v, hsub hv, hvb⟩
  keeps := hkeeps

theorem Tracked.cast (hsent : m.sent = v :: m₀.sent) (hframed : Framed v.epochId v.round v.target)
    (hepoch : v.epochId = s.epochId) : Tracked K s honest ancestor ((i, v.ballot) :: H) i m where
  framed := by
    rw [hsent]
    exact forall_mem_cons.mpr ⟨hframed, h.framed⟩
  logged w hw he := by
    rw [hsent] at hw
    rcases mem_cons.mp hw with rfl | hw
    · exact mem_cons_self
    · exact mem_cons_of_mem _ (h.logged w hw he)
  sent b hmem := by
    rw [hsent]
    rcases mem_cons.mp hmem with heq | hmem
    · cases heq
      exact ⟨v, mem_cons_self, hepoch, rfl⟩
    · obtain ⟨w, hw, hwb⟩ := h.sent b hmem
      exact ⟨w, mem_cons_of_mem _ hw, hwb⟩
  keeps := hkeeps.mono (fun hj => hj.mono (subset_cons_self _ _))
    fun hqc k member pk hk hmember hpk sig hsig w hw hverify =>
      mem_cons_of_mem _ (hqc k member pk hk hmember hpk sig hsig w hw hverify)

end

theorem Recorded.extend (h : Recorded K s honest ancestor net H) (hi : honest i)
    (hkeeps : Keeps K (Guarded (election s honest ancestor) s.epochId H)
      (Logged (election s honest ancestor) s.epochId H K s) m)
    (hsent : SentOne (Guarded (election s honest ancestor) s.epochId H) (net i) m) :
    ∃ H', Recorded K s honest ancestor (Function.update net i m) H' := by
  have htracked := h.tracked i hi
  have hupdate {H' : List (Nat × Ballot CheckpointRef)} (hself : Tracked K s honest ancestor H' i m)
      (hrest : ∀ k, honest k → k ≠ i → Tracked K s honest ancestor H' k (net k)) (k : Nat) (hk : honest k) :
      Tracked K s honest ancestor H' k (Function.update net i m k) := by
    by_cases hki : k = i
    · subst hki
      rwa [Function.update_self]
    · rw [Function.update_of_ne hki]
      exact hrest k hk hki
  rcases hsent with hsame | ⟨v, j, hone, hguard, hlast⟩
  · have hself := htracked.silent hkeeps (hsame ▸ List.Subset.refl _) fun v hv => .inl (hsame ▸ hv)
    exact ⟨H, h.valid, hupdate hself fun k hk _ => h.tracked k hk⟩
  · have hframed := hguard.framed v (.inr hlast)
    by_cases hepoch : v.epochId = s.epochId
    · refine ⟨(i, v.ballot) :: H, .cons h.valid fun _ => htracked.allowed hguard hlast hepoch, ?_⟩
      exact hupdate (htracked.cast hkeeps hone hframed hepoch) fun k hk hne => (h.tracked k hk).other hne _
    · refine ⟨H, h.valid, hupdate (htracked.silent hkeeps ?_ fun w hw => ?_) fun k hk _ => h.tracked k hk⟩
      · exact hone ▸ subset_cons_self _ _
      · rw [hone] at hw
        rcases mem_cons.mp hw with rfl | hw
        · exact .inr ⟨hframed, hepoch⟩
        · exact .inl hw

theorem Reachable.recorded (h : Reachable K s honest ancestor net) :
    ∃ H, Recorded K s honest ancestor net H := by
  induction h with
  | start hdisk => exact ⟨[], .start hdisk⟩
  | @step net i member event _ hi _ hfair ih =>
    obtain ⟨H, hH⟩ := ih
    have hbrings : event.Brings (Logged (election s honest ancestor) s.epochId H K s) (Sees s ancestor)
        (net i).sent := by
      cases event with
      | restart => trivial
      | crash => trivial
      | observe => exact hH.unforged hfair (net i).sent
      | tick => exact ⟨hfair.1, fun qc hqc => hH.unforged (hfair.2 qc hqc) _⟩
    obtain ⟨hkeeps, hsent⟩ :=
      (guarded_rules K s honest member.pubkeyHex ancestor H).step (hH.tracked i hi).keeps hbrings
    exact hH.extend hi hkeeps hsent

end

/-- Finality is safe inside an epoch: while the members that do not run the daemon hold less than one
third of the weight, of the targets of two precommit certificates one is an ancestor of the other. -/
theorem precommits_comparable [DecidablePred honest]
    (htrans : ∀ a b c, ancestor a b → ancestor b c → ancestor a c)
    (hfew : Quorum.FewFaulty (Finset.range s.entries.length) s.weightAt honest)
    (hreach : Reachable K s honest ancestor net) {d d' e e' : DecodedQc}
    (h : verifyDecodedQc K d s = some e) (hphase : d.qc.phase = .precommit)
    (hunforged : Unforged K s honest net d.sigs)
    (h' : verifyDecodedQc K d' s = some e') (hphase' : d'.qc.phase = .precommit)
    (hunforged' : Unforged K s honest net d'.sigs) :
    d.qc.target = d'.qc.target ∨ ancestor d.qc.target d'.qc.target ∨
      ancestor d'.qc.target d.qc.target := by
  obtain ⟨H, hH⟩ := hreach.recorded
  have hbacked {d e : DecodedQc} (h : verifyDecodedQc K d s = some e) (hphase : d.qc.phase = .precommit)
      (hunforged : Unforged K s honest net d.sigs) :
      (election s honest ancestor).Backed H (.precommit d.qc.target) := by
    refine (verified_of_verifyDecodedQc h).backed (hH.unforged hunforged []) ?_
    simp [QuorumCert.vote, SignedVote.ballot, hphase]
  exact hH.valid.comparable htrans hfew (hbacked h hphase hunforged) (hbacked h' hphase' hunforged')

end

end

/-! The five honest ones of seven members run the daemon and finalize a checkpoint. -/

def sevenSignature (phase : Phase) : Bytes :=
  fillSignature (certMessage sevenContext (sevenCert phase) sevenSnapshot)

def sevenQc (phase : Phase) : DecodedQc := sevenSigned (sevenCert phase) 31

/-- What a member sees when this block stands at the height of the checkpoint. -/
def sevenView (hash : Hash256) (phase : Phase) (prevoteQc : Option DecodedQc) : TickEnv where
  tip := 501
  snapshot epoch := if epoch = 1 then some sevenSnapshot else none
  prevoteQc := prevoteQc
  blockHash height := if height = 500 then some hash else none
  authorizeTarget _ := true
  finalized := none
  grant := some ⟨true, true, true⟩
  signature := sevenSignature phase
  persist := .written
  gossip := .sent

def sevenEnv : Phase → Option DecodedQc → TickEnv := sevenView Hash256.zero

/-- What happens to each honest member. -/
def sevenEvents : List Event :=
  [.restart ⟨false, .written, .written⟩, .tick (sevenEnv .prevote none),
    .tick (sevenEnv .precommit (some (sevenQc .prevote)))]

/-- A member after so many of them. -/
def sevenStage (i n : Nat) : Validator :=
  run sevenContext (sevenMember i).pubkeyHex (Validator.off ⟨none, none, none⟩) (sevenEvents.take n)

def sevenVote (phase : Phase) (i : Nat) : SignedVote :=
  (sevenCert phase).vote sevenSnapshot (sevenMember i).pubkeyHex (sevenSignature phase)

/-- The certificate after its verification. -/
def sevenVerified (phase : Phase) : DecodedQc :=
  { sevenQc phase with
    qc := { sevenCert phase with setRoot := .zero, weight := bitmapWeight sevenSnapshot [31] } }

def sevenState (j : DaemonJournal) (delivered : Bool) (bytes : Bytes) : DaemonState :=
  ⟨j.lock, j, false, delivered, none, bytes⟩

def sevenPrevoted (i : Nat) : DaemonJournal := ⟨1, Lock.free, some (sevenVote .prevote i)⟩

/-- After the prevote, with the certificate in memory. -/
def sevenObserved (i : Nat) (bytes : Bytes) : DaemonState :=
  { sevenState (sevenPrevoted i) true bytes with latestPrevoteQc := some (sevenVerified .prevote) }

def sevenDisk (bytes : Bytes) : Disk := ⟨some bytes, some journalMarker, none⟩

theorem sevenStage_succ (i : Nat) {n : Nat} {event : Event} (h : sevenEvents[n]? = some event) :
    sevenStage i (n + 1) = step sevenContext (sevenMember i).pubkeyHex (sevenStage i n) event := by
  simp only [sevenStage, run, take_add_one, h, Option.toList_some, foldl_append, foldl_cons,
    foldl_nil]

section
variable {K : Context} {env : TickEnv} {vote : SignedVote} {st : DaemonState} {m : Validator}
  {j : DaemonJournal} {bytes : Bytes}

def WorkGrant.full : WorkGrant := ⟨true, true, true⟩

/-- Nothing gets in the way of a vote. -/
structure Smooth (env : TickEnv) : Prop where
  grant : env.grant = some WorkGrant.full
  persist : env.persist = .written
  gossip : env.gossip = .sent

theorem castVote_sent {finish : DaemonState → DaemonState} (h : Smooth env)
    (hdisk : m.disk.journal = some st.expected) (hj : ⟨1, st.lock, some vote⟩ = j)
    (hencode : encodeFinalityJournal K j = bytes) (hbytes : bytes ≠ []) :
    castVote K env .full vote finish st m = ⟨{ m.disk with journal := some bytes },
      some { finish (st.persisted j bytes) with journalVoteDelivered := true }, vote :: m.sent⟩ := by
  subst hj hencode
  obtain ⟨-, hpersist, hgossip⟩ := h
  have hwrite : ¬ (m.disk.journal ≠ some st.expected ∨
      encodeFinalityJournal K ⟨1, st.lock, some vote⟩ = []) := fun h => h.elim (fun hne => hne hdisk) hbytes
  simp only [castVote, WorkGrant.full, persistThen, if_neg hwrite, hpersist, WriteOutcome.stored, if_true,
    gossipVote, hgossip, DaemonState.persisted]

variable {pubkeyHex : Bytes} {snapshot : EpochSnapshot} {source target : CheckpointRef} {round : Nat}

theorem observePrevoteQc_verified {qc verified : DecodedQc}
    (h : verifyDecodedQc K qc snapshot = some verified) (hphase : verified.qc.phase = .prevote) :
    observePrevoteQc K qc snapshot st = { st with latestPrevoteQc := some verified } := by
  rw [observePrevoteQc, h]
  exact if_pos hphase

theorem journalVerdict_precommit {last : SignedVote} (hlast : st.journal.lastVote = some last)
    (hepoch : last.epochId = snapshot.epochId) (hvalid : verifyVote K last snapshot)
    (hround : last.round = round) (hsource : last.source = source) (htarget : last.target = target)
    (hphase : last.phase = .prevote) (hqc : prevoteQcMatches st snapshot source target round) :
    journalVerdict K env st snapshot source target round = .proceed := by
  have hknown : (lastSnapshot K env snapshot last).any (verifyVote K last) := by
    rw [lastSnapshot, if_pos hepoch, Option.any_some, hvalid]
  have hnext : ¬ (last.phase = .precommit ∨ prevoteQcMatches st snapshot source target round = false) := by
    rw [hphase, hqc]
    decide
  rw [journalVerdict, hlast]
  simp only [hknown, Bool.not_true, Bool.false_eq_true, if_false, if_pos (And.intro hepoch hround),
    if_pos (And.intro hsource htarget), if_neg hnext]

theorem step_tick (hst : m.daemon = some st) (hok : st.journalInvalid = false) :
    step K pubkeyHex m (.tick env) = tickRunning K pubkeyHex env st m := by
  simp only [step, hst, hok, Bool.false_eq_true, if_false]

theorem tickTarget_refuse (hsource : (env.finalized.map (·.target)).getD CheckpointRef.null = source)
    (hround : checkpointRound target.height.toNat = round)
    (hverdict : journalVerdict K env st snapshot source target round = .refuse) :
    tickTarget K pubkeyHex env snapshot target st m = m.running st := by
  simp only [tickTarget, hsource, hround, hverdict]

section
variable (h : Smooth env)
  (hsource : (env.finalized.map (·.target)).getD CheckpointRef.null = source)
  (hround : checkpointRound target.height.toNat = round)
  (hverdict : journalVerdict K env st snapshot source target round = .proceed)
include h hsource hround hverdict

theorem tickTarget_prevote (hqc : prevoteQcMatches st snapshot source target round = false)
    (hvote : prevote K pubkeyHex st.lock snapshot round source target none (extendsLock env st.lock target)
      env.signature = some vote) (hdisk : m.disk.journal = some st.expected)
    (hj : ⟨1, st.lock, some vote⟩ = j) (hencode : encodeFinalityJournal K j = bytes)
    (hbytes : bytes ≠ []) :
    tickTarget K pubkeyHex env snapshot target st m = ⟨{ m.disk with journal := some bytes },
      some { st.persisted j bytes with journalVoteDelivered := true }, vote :: m.sent⟩ := by
  have hlive : WorkGrant.full.live := rfl
  simp only [tickTarget, hsource, hround, hverdict, withGrant, h.grant, if_pos hlive, hqc, Bool.false_eq_true,
    if_false, prevoteStep, hvote]
  exact castVote_sent h hdisk hj hencode hbytes

theorem tickTarget_precommit {qc : DecodedQc} {lock : Lock} (hlatest : st.latestPrevoteQc = some qc)
    (hqc : prevoteQcMatches st snapshot source target round)
    (hvote : precommit K pubkeyHex st.lock snapshot round source target qc env.signature = some (vote, lock))
    (hdisk : m.disk.journal = some st.expected) (hj : ⟨1, lock, some vote⟩ = j)
    (hencode : encodeFinalityJournal K j = bytes) (hbytes : bytes ≠ []) :
    (tickTarget K pubkeyHex env snapshot target st m).sent = vote :: m.sent := by
  have hlive : WorkGrant.full.live := rfl
  simp only [tickTarget, hsource, hround, hverdict, withGrant, h.grant, if_pos hlive, hqc, if_true,
    precommitStep, hlatest, Option.bind_some, hvote]
  refine (congrArg Validator.sent (castVote_sent h ?_ ?_ hencode hbytes)).trans rfl
  · exact hdisk
  · exact hj

end

end

theorem verifyDecodedQc_again {K : Context} {s : EpochSnapshot} {d e : DecodedQc}
    (h : verifyDecodedQc K d s = some e) : verifyDecodedQc K e s = some e := by
  unfold verifyDecodedQc at h
  split_ifs at h with hok
  cases h
  exact if_pos hok

theorem sevenQc_verified (phase : Phase) :
    verifyDecodedQc sevenContext (sevenQc phase) sevenSnapshot = some (sevenVerified phase) := by
  cases phase with
  | prevote => exact verifyDecodedQc_isSome sevenSigned_verified.1
  | precommit => exact verifyDecodedQc_isSome sevenSigned_verified.2.1

theorem sevenSnapshot_wellFormed : snapshotWellFormed sevenContext sevenSnapshot :=
  (verified_of_verifyDecodedQc (sevenQc_verified .prevote)).snapshot

section
variable {i : Nat} (hi : i < 5) (phase : Phase)
include hi

theorem sevenMember_get : sevenSnapshot.entries[i]? = some (sevenMember i) := by
  have hlt : i < 7 := by omega
  simp [sevenSnapshot, hlt]

theorem sevenSignature_valid : signatureValid sevenContext (certMessage sevenContext (sevenQc phase).qc sevenSnapshot)
    (sevenMember i) (sevenSignature phase) = true := by
  have hbit : ∀ i < 5, i ∈ sevenSnapshot.signers [31] := by decide
  obtain ⟨member, sig, hmember, hsig, hvalid⟩ :=
    (verified_of_verifyDecodedQc (sevenQc_verified phase)).signed (hbit i hi)
  cases hmember.symm.trans (sevenMember_get hi)
  cases eq_of_mem_replicate (mem_of_getElem? hsig)
  exact hvalid

theorem sevenVote_authentic : verifyVote sevenContext (sevenVote phase i) sevenSnapshot := by
  have hauthentic := (verified_of_verifyDecodedQc (sevenQc_verified phase)).authenticates (sevenMember_get hi)
    (sevenSignature_valid hi phase)
  exact Option.isSome_iff_exists.mpr ⟨_, hauthentic⟩

theorem sevenMember_member : memberOf sevenContext (sevenMember i).pubkeyHex sevenSnapshot := by
  have hindex := signerIndex_entry sevenSnapshot_wellFormed (sevenMember_get hi)
  rw [← entry_commit sevenSnapshot_wellFormed (sevenMember_get hi)] at hindex
  rw [memberOf, hindex]
  rfl

theorem sevenJournal_stored (lock : Lock) :
    encodeFinalityJournal sevenContext ⟨1, lock, some (sevenVote phase i)⟩ ≠ [] := by
  have hlength := wire_length_of_valid (d := sevenQc phase) (s := sevenSnapshot) (sevenSignature_valid hi phase)
  have hall : (some (sevenVote phase i)).all (fun v => (encodeSignedVoteWire v).length = signedVoteWireBytes) =
      true := by
    rw [Option.all_some]
    exact decide_eq_true hlength
  rw [encodeFinalityJournal, if_pos hall]
  exact append_ne_nil_of_left_ne_nil (cons_ne_nil _ _) _

end

theorem sevenStage_started (i : Nat) :
    ∃ bytes, sevenStage i 1 = ⟨sevenDisk bytes, some (sevenState .fresh false bytes), []⟩ := by
  have hdecode : decodeFinalityJournal sevenContext (encodeFinalityJournal sevenContext .fresh) =
      some .fresh := by decide +kernel
  have haccept : journalAccepted (sevenMember i).pubkeyHex .fresh := rfl
  rw [sevenStage_succ i (show sevenEvents[0]? = some _ from rfl)]
  refine ⟨encodeFinalityJournal sevenContext .fresh, ?_⟩
  simp [sevenStage, run, step, restart, loadJournal, finishLoad, Validator.off, hdecode, construct, haccept,
    WriteOutcome.stored, sevenDisk, sevenState]

theorem sevenTick (hash : Hash256) (phase : Phase) (qc : Option DecodedQc) (pubkeyHex : Bytes) (st : DaemonState)
    (m : Validator) :
    tickRunning sevenContext pubkeyHex (sevenView hash phase qc) st m =
      tickTarget sevenContext pubkeyHex (sevenView hash phase qc) sevenSnapshot ⟨500, hash⟩
        (qc.elim st fun qc => observePrevoteQc sevenContext qc sevenSnapshot st) m := by
  have htip : newestVotableCheckpoint (sevenView hash phase qc).tip = 500 := by
    show newestVotableCheckpoint 501 = 500
    decide
  have hsnapshot : ((sevenView hash phase qc).snapshot (epochOf (500 : UInt64).toNat)).filter (fun s =>
      snapshotQualifies sevenContext s && s.epochId = epochOf (500 : UInt64).toNat) = some sevenSnapshot := by
    have hretained : (sevenView hash phase qc).snapshot (epochOf (500 : UInt64).toNat) = some sevenSnapshot := rfl
    have hqualified : sevenSnapshot.qualified := by decide
    rw [hretained, Option.filter_some, snapshotQualifies, sevenSnapshot_wellFormed, hqualified]
    rfl
  have hhash : (sevenView hash phase qc).blockHash 500 = some hash := rfl
  have hwindow : (inVoteWindow (500 : UInt64).toNat (sevenView hash phase qc).tip.toNat &&
      (sevenView hash phase qc).authorizeTarget ⟨500, hash⟩) = true := by
    show (inVoteWindow (500 : UInt64).toNat (501 : UInt64).toNat && true) = true
    decide
  simp only [tickRunning, htip, hsnapshot, hhash, hwindow, if_true]
  rfl

theorem sevenStage_tick {i n : Nat} {phase : Phase} {qc : Option DecodedQc} {m : Validator} {st : DaemonState}
    (hevent : sevenEvents[n]? = some (.tick (sevenEnv phase qc))) (hm : sevenStage i n = m) (hst : m.daemon = some st)
    (hok : st.journalInvalid = false) : sevenStage i (n + 1) =
      tickTarget sevenContext (sevenMember i).pubkeyHex (sevenEnv phase qc) sevenSnapshot sevenTarget
        (qc.elim st fun qc => observePrevoteQc sevenContext qc sevenSnapshot st) m := by
  rw [sevenStage_succ i hevent, hm, step_tick hst hok]
  exact sevenTick ..

theorem sevenEnv_smooth (phase : Phase) (qc : Option DecodedQc) : Smooth (sevenEnv phase qc) :=
  ⟨rfl, rfl, rfl⟩

theorem sevenStage_prevoted {i : Nat} (hi : i < 5) : ∃ bytes, sevenStage i 2 =
    ⟨sevenDisk bytes, some (sevenState (sevenPrevoted i) true bytes), [sevenVote .prevote i]⟩ := by
  have hvote : prevote sevenContext (sevenMember i).pubkeyHex Lock.free sevenSnapshot 1 CheckpointRef.null
      sevenTarget none (extendsLock (sevenEnv .prevote none) Lock.free sevenTarget)
      (sevenSignature .prevote) = some (sevenVote .prevote i) := by
    have hguard : memberOf sevenContext (sevenMember i).pubkeyHex sevenSnapshot ∧
        isScheduledCheckpoint sevenTarget.height.toNat ∧
        1 = checkpointRound sevenTarget.height.toNat ∧ sevenTarget.isNull = false ∧
        sourceRefWellFormed CheckpointRef.null sevenTarget = true :=
      ⟨sevenMember_member hi, by decide, by decide, by decide, by decide⟩
    simp only [prevote, guard_pos hguard, verifiedUnlock, some_bind]
    rfl
  have hround : checkpointRound sevenTarget.height.toNat = 1 := by decide
  have hbytes := sevenJournal_stored hi .prevote Lock.free
  obtain ⟨fresh, hstarted⟩ := sevenStage_started i
  generalize hencode : encodeFinalityJournal sevenContext ⟨1, Lock.free, some (sevenVote .prevote i)⟩ = bytes
    at hbytes
  refine ⟨bytes, ?_⟩
  rw [sevenStage_tick rfl hstarted rfl rfl]
  exact tickTarget_prevote (sevenEnv_smooth .prevote none) rfl hround rfl rfl hvote rfl rfl hencode hbytes

theorem sevenStage_precommitted {i : Nat} (hi : i < 5) :
    (sevenStage i 3).sent = [sevenVote .precommit i, sevenVote .prevote i] := by
  obtain ⟨bytes, hprevoted⟩ := sevenStage_prevoted hi
  have hobserve : observePrevoteQc sevenContext (sevenQc .prevote) sevenSnapshot
      (sevenState (sevenPrevoted i) true bytes) = sevenObserved i bytes :=
    observePrevoteQc_verified (sevenQc_verified .prevote) rfl
  have hqc : prevoteQcMatches (sevenObserved i bytes) sevenSnapshot CheckpointRef.null sevenTarget 1 := by
    show (some (sevenVerified .prevote)).any _ = true
    decide
  have hverdict : journalVerdict sevenContext (sevenEnv .precommit (some (sevenQc .prevote)))
      (sevenObserved i bytes) sevenSnapshot CheckpointRef.null sevenTarget 1 = .proceed :=
    journalVerdict_precommit rfl rfl (sevenVote_authentic hi .prevote) rfl rfl rfl rfl hqc
  have hvote : precommit sevenContext (sevenMember i).pubkeyHex Lock.free sevenSnapshot 1 CheckpointRef.null
      sevenTarget (sevenVerified .prevote) (sevenSignature .precommit) =
        some (sevenVote .precommit i, ⟨true, 1, 1, sevenTarget⟩) := by
    have hguard : memberOf sevenContext (sevenMember i).pubkeyHex sevenSnapshot ∧
        1 = checkpointRound sevenTarget.height.toNat := ⟨sevenMember_member hi, by decide⟩
    simp only [precommit, guard_pos hguard, verifyDecodedQc_again (sevenQc_verified .prevote),
      some_bind]
    rfl
  have hround : checkpointRound sevenTarget.height.toNat = 1 := by decide
  have hbytes := sevenJournal_stored hi .precommit ⟨true, 1, 1, sevenTarget⟩
  rw [sevenStage_tick rfl hprevoted rfl rfl, Option.elim_some, hobserve]
  generalize hencode : encodeFinalityJournal sevenContext
      ⟨1, ⟨true, 1, 1, sevenTarget⟩, some (sevenVote .precommit i)⟩ = next at hbytes
  exact tickTarget_precommit (sevenEnv_smooth .precommit _) rfl hround hverdict rfl hqc hvote rfl rfl hencode
    hbytes

/-- After the prevote another block takes the place of the target. -/
def sevenForked : List Event := sevenEvents.take 2 ++ [.tick (sevenView (.fill 1) .prevote none)]

theorem sevenForked_refused {i : Nat} (hi : i < 5) :
    (run sevenContext (sevenMember i).pubkeyHex (Validator.off ⟨none, none, none⟩) sevenForked).sent =
      [sevenVote .prevote i] := by
  obtain ⟨bytes, hprevoted⟩ := sevenStage_prevoted hi
  have hverdict : journalVerdict sevenContext (sevenView (.fill 1) .prevote none)
      (sevenState (sevenPrevoted i) true bytes) sevenSnapshot CheckpointRef.null ⟨500, .fill 1⟩ 1 = .refuse := by
    have hknown : (lastSnapshot sevenContext (sevenView (.fill 1) .prevote none) sevenSnapshot
        (sevenVote .prevote i)).any (verifyVote sevenContext (sevenVote .prevote i)) = true := by
      rw [lastSnapshot, if_pos (show (sevenVote .prevote i).epochId = sevenSnapshot.epochId from rfl),
        Option.any_some, sevenVote_authentic hi .prevote]
    have hother : ¬ ((sevenVote .prevote i).source = CheckpointRef.null ∧
        (sevenVote .prevote i).target = ⟨500, .fill 1⟩) := by
      rintro ⟨-, htarget⟩
      have hne : sevenTarget ≠ ⟨500, .fill 1⟩ := by decide
      exact hne htarget
    rw [journalVerdict, show (sevenState (sevenPrevoted i) true bytes).journal.lastVote =
      some (sevenVote .prevote i) from rfl]
    dsimp only
    rw [hknown, if_neg (by decide), if_pos ⟨rfl, rfl⟩, if_neg hother]
  have hround : checkpointRound (500 : UInt64).toNat = 1 := by decide
  rw [sevenForked, run, foldl_append, foldl_cons, foldl_nil]
  change (step sevenContext _ (sevenStage i 2) _).sent = _
  rw [hprevoted, step_tick rfl rfl, sevenTick, Option.elim_none, tickTarget_refuse rfl hround hverdict]
  rfl

theorem daemon_never_equivocates_seven :
    sevenVote .prevote 0 ∈ (run sevenContext (sevenMember 0).pubkeyHex (Validator.off ⟨none, none, none⟩)
      sevenForked).sent ∧
    ∀ w ∈ (run sevenContext (sevenMember 0).pubkeyHex (Validator.off ⟨none, none, none⟩) sevenForked).sent,
      w.epochId = 1 → w.phase = .prevote → w.round = 1 → w.target = sevenTarget := by
  have hsent : sevenVote .prevote 0 ∈ (run sevenContext (sevenMember 0).pubkeyHex
      (Validator.off ⟨none, none, none⟩) sevenForked).sent := by
    rw [sevenForked_refused (by decide)]
    exact mem_cons_self
  exact ⟨hsent, fun w hw hepoch hphase hround =>
    (daemon_never_equivocates _ _ _ _ w hw _ hsent hepoch hphase hround).2⟩

/-- The network when so many things have happened to each member. -/
def sevenNet (count : Nat → Nat) (i : Nat) : Validator := sevenStage i (count i)

def sevenAncestor (a b : CheckpointRef) : Prop := a.height < b.height

def sevenReaches (count : Nat → Nat) : Prop :=
  Reachable sevenContext sevenSnapshot (· < 5) sevenAncestor (sevenNet count)

theorem sevenQc_unforged (phase : Phase) {net : Nat → Validator}
    (h : ∀ i < 5, sevenVote phase i ∈ (net i).sent) :
    Unforged sevenContext sevenSnapshot (· < 5) net (sevenQc phase).sigs := by
  intro i member pk hi _ _ sig hsig message hverify
  cases eq_of_mem_replicate hsig
  refine ⟨sevenVote phase i, h i hi, ?_⟩
  have hsigned : soloContext.verify pk (certMessage sevenContext (sevenCert phase) sevenSnapshot)
      (sevenSignature phase) = true := by
    have hlength : (certMessage sevenContext (sevenCert phase) sevenSnapshot).length = 183 := by
      cases phase <;> rfl
    simp only [soloContext, hlength, sevenSignature, decide_true, Bool.and_self]
  exact soloContext_binding pk _ _ _ hsigned hverify

theorem sevenEnv_sees (phase : Phase) (qc : Option DecodedQc) :
    Sees sevenSnapshot sevenAncestor (sevenEnv phase qc) where
  snapshot _ hs' := (Option.some.inj hs').symm
  chain _ _ _ _ hlt := hlt

theorem sevenReaches_step {count : Nat → Nat} {i : Nat} {event : Event} (h : sevenReaches count) (hi : i < 5)
    (hevent : sevenEvents[count i]? = some event)
    (hfair : event.Fair sevenContext sevenSnapshot (· < 5) sevenAncestor (sevenNet count)) :
    sevenReaches (Function.update count i (count i + 1)) := by
  have hstep := Reachable.step h hi (sevenMember_get hi) hfair
  have hnet : sevenNet (Function.update count i (count i + 1)) =
      Function.update (sevenNet count) i
        (step sevenContext (sevenMember i).pubkeyHex (sevenNet count i) event) := by
    funext k
    by_cases hk : k = i
    · subst hk
      rw [Function.update_self, sevenNet, Function.update_self, sevenStage_succ k hevent]
      rfl
    · rw [Function.update_of_ne hk, sevenNet, Function.update_of_ne hk]
      rfl
  rw [sevenReaches, hnet]
  exact hstep

theorem sevenReaches_prevoted {n : Nat} (hn : n ≤ 5) : sevenReaches fun i => if i < n then 2 else 0 := by
  induction n with
  | zero => exact .start fun _ => ⟨rfl, rfl⟩
  | succ n ih =>
    have hstart := sevenReaches_step (ih (by omega)) (i := n) (by omega)
      (show _ = some (Event.restart ⟨false, .written, .written⟩) by simp [sevenEvents]) trivial
    have htick := sevenReaches_step hstart (i := n) (by omega)
      (show _ = some (Event.tick (sevenEnv .prevote none)) by simp [sevenEvents])
      ⟨sevenEnv_sees _ _, nofun⟩
    convert htick using 2 with i
    simp only [Function.update_apply]
    split_ifs <;> omega

theorem sevenReaches_precommitted {n : Nat} (hn : n ≤ 5) :
    sevenReaches fun i => if i < n then 3 else if i < 5 then 2 else 0 := by
  induction n with
  | zero => simpa using sevenReaches_prevoted le_rfl
  | succ n ih =>
    have hfair : Unforged sevenContext sevenSnapshot (· < 5)
        (sevenNet fun i => if i < n then 3 else if i < 5 then 2 else 0) (sevenQc .prevote).sigs := by
      refine sevenQc_unforged .prevote fun i hi => ?_
      simp only [sevenNet, if_pos hi]
      split_ifs
      · rw [sevenStage_precommitted hi]
        exact mem_cons_of_mem _ mem_cons_self
      · obtain ⟨bytes, hprevoted⟩ := sevenStage_prevoted hi
        rw [hprevoted]
        exact mem_cons_self
    have htick := sevenReaches_step (ih (by omega)) (i := n) (by omega)
      (show _ = some (Event.tick (sevenEnv .precommit (some (sevenQc .prevote)))) by
        have hlt : n < 5 := by omega
        simp [sevenEvents, hlt])
      ⟨sevenEnv_sees _ _, fun qc hqc => Option.some.inj hqc ▸ hfair⟩
    convert htick using 2 with i
    simp only [Function.update_apply]
    split_ifs <;> omega

/-- One more certificate for the target: a faulty member has signed in the place of an honest one. -/
def sevenOther : DecodedQc := sevenSigned (sevenCert .precommit) 62

theorem precommits_comparable_seven :
    (sevenQc .precommit).qc.bitmap ≠ sevenOther.qc.bitmap ∧
      ((sevenQc .precommit).qc.target = sevenOther.qc.target ∨
        sevenAncestor (sevenQc .precommit).qc.target sevenOther.qc.target ∨
        sevenAncestor sevenOther.qc.target (sevenQc .precommit).qc.target) := by
  have hunforged : Unforged sevenContext sevenSnapshot (· < 5)
      (sevenNet fun i => if i < 5 then 3 else if i < 5 then 2 else 0) (sevenQc .precommit).sigs := by
    refine sevenQc_unforged .precommit fun i hi => ?_
    simp only [sevenNet, if_pos hi, sevenStage_precommitted hi]
    exact mem_cons_self
  obtain ⟨other, hother⟩ := Option.isSome_iff_exists.mp sevenSigned_verified.2.2.1
  have hfew : Quorum.FewFaulty (Finset.range sevenSnapshot.entries.length) sevenSnapshot.weightAt (· < 5) := by
    unfold Quorum.FewFaulty
    decide +kernel
  have htrans : ∀ a b c, sevenAncestor a b → sevenAncestor b c → sevenAncestor a c :=
    fun _ _ _ hab hbc => UInt64.lt_trans hab hbc
  exact ⟨by decide, precommits_comparable htrans hfew (sevenReaches_precommitted le_rfl)
    (sevenQc_verified .precommit) rfl hunforged hother rfl hunforged⟩

end Veld.Finality
