import Veld.Consensus.FinalityDaemon

/-!
# A validator that runs the daemon does not equivocate

The journal is written before a vote leaves, so whatever a crash leaves on the disk, its last vote stands in a
frame at least as high as every vote that was gossiped, and in the same frame it makes the same claim.
-/

namespace Veld.Finality

open Wire List

/-! ## The journal is read back -/

section
variable {K : Context}

theorem decodeSignedVoteWire_encode {v v' : SignedVote} (hepoch : v.epochId < 2 ^ 64)
    (hround : v.round < 2 ^ 32) (h : decodeSignedVoteWire (encodeSignedVoteWire v) = some v') :
    ∃ pk, v' = { v with pubkeyHex := toHex pk } := by
  unfold encodeSignedVoteWire at h
  cases hpk : hexToPublicKey v.pubkeyHex with
  | none =>
    simp only [hpk] at h
    cases h
  | some pk =>
    simp only [hpk] at h
    split at h
    · have hphase : Phase.ofCode v.phase.code = some v.phase := by cases v.phase <;> rfl
      have hcode : v.phase.code < 256 ^ 1 := by cases v.phase <;> decide
      have hlen := (hexToPublicKey_length hpk).2
      have htake : takeN pubkeyBytes (pk ++ v.signature) = some (pk, v.signature) :=
        hlen ▸ takeN_append pk v.signature
      simp only [decodeSignedVoteWire, drop_left' (show (ascii "FVT1").length = 4 from rfl),
        readLE_putLE (show v.epochId < 256 ^ 8 from hepoch), readHash_bytes, readLE_putLE hcode,
        hphase, readLE_putLE (show v.round < 256 ^ 4 from hround),
        readLE_putLE_u64, htake, some_bind, bind_eq_some, Option.pure_def, UInt64.ofNat_toNat, Option.some.injEq] at h
      obtain ⟨-, -, -, -, rfl⟩ := h
      exact ⟨pk, rfl⟩
    · cases h

structure DaemonJournal.Fits (j : DaemonJournal) : Prop where
  version : j.version < 2 ^ 32
  lockEpoch : j.lock.epochId < 2 ^ 64
  lockRound : j.lock.round < 2 ^ 32
  vote : ∀ v, j.lastVote = some v → v.epochId < 2 ^ 64 ∧ v.round < 2 ^ 32

/-- The same vote, with its key perhaps in another spelling. -/
def SignedVote.Respelled (v v' : SignedVote) : Prop := ∃ key, v' = { v with pubkeyHex := key }

/-- The journals differ at most in the spelling of a key. -/
structure DaemonJournal.Alike (j j' : DaemonJournal) : Prop where
  lock : j'.lock = j.lock
  vote : Option.Rel SignedVote.Respelled j.lastVote j'.lastVote

theorem DaemonJournal.Alike.cases {j j' : DaemonJournal} (h : j.Alike j') :
    j.lastVote = none ∧ j'.lastVote = none ∨
      ∃ v key, j.lastVote = some v ∧ j'.lastVote = some { v with pubkeyHex := key } := by
  have hvote := h.vote
  cases hj : j.lastVote with
  | none =>
    rw [hj] at hvote
    generalize j'.lastVote = o at hvote
    cases hvote
    exact .inl ⟨rfl, rfl⟩
  | some v =>
    rw [hj] at hvote
    generalize j'.lastVote = o at hvote
    cases hvote with
    | some hv =>
      obtain ⟨key, rfl⟩ := hv
      exact .inr ⟨v, key, rfl, rfl⟩

theorem decodeFinalityJournal_encode {j j' : DaemonJournal} (hfits : j.Fits)
    (h : decodeFinalityJournal K (encodeFinalityJournal K j) = some j') : j.Alike j' := by
  unfold encodeFinalityJournal at h
  split at h
  · have hdrop : ∀ rest : Bytes, (ascii "VFJ1" ++ rest).drop 4 = rest := fun rest =>
      drop_left' rfl
    have hheld : j.lock.held.toNat < 256 ^ 1 := by cases j.lock.held <;> decide
    have hsize : (journalBody j ++ (journalChecksum K (journalBody j)).bytes).length - 32 =
        (journalBody j).length := by
      rw [length_append, Hash256.size]
      omega
    simp only [decodeFinalityJournal, hsize, take_left' rfl, Option.bind_eq_bind] at h
    obtain ⟨-, -, h⟩ := bind_eq_some.mp h
    obtain ⟨-, -, h⟩ := bind_eq_some.mp h
    obtain ⟨-, -, h⟩ := bind_eq_some.mp h
    simp only [journalBody, hdrop, readLE_putLE (show j.version < 256 ^ 4 from hfits.version),
      readLE_putLE hheld, readLE_putLE (show j.lock.epochId < 256 ^ 8 from hfits.lockEpoch),
      readLE_putLE (show j.lock.round < 256 ^ 4 from hfits.lockRound),
      readLE_putLE_u64,
      readHash_bytes, Option.bind_some, UInt64.ofNat_toNat] at h
    obtain ⟨-, -, h⟩ := bind_eq_some.mp h
    have hlock : (⟨j.lock.held.toNat ≠ 0, j.lock.epochId, j.lock.round, j.lock.target⟩ : Lock) = j.lock := by
      cases hl : j.lock with
      | mk held _ _ _ => cases held <;> rfl
    cases hvote : j.lastVote with
    | none =>
      have hnone := readLE_putLE (show 0 < 256 ^ 1 by decide) []
      rw [append_nil] at hnone
      simp only [hvote, journalVote, hnone, Option.bind_some, Option.bind_eq_some_iff] at h
      obtain ⟨-, -, last, hlast, heq⟩ := h
      cases hlast
      cases heq
      refine ⟨hlock, ?_⟩
      rw [hvote]
      exact .none
    | some v =>
      obtain ⟨hepoch, hround⟩ := hfits.vote v hvote
      simp only [hvote, journalVote, readLE_putLE (show 1 < 256 ^ 1 by decide), Option.bind_some,
        Option.bind_eq_some_iff] at h
      obtain ⟨-, -, last, hlast, heq⟩ := h
      simp only [readJournalVote, if_true] at hlast
      split at hlast
      · obtain ⟨v', hv', rfl⟩ := Option.map_eq_some_iff.mp hlast
        obtain ⟨pk, rfl⟩ := decodeSignedVoteWire_encode hepoch hround hv'
        cases heq
        refine ⟨hlock, ?_⟩
        rw [hvote]
        exact .some ⟨toHex pk, rfl⟩
      · cases hlast
  · cases h

end

/-! ## Invariants of a validator -/

/-- What a daemon remembers of its votes: the lock in memory and the last vote. -/
def DaemonState.view (st : DaemonState) : DaemonJournal := ⟨1, st.lock, st.journal.lastVote⟩

/-- What a restart would remember. -/
def DaemonJournal.view (j : DaemonJournal) : DaemonJournal := ⟨1, j.lock, j.lastVote⟩

structure Aim (K : Context) (env : TickEnv) (snapshot : EpochSnapshot) (target : CheckpointRef) :
    Prop where
  retained : env.snapshot (epochOf target.height.toNat) = some snapshot
  qualifies : snapshotQualifies K snapshot = true
  epoch : snapshot.epochId = epochOf target.height.toNat
  scheduled : isScheduledCheckpoint target.height.toNat = true
  onChain : env.blockHash target.height = some target.hash

/-- The frame of a claim is higher than that of the last vote, or the claim is the last vote's and that
was a prevote. -/
def Advances (last : Option SignedVote) (epoch round : Nat) (source target : CheckpointRef) : Prop :=
  ∀ v, last = some v → consensusRoundNewer epoch round v.epochId v.round ∨
    v.epochId = epoch ∧ v.round = round ∧ v.source = source ∧ v.target = target ∧ v.phase = .prevote

section
variable {K : Context} {pubkeyHex : Bytes} {env : TickEnv} {st : DaemonState} {m : Validator}
  {snapshot : EpochSnapshot} {source target : CheckpointRef} {round : Nat} {last : SignedVote}

theorem journalVerdict_proceed
    (h : journalVerdict K env st snapshot source target round = .proceed) :
    Advances st.journal.lastVote snapshot.epochId round source target := by
  intro v hv
  unfold journalVerdict at h
  rw [hv] at h
  simp only at h
  split at h
  · cases h
  · split at h
    · rename_i hframe
      split at h
      · rename_i hclaim
        split at h
        · split at h <;> cases h
        · rename_i hphase
          have hprevote : v.phase = .prevote := by
            cases hp : v.phase with
            | prevote => rfl
            | precommit => exact absurd (.inl hp) hphase
          exact .inr ⟨hframe.1, hframe.2, hclaim.1, hclaim.2, hprevote⟩
      · cases h
    · split at h
      · rename_i hnewer
        exact .inl hnewer
      · cases h

theorem journalVerdict_resend
    (h : journalVerdict K env st snapshot source target round = .resend last) :
    st.journal.lastVote = some last := by
  unfold journalVerdict at h
  split at h
  · cases h
  · rename_i v hv
    split at h
    · cases h
    · split at h
      · split at h
        · split at h
          · split at h
            · cases h
            · cases h
              exact hv
          · cases h
        · cases h
      · split at h <;> cases h

theorem newestVotableCheckpoint_scheduled {tip : UInt64} (h : newestVotableCheckpoint tip ≠ 0) :
    isScheduledCheckpoint (newestVotableCheckpoint tip).toNat := by
  rw [isScheduledCheckpoint_iff]
  refine ⟨fun hzero => h (UInt64.toNat_inj.mp hzero), ?_⟩
  unfold newestVotableCheckpoint
  split
  · rfl
  · have hle : (tip - 1).toNat / 20 * 20 ≤ (tip - 1).toNat := Nat.div_mul_le_self _ _
    have hlt := (tip - 1).toNat_lt
    rw [UInt64.toNat_mul, UInt64.toNat_div, show (20 : UInt64).toNat = 20 from rfl,
      Nat.mod_eq_of_lt (lt_of_le_of_lt hle hlt)]
    omega

end

/-- Rules for a property of what a validator remembers, relative to the votes it has sent. -/
structure Rules (K : Context) (pubkeyHex : Bytes) (Safe : List SignedVote → DaemonJournal → Prop)
    (Usable : List SignedVote → DecodedQc → Prop) (Seen : TickEnv → Prop) : Prop where
  fits : ∀ {sent j}, Safe sent j → j.Fits
  respell : ∀ {sent j j'}, Safe sent j → j.Alike j' → Safe sent j'.view
  gossip : ∀ {sent j v v'}, Safe sent j → j.lastVote = some v' → v.Respelled v' → Safe (v :: sent) j
  usable_cons : ∀ {sent v qc}, Usable sent qc → Usable (v :: sent) qc
  usable_verified : ∀ {sent qc qc' s}, Usable sent qc → verifyDecodedQc K qc s = some qc' →
    Usable sent qc'
  prevote : ∀ {env snapshot sent lock last source target round vote}, Seen env →
    Aim K env snapshot target → Safe sent ⟨1, lock, last⟩ →
    Advances last snapshot.epochId round source target →
    prevote K pubkeyHex lock snapshot round source target none (extendsLock env lock target)
      env.signature = some vote →
    Safe sent ⟨1, lock, some vote⟩
  precommit : ∀ {env snapshot sent lock last source target round qc vote lock'}, Seen env →
    Aim K env snapshot target → Safe sent ⟨1, lock, last⟩ → Usable sent qc →
    Advances last snapshot.epochId round source target →
    precommit K pubkeyHex lock snapshot round source target qc env.signature = some (vote, lock') →
    Safe sent ⟨1, lock', last⟩ ∧ Safe sent ⟨1, lock', some vote⟩

/-- The property holds of the journal on the disk and of the daemon, and the two agree on the last
vote. -/
structure Keeps (K : Context) (Safe : List SignedVote → DaemonJournal → Prop)
    (Usable : List SignedVote → DecodedQc → Prop) (m : Validator) : Prop where
  stored : ∀ bytes j, m.disk.journal = some bytes → decodeFinalityJournal K bytes = some j →
    Safe m.sent j.view
  unstored : m.disk.journal = none → m.sent = [] ∧
    ∀ j, decodeFinalityJournal K (m.disk.legacy.getD (encodeFinalityJournal K .fresh)) = some j →
      Safe [] j.view
  memory : ∀ st, m.daemon = some st → st.journalInvalid = false → Safe m.sent st.view ∧
    (∀ qc, st.latestPrevoteQc = some qc → Usable m.sent qc) ∧
    ∃ bytes, m.disk.journal = some bytes ∧ ∀ j, decodeFinalityJournal K bytes = some j →
      Option.Rel SignedVote.Respelled st.journal.lastVote j.lastVote

def SentOne (Safe : List SignedVote → DaemonJournal → Prop) (m m' : Validator) : Prop :=
  m'.sent = m.sent ∨ ∃ v j, m'.sent = v :: m.sent ∧ Safe m.sent j ∧ j.lastVote = some v

abbrev Proceeds (K : Context) (Safe : List SignedVote → DaemonJournal → Prop)
    (Usable : List SignedVote → DecodedQc → Prop) (m m' : Validator) : Prop :=
  Keeps K Safe Usable m' ∧ SentOne Safe m m'

section
variable {K : Context} {pubkeyHex : Bytes} {Safe : List SignedVote → DaemonJournal → Prop}
  {Usable : List SignedVote → DecodedQc → Prop} {Seen : TickEnv → Prop} {env : TickEnv}
  {st : DaemonState} {m : Validator}

theorem Keeps.off_disk (h : Keeps K Safe Usable m) : Keeps K Safe Usable { m with daemon := none } :=
  ⟨h.stored, h.unstored, fun _ hst => by cases hst⟩

theorem Keeps.running (h : Keeps K Safe Usable m) (hst : m.daemon = some st) {st' : DaemonState}
    (hvalid : st'.journalInvalid = false → st.journalInvalid = false ∧ Safe m.sent st'.view ∧
      (∀ qc, st'.latestPrevoteQc = some qc → Usable m.sent qc) ∧ st'.journal = st.journal) :
    Keeps K Safe Usable (m.running st') := by
  refine ⟨h.stored, h.unstored, fun st'' heq hok => ?_⟩
  obtain rfl := Option.some.inj heq
  obtain ⟨hwas, hsafe, husable, hjournal⟩ := hvalid hok
  obtain ⟨-, -, hdisk⟩ := h.memory st hst hwas
  rw [hjournal]
  exact ⟨hsafe, husable, hdisk⟩

variable {finish : DaemonState → DaemonState}

theorem Rules.gossiped (R : Rules K pubkeyHex Safe Usable Seen) (h : Keeps K Safe Usable m)
    (hst : m.daemon = some st) (hok : st.journalInvalid = false) {vote : SignedVote}
    (hlast : st.journal.lastVote = some vote)
    (hfinish : (finish st).view = st.view ∧ (finish st).journal = st.journal ∧
      ∀ qc, (finish st).latestPrevoteQc = some qc → st.latestPrevoteQc = some qc)
    (outcome : GossipOutcome) :
    Proceeds K Safe Usable m (gossipVote outcome vote finish st m) := by
  obtain ⟨hsafe, husable, bytes, hbytes, hagree⟩ := h.memory st hst hok
  have hrespelled : vote.Respelled vote := ⟨vote.pubkeyHex, rfl⟩
  have hstored : ∀ bytes' j, m.disk.journal = some bytes' →
      decodeFinalityJournal K bytes' = some j → Safe (vote :: m.sent) j.view := by
    intro bytes' j hbytes' hj
    obtain rfl := Option.some.inj (hbytes.symm.trans hbytes')
    have hrel := hagree j hj
    rw [hlast] at hrel
    cases hrel' : j.lastVote with
    | none =>
      rw [hrel'] at hrel
      cases hrel
    | some v' =>
      rw [hrel'] at hrel
      cases hrel with
      | some hv' => exact R.gossip (h.stored bytes j hbytes hj) hrel' hv'
  have hunstored : m.disk.journal = none → vote :: m.sent = [] ∧
      ∀ j, decodeFinalityJournal K (m.disk.legacy.getD (encodeFinalityJournal K .fresh)) = some j →
        Safe [] j.view := by
    intro hnone
    rw [hbytes] at hnone
    cases hnone
  have hmemory : ∀ st' : DaemonState, st'.view = st.view → st'.journal = st.journal →
      (∀ qc, st'.latestPrevoteQc = some qc → st.latestPrevoteQc = some qc) →
      Safe (vote :: m.sent) st'.view ∧
        (∀ qc, st'.latestPrevoteQc = some qc → Usable (vote :: m.sent) qc) ∧
        ∃ bytes, m.disk.journal = some bytes ∧ ∀ j, decodeFinalityJournal K bytes = some j →
          Option.Rel SignedVote.Respelled st'.journal.lastVote j.lastVote := by
    intro st' hview hjournal hqc
    rw [hview, hjournal]
    exact ⟨R.gossip hsafe hlast hrespelled, fun qc hq => R.usable_cons (husable qc (hqc qc hq)),
      bytes, hbytes, hagree⟩
  have hone : SentOne Safe m { m with sent := vote :: m.sent } :=
    .inr ⟨vote, st.view, rfl, hsafe, hlast⟩
  cases outcome with
  | sent | refused =>
    refine ⟨⟨hstored, hunstored, fun st' heq _ => ?_⟩, hone⟩
    obtain rfl := Option.some.inj heq
    exact hmemory _ hfinish.1 hfinish.2.1 hfinish.2.2
  | threw =>
    refine ⟨⟨hstored, hunstored, fun st' heq _ => ?_⟩, hone⟩
    obtain rfl := Option.some.inj heq
    exact hmemory _ rfl rfl fun qc hq => hq
  | crashed left =>
    cases left with
    | true => exact ⟨⟨hstored, hunstored, fun st' heq => by cases heq⟩, hone⟩
    | false => exact ⟨h.off_disk, .inl rfl⟩

/-- The machine with another journal on its disk and another daemon. -/
def Validator.withJournal (m : Validator) (bytes : Bytes) (daemon : Option DaemonState) : Validator :=
  { m with disk := { m.disk with journal := some bytes }, daemon := daemon }

theorem Rules.written (R : Rules K pubkeyHex Safe Usable Seen) {next : DaemonJournal}
    (hnext : Safe m.sent next) {daemon : Option DaemonState}
    (hdaemon : ∀ st, daemon = some st → st.journalInvalid = false → Safe m.sent st.view ∧
      (∀ qc, st.latestPrevoteQc = some qc → Usable m.sent qc) ∧ st.journal = next) :
    Keeps K Safe Usable (m.withJournal (encodeFinalityJournal K next) daemon) := by
  refine ⟨fun bytes j hbytes hj => ?_, nofun, fun st hst hok => ?_⟩
  · obtain rfl := Option.some.inj hbytes
    exact R.respell hnext (decodeFinalityJournal_encode (R.fits hnext) hj)
  · obtain ⟨hsafe, husable, hjournal⟩ := hdaemon st hst hok
    refine ⟨hsafe, husable, _, rfl, fun j hj => ?_⟩
    rw [hjournal]
    exact (decodeFinalityJournal_encode (R.fits hnext) hj).vote

def DaemonState.persisted (st : DaemonState) (next : DaemonJournal) (bytes : Bytes) : DaemonState :=
  { st with journal := next, journalVoteDelivered := false, expected := bytes }

theorem Rules.cast (R : Rules K pubkeyHex Safe Usable Seen) (h : Keeps K Safe Usable m)
    {st₀ : DaemonState} (hst : m.daemon = some st₀) (hok : st₀.journalInvalid = false)
    (hview : Safe m.sent st.view) (hjournal : st.journal = st₀.journal)
    (hvalid : st.journalInvalid = false)
    (husable : ∀ qc, st.latestPrevoteQc = some qc → Usable m.sent qc) {vote : SignedVote}
    (hnext : Safe m.sent ⟨1, st.lock, some vote⟩)
    (hfinish : ∀ st, (finish st).view = st.view ∧ (finish st).journal = st.journal ∧
      ∀ qc, (finish st).latestPrevoteQc = some qc → st.latestPrevoteQc = some qc)
    (grant : WorkGrant) :
    Proceeds K Safe Usable m (castVote K env grant vote finish st m) := by
  have hrun : Keeps K Safe Usable (m.running st) :=
    h.running hst fun _ => ⟨hok, hview, husable, hjournal⟩
  have hstop : Keeps K Safe Usable (m.running { st with journalInvalid := true }) :=
    h.running hst nofun
  unfold castVote
  split
  swap
  · exact ⟨hrun, .inl rfl⟩
  unfold persistThen
  simp only
  split
  · exact ⟨hstop, .inl rfl⟩
  -- the new frame may be on the disk or not; the daemon goes on only when it certainly is
  have hnew {daemon : Option DaemonState}
      (hdaemon : ∀ st', daemon = some st' → st'.journalInvalid = false → st'.view = ⟨1, st.lock, some vote⟩ ∧
        st'.latestPrevoteQc = st.latestPrevoteQc ∧ st'.journal = ⟨1, st.lock, some vote⟩) :
      Keeps K Safe Usable (m.withJournal (encodeFinalityJournal K ⟨1, st.lock, some vote⟩) daemon) :=
    R.written hnext fun st' hst' hok' => by
      obtain ⟨hview', hqc, hjournal'⟩ := hdaemon st' hst' hok'
      rw [hview', hqc]
      exact ⟨hnext, husable, hjournal'⟩
  cases env.persist with
  | written =>
    have hkeep : Keeps K Safe Usable (m.withJournal _ (some (st.persisted ⟨1, st.lock, some vote⟩
        (encodeFinalityJournal K ⟨1, st.lock, some vote⟩)))) :=
      hnew fun st' hst' _ => by
        obtain rfl := Option.some.inj hst'
        exact ⟨rfl, rfl, rfl⟩
    simp only [WriteOutcome.stored, if_true]
    split
    · exact R.gossiped hkeep rfl hvalid rfl (hfinish _) env.gossip
    · exact ⟨hkeep, .inl rfl⟩
  | failed stored =>
    cases stored with
    | true =>
      refine ⟨hnew fun st' hst' hok' => ?_, .inl rfl⟩
      obtain rfl := Option.some.inj hst'
      cases hok'
    | false => exact ⟨hstop, .inl rfl⟩
  | crashed stored =>
    cases stored with
    | true =>
      refine ⟨hnew fun st' hst' _ => ?_, .inl rfl⟩
      cases hst'
    | false => exact ⟨h.off_disk, .inl rfl⟩

/-! ## Ticks and restarts -/

structure Resumes (Usable : List SignedVote → DecodedQc → Prop) (sent : List SignedVote)
    (st₀ st : DaemonState) : Prop where
  lock : st.lock = st₀.lock
  journal : st.journal = st₀.journal
  valid : st.journalInvalid = false
  usable : ∀ qc, st.latestPrevoteQc = some qc → Usable sent qc

section
variable {st₀ : DaemonState} (R : Rules K pubkeyHex Safe Usable Seen) (h : Keeps K Safe Usable m)
  (hst : m.daemon = some st₀) (hok : st₀.journalInvalid = false) (hres : Resumes Usable m.sent st₀ st)
include h hst hok hres

theorem Keeps.resume : Safe m.sent st.view ∧ Keeps K Safe Usable (m.running st) := by
  have hview : Safe m.sent st.view := by
    unfold DaemonState.view
    rw [hres.lock, hres.journal]
    exact (h.memory st₀ hst hok).1
  exact ⟨hview, h.running hst fun _ => ⟨hok, hview, hres.usable, hres.journal⟩⟩

theorem Keeps.withGrant {work : WorkGrant → Validator}
    (hwork : ∀ grant, Proceeds K Safe Usable m (work grant)) :
    Proceeds K Safe Usable m (withGrant env st m work) := by
  have hrun := (h.resume hst hok hres).2
  unfold Finality.withGrant
  split
  · split
    · exact hwork _
    · exact ⟨hrun, .inl rfl⟩
  · exact ⟨hrun, .inl rfl⟩

include R

variable {snapshot : EpochSnapshot} {target : CheckpointRef} (hseen : Seen env)
  (haim : Aim K env snapshot target)
include hseen haim

variable {source : CheckpointRef}

theorem Rules.prevoted {round : Nat}
    (hadv : Advances st.journal.lastVote snapshot.epochId round source target) (grant : WorkGrant) :
    Proceeds K Safe Usable m (prevoteStep K pubkeyHex env grant snapshot round source target st m) := by
  obtain ⟨hview, hrun⟩ := h.resume hst hok hres
  unfold prevoteStep
  split
  · rename_i vote hvote
    exact R.cast h hst hok hview hres.journal hres.valid hres.usable
      (R.prevote hseen haim hview hadv hvote) (fun st => ⟨rfl, rfl, fun qc hqc => hqc⟩) grant
  · exact ⟨hrun, .inl rfl⟩

theorem Rules.precommitted {round : Nat}
    (hadv : Advances st.journal.lastVote snapshot.epochId round source target) (grant : WorkGrant) :
    Proceeds K Safe Usable m (precommitStep K pubkeyHex env grant snapshot round source target st m) := by
  obtain ⟨hview, hrun⟩ := h.resume hst hok hres
  unfold precommitStep
  split
  · rename_i vote lock hvote
    obtain ⟨qc, hqc, hvote⟩ := bind_eq_some.mp hvote
    obtain ⟨hlocked, hnext⟩ := R.precommit hseen haim hview (hres.usable qc hqc) hadv hvote
    have hview' : Safe m.sent (DaemonState.view { st with lock := lock }) := hlocked
    have hfinish (st : DaemonState) : DaemonState.view { st with latestPrevoteQc := none } = st.view ∧
        st.journal = st.journal ∧ ∀ qc, none = some qc → st.latestPrevoteQc = some qc :=
      ⟨rfl, rfl, nofun⟩
    exact R.cast h hst hok hview' hres.journal hres.valid hres.usable hnext hfinish grant
  · exact ⟨hrun, .inl rfl⟩

theorem Rules.tickedTarget :
    Proceeds K Safe Usable m (tickTarget K pubkeyHex env snapshot target st m) := by
  obtain ⟨-, hrun⟩ := h.resume hst hok hres
  unfold tickTarget
  simp only
  split
  · exact ⟨hrun, .inl rfl⟩
  · exact ⟨h.running hst nofun, .inl rfl⟩
  · rename_i last hverdict
    refine h.withGrant hst hok hres fun grant => ?_
    exact R.gossiped hrun rfl hres.valid (journalVerdict_resend hverdict)
      ⟨rfl, rfl, fun qc hqc => hqc⟩ env.gossip
  · rename_i hverdict
    have hadv := journalVerdict_proceed hverdict
    refine h.withGrant hst hok hres fun grant => ?_
    split
    · exact R.precommitted h hst hok hres hseen haim hadv grant
    · exact R.prevoted h hst hok hres hseen haim hadv grant

end

theorem observePrevoteQc_cases (qc : DecodedQc) (snapshot : EpochSnapshot) (st : DaemonState) :
    observePrevoteQc K qc snapshot st = st ∨ ∃ verified, verifyDecodedQc K qc snapshot = some verified ∧
      observePrevoteQc K qc snapshot st = { st with latestPrevoteQc := some verified } := by
  unfold observePrevoteQc
  split
  · rename_i verified hverified
    split
    · exact .inr ⟨verified, hverified, rfl⟩
    · exact .inl rfl
  · exact .inl rfl

theorem Rules.observed (R : Rules K pubkeyHex Safe Usable Seen) {st₀ : DaemonState}
    (hres : Resumes Usable m.sent st₀ st) {qc : DecodedQc} (hqc : Usable m.sent qc)
    (snapshot : EpochSnapshot) : Resumes Usable m.sent st₀ (observePrevoteQc K qc snapshot st) := by
  obtain heq | ⟨verified, hverified, heq⟩ := observePrevoteQc_cases (K := K) qc snapshot st
  · rwa [heq]
  · rw [heq]
    refine ⟨hres.lock, hres.journal, hres.valid, fun qc' hqc' => ?_⟩
    obtain rfl := Option.some.inj hqc'
    exact R.usable_verified hqc hverified

theorem Rules.ticked (R : Rules K pubkeyHex Safe Usable Seen) (h : Keeps K Safe Usable m)
    (hst : m.daemon = some st) (hok : st.journalInvalid = false) (hseen : Seen env)
    (hqc : ∀ qc, env.prevoteQc = some qc → Usable m.sent qc) :
    Proceeds K Safe Usable m (tickRunning K pubkeyHex env st m) := by
  have hsame : Resumes Usable m.sent st st := ⟨rfl, rfl, hok, (h.memory st hst hok).2.1⟩
  unfold tickRunning
  simp only
  split
  · exact ⟨(h.resume hst hok hsame).2, .inl rfl⟩
  rename_i hheight
  split
  · exact ⟨(h.resume hst hok hsame).2, .inl rfl⟩
  rename_i snapshot hsnapshot
  obtain ⟨hretained, hqualifies⟩ := Option.filter_eq_some_iff.mp hsnapshot
  simp only [Bool.and_eq_true, decide_eq_true_eq] at hqualifies
  have hres : Resumes Usable m.sent st
      (env.prevoteQc.elim st fun qc => observePrevoteQc K qc snapshot st) := by
    cases hq : env.prevoteQc with
    | none => exact hsame
    | some qc => exact R.observed hsame (hqc qc hq) snapshot
  split
  · exact ⟨(h.resume hst hok hres).2, .inl rfl⟩
  rename_i hash hhash
  split
  · exact R.tickedTarget h hst hok hres hseen ⟨hretained, hqualifies.1, hqualifies.2,
      newestVotableCheckpoint_scheduled hheight, hhash⟩
  · exact ⟨(h.resume hst hok hres).2, .inl rfl⟩

variable {disk : Disk}

theorem finishLoad_spec (env : LoadEnv) {bytes : Bytes} (hdisk : disk.journal = some bytes) :
    (finishLoad K env disk bytes).1.journal = some bytes ∧ (finishLoad K env disk bytes).1.legacy = disk.legacy ∧
      ∀ j expected, (finishLoad K env disk bytes).2 = .ready j expected →
        decodeFinalityJournal K bytes = some j := by
  unfold finishLoad
  split
  · exact ⟨hdisk, rfl, nofun⟩
  · rename_i journal hjournal
    have hready (j : DaemonJournal) (expected : Bytes) (heq : Loaded.ready journal bytes = .ready j expected) :
        decodeFinalityJournal K bytes = some j := by
      cases heq
      exact hjournal
    split
    · exact ⟨hdisk, rfl, hready⟩
    · cases env.initMarker with
      | written => exact ⟨hdisk, rfl, hready⟩
      | failed stored | crashed stored => cases stored <;> exact ⟨hdisk, rfl, nofun⟩

def Loads (K : Context) (disk disk' : Disk) (loaded : Loaded) : Prop :=
  (disk'.journal = disk.journal ∨ disk.journal = none ∧
      disk'.journal = some (disk.legacy.getD (encodeFinalityJournal K .fresh))) ∧
    disk'.legacy = disk.legacy ∧
    ∀ j expected, loaded = .ready j expected → ∃ bytes,
      disk'.journal = some bytes ∧ decodeFinalityJournal K bytes = some j

theorem loadJournal_spec (env : LoadEnv) (disk : Disk) :
    Loads K disk (loadJournal K env disk).1 (loadJournal K env disk).2 := by
  have hquiet {loaded : Loaded} (hne : ∀ j expected, loaded ≠ .ready j expected) : Loads K disk disk loaded :=
    ⟨.inl rfl, rfl, fun j expected heq => (hne j expected heq).elim⟩
  unfold loadJournal
  split
  · exact hquiet nofun
  split
  · rename_i bytes hbytes
    obtain ⟨hjournal, hlegacy, hready⟩ := finishLoad_spec (K := K) env hbytes
    exact ⟨.inl (hjournal.trans hbytes.symm), hlegacy, fun j expected heq => ⟨bytes, hjournal, hready j expected heq⟩⟩
  rename_i hnone
  split
  · exact hquiet nofun
  simp only
  split
  · exact hquiet nofun
  have hset : Disk.journal
      { disk with journal := some (disk.legacy.getD (encodeFinalityJournal K .fresh)) } = some _ := rfl
  cases env.initJournal with
  | written =>
    obtain ⟨hjournal, hlegacy, hready⟩ := finishLoad_spec (K := K) env hset
    exact ⟨.inr ⟨hnone, hjournal⟩, hlegacy, fun j expected heq => ⟨_, hjournal, hready j expected heq⟩⟩
  | failed stored | crashed stored =>
    cases stored with
    | true => exact ⟨.inr ⟨hnone, hset⟩, rfl, nofun⟩
    | false => exact hquiet nofun

theorem Keeps.loaded {loaded : Loaded}
    (h : Keeps K Safe Usable { m with disk := disk, daemon := none })
    (hready : ∀ j expected, loaded = .ready j expected →
      ∃ bytes, disk.journal = some bytes ∧ decodeFinalityJournal K bytes = some j) :
    Keeps K Safe Usable { m with disk := disk, daemon := construct pubkeyHex loaded } := by
  refine ⟨h.stored, h.unstored, fun st hst hok => ?_⟩
  cases loaded with
  | crashed => cases hst
  | invalid =>
    obtain rfl := Option.some.inj hst
    cases hok
  | ready j expected =>
    obtain ⟨bytes, hbytes, hj⟩ := hready j expected rfl
    obtain rfl := Option.some.inj hst
    split at hok
    · rename_i haccepted
      rw [if_pos haccepted]
      refine ⟨h.stored bytes j hbytes hj, nofun, bytes, hbytes, fun j' hj' => ?_⟩
      obtain rfl := Option.some.inj (hj.symm.trans hj')
      cases hlast : j.lastVote with
      | none => exact .none
      | some v => exact .some ⟨v.pubkeyHex, rfl⟩
    · cases hok

theorem Keeps.restarted (h : Keeps K Safe Usable m) (env : LoadEnv) :
    Keeps K Safe Usable (restart K pubkeyHex env m) := by
  obtain ⟨hjournal, hlegacy, hready⟩ := loadJournal_spec (K := K) env m.disk
  have hkeeps : Keeps K Safe Usable { m with disk := (loadJournal K env m.disk).1, daemon := none } := by
    refine ⟨fun bytes j hbytes hj => ?_, fun hnone => ?_, fun _ hst => by cases hst⟩
    · rcases hjournal with hsame | ⟨hnone, hnew⟩
      · exact h.stored bytes j (hsame.symm.trans hbytes) hj
      · obtain rfl := Option.some.inj (hnew.symm.trans hbytes)
        obtain ⟨hsent, hsafe⟩ := h.unstored hnone
        rw [hsent]
        exact hsafe j hj
    · rcases hjournal with hsame | ⟨-, hnew⟩
      · simp only [hlegacy]
        exact h.unstored (hsame.symm.trans hnone)
      · rw [hnew] at hnone
        cases hnone
  exact hkeeps.loaded hready

/-- What an event may bring: ticks of the given kind and usable certificates. -/
def Event.Brings (Usable : List SignedVote → DecodedQc → Prop) (Seen : TickEnv → Prop)
    (sent : List SignedVote) : Event → Prop
  | restart _ => True
  | crash => True
  | observe qc _ => Usable sent qc
  | tick env => Seen env ∧ ∀ qc, env.prevoteQc = some qc → Usable sent qc

/-- One event keeps the property, and sends at most the last vote of a journal that has it. -/
theorem Rules.step (R : Rules K pubkeyHex Safe Usable Seen) (h : Keeps K Safe Usable m) {event : Event}
    (hevent : event.Brings Usable Seen m.sent) :
    Proceeds K Safe Usable m (step K pubkeyHex m event) := by
  cases event with
  | restart env => exact ⟨h.restarted env, .inl rfl⟩
  | crash => exact ⟨h.off_disk, .inl rfl⟩
  | observe qc snapshot =>
    refine ⟨⟨h.stored, h.unstored, fun st' hst' hok' => ?_⟩, .inl rfl⟩
    obtain ⟨st, hst, rfl⟩ := Option.map_eq_some_iff.mp hst'
    have hok : st.journalInvalid = false := by
      obtain heq | ⟨verified, -, heq⟩ := observePrevoteQc_cases (K := K) qc snapshot st
      · rwa [heq] at hok'
      · rwa [heq] at hok'
    have hsame : Resumes Usable m.sent st st := ⟨rfl, rfl, hok, (h.memory st hst hok).2.1⟩
    have hres := R.observed hsame hevent snapshot
    refine ⟨(h.resume hst hok hres).1, hres.usable, ?_⟩
    rw [hres.journal]
    exact (h.memory st hst hok).2.2
  | tick env =>
    simp only [Finality.step]
    split
    · exact ⟨h, .inl rfl⟩
    · rename_i st hst
      split
      · exact ⟨h, .inl rfl⟩
      · rename_i hvalid
        exact R.ticked h hst (Bool.eq_false_iff.mpr hvalid) hevent.1 hevent.2

end

/-! ## What the voter signs -/

section
variable {K : Context} {pubkeyHex signature : Bytes} {lock lock' : Lock} {s : EpochSnapshot} {round : Nat}
  {source target : CheckpointRef} {vote : SignedVote}

theorem prevote_eq_some {extending : Bool}
    (h : prevote K pubkeyHex lock s round source target none extending signature = some vote) :
    vote = signVote pubkeyHex s .prevote round source target signature ∧
      round = checkpointRound target.height.toNat ∧
      lockedPrevoteAllowed lock s.epochId round target none extending = true := by
  simp only [prevote, verifiedUnlock, some_bind, bind_eq_some, Option.guard_eq_some',
    Option.pure_def, Option.some.injEq] at h
  obtain ⟨-, ⟨-, -, hround, -⟩, -, hallowed, rfl⟩ := h
  exact ⟨rfl, hround, hallowed⟩

theorem precommit_eq_some {qc : DecodedQc}
    (h : precommit K pubkeyHex lock s round source target qc signature = some (vote, lock')) :
    vote = signVote pubkeyHex s .precommit round source target signature ∧
      lock' = ⟨true, s.epochId, round, target⟩ ∧ round = checkpointRound target.height.toNat ∧
      Verified K s qc ∧ qc.qc.phase = .prevote ∧ qc.qc.source = source ∧ qc.qc.target = target ∧
      (lock.held = false ∨ lock.target = target ∨
        consensusRoundNewer s.epochId round lock.epochId lock.round = true) := by
  simp only [precommit, bind_eq_some, Option.guard_eq_some', pure_eq_some, Prod.mk.injEq] at h
  obtain ⟨-, ⟨-, hround⟩, proof, hproof, -, ⟨hphase, -, hsource, htarget⟩, -, hlock, rfl, rfl⟩ := h
  have hverified := verified_of_verifyDecodedQc hproof
  have hfields : proof.qc.phase = qc.qc.phase ∧ proof.qc.source = qc.qc.source ∧
      proof.qc.target = qc.qc.target := by
    unfold verifyDecodedQc at hproof
    split at hproof
    · cases hproof
      exact ⟨rfl, rfl, rfl⟩
    · cases hproof
  exact ⟨rfl, rfl, hround, hverified, hfields.1 ▸ hphase, hfields.2.1 ▸ hsource, hfields.2.2 ▸ htarget,
    hlock⟩

end

/-! ## No two claims in one frame -/

def SignedVote.Older (v w : SignedVote) : Prop :=
  consensusRoundNewer w.epochId w.round v.epochId v.round = true

def SignedVote.SameClaim (v w : SignedVote) : Prop :=
  v.epochId = w.epochId ∧ v.round = w.round ∧ v.source = w.source ∧ v.target = w.target

/-- The journal remembers a vote: its last vote is that claim or one in a higher frame. -/
def DaemonJournal.Covers (j : DaemonJournal) (v : SignedVote) : Prop :=
  ∃ last, j.lastVote = some last ∧ (v.Older last ∨ v.SameClaim last)

theorem consensusRoundNewer_iff {epoch round priorEpoch priorRound : Nat} :
    consensusRoundNewer epoch round priorEpoch priorRound ↔
      priorEpoch < epoch ∨ epoch = priorEpoch ∧ priorRound < round := by
  simp [consensusRoundNewer]

theorem epochOf_lt (h : UInt64) : epochOf h.toNat < 2 ^ 64 := by
  have hlt := h.toNat_lt
  unfold epochOf
  exact lt_of_le_of_lt (Nat.div_le_self _ _) hlt

theorem checkpointRound_lt (height : Nat) : checkpointRound height < 2 ^ 32 := by
  simp only [checkpointRound, epochBlocks, checkpointInterval]
  omega

variable {j : DaemonJournal}
variable {v : SignedVote}

theorem DaemonJournal.Covers.advance {w : SignedVote} {lock : Lock} (h : j.Covers v)
    (hadv : Advances j.lastVote w.epochId w.round w.source w.target) :
    DaemonJournal.Covers ⟨1, lock, some w⟩ v := by
  obtain ⟨last, hlast, hv⟩ := h
  refine ⟨w, rfl, ?_⟩
  simp only [SignedVote.Older, SignedVote.SameClaim, consensusRoundNewer_iff] at hv ⊢
  rcases hadv last hlast with hnewer | ⟨hepoch, hround, hsource, htarget, -⟩
  · rw [consensusRoundNewer_iff] at hnewer
    left
    rcases hv with hv | ⟨he, hr, -⟩
    · omega
    · omega
  · rw [← hepoch, ← hround, ← hsource, ← htarget]
    exact hv

/-- The journal fits its fields and remembers every vote that was sent. -/
def Remembers (sent : List SignedVote) (j : DaemonJournal) : Prop :=
  j.Fits ∧ ∀ v ∈ sent, j.Covers v

theorem version_fits : 1 < 2 ^ 32 := by decide

theorem remembers_rules (K : Context) (pubkeyHex : Bytes) :
    Rules K pubkeyHex Remembers (fun _ _ => True) fun _ => True where
  fits h := h.1
  respell := by
    rintro sent j j' ⟨hfits, hcovers⟩ halike
    have hlock := halike.lock
    obtain ⟨hnone, hnone'⟩ | ⟨last, key, hlast, hlast'⟩ := halike.cases
    · refine ⟨⟨version_fits, hlock ▸ hfits.lockEpoch, hlock ▸ hfits.lockRound, fun v hv => ?_⟩, fun v hv => ?_⟩
      · cases hnone'.symm.trans hv
      · obtain ⟨last, hlast, -⟩ := hcovers v hv
        cases hnone.symm.trans hlast
    · refine ⟨⟨version_fits, hlock ▸ hfits.lockEpoch, hlock ▸ hfits.lockRound, fun v hv => ?_⟩, fun v hv => ?_⟩
      · cases hlast'.symm.trans hv
        exact hfits.vote last hlast
      · obtain ⟨last', heq, hv⟩ := hcovers v hv
        cases hlast.symm.trans heq
        exact ⟨_, hlast', hv⟩
  gossip := by
    rintro sent j v v' ⟨hfits, hcovers⟩ hlast ⟨key, rfl⟩
    exact ⟨hfits, forall_mem_cons.mpr ⟨⟨_, hlast, .inr ⟨rfl, rfl, rfl, rfl⟩⟩, hcovers⟩⟩
  usable_cons _ := trivial
  usable_verified _ _ := trivial
  prevote := by
    rintro env snapshot sent lock last source target round vote - haim ⟨hfits, hcovers⟩ hadv hvote
    obtain ⟨rfl, hround, -⟩ := prevote_eq_some hvote
    have hepoch : snapshot.epochId < 2 ^ 64 := haim.epoch ▸ epochOf_lt _
    have hsmall : round < 2 ^ 32 := hround ▸ checkpointRound_lt _
    refine ⟨⟨version_fits, hfits.lockEpoch, hfits.lockRound, fun v hv => ?_⟩,
      fun v hv => (hcovers v hv).advance hadv⟩
    cases hv
    exact ⟨hepoch, hsmall⟩
  precommit := by
    rintro env snapshot sent lock last source target round qc vote lock' - haim ⟨hfits, hcovers⟩ - hadv hvote
    obtain ⟨rfl, rfl, hround, -⟩ := precommit_eq_some hvote
    have hepoch : snapshot.epochId < 2 ^ 64 := haim.epoch ▸ epochOf_lt _
    have hsmall : round < 2 ^ 32 := hround ▸ checkpointRound_lt _
    refine ⟨⟨⟨version_fits, hepoch, hsmall, hfits.vote⟩, hcovers⟩,
      ⟨version_fits, hepoch, hsmall, fun v hv => ?_⟩, fun v hv => (hcovers v hv).advance hadv⟩
    cases hv
    exact ⟨hepoch, hsmall⟩

theorem decodeSignedVoteWire_fits {bytes : Bytes} (h : decodeSignedVoteWire bytes = some v) :
    v.epochId < 2 ^ 64 ∧ v.round < 2 ^ 32 := by
  simp only [decodeSignedVoteWire, bind_eq_some, Prod.exists, pure_eq_some] at h
  obtain ⟨-, -, epoch, _, hepoch, _, _, -, _, _, -, _, -, round, _, hround, _, _, -, _, _, -, _, _, -, _, _,
    -, _, _, -, -, -, rfl⟩ := h
  exact ⟨readLE_lt hepoch, readLE_lt hround⟩

theorem decodeFinalityJournal_fits {K : Context} {bytes : Bytes}
    (h : decodeFinalityJournal K bytes = some j) : j.view.Fits := by
  simp only [decodeFinalityJournal, bind_eq_some, Prod.exists, pure_eq_some] at h
  obtain ⟨-, -, -, -, -, -, _, _, -, _, _, -, -, -, epoch, _, hepoch, round, _, hround, _, _, -, _, _, -,
    hasVote, r, -, -, -, last, hlast, rfl⟩ := h
  refine ⟨version_fits, readLE_lt hepoch, readLE_lt hround, fun v hv => ?_⟩
  unfold readJournalVote at hlast
  split at hlast
  · split at hlast
    · obtain ⟨w, hw, rfl⟩ := Option.map_eq_some_iff.mp hlast
      cases hv
      exact decodeSignedVoteWire_fits hw
    · cases hlast
  · split at hlast
    · cases hlast
      cases hv
    · cases hlast

theorem remembers_off (K : Context) (disk : Disk) :
    Keeps K Remembers (fun _ _ => True) (Validator.off disk) where
  stored bytes j _ hj := ⟨decodeFinalityJournal_fits hj, nofun⟩
  unstored _ := ⟨rfl, fun j hj => ⟨decodeFinalityJournal_fits hj, nofun⟩⟩
  memory st hst := by cases hst

/-- Votes in one frame make one claim. -/
def Consistent (sent : List SignedVote) : Prop :=
  ∀ v ∈ sent, ∀ w ∈ sent, v.epochId = w.epochId → v.round = w.round → v.source = w.source ∧ v.target = w.target

theorem Consistent.cons {sent : List SignedVote} (h : Consistent sent)
    (hremembers : Remembers sent j) (hlast : j.lastVote = some v) : Consistent (v :: sent) := by
  have hone : ∀ w ∈ sent, w.epochId = v.epochId → w.round = v.round →
      w.source = v.source ∧ w.target = v.target := by
    intro w hw hepoch hround
    obtain ⟨last, hlast', hw⟩ := hremembers.2 w hw
    obtain rfl := Option.some.inj (hlast.symm.trans hlast')
    rcases hw with hw | ⟨-, -, hsource, htarget⟩
    · rw [SignedVote.Older, consensusRoundNewer_iff] at hw
      omega
    · exact ⟨hsource, htarget⟩
  intro a ha b hb hepoch hround
  rcases mem_cons.mp ha with rfl | hold
  · rcases mem_cons.mp hb with rfl | hold'
    · exact ⟨rfl, rfl⟩
    · obtain ⟨hsource, htarget⟩ := hone b hold' hepoch.symm hround.symm
      exact ⟨hsource.symm, htarget.symm⟩
  · rcases mem_cons.mp hb with rfl | hold'
    · exact hone a hold hepoch hround
    · exact h a hold b hold' hepoch hround

theorem run_consistent {K : Context} {pubkeyHex : Bytes} {m : Validator} (events : List Event)
    (hkeeps : Keeps K Remembers (fun _ _ => True) m) (h : Consistent m.sent) :
    Consistent (run K pubkeyHex m events).sent := by
  induction events generalizing m with
  | nil => exact h
  | cons event rest ih =>
    have hevent : event.Brings (fun _ _ => True) (fun _ => True) m.sent := by
      cases event <;> simp [Event.Brings]
    obtain ⟨hnext, hsent⟩ := (remembers_rules K pubkeyHex).step hkeeps hevent
    refine ih hnext ?_
    rcases hsent with hsame | ⟨v, j, hone, hsafe, hlast⟩
    · rwa [hsame]
    · rw [hone]
      exact h.cons hsafe hlast

/-- A validator that runs the daemon never equivocates: whatever is on its disk at the start, whatever
the hooks answer, and however writes fail and the process dies and comes back, two votes it gossips in
one epoch, phase and round have the same source and the same target. -/
theorem daemon_never_equivocates (K : Context) (pubkeyHex : Bytes) (disk : Disk) (events : List Event) :
    ∀ v ∈ (run K pubkeyHex (Validator.off disk) events).sent,
      ∀ w ∈ (run K pubkeyHex (Validator.off disk) events).sent,
        v.epochId = w.epochId → v.phase = w.phase → v.round = w.round →
          v.source = w.source ∧ v.target = w.target := by
  intro v hv w hw hepoch _ hround
  exact run_consistent events (remembers_off K disk) nofun v hv w hw hepoch hround

end Veld.Finality
