import Veld.Core.HeaderTree

/-!
# Runs of the header chain

Every sequence of submissions, promotions, snapshots and restores leaves a sound chain, and between
restores the observed checkpoint only moves up the selected chain.
-/

namespace Veld.Btcspv

open Wire ParentTree BtcHeaderChain

inductive Run (sha256 : Bytes → Hash256) (P : ChainParams) :
    BtcHeaderChain → List StateSnapshot → Nat → Prop
  | init : Run sha256 P P.init [] 0
  | submit {ch : BtcHeaderChain} {snaps : List StateSnapshot} {n : Nat} (raw : RawHeader)
      (veldBlockTime : Nat) : Run sha256 P ch snaps n → raw.hash sha256 ≠ .zero →
      Run sha256 P (ch.submitHeader sha256 P raw veldBlockTime).2 snaps (n + 1)
  | promote {ch : BtcHeaderChain} {snaps : List StateSnapshot} {n : Nat} (h : Hash256) :
      Run sha256 P ch snaps n → Run sha256 P (ch.promoteObservedCheckpoint h).2 snaps n
  | snapshot {ch : BtcHeaderChain} {snaps : List StateSnapshot} {n : Nat} :
      Run sha256 P ch snaps n → Run sha256 P ch (ch.snapshotState :: snaps) n
  | restore {ch : BtcHeaderChain} {snaps : List StateSnapshot} {n : Nat} {s : StateSnapshot} :
      Run sha256 P ch snaps n → s ∈ snaps → Run sha256 P (ch.restoreState P s).2 snaps n

/-- The part of a run between restores. -/
inductive Advance (sha256 : Bytes → Hash256) (P : ChainParams) (ch : BtcHeaderChain) :
    BtcHeaderChain → Nat → Prop
  | refl : Advance sha256 P ch ch 0
  | submit {ch' : BtcHeaderChain} {n : Nat} (raw : RawHeader) (veldBlockTime : Nat) :
      Advance sha256 P ch ch' n → raw.hash sha256 ≠ .zero →
      Advance sha256 P ch (ch'.submitHeader sha256 P raw veldBlockTime).2 (n + 1)
  | promote {ch' : BtcHeaderChain} {n : Nat} (h : Hash256) : Advance sha256 P ch ch' n →
      Advance sha256 P ch (ch'.promoteObservedCheckpoint h).2 n

variable {sha256 : Bytes → Hash256} {P : ChainParams} {ch ch' : BtcHeaderChain}
  {snaps : List StateSnapshot} {n m : Nat} {raw : RawHeader} {veldBlockTime : Nat}

theorem Run.sound (hrun : Run sha256 P ch snaps n) (hheights : P.cp.height + n < 2 ^ 32) :
    Sound P n ch ∧ ∀ s ∈ snaps, ∃ taken, Sound P n taken ∧ taken.snapshotState = s := by
  induction hrun with
  | init => exact ⟨Sound.init P, by simp⟩
  | submit raw t _ hhash ih =>
    obtain ⟨hs, hsnaps⟩ := ih (by omega)
    refine ⟨hs.submit hheights hhash, fun s hmem => ?_⟩
    obtain ⟨taken, ht, heq⟩ := hsnaps s hmem
    exact ⟨taken, ht.mono (Nat.le_succ _), heq⟩
  | promote h _ ih =>
    obtain ⟨hs, hsnaps⟩ := ih hheights
    exact ⟨hs.promote h, hsnaps⟩
  | @snapshot ch _ _ _ ih =>
    obtain ⟨hs, hsnaps⟩ := ih hheights
    exact ⟨hs, List.forall_mem_cons.mpr ⟨⟨ch, hs, rfl⟩, hsnaps⟩⟩
  | restore _ hmem ih =>
    obtain ⟨hs, hsnaps⟩ := ih hheights
    obtain ⟨taken, ht, rfl⟩ := hsnaps _ hmem
    exact ⟨(ht.restore hs.tree.cpHeight).2.1, hsnaps⟩

/-! ## The observed checkpoint -/

/-- The checkpoint of `ch` is that of `ch'` or below it. -/
def Covers (P : ChainParams) (ch ch' : BtcHeaderChain) : Prop :=
  ch.observedCheckpoint = .zero ∨
    ch'.observedCheckpoint ≠ .zero ∧
      ch'.IsAncestor P ch.observedCheckpoint ch'.observedCheckpoint

section
variable (sha256 P raw veldBlockTime) {best : BtcHeaderRecord} (htip : ch.get ch.bestTip = some best)
include htip

theorem submitHeader_get :
    (ch.submitHeader sha256 P raw veldBlockTime).2.observedCheckpoint = ch.observedCheckpoint ∧
      ((ch.submitHeader sha256 P raw veldBlockTime).2.get = ch.get ∧
          (ch.submitHeader sha256 P raw veldBlockTime).1 = (ch.get (raw.hash sha256)).isSome ∨
        ∃ parent, ch.get (raw.hash sha256) = none ∧ ch.get raw.prevHash = some parent ∧
          ch.validChild sha256 P raw veldBlockTime parent ∧
          (ch.submitHeader sha256 P raw veldBlockTime).1 ∧
          (ch.submitHeader sha256 P raw veldBlockTime).2.get =
            (ch.store (raw.hash sha256) (childRecord sha256 raw parent)).get) := by
  have hcases := submitHeader_cases sha256 P raw veldBlockTime htip
  generalize ch.submitHeader sha256 P raw veldBlockTime = out at hcases
  cases hcases with
  | known h | orphan h | invalid h | rewriting h => exact ⟨rfl, .inl ⟨rfl, by simp [h]⟩⟩
  | side hfresh hparent hvalid => exact ⟨rfl, .inr ⟨_, hfresh, hparent, hvalid, rfl, rfl⟩⟩
  | selected hfresh hparent hvalid =>
    exact ⟨selectTip_observed .., .inr ⟨_, hfresh, hparent, hvalid, rfl, selectTip_get ..⟩⟩

theorem submitHeader_grows :
    (∀ h r, ch.get h = some r → (ch.submitHeader sha256 P raw veldBlockTime).2.get h = some r) ∧
      (ch.submitHeader sha256 P raw veldBlockTime).2.observedCheckpoint = ch.observedCheckpoint := by
  obtain ⟨hobserved, ⟨hget, -⟩ | ⟨parent, hfresh, -, -, -, hget⟩⟩ :=
    submitHeader_get sha256 P raw veldBlockTime htip
  · exact ⟨fun h r hr => by rwa [hget], hobserved⟩
  · exact ⟨fun h r hr => by rw [hget]; exact get_store_of_get hfresh hr, hobserved⟩

end

variable {first : BtcHeaderChain}

theorem Covers.submit (hs : Sound P n ch) (hc : Covers P first ch) :
    Covers P first (ch.submitHeader sha256 P raw veldBlockTime).2 := by
  obtain ⟨best, hsel⟩ := hs.selected
  obtain ⟨hsub, hobserved⟩ := submitHeader_grows sha256 P raw veldBlockTime hsel.tip
  refine hc.imp id fun ⟨hne, hanc⟩ => ?_
  rw [hobserved]
  exact ⟨hne, hanc.grown hsub⟩

theorem Covers.promote (hs : Sound P n ch) (hc : Covers P first ch) (h : Hash256) :
    Covers P first (ch.promoteObservedCheckpoint h).2 := by
  obtain ⟨best, hsel⟩ := hs.selected
  rcases promoteObservedCheckpoint_cases ch h with heq | ⟨heq, hon, hother, hprior⟩
  · rwa [heq]
  · rw [heq]
    refine hc.imp id fun ⟨hne, hanc⟩ => ?_
    obtain ⟨prior, candidate, hp, hcand, hpriorOn, hhigher⟩ := hprior.resolve_left hne
    have hold := (onBestChain_iff hs.tree hsel.index).mp hpriorOn
    have hnew := (onBestChain_iff hs.tree hsel.index).mp hon
    refine ⟨?_, hanc.trans (hold.of_height_le hs.tree.rooted hnew hp hcand hhigher.le)⟩
    -- A block at the zero hash would be the checkpoint of the build, which nothing is below.
    rintro rfl
    have hroot := hs.noZero candidate hcand
    rw [← hroot, hs.tree.root] at hcand
    cases hcand
    have := hs.tree.cpHeight_le hp
    change prior.height < P.cp.height at hhigher
    omega

theorem Advance.sound_covers (hrun : Advance sha256 P ch ch' m) (hs : Sound P n ch)
    (hheights : P.cp.height + n + m < 2 ^ 32) : Sound P (n + m) ch' ∧ Covers P ch ch' := by
  induction hrun with
  | refl =>
    refine ⟨hs, ?_⟩
    by_cases hzero : ch.observedCheckpoint = .zero
    · exact .inl hzero
    · obtain ⟨best, hsel⟩ := hs.selected
      obtain ⟨v, hv⟩ := (hsel.observed.resolve_left hzero).left_stored
      exact .inr ⟨hzero, .refl hv⟩
  | submit raw t _ hhash ih =>
    obtain ⟨hs', hc⟩ := ih (by omega)
    exact ⟨hs'.submit (by omega) hhash, hc.submit hs'⟩
  | promote h _ ih =>
    obtain ⟨hs', hc⟩ := ih hheights
    exact ⟨hs'.promote h, hc.promote hs' h⟩

/-- After every run whose heights fit their 32 bits: the stored headers are a tree over the
checkpoint with heights and work added up, the tip has the most work, the index holds its ancestors,
the observed checkpoint is one of them and moves up only, but for a restore, which puts back the
chain of the snapshot. -/
theorem header_chain_sound (hrun : Run sha256 P ch snaps n) (hheights : P.cp.height + n < 2 ^ 32) :
    (∀ h r, ch.get h = some r → h ≠ P.cp.hash → ∃ p, ch.get r.prevHash = some p ∧
        r.height = p.height + 1 ∧ r.chainWork = (p.chainWork + headerWork r.bits) % 2 ^ 256) ∧
      (∃ best, ch.get ch.bestTip = some best ∧
        ∀ h r, ch.get h = some r → r.chainWork ≤ best.chainWork) ∧
      (∀ h, h ∈ ch.bestChain ↔ ch.IsAncestor P h ch.bestTip) ∧
      (∀ h, ch.onBestChain h ↔ ch.IsAncestor P h ch.bestTip) ∧
      (ch.observedCheckpoint = .zero ∨
        ch.IsAncestor P ch.observedCheckpoint ch.bestTip) ∧
      (∀ ch' m, Advance sha256 P ch ch' m → P.cp.height + n + m < 2 ^ 32 → Covers P ch ch') ∧
      ∀ s ∈ snaps, (ch.restoreState P s).1 ∧
        (ch.restoreState P s).2.snapshotState = s := by
  obtain ⟨hs, hsnaps⟩ := hrun.sound hheights
  obtain ⟨best, hsel⟩ := hs.selected
  refine ⟨fun h r hr hne => ?_, ⟨best, hsel.tip, hsel.greatest⟩, fun h => hsel.index.mem_iff,
    fun h => onBestChain_iff hs.tree hsel.index, hsel.observed,
    fun ch' m hadv hm => (hadv.sound_covers hs hm).2, fun s hmem => ?_⟩
  · obtain ⟨p, hp, hheight⟩ := hs.tree.rooted.linked h r hr hne
    exact ⟨p, hp, hheight, hs.tree.works h r p hr hne hp⟩
  · obtain ⟨taken, ht, rfl⟩ := hsnaps s hmem
    obtain ⟨hok, -, heq⟩ := ht.restore hs.tree.cpHeight
    exact ⟨hok, heq⟩

/-! ## Fixed chains -/

/-- A digest that keeps the first bytes of a message. -/
def leadingBytes (bs : Bytes) : Hash256 := ⟨(bs ++ List.replicate 32 0).take 32, Hash256.size_leading _⟩

/-- A chain without retargets over a checkpoint at height 2016. -/
def ChainParams.sample : ChainParams where
  cp := ⟨2016, leadingBytes [1], 0x207fffff, 100, 0, Vector.replicate 10 0⟩
  powLimit := (compactToTarget 0x207fffff).target
  noRetarget := true

/-- A header whose hash starts with its version. -/
def sampleHeader (version : UInt8) (parent : Hash256) : RawHeader where
  bytes := [version, 0, 0, 0] ++ parent.bytes ++ List.replicate 32 0 ++ putLE 4 200 ++
    putLE 4 0x207fffff ++ List.replicate 4 0
  size := by simp [parent.size]

/-- The header of version 2 on top of the checkpoint. -/
def sampleMain : RawHeader := sampleHeader 2 ChainParams.sample.cp.hash

theorem header_chain_sound_observed :
    let ch := (ChainParams.sample.init.submitHeader leadingBytes .sample sampleMain 0).2
    (ch.promoteObservedCheckpoint (sampleMain.hash leadingBytes)).2.IsAncestor .sample
      (sampleMain.hash leadingBytes) (sampleMain.hash leadingBytes) := by
  intro ch
  have hrun := Run.promote (sampleMain.hash leadingBytes)
    (Run.submit sampleMain 0 (Run.init : Run leadingBytes .sample _ _ _) (by decide +kernel))
  have hsound := header_chain_sound hrun (by decide)
  exact (hsound.2.2.2.1 _).mp (by decide +kernel)

/-- A snapshot taken before a promotion moves the checkpoint back down. -/
theorem restore_moves_checkpoint_down :
    ∃ ch snaps n, ∃ s ∈ snaps, Run leadingBytes .sample ch snaps n ∧
      (ch.restoreState .sample s).1 ∧
      (ch.restoreState .sample s).2.observedCheckpointHeight < ch.observedCheckpointHeight := by
  have hrun := Run.promote ChainParams.sample.cp.hash
    (Run.snapshot (Run.init : Run leadingBytes .sample _ _ _))
  exact ⟨_, _, _, _, List.mem_cons_self, hrun, by decide +kernel, by decide +kernel⟩

end Veld.Btcspv
