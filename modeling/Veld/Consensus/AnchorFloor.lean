import Veld.Consensus.AnchorSteps
import Veld.Consensus.FinalityEvidence
import Veld.Consensus.FinalityRuns
import Veld.Core.Script

/-!
# The floor of Bitcoin anchors

Over every run of blocks: the tables of the anchor set stay apart and bounded, the permanent checkpoint only
moves up and each new one is an advance for the floor store, and the carrier that it pins is one that
finality pins as well.
-/

namespace Veld.Anchors

open Wire Finality List Table

structure Staged (chain : List Hash256) (f : FinalityState) (t : Nat) (e : Entry) : Prop where
  pos : t ≠ 0
  finalized : t ≤ f.finalizedHeight
  later : t < e.carryingVeldHeight
  window : targetInWindow t e.carryingVeldHeight = true
  carrier : chain[e.carryingVeldHeight]? = some e.carryingVeldHash
  carryingHash : e.carryingVeldHash ≠ .zero
  targetHash : e.veldBlockHash ≠ .zero
  btcBlock : e.btcBlockHash ≠ .zero
  btcTxid : e.btcTxid ≠ .zero

/-- A permanent checkpoint that the floor store accepts, under a record at or below the one that authorizes now. -/
structure Floor (K : Context) (chain : List Hash256) (f : FinalityState) (p : PermanentCheckpoint) : Prop where
  valid : validateCheckpoint K p = .ok ()
  retained : Retained chain p.authorizationRecord
  authorized : f.anchorAuthorizationRecord.isNull = false
  carrier : p.authorizationRecord.carrier.height.toNat ≤ f.anchorAuthorizationRecord.carrier.height.toNat
  finalized : p.targetHeight ≤ f.finalizedHeight

/-- The anchor set over the chain. -/
structure Kept (K : Context) (chain : List Hash256) (f : FinalityState) (s : AnchorSet) : Prop where
  tidy : Tidy s
  anchored : ∀ t e, s.anchored.lookup t = some e → s.retainFrom ≤ t ∧ t ≤ f.finalizedHeight
  retainFrom : s.retainFrom = chain.length - 1 - acceptWindow
  cap : s.pending.entries.length ≤ pendingCap
  staged : ∀ t e, s.pending.lookup t = some e → Staged chain f t e
  permanent : ∀ p, s.permanent = some p → Floor K chain f p

/-- The anchor set between two blocks: what the authorizing record covers has been promoted or dropped. -/
structure Holds (K : Context) (chain : List Hash256) (f : FinalityState) (s : AnchorSet) : Prop
    extends Kept K chain f s where
  waiting : f.anchorAuthorizationRecord.isNull = false → ∀ t e, s.pending.lookup t = some e →
    f.anchorAuthorizationRecord.target.height.toNat < e.carryingVeldHeight

section
variable {K : Context} {chain : List Hash256} {f f' : FinalityState} {s : AnchorSet} {hash : Hash256}

variable {e : Entry} {t : Nat}

theorem Staged.extend (h : Staged chain f t e) (hash : Hash256) : Staged (chain ++ [hash]) f t e := by
  refine { h with carrier := ?_ }
  rw [List.getElem?_append_left (List.getElem?_eq_some_iff.mp h.carrier).1]
  exact h.carrier

theorem Holds.initial : Holds K [] .initial .empty where
  tidy := .empty
  anchored _ _ h := by cases h
  retainFrom := rfl
  cap := Nat.zero_le _
  staged _ _ h := by cases h
  permanent _ h := by cases h
  waiting h := by cases h

/-! ## Feeding a block -/

theorem finalizedHeight_congr (h : f'.record = f.record) : f'.finalizedHeight = f.finalizedHeight := by
  rw [FinalityState.finalizedHeight, FinalityState.finalizedHeight, h]

theorem Holds.congr (h : Holds K chain f s) (hrecord : f'.record = f.record)
    (hauth : f'.anchorAuthorizationRecord = f.anchorAuthorizationRecord) : Holds K chain f' s := by
  have hheight := finalizedHeight_congr hrecord
  refine ⟨⟨h.tidy, fun t e hl => hheight ▸ h.anchored t e hl, h.retainFrom, h.cap, fun t e hl => ?_, fun p hp => ?_⟩,
    fun hn => ?_⟩
  · have he := h.staged t e hl
    exact { he with finalized := hheight ▸ he.finalized }
  · have hp := h.permanent p hp
    exact ⟨hp.valid, hp.retained, hauth ▸ hp.authorized, hauth ▸ hp.carrier, hheight ▸ hp.finalized⟩
  · rw [hauth] at hn ⊢
    exact h.waiting hn

theorem Holds.advance (h : Holds K chain f s) (hash : Hash256) :
    Holds K (chain ++ [hash]) f (advanceHeight K chain.length s) := by
  have hadv := h.tidy.advance (K := K) chain.length fun t e hl => (h.anchored t e hl).1
  have hfloor : (advanceHeight K chain.length s).retainFrom = chain.length - acceptWindow := by
    rw [hadv.retainFrom, h.retainFrom, max_eq_right]
    omega
  refine ⟨⟨hadv.tidy, fun t e hl => ?_, ?_, ?_, fun t e hl => ?_, fun p hp => ?_⟩, fun hn t e hl => ?_⟩
  · obtain ⟨hold, hle⟩ := (hadv.anchored t e).mp hl
    exact ⟨hle, (h.anchored t e hold).2⟩
  · rw [hfloor, length_append, length_singleton, Nat.add_sub_cancel]
  · rw [hadv.pending]
    exact h.cap
  · rw [hadv.pending] at hl
    exact (h.staged t e hl).extend hash
  · rw [hadv.permanent] at hp
    have hp := h.permanent p hp
    exact { hp with retained := hp.retained.extend hash }
  · rw [hadv.pending] at hl
    exact h.waiting hn t e hl

variable {r : AnchorResult}

theorem Holds.stage (h : Holds K (chain ++ [hash]) f s) (hpos : r.veldHeight ≠ 0)
    (hfinalized : r.veldHeight ≤ f.finalizedHeight) (hlater : r.veldHeight < chain.length)
    (hwindow : targetInWindow r.veldHeight chain.length)
    (hhash : r.veldBlockHash ≠ .zero) (htxid : r.btcTxid ≠ .zero)
    (hauth : f.anchorAuthorizationRecord.isNull = false →
      f.anchorAuthorizationRecord.target.height.toNat < chain.length) :
    Holds K (chain ++ [hash]) f (stage K r chain.length hash s) := by
  unfold Anchors.stage
  split_ifs with hnull
  · exact h
  have hsame : advanceHeight K chain.length s = s := by
    have hfloor := h.retainFrom
    rw [length_append, length_singleton, Nat.add_sub_cancel] at hfloor
    unfold advanceHeight
    rw [if_pos hfloor.ge]
  rw [hsame]
  dsimp only
  split_ifs with hrefused
  · exact h
  simp only [not_or, Bool.not_eq_true, Option.isSome_eq_false_iff, Option.isNone_iff_eq_none, not_le] at hrefused hnull
  obtain ⟨-, hanchored, hpending, hfresh, hroom⟩ := hrefused
  have hlookup (t' : Nat) (e : Entry) : (s.pending.insert r.veldHeight e).lookup t' =
      if t' = r.veldHeight then some e else s.pending.lookup t' := lookup_insert_ite _ _ _ _
  refine ⟨⟨h.tidy.added hpending hanchored hfresh (fun t' => hlookup t' _) rfl rfl, h.anchored, h.retainFrom, ?_,
    fun t e hl => ?_, h.permanent⟩, fun hn t e hl => ?_⟩
  · have hkeys : r.veldHeight ∉ s.pending := AList.lookup_eq_none.mp hpending
    rw [AList.entries_insert_of_notMem hkeys, length_cons]
    exact hroom
  · rw [hlookup] at hl
    split_ifs at hl with heq
    · subst heq
      cases hl
      refine ⟨hpos, hfinalized, hlater, hwindow, ?_, hnull.2.1, hhash, hnull.2.2, htxid⟩
      exact List.getElem?_concat_length
    · exact h.staged t e hl
  · rw [hlookup] at hl
    split_ifs at hl with heq
    · cases hl
      exact hauth hn
    · exact h.waiting hn t e hl

theorem Holds.feedAnchor (h : Holds K (chain ++ [hash]) f s) (hf : OnChain (chain ++ [hash]) f)
    (hbelow : f.record.isNull = false → f.record.carrier.height.toNat < chain.length)
    (hchain : ∀ x ∈ chain ++ [hash], x ≠ .zero) (htxid : r.btcTxid ≠ .zero)
    (hauth : f.anchorAuthorizationRecord.isNull = false →
      f.anchorAuthorizationRecord.target.height.toNat < chain.length) :
    Holds K (chain ++ [hash]) f (feedAnchor K chain hash f s r) := by
  unfold Anchors.feedAnchor
  dsimp only
  split_ifs with hok
  · obtain ⟨hfinalized, hvalid, -, hblock, hwindow⟩ := hok
    simp only [anchorTargetValid, Bool.and_eq_true, Bool.not_eq_true', decide_eq_true_eq] at hvalid
    obtain ⟨⟨⟨⟨⟨hnull, -⟩, hpos⟩, htarget⟩, -⟩, -⟩ := hvalid
    have hlt := (hf.record hnull).target_lt
    have hcarrier := hbelow hnull
    refine h.stage hpos hfinalized (by omega) hwindow ?_ htxid hauth
    exact hchain _ (mem_of_getElem? hblock)
  · exact h

theorem Holds.feedAnchors (hash : Hash256) (proofs : List AnchorResult) (h : Holds K chain f s)
    (hrecord : f'.record = f.record)
    (hauth : f'.anchorAuthorizationRecord = f.anchorAuthorizationRecord) (hf : OnChain (chain ++ [hash]) f')
    (hbelow : f'.record.isNull = false → f'.record.carrier.height.toNat < chain.length)
    (hchain : ∀ x ∈ chain ++ [hash], x ≠ .zero) (htxids : ∀ r ∈ proofs, r.btcTxid ≠ .zero)
    (hlower : f'.anchorAuthorizationRecord.isNull = false →
      f'.anchorAuthorizationRecord.target.height.toNat < chain.length) :
    Holds K (chain ++ [hash]) f' (feedAnchors K chain hash proofs f' s) := by
  have hadvance := (h.congr hrecord hauth).advance hash
  unfold Anchors.feedAnchors
  dsimp only
  split_ifs with hskip
  · exact hadvance
  · exact List.foldlRecOn proofs _ hadvance fun _ h r hr => h.feedAnchor hf hbelow hchain (htxids r hr) hlower

variable {height : Nat}

theorem advanceHeight_permanent : (advanceHeight K height s).permanent = s.permanent := by
  unfold advanceHeight
  dsimp only
  split_ifs with hle
  · rfl
  · dsimp only
    generalize sortedKeys s.anchored _ = gone
    exact List.foldlRecOn (motive := fun x : AnchorSet => x.permanent = s.permanent) gone _ rfl fun x hx t _ =>
      (retire_frame t).2.1.trans hx

theorem stage_permanent : (stage K r height hash s).permanent = s.permanent := by
  unfold Anchors.stage
  split_ifs with hnull
  · rfl
  dsimp only
  split_ifs with hrefused
  · rw [advanceHeight_permanent]
  · dsimp only
    rw [advanceHeight_permanent]

theorem feedAnchors_permanent {proofs : List AnchorResult} :
    (Anchors.feedAnchors K chain hash proofs f s).permanent = s.permanent := by
  unfold Anchors.feedAnchors
  dsimp only
  split_ifs with hskip
  · exact advanceHeight_permanent
  · refine List.foldlRecOn (motive := fun x : AnchorSet => x.permanent = s.permanent) proofs _ advanceHeight_permanent
      fun x hx r _ => ?_
    unfold Anchors.feedAnchor
    dsimp only
    split_ifs
    · exact stage_permanent.trans hx
    · exact hx

/-! ## Promotion -/

theorem Kept.progress (h : Kept K chain f s) (hprogress : Progress height f f') :
    Kept K chain f' s where
  tidy := h.tidy
  anchored t e hl := ⟨(h.anchored t e hl).1, (h.anchored t e hl).2.trans hprogress.finalized⟩
  retainFrom := h.retainFrom
  cap := h.cap
  staged t e hl :=
    have he := h.staged t e hl
    { he with finalized := he.finalized.trans hprogress.finalized }
  permanent p hp := by
    have hfloor := h.permanent p hp
    have hfinalized := hfloor.finalized.trans hprogress.finalized
    obtain hsame | ⟨hsome, -, hup⟩ := hprogress.authorization
    · exact ⟨hfloor.valid, hfloor.retained, hsame ▸ hfloor.authorized, hsame ▸ hfloor.carrier, hfinalized⟩
    · exact ⟨hfloor.valid, hfloor.retained, hsome, hfloor.carrier.trans (hup hfloor.authorized).2.le, hfinalized⟩

theorem validateCheckpoint_authorize {auth : FinalizedRecord} (he : Staged chain f t e)
    (hauth : Retained chain auth) (hchain : ∀ x ∈ chain, x ≠ .zero)
    (hcovered : e.carryingVeldHeight ≤ auth.target.height.toNat) :
    validateCheckpoint K ⟨t, authorize K auth e, auth⟩ = .ok () := by
  have hcert := hauth.certified
  have htarget : auth.target.hash ≠ .zero := hchain _ (mem_of_getElem? hauth.target)
  have hcarrier : auth.carrier.hash ≠ .zero := hchain _ (mem_of_getElem? hauth.carrier)
  have hepoch : auth.epochId ≠ 0 := Nat.one_le_iff_ne_zero.mp hauth.epoch
  have hsame : ¬(e.carryingVeldHeight = auth.target.height.toNat ∧ e.carryingVeldHash ≠ auth.target.hash) :=
    fun ⟨hheight, hne⟩ => hne (Option.some.inj (he.carrier.symm.trans (hheight ▸ hauth.target)))
  unfold validateCheckpoint authorize
  dsimp only
  rw [if_neg (not_or.mpr ⟨he.pos, he.targetHash⟩), if_neg (not_or.mpr ⟨he.later.not_ge, he.carryingHash⟩),
    if_neg (by rw [he.window]; decide), if_neg (not_or.mpr ⟨he.btcBlock, he.btcTxid⟩),
    if_neg (by rw [hcert.isNull]; decide), if_neg (not_not.mpr hcert.phase),
    if_neg (by simp [hepoch, hcert.scheduled, hcert.epoch, hcert.round]),
    if_neg (by simp [htarget, hauth.setRoot, hauth.certCommit, hcarrier]),
    if_neg (by simp [hcert.window, hcert.floor]), if_neg hcovered.not_gt, if_neg hsame, if_neg (by simp)]

theorem Kept.drop (h : Kept K chain f s) (he : s.pending.lookup t = some e) :
    Kept K chain f (dropPending t e s) where
  tidy := h.tidy.drop he
  anchored := h.anchored
  retainFrom := h.retainFrom
  cap := (length_erase_le _ _).trans h.cap
  staged t' e' hl := by
    refine h.staged t' e' ?_
    change (s.pending.erase t).lookup t' = _ at hl
    exact (lookup_erase_eq_some.mp hl).2
  permanent := h.permanent

theorem Kept.install (h : Kept K chain f s) (he : s.pending.lookup t = some e)
    (hauth : Retained chain f.anchorAuthorizationRecord) (hchain : ∀ x ∈ chain, x ≠ .zero)
    (hcovered : e.carryingVeldHeight ≤ f.anchorAuthorizationRecord.target.height.toNat) :
    Kept K chain f (installAnchor K f.anchorAuthorizationRecord t e s) := by
  obtain ⟨hpending, hretain, hanchored, -, hpermanent⟩ := installAnchor_parts (K := K) f.anchorAuthorizationRecord t e s
  have hstaged := h.staged t e he
  refine ⟨h.tidy.install he, fun t' e' hl => ?_, hretain ▸ h.retainFrom, ?_, fun t' e' hl => ?_, fun p hp => ?_⟩
  · rw [hanchored] at hl
    rw [hretain]
    split_ifs at hl with hlt
    · exact h.anchored t' e' hl
    · exact forall_insert h.anchored ⟨not_lt.mp hlt, hstaged.finalized⟩ t' e' hl
  · rw [hpending]
    exact (length_erase_le _ _).trans h.cap
  · rw [hpending] at hl
    exact h.staged t' e' (lookup_erase_eq_some.mp hl).2
  · have hnew : Floor K chain f ⟨t, authorize K f.anchorAuthorizationRecord e, f.anchorAuthorizationRecord⟩ :=
      ⟨validateCheckpoint_authorize hstaged hauth hchain hcovered, hauth, hauth.certified.isNull, le_rfl,
        hstaged.finalized⟩
    rw [hpermanent] at hp
    cases hold : s.permanent with
    | none =>
      rw [hold] at hp
      exact Option.some.inj hp ▸ hnew
    | some q =>
      simp only [hold] at hp
      split_ifs at hp
      · exact Option.some.inj hp ▸ hnew
      · exact Option.some.inj hp ▸ h.permanent q hold

/-- The targets that a block promotes, with the authorizing record of the block. -/
def promotedTargets (isBtcFinal : Hash256 → Bool) (f : FinalityState) (s : AnchorSet) : List Nat :=
  let auth := f.anchorAuthorizationRecord
  if auth.isNull || !anchorActive auth.target.height.toNat then []
  else (sortedKeys s.pending fun _ e => e.carryingVeldHeight ≤ auth.target.height.toNat).filter
    (promotable isBtcFinal s)

def Climbs (f : FinalityState) (before after : Option PermanentCheckpoint) : Prop :=
  after = before ∨ ∃ p, after = some p ∧ p.authorizationRecord = f.anchorAuthorizationRecord ∧
    ∀ q, before = some q → q.targetHeight < p.targetHeight

theorem Climbs.install {before : Option PermanentCheckpoint} (h : Climbs f before s.permanent) :
    Climbs f before (installAnchor K f.anchorAuthorizationRecord t e s).permanent := by
  rw [(installAnchor_parts _ t e s).2.2.2.2]
  cases hp : s.permanent with
  | none =>
    rw [hp] at h
    refine .inr ⟨_, rfl, rfl, fun q hq => ?_⟩
    obtain hsame | ⟨p, hno, -⟩ := h
    · rw [hq] at hsame
      cases hsame
    · cases hno
  | some p =>
    rw [hp] at h
    dsimp only
    split_ifs with hlt
    · refine .inr ⟨_, rfl, rfl, fun q hq => ?_⟩
      obtain hsame | ⟨p', hp', -, hup⟩ := h
      · rw [hq] at hsame
        exact Option.some.inj hsame ▸ hlt
      · exact (hup q hq).trans (Option.some.inj hp' ▸ hlt)
    · exact h

theorem Kept.promoteLoop (isBtcFinal : Hash256 → Bool) {targets : List Nat} (result : PromotionResult)
    (h : Kept K chain f s) (hauth : Retained chain f.anchorAuthorizationRecord)
    (hchain : ∀ x ∈ chain, x ≠ .zero) (hcovered : Covered f.anchorAuthorizationRecord s targets)
    (hok : result.ok) :
    Kept K chain f (promoteLoop K isBtcFinal f.anchorAuthorizationRecord targets result s).2 ∧
      Climbs f s.permanent (promoteLoop K isBtcFinal f.anchorAuthorizationRecord targets result s).2.permanent := by
  -- the entry of a target that is left is the one it was staged with
  have hleft {x : AnchorSet} {t : Nat} (hsub : ∀ t e, x.pending.lookup t = some e → s.pending.lookup t = some e)
      (t' : Nat) (e' : Entry) (hl : (x.pending.erase t).lookup t' = some e') : s.pending.lookup t' = some e' := by
    exact hsub t' e' (lookup_erase_eq_some.mp hl).2
  refine (promoteLoop_induct
    (motive := fun x => (Kept K chain f x ∧ Climbs f s.permanent x.permanent) ∧
      ∀ t e, x.pending.lookup t = some e → s.pending.lookup t = some e) hcovered hok
    ⟨⟨h, .inl rfl⟩, fun _ _ hl => hl⟩
    (fun x t e _ ⟨⟨hx, hc⟩, hsub⟩ he _ => ⟨⟨hx.drop he, hc⟩, hleft hsub⟩)
    (fun x t e ht ⟨⟨hx, hc⟩, hsub⟩ he _ => by
      obtain ⟨e', he', hle, -⟩ := hcovered.entry t ht
      rw [hsub t e he] at he'
      cases he'
      refine ⟨⟨hx.install he hauth hchain hle, hc.install⟩, ?_⟩
      rw [(installAnchor_parts _ t e x).1]
      exact hleft hsub)).2.1

theorem promoteFinalizedAnchors_eq_some {below : List Hash256} {isBtcFinal promoteObserved : Hash256 → Bool}
    {s' : AnchorSet} (h : promoteFinalizedAnchors K below isBtcFinal promoteObserved f s = some (f', s')) :
    (∃ b, f' = { f with everPromotedAnchor := b }) ∧
      (((f.anchorAuthorizationRecord.isNull ∨ f.anchorAuthorizationRecord.target.height.toNat = 0) ∧ s' = s) ∨
        (f.anchorAuthorizationRecord.isNull = false ∧ 0 < f.anchorAuthorizationRecord.target.height.toNat ∧
          ((promoteFinalized K (fun h => below[h]?) isBtcFinal f.anchorAuthorizationRecord
              f.anchorAuthorizationRecord.target.height.toNat s).1.ok ∧
            s' = (promoteFinalized K (fun h => below[h]?) isBtcFinal f.anchorAuthorizationRecord
              f.anchorAuthorizationRecord.target.height.toNat s).2))) := by
  unfold promoteFinalizedAnchors at h
  dsimp only at h
  by_cases hoff : (f.anchorAuthorizationRecord.isNull ||
      !anchorActive f.anchorAuthorizationRecord.target.height.toNat) = true
  · rw [if_pos hoff] at h
    cases h
    refine ⟨⟨f.everPromotedAnchor, rfl⟩, .inl ⟨?_, rfl⟩⟩
    simpa [anchorActive] using hoff
  rw [if_neg hoff] at h
  have hon : f.anchorAuthorizationRecord.isNull = false ∧ 0 < f.anchorAuthorizationRecord.target.height.toNat := by
    simpa [anchorActive, Nat.pos_iff_ne_zero] using hoff
  split_ifs at h with hfail hnone hobserved
  · cases h
    exact ⟨⟨f.everPromotedAnchor, rfl⟩, .inr ⟨hon.1, hon.2, by simpa using hfail, rfl⟩⟩
  · cases h
    exact ⟨⟨true, rfl⟩, .inr ⟨hon.1, hon.2, by simpa using hfail, rfl⟩⟩

theorem Kept.promote {below : List Hash256} {isBtcFinal promoteObserved : Hash256 → Bool} {s' : AnchorSet}
    (h : Kept K chain f s) (hf : OnChain chain f) (hchain : ∀ x ∈ chain, x ≠ .zero)
    (hpromote : promoteFinalizedAnchors K below isBtcFinal promoteObserved f s = some (f', s')) :
    Holds K chain f s' ∧ Climbs f s.permanent s'.permanent ∧
      s'.permanent.map PermanentCheckpoint.targetHeight =
        (promotedTargets isBtcFinal f s).foldl higher (s.permanent.map PermanentCheckpoint.targetHeight) ∧
      (s'.permanent ≠ s.permanent → ∃ t e, s.pending.lookup t = some e ∧
        e.carryingVeldHeight ≤ f.anchorAuthorizationRecord.target.height.toNat) := by
  obtain ⟨-, ⟨hoff, rfl⟩ | ⟨hsome, hpos, hok, rfl⟩⟩ := promoteFinalizedAnchors_eq_some hpromote
  · refine ⟨⟨h, fun hn t e hl => ?_⟩, .inl rfl, ?_, fun hne => absurd rfl hne⟩
    · obtain hnull | hzero := hoff
      · rw [hn] at hnull
        cases hnull
      · rw [hzero]
        exact (Nat.zero_le t).trans_lt (h.staged t e hl).later
    · rw [promotedTargets, if_pos (by simpa [anchorActive] using hoff)]
      rfl
  · obtain ⟨hfail, -⟩ | ⟨-, eligible, hkeys, hcovered, hmem, -, -, hloop⟩ :=
      promoteFinalized_cases K (fun h => below[h]?) isBtcFinal f.anchorAuthorizationRecord
        f.anchorAuthorizationRecord.target.height.toNat s
    · rw [hok] at hfail
      cases hfail
    rw [hloop]
    have hauth := (hf.authorization hsome).1
    have hon : ¬(f.anchorAuthorizationRecord.isNull ||
        !anchorActive f.anchorAuthorizationRecord.target.height.toNat) = true := by
      simpa [anchorActive] using ⟨hsome, hpos.ne'⟩
    obtain ⟨hkept, hclimbs⟩ := h.promoteLoop isBtcFinal ⟨true, 0, 0⟩ hauth hchain hcovered rfl
    refine ⟨⟨hkept, fun _ t e hl => ?_⟩, hclimbs, ?_, fun hne => ?_⟩
    · rw [promoteLoop_pending hcovered] at hl
      split_ifs at hl with hnot
      by_contra hle
      exact hnot ((hmem t).mpr ⟨e, hl, not_lt.mp hle⟩)
    · rw [promoteLoop_target hcovered, promotedTargets, if_neg hon, ← hkeys]
    · cases eligible with
      | nil => exact absurd rfl hne
      | cons t rest => exact ⟨t, (hmem t).mp mem_cons_self⟩

end

/-! ## Runs of blocks -/

def Node.promoted (K : Context) (b : BlockInput) (n : Node) : List Nat :=
  let f := n.finality.onBlockHeight n.chain.length
  let s := feedAnchors K n.chain b.hash b.proofs f n.anchors
  match f.feedFinalityCerts K n.chain b.hash b.cert with
  | none => []
  | some f => promotedTargets b.isBtcFinal f s

/-- A block that the modules take. -/
structure Step (K : Context) (b : BlockInput) (n n' : Node) : Prop where
  fits : n.chain.length < 2 ^ 64
  hash : b.hash ≠ .zero
  txids : ∀ r ∈ b.proofs, r.btcTxid ≠ .zero
  /-- No string that a snapshot or a certificate is hashed from has the zero hash. -/
  roots : ∀ s ∈ n'.finality.snapshots, s.root ≠ .zero
  commit : n'.finality.record.isNull = false → n'.finality.record.certCommit ≠ .zero
  applied : applyBlock K b n = some n'

/-- The nodes that blocks lead to, with the targets promoted on the way. -/
inductive Reached (K : Context) : Node → List Nat → Prop where
  | start : Reached K .initial []
  | block {b : BlockInput} {n n' : Node} {history : List Nat} (prior : Reached K n history) (step : Step K b n n') :
    Reached K n' (history ++ n.promoted K b)

/-- What holds of the node between two blocks. -/
structure Node.Inv (K : Context) (n : Node) : Prop where
  sound : OnChain n.chain n.finality
  holds : Holds K n.chain n.finality n.anchors
  hashes : ∀ x ∈ n.chain, x ≠ .zero

/-- What one block does to the floor. -/
structure Effect (K : Context) (b : BlockInput) (n n' : Node) : Prop where
  finalized : n.finality.finalizedHeight ≤ n'.finality.finalizedHeight
  target : n'.anchors.permanent.map PermanentCheckpoint.targetHeight =
    (n.promoted K b).foldl higher (n.anchors.permanent.map PermanentCheckpoint.targetHeight)
  permanent : n'.anchors.permanent = n.anchors.permanent ∨ ∃ p, n'.anchors.permanent = some p ∧
    (∀ q, n.anchors.permanent = some q → q.targetHeight < p.targetHeight ∧
      q.authorizationRecord.carrier.height.toNat < p.authorizationRecord.carrier.height.toNat) ∧
    (consensusSecurityUpgradeHeight ≤ n.chain.length →
      p.authorizationRecord.carrier.height.toNat ≤ n'.finality.finalizedHeight)

section
variable {K : Context} {b : BlockInput} {n n' : Node} {history : List Nat}

theorem applyBlock_eq_some (h : applyBlock K b n = some n') :
    ∃ f₂ f₃ s₃, (n.finality.onBlockHeight n.chain.length).feedFinalityCerts K n.chain b.hash b.cert = some f₂ ∧
      promoteFinalizedAnchors K n.chain b.isBtcFinal b.promoteObserved f₂
        (feedAnchors K n.chain b.hash b.proofs (n.finality.onBlockHeight n.chain.length) n.anchors) = some (f₃, s₃) ∧
      f₃.maybeSnapshotEpoch K n.chain.length b.snapshot = some n'.finality ∧
      n'.chain = n.chain ++ [b.hash] ∧ n'.anchors = s₃ := by
  simp only [applyBlock, bind_eq_some, Prod.exists, pure_eq_some] at h
  obtain ⟨f₂, hcert, f₃, s₃, hpromote, f₄, hsnap, rfl⟩ := h
  exact ⟨f₂, f₃, s₃, hcert, hpromote, hsnap, rfl, rfl⟩

theorem Node.Inv.initial : Node.Inv K .initial where
  sound := .initial
  holds := .initial
  hashes _ h := absurd h not_mem_nil

theorem Node.Inv.step (h : n.Inv K) (hstep : Step K b n n') :
    n'.Inv K ∧ Effect K b n n' := by
  obtain ⟨f₂, f₃, s₃, hcert, hpromote, hsnap, hchain', hanchors⟩ := applyBlock_eq_some hstep.applied
  obtain ⟨hsound₁, hauth₁, hrecord₁, -⟩ := h.sound.onBlockHeight b.hash
  have hhashes : ∀ x ∈ n.chain ++ [b.hash], x ≠ .zero := fun x hx => by
    obtain hx | hx := mem_append.mp hx
    · exact h.hashes x hx
    · exact mem_singleton.mp hx ▸ hstep.hash
  have hbelow : (n.finality.onBlockHeight n.chain.length).record.isNull = false →
      (n.finality.onBlockHeight n.chain.length).record.carrier.height.toNat < n.chain.length := by
    rw [hrecord₁]
    exact fun hr => (h.sound.record hr).carrier_lt
  have hlower : (n.finality.onBlockHeight n.chain.length).anchorAuthorizationRecord.isNull = false →
      (n.finality.onBlockHeight n.chain.length).anchorAuthorizationRecord.target.height.toNat < n.chain.length := by
    rw [hauth₁]
    intro ha
    have hret := (h.sound.authorization ha).1
    exact hret.target_lt.trans hret.carrier_lt
  -- the proofs of the block, then its certificate, then what the certificate lets in
  have hfed := h.holds.feedAnchors b.hash b.proofs hrecord₁ hauth₁ hsound₁ hbelow hhashes
    hstep.txids hlower
  obtain ⟨⟨flag, hflag⟩, -⟩ := promoteFinalizedAnchors_eq_some hpromote
  have hrecord₄ : n'.finality.record = f₂.record := by rw [maybeSnapshotEpoch_record hsnap, hflag]
  obtain ⟨hsound₂, hprogress⟩ := hsound₁.feedFinalityCerts (hrecord₄ ▸ hstep.commit) hstep.fits hbelow hcert
  obtain ⟨hholds₃, hclimbs, htarget, hused⟩ := (hfed.toKept.progress hprogress).promote hsound₂ hhashes hpromote
  subst hflag
  have hsound₃ : OnChain (n.chain ++ [b.hash]) { f₂ with everPromotedAnchor := flag } :=
    ⟨hsound₂.snapshots, hsound₂.record, hsound₂.certified, hsound₂.inactive, hsound₂.behind⟩
  obtain ⟨hsound₄, hauth₄⟩ := hsound₃.maybeSnapshotEpoch hstep.roots hsnap
  have hfinal : n'.finality.finalizedHeight = f₂.finalizedHeight := finalizedHeight_congr hrecord₄
  have hpermanent₁ : (feedAnchors K n.chain b.hash b.proofs (n.finality.onBlockHeight n.chain.length)
      n.anchors).permanent = n.anchors.permanent := feedAnchors_permanent
  subst hanchors
  refine ⟨⟨hchain' ▸ hsound₄, hchain' ▸ hholds₃.congr hrecord₄ hauth₄, hchain' ▸ hhashes⟩, ?_, ?_, ?_⟩
  · rw [hfinal, ← finalizedHeight_congr hrecord₁]
    exact hprogress.finalized
  · rw [htarget, hpermanent₁]
    unfold Node.promoted
    dsimp only
    rw [hcert]
  · rw [hpermanent₁] at hclimbs hused
    obtain hsame | ⟨p, hp, hpauth, hup⟩ := hclimbs
    · exact .inl hsame
    by_cases hsame : n'.anchors.permanent = n.anchors.permanent
    · exact .inl hsame
    obtain ⟨t, e, he, hle⟩ := hused hsame
    -- an entry is only covered now because the authorizing record has moved
    obtain heq | ⟨hsome, hcarrier, hmoved⟩ := hprogress.authorization
    · have hn : f₂.anchorAuthorizationRecord.isNull = false := by
        rw [← hpauth]
        exact (hholds₃.permanent p hp).retained.certified.isNull
      have := hfed.waiting (heq ▸ hn) t e he
      rw [heq] at hle
      omega
    · refine .inr ⟨p, hp, fun q hq => ⟨hup q hq, ?_⟩, fun hlate => ?_⟩
      · have hfloor := h.holds.permanent q hq
        have := hfloor.carrier
        rw [hauth₁] at hmoved
        have := (hmoved hfloor.authorized).2
        rw [hpauth]
        omega
      · have hr := (hsound₂.authorization hsome).2.1
        rw [hfinal, hpauth, FinalityState.finalizedHeight, hr]
        exact hsound₂.authorization_carrier hsome (hcarrier ▸ hlate)

theorem Reached.inv (h : Reached K n history) :
    n.Inv K ∧ n.anchors.permanent.map PermanentCheckpoint.targetHeight = history.foldl higher none := by
  induction h with
  | start => exact ⟨.initial, rfl⟩
  | block _ hstep ih =>
    obtain ⟨hinv, heffect⟩ := ih.1.step hstep
    refine ⟨hinv, ?_⟩
    rw [heffect.target, ih.2, foldl_append]

theorem foldl_higher (history : List Nat) (before : Option Nat) :
    (∀ m, history.foldl higher before = some m →
      (m ∈ history ∨ before = some m) ∧ (∀ t ∈ history, t ≤ m) ∧ ∀ t, before = some t → t ≤ m) ∧
    (history.foldl higher before = none → history = []) := by
  induction history generalizing before with
  | nil => exact ⟨fun m hm => ⟨.inr hm, fun t ht => absurd ht not_mem_nil, fun t ht => by simp_all⟩, fun _ => rfl⟩
  | cons t rest ih =>
    obtain ⟨hsome, hnone⟩ := ih (higher before t)
    refine ⟨fun m hm => ?_, fun hno => ?_⟩
    · obtain ⟨hmem, hall, hfirst⟩ := hsome m hm
      have hfirst := hfirst _ rfl
      cases before with
      | none =>
        refine ⟨.inl ?_, fun t' ht' => ?_, fun t' ht' => (nomatch ht')⟩
        · rcases hmem with hmem | heq
          · exact mem_cons_of_mem _ hmem
          · exact Option.some.inj heq ▸ mem_cons_self
        · rcases mem_cons.mp ht' with rfl | ht'
          · exact hfirst
          · exact hall t' ht'
      | some u =>
        have hfirst : max t u ≤ m := hfirst
        refine ⟨?_, fun t' ht' => ?_, fun t' ht' => ?_⟩
        · rcases hmem with hmem | heq
          · exact .inl (mem_cons_of_mem _ hmem)
          · have heq : max t u = m := Option.some.inj heq
            rcases max_choice t u with hmax | hmax
            · exact .inl (heq ▸ hmax.symm ▸ mem_cons_self)
            · exact .inr (heq ▸ hmax.symm ▸ rfl)
        · rcases mem_cons.mp ht' with rfl | ht'
          · exact (le_max_left _ _).trans hfirst
          · exact hall t' ht'
        · cases ht'
          exact (le_max_right _ _).trans hfirst
    · have hrest := hnone hno
      subst hrest
      cases hno

theorem Node.Inv.anchored_length (h : n.Inv K) : n.anchors.anchored.entries.length ≤ acceptWindow + 1 := by
  have hnodup := n.anchors.anchored.nodupKeys
  have hlast : n.finality.finalizedHeight ≤ n.chain.length - 1 := by
    unfold FinalityState.finalizedHeight
    split_ifs with hnull
    · exact Nat.zero_le _
    · have hret := h.sound.record (by simpa using hnull)
      have := hret.target_lt
      have := hret.carrier_lt
      omega
  have hsub : n.anchors.anchored.keys.toFinset ⊆ Finset.Icc n.anchors.retainFrom n.finality.finalizedHeight := by
    intro t ht
    obtain ⟨e, he⟩ := Option.isSome_iff_exists.mp (AList.lookup_isSome.mpr (mem_toFinset.mp ht))
    exact Finset.mem_Icc.mpr (h.holds.anchored t e he)
  have hcard := Finset.card_le_card hsub
  rw [toFinset_card_of_nodup n.anchors.anchored.keys_nodup, Nat.card_Icc, h.holds.retainFrom] at hcard
  have hkeys : n.anchors.anchored.keys.length = n.anchors.anchored.entries.length := length_map _
  omega

/-! ## The floor store -/

variable {genesis : Hash256}
variable {p : PermanentCheckpoint}

theorem makeFloor_of_valid (magic : Nat) (hgenesis : genesis ≠ .zero)
    (h : validateCheckpoint K p = .ok ()) :
    makeFloor K magic genesis p = .ok ⟨magic, genesis, p, computeFloorDigest K magic genesis p⟩ ∧
      validateFloor K ⟨magic, genesis, p, computeFloorDigest K magic genesis p⟩ = .ok () := by
  constructor
  · simp [makeFloor, hgenesis, h, bind, Except.bind, pure, Except.pure]
  · simp [validateFloor, hgenesis, h, bind, Except.bind, pure, Except.pure]

theorem floorBody_target {magic : Nat} {q : PermanentCheckpoint} (hp : p.targetHeight < 256 ^ 8)
    (hq : q.targetHeight < 256 ^ 8) (h : floorBody magic genesis p = floorBody magic genesis q) :
    p.targetHeight = q.targetHeight := by
  simp only [floorBody, append_assoc] at h
  have h := append_cancel_left (append_cancel_left (append_cancel_left h))
  have h := (append_inj h (by rw [putLE_length, putLE_length])).1
  rw [← getLE_putLE hp, h, getLE_putLE hq]

theorem classify_advanced {magic : Nat} {q : PermanentCheckpoint}
    (hgenesis : genesis ≠ .zero) (hvalid : validateCheckpoint K p = .ok ())
    (hp : p.targetHeight < 256 ^ 8) (htarget : q.targetHeight < p.targetHeight)
    (hcarrier : q.authorizationRecord.carrier.height.toNat < p.authorizationRecord.carrier.height.toNat) :
    classify K (some ⟨magic, genesis, q, computeFloorDigest K magic genesis q⟩)
      ⟨magic, genesis, p, computeFloorDigest K magic genesis p⟩ = .advanced := by
  have hbody : floorBody magic genesis p ≠ floorBody magic genesis q := fun heq =>
    htarget.ne' (floorBody_target hp (htarget.trans hp) heq)
  have hcarrier : ¬p.authorizationRecord.carrier.height ≤ q.authorizationRecord.carrier.height :=
    not_le.mpr hcarrier
  simp only [classify, (makeFloor_of_valid magic hgenesis hvalid).2]
  rw [if_neg (by simp), if_neg (fun hsame => hbody hsame.2), if_neg htarget.not_ge, if_neg hcarrier]

theorem Node.Inv.target_lt (h : n.Inv K) (hp : n.anchors.permanent = some p) :
    p.targetHeight < 256 ^ 8 := by
  refine (h.holds.permanent p hp).finalized.trans_lt ?_
  unfold FinalityState.finalizedHeight
  split_ifs
  · decide
  · exact n.finality.record.target.height.toNat_lt

/-- A reorganisation above the ancestor that finality asks for touches no anchor. -/
theorem Node.Inv.reorg_allowed {ancestor : Nat} (h : n.Inv K)
    (hrequired : n.finality.requiredReorgAncestor ≤ ancestor) :
    n.anchors.permanentReorgPermitted ancestor ∧
      ∀ height hash, ancestor < height → n.anchors.allows height hash := by
  obtain ⟨hfinalized, hcarrier⟩ := h.sound.required
  refine ⟨?_, fun height hash hlt => ?_⟩
  · unfold AnchorSet.permanentReorgPermitted
    cases hp : n.anchors.permanent with
    | none => rfl
    | some p =>
      have hfloor := h.holds.permanent p hp
      have := hfloor.carrier
      have := hcarrier hfloor.authorized
      simp only [Option.all_some, hfloor.retained.certified.isNull, Bool.not_false, if_true, decide_eq_true_eq]
      omega
  · unfold AnchorSet.allows
    have habove : n.anchors.anchored.lookup height = none := by
      refine Option.eq_none_iff_forall_not_mem.mpr fun e he => ?_
      have := (h.holds.anchored height e he).2
      omega
    rw [habove, Option.all_none, Bool.and_true]
    cases hp : n.anchors.permanent with
    | none => rfl
    | some p =>
      have := (h.holds.permanent p hp).finalized
      have hne : p.targetHeight ≠ height := by omega
      simp only [Option.all_some, hne, ne_eq, not_false_eq_true, decide_true, Bool.true_or]

/-- In every state that blocks lead to no target is both pending and active, the used transactions are those of the
entries, both tables are within the window, the checkpoint is the highest target ever promoted, a promotion that
fails changes nothing, and the anchors allow each reorganisation that finality allows. Every further block leaves
the checkpoint or moves it up, to one that the floor store takes as an advance and, from the upgrade on, whose
authorizing carrier is finalized. -/
theorem anchors_are_monotone_floor {genesis : Hash256} (hgenesis : genesis ≠ .zero) (magic : Nat)
    (h : Reached K n history) :
    (∀ t, (n.anchors.pending.lookup t).isSome → n.anchors.anchored.lookup t = none) ∧
    (∀ txid, txid ∈ n.anchors.used ↔
      ∃ t e, (n.anchors.pending.lookup t = some e ∨ n.anchors.anchored.lookup t = some e) ∧ e.btcTxid = txid) ∧
    n.anchors.pending.entries.length ≤ acceptWindow + 1 ∧ n.anchors.anchored.entries.length ≤ acceptWindow + 1 ∧
    (n.anchors.permanent = none → history = []) ∧
    (∀ p, n.anchors.permanent = some p → p.targetHeight ∈ history ∧ (∀ t ∈ history, t ≤ p.targetHeight) ∧
      (consensusSecurityUpgradeHeight ≤ n.finality.record.carrier.height.toNat →
        p.authorizationRecord.carrier.height.toNat ≤ n.finality.finalizedHeight)) ∧
    (∀ resolveCarrier isBtcFinal auth height,
      (promoteFinalized K resolveCarrier isBtcFinal auth height n.anchors).1.ok = false →
      (promoteFinalized K resolveCarrier isBtcFinal auth height n.anchors).2 = n.anchors) ∧
    (∀ ancestor branchHas, LeavesAt n.chain ancestor branchHas →
      (n.finality.reorgPermitted ancestor branchHas ∨ n.finality.requiredReorgAncestor ≤ ancestor) →
      n.anchors.permanentReorgPermitted ancestor ∧
        ∀ height hash, ancestor < height → n.anchors.allows height hash) ∧
    (∀ b n', Step K b n n' →
      (∀ p, n.anchors.permanent = some p → ∃ p', n'.anchors.permanent = some p' ∧ p.targetHeight ≤ p'.targetHeight) ∧
      (n'.anchors.permanent = n.anchors.permanent ∨ ∃ p r, n'.anchors.permanent = some p ∧
        makeFloor K magic genesis p = .ok r ∧
        (n.anchors.permanent = none → classify K none r = .installed) ∧
        (∀ q, n.anchors.permanent = some q →
          ∃ c, makeFloor K magic genesis q = .ok c ∧ classify K (some c) r = .advanced) ∧
        (consensusSecurityUpgradeHeight ≤ n.chain.length →
          p.authorizationRecord.carrier.height.toNat ≤ n'.finality.finalizedHeight))) := by
  obtain ⟨hinv, hhistory⟩ := h.inv
  obtain ⟨hhighest, hempty⟩ := foldl_higher history none
  rw [← hhistory] at hhighest hempty
  refine ⟨hinv.holds.tidy.apart, hinv.holds.tidy.used, hinv.holds.cap, hinv.anchored_length,
    fun hnone => hempty (by rw [hnone]; rfl), fun p hp => ?_, fun _ _ _ _ => promoteFinalized_failed,
    fun ancestor branchHas hbranch hallowed => ?_, fun b n' hstep => ?_⟩
  · obtain ⟨hmem | hno, hall, -⟩ := hhighest p.targetHeight (by rw [hp]; rfl)
    · refine ⟨hmem, hall, fun hlate => ?_⟩
      have hfloor := hinv.holds.permanent p hp
      rw [FinalityState.finalizedHeight, (hinv.sound.authorization hfloor.authorized).2.1]
      exact hfloor.carrier.trans (hinv.sound.authorization_carrier hfloor.authorized hlate)
    · cases hno
  · have hrequired : n.finality.requiredReorgAncestor ≤ ancestor :=
      hallowed.elim (hinv.sound.reorgPermitted hbranch) id
    exact hinv.reorg_allowed hrequired
  · obtain ⟨hinv', heffect⟩ := hinv.step hstep
    obtain hsame | ⟨p, hp, hup, hlate⟩ := heffect.permanent
    · exact ⟨fun p hp => ⟨p, hsame.trans hp, le_rfl⟩, .inl hsame⟩
    have hfloor := hinv'.holds.permanent p hp
    obtain ⟨hmake, hvalid⟩ := makeFloor_of_valid magic hgenesis hfloor.valid
    refine ⟨fun q hq => ⟨p, hp, (hup q hq).1.le⟩, .inr ⟨p, _, hp, hmake, fun _ => ?_, fun q hq => ?_, hlate⟩⟩
    · simp only [classify, hvalid]
    · refine ⟨_, (makeFloor_of_valid magic hgenesis (hinv.holds.permanent q hq).valid).1, ?_⟩
      exact classify_advanced hgenesis hfloor.valid (hinv'.target_lt hp) (hup q hq).1 (hup q hq).2

end

/-! ### An anchor is promoted

After three epochs with a qualified set a certificate finalizes block 1440, block 1460 carries a proof for it, and
the next certificate promotes the proof. -/

/-- Seven members, and a hash that is never zero. -/
def sampleContext : Context :=
  { sevenContext with sha256 := fun bytes => ⟨List.replicate 31 1 ++ [bytes.getLastD 0], rfl⟩ }

def sampleHash (height : Nat) : Hash256 := ⟨putLE 8 height ++ List.replicate 24 1, by simp⟩

def sampleSnapshot (epoch : Nat) : EpochSnapshot where
  epochId := epoch
  snapshotHeight := 480 * epoch - 1
  entries := (List.range 7).map fun i =>
    { sevenMember i with pubkeyCommit := pubkeyCommit sampleContext (sevenMember i).pubkeyHex }
  totalWeight := 7 * bondPerKeyUnits
  root := ⟨List.replicate 31 1 ++ [0], rfl⟩

def sampleBlock (height : Nat) : BlockInput where
  hash := sampleHash height
  proofs := []
  cert := none
  isBtcFinal _ := true
  promoteObserved _ := true
  snapshot := sampleSnapshot 0

def sampleChain (n : Nat) : List Hash256 := (List.range n).map sampleHash

/-- So many epochs have qualified. -/
def sampleFinality (epochs : Nat) : FinalityState where
  consecutiveQualifiedEpochs := epochs
  finalityEverActive := 2 ≤ epochs
  everPromotedAnchor := false
  snapshots := ((List.range epochs).map fun e => sampleSnapshot (e + 1)).drop (epochs - 2)
  record := .null
  certifiedCarrierRecord := .null
  securityUpgradeActive := false

deriving instance DecidableEq for FinalityState

/-- No anchor below the block of height `n`. -/
def sampleAnchors (n : Nat) : AnchorSet := { AnchorSet.empty with retainFrom := n - 1 - acceptWindow }

theorem sampleHash_ne_zero (height : Nat) : sampleHash height ≠ .zero := by
  intro heq
  have hrest := congrArg (fun h : Hash256 => h.bytes.drop 8) heq
  simp only [sampleHash, drop_left' (putLE_length 8 height)] at hrest
  exact absurd hrest (by decide)

theorem sampleChain_length (n : Nat) : (sampleChain n).length = n := by simp [sampleChain]

theorem sampleChain_succ (n : Nat) : sampleChain n ++ [sampleHash n] = sampleChain (n + 1) := by
  simp [sampleChain, range_succ]

def sampleRef (height : Nat) : CheckpointRef := ⟨UInt64.ofNat height, sampleHash height⟩

/-- Five of the seven members precommit the block. -/
def sampleCert (source : CheckpointRef) (height : Nat) : DecodedQc :=
  let qc : QuorumCert := ⟨3, .zero, .precommit, checkpointRound height, source, sampleRef height, [31], 0⟩
  ⟨qc, List.replicate 5 (fillSignature (certMessage sampleContext qc (sampleSnapshot 3))), bitmap_fits⟩

def sampleRecord (source : CheckpointRef) (height carrier : Nat) : FinalizedRecord :=
  ⟨3, sampleRef height, (sampleSnapshot 3).root, checkpointRound height, .precommit,
    qcCommitment sampleContext { (sampleCert source height).qc with
      setRoot := (sampleSnapshot 3).root, weight := bitmapWeight (sampleSnapshot 3) [31] },
    sampleRef carrier, (sampleRef height).height.toNat⟩

def sampleFirst : FinalizedRecord := sampleRecord .null 1440 1459
def sampleSecond : FinalizedRecord := sampleRecord (sampleRef 1440) 1460 1461

def sampleFinalized (r : FinalizedRecord) : FinalityState := { sampleFinality 3 with record := r }

/-- The proof that block 1460 carries. -/
def sampleProof : AnchorResult := ⟨1440, sampleHash 1440, .fill 2, .fill 3⟩

def sampleEntry : Entry := ⟨sampleHash 1440, 1460, sampleHash 1460, .fill 2, .fill 3, 0, .zero, .zero⟩

def sampleStaged (n : Nat) : AnchorSet :=
  { sampleAnchors n with used := {.fill 3}, pending := AList.insert 1440 sampleEntry ∅ }

def samplePromoted : AnchorSet := installAnchor sampleContext sampleSecond 1440 sampleEntry (sampleStaged 1462)

def sampleNode : Node :=
  ⟨sampleChain 1462, { sampleFinalized sampleSecond with everPromotedAnchor := true }, samplePromoted⟩

/-- A hash of the sample is never zero. -/
theorem sampleSha_ne_zero (b : UInt8) : (⟨List.replicate 31 1 ++ [b], rfl⟩ : Hash256) ≠ .zero := fun h =>
  absurd (congrArg (fun h : Hash256 => h.bytes.head?) h) (by simp [Hash256.zero])

/-- The run, where it has to be computed. -/
theorem sample_facts :
    (∀ e ∈ [1, 2, 3], snapshotQualifies sampleContext (sampleSnapshot e) = true) ∧
    FinalityState.feedFinalityCerts sampleContext (sampleChain 1459) (sampleHash 1459)
      (some (sampleCert .null 1440)) (sampleFinality 3) = some (sampleFinalized sampleFirst) ∧
    FinalityState.feedFinalityCerts sampleContext (sampleChain 1461) (sampleHash 1461)
      (some (sampleCert (sampleRef 1440) 1460)) (sampleFinalized sampleFirst) = some (sampleFinalized sampleSecond) ∧
    (sampleProof.veldHeight ≤ (sampleFinalized sampleFirst).finalizedHeight ∧
      anchorTargetValid (sampleFinalized sampleFirst).record sampleProof.veldHeight sampleProof.veldBlockHash 1460 ∧
      sampleProof.veldHeight ≤ 1460 ∧
      (sampleChain 1460 ++ [sampleHash 1460])[sampleProof.veldHeight]? = some sampleProof.veldBlockHash ∧
      targetInWindow sampleProof.veldHeight 1460) ∧
    (¬(sampleProof.veldHeight < (sampleAnchors 1461).retainFrom ∨
      ((sampleAnchors 1461).anchored.lookup sampleProof.veldHeight).isSome ∨
      ((sampleAnchors 1461).pending.lookup sampleProof.veldHeight).isSome ∨
      sampleProof.btcTxid ∈ (sampleAnchors 1461).used ∨
      pendingCap ≤ (sampleAnchors 1461).pending.entries.length)) ∧
    (([1440] : List Nat) ≠ [] && !authorizationValid sampleContext (fun h => (sampleChain 1461)[h]?)
      sampleSecond sampleSecond.target.height.toNat (sampleStaged 1462)) = false ∧
    (!([1440].all fun target => ((sampleStaged 1462).pending.lookup target).any fun e =>
      (sampleChain 1461)[e.carryingVeldHeight]? = some e.carryingVeldHash)) = false ∧
    sampleNode.finality.requiredReorgAncestor = 1461 ∧ sampleNode.finality.finalizedHeight = 1460 ∧
    sampleNode.anchors.permanentReorgPermitted 1460 = false := by
  decide +kernel

theorem sampleFinality_boundary {epochs : Nat} (h : epochs < 3) :
    (sampleFinality epochs).onEpochBoundary sampleContext (sampleSnapshot (epochs + 1)) =
      some (sampleFinality (epochs + 1)) := by
  have hqualifies : snapshotQualifies sampleContext (sampleSnapshot (epochs + 1)) :=
    sample_facts.1 _ (by simp; omega)
  have hwf : snapshotWellFormed sampleContext (sampleSnapshot (epochs + 1)) := by
    simp only [snapshotQualifies, Bool.and_eq_true] at hqualifies
    exact hqualifies.1
  rw [FinalityState.onEpochBoundary, hwf, hqualifies]
  interval_cases epochs <;> rfl

theorem sampleFinality_height {f : FinalityState} {n : Nat} (h : n < 2880) : f.onBlockHeight n = f := by
  have hlow : consensusSecurityUpgradeActive n = false :=
    decide_eq_false (by unfold consensusSecurityUpgradeHeight; omega)
  rw [FinalityState.onBlockHeight, hlow]
  rfl

theorem sortedKeys_empty {p : Nat → Entry → Bool} : sortedKeys ∅ p = [] := mergeSort_nil

theorem sortedKeys_singleton {p : Nat → Entry → Bool} {k : Nat} {e : Entry} :
    sortedKeys (AList.insert k e ∅) p = if p k e then [k] else [] := by
  have hkeys : (Table.keep p (AList.insert k e ∅)).keys = if p k e then [k] else [] := by
    cases hp : p k e <;> simp [Table.keep, AList.keys, List.keys, AList.insert, hp]
  rw [sortedKeys, hkeys]
  split
  · exact mergeSort_singleton k
  · exact mergeSort_nil

theorem sampleAnchors_advance (n : Nat) : advanceHeight sampleContext n (sampleAnchors n) = sampleAnchors (n + 1) := by
  have hnone : sortedKeys (sampleAnchors n).anchored (fun height _ => height < n - acceptWindow) = [] :=
    sortedKeys_empty
  unfold advanceHeight
  dsimp only
  split
  · next hle =>
    have heq : n - 1 - acceptWindow = n + 1 - 1 - acceptWindow := by
      simp only [sampleAnchors] at hle
      omega
    simp only [sampleAnchors, heq]
  · rw [hnone]
    rfl

/-- With no proof that the record covers, nothing is promoted. -/
theorem promoteFinalizedAnchors_idle {K : Context} {chain : List Hash256} {isBtcFinal promoteObserved : Hash256 → Bool}
    {f : FinalityState} {s : AnchorSet} (h : sortedKeys s.pending
      (fun _ e => e.carryingVeldHeight ≤ f.anchorAuthorizationRecord.target.height.toNat) = []) :
    promoteFinalizedAnchors K chain isBtcFinal promoteObserved f s = some (f, s) := by
  unfold promoteFinalizedAnchors promoteFinalized
  simp only [h, promoteLoop]
  exact ite_self _

theorem sampleAnchors_idle {p : Nat → Entry → Bool} (n : Nat) : sortedKeys (sampleAnchors n).pending p = [] :=
  sortedKeys_empty

theorem feedAnchors_nil {K : Context} {chain : List Hash256} {hash : Hash256} {f : FinalityState} {s : AnchorSet} :
    feedAnchors K chain hash [] f s = advanceHeight K chain.length s := by
  simp only [feedAnchors, foldl_nil, ite_self]

theorem sampleAnchors_fed {f : FinalityState} {n : Nat} :
    feedAnchors sampleContext (sampleChain n) (sampleHash n) [] f (sampleAnchors n) = sampleAnchors (n + 1) := by
  rw [feedAnchors_nil, sampleChain_length, sampleAnchors_advance]

/-- A plain block of the first epochs. -/
theorem sample_plain {n : Nat} (h : n < 1459) :
    applyBlock sampleContext (sampleBlock n) ⟨sampleChain n, sampleFinality (n / 480), sampleAnchors n⟩ =
      some ⟨sampleChain (n + 1), sampleFinality ((n + 1) / 480), sampleAnchors (n + 1)⟩ := by
  have hsnap : (sampleFinality (n / 480)).maybeSnapshotEpoch sampleContext n (sampleSnapshot 0) =
      some (sampleFinality ((n + 1) / 480)) := by
    unfold FinalityState.maybeSnapshotEpoch epochOf epochBlocks
    split
    · next hlast =>
      have hsnapshot : ({ sampleSnapshot 0 with epochId := n / 480 + 1, snapshotHeight := n } : EpochSnapshot) =
          sampleSnapshot (n / 480 + 1) := by
        simp only [sampleSnapshot, EpochSnapshot.mk.injEq, and_self, and_true, true_and]
        omega
      rw [hsnapshot, show (n + 1) / 480 = n / 480 + 1 by omega]
      exact sampleFinality_boundary (by omega)
    · rw [show (n + 1) / 480 = n / 480 by omega]
  simp only [applyBlock, sampleBlock, sampleChain_length, sampleFinality_height (show n < 2880 by omega),
    sampleAnchors_fed,
    FinalityState.feedFinalityCerts, some_bind, promoteFinalizedAnchors_idle (sampleAnchors_idle _), hsnap,
    sampleChain_succ, Option.pure_def]

theorem sampleFinality_roots {epochs : Nat} : ∀ s ∈ (sampleFinality epochs).snapshots, s.root ≠ .zero := by
  intro s hs
  obtain ⟨e, -, rfl⟩ := mem_map.mp (mem_of_mem_drop hs)
  exact sampleSha_ne_zero 0

theorem sample_reached {n : Nat} (h : n ≤ 1459) :
    ∃ history, Reached sampleContext ⟨sampleChain n, sampleFinality (n / 480), sampleAnchors n⟩ history := by
  induction n with
  | zero => exact ⟨[], .start⟩
  | succ n ih =>
    obtain ⟨history, hprior⟩ := ih (by omega)
    exact ⟨_, hprior.block ⟨by rw [sampleChain_length]; omega, sampleHash_ne_zero n, fun _ hr => absurd hr not_mem_nil,
      sampleFinality_roots, fun hset => absurd hset (by simp [sampleFinality]; rfl), sample_plain (by omega)⟩⟩

theorem sampleStaged_fed : feedAnchors sampleContext (sampleChain 1460) (sampleHash 1460) [sampleProof]
    (sampleFinalized sampleFirst) (sampleAnchors 1460) = sampleStaged 1461 := by
  have hactive : (!(sampleFinalized sampleFirst).anchorWarmupComplete || (sampleFinalized sampleFirst).record.isNull ||
      !anchorActive (sampleFinalized sampleFirst).record.target.height.toNat) = false := by decide
  obtain ⟨-, -, -, htarget, hroom, -⟩ := sample_facts
  have hadvance : advanceHeight sampleContext 1460 (sampleAnchors 1461) = sampleAnchors 1461 := by
    unfold advanceHeight
    exact if_pos (by decide)
  have hfresh : ¬(1460 < sampleProof.veldHeight ∨ sampleHash 1460 = .zero ∨ sampleProof.btcBlockHash = .zero) := by
    rintro (h | h | h)
    · exact absurd h (by decide)
    · exact sampleHash_ne_zero 1460 h
    · exact absurd h (by decide)
  unfold feedAnchors
  rw [sampleChain_length, sampleAnchors_advance]
  dsimp only [foldl, feedAnchor, stage]
  rw [hactive, if_neg Bool.false_ne_true, sampleChain_length, if_pos htarget, hadvance, if_neg hfresh, if_neg hroom]
  rfl

theorem sampleStaged_advance : advanceHeight sampleContext 1461 (sampleStaged 1461) = sampleStaged 1462 := by
  have hnone : sortedKeys (sampleStaged 1461).anchored (fun height _ => height < 1461 - acceptWindow) = [] :=
    sortedKeys_empty
  unfold advanceHeight
  dsimp only
  rw [if_neg (by decide), hnone]
  rfl

theorem sampleStaged_eligible : sortedKeys (sampleStaged 1462).pending
    (fun _ e => e.carryingVeldHeight ≤ sampleSecond.target.height.toNat) = [1440] := by
  rw [sampleStaged, sortedKeys_singleton]
  decide

theorem sample_promotes : promoteFinalizedAnchors sampleContext (sampleChain 1461) (fun _ => true) (fun _ => true)
    (sampleFinalized sampleSecond) (sampleStaged 1462) =
      some ({ sampleFinalized sampleSecond with everPromotedAnchor := true }, samplePromoted) := by
  have hpromoted : promoteFinalized sampleContext (fun h => (sampleChain 1461)[h]?) (fun _ => true) sampleSecond
      sampleSecond.target.height.toNat (sampleStaged 1462) = (⟨true, 1, 0⟩, samplePromoted) := by
    obtain ⟨-, -, -, -, -, hvalid, hcarried, -⟩ := sample_facts
    have hlookup : (sampleStaged 1462).pending.lookup 1440 = some sampleEntry := AList.lookup_insert _
    have hcarrier : ¬(sampleSecond.target.height.toNat < sampleEntry.carryingVeldHeight ∨
        sampleSecond.carrier.height.toNat < sampleEntry.carryingVeldHeight) := by decide
    unfold promoteFinalized
    rw [sampleStaged_eligible]
    dsimp only
    rw [hvalid, hcarried, if_neg Bool.false_ne_true, if_neg Bool.false_ne_true]
    simp only [promoteLoop, hlookup, Bool.not_true, Bool.false_eq_true, if_false, if_neg hcarrier]
    rfl
  have hauth : (sampleFinalized sampleSecond).anchorAuthorizationRecord = sampleSecond := rfl
  have hactive : (sampleSecond.isNull || !anchorActive sampleSecond.target.height.toNat) = false := by decide
  unfold promoteFinalizedAnchors
  simp only [hauth, hactive, hpromoted, Bool.false_eq_true, if_false]
  rfl

theorem sampleFinalized_snapshot {f : FinalityState} {n : Nat} (h : 1459 ≤ n ∧ n < 1919) :
    f.maybeSnapshotEpoch sampleContext n (sampleSnapshot 0) = some f := by
  unfold FinalityState.maybeSnapshotEpoch epochOf epochBlocks
  exact if_neg (by omega)

theorem sampleStaged_idle : sortedKeys (sampleStaged 1461).pending (fun _ e => e.carryingVeldHeight ≤
    (sampleFinalized sampleFirst).anchorAuthorizationRecord.target.height.toNat) = [] := by
  rw [sampleStaged, sortedKeys_singleton]
  decide

theorem sampleStaged_quiet : feedAnchors sampleContext (sampleChain 1461) (sampleHash 1461) []
    (sampleFinalized sampleFirst) (sampleStaged 1461) = sampleStaged 1462 := by
  rw [feedAnchors_nil, sampleChain_length, sampleStaged_advance]

theorem sample_finalizes : Step sampleContext { sampleBlock 1459 with cert := some (sampleCert .null 1440) }
    ⟨sampleChain 1459, sampleFinality 3, sampleAnchors 1459⟩
    ⟨sampleChain 1460, sampleFinalized sampleFirst, sampleAnchors 1460⟩ := by
  refine ⟨by rw [sampleChain_length]; decide, sampleHash_ne_zero 1459, fun _ hr => absurd hr not_mem_nil,
    sampleFinality_roots, fun _ => sampleSha_ne_zero _, ?_⟩
  simp only [applyBlock, sampleBlock, sampleChain_length, sampleFinality_height (show 1459 < 2880 by decide),
    sampleAnchors_fed, sample_facts.2.1, some_bind, promoteFinalizedAnchors_idle (sampleAnchors_idle _),
    sampleFinalized_snapshot (show 1459 ≤ 1459 ∧ 1459 < 1919 by decide), sampleChain_succ, Option.pure_def]

theorem sample_stages : Step sampleContext { sampleBlock 1460 with proofs := [sampleProof] }
    ⟨sampleChain 1460, sampleFinalized sampleFirst, sampleAnchors 1460⟩
    ⟨sampleChain 1461, sampleFinalized sampleFirst, sampleStaged 1461⟩ := by
  refine ⟨by rw [sampleChain_length]; decide, sampleHash_ne_zero 1460, fun r hr => mem_singleton.mp hr ▸ by decide,
    sampleFinality_roots, fun _ => sampleSha_ne_zero _, ?_⟩
  simp only [applyBlock, sampleBlock, sampleChain_length, sampleFinality_height (show 1460 < 2880 by decide),
    sampleStaged_fed, FinalityState.feedFinalityCerts, some_bind, promoteFinalizedAnchors_idle sampleStaged_idle,
    sampleFinalized_snapshot (show 1459 ≤ 1460 ∧ 1460 < 1919 by decide), sampleChain_succ, Option.pure_def]

theorem sample_staged : ∃ history,
    Reached sampleContext ⟨sampleChain 1461, sampleFinalized sampleFirst, sampleStaged 1461⟩ history := by
  obtain ⟨history, hplain⟩ := sample_reached le_rfl
  exact ⟨_, (hplain.block sample_finalizes).block sample_stages⟩

theorem sample_makes_permanent :
    Step sampleContext { sampleBlock 1461 with cert := some (sampleCert (sampleRef 1440) 1460) }
      ⟨sampleChain 1461, sampleFinalized sampleFirst, sampleStaged 1461⟩ sampleNode := by
  refine ⟨by rw [sampleChain_length]; decide, sampleHash_ne_zero 1461, fun _ hr => absurd hr not_mem_nil,
    sampleFinality_roots, fun _ => sampleSha_ne_zero _, ?_⟩
  simp only [applyBlock, sampleBlock, sampleChain_length, sampleFinality_height (show 1461 < 2880 by decide),
    sampleStaged_quiet, sample_facts.2.2.1, some_bind, sample_promotes,
    sampleFinalized_snapshot (show 1459 ≤ 1461 ∧ 1461 < 1919 by decide), sampleChain_succ, Option.pure_def]
  rfl

/-- The promoted anchor is installed as the floor, and a branch must leave the chain at its carrier or above. -/
theorem anchors_are_monotone_floor_promoted :
    (∃ history p r, Reached sampleContext sampleNode history ∧ sampleNode.anchors.permanent = some p ∧
      p.targetHeight = 1440 ∧ 1440 ∈ history ∧ (∀ t ∈ history, t ≤ 1440) ∧
      makeFloor sampleContext 0 (.fill 1) p = .ok r ∧ classify sampleContext none r = .installed) ∧
    sampleNode.anchors.permanentReorgPermitted 1461 ∧
    sampleNode.anchors.permanentReorgPermitted 1460 = false := by
  have hgenesis : Hash256.fill 1 ≠ .zero := by decide
  obtain ⟨-, -, -, -, -, -, -, hrequired, -, hbelow⟩ := sample_facts
  obtain ⟨history, hstaged⟩ := sample_staged
  have hpermanent := hstaged.block sample_makes_permanent
  obtain ⟨-, -, -, -, -, -, -, -, hsteps⟩ := anchors_are_monotone_floor hgenesis 0 hstaged
  obtain ⟨-, -, -, -, -, hhistory, -, hreorg, -⟩ := anchors_are_monotone_floor hgenesis 0 hpermanent
  obtain ⟨-, hsame | ⟨p, r, hp, hfloor, hinstalled, -⟩⟩ := hsteps _ _ sample_makes_permanent
  · exact absurd hsame (Option.some_ne_none _)
  · obtain ⟨hmem, hhighest, -⟩ := hhistory p hp
    have htarget : p.targetHeight = 1440 := (congrArg PermanentCheckpoint.targetHeight (Option.some.inj hp)).symm
    have hbranch : LeavesAt sampleNode.chain 1461 fun r => r.height.toNat ≤ 1461 := fun r hr _ => of_decide_eq_true hr
    rw [htarget] at hmem hhighest
    exact ⟨⟨_, p, r, hpermanent, hp, htarget, hmem, hhighest, hfloor, hinstalled rfl⟩,
      (hreorg 1461 _ hbranch (.inr hrequired.le)).1, hbelow⟩

end Veld.Anchors
