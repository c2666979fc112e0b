import Veld.Core.HeaderRuns

/-!
# The order of submissions

Two orders of the same headers, each with parents before children, store the same headers above the observed
checkpoint, judge them alike and end at tips of equal work.
-/

namespace Veld.Btcspv

open Wire ParentTree BtcHeaderChain List

variable {sha256 : Bytes → Hash256} {P : ChainParams} {ch ch' : BtcHeaderChain} {n n' : Nat}
  {raw : RawHeader} {veldBlockTime : Nat}

/-! ## What the checks read -/

structure SharedPart (P : ChainParams) (D : Hash256 → Prop) (ch ch' : BtcHeaderChain) : Prop where
  closed : ∀ h r, D h → ch.get h = some r → h ≠ P.cp.hash → D r.prevHash
  shared : ∀ h r, D h → ch.get h = some r → ch'.get h = some r

variable {h : Hash256} {r : BtcHeaderRecord} {D : Hash256 → Prop}

section
variable (hd : SharedPart P D ch ch') (hs : Sound P n ch) (hs' : Sound P n' ch') (hh : D h)
  (hr : ch.get h = some r)
include hd hs hs' hh hr

theorem SharedPart.parent :
    (∃ p, ch.get r.prevHash = some p ∧ ch'.get r.prevHash = some p ∧ D r.prevHash) ∨
      (ch.get r.prevHash = none ∧ ch'.get r.prevHash = none) := by
  by_cases hroot : h = P.cp.hash
  · -- The checkpoint names no parent; a lookup of the zero hash finds it or nothing.
    subst hroot
    cases hs.tree.root.symm.trans hr
    by_cases hzero : P.cp.hash = .zero
    · refine .inl ⟨P.cp.record, ?_⟩
      change ch.get Hash256.zero = _ ∧ ch'.get Hash256.zero = _ ∧ D Hash256.zero
      rw [← hzero]
      exact ⟨hr, hs'.tree.root, hh⟩
    · refine .inr ⟨?_, ?_⟩
      · exact Option.eq_none_iff_forall_not_mem.mpr fun v hv => hzero (hs.noZero v hv)
      · exact Option.eq_none_iff_forall_not_mem.mpr fun v hv => hzero (hs'.noZero v hv)
  · obtain ⟨p, hp, -⟩ := hs.tree.rooted.linked h r hr hroot
    have hup := hd.closed h r hh hr hroot
    exact .inl ⟨p, hp, hd.shared _ _ hup hp, hup⟩

theorem SharedPart.walkBack_eq (k : Nat) : ch.walkBack k r = ch'.walkBack k r := by
  induction k generalizing h r with
  | zero => rfl
  | succ k ih =>
    rcases hd.parent hs hs' hh hr with ⟨p, hp, hp', hup⟩ | ⟨hp, hp'⟩
    · simp only [walkBack, hp, hp']
      exact ih hup hp
    · simp only [walkBack, hp, hp']

theorem SharedPart.pastTimes_eq (k : Nat) : ch.pastTimes P k r = ch'.pastTimes P k r := by
  induction k generalizing h r with
  | zero => rfl
  | succ k ih =>
    rcases hd.parent hs hs' hh hr with ⟨p, hp, hp', hup⟩ | ⟨hp, hp'⟩
    · simp only [pastTimes, hp, hp', ih hup hp]
    · simp only [pastTimes, hp, hp']

end

variable {parent : BtcHeaderRecord}

theorem SharedPart.validChild_eq (hd : SharedPart P D ch ch') (hs : Sound P n ch)
    (hs' : Sound P n' ch') (hh : D h) (hp : ch.get h = some parent) :
    ch.validChild sha256 P raw veldBlockTime parent =
      ch'.validChild sha256 P raw veldBlockTime parent := by
  have hbits : ch.expectedBits P parent = ch'.expectedBits P parent := by
    simp only [expectedBits, hd.walkBack_eq hs hs' hh hp]
  have htime : ch.medianTimePast P parent = ch'.medianTimePast P parent := by
    simp only [medianTimePast, hd.pastTimes_eq hs hs' hh hp]
  simp only [validChild, hbits, htime]

/-! ## Lists of submissions -/

/-- Headers with the time of the block that carries each, submitted in order. -/
def submitAll (sha256 : Bytes → Hash256) (P : ChainParams) (items : List (RawHeader × Nat))
    (ch : BtcHeaderChain) : BtcHeaderChain :=
  items.foldl (fun ch item => (ch.submitHeader sha256 P item.1 item.2).2) ch

/-- The answer to each. -/
def verdicts (sha256 : Bytes → Hash256) (P : ChainParams) :
    List (RawHeader × Nat) → BtcHeaderChain → List ((RawHeader × Nat) × Bool)
  | [], _ => []
  | item :: items, ch =>
    (item, (ch.submitHeader sha256 P item.1 item.2).1) ::
      verdicts sha256 P items (ch.submitHeader sha256 P item.1 item.2).2

def ParentsFirst (sha256 : Bytes → Hash256) (items : List (RawHeader × Nat)) : Prop :=
  items.Pairwise fun earlier later => later.1.hash sha256 ≠ earlier.1.prevHash

variable {items items' : List (RawHeader × Nat)} {item : RawHeader × Nat}

section
variable (sha256 P raw veldBlockTime) {best : BtcHeaderRecord} (htip : ch.get ch.bestTip = some best)
include htip

/-- A submission writes at the hash of the header only, and answers whether it is stored there. -/
theorem submitHeader_frame :
    (∀ h, h ≠ raw.hash sha256 →
        (ch.submitHeader sha256 P raw veldBlockTime).2.get h = ch.get h) ∧
      (ch.submitHeader sha256 P raw veldBlockTime).1 =
        ((ch.submitHeader sha256 P raw veldBlockTime).2.get (raw.hash sha256)).isSome := by
  obtain ⟨-, ⟨hget, hverdict⟩ | ⟨parent, -, -, -, hverdict, hget⟩⟩ :=
    submitHeader_get sha256 P raw veldBlockTime htip
  · exact ⟨fun h _ => by rw [hget], by rw [hget, hverdict]⟩
  · refine ⟨fun h hne => by rw [hget, get_store_ne _ hne], ?_⟩
    rw [hget, hverdict, get_store_self]
    rfl

theorem submitHeader_source (hr : (ch.submitHeader sha256 P raw veldBlockTime).2.get h = some r) :
    ch.get h = some r ∨ ch.get h = none ∧ raw.hash sha256 = h ∧
      ∃ parent, ch.get raw.prevHash = some parent ∧
        ch.validChild sha256 P raw veldBlockTime parent ∧
        r = childRecord sha256 raw parent := by
  obtain ⟨-, ⟨hget, -⟩ | ⟨parent, hfresh, hparent, hvalid, -, hget⟩⟩ :=
    submitHeader_get sha256 P raw veldBlockTime htip
  · exact .inl (hget ▸ hr)
  · rw [hget] at hr
    by_cases hh : h = raw.hash sha256
    · subst hh
      cases (get_store_self ch _ _).symm.trans hr
      exact .inr ⟨hfresh, rfl, parent, hparent, hvalid, rfl⟩
    · rw [get_store_ne _ hh] at hr
      exact .inl hr

end

structure Batch (sha256 : Bytes → Hash256) (P : ChainParams) (n : Nat) (ch : BtcHeaderChain)
    (items : List (RawHeader × Nat)) : Prop where
  sound : Sound P n ch
  heights : P.cp.height + n + items.length < 2 ^ 32
  nonzero : ∀ item ∈ items, item.1.hash sha256 ≠ .zero
  distinct : (items.map fun item => item.1.hash sha256).Nodup

theorem Batch.tail (hb : Batch sha256 P n ch (item :: items)) :
    Batch sha256 P (n + 1) (ch.submitHeader sha256 P item.1 item.2).2 items := by
  have hheights := hb.heights
  rw [length_cons] at hheights
  exact ⟨hb.sound.submit (by omega) (hb.nonzero item mem_cons_self), by omega,
    fun i hi => hb.nonzero i (mem_cons_of_mem _ hi), (nodup_cons.mp hb.distinct).2⟩

theorem Batch.drop (hb : Batch sha256 P n ch (items ++ items')) :
    Batch sha256 P (n + items.length) (submitAll sha256 P items ch) items' := by
  induction items generalizing ch n with
  | nil => exact hb
  | cons item items ih =>
    have := ih hb.tail
    rwa [show n + (item :: items).length = n + 1 + items.length by simp; omega]

theorem Batch.take (hb : Batch sha256 P n ch (items ++ items')) : Batch sha256 P n ch items := by
  have hheights := hb.heights
  rw [length_append] at hheights
  refine ⟨hb.sound, by omega, fun i hi => hb.nonzero i (mem_append_left _ hi), ?_⟩
  have := hb.distinct
  rw [map_append] at this
  exact this.of_append_left

theorem Batch.sound_all (hb : Batch sha256 P n ch items) :
    Sound P (n + items.length) (submitAll sha256 P items ch) := by
  have hb' : Batch sha256 P n ch (items ++ []) := by rwa [append_nil]
  exact hb'.drop.sound

theorem Batch.perm (hb : Batch sha256 P n ch items) (hp : items.Perm items') :
    Batch sha256 P n ch items' :=
  ⟨hb.sound, hp.length_eq ▸ hb.heights, fun i hi => hb.nonzero i (hp.mem_iff.mpr hi),
    (hp.map _).nodup_iff.mp hb.distinct⟩

theorem submitAll_append (items items' : List (RawHeader × Nat)) :
    submitAll sha256 P (items ++ items') ch =
      submitAll sha256 P items' (submitAll sha256 P items ch) := foldl_append ..

section
variable (hb : Batch sha256 P n ch items)
include hb

theorem Batch.grows :
    (∀ h r, ch.get h = some r → (submitAll sha256 P items ch).get h = some r) ∧
      (submitAll sha256 P items ch).observedCheckpoint = ch.observedCheckpoint := by
  induction items generalizing ch n with
  | nil => exact ⟨fun _ _ h => h, rfl⟩
  | cons item items ih =>
    obtain ⟨best, hsel⟩ := hb.sound.selected
    obtain ⟨hsub, hobs⟩ := ih hb.tail
    obtain ⟨hsub', hobs'⟩ := submitHeader_grows sha256 P item.1 item.2 hsel.tip
    exact ⟨fun h r hr => hsub h r (hsub' h r hr), hobs.trans hobs'⟩

theorem Batch.get_of_notMem (hh : ∀ item ∈ items, item.1.hash sha256 ≠ h) :
    (submitAll sha256 P items ch).get h = ch.get h := by
  induction items generalizing ch n with
  | nil => rfl
  | cons item items ih =>
    obtain ⟨best, hsel⟩ := hb.sound.selected
    have hframe := (submitHeader_frame sha256 P item.1 item.2 hsel.tip).1
    exact (ih hb.tail fun i hi => hh i (mem_cons_of_mem _ hi)).trans
      (hframe h (hh item mem_cons_self).symm)

theorem Batch.mem_verdicts_iff {b : Bool} :
    (item, b) ∈ verdicts sha256 P items ch ↔
      item ∈ items ∧ b = ((submitAll sha256 P items ch).get (item.1.hash sha256)).isSome := by
  induction items generalizing ch n with
  | nil => simp [verdicts]
  | cons first items ih =>
    obtain ⟨best, hsel⟩ := hb.sound.selected
    have hframe := (submitHeader_frame sha256 P first.1 first.2 hsel.tip).2
    have hnot := (nodup_cons.mp hb.distinct).1
    have hkept : ∀ i ∈ items, i.1.hash sha256 ≠ first.1.hash sha256 := fun i hi heq =>
      hnot (mem_map.mpr ⟨i, hi, heq⟩)
    have hlast := hb.tail.get_of_notMem hkept
    change (item, b) ∈ (first, _) :: verdicts sha256 P items _ ↔ _
    rw [mem_cons, mem_cons, ih hb.tail, Prod.mk.injEq, hframe, ← hlast]
    change _ ↔ _ ∧ b = ((submitAll sha256 P items _).get _).isSome
    constructor
    · rintro (⟨rfl, hb⟩ | ⟨hmem, hb⟩)
      · exact ⟨.inl rfl, hb⟩
      · exact ⟨.inr hmem, hb⟩
    · rintro ⟨rfl | hmem, hb⟩
      · exact .inl ⟨rfl, hb⟩
      · exact .inr ⟨hmem, hb⟩

theorem Batch.source (hr : (submitAll sha256 P items ch).get h = some r) :
    ch.get h = some r ∨
      ch.get h = none ∧ ∃ item ∈ items, item.1.hash sha256 = h ∧ r.prevHash = item.1.prevHash := by
  induction items generalizing ch n with
  | nil => exact .inl hr
  | cons item items ih =>
    obtain ⟨best, hsel⟩ := hb.sound.selected
    rcases ih hb.tail hr with hr | ⟨hnone, i, hi, hhash, hprev⟩
    · rcases submitHeader_source sha256 P item.1 item.2 hsel.tip hr with hr | ⟨hnone, hhash, p, -, -, rfl⟩
      · exact .inl hr
      · exact .inr ⟨hnone, item, mem_cons_self, hhash, rfl⟩
    · refine .inr ⟨?_, i, mem_cons_of_mem _ hi, hhash, hprev⟩
      by_contra hsome
      obtain ⟨v, hv⟩ := Option.ne_none_iff_exists'.mp hsome
      rw [(submitHeader_grows sha256 P item.1 item.2 hsel.tip).1 h v hv] at hnone
      cases hnone

end

/-! ## Above the checkpoint -/

inductive Descends (sha256 : Bytes → Hash256) (P : ChainParams) (ch : BtcHeaderChain)
    (items : List (RawHeader × Nat)) : Hash256 → Prop
  | observed : Descends sha256 P ch items ch.observedCheckpoint
  | stored {h : Hash256} {r : BtcHeaderRecord} : ch.get h = some r → h ≠ P.cp.hash →
      Descends sha256 P ch items r.prevHash → Descends sha256 P ch items h
  | submitted {item : RawHeader × Nat} : item ∈ items → ch.get (item.1.hash sha256) = none →
      Descends sha256 P ch items item.1.prevHash → Descends sha256 P ch items (item.1.hash sha256)

/-- No checkpoint is observed, or the header descends from it. -/
def Above (sha256 : Bytes → Hash256) (P : ChainParams) (ch : BtcHeaderChain)
    (items : List (RawHeader × Nat)) (h : Hash256) : Prop :=
  ch.observedCheckpoint = .zero ∨ Descends sha256 P ch items h

/-- Stored at the start, or above the checkpoint. -/
def Settled (sha256 : Bytes → Hash256) (P : ChainParams) (ch : BtcHeaderChain)
    (items : List (RawHeader × Nat)) (h : Hash256) : Prop :=
  (∃ r, ch.get h = some r) ∨ Above sha256 P ch items h

theorem Descends.perm (hp : ∀ item, item ∈ items → item ∈ items')
    (hd : Descends sha256 P ch items h) : Descends sha256 P ch items' h := by
  induction hd with
  | observed => exact .observed
  | stored hr hne _ ih => exact .stored hr hne ih
  | submitted hmem hfresh _ ih => exact .submitted (hp _ hmem) hfresh ih

theorem Above.perm (hp : ∀ item, item ∈ items → item ∈ items')
    (ha : Above sha256 P ch items h) : Above sha256 P ch items' h := ha.imp id (·.perm hp)

theorem Batch.item_eq (hb : Batch sha256 P n ch items) {i j : RawHeader × Nat} (hi : i ∈ items)
    (hj : j ∈ items) (heq : i.1.hash sha256 = j.1.hash sha256) : i = j :=
  inj_on_of_nodup_map hb.distinct hi hj heq

theorem Batch.above_parent (hb : Batch sha256 P n ch items) (hmem : item ∈ items)
    (hfresh : ch.get (item.1.hash sha256) = none)
    (habove : Above sha256 P ch items (item.1.hash sha256)) :
    Above sha256 P ch items item.1.prevHash := by
  rcases habove with hzero | hd
  · exact .inl hzero
  · by_cases hzero : ch.observedCheckpoint = .zero
    · exact .inl hzero
    · refine .inr ?_
      generalize heq : item.1.hash sha256 = h at hd hfresh
      cases hd with
      | observed =>
        obtain ⟨best, hsel⟩ := hb.sound.selected
        obtain ⟨v, hv⟩ := (hsel.observed.resolve_left hzero).left_stored
        rw [hfresh] at hv
        cases hv
      | stored hr =>
        rw [hfresh] at hr
        cases hr
      | submitted hmem' _ hup =>
        cases hb.item_eq hmem hmem' heq
        exact hup

variable {done rest : List (RawHeader × Nat)}

theorem Batch.settled_parent (hb : Batch sha256 P n ch items) (hh : Settled sha256 P ch items h)
    (hsplit : items = done ++ rest) (hr : (submitAll sha256 P done ch).get h = some r)
    (hroot : h ≠ P.cp.hash) : Settled sha256 P ch items r.prevHash := by
  subst hsplit
  rcases hb.take.source hr with hr | ⟨hnone, i, hi, rfl, hprev⟩
  · obtain ⟨p, hp, -⟩ := hb.sound.tree.rooted.linked h r hr hroot
    exact .inl ⟨p, hp⟩
  · rw [hprev]
    refine .inr (hb.above_parent (mem_append_left _ hi) hnone (hh.resolve_left ?_))
    rintro ⟨v, hv⟩
    rw [hnone] at hv
    cases hv

theorem Descends.isAncestor (hb : Batch sha256 P n ch items) (hsplit : items = done ++ rest)
    (hd : Descends sha256 P ch items h) (hr : (submitAll sha256 P done ch).get h = some r) :
    (submitAll sha256 P done ch).IsAncestor P ch.observedCheckpoint h := by
  subst hsplit
  have htree := hb.take.sound_all.tree
  induction hd generalizing r with
  | observed => exact .refl hr
  | stored hr' hne _ ih =>
    have hkept := hb.take.grows.1 _ _ hr'
    obtain ⟨p, hp, -⟩ := htree.rooted.linked _ _ hkept hne
    exact .step hkept hne (ih hp)
  | @submitted item hmem hfresh _ ih =>
    rcases hb.take.source hr with hr' | ⟨-, i, hi, hhash, hprev⟩
    · rw [hfresh] at hr'
      cases hr'
    · cases hb.item_eq hmem (mem_append_left _ hi) hhash.symm
      have hne : item.1.hash sha256 ≠ P.cp.hash := by
        intro heq
        rw [heq, hb.sound.tree.root] at hfresh
        cases hfresh
      obtain ⟨p, hp, -⟩ := htree.rooted.linked _ _ hr hne
      refine .step hr hne ?_
      rw [hprev] at hp ⊢
      exact ih hp

/-! ## One order against another -/

theorem descendsFrom_child {a : Hash256}
    (ht' : Tree P (ch.store (raw.hash sha256) (childRecord sha256 raw parent)))
    (hfresh : ch.get (raw.hash sha256) = none) (ht : Tree P ch)
    (hanc : ch.IsAncestor P a raw.prevHash) :
    (ch.store (raw.hash sha256) (childRecord sha256 raw parent)).descendsFrom (raw.hash sha256) a =
      true := by
  have hself := get_store_self ch (raw.hash sha256) (childRecord sha256 raw parent)
  have hsub : ∀ h v, ch.get h = some v →
      (ch.store (raw.hash sha256) (childRecord sha256 raw parent)).get h = some v :=
    fun h v => get_store_of_get hfresh
  refine (descendsFrom_iff ht').mpr (.step hself ?_ (hanc.grown hsub))
  intro heq
  rw [heq, ht.root] at hfresh
  cases hfresh

theorem Batch.turn (hfirst : ParentsFirst sha256 items) (hsplit : items = done ++ item :: rest)
    (hb : Batch sha256 P n ch items) (hfresh : ch.get (item.1.hash sha256) = none) :
    (submitAll sha256 P done ch).get (item.1.hash sha256) = none ∧
      ∀ parent, (submitAll sha256 P items ch).get item.1.prevHash = some parent →
        (submitAll sha256 P done ch).get item.1.prevHash = some parent := by
  subst hsplit
  obtain ⟨best, hsel⟩ := hb.drop.sound.selected
  have hnone : (submitAll sha256 P done ch).get (item.1.hash sha256) = none := by
    rw [hb.take.get_of_notMem, hfresh]
    intro i hi heq
    have hdistinct := hb.distinct
    rw [map_append, nodup_append] at hdistinct
    exact hdistinct.2.2 _ (mem_map.mpr ⟨i, hi, rfl⟩) _
      (mem_map.mpr ⟨item, mem_cons_self, rfl⟩) heq
  refine ⟨hnone, fun parent hparent => ?_⟩
  have hlater : ∀ i ∈ rest, i.1.hash sha256 ≠ item.1.prevHash :=
    (pairwise_cons.mp (pairwise_append.mp hfirst).2.1).1
  rw [submitAll_append] at hparent
  have hturn := (hb.drop.tail.get_of_notMem hlater).symm.trans hparent
  rcases submitHeader_source sha256 P item.1 item.2 hsel.tip hturn with hp | ⟨hno, -, p, hp, -⟩
  · exact hp
  · rw [hno] at hp
    cases hp

section
variable (hb : Batch sha256 P n ch items)
include hb

theorem Batch.accepts (hfirst : ParentsFirst sha256 items) (hmem : item ∈ items)
    (hfresh : ch.get (item.1.hash sha256) = none)
    (habove : Above sha256 P ch items (item.1.hash sha256))
    (hparent : (submitAll sha256 P items ch).get item.1.prevHash = some parent)
    (hvalid : (submitAll sha256 P items ch).validChild sha256 P item.1 item.2 parent) :
    (submitAll sha256 P items ch).get (item.1.hash sha256) =
      some (childRecord sha256 item.1 parent) := by
  obtain ⟨done, rest, hsplit⟩ := append_of_mem hmem
  obtain ⟨hnone, hthere⟩ := Batch.turn hfirst hsplit hb hfresh
  have hp := hthere parent hparent
  have hup := hb.above_parent hmem hfresh habove
  have hdone : Batch sha256 P n ch done := (hsplit ▸ hb).take
  have hrest : Batch sha256 P (n + done.length) (submitAll sha256 P done ch) (item :: rest) :=
    (hsplit ▸ hb).drop
  have hall : submitAll sha256 P items ch = submitAll sha256 P rest
      ((submitAll sha256 P done ch).submitHeader sha256 P item.1 item.2).2 := by
    rw [hsplit, submitAll_append]
    rfl
  have hnow : (submitAll sha256 P done ch).validChild sha256 P item.1 item.2 parent := by
    have hsub := hrest.grows.1
    have hpart : SharedPart P (fun _ => True) (submitAll sha256 P done ch)
        (submitAll sha256 P items ch) := by
      refine ⟨fun _ _ _ _ _ => trivial, fun h r _ hr => ?_⟩
      rw [hsplit, submitAll_append]
      exact hsub h r hr
    rw [hpart.validChild_eq hdone.sound_all hb.sound_all trivial hp]
    exact hvalid
  rw [hall]
  obtain ⟨best, hsel⟩ := hrest.sound.selected
  have hcases := submitHeader_cases sha256 P item.1 item.2 hsel.tip
  have hkept := hrest.tail.grows.1
  generalize (submitAll sha256 P done ch).submitHeader sha256 P item.1 item.2 = out at hcases hkept
  cases hcases with
  | known h => exact absurd (hnone.symm.trans h) (by simp)
  | orphan _ h => exact absurd (h.symm.trans hp) (by simp)
  | invalid _ h hno =>
    cases hp.symm.trans h
    rw [hnow] at hno
    cases hno
  | rewriting _ h _ _ hobs hdesc =>
    -- The parent descends from the checkpoint, so the header does.
    cases hp.symm.trans h
    rw [hdone.grows.2] at hobs hdesc
    have hanc := (hup.resolve_left hobs).isAncestor hb hsplit hp
    have hheights := hb.heights
    rw [hsplit, length_append, length_cons] at hheights
    have hfields := hdone.sound_all.store_fields hnone hp (by omega) (hb.nonzero item hmem)
    rw [descendsFrom_child hfields.1 hnone hdone.sound_all.tree hanc] at hdesc
    cases hdesc
  | side _ h =>
    cases hp.symm.trans h
    exact hkept _ _ (get_store_self ..)
  | selected _ h =>
    cases hp.symm.trans h
    refine hkept _ _ ?_
    rw [selectTip_get]
    exact get_store_self ..

/-- What one order has settled so far the other order has in the end. -/
theorem Batch.settled_agree (hp : items.Perm items') (hfirst' : ParentsFirst sha256 items') :
    ∀ rest, items = done ++ rest → ∀ h r, Settled sha256 P ch items h →
      (submitAll sha256 P done ch).get h = some r →
      (submitAll sha256 P items' ch).get h = some r := by
  have hb' := hb.perm hp
  induction done using List.reverseRecOn with
  | nil => exact fun _ _ h r _ hr => hb'.grows.1 h r hr
  | append_singleton done item ih =>
    intro rest hsplit h r hh hr
    have hsplit' : items = done ++ item :: rest := by simpa using hsplit
    have ih := ih (item :: rest) hsplit'
    have hdone : Batch sha256 P n ch done := (hsplit' ▸ hb).take
    obtain ⟨best, hsel⟩ := hdone.sound_all.selected
    rw [submitAll_append] at hr
    rcases submitHeader_source sha256 P item.1 item.2 hsel.tip hr with
      hr | ⟨hnone, rfl, parent, hparent, hvalid, rfl⟩
    · exact ih h r hh hr
    · have hmem : item ∈ items := by rw [hsplit']; simp
      have hfresh : ch.get (item.1.hash sha256) = none := by
        by_contra hsome
        obtain ⟨v, hv⟩ := Option.ne_none_iff_exists'.mp hsome
        rw [hdone.grows.1 _ _ hv] at hnone
        cases hnone
      have habove : Above sha256 P ch items (item.1.hash sha256) := hh.resolve_left fun ⟨v, hv⟩ => by
        rw [hfresh] at hv
        cases hv
      have hup : Settled sha256 P ch items item.1.prevHash :=
        .inr (hb.above_parent hmem hfresh habove)
      have hpart : SharedPart P (Settled sha256 P ch items) (submitAll sha256 P done ch)
          (submitAll sha256 P items' ch) :=
        ⟨fun h r hh hr hroot => hb.settled_parent hh hsplit' hr hroot, ih⟩
      refine hb'.accepts hfirst' (hp.mem_iff.mp hmem) hfresh ?_ (ih _ _ hup hparent) ?_
      · exact habove.imp id (·.perm fun i => hp.mem_iff.mp)
      · rw [← hpart.validChild_eq hdone.sound_all hb'.sound_all hup hparent]
        exact hvalid

theorem Batch.settled_get_eq (hp : items.Perm items') (hfirst : ParentsFirst sha256 items)
    (hfirst' : ParentsFirst sha256 items') (hh : Settled sha256 P ch items h) :
    (submitAll sha256 P items ch).get h = (submitAll sha256 P items' ch).get h := by
  have hh' : Settled sha256 P ch items' h := hh.imp id (·.perm fun _ => hp.mem_iff.mp)
  refine Option.ext fun r => ⟨fun hr => ?_, fun hr => ?_⟩
  · exact hb.settled_agree hp hfirst' [] (by simp) h r hh hr
  · exact (hb.perm hp).settled_agree hp.symm hfirst [] (by simp) h r hh' hr

theorem Batch.tip_above : Above sha256 P ch items (submitAll sha256 P items ch).bestTip := by
  obtain ⟨best, hsel⟩ := hb.sound_all.selected
  have hobs := hsel.observed
  rw [hb.grows.2] at hobs
  rcases hobs with hzero | hanc
  · exact .inl hzero
  · refine .inr ?_
    generalize (submitAll sha256 P items ch).bestTip = tip at hanc
    induction hanc with
    | refl => exact .observed
    | step hr hne _ ih =>
      rcases hb.source hr with hr | ⟨hnone, i, hi, rfl, hprev⟩
      · exact .stored hr hne ih
      · rw [hprev] at ih
        exact .submitted hi hnone ih

theorem Batch.tip_work_le (hp : items.Perm items') (hfirst : ParentsFirst sha256 items)
    (hfirst' : ParentsFirst sha256 items') {best best' : BtcHeaderRecord}
    (hsel : Selected P (submitAll sha256 P items ch) best)
    (hsel' : Selected P (submitAll sha256 P items' ch) best') :
    best.chainWork ≤ best'.chainWork := by
  have htip := hsel.tip
  rw [hb.settled_get_eq hp hfirst hfirst' (.inr hb.tip_above)] at htip
  exact hsel'.greatest _ _ htip

end

/-- Two orders of a set of headers with parents before children: the headers stored at the start and
those above the observed checkpoint, all while there is none, get the same answer and the same
record; the tips are above the checkpoint and of equal work, and are one tip if no two stored
headers tie. -/
theorem submission_order_irrelevant {snaps : List StateSnapshot}
    (hrun : Run sha256 P ch snaps n) (hp : items.Perm items')
    (hheights : P.cp.height + n + items.length < 2 ^ 32)
    (hnonzero : ∀ item ∈ items, item.1.hash sha256 ≠ .zero)
    (hdistinct : (items.map fun item => item.1.hash sha256).Nodup)
    (hfirst : ParentsFirst sha256 items) (hfirst' : ParentsFirst sha256 items') :
    (∀ item b, Settled sha256 P ch items (item.1.hash sha256) →
        ((item, b) ∈ verdicts sha256 P items ch ↔ (item, b) ∈ verdicts sha256 P items' ch)) ∧
      (∀ h, Settled sha256 P ch items h →
        (submitAll sha256 P items ch).get h = (submitAll sha256 P items' ch).get h) ∧
      (∃ best best', (submitAll sha256 P items ch).get (submitAll sha256 P items ch).bestTip =
          some best ∧
        (submitAll sha256 P items' ch).get (submitAll sha256 P items' ch).bestTip = some best' ∧
        best.chainWork = best'.chainWork) ∧
      (Above sha256 P ch items (submitAll sha256 P items ch).bestTip ∧
        Above sha256 P ch items (submitAll sha256 P items' ch).bestTip) ∧
      ((∀ h h' r r', (submitAll sha256 P items ch).get h = some r →
          (submitAll sha256 P items ch).get h' = some r' → r.chainWork = r'.chainWork → h = h') →
        (submitAll sha256 P items ch).bestTip = (submitAll sha256 P items' ch).bestTip) := by
  have hsound := (hrun.sound (by omega)).1
  have hb : Batch sha256 P n ch items := ⟨hsound, hheights, hnonzero, hdistinct⟩
  have hb' := hb.perm hp
  obtain ⟨best, hsel⟩ := hb.sound_all.selected
  obtain ⟨best', hsel'⟩ := hb'.sound_all.selected
  have hwork : best.chainWork = best'.chainWork :=
    le_antisymm (hb.tip_work_le hp hfirst hfirst' hsel hsel')
      (hb'.tip_work_le hp.symm hfirst' hfirst hsel' hsel)
  refine ⟨fun item b hset => ?_, fun h hset => hb.settled_get_eq hp hfirst hfirst' hset,
    ⟨best, best', hsel.tip, hsel'.tip, hwork⟩, ⟨hb.tip_above, hb'.tip_above.perm fun _ => hp.mem_iff.mpr⟩,
    fun hties => ?_⟩
  · rw [hb.mem_verdicts_iff, hb'.mem_verdicts_iff, hp.mem_iff,
      hb.settled_get_eq hp hfirst hfirst' hset]
  · have htip' := hsel'.tip
    rw [hb'.settled_get_eq hp.symm hfirst' hfirst (.inr hb'.tip_above)] at htip'
    exact hties _ _ best best' hsel.tip htip' hwork

/-! ## A branch beside the checkpoint -/

def sampleSide : RawHeader := sampleHeader 3 ChainParams.sample.cp.hash

/-- `sampleMain` stored and observed, `sampleSide` stored beside it. -/
def sampleForked : BtcHeaderChain :=
  let stored := (ChainParams.sample.init.submitHeader leadingBytes .sample sampleMain 0).2
  let observed := (stored.promoteObservedCheckpoint (sampleMain.hash leadingBytes)).2
  (observed.submitHeader leadingBytes .sample sampleSide 0).2

theorem sampleForked_run : Run leadingBytes .sample sampleForked [] 2 :=
  .submit sampleSide 0 (.promote _ (.submit sampleMain 0 .init (by decide +kernel)))
    (by decide +kernel)

/-- One header on each branch. -/
def sampleTips : List (RawHeader × Nat) :=
  [(sampleHeader 4 (sampleSide.hash leadingBytes), 0),
    (sampleHeader 5 (sampleMain.hash leadingBytes), 0)]

/-- The header beside the checkpoint is refused when it comes first and stored when it comes
second. -/
theorem side_branch_order_matters :
    Run leadingBytes .sample sampleForked [] 2 ∧
      ParentsFirst leadingBytes sampleTips ∧ ParentsFirst leadingBytes sampleTips.reverse ∧
      (sampleTips.map fun item => item.1.hash leadingBytes).Nodup ∧
      (verdicts leadingBytes .sample sampleTips sampleForked).map Prod.snd = [false, true] ∧
      (verdicts leadingBytes .sample sampleTips.reverse sampleForked).map Prod.snd =
        [true, true] := by
  refine ⟨sampleForked_run, ?_, ?_, ?_, ?_, ?_⟩
  · unfold ParentsFirst
    decide +kernel
  · unfold ParentsFirst
    decide +kernel
  · decide +kernel
  · decide +kernel
  · decide +kernel

theorem submission_order_irrelevant_forked :
    ∃ best best', (submitAll leadingBytes .sample sampleTips sampleForked).get
        (submitAll leadingBytes .sample sampleTips sampleForked).bestTip = some best ∧
      (submitAll leadingBytes .sample sampleTips.reverse sampleForked).get
        (submitAll leadingBytes .sample sampleTips.reverse sampleForked).bestTip = some best' ∧
      best.chainWork = best'.chainWork ∧
      Above leadingBytes .sample sampleForked sampleTips
        (submitAll leadingBytes .sample sampleTips sampleForked).bestTip := by
  have hfirst : ParentsFirst leadingBytes sampleTips := by
    unfold ParentsFirst
    decide +kernel
  have hfirst' : ParentsFirst leadingBytes sampleTips.reverse := by
    unfold ParentsFirst
    decide +kernel
  obtain ⟨-, -, ⟨best, best', htip, htip', hwork⟩, ⟨habove, -⟩, -⟩ := submission_order_irrelevant
    sampleForked_run (reverse_perm _).symm (by decide) (by decide +kernel) (by decide +kernel) hfirst hfirst'
  exact ⟨best, best', htip, htip', hwork, habove⟩

end Veld.Btcspv
