import Veld.Core.HeaderSubmission
import Veld.Lib.ParentTree
import Veld.Lib.Table

/-!
# The header tree

What a chain of headers keeps through every operation: the stored headers are a tree over the
checkpoint with heights and work added up along the links, the selected tip has the most work, the
index is the path to the tip and the observed checkpoint is on it.
-/

namespace Veld.Btcspv

open Wire ParentTree

namespace BtcHeaderChain

/-- `a` is `h` or an ancestor of it, down to the checkpoint. -/
abbrev IsAncestor (P : ChainParams) (ch : BtcHeaderChain) (a h : Hash256) : Prop :=
  Ancestor ch.get BtcHeaderRecord.prevHash P.cp.hash a h

variable {sha256 : Bytes → Hash256} {P : ChainParams} {ch : BtcHeaderChain} {raw : RawHeader}
  {veldBlockTime : Nat}

/-! ## Writes of the store -/

theorem get_store_self (ch : BtcHeaderChain) (bh : Hash256) (r : BtcHeaderRecord) :
    (ch.store bh r).get bh = some r := AList.lookup_insert _

theorem get_store_ne {bh h : Hash256} (r : BtcHeaderRecord) (hne : h ≠ bh) :
    (ch.store bh r).get h = ch.get h := AList.lookup_insert_ne hne

theorem get_store_of_get {bh h : Hash256} {r r' : BtcHeaderRecord} (hfresh : ch.get bh = none)
    (h' : ch.get h = some r') : (ch.store bh r).get h = some r' := by
  rw [get_store_ne, h']
  rintro rfl
  rw [hfresh] at h'
  cases h'

variable {r : BtcHeaderRecord} {bh : Hash256}

theorem unstore_store (hfresh : ch.get bh = none) : (ch.store bh r).unstore bh = ch := by
  unfold store unstore
  rw [Table.erase_insert hfresh]

/-! ## What a submission does -/

/-- The outcomes of `submitHeader` on a chain whose tip is stored as `best`. -/
inductive Submission (sha256 : Bytes → Hash256) (P : ChainParams) (ch : BtcHeaderChain)
    (raw : RawHeader) (veldBlockTime : Nat) (best : BtcHeaderRecord) :
    Bool × BtcHeaderChain → Prop
  | known {r : BtcHeaderRecord} : ch.get (raw.hash sha256) = some r →
      Submission sha256 P ch raw veldBlockTime best (true, ch)
  | orphan : ch.get (raw.hash sha256) = none → ch.get raw.prevHash = none →
      Submission sha256 P ch raw veldBlockTime best (false, ch)
  | invalid {parent : BtcHeaderRecord} : ch.get (raw.hash sha256) = none →
      ch.get raw.prevHash = some parent →
      ch.validChild sha256 P raw veldBlockTime parent = false →
      Submission sha256 P ch raw veldBlockTime best (false, ch)
  /-- A heavier branch that would rewrite the observed checkpoint. -/
  | rewriting {parent : BtcHeaderRecord} : ch.get (raw.hash sha256) = none →
      ch.get raw.prevHash = some parent →
      ch.validChild sha256 P raw veldBlockTime parent →
      best.chainWork < (childRecord sha256 raw parent).chainWork →
      ch.observedCheckpoint ≠ .zero →
      (ch.store (raw.hash sha256) (childRecord sha256 raw parent)).descendsFrom (raw.hash sha256)
        ch.observedCheckpoint = false →
      Submission sha256 P ch raw veldBlockTime best (false, ch)
  | side {parent : BtcHeaderRecord} : ch.get (raw.hash sha256) = none →
      ch.get raw.prevHash = some parent →
      ch.validChild sha256 P raw veldBlockTime parent →
      (childRecord sha256 raw parent).chainWork ≤ best.chainWork →
      Submission sha256 P ch raw veldBlockTime best
        (true, ch.store (raw.hash sha256) (childRecord sha256 raw parent))
  | selected {parent : BtcHeaderRecord} : ch.get (raw.hash sha256) = none →
      ch.get raw.prevHash = some parent →
      ch.validChild sha256 P raw veldBlockTime parent →
      best.chainWork < (childRecord sha256 raw parent).chainWork →
      (ch.observedCheckpoint ≠ .zero →
        (ch.store (raw.hash sha256) (childRecord sha256 raw parent)).descendsFrom (raw.hash sha256)
          ch.observedCheckpoint = true) →
      Submission sha256 P ch raw veldBlockTime best
        (true, (ch.store (raw.hash sha256) (childRecord sha256 raw parent)).selectTip P
          (raw.hash sha256) (childRecord sha256 raw parent) best)

variable {best : BtcHeaderRecord}

variable (sha256 P raw veldBlockTime) in
theorem submitHeader_cases (htip : ch.get ch.bestTip = some best) :
    Submission sha256 P ch raw veldBlockTime best
      (ch.submitHeader sha256 P raw veldBlockTime) := by
  unfold submitHeader
  cases hknown : ch.get (raw.hash sha256) with
  | some r => simpa [hknown] using Submission.known hknown
  | none =>
    cases hparent : ch.get raw.prevHash with
    | none => simpa [hknown] using Submission.orphan hknown hparent
    | some parent =>
      simp only [hknown, Option.isSome_none, Bool.false_eq_true, if_false,
        get_store_of_get hknown htip, unstore_store hknown]
      cases hvalid : ch.validChild sha256 P raw veldBlockTime parent with
      | false => simpa using Submission.invalid hknown hparent hvalid
      | true =>
        rw [if_pos rfl]
        split
        · rename_i hheavier
          split
          · rename_i hrewrites
            exact .rewriting hknown hparent hvalid hheavier hrewrites.1 hrewrites.2
          · rename_i hkeeps
            refine .selected hknown hparent hvalid hheavier fun hobserved => ?_
            exact Bool.of_not_eq_false fun hdesc => hkeeps ⟨hobserved, hdesc⟩
        · rename_i hlighter
          exact .side hknown hparent hvalid (Nat.le_of_not_lt hlighter)

/-! ## The tree -/

/-- The stored headers as a tree over the checkpoint. -/
structure Tree (P : ChainParams) (ch : BtcHeaderChain) : Prop where
  rooted : Rooted ch.get BtcHeaderRecord.prevHash BtcHeaderRecord.height P.cp.hash
  root : ch.get P.cp.hash = some P.cp.record
  works : ∀ h r p, ch.get h = some r → h ≠ P.cp.hash → ch.get r.prevHash = some p →
    r.chainWork = (p.chainWork + headerWork r.bits) % 2 ^ 256
  named : ∀ h r, ch.get h = some r → r.blockHash = h
  cpHeight : ch.cpHeight = P.cp.height

theorem Tree.init (P : ChainParams) : Tree P P.init := by
  have hroot : P.init.get P.cp.hash = some P.cp.record := AList.lookup_insert _
  have honly : ∀ h r, P.init.get h = some r → h = P.cp.hash := by
    intro h r hr
    by_contra hne
    have : P.init.get h = none := AList.lookup_insert_ne hne
    rw [this] at hr
    cases hr
  refine ⟨⟨⟨_, hroot⟩, fun h r hr hne => absurd (honly h r hr) hne⟩, hroot,
    fun h r p hr hne => absurd (honly h r hr) hne, fun h r hr => ?_, rfl⟩
  cases honly h r hr
  cases hroot.symm.trans hr
  rfl

variable {parent : BtcHeaderRecord}

theorem Tree.store (ht : Tree P ch) (hfresh : ch.get (raw.hash sha256) = none)
    (hparent : ch.get raw.prevHash = some parent) (hheight : parent.height + 1 < 2 ^ 32) :
    Tree P (ch.store (raw.hash sha256) (childRecord sha256 raw parent)) := by
  have hold : ∀ h, h ≠ raw.hash sha256 →
      (ch.store (raw.hash sha256) (childRecord sha256 raw parent)).get h = ch.get h :=
    fun h hne => get_store_ne _ hne
  have hself := get_store_self ch (raw.hash sha256) (childRecord sha256 raw parent)
  refine ⟨ht.rooted.grow hfresh hself hold hparent (Nat.mod_eq_of_lt hheight),
    get_store_of_get hfresh ht.root, fun h r p hr hne hp => ?_, fun h r hr => ?_, ht.cpHeight⟩
  · by_cases hnew : h = raw.hash sha256
    · subst hnew
      cases hself.symm.trans hr
      cases (get_store_of_get hfresh hparent).symm.trans hp
      rfl
    · rw [hold h hnew] at hr
      obtain ⟨q, hq, -⟩ := ht.rooted.linked h r hr hne
      cases (get_store_of_get hfresh hq).symm.trans hp
      exact ht.works h r p hr hne hq
  · by_cases hnew : h = raw.hash sha256
    · subst hnew
      cases hself.symm.trans hr
      rfl
    · exact ht.named h r (by rwa [hold h hnew] at hr)

theorem Tree.congr {ch' : BtcHeaderChain} (ht : Tree P ch) (hget : ch'.get = ch.get)
    (hcp : ch'.cpHeight = ch.cpHeight) : Tree P ch' := by
  obtain ⟨hrooted, hroot, hworks, hnamed, hheight⟩ := ht
  rw [← hget] at hrooted hroot hworks hnamed
  exact ⟨hrooted, hroot, hworks, hnamed, hcp.trans hheight⟩

variable {h : Hash256}

theorem Tree.path_length_le (ht : Tree P ch) {l : List Hash256}
    (hpath : Path ch.get BtcHeaderRecord.prevHash P.cp.hash l h) :
    l.length ≤ ch.byHash.entries.length := by
  have hkeys : ∀ a v, ch.get a = some v → a ∈ ch.byHash.entries.keys :=
    fun a v ha => List.mem_keys_of_mem (Table.mem_of_lookup ha)
  exact (hpath.length_le ht.rooted hkeys).trans (by simp [List.keys])

/-! ## Walks of the tree -/

theorem rebuildFrom_eq (ht : Tree P ch) {l : List Hash256}
    (hpath : Path ch.get BtcHeaderRecord.prevHash P.cp.hash l h) (hr : ch.get h = some r) {n : Nat}
    (hn : l.length ≤ n) (above : List Hash256) :
    ch.rebuildFrom P n h r.height above = l ++ above := by
  induction hpath generalizing n above r with
  | root hroot =>
    obtain ⟨n, rfl⟩ : ∃ m, n = m + 1 := ⟨n - 1, by simp at hn; omega⟩
    cases ht.root.symm.trans hr
    simp [rebuildFrom, ht.root, BtcCheckpoint.record]
  | @snoc l h v hk hne hup ih =>
    rw [List.length_append, List.length_singleton] at hn
    obtain ⟨n, rfl⟩ : ∃ m, n = m + 1 := ⟨n - 1, by omega⟩
    obtain rfl : v = r := Option.some.inj (hk.symm.trans hr)
    obtain ⟨p, hp, hheight⟩ := ht.rooted.linked _ _ hr hne
    have hpos : v.height ≠ 0 := by omega
    rw [rebuildFrom]
    simp only [hr, ne_eq, not_true_eq_false, if_false, hne, hpos]
    rw [show v.height - 1 = p.height by omega, ih hp (by omega)]
    simp

theorem Tree.cpHeight_le (ht : Tree P ch) (hr : ch.get h = some r) : P.cp.height ≤ r.height := by
  obtain ⟨l, hl⟩ := ht.rooted.path hr
  have hlen := hl.length_eq ht.rooted ht.root hr
  have hpos : 0 < l.length := by
    cases hl with
    | root | snoc => simp
  change l.length + P.cp.height = r.height + 1 at hlen
  omega

theorem rebuildBestChainIndex_path (ht : Tree P ch) (htip : ch.get ch.bestTip = some best) :
    Path ch.get BtcHeaderRecord.prevHash P.cp.hash (ch.rebuildBestChainIndex P).bestChain
      ch.bestTip := by
  obtain ⟨l, hl⟩ := ht.rooted.path htip
  have hle := ht.path_length_le hl
  have hlow := ht.cpHeight_le htip
  simp only [rebuildBestChainIndex, htip, if_neg (Nat.not_lt.mpr hlow)]
  rw [rebuildFrom_eq ht hl htip (by omega), List.append_nil]
  exact hl

theorem descendsLoop_iff (ht : Tree P ch) {a : Hash256} {ra : BtcHeaderRecord} {n : Nat}
    (ha : ch.get a = some ra) (hr : ch.get h = some r) (hn : r.height < ra.height + n) :
    ch.descendsLoop a ra.height n h r.height ↔ ch.IsAncestor P a h := by
  induction n generalizing h r with
  | zero =>
    refine iff_of_false (by simp [descendsLoop]) fun hanc => ?_
    have := hanc.height_le ht.rooted ha hr
    omega
  | succ n ih =>
    rw [descendsLoop]
    split
    · rename_i heq
      subst heq
      exact iff_of_true rfl (.refl hr)
    · rename_i hne
      split
      · rename_i hlow
        refine iff_of_false (by simp) fun hanc => hne ?_
        have hle := hanc.height_le ht.rooted ha hr
        exact ((Ancestor.refl hr).eq_of_height ht.rooted hanc hr ha (by omega))
      · rename_i hhigh
        have hroot : h ≠ P.cp.hash := by
          rintro rfl
          cases ht.root.symm.trans hr
          exact hhigh (ht.cpHeight_le ha)
        obtain ⟨p, hp, hheight⟩ := ht.rooted.linked _ _ hr hroot
        simp only [hr]
        rw [show r.height - 1 = p.height by omega, ih hp (by omega)]
        constructor
        · exact fun hup => .step hr hroot hup
        · intro hanc
          cases hanc with
          | refl => exact absurd rfl hne
          | step hr' _ hup =>
            cases hr.symm.trans hr'
            exact hup

theorem descendsFrom_iff (ht : Tree P ch) {a : Hash256} :
    ch.descendsFrom h a ↔ ch.IsAncestor P a h := by
  unfold descendsFrom
  cases ha : ch.get a with
  | none =>
    refine iff_of_false (by simp) fun hanc => ?_
    obtain ⟨v, hv⟩ := hanc.left_stored
    rw [ha] at hv
    cases hv
  | some ra =>
    cases hr : ch.get h with
    | none =>
      refine iff_of_false (by simp) fun hanc => ?_
      cases hanc with
      | refl h' | step h' => exact absurd (hr.symm.trans h') (by simp)
    | some r =>
      obtain ⟨l, hl⟩ := ht.rooted.path hr
      have hlen := hl.length_eq ht.rooted ht.root hr
      have hle := ht.path_length_le hl
      have hlow := ht.cpHeight_le ha
      change l.length + P.cp.height = r.height + 1 at hlen
      simp only
      split
      · refine iff_of_false (by simp) fun hanc => ?_
        have := hanc.height_le ht.rooted ha hr
        omega
      · exact descendsLoop_iff ht ha hr (by omega)

/-! ## The selected chain -/

/-- The tip is stored with the most work, the index is the path to it and the observed checkpoint
is on that path. -/
structure Selected (P : ChainParams) (ch : BtcHeaderChain) (best : BtcHeaderRecord) : Prop where
  tip : ch.get ch.bestTip = some best
  greatest : ∀ h r, ch.get h = some r → r.chainWork ≤ best.chainWork
  index : Path ch.get BtcHeaderRecord.prevHash P.cp.hash ch.bestChain ch.bestTip
  observed : ch.observedCheckpoint = .zero ∨ ch.IsAncestor P ch.observedCheckpoint ch.bestTip

theorem Selected.init (P : ChainParams) : Selected P P.init P.cp.record := by
  have ht := Tree.init P
  refine ⟨ht.root, fun h r hr => ?_, .root ht.root, .inl rfl⟩
  by_cases hh : h = P.cp.hash
  · subst hh
    cases ht.root.symm.trans hr
    exact le_rfl
  · have : P.init.get h = none := AList.lookup_insert_ne hh
    rw [this] at hr
    cases hr

theorem onBestChain_iff (ht : Tree P ch)
    (hpath : Path ch.get BtcHeaderRecord.prevHash P.cp.hash ch.bestChain ch.bestTip) :
    ch.onBestChain h ↔ ch.IsAncestor P h ch.bestTip := by
  unfold onBestChain
  cases hr : ch.get h with
  | none =>
    refine iff_of_false (by simp) fun hanc => ?_
    obtain ⟨v, hv⟩ := hanc.left_stored
    rw [hr] at hv
    cases hv
  | some r =>
    refine Iff.trans ?_ (hpath.getElem?_iff ht.rooted ht.root hr)
    simp [ht.cpHeight, BtcCheckpoint.record]

theorem Selected.store (hs : Selected P ch best) (hfresh : ch.get bh = none)
    (hwork : r.chainWork ≤ best.chainWork) : Selected P (ch.store bh r) best := by
  have hsub : ∀ h v, ch.get h = some v → (ch.store bh r).get h = some v :=
    fun h v => get_store_of_get hfresh
  refine ⟨hsub _ _ hs.tip, fun h v hv => ?_, hs.index.grown hsub, hs.observed.imp id (·.grown hsub)⟩
  by_cases hh : h = bh
  · subst hh
    cases (get_store_self ch h r).symm.trans hv
    exact hwork
  · rw [get_store_ne r hh] at hv
    exact hs.greatest h v hv

section
variable (P ch) (bh : Hash256) (r old : BtcHeaderRecord)

@[simp] theorem selectTip_get : (ch.selectTip P bh r old).get = ch.get := by
  unfold selectTip
  dsimp only
  split <;> rfl

@[simp] theorem selectTip_bestTip : (ch.selectTip P bh r old).bestTip = bh := by
  unfold selectTip
  dsimp only
  split <;> rfl

@[simp] theorem selectTip_observed :
    (ch.selectTip P bh r old).observedCheckpoint = ch.observedCheckpoint := by
  unfold selectTip
  dsimp only
  split <;> rfl

@[simp] theorem selectTip_cpHeight : (ch.selectTip P bh r old).cpHeight = ch.cpHeight := by
  unfold selectTip
  dsimp only
  split <;> rfl

end

theorem selectTip_path (ht : Tree P ch) (old : BtcHeaderRecord) (hr : ch.get bh = some r)
    (hne : bh ≠ P.cp.hash)
    (hpath : Path ch.get BtcHeaderRecord.prevHash P.cp.hash ch.bestChain ch.bestTip) :
    Path ch.get BtcHeaderRecord.prevHash P.cp.hash (ch.selectTip P bh r old).bestChain bh := by
  unfold selectTip
  dsimp only
  split
  · rename_i hextends
    exact .snoc hr hne (by rwa [hextends.1])
  · have ht' : Tree P { ch with bestTip := bh } := ht.congr rfl rfl
    exact rebuildBestChainIndex_path ht' hr

theorem Selected.selectTip (hs : Selected P ch best) (ht : Tree P (ch.store bh r))
    (hfresh : ch.get bh = none) (hne : bh ≠ P.cp.hash) (hwork : best.chainWork < r.chainWork)
    (hobserved : ch.observedCheckpoint ≠ .zero →
      (ch.store bh r).descendsFrom bh ch.observedCheckpoint = true) :
    Selected P ((ch.store bh r).selectTip P bh r best) r := by
  have hself := get_store_self ch bh r
  have hpath := selectTip_path ht best hself hne
    (hs.index.grown fun h v => get_store_of_get hfresh)
  refine ⟨?_, fun h v hv => ?_, ?_, ?_⟩
  · rw [selectTip_bestTip, selectTip_get]
    exact hself
  · rw [selectTip_get] at hv
    by_cases hh : h = bh
    · subst hh
      cases hself.symm.trans hv
      exact le_rfl
    · rw [get_store_ne r hh] at hv
      exact (hs.greatest h v hv).trans hwork.le
  · rw [selectTip_bestTip, selectTip_get]
    exact hpath
  · rw [IsAncestor, selectTip_observed, selectTip_bestTip, selectTip_get]
    by_cases hzero : ch.observedCheckpoint = .zero
    · exact .inl hzero
    · exact .inr ((descendsFrom_iff ht).mp (hobserved hzero))

/-! ## What every operation keeps -/

/-- The invariant of a chain after at most `n` submissions. -/
structure Sound (P : ChainParams) (n : Nat) (ch : BtcHeaderChain) : Prop where
  tree : Tree P ch
  selected : ∃ best, Selected P ch best
  bounded : ∀ h r, ch.get h = some r → r.height ≤ P.cp.height + n
  /-- The zero hash, which stands for no checkpoint, is not that of a submitted header. -/
  noZero : ∀ r, ch.get Hash256.zero = some r → P.cp.hash = .zero

variable {n m : Nat}

theorem Sound.init (P : ChainParams) : Sound P 0 P.init := by
  have ht := Tree.init P
  have honly : ∀ h r, P.init.get h = some r → h = P.cp.hash := by
    intro h r hr
    by_contra hne
    have : P.init.get h = none := AList.lookup_insert_ne hne
    rw [this] at hr
    cases hr
  refine ⟨ht, ⟨_, Selected.init P⟩, fun h r hr => ?_, fun r hr => (honly _ r hr).symm⟩
  cases honly h r hr
  cases ht.root.symm.trans hr
  exact le_rfl

theorem Sound.mono (hs : Sound P n ch) (hle : n ≤ m) : Sound P m ch :=
  ⟨hs.tree, hs.selected, fun h r hr => (hs.bounded h r hr).trans (by omega), hs.noZero⟩

theorem Sound.store_fields (hs : Sound P n ch) (hfresh : ch.get (raw.hash sha256) = none)
    (hparent : ch.get raw.prevHash = some parent) (hheight : P.cp.height + (n + 1) < 2 ^ 32)
    (hhash : raw.hash sha256 ≠ .zero) :
    Tree P (ch.store (raw.hash sha256) (childRecord sha256 raw parent)) ∧
      (∀ h r, (ch.store (raw.hash sha256) (childRecord sha256 raw parent)).get h = some r →
        r.height ≤ P.cp.height + (n + 1)) ∧
      ∀ r, (ch.store (raw.hash sha256) (childRecord sha256 raw parent)).get Hash256.zero = some r →
        P.cp.hash = .zero := by
  have hbound := hs.bounded _ _ hparent
  refine ⟨hs.tree.store hfresh hparent (by omega), fun h r hr => ?_, fun r hr => ?_⟩
  · by_cases hh : h = raw.hash sha256
    · subst hh
      cases (get_store_self ch _ _).symm.trans hr
      exact (Nat.mod_le _ _).trans (by omega)
    · rw [get_store_ne _ hh] at hr
      exact (hs.bounded h r hr).trans (by omega)
  · rw [get_store_ne _ hhash.symm] at hr
    exact hs.noZero r hr

theorem Sound.submit (hs : Sound P n ch) (hheight : P.cp.height + (n + 1) < 2 ^ 32)
    (hhash : raw.hash sha256 ≠ .zero) :
    Sound P (n + 1) (ch.submitHeader sha256 P raw veldBlockTime).2 := by
  obtain ⟨best, hsel⟩ := hs.selected
  have hsame := hs.mono (Nat.le_succ n)
  have hcases := submitHeader_cases sha256 P raw veldBlockTime hsel.tip
  generalize ch.submitHeader sha256 P raw veldBlockTime = out at hcases
  cases hcases with
  | known | orphan | invalid | rewriting => exact hsame
  | side hfresh hparent hvalid hwork =>
    obtain ⟨ht, hb, hz⟩ := hs.store_fields hfresh hparent hheight hhash
    exact ⟨ht, ⟨best, hsel.store hfresh hwork⟩, hb, hz⟩
  | @selected parent hfresh hparent hvalid hwork hobserved =>
    obtain ⟨ht, hb, hz⟩ := hs.store_fields hfresh hparent hheight hhash
    have hne : raw.hash sha256 ≠ P.cp.hash := by
      intro heq
      rw [heq, hs.tree.root] at hfresh
      cases hfresh
    refine ⟨ht.congr (selectTip_get ..) (selectTip_cpHeight ..),
      ⟨_, hsel.selectTip ht hfresh hne hwork hobserved⟩, ?_, ?_⟩
    · rw [selectTip_get]
      exact hb
    · rw [selectTip_get]
      exact hz

theorem promoteObservedCheckpoint_cases (ch : BtcHeaderChain) (h : Hash256) :
    (ch.promoteObservedCheckpoint h).2 = ch ∨
      (ch.promoteObservedCheckpoint h).2 = { ch with observedCheckpoint := h } ∧
        ch.onBestChain h ∧ ch.observedCheckpoint ≠ h ∧
        (ch.observedCheckpoint = .zero ∨
          ∃ prior candidate, ch.get ch.observedCheckpoint = some prior ∧
            ch.get h = some candidate ∧ ch.onBestChain ch.observedCheckpoint ∧
            prior.height < candidate.height) := by
  unfold promoteObservedCheckpoint
  cases hcand : ch.get h with
  | none => exact .inl rfl
  | some candidate =>
    dsimp only
    split
    · exact .inl rfl
    · rename_i hon
      have hon := Bool.of_not_eq_false hon
      split
      · exact .inl rfl
      · rename_i hother
        split
        · rename_i hzero
          exact .inr ⟨rfl, hon, hother, .inl hzero⟩
        · cases hprior : ch.get ch.observedCheckpoint with
          | none => exact .inl rfl
          | some prior =>
            dsimp only
            split
            · exact .inl rfl
            · rename_i hpriorOn
              split
              · exact .inl rfl
              · rename_i hhigher
                exact .inr ⟨rfl, hon, hother, .inr ⟨prior, candidate, rfl, rfl,
                  Bool.of_not_eq_false hpriorOn, Nat.lt_of_not_le hhigher⟩⟩

theorem Sound.promote (hs : Sound P n ch) (h : Hash256) :
    Sound P n (ch.promoteObservedCheckpoint h).2 := by
  obtain ⟨best, hsel⟩ := hs.selected
  rcases promoteObservedCheckpoint_cases ch h with heq | ⟨heq, hon, -, -⟩
  · rw [heq]
    exact hs
  · rw [heq]
    exact ⟨hs.tree.congr rfl rfl, ⟨best, hsel.tip, hsel.greatest, hsel.index,
      .inr ((onBestChain_iff hs.tree hsel.index).mp hon)⟩, hs.bounded, hs.noZero⟩

/-- Restoring what was taken from a sound chain does not throw, and gives a sound chain back. -/
theorem Sound.restore {taken : BtcHeaderChain} (hs : Sound P n taken)
    (hcp : ch.cpHeight = P.cp.height) :
    (ch.restoreState P taken.snapshotState).1 ∧
      Sound P n (ch.restoreState P taken.snapshotState).2 ∧
      (ch.restoreState P taken.snapshotState).2.snapshotState = taken.snapshotState := by
  obtain ⟨best, hsel⟩ := hs.selected
  have ht : Tree P (ch.restoreState P taken.snapshotState).2 :=
    hs.tree.congr rfl (hcp.trans hs.tree.cpHeight.symm)
  have hindex : Path (ch.restoreState P taken.snapshotState).2.get BtcHeaderRecord.prevHash
      P.cp.hash (ch.restoreState P taken.snapshotState).2.bestChain taken.bestTip := by
    have ht' : Tree P { ch with
        byHash := taken.byHash, bestTip := taken.bestTip,
        observedCheckpoint := taken.observedCheckpoint } :=
      hs.tree.congr rfl (hcp.trans hs.tree.cpHeight.symm)
    exact rebuildBestChainIndex_path ht' hsel.tip
  refine ⟨?_, ⟨ht, ⟨best, hsel.tip, hsel.greatest, hindex, hsel.observed⟩, hs.bounded, hs.noZero⟩,
    rfl⟩
  rcases hsel.observed with hzero | hanc
  · simp [restoreState, snapshotState, hzero]
  · obtain ⟨v, hv⟩ := hanc.left_stored
    have hon := (onBestChain_iff ht hindex).mpr hanc
    have hget : (ch.restoreState P taken.snapshotState).2.get taken.observedCheckpoint = some v := hv
    simp only [restoreState, snapshotState] at hon hget ⊢
    simp [hon, hget]

end BtcHeaderChain

end Veld.Btcspv
