import Veld.Consensus.AnchorSet

/-!
# Steps of the anchor set

What staging, promotion and retirement do to the two tables, to the set of used transactions and to the
permanent checkpoint.
-/

namespace Veld.Anchors

open Wire Finality List Table

/-- The target has the entry, staged or promoted. -/
def AnchorSet.HasEntry (s : AnchorSet) (target : Nat) (e : Entry) : Prop :=
  s.pending.lookup target = some e ∨ s.anchored.lookup target = some e

structure Tidy (s : AnchorSet) : Prop where
  apart : ∀ t, (s.pending.lookup t).isSome → s.anchored.lookup t = none
  used : ∀ x, x ∈ s.used ↔ ∃ t e, s.HasEntry t e ∧ e.btcTxid = x
  inj : ∀ {t t' e e'}, s.HasEntry t e → s.HasEntry t' e' → e.btcTxid = e'.btcTxid → t = t'

theorem Tidy.empty : Tidy .empty where
  apart _ h := by cases h
  used x := ⟨fun h => absurd h (Finset.notMem_empty x), fun ⟨_, _, h, _⟩ => by rcases h with h | h <;> cases h⟩
  inj h := by rcases h with h | h <;> cases h

section
variable {s s' : AnchorSet} {t : Nat} {e : Entry}

theorem Tidy.unique (h : Tidy s) {e' : Entry} (he : s.HasEntry t e) (he' : s.HasEntry t e') : e = e' := by
  rcases he with he | he <;> rcases he' with he' | he'
  · exact Option.some.inj (he.symm.trans he')
  · rw [h.apart t (by rw [he]; rfl)] at he'
    cases he'
  · rw [h.apart t (by rw [he']; rfl)] at he
    cases he
  · exact Option.some.inj (he.symm.trans he')

/-- The entry of one target goes, or another one takes its place, staged or promoted. -/
theorem Tidy.put (h : Tidy s) {staged promoted : Option Entry} (hone : staged = none ∨ promoted = none)
    (hpending : ∀ t', s'.pending.lookup t' = if t' = t then staged else s.pending.lookup t')
    (hanchored : ∀ t', s'.anchored.lookup t' = if t' = t then promoted else s.anchored.lookup t')
    (hused : ∀ x, x ∈ s'.used ↔ (∃ e', (staged = some e' ∨ promoted = some e') ∧ e'.btcTxid = x) ∨
      x ∈ s.used ∧ ∀ e', s.HasEntry t e' → e'.btcTxid ≠ x)
    (hown : ∀ e' t₁ e₁, staged = some e' ∨ promoted = some e' → s.HasEntry t₁ e₁ →
      e₁.btcTxid = e'.btcTxid → t₁ = t) : Tidy s' := by
  have hentry (t' : Nat) (e' : Entry) : s'.HasEntry t' e' ↔
      t' = t ∧ (staged = some e' ∨ promoted = some e') ∨ t' ≠ t ∧ s.HasEntry t' e' := by
    unfold AnchorSet.HasEntry
    rw [hpending, hanchored]
    by_cases heq : t' = t <;> simp [heq]
  refine ⟨fun t' ht' => ?_, fun x => ?_, fun {t₁ t₂ e₁ e₂} h₁ h₂ heq => ?_⟩
  · rw [hpending] at ht'
    rw [hanchored]
    split_ifs at ht' ⊢ with heq
    · exact hone.resolve_left (Option.isSome_iff_ne_none.mp ht')
    · exact h.apart t' ht'
  · rw [hused]
    constructor
    · rintro (⟨e', hnew, rfl⟩ | ⟨hx, hold⟩)
      · exact ⟨t, e', (hentry t e').mpr (.inl ⟨rfl, hnew⟩), rfl⟩
      · obtain ⟨t', e', he', rfl⟩ := (h.used x).mp hx
        exact ⟨t', e', (hentry t' e').mpr (.inr ⟨fun heq => hold e' (heq ▸ he') rfl, he'⟩), rfl⟩
    · rintro ⟨t', e', he', rfl⟩
      obtain ⟨rfl, hnew⟩ | ⟨hne, he'⟩ := (hentry t' e').mp he'
      · exact .inl ⟨e', hnew, rfl⟩
      · exact .inr ⟨(h.used _).mpr ⟨t', e', he', rfl⟩, fun e he heq => hne (h.inj he' he heq.symm)⟩
  · obtain ⟨rfl, hnew₁⟩ | ⟨hne₁, h₁⟩ := (hentry t₁ e₁).mp h₁ <;>
      obtain ⟨rfl, hnew₂⟩ | ⟨hne₂, h₂⟩ := (hentry t₂ e₂).mp h₂
    · rfl
    · exact absurd (hown e₁ t₂ e₂ hnew₁ h₂ heq.symm) hne₂
    · exact absurd (hown e₂ t₁ e₁ hnew₂ h₁ heq) hne₁
    · exact h.inj h₁ h₂ heq

theorem Tidy.removed (h : Tidy s) (he : s.HasEntry t e)
    (hpending : ∀ t', s'.pending.lookup t' = if t' = t then none else s.pending.lookup t')
    (hanchored : ∀ t', s'.anchored.lookup t' = if t' = t then none else s.anchored.lookup t')
    (hused : s'.used = s.used.erase e.btcTxid) : Tidy s' := by
  refine h.put (.inl rfl) hpending hanchored (fun x => ?_) (by simp)
  rw [hused, Finset.mem_erase]
  constructor
  · rintro ⟨hne, hx⟩
    exact .inr ⟨hx, fun e' he' heq => hne (by rw [← heq, h.unique he' he])⟩
  · rintro (⟨_, h | h, _⟩ | ⟨hx, hold⟩)
    · cases h
    · cases h
    · exact ⟨(hold e he).symm, hx⟩

theorem Tidy.added (h : Tidy s) (hp : s.pending.lookup t = none) (ha : s.anchored.lookup t = none)
    (hfresh : e.btcTxid ∉ s.used)
    (hpending : ∀ t', s'.pending.lookup t' = if t' = t then some e else s.pending.lookup t')
    (hanchored : s'.anchored = s.anchored) (hused : s'.used = insert e.btcTxid s.used) : Tidy s' := by
  refine h.put (.inr rfl) hpending (fun t' => ?_) (fun x => ?_) ?_
  · rw [hanchored]
    split_ifs with heq
    · rw [heq, ha]
    · rfl
  · simp [hused, AnchorSet.HasEntry, hp, ha, eq_comm]
  · rintro _ t' e' (⟨⟨⟩⟩ | ⟨⟨⟩⟩) he' heq
    exact absurd ((h.used _).mpr ⟨t', e', he', heq⟩) hfresh

theorem Tidy.moved (e' : Entry) (h : Tidy s) (he : s.pending.lookup t = some e) (htxid : e'.btcTxid = e.btcTxid)
    (hpending : ∀ t', s'.pending.lookup t' = if t' = t then none else s.pending.lookup t')
    (hanchored : ∀ t', s'.anchored.lookup t' = if t' = t then some e' else s.anchored.lookup t')
    (hused : s'.used = s.used) : Tidy s' := by
  have hold : s.HasEntry t e := .inl he
  refine h.put (.inl rfl) hpending hanchored (fun x => ?_) ?_
  · rw [hused]
    by_cases hx : e'.btcTxid = x
    · simpa [hx] using (h.used x).mpr ⟨t, e, hold, htxid.symm.trans hx⟩
    · simp only [reduceCtorEq, Option.some.injEq, false_or, exists_eq_left', hx, iff_self_and]
      exact fun _ e₁ he₁ heq => hx (htxid.trans (by rw [← heq, h.unique he₁ hold]))
  · rintro _ t₁ e₁ (⟨⟨⟩⟩ | ⟨⟨⟩⟩) h₁ heq
    exact h.inj h₁ hold (heq.trans htxid)

end

/-! ## Retirement -/

theorem mem_sortedKeys {t : Table Nat Entry} {p : Nat → Entry → Bool} {k : Nat} :
    k ∈ sortedKeys t p ↔ ∃ e, t.lookup k = some e ∧ p k e := by
  rw [sortedKeys, mem_mergeSort]
  change k ∈ t.keep p ↔ _
  rw [← AList.lookup_isSome, Option.isSome_iff_exists]
  exact exists_congr fun e => lookup_keep

theorem nodup_sortedKeys (t : Table Nat Entry) (p : Nat → Entry → Bool) : (sortedKeys t p).Nodup :=
  (mergeSort_perm _ _).nodup_iff.mpr (t.keep p).nodupKeys

section
variable {K : Context} {s : AnchorSet}

theorem lookup_retire (t t' : Nat) :
    (retire K s t).anchored.lookup t' = if t' = t then none else s.anchored.lookup t' := by
  unfold retire
  split
  · rename_i hnone
    split_ifs with heq
    · rw [heq, hnone]
    · rfl
  · exact lookup_erase_ite _ _ _

theorem retire_frame (t : Nat) : (retire K s t).pending = s.pending ∧ (retire K s t).permanent = s.permanent ∧
    (retire K s t).retainFrom = s.retainFrom := by
  unfold retire
  split
  · exact ⟨rfl, rfl, rfl⟩
  · exact ⟨rfl, rfl, rfl⟩

theorem Tidy.retire (h : Tidy s) (t : Nat) : Tidy (retire K s t) := by
  cases hlookup : s.anchored.lookup t with
  | none =>
    have hsame : Anchors.retire K s t = s := by simp only [Anchors.retire, hlookup]
    rw [hsame]
    exact h
  | some e =>
    have hpending : s.pending.lookup t = none := by
      cases hp : s.pending.lookup t with
      | none => rfl
      | some _ =>
        rw [h.apart t (by rw [hp]; rfl)] at hlookup
        cases hlookup
    refine h.removed (.inr hlookup) (fun t' => ?_) (fun t' => lookup_retire t t') ?_
    · rw [(retire_frame t).1]
      split_ifs with heq
      · rw [heq, hpending]
      · rfl
    · simp only [Anchors.retire, hlookup]
      rfl

/-- What retirement does, target after target. -/
structure Retired (s s' : AnchorSet) (gone : List Nat) : Prop where
  tidy : Tidy s'
  pending : s'.pending = s.pending
  permanent : s'.permanent = s.permanent
  retainFrom : s'.retainFrom = s.retainFrom
  anchored : ∀ t, s'.anchored.lookup t = if t ∈ gone then none else s.anchored.lookup t

theorem Tidy.retireAll (h : Tidy s) (gone : List Nat) : Retired s (gone.foldl (Anchors.retire K) s) gone := by
  induction gone generalizing s with
  | nil => exact ⟨h, rfl, rfl, rfl, fun t => by simp⟩
  | cons t rest ih =>
    obtain ⟨hpending, hpermanent, hretain⟩ := retire_frame (K := K) (s := s) t
    have hrest := ih (h.retire (K := K) t)
    refine ⟨hrest.tidy, hrest.pending.trans hpending, hrest.permanent.trans hpermanent,
      hrest.retainFrom.trans hretain, fun t' => ?_⟩
    rw [foldl_cons, hrest.anchored, lookup_retire]
    by_cases hmem : t' ∈ rest
    · simp [hmem]
    · by_cases heq : t' = t
      · simp [heq]
      · simp [hmem, heq]

/-- What a new floor does to the set: targets below it retire. -/
structure Advanced (floor : Nat) (s s' : AnchorSet) : Prop where
  tidy : Tidy s'
  pending : s'.pending = s.pending
  permanent : s'.permanent = s.permanent
  retainFrom : s'.retainFrom = max s.retainFrom floor
  anchored : ∀ t e, s'.anchored.lookup t = some e ↔ s.anchored.lookup t = some e ∧ s'.retainFrom ≤ t

theorem Tidy.advance (h : Tidy s) (height : Nat) (hfloor : ∀ t e, s.anchored.lookup t = some e → s.retainFrom ≤ t) :
    Advanced (height - acceptWindow) s (advanceHeight K height s) := by
  unfold advanceHeight
  generalize height - acceptWindow = floor
  dsimp only
  split_ifs with hle
  · exact ⟨h, rfl, rfl, (max_eq_left hle).symm, fun t e => ⟨fun hl => ⟨hl, hfloor t e hl⟩, And.left⟩⟩
  · have hretired := h.retireAll (K := K) (sortedKeys s.anchored fun t _ => decide (t < floor))
    have hmax : max s.retainFrom (floor) = floor := max_eq_right (not_le.mp hle).le
    refine ⟨⟨hretired.tidy.apart, hretired.tidy.used, hretired.tidy.inj⟩, hretired.pending, hretired.permanent,
      hmax.symm, fun t e => ?_⟩
    change AList.lookup t (List.foldl (Anchors.retire K) s _).anchored = some e ↔ _ ∧ floor ≤ t
    rw [hretired.anchored]
    split_ifs with hgone
    · obtain ⟨e', hlookup, hlt⟩ := mem_sortedKeys.mp hgone
      have hlt := of_decide_eq_true hlt
      exact ⟨nofun, fun h => absurd h.2 (by omega)⟩
    · refine ⟨fun hl => ⟨hl, not_lt.mp fun hlt => hgone (mem_sortedKeys.mpr ⟨e, hl, decide_eq_true hlt⟩)⟩, And.left⟩

end

/-! ## Promotion -/

section
variable {K : Context} {auth : FinalizedRecord} {isBtcFinal : Hash256 → Bool} {s s' : AnchorSet} {t : Nat} {e : Entry}

theorem Tidy.drop (h : Tidy s) (he : s.pending.lookup t = some e) : Tidy (dropPending t e s) := by
  refine h.removed (.inl he) (fun t' => lookup_erase_ite _ _ _) (fun t' => ?_) rfl
  change s.anchored.lookup t' = _
  split_ifs with heq
  · rw [heq, h.apart t (by rw [he]; rfl)]
  · rfl

theorem installAnchor_parts (auth : FinalizedRecord) (t : Nat) (e : Entry) (s : AnchorSet) :
    (installAnchor K auth t e s).pending = s.pending.erase t ∧
      (installAnchor K auth t e s).retainFrom = s.retainFrom ∧
      (installAnchor K auth t e s).anchored =
        (if t < s.retainFrom then s.anchored else s.anchored.insert t (authorize K auth e)) ∧
      (installAnchor K auth t e s).used = (if t < s.retainFrom then s.used.erase e.btcTxid else s.used) ∧
      (installAnchor K auth t e s).permanent = (match s.permanent with
        | none => some ⟨t, authorize K auth e, auth⟩
        | some p => if p.targetHeight < t then some ⟨t, authorize K auth e, auth⟩ else some p) := by
  unfold installAnchor
  dsimp only
  split_ifs
  · exact ⟨rfl, rfl, rfl, rfl, rfl⟩
  · exact ⟨rfl, rfl, rfl, rfl, rfl⟩

theorem Tidy.install (h : Tidy s) (he : s.pending.lookup t = some e) : Tidy (installAnchor K auth t e s) := by
  obtain ⟨hpending, -, hanchored, hused, -⟩ := installAnchor_parts (K := K) auth t e s
  have hlookup (t' : Nat) : (installAnchor K auth t e s).pending.lookup t' =
      if t' = t then none else s.pending.lookup t' := by
    rw [hpending]
    exact lookup_erase_ite _ _ _
  have hnone : s.anchored.lookup t = none := h.apart t (by rw [he]; rfl)
  by_cases hlt : t < s.retainFrom
  · rw [if_pos hlt] at hanchored hused
    refine h.removed (.inl he) hlookup (fun t' => ?_) hused
    rw [hanchored]
    split_ifs with heq
    · rw [heq, hnone]
    · rfl
  · rw [if_neg hlt] at hanchored hused
    refine h.moved (authorize K auth e) he rfl hlookup (fun t' => ?_) hused
    rw [hanchored]
    exact lookup_insert_ite _ _ _ _

/-- The carriers of the targets to come are within the record, so the loop does not stop in the middle. -/
structure Covered (auth : FinalizedRecord) (s : AnchorSet) (targets : List Nat) : Prop where
  nodup : targets.Nodup
  entry : ∀ t ∈ targets, ∃ e, s.pending.lookup t = some e ∧ e.carryingVeldHeight ≤ auth.target.height.toNat ∧
    e.carryingVeldHeight ≤ auth.carrier.height.toNat

theorem Covered.tail {rest : List Nat} (h : Covered auth s (t :: rest))
    (hpending : s'.pending = s.pending.erase t) : Covered auth s' rest := by
  obtain ⟨hnot, hnodup⟩ := nodup_cons.mp h.nodup
  refine ⟨hnodup, fun t' ht' => ?_⟩
  have hne : t' ≠ t := fun heq => hnot (heq ▸ ht')
  rw [hpending, lookup_erase_ite, if_neg hne]
  exact h.entry t' (mem_cons_of_mem _ ht')

/-- The loop of the promotion, as an induction over its targets: each one is dropped or installed. -/
theorem promoteLoop_induct {motive : AnchorSet → Prop} {targets : List Nat} {result : PromotionResult}
    (hcovered : Covered auth s targets) (hok : result.ok) (hs : motive s)
    (hdrop : ∀ s t e, t ∈ targets → motive s → s.pending.lookup t = some e → isBtcFinal e.btcBlockHash = false →
      motive (dropPending t e s))
    (hinstall : ∀ s t e, t ∈ targets → motive s → s.pending.lookup t = some e → isBtcFinal e.btcBlockHash →
      motive (installAnchor K auth t e s)) :
    (promoteLoop K isBtcFinal auth targets result s).1.ok ∧
      motive (promoteLoop K isBtcFinal auth targets result s).2 := by
  induction targets generalizing s result with
  | nil => exact ⟨hok, hs⟩
  | cons t rest ih =>
    obtain ⟨e, he, htarget, hcarrier⟩ := hcovered.entry t mem_cons_self
    have hdrop' := fun s t' e ht' => hdrop s t' e (mem_cons_of_mem t ht')
    have hinstall' := fun s t' e ht' => hinstall s t' e (mem_cons_of_mem t ht')
    rw [promoteLoop, he]
    dsimp only
    cases hfinal : isBtcFinal e.btcBlockHash with
    | false =>
      rw [if_pos (by rfl)]
      exact ih (hcovered.tail rfl) hok (hdrop s t e mem_cons_self hs he hfinal) hdrop' hinstall'
    | true =>
      rw [if_neg (by decide), if_neg (by omega)]
      exact ih (hcovered.tail (installAnchor_parts auth t e s).1) hok
        (hinstall s t e mem_cons_self hs he hfinal) hdrop' hinstall'

end

section
variable {K : Context} {auth : FinalizedRecord} {isBtcFinal : Hash256 → Bool} {s : AnchorSet}
variable {result : PromotionResult}

theorem promoteLoop_pending {targets : List Nat} (hcovered : Covered auth s targets) (t : Nat) :
    (promoteLoop K isBtcFinal auth targets result s).2.pending.lookup t =
      if t ∈ targets then none else s.pending.lookup t := by
  induction targets generalizing s result with
  | nil => rfl
  | cons first rest ih =>
    obtain ⟨e, he, htarget, hcarrier⟩ := hcovered.entry first mem_cons_self
    have herase (s' : AnchorSet) (hpending : s'.pending = s.pending.erase first) (result : PromotionResult) :
        (promoteLoop K isBtcFinal auth rest result s').2.pending.lookup t =
          if t ∈ first :: rest then none else s.pending.lookup t := by
      rw [ih (hcovered.tail hpending), hpending, lookup_erase_ite]
      by_cases hmem : t ∈ rest
      · simp [hmem]
      · by_cases heq : t = first
        · simp [heq]
        · simp [hmem, heq]
    rw [promoteLoop, he]
    dsimp only
    cases isBtcFinal e.btcBlockHash with
    | false => exact herase _ rfl _
    | true =>
      rw [if_neg (by decide), if_neg (by omega)]
      exact herase _ (installAnchor_parts auth first e s).1 _

/-- The staged proof of the target has its Bitcoin block. -/
def promotable (isBtcFinal : Hash256 → Bool) (s : AnchorSet) (t : Nat) : Bool :=
  (s.pending.lookup t).any fun e => isBtcFinal e.btcBlockHash

/-- The higher of a target and the one before, if there was one. -/
def higher (before : Option Nat) (t : Nat) : Option Nat := some ((before.map (max t)).getD t)

theorem installAnchor_target (auth : FinalizedRecord) (t : Nat) (e : Entry) :
    (installAnchor K auth t e s).permanent.map PermanentCheckpoint.targetHeight =
      higher (s.permanent.map PermanentCheckpoint.targetHeight) t := by
  rw [(installAnchor_parts auth t e s).2.2.2.2, higher]
  cases s.permanent with
  | none => rfl
  | some p =>
    dsimp only
    split_ifs with hlt
    · simp only [Option.map_some, Option.getD_some]
      rw [max_eq_left hlt.le]
    · simp only [Option.map_some, Option.getD_some]
      rw [max_eq_right (not_lt.mp hlt)]

theorem promoteLoop_target {targets : List Nat} (hcovered : Covered auth s targets) :
    (promoteLoop K isBtcFinal auth targets result s).2.permanent.map PermanentCheckpoint.targetHeight =
      (targets.filter (promotable isBtcFinal s)).foldl higher
        (s.permanent.map PermanentCheckpoint.targetHeight) := by
  induction targets generalizing s result with
  | nil => rfl
  | cons t rest ih =>
    obtain ⟨e, he, htarget, hcarrier⟩ := hcovered.entry t mem_cons_self
    obtain ⟨hnot, -⟩ := nodup_cons.mp hcovered.nodup
    have hsame (s' : AnchorSet) (hpending : s'.pending = s.pending.erase t) :
        rest.filter (promotable isBtcFinal s') = rest.filter (promotable isBtcFinal s) := by
      refine filter_congr fun t' ht' => ?_
      have hne : t' ≠ t := fun heq => hnot (heq ▸ ht')
      rw [promotable, promotable, hpending, lookup_erase_ite, if_neg hne]
    have hpromotable : promotable isBtcFinal s t = isBtcFinal e.btcBlockHash := by
      rw [promotable, he]
      rfl
    rw [promoteLoop, he]
    dsimp only
    cases hfinal : isBtcFinal e.btcBlockHash with
    | false =>
      rw [hfinal] at hpromotable
      rw [if_pos (by rfl), ih (hcovered.tail rfl), hsame _ rfl, filter_cons_of_neg (by simp [hpromotable])]
      rfl
    | true =>
      rw [hfinal] at hpromotable
      have hpending := (installAnchor_parts (K := K) auth t e s).1
      rw [if_neg (by decide), if_neg (by omega), ih (hcovered.tail hpending), hsame _ hpending,
        filter_cons_of_pos hpromotable, foldl_cons, installAnchor_target]

end

/-- A promotion fails without a change, or every eligible target has been dropped or installed. -/
theorem promoteFinalized_cases (K : Context) (resolveCarrier : Nat → Option Hash256) (isBtcFinal : Hash256 → Bool)
    (auth : FinalizedRecord) (finalizedHeight : Nat) (s : AnchorSet) :
    ((promoteFinalized K resolveCarrier isBtcFinal auth finalizedHeight s).1.ok = false ∧
        (promoteFinalized K resolveCarrier isBtcFinal auth finalizedHeight s).2 = s) ∨
      ((promoteFinalized K resolveCarrier isBtcFinal auth finalizedHeight s).1.ok ∧
        ∃ eligible, eligible = sortedKeys s.pending (fun _ e => e.carryingVeldHeight ≤ finalizedHeight) ∧
          Covered auth s eligible ∧
          (∀ t, t ∈ eligible ↔ ∃ e, s.pending.lookup t = some e ∧ e.carryingVeldHeight ≤ finalizedHeight) ∧
          (eligible ≠ [] → authorizationValid K resolveCarrier auth finalizedHeight s) ∧
          (∀ t ∈ eligible, ∀ e, s.pending.lookup t = some e →
            resolveCarrier e.carryingVeldHeight = some e.carryingVeldHash) ∧
          promoteFinalized K resolveCarrier isBtcFinal auth finalizedHeight s =
            promoteLoop K isBtcFinal auth eligible ⟨true, 0, 0⟩ s) := by
  have hmem (t : Nat) : t ∈ sortedKeys s.pending (fun _ e => decide (e.carryingVeldHeight ≤ finalizedHeight)) ↔
      ∃ e, s.pending.lookup t = some e ∧ e.carryingVeldHeight ≤ finalizedHeight := by
    rw [mem_sortedKeys]
    exact exists_congr fun e => and_congr_right fun _ => decide_eq_true_iff
  have hnodup := nodup_sortedKeys s.pending (fun _ e => decide (e.carryingVeldHeight ≤ finalizedHeight))
  unfold promoteFinalized
  dsimp only
  generalize heligible : sortedKeys s.pending _ = eligible at hmem hnodup ⊢
  by_cases hauth : (decide (eligible ≠ []) && !authorizationValid K resolveCarrier auth finalizedHeight s) = true
  · rw [if_pos hauth]
    exact .inl ⟨rfl, rfl⟩
  rw [if_neg hauth]
  by_cases hcarriers : (eligible.all fun target => (s.pending.lookup target).any fun e =>
      resolveCarrier e.carryingVeldHeight = some e.carryingVeldHash) = true
  swap
  · rw [if_pos (by simpa using hcarriers)]
    exact .inl ⟨rfl, rfl⟩
  rw [if_neg (by simpa using hcarriers)]
  have hvalid : eligible ≠ [] → authorizationValid K resolveCarrier auth finalizedHeight s := by
    simpa using hauth
  have hcovered : Covered auth s eligible := by
    refine ⟨hnodup, fun t ht => ?_⟩
    have hauth := hvalid (ne_nil_of_mem ht)
    obtain ⟨e, he, hle⟩ := (hmem t).mp ht
    simp only [authorizationValid, Bool.and_eq_true, decide_eq_true_eq] at hauth
    obtain ⟨⟨⟨⟨⟨-, -⟩, htarget⟩, horder⟩, -⟩, -⟩ := hauth.1
    have horder : auth.target.height.toNat ≤ auth.carrier.height.toNat := horder
    exact ⟨e, he, by omega, by omega⟩
  refine .inr ⟨(promoteLoop_induct (motive := fun _ => True) hcovered rfl trivial (fun _ _ _ _ _ _ _ => trivial)
    fun _ _ _ _ _ _ _ => trivial).1, eligible, rfl, hcovered, hmem, hvalid, fun t ht e he => ?_, rfl⟩
  have hone := all_eq_true.mp hcarriers t ht
  rw [he] at hone
  exact of_decide_eq_true hone

theorem promoteFinalized_failed {K : Context} {auth : FinalizedRecord} {resolveCarrier : Nat → Option Hash256}
    {isBtcFinal : Hash256 → Bool} {finalizedHeight : Nat} {s : AnchorSet}
    (h : (promoteFinalized K resolveCarrier isBtcFinal auth finalizedHeight s).1.ok = false) :
    (promoteFinalized K resolveCarrier isBtcFinal auth finalizedHeight s).2 = s := by
  obtain ⟨-, hsame⟩ | ⟨hok, -⟩ := promoteFinalized_cases K resolveCarrier isBtcFinal auth finalizedHeight s
  · exact hsame
  · rw [hok] at h
    cases h

end Veld.Anchors
