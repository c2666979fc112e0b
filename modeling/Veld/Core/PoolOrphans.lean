import Veld.Core.Mempool
import Veld.Core.ChainReplay

/-!
# Orphans in the pool

A pool is connected when every input names an unspent output of the chain or an output of another pooled
transaction.
-/

namespace Veld.Chain

open Wire Sweep List

/-! ## Pools -/

/-- What the maps of the pool guarantee of its entries. -/
structure PoolSound (C : Crypto) (pool : List MempoolEntry) : Prop where
  keyed : ∀ e ∈ pool, e.key = e.tx.getTxID C
  keys : (pool.map MempoolEntry.key).Nodup
  ordered : pool.Pairwise fun a b => a.feeRate ≤ b.feeRate
  valid : ∀ e ∈ pool, isValid e.tx
  spendsOnce : (spentOutputs pool).Nodup

section
variable {C : Crypto} {pool pool' : List MempoolEntry} {a b e p : MempoolEntry} {i : TxInput}

namespace PoolSound

section
variable (h : PoolSound C pool)
include h

theorem sublist (hs : pool'.Sublist pool) : PoolSound C pool' where
  keyed e he := h.keyed e (hs.subset he)
  keys := h.keys.sublist (hs.map _)
  ordered := h.ordered.sublist hs
  valid e he := h.valid e (hs.subset he)
  spendsOnce := h.spendsOnce.sublist (hs.flatMap _)

theorem nodup : pool.Nodup := h.keys.of_map

theorem eq_of_key (ha : a ∈ pool) (hb : b ∈ pool) (hk : a.key = b.key) : a = b :=
  inj_on_of_nodup_map h.keys ha hb hk

theorem outputs_le (hp : p ∈ pool) : p.tx.outputs.length ≤ maxTransactionOutputs := by
  have hv := h.valid p hp
  simp only [isValid, Bool.and_eq_true, decide_eq_true_eq] at hv
  obtain ⟨⟨⟨⟨-, hout⟩, -⟩, -⟩, -⟩ := hv
  exact hout

theorem not_null (hp : p ∈ pool) (hi : i.prevOutIndex.toNat < p.tx.outputs.length) :
    i.isCoinbase = false := by
  by_contra hnull
  simp only [TxInput.isCoinbase, Bool.not_eq_false, Bool.and_eq_true, beq_iff_eq] at hnull
  rw [hnull.1] at hi
  have hle := h.outputs_le hp
  have hmax : (0xFFFFFFFF : UInt32).toNat = 4294967295 := rfl
  simp only [maxTransactionOutputs] at hle
  omega

theorem map_relocked (chain : ChainView) :
    PoolSound C (pool.map (markRelocked chain)) where
  keyed e he := by
    obtain ⟨e', he', rfl⟩ := mem_map.mp he
    exact h.keyed e' he'
  keys := by
    rw [map_map]
    exact h.keys
  ordered := pairwise_map.mpr h.ordered
  valid e he := by
    obtain ⟨e', he', rfl⟩ := mem_map.mp he
    exact h.valid e' he'
  spendsOnce := by
    rw [spentOutputs, flatMap_map]
    exact h.spendsOnce

end

end PoolSound

/-! ## Connected pools -/

/-- The input of the transaction `key` names an unspent output of the chain or an output of another pooled
transaction. -/
def Named (chain : ChainView) (pool : List MempoolEntry) (key : Hash256) (i : TxInput) : Prop :=
  (chain.getUTXO (outPointOf i)).isSome ∨
    ∃ p ∈ pool, p.key ≠ key ∧ p.key = i.prevTxHash ∧ i.prevOutIndex.toNat < p.tx.outputs.length

def Connected (chain : ChainView) (pool : List MempoolEntry) : Prop :=
  ∀ e ∈ pool, ∀ i ∈ e.tx.inputs, Named chain pool e.key i

variable {chain : ChainView} {rules : PoolRules}

theorem Connected.sweep {child : MempoolEntry → MempoolEntry → Bool} (h : Connected chain pool)
    (bad : MempoolEntry → Bool)
    (hchild : ∀ p ∈ pool, ∀ e ∈ pool, ∀ i ∈ e.tx.inputs, chain.getUTXO (outPointOf i) = none →
      p.key = i.prevTxHash → i.prevOutIndex.toNat < p.tx.outputs.length → child p e) :
    Connected chain (sweep child bad pool) := by
  intro e he i hi
  have hep := (sweep_sublist child bad pool).subset he
  cases hu : chain.getUTXO (outPointOf i) with
  | some u => exact .inl (by rw [hu]; rfl)
  | none =>
    rcases h e hep i hi with hsome | ⟨p, hp, hne, hkey, hidx⟩
    · rw [hu] at hsome
      cases hsome
    · exact .inr ⟨p, mem_sweep_of_child he hp (hchild p hp e hep i hi hu hkey hidx), hne, hkey, hidx⟩

theorem isChild_of_named (h : PoolSound C pool) (hp : p ∈ pool) (hi : i ∈ e.tx.inputs)
    (hkey : p.key = i.prevTxHash) (hidx : i.prevOutIndex.toNat < p.tx.outputs.length) :
    isChild p e = true :=
  any_eq_true.mpr ⟨i, hi, by simp [h.not_null hp hidx, hkey]⟩

section
variable (h : Connected chain pool)
include h

theorem Connected.sweep_isChild (hs : PoolSound C pool) (bad : MempoolEntry → Bool) :
    Connected chain (Sweep.sweep isChild bad pool) :=
  h.sweep bad fun _ hp _ _ _ hi _ hkey hidx => isChild_of_named hs hp hi hkey hidx

theorem Connected.map_relocked : Connected chain (pool.map (markRelocked chain)) := by
  intro e he i hi
  obtain ⟨e', he', rfl⟩ := mem_map.mp he
  rcases h e' he' i hi with hu | ⟨p, hp, hne, hkey, hidx⟩
  · exact .inl hu
  · exact .inr ⟨markRelocked chain p, mem_map_of_mem hp, hne, hkey, hidx⟩

theorem Connected.removeStale (hs : PoolSound C pool) :
    Connected chain (removeStale chain rules pool) := by
  have hamm : Connected chain (purgeInvalidAmmEntries rules pool) := h.sweep_isChild hs _
  have hsamm : PoolSound C (purgeInvalidAmmEntries rules pool) := hs.sublist (sweep_sublist _ _ _)
  refine (hamm.sweep _ fun p hp e _ i hi hu hkey hidx => ?_).map_relocked
  exact any_eq_true.mpr ⟨i, hi, by simp [hsamm.not_null hp hidx, hu, hkey]⟩

theorem Connected.purgeInvalidAgainst (utxoExists : OutPoint → Bool) :
    Connected chain (purgeInvalidAgainst utxoExists pool) :=
  h.sweep _ fun _ _ _ _ i hi _ hkey _ => any_eq_true.mpr ⟨i, hi, by simp [hkey]⟩

end

/-! ## Eviction -/

theorem serialize_length_pos (tx : Transaction) : 0 < tx.serialize.length := by
  simp only [Transaction.serialize, length_append, putLE_length]
  omega

theorem totalBytes_le (h : pool'.Sublist pool) : totalBytes pool' ≤ totalBytes pool :=
  (h.map _).sum_le_sum fun _ _ => Nat.zero_le _

theorem totalBytes_lt (h : pool'.Sublist pool) (he : e ∈ pool) (hgone : e ∉ pool') :
    totalBytes pool' < totalBytes pool := by
  induction h with
  | slnil => cases he
  | @cons l₁ l₂ x hs ih =>
    have hle := totalBytes_le hs
    have hpos : 0 < x.txSizeBytes := serialize_length_pos x.tx
    simp only [totalBytes, map_cons, sum_cons] at hle ⊢
    omega
  | @cons_cons l₁ l₂ x hs ih =>
    rw [mem_cons, not_or] at hgone
    have hlt := ih ((mem_cons.mp he).resolve_left hgone.1) hgone.2
    simp only [totalBytes, map_cons, sum_cons] at hlt ⊢
    omega

theorem hasRoom_sublist (size : Nat) (l₁ l₂ : List MempoolEntry) (h : l₁.Sublist l₂)
    (hroom : hasRoom size l₂) : hasRoom size l₁ := by
  simp only [hasRoom, Bool.and_eq_true, decide_eq_true_eq] at hroom ⊢
  exact ⟨lt_of_le_of_lt h.length_le hroom.1,
    le_trans (Nat.add_le_add_right (totalBytes_le h) _) hroom.2⟩

theorem removeWithDescendants_cons (h : PoolSound C (a :: pool)) :
    removeWithDescendants [a.key] (a :: pool) = sweep isChild (· == a) (a :: pool) := by
  refine sweep_congr (fun x hx hk => .root hx ?_) fun x hx hk => .root hx ?_
  · simp only [mem_singleton, decide_eq_true_eq] at hk
    rw [h.eq_of_key hx mem_cons_self hk]
    exact beq_self_eq_true a
  · rw [beq_iff_eq] at hk
    simp [hk]

/-- The eviction loop makes room as `Sweep.makeRoom` does: every round shrinks the pool. -/
theorem evictLoop_eq (h : PoolSound C pool) (size feeRate n : Nat) :
    evictLoop size feeRate n pool = makeRoom isChild MempoolEntry.feeRate feeRate (hasRoom size) n pool := by
  induction n generalizing pool with
  | zero => rfl
  | succ n ih =>
    cases pool with
    | nil =>
      simp only [evictLoop, evict, makeRoom]
      cases hasRoom size [] <;> rfl
    | cons a rest =>
      have hgone : a ∉ sweep isChild (· == a) (a :: rest) := fun hmem =>
        (mem_sweep.mp hmem).2 (.root mem_cons_self (beq_self_eq_true a))
      have hlt := totalBytes_lt (sweep_sublist isChild (· == a) (a :: rest)) mem_cons_self hgone
      have hsound := h.sublist (sweep_sublist isChild (· == a) (a :: rest))
      simp only [evictLoop, evict, makeRoom]
      split
      · rfl
      · by_cases hdear : feeRate ≤ a.feeRate
        · simp only [if_pos hdear]
        · simp only [if_neg hdear, removeWithDescendants_cons h, decide_eq_true hlt]
          exact ih hsound

/-- The entries that make way for a transaction of `size` bytes that pays `feeRate`: those that pay less
and stand where taking out all before them does not make room. -/
def makesWay (pool : List MempoolEntry) (size feeRate : Nat) (a : MempoolEntry) : Bool :=
  taken isChild MempoolEntry.feeRate feeRate (hasRoom size) pool a

/-- The entry makes way itself, or an entry it descends from does. -/
def CrowdedOut (pool : List MempoolEntry) (size feeRate : Nat) : MempoolEntry → Prop :=
  Doomed isChild (makesWay pool size feeRate) pool

/-- The pool without what is crowded out. -/
def remaining (pool : List MempoolEntry) (size feeRate : Nat) : List MempoolEntry :=
  sweep isChild (makesWay pool size feeRate) pool

theorem evictLoop_remaining (h : PoolSound C pool) (size feeRate : Nat) :
    evictLoop size feeRate pool.length pool =
      (hasRoom size (remaining pool size feeRate), remaining pool size feeRate) := by
  rw [evictLoop_eq h]
  exact makeRoom_eq (hasRoom_sublist size) h.nodup h.ordered

/-! ## Admission -/

theorem findEntry_some {key : Hash256} (h : findEntry pool key = some p) : p ∈ pool ∧ p.key = key := by
  refine ⟨mem_of_find?_eq_some h, ?_⟩
  have := List.find?_some h
  simpa using this

theorem findEntry_none {key : Hash256} (h : findEntry pool key = none) (hp : p ∈ pool) : p.key ≠ key := by
  have := List.find?_eq_none.mp h p hp
  simpa using this

variable {req : AddRequest} {st st' : Resolving} {row : TxInput × Nat}

theorem Resolving.add_eq_ok {key : OutPoint} {value : UInt64} {onChain : Bool}
    (h : st.add key value onChain = .ok st') : st'.candidateSpends = key :: st.candidateSpends := by
  unfold Resolving.add at h
  split_ifs at h
  cases h
  rfl

theorem resolveInput_eq_ok (h : resolveInput chain rules pool req st row = .ok st') :
    (row.1.isCoinbase ∧ st' = st) ∨
      (outPointOf row.1 ∉ spentOutputs pool ∧
        st'.candidateSpends = outPointOf row.1 :: st.candidateSpends ∧
        ((chain.getUTXO (outPointOf row.1)).isSome ∨
          ∃ p ∈ pool, p.key = row.1.prevTxHash ∧ row.1.prevOutIndex.toNat < p.tx.outputs.length)) := by
  unfold resolveInput at h
  split at h
  · next hnull =>
    cases h
    exact .inl ⟨hnull, rfl⟩
  split at h
  · cases h
  next hfresh =>
  right
  refine ⟨fun hspent => hfresh (.inr hspent), ?_⟩
  cases hu : chain.getUTXO (outPointOf row.1) with
  | some u =>
    simp only [hu] at h
    refine ⟨?_, .inl rfl⟩
    split at h
    · cases h
    split at h
    · exact Resolving.add_eq_ok h
    · split at h
      · cases h
      · exact Resolving.add_eq_ok h
  | none =>
    simp only [hu] at h
    cases hf : findEntry pool row.1.prevTxHash with
    | none => simp only [hf] at h; cases h
    | some p =>
      simp only [hf] at h
      cases ho : p.tx.outputs[row.1.prevOutIndex.toNat]? with
      | none => simp only [ho] at h; cases h
      | some out =>
        simp only [ho] at h
        obtain ⟨hp, hkey⟩ := findEntry_some hf
        split at h
        · cases h
        · exact ⟨Resolving.add_eq_ok h,
            .inr ⟨p, hp, hkey, (List.getElem?_eq_some_iff.mp ho).1⟩⟩

theorem resolveInputs_eq_ok {rows : List (TxInput × Nat)}
    (h : rows.foldlM (resolveInput chain rules pool req) st = .ok st') (hrow : row ∈ rows) :
    row.1.isCoinbase ∨ outPointOf row.1 ∉ spentOutputs pool ∧
      ((chain.getUTXO (outPointOf row.1)).isSome ∨
        ∃ p ∈ pool, p.key = row.1.prevTxHash ∧ row.1.prevOutIndex.toNat < p.tx.outputs.length) := by
  induction rows generalizing st with
  | nil => cases hrow
  | cons first rest ih =>
    rw [foldlM_cons, bind_eq_ok] at h
    obtain ⟨mid, hfirst, hrest⟩ := h
    rcases mem_cons.mp hrow with rfl | hmem
    · rcases resolveInput_eq_ok hfirst with ⟨hnull, -⟩ | ⟨hfresh, -, hnamed⟩
      · exact .inl hnull
      · exact .inr ⟨hfresh, hnamed⟩
    · exact ih hrest hmem

theorem refuseIf_eq_ok {b : Bool} {r : AddResult} {u : Unit} : refuseIf b r = .ok u ↔ b = false := by
  cases b <;> simp [refuseIf]

/-- The transaction is new to the pool and conflicts with nothing in it. -/
structure Insertable (C : Crypto) (pool : List MempoolEntry) (tx : Transaction) : Prop where
  fresh : ∀ p ∈ pool, p.key ≠ tx.getTxID C
  valid : isValid tx = true
  unspent : ∀ key ∈ spends tx, key ∉ spentOutputs pool

/-- What `Add` knows of a transaction when it starts to make room. -/
structure Admissible (C : Crypto) (chain : ChainView) (pool : List MempoolEntry) (tx : Transaction) : Prop
    extends Insertable C pool tx where
  named : ∀ i ∈ tx.inputs, i.isCoinbase = false → chain.getUTXO (outPointOf i) = none →
    ∃ p ∈ pool, p.key = i.prevTxHash ∧ i.prevOutIndex.toNat < p.tx.outputs.length

theorem admissionChecks_eq_ok (h : admissionChecks chain rules C pool req = .ok st) :
    Admissible C chain pool req.tx := by
  simp only [admissionChecks, bind_eq_ok, refuseIf_eq_ok, Bool.not_eq_false'] at h
  obtain ⟨_, hdup, _, hvalid, _, _, _, _, _, _, _, _, _, _, _, _, st, hres, _⟩ := h
  have hinput : ∀ i ∈ req.tx.inputs, i.isCoinbase ∨ outPointOf i ∉ spentOutputs pool ∧
      ((chain.getUTXO (outPointOf i)).isSome ∨
        ∃ p ∈ pool, p.key = i.prevTxHash ∧ i.prevOutIndex.toNat < p.tx.outputs.length) := by
    intro i hi
    rw [← zipIdx_map_fst 0 req.tx.inputs] at hi
    obtain ⟨row, hrow, rfl⟩ := mem_map.mp hi
    exact resolveInputs_eq_ok hres hrow
  refine ⟨⟨fun p hp => findEntry_none (by simpa using hdup) hp, hvalid, ?_⟩, ?_⟩
  · intro key hkey
    obtain ⟨i, hi, rfl⟩ := mem_map.mp hkey
    obtain ⟨hi, hnull⟩ := mem_filter.mp hi
    rcases hinput i hi with h | h
    · simp [h] at hnull
    · exact h.1
  · intro i hi hnull hu
    rcases hinput i hi with h | ⟨-, h | h⟩
    · exact absurd (h.symm.trans hnull) (by decide)
    · rw [hu] at h
      cases h
    · exact h

theorem insertEntry_perm (e : MempoolEntry) (pool : List MempoolEntry) :
    (insertEntry e pool).Perm (e :: pool) := by
  induction pool with
  | nil => exact .refl _
  | cons x rest ih =>
    unfold insertEntry
    split
    · exact (ih.cons x).trans (.swap e x rest)
    · exact .refl _

theorem insertEntry_ordered (e : MempoolEntry) (h : pool.Pairwise fun a b => a.feeRate ≤ b.feeRate) :
    (insertEntry e pool).Pairwise fun a b => a.feeRate ≤ b.feeRate := by
  induction pool with
  | nil => exact pairwise_singleton _ _
  | cons x rest ih =>
    obtain ⟨hx, hrest⟩ := pairwise_cons.mp h
    unfold insertEntry
    split
    · next hle =>
      refine pairwise_cons.mpr ⟨fun y hy => ?_, ih hrest⟩
      rcases mem_cons.mp ((insertEntry_perm e rest).subset hy) with rfl | hmem
      · exact hle
      · exact hx y hmem
    · next hgt =>
      refine pairwise_cons.mpr ⟨fun y hy => ?_, h⟩
      rcases mem_cons.mp hy with rfl | hmem
      · omega
      · have := hx y hmem
        omega

theorem PoolSound.insert (h : PoolSound C pool) (hadm : Insertable C pool e.tx)
    (hkey : e.key = e.tx.getTxID C) : PoolSound C (insertEntry e pool) where
  keyed x hx := by
    rcases mem_cons.mp ((insertEntry_perm e pool).subset hx) with rfl | hmem
    · exact hkey
    · exact h.keyed x hmem
  keys := by
    rw [((insertEntry_perm e pool).map _).nodup_iff, map_cons, nodup_cons]
    refine ⟨fun hmem => ?_, h.keys⟩
    obtain ⟨p, hp, heq⟩ := mem_map.mp hmem
    exact hadm.fresh p hp (heq.trans hkey)
  ordered := insertEntry_ordered e h.ordered
  valid x hx := by
    rcases mem_cons.mp ((insertEntry_perm e pool).subset hx) with rfl | hmem
    · exact hadm.valid
    · exact h.valid x hmem
  spendsOnce := by
    have hperm : (spentOutputs (insertEntry e pool)).Perm (spentOutputs (e :: pool)) :=
      (insertEntry_perm e pool).flatMap_right _
    rw [hperm.nodup_iff, spentOutputs, flatMap_cons]
    refine List.Nodup.append ?_ h.spendsOnce hadm.unspent
    have hv := hadm.valid
    simp only [isValid, Bool.and_eq_true, decide_eq_true_eq] at hv
    exact hv.2

theorem Insertable.sublist {tx : Transaction} (h : Insertable C pool tx) (hs : pool'.Sublist pool) :
    Insertable C pool' tx where
  fresh p hp := h.fresh p (hs.subset hp)
  valid := h.valid
  unspent key hkey hmem := h.unspent key hkey ((hs.flatMap _).subset hmem)

theorem remaining_sublist (pool : List MempoolEntry) (size feeRate : Nat) :
    (remaining pool size feeRate).Sublist pool := sweep_sublist _ _ _

theorem add_cases (h : PoolSound C pool) (chain : ChainView) (rules : PoolRules) (req : AddRequest) :
    (∃ r, admissionChecks chain rules C pool req = .error r ∧ (add chain rules C pool req).2 = pool) ∨
      ∃ st, admissionChecks chain rules C pool req = .ok st ∧
        (add chain rules C pool req).2 =
          if hasRoom req.tx.serialize.length
              (remaining pool req.tx.serialize.length (feeRateOf req.tx req.feeUnits)) then
            insertEntry (newEntry C req st)
              (remaining pool req.tx.serialize.length (feeRateOf req.tx req.feeUnits))
          else remaining pool req.tx.serialize.length (feeRateOf req.tx req.feeUnits) := by
  unfold add
  cases admissionChecks chain rules C pool req with
  | error r => exact .inl ⟨r, rfl, rfl⟩
  | ok st =>
    refine .inr ⟨st, rfl, ?_⟩
    simp only [evictLoop_remaining h]
    cases hasRoom req.tx.serialize.length
      (remaining pool req.tx.serialize.length (feeRateOf req.tx req.feeUnits)) <;> rfl

theorem PoolSound.add (h : PoolSound C pool) (chain : ChainView) (rules : PoolRules) (req : AddRequest) :
    PoolSound C (add chain rules C pool req).2 := by
  rcases add_cases h chain rules req with ⟨r, -, heq⟩ | ⟨st, hok, heq⟩
  · rw [heq]
    exact h
  · have hrest := h.sublist (remaining_sublist pool req.tx.serialize.length (feeRateOf req.tx req.feeUnits))
    rw [heq]
    split
    · exact hrest.insert ((admissionChecks_eq_ok hok).toInsertable.sublist (remaining_sublist _ _ _)) rfl
    · exact hrest

/-! ## Calls -/

/-- The calls on the pool that change it between two blocks. -/
inductive PoolCall
  | add (req : AddRequest)
  | expireOld (now : Nat)
  | purgeInvalidAgainst
  | removeStale
  | sweepOrphans

def PoolCall.run (chain : ChainView) (rules : PoolRules) (C : Crypto) (pool : List MempoolEntry) :
    PoolCall → List MempoolEntry
  | .add req => (Chain.add chain rules C pool req).2
  | .expireOld now => Chain.expireOld now pool
  | .purgeInvalidAgainst => Chain.purgeInvalidAgainst (fun key => (chain.getUTXO key).isSome) pool
  | .removeStale => Chain.removeStale chain rules pool
  | .sweepOrphans => Chain.sweepOrphans chain pool

theorem PoolSound.run (h : PoolSound C pool) (chain : ChainView) (rules : PoolRules) (call : PoolCall) :
    PoolSound C (call.run chain rules C pool) := by
  cases call with
  | add req => exact h.add chain rules req
  | expireOld now | purgeInvalidAgainst => exact h.sublist (sweep_sublist _ _ _)
  | removeStale =>
    exact ((h.sublist (sweep_sublist _ _ _)).sublist (sweep_sublist _ _ _)).map_relocked chain
  | sweepOrphans => exact h.sublist (sweep_sublist _ _ _)

structure Pool (C : Crypto) where
  entries : List MempoolEntry
  sound : PoolSound C entries

def Pool.run (chain : ChainView) (rules : PoolRules) (pool : Pool C) (call : PoolCall) : Pool C :=
  ⟨call.run chain rules C pool.entries, pool.sound.run chain rules call⟩

theorem Pool.run_add (chain : ChainView) (rules : PoolRules) (pool : Pool C) (req : AddRequest) :
    (pool.run chain rules (.add req)).entries = (add chain rules C pool.entries req).2 := rfl

def PoolCall.Safe (chain : ChainView) (rules : PoolRules) (C : Crypto) (pool : List MempoolEntry) :
    PoolCall → Prop
  | .add req =>
    let size := req.tx.serialize.length
    let feeRate := feeRateOf req.tx req.feeUnits
    (admissionChecks chain rules C pool req).isOk → hasRoom size (remaining pool size feeRate) →
      ∀ i ∈ req.tx.inputs, chain.getUTXO (outPointOf i) = none →
        i.isCoinbase = false ∧ ∀ p ∈ pool, p.key = i.prevTxHash → ¬ CrowdedOut pool size feeRate p
  | _ => True

theorem Connected.insert (h : Connected chain pool) (hne : ∀ p ∈ pool, p.key ≠ e.key)
    (he : ∀ i ∈ e.tx.inputs, Named chain pool e.key i) : Connected chain (insertEntry e pool) := by
  intro x hx i hi
  have hnamed : Named chain pool x.key i := by
    rcases mem_cons.mp ((insertEntry_perm e pool).subset hx) with rfl | hmem
    · exact he i hi
    · exact h x hmem i hi
  exact hnamed.imp_right fun ⟨p, hp, hrest⟩ =>
    ⟨p, (insertEntry_perm e pool).symm.subset (mem_cons_of_mem _ hp), hrest⟩

theorem add_connected_iff (hs : PoolSound C pool) (h : Connected chain pool) (req : AddRequest) :
    Connected chain (add chain rules C pool req).2 ↔ (PoolCall.add req).Safe chain rules C pool := by
  rcases add_cases hs chain rules req with ⟨r, herr, heq⟩ | ⟨st, hok, heq⟩
  · rw [heq]
    refine ⟨fun _ hok => ?_, fun _ => h⟩
    rw [herr] at hok
    cases hok
  have hadm := admissionChecks_eq_ok hok
  rw [heq]
  simp only [PoolCall.Safe]
  generalize hsize : req.tx.serialize.length = size
  generalize hrate : feeRateOf req.tx req.feeUnits = feeRate
  have hrest : Connected chain (remaining pool size feeRate) := h.sweep_isChild hs _
  have hsub := remaining_sublist pool size feeRate
  split
  · next hroom =>
    constructor
    · -- the new entry is connected, so its parents stayed
      intro hconn _ _ i hi hu
      have hmem : newEntry C req st ∈ insertEntry (newEntry C req st) (remaining pool size feeRate) :=
        (insertEntry_perm _ _).symm.subset mem_cons_self
      rcases hconn _ hmem i hi with hsome | ⟨p, hp, hne, hkey, hidx⟩
      · rw [hu] at hsome
        cases hsome
      · have hp' : p ∈ remaining pool size feeRate := by
          rcases mem_cons.mp ((insertEntry_perm _ _).subset hp) with rfl | hp
          · exact absurd rfl hne
          · exact hp
        refine ⟨hs.not_null (hsub.subset hp') hidx, fun q hq hqkey => ?_⟩
        rw [hs.eq_of_key hq (hsub.subset hp') (hqkey.trans hkey.symm)]
        exact (mem_sweep.mp hp').2
    · -- the parents stayed, so the new entry is connected
      intro hsafe
      refine hrest.insert (fun p hp => hadm.fresh p (hsub.subset hp)) fun i hi => ?_
      cases hu : chain.getUTXO (outPointOf i) with
      | some u => exact .inl (by rw [hu]; rfl)
      | none =>
        obtain ⟨hnull, hstay⟩ := hsafe (by rw [hok]; rfl) hroom i hi hu
        obtain ⟨p, hp, hkey, hidx⟩ := hadm.named i hi hnull hu
        exact .inr ⟨p, mem_sweep.mpr ⟨hp, hstay p hp hkey⟩, hadm.fresh p hp, hkey, hidx⟩
  · next hroom => exact ⟨fun _ _ hroom' => absurd hroom' hroom, fun _ => hrest⟩

/-- A connected pool stays connected exactly when the transaction to add keeps the parents it needs. -/
theorem pool_stays_connected_iff (pool : Pool C) (chain : ChainView) (rules : PoolRules)
    (h : Connected chain pool.entries) (call : PoolCall) :
    Connected chain (pool.run chain rules call).entries ↔ call.Safe chain rules C pool.entries := by
  cases call with
  | add req => exact add_connected_iff pool.sound h req
  | expireOld now => exact ⟨fun _ => trivial, fun _ => h.sweep_isChild pool.sound _⟩
  | purgeInvalidAgainst =>
    exact ⟨fun _ => trivial, fun _ => h.purgeInvalidAgainst fun key => (chain.getUTXO key).isSome⟩
  | removeStale => exact ⟨fun _ => trivial, fun _ => h.removeStale pool.sound⟩
  | sweepOrphans => exact ⟨fun _ => trivial, fun _ => h.sweep_isChild pool.sound _⟩

end

/-! ### A parent evicted for its child -/

def sampleSource : Hash256 := .fill 1

/-- A chain with an unspent output at every index of one transaction. -/
def samplePoolView : ChainView where
  height := 0
  getUTXO key := if key.1 = sampleSource then some ⟨key.1, key.2, 5000, [0x77], 0, false⟩ else none
  validateTransactionLocking _ := true
  validateCachedMempoolLockingContext _ := true
  validateMempoolCanonicalInput _ _ _ := .ok ()
  verifyInputAgainstScript _ _ _ := true

def samplePoolRules : PoolRules where
  screen _ _ := none
  isAmmPoolScript _ := false
  needsCanonicalInputs _ := false
  markers _ _ := none
  ammInvalid _ _ := false
  nmsStale _ := false

def samplePayment (k : Nat) : Transaction :=
  ⟨UInt32.ofNat k, [⟨sampleSource, UInt32.ofNat k, [], 0⟩], [⟨4000, [0x77]⟩], 0⟩

def samplePooled (feeRate k : Nat) : MempoolEntry :=
  ⟨(samplePayment k).getTxID Crypto.firstBytes, samplePayment k, feeRate, 0, false, true⟩

/-- A full pool: the cheapest payment and 49999 dearer ones. -/
def sampleFullPool : List MempoolEntry :=
  samplePooled 1 49999 :: (List.range 49999).map (samplePooled 100)

/-- Spends the output of the cheapest payment. -/
def sampleChildRequest : AddRequest where
  tx := ⟨60000, [⟨(samplePayment 49999).getTxID Crypto.firstBytes, 0, [], 0⟩], [⟨3000, [0x77]⟩], 0⟩
  feeUnits := 1000
  currentHeight := 0
  now := 0

theorem take_getTxID_firstBytes (tx : Transaction) :
    (tx.getTxID Crypto.firstBytes).bytes.take 4 = putLE 4 tx.version.toNat := by
  have hlen : (putLE 4 tx.version.toNat).length = 4 := putLE_length _ _
  simp only [Transaction.getTxID, hash256d, Crypto.firstBytes, Transaction.serialize, append_assoc,
    take_append, take_take, hlen]
  simp [take_of_length_le, hlen]

theorem version_of_txid {tx tx' : Transaction} (h : tx.getTxID Crypto.firstBytes = tx'.getTxID Crypto.firstBytes) :
    tx.version = tx'.version := by
  have hb := take_getTxID_firstBytes tx
  rw [h, take_getTxID_firstBytes] at hb
  have hv := congrArg getLE hb
  rw [getLE_putLE tx'.version.toNat_lt, getLE_putLE tx.version.toNat_lt] at hv
  exact UInt32.toNat_inj.mp hv.symm

theorem mem_sampleFullPool {e : MempoolEntry} (h : e ∈ sampleFullPool) :
    ∃ feeRate k, k < 50000 ∧ e = samplePooled feeRate k := by
  rcases mem_cons.mp h with rfl | h
  · exact ⟨1, 49999, by omega, rfl⟩
  · obtain ⟨k, hk, rfl⟩ := mem_map.mp h
    exact ⟨100, k, by have := mem_range.mp hk; omega, rfl⟩

theorem nodup_samples {α : Type} {f : UInt32 → α} (hf : f.Injective) :
    ((49999 :: List.range 49999).map fun k => f (UInt32.ofNat k)).Nodup := by
  refine List.Nodup.map_on (fun k hk k' hk' h => ?_) (nodup_cons.mpr ⟨by simp, nodup_range⟩)
  have hv := congrArg UInt32.toNat (hf h)
  simp only [mem_cons, mem_range, UInt32.toNat_ofNat'] at hk hk' hv
  omega

theorem spends_samplePayment (k : Nat) : spends (samplePayment k) = [(sampleSource, UInt32.ofNat k)] := by
  have hzero : sampleSource.isZero = false := by decide
  simp [spends, samplePayment, TxInput.isCoinbase, outPointOf, hzero]

theorem sampleFullPool_sound : PoolSound Crypto.firstBytes sampleFullPool where
  keyed e he := by
    obtain ⟨feeRate, k, -, rfl⟩ := mem_sampleFullPool he
    rfl
  keys := by
    have hkeys : sampleFullPool.map MempoolEntry.key =
        (49999 :: List.range 49999).map fun k => (samplePayment k).getTxID Crypto.firstBytes := by
      simp [sampleFullPool, samplePooled, Function.comp_def]
    rw [hkeys]
    exact nodup_samples (f := fun v => Transaction.getTxID Crypto.firstBytes
      ⟨v, [⟨sampleSource, v, [], 0⟩], [⟨4000, [0x77]⟩], 0⟩) fun _ _ h => version_of_txid h
  ordered := by
    refine pairwise_cons.mpr ⟨fun e he => ?_, pairwise_map.mpr (pairwise_of_forall fun _ _ => ?_)⟩
    · obtain ⟨k, -, rfl⟩ := mem_map.mp he
      simp [samplePooled]
    · simp [samplePooled]
  valid e he := by
    obtain ⟨feeRate, k, -, rfl⟩ := mem_sampleFullPool he
    have hspends := spends_samplePayment k
    simp only [spends] at hspends
    simp only [isValid, samplePooled, hspends]
    simp [samplePayment, totalOutput, maxSupplyUnits, maxTransactionInputs, maxTransactionOutputs,
      maxTransactionScriptSigBytes, outputValid, isOpReturn, maxSpendableScriptPubkeyBytes]
  spendsOnce := by
    have hspent : spentOutputs sampleFullPool =
        (49999 :: List.range 49999).map fun k => (sampleSource, UInt32.ofNat k) := by
      simp only [spentOutputs, sampleFullPool, samplePooled, flatMap_map, flatMap_cons,
        spends_samplePayment, map_cons, singleton_append]
      exact congrArg _ map_eq_flatMap.symm
    rw [hspent]
    exact nodup_samples (Prod.mk_right_injective sampleSource)

theorem connected_of_subset {pool : List MempoolEntry} (h : pool ⊆ sampleFullPool) : Connected samplePoolView pool := by
  intro e he i hi
  obtain ⟨feeRate, k, -, rfl⟩ := mem_sampleFullPool (h he)
  rw [mem_singleton.mp hi]
  exact .inl (by simp [samplePoolView, outPointOf])

theorem sampleFullPool_connected : Connected samplePoolView sampleFullPool := connected_of_subset (Subset.refl _)

theorem length_sampleFullPool : sampleFullPool.length = 50000 := by
  rw [sampleFullPool, length_cons, length_map, length_range]

theorem totalBytes_sampleFullPool : totalBytes sampleFullPool ≤ 50000 * 61 := by
  have hle : ∀ n ∈ sampleFullPool.map MempoolEntry.txSizeBytes, n ≤ 61 := by
    intro n hn
    obtain ⟨e, he, rfl⟩ := mem_map.mp hn
    obtain ⟨feeRate, k, -, rfl⟩ := mem_sampleFullPool he
    simp [MempoolEntry.txSizeBytes, samplePooled, samplePayment, Transaction.serialize, TxInput.serialize,
      TxOutput.serialize, putVarint, putScriptLen, sampleSource, Hash256.fill]
  have hsum := sum_le_card_nsmul _ 61 hle
  rwa [length_map, length_sampleFullPool, smul_eq_mul] at hsum

theorem sampleParent_unconfirmed : (samplePayment 49999).getTxID Crypto.firstBytes ≠ sampleSource ∧
    samplePoolView.getUTXO ((samplePayment 49999).getTxID Crypto.firstBytes, 0) = none := by
  have hsource : (samplePayment 49999).getTxID Crypto.firstBytes ≠ sampleSource := by decide +kernel
  exact ⟨hsource, by simp [samplePoolView, hsource]⟩

theorem sampleChild_admitted : (admissionChecks samplePoolView samplePoolRules Crypto.firstBytes
    sampleFullPool sampleChildRequest).isOk = true := by
  have hfresh : findEntry sampleFullPool (sampleChildRequest.tx.getTxID Crypto.firstBytes) = none := by
    refine List.find?_eq_none.mpr fun e he hkey => ?_
    obtain ⟨feeRate, k, hk, rfl⟩ := mem_sampleFullPool he
    have hkey : (samplePayment k).getTxID Crypto.firstBytes = sampleChildRequest.tx.getTxID Crypto.firstBytes :=
      beq_iff_eq.mp hkey
    have hv : k % 2 ^ 32 = 60000 := congrArg UInt32.toNat (version_of_txid hkey)
    omega
  have hparent : findEntry sampleFullPool ((samplePayment 49999).getTxID Crypto.firstBytes) =
      some (samplePooled 1 49999) := List.find?_cons_of_pos (beq_self_eq_true _)
  have hunspent : ((samplePayment 49999).getTxID Crypto.firstBytes, (0 : UInt32)) ∉
      spentOutputs sampleFullPool := by
    intro hmem
    obtain ⟨e, he, hkey⟩ := mem_flatMap.mp hmem
    obtain ⟨feeRate, k, -, rfl⟩ := mem_sampleFullPool he
    rw [show (samplePooled feeRate k).tx = samplePayment k from rfl, spends_samplePayment,
      mem_singleton] at hkey
    exact sampleParent_unconfirmed.1 (congrArg Prod.fst hkey)
  have hu := sampleParent_unconfirmed.2
  have hnull : (⟨(samplePayment 49999).getTxID Crypto.firstBytes, 0, [], 0⟩ : TxInput).isCoinbase = false := by
    decide
  have hcanonical : allInputsCanonical samplePoolView sampleChildRequest.tx = false := by
    simp [allInputsCanonical, sampleChildRequest, hnull, outPointOf, hu]
  have hvalid : isValid sampleChildRequest.tx := by decide +kernel
  have hsize : ¬ maxRelayTxBytes < sampleChildRequest.tx.serialize.length := by decide +kernel
  have hfee : ¬ feeRateOf sampleChildRequest.tx sampleChildRequest.feeUnits < minFeeRate := by decide +kernel
  have hdust : hasDustOutput sampleChildRequest.tx dustThresholdUnits = false := by decide +kernel
  have hresolve : resolveInput samplePoolView samplePoolRules sampleFullPool sampleChildRequest ⟨[], 0, true⟩
      (⟨(samplePayment 49999).getTxID Crypto.firstBytes, 0, [], 0⟩, 0) =
      .ok ⟨[((samplePayment 49999).getTxID Crypto.firstBytes, 0)], 4000, false⟩ := by
    unfold resolveInput
    simp only [hnull, outPointOf, hunspent, hu, hparent]
    rfl
  have hinputs : sampleChildRequest.tx.inputs.zipIdx =
    [(⟨(samplePayment 49999).getTxID Crypto.firstBytes, 0, [], 0⟩, 0)] := rfl
  have htotal : totalOutput sampleChildRequest.tx = 3000 := by decide +kernel
  simp only [admissionChecks, hfresh, hvalid, hsize, hfee, hdust, hcanonical, hinputs, foldlM_cons,
    foldlM_nil, hresolve, htotal]
  rfl

theorem sampleFullPool_full : hasRoom sampleChildRequest.tx.serialize.length sampleFullPool = false := by
  simp [hasRoom, length_sampleFullPool, maxTxCount]

theorem sampleParent_crowdedOut : CrowdedOut sampleFullPool sampleChildRequest.tx.serialize.length
    (feeRateOf sampleChildRequest.tx sampleChildRequest.feeUnits) (samplePooled 1 49999) := by
  refine .root mem_cons_self ?_
  have hbefore : before sampleFullPool (samplePooled 1 49999) = [] := by
    simp [before, sampleFullPool]
  have hrate : (samplePooled 1 49999).feeRate <
      feeRateOf sampleChildRequest.tx sampleChildRequest.feeUnits := by decide +kernel
  have hroom : hasRoom sampleChildRequest.tx.serialize.length (sweep isChild
      (fun x => decide (x ∈ before sampleFullPool (samplePooled 1 49999))) sampleFullPool) = false := by
    simp only [hbefore, not_mem_nil, decide_false, sweep_none, sampleFullPool_full]
  simp only [makesWay, taken, hrate, hroom, decide_true, Bool.not_false, Bool.and_self]

theorem sampleFullPool_room : hasRoom sampleChildRequest.tx.serialize.length
    (remaining sampleFullPool sampleChildRequest.tx.serialize.length
      (feeRateOf sampleChildRequest.tx sampleChildRequest.feeUnits)) = true := by
  generalize hrem : remaining sampleFullPool sampleChildRequest.tx.serialize.length
    (feeRateOf sampleChildRequest.tx sampleChildRequest.feeUnits) = rest
  have hsub : rest.Sublist sampleFullPool := hrem ▸ remaining_sublist _ _ _
  have hgone : samplePooled 1 49999 ∉ rest := fun hmem =>
    (mem_sweep.mp (hrem ▸ hmem : samplePooled 1 49999 ∈ remaining _ _ _)).2 sampleParent_crowdedOut
  have hlen : rest.length < 50000 := by
    rw [← length_sampleFullPool]
    refine lt_of_le_of_ne hsub.length_le fun heq => hgone ?_
    rw [hsub.eq_of_length heq]
    exact mem_cons_self
  have hbytes := (totalBytes_le hsub).trans totalBytes_sampleFullPool
  have hsize : sampleChildRequest.tx.serialize.length = 61 := by decide +kernel
  simp only [hasRoom, maxTxCount, maxMempoolBytes, Bool.and_eq_true, hsize]
  exact ⟨decide_eq_true hlen, decide_eq_true (by omega)⟩

def samplePool : Pool Crypto.firstBytes := ⟨sampleFullPool, sampleFullPool_sound⟩

/-- The child is accepted and its parent is gone. -/
theorem pool_keeps_orphan : Connected samplePoolView samplePool.entries ∧
    ¬ Connected samplePoolView
      (samplePool.run samplePoolView samplePoolRules (.add sampleChildRequest)).entries := by
  refine ⟨sampleFullPool_connected, fun hconn => ?_⟩
  rw [Pool.run_add] at hconn
  have hsafe := (add_connected_iff samplePool.sound sampleFullPool_connected sampleChildRequest).mp hconn
  exact (hsafe sampleChild_admitted sampleFullPool_room _ mem_cons_self sampleParent_unconfirmed.2).2
    (samplePooled 1 49999) mem_cons_self rfl sampleParent_crowdedOut

theorem sampleParent_sublist : [samplePooled 1 49999].Sublist sampleFullPool := (nil_sublist _).cons_cons _

def sampleParentPool : Pool Crypto.firstBytes := ⟨_, sampleFullPool_sound.sublist sampleParent_sublist⟩

/-- With room for both the child is added and the parent stays. -/
theorem pool_stays_connected_iff_sample :
    let pool := sampleParentPool.run samplePoolView samplePoolRules (.add sampleChildRequest)
    pool.entries.length = 2 ∧ Connected samplePoolView pool.entries := by
  have hstays : samplePooled 1 49999 ∈ remaining [samplePooled 1 49999] sampleChildRequest.tx.serialize.length
      (feeRateOf sampleChildRequest.tx sampleChildRequest.feeUnits) := by decide +kernel
  refine ⟨by decide +kernel, (pool_stays_connected_iff sampleParentPool samplePoolView samplePoolRules
    (connected_of_subset sampleParent_sublist.subset) (.add sampleChildRequest)).mpr fun _ _ i hi _ => ?_⟩
  rw [mem_singleton.mp hi]
  refine ⟨by decide, fun p hp _ => ?_⟩
  rw [mem_singleton.mp hp]
  exact (mem_sweep.mp hstays).2

end Veld.Chain
