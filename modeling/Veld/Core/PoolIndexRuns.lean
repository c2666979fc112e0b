import Veld.Core.PoolIndexes
import Veld.Core.PoolOrphans

/-!
# The indexes are functions of the entries

`Indexed` says of every index what it is in terms of the entries. `RemoveInternal` keeps it for every key, so every
sweep and every eviction does; the end of `Add` keeps it for a transaction that passed the checks on the indexes.
-/

namespace Veld.Chain.IndexedPool

open Wire List Table

section

variable {M : Markers} {p p' : IndexedPool} {key k : Hash256} {e : MempoolEntry} {o : OutPoint}

/-- What the indexes are. -/
structure Indexed (M : Markers) (p : IndexedPool) : Prop where
  keyed : ∀ {k e}, p.entries.lookup k = some e → e.key = k
  bytes : p.totalBytes = p.entries.total MempoolEntry.txSizeBytes
  bytes_le : p.totalBytes ≤ maxMempoolBytes
  count_le : p.entries.entries.length ≤ maxTxCount
  fees : p.feeIndex.Perm (p.entries.entries.map fun row => (row.2.feeRate, row.1))
  spender : ∀ {o k}, p.spentByTx.lookup o = some k ↔ ∃ e, p.entries.lookup k = some e ∧ o ∈ spends e.tx
  spent : ∀ {o}, o ∈ p.spentOutputs ↔ (p.spentByTx.lookup o).isSome
  nodup : ∀ {k e}, p.entries.lookup k = some e → (spends e.tx).Nodup
  tokens : p.tokenMarkerCount = p.entries.total fun e => if M.tokenFamily e.tx then 1 else 0
  deposits : ∀ d, (p.pendingTokenReplayCounts.lookup d).getD 0 =
    p.entries.total fun e => if M.replayKey e.tx = some d then 1 else 0
  stakers : ∀ {staker k}, p.pendingStakers.lookup staker = some k →
    ∃ e, p.entries.lookup k = some e ∧ staker ∈ M.stakeAddresses e.tx
  amm : ∀ {k e}, p.entries.lookup k = some e → M.carriesAmm e.tx → p.pendingAmmTx = some k

def Within (p p' : IndexedPool) : Prop := ∀ {k e}, p'.entries.lookup k = some e → p.entries.lookup k = some e

theorem mem_listed (h : Indexed M p) : e ∈ p.listed ↔ p.entries.lookup e.key = some e := by
  constructor
  · intro he
    obtain ⟨row, -, hlookup⟩ := mem_filterMap.mp he
    rw [h.keyed hlookup]
    exact hlookup
  · intro hlookup
    have hrow : (e.feeRate, e.key) ∈ p.feeIndex :=
      h.fees.mem_iff.mpr (mem_map.mpr ⟨⟨e.key, e⟩, mem_of_lookup hlookup, rfl⟩)
    exact mem_filterMap.mpr ⟨_, hrow, hlookup⟩

/-! ## Removal -/

/-- The spent outputs are those with a spender. -/
def Matched (spent : Finset OutPoint × Table OutPoint Hash256) : Prop := ∀ o, o ∈ spent.1 ↔ (spent.2.lookup o).isSome

variable {spent : Finset OutPoint × Table OutPoint Hash256}

theorem release_matched (h : Matched spent) (key : Hash256) (outputs : List OutPoint) :
    Matched (outputs.foldl (release key) spent) := by
  refine List.foldlRecOn outputs (release key) h fun spent h first _ o => ?_
  unfold release
  split_ifs
  · rw [Finset.mem_erase, h o, lookup_erase_ite]
    split_ifs with heq <;> simp [heq]
  · exact h o

theorem lookup_release (key : Hash256) (outputs : List OutPoint) (o : OutPoint) :
    (outputs.foldl (release key) spent).2.lookup o = some k ↔ spent.2.lookup o = some k ∧ (o ∈ outputs → k ≠ key) := by
  rw [← lookup_foldl_erase, foldl_hom Prod.snd fun spent first => ?_]
  unfold release
  split_ifs <;> rfl

theorem getD_unreserve (counts : Table Bytes Nat) (deposit d : Bytes) :
    ((unreserve counts deposit).lookup d).getD 0 = (counts.lookup d).getD 0 - if deposit = d then 1 else 0 := by
  unfold unreserve
  split
  · rename_i hnone
    split_ifs with heq
    · subst heq
      rw [hnone]
      rfl
    · rfl
  · rename_i n hsome
    split_ifs with hsmall heq heq
    · subst heq
      rw [lookup_erase_ite, if_pos rfl, hsome, Option.getD_none, Option.getD_some]
      omega
    · rw [lookup_erase_ite, if_neg (Ne.symm heq), Nat.sub_zero]
    · subst heq
      rw [AList.lookup_insert, hsome, Option.getD_some, Option.getD_some]
    · rw [AList.lookup_insert_ne (Ne.symm heq), Nat.sub_zero]

theorem removeInternal_indexed (h : Indexed M p) (key : Hash256) :
    Indexed M (p.removeInternal M key) ∧ Within p (p.removeInternal M key) := by
  unfold removeInternal
  cases hentry : p.entries.lookup key with
  | none => exact ⟨h, id⟩
  | some e =>
    have htotal {f : MempoolEntry → Nat} : Table.total f (p.entries.erase key) + f e = p.entries.total f := by
      have herase := total_erase (f := f) key p.entries
      rw [hentry] at herase
      exact herase
    have hkept {k e'} := (@lookup_erase_eq_some _ _ _ p.entries key e' k).mp
    have hstays {k} {P : MempoolEntry → Prop} (hnot : P e → k ≠ key) (hk : ∃ e', p.entries.lookup k = some e' ∧ P e') :
        ∃ e', (p.entries.erase key).lookup k = some e' ∧ P e' := by
      obtain ⟨e', he', hP⟩ := hk
      refine ⟨e', lookup_erase_eq_some.mpr ⟨?_, he'⟩, hP⟩
      rintro rfl
      exact hnot (Option.some.inj (he'.symm.trans hentry) ▸ hP) rfl
    refine ⟨?_, fun hk => (hkept hk).2⟩
    have hbytes := htotal (f := MempoolEntry.txSizeBytes)
    have htokens := htotal (f := fun e => if M.tokenFamily e.tx then 1 else 0)
    refine {
      keyed := fun hk => h.keyed (hkept hk).2
      bytes := ?_
      bytes_le := (Nat.sub_le _ _).trans h.bytes_le
      count_le := (length_erase_le p.entries key).trans h.count_le
      fees := ?_
      spender := fun {o k} => ?_
      spent := fun {o} => @release_matched (p.spentOutputs, p.spentByTx) (fun _ => h.spent) key (spends e.tx) o
      nodup := fun hk => h.nodup (hkept hk).2
      tokens := ?_
      deposits := fun d => ?_
      stakers := fun {staker k} hk => ?_
      amm := fun {k e'} hk hamm => ?_ }
    · have hb := h.bytes
      dsimp only
      omega
    · have hperm := ((perm_cons_erase hentry).map fun row : Sigma fun _ => MempoolEntry => (row.2.feeRate, row.1))
      have herased := (h.fees.trans hperm).erase (e.feeRate, key)
      rw [map_cons, erase_cons_head] at herased
      exact herased
    · rw [lookup_release]
      constructor
      · rintro ⟨hk, hnot⟩
        exact hstays hnot (h.spender.mp hk)
      · rintro ⟨e', he', ho⟩
        obtain ⟨hne, he'⟩ := hkept he'
        exact ⟨h.spender.mpr ⟨e', he', ho⟩, fun _ => hne⟩
    · have ht := h.tokens
      dsimp only at htokens ⊢
      cases hfamily : M.tokenFamily e.tx with
      | false =>
        rw [hfamily] at htokens
        simp only [Bool.false_and, Bool.false_eq_true, if_false] at htokens ⊢
        omega
      | true =>
        rw [hfamily] at htokens
        simp only [if_true] at htokens
        have hpos : 0 < p.tokenMarkerCount := by omega
        simp only [Bool.true_and, hpos, decide_true, if_true]
        omega
    · have hd := h.deposits d
      have hcount := htotal (f := fun e => if M.replayKey e.tx = some d then 1 else 0)
      dsimp only at hcount ⊢
      cases hreplay : M.replayKey e.tx with
      | none =>
        rw [hreplay, if_neg nofun] at hcount
        dsimp only
        omega
      | some deposit =>
        rw [hreplay] at hcount
        dsimp only
        rw [getD_unreserve, hd]
        simp only [Option.some.injEq] at hcount
        split_ifs at hcount ⊢ <;> omega
    · obtain ⟨hk, hnot⟩ := (lookup_foldl_erase _).mp hk
      exact hstays hnot (h.stakers hk)
    · obtain ⟨hne, he'⟩ := hkept hk
      have hslot := h.amm he' hamm
      dsimp only
      rw [hslot, if_neg fun heq => hne (Option.some.inj heq)]

theorem removeKeys_indexed (keys : List Hash256) (h : Indexed M p) :
    Indexed M (p.removeKeys M keys) ∧ Within p (p.removeKeys M keys) := by
  unfold removeKeys
  induction keys generalizing p with
  | nil => exact ⟨h, id⟩
  | cons key rest ih =>
    obtain ⟨hfirst, hwithin⟩ := removeInternal_indexed h key
    obtain ⟨hrest, hwithin'⟩ := ih hfirst
    exact ⟨hrest, fun hk => hwithin (hwithin' hk)⟩

theorem sweepTo_indexed (kept : List MempoolEntry) (h : Indexed M p) :
    Indexed M (p.sweepTo M kept) ∧ Within p (p.sweepTo M kept) := removeKeys_indexed _ h

theorem evict_indexed (rate : Nat) (h : Indexed M p) : Indexed M (p.evict M rate).2 ∧ Within p (p.evict M rate).2 := by
  unfold evict
  split
  · exact ⟨h, id⟩
  · split_ifs
    · exact ⟨h, id⟩
    · exact sweepTo_indexed _ h

theorem evictLoop_indexed (size rate n : Nat) (h : Indexed M p) :
    Indexed M (evictLoop M size rate n p).2 ∧ Within p (evictLoop M size rate n p).2 ∧
      ((evictLoop M size rate n p).1 → (evictLoop M size rate n p).2.hasRoom size) := by
  induction n generalizing p with
  | zero => exact ⟨h, id, id⟩
  | succ n ih =>
    unfold evictLoop
    by_cases hroom : p.hasRoom size = true
    · rw [if_pos hroom]
      exact ⟨h, id, fun _ => hroom⟩
    · rw [if_neg hroom]
      obtain ⟨hevict, hwithin⟩ := evict_indexed rate h
      cases hresult : p.evict M rate with
      | mk done p' =>
        rw [hresult] at hevict hwithin
        cases done with
        | true =>
          obtain ⟨hrest, hwithin', hroom'⟩ := ih hevict
          exact ⟨hrest, fun hk => hwithin (hwithin' hk), hroom'⟩
        | false => exact ⟨hevict, hwithin, nofun⟩

/-! ## Sweeps -/

theorem purgeInvalidAmmEntries_indexed (rules : PoolRules) (h : Indexed M p) :
    Indexed M (p.purgeInvalidAmmEntries M rules) := by
  obtain ⟨hswept, hwithin⟩ := sweepTo_indexed (Chain.purgeInvalidAmmEntries rules p.listed) h
  unfold purgeInvalidAmmEntries
  dsimp only
  generalize p.sweepTo M (Chain.purgeInvalidAmmEntries rules p.listed) = p' at hswept hwithin
  refine { hswept with amm := fun {k e} hk hamm => ?_ }
  have honly : ∀ {e'}, p'.entries.lookup e'.key = some e' → M.carriesAmm e'.tx → e'.key = k := fun he' hamm' =>
    Option.some.inj ((hswept.amm he' hamm').symm.trans (hswept.amm hk hamm))
  dsimp only
  split
  · rename_i e' hretained
    obtain ⟨hfound, hpooled⟩ := Option.filter_eq_some_iff.mp hretained
    have hmem := (mem_listed h).mp (mem_reverse.mp (mem_of_find?_eq_some hfound))
    have hcarries := List.find?_some hfound
    rw [Bool.and_eq_true] at hcarries
    obtain ⟨e'', he''⟩ := Option.isSome_iff_exists.mp hpooled
    obtain rfl := Option.some.inj (hmem.symm.trans (hwithin he''))
    rw [honly he'' hcarries.1]
  · have hkey := hswept.keyed hk
    have hmem : e ∈ p'.listed := (mem_listed hswept).mpr (hkey ▸ hk)
    obtain ⟨e', he'⟩ := Option.isSome_iff_exists.mp
      (List.find?_isSome.mpr ⟨e, hmem, hamm⟩ : (p'.listed.find? fun e => M.carriesAmm e.tx).isSome)
    have hcarries : M.carriesAmm e'.tx := by simpa using List.find?_some he'
    rw [he', Option.map_some, honly ((mem_listed hswept).mp (mem_of_find?_eq_some he')) hcarries]

theorem relock_indexed (chain : ChainView) (h : Indexed M p) :
    Indexed M { p with entries := p.entries.mapRows fun _ e => markRelocked chain e } := by
  have hrow : ∀ {k e}, (p.entries.mapRows fun _ e => markRelocked chain e).lookup k = some e →
      ∃ e', p.entries.lookup k = some e' ∧ markRelocked chain e' = e := by
    intro k e hk
    rw [lookup_mapRows] at hk
    exact Option.map_eq_some_iff.mp hk
  have hback : ∀ {k e}, p.entries.lookup k = some e →
      (p.entries.mapRows fun _ e => markRelocked chain e).lookup k = some (markRelocked chain e) := by
    intro k e hk
    rw [lookup_mapRows, hk]
    rfl
  have htotal {f : MempoolEntry → Nat} (hf : ∀ e, f (markRelocked chain e) = f e) :
      Table.total f (p.entries.mapRows fun _ e => markRelocked chain e) = p.entries.total f := by
    unfold Table.total Table.mapRows
    rw [map_map]
    exact congrArg List.sum (map_congr_left fun row _ => hf row.2)
  refine {
    keyed := fun hk => ?_
    bytes := h.bytes.trans (htotal fun _ => rfl).symm
    bytes_le := h.bytes_le
    count_le := ?_
    fees := ?_
    spender := fun {o k} => ?_
    spent := h.spent
    nodup := fun hk => ?_
    tokens := h.tokens.trans (htotal fun _ => rfl).symm
    deposits := fun d => (h.deposits d).trans (htotal fun _ => rfl).symm
    stakers := fun hk => ?_
    amm := fun hk hamm => ?_ }
  · obtain ⟨e', he', rfl⟩ := hrow hk
    exact h.keyed (e := e') he'
  · rw [Table.mapRows, length_map]
    exact h.count_le
  · rw [Table.mapRows, map_map]
    exact h.fees
  · rw [h.spender]
    constructor
    · rintro ⟨e, he, ho⟩
      exact ⟨_, hback he, ho⟩
    · rintro ⟨e, he, ho⟩
      obtain ⟨e', he', rfl⟩ := hrow he
      exact ⟨e', he', ho⟩
  · obtain ⟨e', he', rfl⟩ := hrow hk
    exact h.nodup (e := e') he'
  · obtain ⟨e, he, hstaker⟩ := h.stakers hk
    exact ⟨_, hback he, hstaker⟩
  · obtain ⟨e', he', rfl⟩ := hrow hk
    exact h.amm he' hamm

/-! ## Admission -/

theorem insertFee_perm (row : Nat × Hash256) (rows : List (Nat × Hash256)) :
    (insertFee row rows).Perm (row :: rows) := by
  induction rows with
  | nil => exact .refl _
  | cons other rest ih =>
    unfold insertFee
    split_ifs
    · exact (ih.cons other).trans (.swap row other rest)
    · exact .refl _

theorem occupy_matched (h : Matched spent) (key : Hash256) (outputs : List OutPoint) :
    Matched (outputs.foldl (occupy key) spent) := by
  refine List.foldlRecOn outputs (occupy key) h fun spent h first _ o => ?_
  unfold occupy
  rw [Finset.mem_insert, h o]
  split_ifs with hheld
  · exact or_iff_right_of_imp fun heq => heq ▸ hheld
  · rw [lookup_insert_ite]
    split_ifs with heq <;> simp [heq]

theorem lookup_occupy (key : Hash256) (outputs : List OutPoint) (o : OutPoint) :
    (outputs.foldl (occupy key) spent).2.lookup o =
      if (spent.2.lookup o).isNone ∧ o ∈ outputs then some key else spent.2.lookup o := by
  induction outputs generalizing spent with
  | nil => simp
  | cons first rest ih =>
    have hfirst : (occupy key spent first).2.lookup o =
        if (spent.2.lookup o).isNone ∧ o = first then some key else spent.2.lookup o := by
      unfold occupy
      by_cases heq : o = first
      · subst heq
        cases hheld : spent.2.lookup o <;> simp [hheld]
      · cases hheld : (spent.2.lookup first).isSome <;> simp [heq]
    rw [foldl_cons, ih, hfirst]
    by_cases heq : o = first
    · subst heq
      cases hold : spent.2.lookup o <;> simp
    · simp [heq]

theorem lookup_stake (key : Hash256) (addresses : List Bytes) (stakers : Table Bytes Hash256) (staker : Bytes) :
    (addresses.foldl (fun stakers staker => stakers.insert staker key) stakers).lookup staker =
      if staker ∈ addresses then some key else stakers.lookup staker := by
  induction addresses generalizing stakers with
  | nil => simp
  | cons first rest ih =>
    rw [foldl_cons, ih, lookup_insert_ite]
    by_cases heq : staker = first
    · simp [heq]
    · simp [heq]

/-- A transaction that is new, spends nothing that is spent, finds the slot free and has room. -/
theorem insertEntry_indexed (h : Indexed M p) (hfresh : p.entries.lookup e.key = none) (hnodup : (spends e.tx).Nodup)
    (hunspent : ∀ o ∈ spends e.tx, o ∉ p.spentOutputs) (hroom : p.hasRoom e.txSizeBytes)
    (hslot : M.carriesAmm e.tx → ∀ {k e'}, p.entries.lookup k = some e' → M.carriesAmm e'.tx = false) :
    Indexed M (p.insertEntry M e) := by
  simp only [hasRoom, Bool.and_eq_true, decide_eq_true_eq] at hroom
  have htotal {f : MempoolEntry → Nat} : Table.total f (p.entries.insert e.key e) = p.entries.total f + f e :=
    total_insert_of_fresh hfresh
  have hcases {k e'} := (@lookup_insert_eq_some _ _ _ p.entries e.key e k e').mp
  have hold : ∀ {k e'}, p.entries.lookup k = some e' → (p.entries.insert e.key e).lookup k = some e' := by
    intro k e' hk
    have hne : k ≠ e.key := fun heq => by rw [heq, hfresh] at hk; cases hk
    exact (AList.lookup_insert_ne hne).trans hk
  have hnone : ∀ o ∈ spends e.tx, p.spentByTx.lookup o = none := fun o ho => by
    have hnot := hunspent o ho
    rw [h.spent] at hnot
    simpa using hnot
  refine {
    keyed := fun hk => ?_
    bytes := ?_
    bytes_le := hroom.2
    count_le := (length_insert_le p.entries e.key e).trans hroom.1
    fees := ?_
    spender := fun {o k} => ?_
    spent := fun {o} => @occupy_matched (p.spentOutputs, p.spentByTx) (fun _ => h.spent) e.key (spends e.tx) o
    nodup := fun hk => ?_
    tokens := ?_
    deposits := fun d => ?_
    stakers := fun {staker k} hk => ?_
    amm := fun {k e'} hk hamm => ?_ }
  · rcases hcases hk with ⟨rfl, rfl⟩ | ⟨-, hk⟩
    · rfl
    · exact h.keyed hk
  · exact (congrArg (· + e.txSizeBytes) h.bytes).trans htotal.symm
  · have hentries : (p.entries.insert e.key e).entries = ⟨e.key, e⟩ :: p.entries.entries.kerase e.key :=
      AList.entries_insert ..
    have hkerase : p.entries.entries.kerase e.key = p.entries.entries :=
      kerase_of_notMem_keys (dlookup_eq_none.mp hfresh)
    dsimp only [insertEntry]
    rw [hentries, hkerase, map_cons]
    exact (insertFee_perm _ _).trans (h.fees.cons _)
  · dsimp only [insertEntry]
    rw [lookup_occupy]
    constructor
    · intro hk
      split_ifs at hk with hnew
      · cases hk
        exact ⟨e, AList.lookup_insert _, hnew.2⟩
      · obtain ⟨e', he', ho⟩ := h.spender.mp hk
        exact ⟨e', hold he', ho⟩
    · rintro ⟨e', he', ho⟩
      rcases hcases he' with ⟨rfl, rfl⟩ | ⟨-, he'⟩
      · rw [if_pos ⟨by rw [hnone o ho]; rfl, ho⟩]
      · have hk := h.spender.mpr ⟨e', he', ho⟩
        rw [if_neg fun hnew => by rw [hk] at hnew; exact nomatch hnew.1]
        exact hk
  · rcases hcases hk with ⟨-, rfl⟩ | ⟨-, hk⟩
    · exact hnodup
    · exact h.nodup hk
  · dsimp only [insertEntry]
    rw [htotal, ← h.tokens]
    split_ifs <;> rfl
  · dsimp only [insertEntry]
    rw [htotal, ← h.deposits d]
    cases hreplay : M.replayKey e.tx with
    | none => rfl
    | some deposit =>
      dsimp only
      rw [lookup_insert_ite]
      by_cases heq : d = deposit
      · rw [if_pos heq, heq, if_pos rfl, Option.getD_some]
      · rw [if_neg heq, if_neg fun hsome => heq (Option.some.inj hsome).symm, Nat.add_zero]
  · dsimp only [insertEntry] at hk ⊢
    rw [lookup_stake] at hk
    split_ifs at hk with hnew
    · cases hk
      exact ⟨e, AList.lookup_insert _, hnew⟩
    · obtain ⟨e', he', hstaker⟩ := h.stakers hk
      exact ⟨e', hold he', hstaker⟩
  · dsimp only [insertEntry]
    rcases hcases hk with ⟨rfl, rfl⟩ | ⟨-, hk⟩
    · rw [if_pos hamm]
    · have hnew : M.carriesAmm e.tx = false := by
        by_contra hcarries
        exact absurd hamm (by rw [hslot (by simpa using hcarries) hk]; decide)
      rw [hnew]
      exact h.amm hk hamm

theorem admitEntry_indexed (chain : ChainView) (rules : PoolRules) (C : Crypto) (req : AddRequest) (h : Indexed M p)
    (hfresh : p.entries.lookup (req.tx.getTxID C) = none)
    (hslot : M.carriesAmm req.tx → ∀ {k e}, p.entries.lookup k = some e → M.carriesAmm e.tx = false) :
    Indexed M (p.admitEntry M chain rules C req).2 := by
  unfold admitEntry
  by_cases hspent : (spends req.tx).any (fun o => decide (o ∈ p.spentOutputs)) = true
  · rw [if_pos hspent]
    exact h
  · rw [if_neg hspent]
    cases hchecks : admissionChecks chain rules C p.listed req with
    | error r => exact h
    | ok st =>
      dsimp only
      split_ifs
      · exact h
      · exact h
      · exact h
      · obtain ⟨hloop, hwithin, hroom⟩ := evictLoop_indexed req.tx.serialize.length (feeRateOf req.tx req.feeUnits)
          p.totalBytes h
        cases hresult : evictLoop M req.tx.serialize.length (feeRateOf req.tx req.feeUnits) p.totalBytes p with
        | mk done p' =>
          rw [hresult] at hloop hwithin hroom
          cases done with
          | false => exact hloop
          | true =>
            have hvalid := (admissionChecks_eq_ok hchecks).valid
            simp only [isValid, Bool.and_eq_true, decide_eq_true_eq] at hvalid
            refine insertEntry_indexed hloop ?_ hvalid.2 (fun o ho hmem => ?_) (hroom rfl) fun hcarries {k e'} hk =>
              hslot hcarries (hwithin hk)
            · -- eviction brings nothing in
              cases hold : p'.entries.lookup (newEntry C req st).key with
              | none => rfl
              | some e' => cases hfresh.symm.trans (hwithin hold)
            · obtain ⟨k, hk⟩ := Option.isSome_iff_exists.mp (hloop.spent.mp hmem)
              obtain ⟨e', he', ho'⟩ := hloop.spender.mp hk
              have hin : o ∈ p.spentOutputs := by
                rw [h.spent, h.spender.mpr ⟨e', hwithin he', ho'⟩]
                rfl
              exact hspent (any_eq_true.mpr ⟨o, ho, decide_eq_true hin⟩)

theorem add_indexed (chain : ChainView) (rules : PoolRules) (C : Crypto) (req : AddRequest) (h : Indexed M p) :
    Indexed M (p.add M chain rules C req).2 := by
  unfold add
  by_cases hdup : (p.entries.lookup (req.tx.getTxID C)).isSome = true
  · rw [if_pos hdup]
    exact h
  · rw [if_neg hdup]
    by_cases hslot : (M.carriesAmm req.tx && p.ammTaken) = true
    · rw [if_pos hslot]
      exact h
    · rw [if_neg hslot]
      have hfresh : p.entries.lookup (req.tx.getTxID C) = none := by simpa using hdup
      -- when the slot is free, no entry has an operation
      have hfree : M.carriesAmm req.tx → ∀ {k e}, p.entries.lookup k = some e → M.carriesAmm e.tx = false := by
        intro hcarries k e hk
        by_contra hamm
        have htaken : p.ammTaken := by
          rw [ammTaken, h.amm hk (by simpa using hamm), Option.any_some, hk]
          rfl
        exact hslot (by rw [hcarries, htaken]; rfl)
      by_cases hcarries : M.carriesAmm req.tx = true
      · rw [if_pos hcarries]
        have hcleared : Indexed M { p with pendingAmmTx := none } :=
          { h with amm := fun hk hamm => absurd ((hfree hcarries hk).symm.trans hamm) nofun }
        exact admitEntry_indexed chain rules C req hcleared hfresh hfree
      · rw [if_neg hcarries]
        exact admitEntry_indexed chain rules C req h hfresh hfree

/-! ## Runs -/

theorem run_indexed (C : Crypto) (h : Indexed M p) (call : ChainView × PoolRules × Operation) :
    Indexed M (p.run M C call) := by
  obtain ⟨chain, rules, operation⟩ := call
  cases operation with
  | add req => exact add_indexed chain rules C req h
  | remove key => exact (removeInternal_indexed h key).1
  | removeConfirmed keys => exact (removeKeys_indexed keys h).1
  | expireOld now | purgeInvalidAgainst utxoExists => exact (sweepTo_indexed _ h).1
  | purgeInvalidAmmEntries => exact purgeInvalidAmmEntries_indexed rules h
  | removeStale => exact relock_indexed chain (sweepTo_indexed _ (purgeInvalidAmmEntries_indexed rules h)).1
  | sweepOrphans => exact (sweepTo_indexed _ h).1

theorem indexed_empty : Indexed M empty where
  keyed h := nomatch h
  bytes := rfl
  bytes_le := Nat.zero_le _
  count_le := Nat.zero_le _
  fees := .refl _
  spender := ⟨nofun, fun ⟨_, h, _⟩ => (nomatch h)⟩
  spent := ⟨fun h => absurd h (Finset.notMem_empty _), nofun⟩
  nodup h := nomatch h
  tokens := rfl
  deposits _ := rfl
  stakers h := nomatch h
  amm h := nomatch h

theorem runs_indexed (C : Crypto) (calls : List (ChainView × PoolRules × Operation)) (h : Indexed M p) :
    Indexed M (calls.foldl (run M C) p) := by
  induction calls generalizing p with
  | nil => exact h
  | cons call rest ih => exact ih (run_indexed C h call)

/-- After every sequence of operations: the byte total and the limits, the fee index, the spent outputs with one spender
each, the counts, the pending stakers and the one operation of the AMM. -/
theorem indexes_match_entries (M : Markers) (C : Crypto) (calls : List (ChainView × PoolRules × Operation)) :
    let p := calls.foldl (run M C) empty
    p.totalBytes = p.entries.total MempoolEntry.txSizeBytes ∧ p.totalBytes ≤ maxMempoolBytes ∧
    p.entries.entries.length ≤ maxTxCount ∧
    p.feeIndex.Perm (p.entries.entries.map fun row => (row.2.feeRate, row.1)) ∧
    (∀ {o}, o ∈ p.spentOutputs → ∃! k, ∃ e, p.entries.lookup k = some e ∧ o ∈ spends e.tx) ∧
    (∀ {k e}, p.entries.lookup k = some e → (spends e.tx).Nodup ∧ ∀ o ∈ spends e.tx, o ∈ p.spentOutputs) ∧
    p.tokenMarkerCount = p.entries.total (fun e => if M.tokenFamily e.tx then 1 else 0) ∧
    (∀ d, (p.pendingTokenReplayCounts.lookup d).getD 0 =
      p.entries.total fun e => if M.replayKey e.tx = some d then 1 else 0) ∧
    (∀ {staker k}, p.pendingStakers.lookup staker = some k →
      ∃ e, p.entries.lookup k = some e ∧ staker ∈ M.stakeAddresses e.tx) ∧
    ∀ {k k' e e'}, p.entries.lookup k = some e → p.entries.lookup k' = some e' → M.carriesAmm e.tx →
      M.carriesAmm e'.tx → k = k' := by
  have h : Indexed M (calls.foldl (run M C) empty) := runs_indexed C calls indexed_empty
  refine ⟨h.bytes, h.bytes_le, h.count_le, h.fees, fun {o} ho => ?_, fun {k e} hk => ⟨h.nodup hk, fun o ho => ?_⟩,
    h.tokens,
    h.deposits, h.stakers, fun hk hk' hamm hamm' => Option.some.inj ((h.amm hk hamm).symm.trans (h.amm hk' hamm'))⟩
  · obtain ⟨k, hk⟩ := Option.isSome_iff_exists.mp (h.spent.mp ho)
    refine ⟨k, h.spender.mp hk, fun k' hk' => ?_⟩
    exact Option.some.inj ((h.spender.mpr hk').symm.trans hk)
  · rw [h.spent, h.spender.mpr ⟨e, hk, ho⟩]
    rfl

end

end Veld.Chain.IndexedPool
