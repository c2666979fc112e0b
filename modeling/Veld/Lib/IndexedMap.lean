import Mathlib

/-!
# Maps with a secondary index, and their undo

A finite map is kept together with an index that lists, for each attribute of the values, the keys that have it.
-/

structure IndexedMap (κ ν ι : Type) where
  entries : Finmap fun _ : κ => ν
  index : Finmap fun _ : ι => Finset κ

namespace IndexedMap

open List

variable {κ ν ι : Type} [DecidableEq κ] [DecidableEq ι]

/-! ## The operations -/

section
variable (f : ν → ι)

def empty : IndexedMap κ ν ι := ⟨∅, ∅⟩

def unindex (k : κ) (i : ι) (index : Finmap fun _ : ι => Finset κ) : Finmap fun _ : ι => Finset κ :=
  match index.lookup i with
  | none => index
  | some keys => if keys.erase k = ∅ then index.erase i else index.insert i (keys.erase k)

def add (k : κ) (v : ν) (m : IndexedMap κ ν ι) : IndexedMap κ ν ι :=
  ⟨m.entries.insert k v, m.index.insert (f v) (insert k ((m.index.lookup (f v)).getD ∅))⟩

def remove (k : κ) (m : IndexedMap κ ν ι) : Option (IndexedMap κ ν ι) :=
  match m.entries.lookup k with
  | none => none
  | some v => some ⟨m.entries.erase k, unindex k (f v) m.index⟩

/-- Removes a key that may be missing. -/
def discard (k : κ) (m : IndexedMap κ ν ι) : IndexedMap κ ν ι := (m.remove f k).getD m

end

theorem lookup_insert_ite (s : Finmap fun _ : κ => ν) (k k' : κ) (v : ν) :
    (s.insert k v).lookup k' = if k' = k then some v else s.lookup k' := by
  split
  · subst k'
    exact Finmap.lookup_insert s
  · rename_i hne
    exact Finmap.lookup_insert_of_ne s hne

theorem lookup_erase_ite (s : Finmap fun _ : κ => ν) (k k' : κ) :
    (s.erase k).lookup k' = if k' = k then none else s.lookup k' := by
  split
  · subst k'
    exact Finmap.lookup_erase k s
  · rename_i hne
    exact Finmap.lookup_erase_ne hne

section
variable {α : Type} {key : α → κ} {g : (Finmap fun _ : κ => ν) → α → Finmap fun _ : κ => ν}
  {u : α → Option ν → Option ν}
  (hg : ∀ s a k, (g s a).lookup k = if k = key a then u a (s.lookup (key a)) else s.lookup k)
  {as : List α}
include hg

theorem lookup_foldl_of_notMem {k : κ} (h : k ∉ as.map key) (s : Finmap fun _ : κ => ν) :
    (as.foldl g s).lookup k = s.lookup k := by
  induction as generalizing s with
  | nil => rfl
  | cons a rest ih =>
    rw [map_cons, mem_cons, not_or] at h
    rw [foldl_cons, ih h.2, hg, if_neg h.1]

theorem lookup_foldl_of_mem (hnodup : (as.map key).Nodup) {a : α} (h : a ∈ as) (s : Finmap fun _ : κ => ν) :
    (as.foldl g s).lookup (key a) = u a (s.lookup (key a)) := by
  induction as generalizing s with
  | nil => cases h
  | cons first rest ih =>
    obtain ⟨hnot, hnodup⟩ := nodup_cons.mp hnodup
    rw [foldl_cons]
    rcases mem_cons.mp h with rfl | h
    · rw [lookup_foldl_of_notMem hg hnot, hg, if_pos rfl]
    · have hne : key a ≠ key first := fun heq => hnot (heq ▸ mem_map_of_mem h)
      rw [ih hnodup h, hg, if_neg hne]

end

theorem lookup_foldl_pointwise {g : (Finmap fun _ : κ => ν) → κ → Finmap fun _ : κ => ν}
    {u : Option ν → Option ν}
    (hg : ∀ s k k', (g s k).lookup k' = if k' = k then u (s.lookup k) else s.lookup k')
    {keys : List κ} (hnodup : keys.Nodup) (s : Finmap fun _ : κ => ν) (k : κ) :
    (keys.foldl g s).lookup k = if k ∈ keys then u (s.lookup k) else s.lookup k := by
  split_ifs with hk
  · exact @lookup_foldl_of_mem _ _ _ _ id g (fun _ => u) hg keys (by rwa [map_id]) k hk s
  · exact @lookup_foldl_of_notMem _ _ _ _ id g (fun _ => u) hg keys k (by rwa [map_id]) s

/-! ## Coherence -/

/-- The index has exactly the keys of the map, each in the row of its attribute, and no empty row. -/
structure Coherent (f : ν → ι) (m : IndexedMap κ ν ι) : Prop where
  mem : ∀ i k, k ∈ (m.index.lookup i).getD ∅ ↔ ∃ v, m.entries.lookup k = some v ∧ f v = i
  nonempty : ∀ i, m.index.lookup i ≠ some ∅

variable {f : ν → ι} {m m' : IndexedMap κ ν ι} {k : κ} {v : ν}

theorem coherent_empty : Coherent f (empty : IndexedMap κ ν ι) where
  mem i k := by simp [empty]
  nonempty i := by simp [empty]

theorem Coherent.ext (h : Coherent f m) (h' : Coherent f m') (hentries : m.entries = m'.entries) : m = m' := by
  obtain ⟨entries, index⟩ := m
  obtain ⟨entries', index'⟩ := m'
  obtain rfl : entries = entries' := hentries
  have hrow : ∀ i, (index.lookup i).getD ∅ = (index'.lookup i).getD ∅ := fun i =>
    Finset.ext fun k => (h.mem i k).trans (h'.mem i k).symm
  congr 1
  refine Finmap.ext_lookup fun i => ?_
  have hi := h.nonempty i
  have hi' := h'.nonempty i
  have heq := hrow i
  simp only at hi hi'
  cases hl : index.lookup i with
  | none =>
    cases hr : index'.lookup i with
    | none => rfl
    | some row =>
      simp only [hl, hr, Option.getD_none, Option.getD_some] at heq
      exact absurd (hr.trans (congrArg some heq.symm)) hi'
  | some row =>
    cases hr : index'.lookup i with
    | none =>
      simp only [hl, hr, Option.getD_none, Option.getD_some] at heq
      exact absurd (hl.trans (congrArg some heq)) hi
    | some row' =>
      simp only [hl, hr, Option.getD_some] at heq
      rw [heq]

theorem Coherent.add (h : Coherent f m) (hfresh : m.entries.lookup k = none) (v : ν) :
    Coherent f (m.add f k v) where
  mem i k' := by
    simp only [IndexedMap.add, lookup_insert_ite]
    have hold := h.mem i k'
    by_cases hi : i = f v
    · subst hi
      rw [if_pos rfl, Option.getD_some, Finset.mem_insert, hold]
      by_cases hk : k' = k
      · subst hk
        simp
      · simp [hk]
    · rw [if_neg hi, hold]
      by_cases hk : k' = k
      · subst hk
        simp [hfresh, Ne.symm hi]
      · simp [hk]
  nonempty i := by
    simp only [IndexedMap.add, lookup_insert_ite]
    split
    · simp
    · exact h.nonempty i

theorem Coherent.remove (h : Coherent f m) (hremove : m.remove f k = some m') : Coherent f m' := by
  unfold IndexedMap.remove at hremove
  split at hremove
  · cases hremove
  · rename_i v hv
    cases hremove
    have hmem : k ∈ (m.index.lookup (f v)).getD ∅ := (h.mem _ _).mpr ⟨v, hv, rfl⟩
    obtain ⟨row, hrow⟩ : ∃ row, m.index.lookup (f v) = some row := by
      cases hl : m.index.lookup (f v) with
      | none => simp [hl] at hmem
      | some row => exact ⟨row, rfl⟩
    -- only the row of the removed value changes
    have hlookup : ∀ i, ((unindex k (f v) m.index).lookup i).getD ∅ =
        if i = f v then row.erase k else (m.index.lookup i).getD ∅ := by
      intro i
      simp only [unindex, hrow]
      split
      · rename_i hempty
        rw [lookup_erase_ite]
        split
        · exact hempty.symm
        · rfl
      · rw [lookup_insert_ite]
        split <;> rfl
    refine ⟨fun i k' => ?_, fun i => ?_⟩
    · rw [hlookup, lookup_erase_ite]
      have hold := h.mem i k'
      by_cases hi : i = f v
      · subst hi
        rw [hrow, Option.getD_some] at hold
        rw [if_pos rfl, Finset.mem_erase, hold]
        by_cases hk : k' = k
        · simp [hk]
        · simp [hk]
      · rw [if_neg hi, hold]
        by_cases hk : k' = k
        · subst hk
          simp [hv, Ne.symm hi]
        · simp [hk]
    · simp only [unindex, hrow]
      split
      · rw [lookup_erase_ite]
        split
        · simp
        · exact h.nonempty i
      · rename_i hne
        rw [lookup_insert_ite]
        split
        · simpa using hne
        · exact h.nonempty i

theorem Coherent.discard (h : Coherent f m) (k : κ) : Coherent f (m.discard f k) := by
  unfold IndexedMap.discard
  cases hremove : m.remove f k with
  | none => exact h
  | some m' => exact h.remove hremove

theorem lookup_add (k' : κ) :
    (m.add f k v).entries.lookup k' = if k' = k then some v else m.entries.lookup k' :=
  lookup_insert_ite _ _ _ _

theorem lookup_remove (h : m.remove f k = some m') (k' : κ) :
    m'.entries.lookup k' = if k' = k then none else m.entries.lookup k' := by
  unfold remove at h
  split at h
  · cases h
  · cases h
    exact lookup_erase_ite _ _ _

theorem remove_isSome : (m.remove f k).isSome = (m.entries.lookup k).isSome := by
  unfold remove
  split <;> simp_all

theorem lookup_discard (k' : κ) :
    (m.discard f k).entries.lookup k' = if k' = k then none else m.entries.lookup k' := by
  unfold discard
  cases hremove : m.remove f k with
  | none =>
    have hnone : m.entries.lookup k = none := by
      have := remove_isSome (f := f) (m := m) (k := k)
      rw [hremove] at this
      simpa using this
    rw [Option.getD_none]
    split
    · subst k'
      exact hnone
    · rfl
  | some m' => exact lookup_remove hremove k'

/-! ## Batches of effects -/

inductive Effect (κ ν : Type) where
  | create (k : κ) (v : ν)
  | spend (k : κ)

def created (es : List (Effect κ ν)) : List κ :=
  es.filterMap fun e => match e with
    | .create k _ => some k
    | .spend _ => none

def spent (es : List (Effect κ ν)) : List κ :=
  es.filterMap fun e => match e with
    | .create _ _ => none
    | .spend k => some k

section
variable (f : ν → ι)

def applyEffect (m : IndexedMap κ ν ι) : Effect κ ν → Option (IndexedMap κ ν ι)
  | .create k v => some (m.add f k v)
  | .spend k => m.remove f k

def applyAll (m : IndexedMap κ ν ι) (es : List (Effect κ ν)) : Option (IndexedMap κ ν ι) :=
  es.foldlM (applyEffect f) m

def spentRows (m : IndexedMap κ ν ι) (es : List (Effect κ ν)) : List (κ × ν) :=
  (spent es).filterMap fun k => (m.entries.lookup k).map fun v => (k, v)

/-- Takes the created keys out and puts the spent rows back. -/
def rollback (keys : List κ) (rows : List (κ × ν)) (m : IndexedMap κ ν ι) : IndexedMap κ ν ι :=
  rows.foldl (fun m row => m.add f row.1 row.2) (keys.foldl (fun m k => m.discard f k) m)

end

/-- The batch can be applied: each key is created at most once and fresh, and each spent key is there. -/
structure Applicable (m : IndexedMap κ ν ι) (es : List (Effect κ ν)) : Prop where
  created_nodup : (created es).Nodup
  created_fresh : ∀ k ∈ created es, m.entries.lookup k = none
  spent_nodup : (spent es).Nodup
  /-- A spent key is in the map or was created before. -/
  present : ∀ before k after, es = before ++ .spend k :: after →
    (m.entries.lookup k).isSome ∨ k ∈ created before

variable {es : List (Effect κ ν)}

omit [DecidableEq ι] in
theorem Applicable.init {e : Effect κ ν} (h : Applicable m (es ++ [e])) : Applicable m es where
  created_nodup := (h.created_nodup.sublist ((sublist_append_left _ _).filterMap _))
  created_fresh k hk := h.created_fresh k (((sublist_append_left _ _).filterMap _).subset hk)
  spent_nodup := (h.spent_nodup.sublist ((sublist_append_left _ _).filterMap _))
  present before k after heq := h.present before k (after ++ [e]) (by rw [heq]; simp)

/-- What a batch leaves: the spent keys are gone, created ones are there, and the rest is as it was. -/
structure Applied (f : ν → ι) (m m' : IndexedMap κ ν ι) (es : List (Effect κ ν)) : Prop where
  applied : applyAll f m es = some m'
  coherent : Coherent f m'
  spent : ∀ k ∈ spent es, m'.entries.lookup k = none
  created : ∀ k ∈ created es, k ∉ IndexedMap.spent es → (m'.entries.lookup k).isSome
  rest : ∀ k, k ∉ IndexedMap.created es → k ∉ IndexedMap.spent es → m'.entries.lookup k = m.entries.lookup k

section
variable {m₁ m₂ : IndexedMap κ ν ι}

theorem applyAll_concat {e : Effect κ ν} (happ : applyAll f m es = some m₁) (he : applyEffect f m₁ e = some m₂) :
    applyAll f m (es ++ [e]) = some m₂ := by
  unfold applyAll at happ ⊢
  rw [foldlM_append, happ]
  simpa using he

omit [DecidableEq ι] in
/-- A key that is created last is new: not in the map, and neither created nor spent before. -/
theorem Applicable.create_fresh (h : Applicable m (es ++ [.create k v])) :
    m.entries.lookup k = none ∧ k ∉ created es ∧ k ∉ spent es := by
  have hcreated : created (es ++ [.create k v]) = created es ++ [k] := by simp [created]
  have hnodup := h.created_nodup
  rw [hcreated] at hnodup
  have hnew : k ∉ created es := fun hk =>
    (nodup_append.mp hnodup).2.2 k hk k (mem_singleton_self k) rfl
  have hfresh : m.entries.lookup k = none := h.created_fresh k (by rw [hcreated]; simp)
  refine ⟨hfresh, hnew, fun hk => ?_⟩
  obtain ⟨e, he, hke⟩ := mem_filterMap.mp hk
  cases e with
  | create => cases hke
  | spend k' =>
    cases hke
    obtain ⟨before, after, hsplit⟩ := append_of_mem he
    rcases h.init.present before k after hsplit with hthere | hbefore
    · rw [hfresh] at hthere
      cases hthere
    · refine hnew ?_
      rw [hsplit, created, filterMap_append]
      exact mem_append_left _ hbefore

theorem Applied.create (h : Applied f m m₁ es) (hfresh : m.entries.lookup k = none)
    (hnew : k ∉ IndexedMap.created es) (hnotspent : k ∉ IndexedMap.spent es) (v : ν) :
    Applied f m (m₁.add f k v) (es ++ [.create k v]) := by
  have hcreated : IndexedMap.created (es ++ [.create k v]) = IndexedMap.created es ++ [k] := by
    simp [IndexedMap.created]
  have hspent : IndexedMap.spent (es ++ [.create k v]) = IndexedMap.spent es := by simp [IndexedMap.spent]
  have hcur : m₁.entries.lookup k = none := by rw [h.rest k hnew hnotspent, hfresh]
  refine ⟨applyAll_concat h.applied rfl, h.coherent.add hcur v, fun k' hk' => ?_, fun k' hk' hns => ?_,
    fun k' hnc hns => ?_⟩
  · rw [hspent] at hk'
    have hne : k' ≠ k := fun heq => hnotspent (heq ▸ hk')
    rw [lookup_add, if_neg hne]
    exact h.spent k' hk'
  · rw [hspent] at hns
    rw [lookup_add]
    split
    · rfl
    · rename_i hne
      rw [hcreated] at hk'
      rcases mem_append.mp hk' with hold | hlast
      · exact h.created k' hold hns
      · exact absurd (mem_singleton.mp hlast) hne
  · rw [hspent] at hns
    rw [hcreated, mem_append, not_or] at hnc
    rw [lookup_add, if_neg fun heq => hnc.2 (mem_singleton.mpr heq)]
    exact h.rest k' hnc.1 hns

/-- A key that is spent last is in the map by then. -/
theorem Applied.present (h₁ : Applied f m m₁ es) (h : Applicable m (es ++ [.spend k])) :
    (m₁.entries.lookup k).isSome := by
  have hnodup := h.spent_nodup
  rw [show IndexedMap.spent (es ++ [.spend k]) = IndexedMap.spent es ++ [k] by simp [IndexedMap.spent]] at hnodup
  have hnew : k ∉ IndexedMap.spent es := fun hk =>
    (nodup_append.mp hnodup).2.2 k hk k (mem_singleton_self k) rfl
  by_cases hc : k ∈ IndexedMap.created es
  · exact h₁.created k hc hnew
  · rw [h₁.rest k hc hnew]
    exact (h.present es k [] rfl).resolve_right hc

theorem Applied.spend (h : Applied f m m₁ es) (hremove : m₁.remove f k = some m₂) :
    Applied f m m₂ (es ++ [.spend k]) := by
  have hcreated : IndexedMap.created (es ++ [.spend k]) = IndexedMap.created es := by simp [IndexedMap.created]
  have hspent : IndexedMap.spent (es ++ [.spend k]) = IndexedMap.spent es ++ [k] := by simp [IndexedMap.spent]
  refine ⟨applyAll_concat h.applied hremove, h.coherent.remove hremove, fun k' hk' => ?_, fun k' hk' hns => ?_,
    fun k' hnc hns => ?_⟩
  · rw [lookup_remove hremove]
    split
    · rfl
    · rename_i hne
      rw [hspent] at hk'
      rcases mem_append.mp hk' with hold | hlast
      · exact h.spent k' hold
      · exact absurd (mem_singleton.mp hlast) hne
  · rw [hspent, mem_append, not_or] at hns
    rw [hcreated] at hk'
    rw [lookup_remove hremove, if_neg fun heq => hns.2 (mem_singleton.mpr heq)]
    exact h.created k' hk' hns.1
  · rw [hspent, mem_append, not_or] at hns
    rw [hcreated] at hnc
    rw [lookup_remove hremove, if_neg fun heq => hns.2 (mem_singleton.mpr heq)]
    exact h.rest k' hnc hns.1

end

theorem Applicable.applied (hm : Coherent f m) (h : Applicable m es) : ∃ m', Applied f m m' es := by
  induction es using List.reverseRecOn with
  | nil => exact ⟨m, rfl, hm, by simp [spent], by simp [created], fun _ _ _ => rfl⟩
  | append_singleton es e ih =>
    obtain ⟨m₁, h₁⟩ := ih h.init
    cases e with
    | create k v =>
      obtain ⟨hfresh, hnew, hnotspent⟩ := h.create_fresh
      exact ⟨_, h₁.create hfresh hnew hnotspent v⟩
    | spend k =>
      have hthere := h₁.present h
      rw [← remove_isSome (f := f)] at hthere
      obtain ⟨m₂, hremove⟩ := Option.isSome_iff_exists.mp hthere
      exact ⟨m₂, h₁.spend hremove⟩

/-! ## Undo -/

theorem lookup_discardAll (keys : List κ) (k : κ) :
    ((keys.foldl (fun m k => m.discard f k) m).entries.lookup k) =
      if k ∈ keys then none else m.entries.lookup k := by
  induction keys generalizing m with
  | nil => simp
  | cons key rest ih =>
    rw [foldl_cons, ih, lookup_discard]
    by_cases hk : k = key
    · simp [hk]
    · simp [hk]

theorem Coherent.discardAll (h : Coherent f m) (keys : List κ) :
    Coherent f (keys.foldl (fun m k => m.discard f k) m) := by
  induction keys generalizing m with
  | nil => exact h
  | cons key rest ih => exact ih (h.discard key)

theorem Coherent.addAll {old : Finmap fun _ : κ => ν} {rows : List (κ × ν)} (h : Coherent f m)
    (hrows : ∀ row ∈ rows, old.lookup row.1 = some row.2) (hnodup : (rows.map Prod.fst).Nodup)
    (hfresh : ∀ row ∈ rows, m.entries.lookup row.1 = none) :
    Coherent f (rows.foldl (fun m row => m.add f row.1 row.2) m) ∧
      ∀ k, (rows.foldl (fun m row => m.add f row.1 row.2) m).entries.lookup k =
        if k ∈ rows.map Prod.fst then old.lookup k else m.entries.lookup k := by
  induction rows generalizing m with
  | nil => exact ⟨h, fun k => by simp⟩
  | cons row rest ih =>
    obtain ⟨hnot, hnodup⟩ := nodup_cons.mp hnodup
    have hfresh' : ∀ r ∈ rest, (m.add f row.1 row.2).entries.lookup r.1 = none := by
      intro r hr
      have hne : r.1 ≠ row.1 := fun heq => hnot (heq ▸ mem_map_of_mem hr)
      rw [lookup_add, if_neg hne]
      exact hfresh r (mem_cons_of_mem _ hr)
    obtain ⟨hcoherent, hlookup⟩ := ih (h.add (hfresh row mem_cons_self) row.2)
      (fun r hr => hrows r (mem_cons_of_mem _ hr)) hnodup hfresh'
    refine ⟨hcoherent, fun k => ?_⟩
    rw [foldl_cons, hlookup, lookup_add]
    simp only [map_cons, mem_cons]
    by_cases hk : k = row.1
    · subst hk
      rw [if_neg hnot, if_pos rfl, if_pos (.inl rfl)]
      exact (hrows row mem_cons_self).symm
    · simp only [hk, false_or, if_false]

omit [DecidableEq ι] in
theorem mem_spentRows {row : κ × ν} (h : row ∈ spentRows m es) :
    row.1 ∈ spent es ∧ m.entries.lookup row.1 = some row.2 := by
  obtain ⟨k, hk, hrow⟩ := mem_filterMap.mp h
  obtain ⟨v, hv, rfl⟩ := Option.map_eq_some_iff.mp hrow
  exact ⟨hk, hv⟩

omit [DecidableEq ι] in
theorem mem_keys_spentRows {k : κ} :
    k ∈ (spentRows m es).map Prod.fst ↔ k ∈ spent es ∧ (m.entries.lookup k).isSome := by
  constructor
  · intro hk
    obtain ⟨row, hrow, rfl⟩ := mem_map.mp hk
    obtain ⟨hspent, hlookup⟩ := mem_spentRows hrow
    exact ⟨hspent, by rw [hlookup]; rfl⟩
  · rintro ⟨hk, hsome⟩
    obtain ⟨v, hv⟩ := Option.isSome_iff_exists.mp hsome
    exact mem_map.mpr ⟨(k, v), mem_filterMap.mpr ⟨k, hk, by rw [hv]; rfl⟩, rfl⟩

omit [DecidableEq ι] in
theorem nodup_spentRows (h : (spent es).Nodup) : ((spentRows m es).map Prod.fst).Nodup := by
  have hsub : ((spentRows m es).map Prod.fst).Sublist (spent es) := by
    unfold spentRows
    generalize spent es = keys
    induction keys with
    | nil => simp
    | cons k rest ih =>
      rw [filterMap_cons]
      cases m.entries.lookup k with
      | none => exact ih.cons _
      | some v => exact ih.cons_cons _
  exact h.sublist hsub

theorem Applied.rollback (hm : Coherent f m) (h : Applicable m es) (happ : Applied f m m' es) :
    rollback f (IndexedMap.created es) (spentRows m es) m' = m := by
  have hcleared := lookup_discardAll (f := f) (m := m') (IndexedMap.created es)
  have hfresh : ∀ row ∈ spentRows m es,
      (((IndexedMap.created es).foldl (fun m k => m.discard f k) m').entries.lookup row.1) = none := by
    intro row hrow
    rw [hcleared]
    split
    · rfl
    · exact happ.spent row.1 (mem_spentRows hrow).1
  obtain ⟨hcoherent, hlookup⟩ := (happ.coherent.discardAll (IndexedMap.created es)).addAll
    (fun row hrow => (mem_spentRows hrow).2) (nodup_spentRows h.spent_nodup) hfresh
  refine hcoherent.ext hm (Finmap.ext_lookup fun k => ?_)
  rw [hlookup k, hcleared k]
  by_cases hrow : k ∈ (spentRows m es).map Prod.fst
  · rw [if_pos hrow]
  · rw [if_neg hrow]
    by_cases hc : k ∈ IndexedMap.created es
    · rw [if_pos hc, h.created_fresh k hc]
    · rw [if_neg hc]
      by_cases hs : k ∈ IndexedMap.spent es
      · have hnone : m.entries.lookup k = none := by
          have := mt (mem_keys_spentRows (m := m)).mpr hrow
          simpa [hs] using this
        rw [happ.spent k hs, hnone]
      · exact happ.rest k hc hs

/-! ## Weights -/

section
variable (w : ν → ℕ)

/-- What the values of a map weigh together. -/
def weigh (s : Finmap fun _ : κ => ν) : ℕ := ∑ k ∈ s.keys, ((s.lookup k).map w).getD 0

theorem weigh_insert_le (s : Finmap fun _ : κ => ν) (k : κ) (v : ν) :
    weigh w (s.insert k v) ≤ weigh w s + w v := by
  have hkeys : (s.insert k v).keys = insert k (s.keys.erase k) := by
    ext k'
    rw [Finmap.mem_keys, Finmap.mem_insert, Finset.mem_insert, Finset.mem_erase, Finmap.mem_keys]
    by_cases heq : k' = k <;> simp [heq]
  have hsame : ∑ k' ∈ s.keys.erase k, (((s.insert k v).lookup k').map w).getD 0 =
      ∑ k' ∈ s.keys.erase k, ((s.lookup k').map w).getD 0 := by
    refine Finset.sum_congr rfl fun k' hk' => ?_
    rw [lookup_insert_ite, if_neg (Finset.ne_of_mem_erase hk')]
  rw [weigh, hkeys, Finset.sum_insert (Finset.notMem_erase _ _), hsame, lookup_insert_ite, if_pos rfl, Nat.add_comm]
  exact Nat.add_le_add_right (Finset.sum_le_sum_of_subset (Finset.erase_subset _ _)) _

theorem weigh_erase {s : Finmap fun _ : κ => ν} (h : s.lookup k = some v) :
    weigh w (s.erase k) + w v = weigh w s := by
  have hmem : k ∈ s.keys := by
    rw [Finmap.mem_keys, ← Finmap.lookup_isSome, h]
    rfl
  have hsame : ∑ k' ∈ s.keys.erase k, (((s.erase k).lookup k').map w).getD 0 =
      ∑ k' ∈ s.keys.erase k, ((s.lookup k').map w).getD 0 := by
    refine Finset.sum_congr rfl fun k' hk' => ?_
    rw [lookup_erase_ite, if_neg (Finset.ne_of_mem_erase hk')]
  have hvalue : ((s.lookup k).map w).getD 0 = w v := by rw [h]; rfl
  rw [weigh, Finmap.keys_erase, hsame, ← hvalue]
  exact Finset.sum_erase_add _ _ hmem

end

end IndexedMap
