import Mathlib

/-!
# Keyed tables

A table is a finite map kept as a list of rows with distinct keys (Mathlib's association lists).
-/

abbrev Table (κ ν : Type) := AList fun _ : κ => ν

namespace Table

open List

variable {κ ν M : Type}

/-- The rows that pass a test. -/
def keep (p : κ → ν → Bool) (t : Table κ ν) : Table κ ν where
  entries := t.entries.filter fun row => p row.1 row.2
  nodupKeys := t.nodupKeys.sublist List.filter_sublist

/-- The sum of a measure over all rows. -/
def total [AddCommMonoid M] (f : ν → M) (t : Table κ ν) : M :=
  (t.entries.map fun row => f row.2).sum

section
variable [AddCommMonoid M] {f : ν → M}

@[simp] theorem total_empty : total f (∅ : Table κ ν) = 0 := rfl

theorem total_congr {g : ν → M} {t : Table κ ν} (h : ∀ row ∈ t.entries, f row.2 = g row.2) :
    total f t = total g t :=
  congrArg List.sum (map_congr_left h)

theorem total_keep {p : κ → ν → Bool} {t : Table κ ν}
    (h : ∀ row ∈ t.entries, p row.1 row.2 = false → f row.2 = 0) : total f (keep p t) = total f t := by
  have key : ∀ rows : List (Sigma fun _ : κ => ν),
      (∀ row ∈ rows, p row.1 row.2 = false → f row.2 = 0) →
      ((rows.filter fun row => p row.1 row.2).map fun row => f row.2).sum =
        (rows.map fun row => f row.2).sum := by
    intro rows hrows
    induction rows with
    | nil => rfl
    | cons row rows ih =>
      have ih := ih fun r hr => hrows r (by simp [hr])
      cases hp : p row.1 row.2 with
      | true => simp [hp, ih]
      | false => simp [hp, ih, hrows row (by simp) hp]
  exact key t.entries h

end

section
variable [DecidableEq κ] [AddCommMonoid M] {f : ν → M}

private theorem sum_kerase (k : κ) (rows : List (Sigma fun _ : κ => ν)) :
    ((rows.kerase k).map fun row => f row.2).sum + ((rows.dlookup k).map f).getD 0 =
      (rows.map fun row => f row.2).sum := by
  induction rows with
  | nil => simp
  | cons row rows ih =>
    obtain ⟨k', v⟩ := row
    by_cases hk : k = k'
    · subst hk
      simp [kerase_cons_eq, dlookup_cons_eq, add_comm]
    · rw [kerase_cons_ne hk, dlookup_cons_ne rows (⟨k', v⟩ : Sigma fun _ : κ => ν) hk]
      simp only [map_cons, sum_cons]
      rw [add_assoc, ih]

theorem total_erase (k : κ) (t : Table κ ν) :
    total f (t.erase k) + ((t.lookup k).map f).getD 0 = total f t := sum_kerase k t.entries

theorem total_insert (k : κ) (v : ν) (t : Table κ ν) :
    total f (t.insert k v) + ((t.lookup k).map f).getD 0 = total f t + f v := by
  rw [← total_erase k t, add_right_comm]
  congr 1
  exact add_comm _ _

theorem total_insert_of_lookup {k : κ} {v old : ν} {t : Table κ ν} (h : t.lookup k = some old) :
    total f (t.insert k v) + f old = total f t + f v := by
  simpa [h] using total_insert (f := f) k v t

theorem total_insert_of_fresh {k : κ} {v : ν} {t : Table κ ν} (h : t.lookup k = none) :
    total f (t.insert k v) = total f t + f v := by
  simpa [h] using total_insert (f := f) k v t

end

theorem keep_keep (p q : κ → ν → Bool) (t : Table κ ν) :
    keep p (keep q t) = keep (fun k v => p k v && q k v) t :=
  AList.ext (filter_filter ..)

theorem keep_true (t : Table κ ν) : keep (fun _ _ => true) t = t :=
  AList.ext (filter_eq_self.mpr fun _ _ => rfl)

section
variable [DecidableEq κ]

variable {t : Table κ ν}

theorem lookup_of_mem {row : Sigma fun _ : κ => ν} (h : row ∈ t.entries) :
    t.lookup row.1 = some row.2 := AList.mem_lookup_iff.mpr h

variable {k : κ} {v : ν}

theorem mem_of_lookup (h : t.lookup k = some v) :
    (⟨k, v⟩ : Sigma fun _ : κ => ν) ∈ t.entries := AList.mem_lookup_iff.mp h

theorem perm_cons_erase (h : t.lookup k = some v) :
    t.entries.Perm (⟨k, v⟩ :: (t.erase k).entries) := by
  have hmem : k ∈ t.entries.keys := mem_keys_of_mem (mem_of_lookup h)
  obtain ⟨v', before, after, -, hentries, herase⟩ := exists_of_kerase hmem
  have hrow : (⟨k, v'⟩ : Sigma fun _ : κ => ν) ∈ t.entries := by simp [hentries]
  have hv : t.lookup k = some v' := lookup_of_mem hrow
  obtain rfl : v = v' := Option.some.inj (h.symm.trans hv)
  change t.entries.Perm (⟨k, v⟩ :: t.entries.kerase k)
  rw [herase, hentries]
  exact perm_middle

theorem lookup_insert_ite (t : Table κ ν) (k k' : κ) (v : ν) :
    (t.insert k v).lookup k' = if k' = k then some v else t.lookup k' := by
  split
  · rename_i h
    rw [h, AList.lookup_insert]
  · rename_i h
    exact AList.lookup_insert_ne h

theorem lookup_erase_ite (t : Table κ ν) (k k' : κ) :
    (t.erase k).lookup k' = if k' = k then none else t.lookup k' := by
  split
  · rename_i h
    rw [h, AList.lookup_erase]
  · rename_i h
    exact AList.lookup_erase_ne h

variable {k' : κ} {w : ν}

theorem lookup_insert_eq_some :
    (t.insert k v).lookup k' = some w ↔ k' = k ∧ w = v ∨ k' ≠ k ∧ t.lookup k' = some w := by
  rw [lookup_insert_ite]
  split_ifs with h <;> simp [h, eq_comm]

theorem forall_insert {P : κ → ν → Prop} (h : ∀ k w, t.lookup k = some w → P k w) (hv : P k v) :
    ∀ k' w, (t.insert k v).lookup k' = some w → P k' w := by
  intro k' w hw
  obtain ⟨rfl, rfl⟩ | ⟨-, hw⟩ := lookup_insert_eq_some.mp hw
  · exact hv
  · exact h k' w hw

theorem lookup_erase_eq_some : (t.erase k).lookup k' = some w ↔ k' ≠ k ∧ t.lookup k' = some w := by
  rw [lookup_erase_ite]
  split_ifs with h <;> simp [h]

theorem lookup_foldl_erase [DecidableEq ν] (keys : List κ) :
    (keys.foldl (fun t k => if t.lookup k = some v then t.erase k else t) t).lookup k = some w ↔
      t.lookup k = some w ∧ (k ∈ keys → w ≠ v) := by
  induction keys generalizing t with
  | nil => simp
  | cons first rest ih =>
    rw [foldl_cons, ih]
    split_ifs with hfirst
    · rw [lookup_erase_eq_some]
      by_cases h : k = first
      · subst h
        simp [hfirst, eq_comm]
      · simp [h]
    · by_cases h : k = first
      · subst h
        have hne : t.lookup k = some w → w ≠ v := fun hw heq => hfirst (heq ▸ hw)
        simp only [mem_cons, true_or, forall_const]
        exact ⟨fun hw => ⟨hw.1, hne hw.1⟩, fun hw => ⟨hw.1, fun _ => hw.2⟩⟩
      · simp [h]

theorem erase_insert (h : t.lookup k = none) : (t.insert k v).erase k = t := by
  have hk : k ∉ t.entries.keys := dlookup_eq_none.mp h
  apply AList.ext
  change List.kerase k (AList.insert k v t).entries = t.entries
  rw [AList.entries_insert, kerase_of_notMem_keys hk]
  exact kerase_cons_eq rfl

theorem total_nonneg {f : ν → Int} (h : ∀ k v, t.lookup k = some v → 0 ≤ f v) : 0 ≤ total f t := by
  refine sum_nonneg fun x hx => ?_
  obtain ⟨row, hrow, rfl⟩ := mem_map.mp hx
  exact h row.1 row.2 (lookup_of_mem hrow)

theorem length_insert_le (t : Table κ ν) (k : κ) (v : ν) :
    (t.insert k v).entries.length ≤ t.entries.length + 1 := by
  rw [AList.entries_insert, length_cons]
  exact Nat.succ_le_succ (kerase_sublist k t.entries).length_le

theorem length_erase_le (t : Table κ ν) (k : κ) : (t.erase k).entries.length ≤ t.entries.length :=
  (kerase_sublist k t.entries).length_le

theorem length_insert_of_lookup {old : ν} (h : t.lookup k = some old) :
    (t.insert k v).entries.length = t.entries.length := by
  have hmem : k ∈ t.entries.keys := mem_keys_of_mem (mem_of_lookup h)
  have hkeys : (t.entries.kerase k).length = t.entries.keys.length - 1 := by
    rw [← length_erase_of_mem hmem, ← keys_kerase]
    simp [List.keys]
  have hlen : t.entries.keys.length = t.entries.length := by simp [List.keys]
  have hpos := length_pos_of_mem hmem
  rw [AList.entries_insert, length_cons, hkeys]
  omega

variable {p : κ → ν → Bool}

theorem lookup_keep : (keep p t).lookup k = some v ↔ t.lookup k = some v ∧ p k v := by
  change v ∈ (keep p t).lookup k ↔ v ∈ t.lookup k ∧ _
  rw [AList.mem_lookup_iff, AList.mem_lookup_iff]
  simp [keep]

theorem keep_congr {q : κ → ν → Bool} (h : ∀ k v, t.lookup k = some v → p k v = q k v) :
    keep p t = keep q t :=
  AList.ext (filter_congr fun row hrow => h row.1 row.2 (lookup_of_mem hrow))

private theorem filter_kerase {q : (Sigma fun _ : κ => ν) → Bool} {k : κ}
    {rows : List (Sigma fun _ : κ => ν)} (h : rows.NodupKeys) :
    (rows.kerase k).filter q = (rows.filter q).kerase k := by
  induction rows with
  | nil => rfl
  | cons row rows ih =>
    obtain ⟨hrow, hrows⟩ := nodupKeys_cons.mp h
    by_cases hk : row.1 = k
    · have hgone : k ∉ (rows.filter q).keys := fun hmem => hrow
        (hk ▸ (filter_sublist.map Sigma.fst).subset hmem)
      rw [kerase_cons_eq hk.symm, filter_cons]
      split
      · rw [kerase_cons_eq hk.symm]
      · rw [kerase_of_notMem_keys hgone]
    · rw [kerase_cons_ne (Ne.symm hk), filter_cons, filter_cons, ih hrows]
      split
      · rw [kerase_cons_ne (Ne.symm hk)]
      · rfl

theorem keep_insert (h : p k v) : keep p (t.insert k v) = (keep p t).insert k v := by
  apply AList.ext
  change (t.insert k v).entries.filter (fun row => p row.1 row.2) = ((keep p t).insert k v).entries
  rw [AList.entries_insert, AList.entries_insert, filter_cons, if_pos h]
  exact congrArg _ (filter_kerase t.nodupKeys)

end

/-! ## Changing every row -/

/-- The table with `f` applied to every row. -/
def mapRows (f : κ → ν → ν) (t : Table κ ν) : Table κ ν where
  entries := t.entries.map fun row => ⟨row.1, f row.1 row.2⟩
  nodupKeys := by
    rw [List.NodupKeys, List.keys, List.map_map]
    exact t.nodupKeys

theorem lookup_mapRows [DecidableEq κ] (f : κ → ν → ν) (t : Table κ ν) (k : κ) :
    (mapRows f t).lookup k = (t.lookup k).map (f k) := by
  show List.dlookup k (t.entries.map fun row => (⟨row.1, f row.1 row.2⟩ : Sigma fun _ : κ => ν)) = _
  rw [AList.lookup]
  induction t.entries with
  | nil => rfl
  | cons row rest ih =>
    by_cases h : k = row.1
    · subst h
      rw [map_cons, dlookup_cons_eq, dlookup_cons_eq]
      rfl
    · have h' : k ≠ (⟨row.1, f row.1 row.2⟩ : Sigma fun _ : κ => ν).1 := h
      rw [map_cons, dlookup_cons_ne _ row h, dlookup_cons_ne _ _ h', ih]

end Table
