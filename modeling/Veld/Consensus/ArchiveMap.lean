import Veld.Consensus.ArchiveMirror

/-!
# The archive as a finite map

Over a store that keeps what is written to it, the archive answers: every record of a published trie can be read
back, the depths on a walk grow, so the leaf is reached before the walk's own limit.
-/

namespace Veld.Btcveld.Archive

open Wire RadixTrie List

/-- A store that keeps its records: a batch that was written is read back, and a hash it does not
mention is read as before. -/
structure Backend.Durable (B : Backend) : Prop where
  available : B.available = true
  read_new : ∀ {store store' : B.Store} {records : List (Hash256 × Bytes)},
    B.write store records = some store' → ∀ row ∈ records,
      ∃ raw, (row.1, raw) ∈ records ∧ B.read store' row.1 = some raw
  read_old : ∀ {store store' : B.Store} {records : List (Hash256 × Bytes)},
    B.write store records = some store' → ∀ hash, (∀ row ∈ records, row.1 ≠ hash) →
      B.read store' hash = B.read store hash

/-- Insertions one after the other, with those that were accepted. -/
def insertAll (sha256 : Bytes → Hash256) {B : Backend} :
    Root B → List (Hash256 × Bytes) → Root B × List (Hash256 × Bytes)
  | root, [] => (root, [])
  | root, row :: rest =>
    match insert sha256 root row.1 row.2 with
    | some root' => ((insertAll sha256 root' rest).1, row :: (insertAll sha256 root' rest).2)
    | none => insertAll sha256 root rest

def kept (sha256 : Bytes → Hash256) {B : Backend} (store : B.Store) : Set Bytes :=
  { record | B.read store (hashRecord sha256 record) = some record }

section
variable {sha256 : Bytes → Hash256} {B : Backend} {W : Set Bytes} {store store' : B.Store}
  {t : ArchiveTrie} {key hash : Hash256} {value : Bytes}

/-! ## The length of a walk -/

theorem load_depth_lt {depth : Nat} {left right : Hash256}
    (h : load sha256 store hash = some (.branch depth left right)) : depth < 256 := by
  simp only [load, bind_eq_some] at h
  obtain ⟨raw, -, -, -, hnode⟩ := h
  unfold parseNode at hnode
  split at hnode
  · simp only [bind_eq_some, pure_eq_some] at hnode
    obtain ⟨_, -, hnode⟩ := hnode
    cases hnode
  · simp only [bind_eq_some, Prod.exists, Option.guard_eq_some', pure_eq_some] at hnode
    obtain ⟨_, _, -, _, _, -, _, _, -, -, ⟨-, hdepth, -⟩, hnode⟩ := hnode
    cases hnode
    exact hdepth
  · cases hnode

variable {steps : Nat} {previous : Int} {path : List Passed} {terminal : Hash256 × Bytes}
  {cursor : Hash256}

theorem descend_succ (h : descend sha256 store key (steps + 1) previous hash =
    some (path, terminal, cursor)) :
    (load sha256 store hash = some (.leaf terminal.1 terminal.2) ∧ path = [] ∧ cursor = hash) ∨
      ∃ depth left right rest, load sha256 store hash = some (.branch depth left right) ∧
        previous < depth ∧ path = ⟨depth, left, right, hash⟩ :: rest ∧
        descend sha256 store key steps depth (if Btcnull.bitAt key depth then right else left) =
          some (rest, terminal, cursor) := by
  simp only [descend, bind_eq_some] at h
  obtain ⟨node, hload, h⟩ := h
  cases node with
  | leaf k v =>
    cases h
    exact .inl ⟨hload, rfl, rfl⟩
  | branch depth left right =>
    simp only [bind_eq_some, Option.guard_eq_some', Prod.exists] at h
    obtain ⟨-, hlt, rest, _, _, last, hrest, heq⟩ := h
    cases heq
    exact .inr ⟨depth, left, right, rest, hload, hlt, rfl, hrest⟩

/-- Depths grow and stay below 256, so a walk passes at most 256 branches. -/
theorem descend_length (hprev : previous < 256)
    (h : descend sha256 store key steps previous hash = some (path, terminal, cursor)) :
    path.length + previous < 256 := by
  induction steps generalizing previous hash path with
  | zero => cases h
  | succ steps ih =>
    obtain ⟨-, rfl, -⟩ | ⟨depth, left, right, rest, hload, hlt, rfl, hrest⟩ := descend_succ h
    · simpa using hprev
    · have hdepth := load_depth_lt hload
      have := ih (by omega) hrest
      rw [length_cons]
      omega

theorem descend_steps {steps' : Nat} (hlt : path.length < steps')
    (h : descend sha256 store key steps previous hash = some (path, terminal, cursor)) :
    descend sha256 store key steps' previous hash = some (path, terminal, cursor) := by
  induction steps generalizing previous hash path steps' with
  | zero => cases h
  | succ steps ih =>
    obtain ⟨steps', rfl⟩ := Nat.exists_eq_add_one_of_ne_zero (Nat.ne_zero_of_lt hlt)
    obtain ⟨hload, rfl, rfl⟩ | ⟨depth, left, right, rest, hload, hprev, rfl, hrest⟩ := descend_succ h
    · simp [descend, hload]
    · have := ih (Nat.lt_of_succ_lt_succ hlt) hrest
      simp [descend, hload, hprev, this]

theorem descend_limit (hsteps : 257 ≤ steps) :
    descend sha256 store key steps (-1) hash = descend sha256 store key 257 (-1) hash := by
  refine Option.ext fun walk => ?_
  obtain ⟨path, terminal, cursor⟩ := walk
  constructor
  · intro h
    have := descend_length (by decide) h
    exact descend_steps (by omega) h
  · intro h
    have := descend_length (by decide) h
    exact descend_steps (by omega) h

/-! ## Reading a stored trie -/

theorem Written.mono {V : Set Bytes} (hsub : W ⊆ V) (h : Written sha256 W t) : Written sha256 V t := by
  induction t with
  | leaf k v => exact hsub h
  | branch d l r ihl ihr => exact ⟨hsub h.1, h.2.1, ihl h.2.2.1, ihr h.2.2.2⟩

section
variable (hinj : Set.InjOn (hashRecord sha256) W) (hempty : [2] ∈ W)
include hinj hempty

theorem digest_ne_emptyRoot (h : Written sha256 W t) : digest sha256 t ≠ emptyRoot sha256 := by
  intro heq
  rw [digest_eq] at heq
  have := hinj h.record_mem hempty heq
  cases t with
  | leaf k v => cases this
  | branch d l r => cases this

theorem load_kept (h : Written sha256 (W ∩ kept sha256 store) t) :
    load sha256 store (digest sha256 t) = some (top sha256 t) := by
  have hread : B.read store (hashRecord sha256 (record sha256 t)) = some (record sha256 t) :=
    h.record_mem.2
  rw [digest_eq]
  simp only [load, hread, some_bind, guard_true, Option.pure_def]
  cases t with
  | leaf k v => simp [record, leafRecord, parseNode, readHash_bytes, top]
  | branch d l r =>
    obtain ⟨-, hdepth, hl, hr⟩ := h
    have hlast : readHash (digest sha256 r).bytes = some (digest sha256 r, []) := by
      simpa using readHash_bytes (digest sha256 r) []
    have hl' := digest_ne_emptyRoot hinj hempty (hl.mono Set.inter_subset_left)
    have hr' := digest_ne_emptyRoot hinj hempty (hr.mono Set.inter_subset_left)
    simp [record, branchRecord, parseNode, readLE_putLE (lt_trans hdepth (by decide : 256 < 256 ^ 2)),
      readHash_bytes, hlast, hdepth, hl', hr', top]

theorem descend_kept (h : Written sha256 (W ∩ kept sha256 store) t)
    (hsorted : t.Sorted Btcnull.bitAt) (hprev : previous < 256) (hsteps : 256 ≤ steps + previous)
    (hagree : ∀ x ∈ t.entries, ∀ y ∈ t.entries, ∀ i : Nat, i ≤ previous →
      Btcnull.bitAt x.1 i = Btcnull.bitAt y.1 i) :
    ∃ path cursor, descend sha256 store key steps previous (digest sha256 t) =
      some (path, t.terminal Btcnull.bitAt key, cursor) := by
  induction t generalizing steps previous with
  | leaf k v =>
    obtain ⟨steps, rfl⟩ : ∃ n, steps = n + 1 := ⟨steps - 1, by omega⟩
    exact ⟨[], digest sha256 (.leaf k v),
      by simp [descend, load_kept hinj hempty h, top, Trie.terminal]⟩
  | branch d l r ihl ihr =>
    obtain ⟨steps, rfl⟩ : ∃ n, steps = n + 1 := ⟨steps - 1, by omega⟩
    have hlt : previous < d := by
      by_contra hge
      exact hsorted.depth_ne (fun x hx y hy => hagree x hx y hy d (not_lt.mp hge)) rfl
    have hload := load_kept hinj hempty h
    obtain ⟨-, hdepth, hl, hr⟩ := h
    obtain ⟨hsl, hsr, hleft, hright, hsame⟩ := hsorted
    -- below the branch the keys agree on its own bit too
    have hdown {side : ArchiveTrie} {b : Bool} (hsub : ∀ x ∈ side.entries, x ∈ l.entries ++ r.entries)
        (hbit : ∀ x ∈ side.entries, Btcnull.bitAt x.1 d = b) : ∀ x ∈ side.entries,
        ∀ y ∈ side.entries, ∀ i : Nat, (i : Int) ≤ (d : Int) →
          Btcnull.bitAt x.1 i = Btcnull.bitAt y.1 i := by
      intro x hx y hy i hi
      rcases lt_or_eq_of_le (Int.ofNat_le.mp hi) with hi | rfl
      · exact hsame x (hsub x hx) y (hsub y hy) i hi
      · rw [hbit x hx, hbit y hy]
    cases hbit : Btcnull.bitAt key d with
    | true =>
      obtain ⟨path, cursor, hrest⟩ := ihr hr hsr (by omega : (d : Int) < 256)
        (by omega : 256 ≤ (steps : Int) + d) (hdown (fun x => mem_append_right _) hright)
      exact ⟨⟨d, digest sha256 l, digest sha256 r, digest sha256 (.branch d l r)⟩ :: path, cursor,
        by simp [descend, hload, top, hlt, hbit, hrest, Trie.terminal]⟩
    | false =>
      obtain ⟨path, cursor, hrest⟩ := ihl hl hsl (by omega : (d : Int) < 256)
        (by omega : 256 ≤ (steps : Int) + d) (hdown (fun x => mem_append_left _) hleft)
      exact ⟨⟨d, digest sha256 l, digest sha256 r, digest sha256 (.branch d l r)⟩ :: path, cursor,
        by simp [descend, hload, top, hlt, hbit, hrest, Trie.terminal]⟩

end

theorem descend_root (key : Hash256) (hinj : Set.InjOn (hashRecord sha256) W) (hempty : [2] ∈ W)
    (h : Written sha256 (W ∩ kept sha256 store) t) (hsorted : t.Sorted Btcnull.bitAt) :
    ∃ path cursor, descend sha256 store key 257 (-1) (digest sha256 t) =
      some (path, t.terminal Btcnull.bitAt key, cursor) :=
  descend_kept hinj hempty h hsorted (by decide) (by decide) fun x _ y _ i hi => by omega

/-! ## Writing -/

theorem write_kept (hinj : Set.InjOn (hashRecord sha256) W) (hB : B.Within W) (hD : B.Durable)
    {s : Staged} (hs : Hashed sha256 s) (hwrite : B.write store s.records = some store') :
    (∀ row ∈ s.records, row.2 ∈ W ∩ kept sha256 store') ∧
      W ∩ kept sha256 store ⊆ W ∩ kept sha256 store' := by
  have hW := hB.write_mem hwrite
  have hnew : ∀ row ∈ s.records, ∀ record ∈ W, row.1 = hashRecord sha256 record →
      B.read store' (hashRecord sha256 record) = some record := by
    intro row hrow record hrecord heq
    obtain ⟨raw, hraw, hread⟩ := hD.read_new hwrite row hrow
    have hsame : raw = record := hinj (hW _ hraw) hrecord ((hs _ hraw).symm.trans heq)
    rw [← heq, hread, hsame]
  refine ⟨fun row hrow => ⟨hW row hrow, hnew row hrow row.2 (hW row hrow) (hs row hrow)⟩, ?_⟩
  rintro record ⟨hrecord, hread⟩
  refine ⟨hrecord, ?_⟩
  by_cases hmentioned : ∃ row ∈ s.records, row.1 = hashRecord sha256 record
  · obtain ⟨row, hrow, heq⟩ := hmentioned
    exact hnew row hrow record hrecord heq
  · push Not at hmentioned
    exact (hD.read_old hwrite _ hmentioned).trans hread

/-- A root and its store hold exactly these entries. -/
inductive Archives (sha256 : Bytes → Hash256) (W : Set Bytes) (root : Root B)
    (entries : List (Hash256 × Bytes)) : Prop where
  | empty (hhash : root.hash = emptyRoot sha256) (hcount : root.count = 0) (hentries : entries = [])
  | trie (t : ArchiveTrie) (hhash : root.hash = digest sha256 t)
    (hcount : root.count = t.entries.length)
    (hkept : Written sha256 (W ∩ kept sha256 root.store) t) (hsorted : t.Sorted Btcnull.bitAt)
    (hentries : ∀ x, x ∈ entries ↔ x ∈ t.entries)

theorem entries_length_ne_zero (t : ArchiveTrie) : t.entries.length ≠ 0 := by
  obtain ⟨x, hx⟩ := t.exists_mem_entries
  exact Nat.ne_zero_of_lt (length_pos_of_mem hx)

variable {root root' : Root B} {entries : List (Hash256 × Bytes)}

theorem publish_eq_some {s : Staged} (h : publish root s = some root') :
    B.write root.store s.records = some root'.store ∧ root'.hash = s.child ∧
      root'.count = root.count + 1 := by
  simp only [publish, bind_eq_some] at h
  obtain ⟨store, hwrite, heq⟩ := h
  cases heq
  exact ⟨hwrite, rfl, rfl⟩

section
variable (hinj : Set.InjOn (hashRecord sha256) W) (hB : B.Within W) (hD : B.Durable)
  (h : Archives sha256 W root entries)
include hinj hB hD h

theorem Archives.insert (hinsert : insert sha256 root key value = some root') :
    Archives sha256 W root' (entries ++ [(key, value)]) ∧
      W ∩ kept sha256 root.store ⊆ W ∩ kept sha256 root'.store := by
  cases h with
  | empty hhash hcount hentries =>
    subst hentries
    simp only [Archive.insert, bind_eq_some, if_pos hcount] at hinsert
    obtain ⟨-, -, hpublish⟩ := hinsert
    obtain ⟨hwrite, hchild, hcount'⟩ := publish_eq_some hpublish
    obtain ⟨hrows, hgrow⟩ := write_kept hinj hB hD (hashed_stage (forall_mem_nil _)) hwrite
    have hleaf : Makes sha256 (W ∩ kept sha256 root'.store) _ (.leaf key value) := makes_leaf
    exact ⟨.trie (.leaf key value) hchild (by rw [hcount', hcount]; rfl) (hleaf.2 hrows) trivial
      fun x => Iff.rfl, hgrow⟩
  | trie t hhash hcount hkept hsorted hentries =>
    have hne : root.count ≠ 0 := hcount ▸ entries_length_ne_zero t
    obtain ⟨hmem, rfl⟩ | ⟨-, s, t', hpublish, hs, hmakes, hsorted', hlength, hmem⟩ :=
      insert_shape hinj hB hne hhash (hkept.mono Set.inter_subset_left) hsorted hinsert
    · refine ⟨.trie t hhash hcount hkept hsorted fun x => ?_, subset_rfl⟩
      rw [mem_append, mem_singleton, hentries]
      exact or_iff_left_of_imp fun hx => hx ▸ hmem
    · obtain ⟨hwrite, hchild, hcount'⟩ := publish_eq_some hpublish
      obtain ⟨hrows, hgrow⟩ := write_kept hinj hB hD hs hwrite
      obtain ⟨hdigest, hwritten⟩ := hmakes _ (hkept.mono hgrow)
      refine ⟨.trie t' (hchild.trans hdigest) (by rw [hcount', hcount, hlength]) (hwritten hrows)
        hsorted' fun x => ?_, hgrow⟩
      rw [mem_append, mem_singleton, hentries, hmem, or_comm]

theorem Archives.insertAll (rows : List (Hash256 × Bytes)) :
    Archives sha256 W (insertAll sha256 root rows).1 (entries ++ (insertAll sha256 root rows).2) ∧
      W ∩ kept sha256 root.store ⊆ W ∩ kept sha256 (insertAll sha256 root rows).1.store := by
  induction rows generalizing root entries with
  | nil => exact ⟨by simpa [Archive.insertAll] using h, subset_rfl⟩
  | cons row rest ih =>
    unfold Archive.insertAll
    cases hinsert : Archive.insert sha256 root row.1 row.2 with
    | none => exact ih h
    | some root' =>
      obtain ⟨hstep, hgrow⟩ := h.insert hinj hB hD hinsert
      obtain ⟨hrest, hgrow'⟩ := ih hstep
      refine ⟨?_, hgrow.trans hgrow'⟩
      simpa using hrest

end

/-! ## Answers -/

theorem lookup_entries (key : Hash256) (hsorted : t.Sorted Btcnull.bitAt)
    (hentries : ∀ x, x ∈ entries ↔ x ∈ t.entries) :
    t.lookup Btcnull.bitAt key = entries.lookup key := by
  cases hfound : entries.lookup key with
  | some v =>
    obtain ⟨front, back, heq, -⟩ := lookup_eq_some_iff.mp hfound
    rw [hsorted.lookup_eq_some, ← hentries, heq]
    simp
  | none =>
    rw [hsorted.lookup_eq_none]
    intro v hv
    have := lookup_eq_none_iff.mp hfound _ ((hentries _).mpr hv)
    simp at this

theorem Archives.get (hinj : Set.InjOn (hashRecord sha256) W) (hempty : [2] ∈ W)
    (h : Archives sha256 W root entries) : get sha256 root key = some (entries.lookup key) := by
  cases h with
  | empty hhash hcount hentries => simp [Archive.get, CheckRoot, hcount, hhash, hentries]
  | trie t hhash hcount hkept hsorted hentries =>
    have hne : root.count ≠ 0 := hcount ▸ entries_length_ne_zero t
    have hroot := digest_ne_emptyRoot hinj hempty (hkept.mono Set.inter_subset_left)
    obtain ⟨path, cursor, hwalk⟩ := descend_root key hinj hempty hkept hsorted
    simp only [Archive.get, CheckRoot, hne, hhash, hroot, hwalk, some_bind, guard_true,
      Option.pure_def, if_false]
    rw [← lookup_entries key hsorted hentries, Trie.lookup]

/-- The entries determine the root, in whatever order they were inserted and over whatever store. -/
theorem Archives.root_eq {entries' : List (Hash256 × Bytes)} (h : Archives sha256 W root entries)
    (h' : Archives sha256 W root' entries') (hsame : ∀ x, x ∈ entries ↔ x ∈ entries') :
    root.hash = root'.hash ∧ root.count = root'.count := by
  cases h with
  | empty hhash hcount hentries =>
    cases h' with
    | empty hhash' hcount' hentries' => exact ⟨hhash.trans hhash'.symm, hcount.trans hcount'.symm⟩
    | trie t' hhash' hcount' hkept' hsorted' hentries' =>
      obtain ⟨x, hx⟩ := t'.exists_mem_entries
      have := (hsame x).mpr ((hentries' x).mpr hx)
      simp [hentries] at this
  | trie t hhash hcount hkept hsorted hentries =>
    cases h' with
    | empty hhash' hcount' hentries' =>
      obtain ⟨x, hx⟩ := t.exists_mem_entries
      have := (hsame x).mp ((hentries x).mpr hx)
      simp [hentries'] at this
    | trie t' hhash' hcount' hkept' hsorted' hentries' =>
      obtain rfl : t = t' := hsorted.ext hsorted' fun x => by rw [← hentries, hsame, hentries']
      exact ⟨hhash.trans hhash'.symm, hcount.trans hcount'.symm⟩

theorem Archives.over (h : Archives sha256 W root entries)
    (hgrow : W ∩ kept sha256 root.store ⊆ W ∩ kept sha256 store) :
    Archives sha256 W ⟨root.hash, root.count, store⟩ entries := by
  cases h with
  | empty hhash hcount hentries => exact .empty hhash hcount hentries
  | trie t hhash hcount hkept hsorted hentries =>
    exact .trie t hhash hcount (hkept.mono hgrow) hsorted hentries

theorem splitOf_isSome {a b : Hash256} (h : a ≠ b) : (splitOf a b).isSome := by
  rw [splitOf, List.find?_isSome]
  by_contra hnone
  push Not at hnone
  refine h (Btcnull.pathBits_injective (map_congr_left fun i hi => ?_))
  simpa using hnone i hi

/-- An insertion that is decided: an entry is repeated or contradicted, or a batch is written. -/
theorem Archives.insert_eq (hinj : Set.InjOn (hashRecord sha256) W) (hempty : [2] ∈ W)
    (hD : B.Durable) (h : Archives sha256 W root entries) :
    (∀ v, entries.lookup key = some v →
      Archive.insert sha256 root key value = if v = value then some root else none) ∧
    (entries.lookup key = none → root.count ≠ uint64Max →
      ∃ s, Archive.insert sha256 root key value = publish root s) := by
  cases h with
  | empty hhash hcount hentries =>
    refine ⟨fun v hv => by simp [hentries] at hv, fun _ _ =>
      ⟨stage sha256 [] (leafRecord key value), ?_⟩⟩
    simp [Archive.insert, CheckRoot, hcount, hhash, hD.available]
  | trie t hhash hcount hkept hsorted hentries =>
    have hne : root.count ≠ 0 := hcount ▸ entries_length_ne_zero t
    have hroot := digest_ne_emptyRoot hinj hempty (hkept.mono Set.inter_subset_left)
    obtain ⟨path, cursor, hwalk⟩ := descend_root key hinj hempty hkept hsorted
    have hlookup := lookup_entries key hsorted hentries
    simp only [Archive.insert, CheckRoot, hne, hhash, hroot, hwalk, hD.available, some_bind,
      guard_true, Option.pure_def, if_false, and_self]
    rw [← hlookup, Trie.lookup]
    refine ⟨fun v hv => ?_, fun hnone hmax => ?_⟩
    · split_ifs at hv with hkey
      cases hv
      rw [if_pos hkey]
      split <;> simp_all
    · split_ifs at hnone with hkey
      rw [if_neg hkey]
      obtain ⟨split, hsplit⟩ := Option.isSome_iff_exists.mp (splitOf_isSome (Ne.symm hkey))
      exact ⟨_, by simp [hmax, hsplit]; rfl⟩

/-- The root of an archive in which nothing has been inserted. -/
def emptyArchive (sha256 : Bytes → Hash256) (B : Backend) : Root B := ⟨emptyRoot sha256, 0, B.initial⟩

/-- The archive is a finite map. After any insertions it answers with the entries that were accepted
and with nothing else; the root is determined by those entries; it goes on answering over the store
of later insertions; a key keeps its value, and a new key is refused by the store or the count only.
A walk loads at most 257 records, whatever the store shows. -/
theorem archive_map (hinj : Set.InjOn (hashRecord sha256) W) (hempty : [2] ∈ W) (hB : B.Within W)
    (hD : B.Durable) {rows : List (Hash256 × Bytes)}
    (hrun : insertAll sha256 (emptyArchive sha256 B) rows = (root, entries)) :
    (∀ key, get sha256 root key = some (entries.lookup key)) ∧
    (∀ rows' root' entries', insertAll sha256 (emptyArchive sha256 B) rows' = (root', entries') →
      (∀ x, x ∈ entries ↔ x ∈ entries') → root.hash = root'.hash ∧ root.count = root'.count) ∧
    (∀ later key, get sha256 ⟨root.hash, root.count, (insertAll sha256 root later).1.store⟩ key =
      some (entries.lookup key)) ∧
    (∀ key v value, entries.lookup key = some v →
      insert sha256 root key value = if v = value then some root else none) ∧
    (∀ key value, entries.lookup key = none → insert sha256 root key value = none →
      root.count = uint64Max ∨ ∃ records, B.write root.store records = none) ∧
    ∀ (store : B.Store) hash key steps,
      (257 ≤ steps →
        descend sha256 store key steps (-1) hash = descend sha256 store key 257 (-1) hash) ∧
      ∀ path terminal cursor, descend sha256 store key steps (-1) hash =
        some (path, terminal, cursor) → path.length + 1 ≤ 257 := by
  have hstart : Archives sha256 W (emptyArchive sha256 B) [] := .empty rfl rfl rfl
  have hall (rows) := (hstart.insertAll hinj hB hD rows).1
  have hroot : Archives sha256 W root entries := by simpa [hrun] using hall rows
  refine ⟨fun key => hroot.get hinj hempty, fun rows' root' entries' hrun' hsame => ?_,
    fun later key => ?_, fun key v value hv => (hroot.insert_eq hinj hempty hD).1 v hv,
    fun key value hnone hrefused => ?_, fun store hash key steps =>
      ⟨descend_limit, fun path terminal cursor h => ?_⟩⟩
  · have hroot' : Archives sha256 W root' entries' := by simpa [hrun'] using hall rows'
    exact hroot.root_eq hroot' hsame
  · exact (hroot.over (hroot.insertAll hinj hB hD later).2).get hinj hempty
  · refine or_iff_not_imp_left.mpr fun hmax => ?_
    obtain ⟨s, hs⟩ := (hroot.insert_eq hinj hempty hD).2 hnone hmax
    rw [hs] at hrefused
    refine ⟨s.records, ?_⟩
    by_contra hwritten
    obtain ⟨store, hstore⟩ := Option.ne_none_iff_exists'.mp hwritten
    simp [publish, hstore] at hrefused
  · have := descend_length (by decide) h
    omega

end

theorem memory_read (W : List Bytes) (records store : List (Hash256 × Bytes)) (hash : Hash256) :
    (memory W).read (records ++ store) hash =
      (((records.find? fun row => row.1 = hash).or (store.find? fun row => row.1 = hash)).map
        (·.2)).filter (· ∈ W) := by
  rw [← List.find?_append]
  rfl

theorem memory_durable (W : List Bytes) : (memory W).Durable where
  available := rfl
  read_new {store store' records} h row hrow := by
    simp only [memory] at h
    split at h
    · rename_i hW
      cases h
      have hfound : (records.find? fun r => r.1 = row.1).isSome = true :=
        List.find?_isSome.mpr ⟨row, hrow, by simp⟩
      obtain ⟨found, heq⟩ := Option.isSome_iff_exists.mp hfound
      have hmem := mem_of_find?_eq_some heq
      have hkey := List.find?_some heq
      refine ⟨found.2, ?_, ?_⟩
      · rw [← of_decide_eq_true hkey]
        exact hmem
      · exact (memory_read W records store row.1).trans (by simp [heq, hW found hmem])
    · cases h
  read_old {store store' records} h hash hnone := by
    simp only [memory] at h
    split at h
    · cases h
      have hfound : (records.find? fun r => r.1 = hash) = none := by
        simpa using hnone
      exact (memory_read W records store hash).trans (by rw [hfound]; rfl)
    · cases h

def firstRow : Hash256 × Bytes := (.zero, [])
def secondRow : Hash256 × Bytes := (.ones, [7])

def rowRecords : List Bytes :=
  let first := stage lengthHash [] (leafRecord firstRow.1 firstRow.2)
  let second := stagePath lengthHash secondRow.1 secondRow.2
    ((splitOf secondRow.1 firstRow.1).getD 0) [] first.child
  [2] :: (first.records ++ second.records).map (·.2)

theorem archive_map_two : ∃ root : Root (memory rowRecords),
    insertAll lengthHash (emptyArchive lengthHash _) [firstRow, secondRow] =
      (root, [firstRow, secondRow]) ∧
    get lengthHash root secondRow.1 = some (some [7]) ∧
    insert lengthHash root secondRow.1 [8] = none := by
  have hrecords : ∀ a ∈ rowRecords, ∀ b ∈ rowRecords,
      hashRecord lengthHash a = hashRecord lengthHash b → a = b := by decide +kernel
  have hrun : (insertAll lengthHash (emptyArchive lengthHash (memory rowRecords))
      [firstRow, secondRow]).2 = [firstRow, secondRow] := by decide +kernel
  obtain ⟨hget, -, -, hinsert, -⟩ := archive_map (fun a ha b hb => hrecords a ha b hb)
    mem_cons_self (memory_within rowRecords) (memory_durable rowRecords) (Prod.ext rfl hrun)
  exact ⟨_, Prod.ext rfl hrun, hget secondRow.1, hinsert secondRow.1 [7] [8] (by decide)⟩

end Veld.Btcveld.Archive
