import Veld.Consensus.MintNullifier

/-!
# The nullifier root as a set

What the mint nullifier is for: its root stands for a set of keys. `insert` succeeds exactly for an absent key
with its true path and moves to the root of the larger set.
-/

namespace Veld.Btcnull

open Wire SparseMerkle List

/-! ## Strings hashed -/

def nodeString (p : Hash256 × Hash256) : Bytes :=
  ascii "VELD_BTCVELD_MINT_NULLIFIER_NODE_v1|" ++ (p.1.bytes ++ p.2.bytes)

def leafString (key : Hash256) (occupied : Bool) : Bytes :=
  if occupied then ascii "VELD_BTCVELD_MINT_NULLIFIER_OCCUPIED_LEAF_v1|" ++ key.bytes
  else ascii "VELD_BTCVELD_MINT_NULLIFIER_EMPTY_LEAF_v1|" ++ []

theorem nodeString_injective : Function.Injective nodeString := by
  rintro ⟨a, b⟩ ⟨c, d⟩ h
  obtain ⟨hac, hbd⟩ := append_inj (append_cancel_left h) (by simp only [a.size, c.size])
  exact Prod.ext (Hash256.ext_bytes hac) (Hash256.ext_bytes hbd)

theorem leafString_ne (key : Hash256) : leafString key true ≠ leafString key false := by
  intro h
  have hlen := congrArg List.length h
  simp [leafString, ascii, key.size] at hlen

section
variable (sha256 : Bytes → Hash256)

/-- The strings hashed when a leaf is folded along the path of a key. -/
def pathStrings (key : Hash256) (sibs : List Hash256) (occupied : Bool) : Set Bytes :=
  {x | x = leafString key occupied ∨
    ∃ p ∈ pathPairs (node sha256) (pathBits key) sibs (sha256 (leafString key occupied)),
      x = nodeString p}

/-- The strings `ComputePath` hashes for an outpoint and a proof. -/
def verifyStrings (outpoint : Bytes) (occupied : Bool) (p : Proof) : Set Bytes :=
  {x | ∃ sibs, expandSiblings sha256 p = some sibs ∧
    x ∈ pathStrings sha256 (keyForOutpoint sha256 outpoint) sibs occupied}

/-! ## The tree of a set of keys -/

noncomputable def nullifierRoot (S : Set Hash256) : Hash256 :=
  setRoot (node sha256) pathBits (occupiedLeaf sha256) (emptyLeaf sha256) treeDepth S

noncomputable def truePath (S : Set Hash256) (key : Hash256) : List Hash256 :=
  siblings (node sha256) (pathBits key)
    (setLeaf pathBits (occupiedLeaf sha256) (emptyLeaf sha256) S)

open Classical in
/-- The strings hashed when an outpoint and its proof are checked against the tree of a set: those
along the path of its key in the tree, and those the code hashes. -/
def insertStrings (S : Set Hash256) (outpoint : Bytes) (p : Proof) : Set Bytes :=
  pathStrings sha256 (keyForOutpoint sha256 outpoint)
      (truePath sha256 S (keyForOutpoint sha256 outpoint))
      (decide (keyForOutpoint sha256 outpoint ∈ S)) ∪
    verifyStrings sha256 outpoint false p

/-- A run of insertions, each on the root the one before returned. -/
def insertRun : Hash256 → List (Bytes × Proof) → Option Hash256
  | root, [] => some root
  | root, (outpoint, p) :: rest =>
    if (insert sha256 root outpoint p).ok then
      insertRun (insert sha256 root outpoint p).newRoot rest
    else none

def runKeys (ops : List (Bytes × Proof)) : Set Hash256 :=
  {k | ∃ op ∈ ops, k = keyForOutpoint sha256 op.1}

/-- The strings hashed over a run that starts at the root of `S`. -/
def runStrings : Set Hash256 → List (Bytes × Proof) → Set Bytes
  | _, [] => ∅
  | S, (outpoint, p) :: rest =>
    insertStrings sha256 S outpoint p ∪
      runStrings (Insert.insert (keyForOutpoint sha256 outpoint) S) rest

end

section
variable {sha256 : Bytes → Hash256}

theorem sha_leafString (key : Hash256) (occupied : Bool) :
    sha256 (leafString key occupied) =
      if occupied then occupiedLeaf sha256 key else emptyLeaf sha256 := by
  cases occupied <;> rfl

theorem truePath_length (S : Set Hash256) (key : Hash256) :
    (truePath sha256 S key).length = treeDepth := by
  rw [truePath, siblings_length, pathBits_length]

variable (sha256) in
open Classical in
theorem foldPath_truePath (S : Set Hash256) (key : Hash256) :
    foldPath (node sha256) (pathBits key) (truePath sha256 S key)
      (sha256 (leafString key (decide (key ∈ S)))) = nullifierRoot sha256 S := by
  have h := foldPath_setLeaf (node sha256) pathBits (occupiedLeaf sha256)
    (emptyLeaf sha256) S key
  rw [setLeaf_bits _ _ pathBits_injective, pathBits_length] at h
  simpa [sha_leafString, nullifierRoot, truePath] using h

theorem foldPath_truePath_occupied (S : Set Hash256) (key : Hash256) :
    foldPath (node sha256) (pathBits key) (truePath sha256 S key) (occupiedLeaf sha256 key) =
      nullifierRoot sha256 (Insert.insert key S) := by
  have h := foldPath_setLeaf_occ (node sha256) (occupiedLeaf sha256)
    (emptyLeaf sha256) pathBits_injective S key
  rwa [pathBits_length] at h

variable (sha256) in
theorem emptyHashesFrom_head (n : Nat) :
    (emptyHashesFrom sha256 n).head? =
      some (setRoot (node sha256) pathBits (occupiedLeaf sha256) (emptyLeaf sha256) n ∅) := by
  induction n with
  | zero => simp [emptyHashesFrom, setRoot, treeRoot, setLeaf]
  | succ n ih =>
    rw [setRoot_empty_succ]
    unfold emptyHashesFrom
    split
    · rename_i h; rw [h] at ih; simp at ih
    · rename_i e es h
      rw [h, List.head?_cons, Option.some.injEq] at ih
      rw [List.head?_cons, ih]

theorem emptyRoot_eq : emptyRoot sha256 = nullifierRoot sha256 ∅ := by
  have h := emptyHashesFrom_head sha256 treeDepth
  unfold emptyRoot emptyHashes nullifierRoot
  cases hl : emptyHashesFrom sha256 treeDepth with
  | nil => rw [hl] at h; simp at h
  | cons e es => rw [hl] at h; simpa using h

/-! ## Verification against one root -/

variable {outpoint : Bytes} {root : Hash256} {p : Proof}

theorem verify_eq_true {occupied : Bool} :
    verify sha256 root outpoint occupied p ↔
      ∃ sibs, expandSiblings sha256 p = some sibs ∧
        foldPath (node sha256) (pathBits (keyForOutpoint sha256 outpoint)) sibs
          (sha256 (leafString (keyForOutpoint sha256 outpoint) occupied)) = root := by
  unfold verify computePath
  cases hx : expandSiblings sha256 p with
  | none => simp
  | some sibs => simp [pathHashes_head, sha_leafString]

theorem pathStrings_subset {occupied : Bool} {ss : List Hash256}
    (h : expandSiblings sha256 p = some ss) :
    pathStrings sha256 (keyForOutpoint sha256 outpoint) ss occupied ⊆ verifyStrings sha256 outpoint occupied p :=
  fun _ hx => ⟨ss, h, hx⟩

theorem node_injOn {key key' : Hash256} {ss ts : List Hash256} {a b : Bool}
    (hinj : Set.InjOn sha256 (pathStrings sha256 key ss a ∪ pathStrings sha256 key' ts b)) :
    Set.InjOn (fun q : Hash256 × Hash256 => node sha256 q.1 q.2)
      {q | q ∈ pathPairs (node sha256) (pathBits key) ss (sha256 (leafString key a)) ∨
        q ∈ pathPairs (node sha256) (pathBits key') ts (sha256 (leafString key' b))} := by
  intro q hq r hr hqr
  refine nodeString_injective (hinj ?_ ?_ hqr)
  · exact hq.imp (fun h => .inr ⟨q, h, rfl⟩) fun h => .inr ⟨q, h, rfl⟩
  · exact hr.imp (fun h => .inr ⟨r, h, rfl⟩) fun h => .inr ⟨r, h, rfl⟩

theorem path_unique {key : Hash256} {ss ts : List Hash256} {a b : Bool}
    (hs : ss.length = treeDepth) (ht : ts.length = treeDepth)
    (hinj : Set.InjOn sha256 (pathStrings sha256 key ss a ∪ pathStrings sha256 key ts b))
    (h : foldPath (node sha256) (pathBits key) ss (sha256 (leafString key a)) =
      foldPath (node sha256) (pathBits key) ts (sha256 (leafString key b))) :
    ss = ts ∧ a = b := by
  obtain ⟨hsib, hleaf⟩ := foldPath_inj (node sha256) (by rw [hs, pathBits_length])
    (by rw [ht, pathBits_length]) (node_injOn hinj) h
  refine ⟨hsib, ?_⟩
  have hstr := hinj (.inl (.inl rfl)) (.inr (.inl rfl)) hleaf
  cases a <;> cases b
  · rfl
  · exact absurd hstr.symm (leafString_ne key)
  · exact absurd hstr (leafString_ne key)
  · rfl

theorem not_verify_both {q : Proof} (hinj : Set.InjOn sha256
      (verifyStrings sha256 outpoint true p ∪ verifyStrings sha256 outpoint false q)) :
    ¬ (verify sha256 root outpoint true p ∧ verify sha256 root outpoint false q) := by
  rintro ⟨hp, hq⟩
  obtain ⟨ss, hss, hp⟩ := verify_eq_true.mp hp
  obtain ⟨ts, hts, hq⟩ := verify_eq_true.mp hq
  have hsub := hinj.mono (Set.union_subset_union (pathStrings_subset hss) (pathStrings_subset hts))
  have := path_unique (expandSiblings_length hss) (expandSiblings_length hts) hsub (hp.trans hq.symm)
  exact Bool.noConfusion this.2

/-! ## Insertion -/

theorem insert_eq (root : Hash256) (outpoint : Bytes) {sibs : List Hash256}
    (hx : expandSiblings sha256 p = some sibs) :
    insert sha256 root outpoint p =
      if foldPath (node sha256) (pathBits (keyForOutpoint sha256 outpoint)) sibs
          (emptyLeaf sha256) = root then
        ⟨true, root, foldPath (node sha256) (pathBits (keyForOutpoint sha256 outpoint)) sibs
          (occupiedLeaf sha256 (keyForOutpoint sha256 outpoint))⟩
      else ⟨false, root, .zero⟩ := by
  unfold insert computePath
  simp [hx, pathHashes_head]

theorem insert_ok_eq_true :
    (insert sha256 root outpoint p).ok ↔ verify sha256 root outpoint false p := by
  cases hx : expandSiblings sha256 p with
  | none => simp [insert, verify, computePath, hx]
  | some sibs =>
    rw [insert_eq root outpoint hx, verify_eq_true]
    split
    · rename_i h; simp [hx, sha_leafString, h]
    · rename_i h; simp [hx, sha_leafString, h]

theorem insert_newRoot {sibs : List Hash256} (hx : expandSiblings sha256 p = some sibs)
    (hok : (insert sha256 root outpoint p).ok) :
    (insert sha256 root outpoint p).newRoot =
      foldPath (node sha256) (pathBits (keyForOutpoint sha256 outpoint)) sibs
        (occupiedLeaf sha256 (keyForOutpoint sha256 outpoint)) := by
  rw [insert_eq root outpoint hx] at hok ⊢
  split_ifs at hok
  rename_i h; rw [if_pos h]

variable {S : Set Hash256}

theorem insert_ok_iff (hinj : Set.InjOn sha256 (insertStrings sha256 S outpoint p)) :
    (insert sha256 (nullifierRoot sha256 S) outpoint p).ok ↔
      keyForOutpoint sha256 outpoint ∉ S ∧
        expandSiblings sha256 p = some (truePath sha256 S (keyForOutpoint sha256 outpoint)) := by
  classical
  rw [insert_ok_eq_true, verify_eq_true]
  generalize hkey : keyForOutpoint sha256 outpoint = key
  have hroot := foldPath_truePath sha256 S key
  constructor
  · rintro ⟨sibs, hx, hfold⟩
    have hsub : Set.InjOn sha256 (pathStrings sha256 key (truePath sha256 S key)
        (decide (key ∈ S)) ∪ pathStrings sha256 key sibs false) := by
      refine hinj.mono (Set.union_subset_union ?_ ?_)
      · rw [hkey]
      · intro x hx'
        exact ⟨sibs, hx, hkey ▸ hx'⟩
    obtain ⟨hs, hocc⟩ := path_unique (truePath_length S key) (expandSiblings_length hx) hsub
      (hroot.trans hfold.symm)
    exact ⟨by simpa using hocc, by rw [hx, hs]⟩
  · rintro ⟨habsent, hx⟩
    refine ⟨_, hx, ?_⟩
    simpa [habsent] using hroot

theorem insert_newRoot_eq (hinj : Set.InjOn sha256 (insertStrings sha256 S outpoint p))
    (hok : (insert sha256 (nullifierRoot sha256 S) outpoint p).ok) :
    (insert sha256 (nullifierRoot sha256 S) outpoint p).newRoot =
      nullifierRoot sha256 (Insert.insert (keyForOutpoint sha256 outpoint) S) := by
  have hx := ((insert_ok_iff hinj).mp hok).2
  rw [insert_newRoot hx hok, foldPath_truePath_occupied]

/-! ## Runs of insertions -/

/-- Over a run the root follows the set: each key is new, and the last root is that of all keys. -/
theorem insertRun_spec {ops : List (Bytes × Proof)}
    (hinj : Set.InjOn sha256 (runStrings sha256 S ops))
    (hrun : insertRun sha256 (nullifierRoot sha256 S) ops = some root) :
    root = nullifierRoot sha256 (S ∪ runKeys sha256 ops) ∧
      (∀ k ∈ runKeys sha256 ops, k ∉ S) ∧ (ops.map fun op => keyForOutpoint sha256 op.1).Nodup := by
  induction ops generalizing S with
  | nil =>
    simp only [insertRun, Option.some.injEq] at hrun
    simp [← hrun, runKeys]
  | cons op ops ih =>
    obtain ⟨outpoint, p⟩ := op
    simp only [insertRun] at hrun
    split_ifs at hrun with hok
    have hcall : Set.InjOn sha256 (insertStrings sha256 S outpoint p) :=
      hinj.mono Set.subset_union_left
    have habsent := ((insert_ok_iff hcall).mp hok).1
    rw [insert_newRoot_eq hcall hok] at hrun
    obtain ⟨hroot, hnew, hnodup⟩ := ih (hinj.mono Set.subset_union_right) hrun
    have hkeys : runKeys sha256 ((outpoint, p) :: ops) =
        Insert.insert (keyForOutpoint sha256 outpoint) (runKeys sha256 ops) := by
      ext k; simp [runKeys]
    refine ⟨?_, ?_, ?_⟩
    · rw [hroot, hkeys, Set.insert_union, Set.union_insert]
    · intro k hk
      rw [hkeys] at hk
      rcases hk with rfl | hk
      · exact habsent
      · exact fun hkS => hnew k hk (Set.mem_insert_of_mem _ hkS)
    · rw [map_cons, nodup_cons]
      refine ⟨?_, hnodup⟩
      intro hmem
      obtain ⟨op, hop, heq⟩ := mem_map.mp hmem
      exact hnew _ ⟨op, hop, rfl⟩ (heq ▸ Set.mem_insert _ _)

theorem setLeaf_empty : setLeaf pathBits (occupiedLeaf sha256) (emptyLeaf sha256) ∅ =
    fun _ => emptyLeaf sha256 := by
  funext p; simp [setLeaf]

theorem siblings_empty (bits : List Bool) :
    siblings (node sha256) bits (fun _ => emptyLeaf sha256) =
      (emptyHashesFrom sha256 bits.length).tail := by
  induction bits with
  | nil => rfl
  | cons b bits ih =>
    have hhead := emptyHashesFrom_head sha256 bits.length
    rw [setRoot, setLeaf_empty] at hhead
    obtain ⟨e, es, hes⟩ := exists_cons_of_length_eq_add_one
      (emptyHashesFrom_length sha256 bits.length)
    rw [hes] at hhead ih
    simp only [List.head?_cons, Option.some.injEq] at hhead
    simp [siblings, emptyHashesFrom, hes, ih, hhead]

theorem truePath_empty (key : Hash256) : truePath sha256 ∅ key = defaultSiblings sha256 := by
  rw [truePath, setLeaf_empty, siblings_empty, pathBits_length]
  rfl

theorem expand_no_siblings {ds : List Hash256} {mask : List Bool} (hlen : mask.length = ds.length)
    (hmask : ∀ b ∈ mask, b = false) : expand ds mask [] = some ds := by
  induction ds generalizing mask with
  | nil =>
    obtain rfl := length_eq_zero_iff.mp hlen
    rfl
  | cons d ds ih =>
    obtain ⟨b, mask, rfl⟩ := exists_cons_of_length_eq_add_one hlen
    obtain rfl := hmask b (by simp)
    simp [expand, ih (by simpa using hlen) fun b hb => hmask b (by simp [hb])]

theorem bitAt_zero (i : Nat) : bitAt Hash256.zero i = false := by
  have hzero : Hash256.zero.bytes.getD (i / 8) 0 = 0 := by
    rw [getD_eq_getElem?_getD]
    exact List.getElem?_getD_replicate_default_eq 0 32 _
  unfold bitAt
  rw [hzero]
  exact Nat.zero_testBit _

theorem expandSiblings_emptyProof :
    expandSiblings sha256 ⟨.zero, []⟩ = some (defaultSiblings sha256) := by
  rw [expandSiblings_eq]
  apply expand_no_siblings
  · rw [pathBits_length, defaultSiblings_length]
  · intro b hb
    obtain ⟨d, -, rfl⟩ := mem_map.mp hb
    exact bitAt_zero d

theorem runKeys_eq_of_outpoints {ops ops' : List (Bytes × Proof)}
    (h : ∀ o, o ∈ ops.map Prod.fst ↔ o ∈ ops'.map Prod.fst) :
    runKeys sha256 ops = runKeys sha256 ops' := by
  have hsub : ∀ a b : List (Bytes × Proof), (∀ o, o ∈ a.map Prod.fst → o ∈ b.map Prod.fst) →
      runKeys sha256 a ⊆ runKeys sha256 b := by
    rintro a b hab k ⟨op, hop, rfl⟩
    obtain ⟨op', hop', he⟩ := mem_map.mp (hab _ (mem_map_of_mem hop))
    exact ⟨op', hop', by rw [he]⟩
  exact Set.Subset.antisymm (hsub ops ops' fun o => (h o).mp) (hsub ops' ops fun o => (h o).mpr)

end
/-- The nullifier commits to a set. On strings without a collision: `Insert` at the root of `S`
succeeds exactly for a key outside `S` with its true path, and returns the root of `S` with the key
added; two runs from the empty root that insert the same outpoints end at the same root; no run
inserts an outpoint twice; one root never has both a membership and a non-membership proof of an
outpoint. -/
theorem nullifier_insert_exact (sha256 : Bytes → Hash256) (W : Set Bytes)
    (hcf : Set.InjOn sha256 W) :
    (∀ (S : Set Hash256) (outpoint : Bytes) (p : Proof), insertStrings sha256 S outpoint p ⊆ W →
      ((insert sha256 (nullifierRoot sha256 S) outpoint p).ok ↔
        keyForOutpoint sha256 outpoint ∉ S ∧
          expandSiblings sha256 p = some (truePath sha256 S (keyForOutpoint sha256 outpoint))) ∧
      ((insert sha256 (nullifierRoot sha256 S) outpoint p).ok →
        (insert sha256 (nullifierRoot sha256 S) outpoint p).newRoot =
          nullifierRoot sha256 (Insert.insert (keyForOutpoint sha256 outpoint) S))) ∧
    (∀ (ops ops' : List (Bytes × Proof)) (root root' : Hash256),
      runStrings sha256 ∅ ops ⊆ W → runStrings sha256 ∅ ops' ⊆ W →
      insertRun sha256 (emptyRoot sha256) ops = some root →
      insertRun sha256 (emptyRoot sha256) ops' = some root' →
      (∀ o, o ∈ ops.map Prod.fst ↔ o ∈ ops'.map Prod.fst) → root = root') ∧
    (∀ (ops : List (Bytes × Proof)) (root : Hash256), runStrings sha256 ∅ ops ⊆ W →
      insertRun sha256 (emptyRoot sha256) ops = some root → (ops.map Prod.fst).Nodup) ∧
    (∀ (root : Hash256) (outpoint : Bytes) (p q : Proof),
      verifyStrings sha256 outpoint true p ⊆ W → verifyStrings sha256 outpoint false q ⊆ W →
      ¬ (verify sha256 root outpoint true p ∧
        verify sha256 root outpoint false q = true)) := by
  refine ⟨?_, ?_, ?_, ?_⟩
  · intro S outpoint p hW
    exact ⟨insert_ok_iff (hcf.mono hW), insert_newRoot_eq (hcf.mono hW)⟩
  · intro ops ops' root root' hW hW' hrun hrun' hsame
    rw [emptyRoot_eq] at hrun hrun'
    rw [(insertRun_spec (hcf.mono hW) hrun).1, (insertRun_spec (hcf.mono hW') hrun').1,
      runKeys_eq_of_outpoints hsame]
  · intro ops root hW hrun
    rw [emptyRoot_eq] at hrun
    have hnodup := (insertRun_spec (hcf.mono hW) hrun).2.2
    rw [← Function.comp_def, ← map_map] at hnodup
    exact hnodup.of_map
  · intro root outpoint p q hp hq
    exact not_verify_both (hcf.mono (Set.union_subset hp hq))

/-! A hash that numbers the levels of the empty tree, for a first insertion. -/

def levelDigest (n : Nat) : Hash256 := ⟨putLE 32 n, putLE_length 32 n⟩

def levelHash (x : Bytes) : Hash256 :=
  if x.take 36 = ascii "VELD_BTCVELD_MINT_NULLIFIER_NODE_v1|" then
    levelDigest (getLE ((x.drop 36).take 32) + 1)
  else levelDigest 0

theorem levelHash_nodeString (a b : Hash256) :
    levelHash (nodeString (a, b)) = levelDigest (getLE a.bytes + 1) := by
  have hdom : (ascii "VELD_BTCVELD_MINT_NULLIFIER_NODE_v1|").length = 36 := by decide
  have hlen := a.size
  unfold levelHash nodeString
  rw [if_pos (by rw [← hdom, take_left]), ← hdom, drop_left, ← hlen, take_left]

theorem levelHash_leafString (key : Hash256) :
    levelHash (leafString key false) = levelDigest 0 := by
  have hne : (ascii "VELD_BTCVELD_MINT_NULLIFIER_EMPTY_LEAF_v1|" ++ []).take 36 ≠
      ascii "VELD_BTCVELD_MINT_NULLIFIER_NODE_v1|" := by decide
  exact if_neg hne

theorem levelDigest_getLE {n : Nat} (h : n < 256 ^ 32) : getLE (levelDigest n).bytes = n :=
  getLE_putLE h

theorem level_defaults {n : Nat} (hn : n ≤ 256) (bits : List Bool) (hbits : bits.length = n) :
    ∃ es, emptyHashesFrom levelHash n = levelDigest n :: es ∧
      foldPath (node levelHash) bits es (levelDigest 0) = levelDigest n ∧
      ∀ p ∈ pathPairs (node levelHash) bits es (levelDigest 0),
        ∃ i < n, p = (levelDigest i, levelDigest i) := by
  induction n generalizing bits with
  | zero =>
    obtain rfl := length_eq_zero_iff.mp hbits
    exact ⟨[], by simp [emptyHashesFrom, levelDigest, emptyLeaf]; rfl, rfl, by simp [pathPairs]⟩
  | succ n ih =>
    obtain ⟨b, bits, rfl⟩ := exists_cons_of_length_eq_add_one hbits
    obtain ⟨es, hes, hfold, hpairs⟩ := ih (by omega) bits (by simpa using hbits)
    have hnode : node levelHash (levelDigest n) (levelDigest n) = levelDigest (n + 1) := by
      have hlt : n < 256 ^ 32 := lt_of_lt_of_le (by omega : n < 256 ^ 1)
        (Nat.pow_le_pow_right (by decide) (by decide))
      have := levelHash_nodeString (levelDigest n) (levelDigest n)
      rwa [levelDigest_getLE hlt] at this
    refine ⟨levelDigest n :: es, by simp [emptyHashesFrom, hes, hnode], ?_, ?_⟩
    · cases b <;> simp [foldPath, hfold, hnode]
    · intro p hp
      have hp' : p = (levelDigest n, levelDigest n) ∨
          p ∈ pathPairs (node levelHash) bits es (levelDigest 0) := by
        cases b <;> simpa [pathPairs, hfold] using hp
      rcases hp' with rfl | hp'
      · exact ⟨n, by omega, rfl⟩
      · obtain ⟨i, hi, rfl⟩ := hpairs p hp'
        exact ⟨i, by omega, rfl⟩

theorem levelHash_injOn_paths :
    Set.InjOn levelHash {x | ∃ key, x ∈ pathStrings levelHash key (defaultSiblings levelHash) false} := by
  -- every hashed string is the leaf or a node over two equal levels, and its digest tells which
  have hform : ∀ x ∈ {x | ∃ key, x ∈ pathStrings levelHash key (defaultSiblings levelHash) false},
      (x = leafString Hash256.zero false ∧ levelHash x = levelDigest 0) ∨
        ∃ i < 256, x = nodeString (levelDigest i, levelDigest i) ∧
          levelHash x = levelDigest (i + 1) := by
    rintro x ⟨key, hx⟩
    obtain ⟨es, hes, -, hpairs⟩ := level_defaults le_rfl (pathBits key) (pathBits_length key)
    have hdef : defaultSiblings levelHash = es := by
      have : emptyHashesFrom levelHash treeDepth = levelDigest 256 :: es := hes
      simp [defaultSiblings, emptyHashes, this]
    rw [hdef] at hx
    rcases hx with rfl | ⟨p, hp, rfl⟩
    · exact .inl ⟨rfl, levelHash_leafString key⟩
    · rw [levelHash_leafString] at hp
      obtain ⟨i, hi, rfl⟩ := hpairs p hp
      refine .inr ⟨i, hi, rfl, ?_⟩
      rw [levelHash_nodeString, levelDigest_getLE (by omega)]
  have hdigest : ∀ i j : Nat, i ≤ 256 → j ≤ 256 → levelDigest i = levelDigest j → i = j := by
    intro i j hi hj h
    have := congrArg (fun d => getLE d.bytes) h
    simpa [levelDigest_getLE (show i < 256 ^ 32 by omega),
      levelDigest_getLE (show j < 256 ^ 32 by omega)] using this
  intro x hx y hy hxy
  rcases hform x hx with ⟨rfl, hx'⟩ | ⟨i, hi, rfl, hx'⟩ <;>
    rcases hform y hy with ⟨rfl, hy'⟩ | ⟨j, hj, rfl, hy'⟩ <;> replace hxy := hx'.symm.trans (hxy.trans hy')
  · rfl
  · exact absurd (hdigest _ _ (by omega) (by omega) hxy) (by omega)
  · exact absurd (hdigest _ _ (by omega) (by omega) hxy) (by omega)
  · obtain rfl : i = j := by have := hdigest _ _ (by omega) (by omega) hxy; omega
    rfl

theorem levelHash_injOn (outpoint : Bytes) :
    Set.InjOn levelHash (insertStrings levelHash ∅ outpoint ⟨.zero, []⟩) := by
  apply levelHash_injOn_paths.mono
  intro x hx
  refine ⟨keyForOutpoint levelHash outpoint, ?_⟩
  rcases hx with hx | ⟨sibs, hsibs, hx⟩
  · simpa [truePath_empty] using hx
  · rw [expandSiblings_emptyProof, Option.some.injEq] at hsibs
    rwa [← hsibs] at hx

theorem nullifier_insert_exact_first :
    (insert levelHash (nullifierRoot levelHash ∅) (ascii "00:0") ⟨.zero, []⟩).ok ∧
      (insert levelHash (nullifierRoot levelHash ∅) (ascii "00:0") ⟨.zero, []⟩).newRoot =
        nullifierRoot levelHash {keyForOutpoint levelHash (ascii "00:0")} := by
  have h := (nullifier_insert_exact levelHash _ (levelHash_injOn (ascii "00:0"))).1 ∅
    (ascii "00:0") ⟨.zero, []⟩ subset_rfl
  have hok := h.1.mpr ⟨Set.notMem_empty _, by rw [expandSiblings_emptyProof, truePath_empty]⟩
  exact ⟨hok, by rw [h.2 hok, insert_empty_eq]⟩

end Veld.Btcnull
