import Veld.Consensus.NullifierSet

/-!
# Witnesses that follow the nullifier root

`UpdateWitnessAfterInsert` of `consensus/btcveld_mint_nullifier.h` moves a proof of one key across the
insertion of another: one sibling changes, at the depth where the two keys part.
-/

namespace Veld.Btcnull

open Wire SparseMerkle List

/-- `SetBitmapBit` with the value `true`. -/
def setBitmapBit (bitmap : Hash256) (depth : Nat) : Hash256 :=
  ⟨bitmap.bytes.modify (depth / 8) (· ||| UInt8.ofNat (1 <<< (7 - depth % 8))), by simp [bitmap.size]⟩

/-- The loop of `CompressSiblings` from `depth` on. -/
def compressLoop : Nat → List Hash256 → List Hash256 → Proof → Proof
  | depth, e :: es, s :: sibs, out =>
    compressLoop (depth + 1) es sibs (if s = e then out else ⟨setBitmapBit out.bitmap depth, out.siblings ++ [s]⟩)
  | _, _, _, out => out

/-- What `UpdateWitnessAfterInsert` returns and leaves in its two references. -/
structure WitnessUpdate where
  ok : Bool
  occupied : Bool
  proof : Proof

section
variable (sha256 : Bytes → Hash256)

def compressSiblings (sibs : List Hash256) : Proof :=
  compressLoop 0 (defaultSiblings sha256) sibs ⟨.zero, []⟩

def updateWitnessAfterInsert (oldRoot newRoot : Hash256) (target : Bytes) (occupied : Bool) (p : Proof)
    (inserted : Bytes) (q : Proof) : WitnessUpdate :=
  let transition := insert sha256 oldRoot inserted q
  if transition.ok = false ∨ transition.newRoot ≠ newRoot ∨ verify sha256 oldRoot target occupied p = false then
    ⟨false, occupied, p⟩
  else
    let targetKey := keyForOutpoint sha256 target
    let insertedKey := keyForOutpoint sha256 inserted
    if targetKey = insertedKey then
      -- the stream inserts the target itself, or attempts a duplicate
      if occupied then ⟨false, occupied, p⟩ else ⟨verify sha256 newRoot target true q, true, q⟩
    else
      let divergence := firstDiff (pathBits targetKey) (pathBits insertedKey)
      if divergence = treeDepth then ⟨false, occupied, p⟩
      else
        match expandSiblings sha256 p, computePath sha256 insertedKey true q with
        | some sibs, some newPath =>
          let proof := compressSiblings sha256 (sibs.set divergence (newPath.getD (divergence + 1) Hash256.zero))
          ⟨verify sha256 newRoot target occupied proof, occupied, proof⟩
        | _, _ => ⟨false, occupied, p⟩

/-- A wallet that applies a stream of insertions to its witness. -/
def followRun (target : Bytes) : Hash256 → Bool → Proof → List (Bytes × Proof) → WitnessUpdate
  | _, occupied, p, [] => ⟨true, occupied, p⟩
  | root, occupied, p, (inserted, q) :: rest =>
    let newRoot := (insert sha256 root inserted q).newRoot
    let update := updateWitnessAfterInsert sha256 root newRoot target occupied p inserted q
    if update.ok then followRun target newRoot update.occupied update.proof rest else update

def followStrings (target : Bytes) : Hash256 → Bool → Proof → List (Bytes × Proof) → Set Bytes
  | _, _, _, [] => ∅
  | root, occupied, p, (inserted, q) :: rest =>
    let newRoot := (insert sha256 root inserted q).newRoot
    let update := updateWitnessAfterInsert sha256 root newRoot target occupied p inserted q
    verifyStrings sha256 target occupied p ∪ verifyStrings sha256 inserted false q ∪
      followStrings target newRoot update.occupied update.proof rest

end

/-! ## The compact form of a sibling list -/

section
variable {sha256 : Bytes → Hash256}

theorem maskByte_testBit {k j : Nat} (hk : k < 8) :
    (UInt8.ofNat (1 <<< k)).toNat.testBit j = decide (k = j) := by
  have hlt : 1 <<< k < 2 ^ 8 := by
    rw [Nat.one_shiftLeft]
    exact Nat.pow_lt_pow_right (by decide) hk
  rw [UInt8.toNat_ofNat_of_lt' hlt, Nat.one_shiftLeft, Nat.testBit_two_pow]

theorem bitAt_setBitmapBit (bitmap : Hash256) {depth i : Nat} (hi : i < treeDepth) :
    bitAt (setBitmapBit bitmap depth) i = (bitAt bitmap i || decide (depth = i)) := by
  have hbyte : i / 8 < bitmap.bytes.length := by
    rw [bitmap.size]
    unfold treeDepth at hi
    omega
  simp only [bitAt, setBitmapBit, getD_eq_getElem?_getD, List.getElem?_modify, List.getElem?_eq_getElem hbyte,
    Option.map_eq_map, Option.map_some, Option.getD_some]
  by_cases hsame : depth / 8 = i / 8
  · rw [if_pos hsame, UInt8.toNat_or, Nat.testBit_or, maskByte_testBit (by omega)]
    congr 1
    exact decide_eq_decide.mpr (by omega)
  · have hne : depth ≠ i := fun h => hsame (by rw [h])
    simp [hsame, hne]

variable {sibs : List Hash256}

theorem compressLoop_eq {es : List Hash256} (hlen : sibs.length = es.length) (depth : Nat)
    (out : Proof) :
    (compressLoop depth es sibs out).siblings = out.siblings ++ (compress es sibs).2 ∧
      ∀ i < treeDepth, bitAt (compressLoop depth es sibs out).bitmap i =
        (bitAt out.bitmap i || (decide (depth ≤ i) && (compress es sibs).1.getD (i - depth) false)) := by
  induction es generalizing sibs depth out with
  | nil =>
    obtain rfl := length_eq_zero_iff.mp hlen
    simp [compressLoop, compress]
  | cons e es ih =>
    obtain ⟨s, sibs, rfl⟩ := exists_cons_of_length_eq_add_one hlen
    have hmask (b : Bool) (mask : List Bool) (i : Nat) (hi : depth < i) :
        (b :: mask).getD (i - depth) false = mask.getD (i - (depth + 1)) false := by
      rw [show i - depth = i - (depth + 1) + 1 by omega, getD_cons_succ]
    by_cases hs : s = e
    · obtain ⟨hsibs, hbits⟩ := ih (Nat.succ.inj hlen) (depth + 1) out
      simp only [compressLoop, compress, if_pos hs]
      refine ⟨hsibs, fun i hi => ?_⟩
      rw [hbits i hi]
      rcases Nat.lt_trichotomy depth i with h | h | h
      · rw [hmask _ _ i h]
        simp [show depth + 1 ≤ i by omega, h.le]
      · simp [h]
      · simp [show ¬depth + 1 ≤ i by omega, show ¬depth ≤ i by omega]
    · obtain ⟨hsibs, hbits⟩ := ih (Nat.succ.inj hlen) (depth + 1) ⟨setBitmapBit out.bitmap depth, out.siblings ++ [s]⟩
      simp only [compressLoop, compress, if_neg hs]
      refine ⟨by rw [hsibs, append_assoc, singleton_append], fun i hi => ?_⟩
      rw [hbits i hi, bitAt_setBitmapBit _ hi]
      rcases Nat.lt_trichotomy depth i with h | h | h
      · rw [hmask _ _ i h]
        simp [show depth + 1 ≤ i by omega, h.le, h.ne]
      · simp [h]
      · simp [show ¬depth + 1 ≤ i by omega, show ¬depth ≤ i by omega, h.ne']

theorem compress_length (es sibs : List Hash256) (hlen : sibs.length = es.length) :
    (compress es sibs).1.length = es.length := by
  induction es generalizing sibs with
  | nil => simp [compress]
  | cons e es ih =>
    obtain ⟨s, sibs, rfl⟩ := exists_cons_of_length_eq_add_one hlen
    by_cases hs : s = e <;> simp [compress, hs, ih sibs (Nat.succ.inj hlen)]

theorem compressSiblings_eq (hlen : sibs.length = treeDepth) :
    pathBits (compressSiblings sha256 sibs).bitmap = (compress (defaultSiblings sha256) sibs).1 ∧
      (compressSiblings sha256 sibs).siblings = (compress (defaultSiblings sha256) sibs).2 := by
  have hlen' : sibs.length = (defaultSiblings sha256).length := hlen.trans defaultSiblings_length.symm
  obtain ⟨hsibs, hbits⟩ := compressLoop_eq hlen' 0 ⟨.zero, []⟩
  have hsize : (compress (defaultSiblings sha256) sibs).1.length = treeDepth := by
    rw [compress_length _ _ hlen', defaultSiblings_length]
  refine ⟨ext_getElem (by rw [pathBits_length, hsize]) fun i hi hi' => ?_, by rw [compressSiblings, hsibs, nil_append]⟩
  have hbit := hbits i (hsize ▸ hi')
  rw [bitAt_zero, Bool.false_or, decide_eq_true (Nat.zero_le i), Bool.true_and, Nat.sub_zero,
    getD_eq_getElem _ _ hi'] at hbit
  simpa [pathBits, compressSiblings] using hbit

theorem expandSiblings_compressSiblings (hlen : sibs.length = treeDepth) :
    expandSiblings sha256 (compressSiblings sha256 sibs) = some sibs := by
  obtain ⟨hmask, hkept⟩ := compressSiblings_eq hlen
  rw [expandSiblings_eq, hmask, hkept]
  exact expand_compress _ _ (hlen.trans defaultSiblings_length.symm)

theorem compressSiblings_expandSiblings {p : Proof} (h : expandSiblings sha256 p = some sibs) :
    compressSiblings sha256 sibs = p := by
  obtain ⟨hmask, hkept⟩ := compressSiblings_eq (expandSiblings_length h)
  rw [expandSiblings_eq] at h
  rw [(expand_eq_some h).2] at hmask hkept
  generalize compressSiblings sha256 sibs = q at hmask hkept ⊢
  obtain ⟨bitmap, kept⟩ := q
  cases pathBits_injective hmask
  cases hkept
  rfl

theorem expandLoop_isSome {es : List Hash256} {bits : List Bool} (h : canonicalSiblings es bits sibs) :
    (expandLoop es bits sibs).isSome := by
  fun_induction canonicalSiblings es bits sibs with
  | case1 e es bits sibs ih => simpa [expandLoop] using ih h
  | case2 e es bits s sibs ih => simpa [expandLoop] using ih (Bool.and_eq_true_iff.mp h).2
  | case3 => cases h
  | case4 =>
    rw [List.isEmpty_iff.mp h]
    unfold expandLoop
    split <;> simp_all

/-- A proof has one encoding, and one compact form. -/
theorem nullifier_proof_one_form (sha256 : Bytes → Hash256) :
    (∀ bs p, decodeProof sha256 bs = some p → encodeProof sha256 p = bs) ∧
    (∀ p, isCanonicalProof sha256 p → decodeProof sha256 (encodeProof sha256 p) = some p ∧
      ∃ sibs, expandSiblings sha256 p = some sibs ∧ compressSiblings sha256 sibs = p) ∧
    ∀ sibs, sibs.length = treeDepth → isCanonicalProof sha256 (compressSiblings sha256 sibs) ∧
      expandSiblings sha256 (compressSiblings sha256 sibs) = some sibs := by
  refine ⟨fun bs p => encodeProof_of_decodeProof, fun p h => ⟨decodeProof_encodeProof h, ?_⟩,
    fun sibs hlen => ⟨?_, expandSiblings_compressSiblings hlen⟩⟩
  · obtain ⟨sibs, hsibs⟩ := Option.isSome_iff_exists.mp (expandLoop_isSome (Bool.and_eq_true_iff.mp h).2)
    have hexpand : expandSiblings sha256 p = some sibs := by rw [expandSiblings, if_pos h, hsibs]
    exact ⟨sibs, hexpand, compressSiblings_expandSiblings hexpand⟩
  · have hexpand := @expandSiblings_compressSiblings sha256 sibs hlen
    by_contra hnot
    rw [expandSiblings, if_neg hnot] at hexpand
    cases hexpand

theorem pathHashes_getD {bits : List Bool} (leaf : Hash256) (hlen : sibs.length = bits.length)
    {i : Nat} (hi : i ≤ bits.length) (d : Hash256) :
    (pathHashes sha256 bits sibs leaf).getD i d = foldPath (node sha256) (bits.drop i) (sibs.drop i) leaf := by
  induction bits generalizing sibs i with
  | nil =>
    obtain rfl := length_eq_zero_iff.mp hlen
    obtain rfl : i = 0 := by simpa using hi
    rfl
  | cons b bits ih =>
    obtain ⟨s, sibs, rfl⟩ := exists_cons_of_length_eq_add_one hlen
    cases i with
    | zero =>
      rw [getD_eq_getElem?_getD, ← List.head?_eq_getElem?, pathHashes_head]
      rfl
    | succ i =>
      rw [drop_succ_cons, drop_succ_cons, ← ih (Nat.succ.inj hlen) (by simpa using hi)]
      have hhead : (pathHashes sha256 bits sibs leaf).head? = _ := pathHashes_head bits sibs leaf
      cases hpath : pathHashes sha256 bits sibs leaf with
      | nil =>
        rw [hpath] at hhead
        cases hhead
      | cons h hs => simp only [pathHashes, hpath, getD_cons_succ]

/-! ## One insertion -/

/-- A witness of another key follows an insertion: the update succeeds, keeps the occupancy, and its
proof is valid under the new root. -/
theorem updateWitness_follows {root : Hash256} {target inserted : Bytes} {occupied : Bool} {p q : Proof}
    (hinj : Set.InjOn sha256 (verifyStrings sha256 target occupied p ∪ verifyStrings sha256 inserted false q))
    (hkey : keyForOutpoint sha256 target ≠ keyForOutpoint sha256 inserted)
    (hverify : verify sha256 root target occupied p) (hok : (insert sha256 root inserted q).ok) :
    ∃ p', updateWitnessAfterInsert sha256 root (insert sha256 root inserted q).newRoot target occupied p inserted q =
        ⟨true, occupied, p'⟩ ∧
      verify sha256 (insert sha256 root inserted q).newRoot target occupied p' = true := by
  obtain ⟨ss, hss, hfold⟩ := verify_eq_true.mp hverify
  obtain ⟨ts, hts, hfold'⟩ := verify_eq_true.mp (insert_ok_eq_true.mp hok)
  have hnew := insert_newRoot hts hok
  have hne : pathBits (keyForOutpoint sha256 target) ≠ pathBits (keyForOutpoint sha256 inserted) :=
    fun h => hkey (pathBits_injective h)
  have hslen := expandSiblings_length hss
  have htlen := expandSiblings_length hts
  have hd := firstDiff_lt (by rw [pathBits_length, pathBits_length]) hne
  rw [pathBits_length] at hd
  have hcompute : computePath sha256 (keyForOutpoint sha256 inserted) true q =
      some (pathHashes sha256 (pathBits (keyForOutpoint sha256 inserted)) ts
        (occupiedLeaf sha256 (keyForOutpoint sha256 inserted))) := by
    simp [computePath, hts]
  have hpairs := node_injOn (hinj.mono (Set.union_subset_union (pathStrings_subset hss) (pathStrings_subset hts)))
  have hfollow := foldPath_follow (node sha256) (occupiedLeaf sha256 (keyForOutpoint sha256 inserted))
    (by rw [hslen, pathBits_length]) (by rw [htlen, pathBits_length]) (by rw [pathBits_length, pathBits_length]) hne
    hpairs (hfold.trans hfold'.symm)
  have hsibling : (pathHashes sha256 (pathBits (keyForOutpoint sha256 inserted)) ts
      (occupiedLeaf sha256 (keyForOutpoint sha256 inserted))).getD (firstDiff _ _ + 1) Hash256.zero = _ :=
    pathHashes_getD _ (by rw [htlen, pathBits_length]) (by rw [pathBits_length]; exact hd) _
  rw [← hsibling, ← hnew] at hfollow
  have hproof := verify_eq_true.mpr
    ⟨_, expandSiblings_compressSiblings (by rw [length_set, hslen]), hfollow⟩
  refine ⟨_, ?_, hproof⟩
  have hguard : ¬((insert sha256 root inserted q).ok = false ∨
      (insert sha256 root inserted q).newRoot ≠ (insert sha256 root inserted q).newRoot ∨
      verify sha256 root target occupied p = false) := by
    simp [hok, hverify]
  simp only [updateWitnessAfterInsert, if_neg hguard, if_neg hkey, if_neg hd.ne, hss, hcompute, hproof]

/-! ## A stream of insertions -/

theorem followRun_spec {target : Bytes} {occupied : Bool} {ops : List (Bytes × Proof)} {root root' : Hash256}
    {p : Proof}
    (hinj : Set.InjOn sha256 (followStrings sha256 target root occupied p ops))
    (hkeys : ∀ op ∈ ops, keyForOutpoint sha256 target ≠ keyForOutpoint sha256 op.1)
    (hverify : verify sha256 root target occupied p) (hrun : insertRun sha256 root ops = some root') :
    ∃ p', followRun sha256 target root occupied p ops = ⟨true, occupied, p'⟩ ∧
      verify sha256 root' target occupied p' = true := by
  induction ops generalizing root p with
  | nil =>
    cases hrun
    exact ⟨p, rfl, hverify⟩
  | cons op ops ih =>
    obtain ⟨inserted, q⟩ := op
    simp only [insertRun] at hrun
    split at hrun
    · rename_i hok
      obtain ⟨p', hupdate, hnext⟩ := updateWitness_follows (hinj.mono Set.subset_union_left)
        (hkeys _ mem_cons_self) hverify hok
      have hrest := hinj.mono Set.subset_union_right
      simp only [hupdate] at hrest
      obtain ⟨p'', hfollow, hlast⟩ := ih hrest (fun op hop => hkeys op (mem_cons_of_mem _ hop)) hnext hrun
      exact ⟨p'', by simpa only [followRun, hupdate, if_true] using hfollow, hlast⟩
    · cases hrun

end

/-- A witness never has to be fetched again: on strings without a collision, a valid proof is moved
across every insertion of another key, and so follows every stream of them. -/
theorem witness_follows_inserts (sha256 : Bytes → Hash256) (W : Set Bytes) (hcf : Set.InjOn sha256 W) :
    (∀ (root : Hash256) (target inserted : Bytes) (occupied : Bool) (p q : Proof),
      verifyStrings sha256 target occupied p ∪ verifyStrings sha256 inserted false q ⊆ W →
      keyForOutpoint sha256 target ≠ keyForOutpoint sha256 inserted →
      verify sha256 root target occupied p → (insert sha256 root inserted q).ok →
      ∃ p', updateWitnessAfterInsert sha256 root (insert sha256 root inserted q).newRoot target occupied p inserted q =
          ⟨true, occupied, p'⟩ ∧
        verify sha256 (insert sha256 root inserted q).newRoot target occupied p' = true) ∧
    (∀ (ops : List (Bytes × Proof)) (root root' : Hash256) (target : Bytes) (occupied : Bool) (p : Proof),
      followStrings sha256 target root occupied p ops ⊆ W →
      (∀ op ∈ ops, keyForOutpoint sha256 target ≠ keyForOutpoint sha256 op.1) →
      verify sha256 root target occupied p → insertRun sha256 root ops = some root' →
      ∃ p', followRun sha256 target root occupied p ops = ⟨true, occupied, p'⟩ ∧
        verify sha256 root' target occupied p' = true) := by
  refine ⟨?_, ?_⟩
  · intro root target inserted occupied p q hW hkey hverify hok
    exact updateWitness_follows (hcf.mono hW) hkey hverify hok
  · intro ops root root' target occupied p hW hkeys hverify hrun
    exact followRun_spec (hcf.mono hW) hkeys hverify hrun

/-! A hash that gives two outpoints different keys and numbers the levels of the empty tree. -/

def keyString (outpoint : Bytes) : Bytes := ascii "VELD_BTCVELD_MINT_NULLIFIER_KEY_v1|" ++ putLenPrefixed outpoint

def twoKeyHash (x : Bytes) : Hash256 := if x = keyString (ascii "01:0") then levelDigest 1 else levelHash x

theorem twoKeyHash_nodeString (p : Hash256 × Hash256) : twoKeyHash (nodeString p) = levelHash (nodeString p) := by
  refine if_neg fun h => ?_
  have hlen := congrArg List.length h
  have hkey : (keyString (ascii "01:0")).length < 100 := by decide
  have hdom : (ascii "VELD_BTCVELD_MINT_NULLIFIER_NODE_v1|").length = 36 := by decide
  simp only [nodeString, length_append, p.1.size, p.2.size, hdom] at hlen
  omega

theorem twoKeyHash_leafString (key : Hash256) : twoKeyHash (leafString key false) = levelHash (leafString key false) :=
  if_neg (by decide : leafString Hash256.zero false ≠ keyString (ascii "01:0"))

theorem node_twoKeyHash : node twoKeyHash = node levelHash := by
  funext a b
  exact twoKeyHash_nodeString (a, b)

theorem defaultSiblings_twoKeyHash : defaultSiblings twoKeyHash = defaultSiblings levelHash := by
  have hfrom (n : Nat) : emptyHashesFrom twoKeyHash n = emptyHashesFrom levelHash n := by
    induction n with
    | zero => exact congrArg (· :: []) (twoKeyHash_leafString Hash256.zero)
    | succ n ih =>
      simp only [emptyHashesFrom, ih, node_twoKeyHash]
  simp only [defaultSiblings, emptyHashes, hfrom]

theorem verifyStrings_twoKeyHash {outpoint x : Bytes} (hx : x ∈ verifyStrings twoKeyHash outpoint false ⟨.zero, []⟩) :
    twoKeyHash x = levelHash x ∧ ∃ key, x ∈ pathStrings levelHash key (defaultSiblings levelHash) false := by
  obtain ⟨sibs, hsibs, hx⟩ := hx
  rw [expandSiblings_emptyProof, Option.some.injEq, defaultSiblings_twoKeyHash] at hsibs
  subst hsibs
  rw [pathStrings, node_twoKeyHash, twoKeyHash_leafString] at hx
  refine ⟨?_, _, hx⟩
  rcases hx with rfl | ⟨p, -, rfl⟩
  · exact twoKeyHash_leafString _
  · exact twoKeyHash_nodeString p

theorem twoKeyHash_injOn (a b : Bytes) : Set.InjOn twoKeyHash
    (verifyStrings twoKeyHash a false ⟨.zero, []⟩ ∪ verifyStrings twoKeyHash b false ⟨.zero, []⟩) := by
  have hlevel : ∀ x ∈ verifyStrings twoKeyHash a false ⟨.zero, []⟩ ∪
      verifyStrings twoKeyHash b false ⟨.zero, []⟩,
      twoKeyHash x = levelHash x ∧ ∃ key, x ∈ pathStrings levelHash key (defaultSiblings levelHash) false := by
    rintro x (hx | hx) <;> exact verifyStrings_twoKeyHash hx
  intro x hx y hy hxy
  obtain ⟨hx, hxmem⟩ := hlevel x hx
  obtain ⟨hy, hymem⟩ := hlevel y hy
  exact levelHash_injOn_paths hxmem hymem (hx.symm.trans (hxy.trans hy))

theorem verify_emptyRoot (sha256 : Bytes → Hash256) (outpoint : Bytes) :
    verify sha256 (nullifierRoot sha256 ∅) outpoint false ⟨.zero, []⟩ = true := by
  have hroot := foldPath_truePath sha256 ∅ (keyForOutpoint sha256 outpoint)
  rw [truePath_empty] at hroot
  exact verify_eq_true.mpr ⟨_, expandSiblings_emptyProof, by simpa using hroot⟩

theorem witness_follows_first_insert :
    ∃ p', updateWitnessAfterInsert twoKeyHash (nullifierRoot twoKeyHash ∅)
        (insert twoKeyHash (nullifierRoot twoKeyHash ∅) (ascii "01:0") ⟨.zero, []⟩).newRoot (ascii "00:0") false
        ⟨.zero, []⟩ (ascii "01:0") ⟨.zero, []⟩ = ⟨true, false, p'⟩ := by
  have hkey : keyForOutpoint twoKeyHash (ascii "00:0") ≠ keyForOutpoint twoKeyHash (ascii "01:0") := by decide
  obtain ⟨p', hp', -⟩ := (witness_follows_inserts twoKeyHash _ (twoKeyHash_injOn (ascii "00:0") (ascii "01:0"))).1
    (nullifierRoot twoKeyHash ∅) (ascii "00:0") (ascii "01:0") false ⟨.zero, []⟩ ⟨.zero, []⟩ subset_rfl hkey
    (verify_emptyRoot _ _) (insert_ok_eq_true.mpr (verify_emptyRoot _ _))
  exact ⟨p', hp'⟩

end Veld.Btcnull
