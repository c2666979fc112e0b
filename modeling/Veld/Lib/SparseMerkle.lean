import Mathlib

/-!
# Sparse Merkle trees

A tree of fixed height over an arbitrary digest type `D`: its leaves are a function of the path (`List Bool`,
most significant bit first), an inner node is `node left right`.
-/

namespace SparseMerkle

open List

variable {D K : Type*} (node : D → D → D)

/-! ## Trees and paths -/

/-- The root of the tree of height `n` with leaves `f`. -/
def treeRoot : Nat → (List Bool → D) → D
  | 0, f => f []
  | n + 1, f => node (treeRoot n fun p => f (false :: p)) (treeRoot n fun p => f (true :: p))

/-- The siblings along a path, root first. -/
def siblings : List Bool → (List Bool → D) → List D
  | [], _ => []
  | b :: bs, f =>
    treeRoot node bs.length (fun p => f ((!b) :: p)) :: siblings bs fun p => f (b :: p)

/-- The root a verifier computes from a leaf and the siblings along its path. -/
def foldPath : List Bool → List D → D → D
  | b :: bs, s :: ss, leaf =>
    if b then node s (foldPath bs ss leaf) else node (foldPath bs ss leaf) s
  | _, _, leaf => leaf

/-- The pairs of digests hashed by `foldPath`, root first. -/
def pathPairs : List Bool → List D → D → List (D × D)
  | b :: bs, s :: ss, leaf =>
    (if b then (s, foldPath node bs ss leaf) else (foldPath node bs ss leaf, s)) ::
      pathPairs bs ss leaf
  | _, _, _ => []

@[simp] theorem siblings_length (bs : List Bool) (f : List Bool → D) :
    (siblings node bs f).length = bs.length := by
  induction bs generalizing f with
  | nil => rfl
  | cons b bs ih => simp [siblings, ih]

theorem foldPath_siblings_update (bs : List Bool) (f : List Bool → D) (x : D) :
    foldPath node bs (siblings node bs f) x =
      treeRoot node bs.length (Function.update f bs x) := by
  induction bs generalizing f with
  | nil => simp [foldPath, treeRoot]
  | cons b bs ih =>
    have hsame : ∀ c : Bool, c = b → (fun p => Function.update f (b :: bs) x (c :: p)) =
        Function.update (fun p => f (c :: p)) bs x := by
      rintro c rfl
      funext p
      by_cases hp : p = bs
      · subst hp; simp
      · simp [Function.update_of_ne, hp]
    cases b
    · simp [foldPath, siblings, treeRoot, ih, hsame false rfl]
    · simp [foldPath, siblings, treeRoot, ih, hsame true rfl]

theorem foldPath_siblings (bs : List Bool) (f : List Bool → D) :
    foldPath node bs (siblings node bs f) (f bs) = treeRoot node bs.length f := by
  rw [foldPath_siblings_update, Function.update_eq_self]

theorem pair_inj {b : Bool} {s t u v : D} (h : (if b then (s, u) else (u, s)) = if b then (t, v) else (v, t)) :
    s = t ∧ u = v := by
  cases b
  · exact (Prod.mk.inj h).symm
  · exact Prod.mk.inj h

theorem foldPath_inj {bs : List Bool} {ss ts : List D} {x y : D}
    (hs : ss.length = bs.length) (ht : ts.length = bs.length)
    (hinj : Set.InjOn (fun p : D × D => node p.1 p.2)
      {p | p ∈ pathPairs node bs ss x ∨ p ∈ pathPairs node bs ts y})
    (h : foldPath node bs ss x = foldPath node bs ts y) : ss = ts ∧ x = y := by
  induction bs generalizing ss ts with
  | nil =>
    rw [length_nil, length_eq_zero_iff] at hs ht
    subst hs ht
    exact ⟨rfl, h⟩
  | cons b bs ih =>
    obtain ⟨s, ss, rfl⟩ : ∃ s ss', ss = s :: ss' := exists_cons_of_length_eq_add_one hs
    obtain ⟨t, ts, rfl⟩ : ∃ t ts', ts = t :: ts' := exists_cons_of_length_eq_add_one ht
    -- the two pairs under the root hash to the same digest, so they are the same pair
    have hpair := pair_inj (hinj (.inl mem_cons_self) (.inr mem_cons_self)
      (by cases b <;> simpa [foldPath] using h))
    have hrest := ih (Nat.succ.inj hs) (Nat.succ.inj ht)
      (hinj.mono fun p hp => hp.imp (mem_cons_of_mem _) (mem_cons_of_mem _)) hpair.2
    exact ⟨by rw [hpair.1, hrest.1], hrest.2⟩

/-- The first place where two paths part. -/
def firstDiff : List Bool → List Bool → Nat
  | b :: bs, c :: cs => if b = c then firstDiff bs cs + 1 else 0
  | _, _ => 0

theorem firstDiff_lt {bs cs : List Bool} (hlen : bs.length = cs.length) (hne : bs ≠ cs) :
    firstDiff bs cs < bs.length := by
  induction bs generalizing cs with
  | nil => exact absurd (length_eq_zero_iff.mp hlen.symm).symm hne
  | cons b bs ih =>
    obtain ⟨c, cs, rfl⟩ := exists_cons_of_length_eq_add_one hlen.symm
    by_cases hbc : b = c
    · subst hbc
      have := ih (Nat.succ.inj hlen) fun h => hne (by rw [h])
      simpa [firstDiff] using this
    · simp [firstDiff, hbc]

/-- Two verifier paths to one root: when the leaf of the second changes, the first follows by taking
over one sibling, the subtree of the second path below the place where they part. -/
theorem foldPath_follow {bs cs : List Bool} {ss ts : List D} {x y : D} (y' : D) (hs : ss.length = bs.length)
    (ht : ts.length = cs.length) (hlen : bs.length = cs.length) (hne : bs ≠ cs)
    (hinj : Set.InjOn (fun p : D × D => node p.1 p.2)
      {p | p ∈ pathPairs node bs ss x ∨ p ∈ pathPairs node cs ts y})
    (h : foldPath node bs ss x = foldPath node cs ts y) :
    foldPath node bs (ss.set (firstDiff bs cs)
      (foldPath node (cs.drop (firstDiff bs cs + 1)) (ts.drop (firstDiff bs cs + 1)) y')) x =
      foldPath node cs ts y' := by
  induction bs generalizing cs ss ts with
  | nil => exact absurd (length_eq_zero_iff.mp hlen.symm).symm hne
  | cons b bs ih =>
    obtain ⟨c, cs, rfl⟩ := exists_cons_of_length_eq_add_one hlen.symm
    obtain ⟨s, ss, rfl⟩ := exists_cons_of_length_eq_add_one hs
    obtain ⟨t, ts, rfl⟩ := exists_cons_of_length_eq_add_one ht
    have htop := hinj (.inl mem_cons_self) (.inr mem_cons_self)
      (by cases b <;> cases c <;> simpa [foldPath] using h)
    by_cases hbc : b = c
    · subst hbc
      have hpair := pair_inj htop
      have hrest := ih (Nat.succ.inj hs) (Nat.succ.inj ht) (Nat.succ.inj hlen) (fun h => hne (by rw [h]))
        (hinj.mono fun p hp => hp.imp (mem_cons_of_mem _) (mem_cons_of_mem _)) hpair.2
      have hdiff : firstDiff (b :: bs) (b :: cs) = firstDiff bs cs + 1 := if_pos rfl
      simp only [hdiff, set_cons_succ, drop_succ_cons, foldPath, hrest, hpair.1]
    · have hdiff : firstDiff (b :: bs) (c :: cs) = 0 := if_neg hbc
      simp only [hdiff, set_cons_zero, drop_succ_cons, drop_zero]
      -- at the parting each path has the other's subtree as its sibling
      cases b <;> cases c
      · exact absurd rfl hbc
      · have hx := (Prod.mk.inj htop).1
        simp [foldPath, hx]
      · have hx := (Prod.mk.inj htop).2
        simp [foldPath, hx]
      · exact absurd rfl hbc

/-! ## The tree of a set of keys -/

section Keys
variable (bits : K → List Bool) (occ : K → D) (emp : D)

open Classical in
noncomputable def setLeaf (S : Set K) (p : List Bool) : D :=
  if h : ∃ k ∈ S, bits k = p then occ h.choose else emp

/-- The root of the tree of height `n` of a set. -/
noncomputable def setRoot (n : Nat) (S : Set K) : D := treeRoot node n (setLeaf bits occ emp S)

variable {bits} in
open Classical in
theorem setLeaf_bits (hbits : Function.Injective bits) (S : Set K) (k : K) :
    setLeaf bits occ emp S (bits k) = if k ∈ S then occ k else emp := by
  unfold setLeaf
  by_cases hk : k ∈ S
  · have h : ∃ k' ∈ S, bits k' = bits k := ⟨k, hk, rfl⟩
    rw [dif_pos h, if_pos hk, hbits h.choose_spec.2]
  · rw [dif_neg (by rintro ⟨k', hk', e⟩; exact hk (hbits e ▸ hk')), if_neg hk]

variable {bits} in
theorem setLeaf_insert (hbits : Function.Injective bits) (S : Set K) (k : K) :
    setLeaf bits occ emp (insert k S) =
      Function.update (setLeaf bits occ emp S) (bits k) (occ k) := by
  classical
  funext p
  by_cases hp : p = bits k
  · subst hp
    rw [setLeaf_bits occ emp hbits, Function.update_self, if_pos (Set.mem_insert k S)]
  · rw [Function.update_of_ne hp]
    by_cases h : ∃ k' ∈ S, bits k' = p
    · obtain ⟨k', hk', rfl⟩ := h
      rw [setLeaf_bits occ emp hbits, setLeaf_bits occ emp hbits, if_pos hk',
        if_pos (Set.mem_insert_of_mem k hk')]
    · have h' : ¬ ∃ k' ∈ insert k S, bits k' = p := by
        rintro ⟨k', rfl | hk', e⟩
        · exact hp e.symm
        · exact h ⟨k', hk', e⟩
      simp only [setLeaf, dif_neg h, dif_neg h']

variable {bits} in
/-- The path of a key in the tree of a set, folded with the occupied leaf, gives the root of the
set with the key added. -/
theorem foldPath_setLeaf_occ (hbits : Function.Injective bits) (S : Set K) (k : K) :
    foldPath node (bits k) (siblings node (bits k) (setLeaf bits occ emp S)) (occ k) =
      setRoot node bits occ emp (bits k).length (insert k S) := by
  rw [foldPath_siblings_update, setRoot, setLeaf_insert occ emp hbits]

theorem foldPath_setLeaf (S : Set K) (k : K) :
    foldPath node (bits k) (siblings node (bits k) (setLeaf bits occ emp S))
      (setLeaf bits occ emp S (bits k)) = setRoot node bits occ emp (bits k).length S :=
  foldPath_siblings node _ _

theorem setRoot_empty_succ (n : Nat) :
    setRoot node bits occ emp (n + 1) ∅ =
      node (setRoot node bits occ emp n ∅) (setRoot node bits occ emp n ∅) := by
  have h : setLeaf bits occ emp ∅ = fun _ => emp := by
    funext p; simp [setLeaf]
  simp [setRoot, treeRoot, h]

end Keys

/-! ## Compressed sibling lists -/

section Compress
variable [DecidableEq D]

/-- Siblings equal to their default are dropped; the mask marks the others. -/
def compress : List D → List D → List Bool × List D
  | d :: ds, s :: ss =>
    let (mask, kept) := compress ds ss
    if s = d then (false :: mask, kept) else (true :: mask, s :: kept)
  | _, _ => ([], [])

/-- The full list back; `none` when the mask and the siblings do not fit or a default sibling is
spelled out. -/
def expand : List D → List Bool → List D → Option (List D)
  | [], [], [] => some []
  | d :: ds, false :: mask, kept => (expand ds mask kept).map (d :: ·)
  | d :: ds, true :: mask, s :: kept =>
    if s = d then none else (expand ds mask kept).map (s :: ·)
  | _, _, _ => none

theorem expand_eq_some {ds kept ss : List D} {mask : List Bool}
    (h : expand ds mask kept = some ss) :
    ss.length = ds.length ∧ compress ds ss = (mask, kept) := by
  induction ds generalizing mask kept ss with
  | nil =>
    cases mask <;> cases kept <;> simp [expand] at h
    subst h
    exact ⟨rfl, rfl⟩
  | cons d ds ih =>
    cases mask with
    | nil => simp [expand] at h
    | cons b mask =>
      cases b with
      | false =>
        simp only [expand, Option.map_eq_some_iff] at h
        obtain ⟨rest, hrest, rfl⟩ := h
        obtain ⟨hlen, hc⟩ := ih hrest
        simp [compress, hlen, hc]
      | true =>
        cases kept with
        | nil => simp [expand] at h
        | cons s kept =>
          simp only [expand] at h
          split at h
          · cases h
          · rename_i hne
            rw [Option.map_eq_some_iff] at h
            obtain ⟨rest, hrest, rfl⟩ := h
            obtain ⟨hlen, hc⟩ := ih hrest
            simp [compress, hlen, hc, hne]

theorem expand_compress (ds ss : List D) (h : ss.length = ds.length) :
    expand ds (compress ds ss).1 (compress ds ss).2 = some ss := by
  induction ds generalizing ss with
  | nil => cases ss with
    | nil => rfl
    | cons s ss => simp at h
  | cons d ds ih => cases ss with
    | nil => simp at h
    | cons s ss =>
      have hrec := ih ss (by simpa using h)
      by_cases hs : s = d
      · simp [compress, expand, hs, hrec]
      · simp [compress, expand, hs, hrec]

end Compress

end SparseMerkle
