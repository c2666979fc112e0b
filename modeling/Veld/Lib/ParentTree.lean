import Mathlib

/-!
# Parent-linked stores

A store of nodes that name their parent by key and was grown from one root. Stored nodes are *rooted*: the links
of each lead down to the root, one height at a time.
-/

namespace ParentTree

open List

variable {κ ν : Type}

/-- The root is stored; every other stored node has its parent stored, one below it. -/
structure Rooted (get : κ → Option ν) (parent : ν → κ) (height : ν → Nat) (root : κ) : Prop where
  root_stored : ∃ r, get root = some r
  linked : ∀ k v, get k = some v → k ≠ root →
    ∃ p, get (parent v) = some p ∧ height v = height p + 1

/-- The links of the stored node `k` lead to `a`, without passing the root. -/
inductive Ancestor (get : κ → Option ν) (parent : ν → κ) (root : κ) (a : κ) : κ → Prop
  | refl {v : ν} : get a = some v → Ancestor get parent root a a
  | step {k : κ} {v : ν} : get k = some v → k ≠ root → Ancestor get parent root a (parent v) →
      Ancestor get parent root a k

/-- The keys from the root to `k`, the root first. -/
inductive Path (get : κ → Option ν) (parent : ν → κ) (root : κ) : List κ → κ → Prop
  | root {r : ν} : get root = some r → Path get parent root [root] root
  | snoc {l : List κ} {k : κ} {v : ν} : get k = some v → k ≠ root →
      Path get parent root l (parent v) → Path get parent root (l ++ [k]) k

variable {get get' : κ → Option ν} {parent : ν → κ} {height : ν → Nat} {root a b k : κ}
  {l : List κ} {u v w : ν}

/-! ## Ancestors -/

theorem Ancestor.left_stored (h : Ancestor get parent root a k) : ∃ v, get a = some v := by
  induction h with
  | refl ha => exact ⟨_, ha⟩
  | step _ _ _ ih => exact ih

theorem Ancestor.height_le (hr : Rooted get parent height root)
    (h : Ancestor get parent root a k) (ha : get a = some u) (hk : get k = some v) :
    height u ≤ height v := by
  induction h generalizing v with
  | refl =>
    cases ha.symm.trans hk
    exact le_rfl
  | step hk' hne _ ih =>
    cases hk'.symm.trans hk
    obtain ⟨p, hp, hheight⟩ := hr.linked _ _ hk hne
    exact (ih hp).trans (by omega)

theorem Ancestor.trans (h : Ancestor get parent root a b) (h' : Ancestor get parent root b k) :
    Ancestor get parent root a k := by
  induction h' with
  | refl => exact h
  | step hk hne _ ih => exact .step hk hne ih

theorem Ancestor.of_height_le (hr : Rooted get parent height root)
    (h : Ancestor get parent root a k) (h' : Ancestor get parent root b k) (ha : get a = some u)
    (hb : get b = some w) (hle : height u ≤ height w) : Ancestor get parent root a b := by
  induction h' with
  | refl => exact h
  | step hk hne hup ih =>
    cases h with
    | refl =>
      obtain ⟨p, hp, hheight⟩ := hr.linked _ _ hk hne
      have := hup.height_le hr hb hp
      cases ha.symm.trans hk
      omega
    | step hk' _ hup' =>
      cases hk.symm.trans hk'
      exact ih hup'

theorem Ancestor.eq_of_height (hr : Rooted get parent height root)
    (h : Ancestor get parent root a k) (h' : Ancestor get parent root b k) (ha : get a = some u)
    (hb : get b = some w) (heq : height u = height w) : a = b := by
  cases h.of_height_le hr h' ha hb heq.le with
  | refl => rfl
  | step hk hne hup =>
    obtain ⟨p, hp, hheight⟩ := hr.linked _ _ hk hne
    have hle := hup.height_le hr ha hp
    cases hb.symm.trans hk
    omega

theorem Ancestor.grown (hsub : ∀ k v, get k = some v → get' k = some v)
    (h : Ancestor get parent root a k) : Ancestor get' parent root a k := by
  induction h with
  | refl ha => exact .refl (hsub _ _ ha)
  | step hk hne _ ih => exact .step (hsub _ _ hk) hne ih

/-! ## Paths -/

theorem Rooted.path (hr : Rooted get parent height root) (hk : get k = some v) :
    ∃ l, Path get parent root l k := by
  induction hn : height v generalizing k v with
  | zero =>
    by_cases hroot : k = root
    · subst hroot
      exact ⟨_, .root hk⟩
    · obtain ⟨p, -, hheight⟩ := hr.linked _ _ hk hroot
      omega
  | succ n ih =>
    by_cases hroot : k = root
    · subst hroot
      exact ⟨_, .root hk⟩
    · obtain ⟨p, hp, hheight⟩ := hr.linked _ _ hk hroot
      obtain ⟨l, hl⟩ := ih hp (by omega)
      exact ⟨_, .snoc hk hroot hl⟩

theorem Path.mem_iff (h : Path get parent root l k) :
    a ∈ l ↔ Ancestor get parent root a k := by
  induction h with
  | root hr =>
    rw [mem_singleton]
    constructor
    · rintro rfl
      exact .refl hr
    · intro h
      cases h with
      | refl => rfl
      | step _ hne _ => exact absurd rfl hne
  | snoc hk hne _ ih =>
    rw [mem_append, mem_singleton, ih]
    constructor
    · rintro (h | rfl)
      · exact .step hk hne h
      · exact .refl hk
    · intro h
      cases h with
      | refl => exact .inr rfl
      | step hk' _ hup =>
        cases hk.symm.trans hk'
        exact .inl hup

section
variable (hr : Rooted get parent height root) (h : Path get parent root l k)
include hr h

theorem Path.length_eq (hroot : get root = some w) (hk : get k = some v) :
    l.length + height w = height v + 1 := by
  induction h generalizing v with
  | root =>
    cases hroot.symm.trans hk
    simp [add_comm]
  | snoc hk' hne _ ih =>
    cases hk'.symm.trans hk
    obtain ⟨p, hp, hheight⟩ := hr.linked _ _ hk hne
    have := ih hp
    simp only [length_append, length_singleton]
    omega

theorem Path.height_at (hroot : get root = some w) {i : Nat} (hi : l[i]? = some a) :
    ∃ u, get a = some u ∧ height u = height w + i := by
  induction h with
  | root =>
    rw [List.getElem?_singleton] at hi
    split at hi
    · cases hi
      exact ⟨w, hroot, by omega⟩
    · cases hi
  | @snoc l k v hk hne hpath ih =>
    rw [List.getElem?_append] at hi
    split at hi
    · exact ih hi
    · rw [List.getElem?_singleton] at hi
      split at hi
      · cases hi
        obtain ⟨p, hp, hheight⟩ := hr.linked _ _ hk hne
        have := hpath.length_eq hr hroot hp
        exact ⟨v, hk, by omega⟩
      · cases hi

theorem Path.getElem?_iff (hroot : get root = some w) (ha : get a = some u) :
    (height w ≤ height u ∧ l[height u - height w]? = some a) ↔ Ancestor get parent root a k := by
  rw [← h.mem_iff]
  constructor
  · rintro ⟨-, hi⟩
    exact mem_of_getElem? hi
  · intro hmem
    obtain ⟨i, hi⟩ := mem_iff_getElem?.mp hmem
    obtain ⟨u', ha', hheight⟩ := h.height_at hr hroot hi
    cases ha.symm.trans ha'
    exact ⟨by omega, by rwa [show height u - height w = i by omega]⟩

theorem Path.nodup : l.Nodup := by
  obtain ⟨w, hroot⟩ := hr.root_stored
  rw [nodup_iff_getElem?_ne_getElem?]
  intro i j hij hj heq
  obtain ⟨a, ha⟩ : ∃ a, l[j]? = some a := ⟨_, List.getElem?_eq_getElem hj⟩
  obtain ⟨u, hu, hi⟩ := h.height_at hr hroot (heq.trans ha)
  obtain ⟨u', hu', hj⟩ := h.height_at hr hroot ha
  cases hu.symm.trans hu'
  omega

theorem Path.length_le {keys : List κ} (hkeys : ∀ a v, get a = some v → a ∈ keys) :
    l.length ≤ keys.length := by
  refine (subperm_of_subset (h.nodup hr) fun a ha => ?_).length_le
  obtain ⟨v, hv⟩ := (h.mem_iff.mp ha).left_stored
  exact hkeys a v hv

end

theorem Path.grown (hsub : ∀ k v, get k = some v → get' k = some v)
    (h : Path get parent root l k) : Path get' parent root l k := by
  induction h with
  | root hr => exact .root (hsub _ _ hr)
  | snoc hk hne _ ih => exact .snoc (hsub _ _ hk) hne ih

/-! ## Growth -/

theorem Rooted.grow (hr : Rooted get parent height root) (hfresh : get k = none)
    (hnew : get' k = some v) (hold : ∀ j, j ≠ k → get' j = get j) (hp : get (parent v) = some u)
    (hheight : height v = height u + 1) : Rooted get' parent height root := by
  have hsub : ∀ j x, get j = some x → get' j = some x := by
    intro j x hj
    rwa [hold j]
    rintro rfl
    rw [hfresh] at hj
    cases hj
  refine ⟨hr.root_stored.imp fun r h => hsub _ _ h, fun j x hj hne => ?_⟩
  by_cases hjk : j = k
  · subst hjk
    cases hnew.symm.trans hj
    exact ⟨u, hsub _ _ hp, hheight⟩
  · obtain ⟨p, hp, hheight⟩ := hr.linked j x (by rwa [← hold j hjk]) hne
    exact ⟨p, hsub _ _ hp, hheight⟩

end ParentTree
