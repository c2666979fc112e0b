import Mathlib

/-!
# Roots by pairing

A list is folded to one value by joining neighbours, round after round, until one is left; an odd last element
is carried over to the next round.
-/

namespace PairTree

open List

section
variable {α β : Type*}

/-- One round: neighbours are joined, an odd last element is kept. -/
def pairUp (join : α → α → α) : List α → List α
  | x :: y :: rest => join x y :: pairUp join rest
  | xs => xs

theorem length_pairUp_le (join : α → α → α) (xs : List α) : (pairUp join xs).length ≤ xs.length := by
  induction xs using pairUp.induct with
  | case1 x y rest ih =>
    simp only [pairUp, length_cons]
    omega
  | case2 xs h =>
    rw [pairUp]
    exact h

/-- Rounds until one element is left. -/
def pairRoot (join : α → α → α) : α → List α → α
  | x, [] => x
  | x, y :: rest => pairRoot join (join x y) (pairUp join rest)
termination_by _ xs => xs.length
decreasing_by
  have := length_pairUp_le join rest
  simp only [List.length_cons]
  omega

variable {join : α → α → α}

theorem map_pairUp {join' : β → β → β} {f : α → β} (hf : ∀ x y, f (join x y) = join' (f x) (f y))
    (xs : List α) : (pairUp join xs).map f = pairUp join' (xs.map f) := by
  induction xs using pairUp.induct with
  | case1 x y rest ih => simp [pairUp, hf, ih]
  | case2 xs h => match xs with
    | [] => rfl
    | [_] => rfl
    | x :: y :: rest => exact absurd rfl (h x y rest)

theorem map_pairRoot (join' : β → β → β) {f : α → β} (hf : ∀ x y, f (join x y) = join' (f x) (f y))
    (x : α) (xs : List α) : f (pairRoot join x xs) = pairRoot join' (f x) (xs.map f) := by
  induction x, xs using pairRoot.induct join with
  | case1 x => simp [pairRoot]
  | case2 x y rest ih => rw [pairRoot, ih, hf, map_pairUp hf, map_cons, pairRoot]

theorem flatten_pairUp (xs : List (List α)) : (pairUp (· ++ ·) xs).flatten = xs.flatten := by
  induction xs using pairUp.induct with
  | case1 x y rest ih => simp [pairUp, ih]
  | case2 xs h => rw [pairUp]; exact h

theorem pairRoot_append (x : List α) (xs : List (List α)) : pairRoot (· ++ ·) x xs = x ++ xs.flatten := by
  induction x, xs using pairRoot.induct (fun a b : List α => a ++ b) with
  | case1 x => simp [pairRoot]
  | case2 x y rest ih => rw [pairRoot, ih, flatten_pairUp, flatten_cons, append_assoc]

end

inductive Tree (α : Type*)
  | leaf (a : α)
  | branch (l r : Tree α)

namespace Tree

variable {α D : Type*} (hash : α ⊕ D × D → D)

def leaves : Tree α → List α
  | leaf a => [a]
  | branch l r => leaves l ++ leaves r

def digest : Tree α → D
  | leaf a => hash (.inl a)
  | branch l r => hash (.inr (digest l, digest r))

/-- What is hashed for a tree. -/
def hashed : Tree α → Set (α ⊕ D × D)
  | leaf a => {.inl a}
  | branch l r => {.inr (digest hash l, digest hash r)} ∪ hashed l ∪ hashed r

variable {hash} in
/-- Without a collision on what is hashed, the digest determines the tree. -/
theorem digest_injective {W : Set (α ⊕ D × D)} (hcf : Set.InjOn hash W) {t t' : Tree α} (ht : hashed hash t ⊆ W)
    (ht' : hashed hash t' ⊆ W) (h : digest hash t = digest hash t') : t = t' := by
  induction t generalizing t' with
  | leaf a =>
    cases t' with
    | leaf b => rw [Sum.inl.inj (hcf (ht rfl) (ht' rfl) h)]
    | branch l r => exact absurd (hcf (ht rfl) (ht' (.inl (.inl rfl))) h) Sum.inl_ne_inr
  | branch l r ihl ihr =>
    cases t' with
    | leaf b => exact absurd (hcf (ht (.inl (.inl rfl))) (ht' rfl) h) Sum.inr_ne_inl
    | branch l' r' =>
      obtain ⟨hl, hr⟩ := Prod.mk.inj (Sum.inr.inj (hcf (ht (.inl (.inl rfl))) (ht' (.inl (.inl rfl))) h))
      rw [ihl (fun _ hx => ht (.inl (.inr hx))) (fun _ hx => ht' (.inl (.inr hx))) hl,
        ihr (fun _ hx => ht (.inr hx)) (fun _ hx => ht' (.inr hx)) hr]

/-- The tree of a list with at least one element, by the same rounds. -/
def build (a : α) (rest : List α) : Tree α := pairRoot branch (leaf a) (rest.map leaf)

theorem digest_build (a : α) (rest : List α) : digest hash (build a rest) =
    pairRoot (fun x y => hash (.inr (x, y))) (hash (.inl a)) (rest.map fun a => hash (.inl a)) := by
  rw [build, map_pairRoot (f := digest hash) (fun x y => hash (.inr (x, y))) fun _ _ => rfl, map_map]
  rfl

theorem leaves_build (a : α) (rest : List α) : leaves (build a rest) = a :: rest := by
  have hmap : (rest.map leaf).map leaves = rest.map fun a => [a] := by
    rw [map_map]
    rfl
  rw [build, map_pairRoot (f := leaves) (· ++ ·) fun _ _ => rfl, pairRoot_append, hmap, ← flatMap_def,
    flatMap_singleton']
  rfl

end Tree

end PairTree
