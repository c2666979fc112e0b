import Mathlib.Data.Set.Function
import Mathlib.Data.List.Induction

/-!
# Hash chains

A chain is a list of items with a digest after each: the next digest is that of a text of the digest before it
and of the item.
-/

namespace Veld.HashChain

open List

section
variable {ρ α β δ : Type}

/-- The steps of a chain: what is hashed at a position, and the position after it. -/
structure Scheme (ρ α β δ : Type) where
  text : ρ → α → β
  next : ρ → α → ρ
  length : ρ → Nat
  digest : ρ → δ
  hash : β → δ
  digest_next : ∀ p a, digest (next p a) = hash (text p a)
  length_next : ∀ p a, length (next p a) = length p + 1
  /-- A text has the item and the position before it. -/
  text_inj : ∀ {p q a b}, text p a = text q b → p = q ∧ a = b

variable (S : Scheme ρ α β δ)

/-- The position after the items. -/
def run (p : ρ) (items : List α) : ρ := items.foldl S.next p

/-- Every text that the chain hashes is in `W`. -/
def Within (W : Set β) : ρ → List α → Prop
  | _, [] => True
  | p, a :: rest => S.text p a ∈ W ∧ Within W (S.next p a) rest

variable {S} {W : Set β} {p q : ρ} {items items' : List α}

theorem run_concat (p : ρ) (items : List α) (a : α) : run S p (items ++ [a]) = S.next (run S p items) a := by
  rw [run, foldl_append]
  rfl

theorem length_run (p : ρ) (items : List α) : S.length (run S p items) = S.length p + items.length := by
  induction items generalizing p with
  | nil => rfl
  | cons a rest ih =>
    rw [run, foldl_cons, ← run, ih, S.length_next, length_cons]
    omega

theorem within_append (items items' : List α) :
    Within S W p (items ++ items') ↔ Within S W p items ∧ Within S W (run S p items) items' := by
  induction items generalizing p with
  | nil => exact ⟨fun h => ⟨trivial, h⟩, fun h => h.2⟩
  | cons a rest ih =>
    rw [cons_append, Within, Within, ih, and_assoc]
    rfl

theorem Within.of_initial (h : Within S W p items') (hinitial : items <+: items') : Within S W p items := by
  obtain ⟨rest, rfl⟩ := hinitial
  exact ((within_append items rest).mp h).1

theorem run_injective (hinj : Set.InjOn S.hash W) (h : Within S W p items) (h' : Within S W p items')
    (heq : run S p items = run S p items') : items = items' := by
  have hlength : items.length = items'.length := by
    have hlen := congrArg S.length heq
    rw [length_run, length_run] at hlen
    exact Nat.add_left_cancel hlen
  -- from the last item to the first
  induction items using List.reverseRecOn generalizing items' with
  | nil => exact (eq_nil_of_length_eq_zero hlength.symm).symm
  | append_singleton rest a ih =>
    obtain rfl | ⟨rest', a', rfl⟩ := eq_nil_or_concat items'
    · simp at hlength
    rw [concat_eq_append] at h' heq hlength ⊢
    rw [run_concat, run_concat] at heq
    obtain ⟨hrest, hlast⟩ := (within_append rest [a]).mp h
    obtain ⟨hrest', hlast'⟩ := (within_append rest' [a']).mp h'
    have hdigest := congrArg S.digest heq
    rw [S.digest_next, S.digest_next] at hdigest
    obtain ⟨hposition, rfl⟩ := S.text_inj (hinj hlast.1 hlast'.1 hdigest)
    rw [ih hrest hrest' hposition (by simpa using hlength)]

end

end Veld.HashChain
