import Mathlib

/-!
# Weighted quorums

Members of a finite set carry weights. A supermajority is a part of them that weighs strictly more than two
thirds.
-/

namespace Quorum

variable {ι : Type*} {U A B : Finset ι} {w : ι → ℕ}

/-- Strictly more than two thirds of the weight of `U`. -/
def Supermajority (U : Finset ι) (w : ι → ℕ) (A : Finset ι) : Prop :=
  A ⊆ U ∧ 2 * ∑ i ∈ U, w i < 3 * ∑ i ∈ A, w i

theorem Supermajority.third_lt_inter [DecidableEq ι] (hA : Supermajority U w A)
    (hB : Supermajority U w B) : ∑ i ∈ U, w i < 3 * ∑ i ∈ A ∩ B, w i := by
  have hunion : ∑ i ∈ A ∪ B, w i ≤ ∑ i ∈ U, w i :=
    Finset.sum_le_sum_of_subset (Finset.union_subset hA.1 hB.1)
  have hsplit : ∑ i ∈ A ∪ B, w i + ∑ i ∈ A ∩ B, w i = ∑ i ∈ A, w i + ∑ i ∈ B, w i :=
    Finset.sum_union_inter
  have hAw := hA.2
  have hBw := hB.2
  omega

/-- The faulty members weigh less than one third. -/
def FewFaulty (U : Finset ι) (w : ι → ℕ) (honest : ι → Prop) [DecidablePred honest] : Prop :=
  3 * ∑ i ∈ U with ¬ honest i, w i < ∑ i ∈ U, w i

theorem FewFaulty.exists_honest [DecidableEq ι] {honest : ι → Prop} [DecidablePred honest]
    (h : FewFaulty U w honest) (hA : Supermajority U w A) (hB : Supermajority U w B) :
    ∃ i ∈ A, i ∈ B ∧ honest i := by
  by_contra hnone
  push Not at hnone
  have hsub : A ∩ B ⊆ U.filter fun i => ¬ honest i := by
    intro i hi
    obtain ⟨hiA, hiB⟩ := Finset.mem_inter.mp hi
    exact Finset.mem_filter.mpr ⟨hA.1 hiA, hnone i hiA hiB⟩
  have hle : ∑ i ∈ A ∩ B, w i ≤ ∑ i ∈ U with ¬ honest i, w i := Finset.sum_le_sum_of_subset hsub
  have hinter := hA.third_lt_inter hB
  unfold FewFaulty at h
  omega

end Quorum
